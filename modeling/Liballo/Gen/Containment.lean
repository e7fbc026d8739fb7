import Liballo.Gen.Realloc

/-!
# Containment

The generic allocator asks its pools, its buddy allocator and its page allocator in turn
whether an address is theirs. The buffers of the pools lie in the buffer of the buddy
allocator, which lies in a registered mapping, so the answer is always that of the registry.
-/

namespace Liballo

open Foundation

/-!
# The answer of the registry
-/

section Nesting

variable {os : Os} {base L : List Block} {m₀ : Mem} {s : GenState}
variable {fl free : Nat -> List Nat} {pl bl : List Block} {sl : Nat -> List Nat}
variable {b d : Block} {x : Nat}

theorem genScanPools_yes {i n : Nat} (h : genScanPools x s i n = AlloContains.yes) :
    exists j, j < i + n ∧ poolContainsFn x (s.pool j) = AlloContains.yes := by
  induction n generalizing i with
  | zero => cases h
  | succ n ih =>
      unfold genScanPools at h
      split at h
      · rename_i hyes
        exact ⟨i, Nat.lt_add_of_pos_right (Nat.succ_pos n), hyes⟩
      · rcases ih h with ⟨j, hj, hyes⟩
        refine ⟨j, ?_, hyes⟩
        omega

namespace GenParts

/-- The mapping of a block in the hands of the tower is registered. -/
theorem registered (h : GenParts os base m₀ (List.range poolCount) s fl free pl bl sl)
    (hb : b ∈ s.tower.ctx.tables ++ (s.tower.ctx.ownBlocks ++ pl)) :
    s.tower.child.Registered (s.pageBlock b) := by
  rcases h.page.live with ⟨es, hlive⟩
  exact (registered_iff hlive.inv _).mpr (hlive.mem_map (List.mem_append_left _ hb))

theorem pageContains_iff
    (h : GenParts os base m₀ (List.range poolCount) s fl free pl bl sl) (x : Nat) :
    pageContainsFn x s.tower.child = AlloContains.yes <->
      exists e, s.tower.child.Registered e ∧ e.Contains x := by
  rcases h.page.live with ⟨es, hlive⟩
  rw [pageContainsFn_spec hlive.inv]
  simp only [registered_iff hlive.inv]
  split
  · rename_i hyes
    exact iff_of_true rfl hyes
  · rename_i hno
    exact iff_of_false (fun heq => by cases heq) hno

/-- The buffer of the buddy allocator lies in a registered mapping. -/
theorem region_contains (h : GenParts os base m₀ (List.range poolCount) s fl free pl bl sl)
    (hx : s.tower.ctx.region.Contains x) :
    pageContainsFn x s.tower.child = AlloContains.yes :=
  (h.pageContains_iff x).mpr ⟨_, h.registered h.region_mem,
    (h.pageBlock_inside h.region_mem).contains hx⟩

/-- The checks of the pools and of the buddy allocator never change the answer. -/
theorem contains_eq (h : GenParts os base m₀ (List.range poolCount) s fl free pl bl sl)
    (x : Nat) : genContainsFn x s = pageContainsFn x s.tower.child := by
  unfold genContainsFn
  split
  · rename_i hpools
    rcases genScanPools_yes hpools with ⟨i, hi, hyes⟩
    rw [Nat.zero_add] at hi
    have hact : i ∈ List.range poolCount := List.mem_range.mpr hi
    have hbuffer : (s.poolBuffer i).Contains x := ((h.pools i hact).contains_eq x).mp hyes
    exact (h.region_contains ((h.buffer_inside hact).contains hbuffer)).symm
  · split
    · rename_i hbuddy
      have hregion := (buddyContainsFn_iff h.buddy.inv.geom x).mp hbuddy
      exact (h.region_contains hregion).symm
    · split
      · rename_i hyes
        exact hyes.symm
      · rename_i hno
        rcases h.page.live with ⟨es, hlive⟩
        rw [pageContainsFn_spec hlive.inv] at hno ⊢
        split at hno
        · exact absurd rfl hno
        · rename_i hnone
          rw [if_neg hnone]

theorem contains_iff (h : GenParts os base m₀ (List.range poolCount) s fl free pl bl sl)
    (x : Nat) : genContainsFn x s = AlloContains.yes <->
      exists e, s.tower.child.Registered e ∧ e.Contains x := by
  rw [h.contains_eq x]
  exact h.pageContains_iff x

/-- Registered mappings are live. -/
theorem registered_live (h : GenParts os base m₀ (List.range poolCount) s fl free pl bl sl)
    (hd : s.tower.child.Registered d) : d ∈ liveMaps (mem s).trace := by
  rcases h.page.live with ⟨es, hlive⟩
  exact hlive.inv.holds.mem (List.mem_cons_of_mem _ ((registered_iff hlive.inv d).mp hd))

/-- An address outside all live mappings is not contained. -/
theorem contains_no (h : GenParts os base m₀ (List.range poolCount) s fl free pl bl sl)
    (hx : forall d, d ∈ liveMaps (mem s).trace -> ¬ d.Contains x) :
    genContainsFn x s = AlloContains.no := by
  rcases h.page.live with ⟨es, hlive⟩
  rw [h.contains_eq x, pageContainsFn_spec hlive.inv, if_neg]
  rintro ⟨d, hd, hin⟩
  exact hx d (h.registered_live ((registered_iff hlive.inv d).mpr hd)) hin

end GenParts

/-- The bytes of a live block are contained. -/
theorem GenLive.contains_live (h : GenLive os base m₀ s fl free L) (hb : b ∈ L)
    (hx : b.Contains x) : genContainsFn x s = AlloContains.yes := by
  have hserved := (h.served_inside hb).contains hx
  rcases h with ⟨pl, bl, sl, hparts, hsplit⟩
  have hmem := (hsplit.served_perm s).mem_iff.mp (List.mem_map_of_mem (f := s.served) hb)
  rcases hparts.serving_mapped hmem with ⟨d, hd, hinside⟩
  have hheld : d ∈ s.tower.ctx.tables ++ (s.tower.ctx.ownBlocks ++ pl) := by
    cases hd with
    | head => exact hparts.region_mem
    | tail _ hd => exact GenParts.large_mem hd
  exact (hparts.contains_iff x).mpr ⟨_, hparts.registered hheld, hinside.contains hserved⟩

end Nesting

/-!
# Large blocks that were freed

A step that ends the life of a large block gives up its mapping. From then on its addresses
are in a live mapping only if they are granted again.
-/

section Freed

variable {os : Os} {base : List Block} {m₀ : Mem} {frame : Nat}
variable {fl free : Nat -> List Nat} {s s₁ s' : Session GenState} {b : Block}

/-- The run of the page allocator may be followed from any state on. -/
theorem GenLive.from_here {s : GenState} {L : List Block}
    (h : GenLive os base m₀ s fl free L) : GenLive os base (mem s) s fl free L := by
  rcases h with ⟨pl, bl, sl, hparts, hsplit⟩
  exact ⟨pl, bl, sl,
    { hparts with page := { hparts.page with traced := Traced.refl _ _ } }, hsplit⟩

/-- Every event since then keeps to live mappings. -/
theorem GenLive.traced {s : GenState} {L : List Block}
    (h : GenLive os base m₀ s fl free L) : Traced MapEvent m₀ (mem s) := by
  rcases h with ⟨pl, bl, sl, hparts, _⟩
  exact hparts.page.traced.mono (fun _ _ he => he.left)

theorem genFree_givenUp (h : GenLive os base m₀ s.state fl free s.live) (hb : b ∈ s.live)
    (ht : genTier b.size = Tier.page) {t : GenState}
    (hcall : genFreeFn os b.ptr b.size s.state = some t) :
    givenUp (mem t).trace = s.state.pageBlock b :: givenUp (mem s.state).trace := by
  have hptr := h.ptr_ne_null hb
  rw [genFreeFn_page hptr ht rfl] at hcall
  cases hcall
  exact pageFreeFn_givenUp hptr b.size

/-- A large block is freed, or it is reallocated to another address. -/
theorem genStep_givenUp (h : GenLive os base m₀ s.state fl free s.live) (hb : b ∈ s.live)
    (ht : genTier b.size = Tier.page) {op : Op} (hlegal : s.Legal op)
    (hexec : Session.exec (genAllo os frame) op s = some s₁)
    (hgone : forall d, d ∈ s₁.live -> d.ptr ≠ b.ptr) :
    givenUp (mem s₁.state).trace = s.state.pageBlock b :: givenUp (mem s.state).trace := by
  have hptr := h.ptr_ne_null hb
  by_cases hfree : op = Op.free b
  · subst hfree
    rcases Session.exec_free hexec with ⟨t, hcall, rfl⟩
    exact genFree_givenUp h hb ht hcall
  by_cases hrealloc : exists n, op = Op.realloc b n
  · rcases hrealloc with ⟨n, rfl⟩
    rcases Session.exec_realloc hexec with ⟨q, t, hcall, rfl⟩
    rw [Session.afterRealloc_state]
    have hstays : forall k, (⟨b.ptr, k⟩ : Block) ∉ (s.afterRealloc b n q t).live :=
      fun k hk => hgone _ hk rfl
    rcases alloRealloc_cases hptr hcall with
      ⟨_, _, hfreed⟩ | ⟨hpos, _, hq, _⟩ | ⟨hpos, _, hpass⟩
    · exact genFree_givenUp h hb ht hfreed
    · have hno := hstays n
      rw [hq, s.afterRealloc_placed b t hpos hptr] at hno
      exact absurd List.mem_cons_self hno
    · have hq : q ≠ NULL := by
        rintro rfl
        have hno := hstays b.size
        rw [s.afterRealloc_null b t hpos] at hno
        exact hno hb
      refine h.realloc_givenUp hb hpos hlegal.right ht hpass hq ?_
      rintro rfl
      have hno := hstays n
      rw [s.afterRealloc_placed b t hpos hq] at hno
      exact hno List.mem_cons_self
  · have hkept := Session.exec_stays_live hexec hb hfree
      (fun n heq => hrealloc ⟨n, heq⟩)
    exact absurd rfl (hgone b hkept)

/-- The bytes of a large block that was freed are not contained until they are granted
again. -/
theorem GenLive.freed_no (h : GenLive os base m₀ s.state fl free s.live) (hb : b ∈ s.live)
    (ht : genTier b.size = Tier.page) {op : Op} (hlegal : s.Legal op)
    (hexec : Session.exec (genAllo os frame) op s = some s₁)
    (hgone : forall d, d ∈ s₁.live -> d.ptr ≠ b.ptr)
    (hreach : (Session.client (genAllo os frame)).Reaches s₁ s') :
    exists es, (mem s'.state).trace = es ++ (mem s.state).trace ∧
      forall x, b.Contains x -> (forall d, d ∈ granted es -> ¬ d.Contains x) ->
        genContainsFn x s'.state = AlloContains.no := by
  have hgiven := genStep_givenUp h hb ht hlegal hexec hgone
  have hstep : exists s₂ fl₁ free₁, GenStepped os base (mem s.state) frame s op s₂ fl₁
      free₁ := gen_step h.from_here hlegal
  rcases hstep with ⟨s₂, fl₁, free₁, hstepped⟩
  have heq : s₂ = s₁ := Option.some.inj (hstepped.exec.symm.trans hexec)
  rw [heq] at hstepped
  rcases gen_run_from hstepped.live hreach with ⟨fl', free', hlive', _⟩
  rcases gen_run_from hstepped.live.from_here hreach with ⟨_, _, hlater, _⟩
  rcases hlater.traced with ⟨es₂, htrace₂, _⟩
  rcases hlive'.traced with ⟨es, htrace, hjudged⟩
  -- What was given up since the state before the step.
  have hsince : givenUp es = givenUp es₂ ++ [s.state.pageBlock b] := by
    have hall := congrArg givenUp (htrace.symm.trans htrace₂)
    rw [givenUp_append, givenUp_append, hgiven] at hall
    have hsplit : givenUp es ++ givenUp (mem s.state).trace =
        (givenUp es₂ ++ [s.state.pageBlock b]) ++ givenUp (mem s.state).trace := by
      rw [List.append_assoc]
      exact hall
    exact List.append_cancel_right hsplit
  have hback : s.state.pageBlock b ∈ givenUp es := by
    rw [hsince]
    exact List.mem_append_right _ List.mem_cons_self
  refine ⟨es, htrace, ?_⟩
  intro x hx hnew
  rcases hlive' with ⟨pl', bl', sl', hparts', _⟩
  apply hparts'.contains_no
  rw [htrace]
  rcases h with ⟨pl, bl, sl, hparts, hsplit⟩
  have hlarge := hsplit.mem_large hb ht
  have hin := (hparts.pageBlock_inside (GenParts.large_mem hlarge)).contains hx
  rcases hparts.page.live with ⟨entries, hlive⟩
  have hheld : s.state.pageBlock b ∈ s.state.tower.child.ctx.registryMap :: entries :=
    List.mem_cons_of_mem _ (hlive.mem_map
      (List.mem_append_left _ (GenParts.large_mem hlarge)))
  have hholds := hlive.inv.holds
  exact not_live_of_givenUp hjudged (hholds.mem hheld)
    (fun d hd => (hholds.alone hheld hd).not_contains hin) hback hin hnew

end Freed

/-!
# The specification
-/

/-- What the generic allocator answers in a state of a client. -/
structure GenContains (os : Os) (frame : Nat) (s : Session GenState) : Prop where
  registry : forall x, genContainsFn x s.state = AlloContains.yes <->
    exists e, s.state.tower.child.Registered e ∧ e.Contains x
  mapped : forall e, s.state.tower.child.Registered e ->
    e ∈ liveMaps (mem s.state).trace
  agrees : forall x, genContainsFn x s.state = pageContainsFn x s.state.tower.child
  live : forall b, b ∈ s.live -> forall x, b.Contains x ->
    genContainsFn x s.state = AlloContains.yes
  freed : forall b, b ∈ s.live -> genTier b.size = Tier.page ->
    forall op s₁ s', s.Legal op -> Session.exec (genAllo os frame) op s = some s₁ ->
      (forall d, d ∈ s₁.live -> d.ptr ≠ b.ptr) ->
        (Session.client (genAllo os frame)).Reaches s₁ s' ->
          exists es, (mem s'.state).trace = es ++ (mem s.state).trace ∧
            forall x, b.Contains x -> (forall d, d ∈ granted es -> ¬ d.Contains x) ->
              genContainsFn x s'.state = AlloContains.no

/-- For every run of a client on a new generic allocator. -/
theorem gen_contains_registered {os : Os} {out frame : Nat} {m : Mem} {st : GenState}
    {s : Session GenState}
    (hpage : exists k, 4 ≤ k ∧ k < 64 ∧ os.pageSize = 2 ^ k)
    (hmake : makeGenAllocator os out frame m = some (Made.ok st))
    (hreach : (Session.client (genAllo os frame)).Reaches (Session.start st) s) :
    GenContains os frame s := by
  rcases makeGenAllocator_ok hpage hmake with ⟨m₀, fl₀, free₀, hmade⟩
  rcases gen_run hmade.live hreach with ⟨fl, free, hlive, _⟩
  have hwhole := hlive
  rcases hlive with ⟨pl, bl, sl, hparts, _⟩
  exact
    { registry := hparts.contains_iff
      mapped := fun e he => hparts.registered_live he
      agrees := hparts.contains_eq
      live := fun b hb x hx => hwhole.contains_live hb hx
      freed := fun b hb ht op s₁ s' hlegal hexec hgone hlater =>
        hwhole.freed_no hb ht hlegal hexec hgone hlater }

/-- After the first request of a client. -/
theorem gen_contains_registered_alloc : exists st s p,
    makeGenAllocator roomyOs 8 4096 onePageMem = some (Made.ok st) ∧
      s.live = [⟨p, 100⟩] ∧ GenContains roomyOs 4096 s := by
  rcases roomyOs_live with ⟨st, s, p, hmake, _, hreach, hlive⟩
  exact ⟨st, s, p, hmake, hlive, gen_contains_registered roomyOs_page hmake hreach⟩

end Liballo
