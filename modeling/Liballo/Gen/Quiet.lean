import Liballo.Gen.Service

/-!
# Work without the system

What is small or medium stays in the memory that was mapped when the generic allocator
was made: no call for it, and no move between the pools and the buddy allocator, makes a
request to the system.
-/

namespace Liballo

open Foundation

/-- Between the two memories there were local accesses only. -/
def Quiet (m m' : Mem) : Prop :=
  Wrote (fun _ _ => True) m m'

namespace Quiet

variable {m m' m'' : Mem}

theorem refl (m : Mem) : Quiet m m :=
  Wrote.refl _ m

theorem trans (h : Quiet m m') (h' : Quiet m' m'') : Quiet m m'' :=
  Wrote.trans h h'

theorem of_wrote {P : Nat -> Nat -> Prop} (h : Wrote P m m') : Quiet m m' :=
  h.mono (fun _ _ _ => trivial)

end Quiet

/-!
# One call
-/

section Calls

variable {os : Os} {base L : List Block} {m₀ : Mem} {s s' : GenState}
variable {fl free : Nat -> List Nat} {n p : Nat} {b : Block}

theorem quiet_touchPool (s : GenState) (i : Nat) : Quiet (mem s) (mem (s.touchPool i)) :=
  Quiet.of_wrote (P := fun _ _ => False) (Wrote.note trivial)

theorem quiet_alloc (h : GenLive os base m₀ s fl free L) (hle : n ≤ mediumObjLimit)
    (hcall : genAllocFn os n s = some (p, s')) : Quiet (mem s) (mem s') := by
  by_cases hpos : n = 0
  · have hnull : genAllocFn os n s = some (NULL, s) := if_pos hpos
    cases hcall.symm.trans hnull
    exact Quiet.refl _
  rcases h with ⟨pl, bl, sl, hparts, hsplit⟩
  cases ht : genTier n with
  | page => exact absurd hle (Nat.not_le.mpr (genTier_page ht))
  | buddy =>
      rcases buddyAllocFn_spec hparts.buddy.inv n with ⟨q, t, hcall', hcase⟩
      cases hcall.symm.trans (genAllocFn_buddy ht (congrArg some hcall'))
      rcases hcase with ⟨_, hrefused, _⟩ | ⟨_, _, hgrant⟩
      · exact Quiet.of_wrote hrefused.moved.wrote
      · exact Quiet.of_wrote hgrant.moved.wrote
  | pool i =>
      have hwrote := wrote_poolAllocFn n ((s.touchPool i).pool i)
      rcases hcall' : poolAllocFn n ((s.touchPool i).pool i) with ⟨q, t⟩
      cases hcall.symm.trans (genAllocFn_pool hpos ht (congrArg some hcall'))
      rw [hcall'] at hwrote
      exact (quiet_touchPool s i).trans (Quiet.of_wrote hwrote)

theorem quiet_free (h : GenLive os base m₀ s fl free L) (hb : b ∈ L)
    (hle : b.size ≤ mediumObjLimit) (hcall : genFreeFn os b.ptr b.size s = some s') :
    Quiet (mem s) (mem s') := by
  have hptr := h.ptr_ne_null hb
  rcases h with ⟨pl, bl, sl, hparts, hsplit⟩
  cases ht : genTier b.size with
  | page => exact absurd hle (Nat.not_le.mpr (genTier_page ht))
  | buddy =>
      rcases hparts.buddy.free (List.mem_append_left _ (hsplit.mem_medium hb ht)) with
        ⟨t, fl', hcall', _, _, hmoved⟩
      cases hcall.symm.trans (genFreeFn_buddy hptr ht hcall')
      exact Quiet.of_wrote hmoved.wrote
  | pool i =>
      rcases tier_pool_fits (hsplit.positive b hb) ht with ⟨hi, _⟩
      have hact : i ∈ List.range poolCount := List.mem_range.mpr hi
      rcases poolFreeFn_served ((hparts.touchPool i).pools i hact)
        (hsplit.mem_small hb ht) b.size with ⟨t, hcall', _, hwrote, _⟩
      cases hcall.symm.trans (genFreeFn_pool hptr ht hcall')
      exact (quiet_touchPool s i).trans (Quiet.of_wrote hwrote)

/-- A move is an allocation, a copy and a free, and none of them asks the system. -/
theorem quiet_move (h : GenLive os base m₀ s fl free L) (hb : b ∈ L) (hn : n < 2 ^ 64)
    (hold : b.size ≤ mediumObjLimit) (hnew : n ≤ mediumObjLimit)
    (hcall : genMove os b.ptr b.size n s = some (p, s')) : Quiet (mem s) (mem s') := by
  rcases h.alloc hn with ⟨q, s₁, halloc, _, _, hcase⟩
  have hquiet := quiet_alloc h hnew halloc
  unfold genMove at hcall
  simp only [halloc, Option.bind_eq_bind, Option.bind_some] at hcall
  rcases hcase with ⟨rfl, _⟩ | ⟨hne, fl₁, free₁, hlive⟩
  · rw [if_pos rfl] at hcall
    cases hcall
    exact hquiet
  · rw [if_neg hne, copySize_eq] at hcall
    rcases Option.bind_eq_some_iff.mp hcall with ⟨m, hcopy, hrest⟩
    rcases Option.bind_eq_some_iff.mp hrest with ⟨t, hfree, heq⟩
    cases heq
    rw [alloMemcpy_some hcopy] at hfree
    have hwrote : Wrote (fun x k => x = p ∧ k = min b.size n) (mem s₁)
        ((mem s₁).copy p b.ptr (min b.size n)) := Wrote.copy ⟨rfl, rfl⟩
    have hstored := hlive.store hwrote (by
      rintro x k ⟨rfl, rfl⟩
      exact ⟨_, List.mem_cons_self, Nat.le_refl _,
        Nat.add_le_add_left (Nat.min_le_right b.size n) x⟩)
    have hfreed := quiet_free hstored (List.mem_cons_of_mem _ hb) hold hfree
    rw [HasMem.mem_setMem] at hfreed
    exact (hquiet.trans (Quiet.of_wrote hwrote)).trans hfreed

theorem quiet_realloc (h : GenLive os base m₀ s fl free L) (hb : b ∈ L) (hpos : n ≠ 0)
    (hne : b.size ≠ n) (hold : b.size ≤ mediumObjLimit) (hnew : n ≤ mediumObjLimit)
    (hcall : genReallocFn os b.ptr b.size n s = some (p, s')) :
    Quiet (mem s) (mem s') := by
  have hptr := h.ptr_ne_null hb
  have hn : n < 2 ^ 64 := Nat.lt_of_le_of_lt hnew (by decide)
  by_cases hcross : genTier b.size ≠ genTier n
  · rw [genReallocFn_cross hptr hpos hcross] at hcall
    exact quiet_move h hb hn hold hnew hcall
  have hsame : genTier n = genTier b.size := (not_not.mp hcross).symm
  rcases h with ⟨pl, bl, sl, hparts, hsplit⟩
  cases ht : genTier b.size with
  | page => exact absurd hold (Nat.not_le.mpr (genTier_page ht))
  | buddy =>
      rw [ht] at hsame
      rcases hparts.buddy.realloc (List.mem_append_left _ (hsplit.mem_medium hb ht)) hpos
        hn with ⟨q, t, hcall', hcase⟩
      have hpass : alloRealloc (genBuddy os) b.ptr b.size n s.tower = some (q, t) :=
        (alloRealloc_pass hpos hptr hne).trans hcall'
      cases hcall.symm.trans (genReallocFn_buddy hptr ht hsame hpass)
      rcases hcase with ⟨_, hrefused, _⟩ | ⟨fl', hdone⟩
      · exact Quiet.of_wrote hrefused.moved.wrote
      · exact Quiet.of_wrote hdone.moved.wrote
  | pool i =>
      rw [ht] at hsame
      rcases tier_pool_fits hpos hsame with ⟨hi, _⟩
      have hact : i ∈ List.range poolCount := List.mem_range.mpr hi
      have hstay := poolReallocFn_eq ((hparts.touchPool i).pools i hact)
        (hsplit.mem_small hb ht) b.size n
      have hpass := (alloRealloc_pass (a := genPool os) hpos hptr hne).trans hstay
      have hcall' := genReallocFn_pool hptr hpos ht hsame hpass
      rw [(s.touchPool i).setPool_pool i] at hcall'
      cases hcall.symm.trans hcall'
      exact quiet_touchPool s i

end Calls

/-!
# Runs
-/

/-- The operation is about small and medium blocks alone. -/
def Op.Modest : Op -> Prop
  | Op.alloc n => n ≤ mediumObjLimit
  | Op.free b => b.size ≤ mediumObjLimit
  | Op.realloc b n => b.size ≤ mediumObjLimit ∧ n ≤ mediumObjLimit
  | Op.poke _ _ => True

section Runs

variable {os : Os} {base : List Block} {m₀ : Mem} {frame : Nat}
variable {fl free : Nat -> List Nat} {s s' : Session GenState}

theorem quiet_step (h : GenLive os base m₀ s.state fl free s.live) {op : Op}
    (hlegal : s.Legal op) (hmodest : op.Modest)
    (hexec : Session.exec (genAllo os frame) op s = some s') :
    Quiet (mem s.state) (mem s'.state) := by
  cases op with
  | alloc n =>
      rcases Session.exec_alloc hexec with ⟨p, st, hcall, rfl⟩
      rw [Session.afterAlloc_state]
      exact quiet_alloc h hmodest hcall
  | free b =>
      rcases Session.exec_free hexec with ⟨st, hcall, rfl⟩
      exact quiet_free h hlegal hmodest hcall
  | realloc b n =>
      have hb := hlegal.left
      rcases Session.exec_realloc hexec with ⟨p, st, hcall, rfl⟩
      rw [Session.afterRealloc_state]
      rcases alloRealloc_cases (h.ptr_ne_null hb) hcall with
        ⟨_, _, hfree⟩ | ⟨_, _, _, rfl⟩ | ⟨hpos, hne, hrealloc⟩
      · exact quiet_free h hb hmodest.left hfree
      · exact Quiet.refl _
      · exact quiet_realloc h hb hpos hne hmodest.left hmodest.right hrealloc
  | poke x v =>
      rw [Session.exec_poke hexec]
      exact Quiet.of_wrote (Wrote.poke (P := fun _ _ => True) trivial)

theorem quiet_run (h : GenLive os base m₀ s.state fl free s.live)
    (hmodest : (Session.clientOf (genAllo os frame) (fun _ op => op.Modest)).Reaches
      s s') : Quiet (mem s.state) (mem s'.state) := by
  have hrun : (exists fl' free', GenLive os base m₀ s'.state fl' free' s'.live) ∧
      Quiet (mem s.state) (mem s'.state) := by
    refine hmodest.invariant (fun t => (exists fl' free',
      GenLive os base m₀ t.state fl' free' t.live) ∧ Quiet (mem s.state) (mem t.state)) ?_ ?_
    · exact ⟨⟨fl, free, h⟩, Quiet.refl _⟩
    · rintro t op t' ⟨⟨fl', free', hlive⟩, hquiet⟩ ⟨hlegal, hop⟩ hexec
      have hstep : exists t'' fl'' free'',
          GenStepped os base m₀ frame t op t'' fl'' free'' := gen_step hlive hlegal
      rcases hstep with ⟨t'', fl'', free'', hstepped⟩
      cases hexec.symm.trans hstepped.exec
      exact ⟨⟨fl'', free'', hstepped.live⟩,
        hquiet.trans (quiet_step hlive hlegal hop hexec)⟩
  exact hrun.right

/-- From whatever state, a client that deals with small and medium blocks for a while
causes no system call: nothing is mapped, moved or unmapped, and no request is made. -/
theorem gen_modest_run_quiet {out : Nat} {m : Mem} {st : GenState}
    (hpage : exists k, 4 ≤ k ∧ k < 64 ∧ os.pageSize = 2 ^ k)
    (hmake : makeGenAllocator os out frame m = some (Made.ok st))
    (hreach : (Session.client (genAllo os frame)).Reaches (Session.start st) s)
    (hmodest : (Session.clientOf (genAllo os frame) (fun _ op => op.Modest)).Reaches
      s s') :
    liveMaps (mem s'.state).trace = liveMaps (mem s.state).trace ∧
      requests (mem s'.state).trace = requests (mem s.state).trace ∧
        exists es, (mem s'.state).trace = es ++ (mem s.state).trace ∧
          forall e, e ∈ es -> e.WritesOnly (fun _ _ => True) := by
  rcases makeGenAllocator_ok hpage hmake with ⟨m₀, fl, free, hmade⟩
  rcases gen_run hmade.live hreach with ⟨fl', free', hlive, _⟩
  have hquiet := quiet_run hlive hmodest
  exact ⟨Wrote.liveMaps_eq hquiet, Wrote.requests_eq hquiet, hquiet.trace⟩

end Runs

/-- A small block is allocated and freed again. -/
theorem gen_modest_run_quiet_one : exists st s s' p,
    makeGenAllocator roomyOs 8 4096 onePageMem = some (Made.ok st) ∧
      s.live = [⟨p, 100⟩] ∧ Session.exec (genAllo roomyOs 4096) (Op.free ⟨p, 100⟩) s = some s' ∧
        requests (mem s'.state).trace = requests (mem s.state).trace := by
  rcases roomyOs_live with ⟨st, s, p, hmake, _, hreach, hlive⟩
  rcases makeGenAllocator_ok roomyOs_page hmake with ⟨m₀, fl, free, hmade⟩
  rcases gen_run hmade.live hreach with ⟨fl', free', hrun, _⟩
  have hb : (⟨p, 100⟩ : Block) ∈ s.live := hlive ▸ List.mem_cons_self
  have hlegal : s.Legal (Op.free ⟨p, 100⟩) := hb
  have hstep : exists s' fl'' free'', GenStepped roomyOs (liveMaps onePageMem.trace) m₀ 4096
      s (Op.free ⟨p, 100⟩) s' fl'' free'' := gen_step hrun hlegal
  rcases hstep with ⟨s', _, _, hstepped⟩
  have hmodest := @Machine.Reaches.step _ _ (Session.clientOf (genAllo roomyOs 4096)
    (fun _ op => op.Modest)) _ _ _ (Op.free ⟨p, 100⟩) Machine.Reaches.start
    ⟨hlegal, (by decide : 100 ≤ mediumObjLimit)⟩ hstepped.exec
  exact ⟨st, s, s', p, hmake, hlive, hstepped.exec,
    (gen_modest_run_quiet roomyOs_page hmake hreach hmodest).right.left⟩

end Liballo
