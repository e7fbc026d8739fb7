import Liballo.Gen.Build

/-!
# From the constructor to the destructor

The pools give their buffers back to the buddy allocator, the buddy allocator gives its
buffer and its tables back to the page allocator, and a copy of the page allocator
unmaps what is left: the blocks that users still hold, the state block and the registry.
-/

namespace Liballo

open Foundation

section Destroy

variable {os : Os} {base : List Block} {m₀ : Mem} {act : List Nat} {s : GenState}
variable {fl free : Nat -> List Nat} {pl bl : List Block} {sl : Nat -> List Nat}
variable {i : Nat}

/-- The buddy allocator of a tower holds the blocks `L`. -/
def TowerHolds (t : BuddyState PageState) (L : List Block) : Prop :=
  exists fl, BuddyLive False 19 t fl L

/-!
# The pools
-/

namespace GenParts

/-- The buffer of a pool is a medium block once the pool is gone. -/
theorem forget_pool (h : GenParts os base m₀ (i :: act) s fl free pl bl sl) :
    GenParts os base m₀ act s fl free pl (s.poolBuffer i :: bl) sl where
  page := h.page
  own := h.own
  buddy := h.buddy.perm List.perm_middle
  pools := fun j hj => h.pools j (List.mem_cons_of_mem i hj)
  shapes := fun j hj => h.shapes j (List.mem_cons_of_mem i hj)
  nodup := (List.nodup_cons.mp h.nodup).right

/-- A pool gives its buffer back, with the size it was allocated with. -/
theorem destroy_pool (h : GenParts os base m₀ (i :: act) s fl free pl bl sl) :
    exists s' fl', genDestroyPool os i s = some s' ∧ s'.block = s.block ∧
      s'.pools = s.pools ∧ GenParts os base m₀ act s' fl' free pl bl sl ∧
        Returns (genBuddy os) TowerHolds s.tower [s.poolBuffer i] s'.tower := by
  have hforget : GenParts os base m₀ act (s.touchPool i) fl free pl
      (s.poolBuffer i :: bl) sl := (h.touchPool i).forget_pool
  have hlive : s.poolBuffer i ∈ s.poolBuffer i :: bl := List.mem_cons_self
  rcases hforget.buddy_free hlive with ⟨t, fl', hcall, _, hparts, _⟩
  rw [List.erase_cons_head] at hparts
  have hregion := (h.pools i List.mem_cons_self).region.right.right
  have hsize : sizeMul (s.pools i).blockSize (s.pools i).totalBlocks =
      (s.poolBuffer i).size := by
    apply sizeMul_eq
    have hstop : (s.pools i).buffer +
        (s.pools i).blockSize * (s.pools i).totalBlocks < 2 ^ 64 := hregion
    omega
  have hfree : alloFree (genBuddy os) (s.poolBuffer i).ptr (s.poolBuffer i).size
      (s.touchPool i).tower = some t := hcall
  have hdestroy : alloDestroy (genPool os) ((s.touchPool i).pool i) =
      some { (s.touchPool i).pool i with child := t } := by
    have hcalled : alloFree (genBuddy os) (s.pools i).buffer
        (sizeMul (s.pools i).blockSize (s.pools i).totalBlocks)
          (s.touchPool i).tower = some t := by
      rw [hsize]
      exact hfree
    have hown : (s.pools i).ownBuffer = true :=
      (h.shapes i List.mem_cons_self).ownBuffer
    unfold alloDestroy genPool poolAllo poolDestroyFn
    dsimp only [GenState.pool]
    rw [if_pos (show ((s.touchPool i).pools i).ownBuffer = true from hown)]
    exact Option.bind_eq_some_iff.mpr ⟨_, rfl, Option.bind_eq_some_iff.mpr
      ⟨t, hcalled, rfl⟩⟩
  have hback : (s.touchPool i).setPool i { (s.touchPool i).pool i with child := t } =
      { s.touchPool i with tower := t } :=
    congrArg (fun f => { s.touchPool i with pools := f, tower := t })
      (Function.update_eq_self i (s.touchPool i).pools)
  refine ⟨{ s.touchPool i with tower := t }, fl', ?_, rfl, rfl, hparts, ?_⟩
  · exact Option.bind_eq_some_iff.mpr ⟨_, hdestroy, congrArg some hback⟩
  · have hheld : TowerHolds (s.touchPool i).tower
        ((s.poolBuffer i :: bl) ++ act.map s.poolBuffer) := ⟨fl, hforget.buddy⟩
    exact Returns.touch (genPoolAt s.block i) sizeofAllo
      (Returns.free hheld (List.mem_append_left _ hlive) hfree (Returns.done t))

/-- The loop over the pools. -/
theorem destroy_pools {n left : Nat}
    (h : GenParts os base m₀ (List.range' 0 (n + left)) s fl free pl bl sl) :
    exists s' fl', genDestroyPools os n s = some s' ∧ s'.block = s.block ∧
      s'.pools = s.pools ∧ GenParts os base m₀ (List.range' n left) s' fl' free pl bl sl ∧
        Returns (genBuddy os) TowerHolds s.tower ((List.range n).map s.poolBuffer)
          s'.tower := by
  induction n generalizing left with
  | zero =>
      rw [Nat.zero_add] at h
      exact ⟨s, fl, rfl, rfl, rfl, h, Returns.done s.tower⟩
  | succ n ih =>
      rw [Nat.add_right_comm, Nat.add_assoc] at h
      rcases ih h with ⟨s₁, fl₁, hcall₁, hblock₁, hpools₁, hparts₁, hback₁⟩
      rw [List.range'_succ] at hparts₁
      rcases hparts₁.destroy_pool with
        ⟨s', fl', hcall, hblock, hpools, hparts, hback⟩
      refine ⟨s', fl', ?_, hblock.trans hblock₁, hpools.trans hpools₁, hparts, ?_⟩
      · exact Option.bind_eq_some_iff.mpr ⟨s₁, hcall₁, hcall⟩
      · have hbuffer : s₁.poolBuffer n = s.poolBuffer n := by
          unfold GenState.poolBuffer
          rw [hpools₁]
        rw [hbuffer] at hback
        rw [List.range_succ, List.map_append]
        exact hback₁.trans hback

/-!
# The buddy allocator
-/

/-- Without pools, only the tables and the buffer of the buddy allocator go back. -/
theorem destroy_buddy (h : GenParts os base m₀ [] s fl free pl bl sl) :
    exists t, genDestroyBuddy os s = some { s with tower := t } ∧
      GenPages os base s.block m₀ t.child pl ∧
        Returns (pageAllo os) (GenPages os base s.block m₀) s.tower.child
          (s.tower.ctx.region :: s.tower.ctx.tables.reverse) t.child := by
  have hheld : (genPages os base s.block m₀).Inv s.tower.child
      (s.tower.ctx.tables ++ (s.tower.ctx.ownBlocks ++ pl)) := h.page
  rcases buddyDestroyFn_returns hheld with ⟨t, hcall, hinv, hback⟩
  rw [h.ownBlocks_eq] at hback
  have hdestroy : alloDestroy (genBuddy os) s.tower = some t := hcall
  refine ⟨t, ?_, hinv, hback⟩
  unfold genDestroyBuddy
  rw [hdestroy]
  rfl

end GenParts

/-!
# The page allocator
-/

/-- The destructor of the page allocator, called on a copy of it at `frame`. -/
theorem GenPages.destroy_copy {L : List Block} {block frame : Nat} {s : PageState}
    (h : GenPages os base block m₀ s L)
    (hinside : Block.Inside ⟨block, sizeofGenState⟩ (stateMap os block))
    (hmapped : stateMap os block ∈ liveMaps m₀.trace)
    (hframe : exists d, d ∈ base ∧ Block.Inside ⟨frame, sizeofAllo⟩ d) :
    (liveMaps (pageDestroyFn { s.touch with self := frame }).mem.trace).Perm base ∧
      Traced MapEvent m₀ (pageDestroyFn { s.touch with self := frame }).mem ∧
        Traced (BackedEvent ⟨block, sizeofGenState⟩) m₀
          (pageDestroyFn { s.touch with self := frame }).mem := by
  rcases h.live with ⟨es, hlive⟩
  have hinv : PageInv base s.touch.ctx s.touch.mem es := hlive.inv.touch
  rcases pageDestroyFn_spec (s := { s.touch with self := frame }) hinv with
    ⟨hmaps, _, htraced⟩
  have htouch : Traced MapEvent s.mem s.touch.mem := Traced.event rfl trivial
  have hrun : Traced MapEvent m₀ s.mem := h.traced.mono (fun _ _ he => he.left)
  refine ⟨hmaps, (hrun.trans htouch).trans (htraced.mono (fun _ _ he => he.mapEvent)),
    ?_⟩
  -- The mapping of the state block is live until the copy was made.
  rcases (h.traced.mono (fun _ _ he => he.right)).while_live hmapped with
    ⟨hwhile, hstill⟩
  have hrun' : Traced (BackedEvent ⟨block, sizeofGenState⟩) m₀ s.mem :=
    hwhile.mono (fun _ _ he _ => ⟨_, he, hinside⟩)
  have htouch' : Traced (BackedEvent ⟨block, sizeofGenState⟩) s.mem s.touch.mem :=
    Traced.event rfl (fun _ => ⟨_, hstill, hinside⟩)
  have hquiet : PageQuiet (PageLocal frame) frame := pageLocal_quiet frame
  have hcopy : Every (PageLocal frame) s.touch.mem
      (pageDestroyFn { s.touch with self := frame }).mem :=
    pageDestroyFn_events (s := { s.touch with self := frame }) hquiet
      (fun _ _ => trivial)
  rcases h.state_inside with ⟨_, _, hreg, hbase⟩
  have hregistry : s.touch.ctx.registryMap.Disjoint ⟨block, sizeofGenState⟩ :=
    (hinside.disjoint hreg.symm).symm
  rcases hframe with ⟨d, hd, hin⟩
  have hlocal : Block.Disjoint ⟨frame, sizeofAllo⟩ ⟨block, sizeofGenState⟩ :=
    (hinside.disjoint (hin.disjoint (hbase d hd).symm).symm).symm
  exact (hrun'.trans htouch').trans ((htraced.and hcopy).mono
    (fun _ _ he => backed_of_local he.left he.right hregistry hlocal))

/-!
# The whole life
-/

/-- The allocator, made in the memory `m`, goes from its last state `s` to `s'`. Every
block that goes back is live then. All regions that were granted in its life were moved
or unmapped, each once and while it was live, and the block at `block` was accessed only
while it was mapped. -/
structure GenDestroyed (os : Os) (m : Mem) (block : Nat) (s s' : GenState) : Prop where
  returned : exists m₀ s₁ s₂, genDestroyPools os poolCount s = some s₁ ∧
    Returns (genBuddy os) TowerHolds s.tower ((List.range poolCount).map s.poolBuffer)
      s₁.tower ∧
    genDestroyBuddy os s₁ = some s₂ ∧
    Returns (pageAllo os) (GenPages os (liveMaps m.trace) block m₀) s₁.tower.child
      (s₁.tower.ctx.region :: s₁.tower.ctx.tables.reverse) s₂.tower.child
  maps : (liveMaps (mem s').trace).Perm (liveMaps m.trace)
  balance : exists es, (mem s').trace = es ++ m.trace ∧ Judged MapEvent m.trace es ∧
    (granted es).Perm (moved es ++ unmapped es)
  backed : Traced (BackedEvent ⟨block, sizeofGenState⟩) m (mem s')

/-- When the mappings are again those at the start, what was granted was given up. -/
theorem granted_given_up {m m' : Mem} (hmaps : (liveMaps m'.trace).Perm (liveMaps m.trace))
    (htraced : Traced MapEvent m m') :
    exists es, m'.trace = es ++ m.trace ∧ Judged MapEvent m.trace es ∧
      (granted es).Perm (moved es ++ unmapped es) := by
  rcases htraced with ⟨es, htrace, hjudged⟩
  refine ⟨es, htrace, hjudged, ?_⟩
  have hbalance := granted_balance hjudged
  rw [htrace] at hmaps
  have hcancel : (granted es ++ liveMaps m.trace).Perm
      ((moved es ++ unmapped es) ++ liveMaps m.trace) := by
    rw [List.append_assoc]
    exact hbalance.trans ((hmaps.append_left _).append_left _)
  exact (List.perm_append_right_iff _).mp hcancel

/-- For every run of a client on a new generic allocator, with the page allocator in a
variable at `frame` while it is made and at `frame'` while it is destroyed. -/
theorem gen_lifecycle {out frame frame' : Nat} {m : Mem} {st : GenState}
    {s : Session GenState}
    (hpage : exists k, 4 ≤ k ∧ k < 64 ∧ os.pageSize = 2 ^ k)
    (hframe : FrameMapped frame m) (hframe' : FrameMapped frame' m)
    (hmake : makeGenAllocator os out frame m = some (Made.ok st))
    (hreach : (Session.client (genAllo os frame')).Reaches (Session.start st) s) :
    exists s', alloDestroy (genAllo os frame') s.state = some s' ∧
      GenDestroyed os m st.block s.state s' := by
  rcases makeGenAllocator_ok hpage hmake with ⟨m₀, fl₀, free₀, hmade⟩
  rcases gen_run hmade.live hreach with ⟨fl, free, ⟨pl, bl, sl, hparts, _⟩, hblock⟩
  rw [List.range_eq_range', ← Nat.add_zero poolCount] at hparts
  rcases hparts.destroy_pools with ⟨s₁, fl₁, hcall₁, hblock₁, _, hparts₁, hback₁⟩
  rcases hparts₁.destroy_buddy with ⟨t, hcall₂, hpages, hback₂⟩
  rw [hblock₁, hblock] at hpages hback₂
  rcases hpages.destroy_copy hmade.inside hmade.mapped hframe' with
    ⟨hmaps, htraced, hbacked⟩
  refine ⟨GenState.setPage (pageDestroyFn { t.child.touch with self := frame' })
    { s₁ with tower := t }, ?_, ?_⟩
  · exact Option.bind_eq_some_iff.mpr ⟨s₁, hcall₁,
      Option.bind_eq_some_iff.mpr ⟨{ s₁ with tower := t }, hcall₂, rfl⟩⟩
  · exact
      { returned := ⟨m₀, s₁, { s₁ with tower := t }, hcall₁, hback₁, hcall₂, hback₂⟩
        maps := hmaps
        balance := granted_given_up hmaps (hmade.traced.trans htraced)
        backed := (hmade.backed hframe).trans hbacked }

end Destroy

/-- After the first request of a client, whose block is not given back. -/
theorem gen_lifecycle_alloc : exists st s s',
    makeGenAllocator roomyOs 8 4096 onePageMem = some (Made.ok st) ∧
      Session.exec (genAllo roomyOs 4096) (Op.alloc 100) (Session.start st) = some s ∧
        alloDestroy (genAllo roomyOs 4096) s.state = some s' ∧
          GenDestroyed roomyOs onePageMem st.block s.state s' := by
  rcases roomyOs_alloc with ⟨st, s, hmake, hexec, hreach⟩
  have hframe : FrameMapped 4096 onePageMem :=
    ⟨⟨4096, 4096⟩, List.mem_cons_self, by decide, by decide⟩
  rcases gen_lifecycle roomyOs_page hframe hframe hmake hreach with ⟨s', hcall, hdone⟩
  exact ⟨st, s, s', hmake, hexec, hcall, hdone⟩

end Liballo
