import Liballo.Pool.Service
import Liballo.Sanitizer

/-!
# The shadow memory of a pool

A pool poisons what nobody may touch: all of a free block but the link in it. The marks
are exact in every state, so a use after free is caught and no legal access is.
-/

namespace Liballo

open Foundation

section Shadow

variable {χ : Type} [HasMem χ] {child : Option (Allo χ)}

/-- The blocks that are handed out, whole, and the links of the free ones. -/
def PoolOpen (blockSize : Nat) (free live : List Nat) (x : Nat) : Prop :=
  (exists p, p ∈ live ∧ Block.Contains ⟨p, blockSize⟩ x) ∨
    exists q, q ∈ free ∧ Block.Contains ⟨q, sizeofPoolFreeNode⟩ x

/-- Exactly the open bytes of the buffer are not poisoned. -/
structure PoolShadow (s : PoolState χ) (free live : List Nat) : Prop where
  inv : PoolInv s free live
  exact_iff : forall x, s.ctx.region.Contains x ->
    (poisoned (mem s).trace x = false <-> PoolOpen s.ctx.blockSize free live x)

/-!
# The constructor
-/

/-- The loop opens one link after the other. -/
theorem poisoned_poolInitLoop {blockSize left curr : Nat} {m : Mem}
    (hend : forall j, j < left -> curr + blockSize * j < 2 ^ 64) (x : Nat) :
    poisoned (poolInitLoop blockSize left curr m).trace x = false <->
      poisoned m.trace x = false ∨
        exists q, q ∈ poolBlocks curr blockSize left ∧
          Block.Contains ⟨q, sizeofPoolFreeNode⟩ x := by
  induction left generalizing curr m with
  | zero => simp [poolInitLoop, poolBlocks]
  | succ left ih =>
      have hopened : poisoned (Event.unpoison curr sizeofPoolFreeNode :: m.trace) x = false <->
          poisoned m.trace x = false ∨ Block.Contains ⟨curr, sizeofPoolFreeNode⟩ x := by
        rw [poisoned_unpoison]
        split
        · rename_i hin
          exact iff_of_true rfl (Or.inr hin)
        · rename_i hout
          exact ⟨Or.inl, fun h => h.resolve_right hout⟩
      unfold poolInitLoop
      dsimp only
      split
      · rename_i hpos
        have hnext : sizeAdd curr blockSize = curr + blockSize := sizeAdd_node hpos hend
        rw [hnext, ih (nodes_tail hend)]
        have htrace : poisoned (PoolFreeNode.setNext curr (curr + blockSize)
            (m.note (Event.unpoison curr sizeofPoolFreeNode))).trace x =
              poisoned (Event.unpoison curr sizeofPoolFreeNode :: m.trace) x := rfl
        rw [htrace, hopened, poolBlocks, poolBlocks, List.range'_succ]
        simp only [List.mem_cons, exists_eq_or_imp]
        tauto
      · rename_i hlast
        have hzero : left = 0 := Nat.eq_zero_of_not_pos hlast
        subst hzero
        have htrace : poisoned (PoolFreeNode.setNext curr NULL
            (m.note (Event.unpoison curr sizeofPoolFreeNode))).trace x =
              poisoned (Event.unpoison curr sizeofPoolFreeNode :: m.trace) x := rfl
        rw [htrace, hopened]
        simp [poolBlocks]

theorem poolShadow_start {start size totalBlocks : Nat} {own : Bool} {w : χ}
    (hpos : 0 < totalBlocks) (hsize : 8 ≤ size)
    (hregion : Block.WellFormed ⟨start, size * totalBlocks⟩) :
    PoolShadow (poolStart start size totalBlocks own w)
      (poolBlocks start size totalBlocks) [] := by
  refine ⟨poolInv_start hpos hsize hregion, fun x hx => ?_⟩
  have hend : start + size * totalBlocks < 2 ^ 64 := hregion.right.right
  have hmul : sizeMul size totalBlocks = size * totalBlocks := sizeMul_eq (by omega)
  rw [poolStart_ctx] at hx
  rw [mem_poolStart, poisoned_poolInitLoop (nodes_lt hend), hmul, poolStart_ctx]
  have hclosed : poisoned ((mem w).note (Event.poison start (size * totalBlocks))).trace x =
      true := by
    rw [Mem.note_trace, poisoned_poison]
    exact if_pos hx
  rw [hclosed]
  simp [PoolOpen]

/-!
# Operations
-/

namespace PoolShadow

variable {s s' : PoolState χ} {nodes live : List Nat} {p x : Nat}

theorem perm (h : PoolShadow s nodes live) {live' : List Nat} (hperm : live.Perm live') :
    PoolShadow s nodes live' := by
  refine ⟨h.inv.perm hperm, fun x hx => ?_⟩
  rw [h.exact_iff x hx]
  simp only [PoolOpen, hperm.mem_iff]

/-- No other block has a byte of a block that is handed out. -/
theorem not_open (h : PoolShadow s nodes live) (hp : p ∈ live)
    (hx : Block.Contains ⟨p, s.ctx.blockSize⟩ x)
    (hlink : ¬ Block.Contains ⟨p, sizeofPoolFreeNode⟩ x) :
    ¬ PoolOpen s.ctx.blockSize (p :: nodes) (live.erase p) x := by
  have hgranule := h.inv.granule
  rintro (⟨q, hq, hin⟩ | ⟨q, hq, hin⟩)
  · have hnodup := (List.nodup_append.mp h.inv.nodup).right.left
    have hne : p ≠ q := by
      rintro rfl
      exact hnodup.not_mem_erase hq
    exact (poolBlocks_apart (h.inv.live_mem hp) (h.inv.live_mem (List.mem_of_mem_erase hq))
      hne).not_contains hx hin
  · rcases List.mem_cons.mp hq with rfl | hq
    · exact hlink hin
    · have hnode : Block.Inside ⟨q, sizeofPoolFreeNode⟩ ⟨q, s.ctx.blockSize⟩ :=
        ⟨Nat.le_refl q, Nat.add_le_add_left hgranule q⟩
      exact (h.inv.apart hq hp).not_contains (hnode.contains hin) hx

omit [HasMem χ] in
/-- Elsewhere nothing changes when a block is given back. -/
theorem open_elsewhere (hp : p ∈ live)
    (hx : ¬ Block.Contains ⟨p, s.ctx.blockSize⟩ x)
    (hlink : ¬ Block.Contains ⟨p, sizeofPoolFreeNode⟩ x) :
    PoolOpen s.ctx.blockSize nodes live x <->
      PoolOpen s.ctx.blockSize (p :: nodes) (live.erase p) x := by
  have hmem : forall q, q ∈ live <-> q = p ∨ q ∈ live.erase p := by
    intro q
    rw [(List.perm_cons_erase hp).mem_iff, List.mem_cons]
  simp only [PoolOpen, List.mem_cons, hmem, or_and_right, exists_or, exists_eq_left, hx,
    hlink, false_or]

/-- Handing out a block opens all of it. -/
theorem alloc (h : PoolShadow s (p :: nodes) live) {size : Nat} (hpos : size ≠ 0)
    (hle : size ≤ s.ctx.blockSize) :
    exists s', poolAllocFn size s = (p, s') ∧ PoolShadow s' nodes (p :: live) ∧
      Traced HeaderOpen (mem s) (mem s') := by
  rcases poolAllocFn_served h.inv hpos hle with ⟨s', hcall, hinv, _, hsame⟩
  have hhead := poolAllocFn_head h.inv.chain hpos hle
  rw [hcall] at hhead
  have htrace : (mem s').trace = Event.unpoison p s.ctx.blockSize ::
      Event.unpoison p sizeofPoolFreeNode :: (mem s).trace := by
    rw [(Prod.mk.inj hhead).right, PoolState.mem_note, PoolState.mem_setFreeList,
      PoolState.mem_note]
    rfl
  have hsize : s'.ctx.blockSize = s.ctx.blockSize := by rw [hsame.ctx]
  have hregion : s'.ctx.region = s.ctx.region := by rw [hsame.ctx]; rfl
  refine ⟨s', hcall, ⟨hinv, fun x hx => ?_⟩, ?_⟩
  · rw [hregion] at hx
    rw [htrace, hsize, poisoned_unpoison]
    split
    · rename_i hin
      exact iff_of_true rfl (Or.inl ⟨p, List.mem_cons_self, hin⟩)
    · rename_i hout
      have hnode : ¬ Block.Contains ⟨p, sizeofPoolFreeNode⟩ x := by
        have hgranule := h.inv.granule
        simp only [Block.Contains, Block.stop, sizeofPoolFreeNode] at hout ⊢
        omega
      rw [poisoned_unpoison, if_neg hnode, h.exact_iff x hx]
      simp only [PoolOpen, List.mem_cons, exists_eq_or_imp, hout, hnode, false_or]
  · exact ⟨[Event.unpoison p s.ctx.blockSize, Event.unpoison p sizeofPoolFreeNode], htrace,
      ⟨⟨trivial, trivial⟩, trivial⟩⟩

/-- Giving a block back closes all of it but the link, which is stored then. -/
theorem free (h : PoolShadow s nodes live) (hp : p ∈ live) (size : Nat) :
    exists s', poolFreeFn p size s = some s' ∧
      PoolShadow s' (p :: nodes) (live.erase p) ∧ Traced HeaderOpen (mem s) (mem s') := by
  rcases poolFreeFn_served h.inv hp size with ⟨s', hcall, hinv, _, hsame⟩
  have htrace : (mem s').trace = Event.write p 8 :: Event.unpoison p sizeofPoolFreeNode ::
      Event.poison p s.ctx.blockSize :: (mem s).trace := by
    unfold poolFreeFn at hcall
    rw [if_neg (h.inv.live_ne_null hp),
      if_neg (fun hno => hno (h.inv.contains_live hp))] at hcall
    cases hcall
    rw [PoolState.mem_setFreeList, mem_modifyMem, PoolState.mem_note, PoolState.mem_note]
    rfl
  have hsize : s'.ctx.blockSize = s.ctx.blockSize := by rw [hsame.ctx]
  have hregion : s'.ctx.region = s.ctx.region := by rw [hsame.ctx]; rfl
  refine ⟨s', hcall, ⟨hinv, fun x hx => ?_⟩, ?_⟩
  · rw [hregion] at hx
    have hwrite : poisoned (mem s').trace x =
        poisoned (Event.unpoison p sizeofPoolFreeNode ::
          Event.poison p s.ctx.blockSize :: (mem s).trace) x := by
      rw [htrace]
      rfl
    rw [hwrite, hsize, poisoned_unpoison]
    split
    · rename_i hin
      exact iff_of_true rfl (Or.inr ⟨p, List.mem_cons_self, hin⟩)
    · rename_i hout
      rw [poisoned_poison]
      split
      · rename_i hblock
        apply iff_of_false Bool.noConfusion
        exact fun hopen => h.not_open hp hblock hout hopen
      · rename_i hblock
        rw [h.exact_iff x hx]
        exact open_elsewhere hp hblock hout
  · refine ⟨[Event.write p 8, Event.unpoison p sizeofPoolFreeNode,
      Event.poison p s.ctx.blockSize], htrace, ⟨⟨⟨trivial, trivial⟩, trivial⟩, ?_⟩⟩
    intro y hy
    show poisoned (Event.unpoison p sizeofPoolFreeNode :: _) y = false
    rw [poisoned_unpoison]
    exact if_pos hy

end PoolShadow

/-!
# Every run
-/

section Runs

theorem poolShadow_of_make {made : PoolState χ} {out buffer blockSize totalBlocks : Nat}
    {w : χ} (hmake : makePoolAllocator out child buffer blockSize totalBlocks w =
      some (Made.ok made))
    (hholds : Block.WellFormed
      ⟨made.ctx.buffer, roundedBlockSize blockSize * totalBlocks⟩) :
    exists nodes, PoolShadow made nodes [] := by
  have hmade : 0 < totalBlocks ∧ exists start own v,
      made = poolStart start (poolBlockSize blockSize) totalBlocks own v := by
    rcases makePoolAllocator_ok hmake with
      ⟨_, hpos, ⟨_, _, p, v, _, _, _, heq⟩ | ⟨_, heq⟩⟩
    · exact ⟨hpos, p, true, v, heq⟩
    · exact ⟨hpos, buffer, false, w, heq⟩
  rcases hmade with ⟨hpos, start, own, v, rfl⟩
  have hsize := (makePoolAllocator_inv hmake hholds).left
  rw [poolStart_ctx] at hholds hsize
  dsimp only at hholds hsize
  rw [hsize]
  exact ⟨_, poolShadow_start hpos (eight_le_roundedBlockSize blockSize) hholds⟩

variable {s : PoolSession χ} {made : PoolState χ} {nodes : List Nat}

/-- The step keeps the marks exact, and headers are stored only in open bytes. -/
def PoolShadowStep (child : Option (Allo χ)) (s : PoolSession χ) (op : PoolOp) : Prop :=
  exists s' nodes, (poolClient child).exec op s = some s' ∧
    PoolShadow s'.state nodes s'.live ∧ Traced HeaderOpen (mem s.state) (mem s'.state)

theorem poolShadowStep_alloc (h : PoolShadow s.state nodes s.live) (size : Nat) :
    PoolShadowStep child s (PoolOp.alloc size) := by
  by_cases hno : size = 0 ∨ s.state.ctx.blockSize < size ∨ nodes = []
  · have hcall : alloAlloc (poolAllo child) size s.state = some (NULL, s.state) :=
      congrArg some (poolAllocFn_refused h.inv hno)
    exact ⟨_, nodes, PoolSession.exec_alloc_of hcall, h, Traced.refl _ _⟩
  · cases nodes with
    | nil => exact absurd (Or.inr (Or.inr rfl)) hno
    | cons p rest =>
        have hpos : size ≠ 0 := fun hzero => hno (Or.inl hzero)
        have hle : size ≤ s.state.ctx.blockSize :=
          Nat.not_lt.mp fun hlt => hno (Or.inr (Or.inl hlt))
        rcases h.alloc hpos hle with ⟨state, hcall, hshadow, htraced⟩
        have hne : p ≠ NULL := hshadow.inv.live_ne_null List.mem_cons_self
        have hafter : s.afterAlloc p state =
            { state := state, live := p :: s.live, freed := s.freed.erase p } := if_neg hne
        refine ⟨_, rest, PoolSession.exec_alloc_of (congrArg some hcall), ?_⟩
        rw [hafter]
        exact ⟨hshadow, htraced⟩

theorem poolShadowStep_realloc (h : PoolShadow s.state nodes s.live) {p : Nat}
    (hp : p ∈ s.live) (oldSize newSize : Nat) :
    PoolShadowStep child s (PoolOp.realloc p oldSize newSize) := by
  have hne := h.inv.live_ne_null hp
  by_cases hzero : newSize = 0
  · rcases h.free hp oldSize with ⟨state, hcall, hshadow, htraced⟩
    have hexec : alloRealloc (poolAllo child) p oldSize newSize s.state =
        some (NULL, state) := by
      rw [hzero]
      exact alloRealloc_zero hcall
    have hafter : s.afterRealloc p newSize NULL state = s.afterFree p state :=
      if_pos hzero
    refine ⟨_, p :: nodes, PoolSession.exec_realloc_of hexec, ?_⟩
    rw [hafter]
    exact ⟨hshadow, htraced⟩
  · have hstay : forall q, q = p ∨ q = NULL ->
        alloRealloc (poolAllo child) p oldSize newSize s.state = some (q, s.state) ->
          PoolShadowStep child s (PoolOp.realloc p oldSize newSize) := by
      intro q hq hcall
      refine ⟨_, nodes, PoolSession.exec_realloc_of hcall, ?_⟩
      unfold PoolSession.afterRealloc
      rw [if_neg hzero]
      rcases hq with heq | heq
      · rw [heq, if_neg hne]
        exact ⟨h.perm (List.perm_cons_erase hp), Traced.refl _ _⟩
      · rw [if_pos heq]
        exact ⟨h, Traced.refl _ _⟩
    by_cases hsame : oldSize = newSize
    · refine hstay p (Or.inl rfl) ?_
      rw [hsame]
      exact alloRealloc_same hzero hne
    · refine hstay _ ?_ ((alloRealloc_pass hzero hne hsame).trans
        (poolReallocFn_eq h.inv hp oldSize newSize))
      split
      · exact Or.inl rfl
      · exact Or.inr rfl

theorem poolShadowStep (h : PoolShadow s.state nodes s.live) {op : PoolOp}
    (hlegal : s.Legal op) : PoolShadowStep child s op := by
  cases op with
  | alloc size => exact poolShadowStep_alloc h size
  | free p size =>
      rcases h.free hlegal size with ⟨state, hcall, hshadow, htraced⟩
      exact ⟨_, p :: nodes, PoolSession.exec_free_of hcall, hshadow, htraced⟩
  | realloc p oldSize newSize => exact poolShadowStep_realloc h hlegal oldSize newSize
  | poke x v =>
      rcases hlegal with ⟨p, hp, hx⟩
      have hwrote : Wrote (fun a n => a = x ∧ n = 1) (mem s.state)
          (Mem.poke x v (mem s.state)) := Wrote.poke ⟨rfl, rfl⟩
      have htrace : (mem (modifyMem (Mem.poke x v) s.state)).trace = (mem s.state).trace := by
        rw [mem_modifyMem]
        rfl
      refine ⟨_, nodes, rfl, ⟨h.inv.store_live hwrote ?_, fun y hy => ?_⟩,
        Traced.of_trace_eq htrace⟩
      · intro a n hP
        refine ⟨p, hp, ?_⟩
        rw [hP.left, hP.right]
        exact ⟨hx.left, hx.right⟩
      · dsimp only
        rw [htrace]
        exact h.exact_iff y hy

/-- In every state that a client of a pool reaches, the bytes of the buffer that are not
poisoned are those of the blocks it holds and the links of the free blocks. A further step
stores links only where nothing is poisoned at that moment. -/
theorem pool_shadow_exact {out buffer blockSize totalBlocks : Nat} {w : χ}
    (hmake : makePoolAllocator out child buffer blockSize totalBlocks w =
      some (Made.ok made))
    (hholds : Block.WellFormed
      ⟨made.ctx.buffer, roundedBlockSize blockSize * totalBlocks⟩)
    (hreach : (poolClient child).Reaches (PoolSession.start made) s) :
    (exists nodes, Chain (PoolFreeNode.next (mem s.state)) s.state.ctx.freeList nodes ∧
      forall x, s.state.ctx.region.Contains x ->
        (poisoned (mem s.state).trace x = false <->
          PoolOpen s.state.ctx.blockSize nodes s.live x)) ∧
      forall op, s.Legal op -> exists s', (poolClient child).exec op s = some s' ∧
        Traced HeaderOpen (mem s.state) (mem s'.state) := by
  have hrun : exists nodes, PoolShadow s.state nodes s.live := by
    refine hreach.invariant_of_step (fun s => exists nodes, PoolShadow s.state nodes s.live)
      (poolShadow_of_make hmake hholds) ?_
    intro s op hs hlegal
    rcases hs with ⟨nodes, hs⟩
    have hstep : PoolShadowStep child s op := poolShadowStep hs hlegal
    rcases hstep with ⟨s', nodes', hexec, hs', _⟩
    exact ⟨s', hexec, nodes', hs'⟩
  rcases hrun with ⟨nodes, hshadow⟩
  constructor
  · exact ⟨nodes, hshadow.inv.chain, hshadow.exact_iff⟩
  · intro op hlegal
    have hstep : PoolShadowStep child s op := poolShadowStep hshadow hlegal
    rcases hstep with ⟨s', _, hexec, _, htraced⟩
    exact ⟨s', hexec, htraced⟩

end Runs

/-!
# The pool allocator is sanitized

A block that is handed out is open as a whole, also where the client did not ask for it.
So it may grow where it is.
-/

section Sanitized

variable {a : Allo χ} {s : PoolState χ} {free : List Nat} {L : List Block}

/-- The marks in the buffer are exact for the blocks of the pool that `L` lies in. -/
def PoolMarked (s : PoolState χ) (L : List Block) : Prop :=
  exists free, PoolShadow s free (L.map Block.ptr)

theorem PoolShadow.opens (h : PoolShadow s free (L.map Block.ptr))
    (hfits : forall b, b ∈ L -> 0 < b.size ∧ b.size ≤ s.ctx.blockSize) :
    AllOpen L (mem s) := by
  intro b hb x hx
  have hwhole : Block.Contains ⟨b.ptr, s.ctx.blockSize⟩ x :=
    ⟨hx.left, Nat.lt_of_lt_of_le hx.right (Nat.add_le_add_left (hfits b hb).right b.ptr)⟩
  have hregion := (poolBlocks_inside (h.inv.live_mem (List.mem_map_of_mem hb))).contains hwhole
  exact (h.exact_iff x hregion).mpr (Or.inl ⟨b.ptr, List.mem_map_of_mem hb, hwhole⟩)

theorem PoolShadow.store {nodes live : List Nat} (h : PoolShadow s nodes live)
    {P : Nat -> Nat -> Prop} {m : Mem} (hw : Wrote P (mem s) m)
    (hP : forall x n, P x n -> exists q, q ∈ live ∧
      Block.Inside ⟨x, n⟩ ⟨q, s.ctx.blockSize⟩)
    (heq : poisoned m.trace = poisoned (mem s).trace) :
    PoolShadow (setMem m s) nodes live := by
  refine ⟨h.inv.store_live hw hP, fun x hx => ?_⟩
  rw [HasMem.mem_setMem, heq]
  exact h.exact_iff x hx

theorem poolSanitized (A : Lawful a) (base : List Block) :
    (poolLawful A base).service.Sanitized PoolMarked where
  opens := by
    rintro s L hinv ⟨free, hshadow⟩
    exact hshadow.opens hinv.fits
  perm := by
    rintro s L M ⟨free, hshadow⟩ hperm
    exact ⟨free, hshadow.perm (hperm.map Block.ptr)⟩
  alloc := by
    rintro s s' L n p _ ⟨free, hshadow⟩ _ hcall
    have hanswer : poolAllocFn n s = (p, s') := Option.some.inj hcall
    by_cases hno : n = 0 ∨ s.ctx.blockSize < n ∨ free = []
    · cases hanswer.symm.trans (poolAllocFn_refused hshadow.inv hno)
      exact ⟨Traced.refl _ _, free, hshadow⟩
    · cases free with
      | nil => exact absurd (Or.inr (Or.inr rfl)) hno
      | cons q rest =>
          have hpos : n ≠ 0 := fun hzero => hno (Or.inl hzero)
          have hle : n ≤ s.ctx.blockSize :=
            Nat.not_lt.mp fun hlt => hno (Or.inr (Or.inl hlt))
          rcases hshadow.alloc hpos hle with ⟨t, hcall', hshadow', htraced⟩
          cases hanswer.symm.trans hcall'
          have hne : p ≠ NULL := hshadow'.inv.live_ne_null List.mem_cons_self
          rw [if_neg hne]
          exact ⟨htraced, rest, hshadow'⟩
  free := by
    rintro s s' L b _ ⟨free, hshadow⟩ hb hcall
    rcases hshadow.free (List.mem_map_of_mem hb) b.size with
      ⟨t, hcall', hshadow', htraced⟩
    cases hcall.symm.trans hcall'
    exact ⟨htraced, _, hshadow'.perm (map_erase_perm Block.ptr hb)⟩
  freeNull := by
    intro s s' L n _ hshadow hcall
    cases hcall
    exact ⟨Traced.refl _ _, hshadow⟩
  realloc := by
    rintro s s' L b n p hinv ⟨free, hshadow⟩ hb hpos _ hcall
    have hptr := hshadow.inv.live_ne_null (List.mem_map_of_mem hb)
    cases hcall.symm.trans (poolReallocFn_eq hshadow.inv (List.mem_map_of_mem hb) b.size n)
    refine ⟨Traced.refl _ _, free, ?_⟩
    by_cases hle : n ≤ s.ctx.blockSize
    · rw [if_pos hle, if_neg hptr]
      exact hshadow.perm ((List.perm_cons_erase hb).map Block.ptr)
    · rw [if_neg hle]
      exact hshadow
  store := by
    rintro s L P m hinv ⟨free, hshadow⟩ hw hP heq
    refine ⟨free, hshadow.store hw ?_ heq⟩
    intro x n hx
    rcases hP x n hx with ⟨b, hb, hinside⟩
    exact ⟨b.ptr, List.mem_map_of_mem hb, hinside.trans (hinv.inside hb).left⟩

/-- A pool that was just made over a child. -/
theorem poolMarked_of_make {C : Contract a} {out blockSize totalBlocks : Nat} {w : χ}
    {base : List Block} {st : PoolState χ} (hchild : C.Inv w base)
    (hsize : roundedBlockSize blockSize * totalBlocks < 2 ^ 64)
    (hmake : makePoolAllocator out (some a) NULL blockSize totalBlocks w =
      some (Made.ok st)) : PoolMarked st [] := by
  have hserves : exists made,
      makePoolAllocator out (some a) NULL blockSize totalBlocks w = some made ∧ _ :=
    makePoolAllocator_serves hchild hsize
  rcases hserves with ⟨made, hmake', ⟨e, w', hfailed, _⟩ | ⟨t, hok, hinv⟩⟩
  · rw [hmake, hfailed] at hmake'
    cases hmake'
  · rw [hmake, hok] at hmake'
    cases hmake'
    apply poolShadow_of_make hmake
    rcases makePoolAllocator_ok hmake with
      ⟨_, hpos, ⟨_, _, p, v, _, _, _, heq⟩ | ⟨hno, _⟩⟩
    · have hround : roundedBlockSize blockSize < 2 ^ 64 :=
        Nat.lt_of_le_of_lt (Nat.le_mul_of_pos_right _ hpos) hsize
      rcases hinv.inv with ⟨free, hpool⟩
      have hregion := hpool.region
      subst heq
      rw [poolStart_ctx] at hregion ⊢
      dsimp only at hregion ⊢
      rw [poolBlockSize_eq hround] at hregion
      exact hregion
    · exact absurd rfl hno

end Sanitized

end Shadow

/-- A pool of three blocks from which one was taken. -/
theorem pool_shadow_exact_three :
    exists (made : PoolState Mem) (s : PoolSession Mem),
      makePoolAllocator 8 (none : Option (Allo Mem)) 64 5 3
        { bytes := fun _ => 0, trace := [] } = some (Made.ok made) ∧
      s.live = [64] ∧
      exists nodes, forall x, s.state.ctx.region.Contains x ->
        (poisoned (mem s.state).trace x = false <->
          PoolOpen s.state.ctx.blockSize nodes s.live x) := by
  have hmake : makePoolAllocator 8 (none : Option (Allo Mem)) 64 5 3
      { bytes := fun _ => 0, trace := [] } = some (Made.ok _) := rfl
  have hone := @Machine.Reaches.step _ _ (poolClient (none : Option (Allo Mem)))
    (PoolSession.start (poolStart 64 8 3 false { bytes := fun _ => 0, trace := [] }))
    _ _ (PoolOp.alloc 5) Machine.Reaches.start trivial rfl
  rcases (pool_shadow_exact hmake (by decide) hone).left with ⟨nodes, _, hexact⟩
  exact ⟨_, _, hmake, rfl, nodes, hexact⟩

end Liballo
