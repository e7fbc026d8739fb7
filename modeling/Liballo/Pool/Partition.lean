import Mathlib.Tactic.Ring
import Liballo.Foundation.Transition
import Liballo.Pool.FreeList

/-!
# A pool hands every block out once

In a run of a pool, free blocks and blocks in the hands of the client always make up all
the blocks of its buffer. Sizes play no role: a client may name any size when it gives a
block back or resizes it, and it may store anywhere in its blocks.
-/

namespace Liballo

open Foundation

/-!
# What each operation does
-/

section Operations

variable {χ : Type} [HasMem χ] {s s' : PoolState χ} {free live : List Nat} {p : Nat}

/-- The same pool, but for the head of its free list and the memory. -/
structure SamePool (s s' : PoolState χ) : Prop where
  ctx : s'.ctx = { s.ctx with freeList := s'.ctx.freeList }
  child : s'.child = setMem (mem s') s.child

theorem SamePool.refl (s : PoolState χ) : SamePool s s where
  ctx := rfl
  child := (HasMem.setMem_mem s.child).symm

theorem SamePool.trans {s'' : PoolState χ} (h : SamePool s s') (h' : SamePool s' s'') :
    SamePool s s'' where
  ctx := by
    rw [h'.ctx, h.ctx]
  child := by
    rw [h'.child, h.child, HasMem.setMem_setMem]

theorem SamePool.store (s : PoolState χ) (m : Mem) : SamePool s (setMem m s) where
  ctx := rfl
  child := by
    rw [HasMem.mem_setMem]
    rfl

theorem SamePool.setFreeList (s : PoolState χ) (node : Nat) :
    SamePool s (s.setFreeList node) where
  ctx := rfl
  child := (HasMem.setMem_mem s.child).symm

theorem poolAllocFn_refused (h : PoolInv s free live) {size : Nat}
    (hno : size = 0 ∨ s.ctx.blockSize < size ∨ free = []) :
    poolAllocFn size s = (NULL, s) := by
  unfold poolAllocFn
  by_cases hzero : size = 0
  · rw [if_pos hzero]
  · rw [if_neg hzero]
    by_cases hlarge : size > s.ctx.blockSize
    · rw [if_pos hlarge]
    · rw [if_neg hlarge]
      have hempty : free = [] := by
        rcases hno with hno | hno | hno
        · exact absurd hno hzero
        · exact absurd hno hlarge
        · exact hno
      have hchain := h.chain
      rw [hempty] at hchain
      exact if_pos hchain

/-- The state after the first block of the free list was handed out. -/
theorem poolAllocFn_head
    (hchain : Chain (PoolFreeNode.next (mem s)) s.ctx.freeList (p :: free)) {size : Nat}
    (hpos : size ≠ 0) (hle : size ≤ s.ctx.blockSize) :
    poolAllocFn size s =
      (p, ((s.note (Event.unpoison p sizeofPoolFreeNode)).setFreeList
        (PoolFreeNode.next (mem s) p)).note (Event.unpoison p s.ctx.blockSize)) := by
  have hhead : s.ctx.freeList = p := hchain.left
  have hne : ¬ s.ctx.freeList = NULL := hhead ▸ hchain.right.left
  unfold poolAllocFn
  rw [if_neg hpos, if_neg (Nat.not_lt.mpr hle), if_neg hne, hhead]
  have hnext : PoolFreeNode.next ((mem s).note (Event.unpoison p sizeofPoolFreeNode)) p =
      PoolFreeNode.next (mem s) p := Mem.word_note _ (mem s) p
  dsimp only
  rw [PoolState.setFreeList_blockSize, PoolState.ctx_note, PoolState.mem_note, hnext]

/-- The pool hands out the first block of its free list, and stores nothing. -/
theorem poolAllocFn_served (h : PoolInv s (p :: free) live) {size : Nat}
    (hpos : size ≠ 0) (hle : size ≤ s.ctx.blockSize) :
    exists s', poolAllocFn size s = (p, s') ∧ PoolInv s' free (p :: live) ∧
      (mem s').bytes = (mem s).bytes ∧ SamePool s s' := by
  refine ⟨_, poolAllocFn_head h.chain hpos hle,
    h.pop.note (Event.unpoison p s.ctx.blockSize), ?_, ?_⟩
  · rw [PoolState.mem_note, PoolState.mem_setFreeList, PoolState.mem_note]
    rfl
  · exact ((SamePool.store s _).trans (SamePool.setFreeList _ _)).trans
      (SamePool.store _ _)

/-- An allocation stores nothing. -/
theorem wrote_poolAllocFn (size : Nat) (s : PoolState χ) :
    Wrote (fun _ _ => False) (mem s) (mem (poolAllocFn size s).2) := by
  unfold poolAllocFn
  split
  · exact Wrote.refl _ _
  · split
    · exact Wrote.refl _ _
    · split
      · exact Wrote.refl _ _
      · dsimp only
        rw [PoolState.mem_note, PoolState.mem_setFreeList, PoolState.mem_note]
        have hheader : Wrote (fun _ _ => False) (mem s)
            ((mem s).note (Event.unpoison s.ctx.freeList sizeofPoolFreeNode)) :=
          Wrote.note trivial
        exact hheader.trans (Wrote.note trivial)

/-- Giving a block back stores the old head of the free list in it. -/
theorem poolFreeFn_served (h : PoolInv s free live) (hp : p ∈ live) (size : Nat) :
    exists s', poolFreeFn p size s = some s' ∧
      PoolInv s' (p :: free) (live.erase p) ∧
      Wrote (fun a n => a = p ∧ n = 8) (mem s) (mem s') ∧ SamePool s s' := by
  have hnotes := (h.note (Event.poison p s.ctx.blockSize)).note
    (Event.unpoison p sizeofPoolFreeNode)
  refine ⟨_, ?_, hnotes.push hp, ?_, ?_⟩
  · unfold poolFreeFn
    rw [if_neg (h.live_ne_null hp), if_neg (fun hno => hno (h.contains_live hp))]
  · rw [PoolState.mem_setFreeList, mem_modifyMem, PoolState.mem_note, PoolState.mem_note]
    have hpoison : Wrote (fun a n => a = p ∧ n = 8) (mem s)
        ((mem s).note (Event.poison p s.ctx.blockSize)) := Wrote.note trivial
    have hunpoison : Wrote (fun a n => a = p ∧ n = 8) _
        (((mem s).note (Event.poison p s.ctx.blockSize)).note
          (Event.unpoison p sizeofPoolFreeNode)) := Wrote.note trivial
    exact hpoison.trans (hunpoison.trans (Wrote.writeWord ⟨rfl, rfl⟩))
  · exact (((SamePool.store s _).trans (SamePool.store _ _)).trans
      (SamePool.store _ _)).trans (SamePool.setFreeList _ _)

theorem poolReallocFn_eq (h : PoolInv s free live) (hp : p ∈ live)
    (oldSize newSize : Nat) :
    poolReallocFn p oldSize newSize s =
      some (if newSize ≤ s.ctx.blockSize then p else NULL, s) := by
  unfold poolReallocFn
  rw [if_neg (fun hno => hno.right (h.contains_live hp))]
  split
  · rfl
  · rfl

end Operations

/-!
# The constructor
-/

/-- The size to which a block size is rounded up. -/
def roundedBlockSize (blockSize : Nat) : Nat :=
  (max blockSize sizeofPoolFreeNode + 7) / 8 * 8

section Make

variable {χ : Type} [HasMem χ] {child : Option (Allo χ)} {w : χ} {s : PoolState χ}
variable {out buffer blockSize totalBlocks : Nat}

theorem poolBlockSize_eq (h : roundedBlockSize blockSize < 2 ^ 64) :
    poolBlockSize blockSize = roundedBlockSize blockSize := by
  have hmax : (if blockSize < sizeofPoolFreeNode then sizeofPoolFreeNode else blockSize) =
      max blockSize sizeofPoolFreeNode := by
    split
    · rename_i hlt
      exact (Nat.max_eq_right (Nat.le_of_lt hlt)).symm
    · rename_i hge
      exact (Nat.max_eq_left (Nat.not_lt.mp hge)).symm
  unfold roundedBlockSize at h ⊢
  unfold poolBlockSize
  rw [hmax]
  apply alloAlignUp_eight
  omega

theorem eight_le_roundedBlockSize (blockSize : Nat) : 8 ≤ roundedBlockSize blockSize := by
  have hmax : 8 ≤ max blockSize sizeofPoolFreeNode := Nat.le_max_right _ _
  unfold roundedBlockSize
  omega

theorem le_roundedBlockSize (blockSize : Nat) : blockSize ≤ roundedBlockSize blockSize := by
  have hmax : blockSize ≤ max blockSize sizeofPoolFreeNode := Nat.le_max_left _ _
  unfold roundedBlockSize
  omega

/-- The largest block sizes are rounded to zero. -/
theorem poolBlockSize_wraps (hlarge : 2 ^ 64 - 8 < blockSize) (hlt : blockSize < 2 ^ 64) :
    poolBlockSize blockSize = 0 := by
  have hge : ¬ blockSize < sizeofPoolFreeNode := by
    unfold sizeofPoolFreeNode
    omega
  have hmod : (blockSize + 8 - 1) % 2 ^ 64 = blockSize + 7 - 2 ^ 64 := by omega
  have hmask : alloAlignUp blockSize 8 = (blockSize + 7 - 2 ^ 64) / 2 ^ 3 * 2 ^ 3 := by
    simp only [alloAlignUp, sizeMod, hmod]
    exact and_mask_eq (k := 3) (by omega) (by decide)
  unfold poolBlockSize
  rw [if_neg hge, hmask]
  omega

/-- The buffer of a new pool is the child's or the caller's. -/
theorem makePoolAllocator_ok
    (hmake : makePoolAllocator out child buffer blockSize totalBlocks w =
      some (Made.ok s)) :
    0 < blockSize ∧ 0 < totalBlocks ∧
      ((buffer = NULL ∧ exists c p v, child = some c ∧
          alloAlloc c (sizeMul (poolBlockSize blockSize) totalBlocks) w = some (p, v) ∧
            p ≠ NULL ∧ s = poolStart p (poolBlockSize blockSize) totalBlocks true v) ∨
        (buffer ≠ NULL ∧
          s = poolStart buffer (poolBlockSize blockSize) totalBlocks false w)) := by
  unfold makePoolAllocator at hmake
  split at hmake
  · cases hmake
  · rename_i hargs
    have hsize : 0 < blockSize := by
      apply Nat.pos_of_ne_zero
      exact fun hzero => hargs (Or.inr (Or.inr (Or.inl hzero)))
    have htotal : 0 < totalBlocks := by
      apply Nat.pos_of_ne_zero
      exact fun hzero => hargs (Or.inr (Or.inr (Or.inr hzero)))
    refine ⟨hsize, htotal, ?_⟩
    split at hmake
    · rename_i hnull
      rcases Option.bind_eq_some_iff.mp hmake with ⟨c, hc, hrest⟩
      rcases Option.bind_eq_some_iff.mp hrest with ⟨⟨p, v⟩, hcall, hlast⟩
      dsimp only at hlast
      split at hlast
      · cases hlast
      · rename_i hne
        cases hlast
        exact Or.inl ⟨hnull, c, p, v, hc, hcall, hne, rfl⟩
    · rename_i hne
      cases hmake
      exact Or.inr ⟨hne, rfl⟩

theorem mem_poolStart (start size : Nat) (own : Bool) (w : χ) :
    mem (poolStart start size totalBlocks own w) =
      poolInitLoop size totalBlocks start
        ((mem w).note (Event.poison start (sizeMul size totalBlocks))) :=
  mem_modifyMem (fun m => poolInitLoop size totalBlocks start
    (m.note (Event.poison start (sizeMul size totalBlocks)))) w

/-- The nodes of a new pool lie in its buffer. -/
theorem wrote_poolStart {start size : Nat} {own : Bool} (hsize : 8 ≤ size)
    (hend : start + size * totalBlocks < 2 ^ 64) :
    Wrote (fun x n => Block.Inside ⟨x, n⟩ ⟨start, size * totalBlocks⟩) (mem w)
      (mem (poolStart start size totalBlocks own w)) := by
  have hpoison : Wrote (fun x n => Block.Inside ⟨x, n⟩ ⟨start, size * totalBlocks⟩)
      (mem w) ((mem w).note (Event.poison start (sizeMul size totalBlocks))) :=
    Wrote.note trivial
  rw [mem_poolStart]
  apply hpoison.trans
  apply (wrote_poolInitLoop (nodes_lt hend)).mono
  rintro x n ⟨hx, rfl⟩
  have hnode : Block.Inside ⟨x, 8⟩ ⟨x, size⟩ :=
    ⟨Nat.le_refl x, Nat.add_le_add_left hsize x⟩
  exact hnode.trans (poolBlocks_inside hx)

theorem poolStart_ctx (start size : Nat) (own : Bool) (w : χ) :
    (poolStart start size totalBlocks own w).ctx =
      { buffer := start
        blockSize := size
        totalBlocks := totalBlocks
        freeList := start
        ownBuffer := own } :=
  rfl

/-- A new pool has all its blocks in its free list, in the order of their addresses. -/
theorem poolInv_start {start size : Nat} {own : Bool} (hpos : 0 < totalBlocks)
    (hsize : 8 ≤ size) (hregion : Block.WellFormed ⟨start, size * totalBlocks⟩) :
    PoolInv (poolStart start size totalBlocks own w)
      (poolBlocks start size totalBlocks) [] where
  region := by
    rw [poolStart_ctx]
    exact hregion
  granule := by
    rw [poolStart_ctx]
    exact hsize
  chain := by
    rw [poolStart_ctx, mem_poolStart]
    exact chain_poolInitLoop hregion.left hpos hsize (nodes_lt hregion.right.right)
  parts := by
    rw [poolStart_ctx, List.append_nil]

end Make

/-!
# Runs
-/

inductive PoolOp where
  | alloc (size : Nat)
  | free (ptr size : Nat)
  | realloc (ptr oldSize newSize : Nat)
  | poke (x : Nat) (v : UInt8)

/-- What the client knows: the blocks it holds, and those it gave back and did not get
again, the last one first. -/
structure PoolSession (χ : Type) where
  state : PoolState χ
  live : List Nat
  freed : List Nat

namespace PoolSession

variable {χ : Type} [HasMem χ]

def start (state : PoolState χ) : PoolSession χ :=
  { state := state, live := [], freed := [] }

def Legal (s : PoolSession χ) : PoolOp -> Prop
  | PoolOp.alloc _ => True
  | PoolOp.free p _ => p ∈ s.live
  | PoolOp.realloc p _ _ => p ∈ s.live
  | PoolOp.poke x _ => exists p, p ∈ s.live ∧
      Block.Contains ⟨p, s.state.ctx.blockSize⟩ x

/-- The session after an allocation answered `ptr`. -/
def afterAlloc (s : PoolSession χ) (ptr : Nat) (state : PoolState χ) : PoolSession χ :=
  if ptr = NULL then { s with state := state }
  else { state := state, live := ptr :: s.live, freed := s.freed.erase ptr }

def afterFree (s : PoolSession χ) (p : Nat) (state : PoolState χ) : PoolSession χ :=
  { state := state, live := s.live.erase p, freed := p :: s.freed }

/-- The session after a reallocation answered `ptr`. -/
def afterRealloc (s : PoolSession χ) (p newSize ptr : Nat) (state : PoolState χ) :
    PoolSession χ :=
  if newSize = 0 then s.afterFree p state
  else if ptr = NULL then { s with state := state }
  else { s with state := state, live := ptr :: s.live.erase p }

def exec (a : Allo (PoolState χ)) : PoolOp -> PoolSession χ -> Option (PoolSession χ)
  | PoolOp.alloc size, s => do
      let (ptr, state) ← alloAlloc a size s.state
      some (s.afterAlloc ptr state)
  | PoolOp.free p size, s => do
      let state ← alloFree a p size s.state
      some (s.afterFree p state)
  | PoolOp.realloc p oldSize newSize, s => do
      let (ptr, state) ← alloRealloc a p oldSize newSize s.state
      some (s.afterRealloc p newSize ptr state)
  | PoolOp.poke x v, s =>
      some { s with state := modifyMem (Mem.poke x v) s.state }

omit [HasMem χ] in
@[simp] theorem afterAlloc_state (s : PoolSession χ) (p : Nat) (state : PoolState χ) :
    (s.afterAlloc p state).state = state := by
  unfold afterAlloc
  split <;> rfl

omit [HasMem χ] in
@[simp] theorem afterRealloc_state (s : PoolSession χ) (p n q : Nat)
    (state : PoolState χ) : (s.afterRealloc p n q state).state = state := by
  unfold afterRealloc
  split
  · rfl
  · split <;> rfl

section Exec

variable {a : Allo (PoolState χ)} {s : PoolSession χ} {state : PoolState χ} {p q : Nat}

theorem exec_alloc_of {size : Nat} (h : alloAlloc a size s.state = some (p, state)) :
    exec a (PoolOp.alloc size) s = some (s.afterAlloc p state) :=
  Option.bind_eq_some_iff.mpr ⟨(p, state), h, rfl⟩

theorem exec_free_of {size : Nat} (h : alloFree a p size s.state = some state) :
    exec a (PoolOp.free p size) s = some (s.afterFree p state) :=
  Option.bind_eq_some_iff.mpr ⟨state, h, rfl⟩

theorem exec_realloc_of {oldSize newSize : Nat}
    (h : alloRealloc a p oldSize newSize s.state = some (q, state)) :
    exec a (PoolOp.realloc p oldSize newSize) s =
      some (s.afterRealloc p newSize q state) :=
  Option.bind_eq_some_iff.mpr ⟨(q, state), h, rfl⟩

end Exec

end PoolSession

/-- A client of a pool that names only blocks it holds and stores only inside them. -/
def poolClient {χ : Type} [HasMem χ] (child : Option (Allo χ)) :
    Machine (PoolSession χ) PoolOp where
  Legal := PoolSession.Legal
  exec := PoolSession.exec (poolAllo child)

/-- No store of the operation hits a block that the client holds before and after it. -/
def KeepsLiveBlocks {χ : Type} [HasMem χ] (s s' : PoolSession χ) : Prop :=
  forall p, p ∈ s.live -> p ∈ s'.live -> forall x,
    Block.Contains ⟨p, s.state.ctx.blockSize⟩ x ->
      (mem s'.state).bytes x = (mem s.state).bytes x

section Runs

variable {χ : Type} [HasMem χ] {child : Option (Allo χ)} {s s' : PoolSession χ}
variable {made : PoolState χ}

/-- The free list starts with the blocks that were given back; those that were never
handed out follow. -/
structure PoolSessionInv (made : PoolState χ) (s : PoolSession χ) (fresh : List Nat) :
    Prop where
  inv : PoolInv s.state (s.freed ++ fresh) s.live
  same : SamePool made s.state

/-- What a step does: it succeeds, it keeps the invariant, and unless the client itself
stores, the live blocks keep their bytes. -/
structure PoolStepped (made : PoolState χ) (child : Option (Allo χ)) (s : PoolSession χ)
    (op : PoolOp) (s' : PoolSession χ) (fresh : List Nat) : Prop where
  exec : PoolSession.exec (poolAllo child) op s = some s'
  inv : PoolSessionInv made s' fresh
  keeps : (forall x v, op ≠ PoolOp.poke x v) -> KeepsLiveBlocks s s'

theorem KeepsLiveBlocks.of_bytes (h : (mem s'.state).bytes = (mem s.state).bytes) :
    KeepsLiveBlocks s s' :=
  fun _ _ _ x _ => congrFun h x

/-- The answer of an allocation. -/
theorem poolAlloc_answer {fresh : List Nat} (h : PoolSessionInv made s fresh)
    (size : Nat) :
    exists p state, alloAlloc (poolAllo child) size s.state = some (p, state) ∧
      (p = NULL <-> size = 0 ∨ s.state.ctx.blockSize < size ∨
        s.live.length = s.state.ctx.totalBlocks) ∧
      (p ≠ NULL -> forall q rest, s.freed = q :: rest -> p = q) := by
  have hlength := h.inv.parts.length_eq
  rw [List.length_append, List.length_range'] at hlength
  by_cases hno : size = 0 ∨ s.state.ctx.blockSize < size ∨ s.freed ++ fresh = []
  · refine ⟨NULL, s.state, congrArg some (poolAllocFn_refused h.inv hno), ?_, ?_⟩
    · refine iff_of_true rfl ?_
      rcases hno with hzero | hlarge | hempty
      · exact Or.inl hzero
      · exact Or.inr (Or.inl hlarge)
      · rw [hempty, List.length_nil, Nat.zero_add] at hlength
        exact Or.inr (Or.inr hlength)
    · exact fun hne => absurd rfl hne
  · cases hfree : s.freed ++ fresh with
    | nil => exact absurd (Or.inr (Or.inr hfree)) hno
    | cons p rest =>
        have hinv := h.inv
        rw [hfree] at hinv
        have hpos : size ≠ 0 := fun hzero => hno (Or.inl hzero)
        have hle : size ≤ s.state.ctx.blockSize :=
          Nat.not_lt.mp fun hlt => hno (Or.inr (Or.inl hlt))
        rcases poolAllocFn_served hinv hpos hle with ⟨state, hcall, hpop, _, _⟩
        refine ⟨p, state, congrArg some hcall, ?_, ?_⟩
        · refine iff_of_false (hpop.live_ne_null List.mem_cons_self) ?_
          rintro (hzero | hlarge | hall)
          · exact hpos hzero
          · exact Nat.not_lt.mpr hle hlarge
          · rw [hfree, List.length_cons] at hlength
            omega
        · intro _ q rest' hfreed
          rw [hfreed] at hfree
          exact (List.cons.inj hfree).left.symm

theorem poolStep_alloc {fresh : List Nat} (h : PoolSessionInv made s fresh)
    (size : Nat) :
    exists s' fresh', PoolStepped made child s (PoolOp.alloc size) s' fresh' := by
  by_cases hno : size = 0 ∨ s.state.ctx.blockSize < size ∨ s.freed ++ fresh = []
  · have hcall : alloAlloc (poolAllo child) size s.state = some (NULL, s.state) :=
      congrArg some (poolAllocFn_refused h.inv hno)
    refine ⟨s.afterAlloc NULL s.state, fresh, PoolSession.exec_alloc_of hcall, h, ?_⟩
    exact fun _ => KeepsLiveBlocks.of_bytes rfl
  · have hpos : size ≠ 0 := fun hzero => hno (Or.inl hzero)
    have hle : size ≤ s.state.ctx.blockSize :=
      Nat.not_lt.mp fun hlt => hno (Or.inr (Or.inl hlt))
    -- The head of the free list was given back, or was never handed out.
    have hserve : forall p freed' fresh', s.freed ++ fresh = p :: (freed' ++ fresh') ->
        s.freed.erase p = freed' ->
        exists s', PoolStepped made child s (PoolOp.alloc size) s' fresh' := by
      intro p freed' fresh' hfree herase
      have hinv := h.inv
      rw [hfree] at hinv
      rcases poolAllocFn_served hinv hpos hle with ⟨state, hcall, hpop, hbytes, hsame⟩
      have hne : p ≠ NULL := hpop.live_ne_null List.mem_cons_self
      have hafter : s.afterAlloc p state =
          { state := state, live := p :: s.live, freed := freed' } := by
        unfold PoolSession.afterAlloc
        rw [if_neg hne, herase]
      refine ⟨s.afterAlloc p state, PoolSession.exec_alloc_of (congrArg some hcall), ?_,
        fun _ => ?_⟩
      · rw [hafter]
        exact { inv := hpop, same := h.same.trans hsame }
      · rw [hafter]
        exact KeepsLiveBlocks.of_bytes hbytes
    cases hfreed : s.freed with
    | nil =>
        cases fresh with
        | nil => exact absurd (Or.inr (Or.inr (by rw [hfreed]; rfl))) hno
        | cons p rest =>
            rcases hserve p [] rest (by rw [hfreed]; rfl) (by rw [hfreed]; rfl) with
              ⟨s', hstep⟩
            exact ⟨s', rest, hstep⟩
    | cons p rest =>
        rcases hserve p rest fresh (by rw [hfreed]; rfl)
          (by rw [hfreed, List.erase_cons_head]) with ⟨s', hstep⟩
        exact ⟨s', fresh, hstep⟩

theorem poolStep_free {fresh : List Nat} (h : PoolSessionInv made s fresh) {p : Nat}
    (hp : p ∈ s.live) {state : PoolState χ}
    (hinv : PoolInv state (p :: (s.freed ++ fresh)) (s.live.erase p))
    (hwrote : Wrote (fun a n => a = p ∧ n = 8) (mem s.state) (mem state))
    (hsame : SamePool s.state state) :
    PoolSessionInv made (s.afterFree p state) fresh ∧
      KeepsLiveBlocks s (s.afterFree p state) := by
  constructor
  · exact { inv := hinv, same := h.same.trans hsame }
  · intro q hq hlive x hx
    apply hwrote.bytes
    intro a n hP
    have hne : q ≠ p := by
      intro heq
      rw [heq] at hlive
      exact (List.nodup_append.mp h.inv.nodup).right.left.not_mem_erase hlive
    have hapart := poolBlocks_apart (h.inv.live_mem hq) (h.inv.live_mem hp) hne
    have hsize := h.inv.granule
    simp only [Block.Disjoint, Block.Contains, Block.stop] at hapart hx
    omega

theorem poolStep_realloc {fresh : List Nat} (h : PoolSessionInv made s fresh) {p : Nat}
    (hp : p ∈ s.live) (oldSize newSize : Nat) :
    exists s', PoolStepped made child s (PoolOp.realloc p oldSize newSize) s' fresh := by
  have hne := h.inv.live_ne_null hp
  by_cases hzero : newSize = 0
  · rcases poolFreeFn_served h.inv hp oldSize with ⟨state, hcall, hinv, hwrote, hsame⟩
    have hafter : s.afterRealloc p newSize NULL state = s.afterFree p state :=
      if_pos hzero
    have hstep := poolStep_free h hp hinv hwrote hsame
    have hexec : alloRealloc (poolAllo child) p oldSize newSize s.state =
        some (NULL, state) := by
      rw [hzero]
      exact alloRealloc_zero hcall
    refine ⟨s.afterRealloc p newSize NULL state, PoolSession.exec_realloc_of hexec, ?_, ?_⟩
    · rw [hafter]
      exact hstep.left
    · rw [hafter]
      exact fun _ => hstep.right
  · -- Neither the block nor the state changes; the answer is the block or null.
    have hstay : forall q, q = p ∨ q = NULL ->
        alloRealloc (poolAllo child) p oldSize newSize s.state = some (q, s.state) ->
          exists s', PoolStepped made child s (PoolOp.realloc p oldSize newSize) s'
            fresh := by
      intro q hq hcall
      refine ⟨s.afterRealloc p newSize q s.state, PoolSession.exec_realloc_of hcall, ?_,
        fun _ => KeepsLiveBlocks.of_bytes ?_⟩
      · unfold PoolSession.afterRealloc
        rw [if_neg hzero]
        rcases hq with heq | heq
        · rw [heq, if_neg hne]
          exact
            { inv := h.inv.relist rfl h.inv.chain
                ((List.perm_cons_erase hp).symm.append_left _)
              same := h.same }
        · rw [if_pos heq]
          exact h
      · unfold PoolSession.afterRealloc
        rw [if_neg hzero]
        split
        · rfl
        · rfl
    by_cases hsame : oldSize = newSize
    · refine hstay p (Or.inl rfl) ?_
      rw [hsame]
      exact alloRealloc_same hzero hne
    · refine hstay _ ?_ ((alloRealloc_pass hzero hne hsame).trans
        (poolReallocFn_eq h.inv hp oldSize newSize))
      split
      · exact Or.inl rfl
      · exact Or.inr rfl

theorem poolStep {fresh : List Nat} (h : PoolSessionInv made s fresh) {op : PoolOp}
    (hlegal : s.Legal op) :
    exists s' fresh', PoolStepped made child s op s' fresh' := by
  cases op with
  | alloc size => exact poolStep_alloc h size
  | free p size =>
      rcases poolFreeFn_served h.inv hlegal size with ⟨state, hcall, hinv, hwrote, hsame⟩
      have hstep := poolStep_free h hlegal hinv hwrote hsame
      exact ⟨_, fresh, PoolSession.exec_free_of hcall, hstep.left, fun _ => hstep.right⟩
  | realloc p oldSize newSize =>
      have hstep : exists s', PoolStepped made child s
          (PoolOp.realloc p oldSize newSize) s' fresh :=
        poolStep_realloc h hlegal oldSize newSize
      rcases hstep with ⟨s', hstep⟩
      exact ⟨s', fresh, hstep⟩
  | poke x v =>
      rcases hlegal with ⟨p, hp, hx⟩
      have hwrote : Wrote (fun a n => a = x ∧ n = 1) (mem s.state)
          (Mem.poke x v (mem s.state)) := Wrote.poke ⟨rfl, rfl⟩
      refine ⟨_, fresh, rfl, ?_, fun hno => absurd rfl (hno x v)⟩
      refine { inv := h.inv.store_live hwrote ?_, same := ?_ }
      · intro a n hP
        refine ⟨p, hp, ?_⟩
        rw [hP.left, hP.right]
        exact ⟨hx.left, hx.right⟩
      · exact h.same.trans (SamePool.store s.state _)

/-- What holds of a pool of `totalBlocks` blocks at `buffer` in the middle of a run. -/
structure PoolPartitioned (child : Option (Allo χ)) (buffer blockSize totalBlocks : Nat)
    (s : PoolSession χ) : Prop where
  size : s.state.ctx.blockSize = blockSize
  partition : exists nodes,
    Chain (PoolFreeNode.next (mem s.state)) s.state.ctx.freeList nodes ∧
      (nodes ++ s.live).Nodup ∧
      (nodes ++ s.live).Perm (poolBlocks buffer blockSize totalBlocks)
  answer : forall size, exists p state,
    alloAlloc (poolAllo child) size s.state = some (p, state) ∧
      (p = NULL <-> size = 0 ∨ blockSize < size ∨ s.live.length = totalBlocks) ∧
      (p ≠ NULL -> forall q rest, s.freed = q :: rest -> p = q)
  steps : forall op, s.Legal op -> exists s', (poolClient child).exec op s = some s' ∧
    ((forall x v, op ≠ PoolOp.poke x v) -> KeepsLiveBlocks s s')

theorem poolSessionInv_of_reaches (hinv : PoolInv made (poolBlocks made.ctx.buffer
      made.ctx.blockSize made.ctx.totalBlocks) [])
    (hreach : (poolClient child).Reaches (PoolSession.start made) s) :
    exists fresh, PoolSessionInv made s fresh := by
  refine hreach.invariant_of_step (fun s => exists fresh, PoolSessionInv made s fresh) ?_ ?_
  · exact ⟨_, hinv, SamePool.refl made⟩
  · intro s op hs hlegal
    rcases hs with ⟨fresh, hs⟩
    have hstep : exists s' fresh', PoolStepped made child s op s' fresh' :=
      poolStep hs hlegal
    rcases hstep with ⟨s', fresh', hstep⟩
    exact ⟨s', hstep.exec, fresh', hstep.inv⟩

/-- A new pool has the rounded block size, and all its blocks are free. -/
theorem makePoolAllocator_inv {out buffer blockSize totalBlocks : Nat} {w : χ}
    (hmake : makePoolAllocator out child buffer blockSize totalBlocks w =
      some (Made.ok made))
    (hholds : Block.WellFormed
      ⟨made.ctx.buffer, roundedBlockSize blockSize * totalBlocks⟩) :
    made.ctx.blockSize = roundedBlockSize blockSize ∧
      made.ctx.totalBlocks = totalBlocks ∧
        PoolInv made (poolBlocks made.ctx.buffer made.ctx.blockSize
          made.ctx.totalBlocks) [] := by
  have hmade : 0 < totalBlocks ∧ exists start own v,
      made = poolStart start (poolBlockSize blockSize) totalBlocks own v := by
    rcases makePoolAllocator_ok hmake with
      ⟨_, hpos, ⟨_, _, p, v, _, _, _, heq⟩ | ⟨_, heq⟩⟩
    · exact ⟨hpos, p, true, v, heq⟩
    · exact ⟨hpos, buffer, false, w, heq⟩
  rcases hmade with ⟨hpos, start, own, v, hmade⟩
  have hround : roundedBlockSize blockSize < 2 ^ 64 := by
    have hend := hholds.right.right
    have hle := Nat.le_mul_of_pos_right (roundedBlockSize blockSize) hpos
    simp only [Block.stop] at hend
    omega
  rw [poolBlockSize_eq hround] at hmade
  rw [hmade, poolStart_ctx] at hholds
  rw [hmade, poolStart_ctx]
  exact ⟨rfl, rfl, poolInv_start hpos (eight_le_roundedBlockSize blockSize) hholds⟩

theorem pool_partition {out buffer blockSize totalBlocks : Nat} {w : χ}
    (hmake : makePoolAllocator out child buffer blockSize totalBlocks w =
      some (Made.ok made))
    (hholds : Block.WellFormed
      ⟨made.ctx.buffer, roundedBlockSize blockSize * totalBlocks⟩)
    (hreach : (poolClient child).Reaches (PoolSession.start made) s) :
    PoolPartitioned child made.ctx.buffer (roundedBlockSize blockSize) totalBlocks s := by
  rcases makePoolAllocator_inv hmake hholds with ⟨hblock, hcount, hinv⟩
  rcases poolSessionInv_of_reaches hinv hreach with ⟨fresh, hs⟩
  have hctx := hs.same.ctx
  have hbuffer : s.state.ctx.buffer = made.ctx.buffer := by rw [hctx]
  have hsize : s.state.ctx.blockSize = roundedBlockSize blockSize := by
    rw [hctx, ← hblock]
  have htotal : s.state.ctx.totalBlocks = totalBlocks := by
    rw [hctx, ← hcount]
  constructor
  · exact hsize
  · refine ⟨s.freed ++ fresh, hs.inv.chain, hs.inv.nodup, ?_⟩
    rw [← hbuffer, ← hsize, ← htotal]
    exact hs.inv.parts
  · intro size
    rw [← hsize, ← htotal]
    exact poolAlloc_answer hs size
  · intro op hlegal
    have hstep : exists s' fresh', PoolStepped made child s op s' fresh' :=
      poolStep hs hlegal
    rcases hstep with ⟨s', fresh', hstep⟩
    exact ⟨s', hstep.exec, hstep.keeps⟩

end Runs

/-- A pool of three blocks after two allocations and one return. -/
theorem pool_partition_three :
    exists made s, makePoolAllocator 8 (none : Option (Allo Mem)) 64 5 3
        { bytes := fun _ => 0, trace := [] } = some (Made.ok made) ∧
      s.live = [72] ∧ s.freed = [64] ∧
      PoolPartitioned (none : Option (Allo Mem)) 64 8 3 s := by
  have hmake : makePoolAllocator 8 (none : Option (Allo Mem)) 64 5 3
      { bytes := fun _ => 0, trace := [] } = some (Made.ok _) := rfl
  have hrun : exists s, (poolClient (none : Option (Allo Mem))).Reaches
      (PoolSession.start (poolStart 64 8 3 false
        ({ bytes := fun _ => 0, trace := [] } : Mem))) s ∧
      s.live = [72] ∧ s.freed = [64] := by
    have hone := @Machine.Reaches.step _ _ (poolClient (none : Option (Allo Mem)))
      (PoolSession.start (poolStart 64 8 3 false { bytes := fun _ => 0, trace := [] }))
      _ _ (PoolOp.alloc 5) Machine.Reaches.start trivial rfl
    have htwo := @Machine.Reaches.step _ _ _ _ _ _ (PoolOp.alloc 8) hone trivial rfl
    exact ⟨_, @Machine.Reaches.step _ _ _ _ _ _ (PoolOp.free 64 5) htwo
      (List.mem_cons_of_mem _ List.mem_cons_self) rfl, rfl, rfl⟩
  rcases hrun with ⟨s, hreach, hlive, hfreed⟩
  exact ⟨_, s, hmake, hlive, hfreed, pool_partition hmake (by decide) hreach⟩

end Liballo
