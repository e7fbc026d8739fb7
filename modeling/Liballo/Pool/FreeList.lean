import Mathlib.Data.List.Perm.Basic
import Liballo.Foundation.LinkedList
import Liballo.Pool.Defs

/-!
# The free list of a pool

The blocks of a pool start at multiples of the block size from the buffer on. The free
list is a chain through the first words of the free blocks; together with the blocks that
are handed out it has every block once. Each operation is described by what it does to
the two lists of blocks.
-/

namespace Liballo

open Foundation

/-!
# The blocks
-/

/-- Where the blocks of a pool start. -/
abbrev poolBlocks (buffer blockSize totalBlocks : Nat) : List Nat :=
  List.range' buffer totalBlocks blockSize

section Blocks

variable {buffer blockSize totalBlocks p q : Nat}

theorem poolBlocks_inside (hp : p ∈ poolBlocks buffer blockSize totalBlocks) :
    Block.Inside ⟨p, blockSize⟩ ⟨buffer, blockSize * totalBlocks⟩ := by
  rcases List.mem_range'.mp hp with ⟨i, hi, hpi⟩
  have hle : blockSize * (i + 1) ≤ blockSize * totalBlocks :=
    Nat.mul_le_mul_left blockSize hi
  rw [Nat.mul_succ] at hle
  constructor
  · exact hpi ▸ Nat.le_add_right _ _
  · simp only [Block.stop]
    omega

theorem poolBlocks_apart (hp : p ∈ poolBlocks buffer blockSize totalBlocks)
    (hq : q ∈ poolBlocks buffer blockSize totalBlocks) (hne : p ≠ q) :
    Block.Disjoint ⟨p, blockSize⟩ ⟨q, blockSize⟩ := by
  rcases List.mem_range'.mp hp with ⟨i, _, hpi⟩
  rcases List.mem_range'.mp hq with ⟨j, _, hqj⟩
  have hmul : forall k l, k < l -> blockSize * k + blockSize ≤ blockSize * l := by
    intro k l hkl
    rw [← Nat.mul_succ]
    exact Nat.mul_le_mul_left blockSize hkl
  rcases Nat.lt_trichotomy i j with hlt | heq | hgt
  · have hle := hmul i j hlt
    left
    simp only [Block.stop]
    omega
  · rw [hpi, hqj, heq] at hne
    exact absurd rfl hne
  · have hle := hmul j i hgt
    right
    simp only [Block.stop]
    omega

theorem poolBlocks_nodup (hpos : 0 < blockSize) :
    (poolBlocks buffer blockSize totalBlocks).Nodup :=
  List.nodup_range' blockSize hpos

end Blocks

/-!
# The loop that links the blocks
-/

theorem nodes_lt {curr blockSize left : Nat} (hend : curr + blockSize * left < 2 ^ 64)
    (j : Nat) (hj : j < left) : curr + blockSize * j < 2 ^ 64 := by
  have hle := Nat.mul_le_mul_left blockSize (Nat.le_of_lt hj)
  omega

section InitLoop

variable {blockSize left curr : Nat} {m : Mem}

/-- The nodes after the first one. -/
theorem nodes_tail (hend : forall j, j < left + 1 -> curr + blockSize * j < 2 ^ 64)
    (j : Nat) (hj : j < left) : curr + blockSize + blockSize * j < 2 ^ 64 := by
  have hnext := hend (j + 1) (Nat.succ_lt_succ hj)
  rw [Nat.mul_succ] at hnext
  omega

theorem sizeAdd_node (hpos : 0 < left)
    (hend : forall j, j < left + 1 -> curr + blockSize * j < 2 ^ 64) :
    sizeAdd curr blockSize = curr + blockSize := by
  have hnext := hend 1 (Nat.succ_lt_succ hpos)
  rw [Nat.mul_one] at hnext
  exact sizeAdd_eq hnext

theorem wrote_poolInitLoop
    (hend : forall j, j < left -> curr + blockSize * j < 2 ^ 64) :
    Wrote (fun a n => a ∈ poolBlocks curr blockSize left ∧ n = 8) m
      (poolInitLoop blockSize left curr m) := by
  induction left generalizing curr m with
  | zero => exact Wrote.refl _ _
  | succ left ih =>
      have hhere : curr ∈ poolBlocks curr blockSize (left + 1) :=
        List.mem_range'.mpr ⟨0, Nat.succ_pos left, rfl⟩
      have hnote : Wrote (fun a n => a ∈ poolBlocks curr blockSize (left + 1) ∧ n = 8) m
          (m.note (Event.unpoison curr sizeofPoolFreeNode)) := Wrote.note trivial
      unfold poolInitLoop
      dsimp only
      split
      · rename_i hpos
        rw [sizeAdd_node hpos hend]
        refine hnote.trans ((Wrote.writeWord ⟨hhere, rfl⟩).trans
          ((ih (nodes_tail hend)).mono ?_))
        intro a n hP
        refine ⟨?_, hP.right⟩
        rw [poolBlocks, List.range'_succ]
        exact List.mem_cons_of_mem curr hP.left
      · exact hnote.trans (Wrote.writeWord ⟨hhere, rfl⟩)

theorem chain_poolInitLoop (hcurr : 0 < curr) (hleft : 0 < left) (hsize : 8 ≤ blockSize)
    (hend : forall j, j < left -> curr + blockSize * j < 2 ^ 64) :
    Chain (PoolFreeNode.next (poolInitLoop blockSize left curr m)) curr
      (poolBlocks curr blockSize left) := by
  induction left generalizing curr m with
  | zero => cases hleft
  | succ left ih =>
      rw [poolBlocks, List.range'_succ]
      refine ⟨rfl, Nat.ne_of_gt hcurr, ?_⟩
      unfold poolInitLoop
      dsimp only
      split
      · rename_i hpos
        have hnext := sizeAdd_node hpos hend
        have hrest := nodes_tail hend
        have hlt : curr + blockSize < 2 ^ 64 := hrest 0 hpos
        rw [hnext]
        have hlink : PoolFreeNode.next
            (poolInitLoop blockSize left (curr + blockSize)
              (PoolFreeNode.setNext curr (curr + blockSize)
                (m.note (Event.unpoison curr sizeofPoolFreeNode)))) curr =
            curr + blockSize := by
          have hkept := (wrote_poolInitLoop (m := PoolFreeNode.setNext curr
            (curr + blockSize) (m.note (Event.unpoison curr sizeofPoolFreeNode)))
              hrest).word_eq (c := curr) (by
            intro a n hP
            have hle := (poolBlocks_inside hP.left).left
            dsimp only at hle
            omega)
          exact hkept.trans (Mem.word_writeWord_same hlt)
        rw [hlink]
        exact ih (by omega) hpos hrest
      · rename_i hpos
        have hzero : left = 0 := Nat.eq_zero_of_not_pos hpos
        cases hzero
        exact Mem.word_writeWord_same (by decide)

/-- Every node of the loop is written, at its address modulo the address space. -/
theorem poolInitLoop_writes (hcurr : curr < 2 ^ 64) :
    exists es, (poolInitLoop blockSize left curr m).trace = es ++ m.trace ∧
      forall j, j < left -> Event.write ((curr + blockSize * j) % 2 ^ 64) 8 ∈ es := by
  induction left generalizing curr m with
  | zero => exact ⟨[], rfl, fun j hj => absurd hj (Nat.not_lt_zero j)⟩
  | succ left ih =>
      have hfirst : (curr + blockSize * 0) % 2 ^ 64 = curr := Nat.mod_eq_of_lt hcurr
      unfold poolInitLoop
      dsimp only
      split
      · have hnext := sizeAdd_lt curr blockSize
        rcases @ih (sizeAdd curr blockSize) (PoolFreeNode.setNext curr
          (sizeAdd curr blockSize) (m.note (Event.unpoison curr sizeofPoolFreeNode)))
            hnext with ⟨es, htrace, hall⟩
        refine ⟨es ++ [Event.write curr 8, Event.unpoison curr sizeofPoolFreeNode], ?_, ?_⟩
        · rw [htrace, List.append_assoc]
          rfl
        · intro j hj
          cases j with
          | zero =>
              rw [hfirst]
              exact List.mem_append_right es List.mem_cons_self
          | succ j =>
              have hnode := hall j (Nat.lt_of_succ_lt_succ hj)
              have haddr : (sizeAdd curr blockSize + blockSize * j) % 2 ^ 64 =
                  (curr + blockSize * (j + 1)) % 2 ^ 64 := by
                unfold sizeAdd sizeMod
                rw [Nat.mod_add_mod, Nat.mul_succ, Nat.add_assoc,
                  Nat.add_comm blockSize (blockSize * j)]
              rw [haddr] at hnode
              exact List.mem_append_left _ hnode
      · rename_i hlast
        refine ⟨[Event.write curr 8, Event.unpoison curr sizeofPoolFreeNode], rfl, ?_⟩
        intro j hj
        have hzero : j = 0 := by omega
        rw [hzero, hfirst]
        exact List.mem_cons_self

end InitLoop

/-!
# The invariant
-/

section Invariant

variable {χ : Type} [HasMem χ]

/-- The free list has the blocks `free`, in this order, and the other blocks `live` are
handed out. -/
structure PoolInv (s : PoolState χ) (free live : List Nat) : Prop where
  region : Block.WellFormed ⟨s.ctx.buffer, s.ctx.blockSize * s.ctx.totalBlocks⟩
  granule : 8 ≤ s.ctx.blockSize
  chain : Chain (PoolFreeNode.next (mem s)) s.ctx.freeList free
  parts : (free ++ live).Perm
    (poolBlocks s.ctx.buffer s.ctx.blockSize s.ctx.totalBlocks)

variable {s : PoolState χ} {free live : List Nat} {p q : Nat}

namespace PoolInv

theorem nodup (h : PoolInv s free live) : (free ++ live).Nodup :=
  h.parts.nodup_iff.mpr (poolBlocks_nodup (Nat.lt_of_lt_of_le (by decide) h.granule))

theorem live_mem (h : PoolInv s free live) (hp : p ∈ live) :
    p ∈ poolBlocks s.ctx.buffer s.ctx.blockSize s.ctx.totalBlocks :=
  h.parts.mem_iff.mp (List.mem_append_right free hp)

theorem free_mem (h : PoolInv s free live) (hp : p ∈ free) :
    p ∈ poolBlocks s.ctx.buffer s.ctx.blockSize s.ctx.totalBlocks :=
  h.parts.mem_iff.mp (List.mem_append_left live hp)

/-- A free block and a block that is handed out are apart. -/
theorem apart (h : PoolInv s free live) (hp : p ∈ free) (hq : q ∈ live) :
    Block.Disjoint ⟨p, s.ctx.blockSize⟩ ⟨q, s.ctx.blockSize⟩ := by
  refine poolBlocks_apart (h.free_mem hp) (h.live_mem hq) ?_
  intro heq
  exact (List.nodup_append.mp h.nodup).right.right p hp q hq heq

theorem live_ne_null (h : PoolInv s free live) (hp : p ∈ live) : p ≠ NULL := by
  have hle := (poolBlocks_inside (h.live_mem hp)).left
  exact Nat.ne_of_gt (Nat.lt_of_lt_of_le h.region.left hle)

theorem contains_eq (h : PoolInv s free live) (x : Nat) :
    poolContainsFn x s = AlloContains.yes <->
      Block.Contains ⟨s.ctx.buffer, s.ctx.blockSize * s.ctx.totalBlocks⟩ x := by
  have hend : s.ctx.buffer + s.ctx.blockSize * s.ctx.totalBlocks < 2 ^ 64 :=
    h.region.right.right
  have hmul : sizeMul s.ctx.blockSize s.ctx.totalBlocks =
      s.ctx.blockSize * s.ctx.totalBlocks := sizeMul_eq (by omega)
  unfold poolContainsFn
  dsimp only
  rw [hmul, sizeAdd_eq hend]
  split
  · rename_i hin
    exact iff_of_true rfl hin
  · rename_i hout
    exact iff_of_false (fun hno => by cases hno) hout

theorem contains_live (h : PoolInv s free live) (hp : p ∈ live) :
    poolContainsFn p s = AlloContains.yes := by
  refine (h.contains_eq p).mpr ((poolBlocks_inside (h.live_mem hp)).contains ?_)
  refine ⟨Nat.le_refl p, ?_⟩
  have hsize := h.granule
  simp only [Block.stop]
  omega

/-- A store that keeps off the first words of the free blocks. -/
theorem store (h : PoolInv s free live) {P : Nat -> Nat -> Prop} {m : Mem}
    (hw : Wrote P (mem s) m)
    (hP : forall a n, P a n -> forall q, q ∈ free -> q + 8 ≤ a ∨ a + n ≤ q) :
    PoolInv (setMem m s) free live where
  region := h.region
  granule := h.granule
  chain := by
    apply h.chain.congr
    intro q hq
    change (mem (setMem m s)).word q = (mem s).word q
    rw [HasMem.mem_setMem]
    exact hw.word_eq fun a n hPan => hP a n hPan q hq
  parts := h.parts

/-- A store into blocks that are handed out. -/
theorem store_live (h : PoolInv s free live) {P : Nat -> Nat -> Prop} {m : Mem}
    (hw : Wrote P (mem s) m)
    (hP : forall a n, P a n -> exists q, q ∈ live ∧
      Block.Inside ⟨a, n⟩ ⟨q, s.ctx.blockSize⟩) :
    PoolInv (setMem m s) free live := by
  refine h.store hw ?_
  intro a n hPan q hq
  rcases hP a n hPan with ⟨p, hp, hinside⟩
  have hapart := h.apart hq hp
  have hsize := h.granule
  simp only [Block.Disjoint, Block.Inside, Block.stop] at hapart hinside
  omega

theorem note (h : PoolInv s free live) (e : Event) : PoolInv (s.note e) free live where
  region := h.region
  granule := h.granule
  chain := by
    apply h.chain.congr
    intro q _
    rw [PoolState.mem_note]
    exact Mem.word_note e (mem s) q
  parts := h.parts

/-- Another free list of the same pool. -/
theorem relist (h : PoolInv s free live) {s' : PoolState χ} {node : Nat}
    {free' live' : List Nat} (hctx : s'.ctx = { s.ctx with freeList := node })
    (hchain : Chain (PoolFreeNode.next (mem s')) node free')
    (hparts : (free' ++ live').Perm (free ++ live)) : PoolInv s' free' live' where
  region := by
    rw [hctx]
    exact h.region
  granule := by
    rw [hctx]
    exact h.granule
  chain := by
    rw [hctx]
    exact hchain
  parts := by
    rw [hctx]
    exact hparts.trans h.parts

theorem perm (h : PoolInv s free live) {live' : List Nat} (hperm : live.Perm live') :
    PoolInv s free live' :=
  h.relist rfl h.chain (hperm.symm.append_left free)

/-- The same pool in a memory that has the same bytes in its buffer. -/
theorem congr (h : PoolInv s free live) {s' : PoolState χ} (hctx : s'.ctx = s.ctx)
    (hbytes : forall x,
      Block.Contains ⟨s.ctx.buffer, s.ctx.blockSize * s.ctx.totalBlocks⟩ x ->
        (mem s').bytes x = (mem s).bytes x) : PoolInv s' free live := by
  refine h.relist hctx ?_ (List.Perm.refl _)
  apply h.chain.congr
  intro q hq
  apply Mem.word_congr
  intro x hx hlt
  apply hbytes
  apply (poolBlocks_inside (h.free_mem hq)).contains
  have hsize := h.granule
  simp only [Block.Contains, Block.stop]
  omega

/-- The allocation that hands out the first free block. -/
theorem pop (h : PoolInv s (p :: free) live) :
    PoolInv ((s.note (Event.unpoison p sizeofPoolFreeNode)).setFreeList
      (PoolFreeNode.next (mem s) p)) free (p :: live) := by
  refine h.relist rfl ?_ List.perm_middle
  rw [PoolState.mem_setFreeList, PoolState.mem_note]
  apply h.chain.right.right.congr
  intro q _
  exact Mem.word_note _ (mem s) q

theorem freeList_lt (h : PoolInv s free live) : s.ctx.freeList < 2 ^ 64 := by
  have hchain := h.chain
  cases free with
  | nil =>
      rw [show s.ctx.freeList = 0 from hchain]
      exact Nat.two_pow_pos 64
  | cons q rest =>
      have hin := poolBlocks_inside (h.free_mem (p := q) List.mem_cons_self)
      have hend := h.region.right.right
      simp only [Block.Inside, Block.stop] at hin hend
      rw [hchain.left]
      omega

/-- The return of a block that was handed out. -/
theorem push (h : PoolInv s free live) (hp : p ∈ live) :
    PoolInv ((modifyMem (PoolFreeNode.setNext p s.ctx.freeList) s).setFreeList p)
      (p :: free) (live.erase p) := by
  have hlink : PoolFreeNode.next ((mem s).writeWord p s.ctx.freeList) p =
      s.ctx.freeList := Mem.word_writeWord_same h.freeList_lt
  refine h.relist rfl ?_ ?_
  · rw [PoolState.mem_setFreeList, mem_modifyMem]
    refine ⟨rfl, h.live_ne_null hp, ?_⟩
    change Chain _ (PoolFreeNode.next ((mem s).writeWord p s.ctx.freeList) p) free
    rw [hlink]
    apply h.chain.congr
    intro q hq
    apply Mem.word_writeWord_disjoint
    have hapart := h.apart hq hp
    have hsize := h.granule
    simp only [Block.Disjoint, Block.stop] at hapart
    omega
  · exact List.perm_middle.symm.trans
      ((List.perm_cons_erase hp).symm.append_left free)

end PoolInv

end Invariant

end Liballo
