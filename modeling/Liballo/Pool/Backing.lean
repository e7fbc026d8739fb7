import Liballo.Buffer.Contract
import Liballo.Pool.Partition

/-!
# What the child grants to a pool

Neither the rounding of the block size nor the product with the number of blocks is
checked for overflow. The memory that the child grants is large enough exactly when there
is none.
-/

namespace Liballo

open Foundation

section Backing

variable {χ : Type} [HasMem χ] {a c : Allo χ} {w : χ}
variable {out blockSize totalBlocks : Nat}

/-- The blocks are large enough, the one block that the child granted has room for all of
them, and the nodes of the free list lie inside it. -/
structure PoolBacked (a : Allo χ) (w : χ) (blockSize totalBlocks : Nat)
    (made : PoolState (Recorded χ)) : Prop where
  rounded : blockSize ≤ made.ctx.blockSize
  backed : exists b v, alloAlloc (recording a) b.size (Recorded.start w) = some (b.ptr, v) ∧
    made.child.granted = [b] ∧ made.ctx.buffer = b.ptr ∧
      made.ctx.blockSize * totalBlocks ≤ b.size ∧
        Wrote (fun x n => Block.Inside ⟨x, n⟩ b) (mem v) (mem made)

theorem makePoolAllocator_backed {made : PoolState χ}
    (hmake : makePoolAllocator out (some c) NULL blockSize totalBlocks w =
      some (Made.ok made)) :
    0 < totalBlocks ∧ exists p v,
      alloAlloc c (sizeMul (poolBlockSize blockSize) totalBlocks) w = some (p, v) ∧
        p ≠ NULL ∧ made = poolStart p (poolBlockSize blockSize) totalBlocks true v := by
  rcases makePoolAllocator_ok hmake with
    ⟨_, hpos, ⟨_, _, p, v, hc, hcall, hne, heq⟩ | ⟨hno, _⟩⟩
  · cases hc
    exact ⟨hpos, p, v, hcall, hne, heq⟩
  · exact absurd rfl hno

omit [HasMem χ] in
theorem recording_alloc {n p : Nat} {r v : Recorded χ}
    (hcall : alloAlloc (recording a) n r = some (p, v)) :
    exists w', alloAlloc a n r.inner = some (p, w') ∧ v = r.grant p n w' := by
  rcases Option.bind_eq_some_iff.mp hcall with ⟨⟨q, w'⟩, hinner, hlast⟩
  cases hlast
  exact ⟨w', hinner, rfl⟩

omit [HasMem χ] in
/-- What the child granted is what it was asked for. -/
theorem granted_start {n p : Nat} {v : Recorded χ} (hne : p ≠ NULL)
    (hcall : alloAlloc (recording a) n (Recorded.start w) = some (p, v)) :
    v.granted = [⟨p, n⟩] := by
  rcases recording_alloc hcall with ⟨w', _, rfl⟩
  rw [Recorded.grant_placed _ n w' hne]
  rfl

/-- For every child that answers with the null pointer or a new block of the size it was
asked for. -/
theorem pool_backed_iff {made : PoolState (Recorded χ)}
    (hchild : forall n p w', n < 2 ^ 64 -> alloAlloc a n w = some (p, w') -> p ≠ NULL ->
      Block.WellFormed ⟨p, n⟩)
    (hsize : blockSize < 2 ^ 64)
    (hmake : makePoolAllocator out (some (recording a)) NULL blockSize totalBlocks
      (Recorded.start w) = some (Made.ok made)) :
    PoolBacked a w blockSize totalBlocks made <->
      roundedBlockSize blockSize * totalBlocks < 2 ^ 64 := by
  rcases makePoolAllocator_backed hmake with ⟨hpos, p, v, hcall, hne, rfl⟩
  have hgranted := granted_start hne hcall
  have hbound : sizeMul (poolBlockSize blockSize) totalBlocks < 2 ^ 64 :=
    Nat.mod_lt _ (by decide)
  constructor
  · intro hbacked
    rcases hbacked.backed with ⟨b, _, _, hrecord, _, hle, _⟩
    have hkept : (poolStart p (poolBlockSize blockSize) totalBlocks true v).child.granted =
        v.granted := rfl
    rw [hkept, hgranted] at hrecord
    have hb : b = ⟨p, sizeMul (poolBlockSize blockSize) totalBlocks⟩ :=
      (List.cons.inj hrecord).left.symm
    have hrounded : blockSize ≤ poolBlockSize blockSize := hbacked.rounded
    have hproduct : poolBlockSize blockSize * totalBlocks ≤ b.size := hle
    rw [hb] at hproduct
    have hround : roundedBlockSize blockSize < 2 ^ 64 := by
      by_contra hlarge
      have hwraps : 2 ^ 64 - 8 < blockSize := by
        unfold roundedBlockSize sizeofPoolFreeNode at hlarge
        omega
      rw [poolBlockSize_wraps hwraps hsize] at hrounded
      omega
    rw [poolBlockSize_eq hround] at hproduct hbound
    exact Nat.lt_of_le_of_lt hproduct hbound
  · intro hfits
    have hround : roundedBlockSize blockSize < 2 ^ 64 :=
      Nat.lt_of_le_of_lt (Nat.le_mul_of_pos_right _ hpos) hfits
    have hmul : sizeMul (roundedBlockSize blockSize) totalBlocks =
        roundedBlockSize blockSize * totalBlocks := sizeMul_eq hfits
    rw [poolBlockSize_eq hround, hmul] at hcall hgranted
    rw [poolBlockSize_eq hround]
    rcases recording_alloc hcall with ⟨w', hinner, hv⟩
    have hfresh := hchild _ p w' hfits hinner hne
    constructor
    · exact le_roundedBlockSize blockSize
    · exact ⟨_, v, hcall, hgranted, rfl, Nat.le_refl _,
        wrote_poolStart (eight_le_roundedBlockSize blockSize) hfresh.right.right⟩

end Backing

theorem pool_backed_iff_four :
    exists made, makePoolAllocator 8 (some (recording bufAllo)) NULL 20 4
        (Recorded.start bufOf512) = some (Made.ok made) ∧
      (PoolBacked bufAllo bufOf512 20 4 made <-> roundedBlockSize 20 * 4 < 2 ^ 64) := by
  have hmake : makePoolAllocator 8 (some (recording bufAllo)) NULL 20 4
      (Recorded.start bufOf512) = some (Made.ok _) := rfl
  have hchild : forall n p w', n < 2 ^ 64 -> alloAlloc bufAllo n bufOf512 = some (p, w') ->
      p ≠ NULL -> Block.WellFormed ⟨p, n⟩ := by
    intro n p w' hn hcall hne
    rcases bufContract.alloc bufOf512_inv hn with ⟨q, u, hgrant, _, hcase⟩
    cases hgrant.symm.trans hcall
    rcases hcase with ⟨hnull, _⟩ | ⟨_, hinv⟩
    · exact absurd hnull hne
    · exact bufContract.wellFormed hinv _ List.mem_cons_self
  exact ⟨_, hmake, pool_backed_iff hchild (by decide) hmake⟩

/-- Two blocks of half of the address space and eight bytes each: the child is asked for
sixteen bytes, and the second node is written far behind them. -/
theorem pool_unbacked :
    exists made, makePoolAllocator 8 (some (recording bufAllo)) NULL (2 ^ 63 + 8) 2
        (Recorded.start bufOf512) = some (Made.ok made) ∧
      made.child.granted = [⟨64, 16⟩] ∧
        ¬ PoolBacked bufAllo bufOf512 (2 ^ 63 + 8) 2 made := by
  have hmake : exists made, makePoolAllocator 8 (some (recording bufAllo)) NULL (2 ^ 63 + 8) 2
        (Recorded.start bufOf512) = some (Made.ok made) ∧
      made.child.granted = [⟨64, 16⟩] ∧ made.ctx.blockSize = 2 ^ 63 + 8 :=
    ⟨_, rfl, rfl, rfl⟩
  rcases hmake with ⟨made, hmake, hgranted, hsize⟩
  refine ⟨made, hmake, hgranted, ?_⟩
  intro hbacked
  rcases hbacked.backed with ⟨b, _, _, hrecord, _, hle, _⟩
  rw [hgranted] at hrecord
  have hb : b = ⟨64, 16⟩ := (List.cons.inj hrecord).left.symm
  rw [hb, hsize] at hle
  exact absurd hle (by decide)

end Liballo
