import Liballo.Buddy.Bits
import Mathlib.Order.Bounds.Defs

/-!
# The two ways to compute an order

The order of a size is computed from the leading zeros where the compiler can count them,
and by a cascade of shifts elsewhere. Both give the exponent of the least power of two
that holds the size, so the block of a level that serves a request is never more than
twice too large.
-/

namespace Liballo

open Foundation

/-- The order is the bit length of the predecessor. -/
theorem getOrder_eq_size {size : Nat} (hsize : size < 2 ^ 64) :
    getOrder size = (size - 1).size := by
  have hiff : forall k, getOrder size ≤ k <-> (size - 1).size ≤ k := by
    intro k
    have hpow := Nat.two_pow_pos k
    rw [getOrder_le_iff hsize, Nat.size_le]
    omega
  exact Nat.le_antisymm ((hiff _).mpr (Nat.le_refl _)) ((hiff _).mp (Nat.le_refl _))

/-- The last bit that is left. -/
theorem lastBit_size {v n : Nat} (hv : v < 2) :
    (if v &&& 0x1 ≠ 0 then n + 1 else n) = v.size + n := by
  have hcases : v = 0 ∨ v = 1 := by omega
  rcases hcases with rfl | rfl
  · rw [if_neg (by decide), Nat.size_zero, Nat.zero_add]
  · rw [if_pos (by decide), Nat.size_one, Nat.add_comm]

theorem getOrderPortable_eq_size {size : Nat} (hsize : size < 2 ^ 64) :
    getOrderPortable size = (size - 1).size := by
  unfold getOrderPortable
  by_cases hone : size ≤ 1
  · rw [if_pos hone, Nat.sub_eq_zero_of_le hone, Nat.size_zero]
  · have hstart : (size - 1, 0).1 < 2 ^ (32 + 32) := Nat.lt_of_le_of_lt (Nat.sub_le size 1) hsize
    rcases shiftStep_spec hstart with ⟨hlt₁, hsum₁⟩
    rcases shiftStep_spec (w := 16) hlt₁ with ⟨hlt₂, hsum₂⟩
    rcases shiftStep_spec (w := 8) hlt₂ with ⟨hlt₃, hsum₃⟩
    rcases shiftStep_spec (w := 4) hlt₃ with ⟨hlt₄, hsum₄⟩
    rcases shiftStep_spec (w := 2) hlt₄ with ⟨hlt₅, hsum₅⟩
    rcases shiftStep_spec (w := 1) hlt₅ with ⟨hlt₆, hsum₆⟩
    rw [if_neg hone]
    exact (lastBit_size hlt₆).trans (hsum₆.trans (hsum₅.trans (hsum₄.trans
      (hsum₃.trans (hsum₂.trans hsum₁)))))

/-- What both branches compute. -/
structure OrderOf (size order : Nat) : Prop where
  least : IsLeast { k | size ≤ 2 ^ k } order
  small : size ≤ 1 -> order = 0
  large : 2 ^ 63 < size -> order = 64
  le : order ≤ 64

theorem getOrder_orderOf {size : Nat} (hsize : size < 2 ^ 64) :
    OrderOf size (getOrder size) := by
  have hle : getOrder size ≤ 64 := (getOrder_le_iff hsize).mpr (Nat.le_of_lt hsize)
  constructor
  · constructor
    · exact le_two_pow_getOrder hsize
    · intro k hk
      exact (getOrder_le_iff hsize).mpr hk
  · exact fun hsmall => if_pos hsmall
  · intro hlarge
    have hnot : ¬ getOrder size ≤ 63 := by
      intro hno
      exact Nat.lt_irrefl _ (Nat.lt_of_lt_of_le hlarge ((getOrder_le_iff hsize).mp hno))
    omega
  · exact hle

/-- The block of the level fits the size closely. -/
theorem levelSize_fits {c : BuddyContext} {size : Nat} (hsize : size < 2 ^ 64)
    (htotal : c.totalSize = 2 ^ c.maxOrder) (hle : getOrder size ≤ c.maxOrder) :
    size ≤ c.levelSize (c.maxOrder - getOrder size) ∧
      (1 ≤ size -> c.levelSize (c.maxOrder - getOrder size) < 2 * size) := by
  have hlevel : c.levelSize (c.maxOrder - getOrder size) = 2 ^ getOrder size := by
    unfold BuddyContext.levelSize
    rw [htotal, Nat.shiftRight_eq_div_pow, Nat.pow_div (Nat.sub_le _ _) (by decide)]
    congr 1
    omega
  rw [hlevel]
  constructor
  · exact le_two_pow_getOrder hsize
  · intro hpos
    cases horder : getOrder size with
    | zero =>
        rw [Nat.pow_zero]
        omega
    | succ k =>
        have hnot : ¬ size ≤ 2 ^ k := by
          intro hno
          have hk := (getOrder_le_iff hsize).mpr hno
          omega
        rw [Nat.pow_succ]
        omega

/-- For every 64-bit size. -/
theorem getOrder_branches_agree {size : Nat} (hsize : size < 2 ^ 64) :
    getOrderPortable size = getOrder size ∧ OrderOf size (getOrder size) ∧
      (forall size', size' < 2 ^ 64 -> size ≤ size' -> getOrder size ≤ getOrder size') ∧
        forall c : BuddyContext, c.totalSize = 2 ^ c.maxOrder ->
          getOrder size ≤ c.maxOrder ->
            size ≤ c.levelSize (c.maxOrder - getOrder size) ∧
              (1 ≤ size -> c.levelSize (c.maxOrder - getOrder size) < 2 * size) := by
  refine ⟨?_, getOrder_orderOf hsize, ?_, ?_⟩
  · rw [getOrderPortable_eq_size hsize, getOrder_eq_size hsize]
  · intro size' hsize' hle
    exact (getOrder_le_iff hsize).mpr (Nat.le_trans hle (le_two_pow_getOrder hsize'))
  · intro c htotal hle
    exact levelSize_fits hsize htotal hle

/-- The size that the two branches round up the furthest. -/
theorem getOrder_branches_agree_top :
    (2 ^ 63 + 1 : Nat) < 2 ^ 64 ∧
      getOrderPortable (2 ^ 63 + 1) = getOrder (2 ^ 63 + 1) := by
  have hlt : (2 ^ 63 + 1 : Nat) < 2 ^ 64 := by decide
  exact ⟨hlt, (getOrder_branches_agree hlt).left⟩

end Liballo
