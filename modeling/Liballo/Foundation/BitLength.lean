import Mathlib.Data.Nat.Bitwise
import Mathlib.Data.Nat.Size

/-!
# Bit lengths by a binary search

The bit length of a number is found by looking for bits in the upper half of what is
left, and dropping the lower half if there is one.
-/

namespace Liballo
namespace Foundation

/-- The upper half of `2 * w` bits. -/
def upperMask (w : Nat) : Nat :=
  (2 ^ w - 1) <<< w

/-- If a bit is under the mask, drop the low `w` bits and count them. -/
def shiftStep (mask w : Nat) (s : Nat × Nat) : Nat × Nat :=
  if s.1 &&& mask ≠ 0 then (s.1 >>> w, s.2 + w) else s

section BitLength

variable {v w : Nat} {s : Nat × Nat}

theorem testBit_upperMask (w i : Nat) :
    (upperMask w).testBit i = (decide (w ≤ i) && decide (i < w + w)) := by
  unfold upperMask
  rw [Nat.testBit_shiftLeft, Nat.testBit_two_pow_sub_one]
  by_cases hi : w ≤ i
  · have hiff : i - w < w <-> i < w + w := by omega
    simp [hi, hiff]
  · simp [hi]

theorem and_upperMask_ne_zero_iff (h : v < 2 ^ (w + w)) :
    v &&& upperMask w ≠ 0 <-> 2 ^ w ≤ v := by
  constructor
  · intro hne
    by_contra hlt
    apply hne
    apply Nat.eq_of_testBit_eq
    intro i
    rw [Nat.testBit_and, testBit_upperMask, Nat.zero_testBit]
    by_cases hi : w ≤ i
    · have hle : 2 ^ w ≤ 2 ^ i := Nat.pow_le_pow_right (by decide) hi
      rw [Nat.testBit_lt_two_pow (Nat.lt_of_lt_of_le (Nat.lt_of_not_le hlt) hle)]
      rfl
    · simp [hi]
  · intro hle hzero
    rcases Nat.exists_ge_and_testBit_of_ge_two_pow hle with ⟨i, hi, hbit⟩
    have hlt : i < w + w :=
      (Nat.pow_lt_pow_iff_right (by decide)).mp
        (Nat.lt_of_le_of_lt (Nat.ge_two_pow_of_testBit hbit) h)
    have hmasked : (v &&& upperMask w).testBit i = true := by
      rw [Nat.testBit_and, testBit_upperMask, hbit]
      simp [Nat.le_of_lt_succ (Nat.lt_succ_of_le hi), hlt]
    rw [hzero, Nat.zero_testBit] at hmasked
    cases hmasked

theorem size_shiftRight (h : 2 ^ w ≤ v) : (v >>> w).size + w = v.size := by
  have hw : w ≤ v.size := Nat.le_of_lt (Nat.lt_size.mpr h)
  rw [Nat.shiftRight_eq_div_pow]
  apply Nat.le_antisymm
  · have hle : (v / 2 ^ w).size ≤ v.size - w := by
      apply Nat.size_le.mpr
      apply Nat.div_lt_of_lt_mul
      rw [← Nat.pow_add, Nat.add_sub_cancel' hw]
      exact Nat.lt_size_self v
    omega
  · apply Nat.size_le.mpr
    have hlt := Nat.lt_size_self (v / 2 ^ w)
    rw [Nat.pow_add]
    exact (Nat.div_lt_iff_lt_mul (Nat.two_pow_pos w)).mp hlt

/-- A step halves the bits that are left and keeps their number right. -/
theorem shiftStep_spec (h : s.1 < 2 ^ (w + w)) :
    (shiftStep (upperMask w) w s).1 < 2 ^ w ∧
      (shiftStep (upperMask w) w s).1.size + (shiftStep (upperMask w) w s).2 =
        s.1.size + s.2 := by
  unfold shiftStep
  by_cases hle : 2 ^ w ≤ s.1
  · rw [if_pos ((and_upperMask_ne_zero_iff h).mpr hle)]
    constructor
    · show s.1 >>> w < 2 ^ w
      rw [Nat.shiftRight_eq_div_pow]
      apply Nat.div_lt_of_lt_mul
      rw [← Nat.pow_add]
      exact h
    · show (s.1 >>> w).size + (s.2 + w) = _
      have hsize := size_shiftRight hle
      omega
  · rw [if_neg (fun hne => hle ((and_upperMask_ne_zero_iff h).mp hne))]
    exact ⟨Nat.lt_of_not_le hle, rfl⟩

end BitLength

end Foundation
end Liballo
