import Liballo.Buddy.Defs

/-!
# Orders and the bitset

The order of a size is the exponent of the least power of two that holds it, and the
bitset is a set of bit numbers.
-/

namespace Liballo

/-!
# Orders
-/

theorem getOrder_le_iff {size k : Nat} (hsize : size < 2 ^ 64) :
    getOrder size ≤ k <-> size ≤ 2 ^ k := by
  unfold getOrder
  by_cases hone : size ≤ 1
  · rw [if_pos hone]
    have hpow := Nat.one_le_two_pow (n := k)
    constructor
    · intro _
      exact Nat.le_trans hone hpow
    · intro _
      exact Nat.zero_le k
  · have hne : size - 1 ≠ 0 := by omega
    have hlog : (size - 1).log2 < 64 := by
      rw [Nat.log2_lt hne]
      omega
    have hcount : 64 - clzll (size - 1) = (size - 1).log2 + 1 := by
      unfold clzll
      omega
    rw [if_neg hone, hcount, Nat.add_one_le_iff, Nat.log2_lt hne]
    omega

theorem le_two_pow_getOrder {size : Nat} (hsize : size < 2 ^ 64) :
    size ≤ 2 ^ getOrder size :=
  (getOrder_le_iff hsize).mp (Nat.le_refl _)

theorem getOrder_two_pow {k : Nat} (hk : k < 64) : getOrder (2 ^ k) = k := by
  have hlt : 2 ^ k < 2 ^ 64 := Nat.pow_lt_pow_right (by decide) hk
  apply Nat.le_antisymm
  · exact (getOrder_le_iff hlt).mpr (Nat.le_refl _)
  · have hle := le_two_pow_getOrder hlt
    exact (Nat.pow_le_pow_iff_right (by decide)).mp hle

theorem getOrder_thirtytwo : getOrder 32 = 5 :=
  getOrder_two_pow (k := 5) (by decide)

/-!
# Bits of a byte
-/

theorem shift_and_one (v : UInt8) {j : Nat} (hj : j < 8) :
    (v >>> UInt8.ofNat j) &&& 1 = if v.toNat.testBit j then 1 else 0 := by
  apply UInt8.toNat_inj.mp
  have hmod : j % 2 ^ 8 % 8 = j := by omega
  rw [UInt8.toNat_and, UInt8.toNat_shiftRight, UInt8.toNat_ofNat', hmod]
  simp only [Nat.testBit]
  split <;> simp_all

theorem toNat_one_shiftLeft {i : Nat} (hi : i < 8) :
    ((1 : UInt8) <<< UInt8.ofNat i).toNat = 2 ^ i := by
  have hmod : i % 2 ^ 8 % 8 = i := by omega
  have hle : 2 ^ i ≤ 2 ^ 7 := Nat.pow_le_pow_right (by omega) (by omega)
  rw [UInt8.toNat_shiftLeft, UInt8.toNat_ofNat', hmod]
  simp only [UInt8.toNat_one, Nat.shiftLeft_eq]
  omega

theorem testBit_or_shift (v : UInt8) {i : Nat} (hi : i < 8) (j : Nat) :
    (v ||| ((1 : UInt8) <<< UInt8.ofNat i)).toNat.testBit j =
      (v.toNat.testBit j || decide (i = j)) := by
  rw [UInt8.toNat_or, toNat_one_shiftLeft hi, Nat.testBit_or,
    Nat.testBit_two_pow]

theorem testBit_andNot_shift (v : UInt8) {i j : Nat} (hi : i < 8) (hj : j < 8) :
    (v &&& ~~~((1 : UInt8) <<< UInt8.ofNat i)).toNat.testBit j =
      (v.toNat.testBit j && !decide (i = j)) := by
  have hlt : 2 ^ i < 2 ^ 8 := Nat.pow_lt_pow_right (by decide) hi
  have hnot : (~~~((1 : UInt8) <<< UInt8.ofNat i)).toNat = 2 ^ 8 - (2 ^ i + 1) := by
    rw [UInt8.toNat_not, toNat_one_shiftLeft hi]
    simp only [UInt8.size]
    omega
  rw [UInt8.toNat_and, hnot, Nat.testBit_and,
    Nat.testBit_two_pow_sub_succ hlt, Nat.testBit_two_pow]
  simp [hj]

/-!
# The bitset as a set of bit numbers
-/

/-- Bit `k` is set. -/
def HasBit (bitset : Nat -> UInt8) (k : Nat) : Prop :=
  (bitset (k / 8)).toNat.testBit (k % 8) = true

theorem getBit_eq_zero_iff {bitset : Nat -> UInt8} {k : Nat} :
    getBit bitset k = 0 <-> ¬ HasBit bitset k := by
  unfold getBit HasBit
  rw [shift_and_one _ (Nat.mod_lt k (by decide))]
  cases (bitset (k / 8)).toNat.testBit (k % 8) <;> simp

theorem hasBit_setBit {bitset : Nat -> UInt8} {k j : Nat} :
    HasBit (setBit bitset k) j <-> HasBit bitset j ∨ j = k := by
  unfold HasBit setBit
  by_cases hbyte : j / 8 = k / 8
  · have hbit : k % 8 = j % 8 <-> j = k := by omega
    rw [hbyte, Function.update_self,
      testBit_or_shift _ (Nat.mod_lt k (by decide))]
    simp [hbit]
  · have hne : j ≠ k := fun heq => hbyte (congrArg (· / 8) heq)
    rw [Function.update_of_ne hbyte]
    simp [hne]

theorem hasBit_clearBit {bitset : Nat -> UInt8} {k j : Nat} :
    HasBit (clearBit bitset k) j <-> HasBit bitset j ∧ j ≠ k := by
  unfold HasBit clearBit
  by_cases hbyte : j / 8 = k / 8
  · have hbit : k % 8 = j % 8 <-> j = k := by omega
    rw [hbyte, Function.update_self,
      testBit_andNot_shift _ (Nat.mod_lt k (by decide))
        (Nat.mod_lt j (by decide))]
    simp [hbit]
  · have hne : j ≠ k := fun heq => hbyte (congrArg (· / 8) heq)
    rw [Function.update_of_ne hbyte]
    simp [hne]

theorem not_hasBit_zero (k : Nat) : ¬ HasBit (fun _ => 0) k := by
  simp [HasBit]

/-- The numbers of different nodes differ. -/
theorem nodeIndex_inj {l l' i i' : Nat} (hi : i < 2 ^ l) (hi' : i' < 2 ^ l')
    (h : nodeIndex l i = nodeIndex l' i') : l = l' ∧ i = i' := by
  have hpos := Nat.two_pow_pos l
  have hpos' := Nat.two_pow_pos l'
  unfold nodeIndex at h
  have hlevel : l = l' := by
    rcases Nat.lt_trichotomy l l' with hlt | heq | hgt
    · have hpow : 2 ^ (l + 1) ≤ 2 ^ l' := Nat.pow_le_pow_right (by decide) hlt
      rw [Nat.pow_succ] at hpow
      omega
    · exact heq
    · have hpow : 2 ^ (l' + 1) ≤ 2 ^ l := Nat.pow_le_pow_right (by decide) hgt
      rw [Nat.pow_succ] at hpow
      omega
  subst hlevel
  exact ⟨rfl, by omega⟩

end Liballo
