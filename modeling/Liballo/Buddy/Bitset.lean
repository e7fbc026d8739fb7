import Liballo.Buddy.Bits
import Liballo.Foundation.Dyadic

/-!
# The bitset as a set of nodes

The nodes of all levels are numbered one after the other, as in a binary heap, and every
node has a bit of its own. Marking a node changes the answer for no other node.
-/

namespace Liballo

open Foundation

/-!
# Bytes
-/

/-- `1 << (bit % 8)` -/
def bitMask (bit : Nat) : BitVec 32 :=
  1#32 <<< (bit % 8)

/-- The `int` that is computed for a byte is cut to eight bits when it is stored, and
the other bytes stay. -/
structure StoredBytes (bitset : Nat -> UInt8) (bit : Nat) : Prop where
  set : (setBit bitset bit (bit / 8)).toBitVec =
    ((bitset (bit / 8)).toBitVec.setWidth 32 ||| bitMask bit).setWidth 8
  clear : (clearBit bitset bit (bit / 8)).toBitVec =
    ((bitset (bit / 8)).toBitVec.setWidth 32 &&& ~~~ bitMask bit).setWidth 8
  others : forall i, i ≠ bit / 8 ->
    setBit bitset bit i = bitset i ∧ clearBit bitset bit i = bitset i

theorem storedBytes (bitset : Nat -> UInt8) (bit : Nat) : StoredBytes bitset bit := by
  have hbit : bit % 8 < 8 := Nat.mod_lt bit (by decide)
  constructor
  · unfold setBit bitMask
    rw [Function.update_self]
    apply BitVec.eq_of_getLsbD_eq
    intro i hi
    simp [Nat.mod_eq_of_lt hbit]
  · unfold clearBit bitMask
    rw [Function.update_self]
    apply BitVec.eq_of_getLsbD_eq
    intro i hi
    simp [Nat.mod_eq_of_lt hbit]
  · intro i hi
    exact ⟨Function.update_of_ne hi _ _, Function.update_of_ne hi _ _⟩

/-!
# Answers
-/

section Answers

variable {bitset : Nat -> UInt8} {k j : Nat}

theorem getBit_eq (bitset : Nat -> UInt8) (k : Nat) :
    getBit bitset k = if (bitset (k / 8)).toNat.testBit (k % 8) then 1 else 0 :=
  shift_and_one _ (Nat.mod_lt k (by decide))

theorem getBit_eq_one (h : HasBit bitset k) : getBit bitset k = 1 := by
  rw [getBit_eq]
  exact if_pos h

theorem getBit_congr {bitset' : Nat -> UInt8} (h : HasBit bitset' k <-> HasBit bitset k) :
    getBit bitset' k = getBit bitset k := by
  have hbit : (bitset' (k / 8)).toNat.testBit (k % 8) =
      (bitset (k / 8)).toNat.testBit (k % 8) := Bool.eq_iff_iff.mpr h
  rw [getBit_eq, getBit_eq, hbit]

theorem getBit_setBit :
    getBit (setBit bitset k) j = if j = k then 1 else getBit bitset j := by
  by_cases heq : j = k
  · rw [if_pos heq]
    exact getBit_eq_one (hasBit_setBit.mpr (Or.inr heq))
  · rw [if_neg heq]
    apply getBit_congr
    rw [hasBit_setBit]
    exact or_iff_left heq

theorem getBit_clearBit :
    getBit (clearBit bitset k) j = if j = k then 0 else getBit bitset j := by
  by_cases heq : j = k
  · rw [if_pos heq]
    apply getBit_eq_zero_iff.mpr
    rw [hasBit_clearBit]
    exact fun hbit => hbit.right heq
  · rw [if_neg heq]
    apply getBit_congr
    rw [hasBit_clearBit]
    exact and_iff_left heq

end Answers

/-!
# Numbers
-/

section Numbers

variable {l l' i i' levels : Nat}

theorem nodeIndex_eq_iff (hi : i < 2 ^ l) (hi' : i' < 2 ^ l') :
    nodeIndex l i = nodeIndex l' i' <-> l = l' ∧ i = i' := by
  constructor
  · exact nodeIndex_inj hi hi'
  · rintro ⟨rfl, rfl⟩
    rfl

theorem nodeIndex_below (hl : l < levels) (hi : i < 2 ^ l) :
    nodeIndex l i < 2 ^ levels - 1 := by
  have hpow : 2 ^ (l + 1) ≤ 2 ^ levels := Nat.pow_le_pow_right (by decide) hl
  rw [Nat.pow_succ] at hpow
  have hpos := Nat.two_pow_pos l
  unfold nodeIndex
  omega

/-- The number is computed without wrapping. -/
theorem nodeIndex_size_t (hlevels : levels ≤ 63) (hl : l < levels) (hi : i < 2 ^ l) :
    sizeSub (sizeAdd (2 ^ l) i) 1 = nodeIndex l i := by
  have hpow : 2 ^ l ≤ 2 ^ 62 := Nat.pow_le_pow_right (by decide) (by omega)
  have hpos := Nat.two_pow_pos l
  rw [sizeAdd_eq (by omega)]
  exact sizeSub_eq (by omega) (by omega)

/-- How a node lies among its neighbours: its parent is half its number, and it shares
the parent with its sibling only. -/
structure NodeNeighbours (l i : Nat) : Prop where
  parent : (nodeIndex l i - 1) / 2 = nodeIndex (l - 1) (i / 2)
  parent_valid : i / 2 < 2 ^ (l - 1)
  sibling_valid : i ^^^ 1 < 2 ^ l
  sibling_ne : nodeIndex l (i ^^^ 1) ≠ nodeIndex l i
  siblings : forall j, 0 < j ->
    ((j - 1) / 2 = (nodeIndex l i - 1) / 2 <->
      j = nodeIndex l i ∨ j = nodeIndex l (i ^^^ 1))

theorem nodeNeighbours (hl : 0 < l) (hi : i < 2 ^ l) : NodeNeighbours l i := by
  have hone : 1 < 2 ^ l := Nat.one_lt_two_pow (Nat.ne_of_gt hl)
  have hhalf : 2 ^ l = 2 ^ (l - 1) * 2 := by
    rw [← Nat.pow_succ, Nat.succ_eq_add_one, Nat.sub_add_cancel hl]
  have hpos := Nat.two_pow_pos (l - 1)
  constructor
  · unfold nodeIndex
    omega
  · omega
  · exact Nat.xor_lt_two_pow hi hone
  · unfold nodeIndex
    rcases Node.xor_one_cases i with ⟨heven, hxor⟩ | ⟨hodd, hxor⟩
    · omega
    · omega
  · intro j hj
    unfold nodeIndex
    rcases Node.xor_one_cases i with ⟨heven, hxor⟩ | ⟨hodd, hxor⟩
    · omega
    · omega

/-- For every number of levels whose nodes a `size_t` can count. -/
theorem bitset_faithful (hlevels : levels ≤ 63) (hl : l < levels) (hi : i < 2 ^ l)
    (hi' : i' < 2 ^ l') (bitset : Nat -> UInt8) :
    (nodeIndex l i = nodeIndex l' i' <-> l = l' ∧ i = i') ∧
      (sizeSub (sizeAdd (2 ^ l) i) 1 = nodeIndex l i ∧
        nodeIndex l i < 2 ^ levels - 1) ∧
      (0 < l -> NodeNeighbours l i) ∧
      getBit (setBit bitset (nodeIndex l i)) (nodeIndex l' i') =
        (if l = l' ∧ i = i' then 1 else getBit bitset (nodeIndex l' i')) ∧
      getBit (clearBit bitset (nodeIndex l i)) (nodeIndex l' i') =
        (if l = l' ∧ i = i' then 0 else getBit bitset (nodeIndex l' i')) ∧
      StoredBytes bitset (nodeIndex l i) := by
  have hsame : nodeIndex l' i' = nodeIndex l i <-> l = l' ∧ i = i' := by
    rw [eq_comm]
    exact nodeIndex_eq_iff hi hi'
  refine ⟨nodeIndex_eq_iff hi hi', ⟨nodeIndex_size_t hlevels hl hi, ?_⟩, ?_, ?_, ?_,
    storedBytes bitset (nodeIndex l i)⟩
  · exact nodeIndex_below hl hi
  · exact fun hpos => nodeNeighbours hpos hi
  · rw [getBit_setBit]
    simp only [hsame]
  · rw [getBit_clearBit]
    simp only [hsame]

/-- The first node of the lowest of four levels, and the node before it. -/
theorem bitset_faithful_boundary :
    getBit (setBit (fun _ => 0) (nodeIndex 3 0)) (nodeIndex 2 3) =
      (if 3 = 2 ∧ 0 = 3 then 1 else getBit (fun _ => 0) (nodeIndex 2 3)) := by
  have hlevels : 4 ≤ 63 := by decide
  have hl : 3 < 4 := by decide
  have hi : 0 < 2 ^ 3 := by decide
  have hi' : 3 < 2 ^ 2 := by decide
  exact (bitset_faithful hlevels hl hi hi' (fun _ => 0)).right.right.right.left

end Numbers

end Liballo
