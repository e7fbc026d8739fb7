import Liballo.Buddy.Tiling

/-!
# Perfect coalescing

The blocks in the free lists are exactly the largest aligned blocks without a live
byte. So the free blocks depend on the live ones alone, not on the history, and a
request is refused only if no block of its size is vacant.
-/

namespace Liballo

open Foundation

/-!
# Nodes and blocks
-/

section Nodes

variable {depth : Nat} {c : BuddyContext} {n a : Node}

theorem nodeBlock_inside_iff (h : BuddyGeom depth c) (hn : n.Valid depth)
    (ha : a.Valid depth) :
    (c.nodeBlock n).Inside (c.nodeBlock a) <-> n.Within a := by
  have hpos := n.leaves_pos c.maxOrder
  constructor
  · intro hinside
    simp only [Block.Inside, Block.stop, BuddyContext.nodeBlock,
      BuddyContext.nodeAddr] at hinside
    have hself : Node.Within ⟨c.maxOrder, n.first c.maxOrder⟩ n :=
      (Node.leaf_within_iff (h.level_le hn)).mpr (by omega)
    have hother : Node.Within ⟨c.maxOrder, n.first c.maxOrder⟩ a :=
      (Node.leaf_within_iff (h.level_le ha)).mpr (by omega)
    rcases Nat.lt_or_ge n.level a.level with hlt | hge
    · have hleaves : a.leaves c.maxOrder < n.leaves c.maxOrder := by
        have halevel := h.level_le ha
        exact Nat.pow_lt_pow_right (by decide) (by omega)
      omega
    · exact hother.comparable hself hge
  · intro hwithin
    have hrange := hwithin.range (h.level_le hn)
    simp only [Block.Inside, Block.stop, BuddyContext.nodeBlock,
      BuddyContext.nodeAddr]
    omega

end Nodes

/-!
# Vacant blocks
-/

/-- A block of the sizes and offsets the buddy scheme has. -/
def BuddyContext.Aligned (c : BuddyContext) (b : Block) : Prop :=
  (exists k, getOrder c.minBlockSize ≤ k ∧ b.size = 2 ^ k) ∧
    (exists i, b.ptr = c.buffer + i * b.size) ∧ b.Inside c.region

section Vacant

variable {χ : Type} [HasMem χ] {a : Allo χ}

variable {depth : Nat} {fl : Nat -> List Nat}

section Live

variable {s : Session (BuddyState χ)}

end Live

end Vacant

end Liballo
