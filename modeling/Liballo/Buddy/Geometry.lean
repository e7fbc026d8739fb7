import Liballo.Buddy.Moves

/-!
# The geometry of the managed buffer

A buddy allocator manages `2 ^ (depth + 5)` bytes as a binary tree of the given depth,
whose leaves are blocks of 32 bytes. The module says where the blocks of the nodes
lie and that the tables have an entry for each of them.
-/

namespace Liballo

open Foundation

/-- The shape the constructor gives the context. -/
structure BuddyGeom (depth : Nat) (c : BuddyContext) : Prop where
  maxOrder : c.maxOrder = depth + 5
  totalSize : c.totalSize = 2 ^ (depth + 5)
  minBlockSize : c.minBlockSize = 32
  region : Block.WellFormed ⟨c.buffer, c.totalSize⟩

def BuddyContext.region (c : BuddyContext) : Block :=
  ⟨c.buffer, c.totalSize⟩

namespace BuddyGeom

variable {depth : Nat} {c : BuddyContext} {n a : Node}

theorem depth_lt (h : BuddyGeom depth c) : depth + 5 < 64 := by
  have hstop := h.region.right.right
  have hlt : 2 ^ (depth + 5) < 2 ^ 64 := by
    rw [← h.totalSize]
    exact Nat.lt_of_le_of_lt (Nat.le_add_left _ c.buffer) hstop
  exact (Nat.pow_lt_pow_iff_right (by decide)).mp hlt

theorem back {χ : Type} [HasMem χ] {asan : Prop} {P : Nat -> Nat -> Prop}
    {s s' : BuddyState χ} (h : BuddyGeom depth s'.ctx)
    (hmoved : BuddyMoved asan P s s') : BuddyGeom depth s.ctx := by
  rcases hmoved.ctx with ⟨f, b, o, hctx⟩
  rw [hctx] at h
  exact
    { maxOrder := h.maxOrder
      totalSize := h.totalSize
      minBlockSize := h.minBlockSize
      region := h.region }

theorem of_moved {χ : Type} [HasMem χ] {asan : Prop} {P : Nat -> Nat -> Prop}
    {s s' : BuddyState χ} (h : BuddyGeom depth s.ctx)
    (hmoved : BuddyMoved asan P s s') : BuddyGeom depth s'.ctx := by
  rcases hmoved.ctx with ⟨f, b, o, hctx⟩
  rw [hctx]
  exact
    { maxOrder := h.maxOrder
      totalSize := h.totalSize
      minBlockSize := h.minBlockSize
      region := h.region }

/-!
# Blocks of nodes
-/

theorem level_le (h : BuddyGeom depth c) (hn : n.Valid depth) :
    n.level ≤ c.maxOrder := by
  have hlevel := hn.left
  rw [h.maxOrder]
  omega

theorem leaves_ge (h : BuddyGeom depth c) (hn : n.Valid depth) :
    32 ≤ n.leaves c.maxOrder := by
  have hlevel := hn.left
  have hexp : 5 ≤ c.maxOrder - n.level := by
    rw [h.maxOrder]
    omega
  have hpow : 2 ^ 5 ≤ 2 ^ (c.maxOrder - n.level) :=
    Nat.pow_le_pow_right (by decide) hexp
  exact hpow

theorem range_le (h : BuddyGeom depth c) (hn : n.Valid depth) :
    n.first c.maxOrder + n.leaves c.maxOrder ≤ 2 ^ (depth + 5) := by
  rw [← h.maxOrder]
  exact Node.range_le (h.level_le hn) hn.right

theorem nodeBlock_inside (h : BuddyGeom depth c) (hn : n.Valid depth) :
    (c.nodeBlock n).Inside c.region := by
  have hrange := h.range_le hn
  have htotal := h.totalSize
  simp only [Block.Inside, Block.stop, BuddyContext.nodeBlock,
    BuddyContext.nodeAddr, BuddyContext.region]
  omega

theorem header_inside (h : BuddyGeom depth c) (hn : n.Valid depth) :
    (c.header n).Inside (c.nodeBlock n) := by
  have hleaves := h.leaves_ge hn
  simp only [Block.Inside, Block.stop, BuddyContext.nodeBlock,
    BuddyContext.header, sizeofBuddyNode]
  omega

theorem nodeBlock_wellFormed (h : BuddyGeom depth c) (hn : n.Valid depth) :
    (c.nodeBlock n).WellFormed := by
  have hinside := h.nodeBlock_inside hn
  have hleaves := h.leaves_ge hn
  have hregion := h.region
  simp only [Block.WellFormed, Block.Inside, Block.stop,
    BuddyContext.nodeBlock, BuddyContext.region] at hinside hregion ⊢
  omega

theorem nodeAddr_lt (h : BuddyGeom depth c) (hn : n.Valid depth) :
    c.nodeAddr n < 2 ^ 64 :=
  Nat.lt_of_le_of_lt (Nat.le_add_right _ _) (h.nodeBlock_wellFormed hn).right.right

theorem nodeBlock_disjoint (h : BuddyGeom depth c) (hn : n.Valid depth)
    (ha : a.Valid depth) (hapart : n.Apart a) :
    (c.nodeBlock n).Disjoint (c.nodeBlock a) := by
  have hrange := hapart.range (h.level_le hn) (h.level_le ha)
  simp only [Block.Disjoint, Block.stop, BuddyContext.nodeBlock,
    BuddyContext.nodeAddr]
  omega

theorem nodeAddr_left (h : BuddyGeom depth c) (hlevel : n.level < depth) :
    c.nodeAddr n.left = c.nodeAddr n := by
  unfold BuddyContext.nodeAddr
  rw [Node.first_left]
  rw [h.maxOrder]
  omega

/-!
# What the source computes
-/

theorem levelSize_eq (h : BuddyGeom depth c) {level : Nat} (hlevel : level ≤ depth) :
    c.levelSize level = 2 ^ (c.maxOrder - level) := by
  have hle : level ≤ depth + 5 := by omega
  unfold BuddyContext.levelSize
  rw [h.totalSize, h.maxOrder, Nat.shiftRight_eq_div_pow,
    Nat.pow_div hle (by decide)]

theorem levelSize_ne_zero (h : BuddyGeom depth c) {level : Nat}
    (hlevel : level ≤ depth) : c.levelSize level ≠ 0 := by
  rw [h.levelSize_eq hlevel]
  exact Nat.ne_of_gt (Nat.two_pow_pos _)

theorem offset_eq (h : BuddyGeom depth c) (hn : n.Valid depth) :
    sizeSub (c.nodeAddr n) c.buffer = n.first c.maxOrder := by
  have hle : c.buffer ≤ c.nodeAddr n := Nat.le_add_right _ _
  rw [sizeSub_eq hle (h.nodeAddr_lt hn)]
  unfold BuddyContext.nodeAddr
  rw [Nat.add_sub_cancel_left]

/-- The index of a block is recovered from its address. -/
theorem index_eq (h : BuddyGeom depth c) (hn : n.Valid depth) :
    sizeSub (c.nodeAddr n) c.buffer / c.levelSize n.level = n.index := by
  have hpos := n.leaves_pos c.maxOrder
  rw [h.offset_eq hn, h.levelSize_eq hn.left]
  exact Nat.mul_div_cancel n.index hpos

theorem first_lt (h : BuddyGeom depth c) (hn : n.Valid depth) :
    n.first c.maxOrder < 2 ^ 64 :=
  Nat.lt_of_le_of_lt (Nat.le_add_left _ _) (h.nodeAddr_lt hn)

theorem blockAt_eq (h : BuddyGeom depth c) (hn : n.Valid depth) :
    c.blockAt n.level n.index = c.nodeAddr n := by
  unfold BuddyContext.blockAt
  rw [h.levelSize_eq hn.left]
  have hmul : sizeMul n.index (2 ^ (c.maxOrder - n.level)) = n.first c.maxOrder :=
    sizeMul_eq (h.first_lt hn)
  rw [hmul]
  exact sizeAdd_eq (h.nodeAddr_lt hn)

/-- The right half of a block. -/
theorem buddy_eq (h : BuddyGeom depth c) (hn : n.Valid depth)
    (hlevel : n.level < depth) :
    sizeAdd (c.nodeAddr n) (c.levelSize (n.level + 1)) = c.nodeAddr n.right := by
  have hright : n.right.first c.maxOrder =
      n.first c.maxOrder + n.right.leaves c.maxOrder := by
    apply Node.first_right
    rw [h.maxOrder]
    omega
  have hlt := h.nodeAddr_lt (hn.right_child hlevel)
  rw [h.levelSize_eq hlevel]
  have haddr : c.nodeAddr n.right =
      c.nodeAddr n + 2 ^ (c.maxOrder - (n.level + 1)) := by
    unfold BuddyContext.nodeAddr
    rw [hright, Nat.add_assoc]
    rfl
  rw [haddr] at hlt ⊢
  exact sizeAdd_eq hlt

theorem index_lt (h : BuddyGeom depth c) (hn : n.Valid depth) :
    n.index < 2 ^ 58 := by
  have hdepth := h.depth_lt
  have hlevel := hn.left
  have hpow : 2 ^ n.level ≤ 2 ^ 58 := Nat.pow_le_pow_right (by decide) (by omega)
  exact Nat.lt_of_lt_of_le hn.right hpow

theorem left_index_eq (h : BuddyGeom depth c) (hn : n.Valid depth) :
    sizeMul n.index 2 = n.left.index := by
  have hlt := h.index_lt hn
  rw [sizeMul_eq (by omega), Nat.mul_comm]
  rfl

theorem right_index_eq (h : BuddyGeom depth c) (hn : n.Valid depth) :
    sizeAdd n.left.index 1 = n.right.index := by
  have hlt := h.index_lt hn
  have hsmall : 2 * n.index + 1 < 2 ^ 64 := by omega
  exact sizeAdd_eq hsmall

/-!
# The tables
-/

theorem freeListsCount_eq (h : BuddyGeom depth c) :
    c.freeListsCount = depth + 2 := by
  have hdepth := h.depth_lt
  have hlevels : c.numLevels = (depth + 1 : Nat) := by
    unfold BuddyContext.numLevels
    rw [h.maxOrder, h.minBlockSize, getOrder_thirtytwo]
    omega
  have hmod : ((depth + 1 : Nat) : Int) % sizeMod = (depth + 1 : Nat) := by
    apply Int.emod_eq_of_lt
    · omega
    · simp only [sizeMod]
      omega
  unfold BuddyContext.freeListsCount
  rw [hlevels, hmod, Int.toNat_natCast]
  exact sizeAdd_eq (by omega)

theorem level_lt (h : BuddyGeom depth c) (hn : n.Valid depth) :
    n.level < c.freeListsCount := by
  have hlevel := hn.left
  rw [h.freeListsCount_eq]
  omega

theorem blockOrdersLen_eq (h : BuddyGeom depth c) :
    c.blockOrdersLen = 2 ^ depth := by
  unfold BuddyContext.blockOrdersLen
  rw [h.totalSize, h.minBlockSize]
  have hsplit : 2 ^ (depth + 5) = 2 ^ depth * 32 := by
    rw [Nat.pow_add]
  rw [hsplit]
  exact Nat.mul_div_cancel _ (by decide)

theorem bitBytes_eq (h : BuddyGeom depth c) :
    c.bitBytes = (2 ^ (depth + 1) + 7) / 8 := by
  have hdepth := h.depth_lt
  have hpow : 2 ^ (depth + 1) ≤ 2 ^ 60 := Nat.pow_le_pow_right (by decide) (by omega)
  have hdouble : sizeMul (2 ^ depth) 2 = 2 ^ (depth + 1) := by
    rw [Nat.pow_succ]
    rw [Nat.pow_succ] at hpow
    exact sizeMul_eq (by omega)
  have hlen := h.blockOrdersLen_eq
  unfold BuddyContext.blockOrdersLen at hlen
  unfold BuddyContext.bitBytes
  rw [hlen, hdouble, sizeAdd_eq (by omega)]

/-- The bits of a tree of depth `depth` are those below `2 ^ (depth + 1) - 1`. -/
theorem nodeIndex_lt (hn : n.Valid depth) :
    nodeIndex n.level n.index < 2 ^ (depth + 1) - 1 := by
  have hpos := Nat.two_pow_pos n.level
  have hpow : 2 ^ n.level ≤ 2 ^ depth := Nat.pow_le_pow_right (by decide) hn.left
  have hindex := hn.right
  unfold nodeIndex
  rw [Nat.pow_succ]
  omega

/-- A node is known by its bit. -/
theorem eq_of_nodeIndex (hn : n.Valid depth) (ha : a.Valid depth)
    (heq : nodeIndex n.level n.index = nodeIndex a.level a.index) : n = a := by
  have hsame := nodeIndex_inj hn.right ha.right heq
  rcases n with ⟨level, i⟩
  rcases a with ⟨level', j⟩
  cases hsame.left
  cases hsame.right
  rfl

theorem bit_lt (h : BuddyGeom depth c) (hn : n.Valid depth) :
    nodeIndex n.level n.index / 8 < c.bitBytes := by
  have hlt := nodeIndex_lt hn
  rw [h.bitBytes_eq]
  omega

/-- The order entry of a block. -/
theorem blockIdx_lt (h : BuddyGeom depth c) (hn : n.Valid depth) :
    sizeSub (c.nodeAddr n) c.buffer / c.minBlockSize < c.blockOrdersLen := by
  have hrange := h.range_le hn
  have hleaves := h.leaves_ge hn
  have hsplit : 2 ^ (depth + 5) = 2 ^ depth * 32 := by
    rw [Nat.pow_add]
  rw [h.offset_eq hn, h.minBlockSize, h.blockOrdersLen_eq]
  omega

/-!
# Orders of requests
-/

theorem order_eq (h : BuddyGeom depth c) (size : Nat) :
    c.order size = max (getOrder size) 5 := by
  unfold BuddyContext.order
  rw [h.minBlockSize, getOrder_thirtytwo]
  split
  · omega
  · omega

/-- A served request gets a level of the tree. -/
theorem level_of_order (h : BuddyGeom depth c) (size : Nat) :
    c.maxOrder - c.order size ≤ depth := by
  have horder := h.order_eq size
  rw [h.maxOrder]
  omega

/-- The block of a served request is large enough. -/
theorem size_le (h : BuddyGeom depth c) {size : Nat} (hsize : size < 2 ^ 64) :
    size ≤ 2 ^ c.order size := by
  have hle : getOrder size ≤ c.order size := by
    rw [h.order_eq]
    exact Nat.le_max_left _ _
  exact (getOrder_le_iff hsize).mp hle

/-!
# Headers apart
-/

theorem spread (h : BuddyGeom depth c) {N : Set Node}
    (hvalid : forall k, k ∈ N -> k.Valid depth)
    (hapart : forall k, k ∈ N -> forall j, j ∈ N -> k ≠ j -> k.Apart j) :
    Spread c N := by
  constructor
  · intro k hk
    exact ⟨(h.nodeBlock_wellFormed (hvalid k hk)).left, h.nodeAddr_lt (hvalid k hk)⟩
  · intro k hk j hj hne
    have hdisjoint := h.nodeBlock_disjoint (hvalid k hk) (hvalid j hj)
      (hapart k hk j hj hne)
    have hkleaves := h.leaves_ge (hvalid k hk)
    have hjleaves := h.leaves_ge (hvalid j hj)
    simp only [Block.Disjoint, Block.stop, BuddyContext.nodeBlock] at hdisjoint
    omega

theorem spread_free (h : BuddyGeom depth c) {F : Set Node} {us : List Node}
    (htiled : Tiled depth F us) : Spread c F :=
  h.spread htiled.free_valid htiled.free_apart

end BuddyGeom

end Liballo
