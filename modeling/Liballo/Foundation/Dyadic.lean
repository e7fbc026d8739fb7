import Mathlib.Data.List.Pairwise
import Mathlib.Data.Nat.Bitwise
import Mathlib.Data.Set.Insert
import Mathlib.Tactic.Ring

/-!
# Dyadic nodes

The nodes of a complete binary tree, numbered from zero on every level. A set of free
nodes and a list of used ones may tile the leaves of such a tree. Splitting a node,
merging two siblings, and moving a node between the free and the used ones keep the
tiling, and if no two siblings are free, then the free nodes are exactly the largest
ones that no used node meets.
-/

namespace Liballo
namespace Foundation

structure Node where
  level : Nat
  index : Nat
  deriving DecidableEq, Repr

namespace Node

/-- `a` is an ancestor of `n` or `n` itself. -/
def Within (n a : Node) : Prop :=
  a.level ≤ n.level ∧ n.index / 2 ^ (n.level - a.level) = a.index

/-- Neither node is above the other. -/
def Apart (n a : Node) : Prop :=
  ¬ n.Within a ∧ ¬ a.Within n

/-- `n` is a node of the tree of that depth. -/
def Valid (depth : Nat) (n : Node) : Prop :=
  n.level ≤ depth ∧ n.index < 2 ^ n.level

def root : Node :=
  ⟨0, 0⟩

def left (n : Node) : Node :=
  ⟨n.level + 1, 2 * n.index⟩

def right (n : Node) : Node :=
  ⟨n.level + 1, 2 * n.index + 1⟩

def parent (n : Node) : Node :=
  ⟨n.level - 1, n.index / 2⟩

def sibling (n : Node) : Node :=
  ⟨n.level, n.index ^^^ 1⟩

/-!
# Ancestors
-/

theorem div_pow_split {a b c : Nat} (hab : a ≤ b) (hbc : b ≤ c) (x : Nat) :
    x / 2 ^ (c - a) = x / 2 ^ (c - b) / 2 ^ (b - a) := by
  rw [Nat.div_div_eq_div_mul, ← Nat.pow_add]
  congr 2
  omega

theorem within_refl (n : Node) : n.Within n := by
  constructor
  · exact Nat.le_refl n.level
  · rw [Nat.sub_self, Nat.pow_zero, Nat.div_one]

theorem Within.trans {n a b : Node} (h : n.Within a) (h' : a.Within b) :
    n.Within b := by
  constructor
  · exact Nat.le_trans h'.left h.left
  · rw [div_pow_split h'.left h.left, h.right, h'.right]

theorem Within.eq_of_level {n a : Node} (h : n.Within a)
    (hlevel : n.level = a.level) : n = a := by
  rcases n with ⟨l, i⟩
  rcases a with ⟨k, j⟩
  rcases h with ⟨_, hdiv⟩
  dsimp only at hlevel hdiv
  rw [hlevel, Nat.sub_self, Nat.pow_zero, Nat.div_one] at hdiv
  rw [hlevel, hdiv]

/-- Two ancestors of one node are comparable. -/
theorem Within.comparable {n a b : Node} (ha : n.Within a) (hb : n.Within b)
    (hlevel : a.level ≤ b.level) : b.Within a := by
  constructor
  · exact hlevel
  · rw [← hb.right, ← div_pow_split hlevel hb.left, ha.right]

theorem Apart.symm {n a : Node} (h : n.Apart a) : a.Apart n :=
  ⟨h.right, h.left⟩

theorem Apart.ne {n a : Node} (h : n.Apart a) : n ≠ a := by
  intro heq
  subst heq
  exact h.left (within_refl n)

theorem Apart.within {n a c : Node} (h : n.Apart a) (hc : c.Within n) :
    c.Apart a := by
  constructor
  · intro hca
    rcases Nat.le_total a.level n.level with hle | hle
    · exact h.left (hca.comparable hc hle)
    · exact h.right (hc.comparable hca hle)
  · intro hac
    exact h.right (hac.trans hc)

theorem apart_of_level {n a : Node} (hlevel : n.level = a.level) (hne : n ≠ a) :
    n.Apart a := by
  constructor
  · intro h
    exact hne (h.eq_of_level hlevel)
  · intro h
    exact hne (h.eq_of_level hlevel.symm).symm

theorem Valid.within_root {depth : Nat} {n : Node} (h : n.Valid depth) :
    n.Within root := by
  constructor
  · exact Nat.zero_le n.level
  · exact Nat.div_eq_of_lt h.right

/-!
# Children and siblings
-/

theorem left_within (n : Node) : n.left.Within n := by
  constructor
  · exact Nat.le_succ n.level
  · show 2 * n.index / 2 ^ (n.level + 1 - n.level) = n.index
    rw [Nat.add_sub_cancel_left]
    omega

theorem right_within (n : Node) : n.right.Within n := by
  constructor
  · exact Nat.le_succ n.level
  · show (2 * n.index + 1) / 2 ^ (n.level + 1 - n.level) = n.index
    rw [Nat.add_sub_cancel_left]
    omega

theorem left_apart_right (n : Node) : n.left.Apart n.right := by
  have hlevel : n.left.level = n.right.level := rfl
  apply apart_of_level hlevel
  intro h
  have hindex : 2 * n.index = 2 * n.index + 1 := congrArg Node.index h
  omega

/-- What lies strictly below a node lies below one of its children. -/
theorem Within.child {n c : Node} (h : c.Within n) (hlevel : n.level < c.level) :
    c.Within n.left ∨ c.Within n.right := by
  have hsplit := div_pow_split (Nat.le_add_right n.level 1) hlevel c.index
  rw [h.right, Nat.add_sub_cancel_left, Nat.pow_one] at hsplit
  have hhalf : c.index / 2 ^ (c.level - (n.level + 1)) = 2 * n.index ∨
      c.index / 2 ^ (c.level - (n.level + 1)) = 2 * n.index + 1 := by
    omega
  rcases hhalf with hleft | hright
  · exact Or.inl ⟨hlevel, hleft⟩
  · exact Or.inr ⟨hlevel, hright⟩

theorem Valid.left_child {depth : Nat} {n : Node} (h : n.Valid depth)
    (hlevel : n.level < depth) : n.left.Valid depth := by
  have hindex := h.right
  constructor
  · exact hlevel
  · show 2 * n.index < 2 ^ (n.level + 1)
    rw [Nat.pow_succ]
    omega

theorem Valid.right_child {depth : Nat} {n : Node} (h : n.Valid depth)
    (hlevel : n.level < depth) : n.right.Valid depth := by
  have hindex := h.right
  constructor
  · exact hlevel
  · show 2 * n.index + 1 < 2 ^ (n.level + 1)
    rw [Nat.pow_succ]
    omega

theorem xor_one_cases (i : Nat) :
    i % 2 = 0 ∧ i ^^^ 1 = i + 1 ∨ i % 2 = 1 ∧ i ^^^ 1 = i - 1 := by
  rcases Nat.mod_two_eq_zero_or_one i with heven | hodd
  · exact Or.inl ⟨heven, Nat.xor_one_of_even (Nat.even_iff.mpr heven)⟩
  · exact Or.inr ⟨hodd, Nat.xor_one_of_odd (Nat.odd_iff.mpr hodd)⟩

theorem sibling_sibling (n : Node) : n.sibling.sibling = n := by
  have hindex : n.index ^^^ 1 ^^^ 1 = n.index := by
    rw [Nat.xor_assoc, Nat.xor_self, Nat.xor_zero]
  exact congrArg (Node.mk n.level) hindex

theorem sibling_ne (n : Node) : n.sibling ≠ n := by
  intro h
  have hindex : n.index ^^^ 1 = n.index := congrArg Node.index h
  rcases xor_one_cases n.index with ⟨_, hxor⟩ | ⟨hodd, hxor⟩
  · omega
  · omega

theorem parent_level {n : Node} (hlevel : 0 < n.level) :
    n.parent.level + 1 = n.level :=
  Nat.sub_add_cancel hlevel

theorem within_parent {n : Node} (hlevel : 0 < n.level) : n.Within n.parent := by
  constructor
  · exact Nat.sub_le n.level 1
  · show n.index / 2 ^ (n.level - (n.level - 1)) = n.index / 2
    rw [Nat.sub_sub_self hlevel, Nat.pow_one]

/-- The children of the parent are the node and its sibling. -/
theorem children_parent {n : Node} (hlevel : 0 < n.level) :
    n.parent.left = n ∧ n.parent.right = n.sibling ∨
      n.parent.left = n.sibling ∧ n.parent.right = n := by
  have hup := parent_level hlevel
  have hleft : forall i, 2 * (n.index / 2) = i ->
      n.parent.left = ⟨n.level, i⟩ := by
    intro i hi
    unfold left
    rw [hup]
    exact congrArg _ hi
  have hright : forall i, 2 * (n.index / 2) + 1 = i ->
      n.parent.right = ⟨n.level, i⟩ := by
    intro i hi
    unfold right
    rw [hup]
    exact congrArg _ hi
  rcases xor_one_cases n.index with ⟨heven, hxor⟩ | ⟨hodd, hxor⟩
  · refine Or.inl ⟨hleft n.index (by omega), ?_⟩
    exact hright _ (by omega)
  · refine Or.inr ⟨?_, hright n.index (by omega)⟩
    exact hleft _ (by omega)

theorem right_sibling (n : Node) : n.right.sibling = n.left := by
  have hpos : 0 < n.right.level := Nat.succ_pos n.level
  have hparent : n.right.parent = n := by
    have hindex : (2 * n.index + 1) / 2 = n.index := by omega
    exact congrArg (Node.mk n.level) hindex
  rcases children_parent hpos with ⟨hleft, _⟩ | ⟨hleft, _⟩
  · rw [hparent] at hleft
    exact absurd hleft n.left_apart_right.ne
  · rw [← hleft, hparent]

/-- What lies strictly below the parent lies below the node or its sibling. -/
theorem Within.of_parent {n c : Node} (hlevel : 0 < n.level)
    (h : c.Within n.parent) (hbelow : n.level ≤ c.level) :
    c.Within n ∨ c.Within n.sibling := by
  have hchild := h.child (by
    have hup := parent_level hlevel
    omega)
  rcases children_parent hlevel with ⟨hleft, hright⟩ | ⟨hleft, hright⟩
  · rwa [hleft, hright] at hchild
  · rw [hleft, hright] at hchild
    exact hchild.symm

theorem sibling_within_parent {n : Node} (hlevel : 0 < n.level) :
    n.sibling.Within n.parent := by
  rcases children_parent hlevel with ⟨_, hright⟩ | ⟨hleft, _⟩
  · rw [← hright]
    exact right_within n.parent
  · rw [← hleft]
    exact left_within n.parent

theorem Valid.sibling_node {depth : Nat} {n : Node} (h : n.Valid depth)
    (hlevel : 0 < n.level) : n.sibling.Valid depth := by
  have hone : 1 < 2 ^ n.level := Nat.one_lt_two_pow (Nat.ne_of_gt hlevel)
  exact ⟨h.left, Nat.xor_lt_two_pow h.right hone⟩

theorem Valid.parent {depth : Nat} {n : Node} (h : n.Valid depth)
    (hlevel : 0 < n.level) : n.parent.Valid depth := by
  constructor
  · exact Nat.le_trans (Nat.sub_le n.level 1) h.left
  · have hpow : 2 ^ n.level = 2 ^ (n.level - 1) * 2 := by
      rw [← Nat.pow_succ, Nat.succ_eq_add_one, Nat.sub_add_cancel hlevel]
    have hindex := h.right
    show n.index / 2 < 2 ^ (n.level - 1)
    omega

/-- A node strictly below `a` has its parent below `a`. -/
theorem Within.parent {n a : Node} (h : n.Within a) (hlevel : a.level < n.level) :
    n.parent.Within a := by
  have hpos : 0 < n.level := Nat.lt_of_le_of_lt (Nat.zero_le _) hlevel
  have hle : a.level ≤ n.parent.level := Nat.le_sub_one_of_lt hlevel
  exact h.comparable (within_parent hpos) hle

end Node

/-!
# Ranges of leaves
-/

namespace Node

/-- The number of the first leaf below a node. -/
def first (depth : Nat) (n : Node) : Nat :=
  n.index * 2 ^ (depth - n.level)

def leaves (depth : Nat) (n : Node) : Nat :=
  2 ^ (depth - n.level)

variable {depth : Nat} {n a : Node}

theorem leaves_pos (depth : Nat) (n : Node) : 0 < n.leaves depth :=
  Nat.two_pow_pos _

theorem leaf_within_iff (hn : n.level ≤ depth) {x : Nat} :
    Within ⟨depth, x⟩ n <->
      n.first depth ≤ x ∧ x < n.first depth + n.leaves depth := by
  have hpos := n.leaves_pos depth
  show n.level ≤ depth ∧ x / n.leaves depth = n.index <->
    n.index * n.leaves depth ≤ x ∧ x < n.index * n.leaves depth + n.leaves depth
  rw [Nat.div_eq_iff hpos]
  constructor
  · intro h
    omega
  · intro h
    omega

theorem Within.range (h : n.Within a) (hn : n.level ≤ depth) :
    a.first depth ≤ n.first depth ∧
      n.first depth + n.leaves depth ≤ a.first depth + a.leaves depth := by
  have hpos := n.leaves_pos depth
  have ha : a.level ≤ depth := Nat.le_trans h.left hn
  have hleaf : forall x, n.first depth ≤ x ->
      x < n.first depth + n.leaves depth ->
        a.first depth ≤ x ∧ x < a.first depth + a.leaves depth := by
    intro x hle hlt
    exact (leaf_within_iff ha).mp
      (((leaf_within_iff hn).mpr ⟨hle, hlt⟩).trans h)
  have hfirst := hleaf (n.first depth) (Nat.le_refl _) (by omega)
  have hlast := hleaf (n.first depth + n.leaves depth - 1) (by omega) (by omega)
  omega

theorem Apart.range (h : n.Apart a) (hn : n.level ≤ depth)
    (ha : a.level ≤ depth) :
    n.first depth + n.leaves depth ≤ a.first depth ∨
      a.first depth + a.leaves depth ≤ n.first depth := by
  by_contra hmeet
  have hposn := n.leaves_pos depth
  have hposa := a.leaves_pos depth
  have hnx : Within ⟨depth, max (n.first depth) (a.first depth)⟩ n :=
    (leaf_within_iff hn).mpr (by omega)
  have hax : Within ⟨depth, max (n.first depth) (a.first depth)⟩ a :=
    (leaf_within_iff ha).mpr (by omega)
  rcases Nat.le_total n.level a.level with hle | hle
  · exact h.right (hnx.comparable hax hle)
  · exact h.left (hax.comparable hnx hle)

theorem range_le (hn : n.level ≤ depth) (hindex : n.index < 2 ^ n.level) :
    n.first depth + n.leaves depth ≤ 2 ^ depth := by
  have hsplit : 2 ^ depth = 2 ^ n.level * 2 ^ (depth - n.level) := by
    rw [← Nat.pow_add, Nat.add_sub_cancel' hn]
  unfold first leaves
  rw [hsplit, ← Nat.succ_mul]
  exact Nat.mul_le_mul_right _ hindex

theorem first_left (hn : n.level < depth) : n.left.first depth = n.first depth := by
  have hpow : depth - n.level = depth - (n.level + 1) + 1 := by omega
  unfold first left
  rw [hpow, Nat.pow_succ]
  ring

theorem first_right (hn : n.level < depth) :
    n.right.first depth = n.first depth + n.right.leaves depth := by
  have hpow : depth - n.level = depth - (n.level + 1) + 1 := by omega
  unfold first leaves right
  rw [hpow, Nat.pow_succ]
  ring

end Node

/-!
# Tilings
-/

/-- The free nodes `F` and the used nodes `us` tile the tree, and no two siblings are
free. -/
structure Tiled (depth : Nat) (F : Set Node) (us : List Node) : Prop where
  free_valid : forall n, n ∈ F -> n.Valid depth
  used_valid : forall n, n ∈ us -> n.Valid depth
  free_apart : forall n, n ∈ F -> forall m, m ∈ F -> n ≠ m -> n.Apart m
  used_apart : us.Pairwise Node.Apart
  apart : forall n, n ∈ F -> forall m, m ∈ us -> n.Apart m
  cover : forall i, i < 2 ^ depth -> exists n, (n ∈ F ∨ n ∈ us) ∧
    Node.Within ⟨depth, i⟩ n
  sibling : forall n, n ∈ F -> 0 < n.level -> n.sibling ∉ F

namespace Tiled

variable {depth : Nat} {F : Set Node} {us vs : List Node} {n : Node}

/-- One free node. -/
theorem start (depth : Nat) : Tiled depth {Node.root} [] := by
  refine
    { free_valid := ?_
      used_valid := fun n hn => absurd hn List.not_mem_nil
      free_apart := ?_
      used_apart := List.Pairwise.nil
      apart := fun _ _ m hm => absurd hm List.not_mem_nil
      cover := ?_
      sibling := ?_ }
  · intro n hn
    rw [Set.mem_singleton_iff.mp hn]
    exact ⟨Nat.zero_le depth, Nat.one_pos⟩
  · intro n hn m hm hne
    exact absurd ((Set.mem_singleton_iff.mp hn).trans
      (Set.mem_singleton_iff.mp hm).symm) hne
  · intro i hi
    refine ⟨Node.root, Or.inl rfl, ?_⟩
    exact Node.Valid.within_root ⟨Nat.le_refl depth, hi⟩
  · intro n hn hlevel
    rw [Set.mem_singleton_iff.mp hn] at hlevel
    exact absurd hlevel (Nat.lt_irrefl 0)

theorem perm (h : Tiled depth F us) (hperm : us.Perm vs) : Tiled depth F vs :=
  { free_valid := h.free_valid
    used_valid := fun n hn => h.used_valid n (hperm.mem_iff.mpr hn)
    free_apart := h.free_apart
    used_apart := (hperm.pairwise_iff (fun hd => hd.symm)).mp h.used_apart
    apart := fun n hn m hm => h.apart n hn m (hperm.mem_iff.mpr hm)
    cover := fun i hi => by
      rcases h.cover i hi with ⟨n, hn, hwithin⟩
      exact ⟨n, hn.imp_right hperm.mem_iff.mp, hwithin⟩
    sibling := h.sibling }

/-!
# Moves
-/

/-- A free node becomes used. -/
theorem take (h : Tiled depth F us) (hn : n ∈ F) :
    Tiled depth (F \ {n}) (n :: us) := by
  refine
    { free_valid := fun m hm => h.free_valid m hm.left
      used_valid := ?_
      free_apart := fun m hm k hk => h.free_apart m hm.left k hk.left
      used_apart := List.pairwise_cons.mpr ⟨h.apart n hn, h.used_apart⟩
      apart := ?_
      cover := ?_
      sibling := fun m hm hlevel hsib => h.sibling m hm.left hlevel hsib.left }
  · intro m hm
    cases hm with
    | head => exact h.free_valid n hn
    | tail _ hm => exact h.used_valid m hm
  · intro m hm k hk
    cases hk with
    | head => exact h.free_apart m hm.left n hn hm.right
    | tail _ hk => exact h.apart m hm.left k hk
  · intro i hi
    rcases h.cover i hi with ⟨m, hm, hwithin⟩
    refine ⟨m, ?_, hwithin⟩
    rcases hm with hfree | hused
    · by_cases heq : m = n
      · exact Or.inr (heq ▸ List.mem_cons_self)
      · exact Or.inl ⟨hfree, heq⟩
    · exact Or.inr (List.mem_cons_of_mem n hused)

/-- A used node becomes free; its sibling must not be. -/
theorem release (h : Tiled depth F (n :: us))
    (hsib : 0 < n.level -> n.sibling ∉ F) : Tiled depth (insert n F) us := by
  rcases List.pairwise_cons.mp h.used_apart with ⟨hhead, htail⟩
  refine
    { free_valid := ?_
      used_valid := fun m hm => h.used_valid m (List.mem_cons_of_mem n hm)
      free_apart := ?_
      used_apart := htail
      apart := ?_
      cover := ?_
      sibling := ?_ }
  · intro m hm
    rcases hm with rfl | hm
    · exact h.used_valid m List.mem_cons_self
    · exact h.free_valid m hm
  · intro m hm k hk hne
    rcases hm with rfl | hm
    · rcases hk with rfl | hk
      · exact absurd rfl hne
      · exact (h.apart k hk m List.mem_cons_self).symm
    · rcases hk with rfl | hk
      · exact h.apart m hm k List.mem_cons_self
      · exact h.free_apart m hm k hk hne
  · intro m hm k hk
    rcases hm with rfl | hm
    · exact hhead k hk
    · exact h.apart m hm k (List.mem_cons_of_mem n hk)
  · intro i hi
    rcases h.cover i hi with ⟨m, hm, hwithin⟩
    refine ⟨m, ?_, hwithin⟩
    rcases hm with hfree | hused
    · exact Or.inl (Or.inr hfree)
    · cases hused with
      | head => exact Or.inl (Or.inl rfl)
      | tail _ hused => exact Or.inr hused
  · intro m hm hlevel hmem
    rcases hm with rfl | hm
    · rcases hmem with heq | hmem
      · exact m.sibling_ne heq
      · exact hsib hlevel hmem
    · rcases hmem with heq | hmem
      · apply hsib
        · rw [← heq]
          exact hlevel
        · rw [← heq, Node.sibling_sibling]
          exact hm
      · exact h.sibling m hm hlevel hmem

/-- A used node is split: its right child becomes free, its left child stays used. -/
theorem split (h : Tiled depth F (n :: us)) (hlevel : n.level < depth) :
    Tiled depth (insert n.right F) (n.left :: us) := by
  rcases List.pairwise_cons.mp h.used_apart with ⟨hhead, htail⟩
  have hvalid := h.used_valid n List.mem_cons_self
  refine
    { free_valid := ?_
      used_valid := ?_
      free_apart := ?_
      used_apart := ?_
      apart := ?_
      cover := ?_
      sibling := ?_ }
  · intro m hm
    rcases hm with rfl | hm
    · exact hvalid.right_child hlevel
    · exact h.free_valid m hm
  · intro m hm
    cases hm with
    | head => exact hvalid.left_child hlevel
    | tail _ hm => exact h.used_valid m (List.mem_cons_of_mem n hm)
  · intro m hm k hk hne
    rcases hm with rfl | hm
    · rcases hk with rfl | hk
      · exact absurd rfl hne
      · exact (h.apart k hk n List.mem_cons_self).symm.within n.right_within
    · rcases hk with rfl | hk
      · exact ((h.apart m hm n List.mem_cons_self).symm.within
          n.right_within).symm
      · exact h.free_apart m hm k hk hne
  · refine List.pairwise_cons.mpr ⟨?_, htail⟩
    intro m hm
    exact (hhead m hm).within n.left_within
  · intro m hm k hk
    rcases hm with rfl | hm
    · cases hk with
      | head => exact n.left_apart_right.symm
      | tail _ hk => exact (hhead k hk).within n.right_within
    · cases hk with
      | head =>
          exact ((h.apart m hm n List.mem_cons_self).symm.within
            n.left_within).symm
      | tail _ hk => exact h.apart m hm k (List.mem_cons_of_mem n hk)
  · intro i hi
    rcases h.cover i hi with ⟨m, hm, hwithin⟩
    have hold : m ∈ F ∨ m ∈ us -> exists m, (m ∈ insert n.right F ∨
        m ∈ n.left :: us) ∧ Node.Within ⟨depth, i⟩ m := fun hm =>
      ⟨m, hm.imp (fun hm => Or.inr hm) (List.mem_cons_of_mem _), hwithin⟩
    rcases hm with hfree | hused
    · exact hold (Or.inl hfree)
    · cases hused with
      | head =>
          rcases hwithin.child hlevel with hleft | hright
          · exact ⟨n.left, Or.inr List.mem_cons_self, hleft⟩
          · exact ⟨n.right, Or.inl (Or.inl rfl), hright⟩
      | tail _ hused => exact hold (Or.inr hused)
  · -- The sibling of the new free node is the used left child.
    intro m hm hpos hmem
    have hleft : n.left ∉ F := by
      intro hfree
      exact (h.apart n.left hfree n List.mem_cons_self).left n.left_within
    rcases hm with rfl | hm
    · rw [n.right_sibling] at hmem
      rcases hmem with heq | hmem
      · exact n.left_apart_right.ne heq
      · exact hleft hmem
    · rcases hmem with heq | hmem
      · apply hleft
        rw [← n.right_sibling, ← heq, Node.sibling_sibling]
        exact hm
      · exact h.sibling m hm hpos hmem

/-- A used node and its free sibling are merged. -/
theorem merge (h : Tiled depth F (n :: us)) (hlevel : 0 < n.level)
    (hsib : n.sibling ∈ F) : Tiled depth (F \ {n.sibling}) (n.parent :: us) := by
  rcases List.pairwise_cons.mp h.used_apart with ⟨hhead, htail⟩
  have hvalid := h.used_valid n List.mem_cons_self
  -- What is apart from both children is apart from the parent.
  have hparent : forall m, n.Apart m -> n.sibling.Apart m ->
      n.parent.Apart m := by
    intro m hnm hsm
    constructor
    · intro hwithin
      exact hnm.left ((Node.within_parent hlevel).trans hwithin)
    · intro hwithin
      rcases Nat.lt_or_ge m.level n.level with hlt | hge
      · have heq : m = n.parent := by
          apply hwithin.eq_of_level
          have hle := hwithin.left
          have hup := Node.parent_level hlevel
          omega
        rw [heq] at hnm
        exact hnm.left (Node.within_parent hlevel)
      · rcases hwithin.of_parent hlevel hge with hn | hs
        · exact hnm.right hn
        · exact hsm.right hs
  refine
    { free_valid := fun m hm => h.free_valid m hm.left
      used_valid := ?_
      free_apart := fun m hm k hk => h.free_apart m hm.left k hk.left
      used_apart := ?_
      apart := ?_
      cover := ?_
      sibling := fun m hm hpos hmem => h.sibling m hm.left hpos hmem.left }
  · intro m hm
    cases hm with
    | head => exact hvalid.parent hlevel
    | tail _ hm => exact h.used_valid m (List.mem_cons_of_mem n hm)
  · refine List.pairwise_cons.mpr ⟨?_, htail⟩
    intro m hm
    exact hparent m (hhead m hm)
      (h.apart n.sibling hsib m (List.mem_cons_of_mem n hm))
  · intro m hm k hk
    cases hk with
    | head =>
        exact (hparent m (h.apart m hm.left n List.mem_cons_self).symm
          (h.free_apart _ hsib m hm.left (fun heq => hm.right heq.symm))).symm
    | tail _ hk => exact h.apart m hm.left k (List.mem_cons_of_mem n hk)
  · intro i hi
    rcases h.cover i hi with ⟨m, hm, hwithin⟩
    rcases hm with hfree | hused
    · by_cases heq : m = n.sibling
      · rw [heq] at hwithin
        exact ⟨n.parent, Or.inr List.mem_cons_self,
          hwithin.trans (Node.sibling_within_parent hlevel)⟩
      · exact ⟨m, Or.inl ⟨hfree, heq⟩, hwithin⟩
    · cases hused with
      | head =>
          exact ⟨n.parent, Or.inr List.mem_cons_self,
            hwithin.trans (Node.within_parent hlevel)⟩
      | tail _ hused =>
          exact ⟨m, Or.inr (List.mem_cons_of_mem _ hused), hwithin⟩

/-!
# The free nodes are the largest vacant ones
-/

end Tiled

/-- No used node meets `n`. -/
def Vacant (depth : Nat) (us : List Node) (n : Node) : Prop :=
  n.Valid depth ∧ forall m, m ∈ us -> n.Apart m

theorem Vacant.left_child {depth : Nat} {us : List Node} {n : Node}
    (h : Vacant depth us n) (hlevel : n.level < depth) :
    Vacant depth us n.left :=
  ⟨h.left.left_child hlevel, fun m hm => (h.right m hm).within n.left_within⟩

theorem Vacant.right_child {depth : Nat} {us : List Node} {n : Node}
    (h : Vacant depth us n) (hlevel : n.level < depth) :
    Vacant depth us n.right :=
  ⟨h.left.right_child hlevel, fun m hm => (h.right m hm).within n.right_within⟩

namespace Tiled

variable {depth : Nat} {F : Set Node} {us : List Node} {n : Node}

theorem vacant (h : Tiled depth F us) (hn : n ∈ F) : Vacant depth us n :=
  ⟨h.free_valid n hn, h.apart n hn⟩

/-- A vacant node lies in a free one. The induction is on the distance from the
leaves. -/
theorem vacant_within (h : Tiled depth F us) (hn : Vacant depth us n) :
    exists f, f ∈ F ∧ n.Within f := by
  have hk : depth - n.level + n.level = depth := Nat.sub_add_cancel hn.left.left
  generalize depth - n.level = k at hk
  induction k generalizing n with
  | zero =>
      rw [Nat.zero_add] at hk
      have hleaf : n = ⟨depth, n.index⟩ := by rw [← hk]
      have hindex : n.index < 2 ^ depth := hk ▸ hn.left.right
      rcases h.cover n.index hindex with ⟨m, hm, hwithin⟩
      rw [← hleaf] at hwithin
      rcases hm with hfree | hused
      · exact ⟨m, hfree, hwithin⟩
      · exact absurd hwithin (hn.right m hused).left
  | succ k ih =>
      have hlevel : n.level < depth := by omega
      have hdown : k + (n.level + 1) = depth := by omega
      rcases ih (hn.left_child hlevel) hdown with ⟨f, hf, hleft⟩
      rcases ih (hn.right_child hlevel) hdown with ⟨g, hg, hright⟩
      rcases Nat.lt_or_ge n.level f.level with hflt | hfge
      · have hfeq : n.left = f := hleft.eq_of_level (Nat.le_antisymm hflt hleft.left)
        rcases Nat.lt_or_ge n.level g.level with hglt | hgge
        · have hgeq : n.right = g :=
            hright.eq_of_level (Nat.le_antisymm hglt hright.left)
          have hfree : n.right.sibling ∈ F := by
            rw [n.right_sibling, hfeq]
            exact hf
          exact absurd hfree
            (h.sibling n.right (hgeq ▸ hg) (Nat.succ_pos n.level))
        · exact ⟨g, hg, hright.comparable n.right_within hgge⟩
      · exact ⟨f, hf, hleft.comparable n.left_within hfge⟩

/-- The free nodes are the largest vacant ones. -/
theorem free_iff (h : Tiled depth F us) : n ∈ F <->
    Vacant depth us n ∧ (0 < n.level -> ¬ Vacant depth us n.parent) := by
  constructor
  · intro hn
    refine ⟨h.vacant hn, ?_⟩
    intro hlevel hparent
    rcases h.vacant_within hparent with ⟨f, hf, hwithin⟩
    have hne : n ≠ f := by
      intro heq
      have hle := hwithin.left
      have hup := Node.parent_level hlevel
      rw [← heq] at hle
      omega
    exact (h.free_apart n hn f hf hne).left
      ((Node.within_parent hlevel).trans hwithin)
  · intro hn
    rcases hn with ⟨hvacant, hmax⟩
    rcases h.vacant_within hvacant with ⟨f, hf, hwithin⟩
    rcases Nat.lt_or_eq_of_le hwithin.left with hlt | heq
    · have hlevel : 0 < n.level := Nat.lt_of_le_of_lt (Nat.zero_le _) hlt
      have hparent : Vacant depth us n.parent :=
        ⟨hvacant.left.parent hlevel, fun m hm =>
          (h.apart f hf m hm).within (hwithin.parent hlt)⟩
      exact absurd hparent (hmax hlevel)
    · rw [hwithin.eq_of_level heq.symm]
      exact hf

/-- A level has a vacant node exactly when there is a free node on it or above. -/
theorem exists_vacant_iff (h : Tiled depth F us) {level : Nat}
    (hlevel : level ≤ depth) :
    (exists n, n.level = level ∧ Vacant depth us n) <->
      exists f, f ∈ F ∧ f.level ≤ level := by
  constructor
  · intro hn
    rcases hn with ⟨n, rfl, hvacant⟩
    rcases h.vacant_within hvacant with ⟨f, hf, hwithin⟩
    exact ⟨f, hf, hwithin.left⟩
  · intro hf
    rcases hf with ⟨f, hf, hle⟩
    have hwithin : Node.Within ⟨level, f.index * 2 ^ (level - f.level)⟩ f :=
      ⟨hle, Nat.mul_div_cancel _ (Nat.two_pow_pos _)⟩
    refine ⟨⟨level, f.index * 2 ^ (level - f.level)⟩, rfl, ⟨hlevel, ?_⟩,
      fun m hm => (h.apart f hf m hm).within hwithin⟩
    have hvalid := (h.free_valid f hf).right
    show f.index * 2 ^ (level - f.level) < 2 ^ level
    calc
      f.index * 2 ^ (level - f.level) < 2 ^ f.level * 2 ^ (level - f.level) :=
        Nat.mul_lt_mul_of_pos_right hvalid (Nat.two_pow_pos _)
      _ = 2 ^ level := by rw [← Nat.pow_add, Nat.add_sub_cancel' hle]

/-- A free node stays free while a further node is used and given back: it was
already free, or what keeps it from growing is the further node. -/
theorem free_stays {G H : Set Node} {m : Node} {vs : List Node}
    (h : Tiled depth G (m :: us)) (h' : Tiled depth H (m :: vs))
    (hsub : forall k, k ∈ vs -> k ∈ us) (hF : Tiled depth F us)
    (hn : n ∈ G) (hnot : n ∉ F) : n ∈ H := by
  have hG := h.free_iff.mp hn
  have hvacant : Vacant depth us n :=
    ⟨hG.left.left, fun k hk => hG.left.right k (List.mem_cons_of_mem m hk)⟩
  have hparent : 0 < n.level ∧ Vacant depth us n.parent := by
    by_contra hno
    apply hnot
    rw [hF.free_iff]
    exact ⟨hvacant, fun hpos hup => hno ⟨hpos, hup⟩⟩
  rw [h'.free_iff]
  constructor
  · refine ⟨hG.left.left, ?_⟩
    intro k hk
    cases hk with
    | head => exact hG.left.right m List.mem_cons_self
    | tail _ hk => exact hvacant.right k (hsub k hk)
  · intro hpos hup
    apply hG.right hpos
    refine ⟨hup.left, ?_⟩
    intro k hk
    cases hk with
    | head => exact hup.right m List.mem_cons_self
    | tail _ hk => exact hparent.right.right k hk

end Tiled

end Foundation
end Liballo
