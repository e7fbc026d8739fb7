import Liballo.Fallback.Defs

/-!
# Routing in trees of fallback allocators

A block is found again by asking the primary side of every node whether it contains
the pointer. An unknown answer sends the pointer into the primary side, so a block of
the secondary side is routed to its owner exactly when the primary side of no node on
the way gives that answer.
-/

namespace Liballo

open Foundation

/-!
# Owned blocks
-/

namespace LeafWorld

theorem mem_ownedBy {w : LeafWorld} {leaf : Nat} {b : Block} :
    b ∈ w.ownedBy leaf <-> (leaf, b) ∈ w.owned := by
  simp only [ownedBy, List.mem_map, List.mem_filter, decide_eq_true_eq]
  constructor
  · rintro ⟨⟨i, c⟩, ⟨hmem, hleaf⟩, hblock⟩
    cases hleaf
    cases hblock
    exact hmem
  · intro hmem
    exact ⟨(leaf, b), ⟨hmem, rfl⟩, rfl⟩

/-- The owned blocks are well-formed and apart from each other. -/
structure Apart (w : LeafWorld) : Prop where
  wellFormed : forall e, e ∈ w.owned -> e.2.WellFormed
  disjoint : w.owned.Pairwise (fun e f => e.2.Disjoint f.2)

namespace Apart

variable {w : LeafWorld}

/-- The pointer of an owned block has one owner. -/
theorem unique (h : w.Apart) {i j : Nat} {b c : Block} (hb : (i, b) ∈ w.owned)
    (hc : (j, c) ∈ w.owned) (hptr : b.ptr = c.ptr) : i = j ∧ b = c := by
  have heq : (i, b) = (j, c) := by
    by_contra hne
    have hsymm : Std.Symm (fun e f : Nat × Block => e.2.Disjoint f.2) :=
      ⟨fun _ _ hd => hd.symm⟩
    have hdisj := h.disjoint.forall hb hc hne
    exact hdisj.ptr_ne (h.wellFormed _ hb).right.left
      (h.wellFormed _ hc).right.left hptr
  exact ⟨congrArg Prod.fst heq, congrArg Prod.snd heq⟩

theorem of_owned (h : w.Apart) {w' : LeafWorld} (heq : w'.owned = w.owned) :
    w'.Apart :=
  ⟨heq ▸ h.wellFormed, heq ▸ h.disjoint⟩

/-- Handing out a fresh block, possibly in place of another one. -/
theorem replace {w' : LeafWorld} {owned : List (Nat × Block)} (h : w.Apart)
    {leaf : Nat} {b : Block} (hsub : owned.Sublist w.owned)
    (hfresh : Fresh b owned) (hperm : w'.owned.Perm ((leaf, b) :: owned)) :
    w'.Apart := by
  constructor
  · intro e he
    cases hperm.mem_iff.mp he with
    | head => exact hfresh.left
    | tail _ he => exact h.wellFormed e (hsub.subset he)
  · rw [hperm.pairwise_iff (fun hd => Block.Disjoint.symm hd)]
    exact List.pairwise_cons.mpr ⟨hfresh.right, h.disjoint.sublist hsub⟩

theorem erase (h : w.Apart) {w' : LeafWorld} {e : Nat × Block}
    (heq : w'.owned = w.owned.erase e) : w'.Apart := by
  constructor
  · intro f hf
    rw [heq] at hf
    exact h.wellFormed f (List.mem_of_mem_erase hf)
  · rw [heq]
    exact h.disjoint.sublist List.erase_sublist

end Apart

/-- Every pointer was passed to a leaf that owned it. -/
def Rightful (w : LeafWorld) : Prop :=
  forall e, e ∈ w.passed -> e.rightful = true

end LeafWorld

open LeafWorld

namespace FallbackTree

variable {choices : LeafChoices} {t : FallbackTree} {w w' : LeafWorld}

/-!
# What a tree answers
-/

theorem contains_total (choices : LeafChoices) (t : FallbackTree) (ptr : Nat) (w : LeafWorld) :
    exists answer, alloContains (t.allo choices) ptr w = some answer := by
  induction t with
  | leaf i =>
      simp only [allo, alloContains, leafAllo, leafContainsFn]
      split
      · exact ⟨_, rfl⟩
      · split <;> exact ⟨_, rfl⟩
  | node primary fallback ihPrimary ihFallback =>
      rcases ihPrimary with ⟨answer, hcall⟩
      rcases ihFallback with ⟨answer', hcall'⟩
      show exists answer, fallbackContainsFn _ _ ptr w = some answer
      simp only [fallbackContainsFn, hcall, hcall', Option.bind_eq_bind,
        Option.bind_some]
      split
      · exact ⟨_, rfl⟩
      · split
        · exact ⟨_, rfl⟩
        · split <;> exact ⟨_, rfl⟩

/-!
# Routes
-/

/-- The leaf a pointer is routed to. -/
def route (choices : LeafChoices) (ptr : Nat) (w : LeafWorld) :
    FallbackTree -> Nat
  | leaf id => id
  | node primary fallback =>
      if alloContains (primary.allo choices) ptr w = some AlloContains.no then
        fallback.route choices ptr w
      else primary.route choices ptr w

/-- The tree holds the block in one of its leaves. -/
def Holds (t : FallbackTree) (w : LeafWorld) (b : Block) : Prop :=
  exists id, id ∈ t.leaves ∧ (id, b) ∈ w.owned

theorem route_node_no {primary fallback : FallbackTree} {ptr : Nat}
    (h : alloContains (primary.allo choices) ptr w = some AlloContains.no) :
    (node primary fallback).route choices ptr w =
      fallback.route choices ptr w :=
  if_pos h

theorem route_node_primary {primary fallback : FallbackTree} {ptr : Nat}
    {answer : AlloContains}
    (h : alloContains (primary.allo choices) ptr w = some answer)
    (hne : answer ≠ AlloContains.no) :
    (node primary fallback).route choices ptr w = primary.route choices ptr w :=
  if_neg (fun heq => hne (Option.some.inj (h.symm.trans heq)))

theorem holds_iff (t : FallbackTree) (h : w.Apart) {id : Nat} {b : Block}
    (hb : (id, b) ∈ w.owned) : t.Holds w b <-> id ∈ t.leaves := by
  constructor
  · rintro ⟨i, hi, hmem⟩
    rw [(h.unique hb hmem rfl).left]
    exact hi
  · exact fun hid => ⟨id, hid, hb⟩

end FallbackTree

end Liballo
