import Mathlib.Data.Finset.Card
import Mathlib.Order.Interval.Finset.Nat
import Liballo.Foundation.Dyadic

/-!
# Room in a dyadic tree

A node takes up places at a level: the nodes of that level which are not apart from it.
Where the used nodes take up fewer places than there are, one of the nodes is vacant. A
node that holds all used nodes and has room goes on holding them, as long as new ones
are cut from the smallest free node that is large enough.
-/

namespace Liballo
namespace Foundation

namespace Node

variable {level i : Nat} {n r : Node}

/-- The indices of the nodes at `level` that are above `n`, below it, or `n` itself. -/
def places (level : Nat) (n : Node) : Finset Nat :=
  Finset.Ico (n.index / 2 ^ (n.level - level) * 2 ^ (level - n.level))
    ((n.index / 2 ^ (n.level - level) + 1) * 2 ^ (level - n.level))

theorem card_places (level : Nat) (n : Node) :
    (n.places level).card = 2 ^ (level - n.level) := by
  rw [places, Nat.card_Ico, Nat.add_mul, Nat.one_mul, Nat.add_sub_cancel_left]

theorem mem_places : i ∈ n.places level <->
    i / 2 ^ (level - n.level) = n.index / 2 ^ (n.level - level) := by
  have hpos : 0 < 2 ^ (level - n.level) := Nat.two_pow_pos _
  rw [places, Finset.mem_Ico, Nat.div_eq_iff hpos]
  rw [Nat.add_mul, Nat.one_mul]
  omega

theorem apart_of_not_mem (h : i ∉ n.places level) : Node.Apart ⟨level, i⟩ n := by
  rw [mem_places] at h
  constructor
  · rintro ⟨hle, hindex⟩
    have hup : n.level - level = 0 := Nat.sub_eq_zero_of_le hle
    rw [hup, Nat.pow_zero, Nat.div_one] at h
    exact h hindex
  · rintro ⟨hle, hindex⟩
    have hdown : level - n.level = 0 := Nat.sub_eq_zero_of_le hle
    rw [hdown, Nat.pow_zero, Nat.div_one] at h
    exact h hindex.symm

/-- A node takes up one place on the levels above it. -/
theorem Within.places_eq (h : n.Within r) : n.places r.level = {r.index} := by
  ext i
  have hup : r.level - n.level = 0 := Nat.sub_eq_zero_of_le h.left
  rw [mem_places, Finset.mem_singleton, hup, Nat.pow_zero, Nat.div_one, h.right]

theorem within_of_mem_places (hle : r.level ≤ level) (h : i ∈ r.places level) :
    Node.Within ⟨level, i⟩ r := by
  have hdown : r.level - level = 0 := Nat.sub_eq_zero_of_le hle
  rw [mem_places, hdown, Nat.pow_zero, Nat.div_one] at h
  exact ⟨hle, h⟩

theorem Within.valid {depth : Nat} (h : n.Within r) (hn : n.level ≤ depth)
    (hr : r.Valid depth) : n.Valid depth := by
  refine ⟨hn, ?_⟩
  have hlt : n.index / 2 ^ (n.level - r.level) < 2 ^ r.level := h.right ▸ hr.right
  have hindex := (Nat.div_lt_iff_lt_mul (Nat.two_pow_pos _)).mp hlt
  rwa [← Nat.pow_add, Nat.add_sub_cancel' h.left] at hindex

/-- Nodes on the way up are comparable, so a node that lies in one and is apart from the
other is below. -/
theorem Within.of_apart {a : Node} (hn : n.Within r) (ha : n.Within a)
    (hnot : ¬ r.Within a) : a.Within r := by
  rcases Nat.le_total r.level a.level with hle | hle
  · exact hn.comparable ha hle
  · exact absurd (ha.comparable hn hle) hnot

end Node

/-!
# Places in use
-/

/-- The places at `level` that the nodes take up. -/
def takenPlaces (level : Nat) : List Node -> Finset Nat
  | [] => ∅
  | n :: us => n.places level ∪ takenPlaces level us

section Places

variable {depth level i : Nat} {us vs : List Node} {n r : Node}

theorem places_subset (hn : n ∈ us) : n.places level ⊆ takenPlaces level us := by
  induction us with
  | nil => exact absurd hn List.not_mem_nil
  | cons u us ih =>
      cases hn with
      | head => exact Finset.subset_union_left
      | tail _ hn => exact (ih hn).trans Finset.subset_union_right

theorem takenPlaces_append (us vs : List Node) :
    takenPlaces level (us ++ vs) = takenPlaces level us ∪ takenPlaces level vs := by
  induction us with
  | nil => exact (Finset.empty_union _).symm
  | cons u us ih =>
      rw [List.cons_append, takenPlaces, takenPlaces, ih, Finset.union_assoc]

/-- Nodes that share places are counted once for each of them at most. -/
theorem card_takenPlaces_le (level : Nat) (us : List Node) :
    (takenPlaces level us).card ≤ (us.map (fun n => 2 ^ (level - n.level))).sum := by
  induction us with
  | nil => exact Nat.le_refl 0
  | cons u us ih =>
      rw [takenPlaces, List.map_cons, List.sum_cons]
      calc
        (u.places level ∪ takenPlaces level us).card
            ≤ (u.places level).card + (takenPlaces level us).card :=
          Finset.card_union_le _ _
        _ ≤ 2 ^ (level - u.level) + (us.map (fun n => 2 ^ (level - n.level))).sum :=
          Nat.add_le_add (Nat.le_of_eq (u.card_places level)) ih

/-- Nodes within a node take up no more places than it does. -/
theorem takenPlaces_subset_of_within (hall : forall n, n ∈ us -> n.Within r) :
    takenPlaces level us ⊆ r.places level := by
  induction us with
  | nil => exact Finset.empty_subset _
  | cons u us ih =>
      have hu := hall u List.mem_cons_self
      refine Finset.union_subset ?_ (ih (fun n hn => hall n (List.mem_cons_of_mem u hn)))
      intro i hi
      by_contra hnot
      have hapart := Node.apart_of_not_mem hnot
      have hmem := Node.mem_places.mp hi
      rcases Nat.le_total level u.level with hle | hle
      · have hdown : level - u.level = 0 := Nat.sub_eq_zero_of_le hle
        rw [hdown, Nat.pow_zero, Nat.div_one] at hmem
        have hup : u.Within ⟨level, i⟩ := ⟨hle, hmem.symm⟩
        exact hapart.left (hu.of_apart hup hapart.right)
      · exact hapart.left ((Node.within_of_mem_places hle hi).trans hu)

/-- A node with a place left has a vacant node of that level in it. -/
theorem exists_vacant_within (hr : r.Valid depth) (hle : r.level ≤ level)
    (hlevel : level ≤ depth) (hfew : (takenPlaces level us).card < 2 ^ (level - r.level)) :
    exists n, n.level = level ∧ n.Within r ∧ Vacant depth us n := by
  rw [← r.card_places] at hfew
  rcases Finset.exists_mem_notMem_of_card_lt_card hfew with ⟨i, hi, hnot⟩
  have hwithin := Node.within_of_mem_places hle hi
  refine ⟨⟨level, i⟩, rfl, hwithin, hwithin.valid hlevel hr, ?_⟩
  intro m hm
  exact Node.apart_of_not_mem (fun hmem => hnot (places_subset hm hmem))

theorem exists_vacant (hlevel : level ≤ depth)
    (hfew : (takenPlaces level us).card < 2 ^ level) :
    exists n, n.level = level ∧ Vacant depth us n := by
  have hroot : Node.root.Valid depth := ⟨Nat.zero_le depth, Nat.two_pow_pos 0⟩
  rcases exists_vacant_within hroot (Nat.zero_le level) hlevel hfew with
    ⟨n, hn, _, hvacant⟩
  exact ⟨n, hn, hvacant⟩

end Places

/-!
# The smallest free node
-/

namespace Tiled

variable {depth level : Nat} {F : Set Node} {us : List Node} {n r u : Node}

/-- All used nodes lie in `r`, and `r` has room for another node of that level. Then the
smallest free node with such room lies in `r` as well. -/
theorem smallest_within (h : Tiled depth F us) (hr : r.Valid depth)
    (hall : forall m, m ∈ us -> m.Within r) (hu : u ∈ us) (hle : r.level ≤ level)
    (hlevel : level ≤ depth) (hfew : (takenPlaces level us).card < 2 ^ (level - r.level))
    (hn : n ∈ F) (hsmall : forall f, f ∈ F -> f.level ≤ level -> f.level ≤ n.level) :
    n.Within r := by
  rcases exists_vacant_within hr hle hlevel hfew with ⟨v, hv, hwithin, hvacant⟩
  rcases h.vacant_within hvacant with ⟨f, hf, hvf⟩
  have hnot : ¬ r.Within f := by
    intro hrf
    exact (h.apart f hf u hu).right ((hall u hu).trans hrf)
  have hfr : f.Within r := hwithin.of_apart hvf hnot
  have hstrict : r.level < f.level := by
    rcases Nat.lt_or_eq_of_le hfr.left with hlt | heq
    · exact hlt
    · exact absurd (hfr.eq_of_level heq.symm ▸ Node.within_refl f) hnot
  have hdeep : r.level < n.level :=
    Nat.lt_of_lt_of_le hstrict (hsmall f hf (hv ▸ hvf.left))
  by_contra hout
  -- The parent of `n` would be free of used nodes too.
  have hpos : 0 < n.level := Nat.lt_of_le_of_lt (Nat.zero_le _) hdeep
  have hup := Node.parent_level hpos
  refine (h.free_iff.mp hn).right hpos ⟨(h.free_valid n hn).parent hpos, ?_⟩
  intro m hm
  constructor
  · intro hparent
    have hnm := (Node.within_parent hpos).trans hparent
    exact (h.apart n hn m hm).left hnm
  · intro hmp
    have hpr : n.parent.Within r := (hall m hm).comparable hmp (by omega)
    exact hout ((Node.within_parent hpos).trans hpr)

end Tiled

end Foundation
end Liballo
