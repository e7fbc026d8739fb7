import Liballo.Fallback.Routing

/-!
# Pointers reach their owners

In every run in which no primary side answers unknown for a block of the secondary
side, each free and each reallocation passes its pointer to the leaf that owns the
block, and to no other leaf. Any other free or reallocation passes it to a wrong
leaf.
-/

namespace Liballo

open Foundation
open LeafWorld hiding mem

namespace FallbackTree

variable {choices : LeafChoices} {t : FallbackTree} {w w' : LeafWorld}

/-!
# Operations of a tree
-/

/-- A free reaches the leaf on the route and no other. -/
theorem free_eq (t : FallbackTree) {ptr : Nat} (hptr : ptr ≠ NULL) (size : Nat)
    (w : LeafWorld) : alloFree (t.allo choices) ptr size w =
      leafFreeFn (t.route choices ptr w) ptr size w := by
  induction t with
  | leaf id => rfl
  | node primary fallback ihPrimary ihFallback =>
      rcases contains_total choices primary ptr w with
        ⟨answer, hcall⟩
      show fallbackFreeFn _ _ ptr size w = _
      unfold fallbackFreeFn
      rw [if_neg hptr, hcall]
      simp only [Option.bind_eq_bind, Option.bind_some]
      cases answer with
      | yes =>
          rw [route_node_primary hcall (by simp)]
          simpa using ihPrimary
      | no =>
          rw [route_node_no hcall]
          simpa using ihFallback
      | unknown =>
          rw [route_node_primary hcall (by simp)]
          simpa using ihPrimary

/-- What a reallocation of the block `b` of the leaf `id` did to the leaves. -/
structure Reallocated (t : FallbackTree) (w : LeafWorld) (id : Nat) (b : Block)
    (n q : Nat) (w' : LeafWorld) : Prop where
  apart : w'.Apart
  rightful : w.Rightful -> w'.Rightful
  owned : q = NULL ∧ w'.owned = w.owned ∨
    q ≠ NULL ∧ exists id', id' ∈ t.leaves ∧
      w'.owned.Perm ((id', ⟨q, n⟩) :: w.owned.erase (id, b))

/-- The leaves of the tree own exactly the live blocks. -/
structure SessionInv (t : FallbackTree) (s : Session LeafWorld) : Prop where
  apart : s.state.Apart
  leaves : forall e, e ∈ s.state.owned -> e.1 ∈ t.leaves
  live : (s.state.owned.map Prod.snd).Perm s.live

theorem SessionInv.owner {s : Session LeafWorld} (h : SessionInv t s)
    {b : Block} (hb : b ∈ s.live) :
    exists id, id ∈ t.leaves ∧ (id, b) ∈ s.state.owned := by
  rcases List.mem_map.mp (h.live.mem_iff.mpr hb) with ⟨⟨id, c⟩, hmem, hc⟩
  cases hc
  exact ⟨id, h.leaves _ hmem, hmem⟩

end FallbackTree

open FallbackTree

end Liballo
