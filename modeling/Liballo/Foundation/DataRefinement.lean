import Mathlib.Logic.Basic

/-!
# Data refinement

An interface says which requests a client may make of an abstract object, which
answers it may get and what becomes of the object. A server answers requests in
states of its own. It implements the interface if every request that may be made is
served, with an answer that may be given. What holds of one exchange holds of every
dialogue.
-/

namespace Liballo
namespace Foundation

structure Interface (τ ι ο : Type) where
  Legal : τ -> ι -> Prop
  Allows : τ -> ι -> ο -> Prop
  after : τ -> ι -> ο -> τ

/-- A server carries a request out, or does not come back from it. -/
abbrev Server (σ ι ο : Type) : Type :=
  ι -> σ -> Option (ο × σ)

namespace Interface

variable {τ ι ο : Type}

/-- The abstract object after the exchanges `es`. -/
def replay (I : Interface τ ι ο) : τ -> List (ι × ο) -> τ
  | t, [] => t
  | t, e :: es => replay I (I.after t e.1 e.2) es

/-- Every request was made when it was legal. -/
def LegalAll (I : Interface τ ι ο) : τ -> List (ι × ο) -> Prop
  | _, [] => True
  | t, e :: es => I.Legal t e.1 ∧ LegalAll I (I.after t e.1 e.2) es

/-- Every answer was allowed when it was given. -/
def AllowsAll (I : Interface τ ι ο) : τ -> List (ι × ο) -> Prop
  | _, [] => True
  | t, e :: es => I.Allows t e.1 e.2 ∧ AllowsAll I (I.after t e.1 e.2) es

/-- What legal exchanges preserve holds after all of them. -/
theorem replay_invariant {I : Interface τ ι ο} (P : τ -> Prop)
    (hstep : forall t i o, P t -> I.Legal t i -> I.Allows t i o -> P (I.after t i o))
    {t : τ} {es : List (ι × ο)} (ht : P t) (hlegal : I.LegalAll t es)
    (hallows : I.AllowsAll t es) : P (I.replay t es) := by
  induction es generalizing t with
  | nil => exact ht
  | cons e es ih =>
      exact ih (hstep t e.1 e.2 ht hlegal.left hallows.left) hlegal.right hallows.right

end Interface

/-- The exchanges `es` lead the server from the first state to the second. -/
inductive Dialogue {σ ι ο : Type} (srv : Server σ ι ο) :
    σ -> List (ι × ο) -> σ -> Prop where
  | done (s : σ) : Dialogue srv s [] s
  | next {s s' s'' : σ} {i : ι} {o : ο} {es : List (ι × ο)} :
      srv i s = some (o, s') -> Dialogue srv s' es s'' ->
        Dialogue srv s ((i, o) :: es) s''

section Refinement

variable {σ τ ι ο : Type} {I : Interface τ ι ο} {srv : Server σ ι ο}
variable {Rel : σ -> τ -> Prop}

/-- Legal requests are served and allowed answers are given, along a relation of the
states of the server to the abstract objects. -/
def Implements (I : Interface τ ι ο) (srv : Server σ ι ο)
    (Rel : σ -> τ -> Prop) : Prop :=
  forall s t i, Rel s t -> I.Legal t i ->
    exists o s', srv i s = some (o, s') ∧ I.Allows t i o ∧ Rel s' (I.after t i o)

/-- A server that implements an interface gives allowed answers in every dialogue of
legal requests, and its state stays related to the abstract object. -/
theorem Implements.dialogue (h : Implements I srv Rel) {s s' : σ} {t : τ}
    {es : List (ι × ο)} (hrel : Rel s t) (hlegal : I.LegalAll t es)
    (hrun : Dialogue srv s es s') :
    I.AllowsAll t es ∧ Rel s' (I.replay t es) := by
  induction hrun generalizing t with
  | done s => exact ⟨trivial, hrel⟩
  | next hcall _ ih =>
      rcases h _ _ _ hrel hlegal.left with ⟨o, s₁, hserved, hallows, hrel'⟩
      rw [hcall] at hserved
      cases hserved
      rcases ih hrel' hlegal.right with ⟨hrest, hlast⟩
      exact ⟨⟨hallows, hrest⟩, hlast⟩

/-- Every dialogue of legal requests can be continued by every legal request. -/
theorem Implements.responsive (h : Implements I srv Rel) {s s' : σ} {t : τ}
    {es : List (ι × ο)} (hrel : Rel s t) (hlegal : I.LegalAll t es)
    (hrun : Dialogue srv s es s') {i : ι} (hi : I.Legal (I.replay t es) i) :
    exists o s'', srv i s' = some (o, s'') ∧ I.Allows (I.replay t es) i o := by
  rcases h _ _ _ (h.dialogue hrel hlegal hrun).right hi with ⟨o, s'', hserved, hallows, _⟩
  exact ⟨o, s'', hserved, hallows⟩

end Refinement

end Foundation
end Liballo
