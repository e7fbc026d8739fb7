import Mathlib.Logic.Basic

/-!
# Machines and their reachable states

A machine has steps that its environment may request in a state and an executor
that carries a requested step out, or fails. A property of the initial state
that every requested step keeps holds in every reachable state.
-/

namespace Liballo
namespace Foundation

structure Machine (σ ω : Type) where
  Legal : σ -> ω -> Prop
  exec : ω -> σ -> Option σ

namespace Machine

variable {σ ω : Type} {M : Machine σ ω} {init s s' : σ}

inductive Reaches (M : Machine σ ω) (init : σ) : σ -> Prop where
  | start : Reaches M init init
  | step {s s' : σ} {op : ω} :
      Reaches M init s -> M.Legal s op -> M.exec op s = some s' ->
        Reaches M init s'

/-- The invariant rule. -/
theorem Reaches.invariant (Inv : σ -> Prop) (hinit : Inv init)
    (hstep : forall s op s', Inv s -> M.Legal s op ->
      M.exec op s = some s' -> Inv s')
    (h : M.Reaches init s) : Inv s := by
  induction h with
  | start => exact hinit
  | step _ hlegal hexec ih => exact hstep _ _ _ ih hlegal hexec

/-- The same rule for machines whose requested steps succeed in every state that
meets the invariant. -/
theorem Reaches.invariant_of_step (Inv : σ -> Prop) (hinit : Inv init)
    (hstep : forall s op, Inv s -> M.Legal s op ->
      exists s', M.exec op s = some s' ∧ Inv s')
    (h : M.Reaches init s) : Inv s := by
  refine h.invariant Inv hinit ?_
  intro s op s' hs hlegal hexec
  rcases hstep s op hs hlegal with ⟨t, ht, hinv⟩
  rw [hexec] at ht
  cases ht
  exact hinv

end Machine

end Foundation
end Liballo
