import Mathlib.Data.List.Induction
import Liballo.Foundation.Locking

/-!
# Threads that make only permitted calls

Which calls a thread may make depends on the calls it made before and their answers, and
on nothing it cannot know. The calls on a guarded object are permitted also in the order
in which they take effect, so what permitted calls preserve one by one holds for all
threads together.
-/

namespace Liballo
namespace Foundation

section Discipline

variable {ι κ ν ω ρ : Type} [DecidableEq ι] [DecidableEq κ]

/-- `Permit t calls c` says that the thread `t` may make the call `c` after `calls`. -/
def threadsWithin (Permit : ι -> List (Done ι ω ρ) -> ω -> Prop)
    (object : ω -> Code κ ν ρ) : Machine (World ι κ ν ω ρ) (Act ι ω) where
  Legal := fun w act =>
    match act with
    | Act.call t c => Permit t (callsOf t w.returned) c
    | Act.step _ => True
  exec := World.exec object

variable {Permit : ι -> List (Done ι ω ρ) -> ω -> Prop} {object : ω -> Code κ ν ρ}
variable {m : κ -> ν} {w w' : World ι κ ν ω ρ} {order : List (Done ι ω ρ)}

/-- Permitted runs are runs. -/
theorem reaches_threadsOn {init : World ι κ ν ω ρ}
    (h : (threadsWithin Permit object).Reaches init w) :
    (threadsOn object).Reaches init w := by
  induction h with
  | start => exact Machine.Reaches.start
  | step _ _ hexec ih => exact ih.step trivial hexec

/-!
# Permitted calls
-/

/-- Every call was permitted after those that its thread had made before. -/
inductive Within (Permit : ι -> List (Done ι ω ρ) -> ω -> Prop) :
    List (Done ι ω ρ) -> Prop where
  | nil : Within Permit []
  | snoc {order : List (Done ι ω ρ)} {d : Done ι ω ρ} :
      Within Permit order -> Permit d.thread (callsOf d.thread order) d.call ->
        Within Permit (order ++ [d])

@[simp] theorem callsOf_callsOf (t : ι) (L : List (Done ι ω ρ)) :
    callsOf t (callsOf t L) = callsOf t L := by
  simp [callsOf]

omit [DecidableEq κ] in
theorem within_snoc {d : Done ι ω ρ} (h : Within Permit (order ++ [d])) :
    Within Permit order ∧ Permit d.thread (callsOf d.thread order) d.call := by
  generalize hlist : order ++ [d] = list at h
  cases h with
  | nil => exact absurd hlist (List.append_ne_nil_of_right_ne_nil _ (List.cons_ne_nil _ _))
  | snoc hbefore hpermit =>
      rcases List.append_inj' hlist rfl with ⟨rfl, hd⟩
      cases hd
      exact ⟨hbefore, hpermit⟩

omit [DecidableEq κ] in
/-- It is enough to look at each thread alone. -/
theorem within_of_callsOf (h : forall t, Within Permit (callsOf t order)) :
    Within Permit order := by
  induction order using List.reverseRecOn with
  | nil => exact Within.nil
  | append_singleton order d ih =>
      have hself := h d.thread
      rw [show order ++ [d] = order ++ [⟨d.thread, d.call, d.answer⟩] from rfl,
        callsOf_snoc_self] at hself
      rcases within_snoc hself with ⟨hbefore, hpermit⟩
      rw [callsOf_callsOf] at hpermit
      refine Within.snoc (ih fun t => ?_) hpermit
      by_cases ht : t = d.thread
      · rw [ht]
        exact hbefore
      · have hother := h t
        rw [show order ++ [d] = order ++ [⟨d.thread, d.call, d.answer⟩] from rfl,
          callsOf_snoc_ne ht] at hother
        exact hother

/-- Every call that came back and every call that is being made was permitted. -/
structure Disciplined (Permit : ι -> List (Done ι ω ρ) -> ω -> Prop)
    (w : World ι κ ν ω ρ) : Prop where
  past : forall t, Within Permit (callsOf t w.returned)
  now : forall t c code, w.threads t = Thread.running c code ->
    Permit t (callsOf t w.returned) c

omit [DecidableEq κ] in
/-- A thread goes on with a call. -/
theorem Disciplined.resume (h : Disciplined Permit w) {t : ι} {c : ω}
    {code : Code κ ν ρ} (hpermit : Permit t (callsOf t w.returned) c)
    (hthreads : w'.threads = Function.update w.threads t (Thread.running c code))
    (hreturned : w'.returned = w.returned) : Disciplined Permit w' := by
  constructor
  · intro u
    rw [hreturned]
    exact h.past u
  · intro u c' code' hrun
    rw [hreturned]
    rw [hthreads] at hrun
    by_cases hu : u = t
    · subst hu
      rw [Function.update_self] at hrun
      cases hrun
      exact hpermit
    · rw [Function.update_of_ne hu] at hrun
      exact h.now u c' code' hrun

omit [DecidableEq κ] in
/-- A call comes back. -/
theorem Disciplined.answer (h : Disciplined Permit w) {t : ι} {c : ω} {a : ρ}
    (hpermit : Permit t (callsOf t w.returned) c)
    (hthreads : w'.threads = Function.update w.threads t Thread.idle)
    (hreturned : w'.returned = w.returned ++ [⟨t, c, a⟩]) : Disciplined Permit w' := by
  constructor
  · intro u
    rw [hreturned]
    by_cases hu : u = t
    · subst hu
      rw [callsOf_snoc_self]
      refine Within.snoc (h.past u) ?_
      rw [callsOf_callsOf]
      exact hpermit
    · rw [callsOf_snoc_ne hu]
      exact h.past u
  · intro u c' code' hrun
    rw [hthreads] at hrun
    by_cases hu : u = t
    · subst hu
      rw [Function.update_self] at hrun
      cases hrun
    · rw [Function.update_of_ne hu] at hrun
      rw [hreturned, callsOf_snoc_ne hu]
      exact h.now u c' code' hrun

theorem Disciplined.next (h : Disciplined Permit w) {t : ι} {c : ω} {code : Code κ ν ρ}
    (hrun : w.threads t = Thread.running c code) (hnext : w.next t c code = some w') :
    Disciplined Permit w' := by
  have hpermit := h.now t c code hrun
  cases code with
  | ret a =>
      cases hnext
      exact h.answer hpermit rfl rfl
  | abort => cases hnext
  | read x next =>
      cases hnext
      exact h.resume hpermit rfl rfl
  | write x v next =>
      cases hnext
      exact h.resume hpermit rfl rfl
  | lock next =>
      simp only [World.next] at hnext
      split at hnext
      · cases hnext
        exact h.resume hpermit rfl rfl
      · cases hnext
  | unlock next =>
      simp only [World.next] at hnext
      split at hnext
      · cases hnext
        exact h.resume hpermit rfl rfl
      · cases hnext

theorem disciplined_of_reaches
    (hreach : (threadsWithin Permit object).Reaches (World.start m) w) :
    Disciplined Permit w := by
  apply hreach.invariant (Disciplined Permit)
  · exact ⟨fun _ => Within.nil, fun _ _ _ hrun => by cases hrun⟩
  · intro w act w' h hlegal hexec
    cases act with
    | call t c =>
        simp only [threadsWithin, World.exec] at hexec
        split at hexec
        · cases hexec
          exact h.resume hlegal rfl rfl
        · cases hexec
    | step t =>
        simp only [threadsWithin, World.exec] at hexec
        split at hexec
        · cases hexec
        · rename_i c code hrun
          exact h.next hrun hexec

/-!
# What permitted calls preserve
-/

variable {spec : ω -> (κ -> ν) -> Option (ρ × (κ -> ν))} {m' : κ -> ν}

omit [DecidableEq ι] [DecidableEq κ] in
/-- A call is over once its code is an answer. -/
theorem Thread.answered_cases (t : ι) (T : Thread κ ν ω ρ) :
    T.answered t = [] ∨ exists c a, T = Thread.running c (Code.ret a) := by
  cases T with
  | idle => exact Or.inl rfl
  | running c code =>
      cases code with
      | ret a => exact Or.inr ⟨c, a, rfl⟩
      | abort | read _ _ | write _ _ _ | lock _ | unlock _ => exact Or.inl rfl

/-- The calls were permitted also in the order in which they took effect. -/
theorem Linearized.within (h : Linearized spec m w order m') (hd : Disciplined Permit w) :
    Within Permit order := by
  apply within_of_callsOf
  intro t
  rw [h.programs t]
  rcases (w.threads t).answered_cases t with hnone | ⟨c, a, hthread⟩
  · rw [hnone, List.append_nil]
    exact hd.past t
  · rw [hthread]
    refine Within.snoc (hd.past t) ?_
    rw [callsOf_callsOf]
    exact hd.now t c _ hthread

omit [DecidableEq κ] in
/-- What permitted calls preserve one by one. -/
theorem Sequential.invariant (Inv : List (Done ι ω ρ) -> (κ -> ν) -> Prop)
    (hinit : Inv [] m)
    (hstep : forall order d m' m'', Inv order m' ->
      Permit d.thread (callsOf d.thread order) d.call ->
        spec d.call m' = some (d.answer, m'') -> Inv (order ++ [d]) m'')
    (h : Sequential spec m order m') (hwithin : Within Permit order) : Inv order m' := by
  induction h with
  | nil => exact hinit
  | snoc _ hcall ih =>
      rcases within_snoc hwithin with ⟨hbefore, hpermit⟩
      exact hstep _ _ _ _ (ih hbefore) hpermit hcall

/-!
# Nobody gets stuck
-/

/-- The code of a call that the store can take is not at its end. -/
theorem Code.Bare.next {body : Code κ ν ρ} (hbare : body.Bare) {t : ι} {c : ω}
    (hholder : w.holder = some t) (hrun : body.run w.store ≠ none) :
    exists w', w.next t c (body.bind unlockAndReturn) = some w' := by
  cases hbare with
  | ret a => exact ⟨_, if_pos hholder⟩
  | abort => exact absurd rfl hrun
  | read _ => exact ⟨_, rfl⟩
  | write _ => exact ⟨_, rfl⟩

/-- When the store can take every permitted call, a thread that holds the lock can go on,
and so can every other one while nobody holds it. -/
theorem Linearized.progress (h : Linearized spec m w order m') (hd : Disciplined Permit w)
    (htotal : forall t c, Permit t (callsOf t order) c -> spec c m' ≠ none)
    {t : ι} {c : ω} {code : Code κ ν ρ} (hrun : w.threads t = Thread.running c code)
    (hturn : w.holder = none ∨ w.holder = some t) :
    exists w', World.exec object (Act.step t) w = some w' := by
  have hplaced := h.placed t
  rw [hrun] at hplaced
  simp only [World.exec, hrun]
  cases hplaced with
  | waiting hother hbare hspec =>
      have hfree : w.holder = none := hturn.resolve_right hother
      exact ⟨_, if_pos hfree⟩
  | inside hholder hbare hspec =>
      apply hbare.next hholder
      rw [hspec]
      apply htotal t c
      have hcalls := h.programs t
      have hundecided : (w.threads t).answered t = [] := by
        rw [hrun]
        cases hbare with
        | ret _ | abort | read _ | write _ => rfl
      rw [hundecided, List.append_nil] at hcalls
      rw [hcalls]
      exact hd.now t c _ hrun
  | answered _ => exact ⟨_, rfl⟩

end Discipline

end Foundation
end Liballo
