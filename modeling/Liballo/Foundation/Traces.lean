import Liballo.Foundation.Blocks
import Liballo.Foundation.Memory

/-!
# Reading a trace

New events are judged by the events before them, and the poisoned bytes are those the
trace marked so last.
-/

namespace Liballo
namespace Foundation

/-!
# Judging new events by the past

A predicate that judges an event by the trace before it. It composes along the steps
of a call.
-/

def Judged (P : List Event -> Event -> Prop) (old : List Event) :
    List Event -> Prop
  | [] => True
  | e :: es => Judged P old es ∧ P (es ++ old) e

def Traced (P : List Event -> Event -> Prop) (m m' : Mem) : Prop :=
  exists es, m'.trace = es ++ m.trace ∧ Judged P m.trace es

theorem judged_append {P : List Event -> Event -> Prop}
    {old es es' : List Event} (h : Judged P old es)
    (h' : Judged P (es ++ old) es') : Judged P old (es' ++ es) := by
  induction es' with
  | nil => exact h
  | cons e es' ih =>
      refine ⟨ih h'.left, ?_⟩
      show P ((es' ++ es) ++ old) e
      rw [List.append_assoc]
      exact h'.right

/-- One event in the middle. -/
theorem judged_middle {P : List Event -> Event -> Prop} {old es es' : List Event}
    {e : Event} (h : Judged P old (es' ++ e :: es)) : P (es ++ old) e := by
  induction es' with
  | nil => exact h.right
  | cons f es' ih => exact ih h.left

namespace Traced

variable {P Q : List Event -> Event -> Prop} {m m' m'' : Mem}

theorem refl (P : List Event -> Event -> Prop) (m : Mem) : Traced P m m :=
  ⟨[], rfl, trivial⟩

theorem trans (h : Traced P m m') (h' : Traced P m' m'') : Traced P m m'' := by
  rcases h with ⟨es, hes, hj⟩
  rcases h' with ⟨es', hes', hj'⟩
  rw [hes] at hes' hj'
  exact ⟨es' ++ es, by rw [hes', List.append_assoc], judged_append hj hj'⟩

/-- One more event. -/
theorem event {e : Event} (htrace : m'.trace = e :: m.trace)
    (he : P m.trace e) : Traced P m m' :=
  ⟨[e], htrace, trivial, he⟩

theorem of_trace_eq (h : m'.trace = m.trace) : Traced P m m' :=
  ⟨[], h, trivial⟩

theorem mono (hPQ : forall tr e, P tr e -> Q tr e) (h : Traced P m m') :
    Traced Q m m' := by
  rcases h with ⟨es, hes, hj⟩
  refine ⟨es, hes, ?_⟩
  clear hes
  induction es with
  | nil => trivial
  | cons e es ih => exact ⟨ih hj.left, hPQ _ _ hj.right⟩

theorem and (h : Traced P m m') (h' : Traced Q m m') :
    Traced (fun tr e => P tr e ∧ Q tr e) m m' := by
  rcases h with ⟨es, hes, hj⟩
  rcases h' with ⟨es', hes', hj'⟩
  rw [List.append_cancel_right (hes'.symm.trans hes)] at hj'
  refine ⟨es, hes, ?_⟩
  clear hes hes'
  induction es with
  | nil => trivial
  | cons e es ih => exact ⟨ih hj.left hj'.left, hj.right, hj'.right⟩

/-- What is judged of all events is judged of one between two others. -/
theorem middle {Q' : List Event -> Event -> Prop} {m₁ m₂ : Mem} {e : Event}
    (h : Traced P m m') (hbefore : Traced Q m m₁) (hevent : m₂.trace = e :: m₁.trace)
    (hafter : Traced Q' m₂ m') : P m₁.trace e := by
  rcases h with ⟨es, htrace, hjudged⟩
  rcases hbefore with ⟨es₁, htrace₁, _⟩
  rcases hafter with ⟨es₂, htrace₂, _⟩
  have hparts : es ++ m.trace = (es₂ ++ e :: es₁) ++ m.trace := by
    rw [← htrace, htrace₂, hevent, htrace₁, List.append_assoc]
    rfl
  rw [List.append_cancel_right hparts] at hjudged
  rw [htrace₁]
  exact judged_middle hjudged

/-- Local accesses, whatever the past. -/
theorem of_wrote {A : Nat -> Nat -> Prop} (h : Wrote A m m')
    (hP : forall tr e, e.WritesOnly A -> P tr e) : Traced P m m' := by
  rcases h.trace with ⟨es, hes, hall⟩
  refine ⟨es, hes, ?_⟩
  clear hes
  induction es with
  | nil => trivial
  | cons e es ih =>
      have hrest := ih (fun f hf => hall f (List.mem_cons_of_mem e hf))
      exact ⟨hrest, hP _ e (hall e List.mem_cons_self)⟩

end Traced

/-!
# Poisoned bytes
-/

/-- Whether a byte is marked as not to be accessed. -/
def poisoned : List Event -> Nat -> Bool
  | [], _ => false
  | Event.poison a n :: tr, x => if a ≤ x ∧ x < a + n then true else poisoned tr x
  | Event.unpoison a n :: tr, x =>
      if a ≤ x ∧ x < a + n then false else poisoned tr x
  | _ :: tr, x => poisoned tr x

/-- No byte of the block is poisoned. -/
def Unpoisoned (m : Mem) (b : Block) : Prop :=
  forall x, b.Contains x -> poisoned m.trace x = false

theorem poisoned_poison (a n : Nat) (tr : List Event) (x : Nat) :
    poisoned (Event.poison a n :: tr) x =
      if Block.Contains ⟨a, n⟩ x then true else poisoned tr x := rfl

theorem poisoned_unpoison (a n : Nat) (tr : List Event) (x : Nat) :
    poisoned (Event.unpoison a n :: tr) x =
      if Block.Contains ⟨a, n⟩ x then false else poisoned tr x := rfl

theorem Unpoisoned.congr {m m' : Mem} {b : Block} (h : Unpoisoned m b)
    (heq : poisoned m'.trace = poisoned m.trace) : Unpoisoned m' b := by
  intro x hx
  rw [heq]
  exact h x hx

theorem Unpoisoned.inside {m : Mem} {b d : Block} (h : Unpoisoned m d)
    (hb : b.Inside d) : Unpoisoned m b :=
  fun x hx => h x (hb.contains hx)

end Foundation
end Liballo
