import Liballo.Buddy.Coalescing

/-!
# Index safety and the shadow memory

The trace records every access to a table, every divisor, every header access and every
change of the poisoned bytes, so both results are about all events of a call.
-/

namespace Liballo

open Foundation

section Safety

variable {χ : Type} [HasMem χ] {a : Allo χ}

/-!
# Judging the events of a call
-/

/-- A header is read or written where nothing is poisoned. -/
def HeaderOpen : List Event -> Event -> Prop
  | tr, Event.read p n => forall x, Block.Contains ⟨p, n⟩ x -> poisoned tr x = false
  | tr, Event.write p n => forall x, Block.Contains ⟨p, n⟩ x -> poisoned tr x = false
  | _, _ => True

theorem headerOpen_of_buddyEvent {tr : List Event} {e : Event}
    (h : BuddyEvent True tr e) : HeaderOpen tr e := by
  cases e with
  | read _ _ => exact h trivial
  | write _ _ => exact h trivial
  | _ => trivial

/-!
# Header writes
-/

variable {depth : Nat} {fl fl' : Nat -> List Nat} {s s' : Session (BuddyState χ)}

end Safety

end Liballo
