import Liballo.Buddy.Session
import Liballo.Buffer.Contract

/-!
# A free right after an allocation

An allocation cuts its block out of the first block of the nearest list that is not
empty, and the lists in between are empty. The free merges the block with the other parts
again, level by level, until it is whole, and puts it where it was.
-/

namespace Liballo

open Foundation

section Undo

variable {χ : Type} [HasMem χ] {a : Allo χ} {asan : Prop} {depth : Nat}
variable {s s₁ s₂ : BuddyState χ} {fl fl' fl'' : Nat -> List Nat} {us : List Node}
variable {n k m : Node} {size p : Nat}

variable {x : Session (BuddyState χ)}

end Undo

end Liballo
