import Liballo.Buddy.Session
import Liballo.Buffer.Contract

/-!
# The tiling invariant

Live and free blocks tile the managed buffer, and the three representations of the
free ones (the implicit complement of the live blocks, the intrusive lists and the
bitset) agree.
-/

namespace Liballo

open Foundation

namespace BuddyContext

end BuddyContext

section Tiling

variable {χ : Type} [HasMem χ] {a : Allo χ}

variable {depth : Nat} {s : Session (BuddyState χ)} {fl : Nat -> List Nat}

end Tiling

end Liballo
