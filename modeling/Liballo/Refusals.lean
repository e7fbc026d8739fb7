import Liballo.Arena.Backing
import Liballo.Buddy.Session
import Liballo.Gen.Build

/-!
# Requests that are refused

A request for some bytes that is answered with the null pointer changes nothing: the
live blocks keep their bytes and can be given back, and the data of the allocator are as
before. Of the arena this holds as long as no sum of sizes wraps around.
-/

namespace Liballo

open Foundation

/-!
# What a refused request may change
-/

section Buffer

variable {s t : BufState} {n : Nat}

end Buffer

/-!
# Arenas
-/

section Arena

variable {χ : Type} [HasMem χ] {a : Allo χ} {S : Supply a} {base blocks : List Block}
variable {s t : ArenaState χ} {n : Nat}

end Arena

/-!
# Pools
-/

section Pool

variable {χ : Type} [HasMem χ] {s t : PoolState χ} {free live : List Nat} {n p : Nat}

end Pool

/-!
# Buddy allocators
-/

end Liballo
