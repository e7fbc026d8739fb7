import Liballo.Arena.Placement
import Liballo.Buffer.Contract

/-!
# Every block of the child is in the list

Whatever a client does, the list of an arena holds every block the child ever
handed out exactly once. Ownership queries and destruction walk this list, so
they see all blocks.
-/

namespace Liballo

open Foundation
open ArenaBlock

section BlockList

variable {χ : Type} [HasMem χ] {a : Allo χ}

/-- The blocks of the list are those that were recorded. -/
theorem ArenaInv.perm_granted {S : Supply a} {base blocks : List Block}
    {s : ArenaState (Recorded χ)} (h : ArenaInv (S.recording base) base s blocks) :
    blocks.Perm s.child.granted ∧ s.child.freed = [] := by
  rcases h.child with ⟨L, hL, _, hfreed, hperm⟩
  have happend : (s.child.granted ++ base).Perm (blocks ++ base) :=
    hperm.trans hL
  exact ⟨((List.perm_append_right_iff base).mp happend).symm, hfreed⟩

end BlockList

/-- A fixed buffer of 256 bytes. -/
def bufOf256 : BufState :=
  { ctx := { buffer := 64, size := 256, offset := 0 }
    mem := Mem.note (Event.poison 64 256) { bytes := fun _ => 0, trace := [] } }

theorem bufOf256_inv : bufContract.Inv bufOf256 [] := by
  have hmake : makeFixedBufAllocator 8 64 256
      { bytes := fun _ => 0, trace := [] } = Except.ok bufOf256 := rfl
  exact bufContract_start (by decide) hmake

end Liballo
