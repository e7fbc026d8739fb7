import Liballo.Client

/-!
# The fixed-buffer allocator

The functions of `allo_buffer.c`. The context holds the buffer, its size and the
offset of the first byte behind the last placed block.
-/

namespace Liballo

open Foundation

structure BufContext where
  buffer : Nat
  size : Nat
  offset : Nat
  deriving DecidableEq, Repr

/-- The managed buffer. -/
def BufContext.region (c : BufContext) : Block :=
  ⟨c.buffer, c.size⟩

structure BufState where
  ctx : BufContext
  mem : Mem

instance : HasMem BufState where
  mem := BufState.mem
  setMem := fun m s => { s with mem := m }
  mem_setMem := by intros; rfl
  setMem_mem := by intros; rfl
  setMem_setMem := by intros; rfl

def bufAllocFn (size : Nat) (s : BufState) : Option (Nat × BufState) :=
  if size = 0 then some (NULL, s)
  else if ¬ s.ctx.offset ≤ s.ctx.size then none
  else
    let alignedOffset := alloAlignUp s.ctx.offset 8
    if alignedOffset > s.ctx.size ∨ size > s.ctx.size - alignedOffset then
      some (NULL, s)
    else
      let ptr := sizeAdd s.ctx.buffer alignedOffset
      some (ptr,
        { ctx := { s.ctx with offset := sizeAdd alignedOffset size }
          mem := s.mem.note (Event.unpoison ptr size) })

def bufContainsFn (ptr : Nat) (s : BufState) : AlloContains :=
  if s.ctx.buffer ≤ ptr ∧ ptr < sizeAdd s.ctx.buffer s.ctx.size then
    AlloContains.yes
  else AlloContains.no

/-- Move the end of the last block to `newSize` bytes behind `ptr`. -/
def bufResizeLast (ptr oldSize newSize : Nat) (s : BufState) : BufState :=
  { ctx := { s.ctx with
      offset := sizeAdd (sizeSub ptr s.ctx.buffer) newSize }
    mem :=
      if newSize > oldSize then
        s.mem.note (Event.unpoison (sizeAdd ptr oldSize) (newSize - oldSize))
      else
        s.mem.note (Event.poison (sizeAdd ptr newSize) (oldSize - newSize)) }

def bufReallocFn (ptr oldSize newSize : Nat) (s : BufState) :
    Option (Nat × BufState) :=
  let isLastAlloc :=
    sizeAdd ptr oldSize = sizeAdd s.ctx.buffer s.ctx.offset
  let fitsInCurrent :=
    sizeAdd (sizeSub ptr s.ctx.buffer) newSize ≤ s.ctx.size
  if isLastAlloc ∧ fitsInCurrent then
    some (ptr, bufResizeLast ptr oldSize newSize s)
  else if newSize ≤ oldSize then some (ptr, s)
  else do
    let (newPtr, s) ← bufAllocFn newSize s
    if newPtr = NULL then some (NULL, s)
    else
      let m ← alloMemcpy newPtr ptr oldSize s.mem
      some (newPtr, { s with mem := m })

def bufFreeFn (ptr size : Nat) (s : BufState) : BufState :=
  if ptr ≠ NULL ∧ bufContainsFn ptr s = AlloContains.yes then
    { s with mem := s.mem.note (Event.poison ptr size) }
  else s

def bufDestroyFn (s : BufState) : BufState :=
  { s with mem := s.mem.note (Event.poison s.ctx.buffer s.ctx.size) }

def bufAllo : Allo BufState where
  alloc := bufAllocFn
  realloc := bufReallocFn
  freeMem := fun ptr size s => some (bufFreeFn ptr size s)
  destroy := some (fun s => some (bufDestroyFn s))
  contains := some (fun ptr s => some (bufContainsFn ptr s))

/-- `ALLO_IS_ALIGNED(ptr, align)` -/
def alloIsAligned (ptr align : Nat) : Prop :=
  ptr &&& (align - 1) = 0

instance (ptr align : Nat) : Decidable (alloIsAligned ptr align) :=
  inferInstanceAs (Decidable (_ = _))

def makeFixedBufAllocator (out buffer size : Nat) (m : Mem) :
    Except AlloError BufState :=
  if out = NULL ∨ buffer = NULL ∨ size = 0 then Except.error AlloError.inval
  else if ¬ alloIsAligned buffer 8 then Except.error AlloError.inval
  else
    Except.ok
      { ctx := { buffer := buffer, size := size, offset := 0 }
        mem := m.note (Event.poison buffer size) }

theorem alloIsAligned_eight {ptr : Nat} :
    alloIsAligned ptr 8 <-> 8 ∣ ptr := by
  have hmask : ptr &&& 7 = ptr % 8 := Nat.and_two_pow_sub_one_eq_mod ptr 3
  simp only [alloIsAligned, Nat.reduceSub, hmask]
  exact (Nat.dvd_iff_mod_eq_zero).symm

end Liballo
