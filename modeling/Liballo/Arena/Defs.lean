import Liballo.Contract

/-!
# The arena allocator

The functions of `allo_arena.c`. Every block obtained from the child starts with a
header of three words: the link, the size of the payload and the offset of the
first unused payload byte.
-/

namespace Liballo

open Foundation

structure ArenaContext where
  first : Nat
  current : Nat
  blockSize : Nat
  deriving DecidableEq, Repr

structure ArenaState (χ : Type) where
  ctx : ArenaContext
  child : χ

/-- `sizeof(arena_block_t)` -/
def sizeofArenaBlock : Nat :=
  24

namespace ArenaBlock

def next (m : Mem) (block : Nat) : Nat :=
  m.word block

def size (m : Mem) (block : Nat) : Nat :=
  m.word (block + 8)

def offset (m : Mem) (block : Nat) : Nat :=
  m.word (block + 16)

def setNext (block v : Nat) (m : Mem) : Mem :=
  m.writeWord block v

def setSize (block v : Nat) (m : Mem) : Mem :=
  m.writeWord (block + 8) v

def setOffset (block v : Nat) (m : Mem) : Mem :=
  m.writeWord (block + 16) v

/-- The header of a new block. -/
def init (block size : Nat) (m : Mem) : Mem :=
  setOffset block 0 (setSize block size (setNext block NULL m))

/-- Link `block` in behind `current`. -/
def splice (current block : Nat) (m : Mem) : Mem :=
  setNext current block (setNext block (next m current) m)

end ArenaBlock

/-- A null-terminated list has fewer nodes than there are addresses; a walk that
takes more steps does not end. -/
def walkBound : Nat :=
  2 ^ 64

section Arena

variable {χ : Type} [HasMem χ]

instance : HasMem (ArenaState χ) where
  mem := fun s => mem s.child
  setMem := fun m s => { s with child := setMem m s.child }
  mem_setMem := by simp
  setMem_mem := by simp
  setMem_setMem := by simp

/-- Whether `ptr` lies in the payload of `block`. -/
def arenaBlockHas (m : Mem) (block ptr : Nat) : Bool :=
  let blockStart := sizeAdd block sizeofArenaBlock
  let blockEnd := sizeAdd blockStart (ArenaBlock.size m block)
  decide (blockStart ≤ ptr ∧ ptr < blockEnd)

def arenaScan (m : Mem) (current ptr : Nat) : Nat -> Nat -> Option AlloContains
  | 0, _ => none
  | fuel + 1, curr =>
      if curr = NULL then some AlloContains.no
      else if curr ≠ current ∧ arenaBlockHas m curr ptr then
        some AlloContains.yes
      else arenaScan m current ptr fuel (ArenaBlock.next m curr)

def arenaContainsFn (ptr : Nat) (s : ArenaState χ) : Option AlloContains :=
  if arenaBlockHas (mem s) s.ctx.current ptr then some AlloContains.yes
  else arenaScan (mem s) s.ctx.current ptr walkBound s.ctx.first

def newArenaBlock (child : Allo χ) (size : Nat) (w : χ) : Option (Nat × χ) := do
  let (block, w) ← alloAlloc child (sizeAdd sizeofArenaBlock size) w
  if block = NULL then some (NULL, w)
  else some (block, modifyMem (fun m =>
    (ArenaBlock.init block size m).note
      (Event.poison (sizeAdd block sizeofArenaBlock) size)) w)

/-- Insert `block` after the current block. -/
def arenaSplice (block : Nat) (s : ArenaState χ) : ArenaState χ :=
  modifyMem (ArenaBlock.splice s.ctx.current block) s

/-- Hand out `size` bytes of the current block from `alignedOffset` on. -/
def arenaBump (alignedOffset size : Nat) (s : ArenaState χ) :
    Nat × ArenaState χ :=
  let ptr := sizeAdd (sizeAdd s.ctx.current sizeofArenaBlock) alignedOffset
  (ptr, modifyMem (fun m =>
    (ArenaBlock.setOffset s.ctx.current (sizeAdd alignedOffset size) m).note
      (Event.unpoison ptr size)) s)

def arenaAlignedOffset (s : ArenaState χ) : Nat :=
  alloAlignUp (ArenaBlock.offset (mem s) s.ctx.current) 8

def arenaAllocFn (child : Allo χ) (size : Nat) (s : ArenaState χ) :
    Option (Nat × ArenaState χ) :=
  if size = 0 then some (NULL, s)
  else
    let alignedOffset := arenaAlignedOffset s
    if size > s.ctx.blockSize then do
      let (block, w) ← newArenaBlock child size s.child
      let s := { s with child := w }
      if block = NULL then some (NULL, s)
      else
        let ptr := sizeAdd block sizeofArenaBlock
        some (ptr, modifyMem (fun m =>
          (ArenaBlock.setOffset block size m).note (Event.unpoison ptr size))
            (arenaSplice block s))
    else if sizeAdd alignedOffset size >
        ArenaBlock.size (mem s) s.ctx.current then do
      let (block, w) ← newArenaBlock child s.ctx.blockSize s.child
      let s := { s with child := w }
      if block = NULL then some (NULL, s)
      else
        let s := arenaSplice block s
        some (arenaBump 0 size { s with ctx := { s.ctx with current := block } })
    else some (arenaBump alignedOffset size s)

/-- The offset of `ptr` in the current block. -/
def arenaOffsetWithoutThis (ptr : Nat) (s : ArenaState χ) : Nat :=
  sizeSub ptr (sizeAdd s.ctx.current sizeofArenaBlock)

/-- The block at `ptr` ends where the used part of the current block does. -/
def arenaIsLast (ptr oldSize : Nat) (s : ArenaState χ) : Bool :=
  let blockStart := sizeAdd s.ctx.current sizeofArenaBlock
  let lastAllocEnd :=
    sizeAdd blockStart (ArenaBlock.offset (mem s) s.ctx.current)
  decide (sizeAdd ptr oldSize = lastAllocEnd ∧ ptr ≥ blockStart)

def arenaFitsInCurrent (ptr newSize : Nat) (s : ArenaState χ) : Bool :=
  decide (sizeAdd (arenaOffsetWithoutThis ptr s) newSize ≤
    ArenaBlock.size (mem s) s.ctx.current)

def arenaResizeLast (ptr oldSize newSize : Nat) (s : ArenaState χ) :
    ArenaState χ :=
  modifyMem (fun m =>
    (ArenaBlock.setOffset s.ctx.current
      (sizeAdd (arenaOffsetWithoutThis ptr s) newSize) m).note
        (if newSize > oldSize then
          Event.unpoison (sizeAdd ptr oldSize) (newSize - oldSize)
        else Event.poison (sizeAdd ptr newSize) (oldSize - newSize))) s

def arenaReallocFn (child : Allo χ) (ptr oldSize newSize : Nat)
    (s : ArenaState χ) : Option (Nat × ArenaState χ) :=
  if arenaIsLast ptr oldSize s ∧ arenaFitsInCurrent ptr newSize s then
    some (ptr, arenaResizeLast ptr oldSize newSize s)
  else if newSize ≤ oldSize then some (ptr, s)
  else do
    let (newPtr, s) ← arenaAllocFn child newSize s
    if newPtr = NULL then some (NULL, s)
    else
      let m ← alloMemcpy newPtr ptr oldSize (mem s)
      some (newPtr, setMem m s)

def arenaFreeFn (ptr size : Nat) (s : ArenaState χ) : Option (ArenaState χ) :=
  if ptr = NULL ∨ size = 0 then some s
  else do
    let answer ← arenaContainsFn ptr s
    if answer = AlloContains.no then some s
    else some (modifyMem (Mem.note (Event.poison ptr size)) s)

def arenaFreeBlocks (child : Allo χ) : Nat -> Nat -> χ -> Option χ
  | 0, _, _ => none
  | fuel + 1, curr, w =>
      if curr = NULL then some w
      else do
        let next := ArenaBlock.next (mem w) curr
        let w ← alloFree child curr
          (sizeAdd sizeofArenaBlock (ArenaBlock.size (mem w) curr)) w
        arenaFreeBlocks child fuel next w

def arenaDestroyFn (child : Allo χ) (s : ArenaState χ) :
    Option (ArenaState χ) := do
  let w ← arenaFreeBlocks child walkBound s.ctx.first s.child
  some { s with child := w }

def arenaAllo (child : Allo χ) : Allo (ArenaState χ) where
  alloc := arenaAllocFn child
  realloc := arenaReallocFn child
  freeMem := arenaFreeFn
  destroy := some (arenaDestroyFn child)
  contains := some arenaContainsFn

/-- A missing child stands for the null pointer. -/
def makeArenaAllocator (out : Nat) (child : Option (Allo χ)) (blockSize : Nat)
    (w : χ) : Option (Made (ArenaState χ) χ) :=
  match child with
  | none => some (Made.failed AlloError.inval w)
  | some child =>
      if out = NULL ∨ blockSize = 0 then some (Made.failed AlloError.inval w)
      else do
        let (first, w) ← newArenaBlock child blockSize w
        if first = NULL then some (Made.failed AlloError.nomem w)
        else some (Made.ok
          { ctx := { first := first, current := first, blockSize := blockSize }
            child := w })

end Arena

end Liballo
