import Liballo.Contract
import Liballo.Foundation.BitLength

/-!
# The buddy allocator

The functions of `allo_buddy.c`. The headers of free blocks lie in the managed
buffer. The three tables are kept in the context, which records where the child put
them, and an access to entry `i` of a table is traced as an index.
-/

namespace Liballo

open Foundation

/-!
# Orders and bits
-/

/-- The number of leading zero bits of a positive 64-bit number. -/
def clzll (x : Nat) : Nat :=
  63 - Nat.log2 x

def getOrder (size : Nat) : Nat :=
  if size ≤ 1 then 0 else 64 - clzll (size - 1)

/-- `getOrder` where the compiler cannot count leading zeros. -/
def getOrderPortable (size : Nat) : Nat :=
  if size ≤ 1 then 0
  else
    let s := (size - 1, 0)
    let s := shiftStep 0xFFFFFFFF00000000 32 s
    let s := shiftStep 0xFFFF0000 16 s
    let s := shiftStep 0xFF00 8 s
    let s := shiftStep 0xF0 4 s
    let s := shiftStep 0xC 2 s
    let s := shiftStep 0x2 1 s
    if s.1 &&& 0x1 ≠ 0 then s.2 + 1 else s.2

def nodeIndex (level index : Nat) : Nat :=
  2 ^ level + index - 1

def setBit (bitset : Nat -> UInt8) (bit : Nat) : Nat -> UInt8 :=
  Function.update bitset (bit / 8)
    (bitset (bit / 8) ||| (1 <<< UInt8.ofNat (bit % 8)))

def clearBit (bitset : Nat -> UInt8) (bit : Nat) : Nat -> UInt8 :=
  Function.update bitset (bit / 8)
    (bitset (bit / 8) &&& ~~~(1 <<< UInt8.ofNat (bit % 8)))

def getBit (bitset : Nat -> UInt8) (bit : Nat) : UInt8 :=
  (bitset (bit / 8) >>> UInt8.ofNat (bit % 8)) &&& 1

/-!
# The context
-/

/-- `sizeof(buddy_node_t)` -/
def sizeofBuddyNode : Nat :=
  16

structure BuddyContext where
  buffer : Nat
  totalSize : Nat
  minBlockSize : Nat
  maxOrder : Nat
  freeLists : Nat -> Nat
  bitset : Nat -> UInt8
  blockOrders : Nat -> UInt8
  freeListsPtr : Nat
  bitsetPtr : Nat
  blockOrdersPtr : Nat
  ownBuffer : Bool

namespace BuddyContext

variable (c : BuddyContext)

/-- The number of levels is an `int` and may be negative for tiny totals. -/
def numLevels : Int :=
  (c.maxOrder : Int) - getOrder c.minBlockSize + 1

def freeListsCount : Nat :=
  sizeAdd (c.numLevels % sizeMod).toNat 1

def bitBytes : Nat :=
  sizeAdd (sizeMul (c.totalSize / c.minBlockSize) 2) 7 / 8

def blockOrdersLen : Nat :=
  c.totalSize / c.minBlockSize

/-- The order of the block that serves a request. -/
def order (size : Nat) : Nat :=
  if getOrder size < getOrder c.minBlockSize then getOrder c.minBlockSize
  else getOrder size

/-- The size of the blocks of a level. -/
def levelSize (level : Nat) : Nat :=
  c.totalSize >>> level

/-- Where block `index` of a level lies. -/
def blockAt (level index : Nat) : Nat :=
  sizeAdd c.buffer (sizeMul index (c.levelSize level))

end BuddyContext

namespace BuddyNode

def next (m : Mem) (node : Nat) : Nat :=
  m.word node

def prev (m : Mem) (node : Nat) : Nat :=
  m.word (node + 8)

def setNext (node v : Nat) (m : Mem) : Mem :=
  m.writeWord node v

def setPrev (node v : Nat) (m : Mem) : Mem :=
  m.writeWord (node + 8) v

/-- Link `node` in before `head`. -/
def linkIn (node head : Nat) (m : Mem) : Mem :=
  let m := setPrev node NULL (setNext node head m)
  if head = NULL then m else setPrev head node m

/-- Link the node between `before` and `after` out. -/
def linkOut (before after : Nat) (m : Mem) : Mem :=
  let m := if before = NULL then m else setNext before after m
  if after = NULL then m else setPrev after before m

end BuddyNode

structure BuddyState (χ : Type) where
  self : Nat
  ctx : BuddyContext
  child : χ

section Buddy

variable {χ : Type} [HasMem χ]

instance : HasMem (BuddyState χ) where
  mem := fun s => mem s.child
  setMem := fun m s => { s with child := setMem m s.child }
  mem_setMem := by simp
  setMem_mem := by simp
  setMem_setMem := by simp

namespace BuddyState

def note (e : Event) (s : BuddyState χ) : BuddyState χ :=
  modifyMem (Mem.note e) s

/-- An access to the allocator object. -/
def touch (s : BuddyState χ) : BuddyState χ :=
  s.note (Event.touch s.self sizeofAllo)

def setFreeList (level node : Nat) (s : BuddyState χ) : BuddyState χ :=
  { s with
    ctx := { s.ctx with
      freeLists := Function.update s.ctx.freeLists level node } }.note
    (Event.index level s.ctx.freeListsCount)

def setBit (bit : Nat) (s : BuddyState χ) : BuddyState χ :=
  { s with ctx := { s.ctx with bitset := Liballo.setBit s.ctx.bitset bit } }.note
    (Event.index (bit / 8) s.ctx.bitBytes)

def clearBit (bit : Nat) (s : BuddyState χ) : BuddyState χ :=
  { s with ctx := { s.ctx with bitset := Liballo.clearBit s.ctx.bitset bit } }.note
    (Event.index (bit / 8) s.ctx.bitBytes)

def setBlockOrder (i level : Nat) (s : BuddyState χ) : BuddyState χ :=
  { s with
    ctx := { s.ctx with
      blockOrders := Function.update s.ctx.blockOrders i (UInt8.ofNat level) } }.note
    (Event.index i s.ctx.blockOrdersLen)

end BuddyState

/-!
# The free lists
-/

def listPush (level node : Nat) (s : BuddyState χ) : BuddyState χ :=
  let head := s.ctx.freeLists level
  let s := s.note (Event.index level s.ctx.freeListsCount)
  (modifyMem (BuddyNode.linkIn node head) s).setFreeList level node

def listRemove (level node : Nat) (s : BuddyState χ) : BuddyState χ :=
  let prev := BuddyNode.prev (mem s) node
  let next := BuddyNode.next (mem s) node
  let s := s.note (Event.read node sizeofBuddyNode)
  let s := if prev = NULL then s.setFreeList level next else s
  modifyMem (BuddyNode.linkOut prev next) s

/-!
# Allocation
-/

/-- The nearest level from `level` up that has a free block. -/
def scanLevels : Nat -> BuddyState χ -> Option Nat × BuddyState χ
  | 0, s =>
      let s := s.note (Event.index 0 s.ctx.freeListsCount)
      if s.ctx.freeLists 0 = NULL then (none, s) else (some 0, s)
  | level + 1, s =>
      let s := s.note (Event.index (level + 1) s.ctx.freeListsCount)
      if s.ctx.freeLists (level + 1) = NULL then scanLevels level s
      else (some (level + 1), s)

/-- Split the block at `node` the given number of times; it has the given level and
index. -/
def splitLoop : Nat -> Nat -> Nat -> Nat -> BuddyState χ -> BuddyState χ
  | 0, _, _, _, s => s
  | steps + 1, level, node, index, s =>
      let level := level + 1
      let index := sizeMul index 2
      let buddy := sizeAdd node (s.ctx.levelSize level)
      let s := s.note (Event.unpoison buddy sizeofBuddyNode)
      let s := listPush level buddy s
      let s := s.setBit (nodeIndex level (sizeAdd index 1))
      let s := s.clearBit (nodeIndex level index)
      splitLoop steps level node index s

def buddyAllocFn (size : Nat) (s : BuddyState χ) : Nat × BuddyState χ :=
  if size = 0 then (NULL, s)
  else
    let s := s.touch
    let order := s.ctx.order size
    -- The target level is an `int`.
    if s.ctx.maxOrder < order then (NULL, s)
    else
      let targetLevel := s.ctx.maxOrder - order
      match scanLevels targetLevel s with
      | (none, s) => (NULL, s)
      | (some level, s) =>
          let node := s.ctx.freeLists level
          let s := s.note (Event.unpoison node sizeofBuddyNode)
          let s := listRemove level node s
          let s := s.note (Event.divide (s.ctx.levelSize level))
          let index := sizeSub node s.ctx.buffer / s.ctx.levelSize level
          let s := s.clearBit (nodeIndex level index)
          let s := splitLoop (targetLevel - level) level node index s
          let s := s.note (Event.divide s.ctx.minBlockSize)
          let blockIdx := sizeSub node s.ctx.buffer / s.ctx.minBlockSize
          let s := s.setBlockOrder blockIdx targetLevel
          (node, s.note (Event.unpoison node (s.ctx.levelSize targetLevel)))

def buddyContainsFn (ptr : Nat) (s : BuddyState χ) : AlloContains :=
  if ptr ≥ s.ctx.buffer ∧ ptr < sizeAdd s.ctx.buffer s.ctx.totalSize then
    AlloContains.yes
  else AlloContains.no

/-!
# Freeing
-/

/-- Put block `index` of a level into its free list. -/
def insertFree (level index : Nat) (s : BuddyState χ) : BuddyState χ :=
  let s := s.setBit (nodeIndex level index)
  let node := s.ctx.blockAt level index
  listPush level node (s.note (Event.unpoison node sizeofBuddyNode))

/-- Merge upwards while the buddy is free. -/
def mergeLoop : Nat -> Nat -> BuddyState χ -> BuddyState χ
  | 0, index, s => insertFree 0 index s
  | level + 1, index, s =>
      let buddyIdx := index ^^^ 1
      let bit := nodeIndex (level + 1) buddyIdx
      let s := s.note (Event.index (bit / 8) s.ctx.bitBytes)
      if getBit s.ctx.bitset bit = 0 then insertFree (level + 1) index s
      else
        let buddy := s.ctx.blockAt (level + 1) buddyIdx
        let s := listRemove (level + 1) buddy s
        let s := s.note (Event.poison buddy sizeofBuddyNode)
        let s := s.clearBit bit
        mergeLoop level (index >>> 1) s

/-- The assertion fails for a foreign pointer. A size that no block of the buffer
has gives a negative level, by which the source must not shift. -/
def buddyFreeFn (ptr size : Nat) (s : BuddyState χ) : Option (BuddyState χ) :=
  if ptr = NULL then some s
  else
    let s := s.touch
    if buddyContainsFn ptr s ≠ AlloContains.yes then none
    else
      let order := s.ctx.order size
      if s.ctx.maxOrder < order then none
      else
        let level := s.ctx.maxOrder - order
        let offset := sizeSub ptr s.ctx.buffer
        let s := s.note (Event.divide (s.ctx.levelSize level))
        let index := offset / s.ctx.levelSize level
        some (mergeLoop level index
          (s.note (Event.poison ptr (s.ctx.levelSize level))))

def buddyReallocFn (ptr oldSize newSize : Nat) (s : BuddyState χ) :
    Option (Nat × BuddyState χ) :=
  if ptr ≠ NULL ∧ buddyContainsFn ptr s ≠ AlloContains.yes then none
  else if ptr = NULL then some (buddyAllocFn newSize s)
  else if newSize = 0 then do
    let s ← buddyFreeFn ptr oldSize s
    some (NULL, s)
  else
    let (newPtr, s) := buddyAllocFn newSize s
    if newPtr = NULL then some (NULL, s)
    else do
      let copySize := if oldSize < newSize then oldSize else newSize
      let m ← alloMemcpy newPtr ptr copySize (mem s)
      let s ← buddyFreeFn ptr oldSize (setMem m s)
      some (newPtr, s)

/-!
# Construction and destruction
-/

/-- Give `ptr` back to the child, if there is something to give back. -/
def buddyRelease (child : Allo χ) (ptr size : Nat) (s : BuddyState χ) :
    Option (BuddyState χ) := do
  let w ← alloFree child ptr size s.touch.child
  some { s with child := w }

def buddyDestroyFn (child : Allo χ) (s : BuddyState χ) :
    Option (BuddyState χ) := do
  let s ←
    if s.ctx.ownBuffer = true ∧ s.ctx.buffer ≠ NULL then
      buddyRelease child s.ctx.buffer s.ctx.totalSize s
    else some s.touch
  let s ←
    if s.ctx.freeListsPtr ≠ NULL then
      buddyRelease child s.ctx.freeListsPtr (sizeMul s.ctx.freeListsCount 8) s
    else some s.touch
  let s ←
    if s.ctx.bitsetPtr ≠ NULL then
      buddyRelease child s.ctx.bitsetPtr s.ctx.bitBytes s
    else some s.touch
  if s.ctx.blockOrdersPtr ≠ NULL then
    buddyRelease child s.ctx.blockOrdersPtr s.ctx.blockOrdersLen s
  else some s.touch

def buddyAllo (child : Allo χ) : Allo (BuddyState χ) where
  alloc := fun size s => some (buddyAllocFn size s)
  realloc := buddyReallocFn
  freeMem := buddyFreeFn
  destroy := some (buddyDestroyFn child)
  contains := some (fun ptr s => some (buddyContainsFn ptr s))

/-- The least power of two that is at least `size`, if the doubling ends. -/
def actualSizeLoop : Nat -> Nat -> Nat -> Option Nat
  | 0, _, _ => none
  | fuel + 1, actualSize, size =>
      if actualSize < size then
        actualSizeLoop fuel (sizeMul actualSize 2) size
      else some actualSize

/-- After 64 doublings the size has become zero and stays there. -/
def doublings : Nat :=
  65

/-- Give the buffer back if the child provided it. -/
def releaseOwnBuffer (child : Allo χ) (s : BuddyState χ) : Option χ :=
  if s.ctx.ownBuffer = true then
    alloFree child s.ctx.buffer s.ctx.totalSize s.touch.child
  else some s.touch.child

/-- Obtain a zeroed table from the child. -/
def buddyTable (child : Allo χ) (nmemb size : Nat) (s : BuddyState χ) :
    Option (Nat × BuddyState χ) := do
  let (ptr, w) ← alloCalloc child nmemb size s.touch.child
  some (ptr, { s with child := w }.touch)

/-- The tables are in place: make the whole buffer one free block. -/
def buddyStart (s : BuddyState χ) : BuddyState χ :=
  let s := listPush 0 s.ctx.buffer s
  let s := s.setBit (nodeIndex 0 0)
  let s := s.note (Event.poison s.ctx.buffer s.ctx.totalSize)
  s.note (Event.unpoison s.ctx.buffer sizeofBuddyNode)

/-- The constructor from the point where the buffer is there. -/
def buddyTables (child : Allo χ) (s : BuddyState χ) :
    Option (Made (BuddyState χ) χ) := do
  let (freeLists, s) ← buddyTable child s.ctx.freeListsCount 8 s
  if freeLists = NULL then do
    let w ← releaseOwnBuffer child s
    some (Made.failed AlloError.nomem w)
  else
    let s := { s with ctx := { s.ctx with freeListsPtr := freeLists } }
    let (bitset, s) ← buddyTable child s.ctx.bitBytes 1 s
    if bitset = NULL then do
      let s ← buddyRelease child freeLists (sizeMul s.ctx.freeListsCount 8) s
      let w ← releaseOwnBuffer child s
      some (Made.failed AlloError.nomem w)
    else
      let s := { s with ctx := { s.ctx with bitsetPtr := bitset } }
      let (blockOrders, s) ← buddyTable child s.ctx.blockOrdersLen 1 s
      if blockOrders = NULL then do
        let s ← buddyRelease child bitset s.ctx.bitBytes s
        let s ← buddyRelease child freeLists (sizeMul s.ctx.freeListsCount 8) s
        let w ← releaseOwnBuffer child s
        some (Made.failed AlloError.nomem w)
      else
        let s := { s with ctx := { s.ctx with blockOrdersPtr := blockOrders } }
        some (Made.ok (buddyStart s))

/-- A missing child stands for the null pointer. -/
def makeBuddyAllocator (out : Nat) (child : Option (Allo χ)) (buffer size : Nat)
    (w : χ) : Option (Made (BuddyState χ) χ) :=
  match child with
  | none => some (Made.failed AlloError.inval w)
  | some child =>
      if out = NULL ∨ size = 0 then some (Made.failed AlloError.inval w)
      else do
        let totalSize ← actualSizeLoop doublings 1 size
        let s : BuddyState χ :=
          { self := out
            ctx :=
              { buffer := buffer
                totalSize := totalSize
                minBlockSize := 32
                maxOrder := getOrder totalSize
                freeLists := fun _ => NULL
                bitset := fun _ => 0
                blockOrders := fun _ => 0
                freeListsPtr := NULL
                bitsetPtr := NULL
                blockOrdersPtr := NULL
                ownBuffer := decide (buffer = NULL) }
            child := w }
        let s := s.touch
        if buffer = NULL then do
          let (buffer, w) ← alloAlloc child totalSize s.child
          let s := { s with ctx := { s.ctx with buffer := buffer }, child := w }.touch
          if buffer = NULL then some (Made.failed AlloError.nomem s.child)
          else buddyTables child s
        else buddyTables child s

end Buddy

end Liballo
