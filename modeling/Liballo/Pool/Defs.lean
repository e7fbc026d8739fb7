import Liballo.Contract

/-!
# The pool allocator

The functions of `allo_pool.c`. The managed buffer is cut into blocks of one size, and
the free blocks are linked through their first words.
-/

namespace Liballo

open Foundation

/-- `sizeof(pool_free_node_t)` -/
def sizeofPoolFreeNode : Nat :=
  8

structure PoolContext where
  buffer : Nat
  blockSize : Nat
  totalBlocks : Nat
  freeList : Nat
  ownBuffer : Bool
  deriving DecidableEq, Repr

structure PoolState (χ : Type) where
  ctx : PoolContext
  child : χ

namespace PoolFreeNode

def next (m : Mem) (node : Nat) : Nat :=
  m.word node

def setNext (node v : Nat) (m : Mem) : Mem :=
  m.writeWord node v

end PoolFreeNode

section Pool

variable {χ : Type} [HasMem χ]

instance : HasMem (PoolState χ) where
  mem := fun s => mem s.child
  setMem := fun m s => { s with child := setMem m s.child }
  mem_setMem := by simp
  setMem_mem := by simp
  setMem_setMem := by simp

def PoolState.setFreeList (node : Nat) (s : PoolState χ) : PoolState χ :=
  { s with ctx := { s.ctx with freeList := node } }

def PoolState.note (e : Event) (s : PoolState χ) : PoolState χ :=
  modifyMem (Mem.note e) s

@[simp]
theorem PoolState.mem_setFreeList (node : Nat) (s : PoolState χ) :
    mem (s.setFreeList node) = mem s :=
  rfl

omit [HasMem χ] in
@[simp]
theorem PoolState.setFreeList_freeList (node : Nat) (s : PoolState χ) :
    (s.setFreeList node).ctx.freeList = node :=
  rfl

omit [HasMem χ] in
@[simp]
theorem PoolState.setFreeList_blockSize (node : Nat) (s : PoolState χ) :
    (s.setFreeList node).ctx.blockSize = s.ctx.blockSize :=
  rfl

@[simp]
theorem PoolState.ctx_note (e : Event) (s : PoolState χ) : (s.note e).ctx = s.ctx :=
  rfl

@[simp]
theorem PoolState.mem_note (e : Event) (s : PoolState χ) :
    mem (s.note e) = (mem s).note e :=
  mem_modifyMem _ s

def poolContainsFn (ptr : Nat) (s : PoolState χ) : AlloContains :=
  let totalSize := sizeMul s.ctx.blockSize s.ctx.totalBlocks
  if ptr ≥ s.ctx.buffer ∧ ptr < sizeAdd s.ctx.buffer totalSize then
    AlloContains.yes
  else AlloContains.no

def poolAllocFn (size : Nat) (s : PoolState χ) : Nat × PoolState χ :=
  if size = 0 then (NULL, s)
  else if size > s.ctx.blockSize then (NULL, s)
  else if s.ctx.freeList = NULL then (NULL, s)
  else
    let node := s.ctx.freeList
    let s := s.note (Event.unpoison node sizeofPoolFreeNode)
    let s := s.setFreeList (PoolFreeNode.next (mem s) node)
    (node, s.note (Event.unpoison node s.ctx.blockSize))

def poolReallocFn (ptr _oldSize newSize : Nat) (s : PoolState χ) :
    Option (Nat × PoolState χ) :=
  if ptr ≠ NULL ∧ poolContainsFn ptr s ≠ AlloContains.yes then none
  else if newSize ≤ s.ctx.blockSize then some (ptr, s)
  else some (NULL, s)

def poolFreeFn (ptr _size : Nat) (s : PoolState χ) : Option (PoolState χ) :=
  if ptr = NULL then some s
  else if poolContainsFn ptr s ≠ AlloContains.yes then none
  else
    let s := s.note (Event.poison ptr s.ctx.blockSize)
    let s := s.note (Event.unpoison ptr sizeofPoolFreeNode)
    some ((modifyMem (PoolFreeNode.setNext ptr s.ctx.freeList) s).setFreeList ptr)

/-- The child is not looked at unless it provided the buffer. -/
def poolDestroyFn (child : Option (Allo χ)) (s : PoolState χ) :
    Option (PoolState χ) :=
  if s.ctx.ownBuffer = true then do
    let child ← child
    let w ← alloFree child s.ctx.buffer
      (sizeMul s.ctx.blockSize s.ctx.totalBlocks) s.child
    some { s with child := w }
  else some s

def poolAllo (child : Option (Allo χ)) : Allo (PoolState χ) where
  alloc := fun size s => some (poolAllocFn size s)
  realloc := poolReallocFn
  freeMem := poolFreeFn
  destroy := some (poolDestroyFn child)
  contains := some (fun ptr s => some (poolContainsFn ptr s))

/-- The loop that links the free list, from the iteration on after which the given number
of iterations is left. -/
def poolInitLoop (blockSize : Nat) : Nat -> Nat -> Mem -> Mem
  | 0, _, m => m
  | left + 1, curr, m =>
      let m := m.note (Event.unpoison curr sizeofPoolFreeNode)
      if 0 < left then
        poolInitLoop blockSize left (sizeAdd curr blockSize)
          (PoolFreeNode.setNext curr (sizeAdd curr blockSize) m)
      else PoolFreeNode.setNext curr NULL m

/-- The constructor from the point where the buffer is there. -/
def poolStart (buffer blockSize totalBlocks : Nat) (ownBuffer : Bool) (w : χ) :
    PoolState χ where
  ctx :=
    { buffer := buffer
      blockSize := blockSize
      totalBlocks := totalBlocks
      freeList := buffer
      ownBuffer := ownBuffer }
  child := modifyMem (fun m => poolInitLoop blockSize totalBlocks buffer
    (m.note (Event.poison buffer (sizeMul blockSize totalBlocks)))) w

/-- The size of the blocks of a pool that is made for blocks of `blockSize` bytes. -/
def poolBlockSize (blockSize : Nat) : Nat :=
  alloAlignUp
    (if blockSize < sizeofPoolFreeNode then sizeofPoolFreeNode else blockSize) 8

/-- A missing child stands for the null pointer. -/
def makePoolAllocator (out : Nat) (child : Option (Allo χ))
    (buffer blockSize totalBlocks : Nat) (w : χ) :
    Option (Made (PoolState χ) χ) :=
  if out = NULL ∨ (buffer = NULL ∧ child.isNone) ∨ blockSize = 0 ∨
      totalBlocks = 0 then
    some (Made.failed AlloError.inval w)
  else if buffer = NULL then do
    let child ← child
    let (buffer, w) ← alloAlloc child (sizeMul (poolBlockSize blockSize) totalBlocks) w
    if buffer = NULL then some (Made.failed AlloError.nomem w)
    else some (Made.ok
      (poolStart buffer (poolBlockSize blockSize) totalBlocks true w))
  else some (Made.ok
    (poolStart buffer (poolBlockSize blockSize) totalBlocks false w))

end Pool

end Liballo
