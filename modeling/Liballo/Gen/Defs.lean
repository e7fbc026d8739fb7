import Liballo.Buddy.Defs
import Liballo.Page.Defs
import Liballo.Pool.Defs

/-!
# The generic allocator

The functions of `allo_gen.c`. A page allocator, a buddy allocator over it and eight
pools over the buddy allocator lie in one state block, which the page allocator itself
mapped. Their contexts are kept here next to the memory; an access to one of the
objects in the state block is traced as a touch of its address.
-/

namespace Liballo

open Foundation

/-!
# Constants and tables
-/

def poolCount : Nat :=
  8

def buddyTotalSize : Nat :=
  16 * 1024 * 1024

def smallObjLimit : Nat :=
  2048

def mediumObjLimit : Nat :=
  1024 * 1024

def poolSizes : List Nat :=
  [16, 32, 64, 128, 256, 512, 1024, 2048]

def poolTotals : List Nat :=
  [4096, 2048, 1024, 512, 256, 128, 64, 32]

def poolIndexTable : List Nat :=
  [0, 1] ++ List.replicate 2 2 ++ List.replicate 4 3 ++ List.replicate 8 4 ++
    List.replicate 16 5 ++ List.replicate 32 6 ++ List.replicate 64 7

def getPoolIndex (size : Nat) : Nat :=
  if size = 0 then 0
  else
    let idx := (size - 1) >>> 4
    if idx > 127 then 7 else poolIndexTable.getD idx 0

/-!
# The state block
-/

/-- `sizeof(gen_state_t)`: ten allocator objects. -/
def sizeofGenState : Nat :=
  10 * sizeofAllo

def genBuddyAt (state : Nat) : Nat :=
  state + sizeofAllo

def genPoolAt (state i : Nat) : Nat :=
  state + 2 * sizeofAllo + sizeofAllo * i

/-- `block` is the address of the state block. -/
structure GenState where
  block : Nat
  pools : Nat -> PoolContext
  tower : BuddyState PageState

instance : HasMem GenState where
  mem := fun s => mem s.tower
  setMem := fun m s => { s with tower := setMem m s.tower }
  mem_setMem := by simp
  setMem_mem := by simp
  setMem_setMem := by simp

/-- The buddy allocator of the tower. -/
def genBuddy (os : Os) : Allo (BuddyState PageState) :=
  buddyAllo (pageAllo os)

/-- The pools of the tower. -/
def genPool (os : Os) : Allo (PoolState (BuddyState PageState)) :=
  poolAllo (some (genBuddy os))

namespace GenState

/-- Pool `i` with the tower it stands on. -/
def pool (s : GenState) (i : Nat) : PoolState (BuddyState PageState) where
  ctx := s.pools i
  child := s.tower

def setPool (i : Nat) (t : PoolState (BuddyState PageState)) (s : GenState) :
    GenState :=
  { s with pools := Function.update s.pools i t.ctx, tower := t.child }

def setPage (t : PageState) (s : GenState) : GenState :=
  { s with tower := { s.tower with child := t } }

/-- An access to the object of pool `i`. -/
def touchPool (i : Nat) (s : GenState) : GenState :=
  modifyMem (Mem.note (Event.touch (genPoolAt s.block i) sizeofAllo)) s

end GenState

/-!
# Operations
-/

section Operations

variable (os : Os)

def genAllocFn (size : Nat) (s : GenState) : Option (Nat × GenState) :=
  if size = 0 then some (NULL, s)
  else if size ≤ smallObjLimit then do
    let idx := getPoolIndex size
    let s := s.touchPool idx
    let (ptr, t) ← alloAlloc (genPool os) size (s.pool idx)
    some (ptr, s.setPool idx t)
  else if size ≤ mediumObjLimit then do
    let (ptr, t) ← alloAlloc (genBuddy os) size s.tower
    some (ptr, { s with tower := t })
  else do
    let (ptr, t) ← alloAlloc (pageAllo os) size s.tower.child
    some (ptr, s.setPage t)

def genFreeFn (ptr size : Nat) (s : GenState) : Option GenState :=
  if ptr = NULL then some s
  else if size ≤ smallObjLimit then do
    let idx := getPoolIndex size
    let s := s.touchPool idx
    let t ← alloFree (genPool os) ptr size (s.pool idx)
    some (s.setPool idx t)
  else if size ≤ mediumObjLimit then do
    let t ← alloFree (genBuddy os) ptr size s.tower
    some { s with tower := t }
  else do
    let t ← alloFree (pageAllo os) ptr size s.tower.child
    some (s.setPage t)

/-- Move a block to another tier or another pool. -/
def genMove (ptr oldSize newSize : Nat) (s : GenState) : Option (Nat × GenState) := do
  let (newPtr, s) ← genAllocFn os newSize s
  if newPtr = NULL then some (NULL, s)
  else do
    let copySize := if oldSize < newSize then oldSize else newSize
    let m ← alloMemcpy newPtr ptr copySize (mem s)
    let s ← genFreeFn os ptr oldSize (setMem m s)
    some (newPtr, s)

def genReallocFn (ptr oldSize newSize : Nat) (s : GenState) :
    Option (Nat × GenState) :=
  if ptr = NULL then genAllocFn os newSize s
  else if newSize = 0 then do
    let s ← genFreeFn os ptr oldSize s
    some (NULL, s)
  else if oldSize ≤ smallObjLimit ∧ newSize ≤ smallObjLimit then
    if getPoolIndex oldSize = getPoolIndex newSize then do
      let idx := getPoolIndex oldSize
      let s := s.touchPool idx
      let (newPtr, t) ← alloRealloc (genPool os) ptr oldSize newSize (s.pool idx)
      some (newPtr, s.setPool idx t)
    else genMove os ptr oldSize newSize s
  else if oldSize > smallObjLimit ∧ oldSize ≤ mediumObjLimit ∧
      newSize > smallObjLimit ∧ newSize ≤ mediumObjLimit then do
    let (newPtr, t) ← alloRealloc (genBuddy os) ptr oldSize newSize s.tower
    some (newPtr, { s with tower := t })
  else if oldSize > mediumObjLimit ∧ newSize > mediumObjLimit then do
    let (newPtr, t) ← alloRealloc (pageAllo os) ptr oldSize newSize s.tower.child
    some (newPtr, s.setPage t)
  else genMove os ptr oldSize newSize s

def genScanPools (ptr : Nat) (s : GenState) : Nat -> Nat -> AlloContains
  | _, 0 => AlloContains.no
  | i, n + 1 =>
      if poolContainsFn ptr (s.pool i) = AlloContains.yes then AlloContains.yes
      else genScanPools ptr s (i + 1) n

def genContainsFn (ptr : Nat) (s : GenState) : AlloContains :=
  if genScanPools ptr s 0 poolCount = AlloContains.yes then AlloContains.yes
  else if buddyContainsFn ptr s.tower = AlloContains.yes then AlloContains.yes
  else if pageContainsFn ptr s.tower.child = AlloContains.yes then AlloContains.yes
  else AlloContains.no

/-!
# Destruction
-/

def genDestroyPool (i : Nat) (s : GenState) : Option GenState := do
  let s := s.touchPool i
  let t ← alloDestroy (genPool os) (s.pool i)
  some (s.setPool i t)

/-- Destroy the first `n` pools. -/
def genDestroyPools : Nat -> GenState -> Option GenState
  | 0, s => some s
  | n + 1, s => do
      let s ← genDestroyPools n s
      genDestroyPool os n s

def genDestroyBuddy (s : GenState) : Option GenState := do
  let t ← alloDestroy (genBuddy os) s.tower
  some { s with tower := t }

/-- The page allocator is copied to a local variable at `frame`, and the copy unmaps the
state block with everything else. -/
def genDestroyFn (frame : Nat) (s : GenState) : Option GenState := do
  let s ← genDestroyPools os poolCount s
  let s ← genDestroyBuddy os s
  let page := s.tower.child.touch
  let t ← alloDestroy (pageAllo os) { page with self := frame }
  some (s.setPage t)

def genAllo (frame : Nat) : Allo GenState where
  alloc := genAllocFn os
  realloc := genReallocFn os
  freeMem := genFreeFn os
  destroy := some (genDestroyFn os frame)
  contains := some (fun ptr s => some (genContainsFn ptr s))

/-!
# Construction
-/

/-- The page allocator is made in a local variable at `frame`, maps the state block and
is copied into it. -/
def genBootstrap (frame : Nat) (m : Mem) : Option (Made PageState Mem) :=
  match makePageAllocator os frame m with
  | Made.failed e m => some (Made.failed e m)
  | Made.ok page => do
      let (block, page) ← alloAlloc (pageAllo os) sizeofGenState page
      if block = NULL then do
        let page ← alloDestroy (pageAllo os) page
        some (Made.failed AlloError.nomem page.mem)
      else some (Made.ok ({ page.touch with self := block }.touch))

/-- Give up after the page allocator was copied into the state block: it unmaps the block
it lies in and is destroyed then. -/
def genAbandon (e : AlloError) (page : PageState) : Option (Made GenState Mem) := do
  let page ← alloFree (pageAllo os) page.self sizeofGenState page
  let page ← alloDestroy (pageAllo os) page.touch
  some (Made.failed e page.mem)

/-- The pools from number `i` on; `left` of them are still to be made. -/
def genMakePools : Nat -> Nat -> GenState -> Option (Made GenState Mem)
  | 0, _, s => some (Made.ok s)
  | left + 1, i, s => do
      let made ← makePoolAllocator (genPoolAt s.block i) (some (genBuddy os)) NULL
        (poolSizes.getD i 0) (poolTotals.getD i 0) (s.touchPool i).tower
      match made with
      | Made.ok t => genMakePools left (i + 1) (s.setPool i t)
      | Made.failed e t => do
          let s ← genDestroyPools os i { s with tower := t }
          let s ← genDestroyBuddy os s
          genAbandon os e s.tower.child

/-- The buddy allocator and the pools. -/
def genBuild (page : PageState) : Option (Made GenState Mem) := do
  let made ← makeBuddyAllocator (genBuddyAt page.self) (some (pageAllo os)) NULL
    buddyTotalSize page
  match made with
  | Made.failed e page => genAbandon os e page
  | Made.ok tower =>
      genMakePools os poolCount 0
        { block := page.self
          pools := fun _ => ⟨NULL, 0, 0, NULL, false⟩
          tower := tower }

def makeGenAllocator (out frame : Nat) (m : Mem) : Option (Made GenState Mem) :=
  if out = NULL then some (Made.failed AlloError.inval m)
  else do
    let made ← genBootstrap os frame m
    match made with
    | Made.failed e m => some (Made.failed e m)
    | Made.ok page => genBuild os page

end Operations

end Liballo
