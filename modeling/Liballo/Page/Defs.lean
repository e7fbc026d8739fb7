import Liballo.Contract
import Liballo.Foundation.Mappings

/-!
# The page allocator

The functions of `allo_page.c` over the wrappers of `allo_page_posix.h`. The
registry lies in a mapping of its own; entry `i` is a pair of words. The allocator
object lies at the address `self`, and an access to it is traced as a touch, since
the generic allocator keeps its page allocator in memory that the same page
allocator mapped.
-/

namespace Liballo

open Foundation

/-!
# The operating system
-/

def alloOsMmap (os : Os) (length : Nat) (m : Mem) : Nat × Mem :=
  os.map length m

def alloOsMunmap (addr length : Nat) (m : Mem) : Mem :=
  Os.unmap addr length m

def alloOsMremap (os : Os) (addr oldLen newLen : Nat) (m : Mem) : Nat × Mem :=
  os.remap addr oldLen newLen m

def alloOsGetPageSize (os : Os) : Nat :=
  os.pageSize

/-!
# The context and the registry
-/

/-- `sizeof(page_entry_t)` -/
def sizeofPageEntry : Nat :=
  16

structure PageContext where
  pageSize : Nat
  registry : Nat
  count : Nat
  capacity : Nat
  deriving DecidableEq, Repr

structure PageState where
  self : Nat
  ctx : PageContext
  mem : Mem

instance : HasMem PageState where
  mem := PageState.mem
  setMem := fun m s => { s with mem := m }
  mem_setMem := by intros; rfl
  setMem_mem := by intros; rfl
  setMem_setMem := by intros; rfl

/-- Where entry `i` of a registry lies. -/
def pageEntryAt (registry i : Nat) : Nat :=
  registry + sizeofPageEntry * i

def pageEntryAddr (m : Mem) (registry i : Nat) : Nat :=
  m.word (pageEntryAt registry i)

def pageEntrySize (m : Mem) (registry i : Nat) : Nat :=
  m.word (pageEntryAt registry i + 8)

def setPageEntry (registry i addr size : Nat) (m : Mem) : Mem :=
  (m.writeWord (pageEntryAt registry i) addr).writeWord
    (pageEntryAt registry i + 8) size

namespace PageState

/-- An access to the allocator object. -/
def touch (s : PageState) : PageState :=
  { s with mem := s.mem.note (Event.touch s.self sizeofAllo) }

end PageState

def registryEnsureCapacity (os : Os) (s : PageState) : Bool × PageState :=
  let s := s.touch
  if s.ctx.count = s.ctx.capacity then
    let oldSize := sizeMul s.ctx.capacity sizeofPageEntry
    let newSize := sizeAdd oldSize s.ctx.pageSize
    let (newReg, m) := alloOsMremap os s.ctx.registry oldSize newSize s.mem
    if newReg = NULL then (false, { s with mem := m })
    else
      let ctx : PageContext :=
        { s.ctx with
          registry := newReg
          capacity := newSize / sizeofPageEntry }
      (true, PageState.touch { s with ctx := ctx, mem := m })
  else (true, s)

def registryAdd (addr size : Nat) (s : PageState) : PageState :=
  let s := s.touch
  { s with
    ctx := { s.ctx with count := sizeAdd s.ctx.count 1 }
    mem := setPageEntry s.ctx.registry s.ctx.count addr size s.mem }

/-- The first of the `n` entries from `i` on that has the address. -/
def registryFind (m : Mem) (registry addr : Nat) : Nat -> Nat -> Option Nat
  | _, 0 => none
  | i, n + 1 =>
      if pageEntryAddr m registry i = addr then some i
      else registryFind m registry addr (i + 1) n

def registryRemove (addr : Nat) (s : PageState) : PageState :=
  let s := s.touch
  match registryFind s.mem s.ctx.registry addr 0 s.ctx.count with
  | none => s
  | some i =>
      -- Swap with the last element.
      let last := sizeSub s.ctx.count 1
      { s with
        ctx := { s.ctx with count := last }
        mem := setPageEntry s.ctx.registry i
          (pageEntryAddr s.mem s.ctx.registry last)
          (pageEntrySize s.mem s.ctx.registry last) s.mem }

/-- The size of the mapping that holds `size` bytes. -/
def pageRound (c : PageContext) (size : Nat) : Nat :=
  alloAlignUp size c.pageSize

/-!
# Operations
-/

def pageAllocFn (os : Os) (size : Nat) (s : PageState) : Nat × PageState :=
  if size = 0 then (NULL, s)
  else
    let (ok, s) := registryEnsureCapacity os s
    if ok = false then (NULL, s)
    else
      let roundedSize := pageRound s.ctx size
      let (ptr, m) := alloOsMmap os roundedSize s.mem
      if ptr = NULL then (NULL, { s with mem := m })
      else
        let s := registryAdd ptr roundedSize { s with mem := m }
        (ptr,
          { s with
            mem := (s.mem.note (Event.poison ptr roundedSize)).note
              (Event.unpoison ptr size) })

/-- Rewrite the entry of a mapping that moved. -/
def registryUpdate (addr newAddr size : Nat) (s : PageState) : PageState :=
  let s := s.touch
  match registryFind s.mem s.ctx.registry addr 0 s.ctx.count with
  | none => s
  | some i =>
      { s with mem := setPageEntry s.ctx.registry i newAddr size s.mem }

def pageReallocFn (os : Os) (ptr oldSize newSize : Nat) (s : PageState) :
    Nat × PageState :=
  if ptr = NULL then pageAllocFn os newSize s
  else
    let s := s.touch
    let roundedOld := pageRound s.ctx oldSize
    let roundedNew := pageRound s.ctx newSize
    if roundedOld = roundedNew then
      let e :=
        if newSize > oldSize then
          Event.unpoison (sizeAdd ptr oldSize) (newSize - oldSize)
        else Event.poison (sizeAdd ptr newSize) (oldSize - newSize)
      (ptr, { s with mem := s.mem.note e })
    else
      let (newPtr, m) := alloOsMremap os ptr roundedOld roundedNew
        (s.mem.note (Event.unpoison ptr roundedOld))
      if newPtr = NULL then
        (NULL,
          { s with
            mem := m.note (Event.poison (sizeAdd ptr oldSize)
              (sizeSub roundedOld oldSize)) })
      else
        let s := registryUpdate ptr newPtr roundedNew { s with mem := m }
        (newPtr,
          { s with
            mem := (s.mem.note (Event.poison newPtr roundedNew)).note
              (Event.unpoison newPtr newSize) })

def pageFreeFn (ptr size : Nat) (s : PageState) : PageState :=
  if ptr = NULL then s
  else
    let roundedSize := pageRound s.ctx size
    let s := registryRemove ptr s.touch
    { s with
      mem := alloOsMunmap ptr roundedSize
        (s.mem.note (Event.unpoison ptr roundedSize)) }

/-- Unmap the `n` registered mappings from entry `i` on. -/
def pageUnmapEntries : Nat -> Nat -> PageState -> PageState
  | _, 0, s => s.touch
  | i, n + 1, s =>
      let s := s.touch
      pageUnmapEntries (i + 1) n
        { s with
          mem := alloOsMunmap (pageEntryAddr s.mem s.ctx.registry i)
            (pageEntrySize s.mem s.ctx.registry i) s.mem }

def pageDestroyFn (s : PageState) : PageState :=
  let s := pageUnmapEntries 0 s.ctx.count s
  { s with
    mem := alloOsMunmap s.ctx.registry
      (sizeMul s.ctx.capacity sizeofPageEntry) s.mem }

/-- Whether one of the `n` entries from `i` on covers `ptr`. -/
def pageScan (m : Mem) (registry ptr : Nat) : Nat -> Nat -> AlloContains
  | _, 0 => AlloContains.no
  | i, n + 1 =>
      if ptr ≥ pageEntryAddr m registry i ∧
          ptr < sizeAdd (pageEntryAddr m registry i)
            (pageEntrySize m registry i) then
        AlloContains.yes
      else pageScan m registry ptr (i + 1) n

def pageContainsFn (ptr : Nat) (s : PageState) : AlloContains :=
  pageScan s.mem s.ctx.registry ptr 0 s.ctx.count

def pageAllo (os : Os) : Allo PageState where
  alloc := fun size s => some (pageAllocFn os size s)
  realloc := fun ptr oldSize newSize s =>
    some (pageReallocFn os ptr oldSize newSize s)
  freeMem := fun ptr size s => some (pageFreeFn ptr size s)
  destroy := some (fun s => some (pageDestroyFn s))
  contains := some (fun ptr s => some (pageContainsFn ptr s))

/-- The allocator object is created at the address `out`. -/
def makePageAllocator (os : Os) (out : Nat) (m : Mem) : Made PageState Mem :=
  if out = NULL then Made.failed AlloError.inval m
  else
    let pageSize := alloOsGetPageSize os
    let m := m.note (Event.touch out sizeofAllo)
    let (registry, m) := alloOsMmap os pageSize m
    let m := m.note (Event.touch out sizeofAllo)
    if registry = NULL then Made.failed AlloError.nomem m
    else
      Made.ok
        { self := out
          ctx :=
            { pageSize := pageSize
              registry := registry
              count := 0
              capacity := pageSize / sizeofPageEntry }
          mem := m }

end Liballo
