import Liballo.Arena.Defs
import Liballo.Buddy.Defs
import Liballo.Buffer.Defs
import Liballo.Gen.Defs
import Liballo.Libc
import Liballo.Page.Defs
import Liballo.Pool.Defs

/-!
# The fuzz target

The functions of `fuzz_allocator.c`. The input chooses an allocator, how many blocks are
tracked and how large they may be, and what to do with them. Every tracked block is
filled with one value, which is checked before the block is touched again; the target
aborts when it finds another value. A run that aborts does not come back.
-/

namespace Liballo

open Foundation

/-!
# Tracked blocks
-/

structure Tracker where
  ptr : Nat
  size : Nat
  magic : UInt8
  deriving DecidableEq, Repr

def absoluteMaxPointers : Nat :=
  128

def absoluteMaxAlloc : Nat :=
  2 * 1024 * 1024

inductive Operation where
  | alloc
  | free
  | realloc
  deriving DecidableEq, Repr

/-- `(op_byte & 0x03) % OP_COUNT` -/
def operation (opByte : UInt8) : Operation :=
  match (opByte.toNat &&& 0x03) % 3 with
  | 0 => Operation.alloc
  | 1 => Operation.free
  | _ => Operation.realloc

/-- The number in two bytes of the input, the high byte first. -/
def twoBytes (high low : UInt8) : Nat :=
  (high.toNat <<< 8) ||| low.toNat

section Operations

variable {σ : Type} [HasMem σ] (a : Allo σ)

/-- Abort if a byte of the block has another value. -/
def checkMagic (t : Tracker) (m : Mem) : Option Unit :=
  if (List.range t.size).all (fun i => m.bytes (t.ptr + i) = t.magic) then some ()
  else none

def fuzzAlloc (opByte : UInt8) (allocSize : Nat) (t : Tracker) (s : σ) :
    Option (Tracker × σ) := do
  let s ← (if t.ptr ≠ NULL ∧ t.size > 0 then do
      checkMagic t (mem s)
      alloFree a t.ptr t.size s
    else some s)
  let (ptr, s) ← alloAlloc a allocSize s
  let t : Tracker := { ptr := ptr, size := allocSize, magic := opByte }
  if ptr ≠ NULL ∧ allocSize > 0 then
    some (t, modifyMem (alloMemset ptr opByte.toNat allocSize) s)
  else some (t, s)

def fuzzFree (t : Tracker) (s : σ) : Option (Tracker × σ) :=
  if t.ptr ≠ NULL then do
    let _ ← (if t.size > 0 then checkMagic t (mem s) else some ())
    let s ← alloFree a t.ptr t.size s
    some ({ t with ptr := NULL, size := 0 }, s)
  else some (t, s)

def fuzzRealloc (opByte : UInt8) (newSize : Nat) (t : Tracker) (s : σ) :
    Option (Tracker × σ) := do
  let _ ← (if t.ptr ≠ NULL ∧ t.size > 0 then checkMagic t (mem s) else some ())
  let (newPtr, s) ← alloRealloc a t.ptr t.size newSize s
  if newPtr ≠ NULL ∨ newSize = 0 then
    let t : Tracker := { ptr := newPtr, size := newSize, magic := opByte }
    if newPtr ≠ NULL ∧ newSize > 0 then
      some (t, modifyMem (alloMemset newPtr opByte.toNat newSize) s)
    else some (t, s)
  else some (t, s)

/-!
# The runs
-/

/-- Work off the input. Operands that are cut off end the loop. -/
def fuzzLoop (maxPointers maxAlloc : Nat) :
    List UInt8 -> (Nat -> Tracker) -> σ -> Option ((Nat -> Tracker) × σ)
  | [], tracked, s => some (tracked, s)
  | opByte :: data, tracked, s =>
      let index := (opByte.toNat >>> 2) % maxPointers
      match operation opByte with
      | Operation.alloc =>
          match data with
          | high :: low :: data => do
              let (t, s) ← fuzzAlloc a opByte (twoBytes high low % maxAlloc)
                (tracked index) s
              fuzzLoop maxPointers maxAlloc data (Function.update tracked index t) s
          | _ => some (tracked, s)
      | Operation.free => do
          let (t, s) ← fuzzFree a (tracked index) s
          fuzzLoop maxPointers maxAlloc data (Function.update tracked index t) s
      | Operation.realloc =>
          match data with
          | high :: low :: data => do
              let (t, s) ← fuzzRealloc a opByte (twoBytes high low % maxAlloc)
                (tracked index) s
              fuzzLoop maxPointers maxAlloc data (Function.update tracked index t) s
          | _ => some (tracked, s)

/-- Check and free what the trackers `is` hold. -/
def fuzzTeardown (tracked : Nat -> Tracker) : List Nat -> σ -> Option σ
  | [], s => some s
  | i :: is, s =>
      if (tracked i).ptr ≠ NULL then do
        let _ ← (if (tracked i).size > 0 then checkMagic (tracked i) (mem s) else some ())
        let s ← alloFree a (tracked i).ptr (tracked i).size s
        fuzzTeardown tracked is s
      else fuzzTeardown tracked is s

/-- What is done with the allocator once it is made. -/
def fuzzBody (maxPointers maxAlloc : Nat) (data : List UInt8) (s : σ) : Option σ := do
  let (tracked, s) ← fuzzLoop a maxPointers maxAlloc data
    (fun _ => { ptr := NULL, size := 0, magic := 0 }) s
  let s ← fuzzTeardown a tracked (List.range maxPointers) s
  alloDestroy a s

end Operations

/-!
# The allocators
-/

section Selectors

variable (os : Os) (lib : CLib)

/-- The addresses of the local variables: the allocator, its child, and the page
allocator that the generic one is made and destroyed with. -/
structure FuzzLocals where
  a : Nat
  child : Nat
  page : Nat

variable (locals : FuzzLocals) (maxPointers maxAlloc : Nat)

def fuzzC (data : List UInt8) (h : CHeap) : Option CHeap :=
  match makeCAllocator lib locals.a with
  | Except.error _ => some h
  | Except.ok c => fuzzBody c maxPointers maxAlloc data h

def fuzzPage (data : List UInt8) (h : CHeap) : Option CHeap :=
  match makePageAllocator os locals.a (mem h) with
  | Made.failed _ m => some (setMem m h)
  | Made.ok st => do
      let s ← fuzzBody (pageAllo os) maxPointers maxAlloc data st
      some (setMem (mem s) h)

def fuzzFixedBuf : List UInt8 -> CHeap -> Option CHeap
  | high :: low :: data, h =>
      let bufSize := twoBytes high low % (maxAlloc * maxPointers + 1) + 1
      let (backing, h) := h.malloc lib bufSize
      match makeFixedBufAllocator locals.a backing bufSize (mem h) with
      | Except.error _ => h.free lib backing
      | Except.ok st => do
          let s ← fuzzBody bufAllo maxPointers maxAlloc data st
          (setMem (mem s) h).free lib backing
  | _, h => some h

def fuzzArena : List UInt8 -> CHeap -> Option CHeap
  | high :: low :: data, h =>
      let blockSize := twoBytes high low + 1
      match makeCAllocator lib locals.child with
      | Except.error _ => some h
      | Except.ok c => do
          match ← makeArenaAllocator locals.a (some c) blockSize h with
          | Made.failed _ h => some h
          | Made.ok st =>
              let s ← fuzzBody (arenaAllo c) maxPointers maxAlloc data st
              alloDestroy c s.child
  | _, h => some h

def fuzzPool : List UInt8 -> CHeap -> Option CHeap
  | high :: low :: high' :: low' :: data, h =>
      let blockSize := twoBytes high low % 4096 + 1
      let totalBlocks := twoBytes high' low' % 1024 + 1
      match makeCAllocator lib locals.child with
      | Except.error _ => some h
      | Except.ok c => do
          match ← makePoolAllocator locals.a (some c) NULL blockSize totalBlocks h with
          | Made.failed _ h => some h
          | Made.ok st =>
              let s ← fuzzBody (poolAllo (some c)) maxPointers maxAlloc data st
              alloDestroy c s.child
  | _, h => some h

def fuzzBuddy : List UInt8 -> CHeap -> Option CHeap
  | order :: data, h =>
      let size := 1 <<< (order.toNat % 11 + 10)
      match makeCAllocator lib locals.child with
      | Except.error _ => some h
      | Except.ok c => do
          match ← makeBuddyAllocator locals.a (some c) NULL size h with
          | Made.failed _ h => some h
          | Made.ok st =>
              let s ← fuzzBody (buddyAllo c) maxPointers maxAlloc data st
              alloDestroy c s.child
  | _, h => some h

def fuzzGen (data : List UInt8) (h : CHeap) : Option CHeap := do
  match ← makeGenAllocator os locals.a locals.page (mem h) with
  | Made.failed _ m => some (setMem m h)
  | Made.ok st =>
      let s ← fuzzBody (genAllo os locals.page) maxPointers maxAlloc data st
      some (setMem (mem s) h)

end Selectors

/-- `LLVMFuzzerTestOneInput` -/
def llvmFuzzerTestOneInput (os : Os) (lib : CLib) (locals : FuzzLocals)
    (data : List UInt8) (h : CHeap) : Option CHeap :=
  if data.length < 7 then some h
  else
    match data with
    | d₀ :: d₁ :: d₂ :: d₃ :: d₄ :: rest =>
        let maxPointers := d₁.toNat % absoluteMaxPointers + 1
        let maxAlloc :=
          ((d₂.toNat <<< 16) ||| (d₃.toNat <<< 8) ||| d₄.toNat) % absoluteMaxAlloc + 1
        match d₀.toNat % 7 with
        | 0 => fuzzC lib locals maxPointers maxAlloc rest h
        | 1 => fuzzPage os locals maxPointers maxAlloc rest h
        | 2 => fuzzFixedBuf lib locals maxPointers maxAlloc rest h
        | 3 => fuzzArena lib locals maxPointers maxAlloc rest h
        | 4 => fuzzPool lib locals maxPointers maxAlloc rest h
        | 5 => fuzzBuddy lib locals maxPointers maxAlloc rest h
        | 6 => fuzzGen os locals maxPointers maxAlloc rest h
        | _ => some h
    | _ => some h

end Liballo
