import Mathlib.Data.Nat.Bitwise
import Liballo.Foundation.Memory

/-!
# The allocator interface

The functions of `allo.h`, `allo.c` and `allo_mem.h`: machine sizes, the
table of operations every allocator fills in, and the wrappers a client calls.

An operation works on a state that contains the memory. The result `none` stands
for a run that does not come back from the call: a failed assertion aborts the
process, and a walk over a damaged list may not end.
-/

namespace Liballo

open Foundation

/-!
# Machine sizes

A `size_t` is a natural number below `2 ^ 64`; sums are reduced where the source
adds two of them. A pointer is its address, and the null pointer is `0`.
-/

def sizeMod : Nat :=
  2 ^ 64

def sizeAdd (a b : Nat) : Nat :=
  (a + b) % sizeMod

def sizeMul (a b : Nat) : Nat :=
  (a * b) % sizeMod

/-- The difference of two addresses as a `size_t`. -/
def sizeSub (a b : Nat) : Nat :=
  (a + sizeMod - b) % sizeMod

def NULL : Nat :=
  0

def alloAlignUp (size align : Nat) : Nat :=
  ((size + align - 1) % sizeMod) &&& (sizeMod - 1 - (align - 1))

theorem sizeAdd_eq {a b : Nat} (h : a + b < 2 ^ 64) : sizeAdd a b = a + b :=
  Nat.mod_eq_of_lt h

theorem sizeAdd_lt (a b : Nat) : sizeAdd a b < 2 ^ 64 :=
  Nat.mod_lt _ (by decide)

theorem sizeSub_eq {a b : Nat} (hle : b ≤ a) (ha : a < 2 ^ 64) :
    sizeSub a b = a - b := by
  have hsum : a + sizeMod - b = a - b + sizeMod := by
    simp only [sizeMod]
    omega
  rw [sizeSub, hsum, Nat.add_mod_right]
  exact Nat.mod_eq_of_lt (Nat.lt_of_le_of_lt (Nat.sub_le a b) ha)

theorem sizeMul_eq {a b : Nat} (h : a * b < 2 ^ 64) : sizeMul a b = a * b :=
  Nat.mod_eq_of_lt h

/-- Masking off the low `k` bits rounds down to a multiple of `2 ^ k`. -/
theorem and_mask_eq {x k : Nat} (hx : x < 2 ^ 64) (hk : k ≤ 64) :
    x &&& (2 ^ 64 - 1 - (2 ^ k - 1)) = x / 2 ^ k * 2 ^ k := by
  have hpow : 0 < 2 ^ k := Nat.two_pow_pos k
  have hle : 2 ^ k ≤ 2 ^ 64 := Nat.pow_le_pow_right (by omega) hk
  have hmask : 2 ^ 64 - 1 - (2 ^ k - 1) = 2 ^ 64 - (2 ^ k - 1 + 1) := by omega
  apply Nat.eq_of_testBit_eq
  intro i
  rw [hmask, Nat.testBit_and, Nat.testBit_two_pow_sub_succ (by omega),
    Nat.testBit_two_pow_sub_one, Nat.testBit_mul_two_pow]
  by_cases hi : k ≤ i
  · have hbit : (x / 2 ^ k).testBit (i - k) = x.testBit i := by
      rw [Nat.testBit_div_two_pow]
      congr 1
      omega
    rw [hbit]
    by_cases h64 : i < 64
    · simp [hi, h64, Nat.not_lt.mpr hi]
    · have hzero : x.testBit i = false := by
        apply Nat.testBit_lt_two_pow
        exact Nat.lt_of_lt_of_le hx (Nat.pow_le_pow_right (by omega) (by omega))
      simp [hzero]
  · simp [hi, Nat.not_le.mp hi]

theorem alloAlignUp_two_pow {size k : Nat} (hk : k ≤ 64)
    (h : size + 2 ^ k - 1 < 2 ^ 64) :
    alloAlignUp size (2 ^ k) = (size + 2 ^ k - 1) / 2 ^ k * 2 ^ k := by
  have hmod : (size + 2 ^ k - 1) % 2 ^ 64 = size + 2 ^ k - 1 :=
    Nat.mod_eq_of_lt h
  simp only [alloAlignUp, sizeMod, hmod]
  exact and_mask_eq h hk

theorem alloAlignUp_eight {size : Nat} (h : size + 7 < 2 ^ 64) :
    alloAlignUp size 8 = (size + 7) / 8 * 8 :=
  alloAlignUp_two_pow (k := 3) (by omega) (by omega)

/-!
# Bulk memory operations
-/

/-- The copy asserts that neither pointer is null and that the ranges are apart. -/
def alloMemcpy (dst src n : Nat) (m : Mem) : Option Mem :=
  if dst = NULL ∨ src = NULL then none
  else if sizeAdd dst n ≤ src ∨ sizeAdd src n ≤ dst then some (m.copy dst src n)
  else none

def alloMemset (p c n : Nat) (m : Mem) : Mem :=
  { bytes := fun x => if p ≤ x ∧ x < p + n then UInt8.ofNat c else m.bytes x
    trace := Event.write p n :: m.trace }

theorem alloMemcpy_eq_some {dst src n : Nat} {m : Mem} (hdst : dst ≠ NULL)
    (hsrc : src ≠ NULL) (hdstLt : dst + n < 2 ^ 64) (hsrcLt : src + n < 2 ^ 64)
    (h : dst + n ≤ src ∨ src + n ≤ dst) :
    alloMemcpy dst src n m = some (m.copy dst src n) := by
  simp [alloMemcpy, hdst, hsrc, sizeAdd_eq hdstLt, sizeAdd_eq hsrcLt, h]

theorem alloMemcpy_some {dst src n : Nat} {m m' : Mem}
    (h : alloMemcpy dst src n m = some m') : m' = m.copy dst src n := by
  unfold alloMemcpy at h
  split at h
  · cases h
  · split at h
    · exact (Option.some.inj h).symm
    · cases h

theorem wrote_alloMemset {P : Nat -> Nat -> Prop} {p c n : Nat} {m : Mem}
    (hP : P p n) : Wrote P m (alloMemset p c n m) :=
  { trace := ⟨[Event.write p n], rfl, by simpa [Event.WritesOnly] using hP⟩
    bytes := fun x hx => by simp [alloMemset, hx p n hP] }

/-!
# Allocators
-/

inductive AlloError where
  | nomem
  | inval
  deriving DecidableEq, Repr

/-- The result of a constructor: the new state, or an error and what became of the
state it started from. -/
inductive Made (σ χ : Type) where
  | ok (s : σ)
  | failed (e : AlloError) (w : χ)

inductive AlloContains where
  | no
  | yes
  | unknown
  deriving DecidableEq, Repr

/-- `sizeof(allo_t)`: five function pointers and the state. -/
def sizeofAllo : Nat :=
  168

/-- The table of operations of an allocator whose calls work on states `σ`. -/
structure Allo (σ : Type) where
  alloc : Nat -> σ -> Option (Nat × σ)
  realloc : Nat -> Nat -> Nat -> σ -> Option (Nat × σ)
  freeMem : Nat -> Nat -> σ -> Option σ
  destroy : Option (σ -> Option σ)
  contains : Option (Nat -> σ -> Option AlloContains)

section Calls

variable {σ : Type} (a : Allo σ)

def alloAlloc (size : Nat) (s : σ) : Option (Nat × σ) :=
  a.alloc size s

def alloFree (ptr size : Nat) (s : σ) : Option σ :=
  a.freeMem ptr size s

def alloDestroy (s : σ) : Option σ :=
  match a.destroy with
  | some destroy => destroy s
  | none => some s

def alloContains (ptr : Nat) (s : σ) : Option AlloContains :=
  match a.contains with
  | some contains => contains ptr s
  | none => some AlloContains.unknown

def alloCalloc [HasMem σ] (nmemb size : Nat) (s : σ) : Option (Nat × σ) :=
  if size > 0 ∧ nmemb > (sizeMod - 1) / size then some (NULL, s)
  else do
    let total := sizeMul nmemb size
    let (ptr, s) ← alloAlloc a total s
    if ptr = NULL then some (ptr, s)
    else some (ptr, modifyMem (alloMemset ptr 0 total) s)

def alloRealloc (ptr oldSize newSize : Nat) (s : σ) : Option (Nat × σ) :=
  if newSize = 0 then do
    let s ← alloFree a ptr oldSize s
    some (NULL, s)
  else if ptr = NULL then alloAlloc a newSize s
  else if oldSize = newSize then some (ptr, s)
  else a.realloc ptr oldSize newSize s

end Calls

end Liballo
