import Mathlib.Data.List.Basic
import Mathlib.Data.Nat.Basic
import Mathlib.Tactic.Ring

/-!
# Byte memory with an access trace

A flat memory of bytes in which programs keep little-endian machine words,
together with the trace of what a program did to it, newest event first. The
trace lets a theorem speak about every write of a call, also about one that
stores the value that was there before.
-/

namespace Liballo
namespace Foundation

/-- The contents of the address space. -/
abbrev Bytes : Type := Nat -> UInt8

/-!
# Little-endian numbers

`loadLE` reads the number kept in `n` consecutive bytes and `storeLE` writes
one. A load sees exactly the bytes it covers.
-/

def loadLE (b : Bytes) : Nat -> Nat -> Nat
  | _, 0 => 0
  | a, n + 1 => (b a).toNat + 256 * loadLE b (a + 1) n

def storeLE (b : Bytes) (a n v : Nat) : Bytes :=
  fun x => if a ≤ x ∧ x < a + n then UInt8.ofNat (v / 256 ^ (x - a)) else b x

theorem storeLE_outside {b : Bytes} {a n v x : Nat}
    (hx : ¬ (a ≤ x ∧ x < a + n)) : storeLE b a n v x = b x := by
  simp [storeLE, hx]

theorem loadLE_congr {b c : Bytes} {a n : Nat}
    (h : forall x, a ≤ x -> x < a + n -> b x = c x) :
    loadLE b a n = loadLE c a n := by
  induction n generalizing a with
  | zero => rfl
  | succ n ih =>
      have hhead : b a = c a := h a (Nat.le_refl a) (by omega)
      have htail : loadLE b (a + 1) n = loadLE c (a + 1) n :=
        ih (fun x hx hlt => h x (by omega) (by omega))
      simp [loadLE, hhead, htail]

theorem loadLE_shift {b c : Bytes} {a d n : Nat}
    (h : forall i, i < n -> c (d + i) = b (a + i)) :
    loadLE c d n = loadLE b a n := by
  induction n generalizing a d with
  | zero => rfl
  | succ n ih =>
      have hhead : c d = b a := h 0 (Nat.succ_pos n)
      have htail : loadLE c (d + 1) n = loadLE b (a + 1) n := by
        apply ih
        intro i hi
        rw [Nat.add_right_comm, Nat.add_right_comm a]
        exact h (i + 1) (Nat.succ_lt_succ hi)
      rw [loadLE, loadLE, hhead, htail]

theorem loadLE_of_digits {b : Bytes} {a n v : Nat}
    (h : forall i, i < n -> (b (a + i)).toNat = v / 256 ^ i % 256) :
    loadLE b a n = v % 256 ^ n := by
  induction n generalizing a v with
  | zero => simp [loadLE, Nat.mod_one]
  | succ n ih =>
      have hhead : (b a).toNat = v % 256 := by simpa using h 0 (by omega)
      have htail : loadLE b (a + 1) n = v / 256 % 256 ^ n := by
        apply ih
        intro i hi
        have hdigit := h (i + 1) (by omega)
        rw [show a + 1 + i = a + (i + 1) by omega, hdigit, Nat.pow_succ,
          Nat.mul_comm, Nat.div_div_eq_div_mul]
      rw [loadLE, hhead, htail, Nat.pow_succ, Nat.mul_comm (256 ^ n) 256,
        Nat.mod_mul]

theorem loadLE_storeLE_same {b : Bytes} {a n v : Nat} (hv : v < 256 ^ n) :
    loadLE (storeLE b a n v) a n = v := by
  rw [loadLE_of_digits (v := v), Nat.mod_eq_of_lt hv]
  intro i hi
  have hin : a ≤ a + i ∧ a + i < a + n := by omega
  simp [storeLE, hin]

theorem loadLE_storeLE_disjoint {b : Bytes} {a n v c k : Nat}
    (h : c + k ≤ a ∨ a + n ≤ c) :
    loadLE (storeLE b a n v) c k = loadLE b c k :=
  loadLE_congr (fun _ _ _ => storeLE_outside (by omega))

theorem loadLE_lt (b : Bytes) (a n : Nat) : loadLE b a n < 256 ^ n := by
  induction n generalizing a with
  | zero => simp [loadLE]
  | succ n ih =>
      have hhead : (b a).toNat < 256 := (b a).toNat_lt
      have htail := ih (a + 1)
      rw [loadLE, Nat.pow_succ]
      omega

/-!
# Events and memories

An event is one access of the program. `touch` stands for an access to an
object whose contents are kept outside the bytes, `index` for an access to entry
`i` of an array of `len` entries, and `divide` for a division by `d`. The last
four are answers of the operating system to requests about mappings.
-/

inductive Event where
  | read (addr len : Nat)
  | write (addr len : Nat)
  | poison (addr len : Nat)
  | unpoison (addr len : Nat)
  | touch (addr len : Nat)
  | index (i len : Nat)
  | divide (d : Nat)
  | map (addr len : Nat)
  | remap (addr len addr' len' : Nat)
  | unmap (addr len : Nat)
  | refuse
  deriving DecidableEq, Repr

structure Mem where
  bytes : Bytes
  trace : List Event

namespace Mem

/-- The eight-byte word at `a`. -/
def word (m : Mem) (a : Nat) : Nat :=
  loadLE m.bytes a 8

def note (e : Event) (m : Mem) : Mem :=
  { m with trace := e :: m.trace }

def writeWord (a v : Nat) (m : Mem) : Mem :=
  { bytes := storeLE m.bytes a 8 v, trace := Event.write a 8 :: m.trace }

/-- Copy `n` bytes from `src` to `dst`; the ranges are read before the write. -/
def copy (dst src n : Nat) (m : Mem) : Mem :=
  { bytes := fun x =>
      if dst ≤ x ∧ x < dst + n then m.bytes (src + (x - dst)) else m.bytes x
    trace := Event.write dst n :: Event.read src n :: m.trace }

/-- A store of one byte by a client of the program; it is not traced. -/
def poke (x : Nat) (v : UInt8) (m : Mem) : Mem :=
  { m with bytes := Function.update m.bytes x v }

@[simp] theorem note_bytes (e : Event) (m : Mem) :
    (m.note e).bytes = m.bytes := rfl

@[simp] theorem note_trace (e : Event) (m : Mem) :
    (m.note e).trace = e :: m.trace := rfl

@[simp] theorem word_note (e : Event) (m : Mem) (a : Nat) :
    (m.note e).word a = m.word a := rfl

@[simp] theorem writeWord_trace (a v : Nat) (m : Mem) :
    (m.writeWord a v).trace = Event.write a 8 :: m.trace := rfl

@[simp] theorem poke_trace (x : Nat) (v : UInt8) (m : Mem) :
    (m.poke x v).trace = m.trace := rfl

theorem word_lt (m : Mem) (a : Nat) : m.word a < 2 ^ 64 := by
  simpa [word] using loadLE_lt m.bytes a 8

theorem word_writeWord_same {m : Mem} {a v : Nat} (hv : v < 2 ^ 64) :
    (m.writeWord a v).word a = v :=
  loadLE_storeLE_same (by simpa using hv)

theorem word_writeWord_disjoint {m : Mem} {a v c : Nat}
    (h : c + 8 ≤ a ∨ a + 8 ≤ c) :
    (m.writeWord a v).word c = m.word c :=
  loadLE_storeLE_disjoint h

theorem writeWord_bytes_outside {m : Mem} {a v x : Nat}
    (hx : ¬ (a ≤ x ∧ x < a + 8)) : (m.writeWord a v).bytes x = m.bytes x :=
  storeLE_outside hx

theorem copy_bytes_inside {m : Mem} {dst src n i : Nat} (hi : i < n) :
    (m.copy dst src n).bytes (dst + i) = m.bytes (src + i) := by
  simp [copy, hi]

theorem copy_bytes_outside {m : Mem} {dst src n x : Nat}
    (hx : ¬ (dst ≤ x ∧ x < dst + n)) :
    (m.copy dst src n).bytes x = m.bytes x := by
  simp [copy, hx]

theorem poke_bytes_ne {m : Mem} {x y : Nat} {v : UInt8} (h : y ≠ x) :
    (m.poke x v).bytes y = m.bytes y := by
  simp [poke, h]

theorem word_congr {m m' : Mem} {a : Nat}
    (h : forall x, a ≤ x -> x < a + 8 -> m'.bytes x = m.bytes x) :
    m'.word a = m.word a :=
  loadLE_congr h

end Mem

/-!
# What a step wrote

`Wrote P m m'` says that `m'` came from `m` by local accesses all of whose
writes go to ranges allowed by `P`, and that no byte outside these ranges
changed. It composes, so a call is bounded by bounding its primitive steps.
-/

def Event.WritesOnly (P : Nat -> Nat -> Prop) : Event -> Prop
  | Event.write a n => P a n
  | Event.map _ _ => False
  | Event.remap _ _ _ _ => False
  | Event.unmap _ _ => False
  | Event.refuse => False
  | _ => True

structure Wrote (P : Nat -> Nat -> Prop) (m m' : Mem) : Prop where
  trace : exists es, m'.trace = es ++ m.trace ∧
    forall e, e ∈ es -> e.WritesOnly P
  bytes : forall x, (forall a n, P a n -> ¬ (a ≤ x ∧ x < a + n)) ->
    m'.bytes x = m.bytes x

theorem Event.WritesOnly.mono {P Q : Nat -> Nat -> Prop}
    (hPQ : forall a n, P a n -> Q a n) {e : Event} (h : e.WritesOnly P) :
    e.WritesOnly Q := by
  cases e <;> first
    | exact hPQ _ _ h
    | exact h

namespace Wrote

variable {P Q : Nat -> Nat -> Prop} {m m' m'' : Mem}

theorem refl (P : Nat -> Nat -> Prop) (m : Mem) : Wrote P m m :=
  { trace := ⟨[], rfl, by simp⟩
    bytes := fun _ _ => rfl }

theorem trans (h : Wrote P m m') (h' : Wrote P m' m'') : Wrote P m m'' := by
  rcases h.trace with ⟨es, hes, hall⟩
  rcases h'.trace with ⟨es', hes', hall'⟩
  refine ⟨⟨es' ++ es, ?_, ?_⟩, ?_⟩
  · rw [hes', hes, List.append_assoc]
  · intro e he
    rcases List.mem_append.mp he with hnew | hold
    · exact hall' e hnew
    · exact hall e hold
  · intro x hx
    rw [h'.bytes x hx, h.bytes x hx]

theorem mono (hPQ : forall a n, P a n -> Q a n) (h : Wrote P m m') :
    Wrote Q m m' := by
  rcases h.trace with ⟨es, hes, hall⟩
  refine ⟨⟨es, hes, fun e he => (hall e he).mono hPQ⟩, ?_⟩
  intro x hx
  exact h.bytes x (fun a n hP => hx a n (hPQ a n hP))

theorem note {e : Event} (he : e.WritesOnly P) : Wrote P m (m.note e) :=
  { trace := ⟨[e], rfl, by simpa using he⟩
    bytes := fun _ _ => rfl }

/-- The bound holds for all that was noted in between. -/
theorem events (h : Wrote P m m') {es : List Event} (htrace : m'.trace = es ++ m.trace) :
    forall e, e ∈ es -> e.WritesOnly P := by
  rcases h.trace with ⟨es', htrace', hall⟩
  rw [htrace] at htrace'
  rw [List.append_cancel_right htrace']
  exact hall

theorem writeWord {a v : Nat} (hP : P a 8) : Wrote P m (m.writeWord a v) :=
  { trace := ⟨[Event.write a 8], rfl, by simpa [Event.WritesOnly] using hP⟩
    bytes := fun x hx => Mem.writeWord_bytes_outside (hx a 8 hP) }

theorem copy {dst src n : Nat} (hP : P dst n) :
    Wrote P m (m.copy dst src n) :=
  { trace := ⟨[Event.write dst n, Event.read src n], rfl, by
      simpa [Event.WritesOnly] using hP⟩
    bytes := fun x hx => Mem.copy_bytes_outside (hx dst n hP) }

theorem poke {x : Nat} {v : UInt8} (hP : P x 1) : Wrote P m (m.poke x v) := by
  refine ⟨⟨[], rfl, by simp⟩, ?_⟩
  intro y hy
  apply Mem.poke_bytes_ne
  intro heq
  exact hy x 1 hP (by omega)

/-- A word none of whose bytes may be written keeps its value. -/
theorem word_eq (h : Wrote P m m') {c : Nat}
    (hc : forall a n, P a n -> c + 8 ≤ a ∨ a + n ≤ c) :
    m'.word c = m.word c := by
  apply Mem.word_congr
  intro x hx hlt
  apply h.bytes
  intro a n hP hin
  rcases hc a n hP with hbelow | habove
  · omega
  · omega

end Wrote

/-!
# States that contain a memory

An allocator may run inside a larger state. The class names the memory of such a
state, so that one definition serves every place the allocator is used in.
-/

class HasMem (σ : Type) where
  mem : σ -> Mem
  setMem : Mem -> σ -> σ
  mem_setMem : forall m s, mem (setMem m s) = m
  setMem_mem : forall s, setMem (mem s) s = s
  setMem_setMem : forall m m' s, setMem m (setMem m' s) = setMem m s

export HasMem (mem setMem)

attribute [simp] HasMem.mem_setMem HasMem.setMem_mem HasMem.setMem_setMem

def modifyMem {σ : Type} [HasMem σ] (f : Mem -> Mem) (s : σ) : σ :=
  setMem (f (mem s)) s

@[simp] theorem mem_modifyMem {σ : Type} [HasMem σ] (f : Mem -> Mem) (s : σ) :
    mem (modifyMem f s) = f (mem s) := by
  simp [modifyMem]

instance : HasMem Mem where
  mem := id
  setMem := fun m _ => m
  mem_setMem := by intros; rfl
  setMem_mem := by intros; rfl
  setMem_setMem := by intros; rfl

end Foundation
end Liballo
