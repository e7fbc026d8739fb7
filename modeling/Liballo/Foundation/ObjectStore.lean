import Liballo.Foundation.DataRefinement
import Liballo.Foundation.Mappings

/-!
# The object store

What a memory manager is for, without addresses being computed or lists being kept: a
client holds objects of bytes. It may ask for new ones, resize the ones it holds and give
them back, and what it stored in an object is what it finds there. A byte that was never
stored is indeterminate.
-/

namespace Liballo
namespace Foundation

/-- An object. The entry `none` stands for an indeterminate byte. -/
structure Object where
  ptr : Nat
  data : List (Option UInt8)
  deriving DecidableEq, Repr

abbrev Objects : Type :=
  List Object

namespace Object

def block (o : Object) : Block :=
  ⟨o.ptr, o.data.length⟩

def write (x : Nat) (v : UInt8) (o : Object) : Object :=
  if o.block.Contains x then { o with data := o.data.set (x - o.ptr) (some v) } else o

/-- The memory holds the determinate bytes of the object. -/
def Agrees (m : Mem) (o : Object) : Prop :=
  forall i v, o.data[i]? = some (some v) -> m.bytes (o.ptr + i) = v

@[simp] theorem block_write (x : Nat) (v : UInt8) (o : Object) :
    (o.write x v).block = o.block := by
  unfold write
  split
  · simp [block]
  · rfl

theorem contains_of_data {o : Object} {i : Nat} {d : Option UInt8}
    (h : o.data[i]? = some d) : o.block.Contains (o.ptr + i) := by
  have hi : i < o.data.length := (List.getElem?_eq_some_iff.mp h).choose
  exact ⟨Nat.le_add_right _ _, Nat.add_lt_add_left hi _⟩

theorem Agrees.congr {m m' : Mem} {o : Object} (h : o.Agrees m)
    (hbytes : forall x, o.block.Contains x -> m'.bytes x = m.bytes x) : o.Agrees m' := by
  intro i v hi
  rw [hbytes _ (contains_of_data hi)]
  exact h i v hi

/-- An object the client knows nothing about. -/
theorem agrees_replicate_none (m : Mem) (p n : Nat) :
    Agrees m ⟨p, List.replicate n none⟩ := by
  intro i v hi
  rw [List.getElem?_replicate] at hi
  split at hi
  · cases hi
  · cases hi

theorem agrees_replicate_some {m : Mem} {p n : Nat} {v : UInt8}
    (h : forall i, i < n -> m.bytes (p + i) = v) :
    Agrees m ⟨p, List.replicate n (some v)⟩ := by
  intro i u hi
  rw [List.getElem?_replicate] at hi
  split at hi
  · rename_i hlt
    cases hi
    exact h i hlt
  · cases hi

theorem Agrees.write {m : Mem} {o : Object} (h : o.Agrees m) (x : Nat) (v : UInt8) :
    (o.write x v).Agrees (m.poke x v) := by
  unfold Object.write
  split
  · rename_i hx
    intro i u hi
    have hle : o.ptr ≤ x := hx.left
    rw [List.getElem?_set] at hi
    by_cases hxi : x - o.ptr = i
    · rw [if_pos hxi] at hi
      split at hi
      · cases hi
        have haddr : o.ptr + i = x := by omega
        rw [show ({ o with data := o.data.set (x - o.ptr) (some v) } : Object).ptr = o.ptr
          from rfl, haddr]
        simp [Mem.poke]
      · cases hi
    · rw [if_neg hxi] at hi
      have hne : o.ptr + i ≠ x := by omega
      rw [Mem.poke_bytes_ne hne]
      exact h i u hi
  · rename_i hx
    apply h.congr
    intro y hy
    apply Mem.poke_bytes_ne
    intro heq
    exact hx (heq ▸ hy)

end Object

/-!
# Operations on the objects a client holds
-/

/-- What remains of the bytes of an object that is resized. -/
def resized (data : List (Option UInt8)) (n : Nat) : List (Option UInt8) :=
  data.take n ++ List.replicate (n - data.length) none

theorem length_resized (data : List (Option UInt8)) (n : Nat) :
    (resized data n).length = n := by
  simp only [resized, List.length_append, List.length_take, List.length_replicate]
  omega

theorem resized_some {data : List (Option UInt8)} {n i : Nat} {v : UInt8}
    (h : (resized data n)[i]? = some (some v)) :
    i < min data.length n ∧ data[i]? = some (some v) := by
  unfold resized at h
  rw [List.getElem?_append] at h
  split at h
  · rename_i hlt
    rw [List.length_take] at hlt
    rw [List.getElem?_take_of_lt (by omega)] at h
    exact ⟨by omega, h⟩
  · rw [List.getElem?_replicate] at h
    split at h
    · cases h
    · cases h

namespace Objects

def blocks (L : Objects) : List Block :=
  L.map Object.block

def contents (b : Block) (L : Objects) : List (Option UInt8) :=
  match L.find? (fun o => o.block = b) with
  | some o => o.data
  | none => []

def release (b : Block) (L : Objects) : Objects :=
  L.eraseP (fun o => o.block = b)

def resize (b : Block) (p n : Nat) (L : Objects) : Objects :=
  ⟨p, resized (contents b L) n⟩ :: release b L

def write (x : Nat) (v : UInt8) (L : Objects) : Objects :=
  L.map (Object.write x v)

/-- The memory holds the determinate bytes of all objects. -/
def Agree (m : Mem) (L : Objects) : Prop :=
  forall o, o ∈ L -> o.Agrees m

variable {L : Objects} {b : Block} {m m' : Mem}

@[simp] theorem blocks_write (x : Nat) (v : UInt8) : (L.write x v).blocks = L.blocks := by
  simp [blocks, write, Function.comp_def]

theorem blocks_release : (L.release b).blocks = L.blocks.erase b := by
  induction L with
  | nil => rfl
  | cons o L ih =>
      simp only [release, blocks, List.map_cons] at ih ⊢
      by_cases heq : o.block = b
      · rw [List.eraseP_cons_of_pos (by simpa using heq), heq, List.erase_cons_head]
      · rw [List.eraseP_cons_of_neg (by simpa using heq), List.map_cons, ih,
          List.erase_cons_tail (by simpa using heq)]

theorem blocks_resize (p n : Nat) :
    (L.resize b p n).blocks = ⟨p, n⟩ :: L.blocks.erase b := by
  rw [← blocks_release]
  simp [resize, blocks, Object.block, length_resized]

/-- The object that is held as the block. -/
theorem exists_object (hb : b ∈ L.blocks) :
    exists o, o ∈ L ∧ o.block = b ∧ L.contents b = o.data := by
  rcases List.mem_map.mp hb with ⟨o', ho', hblock'⟩
  cases hfind : L.find? (fun o => o.block = b) with
  | none =>
      have hno := List.find?_eq_none.mp hfind o' ho'
      exact absurd hblock' (by simpa using hno)
  | some o =>
      have hblock : o.block = b := by simpa using List.find?_some hfind
      refine ⟨o, List.mem_of_find?_eq_some hfind, hblock, ?_⟩
      simp only [contents, hfind]

theorem length_contents (hb : b ∈ L.blocks) : (L.contents b).length = b.size := by
  rcases exists_object hb with ⟨o, _, hblock, hdata⟩
  rw [hdata, ← hblock]
  rfl

namespace Agree

theorem congr (h : Agree m L)
    (hbytes : forall b, b ∈ L.blocks -> forall x, b.Contains x -> m'.bytes x = m.bytes x) :
    Agree m' L :=
  fun o ho => (h o ho).congr (hbytes o.block (List.mem_map_of_mem ho))

theorem place (h : Agree m L) {o : Object} (ho : o.Agrees m) : Agree m (o :: L) := by
  intro o' ho'
  cases ho' with
  | head => exact ho
  | tail _ ho' => exact h o' ho'

theorem release (h : Agree m L)
    (hbytes : forall c, c ∈ L.blocks.erase b ->
      forall x, c.Contains x -> m'.bytes x = m.bytes x) : Agree m' (L.release b) := by
  have hkept : Agree m (L.release b) := fun o ho => h o (List.mem_of_mem_eraseP ho)
  apply hkept.congr
  rw [blocks_release]
  exact hbytes

/-- The common prefix of the object moves along. -/
theorem resize (h : Agree m L) (hb : b ∈ L.blocks) {p n : Nat}
    (hbytes : forall c, c ∈ L.blocks.erase b ->
      forall x, c.Contains x -> m'.bytes x = m.bytes x)
    (hmoved : forall i, i < min b.size n -> m'.bytes (p + i) = m.bytes (b.ptr + i)) :
    Agree m' (L.resize b p n) := by
  apply (h.release hbytes).place
  intro i v hi
  rcases resized_some hi with ⟨hlt, hold⟩
  rw [length_contents hb] at hlt
  rcases exists_object hb with ⟨o, ho, hblock, hdata⟩
  have hptr : o.ptr = b.ptr := congrArg Block.ptr hblock
  rw [hdata] at hold
  rw [hmoved i hlt, ← hptr]
  exact h o ho i v hold

theorem write (h : Agree m L) (x : Nat) (v : UInt8) :
    Agree (m.poke x v) (L.write x v) := by
  intro o ho
  rcases List.mem_map.mp ho with ⟨o', ho', rfl⟩
  exact (h o' ho').write x v

end Agree

end Objects

/-!
# The interface

A client names objects it holds. A new object lies apart from all others.
-/

inductive Request where
  | alloc (size : Nat)
  | calloc (nmemb size : Nat)
  | free (b : Block)
  | freeNull (size : Nat)
  | realloc (b : Block) (newSize : Nat)
  | reallocNull (oldSize newSize : Nat)
  | store (x : Nat) (v : UInt8)
  deriving DecidableEq, Repr

namespace Objects

/-- A client asks for fewer than `limit` bytes, or for an array that does not fit into
the address space. -/
def LegalRequest (limit : Nat) (L : Objects) : Request -> Prop
  | Request.alloc size => size < limit
  | Request.calloc nmemb size => nmemb < 2 ^ 64 ∧ size < 2 ^ 64 ∧
      (nmemb * size < limit ∨ 2 ^ 64 ≤ nmemb * size)
  | Request.free b => b ∈ L.blocks
  | Request.freeNull _ => True
  | Request.realloc b newSize => b ∈ L.blocks ∧ newSize < limit
  | Request.reallocNull _ newSize => newSize < limit
  | Request.store x _ => exists b, b ∈ L.blocks ∧ b.Contains x

/-- The answer `p` to a request for `n` bytes: the null address, or the address of a new
object. -/
def Placed (L : List Block) (n p : Nat) : Prop :=
  p = 0 ∨ Granted ⟨p, n⟩ L

def AllowsAnswer (L : Objects) : Request -> Nat -> Prop
  | Request.alloc size, p => Placed L.blocks size p
  | Request.calloc nmemb size, p => Placed L.blocks (nmemb * size) p
  | Request.realloc b newSize, p =>
      if newSize = 0 then p = 0 else Placed (L.blocks.erase b) newSize p
  | Request.reallocNull _ newSize, p =>
      if newSize = 0 then p = 0 else Placed L.blocks newSize p
  | _, p => p = 0

def place (p : Nat) (data : List (Option UInt8)) (L : Objects) : Objects :=
  if p = 0 then L else ⟨p, data⟩ :: L

def afterRequest (L : Objects) : Request -> Nat -> Objects
  | Request.alloc size, p => L.place p (List.replicate size none)
  | Request.calloc nmemb size, p => L.place p (List.replicate (nmemb * size) (some 0))
  | Request.free b, _ => L.release b
  | Request.freeNull _, _ => L
  | Request.realloc b newSize, p =>
      if newSize = 0 then L.release b else if p = 0 then L else L.resize b p newSize
  | Request.reallocNull _ newSize, p =>
      if newSize = 0 then L else L.place p (List.replicate newSize none)
  | Request.store x v, _ => L.write x v

end Objects

def objectStore (limit : Nat) : Interface Objects Request Nat where
  Legal := Objects.LegalRequest limit
  Allows := Objects.AllowsAnswer
  after := Objects.afterRequest

/-!
# Objects never overlap
-/

namespace Objects

def Apart (L : Objects) : Prop :=
  AllWellFormed L.blocks ∧ AllDisjoint L.blocks

variable {L : Objects} {b : Block} {p n : Nat}

theorem Apart.erase (h : Apart L) (b : Block) :
    AllWellFormed (L.blocks.erase b) ∧ AllDisjoint (L.blocks.erase b) :=
  ⟨fun c hc => h.left c (List.mem_of_mem_erase hc), h.right.erase b⟩

theorem apart_cons {M : List Block} (h : AllWellFormed M ∧ AllDisjoint M)
    (hnew : Granted b M) : AllWellFormed (b :: M) ∧ AllDisjoint (b :: M) := by
  constructor
  · intro c hc
    cases hc with
    | head => exact hnew.left
    | tail _ hc => exact h.left c hc
  · exact List.pairwise_cons.mpr ⟨hnew.right, h.right⟩

theorem Apart.place (h : Apart L) {data : List (Option UInt8)}
    (hp : Placed L.blocks data.length p) : Apart (L.place p data) := by
  unfold Objects.place
  split
  · exact h
  · rename_i hne
    exact apart_cons h (hp.resolve_left hne)

theorem Apart.release (h : Apart L) (b : Block) : Apart (L.release b) := by
  unfold Apart
  rw [blocks_release]
  exact h.erase b

theorem Apart.resize (h : Apart L) (hnew : Granted ⟨p, n⟩ (L.blocks.erase b)) :
    Apart (L.resize b p n) := by
  unfold Apart
  rw [blocks_resize]
  exact apart_cons (h.erase b) hnew

/-- One exchange. -/
theorem Apart.after {c : Request} (h : Apart L) (hallows : L.AllowsAnswer c p) :
    Apart (L.afterRequest c p) := by
  cases c with
  | alloc size =>
      have hp : Placed L.blocks size p := hallows
      exact h.place (by simpa using hp)
  | calloc nmemb size =>
      have hp : Placed L.blocks (nmemb * size) p := hallows
      exact h.place (by simpa using hp)
  | free b => exact h.release b
  | freeNull size => exact h
  | realloc b newSize =>
      simp only [AllowsAnswer, afterRequest] at hallows ⊢
      split
      · exact h.release b
      · rename_i hzero
        rw [if_neg hzero] at hallows
        split
        · exact h
        · rename_i hp
          exact h.resize (hallows.resolve_left hp)
  | reallocNull oldSize newSize =>
      simp only [AllowsAnswer, afterRequest] at hallows ⊢
      split
      · exact h
      · rename_i hzero
        rw [if_neg hzero] at hallows
        exact h.place (by simpa using hallows)
  | store x v =>
      simp only [Apart, afterRequest, blocks_write]
      exact h

/-- Every exchange of every dialogue. -/
theorem Apart.replay {limit : Nat} {es : List (Request × Nat)} (h : Apart L)
    (hlegal : (objectStore limit).LegalAll L es)
    (hallows : (objectStore limit).AllowsAll L es) :
    Apart ((objectStore limit).replay L es) :=
  Interface.replay_invariant Apart (fun _ _ _ ht _ hp => Apart.after ht hp) h hlegal hallows

end Objects

end Foundation
end Liballo
