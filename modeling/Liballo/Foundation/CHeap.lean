import Liballo.Foundation.Mappings

/-!
# The heap of the C library

The functions `malloc`, `realloc` and `free` of a C library that is free to choose: it
either refuses a request or grants an aligned block apart from all it handed out, and in
every call it may change every byte that it did not hand out, where it keeps its own
books. What the language leaves undefined is a run that does not come back.
-/

namespace Liballo
namespace Foundation

/-- The library intends the address `answer i` for the `i`-th call, and leaves
`scribble i x` in a byte `x` of its own. -/
structure CLib where
  answer : Nat -> Nat
  scribble : Nat -> Nat -> UInt8

structure CHeap where
  owned : List Block
  calls : Nat
  mem : Mem

instance : HasMem CHeap where
  mem := CHeap.mem
  setMem := fun m h => { h with mem := m }
  mem_setMem := by intros; rfl
  setMem_mem := by intros; rfl
  setMem_setMem := by intros; rfl

namespace CHeap

/-- `_Alignof(max_align_t)` -/
def alignment : Nat :=
  16

/-- A block that the library may hand out besides the blocks `L`. -/
def Fresh (b : Block) (L : List Block) : Prop :=
  alignment ∣ b.ptr ∧ Granted b L

instance (b : Block) (L : List Block) : Decidable (Fresh b L) :=
  inferInstanceAs (Decidable (_ ∧ _))

/-- The library works on the bytes it did not hand out. -/
def work (lib : CLib) (h : CHeap) : CHeap :=
  { h with
    calls := h.calls + 1
    mem := { h.mem with
      bytes := fun x =>
        if Covered h.owned x then h.mem.bytes x else lib.scribble h.calls x } }

def malloc (lib : CLib) (n : Nat) (h : CHeap) : Nat × CHeap :=
  let b : Block := ⟨lib.answer h.calls, n⟩
  let h := h.work lib
  if Fresh b h.owned then (b.ptr, { h with owned := b :: h.owned }) else (0, h)

/-- The block that was handed out at the address. -/
def find (p : Nat) (h : CHeap) : Option Block :=
  h.owned.find? (fun b => b.ptr = p)

def free (lib : CLib) (p : Nat) (h : CHeap) : Option CHeap :=
  if p = 0 then some h
  else do
    let b ← h.find p
    some (({ h with owned := h.owned.erase b } : CHeap).work lib)

/-- The block is resized where it is or moved. A request for no bytes has no defined
meaning. -/
def realloc (lib : CLib) (p n : Nat) (h : CHeap) : Option (Nat × CHeap) :=
  if p = 0 then some (h.malloc lib n)
  else if n = 0 then none
  else do
    let b ← h.find p
    let b' : Block := ⟨lib.answer h.calls, n⟩
    let h := h.work lib
    if Fresh b' (h.owned.erase b) then
      some (b'.ptr,
        { h with
          owned := b' :: h.owned.erase b
          mem := { h.mem with
            bytes := (h.mem.copy b'.ptr b.ptr (min b.size n)).bytes } })
    else some (0, h)

variable {lib : CLib} {h : CHeap} {b : Block} {n : Nat} {base L : List Block}

@[simp] theorem owned_work (lib : CLib) (h : CHeap) : (h.work lib).owned = h.owned := rfl

@[simp] theorem trace_work (lib : CLib) (h : CHeap) :
    (h.work lib).mem.trace = h.mem.trace := rfl

theorem trace_malloc (lib : CLib) (n : Nat) (h : CHeap) :
    (h.malloc lib n).2.mem.trace = h.mem.trace := by
  unfold malloc
  dsimp only
  split
  · rfl
  · rfl

theorem trace_free {p : Nat} {h' : CHeap} (hcall : h.free lib p = some h') :
    h'.mem.trace = h.mem.trace := by
  unfold free at hcall
  split at hcall
  · cases hcall
    rfl
  · rcases Option.bind_eq_some_iff.mp hcall with ⟨c, _, heq⟩
    cases heq
    rfl

theorem trace_realloc {p q : Nat} {h' : CHeap} (hcall : h.realloc lib p n = some (q, h')) :
    h'.mem.trace = h.mem.trace := by
  unfold realloc at hcall
  split at hcall
  · have htrace := trace_malloc lib n h
    rw [Option.some.inj hcall] at htrace
    exact htrace
  · split at hcall
    · cases hcall
    · rcases Option.bind_eq_some_iff.mp hcall with ⟨c, _, heq⟩
      dsimp only at heq
      split at heq
      · cases heq
        rfl
      · cases heq
        rfl

/-- The library leaves alone what it handed out. -/
theorem bytes_work (hb : b ∈ h.owned) {x : Nat} (hx : b.Contains x) :
    (h.work lib).mem.bytes x = h.mem.bytes x :=
  if_pos ⟨b, hb, hx⟩

/-!
# Outcomes of calls

A program holds the blocks `L`; the other blocks that were handed out belong to
somebody else.
-/

/-- The program holds the blocks `L` of a heap in good order. -/
structure Serves (base L : List Block) (h : CHeap) : Prop where
  holds : Holds base L h.owned
  wellFormed : AllWellFormed h.owned
  aligned : forall b, b ∈ L -> alignment ∣ b.ptr

/-- The bytes of the blocks `L` are kept. -/
def Keeps (L : List Block) (h h' : CHeap) : Prop :=
  forall b, b ∈ L -> forall x, b.Contains x -> h'.mem.bytes x = h.mem.bytes x

namespace Serves

/-- A program that starts holds nothing. -/
theorem start (howned : AllWellFormed h.owned) : Serves h.owned [] h where
  holds := Holds.start h.owned
  wellFormed := howned
  aligned := fun _ hb => absurd hb List.not_mem_nil

/-- When the program holds nothing, what is owned is somebody else's. -/
theorem owned_perm (hs : Serves base [] h) : h.owned.Perm base :=
  hs.holds.maps

theorem perm (hs : Serves base L h) {M : List Block} (hperm : L.Perm M) :
    Serves base M h where
  holds := hs.holds.perm hperm
  wellFormed := hs.wellFormed
  aligned := fun b hb => hs.aligned b (hperm.mem_iff.mpr hb)

/-- A heap is in good order as long as the same blocks are handed out. -/
theorem congr (hs : Serves base L h) {h' : CHeap} (howned : h'.owned = h.owned) :
    Serves base L h' where
  holds := howned ▸ hs.holds
  wellFormed := howned ▸ hs.wellFormed
  aligned := hs.aligned

theorem note (hs : Serves base L h) (e : Event) :
    Serves base L (modifyMem (Mem.note e) h) :=
  hs.congr rfl

theorem grant (hs : Serves base L h) (hfresh : Fresh b h.owned) {h' : CHeap}
    (howned : h'.owned = b :: h.owned) : Serves base (b :: L) h' := by
  constructor
  · rw [howned]
    exact hs.holds.map hfresh.right
  · rw [howned]
    intro c hc
    cases hc with
    | head => exact hfresh.right.left
    | tail _ hc => exact hs.wellFormed c hc
  · intro c hc
    cases hc with
    | head => exact hfresh.left
    | tail _ hc => exact hs.aligned c hc

theorem release (hs : Serves base L h) (hb : b ∈ L) {h' : CHeap}
    (howned : h'.owned = h.owned.erase b) : Serves base (L.erase b) h' := by
  constructor
  · rw [howned]
    exact hs.holds.unmap hb
  · rw [howned]
    exact fun c hc => hs.wellFormed c (List.mem_of_mem_erase hc)
  · exact fun c hc => hs.aligned c (List.mem_of_mem_erase hc)

theorem owned (hs : Serves base L h) (hb : b ∈ L) : b ∈ h.owned :=
  hs.holds.mem hb

theorem owned_erase (hs : Serves base L h) (hb : b ∈ L) {c : Block} (hc : c ∈ L.erase b) :
    c ∈ h.owned.erase b :=
  (hs.holds.unmap hb).mem hc

/-- An address identifies the block that is held there. -/
theorem find_eq (hs : Serves base L h) (hb : b ∈ L) : h.find b.ptr = some b := by
  cases hfind : h.find b.ptr with
  | none =>
      have hno := List.find?_eq_none.mp hfind b (hs.owned hb)
      simp at hno
  | some c =>
      have hptr : c.ptr = b.ptr := by simpa using List.find?_some hfind
      have hc : c ∈ h.owned := List.mem_of_find?_eq_some hfind
      have hbpos := (hs.wellFormed b (hs.owned hb)).right.left
      have hcpos := (hs.wellFormed c hc).right.left
      by_cases heq : c = b
      · rw [heq]
      · have hother : c ∈ h.owned.erase b := (List.mem_erase_of_ne heq).mpr hc
        have hapart : b.Disjoint c := hs.holds.alone hb hother
        exact absurd hptr.symm (hapart.ptr_ne hbpos hcpos)

theorem malloc (hs : Serves base L h) (lib : CLib) (n : Nat) :
    exists p h', h.malloc lib n = (p, h') ∧ Keeps L h h' ∧
      (p = 0 ∧ Serves base L h' ∨ p ≠ 0 ∧ Serves base (⟨p, n⟩ :: L) h') := by
  have hkeeps : Keeps L h (h.work lib) := fun c hc x hx => bytes_work (hs.owned hc) hx
  by_cases hfresh : Fresh ⟨lib.answer h.calls, n⟩ h.owned
  · refine ⟨_, _, if_pos hfresh, hkeeps, Or.inr ⟨?_, hs.grant hfresh rfl⟩⟩
    exact Nat.ne_of_gt hfresh.right.left.left
  · exact ⟨_, _, if_neg hfresh, hkeeps, Or.inl ⟨rfl, hs.congr rfl⟩⟩

theorem free (hs : Serves base L h) (lib : CLib) (hb : b ∈ L) :
    exists h', h.free lib b.ptr = some h' ∧ Keeps (L.erase b) h h' ∧
      Serves base (L.erase b) h' := by
  have hne : b.ptr ≠ 0 := Nat.ne_of_gt (hs.wellFormed b (hs.owned hb)).left
  have hcall : h.free lib b.ptr =
      some (({ h with owned := h.owned.erase b } : CHeap).work lib) := by
    simp only [CHeap.free, if_neg hne, hs.find_eq hb, Option.bind_eq_bind, Option.bind_some]
  refine ⟨_, hcall, fun c hc x hx => ?_, hs.release hb rfl⟩
  exact bytes_work (hs.owned_erase hb hc) hx

theorem realloc (hs : Serves base L h) (lib : CLib) (hb : b ∈ L) (hn : n ≠ 0) :
    exists p h', h.realloc lib b.ptr n = some (p, h') ∧
      (p = 0 ∧ Serves base L h' ∧ Keeps L h h' ∨
        p ≠ 0 ∧ Serves base (⟨p, n⟩ :: L.erase b) h' ∧ Keeps (L.erase b) h h' ∧
          forall i, i < min b.size n ->
            h'.mem.bytes (p + i) = h.mem.bytes (b.ptr + i)) := by
  have hne : b.ptr ≠ 0 := Nat.ne_of_gt (hs.wellFormed b (hs.owned hb)).left
  have hcall : h.realloc lib b.ptr n =
      if Fresh ⟨lib.answer h.calls, n⟩ (h.owned.erase b) then
        some (lib.answer h.calls,
          { h.work lib with
            owned := ⟨lib.answer h.calls, n⟩ :: h.owned.erase b
            mem := { (h.work lib).mem with
              bytes := ((h.work lib).mem.copy (lib.answer h.calls) b.ptr
                (min b.size n)).bytes } })
      else some (0, h.work lib) := by
    simp only [CHeap.realloc, if_neg hne, if_neg hn, hs.find_eq hb, Option.bind_eq_bind,
      Option.bind_some]
    rfl
  rw [hcall]
  split
  · rename_i hfresh
    refine ⟨_, _, rfl, Or.inr ⟨Nat.ne_of_gt hfresh.right.left.left, ?_, ?_, ?_⟩⟩
    · have hreleased : Serves base (L.erase b)
          { h.work lib with owned := h.owned.erase b } := hs.release hb rfl
      exact hreleased.grant hfresh rfl
    · intro c hc x hx
      have hapart := hfresh.right.right c (hs.owned_erase hb hc)
      have houtside : ¬ (lib.answer h.calls ≤ x ∧
          x < lib.answer h.calls + min b.size n) := by
        rintro ⟨hle, hlt⟩
        apply hapart.symm.not_contains hx
        exact ⟨hle, Nat.lt_of_lt_of_le hlt (Nat.add_le_add_left (Nat.min_le_right _ _) _)⟩
      rw [Mem.copy_bytes_outside houtside]
      exact bytes_work (List.mem_of_mem_erase (hs.owned_erase hb hc)) hx
    · intro i hi
      have hib : i < b.size := Nat.lt_of_lt_of_le hi (Nat.min_le_left _ _)
      rw [Mem.copy_bytes_inside hi]
      exact bytes_work (hs.owned hb) ⟨Nat.le_add_right _ i, Nat.add_lt_add_left hib _⟩
  · refine ⟨_, _, rfl, Or.inl ⟨rfl, hs.congr rfl, ?_⟩⟩
    exact fun c hc x hx => bytes_work (hs.owned hc) hx

end Serves

end CHeap

end Foundation
end Liballo
