import Mathlib.Algebra.Group.Nat.Defs
import Mathlib.Data.List.Pairwise
import Mathlib.Data.List.Perm.Basic
import Mathlib.Data.List.Perm.Lattice

/-!
# Blocks of addresses

A block is a range of addresses. Two blocks are disjoint when one ends before the
other starts. Allocators keep lists of pairwise disjoint blocks, and this module
collects how such lists behave when a block is added, removed or replaced.
-/

namespace Liballo
namespace Foundation

structure Block where
  ptr : Nat
  size : Nat
  deriving DecidableEq, Repr

namespace Block

/-- The first address after the block. -/
def stop (b : Block) : Nat :=
  b.ptr + b.size

def Contains (b : Block) (x : Nat) : Prop :=
  b.ptr ≤ x ∧ x < b.stop

def Disjoint (b c : Block) : Prop :=
  b.stop ≤ c.ptr ∨ c.stop ≤ b.ptr

/-- `b` lies inside `c`. -/
def Inside (b c : Block) : Prop :=
  c.ptr ≤ b.ptr ∧ b.stop ≤ c.stop

/-- A block of at least one byte that an object of a 64-bit program can have:
it does not start at the null address and the address after its last byte exists. -/
def WellFormed (b : Block) : Prop :=
  0 < b.ptr ∧ 0 < b.size ∧ b.stop < 2 ^ 64

instance (b : Block) (x : Nat) : Decidable (b.Contains x) :=
  inferInstanceAs (Decidable (_ ∧ _))

instance (b c : Block) : Decidable (b.Disjoint c) :=
  inferInstanceAs (Decidable (_ ∨ _))

instance (b c : Block) : Decidable (b.Inside c) :=
  inferInstanceAs (Decidable (_ ∧ _))

instance (b : Block) : Decidable b.WellFormed :=
  inferInstanceAs (Decidable (_ ∧ _ ∧ _))

theorem Disjoint.symm {b c : Block} (h : b.Disjoint c) : c.Disjoint b :=
  Or.symm h

theorem Disjoint.not_contains {b c : Block} {x : Nat} (h : b.Disjoint c)
    (hb : b.Contains x) : ¬ c.Contains x := by
  intro hc
  simp only [Disjoint, Contains, stop] at h hb hc
  omega

theorem Disjoint.ne {b c : Block} (h : b.Disjoint c) (hb : 0 < b.size) :
    b ≠ c := by
  intro heq
  subst heq
  simp only [Disjoint, stop] at h
  omega

theorem Disjoint.ptr_ne {b c : Block} (h : b.Disjoint c) (hb : 0 < b.size)
    (hc : 0 < c.size) : b.ptr ≠ c.ptr := by
  simp only [Disjoint, stop] at h
  omega

theorem Inside.contains {b c : Block} {x : Nat} (h : b.Inside c)
    (hx : b.Contains x) : c.Contains x := by
  simp only [Inside, Contains, stop] at h hx ⊢
  omega

theorem Inside.disjoint {b c d : Block} (h : b.Inside c) (hd : c.Disjoint d) :
    b.Disjoint d := by
  simp only [Inside, Disjoint, stop] at h hd ⊢
  omega

theorem Inside.trans {b c d : Block} (h : b.Inside c) (h' : c.Inside d) :
    b.Inside d := by
  simp only [Inside, stop] at h h' ⊢
  omega

end Block

/-!
# Lists of disjoint blocks
-/

/-- The images of what stays. -/
theorem map_erase_perm {α β : Type} [BEq α] [LawfulBEq α] [BEq β] [LawfulBEq β]
    (f : α -> β) {x : α} {L : List α} (hx : x ∈ L) :
    ((L.map f).erase (f x)).Perm ((L.erase x).map f) := by
  have hperm := ((List.perm_cons_erase hx).map f).erase (f x)
  rw [List.map_cons, List.erase_cons_head] at hperm
  exact hperm

abbrev AllDisjoint (L : List Block) : Prop :=
  L.Pairwise Block.Disjoint

def AllWellFormed (L : List Block) : Prop :=
  forall b, b ∈ L -> b.WellFormed

/-- Whether some block of the list has the byte. -/
def Covered (L : List Block) (x : Nat) : Prop :=
  exists b, b ∈ L ∧ b.Contains x

instance (L : List Block) (x : Nat) : Decidable (Covered L x) :=
  inferInstanceAs (Decidable (exists b, b ∈ L ∧ _))

theorem allDisjoint_perm {L M : List Block} (h : L.Perm M) :
    AllDisjoint L <-> AllDisjoint M :=
  h.pairwise_iff (fun hd => hd.symm)

theorem AllDisjoint.erase {L : List Block} (h : AllDisjoint L) (b : Block) :
    AllDisjoint (L.erase b) :=
  List.Pairwise.sublist List.erase_sublist h

theorem AllDisjoint.nodup {L : List Block} (h : AllDisjoint L)
    (hpos : forall b, b ∈ L -> 0 < b.size) : L.Nodup := by
  induction L with
  | nil => exact List.nodup_nil
  | cons b rest ih =>
      rcases List.pairwise_cons.mp h with ⟨hhead, htail⟩
      rw [List.nodup_cons]
      constructor
      · intro hmem
        exact (hhead b hmem).ne (hpos b List.mem_cons_self) rfl
      · exact ih htail (fun c hc => hpos c (List.mem_cons_of_mem b hc))

theorem AllDisjoint.disjoint_of_mem_erase {L : List Block} (h : AllDisjoint L)
    {b c : Block} (hb : b ∈ L) (hc : c ∈ L.erase b) : b.Disjoint c := by
  have hperm : L.Perm (b :: L.erase b) := List.perm_cons_erase hb
  have hcons : AllDisjoint (b :: L.erase b) := (allDisjoint_perm hperm).mp h
  exact (List.pairwise_cons.mp hcons).left c hc

theorem AllDisjoint.disjoint_of_ne {L : List Block} (h : AllDisjoint L)
    {b c : Block} (hb : b ∈ L) (hc : c ∈ L) (hne : b ≠ c) : b.Disjoint c :=
  h.disjoint_of_mem_erase hb ((List.mem_erase_of_ne (Ne.symm hne)).mpr hc)

/-- Pointers identify the blocks of a disjoint list. -/
theorem AllDisjoint.eq_of_ptr_eq {L : List Block} (h : AllDisjoint L)
    (hpos : forall b, b ∈ L -> 0 < b.size) {b c : Block} (hb : b ∈ L)
    (hc : c ∈ L) (hptr : b.ptr = c.ptr) : b = c := by
  by_contra hne
  exact (h.disjoint_of_ne hb hc hne).ptr_ne (hpos b hb) (hpos c hc) hptr

end Foundation
end Liballo
