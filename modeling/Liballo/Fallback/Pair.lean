import Liballo.Fallback.Defs

/-!
# Two allocators on one memory

A fallback allocator rests on two allocators that hand out blocks of one memory. What it
relies on is that their blocks are apart, that each of them knows its own blocks, and that
each keeps its promises whatever the other one does.
-/

namespace Liballo

open Foundation

inductive Side where
  | primary
  | fallback
  deriving DecidableEq, Repr

/-- The blocks that each side has handed out. -/
abbrev Books : Type :=
  Side -> List Block

namespace Books

def all (L : Books) : List Block :=
  L Side.primary ++ L Side.fallback

def add (i : Side) (b : Block) (L : Books) : Books :=
  Function.update L i (b :: L i)

def remove (i : Side) (b : Block) (L : Books) : Books :=
  Function.update L i ((L i).erase b)

variable {L : Books} {i j : Side} {b c : Block}

theorem mem_all : b ∈ L.all <-> exists i, b ∈ L i := by
  unfold all
  rw [List.mem_append]
  constructor
  · rintro (hb | hb)
    · exact ⟨Side.primary, hb⟩
    · exact ⟨Side.fallback, hb⟩
  · rintro ⟨i, hb⟩
    cases i with
    | primary => exact Or.inl hb
    | fallback => exact Or.inr hb

@[simp] theorem add_same : L.add i b i = b :: L i :=
  Function.update_self i _ L

theorem add_other (hne : j ≠ i) : L.add i b j = L j :=
  Function.update_of_ne hne _ L

theorem mem_add (hb : b ∈ L j) : b ∈ L.add i c j := by
  by_cases hij : j = i
  · subst hij
    rw [add_same]
    exact List.mem_cons_of_mem c hb
  · rw [add_other hij]
    exact hb

theorem mem_of_mem_remove (hb : b ∈ L.remove i c j) : b ∈ L j := by
  unfold remove at hb
  by_cases hij : j = i
  · subst hij
    rw [Function.update_self] at hb
    exact List.mem_of_mem_erase hb
  · rw [Function.update_of_ne hij] at hb
    exact hb

theorem remove_subset : forall b, b ∈ (L.remove i c).all -> b ∈ L.all := by
  intro b hb
  rcases mem_all.mp hb with ⟨j, hj⟩
  exact mem_all.mpr ⟨j, mem_of_mem_remove hj⟩

theorem subset_add : forall b, b ∈ L.all -> b ∈ (L.add i c).all := by
  intro b hb
  rcases mem_all.mp hb with ⟨j, hj⟩
  exact mem_all.mpr ⟨j, mem_add hj⟩

theorem mem_add_self : c ∈ (L.add i c).all := by
  apply mem_all.mpr
  refine ⟨i, ?_⟩
  rw [add_same]
  exact List.mem_cons_self

theorem all_add_perm : (L.add i c).all.Perm (c :: L.all) := by
  cases i with
  | primary => exact List.Perm.refl _
  | fallback => exact List.perm_middle

/-- Changes on different sides commute. -/
theorem remove_add (hne : i ≠ j) : (L.add j c).remove i b = (L.remove i b).add j c := by
  unfold remove add
  rw [Function.update_of_ne hne, Function.update_of_ne hne.symm,
    Function.update_comm hne.symm]

end Books

/-- Each side keeps its own books, and its failures change nothing. The answers about who
contains a pointer are exact for the blocks that are handed out. -/
structure PairContract {σ : Type} [HasMem σ] (a : Side -> Allo σ) where
  Inv : σ -> Books -> Prop
  wellFormed : forall {w L}, Inv w L -> AllWellFormed L.all
  disjoint : forall {w L}, Inv w L -> AllDisjoint L.all
  contains : forall {w L i j b}, Inv w L -> b ∈ L i ->
    alloContains (a j) b.ptr w =
      some (if j = i then AlloContains.yes else AlloContains.no)
  alloc : forall {w L i n}, Inv w L -> n < 2 ^ 64 ->
    exists q w', alloAlloc (a i) n w = some (q, w') ∧
      KeepsBytes L.all (mem w) (mem w') ∧
        (q = NULL ∧ Inv w' L ∨ q ≠ NULL ∧ Inv w' (L.add i ⟨q, n⟩))
  realloc : forall {w L i b n}, Inv w L -> b ∈ L i -> n ≠ 0 -> n < 2 ^ 64 ->
    exists q w', alloRealloc (a i) b.ptr b.size n w = some (q, w') ∧
      (q = NULL ∧ Inv w' L ∧ KeepsBytes L.all (mem w) (mem w') ∨
        q ≠ NULL ∧ Inv w' ((L.remove i b).add i ⟨q, n⟩) ∧
          KeepsBytes (L.remove i b).all (mem w) (mem w') ∧
            KeepsPrefix b.ptr q (min b.size n) (mem w) (mem w'))
  free : forall {w L i b}, Inv w L -> b ∈ L i ->
    exists w', alloFree (a i) b.ptr b.size w = some w' ∧ Inv w' (L.remove i b) ∧
      KeepsBytes (L.remove i b).all (mem w) (mem w')
  store : forall {w L P m}, Inv w L -> Wrote P (mem w) m ->
    (forall x n, P x n -> exists b, b ∈ L.all ∧ Block.Inside ⟨x, n⟩ b) ->
      Inv (setMem m w) L

namespace PairContract

variable {σ : Type} [HasMem σ] {a : Side -> Allo σ} {w : σ} {L : Books}
variable {i j : Side} {b c : Block}

/-- A block is on the books of one side. -/
theorem owner_unique (C : PairContract a) (h : C.Inv w L) (hb : b ∈ L i)
    (hc : b ∈ L j) : i = j := by
  have hyes := C.contains (j := i) h hb
  rw [C.contains (j := i) h hc, if_pos rfl] at hyes
  by_contra hne
  rw [if_neg hne] at hyes
  cases hyes

end PairContract

/-!
# Blocks that went back

The logging allocator answers as the one it wraps and notes every block that it took back,
because it was freed or because it was exchanged for another one.
-/

structure Logged (σ : Type) where
  inner : σ
  gone : List (Side × Block)

instance {σ : Type} [HasMem σ] : HasMem (Logged σ) where
  mem := fun s => mem s.inner
  setMem := fun m s => { s with inner := setMem m s.inner }
  mem_setMem := by simp
  setMem_mem := by simp
  setMem_setMem := by simp

def logging {σ : Type} (i : Side) (c : Allo σ) : Allo (Logged σ) where
  alloc := fun size s => do
    let (ptr, w) ← alloAlloc c size s.inner
    some (ptr, { s with inner := w })
  realloc := fun ptr old new s => do
    let (q, w) ← c.realloc ptr old new s.inner
    if q = NULL then some (q, { s with inner := w })
    else some (q, { inner := w, gone := (i, ⟨ptr, old⟩) :: s.gone })
  freeMem := fun ptr size s => do
    let w ← alloFree c ptr size s.inner
    some { inner := w, gone := (i, ⟨ptr, size⟩) :: s.gone }
  destroy := c.destroy.map (fun destroy s => do
    let w ← destroy s.inner
    some { s with inner := w })
  contains := c.contains.map (fun contains ptr s => contains ptr s.inner)

end Liballo
