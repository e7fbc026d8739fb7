import Liballo.Client

/-!
# What an allocator relies on its child for

Arenas, pools and buddy allocators obtain memory from a child allocator. A supply
is a child that answers every request with the null pointer or with a block apart
from those it handed out, and a contract also takes blocks back. Both carry the
invariant of the child as data, so a result about a stack of allocators
instantiates them.
-/

namespace Liballo

open Foundation

/-- `Inv w L` says that in the state `w` exactly the blocks `L` are handed out, and
`own w` are the bytes in which the child keeps its own state. A store that avoids
these bytes is invisible to the child. -/
structure Supply {χ : Type} [HasMem χ] (a : Allo χ) where
  Inv : χ -> List Block -> Prop
  own : χ -> Nat -> Prop
  wellFormed : forall {w L}, Inv w L -> AllWellFormed L
  disjoint : forall {w L}, Inv w L -> AllDisjoint L
  own_apart : forall {w L b x}, Inv w L -> b ∈ L -> b.Contains x -> ¬ own w x
  alloc : forall {w L n}, Inv w L -> n < 2 ^ 64 ->
    exists p w', alloAlloc a n w = some (p, w') ∧
      KeepsBytes L (mem w) (mem w') ∧
        (p = NULL ∧ Inv w' L ∨ p ≠ NULL ∧ Inv w' (⟨p, n⟩ :: L))
  store : forall {w L P m}, Inv w L -> Wrote P (mem w) m ->
    (forall x n, P x n -> forall y, x ≤ y -> y < x + n -> ¬ own w y) ->
      Inv (setMem m w) L ∧ forall y, own (setMem m w) y -> own w y

structure Contract {χ : Type} [HasMem χ] (a : Allo χ) extends Supply a where
  free : forall {w L b}, Inv w L -> b ∈ L ->
    exists w', alloFree a b.ptr b.size w = some w' ∧
      KeepsBytes (L.erase b) (mem w) (mem w') ∧ Inv w' (L.erase b)

namespace Supply

variable {χ : Type} [HasMem χ] {a : Allo χ} (S : Supply a)

/-- An event that stores nothing is invisible to the child. -/
theorem note {w : χ} {L : List Block} {e : Event} (h : S.Inv w L)
    (he : e.WritesOnly (fun _ _ => False)) :
    S.Inv (modifyMem (Mem.note e) w) L :=
  (S.store h (Wrote.note he) (fun _ _ hno => absurd hno not_false)).left

/-- A block that is handed out once is erased in place. -/
theorem erase_middle {w : χ} {xs ys : List Block} {b : Block}
    (h : S.Inv w (xs ++ b :: ys)) : (xs ++ b :: ys).erase b = xs ++ ys := by
  have hnodup : (xs ++ b :: ys).Nodup :=
    (S.disjoint h).nodup (fun d hd => (S.wellFormed h d hd).right.left)
  have hnot : b ∉ xs := by
    intro hb
    exact (List.nodup_append.mp hnodup).right.right b hb b List.mem_cons_self rfl
  rw [List.erase_append_right _ hnot, List.erase_cons_head]

/-- Stores inside handed-out blocks are invisible to the child. -/
theorem store_inside {w : χ} {L : List Block} {P : Nat -> Nat -> Prop}
    {m : Mem} (h : S.Inv w L) (hw : Wrote P (mem w) m)
    (hP : forall x n, P x n -> exists b, b ∈ L ∧ Block.Inside ⟨x, n⟩ b) :
    S.Inv (setMem m w) L ∧ forall y, S.own (setMem m w) y -> S.own w y := by
  apply S.store h hw
  intro x n hxn y hle hlt
  rcases hP x n hxn with ⟨b, hb, hinside⟩
  exact S.own_apart h hb (hinside.contains ⟨hle, hlt⟩)

end Supply

/-!
# Books on what is handed out

A program that only has to return relies on less: that the calls of its child return, and
that a request for no bytes is refused.
-/

structure Ledger {χ : Type} [HasMem χ] (a : Allo χ) (Inv : χ -> List Block -> Prop) :
    Prop where
  note : forall {w L x n}, Inv w L -> Inv (modifyMem (Mem.note (Event.touch x n)) w) L
  fill : forall {w L b}, Inv w (b :: L) ->
    Inv (modifyMem (alloMemset b.ptr 0 b.size) w) (b :: L)
  alloc : forall {w L n}, Inv w L -> n < 2 ^ 64 ->
    exists p w', alloAlloc a n w = some (p, w') ∧
      (p = NULL ∧ Inv w' L ∨ p ≠ NULL ∧ n ≠ 0 ∧ Inv w' (⟨p, n⟩ :: L))
  free : forall {w L K b}, Inv w (K ++ b :: L) ->
    exists w', alloFree a b.ptr b.size w = some w' ∧ Inv w' (K ++ L)

section Ledger

variable {χ : Type} [HasMem χ] {a : Allo χ}

/-- A zeroed block is granted only if its size is exact and positive. -/
theorem Ledger.calloc {Inv : χ -> List Block -> Prop} {w : χ} {L : List Block}
    (hledger : Ledger a Inv) (nmemb size : Nat) (h : Inv w L) :
    exists p w', alloCalloc a nmemb size w = some (p, w') ∧
      (p = NULL ∧ Inv w' L ∨
        p ≠ NULL ∧ sizeMul nmemb size ≠ 0 ∧ Inv w' (⟨p, sizeMul nmemb size⟩ :: L)) := by
  unfold alloCalloc
  split
  · exact ⟨NULL, w, rfl, Or.inl ⟨rfl, h⟩⟩
  · have hlt : sizeMul nmemb size < 2 ^ 64 := Nat.mod_lt _ (by decide)
    rcases hledger.alloc h hlt with ⟨p, w', hcall, hcase⟩
    simp only [hcall, Option.bind_eq_bind, Option.bind_some]
    rcases hcase with ⟨hnull, hinv⟩ | ⟨hne, hpos, hinv⟩
    · rw [if_pos hnull]
      exact ⟨p, w', rfl, Or.inl ⟨hnull, hinv⟩⟩
    · rw [if_neg hne]
      exact ⟨p, _, rfl, Or.inr ⟨hne, hpos, hledger.fill hinv⟩⟩

/-- A contract keeps its books. -/
theorem Contract.ledger (C : Contract a) : Ledger a C.Inv := by
  constructor
  · intro w L x n h
    exact C.note h trivial
  · intro w L b h
    have hset : Wrote (fun x n => x = b.ptr ∧ n = b.size) (mem w)
        (alloMemset b.ptr 0 b.size (mem w)) := wrote_alloMemset ⟨rfl, rfl⟩
    refine (C.store_inside h hset ?_).left
    rintro x n ⟨rfl, rfl⟩
    exact ⟨b, List.mem_cons_self, Nat.le_refl _, Nat.le_refl _⟩
  · intro w L n h hn
    rcases C.alloc h hn with ⟨p, w', hcall, _, hcase⟩
    refine ⟨p, w', hcall, ?_⟩
    rcases hcase with hnull | ⟨hne, hinv⟩
    · exact Or.inl hnull
    · have hpos := (C.wellFormed hinv _ List.mem_cons_self).right.left
      exact Or.inr ⟨hne, Nat.ne_of_gt hpos, hinv⟩
  · intro w L K b h
    rcases C.free h (List.mem_append_right K List.mem_cons_self) with
      ⟨w', hcall, _, hinv⟩
    rw [C.erase_middle h] at hinv
    exact ⟨w', hcall, hinv⟩

end Ledger

/-!
# Giving blocks back
-/

/-- From the state `w` the blocks `bs` go back one after the other, each while it is
handed out. Between the calls only objects are looked at. -/
inductive Returns {χ : Type} [HasMem χ] (a : Allo χ) (Inv : χ -> List Block -> Prop) :
    χ -> List Block -> χ -> Prop where
  | done (w : χ) : Returns a Inv w [] w
  | touch {w w' : χ} {bs : List Block} (x n : Nat) :
      Returns a Inv (modifyMem (Mem.note (Event.touch x n)) w) bs w' ->
        Returns a Inv w bs w'
  | free {w v w' : χ} {L bs : List Block} {b : Block} :
      Inv w L -> b ∈ L -> alloFree a b.ptr b.size w = some v ->
        Returns a Inv v bs w' -> Returns a Inv w (b :: bs) w'

theorem Returns.trans {χ : Type} [HasMem χ] {a : Allo χ}
    {Inv : χ -> List Block -> Prop} {w w' w'' : χ} {bs cs : List Block}
    (h : Returns a Inv w bs w') (h' : Returns a Inv w' cs w'') :
    Returns a Inv w (bs ++ cs) w'' := by
  induction h with
  | done _ => exact h'
  | touch x n _ ih => exact Returns.touch x n (ih h')
  | free hinv hb hcall _ ih => exact Returns.free hinv hb hcall (ih h')

/-!
# Recording what a child was asked for

The recording allocator answers as the one it wraps and keeps two lists: the
blocks that were handed out and the blocks that were given back.
-/

structure Recorded (χ : Type) where
  inner : χ
  granted : List Block
  freed : List Block

namespace Recorded

variable {χ : Type}

def start (w : χ) : Recorded χ :=
  { inner := w, granted := [], freed := [] }

instance [HasMem χ] : HasMem (Recorded χ) where
  mem := fun r => mem r.inner
  setMem := fun m r => { r with inner := setMem m r.inner }
  mem_setMem := by simp
  setMem_mem := by simp
  setMem_setMem := by simp

/-- The record after a request of `n` bytes was answered `p`. -/
def grant (r : Recorded χ) (p n : Nat) (w : χ) : Recorded χ :=
  if p = NULL then { r with inner := w }
  else { r with inner := w, granted := ⟨p, n⟩ :: r.granted }

def release (r : Recorded χ) (b : Block) (w : χ) : Recorded χ :=
  { r with inner := w, freed := b :: r.freed }

theorem grant_null (r : Recorded χ) (n : Nat) (w : χ) :
    r.grant NULL n w = { r with inner := w } := by
  simp [grant]

theorem grant_placed (r : Recorded χ) {p : Nat} (n : Nat) (w : χ)
    (hp : p ≠ NULL) :
    r.grant p n w = { r with inner := w, granted := ⟨p, n⟩ :: r.granted } :=
  if_neg hp

@[simp] theorem mem_grant [HasMem χ] (r : Recorded χ) (p n : Nat) (w : χ) :
    mem (r.grant p n w) = mem w := by
  unfold grant
  split <;> rfl

@[simp] theorem mem_release [HasMem χ] (r : Recorded χ) (b : Block) (w : χ) :
    mem (r.release b w) = mem w := rfl

end Recorded

def recording {χ : Type} (a : Allo χ) : Allo (Recorded χ) where
  alloc := fun n r => do
    let (p, w) ← alloAlloc a n r.inner
    some (p, r.grant p n w)
  realloc := fun ptr old new r => do
    let (p, w) ← alloRealloc a ptr old new r.inner
    if p = NULL then some (p, { r with inner := w })
    else some (p, (r.release ⟨ptr, old⟩ w).grant p new w)
  freeMem := fun ptr size r => do
    let w ← alloFree a ptr size r.inner
    some (r.release ⟨ptr, size⟩ w)
  destroy := some (fun r => do
    let w ← alloDestroy a r.inner
    some { r with inner := w })
  contains := some (fun ptr r => alloContains a ptr r.inner)

section Recording

variable {χ : Type} [HasMem χ] {a : Allo χ}

/-- A request is passed on, and what the child grants is recorded. -/
theorem Supply.alloc_recorded (S : Supply a) {r : Recorded χ} {L : List Block} {n : Nat}
    (hinv : S.Inv r.inner L) (hn : n < 2 ^ 64) :
    exists p r', alloAlloc (Liballo.recording a) n r = some (p, r') ∧
      KeepsBytes L (mem r) (mem r') ∧
        (p = NULL ∧ S.Inv r'.inner L ∧ r'.granted = r.granted ∧ r'.freed = r.freed ∨
          p ≠ NULL ∧ S.Inv r'.inner (⟨p, n⟩ :: L) ∧
            r'.granted = ⟨p, n⟩ :: r.granted ∧ r'.freed = r.freed) := by
  rcases S.alloc hinv hn with ⟨p, w', hcall, hkeeps, hcase⟩
  have hcall' : alloAlloc (Liballo.recording a) n r = some (p, r.grant p n w') := by
    simp only [alloAlloc] at hcall
    simp [alloAlloc, Liballo.recording, hcall]
  refine ⟨p, r.grant p n w', hcall', ?_, ?_⟩
  · rw [Recorded.mem_grant]
    exact hkeeps
  · rcases hcase with ⟨hnull, hinv'⟩ | ⟨hne, hinv'⟩
    · subst hnull
      rw [Recorded.grant_null]
      exact Or.inl ⟨rfl, hinv', rfl, rfl⟩
    · rw [Recorded.grant_placed r n w' hne]
      exact Or.inr ⟨hne, hinv', rfl, rfl⟩

/-- While nothing was given back, the blocks handed out are those recorded and
those that were out before. -/
def Supply.recording (S : Supply a) (base : List Block) :
    Supply (recording a) where
  Inv := fun r L =>
    S.Inv r.inner L ∧ r.freed = [] ∧ (r.granted ++ base).Perm L
  own := fun r => S.own r.inner
  wellFormed := fun h => S.wellFormed h.left
  disjoint := fun h => S.disjoint h.left
  own_apart := fun h => S.own_apart h.left
  alloc := by
    intro r L n h hn
    rcases h with ⟨hinv, hfreed, hperm⟩
    rcases S.alloc_recorded hinv hn with ⟨p, r', hcall, hkeeps, hcase⟩
    refine ⟨p, r', hcall, hkeeps, ?_⟩
    rcases hcase with ⟨hnull, hinv', hgranted, hback⟩ | ⟨hne, hinv', hgranted, hback⟩
    · rw [hgranted, hback]
      exact Or.inl ⟨hnull, hinv', hfreed, hperm⟩
    · rw [hgranted, hback]
      exact Or.inr ⟨hne, hinv', hfreed, hperm.cons _⟩
  store := by
    intro r L P m h hw hP
    rcases h with ⟨hinv, hfreed, hperm⟩
    rcases S.store hinv hw hP with ⟨hinv', hown⟩
    exact ⟨⟨hinv', hfreed, hperm⟩, hown⟩

/-- Recorded blocks are either still out or were given back. -/
def Contract.recording (C : Contract a) (base : List Block) :
    Contract (recording a) where
  Inv := fun r L =>
    C.Inv r.inner L ∧ (r.granted ++ base).Perm (L ++ r.freed)
  own := fun r => C.own r.inner
  wellFormed := fun h => C.wellFormed h.left
  disjoint := fun h => C.disjoint h.left
  own_apart := fun h => C.own_apart h.left
  alloc := by
    intro r L n h hn
    rcases h with ⟨hinv, hperm⟩
    rcases C.toSupply.alloc_recorded hinv hn with ⟨p, r', hcall, hkeeps, hcase⟩
    refine ⟨p, r', hcall, hkeeps, ?_⟩
    rcases hcase with ⟨hnull, hinv', hgranted, hback⟩ | ⟨hne, hinv', hgranted, hback⟩
    · rw [hgranted, hback]
      exact Or.inl ⟨hnull, hinv', hperm⟩
    · rw [hgranted, hback]
      exact Or.inr ⟨hne, hinv', hperm.cons _⟩
  store := by
    intro r L P m h hw hP
    rcases h with ⟨hinv, hperm⟩
    rcases C.store hinv hw hP with ⟨hinv', hown⟩
    exact ⟨⟨hinv', hperm⟩, hown⟩
  free := by
    intro r L b h hb
    rcases h with ⟨hinv, hperm⟩
    rcases C.free hinv hb with ⟨w', hcall, hkeeps, hinv'⟩
    have hcall' : alloFree (Liballo.recording a) b.ptr b.size r =
        some (r.release b w') := by
      simp only [alloFree] at hcall
      simp [alloFree, Liballo.recording, hcall]
    refine ⟨r.release b w', hcall', hkeeps, hinv', ?_⟩
    have hmove : (L ++ r.freed).Perm (L.erase b ++ b :: r.freed) :=
      ((List.perm_cons_erase hb).append_right r.freed).trans
        List.perm_middle.symm
    exact hperm.trans hmove

end Recording

end Liballo
