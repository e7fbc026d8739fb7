import Liballo.Fallback.Ownership
import Liballo.Fallback.Pair

/-!
# A reallocation conserves the block

Whether the block is resized where it is, moved by its owner or moved to the other side,
its content is kept and it goes back once, to the side that handed it out. A failure leaves
both sides as they were.
-/

namespace Liballo

open Foundation

section Conservation

variable {σ : Type} [HasMem σ] {a : Side -> Allo σ} {s s' s'' : Logged σ} {L : Books}
variable {i j : Side} {b c : Block} {n : Nat}

/-- The two sides, with a log of the blocks that went back. -/
def loggedSide (a : Side -> Allo σ) (i : Side) : Allo (Logged σ) :=
  logging i (a i)

/-- Both sides are as they were. -/
structure BooksKept (C : PairContract a) (L : Books) (s s' : Logged σ) : Prop where
  inv : C.Inv s'.inner L
  bytes : KeepsBytes L.all (mem s) (mem s')
  gone : s'.gone = s.gone

/-- The block `b` of the side `i` became the block `c` of the side `j`. It went back once,
to its owner, or it is still the same block. -/
structure Conserved (C : PairContract a) (L : Books) (i : Side) (b : Block) (j : Side)
    (c : Block) (s s' : Logged σ) : Prop where
  inv : C.Inv s'.inner ((L.remove i b).add j c)
  others : KeepsBytes (L.remove i b).all (mem s) (mem s')
  kept : KeepsPrefix b.ptr c.ptr (min b.size c.size) (mem s) (mem s')
  gone : s'.gone = (i, b) :: s.gone ∨ c = b ∧ j = i ∧ s'.gone = s.gone

/-!
# The logged sides
-/

theorem logged_contains (C : PairContract a) (h : C.Inv s.inner L) (hb : b ∈ L i)
    (j : Side) :
    alloContains (loggedSide a j) b.ptr s =
      some (if j = i then AlloContains.yes else AlloContains.no) := by
  rw [← C.contains h hb]
  unfold alloContains loggedSide logging
  cases (a j).contains with
  | none => rfl
  | some contains => rfl

theorem logged_alloc (C : PairContract a) (h : C.Inv s.inner L) (i : Side)
    (hn : n < 2 ^ 64) :
    exists q s', alloAlloc (loggedSide a i) n s = some (q, s') ∧ s'.gone = s.gone ∧
      KeepsBytes L.all (mem s) (mem s') ∧
        (q = NULL ∧ C.Inv s'.inner L ∨ q ≠ NULL ∧ C.Inv s'.inner (L.add i ⟨q, n⟩)) := by
  rcases C.alloc (i := i) h hn with ⟨q, w', hcall, hbytes, hcase⟩
  exact ⟨q, { s with inner := w' }, Option.bind_eq_some_iff.mpr ⟨_, hcall, rfl⟩, rfl,
    hbytes, hcase⟩

theorem logged_free (C : PairContract a) (h : C.Inv s.inner L) (hb : b ∈ L i) :
    exists s', alloFree (loggedSide a i) b.ptr b.size s = some s' ∧
      s'.gone = (i, b) :: s.gone ∧ C.Inv s'.inner (L.remove i b) ∧
        KeepsBytes (L.remove i b).all (mem s) (mem s') := by
  rcases C.free h hb with ⟨w', hcall, hinv, hbytes⟩
  exact ⟨{ inner := w', gone := (i, b) :: s.gone },
    Option.bind_eq_some_iff.mpr ⟨_, hcall, rfl⟩, rfl, hinv, hbytes⟩

/-- A reallocation on the side of the block. -/
theorem logged_realloc (C : PairContract a) (h : C.Inv s.inner L) (hb : b ∈ L i)
    (hn : n ≠ 0) (hlt : n < 2 ^ 64) :
    exists q s', alloRealloc (loggedSide a i) b.ptr b.size n s = some (q, s') ∧
      (q = NULL ∧ BooksKept C L s s' ∨ q ≠ NULL ∧ Conserved C L i b i ⟨q, n⟩ s s') := by
  have hwf := C.wellFormed h b (Books.mem_all.mpr ⟨i, hb⟩)
  have hptr : b.ptr ≠ NULL := Nat.ne_of_gt hwf.left
  rcases C.realloc h hb hn hlt with ⟨q, w', hcall, hcase⟩
  by_cases hsame : b.size = n
  · -- The wrapper does not ask the allocator.
    have hstay : alloRealloc (loggedSide a i) b.ptr b.size n s = some (b.ptr, s) := by
      rw [hsame]
      exact alloRealloc_same hn hptr
    rw [hsame, alloRealloc_same hn hptr] at hcall
    cases hcall
    refine ⟨b.ptr, s, hstay, Or.inr ⟨hptr, ?_⟩⟩
    rcases hcase with ⟨hnull, _⟩ | ⟨_, hinv, hbytes, hkept⟩
    · exact absurd hnull hptr
    · exact
        { inv := hinv
          others := hbytes
          kept := hkept
          gone := Or.inr ⟨by rw [← hsame], rfl, rfl⟩ }
  · rw [alloRealloc_pass hn hptr hsame] at hcall ⊢
    rcases hcase with ⟨hnull, hinv, hbytes⟩ | ⟨hne, hinv, hbytes, hkept⟩
    · refine ⟨q, { s with inner := w' }, ?_, Or.inl ⟨hnull, hinv, hbytes, rfl⟩⟩
      exact Option.bind_eq_some_iff.mpr ⟨_, hcall, if_pos hnull⟩
    · refine ⟨q, { inner := w', gone := (i, b) :: s.gone }, ?_, Or.inr ⟨hne, ?_⟩⟩
      · exact Option.bind_eq_some_iff.mpr ⟨_, hcall, if_neg hne⟩
      · exact
          { inv := hinv
            others := hbytes
            kept := hkept
            gone := Or.inl rfl }

/-!
# The spill
-/

/-- The copy into a new block and the release of the old one, on different sides. -/
theorem logged_move (C : PairContract a) (h : C.Inv s.inner (L.add j c)) (hb : b ∈ L i)
    (hne : i ≠ j) :
    exists m s', alloMemcpy c.ptr b.ptr (min b.size c.size) (mem s) = some m ∧
      alloFree (loggedSide a i) b.ptr b.size (setMem m s) = some s' ∧
        Conserved C L i b j c s s' := by
  have hbL : b ∈ L.all := Books.mem_all.mpr ⟨i, hb⟩
  have hapart : forall d, d ∈ L.all -> d.Disjoint c := by
    intro d hd
    have hdisj := (allDisjoint_perm Books.all_add_perm).mp (C.disjoint h)
    exact ((List.pairwise_cons.mp hdisj).left d hd).symm
  have hbw := C.wellFormed h b (Books.subset_add b hbL)
  have hcw := C.wellFormed h c Books.mem_add_self
  have hcopy : alloMemcpy c.ptr b.ptr (min b.size c.size) (mem s) =
      some ((mem s).copy c.ptr b.ptr (min b.size c.size)) :=
    alloMemcpy_blocks hbw hcw (hapart b hbL) (Nat.min_le_left _ _) (Nat.min_le_right _ _)
  have hwrote : Wrote (fun x k => x = c.ptr ∧ k = min b.size c.size) (mem s.inner)
      ((mem s).copy c.ptr b.ptr (min b.size c.size)) := Wrote.copy ⟨rfl, rfl⟩
  have hstored : C.Inv (setMem ((mem s).copy c.ptr b.ptr (min b.size c.size)) s).inner
      (L.add j c) := by
    apply C.store h hwrote
    rintro x k ⟨rfl, rfl⟩
    exact ⟨c, Books.mem_add_self, Nat.le_refl _,
      Nat.add_le_add_left (Nat.min_le_right b.size c.size) c.ptr⟩
  rcases logged_free C hstored (Books.mem_add hb) with ⟨s', hfree, hgone, hinv, hbytes⟩
  rw [Books.remove_add hne] at hinv hbytes
  rw [HasMem.mem_setMem] at hbytes
  refine ⟨_, s', hcopy, hfree, ?_⟩
  constructor
  · exact hinv
  · have hcopied : KeepsBytes (L.remove i b).all (mem s)
        ((mem s).copy c.ptr b.ptr (min b.size c.size)) :=
      KeepsBytes.copy (Nat.min_le_right b.size c.size)
        (fun d hd => hapart d (Books.remove_subset d hd))
    exact hcopied.trans (hbytes.subset Books.subset_add)
  · exact KeepsPrefix.of_copy (fun _ _ => rfl) (hbytes c Books.mem_add_self)
  · exact Or.inl hgone

/-- Failures and allocations before do not matter. -/
theorem Conserved.after (C : PairContract a) (h : KeepsBytes L.all (mem s) (mem s'))
    (hgone : s'.gone = s.gone) (hb : b ∈ L i) (hconserved : Conserved C L i b j c s' s'') :
    Conserved C L i b j c s s'' where
  inv := hconserved.inv
  others := (h.subset Books.remove_subset).trans hconserved.others
  kept := by
    intro k hk
    have hin : k < b.size := Nat.lt_of_lt_of_le hk (Nat.min_le_left _ _)
    rw [hconserved.kept k hk]
    exact h b (Books.mem_all.mpr ⟨i, hb⟩) _
      ⟨Nat.le_add_right _ k, Nat.add_lt_add_left hin _⟩
  gone := by
    rw [← hgone]
    exact hconserved.gone

/-!
# The fallback allocator
-/

theorem fallback_contains_yes (C : PairContract a) (h : C.Inv s.inner L) (hb : b ∈ L i) :
    fallbackContainsFn (loggedSide a Side.primary) (loggedSide a Side.fallback) b.ptr s =
      some AlloContains.yes := by
  unfold fallbackContainsFn
  rw [logged_contains C h hb, logged_contains C h hb]
  cases i with
  | primary => rfl
  | fallback => rfl

/-- What a reallocation by the fallback allocator did: it failed and changed nothing, or
the block is with exactly one side now, where the fallback allocator finds it. -/
def FallbackConserves (C : PairContract a) (L : Books) (i : Side) (b : Block)
    (q n : Nat) (s s' : Logged σ) : Prop :=
  q = NULL ∧ BooksKept C L s s' ∨
    q ≠ NULL ∧ exists j, Conserved C L i b j ⟨q, n⟩ s s' ∧
      (forall k, (⟨q, n⟩ : Block) ∈ (L.remove i b).add j ⟨q, n⟩ k <-> k = j) ∧
        fallbackContainsFn (loggedSide a Side.primary) (loggedSide a Side.fallback) q s' =
          some AlloContains.yes

theorem FallbackConserves.of_conserved (C : PairContract a) {q : Nat} (hq : q ≠ NULL)
    (h : Conserved C L i b j ⟨q, n⟩ s s') : FallbackConserves C L i b q n s s' := by
  have hmem : (⟨q, n⟩ : Block) ∈ (L.remove i b).add j ⟨q, n⟩ j := by
    rw [Books.add_same]
    exact List.mem_cons_self
  refine Or.inr ⟨hq, j, h, ?_, fallback_contains_yes C h.inv hmem⟩
  intro k
  constructor
  · intro hk
    exact C.owner_unique h.inv hk hmem
  · intro hk
    rw [hk]
    exact hmem

theorem fallback_realloc_conserves (C : PairContract a) (h : C.Inv s.inner L)
    (hb : b ∈ L i) (hn : n ≠ 0) (hlt : n < 2 ^ 64) :
    exists q s', fallbackReallocFn (loggedSide a Side.primary) (loggedSide a Side.fallback)
        b.ptr b.size n s = some (q, s') ∧ FallbackConserves C L i b q n s s' := by
  have hwf := C.wellFormed h b (Books.mem_all.mpr ⟨i, hb⟩)
  have hptr : b.ptr ≠ NULL := Nat.ne_of_gt hwf.left
  unfold fallbackReallocFn
  simp only [if_neg hptr, logged_contains C h hb, Option.bind_eq_bind, Option.bind_some]
  rcases logged_realloc C h hb hn hlt with ⟨p, s₁, hcall, hcase⟩
  cases i with
  | fallback =>
      refine ⟨p, s₁, ?_, ?_⟩
      · simpa using hcall
      · rcases hcase with hfailed | ⟨hne, hconserved⟩
        · exact Or.inl hfailed
        · exact FallbackConserves.of_conserved C hne hconserved
  | primary =>
      simp only [if_true, true_or, hcall, Option.bind_some]
      rcases hcase with ⟨hnull, hkept⟩ | ⟨hne, hconserved⟩
      · -- The primary side failed: the block may spill over.
        rcases logged_alloc C hkept.inv Side.fallback hlt with
          ⟨q, s₂, hspill, hgone, hbytes, hcase⟩
        have hbytes₂ := hkept.bytes.trans hbytes
        have hgone₂ := hgone.trans hkept.gone
        simp only [ne_eq, hnull, not_true_eq_false, if_false, hspill, Option.bind_some]
        rcases hcase with ⟨hfull, hinv⟩ | ⟨hq, hinv⟩
        · refine ⟨NULL, s₂, if_pos hfull, Or.inl ⟨rfl, ?_⟩⟩
          exact
            { inv := hinv
              bytes := hbytes₂
              gone := hgone₂ }
        · have hsides : Side.primary ≠ Side.fallback := fun hno => by cases hno
          rcases logged_move C hinv hb hsides with ⟨m, s₃, hcopy, hfree, hmoved⟩
          refine ⟨q, s₃, ?_,
            FallbackConserves.of_conserved C hq (hmoved.after C hbytes₂ hgone₂ hb)⟩
          simp only [if_neg hq, copySize_eq, hcopy, Option.bind_some, hfree]
      · refine ⟨p, s₁, ?_, FallbackConserves.of_conserved C hne hconserved⟩
        simp only [ne_eq, hne, not_false_eq_true, if_true]

end Conservation

/-!
# Leaves keep the contract
-/

/-- The leaf that stands on a side. -/
def Side.leaf : Side -> Nat
  | Side.primary => 0
  | Side.fallback => 1

def leafSide (choices : LeafChoices) (i : Side) : Allo LeafWorld :=
  leafAllo choices i.leaf

/-- The books as the leaves know them. -/
def Books.tagged (L : Books) : List (Nat × Block) :=
  (L Side.primary).map (Prod.mk 0) ++ (L Side.fallback).map (Prod.mk 1)

section Leaves

variable {L : Books} {i j : Side} {b c : Block} {n : Nat}

theorem Side.leaf_inj (h : i.leaf = j.leaf) : i = j := by
  cases i with
  | primary =>
      cases j with
      | primary => rfl
      | fallback => cases h
  | fallback =>
      cases j with
      | primary => cases h
      | fallback => rfl

namespace Books

theorem map_tagged (L : Books) : L.tagged.map Prod.snd = L.all := by
  unfold tagged all
  simp [Function.comp_def]

theorem mem_tagged : (i.leaf, b) ∈ L.tagged <-> b ∈ L i := by
  cases i with
  | primary => simp [tagged, Side.leaf]
  | fallback => simp [tagged, Side.leaf]

theorem tagged_add : (L.add i b).tagged.Perm ((i.leaf, b) :: L.tagged) := by
  cases i with
  | primary => exact List.Perm.refl _
  | fallback => exact List.perm_middle

theorem tagged_remove (hb : b ∈ L i) :
    L.tagged.Perm ((i.leaf, b) :: (L.remove i b).tagged) := by
  have hperm := (List.perm_cons_erase hb).map (Prod.mk i.leaf)
  cases i with
  | primary => exact hperm.append_right _
  | fallback => exact (hperm.append_left _).trans List.perm_middle

end Books

/-- The two leaves own what is on the books. -/
structure LeafBooks (w : LeafWorld) (L : Books) : Prop where
  apart : w.Apart
  owned : w.owned.Perm L.tagged

namespace LeafBooks

variable {w w' : LeafWorld}

theorem mem_owned (h : LeafBooks w L) (hb : b ∈ L i) : (i.leaf, b) ∈ w.owned :=
  h.owned.mem_iff.mpr (Books.mem_tagged.mpr hb)

theorem owned_erase (h : LeafBooks w L) (hb : b ∈ L i) :
    (w.owned.erase (i.leaf, b)).Perm (L.remove i b).tagged := by
  have hperm := (h.owned.trans (Books.tagged_remove hb)).erase (i.leaf, b)
  rw [List.erase_cons_head] at hperm
  exact hperm

theorem wellFormed (h : LeafBooks w L) : AllWellFormed L.all := by
  intro b hb
  rcases Books.mem_all.mp hb with ⟨i, hi⟩
  exact h.apart.wellFormed _ (h.mem_owned hi)

theorem disjoint (h : LeafBooks w L) : AllDisjoint L.all := by
  have hsymm : forall {e f : Nat × Block}, e.2.Disjoint f.2 -> f.2.Disjoint e.2 :=
    fun hd => hd.symm
  have htagged := (h.owned.pairwise_iff hsymm).mp h.apart.disjoint
  rw [← Books.map_tagged, AllDisjoint, List.pairwise_map]
  exact htagged

theorem contains {choices : LeafChoices}
    (hexact : forall leaf owned p, choices.untracked leaf owned p = false)
    (h : LeafBooks w L) (hb : b ∈ L i) :
    alloContains (leafSide choices j) b.ptr w =
      some (if j = i then AlloContains.yes else AlloContains.no) := by
  have hiff : (exists c, c ∈ w.ownedBy j.leaf ∧ c.ptr = b.ptr) <-> j = i := by
    constructor
    · rintro ⟨c, hc, hptr⟩
      exact Side.leaf_inj
        (h.apart.unique (LeafWorld.mem_ownedBy.mp hc) (h.mem_owned hb) hptr).left
    · intro hji
      rw [hji]
      exact ⟨b, LeafWorld.mem_ownedBy.mpr (h.mem_owned hb), rfl⟩
  show leafContainsFn choices j.leaf b.ptr w = _
  unfold leafContainsFn
  rw [hexact, if_neg Bool.false_ne_true]
  by_cases hji : j = i
  · rw [if_pos (hiff.mpr hji), if_pos hji]
  · rw [if_neg (mt hiff.mp hji), if_neg hji]

theorem add (h : LeafBooks w L) (hfresh : LeafWorld.Fresh b w.owned)
    (howned : w'.owned = (i.leaf, b) :: w.owned) : LeafBooks w' (L.add i b) where
  apart := h.apart.replace (List.Sublist.refl _) hfresh (by rw [howned])
  owned := by
    rw [howned]
    exact (h.owned.cons _).trans Books.tagged_add.symm

theorem remove (h : LeafBooks w L) (hb : b ∈ L i)
    (howned : w'.owned = w.owned.erase (i.leaf, b)) : LeafBooks w' (L.remove i b) where
  apart := h.apart.erase howned
  owned := by
    rw [howned]
    exact h.owned_erase hb

theorem alloc {choices : LeafChoices} (h : LeafBooks w L) (i : Side) (n : Nat) :
    exists q w', alloAlloc (leafSide choices i) n w = some (q, w') ∧
      KeepsBytes L.all (mem w) (mem w') ∧
        (q = NULL ∧ LeafBooks w' L ∨ q ≠ NULL ∧ LeafBooks w' (L.add i ⟨q, n⟩)) := by
  show exists q w', leafAllocFn choices i.leaf n w = some (q, w') ∧ _
  unfold leafAllocFn
  dsimp only
  split
  · rename_i hfresh
    exact ⟨_, _, rfl, KeepsBytes.refl _ _,
      Or.inr ⟨Nat.ne_of_gt hfresh.left.left, h.add hfresh rfl⟩⟩
  · exact ⟨_, _, rfl, KeepsBytes.refl _ _, Or.inl ⟨rfl, h.apart.of_owned rfl, h.owned⟩⟩

theorem free {choices : LeafChoices} (h : LeafBooks w L) (hb : b ∈ L i) :
    exists w', alloFree (leafSide choices i) b.ptr b.size w = some w' ∧
      LeafBooks w' (L.remove i b) ∧
        KeepsBytes (L.remove i b).all (mem w) (mem w') :=
  ⟨_, rfl, h.remove hb rfl, KeepsBytes.refl _ _⟩

/-- A block that is taken off the books and put back. -/
theorem remove_add_same (h : LeafBooks w L) (hb : b ∈ L i) :
    LeafBooks w ((L.remove i b).add i b) where
  apart := h.apart
  owned := (h.owned.trans (Books.tagged_remove hb)).trans Books.tagged_add.symm

theorem realloc {choices : LeafChoices} (h : LeafBooks w L) (hb : b ∈ L i)
    (hn : n ≠ 0) :
    exists q w', alloRealloc (leafSide choices i) b.ptr b.size n w = some (q, w') ∧
      (q = NULL ∧ LeafBooks w' L ∧ KeepsBytes L.all (mem w) (mem w') ∨
        q ≠ NULL ∧ LeafBooks w' ((L.remove i b).add i ⟨q, n⟩) ∧
          KeepsBytes (L.remove i b).all (mem w) (mem w') ∧
            KeepsPrefix b.ptr q (min b.size n) (mem w) (mem w')) := by
  have hptr : b.ptr ≠ NULL := Nat.ne_of_gt (h.apart.wellFormed _ (h.mem_owned hb)).left
  by_cases hsame : b.size = n
  · refine ⟨b.ptr, w, ?_, Or.inr ⟨hptr, ?_, KeepsBytes.refl _ _, fun _ _ => rfl⟩⟩
    · rw [hsame]
      exact alloRealloc_same hn hptr
    · rw [← hsame]
      exact h.remove_add_same hb
  · rw [alloRealloc_pass hn hptr hsame]
    show exists q w', leafReallocFn choices i.leaf b.ptr b.size n w = some (q, w') ∧ _
    unfold leafReallocFn
    dsimp only
    split
    · rename_i hcase
      refine ⟨_, _, rfl, Or.inr ⟨Nat.ne_of_gt hcase.right.left.left, ?_, ?_, ?_⟩⟩
      · exact
          { apart := h.apart.replace List.erase_sublist hcase.right (List.Perm.refl _)
            owned := ((h.owned_erase hb).cons _).trans Books.tagged_add.symm }
      · intro d hd x hx
        rcases Books.mem_all.mp hd with ⟨k, hk⟩
        have howned := (h.owned_erase hb).mem_iff.mpr (Books.mem_tagged.mpr hk)
        have hout := (hcase.right.right _ howned).symm.not_contains hx
        apply Mem.copy_bytes_outside
        rintro ⟨hle, hlt⟩
        exact hout ⟨hle, Nat.lt_of_lt_of_le hlt
          (Nat.add_le_add_left (Nat.min_le_right b.size n) _)⟩
      · exact fun k hk => Mem.copy_bytes_inside hk
    · exact ⟨_, _, rfl, Or.inl ⟨rfl, ⟨h.apart.of_owned rfl, h.owned⟩, KeepsBytes.refl _ _⟩⟩

end LeafBooks

/-- Two leaves that track all their blocks. -/
def leafPair (choices : LeafChoices)
    (hexact : forall leaf owned p, choices.untracked leaf owned p = false) :
    PairContract (leafSide choices) where
  Inv := LeafBooks
  wellFormed := LeafBooks.wellFormed
  disjoint := LeafBooks.disjoint
  contains := fun h hb => h.contains hexact hb
  alloc := fun h _ => h.alloc _ _
  realloc := fun h hb hn _ => h.realloc hb hn
  free := fun h hb => h.free hb
  store := fun h _ _ => ⟨h.apart.of_owned rfl, h.owned⟩

end Leaves

/-- The first request is refused, the second one is answered `128`. -/
def spilling : LeafChoices where
  answer := fun i => if i = 1 then 128 else 0
  untracked := fun _ _ _ => false

/-- A block of the primary side. -/
def spillStart : Logged LeafWorld where
  inner :=
    { owned := [(0, ⟨64, 32⟩)], requests := 0, passed := []
      mem := { bytes := fun _ => 0, trace := [] } }
  gone := []

/-- The block grows and spills over to the other side. -/
theorem fallback_realloc_conserves_spill :
    exists q s', fallbackReallocFn (loggedSide (leafSide spilling) Side.primary)
        (loggedSide (leafSide spilling) Side.fallback) 64 32 128 spillStart =
          some (q, s') ∧
      FallbackConserves (leafPair spilling (fun _ _ _ => rfl))
        (Books.add Side.primary ⟨64, 32⟩ (fun _ => [])) Side.primary ⟨64, 32⟩ q 128
          spillStart s' := by
  have hbooks : LeafBooks spillStart.inner
      (Books.add Side.primary ⟨64, 32⟩ (fun _ => [])) := by
    constructor
    · constructor
      · intro e he
        rw [List.mem_singleton.mp he]
        decide
      · exact List.pairwise_singleton _ _
    · exact List.Perm.refl _
  have hb : (⟨64, 32⟩ : Block) ∈
      Books.add Side.primary ⟨64, 32⟩ (fun _ => []) Side.primary := by
    rw [Books.add_same]
    exact List.mem_cons_self
  exact fallback_realloc_conserves (leafPair spilling (fun _ _ _ => rfl)) hbooks hb
    (by decide) (by decide)

end Liballo
