import Liballo.Buddy.Defs

/-!
# What the constructor asks of its child

Making a buddy allocator without a buffer takes four blocks of the child: the buffer and
the three tables. After the first refusal it gives back what it has.
-/

namespace Liballo

open Foundation

/-- `Q j` holds of a child that granted `j` of the four requests, and `Z` from the first
refusal on. -/
structure ChildAsked {χ : Type} [HasMem χ] (a : Allo χ) (Q : Nat -> χ -> Prop)
    (Z : χ -> Prop) : Prop where
  note : forall {j : Nat} {w : χ} {n n' : Nat}, Q j w ->
    Q j (modifyMem (Mem.note (Event.touch n n')) w)
  fill : forall {j : Nat} {w : χ} {p n : Nat}, Q j w ->
    Q j (modifyMem (alloMemset p 0 n) w)
  noteRefused : forall {w : χ} {n n' : Nat}, Z w ->
    Z (modifyMem (Mem.note (Event.touch n n')) w)
  free : forall {w w' : χ} {p n : Nat}, Z w -> alloFree a p n w = some w' -> Z w'
  alloc : forall {j : Nat} {w w' : χ} {n p : Nat}, j < 4 -> n ≠ 0 -> Q j w ->
    alloAlloc a n w = some (p, w') -> p ≠ NULL ∧ Q (j + 1) w' ∨ p = NULL ∧ Z w'

section Constructor

variable {χ : Type} [HasMem χ] {a : Allo χ} {Q : Nat -> χ -> Prop} {Z : χ -> Prop}
variable {s t : BuddyState χ} {w : χ} {j : Nat}

/-- The tables of a buddy allocator for `2 ^ 24` bytes are neither empty nor too large. -/
structure TotalGeometry (c : BuddyContext) : Prop where
  totalSize : c.totalSize = 2 ^ 24
  minBlockSize : c.minBlockSize = 32
  maxOrder : c.maxOrder = 24

namespace TotalGeometry

variable {c : BuddyContext}

theorem freeLists_fit (h : TotalGeometry c) :
    c.freeListsCount * 8 ≠ 0 ∧ c.freeListsCount * 8 < 2 ^ 64 := by
  unfold BuddyContext.freeListsCount BuddyContext.numLevels
  rw [h.maxOrder, h.minBlockSize]
  decide

theorem bitset_fits (h : TotalGeometry c) :
    c.bitBytes * 1 ≠ 0 ∧ c.bitBytes * 1 < 2 ^ 64 := by
  unfold BuddyContext.bitBytes
  rw [h.totalSize, h.minBlockSize]
  decide

theorem blockOrders_fit (h : TotalGeometry c) :
    c.blockOrdersLen * 1 ≠ 0 ∧ c.blockOrdersLen * 1 < 2 ^ 64 := by
  unfold BuddyContext.blockOrdersLen
  rw [h.totalSize, h.minBlockSize]
  decide

end TotalGeometry

namespace ChildAsked

theorem calloc (hasked : ChildAsked a Q Z) {nmemb size p : Nat} {w' : χ} (hj : j < 4)
    (hne : nmemb * size ≠ 0) (hlt : nmemb * size < 2 ^ 64) (hQ : Q j w)
    (hcall : alloCalloc a nmemb size w = some (p, w')) :
    p ≠ NULL ∧ Q (j + 1) w' ∨ p = NULL ∧ Z w' := by
  have hfits : ¬ (size > 0 ∧ nmemb > (sizeMod - 1) / size) := by
    rintro ⟨hsize, hmany⟩
    have hle : sizeMod - 1 < nmemb * size := (Nat.div_lt_iff_lt_mul hsize).mp hmany
    unfold sizeMod at hle
    omega
  unfold alloCalloc at hcall
  rw [if_neg hfits, sizeMul_eq hlt] at hcall
  rcases Option.bind_eq_some_iff.mp hcall with ⟨⟨q, w₁⟩, halloc, hrest⟩
  dsimp only at hrest
  rcases hasked.alloc hj hne hQ halloc with ⟨hq, hQ'⟩ | ⟨hnull, hZ⟩
  · rw [if_neg hq] at hrest
    cases hrest
    exact Or.inl ⟨hq, hasked.fill hQ'⟩
  · rw [if_pos hnull] at hrest
    cases hrest
    exact Or.inr ⟨hnull, hZ⟩

theorem table (hasked : ChildAsked a Q Z) {nmemb size p : Nat} (hj : j < 4)
    (hne : nmemb * size ≠ 0) (hlt : nmemb * size < 2 ^ 64) (hQ : Q j s.child)
    (hcall : buddyTable a nmemb size s = some (p, t)) :
    t.ctx = s.ctx ∧ (p ≠ NULL ∧ Q (j + 1) t.child ∨ p = NULL ∧ Z t.child) := by
  have htouch : Q j s.touch.child := hasked.note hQ
  unfold buddyTable at hcall
  rcases Option.bind_eq_some_iff.mp hcall with ⟨⟨q, w₁⟩, hcalloc, hrest⟩
  cases hrest
  refine ⟨rfl, ?_⟩
  rcases hasked.calloc hj hne hlt htouch hcalloc with ⟨hq, hQ'⟩ | ⟨hnull, hZ⟩
  · exact Or.inl ⟨hq, hasked.note hQ'⟩
  · exact Or.inr ⟨hnull, hasked.noteRefused hZ⟩

theorem release (hasked : ChildAsked a Q Z) {p n : Nat} (hZ : Z s.child)
    (hcall : buddyRelease a p n s = some t) : Z t.child := by
  have htouch : Z s.touch.child := hasked.noteRefused hZ
  unfold buddyRelease at hcall
  rcases Option.bind_eq_some_iff.mp hcall with ⟨w₁, hfree, hrest⟩
  cases hrest
  exact hasked.free htouch hfree

theorem ownBuffer (hasked : ChildAsked a Q Z) (hZ : Z s.child)
    (hcall : releaseOwnBuffer a s = some w) : Z w := by
  have htouch : Z s.touch.child := hasked.noteRefused hZ
  unfold releaseOwnBuffer at hcall
  split at hcall
  · exact hasked.free htouch hcall
  · cases hcall
    exact htouch

/-- What is asked for after the buffer is there. -/
theorem tables (hasked : ChildAsked a Q Z) (hgeom : TotalGeometry s.ctx)
    (hQ : Q 1 s.child) {made : Made (BuddyState χ) χ}
    (hcall : buddyTables a s = some made) :
    (forall e w', made = Made.failed e w' -> Z w') ∧
      (forall t, made = Made.ok t -> exists w', Q 4 w') := by
  unfold buddyTables at hcall
  -- The free lists.
  rcases Option.bind_eq_some_iff.mp hcall with ⟨⟨f, s₁⟩, hcall₁, hrest₁⟩
  have hfit₁ := hgeom.freeLists_fit
  have htable₁ := hasked.table (by decide) hfit₁.left hfit₁.right hQ hcall₁
  rcases htable₁ with ⟨hctx₁, ⟨hne₁, hQ₁⟩ | ⟨hnull₁, hZ₁⟩⟩
  · dsimp only at hrest₁
    rw [if_neg hne₁] at hrest₁
    -- The bitset.
    rcases Option.bind_eq_some_iff.mp hrest₁ with ⟨⟨b, s₂⟩, hcall₂, hrest₂⟩
    have hgeom₁ : TotalGeometry { s₁.ctx with freeListsPtr := f } := by
      rw [hctx₁]
      exact { hgeom with }
    have hfit₂ := hgeom₁.bitset_fits
    have hchild₁ : Q 2 ({ s₁ with ctx := { s₁.ctx with freeListsPtr := f } } :
        BuddyState χ).child := hQ₁
    have htable₂ := hasked.table (by decide) hfit₂.left hfit₂.right hchild₁ hcall₂
    rcases htable₂ with ⟨hctx₂, ⟨hne₂, hQ₂⟩ | ⟨hnull₂, hZ₂⟩⟩
    · dsimp only at hrest₂
      rw [if_neg hne₂] at hrest₂
      -- The orders of the blocks.
      rcases Option.bind_eq_some_iff.mp hrest₂ with ⟨⟨o, s₃⟩, hcall₃, hrest₃⟩
      have hgeom₂ : TotalGeometry { s₂.ctx with bitsetPtr := b } := by
        rw [hctx₂]
        exact { hgeom₁ with }
      have hfit₃ := hgeom₂.blockOrders_fit
      have hchild₂ : Q 3 ({ s₂ with ctx := { s₂.ctx with bitsetPtr := b } } :
          BuddyState χ).child := hQ₂
      have htable₃ := hasked.table (by decide) hfit₃.left hfit₃.right hchild₂ hcall₃
      rcases htable₃ with ⟨_, ⟨hne₃, hQ₃⟩ | ⟨hnull₃, hZ₃⟩⟩
      · dsimp only at hrest₃
        rw [if_neg hne₃] at hrest₃
        cases hrest₃
        constructor
        · intro e w' heq
          cases heq
        · intro t _
          exact ⟨_, hQ₃⟩
      · dsimp only at hrest₃
        rw [if_pos hnull₃] at hrest₃
        rcases Option.bind_eq_some_iff.mp hrest₃ with ⟨s₄, hfree₄, hrest₄⟩
        rcases Option.bind_eq_some_iff.mp hrest₄ with ⟨s₅, hfree₅, hrest₅⟩
        rcases Option.bind_eq_some_iff.mp hrest₅ with ⟨w₆, hfree₆, hrest₆⟩
        cases hrest₆
        have hZ₄ := hasked.release hZ₃ hfree₄
        have hZ₅ := hasked.release hZ₄ hfree₅
        constructor
        · intro e w' heq
          cases heq
          exact hasked.ownBuffer hZ₅ hfree₆
        · intro t heq
          cases heq
    · dsimp only at hrest₂
      rw [if_pos hnull₂] at hrest₂
      rcases Option.bind_eq_some_iff.mp hrest₂ with ⟨s₃, hfree₃, hrest₃⟩
      rcases Option.bind_eq_some_iff.mp hrest₃ with ⟨w₄, hfree₄, hrest₄⟩
      cases hrest₄
      have hZ₃ := hasked.release hZ₂ hfree₃
      constructor
      · intro e w' heq
        cases heq
        exact hasked.ownBuffer hZ₃ hfree₄
      · intro t heq
        cases heq
  · dsimp only at hrest₁
    rw [if_pos hnull₁] at hrest₁
    rcases Option.bind_eq_some_iff.mp hrest₁ with ⟨w₂, hfree₂, hrest₂⟩
    cases hrest₂
    constructor
    · intro e w' heq
      cases heq
      exact hasked.ownBuffer hZ₁ hfree₂
    · intro t heq
      cases heq

/-- A buddy allocator for 16 MiB is made when its child grants four requests, and when it
is not made the child refused one. -/
theorem make (hasked : ChildAsked a Q Z) {out : Nat} (hout : out ≠ NULL) (hQ : Q 0 w)
    {made : Made (BuddyState χ) χ}
    (hcall : makeBuddyAllocator out (some a) NULL (2 ^ 24) w = some made) :
    (forall e w', made = Made.failed e w' -> Z w') ∧
      (forall t, made = Made.ok t -> exists w', Q 4 w') := by
  have htotal : actualSizeLoop doublings 1 (2 ^ 24) = some (2 ^ 24) := by decide
  have hargs : ¬ (out = NULL ∨ 2 ^ 24 = 0) := by
    rintro (hnull | hzero)
    · exact hout hnull
    · exact absurd hzero (by decide)
  unfold makeBuddyAllocator at hcall
  dsimp only at hcall
  rw [if_neg hargs, htotal, Option.bind_eq_bind, Option.bind_some, if_pos rfl] at hcall
  rcases Option.bind_eq_some_iff.mp hcall with ⟨⟨p, w₁⟩, halloc, hrest⟩
  dsimp only at hrest
  rcases hasked.alloc (by decide) (by decide) (hasked.note hQ) halloc with
    ⟨hne, hQ'⟩ | ⟨hnull, hZ⟩
  · have hne' : ¬ p = NULL := hne
    rw [if_neg hne'] at hrest
    refine hasked.tables ?_ (hasked.note hQ') hrest
    constructor
    · rfl
    · rfl
    · show getOrder (2 ^ 24) = 24
      decide
  · rw [if_pos hnull] at hrest
    cases hrest
    constructor
    · intro e w' heq
      cases heq
      exact hasked.noteRefused hZ
    · intro t heq
      cases heq

end ChildAsked

end Constructor

end Liballo
