import Liballo.Buddy.Make
import Liballo.Page.Defs
import Mathlib.Order.Bounds.Defs

/-!
# Termination of the constructor

The doubling of the total size ends for sizes up to `2 ^ 63`, and goes on forever above.
Totals below the smallest block are rejected, since one of the tables would be empty or
too large.
-/

namespace Liballo

open Foundation

section Construction

variable {χ : Type} [HasMem χ] {a : Allo χ} {Inv : χ -> List Block -> Prop}
variable {L : List Block} {out buffer size : Nat} {w : χ}

/-- A child whose calls always return keeps its books, if it refuses requests for no
bytes. -/
theorem Ledger.of_total
    (halloc : forall n w, exists p w', alloAlloc a n w = some (p, w') ∧
      (n = 0 -> p = NULL))
    (hfree : forall p n w, exists w', alloFree a p n w = some w') :
    Ledger a (fun _ _ => True) := by
  constructor
  · exact fun _ => trivial
  · exact fun _ => trivial
  · intro w L n _ _
    rcases halloc n w with ⟨p, w', hcall, hzero⟩
    refine ⟨p, w', hcall, ?_⟩
    by_cases hnull : p = NULL
    · exact Or.inl ⟨hnull, trivial⟩
    · exact Or.inr ⟨hnull, fun hn => hnull (hzero hn), trivial⟩
  · intro w L K b _
    rcases hfree b.ptr b.size w with ⟨w', hcall⟩
    exact ⟨w', hcall, trivial⟩

/-- The constructor comes back: its loop ends after some number of rounds, and so do the
calls it makes. -/
def BuddyTerminates (a : Allo χ) (out buffer size : Nat) (w : χ) : Prop :=
  (out ≠ NULL -> exists fuel t, actualSizeLoop fuel 1 size = some t) ∧
    exists made, makeBuddyAllocator out (some a) buffer size w = some made

/-- The total is the least power of two that is large enough, and it has a level. -/
structure BuddyGeometry (size : Nat) (c : BuddyContext) : Prop where
  totalSize : IsLeast { n | (exists k, n = 2 ^ k) ∧ size ≤ n } c.totalSize
  maxOrder : 2 ^ c.maxOrder = c.totalSize
  levels : 0 ≤ (c.maxOrder : Int) - getOrder c.minBlockSize

theorem BuddyShape.geometry {c : BuddyContext} (h : BuddyShape buffer size c)
    (hlen : c.blockOrdersLen ≠ 0) : BuddyGeometry size c := by
  rcases h.rounded with ⟨k, hk, htotal, hmax, hle, hleast⟩
  constructor
  · constructor
    · exact ⟨⟨k, htotal⟩, htotal ▸ hle⟩
    · rintro n ⟨⟨j, rfl⟩, hj⟩
      rw [htotal]
      apply Nat.pow_le_pow_right (by decide)
      by_contra hlt
      have hsmall := hleast j (Nat.lt_of_not_le hlt)
      exact Nat.lt_irrefl _ (Nat.lt_of_lt_of_le hsmall hj)
  · rw [hmax, htotal]
  · have hge := h.order_ge hlen
    rw [h.minBlockSize, getOrder_thirtytwo]
    omega

/-- For every child that returns from its calls and refuses requests for no bytes. -/
theorem makeBuddyAllocator_terminates_iff (hledger : Ledger a Inv) (h : Inv w L) :
    (BuddyTerminates a out buffer size w ∧
      forall st, makeBuddyAllocator out (some a) buffer size w = some (Made.ok st) ->
        BuddyGeometry size st.ctx) <->
      (out = NULL ∨ size ≤ 2 ^ 63) := by
  constructor
  · rintro ⟨⟨hloop, _⟩, _⟩
    by_cases hout : out = NULL
    · exact Or.inl hout
    · refine Or.inr ?_
      rcases hloop hout with ⟨fuel, t, hends⟩
      by_contra hlarge
      have hnever := actualSizeLoop_never (Nat.lt_of_not_le hlarge) fuel
        (Or.inr ⟨0, Nat.zero_le 63, (Nat.pow_zero 2).symm⟩)
      rw [hnever] at hends
      cases hends
  · intro hcases
    by_cases hout : out = NULL
    · have hmake : makeBuddyAllocator out (some a) buffer size w =
          some (Made.failed AlloError.inval w) := if_pos (Or.inl hout)
      refine ⟨⟨fun hne => absurd hout hne, _, hmake⟩, ?_⟩
      intro st hok
      rw [hmake] at hok
      cases hok
    · have hsize : size ≤ 2 ^ 63 := hcases.resolve_left hout
      rcases makeBuddyAllocator_returns hledger hsize h with ⟨made, hmake, hcase⟩
      refine ⟨⟨?_, made, hmake⟩, ?_⟩
      · intro _
        have hfuel : 64 ≤ 0 + doublings := by decide
        rcases actualSizeLoop_stops hsize hfuel (Nat.zero_le 63)
          (fun i hi => absurd hi (Nat.not_lt_zero i)) with ⟨k, _, hends, _⟩
        exact ⟨doublings, 2 ^ k, hends⟩
      · intro st hok
        rw [hmake] at hok
        cases hok
        rcases hcase with ⟨e, w', hno, _⟩ | ⟨t, heq, hshape, hlen, _⟩
        · cases hno
        · cases heq
          have hgeom := hshape.geometry hlen
          exact
            { totalSize := hgeom.totalSize
              maxOrder := hgeom.maxOrder
              levels := hgeom.levels }

end Construction

/-- The calls of the page allocator always return. -/
theorem pageAllo_ledger (os : Os) : Ledger (pageAllo os) (fun _ _ => True) := by
  apply Ledger.of_total
  · intro n w
    refine ⟨_, _, rfl, ?_⟩
    intro hzero
    rw [hzero]
    rfl
  · intro p n w
    exact ⟨_, rfl⟩

/-- A page allocator with an empty registry. -/
def emptyPages : PageState :=
  { self := 8
    ctx := { pageSize := 4096, registry := 4096, count := 0, capacity := 256 }
    mem := { bytes := fun _ => 0, trace := [Event.map 4096 4096] } }

/-- Over a system that refuses everything. -/
theorem makeBuddyAllocator_terminates_iff_start :
    (BuddyTerminates (pageAllo ⟨4096, fun _ => 0⟩) 8 NULL 64 emptyPages ∧
      forall st, makeBuddyAllocator 8 (some (pageAllo ⟨4096, fun _ => 0⟩)) NULL 64
        emptyPages = some (Made.ok st) -> BuddyGeometry 64 st.ctx) <->
      (8 = NULL ∨ 64 ≤ 2 ^ 63) :=
  makeBuddyAllocator_terminates_iff (L := []) (pageAllo_ledger _) trivial

/-- One byte more than half of the address space. -/
theorem makeBuddyAllocator_hangs :
    ¬ (BuddyTerminates (pageAllo ⟨4096, fun _ => 0⟩) 8 NULL (2 ^ 63 + 1) emptyPages ∧
      forall st, makeBuddyAllocator 8 (some (pageAllo ⟨4096, fun _ => 0⟩)) NULL
        (2 ^ 63 + 1) emptyPages = some (Made.ok st) ->
          BuddyGeometry (2 ^ 63 + 1) st.ctx) := by
  rintro ⟨⟨hloop, _⟩, _⟩
  have hout : 8 ≠ NULL := by decide
  rcases hloop hout with ⟨fuel, t, hends⟩
  have hlarge : 2 ^ 63 < 2 ^ 63 + 1 := Nat.lt_succ_self _
  rw [actualSizeLoop_never hlarge fuel (Or.inr ⟨0, Nat.zero_le 63, (Nat.pow_zero 2).symm⟩)]
    at hends
  cases hends

end Liballo
