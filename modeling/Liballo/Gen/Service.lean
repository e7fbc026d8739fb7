import Liballo.Gen.Lifecycle
import Liballo.Page.Service

/-!
# The generic allocator as a service

The three tiers together keep the promises of one allocator, and what a client holds
when it is destroyed goes back to the system with the rest.
-/

namespace Liballo

open Foundation

/-- The client holds the blocks `L`, the mappings `base` are somebody else's. -/
def GenServes (os : Os) (base : List Block) (s : GenState) (L : List Block) : Prop :=
  exists m₀ fl free, GenLive os base m₀ s fl free L

namespace GenServes

variable {os : Os} {base L : List Block} {s : GenState} {b : Block} {n frame : Nat}

theorem wellFormed (h : GenServes os base s L) : AllWellFormed L := by
  rcases h with ⟨m₀, fl, free, hlive⟩
  exact hlive.wellFormed

theorem disjoint (h : GenServes os base s L) : AllDisjoint L := by
  rcases h with ⟨m₀, fl, free, hlive⟩
  exact hlive.disjoint

theorem perm {M : List Block} (h : GenServes os base s L) (hperm : L.Perm M) :
    GenServes os base s M := by
  rcases h with ⟨m₀, fl, free, hlive⟩
  exact ⟨m₀, fl, free, hlive.perm hperm⟩

theorem alloc (h : GenServes os base s L) (hn : n < 2 ^ 64) :
    exists p s', alloAlloc (genAllo os frame) n s = some (p, s') ∧
      KeepsBytes L (mem s) (mem s') ∧
        (p = NULL ∧ GenServes os base s' L ∨
          p ≠ NULL ∧ GenServes os base s' (⟨p, n⟩ :: L)) := by
  rcases h with ⟨m₀, fl, free, hlive⟩
  rcases hlive.alloc hn with ⟨p, s', hcall, _, hkeeps, hcase⟩
  refine ⟨p, s', hcall, hkeeps, ?_⟩
  rcases hcase with ⟨hnull, hlive', _⟩ | ⟨hne, fl', free', hlive'⟩
  · exact Or.inl ⟨hnull, m₀, fl, free, hlive'⟩
  · exact Or.inr ⟨hne, m₀, fl', free', hlive'⟩

theorem free (h : GenServes os base s L) (hb : b ∈ L) :
    exists s', alloFree (genAllo os frame) b.ptr b.size s = some s' ∧
      KeepsBytes (L.erase b) (mem s) (mem s') ∧ GenServes os base s' (L.erase b) := by
  rcases h with ⟨m₀, fl, free, hlive⟩
  rcases hlive.free_block hb with ⟨s', fl', free', hcall, _, hlive', hkeeps⟩
  exact ⟨s', hcall, hkeeps, m₀, fl', free', hlive'⟩

theorem freeNull (n : Nat) (h : GenServes os base s L) :
    exists s', alloFree (genAllo os frame) NULL n s = some s' ∧
      KeepsBytes L (mem s) (mem s') ∧ GenServes os base s' L :=
  ⟨s, rfl, KeepsBytes.refl L _, h⟩

theorem realloc (h : GenServes os base s L) (hb : b ∈ L) (hpos : n ≠ 0)
    (hne : b.size ≠ n) (hn : n < 2 ^ 64) :
    exists p s', (genAllo os frame).realloc b.ptr b.size n s = some (p, s') ∧
      Reallocated (GenServes os base) s L b n p s' := by
  rcases h with ⟨m₀, fl, free, hlive⟩
  rcases hlive.realloc hb hpos hn hne with ⟨p, s', hcall, _, hothers, hcase⟩
  refine ⟨p, s', hcall, ?_⟩
  rcases hcase with ⟨hnull, hlive', _, hkeeps⟩ | ⟨hsome, hmoved, fl', free', hlive'⟩
  · exact Or.inl ⟨hnull, ⟨m₀, fl, free, hlive'⟩, hkeeps⟩
  · exact Or.inr ⟨hsome, ⟨m₀, fl', free', hlive'⟩, hothers, hmoved⟩

theorem store (h : GenServes os base s L) {P : Nat -> Nat -> Prop} {m : Mem}
    (hw : Wrote P (mem s) m)
    (hP : forall x k, P x k -> exists b, b ∈ L ∧ Block.Inside ⟨x, k⟩ b) :
    GenServes os base (setMem m s) L := by
  rcases h with ⟨m₀, fl, free, hlive⟩
  exact ⟨m₀, fl, free, hlive.store hw hP⟩

/-- Only the mappings of the others are left, whatever the client held. -/
theorem destroy (h : GenServes os base s L) :
    exists s', alloDestroy (genAllo os frame) s = some s' ∧
      (liveMaps (mem s').trace).Perm base := by
  rcases h with ⟨m₀, fl, free, pl, bl, sl, hparts, _⟩
  rw [List.range_eq_range', ← Nat.add_zero poolCount] at hparts
  rcases hparts.destroy_pools with ⟨s₁, fl₁, hcall₁, _, _, hparts₁, _⟩
  rcases hparts₁.destroy_buddy with ⟨t, hcall₂, hpages, _⟩
  rcases hpages.live with ⟨es, hlive⟩
  have hinv : PageInv base t.child.touch.ctx t.child.touch.mem es := hlive.inv.touch
  have hmaps := (pageDestroyFn_spec (s := { t.child.touch with self := frame }) hinv).left
  refine ⟨GenState.setPage (pageDestroyFn { t.child.touch with self := frame })
    { s₁ with tower := t }, ?_, hmaps⟩
  exact Option.bind_eq_some_iff.mpr ⟨s₁, hcall₁,
    Option.bind_eq_some_iff.mpr ⟨{ s₁ with tower := t }, hcall₂, rfl⟩⟩

end GenServes

def genService (os : Os) (frame : Nat) (base : List Block) :
    Service (genAllo os frame) (2 ^ 64) where
  Inv := GenServes os base
  Closed := fun s _ => (liveMaps (mem s).trace).Perm base
  limit_le := wholeLimit_le
  wellFormed := GenServes.wellFormed
  disjoint := GenServes.disjoint
  perm := GenServes.perm
  alloc := GenServes.alloc
  free := GenServes.free
  freeNull := GenServes.freeNull
  realloc := GenServes.realloc
  store := fun h hw hP => h.store hw hP
  destroy := GenServes.destroy

/-- A new generic allocator serves. -/
theorem genServes_of_make {os : Os} {out frame : Nat} {m : Mem} {st : GenState}
    (hpage : exists k, 4 ≤ k ∧ k < 64 ∧ os.pageSize = 2 ^ k)
    (hmake : makeGenAllocator os out frame m = some (Made.ok st)) :
    GenServes os (liveMaps m.trace) st [] := by
  rcases makeGenAllocator_ok hpage hmake with ⟨m₀, fl, free, hmade⟩
  exact ⟨m₀, fl, free, hmade.live⟩

/-- In every dialogue a generic allocator keeps the objects of its client, the zeroed arrays
included. When it is destroyed, the mappings are those from before it was made. -/
theorem genAllocator_keeps {os : Os} {out frame : Nat} {m : Mem} {st s : GenState}
    {es : List (Request × Nat)} (hpage : exists k, 4 ≤ k ∧ k < 64 ∧ os.pageSize = 2 ^ k)
    (hmake : makeGenAllocator os out frame m = some (Made.ok st))
    (hlegal : (objectStore (2 ^ 64)).LegalAll [] es)
    (hrun : Dialogue (perform (genAllo os frame)) st es s) :
    KeepsObjects (genAllo os frame) (2 ^ 64) es s ∧
      exists s', alloDestroy (genAllo os frame) s = some s' ∧
        (liveMaps (mem s').trace).Perm (liveMaps m.trace) := by
  let S := genService os frame (liveMaps m.trace)
  rcases S.dialogue (genServes_of_make hpage hmake) hlegal hrun with ⟨hobjects, hlast⟩
  exact ⟨hobjects, S.destroy hlast⟩

/-- A client that takes one array and leaves. -/
theorem genAllocator_keeps_array : exists st p s,
    makeGenAllocator roomyOs 8 4096 onePageMem = some (Made.ok st) ∧
      perform (genAllo roomyOs 4096) (Request.calloc 25 4) st = some (p, s) ∧
      KeepsObjects (genAllo roomyOs 4096) (2 ^ 64) [(Request.calloc 25 4, p)] s := by
  rcases roomyOs_made with ⟨st, hmake⟩
  have hnone : (objectStore (2 ^ 64)).LegalAll [] [] := trivial
  have hfirst := (genAllocator_keeps roomyOs_page hmake hnone (Dialogue.done st)).left
  have hlegal : (objectStore (2 ^ 64)).Legal [] (Request.calloc 25 4) :=
    ⟨by decide, by decide, Or.inl (by decide)⟩
  rcases hfirst.responds _ hlegal with ⟨p, s, hcall⟩
  have hall : (objectStore (2 ^ 64)).LegalAll [] [(Request.calloc 25 4, p)] :=
    ⟨hlegal, trivial⟩
  have hrun := Dialogue.next hcall (Dialogue.done s)
  exact ⟨st, p, s, hmake, hcall, (genAllocator_keeps roomyOs_page hmake hall hrun).left⟩

theorem roomyOs_aligned : Os.Aligned roomyOs :=
  fun i => Dvd.dvd.mul_left (by decide) (i + 1)

end Liballo
