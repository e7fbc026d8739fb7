import Liballo.Stack
import Liballo.Buddy.Shadow
import Liballo.Page.Shadow
import Liballo.Pool.Shadow

/-!
# Stacks and the address sanitizer

Every layer of a stack poisons inside the blocks of the layer below. The client of the
topmost layer does not notice: what it holds is open, and no access of a right program is
reported.
-/

namespace Liballo

open Foundation

/-!
# The C allocator is sanitized
-/

section Libc

variable {lib : CLib} {base L : List Block} {h h' : CHeap} {b : Block} {n p : Nat}

theorem cSanitized (lib : CLib) (base : List Block) :
    (cLawful lib base).service.Sanitized (fun h L => AllOpen L (mem h)) where
  opens := fun _ hopen => hopen
  perm := fun hopen hperm => hopen.subset (fun _ hb => hperm.mem_iff.mpr hb)
  alloc := by
    intro h h' L n p _ hopen _ hcall
    have hanswer : cAllocFn lib n h = (p, h') := Option.some.inj hcall
    unfold cAllocFn at hanswer
    split at hanswer
    · cases hanswer
      exact ⟨Traced.refl _ _, hopen⟩
    · rcases hmalloc : h.malloc lib n with ⟨q, t⟩
      have htrace := CHeap.trace_malloc lib n h
      rw [hmalloc] at hanswer htrace
      have hkept : AllOpen L (mem t) := hopen.congr (congrArg poisoned htrace)
      dsimp only at hanswer
      split at hanswer
      · rename_i hne
        cases hanswer
        rw [if_neg hne, mem_modifyMem]
        refine ⟨Traced.event (congrArg (Event.unpoison p n :: ·) htrace) trivial, ?_⟩
        exact (hkept.unpoison p n).cons (unpoisoned_note ⟨p, n⟩ (mem t))
      · rename_i hnull
        cases hanswer
        rw [if_pos (not_not.mp hnull)]
        exact ⟨Traced.of_trace_eq htrace, hkept⟩
  free := by
    intro h h' L b hs hopen hb hcall
    have hne : b.ptr ≠ NULL := Nat.ne_of_gt (hs.wellFormed b (hs.owned hb)).left
    have hfreed : (modifyMem (Mem.note (Event.poison b.ptr b.size)) h).free lib b.ptr =
        some h' := by
      simpa [alloFree, cAllo, cFreeFn, hne] using hcall
    have htrace := CHeap.trace_free hfreed
    refine ⟨Traced.event htrace trivial, ?_⟩
    have hrest : AllOpen (L.erase b) (mem h) :=
      hopen.subset (fun d hd => List.mem_of_mem_erase hd)
    have hmarked := hrest.poison (d := b)
      (fun d hd => (hs.holds.disjoint.disjoint_of_mem_erase hb hd).symm)
    exact hmarked.congr (congrArg poisoned htrace)
  freeNull := by
    intro h h' L n _ hopen hcall
    cases hcall
    exact ⟨Traced.refl _ _, hopen⟩
  realloc := by
    intro h h' L b n p hs hopen hb _ _ hcall
    have hne : b.ptr ≠ NULL := Nat.ne_of_gt (hs.wellFormed b (hs.owned hb)).left
    simp only [cAllo, cReallocFn, if_pos hne] at hcall
    rcases Option.bind_eq_some_iff.mp hcall with ⟨⟨q, t⟩, hrealloc, hrest⟩
    have htrace := CHeap.trace_realloc hrealloc
    have hopened : Traced HeaderOpen (mem h) (mem t) := Traced.event htrace trivial
    have hkept : AllOpen L (mem t) :=
      (hopen.unpoison b.ptr b.size).congr (congrArg poisoned htrace)
    dsimp only at hrest
    split at hrest
    · rename_i hq
      cases hrest
      rw [if_neg hq, mem_modifyMem]
      refine ⟨hopened.trans (Traced.event rfl trivial), ?_⟩
      have hrest := hkept.subset (fun d (hd : d ∈ L.erase b) => List.mem_of_mem_erase hd)
      exact (hrest.unpoison p n).cons (unpoisoned_note ⟨p, n⟩ (mem t))
    · rename_i hq
      cases hrest
      rw [if_pos (not_not.mp hq), mem_modifyMem]
      exact ⟨hopened.trans (Traced.event rfl trivial), hkept.unpoison b.ptr b.size⟩
  store := by
    intro h L P m _ hopen _ _ heq
    exact hopen.congr heq

end Libc

/-!
# Layers and stacks
-/

section Stack

variable {χ : Type} [HasMem χ] {a : Allo χ}

/-- The marks of a layer. -/
def Layer.Marked : (l : Layer) -> l.State χ -> List Block -> Prop
  | Layer.buddy _ _ => BuddyShadow
  | Layer.pool _ _ _ => PoolMarked

theorem Layer.sanitized (A : Lawful a) (base : List Block) (l : Layer) :
    (l.lawful A base).service.Sanitized l.Marked := by
  cases l with
  | buddy out size => exact buddySanitized A base
  | pool out blockSize totalBlocks => exact poolSanitized A base

theorem Layer.marked_of_make (A : Lawful a) {w : χ} {base : List Block} (l : Layer)
    {s : l.State χ} (hfits : l.Fits) (hchild : A.Inv w base)
    (hmake : l.make a w = some (Made.ok s)) : l.Marked s [] := by
  cases l with
  | buddy out size => exact buddyShadow_of_make (C := A.toContract) hchild hmake
  | pool out blockSize totalBlocks =>
      exact poolMarked_of_make (C := A.toContract) hchild hfits hmake

/-- The marks of the topmost layer, or of the allocator that there is nothing on. -/
def stackMarked (Marked : χ -> List Block -> Prop) :
    (ls : List Layer) -> StackState χ ls -> List Block -> Prop
  | [] => Marked
  | l :: _ => l.Marked

variable {Marked : χ -> List Block -> Prop}

theorem stackSanitized (A : Lawful a) (h : A.service.Sanitized Marked) (ls : List Layer) :
    (stackLawful A ls).service.Sanitized (stackMarked Marked ls) := by
  cases ls with
  | nil => exact h
  | cons l ls => exact l.sanitized (stackLawful A ls) []

theorem makeStack_marked (A : Lawful a) {w : χ} {ls : List Layer} {st : StackState χ ls}
    (hfits : forall l, l ∈ ls -> l.Fits) (hleaf : A.Inv w []) (hmarked : Marked w [])
    (hmake : makeStack a w ls = some (Made.ok st)) : stackMarked Marked ls st [] := by
  cases ls with
  | nil =>
      cases hmake
      exact hmarked
  | cons l ls =>
      rcases makeStack_serves A (fun k hk => hfits k (List.mem_cons_of_mem l hk)) hleaf with
        ⟨below, hbelow, hcase⟩
      rcases Option.bind_eq_some_iff.mp hmake with ⟨below', hbelow', htop⟩
      cases hbelow.symm.trans hbelow'
      rcases hcase with ⟨e, w', rfl, _⟩ | ⟨s, rfl, hserves⟩
      · cases htop
      · rcases Option.bind_eq_some_iff.mp htop with ⟨top, hlayer, hlast⟩
        cases top with
        | ok t =>
            cases hlast
            exact l.marked_of_make (stackLawful A ls) (hfits l List.mem_cons_self) hserves
              hlayer
        | failed e v =>
            rcases Option.bind_eq_some_iff.mp hlast with ⟨w', _, hno⟩
            cases hno

theorem stack_unreported (A : Lawful a) (h : A.service.Sanitized Marked) {w : χ}
    {ls : List Layer} {st s : StackState χ ls} {es : List (Request × Nat)}
    (hfits : forall l, l ∈ ls -> l.Fits) (hleaf : A.Inv w []) (hmarked : Marked w [])
    (hmake : makeStack a w ls = some (Made.ok st))
    (hlegal : (objectStore (2 ^ 64)).LegalAll [] es)
    (hrun : Dialogue (perform (stackAllo a ls)) st es s) :
    AllOpen ((objectStore (2 ^ 64)).replay [] es).blocks (mem s) ∧
      Traced HeaderOpen (mem st) (mem s) := by
  rcases makeStack_serves A hfits hleaf with ⟨made, hmake', hcase⟩
  cases hmake.symm.trans hmake'
  rcases hcase with ⟨e, w', hno, _⟩ | ⟨t, hok, hserves⟩
  · cases hno
  · cases hok
    have hstart := makeStack_marked A hfits hleaf hmarked hmake
    exact (stackSanitized A h ls).dialogue hserves hstart hlegal hrun

end Stack

/-- The client of a stack on the page allocator is never reported for an access to an object
of its own, and neither are the layers, if nothing was poisoned before. -/
theorem pageStack_unreported {os : Os} {out : Nat} {m : Mem} {page : PageState}
    {ls : List Layer} {st s : StackState PageState ls} {es : List (Request × Nat)}
    (hpage : exists k, 4 ≤ k ∧ k < 64 ∧ os.pageSize = 2 ^ k) (hos : Os.Aligned os)
    (hclean : forall x, poisoned m.trace x = false) (hfits : forall l, l ∈ ls -> l.Fits)
    (hmake : makePageAllocator os out m = Made.ok page)
    (hstack : makeStack (pageAllo os) page ls = some (Made.ok st))
    (hlegal : (objectStore (2 ^ 64)).LegalAll [] es)
    (hrun : Dialogue (perform (stackAllo (pageAllo os) ls)) st es s) :
    AllOpen ((objectStore (2 ^ 64)).replay [] es).blocks (mem s) ∧
      Traced HeaderOpen (mem st) (mem s) := by
  have hlive := makePageAllocator_spec hpage hmake
  exact stack_unreported (pageLawful os hos (liveMaps m.trace))
    (pageSanitized os hos (liveMaps m.trace)) hfits
    ⟨⟨[], hlive⟩, fun b hb => absurd hb List.not_mem_nil⟩
    (pageShadow_of_make hclean hmake) hstack hlegal hrun

/-- The same on the C library, whatever it was that was poisoned before. -/
theorem cStack_unreported {lib : CLib} {h : CHeap} {ls : List Layer}
    {st s : StackState CHeap ls} {es : List (Request × Nat)}
    (howned : AllWellFormed h.owned) (hfits : forall l, l ∈ ls -> l.Fits)
    (hstack : makeStack (cAllo lib) h ls = some (Made.ok st))
    (hlegal : (objectStore (2 ^ 64)).LegalAll [] es)
    (hrun : Dialogue (perform (stackAllo (cAllo lib) ls)) st es s) :
    AllOpen ((objectStore (2 ^ 64)).replay [] es).blocks (mem s) ∧
      Traced HeaderOpen (mem st) (mem s) :=
  stack_unreported (cLawful lib h.owned) (cSanitized lib h.owned) hfits
    (CHeap.Serves.start howned) (fun _ hb => absurd hb List.not_mem_nil) hstack hlegal hrun

/-- A client of a pool on a buddy allocator on the page allocator. -/
theorem pageStack_unreported_roomy : exists page st s p,
    makePageAllocator roomyOs 8 onePageMem = Made.ok page ∧
      makeStack (pageAllo roomyOs) page [Layer.pool 24 40 2, Layer.buddy 16 128] =
        some (Made.ok st) ∧
      Dialogue (perform (stackAllo (pageAllo roomyOs)
        [Layer.pool 24 40 2, Layer.buddy 16 128])) st [(Request.alloc 20, p)] s ∧
      AllOpen ((objectStore (2 ^ 64)).replay [] [(Request.alloc 20, p)]).blocks (mem s) ∧
        Traced HeaderOpen (mem st) (mem s) := by
  have hsize : 20 < 2 ^ 64 := by decide
  refine ⟨_, _, _, _, rfl, rfl, Dialogue.next rfl (Dialogue.done _), ?_⟩
  exact @pageStack_unreported roomyOs 8 onePageMem _
    [Layer.pool 24 40 2, Layer.buddy 16 128] _ _ [(Request.alloc 20, _)] roomyOs_page
    roomyOs_aligned (fun _ => rfl) (by decide) rfl rfl ⟨hsize, trivial⟩
    (Dialogue.next rfl (Dialogue.done _))

/-- A client of two buddy allocators on the C library. -/
theorem cStack_unreported_buddies : exists st s p,
    makeStack (cAllo ⟨fun i => (i + 1) * 2 ^ 32, fun _ _ => 0⟩) ⟨[], 0, onePageMem⟩
        [Layer.buddy 24 128, Layer.buddy 16 1024] = some (Made.ok st) ∧
      Dialogue (perform (stackAllo (cAllo ⟨fun i => (i + 1) * 2 ^ 32, fun _ _ => 0⟩)
        [Layer.buddy 24 128, Layer.buddy 16 1024])) st [(Request.alloc 20, p)] s ∧
      AllOpen ((objectStore (2 ^ 64)).replay [] [(Request.alloc 20, p)]).blocks (mem s) ∧
        Traced HeaderOpen (mem st) (mem s) := by
  have hsize : 20 < 2 ^ 64 := by decide
  refine ⟨_, _, _, rfl, Dialogue.next rfl (Dialogue.done _), ?_⟩
  exact @cStack_unreported ⟨fun i => (i + 1) * 2 ^ 32, fun _ _ => 0⟩ ⟨[], 0, onePageMem⟩
    [Layer.buddy 24 128, Layer.buddy 16 1024] _ _ [(Request.alloc 20, _)]
    (fun _ hb => absurd hb List.not_mem_nil) (by decide) rfl ⟨hsize, trivial⟩
    (Dialogue.next rfl (Dialogue.done _))

end Liballo
