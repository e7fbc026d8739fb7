import Liballo.Buddy.Safety
import Liballo.Service

/-!
# Services and the address sanitizer

With the address sanitizer the allocators poison what nobody may access, and a program is
stopped at the first access to a poisoned byte. A service is sanitized if that never
happens to a program that is right: the objects of its client are open in every state,
and so is all that the service itself reads and writes when it does it.
-/

namespace Liballo

open Foundation

/-- All bytes of the blocks may be accessed. -/
def AllOpen (L : List Block) (m : Mem) : Prop :=
  forall b, b ∈ L -> Unpoisoned m b

section Open

variable {L K : List Block} {b : Block} {m m' : Mem}

theorem AllOpen.subset (h : AllOpen L m) (hsub : forall b, b ∈ K -> b ∈ L) : AllOpen K m :=
  fun b hb => h b (hsub b hb)

theorem AllOpen.cons (h : AllOpen L m) (hb : Unpoisoned m b) : AllOpen (b :: L) m := by
  intro c hc
  cases hc with
  | head => exact hb
  | tail _ hc => exact h c hc

theorem AllOpen.congr (h : AllOpen L m) (heq : poisoned m'.trace = poisoned m.trace) :
    AllOpen L m' :=
  fun b hb => (h b hb).congr heq

theorem AllOpen.unpoison (h : AllOpen L m) (a n : Nat) :
    AllOpen L (m.note (Event.unpoison a n)) := by
  intro b hb x hx
  rw [Mem.note_trace, poisoned_unpoison]
  split
  · rfl
  · exact h b hb x hx

theorem unpoisoned_note (b : Block) (m : Mem) :
    Unpoisoned (m.note (Event.unpoison b.ptr b.size)) b := by
  intro x hx
  rw [Mem.note_trace, poisoned_unpoison]
  exact if_pos hx

/-- Marking a block leaves the blocks apart from it alone. -/
theorem AllOpen.poison (h : AllOpen L m) {d : Block} (hapart : forall b, b ∈ L -> b.Disjoint d) :
    AllOpen L (m.note (Event.poison d.ptr d.size)) := by
  intro b hb x hx
  rw [Mem.note_trace, poisoned_poison]
  have hout : ¬ Block.Contains ⟨d.ptr, d.size⟩ x := (hapart b hb).not_contains hx
  rw [if_neg hout]
  exact h b hb x hx

end Open

/-!
# Sanitized services

`Shadow s L` describes the marks of a state whose live blocks are `L`.
-/

structure Service.Sanitized {σ : Type} [HasMem σ] {a : Allo σ} {limit : Nat}
    (S : Service a limit) (Shadow : σ -> List Block -> Prop) : Prop where
  opens : forall {s L}, S.Inv s L -> Shadow s L -> AllOpen L (mem s)
  perm : forall {s L M}, Shadow s L -> L.Perm M -> Shadow s M
  alloc : forall {s s' L n p}, S.Inv s L -> Shadow s L -> n < limit ->
    alloAlloc a n s = some (p, s') ->
      Traced HeaderOpen (mem s) (mem s') ∧ Shadow s' (if p = NULL then L else ⟨p, n⟩ :: L)
  free : forall {s s' L b}, S.Inv s L -> Shadow s L -> b ∈ L ->
    alloFree a b.ptr b.size s = some s' ->
      Traced HeaderOpen (mem s) (mem s') ∧ Shadow s' (L.erase b)
  freeNull : forall {s s' L n}, S.Inv s L -> Shadow s L -> alloFree a NULL n s = some s' ->
    Traced HeaderOpen (mem s) (mem s') ∧ Shadow s' L
  realloc : forall {s s' L b n p}, S.Inv s L -> Shadow s L -> b ∈ L -> n ≠ 0 ->
    n < limit -> a.realloc b.ptr b.size n s = some (p, s') ->
      Traced HeaderOpen (mem s) (mem s') ∧
        Shadow s' (if p = NULL then L else ⟨p, n⟩ :: L.erase b)
  store : forall {s L P m}, S.Inv s L -> Shadow s L -> Wrote P (mem s) m ->
    (forall x n, P x n -> exists b, b ∈ L ∧ Block.Inside ⟨x, n⟩ b) ->
      poisoned m.trace = poisoned (mem s).trace -> Shadow (setMem m s) L

namespace Service.Sanitized

variable {σ : Type} [HasMem σ] {a : Allo σ} {limit : Nat} {S : Service a limit}
variable {Shadow : σ -> List Block -> Prop} {s s' : σ} {L : Objects} {K : List Block}
variable {c : Request} {p n : Nat}

/-- Filling a new block. -/
theorem fill (h : S.Sanitized Shadow) (hinv : S.Inv s (⟨p, n⟩ :: K))
    (hshadow : Shadow s (⟨p, n⟩ :: K)) (v : Nat) :
    Traced HeaderOpen (mem s) (mem (modifyMem (alloMemset p v n) s)) ∧
      Shadow (modifyMem (alloMemset p v n) s) (⟨p, n⟩ :: K) := by
  have hset : Wrote (fun x k => x = p ∧ k = n) (mem s) (alloMemset p v n (mem s)) :=
    wrote_alloMemset ⟨rfl, rfl⟩
  constructor
  · rw [mem_modifyMem]
    apply Traced.event rfl
    exact h.opens hinv hshadow _ List.mem_cons_self
  · apply h.store hinv hshadow hset _ rfl
    rintro x k ⟨rfl, rfl⟩
    exact ⟨_, List.mem_cons_self, Nat.le_refl _, Nat.le_refl _⟩

theorem calloc (h : S.Sanitized Shadow) {nmemb size : Nat} (hinv : S.Inv s K)
    (hshadow : Shadow s K) (hsize : nmemb * size < limit ∨ 2 ^ 64 ≤ nmemb * size)
    (hcall : alloCalloc a nmemb size s = some (p, s')) :
    Traced HeaderOpen (mem s) (mem s') ∧
      Shadow s' (if p = NULL then K else ⟨p, nmemb * size⟩ :: K) := by
  by_cases hover : 2 ^ 64 ≤ nmemb * size
  · rw [alloCalloc_overflows hover] at hcall
    cases hcall
    exact ⟨Traced.refl _ _, hshadow⟩
  · have hlt : nmemb * size < limit := hsize.resolve_right hover
    have htotal : sizeMul nmemb size = nmemb * size :=
      sizeMul_eq (Nat.lt_of_lt_of_le hlt S.limit_le)
    unfold alloCalloc at hcall
    rw [if_neg (fun hcheck => hover (sizeMul_overflows.mp hcheck))] at hcall
    rcases S.alloc hinv hlt with ⟨q, t, halloc, _, hcase⟩
    simp only [htotal, halloc, Option.bind_eq_bind, Option.bind_some] at hcall
    rcases h.alloc hinv hshadow hlt halloc with ⟨htraced, hgranted⟩
    rcases hcase with ⟨hnull, _⟩ | ⟨hne, hinv'⟩
    · rw [if_pos hnull] at hcall
      cases hcall
      exact ⟨htraced, hgranted⟩
    · rw [if_neg hne] at hcall hgranted
      cases hcall
      rw [if_neg hne]
      rcases h.fill hinv' hgranted 0 with ⟨hfilled, hshadow'⟩
      exact ⟨htraced.trans hfilled, hshadow'⟩

/-- A new object. -/
theorem place {data : List (Option UInt8)} (hdata : data.length = n)
    (hdone : Traced HeaderOpen (mem s) (mem s') ∧
      Shadow s' (if p = NULL then L.blocks else ⟨p, n⟩ :: L.blocks)) :
    Traced HeaderOpen (mem s) (mem s') ∧ Shadow s' (L.place p data).blocks := by
  subst hdata
  unfold Objects.place
  by_cases hp : p = NULL
  · rw [if_pos hp] at hdone
    rw [if_pos (show p = 0 from hp)]
    exact hdone
  · rw [if_neg hp] at hdone
    rw [if_neg (show p ≠ 0 from hp)]
    exact hdone

theorem wrapped_realloc (h : S.Sanitized Shadow) (hinv : S.Inv s L.blocks)
    (hshadow : Shadow s L.blocks) {b : Block} (hb : b ∈ L.blocks) (hn : n < limit)
    (hcall : alloRealloc a b.ptr b.size n s = some (p, s')) :
    Traced HeaderOpen (mem s) (mem s') ∧
      Shadow s' (L.afterRequest (Request.realloc b n) p).blocks := by
  have hptr : b.ptr ≠ NULL := Nat.ne_of_gt (S.wellFormed hinv b hb).left
  simp only [Objects.afterRequest]
  rcases alloRealloc_cases hptr hcall with
    ⟨rfl, rfl, hfree⟩ | ⟨hpos, hsame, rfl, rfl⟩ | ⟨hpos, _, hrealloc⟩
  · rw [if_pos rfl, Objects.blocks_release]
    exact h.free hinv hshadow hb hfree
  · rw [if_neg hpos, if_neg (show b.ptr ≠ 0 from hptr), Objects.blocks_resize, ← hsame]
    exact ⟨Traced.refl _ _, h.perm hshadow (List.perm_cons_erase hb)⟩
  · rw [if_neg hpos]
    have hdone := h.realloc hinv hshadow hb hpos hn hrealloc
    by_cases hp : p = NULL
    · rw [if_pos hp] at hdone
      rw [if_pos (show p = 0 from hp)]
      exact hdone
    · rw [if_neg hp] at hdone
      rw [if_neg (show p ≠ 0 from hp), Objects.blocks_resize]
      exact hdone

/-- One exchange. -/
theorem step (h : S.Sanitized Shadow) (hinv : S.Inv s L.blocks) (hshadow : Shadow s L.blocks)
    (hlegal : (objectStore limit).Legal L c) (hcall : perform a c s = some (p, s')) :
    Traced HeaderOpen (mem s) (mem s') ∧ Shadow s' (L.afterRequest c p).blocks := by
  cases c with
  | alloc n => exact place (List.length_replicate ..) (h.alloc hinv hshadow hlegal hcall)
  | calloc nmemb size =>
      exact place (List.length_replicate ..)
        (h.calloc hinv hshadow hlegal.right.right hcall)
  | free b =>
      rcases Option.bind_eq_some_iff.mp hcall with ⟨t, hfree, heq⟩
      cases heq
      simp only [Objects.afterRequest, Objects.blocks_release]
      exact h.free hinv hshadow hlegal hfree
  | freeNull n =>
      rcases Option.bind_eq_some_iff.mp hcall with ⟨t, hfree, heq⟩
      cases heq
      exact h.freeNull hinv hshadow hfree
  | realloc b n => exact h.wrapped_realloc hinv hshadow hlegal.left hlegal.right hcall
  | reallocNull oldSize n =>
      simp only [Objects.afterRequest]
      by_cases hzero : n = 0
      · subst hzero
        have hfreed : alloRealloc a NULL oldSize 0 s = some (p, s') := hcall
        unfold alloRealloc at hfreed
        rw [if_pos rfl] at hfreed
        rcases Option.bind_eq_some_iff.mp hfreed with ⟨t, hfree, heq⟩
        cases heq
        rw [if_pos rfl]
        exact h.freeNull hinv hshadow hfree
      · have hpass : alloAlloc a n s = some (p, s') := by
          simpa [perform, alloRealloc, hzero] using hcall
        rw [if_neg hzero]
        exact place (List.length_replicate ..) (h.alloc hinv hshadow hlegal hpass)
  | store x v =>
      cases hcall
      rcases hlegal with ⟨b, hb, hle, hlt⟩
      have hpoked : Wrote (fun y k => y = x ∧ k = 1) (mem s) (Mem.poke x v (mem s)) :=
        Wrote.poke ⟨rfl, rfl⟩
      have htrace : (mem (modifyMem (Mem.poke x v) s)).trace = (mem s).trace := by
        rw [mem_modifyMem]
        rfl
      simp only [Objects.afterRequest, Objects.blocks_write]
      refine ⟨Traced.of_trace_eq htrace, h.store hinv hshadow hpoked ?_ rfl⟩
      rintro y k ⟨rfl, rfl⟩
      exact ⟨b, hb, hle, hlt⟩

/-- In every dialogue the objects of the client stay open, and the service accesses only
open bytes. -/
theorem dialogue (h : S.Sanitized Shadow) {st : σ} {es : List (Request × Nat)}
    (hstart : S.Inv st []) (hshadow : Shadow st [])
    (hlegal : (objectStore limit).LegalAll [] es) (hrun : Dialogue (perform a) st es s) :
    AllOpen ((objectStore limit).replay [] es).blocks (mem s) ∧
      Traced HeaderOpen (mem st) (mem s) := by
  have himplements : Implements (objectStore limit) (perform a) (fun s L =>
      S.Holds s L ∧ Shadow s L.blocks ∧ Traced HeaderOpen (mem st) (mem s)) := by
    rintro s L c ⟨hholds, hshadow, htraced⟩ hlegal
    rcases S.implements s L c hholds hlegal with ⟨p, s', hcall, hallows, hholds'⟩
    rcases h.step hholds.left hshadow hlegal hcall with ⟨hstep, hshadow'⟩
    exact ⟨p, s', hcall, hallows, hholds', hshadow', htraced.trans hstep⟩
  have hholds : S.Holds st [] := ⟨hstart, fun o ho => absurd ho List.not_mem_nil⟩
  rcases (himplements.dialogue ⟨hholds, hshadow, Traced.refl _ _⟩ hlegal hrun).right with
    ⟨hlast, hshadow', htraced⟩
  exact ⟨h.opens hlast.left hshadow', htraced⟩

end Service.Sanitized

end Liballo
