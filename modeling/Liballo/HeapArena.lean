import Liballo.Arena.Service
import Liballo.Gen.Service

/-!
# The example program

The program of `heap-arena/main.c` makes arenas on a page allocator, one after the other,
and takes two blocks from each. It ends with nothing left behind, or stops where the
system refused it memory.
-/

namespace Liballo

open Foundation

/-!
# The program
-/

/-- How the program ends; `message` is what it prints before `abort`. -/
inductive Exit where
  | returned (code : Nat)
  | aborted (message : String)
  deriving DecidableEq, Repr

/-- The program goes on with the page allocator, or it aborts. -/
inductive Round where
  | done (page : PageState)
  | aborted (message : String) (page : PageState)

section Program

variable (os : Os) (arena : Nat)

/-- One arena. -/
def heapArenaRound (page : PageState) : Option Round := do
  match ← makeArenaAllocator arena (some (pageAllo os)) (1024 * 1024) page with
  | Made.failed _ page => some (Round.aborted "Failed to create arena allocator" page)
  | Made.ok s =>
      let (ptr1, s) ← alloAlloc (arenaAllo (pageAllo os)) 256 s
      if ptr1 = NULL then
        some (Round.aborted "Failed to allocate memory from arena" s.child)
      else
        let (ptr2, s) ← alloAlloc (arenaAllo (pageAllo os)) 512 s
        if ptr2 = NULL then
          some (Round.aborted "Failed to allocate memory from arena" s.child)
        else
          let s ← alloDestroy (arenaAllo (pageAllo os)) s
          some (Round.done s.child)

def heapArenaLoop : Nat -> PageState -> Option Round
  | 0, page => some (Round.done page)
  | n + 1, page => do
      match ← heapArenaRound os arena page with
      | Round.aborted message page => some (Round.aborted message page)
      | Round.done page => heapArenaLoop n page

/-- `main`, with the local variables at `backing` and `arena`. The program makes 1000
rounds. -/
def heapArenaMain (backing rounds : Nat) (m : Mem) : Option (Exit × Mem) :=
  match makePageAllocator os backing m with
  | Made.failed _ m => some (Exit.returned 1, m)
  | Made.ok page => do
      match ← heapArenaLoop os arena rounds page with
      | Round.aborted message page => some (Exit.aborted message, mem page)
      | Round.done page => do
          let page ← alloDestroy (pageAllo os) page
          some (Exit.returned 0, mem page)

end Program

/-!
# Refusals of the system
-/

/-- What the system answered. -/
def Event.IsAnswer : Event -> Bool
  | Event.map _ _ => true
  | Event.remap _ _ _ _ => true
  | Event.refuse => true
  | _ => false

/-- The last answer of the system was a refusal. -/
def RefusedLast (m : Mem) : Prop :=
  m.trace.find? Event.IsAnswer = some Event.refuse

theorem refusedLast_refuse (m : Mem) : RefusedLast (m.note Event.refuse) :=
  List.find?_cons_of_pos rfl

section Refusals

variable {os : Os} {n : Nat} {s s' : PageState} {m m' : Mem}

/-- The page allocator refuses only what the system refused it. -/
theorem pageAllocFn_null (hpos : n ≠ 0) (hcall : pageAllocFn os n s = (NULL, s')) :
    RefusedLast s'.mem := by
  rcases pageAllocFn_refuses hpos hcall with ⟨es, htrace⟩
  rw [RefusedLast, htrace]
  exact List.find?_cons_of_pos rfl

theorem makePageAllocator_refused {out : Nat} {e : AlloError} (hout : out ≠ NULL)
    (hmake : makePageAllocator os out m = Made.failed e m') : RefusedLast m' := by
  unfold makePageAllocator at hmake
  rw [if_neg hout] at hmake
  dsimp only at hmake
  rcases alloOsMmap_cases os (alloOsGetPageSize os) (m.note (Event.touch out sizeofAllo))
    with hrefused | ⟨a, m₁, hgranted, hne, _⟩
  · rw [hrefused] at hmake
    dsimp only at hmake
    rw [if_pos rfl] at hmake
    cases hmake
    exact refusedLast_refuse (m.note (Event.touch out sizeofAllo))
  · rw [hgranted] at hmake
    dsimp only at hmake
    rw [if_neg hne] at hmake
    cases hmake

/-- An arena on the page allocator cannot be made only if the system refused. -/
theorem makeArenaAllocator_refused {out blockSize : Nat} {e : AlloError}
    (hout : out ≠ NULL) (hpos : blockSize ≠ 0)
    (hsum : sizeofArenaBlock + blockSize < 2 ^ 64)
    (hmake : makeArenaAllocator out (some (pageAllo os)) blockSize s =
      some (Made.failed e s')) : RefusedLast (mem s') := by
  unfold makeArenaAllocator at hmake
  dsimp only at hmake
  rw [if_neg (fun heither => heither.elim hout hpos)] at hmake
  unfold newArenaBlock at hmake
  rcases hcall : pageAllocFn os (sizeAdd sizeofArenaBlock blockSize) s with ⟨p, t⟩
  have halloc : alloAlloc (pageAllo os) (sizeAdd sizeofArenaBlock blockSize) s =
      some (p, t) := congrArg some hcall
  simp only [halloc, Option.bind_eq_bind, Option.bind_some] at hmake
  by_cases hp : p = NULL
  · subst hp
    rw [if_pos rfl] at hmake
    simp only [Option.bind_some, if_true] at hmake
    cases hmake
    apply pageAllocFn_null _ hcall
    rw [sizeAdd_eq hsum]
    exact fun hzero => hpos (Nat.eq_zero_of_add_eq_zero_left hzero)
  · simp only [if_neg hp, Option.bind_some] at hmake
    cases hmake

end Refusals

/-!
# Requests that fit
-/

section Room

variable {χ : Type} [HasMem χ] {a : Allo χ} {S : Supply a} {base blocks : List Block}
variable {s : ArenaState χ} {k n : Nat}

/-- The current block of an arena is used up to `k` at most, and `n` more bytes fit. -/
structure ArenaRoom (s : ArenaState χ) (k n : Nat) : Prop where
  offset_le : ArenaBlock.offset (mem s) s.ctx.current ≤ k
  aligned : 8 ∣ k
  fits : k + n ≤ s.ctx.blockSize

theorem arenaBump_offset (k n : Nat) :
    ArenaBlock.offset (mem (arenaBump k n s).2) s.ctx.current = sizeAdd k n := by
  have hlt : sizeAdd k n < 2 ^ 64 := Nat.mod_lt _ (Nat.two_pow_pos 64)
  simp only [arenaBump, mem_modifyMem]
  exact Mem.word_writeWord_same hlt

/-- A request that fits in the current block is not refused. -/
theorem arenaAllocFn_room (h : ArenaInv S base s blocks) (hroom : ArenaRoom s k n)
    (hpos : 0 < n) :
    exists p s', arenaAllocFn a n s = some (p, s') ∧ p ≠ NULL ∧
      ArenaInv S base s' blocks ∧ s'.ctx = s.ctx ∧
        ArenaBlock.offset (mem s') s.ctx.current ≤ k + n := by
  rcases h.list.current with ⟨cur, hcur, hptr, hsize⟩
  have hfull : ArenaBlock.size (mem s) s.ctx.current = s.ctx.blockSize := by
    have heq := h.list.size_eq cur hcur
    rw [hptr] at heq
    omega
  have hbounds := h.bounds hcur
  rw [hptr] at hbounds
  rcases arenaAlignedOffset_spec h with ⟨hle, halign⟩
  have hoffset : arenaAlignedOffset s ≤ k := by
    have hk := hroom.offset_le
    have hdvd := hroom.aligned
    have hfits := hroom.fits
    unfold arenaAlignedOffset
    rw [alloAlignUp_eight (by omega)]
    omega
  have hfits : arenaAlignedOffset s + n ≤ ArenaBlock.size (mem s) s.ctx.current := by
    have hfits := hroom.fits
    omega
  have hgrant := arenaBump_grant h hpos halign hle hfits
  have hcall : arenaAllocFn a n s = some (arenaBump (arenaAlignedOffset s) n s) := by
    have hsum : sizeAdd (arenaAlignedOffset s) n = arenaAlignedOffset s + n :=
      sizeAdd_eq (by omega)
    unfold arenaAllocFn
    dsimp only
    rw [if_neg (by omega), if_neg (by omega), hsum, if_neg (by omega)]
  refine ⟨(arenaBump (arenaAlignedOffset s) n s).fst, (arenaBump (arenaAlignedOffset s) n s).snd,
    hcall, hgrant.bounds.left, hgrant.inv, rfl, ?_⟩
  rw [arenaBump_offset, sizeAdd_eq (by omega)]
  omega

/-- Nothing of a new arena is used. -/
theorem makeArenaAllocator_unused {w : χ} {out blockSize : Nat} (hw : S.Inv w base)
    (hsum : sizeofArenaBlock + blockSize < 2 ^ 64)
    (hmake : makeArenaAllocator out (some a) blockSize w = some (Made.ok s)) :
    ArenaBlock.offset (mem s) s.ctx.current = 0 := by
  have hstart : ArenaChild S base w [] := ⟨base, List.Perm.refl _, hw⟩
  rcases newArenaBlock_spec hstart hsum with ⟨p, w', hcall, _, hcase⟩
  unfold makeArenaAllocator at hmake
  dsimp only at hmake
  split at hmake
  · cases hmake
  · simp only [hcall, Option.bind_eq_bind, Option.bind_some] at hmake
    rcases hcase with ⟨hnull, _⟩ | ⟨hne, hnew⟩
    · rw [if_pos hnull] at hmake
      cases hmake
    · rw [if_neg hne] at hmake
      cases hmake
      exact hnew.offset

end Room

/-!
# Every run of the program
-/

section Runs

variable {os : Os} {base : List Block} {arena : Nat} {page : PageState}

/-- What one arena leaves behind. -/
def RoundEnds (base : List Block) : Round -> Prop
  | Round.done page => PageServes base page []
  | Round.aborted message page =>
      message = "Failed to create arena allocator" ∧ RefusedLast (mem page)

/-- An arena takes both requests, and its block goes back. -/
theorem heapArenaRound_spec (hos : Os.Aligned os) (harena : arena ≠ NULL)
    (h : PageServes base page []) :
    exists r, heapArenaRound os arena page = some r ∧ RoundEnds base r := by
  have hserves : (pageLawful os hos base).Inv page [] := h
  have htotal : exists made,
      makeArenaAllocator arena (some (pageAllo os)) (1024 * 1024) page = some made ∧ _ :=
    makeArenaAllocator_serves hserves (by decide)
  rcases htotal with ⟨made, hmake, ⟨e, page', rfl, _⟩ | ⟨st, rfl, hst⟩⟩
  · refine ⟨Round.aborted "Failed to create arena allocator" page', ?_, rfl, ?_⟩
    · simp only [heapArenaRound, hmake, Option.bind_eq_bind, Option.bind_some]
    · exact makeArenaAllocator_refused harena (by decide) (by decide) hmake
  · rcases hst.inv with ⟨blocks, hinv, _⟩
    have hunused := makeArenaAllocator_unused hserves (by decide) hmake
    have hroom : ArenaRoom st 0 256 := by
      refine ⟨Nat.le_of_eq hunused, Nat.dvd_zero 8, ?_⟩
      rw [hst.blockSize_eq]
      decide
    rcases arenaAllocFn_room hinv hroom (by decide) with
      ⟨ptr1, st₁, hcall₁, hne₁, hinv₁, hctx₁, hused₁⟩
    have hroom₁ : ArenaRoom st₁ 256 512 := by
      refine ⟨by rw [hctx₁]; exact hused₁, by decide, ?_⟩
      rw [hctx₁, hst.blockSize_eq]
      decide
    rcases arenaAllocFn_room hinv₁ hroom₁ (by decide) with
      ⟨ptr2, st₂, hcall₂, hne₂, hinv₂, _⟩
    rcases arenaDestroyFn_spec (C := (pageLawful os hos base).toContract) hinv₂ with
      ⟨st₃, hcall₃, M, hperm, hchild⟩
    refine ⟨Round.done st₃.child, ?_, (pageLawful os hos base).perm hchild hperm⟩
    have hdestroy : alloDestroy (arenaAllo (pageAllo os)) st₂ = some st₃ := hcall₃
    have halloc₁ : alloAlloc (arenaAllo (pageAllo os)) 256 st = some (ptr1, st₁) := hcall₁
    have halloc₂ : alloAlloc (arenaAllo (pageAllo os)) 512 st₁ = some (ptr2, st₂) := hcall₂
    simp only [heapArenaRound, hmake, Option.bind_eq_bind, Option.bind_some, halloc₁,
      if_neg hne₁, halloc₂, if_neg hne₂, hdestroy]

theorem heapArenaLoop_spec (hos : Os.Aligned os) (harena : arena ≠ NULL) (n : Nat)
    (h : PageServes base page []) :
    exists r, heapArenaLoop os arena n page = some r ∧ RoundEnds base r := by
  induction n generalizing page with
  | zero => exact ⟨Round.done page, rfl, h⟩
  | succ n ih =>
      rcases heapArenaRound_spec hos harena h with ⟨r, hcall, hends⟩
      cases r with
      | aborted message page' =>
          refine ⟨Round.aborted message page', ?_, hends⟩
          simp only [heapArenaLoop, hcall, Option.bind_eq_bind, Option.bind_some]
      | done page' =>
          rcases ih hends with ⟨r', hrest, hends'⟩
          refine ⟨r', ?_, hends'⟩
          simp only [heapArenaLoop, hcall, Option.bind_eq_bind, Option.bind_some, hrest]

/-- How the program may end, when it started in the memory `m`. -/
inductive HeapArenaEnds (m : Mem) : Exit -> Mem -> Prop where
  | finished {m' : Mem} :
      (liveMaps m'.trace).Perm (liveMaps m.trace) ->
      HeapArenaEnds m (Exit.returned 0) m'
  | refusedPage {m' : Mem} :
      RefusedLast m' -> (liveMaps m'.trace).Perm (liveMaps m.trace) ->
      HeapArenaEnds m (Exit.returned 1) m'
  | refusedArena {m' : Mem} :
      RefusedLast m' ->
      HeapArenaEnds m (Exit.aborted "Failed to create arena allocator") m'

/-- Whatever the system answers, the program ends, and it stops early only where the system
refused it memory. An arena never refuses what the program asks it for, and a
program that finishes has given back every mapping. -/
theorem heapArenaMain_ends {backing : Nat} {m : Mem}
    (hpage : exists k, 4 ≤ k ∧ k < 64 ∧ os.pageSize = 2 ^ k) (hos : Os.Aligned os)
    (hbacking : backing ≠ NULL) (harena : arena ≠ NULL) (rounds : Nat) :
    exists e m', heapArenaMain os arena backing rounds m = some (e, m') ∧
      HeapArenaEnds m e m' := by
  rcases hmake : makePageAllocator os backing m with page | ⟨e, m'⟩
  · have hlive := makePageAllocator_spec hpage hmake
    have hserves : PageServes (liveMaps m.trace) page [] :=
      ⟨⟨[], hlive⟩, fun b hb => absurd hb List.not_mem_nil⟩
    rcases heapArenaLoop_spec hos harena rounds hserves with ⟨r, hloop, hends⟩
    cases r with
    | aborted message page' =>
        rcases hends with ⟨rfl, hrefused⟩
        refine ⟨Exit.aborted _, mem page', ?_, HeapArenaEnds.refusedArena hrefused⟩
        simp only [heapArenaMain, hmake, hloop, Option.bind_eq_bind, Option.bind_some]
    | done page' =>
        rcases (pageLawful os hos (liveMaps m.trace)).destroy hends with
          ⟨s', hcall, hclosed⟩
        refine ⟨Exit.returned 0, mem s', ?_, HeapArenaEnds.finished hclosed⟩
        simp only [heapArenaMain, hmake, hloop, hcall, Option.bind_eq_bind,
          Option.bind_some]
  · refine ⟨Exit.returned 1, m', ?_, HeapArenaEnds.refusedPage
      (makePageAllocator_refused hbacking hmake) (makePageAllocator_failed hmake).left.maps⟩
    simp only [heapArenaMain, hmake]

theorem heapArenaMain_ends_roomy : exists e m',
    heapArenaMain roomyOs 16 8 1000 onePageMem = some (e, m') ∧
      HeapArenaEnds onePageMem e m' :=
  heapArenaMain_ends roomyOs_page roomyOs_aligned (by decide) (by decide) 1000

end Runs

end Liballo
