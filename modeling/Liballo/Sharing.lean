import Liballo.Foundation.Discipline
import Liballo.Gen.Service
import Liballo.Mutex

/-!
# Threads that share an allocator

Any number of threads call an allocator through the mutex wrapper, and each of them
names only blocks that its own calls brought it. However their instructions interleave,
no two of them ever hold a byte in common, and the calls never block each other for good.
-/

namespace Liballo

open Foundation

/-!
# The blocks of the threads
-/

section Books

variable {ι : Type} [DecidableEq ι]

/-- The blocks of all threads after a call of the thread `t`. -/
def Call.settle (t : ι) : Call -> Answer -> List (ι × Block) -> List (ι × Block)
  | Call.alloc size, Answer.ptr p, L => if p = NULL then L else (t, ⟨p, size⟩) :: L
  | Call.realloc ptr oldSize newSize, Answer.ptr p, L =>
      if newSize = 0 then L.erase (t, ⟨ptr, oldSize⟩)
      else if p = NULL then L
      else (t, ⟨p, newSize⟩) :: L.erase (t, ⟨ptr, oldSize⟩)
  | Call.free ptr size, _, L => L.erase (t, ⟨ptr, size⟩)
  | _, _, L => L

/-- The blocks of all threads after the calls. -/
def books (calls : List (Done ι Call Answer)) : List (ι × Block) :=
  calls.foldl (fun L d => d.call.settle d.thread d.answer L) []

/-- The block that a call hands over. -/
def Call.handsOver : Call -> Option Block
  | Call.realloc ptr oldSize _ => some ⟨ptr, oldSize⟩
  | Call.free ptr size => some ⟨ptr, size⟩
  | _ => none

/-- A thread asks for fewer than `limit` bytes, and hands over the null pointer or a
block that its own calls brought it. -/
def Call.Rightful (limit : Nat) (t : ι) (calls : List (Done ι Call Answer)) :
    Call -> Prop
  | Call.alloc size => size < limit
  | Call.realloc ptr oldSize newSize =>
      newSize < limit ∧ (ptr = NULL ∨ (t, ⟨ptr, oldSize⟩) ∈ books calls)
  | Call.free ptr size => ptr = NULL ∨ (t, ⟨ptr, size⟩) ∈ books calls
  | Call.contains _ => True

theorem books_snoc (calls : List (Done ι Call Answer)) (d : Done ι Call Answer) :
    books (calls ++ [d]) = d.call.settle d.thread d.answer (books calls) := by
  simp [books]

variable {t u : ι} {b : Block} {L : List (ι × Block)} {c : Call} {x : Answer}

/-- The blocks of one thread. -/
def ofThread (t : ι) (L : List (ι × Block)) : List (ι × Block) :=
  L.filter fun e => e.1 = t

theorem mem_ofThread : (t, b) ∈ ofThread t L <-> (t, b) ∈ L := by
  simp [ofThread]

theorem ofThread_erase_self : ofThread t (L.erase (t, b)) = (ofThread t L).erase (t, b) :=
  (List.erase_filter ..).symm

theorem ofThread_erase_other (hne : u ≠ t) :
    ofThread t (L.erase (u, b)) = ofThread t L := by
  unfold ofThread
  rw [← List.erase_filter, List.erase_of_not_mem]
  intro hmem
  exact hne (by simpa using (List.mem_filter.mp hmem).right)

theorem ofThread_cons_self : ofThread t ((t, b) :: L) = (t, b) :: ofThread t L :=
  List.filter_cons_of_pos (decide_eq_true rfl)

theorem ofThread_cons_other (hne : u ≠ t) : ofThread t ((u, b) :: L) = ofThread t L :=
  List.filter_cons_of_neg (by simpa using hne)

/-- A call of the thread changes its blocks as if it were alone. -/
theorem ofThread_settle_self :
    ofThread t (c.settle t x L) = c.settle t x (ofThread t L) := by
  cases c with
  | alloc size =>
      cases x with
      | ptr p =>
          simp only [Call.settle]
          split
          · rfl
          · exact ofThread_cons_self
      | freed | contains _ => rfl
  | realloc ptr oldSize newSize =>
      cases x with
      | ptr p =>
          simp only [Call.settle]
          split
          · exact ofThread_erase_self
          · split
            · rfl
            · rw [ofThread_cons_self, ofThread_erase_self]
      | freed | contains _ => rfl
  | free ptr size => exact ofThread_erase_self
  | contains ptr => rfl

/-- A call of another thread does not. -/
theorem ofThread_settle_other (hne : u ≠ t) :
    ofThread t (c.settle u x L) = ofThread t L := by
  cases c with
  | alloc size =>
      cases x with
      | ptr p =>
          simp only [Call.settle]
          split
          · rfl
          · exact ofThread_cons_other hne
      | freed | contains _ => rfl
  | realloc ptr oldSize newSize =>
      cases x with
      | ptr p =>
          simp only [Call.settle]
          split
          · exact ofThread_erase_other hne
          · split
            · rfl
            · rw [ofThread_cons_other hne, ofThread_erase_other hne]
      | freed | contains _ => rfl
  | free ptr size => exact ofThread_erase_other hne
  | contains ptr => rfl

/-- What a thread holds follows from its own calls. -/
theorem ofThread_books (t : ι) (calls : List (Done ι Call Answer)) :
    ofThread t (books calls) = books (callsOf t calls) := by
  induction calls using List.reverseRecOn with
  | nil => rfl
  | append_singleton calls d ih =>
      rcases d with ⟨u, c, x⟩
      rw [books_snoc]
      by_cases hu : t = u
      · subst hu
        rw [callsOf_snoc_self, books_snoc, ofThread_settle_self, ih]
      · rw [callsOf_snoc_ne hu, ofThread_settle_other (Ne.symm hu), ih]

/-- Only what a call hands over goes away. -/
theorem mem_settle_of_mem {e : ι × Block} (he : e ∈ L)
    (hkept : c.handsOver ≠ some e.2) : e ∈ c.settle t x L := by
  have herase : forall ptr size, some (⟨ptr, size⟩ : Block) ≠ some e.2 ->
      e ∈ L.erase (t, ⟨ptr, size⟩) := by
    intro ptr size hne
    refine (List.mem_erase_of_ne ?_).mpr he
    rintro rfl
    exact hne rfl
  cases c with
  | alloc size =>
      cases x with
      | ptr p =>
          simp only [Call.settle]
          split
          · exact he
          · exact List.mem_cons_of_mem _ he
      | freed | contains _ => exact he
  | realloc ptr oldSize newSize =>
      cases x with
      | ptr p =>
          simp only [Call.settle]
          split
          · exact herase _ _ hkept
          · split
            · exact he
            · exact List.mem_cons_of_mem _ (herase _ _ hkept)
      | freed | contains _ => exact he
  | free ptr size => exact herase _ _ hkept
  | contains ptr => exact he

end Books

/-!
# Calls on a service
-/

section Service

variable {σ : Type} [HasMem σ]

/-- What a call does when nobody else calls. -/
def Call.does (a : Allo σ) : Call -> σ -> Option (Answer × σ)
  | Call.alloc size, s => do
      let (p, s) ← alloAlloc a size s
      some (Answer.ptr p, s)
  | Call.realloc ptr oldSize newSize, s => do
      let (p, s) ← alloRealloc a ptr oldSize newSize s
      some (Answer.ptr p, s)
  | Call.free ptr size, s => do
      let s ← alloFree a ptr size s
      some (Answer.freed, s)
  | Call.contains ptr, s => do
      let x ← alloContains a ptr s
      some (Answer.contains x, s)

/-- The question whether a pointer belongs to the allocator is always answered. -/
def AnswersContains (a : Allo σ) : Prop :=
  forall ptr s, alloContains a ptr s ≠ none

variable {a : Allo σ} {limit : Nat} (S : Service a limit)
variable {ι : Type} [DecidableEq ι] {t : ι} {calls : List (Done ι Call Answer)} {s : σ}

/-- The books of the threads are those of the service. -/
def KeepsBooks (calls : List (Done ι Call Answer)) (s : σ) : Prop :=
  S.Inv s ((books calls).map Prod.snd)

variable {S}

/-- Nobody has the null pointer. -/
theorem KeepsBooks.null_not_mem (h : KeepsBooks S calls s) {n : Nat} :
    (t, ⟨NULL, n⟩) ∉ books calls := by
  intro hmem
  have hwell := S.wellFormed h _ (List.mem_map_of_mem hmem)
  exact absurd rfl (Nat.ne_of_gt hwell.left)

/-- A rightful call comes back, and the books are kept. -/
theorem KeepsBooks.call (h : KeepsBooks S calls s) (hcontains : AnswersContains a)
    {c : Call} (hright : c.Rightful limit t (callsOf t calls)) :
    exists x s', c.does a s = some (x, s') ∧ KeepsBooks S (calls ++ [⟨t, c, x⟩]) s' := by
  have hheld : forall b, (t, b) ∈ books (callsOf t calls) -> (t, b) ∈ books calls := by
    intro b hb
    rw [← ofThread_books] at hb
    exact mem_ofThread.mp hb
  have hmem : forall b, (t, b) ∈ books calls -> b ∈ (books calls).map Prod.snd :=
    fun b hb => List.mem_map_of_mem hb
  simp only [KeepsBooks, books_snoc]
  cases c with
  | alloc size =>
      rcases S.alloc h hright with ⟨p, s', hcall, _, hcase⟩
      refine ⟨Answer.ptr p, s', by simp [Call.does, hcall], ?_⟩
      simp only [Call.settle]
      rcases hcase with ⟨hnull, hinv⟩ | ⟨hne, hinv⟩
      · rw [if_pos hnull]
        exact hinv
      · rw [if_neg hne]
        exact hinv
  | free ptr size =>
      by_cases hnull : ptr = NULL
      · subst hnull
        rcases S.freeNull size h with ⟨s', hcall, _, hinv⟩
        refine ⟨Answer.freed, s', by simp [Call.does, hcall], ?_⟩
        simp only [Call.settle]
        rw [List.erase_of_not_mem h.null_not_mem]
        exact hinv
      · have hb := hheld _ (hright.resolve_left hnull)
        rcases S.free h (hmem _ hb) with ⟨s', hcall, _, hinv⟩
        refine ⟨Answer.freed, s', by simp [Call.does, hcall], ?_⟩
        exact S.perm hinv (map_erase_perm Prod.snd hb)
  | contains ptr =>
      rcases Option.ne_none_iff_exists'.mp (hcontains ptr s) with ⟨x, hx⟩
      exact ⟨Answer.contains x, s, by simp [Call.does, hx], h⟩
  | realloc ptr oldSize newSize =>
      rcases hright with ⟨hsize, hright⟩
      by_cases hnull : ptr = NULL
      · subst hnull
        rcases S.wrapped_realloc_null h oldSize hsize with ⟨p, s', hcall, _, hcase⟩
        refine ⟨Answer.ptr p, s', by simp [Call.does, hcall], ?_⟩
        simp only [Call.settle]
        rw [List.erase_of_not_mem h.null_not_mem]
        rcases hcase with ⟨hp, hinv⟩ | ⟨hp, hpos, hinv⟩
        · rw [if_pos hp]
          split
          · exact hinv
          · exact hinv
        · rw [if_neg hpos, if_neg hp]
          exact hinv
      · have hb := hheld _ (hright.resolve_left hnull)
        by_cases hzero : newSize = 0
        · subst hzero
          rcases S.free h (hmem _ hb) with ⟨s', hcall, _, hinv⟩
          refine ⟨Answer.ptr NULL, s', ?_, ?_⟩
          · simp only [Call.does, alloRealloc_zero hcall, Option.bind_eq_bind,
              Option.bind_some]
          · exact S.perm hinv (map_erase_perm Prod.snd hb)
        · rcases S.wrapped_realloc h (hmem _ hb) hzero hsize with
            ⟨p, s', hcall, hcase⟩
          refine ⟨Answer.ptr p, s', by simp [Call.does, hcall], ?_⟩
          simp only [Call.settle]
          rw [if_neg hzero]
          rcases hcase with ⟨hp, hinv, _⟩ | ⟨hp, hinv, _, _⟩
          · rw [if_pos hp]
            exact hinv
          · rw [if_neg hp]
            exact S.perm hinv ((map_erase_perm Prod.snd hb).cons _)

end Service

/-!
# All threads together
-/

section Threads

variable {ι κ ν σ : Type} [DecidableEq ι] [DecidableEq κ] [HasMem σ]

/-- In the hands of a single thread the code of the target does what the allocator does,
whose state is read off the store. -/
def Target.Computes (T : Target κ ν) (c : Allo σ) (abs : (κ -> ν) -> σ) : Prop :=
  forall call m, (T.sequentially call m).map (fun r => (r.1, abs r.2)) =
    call.does c (abs m)

/-- A thread has a block from its own calls and is not handing it over. -/
def MayUse (w : World ι κ ν Call Answer) (t : ι) (b : Block) : Prop :=
  (t, b) ∈ books (callsOf t w.returned) ∧
    forall c code, w.threads t = Thread.running c code -> c.handsOver ≠ some b

/-- What the threads may rely on: what they use is theirs alone, a thread that holds the
mutex can always go on, and so can every thread in a call while nobody holds it. -/
structure Shared (object : Call -> Code κ ν Answer) (w : World ι κ ν Call Answer) :
    Prop where
  wellFormed : forall t b, MayUse w t b -> b.WellFormed
  apart : forall t u b d, MayUse w t b -> MayUse w u d -> (t, b) ≠ (u, d) -> b.Disjoint d
  holder_calls : forall t, w.holder = some t ->
    exists c code, w.threads t = Thread.running c code
  progress : forall t c code, w.threads t = Thread.running c code ->
    w.holder = none ∨ w.holder = some t ->
      exists w', World.exec object (Act.step t) w = some w'

variable {T : Target κ ν} {c : Allo σ} {abs : (κ -> ν) -> σ} {limit : Nat}
variable {a : AlloCode κ ν} {out : Nat} {initialised : Bool} {m : κ -> ν}
variable {w : World ι κ ν Call Answer}

/-- What a thread uses is in the books, in the order in which the calls took effect. -/
theorem MayUse.mem_books {t : ι} {b : Block} {order : List (Done ι Call Answer)}
    {m' : κ -> ν} (h : MayUse w t b) (hlin : Linearized T.sequentially m w order m') :
    (t, b) ∈ books order := by
  rw [← mem_ofThread, ofThread_books, hlin.programs t]
  rcases (w.threads t).answered_cases t with hnone | ⟨call, x, hthread⟩
  · rw [hnone, List.append_nil]
    exact h.left
  · rw [hthread]
    simp only [Thread.answered, books_snoc]
    exact mem_settle_of_mem h.left (h.right call _ hthread)

/-- Threads that make only rightful calls through the wrapper share a service. -/
theorem mtx_threads_share (S : Service c limit) (hcontains : AnswersContains c)
    (hcomputes : T.Computes c abs)
    (hmake : makeMtxAllocator out (some T.toAlloCode) initialised = Except.ok a)
    (hstart : S.Inv (abs m) [])
    (hreach : (threadsWithin (Call.Rightful limit) (fun call => call.on a)).Reaches
      (World.start m) w) :
    Shared (fun call => call.on a) w := by
  have hd := disciplined_of_reaches hreach
  rcases exists_linearized (guarded_call hmake) (reaches_threadsOn hreach) with
    ⟨order, m', hlin⟩
  -- Each call took effect on a service in good order.
  have hbooks : KeepsBooks S order (abs m') := by
    refine hlin.sequential.invariant (fun order m' => KeepsBooks S order (abs m'))
      hstart ?_ (hlin.within hd)
    intro order d m' m'' h hright hcall
    rcases h.call hcontains hright with ⟨x, s', hdoes, hkept⟩
    have hrun := hcomputes d.call m'
    rw [hcall, hdoes] at hrun
    cases hrun
    exact hkept
  constructor
  · intro t b hb
    exact S.wellFormed hbooks b (List.mem_map_of_mem (hb.mem_books hlin))
  · intro t u b d hb hd' hne
    have hdisjoint := List.pairwise_map.mp (S.disjoint hbooks)
    have hsymm : Std.Symm (fun e f : ι × Block => e.2.Disjoint f.2) :=
      ⟨fun _ _ hapart => hapart.symm⟩
    exact hdisjoint.forall (hb.mem_books hlin) (hd'.mem_books hlin) hne
  · intro t hholder
    have hinside := (hlin.placed t).inside_iff.mpr hholder
    cases hthread : w.threads t with
    | idle =>
        rw [hthread] at hinside
        exact absurd hinside not_false
    | running call code => exact ⟨call, code, rfl⟩
  · intro t call code hrun hturn
    refine hlin.progress hd ?_ hrun hturn
    intro u call' hright hstuck
    rcases hbooks.call hcontains hright with ⟨x, s', hdoes, _⟩
    have hnone := hcomputes call' m'
    rw [hstuck, hdoes] at hnone
    cases hnone

/-- The generic allocator, made before the threads start. -/
theorem mtx_threads_share_gen {abs : (κ -> ν) -> GenState} {os : Os} {outGen frame : Nat}
    {m₀ : Mem} (hpage : exists k, 4 ≤ k ∧ k < 64 ∧ os.pageSize = 2 ^ k)
    (hgen : makeGenAllocator os outGen frame m₀ = some (Made.ok (abs m)))
    (hcomputes : T.Computes (genAllo os frame) abs)
    (hmake : makeMtxAllocator out (some T.toAlloCode) initialised = Except.ok a)
    (hreach : (threadsWithin (Call.Rightful (2 ^ 64)) (fun call => call.on a)).Reaches
      (World.start m) w) :
    Shared (fun call => call.on a) w := by
  have hcontains : AnswersContains (genAllo os frame) :=
    fun ptr s => Option.some_ne_none _
  exact mtx_threads_share (genService os frame (liveMaps m₀.trace)) hcontains hcomputes
    hmake (genServes_of_make hpage hgen) hreach

end Threads

/-!
# The coarsest code
-/

section Coarse

variable {σ : Type} [HasMem σ]

/-- Read the whole state and write the next one. -/
def atomically {α : Type} (f : σ -> Option (α × σ)) : Code Unit σ α :=
  Code.read () fun s =>
    match f s with
    | some (x, s) => Code.write () s (Code.ret x)
    | none => Code.abort

omit [HasMem σ] in
theorem bare_atomically {α : Type} (f : σ -> Option (α × σ)) : (atomically f).Bare := by
  refine Code.Bare.read fun s => ?_
  split
  · exact Code.Bare.write (Code.Bare.ret _)
  · exact Code.Bare.abort

omit [HasMem σ] in
theorem run_atomically {α : Type} (f : σ -> Option (α × σ)) (m : Unit -> σ) :
    ((atomically f).run m).map (fun r => (r.1, r.2 ())) = f (m ()) := by
  simp only [atomically, Code.run]
  cases hf : f (m ()) with
  | none => rfl
  | some r => simp [Code.run]

/-- Every operation of the allocator is done at one stroke. -/
def Target.ofAllo (c : Allo σ) : Target Unit σ where
  alloc := fun size => atomically (c.alloc size)
  realloc := fun ptr oldSize newSize => atomically (c.realloc ptr oldSize newSize)
  freeMem := fun ptr size => atomically fun s => (c.freeMem ptr size s).map (Prod.mk ())
  contains := c.contains.map fun contains ptr =>
    atomically fun s => (contains ptr s).map fun x => (x, s)
  alloc_bare := fun _ => bare_atomically _
  realloc_bare := fun _ _ _ => bare_atomically _
  freeMem_bare := fun _ _ => bare_atomically _
  contains_bare := by
    intro contains' hcontains ptr
    rcases Option.map_eq_some_iff.mp hcontains with ⟨contains, _, rfl⟩
    exact bare_atomically _

omit [HasMem σ] in
/-- A call that is done at one stroke. -/
theorem run_answer_atomically {α : Type} (answer : α -> Answer) (f : σ -> Option (α × σ))
    (m : Unit -> σ) :
    ((answer <$> atomically f).run m).map (fun r => (r.1, r.2 ())) =
      (f (m ())).map (fun r => (answer r.1, r.2)) := by
  rw [← run_atomically f m, Code.map_eq, Code.run_bind]
  cases (atomically f).run m with
  | none => rfl
  | some r => rfl

omit [HasMem σ] in
theorem Target.ofAllo_computes (c : Allo σ) :
    (Target.ofAllo c).Computes c (fun m => m ()) := by
  intro call m
  unfold Target.sequentially
  cases call with
  | alloc size =>
      refine (run_answer_atomically Answer.ptr (c.alloc size) m).trans ?_
      simp only [Call.does, alloAlloc]
      cases c.alloc size (m ()) with
      | none => rfl
      | some r => rfl
  | free ptr size =>
      refine (run_answer_atomically (fun _ => Answer.freed) _ m).trans ?_
      simp only [Call.does, alloFree]
      cases c.freeMem ptr size (m ()) with
      | none => rfl
      | some s => rfl
  | contains ptr =>
      simp only [Call.does, Call.on, AlloCode.alloContains, alloContains, Target.ofAllo]
      cases c.contains with
      | none => rfl
      | some contains =>
          refine (run_answer_atomically Answer.contains _ m).trans ?_
          dsimp only
          cases contains ptr (m ()) with
          | none => rfl
          | some x => rfl
  | realloc ptr oldSize newSize =>
      rw [Call.on_realloc]
      simp only [Call.does, alloRealloc]
      split
      · refine (run_answer_atomically (fun _ => Answer.ptr NULL) _ m).trans ?_
        simp only [alloFree]
        cases c.freeMem ptr oldSize (m ()) with
        | none => rfl
        | some s => rfl
      · split
        · refine (run_answer_atomically Answer.ptr (c.alloc newSize) m).trans ?_
          simp only [alloAlloc]
          cases c.alloc newSize (m ()) with
          | none => rfl
          | some r => rfl
        · split
          · rfl
          · refine (run_answer_atomically Answer.ptr (c.realloc ptr oldSize newSize) m).trans ?_
            cases c.realloc ptr oldSize newSize (m ()) with
            | none => rfl
            | some r => rfl

end Coarse

/-- Two threads that call the generic allocator at the same time. -/
theorem mtx_threads_share_gen_two : exists st a w,
    makeGenAllocator roomyOs 8 4096 onePageMem = some (Made.ok st) ∧
      makeMtxAllocator 8 (some (Target.ofAllo (genAllo roomyOs 4096)).toAlloCode) true =
        Except.ok a ∧
      World.schedule (fun call => call.on a)
        [Act.call true (Call.alloc 100), Act.call false (Call.free NULL 0)]
          (World.start fun _ => st) = some w ∧
      Shared (fun call => call.on a) w := by
  rcases roomyOs_made with ⟨st, hgen⟩
  have hmade : exists a, makeMtxAllocator 8
      (some (Target.ofAllo (genAllo roomyOs 4096)).toAlloCode) true = Except.ok a :=
    ⟨_, rfl⟩
  rcases hmade with ⟨a, hmake⟩
  refine ⟨st, a, _, hgen, hmake, rfl, ?_⟩
  have hfirst : (threadsWithin (Call.Rightful (2 ^ 64)) (fun call => call.on a)).Reaches
      (World.start fun _ => st) _ :=
    @Machine.Reaches.step _ _ _ _ _ _ (Act.call true (Call.alloc 100))
      Machine.Reaches.start (show 100 < 2 ^ 64 by decide) rfl
  have hsecond := @Machine.Reaches.step _ _ _ _ _ _ (Act.call false (Call.free NULL 0))
    hfirst (Or.inl rfl) rfl
  exact mtx_threads_share_gen roomyOs_page hgen (Target.ofAllo_computes _) hmake hsecond

end Liballo
