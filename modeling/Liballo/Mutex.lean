import Liballo.Interface
import Liballo.Foundation.Locking

/-!
# The mutex wrapper

The allocator of `allo_mtx.c` passes every call on to its target while it holds a mutex.
Here the operations of an allocator are code whose reads and writes interleave with those
of other threads. The mutex is the lock of `Foundation.Code`: `mtx_lock` waits until the
mutex is free, and only one thread gets it.
-/

namespace Liballo

open Foundation

/-!
# Allocators as code
-/

/-- The table of operations of an allocator that is shared by threads. -/
structure AlloCode (κ ν : Type) where
  alloc : Nat -> Code κ ν Nat
  realloc : Nat -> Nat -> Nat -> Code κ ν Nat
  freeMem : Nat -> Nat -> Code κ ν Unit
  contains : Option (Nat -> Code κ ν AlloContains)

namespace AlloCode

variable {κ ν : Type} (a : AlloCode κ ν)

def alloAlloc (size : Nat) : Code κ ν Nat :=
  a.alloc size

def alloFree (ptr size : Nat) : Code κ ν Unit :=
  a.freeMem ptr size

def alloContains (ptr : Nat) : Code κ ν AlloContains :=
  match a.contains with
  | some contains => contains ptr
  | none => pure AlloContains.unknown

def alloRealloc (ptr oldSize newSize : Nat) : Code κ ν Nat :=
  if newSize = 0 then do
    a.alloFree ptr oldSize
    return NULL
  else if ptr = NULL then a.alloAlloc newSize
  else if oldSize = newSize then pure ptr
  else a.realloc ptr oldSize newSize

/-- The allocator in the hands of a single thread. -/
def alone [DecidableEq κ] : Allo (κ -> ν) where
  alloc := fun size m => (a.alloc size).run m
  realloc := fun ptr oldSize newSize m => (a.realloc ptr oldSize newSize).run m
  freeMem := fun ptr size m => ((a.freeMem ptr size).run m).map Prod.snd
  destroy := none
  contains := a.contains.map fun contains ptr m => ((contains ptr).run m).map Prod.fst

/-- In the hands of a single thread the reallocation is that of the interface. -/
theorem run_alloRealloc [DecidableEq κ] (ptr oldSize newSize : Nat) (m : κ -> ν) :
    (a.alloRealloc ptr oldSize newSize).run m =
      Liballo.alloRealloc a.alone ptr oldSize newSize m := by
  unfold alloRealloc Liballo.alloRealloc
  split
  · rw [Code.bind_eq, Code.run_bind]
    cases hfree : (a.alloFree ptr oldSize).run m with
    | none =>
        have hsame : Liballo.alloFree a.alone ptr oldSize m = none :=
          congrArg (Option.map Prod.snd) hfree
        rw [hsame]
        rfl
    | some r =>
        have hsame : Liballo.alloFree a.alone ptr oldSize m = some r.2 :=
          congrArg (Option.map Prod.snd) hfree
        rw [hsame]
        rfl
  · split
    · rfl
    · split
      · rfl
      · rfl

end AlloCode

/-!
# The wrapper
-/

section Wrapper

variable {κ ν : Type}

def mtxLock : Code κ ν Unit :=
  Code.lock (pure ())

def mtxUnlock : Code κ ν Unit :=
  Code.unlock (pure ())

def alloMtxAlloc (target : AlloCode κ ν) (size : Nat) : Code κ ν Nat := do
  mtxLock
  let ptr ← target.alloAlloc size
  mtxUnlock
  return ptr

def alloMtxRealloc (target : AlloCode κ ν) (ptr oldSize newSize : Nat) :
    Code κ ν Nat := do
  mtxLock
  let newPtr ← target.alloRealloc ptr oldSize newSize
  mtxUnlock
  return newPtr

def alloMtxFree (target : AlloCode κ ν) (ptr size : Nat) : Code κ ν Unit := do
  mtxLock
  target.alloFree ptr size
  mtxUnlock

def alloMtxContains (target : AlloCode κ ν) (ptr : Nat) : Code κ ν AlloContains := do
  mtxLock
  let result ← target.alloContains ptr
  mtxUnlock
  return result

/-- `initialised` tells whether `mtx_init` succeeds. -/
def makeMtxAllocator (out : Nat) (target : Option (AlloCode κ ν))
    (initialised : Bool) : Except AlloError (AlloCode κ ν) :=
  match target with
  | none => Except.error AlloError.inval
  | some target =>
      if out = NULL then Except.error AlloError.inval
      else if initialised = false then Except.error AlloError.nomem
      else Except.ok
        { alloc := alloMtxAlloc target
          realloc := alloMtxRealloc target
          freeMem := alloMtxFree target
          contains := some (alloMtxContains target) }

end Wrapper

/-!
# The calls of the threads
-/

inductive Call where
  | alloc (size : Nat)
  | realloc (ptr oldSize newSize : Nat)
  | free (ptr size : Nat)
  | contains (ptr : Nat)
  deriving DecidableEq

inductive Answer where
  | ptr (p : Nat)
  | freed
  | contains (c : AlloContains)
  deriving DecidableEq

section Calls

variable {κ ν : Type}

/-- The code of a call. -/
def Call.on (a : AlloCode κ ν) : Call -> Code κ ν Answer
  | alloc size => Answer.ptr <$> a.alloAlloc size
  | realloc ptr oldSize newSize => Answer.ptr <$> a.alloRealloc ptr oldSize newSize
  | free ptr size => (fun _ => Answer.freed) <$> a.alloFree ptr size
  | contains ptr => Answer.contains <$> a.alloContains ptr

/-- An allocator that knows nothing of the mutex of its wrapper. -/
structure Target (κ ν : Type) extends AlloCode κ ν where
  alloc_bare : forall size, (alloc size).Bare
  realloc_bare : forall ptr oldSize newSize, (realloc ptr oldSize newSize).Bare
  freeMem_bare : forall ptr size, (freeMem ptr size).Bare
  contains_bare : forall contains', contains = some contains' ->
    forall ptr, (contains' ptr).Bare

namespace Target

variable (T : Target κ ν)

theorem alloContains_bare (ptr : Nat) : (T.toAlloCode.alloContains ptr).Bare := by
  unfold AlloCode.alloContains
  split
  · rename_i contains' hcontains
    exact T.contains_bare contains' hcontains ptr
  · exact Code.Bare.ret _

theorem alloRealloc_bare (ptr oldSize newSize : Nat) :
    (T.toAlloCode.alloRealloc ptr oldSize newSize).Bare := by
  unfold AlloCode.alloRealloc
  split
  · exact (T.freeMem_bare ptr oldSize).bind fun _ => Code.Bare.ret _
  · split
    · exact T.alloc_bare newSize
    · split
      · exact Code.Bare.ret ptr
      · exact T.realloc_bare ptr oldSize newSize

/-- A call on the bare target, from its start to its end. -/
def sequentially [DecidableEq κ] (c : Call) (m : κ -> ν) :
    Option (Answer × (κ -> ν)) :=
  (c.on T.toAlloCode).run m

end Target

/-!
# Every call is guarded
-/

variable [DecidableEq κ] {a : AlloCode κ ν} {T : Target κ ν} {out : Nat}

/-- An operation of the target under the mutex, seen from outside the call. -/
theorem guarded_under_mutex {α : Type} {body : Code κ ν α} (hbare : body.Bare)
    (answer : α -> Answer) :
    Guarded (fun m => (answer <$> body).run m)
      (answer <$> (do mtxLock; let x ← body; mtxUnlock; return x)) := by
  have hcode : (answer <$> (do mtxLock; let x ← body; mtxUnlock; return x)) =
      Code.lock ((answer <$> body).bind unlockAndReturn) := by
    simp only [Code.map_eq, Code.bind_assoc]
    change Code.lock ((body.bind fun x => _).bind _) = _
    rw [Code.bind_assoc]
    rfl
  rw [hcode]
  exact Guarded.locked (hbare.bind fun _ => Code.Bare.ret _) fun _ => rfl

omit [DecidableEq κ] in
theorem makeMtxAllocator_eq {initialised : Bool}
    (hmake : makeMtxAllocator out (some T.toAlloCode) initialised = Except.ok a) :
    a =
      { alloc := alloMtxAlloc T.toAlloCode
        realloc := alloMtxRealloc T.toAlloCode
        freeMem := alloMtxFree T.toAlloCode
        contains := some (alloMtxContains T.toAlloCode) } := by
  unfold makeMtxAllocator at hmake
  dsimp only at hmake
  split at hmake
  · cases hmake
  · split at hmake
    · cases hmake
    · exact (Except.ok.inj hmake).symm

omit [DecidableEq κ] in
/-- The four ways of `alloRealloc`. -/
theorem Call.on_realloc (a : AlloCode κ ν) (ptr oldSize newSize : Nat) :
    (Call.realloc ptr oldSize newSize).on a =
      if newSize = 0 then (fun _ => Answer.ptr NULL) <$> a.alloFree ptr oldSize
      else if ptr = NULL then Answer.ptr <$> a.alloAlloc newSize
      else if oldSize = newSize then Code.ret (Answer.ptr ptr)
      else Answer.ptr <$> a.realloc ptr oldSize newSize := by
  change Answer.ptr <$> a.alloRealloc ptr oldSize newSize = _
  unfold AlloCode.alloRealloc
  split
  · simp only [Code.map_eq, Code.bind_eq, Code.pure_eq, Code.bind_assoc]
    rfl
  · split
    · rfl
    · split
      · rfl
      · rfl

/-- A reallocation that frees, allocates or keeps its block is told apart before the
mutex is taken; any other is told apart again under the mutex. -/
theorem guarded_realloc {initialised : Bool}
    (hmake : makeMtxAllocator out (some T.toAlloCode) initialised = Except.ok a)
    (ptr oldSize newSize : Nat) :
    Guarded (T.sequentially (Call.realloc ptr oldSize newSize))
      ((Call.realloc ptr oldSize newSize).on a) := by
  have heq := makeMtxAllocator_eq hmake
  unfold Target.sequentially
  rw [Call.on_realloc a]
  by_cases hzero : newSize = 0
  · rw [Call.on_realloc T.toAlloCode, if_pos hzero, if_pos hzero]
    cases heq
    exact guarded_under_mutex (T.freeMem_bare ptr oldSize) fun _ => Answer.ptr NULL
  · rw [if_neg hzero]
    by_cases hnull : ptr = NULL
    · rw [Call.on_realloc T.toAlloCode, if_neg hzero, if_pos hnull, if_pos hnull]
      cases heq
      exact guarded_under_mutex (T.alloc_bare newSize) Answer.ptr
    · rw [if_neg hnull]
      by_cases hsame : oldSize = newSize
      · rw [Call.on_realloc T.toAlloCode, if_neg hzero, if_neg hnull, if_pos hsame,
          if_pos hsame]
        exact Guarded.direct fun _ => rfl
      · rw [if_neg hsame]
        cases heq
        exact guarded_under_mutex (T.alloRealloc_bare ptr oldSize newSize) Answer.ptr

theorem guarded_call {initialised : Bool}
    (hmake : makeMtxAllocator out (some T.toAlloCode) initialised = Except.ok a)
    (c : Call) : Guarded (T.sequentially c) (c.on a) := by
  cases c with
  | alloc size =>
      cases makeMtxAllocator_eq hmake
      exact guarded_under_mutex (T.alloc_bare size) Answer.ptr
  | realloc ptr oldSize newSize => exact guarded_realloc hmake ptr oldSize newSize
  | free ptr size =>
      cases makeMtxAllocator_eq hmake
      exact guarded_under_mutex (T.freeMem_bare ptr size) fun _ => Answer.freed
  | contains ptr =>
      cases makeMtxAllocator_eq hmake
      exact guarded_under_mutex (T.alloContains_bare ptr) Answer.contains

/-!
# Calls come one after the other
-/

variable {ι : Type} [DecidableEq ι]

/-- What holds of the threads that share the wrapper, whose target started with the
store `m`. -/
structure Serialised (T : Target κ ν) (m : κ -> ν)
    (w : World ι κ ν Call Answer) : Prop where
  exclusive : forall t u, (w.threads t).Inside -> (w.threads u).Inside -> t = u
  released : forall t, ¬ (w.threads t).Inside -> w.holder ≠ some t
  linear : exists order m', Sequential T.sequentially m order m' ∧
    (forall t, callsOf t order =
      callsOf t w.returned ++ (w.threads t).answered t) ∧
    (w.holder = none -> w.store = m')
  complete : (forall t, w.threads t = Thread.idle) -> w.holder = none ∧
    exists order, order.Perm w.returned ∧
      (forall t, callsOf t order = callsOf t w.returned) ∧
      Sequential T.sequentially m order w.store

theorem mtx_serialises {initialised : Bool} {m : κ -> ν}
    {w : World ι κ ν Call Answer}
    (hmake : makeMtxAllocator out (some T.toAlloCode) initialised = Except.ok a)
    (hreach : (threadsOn fun c => c.on a).Reaches (World.start m) w) :
    Serialised T m w := by
  rcases exists_linearized (guarded_call hmake) hreach with ⟨order, m', hlin⟩
  constructor
  · intro t u ht hu
    have htHolds := (hlin.placed t).inside_iff.mp ht
    have huHolds := (hlin.placed u).inside_iff.mp hu
    exact Option.some.inj (htHolds.symm.trans huHolds)
  · intro t ht hholds
    exact ht ((hlin.placed t).inside_iff.mpr hholds)
  · exact ⟨order, m', hlin.sequential, hlin.programs, hlin.settled⟩
  · intro hidle
    have hfree := hlin.holder_eq_none hidle
    have hcalls := hlin.callsOf_eq hidle
    refine ⟨hfree, order, perm_of_callsOf_eq hcalls, hcalls, ?_⟩
    rw [hlin.settled hfree]
    exact hlin.sequential

end Calls

/-- A target that cuts its blocks off one after the other: it reads how many bytes it has
handed out, and writes the new number. -/
def bumpTarget : Target Unit Nat where
  alloc := fun size => do
    let offset ← Code.read () pure
    Code.write () (offset + size) (pure (64 + offset))
  realloc := fun _ _ _ => pure NULL
  freeMem := fun _ _ => pure ()
  contains := none
  alloc_bare := fun _ => Code.Bare.read fun _ => Code.Bare.write (Code.Bare.ret _)
  realloc_bare := fun _ _ _ => Code.Bare.ret _
  freeMem_bare := fun _ _ => Code.Bare.ret _
  contains_bare := fun _ hno => by cases hno

/-- Two threads allocate at the same time. -/
theorem mtx_serialises_two_threads :
    exists a w, makeMtxAllocator 8 (some bumpTarget.toAlloCode) true = Except.ok a ∧
      (threadsOn fun c => c.on a).Reaches (World.start fun _ => 0) w ∧
      w.returned = [⟨true, Call.alloc 8, Answer.ptr 64⟩,
        ⟨false, Call.alloc 16, Answer.ptr 72⟩] ∧
      Serialised bumpTarget (fun _ => 0) w := by
  have hmake : makeMtxAllocator 8 (some bumpTarget.toAlloCode) true =
      Except.ok _ := rfl
  have hrun : exists w : World Bool Unit Nat Call Answer,
      World.schedule (fun c => c.on
        { alloc := alloMtxAlloc bumpTarget.toAlloCode
          realloc := alloMtxRealloc bumpTarget.toAlloCode
          freeMem := alloMtxFree bumpTarget.toAlloCode
          contains := some (alloMtxContains bumpTarget.toAlloCode) })
        [Act.call true (Call.alloc 8), Act.call false (Call.alloc 16),
          Act.step true, Act.step true, Act.step true, Act.step true,
          Act.step false, Act.step true, Act.step false, Act.step false,
          Act.step false, Act.step false] (World.start fun _ => 0) = some w ∧
        w.returned = [⟨true, Call.alloc 8, Answer.ptr 64⟩,
          ⟨false, Call.alloc 16, Answer.ptr 72⟩] := ⟨_, rfl, rfl⟩
  rcases hrun with ⟨w, hschedule, hreturned⟩
  have hreach := reaches_schedule Machine.Reaches.start hschedule
  exact ⟨_, w, hmake, hreach, hreturned, mtx_serialises hmake hreach⟩

end Liballo
