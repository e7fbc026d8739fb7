import Mathlib.Data.List.Count
import Mathlib.Logic.Function.Basic
import Liballo.Foundation.Transition

/-!
# Shared objects behind one lock

Threads call the operations of a shared object. The code of an operation touches the
store of the object by single reads and writes, and it may take and give back one lock;
the instructions of different threads interleave in any way. An object is guarded when
each of its operations either answers without a look at the store, or takes the lock,
does all its work, and gives the lock back. A guarded object behaves as if the calls had
been made one after the other.
-/

namespace Liballo
namespace Foundation

/-!
# Code
-/

/-- What a thread executes. At `abort` it never comes to an answer. -/
inductive Code (κ ν α : Type) where
  | ret (a : α)
  | abort
  | read (x : κ) (next : ν -> Code κ ν α)
  | write (x : κ) (v : ν) (next : Code κ ν α)
  | lock (next : Code κ ν α)
  | unlock (next : Code κ ν α)

namespace Code

variable {κ ν α β γ : Type}

def bind : Code κ ν α -> (α -> Code κ ν β) -> Code κ ν β
  | ret a, f => f a
  | abort, _ => abort
  | read x next, f => read x fun v => (next v).bind f
  | write x v next, f => write x v (next.bind f)
  | lock next, f => lock (next.bind f)
  | unlock next, f => unlock (next.bind f)

instance : Monad (Code κ ν) where
  pure := ret
  bind := bind

@[simp]
theorem pure_eq (a : α) : (pure a : Code κ ν α) = ret a :=
  rfl

@[simp]
theorem bind_eq (c : Code κ ν α) (f : α -> Code κ ν β) : c >>= f = c.bind f :=
  rfl

@[simp]
theorem map_eq (f : α -> β) (c : Code κ ν α) : f <$> c = c.bind fun a => ret (f a) :=
  rfl

theorem bind_assoc (c : Code κ ν α) (f : α -> Code κ ν β) (g : β -> Code κ ν γ) :
    (c.bind f).bind g = c.bind fun a => (f a).bind g := by
  induction c with
  | ret a => rfl
  | abort => rfl
  | read x next ih => exact congrArg (read x) (funext ih)
  | write x v next ih => exact congrArg (write x v) ih
  | lock next ih => exact congrArg lock ih
  | unlock next ih => exact congrArg unlock ih

/-- Code that leaves the lock alone. -/
inductive Bare : Code κ ν α -> Prop where
  | ret (a : α) : Bare (ret a)
  | abort : Bare abort
  | read {x : κ} {next : ν -> Code κ ν α} (h : forall v, Bare (next v)) :
      Bare (read x next)
  | write {x : κ} {v : ν} {next : Code κ ν α} (h : Bare next) : Bare (write x v next)

theorem Bare.bind {c : Code κ ν α} {f : α -> Code κ ν β} (h : c.Bare)
    (hf : forall a, (f a).Bare) : (c.bind f).Bare := by
  induction h with
  | ret a => exact hf a
  | abort => exact Bare.abort
  | read _ ih => exact Bare.read ih
  | write _ ih => exact Bare.write ih

variable [DecidableEq κ]

/-- A run with nobody else around and without a lock. -/
def run : Code κ ν α -> (κ -> ν) -> Option (α × (κ -> ν))
  | ret a, m => some (a, m)
  | abort, _ => none
  | read x next, m => (next (m x)).run m
  | write x v next, m => next.run (Function.update m x v)
  | lock _, _ => none
  | unlock _, _ => none

theorem run_bind (c : Code κ ν α) (f : α -> Code κ ν β) (m : κ -> ν) :
    (c.bind f).run m = (c.run m).bind fun r => (f r.1).run r.2 := by
  induction c generalizing m with
  | ret a => rfl
  | abort => rfl
  | read x next ih => exact ih (m x) m
  | write x v next ih => exact ih (Function.update m x v)
  | lock next ih => rfl
  | unlock next ih => rfl

end Code

/-!
# Threads
-/

/-- A call that came back. -/
structure Done (ι ω ρ : Type) where
  thread : ι
  call : ω
  answer : ρ
  deriving DecidableEq

inductive Thread (κ ν ω ρ : Type) where
  | idle
  | running (call : ω) (code : Code κ ν ρ)

structure World (ι κ ν ω ρ : Type) where
  store : κ -> ν
  holder : Option ι
  threads : ι -> Thread κ ν ω ρ
  returned : List (Done ι ω ρ)

/-- A thread makes a call, or executes its next instruction. -/
inductive Act (ι ω : Type) where
  | call (t : ι) (c : ω)
  | step (t : ι)

section Machine

variable {ι κ ν ω ρ : Type} [DecidableEq ι] [DecidableEq κ]

def World.start (m : κ -> ν) : World ι κ ν ω ρ where
  store := m
  holder := none
  threads := fun _ => Thread.idle
  returned := []

def World.resume (w : World ι κ ν ω ρ) (t : ι) (c : ω) (code : Code κ ν ρ) :
    World ι κ ν ω ρ :=
  { w with threads := Function.update w.threads t (Thread.running c code) }

/-- The next instruction of a thread. A lock that is held is waited for; giving back a
lock that the thread does not hold is undefined. -/
def World.next (w : World ι κ ν ω ρ) (t : ι) (c : ω) :
    Code κ ν ρ -> Option (World ι κ ν ω ρ)
  | Code.ret a => some { w with
      threads := Function.update w.threads t Thread.idle
      returned := w.returned ++ [⟨t, c, a⟩] }
  | Code.abort => none
  | Code.read x k => some (w.resume t c (k (w.store x)))
  | Code.write x v k =>
      some { w.resume t c k with store := Function.update w.store x v }
  | Code.lock k =>
      if w.holder = none then some { w.resume t c k with holder := some t } else none
  | Code.unlock k =>
      if w.holder = some t then some { w.resume t c k with holder := none } else none

def World.exec (object : ω -> Code κ ν ρ) :
    Act ι ω -> World ι κ ν ω ρ -> Option (World ι κ ν ω ρ)
  | Act.call t c, w =>
      match w.threads t with
      | Thread.idle => some (w.resume t c (object c))
      | Thread.running _ _ => none
  | Act.step t, w =>
      match w.threads t with
      | Thread.idle => none
      | Thread.running c code => w.next t c code

/-- Any number of threads that use one object, interleaved in any way. -/
def threadsOn (object : ω -> Code κ ν ρ) : Machine (World ι κ ν ω ρ) (Act ι ω) where
  Legal := fun _ _ => True
  exec := World.exec object

/-- The threads act in the order of a list. -/
def World.schedule (object : ω -> Code κ ν ρ) (acts : List (Act ι ω))
    (w : World ι κ ν ω ρ) : Option (World ι κ ν ω ρ) :=
  acts.foldlM (fun w act => World.exec object act w) w

theorem reaches_schedule {object : ω -> Code κ ν ρ} {acts : List (Act ι ω)}
    {init w w' : World ι κ ν ω ρ} (hreach : (threadsOn object).Reaches init w)
    (h : World.schedule object acts w = some w') :
    (threadsOn object).Reaches init w' := by
  induction acts generalizing w with
  | nil =>
      cases h
      exact hreach
  | cons act acts ih =>
      change (World.exec object act w).bind (World.schedule object acts) = some w' at h
      rcases Option.bind_eq_some_iff.mp h with ⟨v, hexec, hrest⟩
      exact ih (hreach.step trivial hexec) hrest

/-- Between taking the lock and giving it back: the next instruction touches the store
or gives the lock back. -/
def Thread.Inside : Thread κ ν ω ρ -> Prop
  | running _ (Code.read _ _) => True
  | running _ (Code.write _ _ _) => True
  | running _ Code.abort => True
  | running _ (Code.unlock _) => True
  | _ => False

/-- The call that is over but for handing out its answer. -/
def Thread.answered (t : ι) : Thread κ ν ω ρ -> List (Done ι ω ρ)
  | running c (Code.ret a) => [⟨t, c, a⟩]
  | _ => []

end Machine

/-!
# Guarded objects
-/

section Guarded

variable {ι κ ν ω ρ : Type} [DecidableEq ι] [DecidableEq κ]

def unlockAndReturn (a : ρ) : Code κ ν ρ :=
  Code.unlock (Code.ret a)

/-- The code does under the lock what `spec` does, or answers as `spec` does without a
look at the store. -/
inductive Guarded (spec : (κ -> ν) -> Option (ρ × (κ -> ν))) : Code κ ν ρ -> Prop where
  | direct {a : ρ} (h : forall m, spec m = some (a, m)) : Guarded spec (Code.ret a)
  | locked {body : Code κ ν ρ} (hbare : body.Bare) (h : forall m, body.run m = spec m) :
      Guarded spec (Code.lock (body.bind unlockAndReturn))

/-- The calls are made one after the other. -/
inductive Sequential (spec : ω -> (κ -> ν) -> Option (ρ × (κ -> ν))) (m : κ -> ν) :
    List (Done ι ω ρ) -> (κ -> ν) -> Prop where
  | nil : Sequential spec m [] m
  | snoc {order : List (Done ι ω ρ)} {m' m'' : κ -> ν} {d : Done ι ω ρ} :
      Sequential spec m order m' -> spec d.call m' = some (d.answer, m'') ->
        Sequential spec m (order ++ [d]) m''

/-- The calls of one thread. -/
def callsOf (t : ι) (L : List (Done ι ω ρ)) : List (Done ι ω ρ) :=
  L.filter fun d => d.thread = t

theorem callsOf_snoc_self (t : ι) (L : List (Done ι ω ρ)) (c : ω) (a : ρ) :
    callsOf t (L ++ [⟨t, c, a⟩]) = callsOf t L ++ [⟨t, c, a⟩] := by
  simp [callsOf]

theorem callsOf_snoc_ne {t u : ι} (h : u ≠ t) (L : List (Done ι ω ρ)) (c : ω) (a : ρ) :
    callsOf u (L ++ [⟨t, c, a⟩]) = callsOf u L := by
  simp [callsOf, Ne.symm h]

/-- Where a thread is. `m` is the store after the calls that are over, and only the
holder of the lock is in the middle of one. -/
inductive Placed (spec : ω -> (κ -> ν) -> Option (ρ × (κ -> ν))) (m store : κ -> ν)
    (holder : Option ι) (t : ι) : Thread κ ν ω ρ -> Prop where
  | idle (h : holder ≠ some t) : Placed spec m store holder t Thread.idle
  | waiting {c : ω} {body : Code κ ν ρ} (h : holder ≠ some t) (hbare : body.Bare)
      (hrun : forall m, body.run m = spec c m) :
      Placed spec m store holder t
        (Thread.running c (Code.lock (body.bind unlockAndReturn)))
  | inside {c : ω} {body : Code κ ν ρ} (h : holder = some t) (hbare : body.Bare)
      (hrun : body.run store = spec c m) :
      Placed spec m store holder t (Thread.running c (body.bind unlockAndReturn))
  | answered {c : ω} {a : ρ} (h : holder ≠ some t) :
      Placed spec m store holder t (Thread.running c (Code.ret a))

variable {spec : ω -> (κ -> ν) -> Option (ρ × (κ -> ν))} {m store : κ -> ν}
variable {holder : Option ι} {t : ι} {T : Thread κ ν ω ρ}

omit [DecidableEq ι] in
theorem Placed.inside_iff (h : Placed spec m store holder t T) :
    T.Inside <-> holder = some t := by
  cases h with
  | idle h => exact iff_of_false id h
  | waiting h _ _ => exact iff_of_false id h
  | inside h hbare _ =>
      refine iff_of_true ?_ h
      cases hbare with
      | ret a => exact trivial
      | abort => exact trivial
      | read _ => exact trivial
      | write _ => exact trivial
  | answered h => exact iff_of_false id h

omit [DecidableEq ι] in
/-- A thread that does not hold the lock stays where it is, whatever the holder does. -/
theorem Placed.of_ne (h : Placed spec m store holder t T) (hne : holder ≠ some t)
    {m' store' : κ -> ν} {holder' : Option ι} (hne' : holder' ≠ some t) :
    Placed spec m' store' holder' t T := by
  cases h with
  | idle _ => exact Placed.idle hne'
  | waiting _ hbare hrun => exact Placed.waiting hne' hbare hrun
  | inside h _ _ => exact absurd h hne
  | answered _ => exact Placed.answered hne'

/-- The calls that are over, in an order in which they could have been made one by one;
`m'` is the store they leave behind. -/
structure Linearized (spec : ω -> (κ -> ν) -> Option (ρ × (κ -> ν))) (m : κ -> ν)
    (w : World ι κ ν ω ρ) (order : List (Done ι ω ρ)) (m' : κ -> ν) : Prop where
  sequential : Sequential spec m order m'
  programs : forall t,
    callsOf t order = callsOf t w.returned ++ (w.threads t).answered t
  placed : forall t, Placed spec m' w.store w.holder t (w.threads t)
  settled : w.holder = none -> w.store = m'

variable {object : ω -> Code κ ν ρ} {m' : κ -> ν} {order : List (Done ι ω ρ)}
variable {w w' : World ι κ ν ω ρ} {c : ω}

theorem linearized_start : Linearized spec m (World.start m) ([] : List (Done ι ω ρ)) m where
  sequential := Sequential.nil
  programs := fun _ => rfl
  placed := fun _ => Placed.idle (Option.some_ne_none _).symm
  settled := fun _ => rfl

/-- A step of thread `t` that ends no call. -/
theorem Linearized.quiet (h : Linearized spec m w order m')
    (hthreads : w'.threads = Function.update w.threads t T)
    (hreturned : w'.returned = w.returned)
    (hanswered : T.answered t = (w.threads t).answered t)
    (hself : Placed spec m' w'.store w'.holder t T)
    (hothers : forall u, u ≠ t ->
      Placed spec m' w'.store w'.holder u (w.threads u))
    (hsettled : w'.holder = none -> w'.store = m') :
    Linearized spec m w' order m' where
  sequential := h.sequential
  programs := by
    intro u
    rw [hreturned, hthreads, h.programs u]
    by_cases hu : u = t
    · cases hu
      rw [Function.update_self, hanswered]
    · rw [Function.update_of_ne hu]
  placed := by
    intro u
    rw [hthreads]
    by_cases hu : u = t
    · cases hu
      rw [Function.update_self]
      exact hself
    · rw [Function.update_of_ne hu]
      exact hothers u hu
  settled := hsettled

/-- A step of thread `t` that decides the answer of its call, which therefore comes next
in the order. -/
theorem Linearized.decide (h : Linearized spec m w order m') {a : ρ} {m'' : κ -> ν}
    (hspec : spec c m' = some (a, m''))
    (hthreads : w'.threads = Function.update w.threads t (Thread.running c (Code.ret a)))
    (hreturned : w'.returned = w.returned)
    (hanswered : (w.threads t).answered t = [])
    (hself : w'.holder ≠ some t)
    (hothers : forall u, u ≠ t ->
      Placed spec m'' w'.store w'.holder u (w.threads u))
    (hsettled : w'.holder = none -> w'.store = m'') :
    Linearized spec m w' (order ++ [⟨t, c, a⟩]) m'' where
  sequential := Sequential.snoc h.sequential hspec
  programs := by
    intro u
    rw [hreturned, hthreads]
    by_cases hu : u = t
    · cases hu
      rw [Function.update_self, callsOf_snoc_self, h.programs t, hanswered,
        List.append_nil]
      rfl
    · rw [Function.update_of_ne hu, callsOf_snoc_ne hu, h.programs u]
  placed := by
    intro u
    rw [hthreads]
    by_cases hu : u = t
    · cases hu
      rw [Function.update_self]
      exact Placed.answered hself
    · rw [Function.update_of_ne hu]
      exact hothers u hu
  settled := hsettled

/-- The others do not hold the lock that thread `t` holds. -/
theorem Linearized.others (h : Linearized spec m w order m') (hholder : w.holder = some t)
    {m'' store' : κ -> ν} {holder' : Option ι}
    (hholder' : forall u, u ≠ t -> holder' ≠ some u) :
    forall u, u ≠ t -> Placed spec m'' store' holder' u (w.threads u) := by
  intro u hu
  refine (h.placed u).of_ne ?_ (hholder' u hu)
  intro heq
  rw [hholder] at heq
  exact hu (Option.some.inj heq).symm

/-- Making a call. -/
theorem Linearized.call (h : Linearized spec m w order m')
    (hguarded : Guarded (spec c) (object c)) (hidle : w.threads t = Thread.idle) :
    exists order' m'', Linearized spec m (w.resume t c (object c)) order' m'' := by
  have hfree : w.holder ≠ some t := by
    intro hholder
    have hinside := (h.placed t).inside_iff.mpr hholder
    rw [hidle] at hinside
    exact hinside
  have hnone : (w.threads t).answered t = [] := by
    rw [hidle]
    rfl
  cases hcode : object c with
  | ret a =>
      rw [hcode] at hguarded
      cases hguarded with
      | direct hspec =>
          exact ⟨_, _, h.decide (hspec m') rfl rfl hnone hfree
            (fun u _ => h.placed u) h.settled⟩
  | lock next =>
      rw [hcode] at hguarded
      cases hguarded with
      | locked hbare hspec =>
          exact ⟨_, _, h.quiet rfl rfl hnone.symm
            (Placed.waiting hfree hbare hspec) (fun u _ => h.placed u) h.settled⟩
  | abort => rw [hcode] at hguarded; cases hguarded
  | read x next => rw [hcode] at hguarded; cases hguarded
  | write x v next => rw [hcode] at hguarded; cases hguarded
  | unlock next => rw [hcode] at hguarded; cases hguarded

/-- Handing out the answer. -/
theorem Linearized.answer (h : Linearized spec m w order m') {a : ρ}
    (hrun : w.threads t = Thread.running c (Code.ret a)) (hfree : w.holder ≠ some t) :
    Linearized spec m
      { w with
        threads := Function.update w.threads t Thread.idle
        returned := w.returned ++ [⟨t, c, a⟩] } order m' where
  sequential := h.sequential
  programs := by
    intro u
    dsimp only
    rw [h.programs u]
    by_cases hu : u = t
    · cases hu
      rw [hrun, Function.update_self, callsOf_snoc_self]
      exact (List.append_nil _).symm
    · rw [Function.update_of_ne hu, callsOf_snoc_ne hu]
  placed := by
    intro u
    dsimp only
    by_cases hu : u = t
    · cases hu
      rw [Function.update_self]
      exact Placed.idle hfree
    · rw [Function.update_of_ne hu]
      exact h.placed u
  settled := h.settled

/-- Taking the lock: the store is as the calls before have left it. -/
theorem Linearized.acquire (h : Linearized spec m w order m') {body : Code κ ν ρ}
    (hrun : w.threads t =
      Thread.running c (Code.lock (body.bind unlockAndReturn)))
    (hfree : w.holder = none) (hbare : body.Bare)
    (hspec : forall m, body.run m = spec c m) :
    Linearized spec m
      { w.resume t c (body.bind unlockAndReturn) with holder := some t } order m' := by
  have hnone : (w.threads t).answered t = [] := by
    rw [hrun]
    rfl
  have hinside : Placed spec m' w.store (some t) t
      (Thread.running c (body.bind unlockAndReturn)) := by
    refine Placed.inside rfl hbare ?_
    rw [hspec, h.settled hfree]
  refine h.quiet rfl rfl ?_ hinside ?_ ?_
  · rw [hnone]
    cases hbare with
    | ret a => rfl
    | abort => rfl
    | read _ => rfl
    | write _ => rfl
  · intro u hu
    refine (h.placed u).of_ne ?_ ?_
    · rw [hfree]
      exact (Option.some_ne_none u).symm
    · intro heq
      exact hu (Option.some.inj heq).symm
  · intro hno
    cases hno

/-- An instruction of the thread that holds the lock. Giving the lock back is where the
call takes its place in the order. -/
theorem Linearized.work (h : Linearized spec m w order m') {body : Code κ ν ρ}
    (hrun : w.threads t = Thread.running c (body.bind unlockAndReturn))
    (hholder : w.holder = some t) (hbare : body.Bare)
    (hspec : body.run w.store = spec c m')
    (hnext : w.next t c (body.bind unlockAndReturn) = some w') :
    exists order' m'', Linearized spec m w' order' m'' := by
  have hheld : forall u, u ≠ t -> w.holder ≠ some u := by
    intro u hu heq
    rw [hholder] at heq
    exact hu (Option.some.inj heq).symm
  have hbusy : w.holder = none -> w.store = m' := h.settled
  have hstill : forall {body' : Code κ ν ρ}, body'.Bare ->
      (Thread.running c (body'.bind unlockAndReturn)).answered t = [] := by
    intro body' hbare'
    cases hbare' with
    | ret a => rfl
    | abort => rfl
    | read _ => rfl
    | write _ => rfl
  have hnone : (w.threads t).answered t = [] := by
    rw [hrun]
    exact hstill hbare
  cases hbare with
  | ret a =>
      have hw : w' =
          { w.resume t c (Code.ret a) with holder := none } := by
        refine (Option.some.inj (hnext.symm.trans ?_))
        exact if_pos hholder
      cases hw
      exact ⟨_, _, h.decide hspec.symm rfl rfl hnone (Option.some_ne_none t).symm
        (h.others hholder fun u _ => (Option.some_ne_none u).symm) (fun _ => rfl)⟩
  | abort => cases hnext
  | read hbare =>
      cases hnext
      exact ⟨_, _, h.quiet rfl rfl ((hstill (hbare _)).trans hnone.symm)
        (Placed.inside hholder (hbare _) hspec) (h.others hholder hheld) hbusy⟩
  | write hbare =>
      cases hnext
      exact ⟨_, _, h.quiet rfl rfl ((hstill hbare).trans hnone.symm)
        (Placed.inside hholder hbare hspec) (h.others hholder hheld)
        (fun hno => absurd (hholder.symm.trans hno) (Option.some_ne_none t))⟩

theorem Linearized.next (h : Linearized spec m w order m') {code : Code κ ν ρ}
    (hrun : w.threads t = Thread.running c code) (hnext : w.next t c code = some w') :
    exists order' m'', Linearized spec m w' order' m'' := by
  have hplaced := h.placed t
  rw [hrun] at hplaced
  cases hplaced with
  | waiting hfree hbare hspec =>
      by_cases hholder : w.holder = none
      · have hw := hnext.symm.trans (if_pos hholder)
        cases hw
        exact ⟨_, _, h.acquire hrun hholder hbare hspec⟩
      · have hw := hnext.symm.trans (if_neg hholder)
        cases hw
  | inside hholder hbare hspec => exact h.work hrun hholder hbare hspec hnext
  | answered hfree =>
      cases hnext
      exact ⟨_, _, h.answer hrun hfree⟩

/-- Whatever the interleaving, the answers of a guarded object and the store it leaves
are those of a run in which the calls are made one after the other. -/
theorem exists_linearized (hguarded : forall c, Guarded (spec c) (object c))
    (hreach : (threadsOn object).Reaches (World.start m) w) :
    exists (order : List (Done ι ω ρ)) (m' : κ -> ν), Linearized spec m w order m' := by
  refine hreach.invariant
    (fun w => exists (order : List (Done ι ω ρ)) (m' : κ -> ν),
      Linearized spec m w order m') ?_ ?_
  · exact ⟨[], m, linearized_start⟩
  · intro w act w' hlin _ hexec
    rcases hlin with ⟨order, m', hlin⟩
    cases act with
    | call t c =>
        change (match w.threads t with
          | Thread.idle => some (w.resume t c (object c))
          | Thread.running _ _ => none) = some w' at hexec
        cases hthread : w.threads t with
        | idle =>
            rw [hthread] at hexec
            cases hexec
            exact hlin.call (hguarded c) hthread
        | running c' code =>
            rw [hthread] at hexec
            cases hexec
    | step t =>
        change (match w.threads t with
          | Thread.idle => none
          | Thread.running c code => w.next t c code) = some w' at hexec
        cases hthread : w.threads t with
        | idle =>
            rw [hthread] at hexec
            cases hexec
        | running c code =>
            rw [hthread] at hexec
            exact hlin.next hthread hexec

/-!
# Calls that all came back
-/

theorem Linearized.holder_eq_none (h : Linearized spec m w order m')
    (hidle : forall t, w.threads t = Thread.idle) : w.holder = none := by
  cases hholder : w.holder with
  | none => rfl
  | some t =>
      have hinside := (h.placed t).inside_iff.mpr hholder
      rw [hidle t] at hinside
      exact absurd hinside id

theorem Linearized.callsOf_eq (h : Linearized spec m w order m')
    (hidle : forall t, w.threads t = Thread.idle) (t : ι) :
    callsOf t order = callsOf t w.returned := by
  rw [h.programs t, hidle t]
  exact List.append_nil _

/-- Two lists in which every thread has the same calls have the same elements. -/
theorem perm_of_callsOf_eq {L K : List (Done ι ω ρ)}
    (h : forall t, callsOf t L = callsOf t K) : L.Perm K := by
  classical
  refine List.perm_iff_count.mpr ?_
  intro d
  have hcount : forall M : List (Done ι ω ρ),
      List.count d (callsOf d.thread M) = List.count d M :=
    fun M => List.count_filter (by simp)
  rw [← hcount L, ← hcount K, h d.thread]

end Guarded

end Foundation
end Liballo
