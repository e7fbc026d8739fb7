import Liballo.Foundation.Blocks
import Liballo.Foundation.Transition
import Liballo.Interface

/-!
# Clients of an allocator

A client allocates, frees and reallocates through the wrappers of the interface,
names only blocks it holds, passes the size it holds them with, and stores bytes
only inside its blocks. The session keeps what the client knows: the live blocks
with their sizes, and the pointers in the order in which blocks were placed.
-/

namespace Liballo

open Foundation

inductive Op where
  | alloc (size : Nat)
  | free (b : Block)
  | realloc (b : Block) (newSize : Nat)
  | poke (x : Nat) (v : UInt8)

structure Session (σ : Type) where
  state : σ
  live : List Block
  placed : List Nat

namespace Session

variable {σ : Type}

def start (state : σ) : Session σ :=
  { state := state, live := [], placed := [] }

def Legal (s : Session σ) : Op -> Prop
  | Op.alloc size => size < 2 ^ 64
  | Op.free b => b ∈ s.live
  | Op.realloc b newSize => b ∈ s.live ∧ newSize < 2 ^ 64
  | Op.poke x _ => exists b, b ∈ s.live ∧ b.Contains x

/-- The session after an allocation answered `ptr`. -/
def afterAlloc (s : Session σ) (size ptr : Nat) (state : σ) : Session σ :=
  if ptr = NULL then { s with state := state }
  else
    { state := state
      live := ⟨ptr, size⟩ :: s.live
      placed := ptr :: s.placed }

def afterFree (s : Session σ) (b : Block) (state : σ) : Session σ :=
  { s with state := state, live := s.live.erase b }

/-- The session after a reallocation answered `ptr`. A block that did not move
was not placed anew. -/
def afterRealloc (s : Session σ) (b : Block) (newSize ptr : Nat) (state : σ) :
    Session σ :=
  if newSize = 0 then s.afterFree b state
  else if ptr = NULL then { s with state := state }
  else
    { state := state
      live := ⟨ptr, newSize⟩ :: s.live.erase b
      placed := if ptr = b.ptr then s.placed else ptr :: s.placed }

section After

variable (s : Session σ) (b : Block) (state : σ) {n p : Nat}

@[simp] theorem afterAlloc_state : (s.afterAlloc n p state).state = state := by
  unfold afterAlloc
  split <;> rfl

theorem afterAlloc_null :
    s.afterAlloc n NULL state = { s with state := state } := by
  simp [afterAlloc]

theorem afterAlloc_placed (hp : p ≠ NULL) :
    s.afterAlloc n p state =
      { state := state, live := ⟨p, n⟩ :: s.live, placed := p :: s.placed } :=
  if_neg hp

@[simp] theorem afterRealloc_state :
    (s.afterRealloc b n p state).state = state := by
  unfold afterRealloc
  split
  · rfl
  · split <;> rfl

theorem afterRealloc_zero :
    s.afterRealloc b 0 p state = s.afterFree b state := by
  simp [afterRealloc]

theorem afterRealloc_null (hn : n ≠ 0) :
    s.afterRealloc b n NULL state = { s with state := state } := by
  simp [afterRealloc, hn]

theorem afterRealloc_placed (hn : n ≠ 0) (hp : p ≠ NULL) :
    s.afterRealloc b n p state =
      { state := state
        live := ⟨p, n⟩ :: s.live.erase b
        placed := if p = b.ptr then s.placed else p :: s.placed } := by
  simp [afterRealloc, hn, hp]

end After

def exec [HasMem σ] (a : Allo σ) : Op -> Session σ -> Option (Session σ)
  | Op.alloc size, s => do
      let (ptr, state) ← alloAlloc a size s.state
      some (s.afterAlloc size ptr state)
  | Op.free b, s => do
      let state ← alloFree a b.ptr b.size s.state
      some (s.afterFree b state)
  | Op.realloc b newSize, s => do
      let (ptr, state) ← alloRealloc a b.ptr b.size newSize s.state
      some (s.afterRealloc b newSize ptr state)
  | Op.poke x v, s =>
      some { s with state := modifyMem (Mem.poke x v) s.state }

/-- A client of `a` whose steps meet the extra condition `Ok`. -/
def clientOf [HasMem σ] (a : Allo σ) (Ok : Session σ -> Op -> Prop) :
    Machine (Session σ) Op where
  Legal s op := s.Legal op ∧ Ok s op
  exec := exec a

/-- A client without further conditions. -/
def client [HasMem σ] (a : Allo σ) : Machine (Session σ) Op :=
  clientOf a (fun _ _ => True)

@[simp] theorem clientOf_legal [HasMem σ] (a : Allo σ)
    (Ok : Session σ -> Op -> Prop) (s : Session σ) (op : Op) :
    (clientOf a Ok).Legal s op <-> s.Legal op ∧ Ok s op :=
  Iff.rfl

@[simp] theorem clientOf_exec [HasMem σ] (a : Allo σ)
    (Ok : Session σ -> Op -> Prop) (op : Op) (s : Session σ) :
    (clientOf a Ok).exec op s = exec a op s := rfl

/-!
# Inversion of a step

Each operation returns exactly when the wrapper call does.
-/

section Inversion

variable [HasMem σ] {a : Allo σ} {s s' : Session σ}

theorem exec_alloc {size : Nat} (h : exec a (Op.alloc size) s = some s') :
    exists ptr state, alloAlloc a size s.state = some (ptr, state) ∧
      s' = s.afterAlloc size ptr state := by
  simp only [exec, Option.bind_eq_bind, Option.bind_eq_some_iff] at h
  rcases h with ⟨⟨ptr, state⟩, hcall, heq⟩
  exact ⟨ptr, state, hcall, (Option.some.inj heq).symm⟩

theorem exec_free {b : Block} (h : exec a (Op.free b) s = some s') :
    exists state, alloFree a b.ptr b.size s.state = some state ∧
      s' = s.afterFree b state := by
  simp only [exec, Option.bind_eq_bind, Option.bind_eq_some_iff] at h
  rcases h with ⟨state, hcall, heq⟩
  exact ⟨state, hcall, (Option.some.inj heq).symm⟩

theorem exec_realloc {b : Block} {newSize : Nat}
    (h : exec a (Op.realloc b newSize) s = some s') :
    exists ptr state,
      alloRealloc a b.ptr b.size newSize s.state = some (ptr, state) ∧
        s' = s.afterRealloc b newSize ptr state := by
  simp only [exec, Option.bind_eq_bind, Option.bind_eq_some_iff] at h
  rcases h with ⟨⟨ptr, state⟩, hcall, heq⟩
  exact ⟨ptr, state, hcall, (Option.some.inj heq).symm⟩

theorem exec_poke {x : Nat} {v : UInt8} (h : exec a (Op.poke x v) s = some s') :
    s' = { s with state := modifyMem (Mem.poke x v) s.state } :=
  (Option.some.inj h).symm

/-- A block stays live in a step that does not free or reallocate it. -/
theorem exec_stays_live {op : Op} {b : Block} (h : exec a op s = some s') (hb : b ∈ s.live)
    (hfree : op ≠ Op.free b) (hrealloc : forall n, op ≠ Op.realloc b n) : b ∈ s'.live := by
  cases op with
  | alloc n =>
      rcases exec_alloc h with ⟨p, state, _, rfl⟩
      by_cases hp : p = NULL
      · subst hp
        rw [s.afterAlloc_null state]
        exact hb
      · rw [s.afterAlloc_placed state hp]
        exact List.mem_cons_of_mem _ hb
  | free c =>
      rcases exec_free h with ⟨state, _, rfl⟩
      have hne : b ≠ c := fun heq => hfree (congrArg Op.free heq.symm)
      exact (List.mem_erase_of_ne hne).mpr hb
  | realloc c n =>
      rcases exec_realloc h with ⟨p, state, _, rfl⟩
      have hne : b ≠ c := fun heq => hrealloc n (congrArg (Op.realloc · n) heq.symm)
      have hkept := (List.mem_erase_of_ne hne).mpr hb
      by_cases hn : n = 0
      · subst hn
        rw [s.afterRealloc_zero c state]
        exact hkept
      · by_cases hp : p = NULL
        · subst hp
          rw [s.afterRealloc_null c state hn]
          exact hb
        · rw [s.afterRealloc_placed c state hn hp]
          exact List.mem_cons_of_mem _ hkept
  | poke x v =>
      rw [exec_poke h]
      exact hb

end Inversion

end Session

/-!
# What a step must leave alone

A step names the blocks it is given. The bytes of every other live block are
kept, and a successful reallocation keeps the common prefix of the block.
-/

def Op.Names : Op -> Block -> Prop
  | Op.alloc _, _ => False
  | Op.free b, c => c = b
  | Op.realloc b _, c => c = b
  | Op.poke x _, c => c.Contains x

def KeepsBytes (L : List Block) (m m' : Mem) : Prop :=
  forall c, c ∈ L -> forall x, c.Contains x -> m'.bytes x = m.bytes x

def KeepsPrefix (old new n : Nat) (m m' : Mem) : Prop :=
  forall i, i < n -> m'.bytes (new + i) = m.bytes (old + i)

namespace Session

variable {σ : Type} [HasMem σ]

def KeepsOthers (s : Session σ) (op : Op) (s' : Session σ) : Prop :=
  forall c, c ∈ s.live -> ¬ op.Names c -> forall x, c.Contains x ->
    (mem s'.state).bytes x = (mem s.state).bytes x

/-- Every successful reallocation of a live block keeps the first
`min old new` bytes. -/
def ReallocKeepsPrefix (a : Allo σ) (s : Session σ) : Op -> Prop
  | Op.realloc b newSize => forall p state,
      alloRealloc a b.ptr b.size newSize s.state = some (p, state) ->
        p ≠ NULL ->
          KeepsPrefix b.ptr p (min b.size newSize) (mem s.state) (mem state)
  | _ => True

theorem keepsOthers_poke (s : Session σ) (x : Nat) (v : UInt8) :
    s.KeepsOthers (Op.poke x v)
      { s with state := modifyMem (Mem.poke x v) s.state } := by
  intro c hc hnamed y hy
  have hne : y ≠ x := by
    intro heq
    subst heq
    exact hnamed hy
  simp [Mem.poke_bytes_ne hne]

end Session

theorem KeepsBytes.refl (L : List Block) (m : Mem) : KeepsBytes L m m :=
  fun _ _ _ _ => rfl

theorem KeepsBytes.trans {L : List Block} {m m' m'' : Mem}
    (h : KeepsBytes L m m') (h' : KeepsBytes L m' m'') :
    KeepsBytes L m m'' := by
  intro c hc x hx
  rw [h' c hc x hx, h c hc x hx]

theorem KeepsBytes.subset {L M : List Block} {m m' : Mem}
    (h : KeepsBytes L m m') (hsub : forall c, c ∈ M -> c ∈ L) :
    KeepsBytes M m m' :=
  fun c hc x hx => h c (hsub c hc) x hx

theorem KeepsBytes.of_wrote {L : List Block} {m m' : Mem}
    {P : Nat -> Nat -> Prop} (hw : Wrote P m m')
    (hP : forall x n, P x n -> forall b, b ∈ L -> b.Disjoint ⟨x, n⟩) :
    KeepsBytes L m m' := by
  intro b hb x hx
  apply hw.bytes
  intro a n hPan
  exact (hP a n hPan b hb).not_contains hx

/-!
# Moving a block by a copy
-/

/-- How much of a block is copied when it moves. -/
theorem copySize_eq (oldSize newSize : Nat) :
    (if oldSize < newSize then oldSize else newSize) = min oldSize newSize := by
  split
  · omega
  · omega

section Copy

variable {b c : Block} {n : Nat} {m m₁ m' : Mem}

/-- Copying between blocks that lie apart. -/
theorem alloMemcpy_blocks (hb : b.WellFormed) (hc : c.WellFormed) (hapart : b.Disjoint c)
    (hnb : n ≤ b.size) (hnc : n ≤ c.size) :
    alloMemcpy c.ptr b.ptr n m = some (m.copy c.ptr b.ptr n) := by
  simp only [Block.WellFormed, Block.Disjoint, Block.stop] at hb hc hapart
  exact alloMemcpy_eq_some (Nat.ne_of_gt hc.left) (Nat.ne_of_gt hb.left) (by omega)
    (by omega) (by omega)

theorem KeepsBytes.copy {L : List Block} (hn : n ≤ c.size)
    (hL : forall d, d ∈ L -> d.Disjoint c) : KeepsBytes L m (m.copy c.ptr b.ptr n) := by
  have hcopied : Block.Inside ⟨c.ptr, n⟩ c :=
    ⟨Nat.le_refl _, Nat.add_le_add_left hn c.ptr⟩
  have hwrote : Wrote (fun x k => x = c.ptr ∧ k = n) m (m.copy c.ptr b.ptr n) :=
    Wrote.copy ⟨rfl, rfl⟩
  apply KeepsBytes.of_wrote hwrote
  rintro x k ⟨rfl, rfl⟩ d hd
  exact (hcopied.disjoint (hL d hd).symm).symm

/-- The old block is kept until the copy is made, and the new one from then on. -/
theorem KeepsPrefix.of_copy (hold : forall x, b.Contains x -> m₁.bytes x = m.bytes x)
    (hnew : forall x, c.Contains x ->
      m'.bytes x = (m₁.copy c.ptr b.ptr (min b.size c.size)).bytes x) :
    KeepsPrefix b.ptr c.ptr (min b.size c.size) m m' := by
  intro i hi
  have hib : i < b.size := Nat.lt_of_lt_of_le hi (Nat.min_le_left _ _)
  have hic : i < c.size := Nat.lt_of_lt_of_le hi (Nat.min_le_right _ _)
  rw [hnew _ ⟨Nat.le_add_right _ i, Nat.add_lt_add_left hic _⟩, Mem.copy_bytes_inside hi]
  exact hold _ ⟨Nat.le_add_right _ i, Nat.add_lt_add_left hib _⟩

end Copy

/-!
# Reallocation through the wrapper

The wrapper passes a request on only when both sizes are positive and differ.
-/

theorem alloRealloc_zero {σ : Type} {a : Allo σ} {ptr oldSize : Nat} {s s' : σ}
    (h : alloFree a ptr oldSize s = some s') :
    alloRealloc a ptr oldSize 0 s = some (NULL, s') := by
  simp [alloRealloc, h]

theorem alloRealloc_same {σ : Type} {a : Allo σ} {ptr size : Nat} {s : σ}
    (hsize : size ≠ 0) (hptr : ptr ≠ NULL) :
    alloRealloc a ptr size size s = some (ptr, s) := by
  simp [alloRealloc, hsize, hptr]

theorem alloRealloc_pass {σ : Type} {a : Allo σ} {ptr oldSize newSize : Nat}
    {s : σ} (hsize : newSize ≠ 0) (hptr : ptr ≠ NULL)
    (hne : oldSize ≠ newSize) :
    alloRealloc a ptr oldSize newSize s = a.realloc ptr oldSize newSize s := by
  simp [alloRealloc, hsize, hptr, hne]

theorem alloRealloc_cases {σ : Type} {a : Allo σ} {ptr oldSize newSize p : Nat}
    {s s' : σ} (hptr : ptr ≠ NULL)
    (h : alloRealloc a ptr oldSize newSize s = some (p, s')) :
    (newSize = 0 ∧ p = NULL ∧ alloFree a ptr oldSize s = some s') ∨
      (newSize ≠ 0 ∧ oldSize = newSize ∧ p = ptr ∧ s' = s) ∨
      (newSize ≠ 0 ∧ oldSize ≠ newSize ∧
        a.realloc ptr oldSize newSize s = some (p, s')) := by
  unfold alloRealloc at h
  by_cases hzero : newSize = 0
  · rw [if_pos hzero] at h
    simp only [Option.bind_eq_bind, Option.bind_eq_some_iff] at h
    rcases h with ⟨st, hfree, heq⟩
    cases heq
    exact Or.inl ⟨hzero, rfl, hfree⟩
  · rw [if_neg hzero, if_neg hptr] at h
    by_cases hsame : oldSize = newSize
    · rw [if_pos hsame] at h
      cases h
      exact Or.inr (Or.inl ⟨hzero, hsame, rfl, rfl⟩)
    · rw [if_neg hsame] at h
      exact Or.inr (Or.inr ⟨hzero, hsame, h⟩)

end Liballo
