import Liballo.Client

/-!
# The fallback allocator

The functions of `allo_fallback.c`, trees of fallback allocators, and the leaves of
such trees. Both sub-allocators work on the same state.
-/

namespace Liballo

open Foundation

section Fallback

variable {σ : Type} (primary fallback : Allo σ)

def fallbackAllocFn (size : Nat) (s : σ) : Option (Nat × σ) := do
  let (ptr, s) ← alloAlloc primary size s
  if ptr = NULL then alloAlloc fallback size s else some (ptr, s)

def fallbackReallocFn [HasMem σ] (ptr oldSize newSize : Nat) (s : σ) :
    Option (Nat × σ) :=
  if ptr = NULL then fallbackAllocFn primary fallback newSize s
  else do
    let primaryContains ← alloContains primary ptr s
    if primaryContains = AlloContains.yes ∨
        primaryContains = AlloContains.unknown then
      let (newPtr, s) ← alloRealloc primary ptr oldSize newSize s
      if newPtr ≠ NULL then some (newPtr, s)
      else
        let (newPtr, s) ← alloAlloc fallback newSize s
        if newPtr = NULL then some (NULL, s)
        else
          let copySize := if oldSize < newSize then oldSize else newSize
          let m ← alloMemcpy newPtr ptr copySize (mem s)
          let s ← alloFree primary ptr oldSize (setMem m s)
          some (newPtr, s)
    else alloRealloc fallback ptr oldSize newSize s

def fallbackFreeFn (ptr size : Nat) (s : σ) : Option σ :=
  if ptr = NULL then some s
  else do
    let primaryContains ← alloContains primary ptr s
    if primaryContains = AlloContains.yes ∨
        primaryContains = AlloContains.unknown then
      alloFree primary ptr size s
    else alloFree fallback ptr size s

def fallbackContainsFn (ptr : Nat) (s : σ) : Option AlloContains := do
  let answer ← alloContains primary ptr s
  if answer = AlloContains.yes then some AlloContains.yes
  else
    let answer' ← alloContains fallback ptr s
    if answer' = AlloContains.yes then some AlloContains.yes
    else if answer = AlloContains.unknown ∨ answer' = AlloContains.unknown then
      some AlloContains.unknown
    else some AlloContains.no

def fallbackAllo [HasMem σ] : Allo σ where
  alloc := fallbackAllocFn primary fallback
  realloc := fallbackReallocFn primary fallback
  freeMem := fallbackFreeFn primary fallback
  destroy := none
  contains := some (fallbackContainsFn primary fallback)

end Fallback

/-- A missing sub-allocator stands for the null pointer. -/
def makeFallbackAllocator {σ : Type} [HasMem σ] (out : Nat)
    (primary fallback : Option (Allo σ)) : Except AlloError (Allo σ) :=
  match primary, fallback with
  | some primary, some fallback =>
      if out = NULL then Except.error AlloError.inval
      else Except.ok (fallbackAllo primary fallback)
  | _, _ => Except.error AlloError.inval

/-!
# Leaves

A leaf owns the blocks it handed out. Which pointers its bookkeeping knows about is
up to the leaf: it answers a question about a pointer it does not track with
unknown, and any other question truthfully. What the leaf answers to a request for
memory is arbitrary as long as the block is apart from all owned blocks.
-/

/-- The choices of the leaves: the answer to the `i`-th request for memory, and
whether the leaf `leaf`, owning the blocks `L`, does not track a pointer. -/
structure LeafChoices where
  answer : Nat -> Nat
  untracked : Nat -> List Block -> Nat -> Bool

/-- A pointer passed to `leaf`, and whether the leaf owned it at that moment. -/
structure Pass where
  leaf : Nat
  ptr : Nat
  rightful : Bool
  deriving DecidableEq, Repr

structure LeafWorld where
  owned : List (Nat × Block)
  requests : Nat
  passed : List Pass
  mem : Mem

namespace LeafWorld

def start (m : Mem) : LeafWorld :=
  { owned := [], requests := 0, passed := [], mem := m }

instance : HasMem LeafWorld where
  mem := LeafWorld.mem
  setMem := fun m w => { w with mem := m }
  mem_setMem := by intros; rfl
  setMem_mem := by intros; rfl
  setMem_setMem := by intros; rfl

/-- The blocks that `leaf` owns. -/
def ownedBy (leaf : Nat) (w : LeafWorld) : List Block :=
  (w.owned.filter (fun e => e.1 = leaf)).map Prod.snd

/-- The block can be handed out while the blocks of `owned` are. -/
def Fresh (b : Block) (owned : List (Nat × Block)) : Prop :=
  b.WellFormed ∧ forall e, e ∈ owned -> b.Disjoint e.2

instance (b : Block) (owned : List (Nat × Block)) : Decidable (Fresh b owned) :=
  inferInstanceAs (Decidable (_ ∧ _))

def pass (leaf : Nat) (b : Block) (w : LeafWorld) : LeafWorld :=
  { w with passed := ⟨leaf, b.ptr, decide ((leaf, b) ∈ w.owned)⟩ :: w.passed }

end LeafWorld

section Leaf

variable (choices : LeafChoices) (leaf : Nat)

def leafAllocFn (size : Nat) (w : LeafWorld) : Option (Nat × LeafWorld) :=
  let b : Block := ⟨choices.answer w.requests, size⟩
  let w : LeafWorld := { w with requests := w.requests + 1 }
  if LeafWorld.Fresh b w.owned then
    some (b.ptr, { w with owned := (leaf, b) :: w.owned })
  else some (NULL, w)

/-- The leaf may resize the block where it is, move it, or fail. -/
def leafReallocFn (ptr oldSize newSize : Nat) (w : LeafWorld) :
    Option (Nat × LeafWorld) :=
  let b : Block := ⟨ptr, oldSize⟩
  let b' : Block := ⟨choices.answer w.requests, newSize⟩
  let w : LeafWorld := { w.pass leaf b with requests := w.requests + 1 }
  if (leaf, b) ∈ w.owned ∧ LeafWorld.Fresh b' (w.owned.erase (leaf, b)) then
    some (b'.ptr,
      { w with
        owned := (leaf, b') :: w.owned.erase (leaf, b)
        mem := w.mem.copy b'.ptr ptr (min oldSize newSize) })
  else some (NULL, w)

def leafFreeFn (ptr size : Nat) (w : LeafWorld) : Option LeafWorld :=
  let w := w.pass leaf ⟨ptr, size⟩
  some { w with owned := w.owned.erase (leaf, ⟨ptr, size⟩) }

def leafContainsFn (ptr : Nat) (w : LeafWorld) : Option AlloContains :=
  if choices.untracked leaf (w.ownedBy leaf) ptr then
    some AlloContains.unknown
  else if exists b, b ∈ w.ownedBy leaf ∧ b.ptr = ptr then
    some AlloContains.yes
  else some AlloContains.no

def leafAllo : Allo LeafWorld where
  alloc := leafAllocFn choices leaf
  realloc := leafReallocFn choices leaf
  freeMem := leafFreeFn leaf
  destroy := none
  contains := some (leafContainsFn choices leaf)

end Leaf

/-!
# Trees
-/

inductive FallbackTree where
  | leaf (id : Nat)
  | node (primary fallback : FallbackTree)
  deriving DecidableEq, Repr

namespace FallbackTree

def leaves : FallbackTree -> List Nat
  | leaf id => [id]
  | node primary fallback => primary.leaves ++ fallback.leaves

def allo (choices : LeafChoices) : FallbackTree -> Allo LeafWorld
  | leaf id => leafAllo choices id
  | node primary fallback =>
      fallbackAllo (primary.allo choices) (fallback.allo choices)

end FallbackTree

end Liballo
