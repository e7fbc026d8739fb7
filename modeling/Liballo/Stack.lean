import Liballo.Arena.Service
import Liballo.Buddy.Service
import Liballo.Gen.Service
import Liballo.Libc
import Liballo.Pool.Service

/-!
# Stacks of allocators

A client may put pools and buddy allocators on top of each other in any order, on the
page allocator or the C library. Every such stack implements the object store, and when
it is taken down nothing is left of it.
-/

namespace Liballo

open Foundation

/-!
# Layers
-/

/-- A layer takes all its memory from the allocator below it; `out` is where its
interface is made. -/
inductive Layer where
  | buddy (out size : Nat)
  | pool (out blockSize totalBlocks : Nat)
  deriving DecidableEq, Repr

namespace Layer

def State (χ : Type) : Layer -> Type
  | buddy _ _ => BuddyState χ
  | pool _ _ _ => PoolState χ

instance {χ : Type} [HasMem χ] (l : Layer) : HasMem (l.State χ) :=
  match l with
  | buddy _ _ => inferInstanceAs (HasMem (BuddyState χ))
  | pool _ _ _ => inferInstanceAs (HasMem (PoolState χ))

/-- The sizes that can be computed with. -/
def Fits : Layer -> Prop
  | buddy _ size => size ≤ 2 ^ 63
  | pool _ blockSize totalBlocks => roundedBlockSize blockSize * totalBlocks < 2 ^ 64

instance (l : Layer) : Decidable l.Fits :=
  match l with
  | buddy _ _ => inferInstanceAs (Decidable (_ ≤ _))
  | pool _ _ _ => inferInstanceAs (Decidable (_ < _))

section Operations

variable {χ : Type} [HasMem χ]

def child : (l : Layer) -> l.State χ -> χ
  | buddy _ _, s => BuddyState.child s
  | pool _ _ _, s => PoolState.child s

def allo (a : Allo χ) : (l : Layer) -> Allo (l.State χ)
  | buddy _ _ => buddyAllo a
  | pool _ _ _ => poolAllo (some a)

def make (a : Allo χ) (w : χ) : (l : Layer) -> Option (Made (l.State χ) χ)
  | buddy out size => makeBuddyAllocator out (some a) NULL size w
  | pool out blockSize totalBlocks =>
      makePoolAllocator out (some a) NULL blockSize totalBlocks w

variable {a : Allo χ}

def lawful (A : Lawful a) (base : List Block) : (l : Layer) -> Lawful (l.allo a)
  | buddy _ _ => buddyLawful A base
  | pool _ _ _ => poolLawful A base

/-- A layer is made and serves, or its memory went back. -/
theorem make_serves (A : Lawful a) {w : χ} {base : List Block} (l : Layer)
    (hfits : l.Fits) (hchild : A.Inv w base) :
    exists made, l.make a w = some made ∧
      ((exists e w', made = Made.failed e w' ∧ A.Inv w' base) ∨
        exists s, made = Made.ok s ∧ (l.lawful A base).Inv s []) := by
  cases l with
  | buddy out size =>
      have htotal : exists made, makeBuddyAllocator out (some a) NULL size w = some made ∧ _ :=
        makeBuddyAllocator_total (C := A.toContract) hfits hchild
      rcases htotal with ⟨made, hmake, hcase⟩
      refine ⟨made, hmake, ?_⟩
      rcases hcase with hfailed | ⟨t, rfl, _⟩
      · exact Or.inl hfailed
      · exact Or.inr ⟨_, rfl, buddyServes_of_make (C := A.toContract) hchild hmake⟩
  | pool out blockSize totalBlocks =>
      exact makePoolAllocator_serves (C := A.toContract) hchild hfits

/-- A layer that is destroyed gives its memory back. -/
theorem destroy_returns (A : Lawful a) {base L : List Block} (l : Layer) {s : l.State χ}
    (h : (l.lawful A base).Inv s L) :
    exists s', alloDestroy (l.allo a) s = some s' ∧ A.Inv (l.child s') base := by
  cases l with
  | buddy out size => exact (buddyLawful A base).destroy h
  | pool out blockSize totalBlocks => exact (poolLawful A base).destroy h

end Operations

end Layer

/-!
# Stacks

The first layer is the topmost one. A client makes the layers from the bottom to the top
and destroys them from the top to the bottom; when a layer cannot be made, it destroys
the layers below.
-/

def StackState (χ : Type) : List Layer -> Type
  | [] => χ
  | l :: ls => l.State (StackState χ ls)

section Stack

variable {χ : Type} [HasMem χ]

@[reducible] def stackMem : (ls : List Layer) -> HasMem (StackState χ ls)
  | [] => inferInstanceAs (HasMem χ)
  | l :: ls => @Layer.instHasMemState (StackState χ ls) (stackMem ls) l

instance (ls : List Layer) : HasMem (StackState χ ls) :=
  stackMem ls

def stackAllo (a : Allo χ) : (ls : List Layer) -> Allo (StackState χ ls)
  | [] => a
  | l :: ls => l.allo (stackAllo a ls)

def destroyStack (a : Allo χ) : (ls : List Layer) -> StackState χ ls -> Option χ
  | [], s => alloDestroy a s
  | l :: ls, s => do
      let s ← alloDestroy (l.allo (stackAllo a ls)) s
      destroyStack a ls (l.child s)

def makeStack (a : Allo χ) (w : χ) : (ls : List Layer) -> Option (Made (StackState χ ls) χ)
  | [] => some (Made.ok w)
  | l :: ls => do
      match ← makeStack a w ls with
      | Made.failed e w => some (Made.failed e w)
      | Made.ok s =>
          match ← l.make (stackAllo a ls) s with
          | Made.ok t => some (Made.ok t)
          | Made.failed e s => do
              let w ← destroyStack a ls s
              some (Made.failed e w)

variable {a : Allo χ}

/-- A stack on a lawful allocator is lawful. -/
def stackLawful (A : Lawful a) : (ls : List Layer) -> Lawful (stackAllo a ls)
  | [] => A
  | l :: ls => l.lawful (stackLawful A ls) []

/-- The blocks that clients of a stack hold directly from the allocator it stands on. -/
def heldBelow (L : List Block) : List Layer -> List Block
  | [] => L
  | _ :: _ => []

theorem heldBelow_nil (ls : List Layer) : heldBelow [] ls = [] := by
  cases ls with
  | nil => rfl
  | cons l ls => rfl

/-- Destroying a stack destroys the allocator it stands on, whatever clients still hold
of the stack. -/
theorem destroyStack_closed (A : Lawful a) {ls : List Layer} {s : StackState χ ls}
    {L : List Block} (h : (stackLawful A ls).Inv s L) :
    exists w, destroyStack a ls s = some w ∧ A.Closed w (heldBelow L ls) := by
  induction ls generalizing L with
  | nil => exact A.destroy h
  | cons l ls ih =>
      rcases l.destroy_returns (stackLawful A ls) h with ⟨s', hcall, hbelow⟩
      rcases ih hbelow with ⟨w, hrest, hclosed⟩
      rw [heldBelow_nil] at hclosed
      exact ⟨w, Option.bind_eq_some_iff.mpr ⟨s', hcall, hrest⟩, hclosed⟩

/-- A stack is made and serves, or nothing is left of it. -/
theorem makeStack_serves (A : Lawful a) {w : χ} {ls : List Layer}
    (hfits : forall l, l ∈ ls -> l.Fits) (hleaf : A.Inv w []) :
    exists made, makeStack a w ls = some made ∧
      ((exists e w', made = Made.failed e w' ∧ A.Closed w' []) ∨
        exists s, made = Made.ok s ∧ (stackLawful A ls).Inv s []) := by
  induction ls with
  | nil => exact ⟨_, rfl, Or.inr ⟨w, rfl, hleaf⟩⟩
  | cons l ls ih =>
      rcases ih (fun k hk => hfits k (List.mem_cons_of_mem l hk)) with
        ⟨made, hmake, ⟨e, w', rfl, hclosed⟩ | ⟨s, rfl, hserves⟩⟩
      · refine ⟨Made.failed e w', ?_, Or.inl ⟨e, w', rfl, hclosed⟩⟩
        exact Option.bind_eq_some_iff.mpr ⟨_, hmake, rfl⟩
      · rcases l.make_serves (stackLawful A ls) (hfits l List.mem_cons_self) hserves with
          ⟨top, htop, ⟨e, s', rfl, hbelow⟩ | ⟨t, rfl, ht⟩⟩
        · rcases destroyStack_closed A hbelow with ⟨w', hdestroy, hclosed⟩
          rw [heldBelow_nil] at hclosed
          refine ⟨Made.failed e w', ?_, Or.inl ⟨e, w', rfl, hclosed⟩⟩
          refine Option.bind_eq_some_iff.mpr ⟨_, hmake, ?_⟩
          refine Option.bind_eq_some_iff.mpr ⟨_, htop, ?_⟩
          exact Option.bind_eq_some_iff.mpr ⟨w', hdestroy, rfl⟩
        · refine ⟨Made.ok t, ?_, Or.inr ⟨t, rfl, ht⟩⟩
          refine Option.bind_eq_some_iff.mpr ⟨_, hmake, ?_⟩
          exact Option.bind_eq_some_iff.mpr ⟨_, htop, rfl⟩

/-!
# The life of a stack
-/

/-- Until a stack is destroyed, it keeps the objects of its client. -/
structure StackKeeps (a : Allo χ) (ls : List Layer) (Closed : χ -> List Block -> Prop)
    (es : List (Request × Nat)) (s : StackState χ ls) : Prop where
  objects : KeepsObjects (stackAllo a ls) (2 ^ 64) es s
  destroyed : exists w, destroyStack a ls s = some w ∧
    Closed w (heldBelow ((objectStore (2 ^ 64)).replay [] es).blocks ls)

/-- What comes of making a stack: it fails and all below is destroyed, or it keeps the
objects of its client in every dialogue. -/
def StackMade (a : Allo χ) (ls : List Layer) (Closed : χ -> List Block -> Prop) (w : χ) :
    Prop :=
  exists made, makeStack a w ls = some made ∧
    ((exists e w', made = Made.failed e w' ∧ Closed w' []) ∨
      exists st, made = Made.ok st ∧
        forall es s, (objectStore (2 ^ 64)).LegalAll [] es ->
          Dialogue (perform (stackAllo a ls)) st es s -> StackKeeps a ls Closed es s)

theorem stackMade_of_lawful (A : Lawful a) {w : χ} {ls : List Layer}
    (hfits : forall l, l ∈ ls -> l.Fits) (hleaf : A.Inv w []) :
    StackMade a ls A.Closed w := by
  rcases makeStack_serves A hfits hleaf with ⟨made, hmake, hcase⟩
  refine ⟨made, hmake, hcase.imp_right ?_⟩
  rintro ⟨st, hok, hserves⟩
  refine ⟨st, hok, fun es s hlegal hrun => ?_⟩
  rcases (stackLawful A ls).service.dialogue hserves hlegal hrun with ⟨hobjects, hlast⟩
  exact ⟨hobjects, destroyStack_closed A hlast⟩

end Stack

/-- Every stack on the page allocator keeps the objects of its client. Whether it could be
made or not, all its mappings go back to the system in the end. -/
theorem pageStack_keeps {os : Os} {out : Nat} {m : Mem} {page : PageState}
    {ls : List Layer} (hpage : exists k, 4 ≤ k ∧ k < 64 ∧ os.pageSize = 2 ^ k)
    (hos : Os.Aligned os) (hfits : forall l, l ∈ ls -> l.Fits)
    (hmake : makePageAllocator os out m = Made.ok page) :
    StackMade (pageAllo os) ls
      (fun s _ => (liveMaps (mem s).trace).Perm (liveMaps m.trace)) page := by
  have hlive := makePageAllocator_spec hpage hmake
  exact stackMade_of_lawful (pageLawful os hos (liveMaps m.trace)) hfits
    ⟨⟨[], hlive⟩, fun b hb => absurd hb List.not_mem_nil⟩

/-- Every stack on the C library keeps the objects of its client. When it is destroyed,
at most what the client took directly from the library is still owned. -/
theorem cStack_keeps {lib : CLib} {h : CHeap} {ls : List Layer}
    (howned : AllWellFormed h.owned) (hfits : forall l, l ∈ ls -> l.Fits) :
    StackMade (cAllo lib) ls (fun h' L => Holds h.owned L h'.owned) h := by
  rcases stackMade_of_lawful (cLawful lib h.owned) hfits (CHeap.Serves.start howned) with
    ⟨made, hmake, hcase⟩
  refine ⟨made, hmake, ?_⟩
  rcases hcase with ⟨e, h', hfailed, hclosed⟩ | ⟨st, hok, hkeeps⟩
  · exact Or.inl ⟨e, h', hfailed, hclosed.holds⟩
  · refine Or.inr ⟨st, hok, fun es s hlegal hrun => ?_⟩
    rcases hkeeps es s hlegal hrun with ⟨hobjects, h', hcall, hclosed⟩
    exact ⟨hobjects, h', hcall, hclosed.holds⟩

/-!
# Arenas on stacks

An arena is not a layer, since the sums it computes may wrap around. It stands on top.
-/

section Arena

variable {χ : Type} [HasMem χ]

def makeStackedArena (out blockSize : Nat) (a : Allo χ) (w : χ) (ls : List Layer) :
    Option (Made (ArenaState (StackState χ ls)) χ) := do
  match ← makeStack a w ls with
  | Made.failed e w => some (Made.failed e w)
  | Made.ok s =>
      match ← makeArenaAllocator out (some (stackAllo a ls)) blockSize s with
      | Made.ok t => some (Made.ok t)
      | Made.failed e s => do
          let w ← destroyStack a ls s
          some (Made.failed e w)

/-- The arena goes first, and then the stack below it. -/
def destroyStackedArena (a : Allo χ) (ls : List Layer) (s : ArenaState (StackState χ ls)) :
    Option χ := do
  let s ← alloDestroy (arenaAllo (stackAllo a ls)) s
  destroyStack a ls s.child

/-- What comes of making an arena on a stack for requests of fewer than `limit` bytes. -/
def StackedArenaMade (out blockSize limit : Nat) (a : Allo χ) (ls : List Layer)
    (Closed : χ -> Prop) (w : χ) : Prop :=
  exists made, makeStackedArena out blockSize a w ls = some made ∧
    ((exists e w', made = Made.failed e w' ∧ Closed w') ∨
      exists st, made = Made.ok st ∧
        forall es s, (objectStore limit).LegalAll [] es ->
          Dialogue (perform (arenaAllo (stackAllo a ls))) st es s ->
            KeepsObjects (arenaAllo (stackAllo a ls)) limit es s ∧
              exists w', destroyStackedArena a ls s = some w' ∧ Closed w')

variable {a : Allo χ}

theorem stackedArenaMade_of_lawful (A : Lawful a) {w : χ} {ls : List Layer}
    {out blockSize limit : Nat} (hlimit : blockSize + limit + 32 ≤ 2 ^ 64)
    (hfits : forall l, l ∈ ls -> l.Fits) (hleaf : A.Inv w []) :
    StackedArenaMade out blockSize limit a ls (fun w => A.Closed w []) w := by
  have hsum : blockSize + 32 ≤ 2 ^ 64 := by omega
  rcases makeStack_serves A hfits hleaf with
    ⟨made, hmake, ⟨e, w', rfl, hclosed⟩ | ⟨s, rfl, hserves⟩⟩
  · refine ⟨Made.failed e w', ?_, Or.inl ⟨e, w', rfl, hclosed⟩⟩
    exact Option.bind_eq_some_iff.mpr ⟨_, hmake, rfl⟩
  · have htotal : exists top,
        makeArenaAllocator out (some (stackAllo a ls)) blockSize s = some top ∧ _ :=
      makeArenaAllocator_serves hserves hsum
    rcases htotal with ⟨top, htop, ⟨e, s', rfl, hbelow⟩ | ⟨t, rfl, ht⟩⟩
    · rcases destroyStack_closed A hbelow with ⟨w', hdestroy, hclosed⟩
      rw [heldBelow_nil] at hclosed
      refine ⟨Made.failed e w', ?_, Or.inl ⟨e, w', rfl, hclosed⟩⟩
      refine Option.bind_eq_some_iff.mpr ⟨_, hmake, ?_⟩
      refine Option.bind_eq_some_iff.mpr ⟨_, htop, ?_⟩
      exact Option.bind_eq_some_iff.mpr ⟨w', hdestroy, rfl⟩
    · refine ⟨Made.ok t, ?_, Or.inr ⟨t, rfl, fun es s' hlegal hrun => ?_⟩⟩
      · refine Option.bind_eq_some_iff.mpr ⟨_, hmake, ?_⟩
        exact Option.bind_eq_some_iff.mpr ⟨_, htop, rfl⟩
      · let S := arenaService (stackLawful A ls) [] blockSize limit hlimit
        rcases S.dialogue ht hlegal hrun with ⟨hobjects, hlast⟩
        rcases hlast.destroy with ⟨t', hdestroy, hbelow⟩
        rcases destroyStack_closed A hbelow with ⟨w', hrest, hclosed⟩
        rw [heldBelow_nil] at hclosed
        exact ⟨hobjects, w', Option.bind_eq_some_iff.mpr ⟨t', hdestroy, hrest⟩, hclosed⟩

end Arena

/-- An arena on any stack on the page allocator keeps the objects of its client, and what
it never frees by itself goes back to the system in the end. -/
theorem pageArena_keeps {os : Os} {out backing blockSize limit : Nat} {m : Mem}
    {page : PageState} {ls : List Layer}
    (hpage : exists k, 4 ≤ k ∧ k < 64 ∧ os.pageSize = 2 ^ k) (hos : Os.Aligned os)
    (hlimit : blockSize + limit + 32 ≤ 2 ^ 64) (hfits : forall l, l ∈ ls -> l.Fits)
    (hmake : makePageAllocator os backing m = Made.ok page) :
    StackedArenaMade out blockSize limit (pageAllo os) ls
      (fun s => (liveMaps (mem s).trace).Perm (liveMaps m.trace)) page := by
  have hlive := makePageAllocator_spec hpage hmake
  exact stackedArenaMade_of_lawful (pageLawful os hos (liveMaps m.trace)) hlimit hfits
    ⟨⟨[], hlive⟩, fun b hb => absurd hb List.not_mem_nil⟩

/-- A pool on a buddy allocator on the page allocator. -/
theorem pageStack_keeps_roomy : exists page,
    makePageAllocator roomyOs 8 onePageMem = Made.ok page ∧
      StackMade (pageAllo roomyOs) [Layer.pool 24 40 100, Layer.buddy 16 65536]
        (fun s _ => (liveMaps (mem s).trace).Perm (liveMaps onePageMem.trace)) page := by
  have hmake : makePageAllocator roomyOs 8 onePageMem = Made.ok _ := rfl
  exact ⟨_, hmake, pageStack_keeps roomyOs_page roomyOs_aligned (by decide) hmake⟩

/-- An arena on a buddy allocator on the page allocator. -/
theorem pageArena_keeps_roomy : exists page,
    makePageAllocator roomyOs 8 onePageMem = Made.ok page ∧
      StackedArenaMade 24 4096 (2 ^ 63) (pageAllo roomyOs) [Layer.buddy 16 65536]
        (fun s => (liveMaps (mem s).trace).Perm (liveMaps onePageMem.trace)) page := by
  have hmake : makePageAllocator roomyOs 8 onePageMem = Made.ok _ := rfl
  exact ⟨_, hmake, pageArena_keeps roomyOs_page roomyOs_aligned (by decide) (by decide) hmake⟩

/-- Two buddy allocators on the C library. -/
theorem cStack_keeps_buddies :
    StackMade (cAllo ⟨fun i => (i + 1) * 2 ^ 32, fun _ _ => 0⟩)
      [Layer.buddy 24 4096, Layer.buddy 16 65536]
        (fun h L => Holds [] L h.owned) ⟨[], 0, onePageMem⟩ :=
  cStack_keeps (fun _ hb => absurd hb List.not_mem_nil) (by decide)

end Liballo
