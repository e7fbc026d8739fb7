import Liballo.Buddy.Live

/-!
# Making and destroying a buddy allocator

The constructor rounds the size, obtains up to four blocks from the child and makes
the whole buffer one free block. When the child refuses a block, the blocks obtained
so far go back to it.
-/

namespace Liballo

open Foundation

/-!
# Rounding the size
-/

/-- The doubling stops at the least power of two that is large enough. -/
theorem actualSizeLoop_stops {size : Nat} (hsize : size ≤ 2 ^ 63) {fuel j : Nat}
    (hfuel : 64 ≤ j + fuel) (hj : j ≤ 63)
    (hleast : forall i, i < j -> 2 ^ i < size) :
    exists k, k ≤ 63 ∧ actualSizeLoop fuel (2 ^ j) size = some (2 ^ k) ∧
      size ≤ 2 ^ k ∧ forall i, i < k -> 2 ^ i < size := by
  induction fuel generalizing j with
  | zero => omega
  | succ fuel ih =>
      rw [actualSizeLoop]
      by_cases hlt : 2 ^ j < size
      · have hne : j ≠ 63 := by
          intro heq
          rw [heq] at hlt
          exact Nat.lt_irrefl _ (Nat.lt_of_lt_of_le hlt hsize)
        have hdouble : sizeMul (2 ^ j) 2 = 2 ^ (j + 1) := by
          have hpow : 2 ^ (j + 1) < 2 ^ 64 :=
            Nat.pow_lt_pow_right (by decide) (by omega)
          rw [Nat.pow_succ] at hpow ⊢
          exact sizeMul_eq hpow
        rw [if_pos hlt, hdouble]
        apply ih (by omega) (by omega)
        intro i hi
        rcases Nat.lt_or_eq_of_le (Nat.le_of_lt_succ hi) with hbelow | heq
        · exact hleast i hbelow
        · rw [heq]
          exact hlt
      · rw [if_neg hlt]
        exact ⟨j, hj, rfl, Nat.le_of_not_lt hlt, hleast⟩

/-- Above `2 ^ 63` the doubling wraps to zero and never stops. -/
theorem actualSizeLoop_never {size : Nat} (hsize : 2 ^ 63 < size) (fuel : Nat)
    {x : Nat} (hx : x = 0 ∨ exists j, j ≤ 63 ∧ x = 2 ^ j) :
    actualSizeLoop fuel x size = none := by
  induction fuel generalizing x with
  | zero => rfl
  | succ fuel ih =>
      have hlt : x < size := by
        rcases hx with hzero | ⟨j, hj, hpow⟩
        · omega
        · have hle : 2 ^ j ≤ 2 ^ 63 := Nat.pow_le_pow_right (by decide) hj
          omega
      rw [actualSizeLoop, if_pos hlt]
      apply ih
      rcases hx with hzero | ⟨j, hj, hpow⟩
      · rw [hzero]
        exact Or.inl rfl
      · rcases Nat.lt_or_eq_of_le hj with hbelow | heq
        · refine Or.inr ⟨j + 1, hbelow, ?_⟩
          have hlt64 : 2 ^ (j + 1) < 2 ^ 64 :=
            Nat.pow_lt_pow_right (by decide) (by omega)
          rw [hpow, Nat.pow_succ]
          rw [Nat.pow_succ] at hlt64
          exact sizeMul_eq hlt64
        · rw [hpow, heq]
          exact Or.inl (by decide)

section Make

variable {χ : Type} [HasMem χ] {a : Allo χ}

/-!
# Starting
-/

/-- The free lists of a new allocator: the root is free. -/
def rootLists : Nat -> List Nat :=
  Function.update (fun _ => []) 0 [0]

theorem freeNodes_nil : FreeNodes (fun _ => []) = ∅ := by
  ext k
  simp [FreeNodes]

theorem freeNodes_rootLists : FreeNodes rootLists = {Node.root} := by
  have hpush := freeNodes_push (fun _ => []) Node.root
  rw [freeNodes_nil, insert_empty_eq] at hpush
  exact hpush

theorem nodeAddr_root (c : BuddyContext) : c.nodeAddr Node.root = c.buffer := by
  unfold BuddyContext.nodeAddr Node.first Node.root
  rw [Nat.zero_mul, Nat.add_zero]

/-- The context before the first block is put into its list. -/
structure BuddyFresh (depth : Nat) (c : BuddyContext) : Prop where
  geom : BuddyGeom depth c
  freeLists : forall level, c.freeLists level = NULL
  bitset : c.bitset = fun _ => 0

/-- The whole buffer is held and then given free. What was poisoned before does not
matter yet. -/
theorem buddyStart_step {depth : Nat} {s : BuddyState χ}
    (h : BuddyFresh depth s.ctx) :
    exists O, BuddyStep False depth {Node.root} s (buddyStart s) rootLists []
      {Node.root} O := by
  have hheld : BuddyRep False depth s (fun _ => []) [Node.root] ∅ Set.univ := by
    refine
      { geom := h.geom
        lists := h.freeLists
        tiled := ?_
        marked := fun n hn => absurd hn (Set.notMem_empty n)
        bits := ?_
        shadow := fun hno => absurd hno not_false }
    · have htake := (Tiled.start depth).take (Set.mem_singleton Node.root)
      rw [Set.sdiff_self] at htake
      rw [freeNodes_nil]
      exact htake
    · intro k
      rw [h.bitset]
      constructor
      · exact fun hbit => absurd hbit (not_hasBit_zero k)
      · intro hk
        rcases hk with ⟨n, hn, _⟩
        exact absurd hn (Set.notMem_empty n)
  have hroot : Tiled depth (insert Node.root (FreeNodes (fun _ => []))) [] := by
    rw [freeNodes_nil, insert_empty_eq]
    exact Tiled.start depth
  have hvalid := hroot.free_valid Node.root (Set.mem_insert _ _)
  have hnew : Node.root ∉ FreeNodes (fun _ => []) := by
    rw [freeNodes_nil]
    exact Set.notMem_empty Node.root
  have hW : insert Node.root (FreeNodes (fun _ => [])) ⊆ {Node.root} := by
    rw [freeNodes_nil, insert_empty_eq]
  have hpushed := (BuddyStep.refl hheld {Node.root}).push hroot hnew hW
    (fun _ _ x _ => Set.mem_univ x)
  have hmarked := hpushed.setBit hvalid
  rw [insert_empty_eq, nodeAddr_root] at hmarked
  exact ⟨_, (hmarked.poison s.ctx.region).unpoison ⟨s.ctx.buffer, sizeofBuddyNode⟩⟩

/-- The buffer is closed except for the header of the root. -/
theorem poisoned_buddyStart (s : BuddyState χ) (x : Nat) (hx : s.ctx.region.Contains x) :
    poisoned (mem (buddyStart s)).trace x = false <->
      Block.Contains ⟨s.ctx.buffer, sizeofBuddyNode⟩ x := by
  unfold buddyStart
  dsimp only
  rw [mem_buddyNote, mem_buddyNote, Mem.note_trace, Mem.note_trace,
    poisoned_unpoison, poisoned_poison]
  split
  · rename_i hin
    exact ⟨fun _ => hin, fun _ => rfl⟩
  · rename_i hout
    split
    · constructor
      · intro heq
        cases heq
      · exact fun hin => absurd hin hout
    · rename_i hregion
      exact absurd hx hregion

theorem buddyStart_spec {asan : Prop} {depth : Nat} {s : BuddyState χ}
    (h : BuddyFresh depth s.ctx) :
    BuddyLive asan depth (buddyStart s) rootLists [] ∧
      BuddyMoved False (HeaderOf s.ctx {Node.root}) s (buddyStart s) := by
  rcases buddyStart_step h with ⟨O, hstep⟩
  refine ⟨?_, hstep.moved⟩
  refine
    { inv :=
        { geom := hstep.rep.geom
          lists := hstep.rep.lists
          tiled := hstep.rep.tiled
          marked := ?_
          bits := ?_
          shadow := ?_ }
      fits := fun b hb => absurd hb List.not_mem_nil }
  · rw [freeNodes_rootLists]
    exact hstep.rep.marked
  · rw [freeNodes_rootLists]
    exact hstep.rep.bits
  · intro _ x hx
    rw [hstep.moved.region] at hx
    rw [poisoned_buddyStart s x hx, openBytes_moved hstep.moved, freeNodes_rootLists]
    constructor
    · intro hin
      refine Or.inr ⟨Node.root, rfl, ?_⟩
      unfold BuddyContext.header
      rw [nodeAddr_root]
      exact hin
    · intro hin
      rcases hin with ⟨n, hn, _⟩ | ⟨n, hn, hin⟩
      · exact absurd hn List.not_mem_nil
      · rw [Set.mem_singleton_iff.mp hn] at hin
        unfold BuddyContext.header at hin
        rw [nodeAddr_root] at hin
        exact hin

/-!
# Blocks of the child
-/

/-- The buffer, if the child provided it. -/
def BuddyContext.ownBlocks (c : BuddyContext) : List Block :=
  if c.ownBuffer = true then [c.region] else []

def BuddyContext.tables (c : BuddyContext) : List Block :=
  [⟨c.blockOrdersPtr, c.blockOrdersLen⟩, ⟨c.bitsetPtr, c.bitBytes⟩,
    ⟨c.freeListsPtr, sizeMul c.freeListsCount 8⟩]

variable {Inv : χ -> List Block -> Prop} {s : BuddyState χ} {L : List Block}

theorem buddyTable_spec (hledger : Ledger a Inv) (nmemb size : Nat)
    (h : Inv s.child L) :
    exists p w, buddyTable a nmemb size s = some (p, { s with child := w }) ∧
      (p = NULL ∧ Inv w L ∨
        p ≠ NULL ∧ sizeMul nmemb size ≠ 0 ∧ Inv w (⟨p, sizeMul nmemb size⟩ :: L)) := by
  have htouch : Inv s.touch.child L := hledger.note h
  rcases hledger.calloc nmemb size htouch with ⟨p, w, hcall, hcase⟩
  refine ⟨p, modifyMem (Mem.note (Event.touch s.self sizeofAllo)) w, ?_, ?_⟩
  · unfold buddyTable
    rw [hcall]
    rfl
  · rcases hcase with ⟨hnull, hinv⟩ | ⟨hne, hsize, hinv⟩
    · exact Or.inl ⟨hnull, hledger.note hinv⟩
    · exact Or.inr ⟨hne, hsize, hledger.note hinv⟩

theorem buddyRelease_spec {b : Block} {K : List Block} (hledger : Ledger a Inv)
    (h : Inv s.child (K ++ b :: L)) :
    exists w, buddyRelease a b.ptr b.size s = some { s with child := w } ∧
      Inv w (K ++ L) := by
  have htouch : Inv s.touch.child (K ++ b :: L) := hledger.note h
  rcases hledger.free htouch with ⟨w, hcall, hinv⟩
  refine ⟨w, ?_, hinv⟩
  unfold buddyRelease
  rw [hcall]
  rfl

theorem releaseOwnBuffer_spec (hledger : Ledger a Inv)
    (h : Inv s.child (s.ctx.ownBlocks ++ L)) :
    exists w, releaseOwnBuffer a s = some w ∧ Inv w L := by
  have htouch : Inv s.touch.child (s.ctx.ownBlocks ++ L) := hledger.note h
  unfold releaseOwnBuffer
  unfold BuddyContext.ownBlocks at htouch
  split
  · rename_i hown
    rw [if_pos hown] at htouch
    rcases hledger.free (K := []) htouch with ⟨w, hcall, hinv⟩
    exact ⟨w, hcall, hinv⟩
  · rename_i hown
    rw [if_neg hown] at htouch
    exact ⟨_, rfl, htouch⟩

/-- The tables are in place; nothing else of the context changed. -/
structure BuddyTabled (s t : BuddyState χ) : Prop where
  self : t.self = s.self
  ctx : exists f b o, t.ctx =
    { s.ctx with freeListsPtr := f, bitsetPtr := b, blockOrdersPtr := o }

theorem buddyTables_spec (hledger : Ledger a Inv) (htotal : s.ctx.totalSize < 2 ^ 64)
    (h : Inv s.child (s.ctx.ownBlocks ++ L)) :
    exists made, buddyTables a s = some made ∧
      ((exists w, made = Made.failed AlloError.nomem w ∧ Inv w L) ∨
        exists t, made = Made.ok (buddyStart t) ∧ BuddyTabled s t ∧
          t.ctx.blockOrdersLen ≠ 0 ∧
          Inv t.child (t.ctx.tables ++ (t.ctx.ownBlocks ++ L))) := by
  have hbits : sizeMul s.ctx.bitBytes 1 = s.ctx.bitBytes := by
    have hlt : s.ctx.bitBytes * 1 < 2 ^ 64 := by
      rw [Nat.mul_one]
      exact Nat.lt_of_le_of_lt (Nat.div_le_self _ 8) (sizeAdd_lt _ _)
    rw [sizeMul_eq hlt, Nat.mul_one]
  have horders : sizeMul s.ctx.blockOrdersLen 1 = s.ctx.blockOrdersLen := by
    have hlt : s.ctx.blockOrdersLen * 1 < 2 ^ 64 := by
      rw [Nat.mul_one]
      exact Nat.lt_of_le_of_lt (Nat.div_le_self _ _) htotal
    rw [sizeMul_eq hlt, Nat.mul_one]
  unfold buddyTables
  -- The free lists.
  rcases buddyTable_spec hledger s.ctx.freeListsCount 8 h with ⟨f, w₁, hcall₁, hcase₁⟩
  simp only [hcall₁, Option.bind_eq_bind, Option.bind_some]
  rcases hcase₁ with ⟨hnull₁, hinv₁⟩ | ⟨hne₁, _, hinv₁⟩
  · rcases releaseOwnBuffer_spec (s := { s with child := w₁ }) hledger hinv₁ with
      ⟨w, hrelease, hinv⟩
    rw [if_pos hnull₁, hrelease]
    exact ⟨_, rfl, Or.inl ⟨w, rfl, hinv⟩⟩
  rw [if_neg hne₁]
  -- The bitset.
  rcases buddyTable_spec
      (s := { s with ctx := { s.ctx with freeListsPtr := f }, child := w₁ })
      hledger (BuddyContext.bitBytes { s.ctx with freeListsPtr := f }) 1 hinv₁ with
    ⟨b, w₂, hcall₂, hcase₂⟩
  simp only [hcall₂, Option.bind_some]
  rcases hcase₂ with ⟨hnull₂, hinv₂⟩ | ⟨hne₂, _, hinv₂⟩
  · rcases buddyRelease_spec (K := [])
        (s := { s with ctx := { s.ctx with freeListsPtr := f }, child := w₂ })
        hledger hinv₂ with
      ⟨w₃, hrelease₃, hinv₃⟩
    rcases releaseOwnBuffer_spec
        (s := { s with ctx := { s.ctx with freeListsPtr := f }, child := w₃ })
        hledger hinv₃ with
      ⟨w, hrelease, hinv⟩
    rw [if_pos hnull₂]
    exact ⟨_, Option.bind_eq_some_iff.mpr ⟨_, hrelease₃,
      Option.bind_eq_some_iff.mpr ⟨w, hrelease, rfl⟩⟩, Or.inl ⟨w, rfl, hinv⟩⟩
  rw [if_neg hne₂]
  -- The orders of the blocks.
  have hsize₂ : sizeMul (BuddyContext.bitBytes { s.ctx with freeListsPtr := f }) 1 =
      s.ctx.bitBytes := hbits
  rw [hsize₂] at hinv₂
  rcases buddyTable_spec
      (s := { s with
        ctx := { s.ctx with freeListsPtr := f, bitsetPtr := b }, child := w₂ })
      hledger (BuddyContext.blockOrdersLen
        { s.ctx with freeListsPtr := f, bitsetPtr := b }) 1 hinv₂ with
    ⟨o, w₃, hcall₃, hcase₃⟩
  simp only [hcall₃, Option.bind_some]
  have hsize₃ : sizeMul (BuddyContext.blockOrdersLen
      { s.ctx with freeListsPtr := f, bitsetPtr := b }) 1 = s.ctx.blockOrdersLen :=
    horders
  rw [hsize₃] at hcase₃
  rcases hcase₃ with ⟨hnull₃, hinv₃⟩ | ⟨hne₃, hlen, hinv₃⟩
  · rcases buddyRelease_spec (K := [])
        (s := { s with
          ctx := { s.ctx with freeListsPtr := f, bitsetPtr := b }, child := w₃ })
        hledger hinv₃ with ⟨w₄, hrelease₄, hinv₄⟩
    rcases buddyRelease_spec (K := [])
        (s := { s with
          ctx := { s.ctx with freeListsPtr := f, bitsetPtr := b }, child := w₄ })
        hledger hinv₄ with ⟨w₅, hrelease₅, hinv₅⟩
    rcases releaseOwnBuffer_spec
        (s := { s with
          ctx := { s.ctx with freeListsPtr := f, bitsetPtr := b }, child := w₅ })
        hledger hinv₅ with ⟨w, hrelease, hinv⟩
    rw [if_pos hnull₃]
    exact ⟨_, Option.bind_eq_some_iff.mpr ⟨_, hrelease₄,
      Option.bind_eq_some_iff.mpr ⟨_, hrelease₅,
        Option.bind_eq_some_iff.mpr ⟨w, hrelease, rfl⟩⟩⟩, Or.inl ⟨w, rfl, hinv⟩⟩
  rw [if_neg hne₃]
  exact ⟨_, rfl, Or.inr ⟨_, rfl, ⟨rfl, f, b, o, rfl⟩, hlen, hinv₃⟩⟩

/-!
# Making
-/

/-- The context when the tables are still to be obtained. -/
structure BuddyShape (buffer size : Nat) (c : BuddyContext) : Prop where
  rounded : exists k, k ≤ 63 ∧ c.totalSize = 2 ^ k ∧ c.maxOrder = k ∧
    size ≤ 2 ^ k ∧ forall i, i < k -> 2 ^ i < size
  minBlockSize : c.minBlockSize = 32
  buffer_eq : buffer ≠ NULL -> c.buffer = buffer
  own : c.ownBuffer = decide (buffer = NULL)
  freeLists : c.freeLists = fun _ => NULL
  bitset : c.bitset = fun _ => 0

/-- What the constructor leaves to `buddyStart`, and the blocks it obtained. -/
structure BuddyMade (C : Contract a) (L : List Block) (buffer size : Nat)
    (t : BuddyState χ) : Prop where
  shape : BuddyShape buffer size t.ctx
  blocks : C.Inv t.child (t.ctx.tables ++ (t.ctx.ownBlocks ++ L))

omit [HasMem χ] in
theorem BuddyShape.tabled {buffer size : Nat} {t : BuddyState χ}
    (h : BuddyShape buffer size s.ctx) (ht : BuddyTabled s t) :
    BuddyShape buffer size t.ctx := by
  rcases ht.ctx with ⟨f, b, o, hctx⟩
  rw [hctx]
  exact
    { rounded := h.rounded
      minBlockSize := h.minBlockSize
      buffer_eq := h.buffer_eq
      own := h.own
      freeLists := h.freeLists
      bitset := h.bitset }

theorem BuddyShape.total_lt {buffer size : Nat} {c : BuddyContext}
    (h : BuddyShape buffer size c) : c.totalSize < 2 ^ 64 := by
  rcases h.rounded with ⟨k, hk, htotal, _⟩
  rw [htotal]
  exact Nat.pow_lt_pow_right (by decide) (by omega)

/-- When the table of orders has an entry, the total has a block of the smallest size. -/
theorem BuddyShape.order_ge {buffer size : Nat} {c : BuddyContext}
    (h : BuddyShape buffer size c) (hlen : c.blockOrdersLen ≠ 0) : 5 ≤ c.maxOrder := by
  rcases h.rounded with ⟨k, _, htotal, hmax, _⟩
  rw [hmax]
  unfold BuddyContext.blockOrdersLen at hlen
  rw [htotal, h.minBlockSize] at hlen
  by_contra hlt
  apply hlen
  have hpow : 2 ^ k ≤ 2 ^ 4 := Nat.pow_le_pow_right (by decide) (by omega)
  exact Nat.div_eq_of_lt (by omega)

/-- How a constructor that returned ended: with everything given back, or with tables
that are not empty. -/
def BuddyOutcome (Inv : χ -> List Block -> Prop) (L : List Block) (buffer size : Nat)
    (made : Made (BuddyState χ) χ) : Prop :=
  (exists e w, made = Made.failed e w ∧ Inv w L) ∨
    exists t, made = Made.ok (buddyStart t) ∧ BuddyShape buffer size t.ctx ∧
      t.ctx.blockOrdersLen ≠ 0 ∧ Inv t.child (t.ctx.tables ++ (t.ctx.ownBlocks ++ L))

/-- The rest of the constructor once the buffer is there. -/
theorem buddyTables_made {buffer size : Nat} (hledger : Ledger a Inv)
    (hshape : BuddyShape buffer size s.ctx) (h : Inv s.child (s.ctx.ownBlocks ++ L)) :
    exists made, buddyTables a s = some made ∧ BuddyOutcome Inv L buffer size made := by
  rcases buddyTables_spec hledger hshape.total_lt h with ⟨made, hcall, hcase⟩
  refine ⟨made, hcall, ?_⟩
  rcases hcase with ⟨w, hfailed, hinv⟩ | ⟨t, hok, htabled, hlen, hinv⟩
  · exact Or.inl ⟨_, w, hfailed, hinv⟩
  · exact Or.inr ⟨t, hok, hshape.tabled htabled, hlen, hinv⟩

/-- The branch of the constructor in which the child provides the buffer. -/
theorem ownBuffer_made {size : Nat} (hledger : Ledger a Inv)
    (hshape : BuddyShape NULL size s.ctx) (h : Inv s.child L) :
    exists made, (do
        let (buffer, w) ← alloAlloc a s.ctx.totalSize s.child
        let s := { s with ctx := { s.ctx with buffer := buffer }, child := w }.touch
        if buffer = NULL then some (Made.failed AlloError.nomem s.child)
        else buddyTables a s) = some made ∧ BuddyOutcome Inv L NULL size made := by
  rcases hledger.alloc h hshape.total_lt with ⟨p, w, hcall, hcase⟩
  simp only [hcall, Option.bind_eq_bind, Option.bind_some]
  rcases hcase with ⟨hnull, hinv⟩ | ⟨hne, _, hinv⟩
  · rw [if_pos hnull]
    exact ⟨_, rfl, Or.inl ⟨_, _, rfl, hledger.note hinv⟩⟩
  · rw [if_neg hne]
    apply buddyTables_made hledger
    · exact
        { rounded := hshape.rounded
          minBlockSize := hshape.minBlockSize
          buffer_eq := fun hno => absurd rfl hno
          own := hshape.own
          freeLists := hshape.freeLists
          bitset := hshape.bitset }
    · have hown : s.ctx.ownBuffer = true := hshape.own
      unfold BuddyContext.ownBlocks
      rw [ctx_touch]
      dsimp only
      rw [if_pos hown]
      exact hledger.note hinv

/-- The constructor returns, and on failure the child has back what it gave. -/
theorem makeBuddyAllocator_returns {out buffer size : Nat} {w : χ}
    (hledger : Ledger a Inv) (hsize : size ≤ 2 ^ 63) (h : Inv w L) :
    exists made, makeBuddyAllocator out (some a) buffer size w = some made ∧
      BuddyOutcome Inv L buffer size made := by
  by_cases hinval : out = NULL ∨ size = 0
  · exact ⟨_, if_pos hinval, Or.inl ⟨_, w, rfl, h⟩⟩
  have hfuel : 64 ≤ 0 + doublings := by decide
  rcases actualSizeLoop_stops hsize hfuel (Nat.zero_le 63)
    (fun i hi => absurd hi (Nat.not_lt_zero i)) with ⟨k, hk, hloop, hle, hleast⟩
  rw [Nat.pow_zero] at hloop
  have horder : getOrder (2 ^ k) = k := getOrder_two_pow (by omega)
  have hrounded : exists j, j ≤ 63 ∧ 2 ^ k = 2 ^ j ∧ getOrder (2 ^ k) = j ∧
      size ≤ 2 ^ j ∧ forall i, i < j -> 2 ^ i < size :=
    ⟨k, hk, rfl, horder, hle, hleast⟩
  unfold makeBuddyAllocator
  simp only [if_neg hinval, hloop, Option.bind_eq_bind, Option.bind_some]
  by_cases hbuffer : buffer = NULL
  · subst hbuffer
    rw [if_pos rfl]
    have hshape : BuddyShape NULL size
        { buffer := NULL
          totalSize := 2 ^ k
          minBlockSize := 32
          maxOrder := getOrder (2 ^ k)
          freeLists := fun _ => NULL
          bitset := fun _ => 0
          blockOrders := fun _ => 0
          freeListsPtr := NULL
          bitsetPtr := NULL
          blockOrdersPtr := NULL
          ownBuffer := decide (NULL = NULL) } :=
      { rounded := hrounded
        minBlockSize := rfl
        buffer_eq := fun hno => absurd rfl hno
        own := rfl
        freeLists := rfl
        bitset := rfl }
    exact ownBuffer_made (s := BuddyState.touch ⟨out, _, w⟩) hledger hshape
      (hledger.note h)
  · rw [if_neg hbuffer]
    apply buddyTables_made hledger
    · exact
        { rounded := hrounded
          minBlockSize := rfl
          buffer_eq := fun _ => rfl
          own := rfl
          freeLists := rfl
          bitset := rfl }
    · have hown : ¬ decide (buffer = NULL) = true :=
        fun heq => hbuffer (of_decide_eq_true heq)
      unfold BuddyContext.ownBlocks
      rw [ctx_touch, if_neg hown]
      exact hledger.note h

variable {C : Contract a}

theorem makeBuddyAllocator_total {out buffer size : Nat} {w : χ}
    (hsize : size ≤ 2 ^ 63) (h : C.Inv w L) :
    exists made, makeBuddyAllocator out (some a) buffer size w = some made ∧
      ((exists e w', made = Made.failed e w' ∧ C.Inv w' L) ∨
        exists t, made = Made.ok (buddyStart t) ∧ BuddyMade C L buffer size t) := by
  rcases makeBuddyAllocator_returns C.ledger hsize h with ⟨made, hcall, hcase⟩
  refine ⟨made, hcall, ?_⟩
  rcases hcase with hfailed | ⟨t, hok, hshape, _, hinv⟩
  · exact Or.inl hfailed
  · exact Or.inr ⟨t, hok, hshape, hinv⟩

theorem makeBuddyAllocator_ok {out buffer size : Nat} {w : χ} {st : BuddyState χ}
    (h : C.Inv w L)
    (hmake : makeBuddyAllocator out (some a) buffer size w = some (Made.ok st)) :
    exists t, st = buddyStart t ∧ BuddyMade C L buffer size t := by
  rcases Nat.lt_or_ge (2 ^ 63) size with hhuge | hsmall
  · have hnone := actualSizeLoop_never hhuge doublings
      (Or.inr ⟨0, Nat.zero_le 63, (Nat.pow_zero 2).symm⟩)
    unfold makeBuddyAllocator at hmake
    dsimp only at hmake
    split at hmake
    · cases hmake
    · rw [hnone] at hmake
      cases hmake
  · rcases makeBuddyAllocator_total hsmall h with ⟨made, hcall, hcase⟩
    rw [hmake] at hcall
    cases hcall
    rcases hcase with ⟨e, w', heq, _⟩ | ⟨t, heq, hmade⟩
    · cases heq
    · cases heq
      exact ⟨t, rfl, hmade⟩

namespace BuddyMade

variable {buffer size : Nat} {t : BuddyState χ}

theorem table_wellFormed (h : BuddyMade C L buffer size t) {b : Block}
    (hb : b ∈ t.ctx.tables) : b.WellFormed :=
  C.wellFormed h.blocks b (List.mem_append.mpr (Or.inl hb))

theorem order_ge (h : BuddyMade C L buffer size t) : 5 ≤ t.ctx.maxOrder :=
  h.shape.order_ge (Nat.ne_of_gt (h.table_wellFormed List.mem_cons_self).right.left)

theorem fresh (h : BuddyMade C L buffer size t)
    (hbuffer : buffer ≠ NULL -> Block.WellFormed ⟨buffer, t.ctx.totalSize⟩) :
    exists depth, BuddyFresh depth t.ctx := by
  rcases h.shape.rounded with ⟨k, hk, htotal, hmax, _⟩
  have hge := h.order_ge
  rw [hmax] at hge
  have hdepth : k - 5 + 5 = k := Nat.sub_add_cancel hge
  have hregion : Block.WellFormed t.ctx.region := by
    by_cases hnull : buffer = NULL
    · have hown : t.ctx.ownBuffer = true := by
        rw [h.shape.own, hnull]
        rfl
      apply C.wellFormed h.blocks
      unfold BuddyContext.ownBlocks
      rw [if_pos hown]
      exact List.mem_append.mpr (Or.inr List.mem_cons_self)
    · unfold BuddyContext.region
      rw [h.shape.buffer_eq hnull]
      exact hbuffer hnull
  refine ⟨k - 5,
    { geom :=
        { maxOrder := hmax.trans hdepth.symm
          totalSize := ?_
          minBlockSize := h.shape.minBlockSize
          region := hregion }
      freeLists := fun level => congrFun h.shape.freeLists level
      bitset := h.shape.bitset }⟩
  rw [hdepth]
  exact htotal

end BuddyMade

/-!
# Destroying
-/

/-- A block that goes back comes before those that go back later. -/
theorem buddyRelease_returns {b : Block} {K : List Block}
    (h : C.Inv s.child (K ++ b :: L)) :
    exists w, buddyRelease a b.ptr b.size s = some { s with child := w } ∧
      C.Inv w (K ++ L) ∧ forall bs w', Returns a C.Inv w bs w' ->
        Returns a C.Inv s.child (b :: bs) w' := by
  rcases buddyRelease_spec C.ledger h with ⟨w, hcall, hinv⟩
  refine ⟨w, hcall, hinv, ?_⟩
  intro bs w' hrest
  rcases Option.bind_eq_some_iff.mp hcall with ⟨v, hfree, heq⟩
  have hchild : v = w := congrArg BuddyState.child (Option.some.inj heq)
  rw [hchild] at hfree
  have htouch : C.Inv s.touch.child (K ++ b :: L) := C.note h trivial
  have hmem : b ∈ K ++ b :: L := List.mem_append_right K List.mem_cons_self
  exact Returns.touch s.self sizeofAllo (Returns.free htouch hmem hfree hrest)

/-- The tables go back, each with its size. -/
theorem buddyDestroyTables_spec (h : C.Inv s.child (s.ctx.tables ++ L)) :
    exists s', (do
        let s ←
          if s.ctx.freeListsPtr ≠ NULL then
            buddyRelease a s.ctx.freeListsPtr (sizeMul s.ctx.freeListsCount 8) s
          else some s.touch
        let s ←
          if s.ctx.bitsetPtr ≠ NULL then
            buddyRelease a s.ctx.bitsetPtr s.ctx.bitBytes s
          else some s.touch
        if s.ctx.blockOrdersPtr ≠ NULL then
          buddyRelease a s.ctx.blockOrdersPtr s.ctx.blockOrdersLen s
        else some s.touch) = some s' ∧ C.Inv s'.child L ∧
          Returns a C.Inv s.child s.ctx.tables.reverse s'.child := by
  have hne : forall b, b ∈ s.ctx.tables -> b.ptr ≠ NULL := fun b hb =>
    Nat.ne_of_gt (C.wellFormed h b (List.mem_append.mpr (Or.inl hb))).left
  have horders := hne _ List.mem_cons_self
  have hbits := hne _ (List.mem_cons_of_mem _ List.mem_cons_self)
  have hlists :=
    hne _ (List.mem_cons_of_mem _ (List.mem_cons_of_mem _ List.mem_cons_self))
  rcases buddyRelease_returns (K := [⟨s.ctx.blockOrdersPtr, s.ctx.blockOrdersLen⟩,
    ⟨s.ctx.bitsetPtr, s.ctx.bitBytes⟩]) h with ⟨w₂, hcall₂, hinv₂, hback₂⟩
  rcases buddyRelease_returns (s := { s with child := w₂ })
      (K := [⟨s.ctx.blockOrdersPtr, s.ctx.blockOrdersLen⟩]) hinv₂ with
    ⟨w₃, hcall₃, hinv₃, hback₃⟩
  rcases buddyRelease_returns (s := { s with child := w₃ }) (K := []) hinv₃ with
    ⟨w₄, hcall₄, hinv₄, hback₄⟩
  refine ⟨{ s with child := w₄ }, ?_, hinv₄,
    hback₂ _ _ (hback₃ _ _ (hback₄ _ _ (Returns.done w₄)))⟩
  dsimp only at hcall₂ hcall₃ hcall₄ horders hbits hlists ⊢
  rw [if_pos hlists, hcall₂]
  dsimp only [Option.bind_eq_bind, Option.bind_some]
  rw [if_pos hbits, hcall₃]
  dsimp only [Option.bind_eq_bind, Option.bind_some]
  rw [if_pos horders, hcall₄]

/-- Every block the constructor obtained goes back, with its size. -/
theorem buddyDestroyFn_returns
    (h : C.Inv s.child (s.ctx.tables ++ (s.ctx.ownBlocks ++ L))) :
    exists s', buddyDestroyFn a s = some s' ∧ C.Inv s'.child L ∧
      Returns a C.Inv s.child (s.ctx.ownBlocks ++ s.ctx.tables.reverse) s'.child := by
  unfold buddyDestroyFn
  dsimp only
  by_cases hown : s.ctx.ownBuffer = true
  · unfold BuddyContext.ownBlocks at h ⊢
    rw [if_pos hown] at h ⊢
    have hmem : s.ctx.region ∈ s.ctx.tables ++ ([s.ctx.region] ++ L) :=
      List.mem_append.mpr (Or.inr List.mem_cons_self)
    have hne : s.ctx.buffer ≠ NULL := Nat.ne_of_gt (C.wellFormed h _ hmem).left
    rcases buddyRelease_returns (b := s.ctx.region) h with ⟨w, hcall, hinv, hback⟩
    have hcall' : buddyRelease a s.ctx.buffer s.ctx.totalSize s =
        some { s with child := w } := hcall
    rw [if_pos ⟨hown, hne⟩, hcall']
    rcases buddyDestroyTables_spec (s := { s with child := w }) hinv with
      ⟨s', hdestroy, hdone, hreturns⟩
    exact ⟨s', hdestroy, hdone, hback _ _ hreturns⟩
  · unfold BuddyContext.ownBlocks at h ⊢
    rw [if_neg hown] at h ⊢
    rw [if_neg (fun hboth => hown hboth.left)]
    rcases buddyDestroyTables_spec (s := s.touch) (C.note h trivial) with
      ⟨s', hdestroy, hdone, hreturns⟩
    exact ⟨s', hdestroy, hdone, Returns.touch s.self sizeofAllo hreturns⟩

theorem buddyDestroyFn_spec
    (h : C.Inv s.child (s.ctx.tables ++ (s.ctx.ownBlocks ++ L))) :
    exists s', buddyDestroyFn a s = some s' ∧ C.Inv s'.child L := by
  rcases buddyDestroyFn_returns h with ⟨s', hcall, hinv, _⟩
  exact ⟨s', hcall, hinv⟩

end Make

end Liballo
