import Liballo.Buddy.Ops

/-!
# Live blocks of a buddy allocator

A live block takes the whole block of the node that its size and its address give.
The module restates the operations for the list of live blocks a client holds.
-/

namespace Liballo

open Foundation

/-- The node whose block serves `b`. -/
def BuddyContext.blockNode (c : BuddyContext) (b : Block) : Node :=
  ⟨c.maxOrder - c.order b.size, (b.ptr - c.buffer) / 2 ^ c.order b.size⟩

/-- The block of a granted request is served by its node. -/
theorem blockNode_eq {c : BuddyContext} {k : Node} {size : Nat}
    (horder : c.order size ≤ c.maxOrder) (hlevel : k.level = c.maxOrder - c.order size) :
    c.blockNode ⟨c.nodeAddr k, size⟩ = k := by
  have hexp : c.maxOrder - k.level = c.order size := by omega
  have hpos := Nat.two_pow_pos (c.order size)
  rcases k with ⟨level, i⟩
  dsimp only at hlevel hexp
  unfold BuddyContext.blockNode BuddyContext.nodeAddr Node.first
  dsimp only
  rw [Nat.add_sub_cancel_left, hexp, Nat.mul_div_cancel _ hpos, hlevel]

section Live

variable {χ : Type} [HasMem χ]

structure BuddyFits (c : BuddyContext) (b : Block) : Prop where
  positive : 0 < b.size
  size_lt : b.size < 2 ^ 64
  order : c.order b.size ≤ c.maxOrder
  addr : c.nodeAddr (c.blockNode b) = b.ptr

structure BuddyLive (asan : Prop) (depth : Nat) (s : BuddyState χ)
    (fl : Nat -> List Nat) (live : List Block) : Prop where
  inv : BuddyInv asan depth s fl (live.map s.ctx.blockNode)
  fits : forall b, b ∈ live -> BuddyFits s.ctx b

variable {asan : Prop} {depth : Nat} {s : BuddyState χ} {fl : Nat -> List Nat}
variable {live : List Block} {b : Block}

/-!
# Contexts that agree on the geometry
-/

section Congr

variable {P : Nat -> Nat -> Prop} {s' : BuddyState χ}

theorem BuddyMoved.order (h : BuddyMoved asan P s s') (size : Nat) :
    s'.ctx.order size = s.ctx.order size := by
  rcases h.ctx with ⟨f, o, t, hctx⟩
  rw [hctx]
  rfl

theorem BuddyMoved.blockNode (h : BuddyMoved asan P s s') :
    s'.ctx.blockNode = s.ctx.blockNode := by
  funext d
  unfold BuddyContext.blockNode
  rw [h.order, h.maxOrder, h.buffer]

theorem BuddyFits.of_moved (h : BuddyMoved asan P s s') (hb : BuddyFits s.ctx b) :
    BuddyFits s'.ctx b :=
  { positive := hb.positive
    size_lt := hb.size_lt
    order := by
      rw [h.order, h.maxOrder]
      exact hb.order
    addr := by
      rw [h.blockNode, h.nodeAddr]
      exact hb.addr }

end Congr

namespace BuddyLive

theorem node_valid (h : BuddyLive asan depth s fl live) (hb : b ∈ live) :
    (s.ctx.blockNode b).Valid depth :=
  h.inv.tiled.used_valid _ (List.mem_map_of_mem hb)

theorem block_inside (h : BuddyLive asan depth s fl live) (hb : b ∈ live) :
    b.Inside (s.ctx.nodeBlock (s.ctx.blockNode b)) := by
  have hfits := h.fits b hb
  have hsize := h.inv.geom.size_le hfits.size_lt
  have horder := hfits.order
  have hexp : s.ctx.maxOrder - (s.ctx.blockNode b).level = s.ctx.order b.size := by
    show s.ctx.maxOrder - (s.ctx.maxOrder - s.ctx.order b.size) = s.ctx.order b.size
    omega
  have hleaves : (s.ctx.blockNode b).leaves s.ctx.maxOrder =
      2 ^ s.ctx.order b.size := by
    unfold Node.leaves
    rw [hexp]
  have haddr := hfits.addr
  simp only [Block.Inside, Block.stop, BuddyContext.nodeBlock]
  rw [haddr, hleaves]
  omega

/-- Writes in the headers of free nodes avoid the live blocks. -/
theorem header_apart (h : BuddyLive asan depth s fl live) (hb : b ∈ live)
    {x n : Nat} (hx : HeaderOf s.ctx (FreeNodes fl) x n) : b.Disjoint ⟨x, n⟩ := by
  rcases hx with ⟨k, hk, hinside⟩
  have hkvalid := h.inv.tiled.free_valid k hk
  have hapart := h.inv.tiled.apart k hk _ (List.mem_map_of_mem hb)
  have hdisjoint := h.inv.geom.nodeBlock_disjoint hkvalid (h.node_valid hb) hapart
  have hheader := hinside.trans (h.inv.geom.header_inside hkvalid)
  exact (h.block_inside hb).disjoint (hheader.disjoint hdisjoint).symm

theorem wellFormed (h : BuddyLive asan depth s fl live) : AllWellFormed live := by
  intro b hb
  have hinside := h.block_inside hb
  have hblock := h.inv.geom.nodeBlock_wellFormed (h.node_valid hb)
  have hpos := (h.fits b hb).positive
  simp only [Block.WellFormed, Block.Inside, Block.stop] at *
  omega

theorem disjoint (h : BuddyLive asan depth s fl live) : AllDisjoint live := by
  have hapart : live.Pairwise
      (fun b d => (s.ctx.blockNode b).Apart (s.ctx.blockNode d)) :=
    List.pairwise_map.mp h.inv.tiled.used_apart
  refine hapart.imp_of_mem ?_
  intro b d hb hd hnodes
  have hblocks := h.inv.geom.nodeBlock_disjoint (h.node_valid hb) (h.node_valid hd)
    hnodes
  exact (h.block_inside hb).disjoint ((h.block_inside hd).disjoint hblocks.symm).symm

theorem ptr_ne_null (h : BuddyLive asan depth s fl live) (hb : b ∈ live) :
    b.ptr ≠ NULL :=
  Nat.ne_of_gt (h.wellFormed b hb).left

theorem perm (h : BuddyLive asan depth s fl live) {L : List Block}
    (hperm : live.Perm L) : BuddyLive asan depth s fl L :=
  { inv :=
      { geom := h.inv.geom
        lists := h.inv.lists
        tiled := h.inv.tiled.perm (hperm.map s.ctx.blockNode)
        marked := h.inv.marked
        bits := h.inv.bits
        shadow := fun ha x hx => by
          have hsame : forall n, n ∈ L.map s.ctx.blockNode <->
              n ∈ live.map s.ctx.blockNode :=
            fun n => (hperm.map s.ctx.blockNode).symm.mem_iff
          have hopen : OpenBytes s.ctx (FreeNodes fl) (L.map s.ctx.blockNode) =
              OpenBytes s.ctx (FreeNodes fl) (live.map s.ctx.blockNode) := by
            unfold OpenBytes
            simp only [hsame]
          rw [hopen]
          exact h.inv.shadow ha x hx }
    fits := fun b hb => h.fits b (hperm.mem_iff.mpr hb) }

theorem refused {s' : BuddyState χ} (h : BuddyLive asan depth s fl live)
    (hrefused : BuddyRefused asan s s') : BuddyLive asan depth s' fl live :=
  { inv := by
      rw [hrefused.moved.blockNode]
      exact hrefused.inv h.inv
    fits := fun b hb => (h.fits b hb).of_moved hrefused.moved }

/-- A granted block joins the live ones. -/
theorem granted {s' : BuddyState χ} {fl' : Nat -> List Nat} {size p : Nat}
    {k : Node} (h : BuddyLive asan depth s fl live) (hsize : size < 2 ^ 64)
    (hgrant : BuddyGranted asan depth s fl (live.map s.ctx.blockNode) size p s'
      fl' k) :
    p ≠ NULL ∧ BuddyLive asan depth s' fl' (⟨p, size⟩ :: live) := by
  have hnode : s.ctx.blockNode ⟨p, size⟩ = k := by
    rw [hgrant.addr]
    exact blockNode_eq hgrant.order hgrant.level
  have hfits : BuddyFits s.ctx ⟨p, size⟩ :=
    { positive := Nat.pos_of_ne_zero hgrant.positive
      size_lt := hsize
      order := hgrant.order
      addr := by rw [hnode, hgrant.addr] }
  have hlive : BuddyLive asan depth s' fl' (⟨p, size⟩ :: live) :=
    { inv := by
        rw [hgrant.moved.blockNode, List.map_cons, hnode]
        exact hgrant.inv
      fits := by
        intro b hb
        cases hb with
        | head => exact hfits.of_moved hgrant.moved
        | tail _ hb => exact (h.fits b hb).of_moved hgrant.moved }
  exact ⟨hlive.ptr_ne_null List.mem_cons_self, hlive⟩

/-- Stores that avoid the free headers and poison nothing are invisible. -/
theorem store (h : BuddyLive asan depth s fl live) {P : Nat -> Nat -> Prop}
    {m : Mem} (hw : Wrote P (mem s) m)
    (hP : forall x n, P x n -> forall k, k ∈ FreeNodes fl ->
      (s.ctx.header k).Disjoint ⟨x, n⟩)
    (hshadow : asan -> poisoned m.trace = poisoned (mem s).trace) :
    BuddyLive asan depth (setMem m s) fl live := by
  have hmem : mem (setMem m s) = m := HasMem.mem_setMem m s
  have hword : forall k, k ∈ FreeNodes fl -> forall i, i ≤ 8 ->
      m.word (s.ctx.nodeAddr k + i) = (mem s).word (s.ctx.nodeAddr k + i) := by
    intro k hk i hi
    apply hw.word_eq
    intro x n hxn
    have hdisjoint := hP x n hxn k hk
    simp only [Block.Disjoint, Block.stop, BuddyContext.header,
      sizeofBuddyNode] at hdisjoint
    omega
  refine
    { inv :=
        { geom := h.inv.geom
          lists := ?_
          tiled := h.inv.tiled
          marked := h.inv.marked
          bits := h.inv.bits
          shadow := ?_ }
      fits := h.fits }
  · rw [hmem]
    refine h.inv.lists.congr (fun _ => rfl) rfl ?_ ?_
    · exact fun k hk => hword k hk 0 (by decide)
    · exact fun k hk => hword k hk 8 (by decide)
  · intro ha
    rw [hmem, hshadow ha]
    exact h.inv.shadow ha

/-- Another state of the child with the same bytes in the managed buffer. -/
theorem child_congr (h : BuddyLive False depth s fl live) {w : χ}
    (hbytes : forall x, s.ctx.region.Contains x ->
      (mem w).bytes x = (mem s).bytes x) :
    BuddyLive False depth { s with child := w } fl live := by
  have hword : forall k, k ∈ FreeNodes fl -> forall a, s.ctx.nodeAddr k ≤ a ->
      a + 8 ≤ s.ctx.nodeAddr k + 16 -> (mem w).word a = (mem s).word a := by
    intro k hk a hle hend
    have hvalid := h.inv.tiled.free_valid k hk
    have hinside := (h.inv.geom.header_inside hvalid).trans
      (h.inv.geom.nodeBlock_inside hvalid)
    apply Mem.word_congr
    intro x hx hlt
    apply hbytes
    apply hinside.contains
    simp only [Block.Contains, Block.stop, BuddyContext.header, sizeofBuddyNode]
    omega
  exact
    { inv :=
        { geom := h.inv.geom
          lists := h.inv.lists.congr (fun _ => rfl) rfl
            (fun k hk => hword k hk _ (Nat.le_refl _) (by omega))
            (fun k hk => hword k hk _ (by omega) (by omega))
          tiled := h.inv.tiled
          marked := h.inv.marked
          bits := h.inv.bits
          shadow := fun hno => absurd hno not_false }
      fits := h.fits }

/-- Stores inside live blocks. -/
theorem store_inside (h : BuddyLive asan depth s fl live)
    {P : Nat -> Nat -> Prop} {m : Mem} (hw : Wrote P (mem s) m)
    (hP : forall x n, P x n -> exists b, b ∈ live ∧ Block.Inside ⟨x, n⟩ b)
    (hshadow : asan -> poisoned m.trace = poisoned (mem s).trace) :
    BuddyLive asan depth (setMem m s) fl live := by
  apply h.store hw _ hshadow
  intro x n hxn k hk
  rcases hP x n hxn with ⟨b, hb, hinside⟩
  have hself : HeaderOf s.ctx (FreeNodes fl) (s.ctx.header k).ptr
      (s.ctx.header k).size := ⟨k, hk, Nat.le_refl _, Nat.le_refl _⟩
  exact (hinside.disjoint (h.header_apart hb hself)).symm

/-- Blocks live before and after a step that writes in free headers only. -/
theorem header_apart_both {s' : BuddyState χ} {fl' : Nat -> List Nat}
    {live' : List Block} {P : Nat -> Nat -> Prop}
    (h : BuddyLive asan depth s fl live) (h' : BuddyLive asan depth s' fl' live')
    (hmoved : BuddyMoved asan P s s') (hb : b ∈ live) (hb' : b ∈ live')
    {x n : Nat} (hx : HeaderOf s.ctx (FreeNodes fl ∪ FreeNodes fl') x n) :
    b.Disjoint ⟨x, n⟩ := by
  rcases hx with ⟨k, hk | hk, hinside⟩
  · exact h.header_apart hb ⟨k, hk, hinside⟩
  · apply h'.header_apart hb'
    rw [hmoved.headerOf]
    exact ⟨k, hk, hinside⟩

/-- The headers of free blocks lie in the managed buffer. -/
theorem headers_inside {s' : BuddyState χ} {fl' : Nat -> List Nat}
    {live' : List Block} (h : BuddyLive asan depth s fl live)
    (h' : BuddyLive asan depth s' fl' live') {x n : Nat}
    (hx : HeaderOf s.ctx (FreeNodes fl ∪ FreeNodes fl') x n) :
    Block.Inside ⟨x, n⟩ s.ctx.region := by
  rcases hx with ⟨k, hk, hinside⟩
  have hvalid : k.Valid depth :=
    hk.elim (h.inv.tiled.free_valid k) (h'.inv.tiled.free_valid k)
  exact (hinside.trans (h.inv.geom.header_inside hvalid)).trans
    (h.inv.geom.nodeBlock_inside hvalid)

theorem keeps {s' : BuddyState χ} {fl' : Nat -> List Nat} {live' L : List Block}
    (h : BuddyLive asan depth s fl live) (h' : BuddyLive asan depth s' fl' live')
    (hmoved : BuddyMoved asan (HeaderOf s.ctx (FreeNodes fl ∪ FreeNodes fl')) s s')
    (hL : forall b, b ∈ L -> b ∈ live ∧ b ∈ live') :
    KeepsBytes L (mem s) (mem s') := by
  apply KeepsBytes.of_wrote hmoved.wrote
  intro x n hx b hb
  exact h.header_apart_both h' hmoved (hL b hb).left (hL b hb).right hx

/-!
# Operations on live blocks
-/

theorem alloc (h : BuddyLive asan depth s fl live) {n : Nat} (hn : n < 2 ^ 64) :
    exists p s', buddyAllocFn n s = (p, s') ∧ KeepsBytes live (mem s) (mem s') ∧
      (p = NULL ∧ BuddyRefused asan s s' ∧ BuddyLive asan depth s' fl live ∨
        p ≠ NULL ∧ exists fl', BuddyLive asan depth s' fl' (⟨p, n⟩ :: live) ∧
          BuddyMoved asan (HeaderOf s.ctx (FreeNodes fl ∪ FreeNodes fl')) s s') := by
  rcases buddyAllocFn_spec h.inv n with ⟨p, s', hcall, hcase⟩
  refine ⟨p, s', hcall, ?_⟩
  rcases hcase with ⟨hnull, hrefused, _⟩ | ⟨fl', k, hgrant⟩
  · refine ⟨?_, Or.inl ⟨hnull, hrefused, h.refused hrefused⟩⟩
    intro b _ x _
    rw [hrefused.bytes]
  · rcases h.granted hn hgrant with ⟨hne, hlive⟩
    refine ⟨?_, Or.inr ⟨hne, fl', hlive, hgrant.moved⟩⟩
    apply h.keeps hlive hgrant.moved
    exact fun b hb => ⟨hb, List.mem_cons_of_mem _ hb⟩

theorem free (h : BuddyLive asan depth s fl live) (hb : b ∈ live) :
    exists s' fl', buddyFreeFn b.ptr b.size s = some s' ∧
      BuddyLive asan depth s' fl' (live.erase b) ∧
        KeepsBytes (live.erase b) (mem s) (mem s') ∧
          BuddyMoved asan (HeaderOf s.ctx (FreeNodes fl ∪ FreeNodes fl')) s s' := by
  have hperm := h.perm (List.perm_cons_erase hb)
  have hfits := h.fits b hb
  have hinv := hperm.inv
  rw [List.map_cons] at hinv
  rcases buddyFreeFn_spec hinv hfits.order rfl with ⟨s', fl', hcall, hfreed⟩
  rw [hfits.addr] at hcall
  have hlive : BuddyLive asan depth s' fl' (live.erase b) :=
    { inv := by
        rw [hfreed.moved.blockNode]
        exact hfreed.inv
      fits := fun d hd =>
        (h.fits d (List.mem_of_mem_erase hd)).of_moved hfreed.moved }
  refine ⟨s', fl', hcall, hlive, ?_, hfreed.moved⟩
  apply h.keeps hlive hfreed.moved
  exact fun d hd => ⟨List.mem_of_mem_erase hd, hd⟩

end BuddyLive

/-- A reallocation moved the block `b` to `p`. -/
structure BuddyReallocated (asan : Prop) (depth : Nat) (s : BuddyState χ)
    (fl : Nat -> List Nat) (live : List Block) (b : Block) (n p : Nat)
    (s' : BuddyState χ) (fl' : Nat -> List Nat) : Prop where
  ptr_ne : p ≠ NULL
  apart : b.Disjoint ⟨p, n⟩
  inv : BuddyLive asan depth s' fl' (⟨p, n⟩ :: live.erase b)
  moved : BuddyMoved asan (fun x len =>
    HeaderOf s.ctx (FreeNodes fl ∪ FreeNodes fl') x len ∨
      x = p ∧ len = min b.size n) s s'
  kept : KeepsPrefix b.ptr p (min b.size n) (mem s) (mem s')
  others : KeepsBytes (live.erase b) (mem s) (mem s')

namespace BuddyLive

/-- Copying from one live block into another. -/
theorem copy {c d : Block} {len : Nat} (h : BuddyLive asan depth s fl live)
    (hc : c ∈ live) (hd : d ∈ live) (hne : c.Disjoint d) (hlenc : len ≤ c.size)
    (hlend : len ≤ d.size) :
    alloMemcpy d.ptr c.ptr len (mem s) = some ((mem s).copy d.ptr c.ptr len) ∧
      BuddyLive asan depth (setMem ((mem s).copy d.ptr c.ptr len) s) fl live ∧
        BuddyMoved asan (fun x k => x = d.ptr ∧ k = len) s
          (setMem ((mem s).copy d.ptr c.ptr len) s) := by
  have hcw := h.wellFormed c hc
  have hdw := h.wellFormed d hd
  have hopen : forall e, e ∈ live -> asan -> Unpoisoned (mem s) e := by
    intro e he ha x hx
    have hnode := (h.block_inside he).contains hx
    have hregion := (h.inv.geom.nodeBlock_inside (h.node_valid he)).contains hnode
    exact (h.inv.shadow ha x hregion).mpr
      (Or.inl ⟨_, List.mem_map_of_mem he, hnode⟩)
  have hcopied : Wrote (fun x k => x = d.ptr ∧ k = len) (mem s)
      ((mem s).copy d.ptr c.ptr len) := Wrote.copy ⟨rfl, rfl⟩
  refine ⟨?_, ?_, ?_⟩
  · exact alloMemcpy_blocks hcw hdw hne hlenc hlend
  · apply h.store_inside hcopied
    · intro x k hxk
      refine ⟨d, hd, ?_⟩
      rw [hxk.left, hxk.right]
      exact ⟨Nat.le_refl _, Nat.add_le_add_left hlend d.ptr⟩
    · exact fun _ => rfl
  · apply BuddyMoved.modify (f := fun m => m.copy d.ptr c.ptr len) hcopied
    have hread : Traced (BuddyEvent asan) (mem s)
        ((mem s).note (Event.read c.ptr len)) := by
      apply Traced.event rfl
      intro ha
      exact (hopen c hc ha).inside ⟨Nat.le_refl _, Nat.add_le_add_left hlenc c.ptr⟩
    apply hread.trans
    apply Traced.event rfl
    intro ha
    exact (hopen d hd ha).inside ⟨Nat.le_refl _, Nat.add_le_add_left hlend d.ptr⟩

/-- The node of a live block is known by the context before a step. -/
theorem tiled_moved {s' : BuddyState χ} {fl' : Nat -> List Nat} {live' : List Block}
    {P : Nat -> Nat -> Prop} (h' : BuddyLive asan depth s' fl' live')
    (hmoved : BuddyMoved asan P s s') :
    Tiled depth (FreeNodes fl') (live'.map s.ctx.blockNode) := by
  rw [← hmoved.blockNode]
  exact h'.inv.tiled

theorem inside_region (h : BuddyLive asan depth s fl live) (hb : b ∈ live) :
    b.Inside s.ctx.region :=
  (h.block_inside hb).trans (h.inv.geom.nodeBlock_inside (h.node_valid hb))

theorem region_contains (h : BuddyLive asan depth s fl live) (hb : b ∈ live) {x : Nat}
    (hx : b.Contains x) : s.ctx.region.Contains x :=
  (h.inside_region hb).contains hx

/-- The new block is taken while the node of the old one is still in use. -/
theorem realloc_apart (h : BuddyLive asan depth s fl live) (hb : b ∈ live) {n p : Nat}
    {s' : BuddyState χ} (hpos : n ≠ 0) (hn : n < 2 ^ 64)
    (hcall : buddyReallocFn b.ptr b.size n s = some (p, s')) (hp : p ≠ NULL) :
    (s.ctx.blockNode ⟨p, n⟩).Apart (s.ctx.blockNode b) := by
  rcases h.alloc hn with ⟨q, s₁, halloc, _, hcase⟩
  unfold buddyReallocFn at hcall
  by_cases hno : b.ptr ≠ NULL ∧ buddyContainsFn b.ptr s ≠ AlloContains.yes
  · rw [if_pos hno] at hcall
    cases hcall
  rw [if_neg hno, if_neg (h.ptr_ne_null hb), if_neg hpos, halloc] at hcall
  dsimp only at hcall
  by_cases hq : q = NULL
  · rw [if_pos hq] at hcall
    exact absurd (congrArg Prod.fst (Option.some.inj hcall)).symm hp
  · rw [if_neg hq] at hcall
    rcases Option.bind_eq_some_iff.mp hcall with ⟨m, _, hrest⟩
    rcases Option.bind_eq_some_iff.mp hrest with ⟨s₂, _, hdone⟩
    cases hdone
    rcases hcase with ⟨hnull, _⟩ | ⟨_, fl₁, hlive, hmoved⟩
    · exact absurd hnull hq
    · have hnodes := hlive.inv.tiled.used_apart
      rw [hmoved.blockNode, List.map_cons] at hnodes
      exact (List.pairwise_cons.mp hnodes).left _ (List.mem_map_of_mem hb)

theorem realloc (h : BuddyLive asan depth s fl live) (hb : b ∈ live) {n : Nat}
    (hpos : n ≠ 0) (hn : n < 2 ^ 64) :
    exists p s', buddyReallocFn b.ptr b.size n s = some (p, s') ∧
      (p = NULL ∧ BuddyRefused asan s s' ∧ BuddyLive asan depth s' fl live ∨
        exists fl', BuddyReallocated asan depth s fl live b n p s' fl') := by
  have hbw := h.wellFormed b hb
  have hyes : buddyContainsFn b.ptr s = AlloContains.yes := by
    apply (buddyContainsFn_iff h.inv.geom _).mpr
    exact h.region_contains hb ⟨Nat.le_refl _, Nat.lt_add_of_pos_right hbw.right.left⟩
  have hptr := h.ptr_ne_null hb
  have hmin := copySize_eq b.size n
  rcases h.alloc hn with ⟨p, s₁, halloc, hkeeps₁, hcase⟩
  rcases hcase with ⟨hnull, hrefused, hlive⟩ | ⟨hne, fl₁, hlive₁, hmoved₁⟩
  · refine ⟨NULL, s₁, ?_, Or.inl ⟨rfl, hrefused, hlive⟩⟩
    unfold buddyReallocFn
    simp only [hyes, ne_eq, not_true_eq_false, and_false, if_false, if_neg hptr,
      if_neg hpos, halloc, if_pos hnull]
  · have hb₁ : b ∈ (⟨p, n⟩ :: live : List Block) := List.mem_cons_of_mem _ hb
    have hfresh : forall d, d ∈ live -> d.Disjoint ⟨p, n⟩ :=
      fun d hd => ((List.pairwise_cons.mp hlive₁.disjoint).left d hd).symm
    rcases hlive₁.copy hb₁ List.mem_cons_self (hfresh b hb) (Nat.min_le_left b.size n)
      (Nat.min_le_right b.size n) with ⟨hcopy, hlive₂, hmoved₂⟩
    rcases hlive₂.free hb₁ with ⟨s', fl', hfree, hlive', hkeeps', hmoved'⟩
    have herase : (⟨p, n⟩ :: live : List Block).erase b = ⟨p, n⟩ :: live.erase b := by
      apply List.erase_cons_tail
      rw [beq_iff_eq]
      exact ((hfresh b hb).ne hbw.right.left).symm
    rw [herase] at hlive' hkeeps'
    rw [HasMem.mem_setMem] at hkeeps'
    have hcall : buddyReallocFn b.ptr b.size n s = some (p, s') := by
      unfold buddyReallocFn
      simp only [hyes, ne_eq, not_true_eq_false, and_false, if_false, if_neg hptr,
        if_neg hpos, halloc, if_neg hne, hmin, hcopy, Option.bind_eq_bind,
        Option.bind_some, hfree]
    have hany : BuddyMoved asan (fun _ _ => True) s s' :=
      ((hmoved₁.mono (fun _ _ _ => trivial)).trans
        (hmoved₂.mono (fun _ _ _ => trivial))).trans
          (hmoved'.mono (fun _ _ _ => trivial))
    -- A node that is free only in between is free before or after.
    have hstays : FreeNodes fl₁ ⊆ FreeNodes fl ∪ FreeNodes fl' := by
      intro k hk
      by_cases hold : k ∈ FreeNodes fl
      · exact Or.inl hold
      · have htiled₁ := hlive₁.tiled_moved hmoved₁
        have htiled' := hlive'.tiled_moved hany
        rw [List.map_cons] at htiled₁ htiled'
        refine Or.inr (htiled₁.free_stays htiled' ?_ h.inv.tiled hk hold)
        intro j hj
        exact List.map_subset s.ctx.blockNode List.erase_subset hj
    have hheaders₁ : HeaderOf s₁.ctx (FreeNodes fl₁ ∪ FreeNodes fl') =
        HeaderOf s.ctx (FreeNodes fl₁ ∪ FreeNodes fl') := hmoved₁.headerOf _
    have hwrites₁ : FreeNodes fl ∪ FreeNodes fl₁ ⊆ FreeNodes fl ∪ FreeNodes fl' :=
      Set.union_subset Set.subset_union_left hstays
    have hwrites' : FreeNodes fl₁ ∪ FreeNodes fl' ⊆ FreeNodes fl ∪ FreeNodes fl' :=
      Set.union_subset hstays Set.subset_union_right
    refine ⟨p, s', hcall, Or.inr ⟨fl',
      { ptr_ne := hne
        apart := hfresh b hb
        inv := hlive'
        moved := ?_
        kept := ?_
        others := ?_ }⟩⟩
    · apply BuddyMoved.trans _ (hmoved'.mono _)
      · exact (hmoved₁.mono (fun _ _ hx => Or.inl (hx.mono hwrites₁))).trans
          (hmoved₂.mono (fun _ _ hx => Or.inr hx))
      · intro x len hx
        have hx₁ : HeaderOf s₁.ctx (FreeNodes fl₁ ∪ FreeNodes fl') x len := hx
        rw [hheaders₁] at hx₁
        exact Or.inl (hx₁.mono hwrites')
    · exact KeepsPrefix.of_copy (hkeeps₁ b hb) (hkeeps' _ List.mem_cons_self)
    · have hothers : KeepsBytes (live.erase b) (mem s₁)
          ((mem s₁).copy p b.ptr (min b.size n)) :=
        KeepsBytes.copy (Nat.min_le_right b.size n)
          (fun d hd => hfresh d (List.mem_of_mem_erase hd))
      exact ((hkeeps₁.subset (fun _ hd => List.mem_of_mem_erase hd)).trans hothers).trans
        (hkeeps'.subset (fun _ hd => List.mem_cons_of_mem _ hd))

end BuddyLive

end Live

end Liballo
