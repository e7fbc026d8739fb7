import Liballo.Buddy.Geometry

/-!
# What a buddy allocator represents

A state represents free lists, used nodes, a set of marked nodes (those whose bit is
set) and a set of unpoisoned bytes. The primitive operations of the source change one
of these parts each. Between two calls the marked nodes are the free ones, and the
unpoisoned bytes are those of the used blocks and of the headers of the free ones.
-/

namespace Liballo

open Foundation

section Rep

variable {χ : Type} [HasMem χ]

structure BuddyRep (asan : Prop) (depth : Nat) (s : BuddyState χ)
    (fl : Nat -> List Nat) (us : List Node) (N : Set Node) (O : Set Nat) :
    Prop where
  geom : BuddyGeom depth s.ctx
  lists : FreeLists s.ctx (mem s) fl
  tiled : Tiled depth (FreeNodes fl) us
  marked : forall n, n ∈ N -> n.Valid depth
  bits : forall k, HasBit s.ctx.bitset k <->
    exists n, n ∈ N ∧ nodeIndex n.level n.index = k
  shadow : asan -> forall x, s.ctx.region.Contains x ->
    (poisoned (mem s).trace x = false <-> x ∈ O)

/-- From `s` the allocator came to a state that represents this, writing in the
headers of the nodes `W` only. -/
structure BuddyStep (asan : Prop) (depth : Nat) (W : Set Node)
    (s t : BuddyState χ) (fl : Nat -> List Nat) (us : List Node) (N : Set Node)
    (O : Set Nat) : Prop where
  rep : BuddyRep asan depth t fl us N O
  moved : BuddyMoved asan (HeaderOf s.ctx W) s t

variable {asan : Prop} {depth : Nat} {W : Set Node} {s t u : BuddyState χ}
variable {fl fl' : Nat -> List Nat} {us us' : List Node} {N N' : Set Node}
variable {O O' : Set Nat} {n : Node}

/-!
# Contexts that agree on the geometry
-/

namespace BuddyMoved

variable {P : Nat -> Nat -> Prop}

theorem maxOrder (h : BuddyMoved asan P s t) : t.ctx.maxOrder = s.ctx.maxOrder := by
  rcases h.ctx with ⟨f, b, o, hctx⟩
  rw [hctx]

theorem buffer (h : BuddyMoved asan P s t) : t.ctx.buffer = s.ctx.buffer := by
  rcases h.ctx with ⟨f, b, o, hctx⟩
  rw [hctx]

theorem minBlockSize (h : BuddyMoved asan P s t) :
    t.ctx.minBlockSize = s.ctx.minBlockSize := by
  rcases h.ctx with ⟨f, b, o, hctx⟩
  rw [hctx]

theorem region (h : BuddyMoved asan P s t) : t.ctx.region = s.ctx.region := by
  rcases h.ctx with ⟨f, b, o, hctx⟩
  rw [hctx]
  rfl

theorem nodeBlock (h : BuddyMoved asan P s t) (k : Node) :
    t.ctx.nodeBlock k = s.ctx.nodeBlock k := by
  unfold BuddyContext.nodeBlock
  rw [h.nodeAddr, h.maxOrder]

theorem header (h : BuddyMoved asan P s t) (k : Node) :
    t.ctx.header k = s.ctx.header k := by
  unfold BuddyContext.header
  rw [h.nodeAddr]

theorem headerOf (h : BuddyMoved asan P s t) (W : Set Node) :
    HeaderOf t.ctx W = HeaderOf s.ctx W := by
  funext x len
  unfold HeaderOf
  simp only [h.header]

end BuddyMoved

theorem BuddyRep.congr (h : BuddyRep asan depth s fl us N O) (hN : N = N')
    (hO : O = O') : BuddyRep asan depth s fl us N' O' := by
  subst hN hO
  exact h

/-!
# Primitive operations
-/

namespace BuddyStep

theorem refl (h : BuddyRep asan depth s fl us N O) (W : Set Node) :
    BuddyStep asan depth W s s fl us N O :=
  { rep := h
    moved := BuddyMoved.refl _ s }

theorem mono (h : BuddyStep asan depth W s t fl us N O) {V : Set Node}
    (hWV : W ⊆ V) : BuddyStep asan depth V s t fl us N O :=
  { rep := h.rep
    moved := h.moved.mono (fun _ _ hx => hx.mono hWV) }

theorem trans (h : BuddyStep asan depth W s t fl us N O)
    (h' : BuddyStep asan depth W t u fl' us' N' O') :
    BuddyStep asan depth W s u fl' us' N' O' := by
  have hmoved := h'.moved
  rw [h.moved.headerOf] at hmoved
  exact
    { rep := h'.rep
      moved := h.moved.trans hmoved }

theorem congr (h : BuddyStep asan depth W s t fl us N O) (hN : N = N')
    (hO : O = O') : BuddyStep asan depth W s t fl us N' O' := by
  subst hN hO
  exact h

/-- A node of the tree keeps its block. -/
theorem nodeAddr (h : BuddyStep asan depth W s t fl us N O) (k : Node) :
    t.ctx.nodeAddr k = s.ctx.nodeAddr k :=
  h.moved.nodeAddr k

/-- An event may change which bytes are accessible. -/
theorem noteShadow (h : BuddyStep asan depth W s t fl us N O) {e : Event}
    (he : e.WritesOnly (HeaderOf s.ctx W)) (ht : BuddyEvent asan (mem t).trace e)
    (hshadow : asan -> forall x, t.ctx.region.Contains x ->
      (poisoned (e :: (mem t).trace) x = false <-> x ∈ O')) :
    BuddyStep asan depth W s (t.note e) fl us N O' := by
  have hmem : mem (t.note e) = (mem t).note e := mem_buddyNote e t
  refine
    { rep :=
        { geom := h.rep.geom
          lists := ?_
          tiled := h.rep.tiled
          marked := h.rep.marked
          bits := h.rep.bits
          shadow := ?_ }
      moved := h.moved.trans (BuddyMoved.note he ht) }
  · rw [hmem]
    exact h.rep.lists
  · intro ha x hx
    rw [hmem, Mem.note_trace]
    exact hshadow ha x hx

theorem note (h : BuddyStep asan depth W s t fl us N O) {e : Event}
    (he : e.WritesOnly (HeaderOf s.ctx W))
    (ht : BuddyEvent asan (mem t).trace e)
    (hpoison : poisoned (e :: (mem t).trace) = poisoned (mem t).trace) :
    BuddyStep asan depth W s (t.note e) fl us N O := by
  apply h.noteShadow he ht
  intro ha x hx
  rw [hpoison]
  exact h.rep.shadow ha x hx

theorem index (h : BuddyStep asan depth W s t fl us N O) {i len : Nat}
    (hi : i < len) :
    BuddyStep asan depth W s (t.note (Event.index i len)) fl us N O :=
  h.note trivial hi rfl

theorem divide (h : BuddyStep asan depth W s t fl us N O) {d : Nat} (hd : d ≠ 0) :
    BuddyStep asan depth W s (t.note (Event.divide d)) fl us N O :=
  h.note trivial hd rfl

theorem touch (h : BuddyStep asan depth W s t fl us N O) :
    BuddyStep asan depth W s t.touch fl us N O :=
  h.note trivial trivial rfl

theorem poison (h : BuddyStep asan depth W s t fl us N O) (b : Block) :
    BuddyStep asan depth W s (t.note (Event.poison b.ptr b.size)) fl us N
      (O \ { x | b.Contains x }) := by
  refine h.noteShadow (e := Event.poison b.ptr b.size) trivial trivial ?_
  intro ha x hx
  have hold := h.rep.shadow ha x hx
  rw [poisoned_poison, Set.mem_sdiff, Set.mem_ofPred_eq]
  split
  · rename_i hin
    exact ⟨fun heq => absurd heq Bool.true_eq_false.mp, fun ho => absurd hin ho.right⟩
  · rename_i hout
    rw [hold]
    exact ⟨fun ho => ⟨ho, hout⟩, And.left⟩

theorem unpoison (h : BuddyStep asan depth W s t fl us N O) (b : Block) :
    BuddyStep asan depth W s (t.note (Event.unpoison b.ptr b.size)) fl us N
      (O ∪ { x | b.Contains x }) := by
  refine h.noteShadow (e := Event.unpoison b.ptr b.size) trivial trivial ?_
  intro ha x hx
  have hold := h.rep.shadow ha x hx
  rw [poisoned_unpoison, Set.mem_union, Set.mem_ofPred_eq]
  split
  · rename_i hin
    exact ⟨fun _ => Or.inr hin, fun _ => rfl⟩
  · rename_i hout
    rw [hold]
    exact ⟨Or.inl, fun ho => ho.resolve_right hout⟩

theorem setBit (h : BuddyStep asan depth W s t fl us N O) (hn : n.Valid depth) :
    BuddyStep asan depth W s (t.setBit (nodeIndex n.level n.index)) fl us
      (insert n N) O := by
  have hmem := mem_setBit (nodeIndex n.level n.index) t
  have hmoved : BuddyMoved asan (HeaderOf s.ctx W) t
      (t.setBit (nodeIndex n.level n.index)) :=
    BuddyMoved.setBit (h.rep.geom.bit_lt hn)
  refine
    { rep :=
        { geom := h.rep.geom.of_moved hmoved
          lists := ?_
          tiled := h.rep.tiled
          marked := ?_
          bits := ?_
          shadow := ?_ }
      moved := h.moved.trans hmoved }
  · rw [hmem]
    exact h.rep.lists
  · intro k hk
    rcases hk with rfl | hk
    · exact hn
    · exact h.rep.marked k hk
  · intro k
    show HasBit (Liballo.setBit t.ctx.bitset (nodeIndex n.level n.index)) k <-> _
    rw [hasBit_setBit, h.rep.bits k]
    constructor
    · intro hk
      rcases hk with ⟨m, hm, hindex⟩ | heq
      · exact ⟨m, Set.mem_insert_of_mem n hm, hindex⟩
      · exact ⟨n, Set.mem_insert n N, heq.symm⟩
    · intro hk
      rcases hk with ⟨m, rfl | hm, hindex⟩
      · exact Or.inr hindex.symm
      · exact Or.inl ⟨m, hm, hindex⟩
  · rw [hmem]
    exact h.rep.shadow

theorem clearBit (h : BuddyStep asan depth W s t fl us N O) (hn : n.Valid depth) :
    BuddyStep asan depth W s (t.clearBit (nodeIndex n.level n.index)) fl us
      (N \ {n}) O := by
  have hmem := mem_clearBit (nodeIndex n.level n.index) t
  have hmoved : BuddyMoved asan (HeaderOf s.ctx W) t
      (t.clearBit (nodeIndex n.level n.index)) :=
    BuddyMoved.clearBit (h.rep.geom.bit_lt hn)
  refine
    { rep :=
        { geom := h.rep.geom.of_moved hmoved
          lists := ?_
          tiled := h.rep.tiled
          marked := fun k hk => h.rep.marked k hk.left
          bits := ?_
          shadow := ?_ }
      moved := h.moved.trans hmoved }
  · rw [hmem]
    exact h.rep.lists
  · intro k
    show HasBit (Liballo.clearBit t.ctx.bitset (nodeIndex n.level n.index)) k <-> _
    rw [hasBit_clearBit, h.rep.bits k]
    constructor
    · intro hk
      rcases hk with ⟨⟨m, hm, hindex⟩, hne⟩
      refine ⟨m, ⟨hm, ?_⟩, hindex⟩
      intro heq
      rw [Set.mem_singleton_iff.mp heq] at hindex
      exact hne hindex.symm
    · intro hk
      rcases hk with ⟨m, ⟨hm, hmn⟩, hindex⟩
      refine ⟨⟨m, hm, hindex⟩, ?_⟩
      intro heq
      rw [← hindex] at heq
      exact hmn (BuddyGeom.eq_of_nodeIndex (h.rep.marked m hm) hn heq)
  · rw [hmem]
    exact h.rep.shadow

theorem setBlockOrder (h : BuddyStep asan depth W s t fl us N O) {i : Nat}
    (level : Nat) (hi : i < t.ctx.blockOrdersLen) :
    BuddyStep asan depth W s (t.setBlockOrder i level) fl us N O := by
  have hmem : mem (t.setBlockOrder i level) =
      (mem t).note (Event.index i t.ctx.blockOrdersLen) := mem_modifyMem _ _
  have hmoved : BuddyMoved asan (HeaderOf s.ctx W) t (t.setBlockOrder i level) :=
    BuddyMoved.setBlockOrder level hi
  refine
    { rep :=
        { geom := h.rep.geom.of_moved hmoved
          lists := ?_
          tiled := h.rep.tiled
          marked := h.rep.marked
          bits := h.rep.bits
          shadow := ?_ }
      moved := h.moved.trans hmoved }
  · rw [hmem]
    exact h.rep.lists
  · rw [hmem]
    exact h.rep.shadow

/-!
# Pushing and removing
-/

/-- A node that is pushed leaves the used ones or is new. -/
theorem push (h : BuddyStep asan depth W s t fl us N O)
    (htiled : Tiled depth (insert n (FreeNodes fl)) us') (hn : n ∉ FreeNodes fl)
    (hW : insert n (FreeNodes fl) ⊆ W)
    (hopen : forall k, k ∈ insert n (FreeNodes fl) ->
      forall x, (s.ctx.header k).Contains x -> x ∈ O) :
    BuddyStep asan depth W s (listPush n.level (s.ctx.nodeAddr n) t)
      (Function.update fl n.level (n.index :: fl n.level)) us' N O := by
  have hvalid := htiled.free_valid n (Set.mem_insert n _)
  have hbare : asan -> forall k, k ∈ insert n (FreeNodes fl) ->
      Unpoisoned (mem t) (t.ctx.header k) := by
    intro ha k hk x hx
    have hkvalid := htiled.free_valid k hk
    have hregion := (h.rep.geom.nodeBlock_inside hkvalid).contains
      ((h.rep.geom.header_inside hkvalid).contains hx)
    rw [h.moved.header] at hx
    exact (h.rep.shadow ha x hregion).mpr (hopen k hk x hx)
  have hpush := listPush_spec h.rep.lists (h.rep.geom.spread_free htiled) hn
    (h.rep.geom.level_lt hvalid) hbare
  rw [h.nodeAddr] at hpush
  rcases hpush with ⟨hlists, hmoved⟩
  have hsteps : BuddyMoved asan (HeaderOf s.ctx W) t
      (listPush n.level (s.ctx.nodeAddr n) t) := by
    rw [← h.moved.headerOf]
    exact hmoved.mono (fun _ _ hx => hx.mono hW)
  refine
    { rep :=
        { geom := h.rep.geom.of_moved hmoved
          lists := hlists
          tiled := ?_
          marked := h.rep.marked
          bits := h.rep.bits
          shadow := ?_ }
      moved := h.moved.trans hsteps }
  · rw [freeNodes_push]
    exact htiled
  · rw [poisoned_listPush]
    exact h.rep.shadow

/-- A node that is removed joins the used ones or is merged with one of them. -/
theorem remove (h : BuddyStep asan depth W s t fl us N O)
    (htiled : Tiled depth (FreeNodes fl \ {n}) us') (hn : n ∈ FreeNodes fl)
    (hW : FreeNodes fl ⊆ W)
    (hopen : forall k, k ∈ FreeNodes fl ->
      forall x, (s.ctx.header k).Contains x -> x ∈ O) :
    BuddyStep asan depth W s (listRemove n.level (s.ctx.nodeAddr n) t)
      (Function.update fl n.level ((fl n.level).erase n.index)) us' N O := by
  have hvalid := h.rep.tiled.free_valid n hn
  have hbare : asan -> forall k, k ∈ FreeNodes fl ->
      Unpoisoned (mem t) (t.ctx.header k) := by
    intro ha k hk x hx
    have hkvalid := h.rep.tiled.free_valid k hk
    have hregion := (h.rep.geom.nodeBlock_inside hkvalid).contains
      ((h.rep.geom.header_inside hkvalid).contains hx)
    rw [h.moved.header] at hx
    exact (h.rep.shadow ha x hregion).mpr (hopen k hk x hx)
  have hremove := listRemove_spec h.rep.lists
    (h.rep.geom.spread_free h.rep.tiled) hn (h.rep.geom.level_lt hvalid) hbare
  rw [h.nodeAddr] at hremove
  rcases hremove with ⟨hlists, hmoved⟩
  have hsteps : BuddyMoved asan (HeaderOf s.ctx W) t
      (listRemove n.level (s.ctx.nodeAddr n) t) := by
    rw [← h.moved.headerOf]
    exact hmoved.mono (fun _ _ hx => hx.mono hW)
  refine
    { rep :=
        { geom := h.rep.geom.of_moved hmoved
          lists := hlists
          tiled := ?_
          marked := ?_
          bits := ?_
          shadow := ?_ }
      moved := h.moved.trans hsteps }
  · rw [freeNodes_erase _ _ (h.rep.lists.nodup n.level)]
    exact htiled
  · exact h.rep.marked
  · rw [bitset_listRemove]
    exact h.rep.bits
  · rw [poisoned_listRemove, hmoved.region]
    exact h.rep.shadow

end BuddyStep

end Rep

end Liballo
