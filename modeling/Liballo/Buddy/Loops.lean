import Liballo.Buddy.Invariant

/-!
# Splitting and merging

The two loops of the allocator keep what the state represents. A block is held while
it is split or merged: it is neither free nor handed out, and its node is the first of
the used ones.
-/

namespace Liballo

open Foundation

/-!
# Unpoisoned bytes
-/

/-- The bytes of the used blocks and of the headers of the free ones. -/
def OpenBytes (c : BuddyContext) (F : Set Node) (us : List Node) : Set Nat :=
  { x | (exists n, n ∈ us ∧ (c.nodeBlock n).Contains x) ∨
    exists n, n ∈ F ∧ (c.header n).Contains x }

section Open

variable {depth : Nat} {c : BuddyContext} {F : Set Node} {us : List Node} {n : Node}

theorem openBytes_header (hn : n ∈ F) {x : Nat} (hx : (c.header n).Contains x) :
    x ∈ OpenBytes c F us :=
  Or.inr ⟨n, hn, hx⟩

theorem openBytes_insert :
    OpenBytes c (insert n F) us = OpenBytes c F us ∪ { x | (c.header n).Contains x } := by
  ext x
  constructor
  · intro hx
    rcases hx with hused | ⟨m, rfl | hm, hx⟩
    · exact Or.inl (Or.inl hused)
    · exact Or.inr hx
    · exact Or.inl (Or.inr ⟨m, hm, hx⟩)
  · intro hx
    rcases hx with (hused | ⟨m, hm, hx⟩) | hx
    · exact Or.inl hused
    · exact Or.inr ⟨m, Set.mem_insert_of_mem n hm, hx⟩
    · exact Or.inr ⟨n, Set.mem_insert n F, hx⟩

theorem openBytes_take (hn : n ∈ F) :
    OpenBytes c (F \ {n}) us ∪ { x | (c.header n).Contains x } =
      OpenBytes c F us := by
  rw [← openBytes_insert]
  congr 1
  exact Set.insert_sdiff_self_of_mem hn

/-- A held block with its header open is opened as a whole. -/
theorem openBytes_use (hgeom : BuddyGeom depth c) (hn : n.Valid depth) :
    (OpenBytes c F us ∪ { x | (c.header n).Contains x }) ∪
        { x | (c.nodeBlock n).Contains x } = OpenBytes c F (n :: us) := by
  ext x
  constructor
  · intro hx
    rcases hx with ((⟨m, hm, hx⟩ | hfree) | hx) | hx
    · exact Or.inl ⟨m, List.mem_cons_of_mem n hm, hx⟩
    · exact Or.inr hfree
    · exact Or.inl ⟨n, List.mem_cons_self, (hgeom.header_inside hn).contains hx⟩
    · exact Or.inl ⟨n, List.mem_cons_self, hx⟩
  · intro hx
    rcases hx with ⟨m, hm, hx⟩ | hfree
    · cases hm with
      | head => exact Or.inr hx
      | tail _ hm => exact Or.inl (Or.inl (Or.inl ⟨m, hm, hx⟩))
    · exact Or.inl (Or.inl (Or.inr hfree))

/-- A used block is closed. -/
theorem openBytes_close (hgeom : BuddyGeom depth c) (htiled : Tiled depth F (n :: us)) :
    OpenBytes c F (n :: us) \ { x | (c.nodeBlock n).Contains x } =
      OpenBytes c F us := by
  rcases List.pairwise_cons.mp htiled.used_apart with ⟨hhead, _⟩
  have hvalid := htiled.used_valid n List.mem_cons_self
  ext x
  constructor
  · intro hx
    rcases hx with ⟨⟨m, hm, hmx⟩ | hfree, hout⟩
    · cases hm with
      | head => exact absurd hmx hout
      | tail _ hm => exact Or.inl ⟨m, hm, hmx⟩
    · exact Or.inr hfree
  · intro hx
    rcases hx with ⟨m, hm, hmx⟩ | ⟨m, hm, hmx⟩
    · refine ⟨Or.inl ⟨m, List.mem_cons_of_mem n hm, hmx⟩, ?_⟩
      have hmvalid := htiled.used_valid m (List.mem_cons_of_mem n hm)
      exact (hgeom.nodeBlock_disjoint hvalid hmvalid (hhead m hm)).symm.not_contains
        hmx
    · refine ⟨Or.inr ⟨m, hm, hmx⟩, ?_⟩
      have hmvalid := htiled.free_valid m hm
      have happly := htiled.apart m hm n List.mem_cons_self
      exact (hgeom.nodeBlock_disjoint hmvalid hvalid happly).not_contains
        ((hgeom.header_inside hmvalid).contains hmx)

/-- The header of a free block is closed. -/
theorem openBytes_merge {vs : List Node} (hgeom : BuddyGeom depth c)
    (htiled : Tiled depth F vs) (hsub : forall m, m ∈ us -> m ∈ vs)
    (hn : n ∈ F) : OpenBytes c F us \ { x | (c.header n).Contains x } =
      OpenBytes c (F \ {n}) us := by
  have hvalid := htiled.free_valid n hn
  ext x
  constructor
  · intro hx
    rcases hx with ⟨hused | ⟨m, hm, hmx⟩, hout⟩
    · exact Or.inl hused
    · refine Or.inr ⟨m, ⟨hm, ?_⟩, hmx⟩
      intro heq
      rw [Set.mem_singleton_iff.mp heq] at hmx
      exact hout hmx
  · intro hx
    rcases hx with ⟨m, hm, hmx⟩ | ⟨m, hm, hmx⟩
    · refine ⟨Or.inl ⟨m, hm, hmx⟩, ?_⟩
      intro hnx
      exact (hgeom.nodeBlock_disjoint hvalid (htiled.used_valid m (hsub m hm))
        (htiled.apart n hn m (hsub m hm))).not_contains
          ((hgeom.header_inside hvalid).contains hnx) hmx
    · refine ⟨Or.inr ⟨m, hm.left, hmx⟩, ?_⟩
      intro hnx
      have hmvalid := htiled.free_valid m hm.left
      exact (hgeom.nodeBlock_disjoint hvalid hmvalid
        (htiled.free_apart n hn m hm.left (fun heq => hm.right heq.symm))).not_contains
          ((hgeom.header_inside hvalid).contains hnx)
          ((hgeom.header_inside hmvalid).contains hmx)

end Open

section Loops

variable {χ : Type} [HasMem χ] {asan : Prop} {depth : Nat}
variable {s : BuddyState χ} {fl : Nat -> List Nat} {us : List Node} {n : Node}

/-- Between two calls: exactly the free nodes are marked, and the bytes of the used
blocks and of the headers of the free ones are open. -/
def BuddyInv (asan : Prop) (depth : Nat) (s : BuddyState χ)
    (fl : Nat -> List Nat) (us : List Node) : Prop :=
  BuddyRep asan depth s fl us (FreeNodes fl) (OpenBytes s.ctx (FreeNodes fl) us)

theorem openBytes_moved {P : Nat -> Nat -> Prop} {s t : BuddyState χ}
    (h : BuddyMoved asan P s t) (F : Set Node) (us : List Node) :
    OpenBytes t.ctx F us = OpenBytes s.ctx F us := by
  unfold OpenBytes
  simp only [h.nodeBlock, h.header]

/-!
# Splitting
-/

/-- The right half of a held block becomes free and the left half is held. -/
theorem splitOnce_spec {W : Set Node} {t : BuddyState χ}
    (h : BuddyStep asan depth W s t fl (n :: us) (FreeNodes fl)
      (OpenBytes s.ctx (FreeNodes fl) us ∪ { x | (s.ctx.header n).Contains x }))
    (hlevel : n.level < depth) (hW : insert n.right (FreeNodes fl) ⊆ W) :
    exists fl', FreeNodes fl' = insert n.right (FreeNodes fl) ∧
      (forall j, j ≠ n.level + 1 -> fl' j = fl j) ∧
      BuddyStep asan depth W s
        (((listPush (n.level + 1) (s.ctx.nodeAddr n.right)
          (t.note (Event.unpoison (s.ctx.nodeAddr n.right) sizeofBuddyNode))).setBit
            (nodeIndex (n.level + 1) n.right.index)).clearBit
              (nodeIndex (n.level + 1) n.left.index))
        fl' (n.left :: us) (FreeNodes fl')
        (OpenBytes s.ctx (FreeNodes fl') us ∪
          { x | (s.ctx.header n.left).Contains x }) := by
  have hvalid := h.rep.tiled.used_valid n List.mem_cons_self
  have htiled := h.rep.tiled.split hlevel
  have hright := htiled.free_valid n.right (Set.mem_insert _ _)
  have hleft := htiled.used_valid n.left List.mem_cons_self
  have hnew : n.right ∉ FreeNodes fl := by
    intro hmem
    exact (h.rep.tiled.apart n.right hmem n List.mem_cons_self).left n.right_within
  have hopened := h.unpoison (s.ctx.header n.right)
  have hpushed := hopened.push (n := n.right) htiled hnew hW (by
    intro k hk x hx
    rcases hk with rfl | hk
    · exact Or.inr hx
    · exact Or.inl (Or.inl (openBytes_header hk hx)))
  have hmarked := (hpushed.setBit hright).clearBit hleft
  refine ⟨_, freeNodes_push fl n.right, fun j hj => Function.update_of_ne hj _ _,
    hmarked.congr ?_ ?_⟩
  · rw [freeNodes_push]
    apply Set.sdiff_singleton_eq_self
    intro hmem
    exact (htiled.apart n.left hmem n.left List.mem_cons_self).left
      (Node.within_refl n.left)
  · have hheader : s.ctx.header n.left = s.ctx.header n := by
      unfold BuddyContext.header
      rw [← h.nodeAddr, ← h.nodeAddr, h.rep.geom.nodeAddr_left hlevel]
    rw [freeNodes_push, openBytes_insert, hheader]
    exact Set.union_right_comm _ _ _

theorem splitLoop_spec {steps : Nat} {W : Set Node} {t : BuddyState χ}
    (h : BuddyStep asan depth W s t fl (n :: us) (FreeNodes fl)
      (OpenBytes s.ctx (FreeNodes fl) us ∪ { x | (s.ctx.header n).Contains x }))
    (hsteps : n.level + steps ≤ depth) :
    exists fl' k, k.level = n.level + steps ∧ k.Within n ∧
      s.ctx.nodeAddr k = s.ctx.nodeAddr n ∧ FreeNodes fl ⊆ FreeNodes fl' ∧
      (forall j, j ≤ n.level ∨ n.level + steps < j -> fl' j = fl j) ∧
      BuddyStep asan depth (W ∪ FreeNodes fl') s
        (splitLoop steps n.level (s.ctx.nodeAddr n) n.index t)
        fl' (k :: us) (FreeNodes fl')
        (OpenBytes s.ctx (FreeNodes fl') us ∪
          { x | (s.ctx.header k).Contains x }) := by
  induction steps generalizing n fl t W with
  | zero =>
      exact ⟨fl, n, rfl, Node.within_refl n, rfl, Set.Subset.rfl, fun _ _ => rfl,
        h.mono Set.subset_union_left⟩
  | succ steps ih =>
      have hlevel : n.level < depth := by omega
      have hvalid := h.rep.tiled.used_valid n List.mem_cons_self
      have hsub : insert n.right (FreeNodes fl) ⊆
          W ∪ insert n.right (FreeNodes fl) := Set.subset_union_right
      rcases splitOnce_spec (h.mono Set.subset_union_left) hlevel hsub with
        ⟨fl', hfree, hsame, hstep⟩
      have hdown : n.left.level + steps ≤ depth := by
        show n.level + 1 + steps ≤ depth
        omega
      rcases ih hstep hdown with ⟨fl'', k, hk, hwithin, haddr, hgrow, hkept, hrest⟩
      have hgeom := h.rep.geom
      have hnode : s.ctx.nodeAddr n.left = s.ctx.nodeAddr n := by
        rw [← h.nodeAddr, ← h.nodeAddr, hgeom.nodeAddr_left hlevel]
      have hbuddy : sizeAdd (s.ctx.nodeAddr n) (t.ctx.levelSize (n.level + 1)) =
          s.ctx.nodeAddr n.right := by
        rw [← h.nodeAddr, ← h.nodeAddr]
        exact hgeom.buddy_eq hvalid hlevel
      have hgrown : FreeNodes fl ⊆ FreeNodes fl'' := by
        apply Set.Subset.trans _ hgrow
        rw [hfree]
        exact Set.subset_insert n.right (FreeNodes fl)
      refine ⟨fl'', k, ?_, hwithin.trans n.left_within, haddr.trans hnode, hgrown, ?_, ?_⟩
      · rw [hk]
        show n.level + 1 + steps = n.level + (steps + 1)
        omega
      · intro j hj
        have hout : j ≤ n.left.level ∨ n.left.level + steps < j := by
          show j ≤ n.level + 1 ∨ n.level + 1 + steps < j
          omega
        exact (hkept j hout).trans (hsame j (by omega))
      · rw [splitLoop, hbuddy, hgeom.left_index_eq hvalid,
          hgeom.right_index_eq hvalid]
        rw [hnode] at hrest
        apply hrest.mono
        rw [← hfree]
        intro m hm
        rcases hm with (hm | hm) | hm
        · exact Or.inl hm
        · exact Or.inr (hgrow hm)
        · exact Or.inr hm

/-!
# Merging
-/

/-- A held block whose buddy is not free becomes free. -/
theorem insertFree_spec {W : Set Node} {t : BuddyState χ}
    (h : BuddyStep asan depth W s t fl (n :: us) (FreeNodes fl)
      (OpenBytes s.ctx (FreeNodes fl) us))
    (hsib : 0 < n.level -> n.sibling ∉ FreeNodes fl)
    (hW : insert n (FreeNodes fl) ⊆ W) :
    exists fl', FreeNodes fl' = insert n (FreeNodes fl) ∧
      fl' = Function.update fl n.level (n.index :: fl n.level) ∧
      BuddyStep asan depth W s (insertFree n.level n.index t) fl' us
        (FreeNodes fl') (OpenBytes s.ctx (FreeNodes fl') us) := by
  have hvalid := h.rep.tiled.used_valid n List.mem_cons_self
  have htiled := h.rep.tiled.release hsib
  have hnew : n ∉ FreeNodes fl := by
    intro hmem
    exact (h.rep.tiled.apart n hmem n List.mem_cons_self).left (Node.within_refl n)
  have hmarked := h.setBit hvalid
  have haddr : (t.setBit (nodeIndex n.level n.index)).ctx.blockAt n.level n.index =
      s.ctx.nodeAddr n := by
    rw [hmarked.rep.geom.blockAt_eq hvalid, hmarked.nodeAddr]
  have hpushed := (hmarked.unpoison (s.ctx.header n)).push htiled hnew hW (by
    intro k hk x hx
    rcases hk with rfl | hk
    · exact Or.inr hx
    · exact Or.inl (openBytes_header hk hx))
  refine ⟨_, freeNodes_push fl n, rfl, ?_⟩
  unfold insertFree
  dsimp only
  rw [haddr, freeNodes_push, openBytes_insert]
  exact hpushed

/-- The free buddy of a held block is removed and the two are held as one. -/
theorem mergeOnce_spec {W : Set Node} {t : BuddyState χ}
    (h : BuddyStep asan depth W s t fl (n :: us) (FreeNodes fl)
      (OpenBytes s.ctx (FreeNodes fl) us))
    (hlevel : 0 < n.level) (hsib : n.sibling ∈ FreeNodes fl)
    (hW : FreeNodes fl ⊆ W) :
    exists fl', FreeNodes fl' = FreeNodes fl \ {n.sibling} ∧
      (forall j, j ≠ n.level -> fl' j = fl j) ∧
      BuddyStep asan depth W s
        (((listRemove n.level (s.ctx.nodeAddr n.sibling) t).note
          (Event.poison (s.ctx.nodeAddr n.sibling) sizeofBuddyNode)).clearBit
            (nodeIndex n.level n.sibling.index))
        fl' (n.parent :: us) (FreeNodes fl') (OpenBytes s.ctx (FreeNodes fl') us) := by
  have hvalid := h.rep.tiled.free_valid n.sibling hsib
  have htiled := h.rep.tiled.merge hlevel hsib
  have hrest : Tiled depth (FreeNodes fl) (n :: us) := h.rep.tiled
  have hremoved := h.remove (n := n.sibling) htiled hsib hW
    (fun k hk x hx => openBytes_header hk hx)
  have hclosed := (hremoved.poison (s.ctx.header n.sibling)).clearBit hvalid
  have herase := freeNodes_erase fl n.sibling (h.rep.lists.nodup n.sibling.level)
  refine ⟨_, herase, fun j hj => Function.update_of_ne hj _ _, hclosed.congr ?_ ?_⟩
  · rw [herase]
  · rw [herase]
    exact openBytes_merge (h.rep.geom.back h.moved) h.rep.tiled
      (fun m hm => List.mem_cons_of_mem n hm) hsib

/-- The block of `k` was put in front of its list, and the lists above it and below the
block `n` are as before. -/
structure MergedInto (n k : Node) (fl fl' : Nat -> List Nat) : Prop where
  within : n.Within k
  front : fl' k.level = k.index :: fl k.level
  others : forall j, j < k.level ∨ n.level < j -> fl' j = fl j

theorem MergedInto.insert (n : Node) (fl : Nat -> List Nat) :
    MergedInto n n fl (Function.update fl n.level (n.index :: fl n.level)) where
  within := Node.within_refl n
  front := Function.update_self _ _ _
  others := fun _ hj => Function.update_of_ne (by omega) _ _

/-- Merging with a buddy first. -/
theorem MergedInto.up {k : Node} {fl' fl'' : Nat -> List Nat} (hlevel : 0 < n.level)
    (h : MergedInto n.parent k fl' fl'')
    (hsame : forall j, j ≠ n.level -> fl' j = fl j) : MergedInto n k fl fl'' := by
  have hup := Node.parent_level hlevel
  have hk := h.within.left
  constructor
  · exact (Node.within_parent hlevel).trans h.within
  · rw [h.front, hsame k.level (by omega)]
  · intro j hj
    rw [h.others j (by omega), hsame j (by omega)]

/-- Merging ends in a free node that holds the block. -/
theorem mergeLoop_spec {level : Nat} {W : Set Node} {t : BuddyState χ}
    (h : BuddyStep asan depth W s t fl (n :: us) (FreeNodes fl)
      (OpenBytes s.ctx (FreeNodes fl) us))
    (hlevel : n.level = level) (hW : FreeNodes fl ⊆ W) :
    exists fl' k, MergedInto n k fl fl' ∧ k ∈ FreeNodes fl' ∧
      FreeNodes fl' ⊆ insert k (FreeNodes fl) ∧
        BuddyStep asan depth (W ∪ FreeNodes fl') s (mergeLoop level n.index t)
          fl' us (FreeNodes fl') (OpenBytes s.ctx (FreeNodes fl') us) := by
  induction level generalizing n fl t with
  | zero =>
      have hroot : 0 < n.level -> n.sibling ∉ FreeNodes fl := by
        intro hpos
        rw [hlevel] at hpos
        exact absurd hpos (Nat.lt_irrefl 0)
      have hsub : insert n (FreeNodes fl) ⊆ W ∪ insert n (FreeNodes fl) :=
        Set.subset_union_right
      rcases insertFree_spec (h.mono Set.subset_union_left) hroot hsub with
        ⟨fl', hfree, hlists, hstep⟩
      rw [hlevel] at hstep
      rw [← hfree] at hstep
      refine ⟨fl', n, hlists ▸ MergedInto.insert n fl, ?_, hfree.subset, hstep⟩
      rw [hfree]
      exact Set.mem_insert n (FreeNodes fl)
  | succ level ih =>
      rcases n with ⟨l, i⟩
      cases hlevel
      have hpos : 0 < level + 1 := Nat.succ_pos level
      have hvalid := h.rep.tiled.used_valid ⟨level + 1, i⟩ List.mem_cons_self
      have hsibValid : Node.Valid depth ⟨level + 1, i ^^^ 1⟩ :=
        hvalid.sibling_node hpos
      have hread := h.index (h.rep.geom.bit_lt hsibValid)
      have hmark : HasBit t.ctx.bitset (nodeIndex (level + 1) (i ^^^ 1)) <->
          (⟨level + 1, i ^^^ 1⟩ : Node) ∈ FreeNodes fl := by
        rw [h.rep.bits]
        constructor
        · intro hk
          rcases hk with ⟨m, hm, heq⟩
          rw [← BuddyGeom.eq_of_nodeIndex (h.rep.marked m hm) hsibValid heq]
          exact hm
        · exact fun hm => ⟨_, hm, rfl⟩
      rw [mergeLoop]
      dsimp only
      split
      · rename_i hclear
        have hfree : Node.sibling ⟨level + 1, i⟩ ∉ FreeNodes fl :=
          fun hmem => getBit_eq_zero_iff.mp hclear (hmark.mpr hmem)
        have hsub : insert ⟨level + 1, i⟩ (FreeNodes fl) ⊆
            W ∪ insert ⟨level + 1, i⟩ (FreeNodes fl) := Set.subset_union_right
        rcases insertFree_spec (hread.mono Set.subset_union_left)
          (fun _ => hfree) hsub with ⟨fl', hfree', hlists, hstep⟩
        rw [← hfree'] at hstep
        refine ⟨fl', ⟨level + 1, i⟩, hlists ▸ MergedInto.insert _ fl, ?_, hfree'.subset,
          hstep⟩
        rw [hfree']
        exact Set.mem_insert _ (FreeNodes fl)
      · rename_i hset
        have hfree : (⟨level + 1, i ^^^ 1⟩ : Node) ∈ FreeNodes fl := by
          by_contra hmem
          exact hset (getBit_eq_zero_iff.mpr (fun hbit => hmem (hmark.mp hbit)))
        have haddr := hread.rep.geom.blockAt_eq hsibValid
        rw [hread.nodeAddr] at haddr
        rcases mergeOnce_spec hread hpos hfree hW with ⟨fl', hfree', hsame, hstep⟩
        have hshrink : FreeNodes fl' ⊆ FreeNodes fl := by
          rw [hfree']
          exact Set.sdiff_subset
        rcases ih hstep rfl (hshrink.trans hW) with
          ⟨fl'', k, hmerged, hk, hsub, hrest⟩
        refine ⟨fl'', k, hmerged.up hpos hsame, hk,
          hsub.trans (Set.insert_subset_insert hshrink), ?_⟩
        rw [haddr]
        exact hrest

end Loops

end Liballo
