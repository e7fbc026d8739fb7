import Liballo.Buddy.Loops

/-!
# The operations of the buddy allocator

What an allocation, a free and a reallocation do to the represented free lists and
used nodes, and in which headers they write.
-/

namespace Liballo

open Foundation

section Ops

variable {χ : Type} [HasMem χ] {asan : Prop} {depth : Nat}
variable {s : BuddyState χ} {fl : Nat -> List Nat} {us : List Node}

/-- A refused request leaves everything but the trace as it was. -/
structure BuddyRefused (asan : Prop) (s s' : BuddyState χ) : Prop where
  ctx : s'.ctx = s.ctx
  moved : BuddyMoved asan (fun _ _ => False) s s'
  shadow : poisoned (mem s').trace = poisoned (mem s).trace

/-- A granted request uses the block of the node `k`. -/
structure BuddyGranted (asan : Prop) (depth : Nat) (s : BuddyState χ)
    (fl : Nat -> List Nat) (us : List Node) (size p : Nat) (s' : BuddyState χ)
    (fl' : Nat -> List Nat) (k : Node) : Prop where
  positive : size ≠ 0
  order : s.ctx.order size ≤ s.ctx.maxOrder
  level : k.level = s.ctx.maxOrder - s.ctx.order size
  addr : p = s.ctx.nodeAddr k
  stored : (s'.ctx.blockOrders
    (sizeSub p s.ctx.buffer / s.ctx.minBlockSize)).toNat = k.level
  inv : BuddyInv asan depth s' fl' (k :: us)
  moved : BuddyMoved asan (HeaderOf s.ctx (FreeNodes fl ∪ FreeNodes fl')) s s'

namespace BuddyRefused

variable {s' s'' : BuddyState χ}

theorem refl (s : BuddyState χ) : BuddyRefused asan s s :=
  { ctx := rfl
    moved := BuddyMoved.refl _ s
    shadow := rfl }

theorem bytes (h : BuddyRefused asan s s') : (mem s').bytes = (mem s).bytes := by
  funext x
  exact h.moved.wrote.bytes x (fun _ _ hno => absurd hno not_false)

theorem inv (h : BuddyRefused asan s s') (hinv : BuddyInv asan depth s fl us) :
    BuddyInv asan depth s' fl us := by
  have hword : forall x, (mem s').word x = (mem s).word x := by
    intro x
    unfold Mem.word
    rw [h.bytes]
  unfold BuddyInv
  rw [h.ctx]
  refine
    { geom := h.ctx ▸ hinv.geom
      lists := ?_
      tiled := hinv.tiled
      marked := hinv.marked
      bits := ?_
      shadow := ?_ }
  · rw [h.ctx]
    exact hinv.lists.congr (fun _ => rfl) rfl (fun k _ => hword (s.ctx.nodeAddr k))
      (fun k _ => hword (s.ctx.nodeAddr k + 8))
  · rw [h.ctx]
    exact hinv.bits
  · rw [h.ctx, h.shadow]
    exact hinv.shadow

end BuddyRefused

/-!
# Searching
-/

theorem BuddyRefused.note {t : BuddyState χ} (h : BuddyRefused asan s t) {e : Event}
    (he : e.WritesOnly (fun _ _ => False)) (ht : BuddyEvent asan (mem t).trace e)
    (hpoison : poisoned (e :: (mem t).trace) = poisoned (mem t).trace) :
    BuddyRefused asan s (t.note e) := by
  refine
    { ctx := h.ctx
      moved := h.moved.trans (BuddyMoved.note he ht)
      shadow := ?_ }
  rw [mem_buddyNote]
  exact hpoison.trans h.shadow

/-- What the head of a list says about the list. -/
theorem BuddyRep.head {N : Set Node} {O : Set Nat}
    (h : BuddyRep asan depth s fl us N O) (level : Nat) :
    s.ctx.freeLists level = NULL ∧ fl level = [] ∨
      s.ctx.freeLists level ≠ NULL ∧ exists i rest, fl level = i :: rest ∧
        s.ctx.freeLists level = s.ctx.nodeAddr ⟨level, i⟩ := by
  rcases h.lists.head_cases level with hnull | ⟨i, rest, hfl, haddr⟩
  · exact Or.inl hnull
  · have hmem : (⟨level, i⟩ : Node) ∈ FreeNodes fl := by
      show i ∈ fl level
      rw [hfl]
      exact List.mem_cons_self
    have hvalid := h.tiled.free_valid _ hmem
    have hpos := (h.geom.nodeBlock_wellFormed hvalid).left
    refine Or.inr ⟨?_, i, rest, hfl, haddr⟩
    rw [haddr]
    exact Nat.ne_of_gt hpos

/-- The search reads list heads until it finds one. -/
theorem scanLevels_spec {level : Nat} {t : BuddyState χ}
    (h : BuddyRefused asan s t) (hinv : BuddyInv asan depth s fl us)
    (hlevel : level ≤ depth) :
    exists answer t', scanLevels level t = (answer, t') ∧
      BuddyRefused asan s t' ∧
        (answer = none ∧ (forall l, l ≤ level -> fl l = []) ∨
          exists l i rest, answer = some l ∧ l ≤ level ∧ fl l = i :: rest ∧
            forall l', l < l' -> l' ≤ level -> fl l' = []) := by
  have hread : forall l, l ≤ depth -> forall t : BuddyState χ,
      BuddyRefused asan s t ->
        BuddyRefused asan s (t.note (Event.index l t.ctx.freeListsCount)) := by
    intro l hl t ht
    refine ht.note trivial ?_ rfl
    show l < t.ctx.freeListsCount
    rw [ht.ctx, hinv.geom.freeListsCount_eq]
    omega
  induction level generalizing t with
  | zero =>
      have hhead := BuddyRep.head (h.inv hinv) 0
      rcases hhead with ⟨hnull, hfl⟩ | ⟨hne, i, rest, hfl, _⟩
      · refine ⟨none, _, if_pos hnull, hread 0 hlevel t h, Or.inl ⟨rfl, ?_⟩⟩
        intro l hl
        rw [Nat.le_zero.mp hl]
        exact hfl
      · refine ⟨some 0, _, if_neg hne, hread 0 hlevel t h,
          Or.inr ⟨0, i, rest, rfl, Nat.le_refl 0, hfl, ?_⟩⟩
        intro l' hlt hle
        omega
  | succ level ih =>
      have hhead := BuddyRep.head (h.inv hinv) (level + 1)
      rcases hhead with ⟨hnull, hfl⟩ | ⟨hne, i, rest, hfl, _⟩
      · rcases ih (hread (level + 1) hlevel t h) (Nat.le_of_succ_le hlevel) with
          ⟨answer, t', hscan, hrefused, hcase⟩
        refine ⟨answer, t', (if_pos hnull).trans hscan, hrefused, ?_⟩
        have hlast : forall l, l ≤ level + 1 -> (l ≤ level -> fl l = []) ->
            fl l = [] := by
          intro l hl hbelow
          rcases Nat.lt_or_eq_of_le hl with hlt | heq
          · exact hbelow (Nat.le_of_lt_succ hlt)
          · rw [heq]
            exact hfl
        rcases hcase with ⟨hnone, hempty⟩ | ⟨l, i, rest, hsome, hle, hl, hempty⟩
        · exact Or.inl ⟨hnone, fun l hl => hlast l hl (hempty l)⟩
        · exact Or.inr ⟨l, i, rest, hsome, Nat.le_succ_of_le hle, hl,
            fun l' hlt hle' => hlast l' hle' (hempty l' hlt)⟩
      · refine ⟨some (level + 1), _, if_neg hne, hread (level + 1) hlevel t h,
          Or.inr ⟨level + 1, i, rest, rfl, Nat.le_refl _, hfl, ?_⟩⟩
        intro l' hlt hle
        omega

/-!
# Allocation
-/

/-- The first block of a list is removed and held. -/
theorem takeHead_spec {W : Set Node} {t : BuddyState χ} {n : Node}
    (h : BuddyStep asan depth W s t fl us (FreeNodes fl)
      (OpenBytes s.ctx (FreeNodes fl) us))
    (hn : n ∈ FreeNodes fl) (hW : FreeNodes fl ⊆ W) :
    exists fl', FreeNodes fl' = FreeNodes fl \ {n} ∧
      fl' = Function.update fl n.level ((fl n.level).erase n.index) ∧
      BuddyStep asan depth W s
        (listRemove n.level (s.ctx.nodeAddr n)
          (t.note (Event.unpoison (s.ctx.nodeAddr n) sizeofBuddyNode)))
        fl' (n :: us) (FreeNodes fl)
        (OpenBytes s.ctx (FreeNodes fl') us ∪
          { x | (s.ctx.header n).Contains x }) := by
  have hopened : BuddyStep asan depth W s
      (t.note (Event.unpoison (s.ctx.nodeAddr n) sizeofBuddyNode)) fl us
      (FreeNodes fl) (OpenBytes s.ctx (FreeNodes fl) us) := by
    apply (h.unpoison (s.ctx.header n)).congr rfl
    apply Set.union_eq_self_of_subset_right
    exact fun x hx => openBytes_header hn hx
  have hfree := freeNodes_erase fl n (h.rep.lists.nodup n.level)
  have htaken := hopened.remove (h.rep.tiled.take hn) hn hW
    (fun k hk x hx => openBytes_header hk hx)
  refine ⟨_, hfree, rfl, htaken.congr rfl ?_⟩
  rw [hfree]
  exact (openBytes_take hn).symm

/-- A held block of the requested level is handed out. -/
theorem handOut_spec {W : Set Node} {t : BuddyState χ} {k : Node}
    (h : BuddyStep asan depth W s t fl (k :: us) (FreeNodes fl)
      (OpenBytes s.ctx (FreeNodes fl) us ∪ { x | (s.ctx.header k).Contains x })) :
    BuddyStep asan depth W s
      (((t.note (Event.divide t.ctx.minBlockSize)).setBlockOrder
        (sizeSub (s.ctx.nodeAddr k) t.ctx.buffer / t.ctx.minBlockSize)
          k.level).note (Event.unpoison (s.ctx.nodeAddr k) (t.ctx.levelSize k.level)))
      fl (k :: us) (FreeNodes fl) (OpenBytes s.ctx (FreeNodes fl) (k :: us)) := by
  have hvalid := h.rep.tiled.used_valid k List.mem_cons_self
  have hmin : t.ctx.minBlockSize ≠ 0 := by
    rw [h.rep.geom.minBlockSize]
    decide
  have hidx := h.rep.geom.blockIdx_lt hvalid
  rw [h.nodeAddr] at hidx
  have hstored := (h.divide hmin).setBlockOrder k.level hidx
  have hsize : t.ctx.levelSize k.level = (s.ctx.nodeBlock k).size := by
    rw [h.rep.geom.levelSize_eq hvalid.left, h.moved.maxOrder]
    rfl
  have hused := hstored.unpoison (s.ctx.nodeBlock k)
  rw [← hsize] at hused
  exact hused.congr rfl (openBytes_use (h.rep.geom.back h.moved) hvalid)

/-- A level below 256 is stored as it is. -/
theorem stored_setBlockOrder {level : Nat} (hlevel : level < 2 ^ 8) (i : Nat)
    (t : BuddyState χ) (e : Event) :
    (((t.setBlockOrder i level).note e).ctx.blockOrders i).toNat = level := by
  show (Function.update t.ctx.blockOrders i (UInt8.ofNat level) i).toNat = level
  rw [Function.update_self, UInt8.toNat_ofNat']
  exact Nat.mod_eq_of_lt hlevel

theorem buddyAllocFn_none {size : Nat} {t : BuddyState χ} (hzero : size ≠ 0)
    (horder : ¬ s.ctx.maxOrder < s.ctx.order size)
    (hscan : scanLevels (s.ctx.maxOrder - s.ctx.order size) s.touch = (none, t)) :
    buddyAllocFn size s = (NULL, t) := by
  unfold buddyAllocFn
  simp only [if_neg hzero, ctx_touch, if_neg horder, hscan]

/-- An allocation that found a block at the level `l`. -/
theorem buddyAllocFn_some {size target l node index : Nat} {t u v : BuddyState χ}
    (hzero : size ≠ 0) (horder : ¬ s.ctx.maxOrder < s.ctx.order size)
    (htarget : s.ctx.maxOrder - s.ctx.order size = target)
    (hscan : scanLevels target s.touch = (some l, t))
    (hnode : t.ctx.freeLists l = node)
    (hremove : listRemove l node (t.note (Event.unpoison node sizeofBuddyNode)) = u)
    (hindex : sizeSub node (u.note (Event.divide (u.ctx.levelSize l))).ctx.buffer /
      (u.note (Event.divide (u.ctx.levelSize l))).ctx.levelSize l = index)
    (hsplit : splitLoop (target - l) l node index
      ((u.note (Event.divide (u.ctx.levelSize l))).clearBit (nodeIndex l index)) = v) :
    buddyAllocFn size s = (node,
      ((v.note (Event.divide v.ctx.minBlockSize)).setBlockOrder
        (sizeSub node v.ctx.buffer / v.ctx.minBlockSize) target).note
          (Event.unpoison node (v.ctx.levelSize target))) := by
  unfold buddyAllocFn
  simp only [if_neg hzero, ctx_touch, if_neg horder, htarget, hscan, hnode, hremove,
    hindex, hsplit]
  rfl

/-- The block of `k` was cut out of the first free block `n` of the nearest list. -/
structure CutFrom (n k : Node) (fl fl' : Nat -> List Nat) : Prop where
  within : k.Within n
  front : fl n.level = n.index :: fl' n.level
  between : forall j, n.level < j -> j ≤ k.level -> fl j = []
  others : forall j, j < n.level ∨ k.level < j -> fl' j = fl j

/-- An allocation, and what it does to the lists. -/
theorem buddyAllocFn_lists (hinv : BuddyInv asan depth s fl us) (size : Nat) :
    exists p s', buddyAllocFn size s = (p, s') ∧
      (p = NULL ∧ BuddyRefused asan s s' ∧
          (size = 0 ∨ s.ctx.maxOrder < s.ctx.order size ∨
            forall l, l ≤ s.ctx.maxOrder - s.ctx.order size -> fl l = []) ∨
        exists fl' k n, BuddyGranted asan depth s fl us size p s' fl' k ∧
          CutFrom n k fl fl') := by
  have htouch : BuddyRefused asan s s.touch :=
    (BuddyRefused.refl s).note trivial trivial rfl
  by_cases hzero : size = 0
  · exact ⟨NULL, s, if_pos hzero,
      Or.inl ⟨rfl, BuddyRefused.refl s, Or.inl hzero⟩⟩
  by_cases horder : s.ctx.maxOrder < s.ctx.order size
  · refine ⟨NULL, s.touch, ?_, Or.inl ⟨rfl, htouch, Or.inr (Or.inl horder)⟩⟩
    exact (if_neg hzero).trans (if_pos horder)
  have htarget := hinv.geom.level_of_order size
  rcases scanLevels_spec htouch hinv htarget with ⟨answer, t, hscan, hrefused, hcase⟩
  rcases hcase with ⟨rfl, hempty⟩ | ⟨l, i, rest, rfl, hle, hfl, hbetween⟩
  · exact ⟨NULL, t, buddyAllocFn_none hzero horder hscan,
      Or.inl ⟨rfl, hrefused, Or.inr (Or.inr hempty)⟩⟩
  · have hn : (⟨l, i⟩ : Node) ∈ FreeNodes fl := by
      show i ∈ fl l
      rw [hfl]
      exact List.mem_cons_self
    have hvalid := hinv.tiled.free_valid _ hn
    have hnode : t.ctx.freeLists l = s.ctx.nodeAddr ⟨l, i⟩ := by
      rcases BuddyRep.head (hrefused.inv hinv) l with ⟨_, hnil⟩ | ⟨_, j, _, hj, haddr⟩
      · rw [hnil] at hfl
        cases hfl
      · rw [hfl] at hj
        cases hj
        rw [haddr, hrefused.ctx]
    have hstart : BuddyStep asan depth (FreeNodes fl) s t fl us (FreeNodes fl)
        (OpenBytes s.ctx (FreeNodes fl) us) := by
      have hinv' := hrefused.inv hinv
      unfold BuddyInv at hinv'
      rw [hrefused.ctx] at hinv'
      exact
        { rep := hinv'
          moved := hrefused.moved.mono (fun _ _ hno => absurd hno not_false) }
    rcases takeHead_spec hstart hn Set.Subset.rfl with ⟨fl₁, hfree, hlists, htaken⟩
    have hdivided := htaken.divide (htaken.rep.geom.levelSize_ne_zero hvalid.left)
    have hindex := hdivided.rep.geom.index_eq hvalid
    rw [hdivided.nodeAddr] at hindex
    have hheld := (hdivided.clearBit hvalid).congr hfree.symm rfl
    have hsum : l + (s.ctx.maxOrder - s.ctx.order size - l) =
        s.ctx.maxOrder - s.ctx.order size := Nat.add_sub_cancel' hle
    rcases splitLoop_spec hheld (Nat.le_trans (Nat.le_of_eq hsum) htarget) with
      ⟨fl', k, hk, hwithin, haddr, _, hkept, hsplit⟩
    dsimp only at hsplit hindex hk
    rw [hsum] at hk
    have hout := handOut_spec hsplit
    rw [haddr, hk] at hout
    refine ⟨_, _, buddyAllocFn_some hzero horder rfl hscan hnode rfl hindex rfl,
      Or.inr ⟨fl', k, ⟨l, i⟩, ?_, ?_⟩⟩
    · have hopen := openBytes_moved hout.moved (FreeNodes fl') (k :: us)
      have hdepth := hinv.geom.depth_lt
      have hbyte : s.ctx.maxOrder - s.ctx.order size < 2 ^ 8 := by omega
      refine
        { positive := hzero
          order := Nat.le_of_not_lt horder
          level := hk
          addr := haddr.symm
          stored := ?_
          inv := hout.rep.congr rfl hopen.symm
          moved := hout.moved }
      rw [hk, ← hsplit.moved.buffer, ← hsplit.moved.minBlockSize]
      exact stored_setBlockOrder hbyte _ _ _
    · rw [hsum] at hkept
      rw [hlists] at hkept
      dsimp only at hkept
      refine
        { within := hwithin
          front := ?_
          between := ?_
          others := ?_ }
      · rw [hkept l (Or.inl (Nat.le_refl l)), Function.update_self, hfl,
          List.erase_cons_head]
      · intro j hlt hle'
        rw [hk] at hle'
        exact hbetween j hlt hle'
      · intro j hj
        rw [hk] at hj
        dsimp only at hj
        have hne : j ≠ l := by omega
        rw [hkept j (by omega), Function.update_of_ne hne]

theorem buddyAllocFn_spec (hinv : BuddyInv asan depth s fl us) (size : Nat) :
    exists p s', buddyAllocFn size s = (p, s') ∧
      (p = NULL ∧ BuddyRefused asan s s' ∧
          (size = 0 ∨ s.ctx.maxOrder < s.ctx.order size ∨
            forall l, l ≤ s.ctx.maxOrder - s.ctx.order size -> fl l = []) ∨
        exists fl' k, BuddyGranted asan depth s fl us size p s' fl' k) := by
  rcases buddyAllocFn_lists hinv size with ⟨p, s', hcall, hcase⟩
  refine ⟨p, s', hcall, ?_⟩
  rcases hcase with hrefused | ⟨fl', k, _, hgranted, _⟩
  · exact Or.inl hrefused
  · exact Or.inr ⟨fl', k, hgranted⟩

/-!
# Freeing
-/

omit [HasMem χ] in
theorem buddyContainsFn_iff (hgeom : BuddyGeom depth s.ctx) (ptr : Nat) :
    buddyContainsFn ptr s = AlloContains.yes <-> s.ctx.region.Contains ptr := by
  have hstop : sizeAdd s.ctx.buffer s.ctx.totalSize =
      s.ctx.buffer + s.ctx.totalSize := sizeAdd_eq hgeom.region.right.right
  unfold buddyContainsFn
  rw [hstop]
  split
  · rename_i hin
    exact ⟨fun _ => hin, fun _ => rfl⟩
  · rename_i hout
    constructor
    · intro heq
      cases heq
    · exact fun hin => absurd hin hout

/-- What a free does to the block of the node `k`. -/
structure BuddyFreed (asan : Prop) (depth : Nat) (s : BuddyState χ)
    (fl : Nat -> List Nat) (us : List Node) (k : Node) (s' : BuddyState χ)
    (fl' : Nat -> List Nat) : Prop where
  inv : BuddyInv asan depth s' fl' us
  moved : BuddyMoved asan (HeaderOf s.ctx (FreeNodes fl ∪ FreeNodes fl')) s s'

/-- A free, and what it does to the lists. -/
theorem buddyFreeFn_lists {k : Node} {size : Nat}
    (hinv : BuddyInv asan depth s fl (k :: us))
    (horder : s.ctx.order size ≤ s.ctx.maxOrder)
    (hlevel : k.level = s.ctx.maxOrder - s.ctx.order size) :
    exists s' fl' m, buddyFreeFn (s.ctx.nodeAddr k) size s = some s' ∧
      BuddyFreed asan depth s fl us k s' fl' ∧ MergedInto k m fl fl' ∧
        m ∈ FreeNodes fl' := by
  have hvalid := hinv.tiled.used_valid k List.mem_cons_self
  have hblock := hinv.geom.nodeBlock_wellFormed hvalid
  have hregion : s.ctx.region.Contains (s.ctx.nodeAddr k) := by
    apply (hinv.geom.nodeBlock_inside hvalid).contains
    exact ⟨Nat.le_refl _, Nat.lt_add_of_pos_right hblock.right.left⟩
  have hcontains := (buddyContainsFn_iff hinv.geom _).mpr hregion
  have hstart : BuddyStep asan depth (FreeNodes fl) s s fl (k :: us) (FreeNodes fl)
      (OpenBytes s.ctx (FreeNodes fl) (k :: us)) := BuddyStep.refl hinv _
  have hdivided := hstart.touch.divide (hinv.geom.levelSize_ne_zero hvalid.left)
  have hsize : s.ctx.levelSize k.level = (s.ctx.nodeBlock k).size :=
    hinv.geom.levelSize_eq hvalid.left
  have hclosed := (hdivided.poison (s.ctx.nodeBlock k)).congr rfl
    (openBytes_close hinv.geom hinv.tiled)
  rcases mergeLoop_spec hclosed rfl Set.Subset.rfl with
    ⟨fl', m, hinto, hm, _, hmerged⟩
  have hopen := openBytes_moved hmerged.moved (FreeNodes fl') us
  refine ⟨_, fl', m, ?_,
    { inv := hmerged.rep.congr rfl hopen.symm
      moved := hmerged.moved }, hinto, hm⟩
  have hsame : buddyContainsFn (s.ctx.nodeAddr k) s.touch =
      buddyContainsFn (s.ctx.nodeAddr k) s := rfl
  have hindex := hinv.geom.index_eq hvalid
  have hne : s.ctx.nodeAddr k ≠ NULL := Nat.ne_of_gt hblock.left
  unfold buddyFreeFn
  simp only [if_neg hne, hsame, hcontains, ne_eq, not_true_eq_false, if_false,
    ctx_touch, ctx_buddyNote, if_neg (Nat.not_lt_of_le horder), ← hlevel, hindex,
    ← hsize]
  rfl

theorem buddyFreeFn_spec {k : Node} {size : Nat}
    (hinv : BuddyInv asan depth s fl (k :: us))
    (horder : s.ctx.order size ≤ s.ctx.maxOrder)
    (hlevel : k.level = s.ctx.maxOrder - s.ctx.order size) :
    exists s' fl', buddyFreeFn (s.ctx.nodeAddr k) size s = some s' ∧
      BuddyFreed asan depth s fl us k s' fl' := by
  rcases buddyFreeFn_lists hinv horder hlevel with ⟨s', fl', _, hcall, hfreed, _⟩
  exact ⟨s', fl', hcall, hfreed⟩

end Ops

end Liballo
