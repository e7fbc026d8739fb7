import Liballo.Buddy.Lists

/-!
# Moves of the buddy allocator

The invariant joins the free lists, the bitset and a tiling of the buffer by free and
used nodes. The loops of the source perform four moves on it: a free node is taken,
a used node is split, a used node is merged with its free sibling, and a used node is
given back.
-/

namespace Liballo

open Foundation

/-!
# What a step leaves alone
-/

/-- An event of the allocator, judged by those before it. Table accesses and divisors
are checked always, header accesses only in a run under the address sanitizer. -/
def BuddyEvent (asan : Prop) (tr : List Event) : Event -> Prop
  | Event.index i len => i < len
  | Event.divide d => d ≠ 0
  | Event.read a n => asan -> forall x, Block.Contains ⟨a, n⟩ x ->
      poisoned tr x = false
  | Event.write a n => asan -> forall x, Block.Contains ⟨a, n⟩ x ->
      poisoned tr x = false
  | _ => True

structure BuddyMoved {χ : Type} [HasMem χ] (asan : Prop)
    (P : Nat -> Nat -> Prop) (s s' : BuddyState χ) : Prop where
  self : s'.self = s.self
  ctx : exists freeLists bitset blockOrders, s'.ctx =
    { s.ctx with
      freeLists := freeLists
      bitset := bitset
      blockOrders := blockOrders }
  child : s'.child = setMem (mem s') s.child
  wrote : Wrote P (mem s) (mem s')
  traced : Traced (BuddyEvent asan) (mem s) (mem s')

namespace BuddyNode

variable {asan : Prop} {m : Mem} {a v : Nat}

theorem traced_setNext (h : asan -> Unpoisoned m ⟨a, 16⟩) :
    Traced (BuddyEvent asan) m (setNext a v m) := by
  apply Traced.event rfl
  intro ha
  have hlt : 8 ≤ 16 := by decide
  exact (h ha).inside ⟨Nat.le_refl a, Nat.add_le_add_left hlt a⟩

theorem traced_setPrev (h : asan -> Unpoisoned m ⟨a, 16⟩) :
    Traced (BuddyEvent asan) m (setPrev a v m) := by
  apply Traced.event rfl
  intro ha
  exact (h ha).inside ⟨Nat.le_add_right a 8, Nat.le_refl (a + 16)⟩

theorem traced_linkIn {node head : Nat} (hnode : asan -> Unpoisoned m ⟨node, 16⟩)
    (hhead : head ≠ NULL -> asan -> Unpoisoned m ⟨head, 16⟩) :
    Traced (BuddyEvent asan) m (linkIn node head m) := by
  have hfirst : Traced (BuddyEvent asan) m
      (setPrev node NULL (setNext node head m)) :=
    (traced_setNext hnode).trans (traced_setPrev (fun ha => (hnode ha).congr rfl))
  unfold linkIn
  split
  · exact hfirst
  · rename_i hne
    exact hfirst.trans (traced_setPrev (fun ha => (hhead hne ha).congr rfl))

theorem traced_linkOut {before after : Nat}
    (hbefore : before ≠ NULL -> asan -> Unpoisoned m ⟨before, 16⟩)
    (hafter : after ≠ NULL -> asan -> Unpoisoned m ⟨after, 16⟩) :
    Traced (BuddyEvent asan) m (linkOut before after m) := by
  have hfirst : Traced (BuddyEvent asan) m
        (if before = NULL then m else setNext before after m) ∧
      poisoned (if before = NULL then m else setNext before after m).trace =
        poisoned m.trace := by
    split
    · exact ⟨Traced.refl _ m, rfl⟩
    · rename_i hne
      exact ⟨traced_setNext (hbefore hne), rfl⟩
  unfold linkOut
  dsimp only
  split
  · exact hfirst.left
  · rename_i hne
    apply hfirst.left.trans
    exact traced_setPrev (fun ha => (hafter hne ha).congr hfirst.right)

end BuddyNode

section Moves

variable {χ : Type} [HasMem χ] {asan : Prop}

@[simp] theorem mem_buddyState (self : Nat) (c : BuddyContext) (w : χ) :
    mem (BuddyState.mk self c w) = mem w := rfl

@[simp] theorem mem_buddyNote (e : Event) (s : BuddyState χ) :
    mem (s.note e) = (mem s).note e :=
  mem_modifyMem _ s

@[simp] theorem ctx_buddyNote (e : Event) (s : BuddyState χ) :
    (s.note e).ctx = s.ctx := rfl

@[simp] theorem ctx_touch (s : BuddyState χ) : s.touch.ctx = s.ctx := rfl

@[simp] theorem mem_setFreeList (level node : Nat) (s : BuddyState χ) :
    mem (s.setFreeList level node) =
      (mem s).note (Event.index level s.ctx.freeListsCount) :=
  mem_modifyMem _ _

@[simp] theorem mem_setBit (bit : Nat) (s : BuddyState χ) :
    mem (s.setBit bit) = (mem s).note (Event.index (bit / 8) s.ctx.bitBytes) :=
  mem_modifyMem _ _

@[simp] theorem mem_clearBit (bit : Nat) (s : BuddyState χ) :
    mem (s.clearBit bit) = (mem s).note (Event.index (bit / 8) s.ctx.bitBytes) :=
  mem_modifyMem _ _

namespace BuddyMoved

variable {P Q : Nat -> Nat -> Prop} {s s' s'' : BuddyState χ}

theorem refl (P : Nat -> Nat -> Prop) (s : BuddyState χ) :
    BuddyMoved asan P s s :=
  { self := rfl
    ctx := ⟨_, _, _, rfl⟩
    child := (HasMem.setMem_mem s.child).symm
    wrote := Wrote.refl P (mem s)
    traced := Traced.refl _ (mem s) }

theorem trans (h : BuddyMoved asan P s s') (h' : BuddyMoved asan P s' s'') :
    BuddyMoved asan P s s'' := by
  rcases h.ctx with ⟨f, b, o, hctx⟩
  rcases h'.ctx with ⟨f', b', o', hctx'⟩
  refine
    { self := h'.self.trans h.self
      ctx := ⟨f', b', o', ?_⟩
      child := ?_
      wrote := h.wrote.trans h'.wrote
      traced := h.traced.trans h'.traced }
  · rw [hctx', hctx]
  · rw [h'.child, h.child, HasMem.setMem_setMem]

theorem mono (h : BuddyMoved asan P s s') (hPQ : forall x n, P x n -> Q x n) :
    BuddyMoved asan Q s s' :=
  { h with wrote := h.wrote.mono hPQ }

/-- Forget what is known about the address sanitizer. -/
theorem without_asan (h : BuddyMoved asan P s s') : BuddyMoved False P s s' := by
  refine { h with traced := h.traced.mono ?_ }
  intro tr e he
  cases e with
  | index _ _ => exact he
  | divide _ => exact he
  | read _ _ => exact fun hno => absurd hno not_false
  | write _ _ => exact fun hno => absurd hno not_false
  | _ => trivial

theorem modify {f : Mem -> Mem} (h : Wrote P (mem s) (f (mem s)))
    (ht : Traced (BuddyEvent asan) (mem s) (f (mem s))) :
    BuddyMoved asan P s (modifyMem f s) := by
  refine
    { self := rfl
      ctx := ⟨_, _, _, rfl⟩
      child := ?_
      wrote := ?_
      traced := ?_ }
  · rw [mem_modifyMem]
    rfl
  · rw [mem_modifyMem]
    exact h
  · rw [mem_modifyMem]
    exact ht

theorem note {e : Event} (he : e.WritesOnly P)
    (ht : BuddyEvent asan (mem s).trace e) : BuddyMoved asan P s (s.note e) :=
  modify (Wrote.note he) (Traced.event rfl ht)

/-- A table entry is replaced and the access is noted. -/
theorem table {e : Event} {c : BuddyContext} {freeLists : Nat -> Nat}
    {bitset blockOrders : Nat -> UInt8}
    (hc : c = { s.ctx with
      freeLists := freeLists
      bitset := bitset
      blockOrders := blockOrders })
    (he : e.WritesOnly P) (ht : BuddyEvent asan (mem s).trace e) :
    BuddyMoved asan P s (BuddyState.note e { s with ctx := c }) := by
  have hnote : BuddyMoved asan P { s with ctx := c }
      (BuddyState.note e { s with ctx := c }) := note he ht
  exact
    { self := rfl
      ctx := ⟨freeLists, bitset, blockOrders, hc⟩
      child := hnote.child
      wrote := hnote.wrote
      traced := hnote.traced }

theorem setFreeList {level : Nat} (node : Nat)
    (hlevel : level < s.ctx.freeListsCount) :
    BuddyMoved asan P s (s.setFreeList level node) :=
  table rfl trivial hlevel

theorem setBit {bit : Nat} (hbit : bit / 8 < s.ctx.bitBytes) :
    BuddyMoved asan P s (s.setBit bit) :=
  table rfl trivial hbit

theorem clearBit {bit : Nat} (hbit : bit / 8 < s.ctx.bitBytes) :
    BuddyMoved asan P s (s.clearBit bit) :=
  table rfl trivial hbit

theorem setBlockOrder {i : Nat} (level : Nat) (hi : i < s.ctx.blockOrdersLen) :
    BuddyMoved asan P s (s.setBlockOrder i level) :=
  table rfl trivial hi

theorem nodeAddr (h : BuddyMoved asan P s s') (n : Node) :
    s'.ctx.nodeAddr n = s.ctx.nodeAddr n := by
  rcases h.ctx with ⟨f, b, o, hctx⟩
  rw [hctx]
  rfl

end BuddyMoved

/-!
# Pushing and removing
-/

theorem mem_listPush (level node : Nat) (s : BuddyState χ) :
    mem (listPush level node s) =
      (BuddyNode.linkIn node (s.ctx.freeLists level)
        ((mem s).note (Event.index level s.ctx.freeListsCount))).note
          (Event.index level s.ctx.freeListsCount) := by
  unfold listPush
  rw [mem_setFreeList, mem_modifyMem, mem_buddyNote]
  rfl

theorem mem_listRemove (level node : Nat) (s : BuddyState χ) :
    exists m : Mem, m.bytes = (mem s).bytes ∧
      mem (listRemove level node s) =
        BuddyNode.linkOut (BuddyNode.prev (mem s) node)
          (BuddyNode.next (mem s) node) m := by
  unfold listRemove
  dsimp only
  rw [mem_modifyMem]
  refine ⟨_, ?_, rfl⟩
  split
  · rw [mem_setFreeList, mem_buddyNote]
    rfl
  · rw [mem_buddyNote]
    rfl

theorem freeLists_listRemove (level node : Nat) (s : BuddyState χ) :
    (listRemove level node s).ctx.freeLists =
      if BuddyNode.prev (mem s) node = NULL then
        Function.update s.ctx.freeLists level (BuddyNode.next (mem s) node)
      else s.ctx.freeLists := by
  unfold listRemove
  dsimp only
  split <;> rfl

theorem bitset_listRemove (level node : Nat) (s : BuddyState χ) :
    (listRemove level node s).ctx.bitset = s.ctx.bitset := by
  unfold listRemove
  dsimp only
  split <;> rfl

theorem poisoned_listPush (level node : Nat) (s : BuddyState χ) :
    poisoned (mem (listPush level node s)).trace = poisoned (mem s).trace := by
  rw [mem_listPush]
  exact BuddyNode.poisoned_linkIn node _ _

theorem poisoned_listRemove (level node : Nat) (s : BuddyState χ) :
    poisoned (mem (listRemove level node s)).trace = poisoned (mem s).trace := by
  unfold listRemove
  dsimp only
  rw [mem_modifyMem, BuddyNode.poisoned_linkOut]
  split
  · rw [mem_setFreeList, mem_buddyNote]
    rfl
  · rw [mem_buddyNote]
    rfl

section ListOps

variable {s : BuddyState χ} {fl : Nat -> List Nat} {n : Node}

/-- The header a link leads to. -/
theorem LinkTo.unpoisoned {c : BuddyContext} {N : Set Node} {x : Nat} {m : Mem}
    (h : LinkTo c N x) (hne : x ≠ NULL)
    (hopen : forall k, k ∈ N -> Unpoisoned m (c.header k)) :
    Unpoisoned m ⟨x, 16⟩ := by
  rcases h with hnull | ⟨k, hk, haddr⟩
  · exact absurd hnull hne
  · rw [← haddr]
    exact hopen k hk

theorem listPush_spec (h : FreeLists s.ctx (mem s) fl)
    (hs : Spread s.ctx (insert n (FreeNodes fl))) (hn : n ∉ FreeNodes fl)
    (hlevel : n.level < s.ctx.freeListsCount)
    (hopen : asan -> forall k, k ∈ insert n (FreeNodes fl) ->
      Unpoisoned (mem s) (s.ctx.header k)) :
    FreeLists (listPush n.level (s.ctx.nodeAddr n) s).ctx
        (mem (listPush n.level (s.ctx.nodeAddr n) s))
        (Function.update fl n.level (n.index :: fl n.level)) ∧
      BuddyMoved asan (HeaderOf s.ctx (insert n (FreeNodes fl))) s
        (listPush n.level (s.ctx.nodeAddr n) s) := by
  have hsub : FreeNodes fl ⊆ insert n (FreeNodes fl) := Set.subset_insert n _
  have hin : n ∈ insert n (FreeNodes fl) := Set.mem_insert n _
  have hapart : forall k, k ∈ FreeNodes fl ->
      s.ctx.nodeAddr n + 16 ≤ s.ctx.nodeAddr k ∨
        s.ctx.nodeAddr k + 16 ≤ s.ctx.nodeAddr n := by
    intro k hk
    apply hs.apart n hin k (hsub hk)
    intro heq
    exact hn (heq ▸ hk)
  have hlink := h.head_link n.level
  have hheadApart : s.ctx.freeLists n.level ≠ NULL ->
      s.ctx.nodeAddr n + 16 ≤ s.ctx.freeLists n.level ∨
        s.ctx.freeLists n.level + 16 ≤ s.ctx.nodeAddr n := by
    intro hne
    rcases hlink with hnull | ⟨k, hk, haddr⟩
    · exact absurd hnull hne
    · rw [← haddr]
      exact hapart k hk
  have hheadOther : forall k, k ∈ FreeNodes fl ->
      s.ctx.freeLists n.level ≠ NULL ->
        s.ctx.nodeAddr k = s.ctx.freeLists n.level ∨
          s.ctx.freeLists n.level + 16 ≤ s.ctx.nodeAddr k ∨
            s.ctx.nodeAddr k + 16 ≤ s.ctx.freeLists n.level :=
    fun k hk hne => hlink.apart_or_eq (hs.subset hsub) hk hne
  have hmem := mem_listPush n.level (s.ctx.nodeAddr n) s
  constructor
  · rw [hmem]
    refine h.push hs ?_ ?_ ?_ ?_ ?_ ?_
    · exact fun _ => rfl
    · rfl
    · exact BuddyNode.next_linkIn hheadApart (hlink.lt (hs.subset hsub))
    · exact BuddyNode.prev_linkIn hheadApart
    · intro k hk
      exact BuddyNode.next_linkIn_other (hapart k hk) (hheadOther k hk)
    · intro k hk
      exact BuddyNode.prev_linkIn_other (hapart k hk) (hheadOther k hk)
        (Nat.ne_of_gt (hs.pos k (hsub hk)).left) (hs.pos n hin).right
  · have hlinked : BuddyMoved asan (HeaderOf s.ctx (insert n (FreeNodes fl)))
        (s.note (Event.index n.level s.ctx.freeListsCount))
        (modifyMem (BuddyNode.linkIn (s.ctx.nodeAddr n)
          (s.ctx.freeLists n.level))
          (s.note (Event.index n.level s.ctx.freeListsCount))) := by
      apply BuddyMoved.modify
      · apply BuddyNode.wrote_linkIn
        · exact ⟨headerOf_next hin, headerOf_prev hin⟩
        · exact fun hne => (hlink.mono hsub).header_prev hne
      · rw [mem_buddyNote]
        apply BuddyNode.traced_linkIn
        · exact fun ha => (hopen ha n hin).congr rfl
        · intro hne ha
          exact ((hlink.mono hsub).unpoisoned hne (hopen ha)).congr rfl
    have hindex : BuddyMoved asan (HeaderOf s.ctx (insert n (FreeNodes fl))) s
        (s.note (Event.index n.level s.ctx.freeListsCount)) :=
      BuddyMoved.note trivial hlevel
    exact (hindex.trans hlinked).trans (BuddyMoved.setFreeList _ hlevel)

theorem listRemove_spec (h : FreeLists s.ctx (mem s) fl)
    (hs : Spread s.ctx (FreeNodes fl)) (hn : n ∈ FreeNodes fl)
    (hlevel : n.level < s.ctx.freeListsCount)
    (hopen : asan -> forall k, k ∈ FreeNodes fl ->
      Unpoisoned (mem s) (s.ctx.header k)) :
    FreeLists (listRemove n.level (s.ctx.nodeAddr n) s).ctx
        (mem (listRemove n.level (s.ctx.nodeAddr n) s))
        (Function.update fl n.level ((fl n.level).erase n.index)) ∧
      BuddyMoved asan (HeaderOf s.ctx (FreeNodes fl)) s
        (listRemove n.level (s.ctx.nodeAddr n) s) := by
  rcases h.links_to hn with ⟨hprev, hnext⟩
  rcases mem_listRemove n.level (s.ctx.nodeAddr n) s with ⟨m, hbytes, hmem⟩
  have hsame : forall k, BuddyNode.next m k = BuddyNode.next (mem s) k ∧
      BuddyNode.prev m k = BuddyNode.prev (mem s) k := by
    intro k
    unfold BuddyNode.next BuddyNode.prev Mem.word
    rw [hbytes]
    exact ⟨rfl, rfl⟩
  have hread : BuddyMoved asan (HeaderOf s.ctx (FreeNodes fl)) s
      (s.note (Event.read (s.ctx.nodeAddr n) sizeofBuddyNode)) :=
    BuddyMoved.note trivial (fun ha => hopen ha n hn)
  -- The list head is replaced only when the node was the head.
  have hunhead : forall t, BuddyMoved asan (HeaderOf s.ctx (FreeNodes fl)) s t ->
      poisoned (mem t).trace = poisoned (mem s).trace ->
        BuddyMoved asan (HeaderOf s.ctx (FreeNodes fl)) s
          (modifyMem (BuddyNode.linkOut
            (BuddyNode.prev (mem s) (s.ctx.nodeAddr n))
            (BuddyNode.next (mem s) (s.ctx.nodeAddr n))) t) := by
    intro t ht hpoison
    apply ht.trans
    apply BuddyMoved.modify
    · exact BuddyNode.wrote_linkOut hprev.header_next hnext.header_prev
    · apply BuddyNode.traced_linkOut
      · exact fun hne ha => (hprev.unpoisoned hne (hopen ha)).congr hpoison
      · exact fun hne ha => (hnext.unpoisoned hne (hopen ha)).congr hpoison
  have hmoved : BuddyMoved asan (HeaderOf s.ctx (FreeNodes fl)) s
      (listRemove n.level (s.ctx.nodeAddr n) s) := by
    unfold listRemove
    dsimp only
    split
    · apply hunhead
      · exact hread.trans (BuddyMoved.setFreeList _ hlevel)
      · rw [mem_setFreeList, mem_buddyNote]
        rfl
    · apply hunhead _ hread
      rw [mem_buddyNote]
      rfl
  refine ⟨?_, hmoved⟩
  rw [hmem]
  refine h.remove hs hn hmoved.nodeAddr
    (freeLists_listRemove n.level (s.ctx.nodeAddr n) s) ?_ ?_
  · intro k hk _
    rw [← (hsame (s.ctx.nodeAddr k)).left]
    exact BuddyNode.next_linkOut (Nat.ne_of_gt (hs.pos k hk).left)
      (hprev.apart_or_eq hs hk) (hnext.apart_or_eq hs hk) (hnext.lt hs)
  · intro k hk _
    rw [← (hsame (s.ctx.nodeAddr k)).right]
    exact BuddyNode.prev_linkOut (Nat.ne_of_gt (hs.pos k hk).left)
      (hprev.apart_or_eq hs hk) (hnext.apart_or_eq hs hk) (hprev.lt hs)

end ListOps

end Moves

end Liballo
