import Liballo.Buddy.Bits
import Liballo.Foundation.Dyadic
import Liballo.Foundation.LinkedList
import Liballo.Foundation.Traces

/-!
# The free lists of the buddy allocator

A free block is a node of a binary tree, and its header holds the links of the free
list of its level. Pushing and removing a node is linking in and out of a doubly
linked list as long as the headers of the nodes are apart.
-/

namespace Liballo

open Foundation

/-!
# Headers
-/

namespace BuddyNode

variable {m : Mem} {a b v : Nat}

theorem next_setNext_same (hv : v < 2 ^ 64) : next (setNext a v m) a = v :=
  Mem.word_writeWord_same hv

theorem next_setNext_ne (h : a + 16 ≤ b ∨ b + 16 ≤ a) :
    next (setNext a v m) b = next m b := by
  apply Mem.word_writeWord_disjoint
  omega

theorem prev_setNext (h : b = a ∨ a + 16 ≤ b ∨ b + 16 ≤ a) :
    prev (setNext a v m) b = prev m b := by
  apply Mem.word_writeWord_disjoint
  omega

theorem prev_setPrev_same (hv : v < 2 ^ 64) : prev (setPrev a v m) a = v :=
  Mem.word_writeWord_same hv

theorem prev_setPrev_ne (h : a + 16 ≤ b ∨ b + 16 ≤ a) :
    prev (setPrev a v m) b = prev m b := by
  apply Mem.word_writeWord_disjoint
  omega

theorem next_setPrev (h : b = a ∨ a + 16 ≤ b ∨ b + 16 ≤ a) :
    next (setPrev a v m) b = next m b := by
  apply Mem.word_writeWord_disjoint
  omega

theorem wrote_setNext {P : Nat -> Nat -> Prop} (h : P a 8) :
    Wrote P m (setNext a v m) :=
  Wrote.writeWord h

theorem wrote_setPrev {P : Nat -> Nat -> Prop} (h : P (a + 8) 8) :
    Wrote P m (setPrev a v m) :=
  Wrote.writeWord h

theorem next_linkIn {node head : Nat} (hnode : head ≠ NULL ->
      node + 16 ≤ head ∨ head + 16 ≤ node) (hhead : head < 2 ^ 64) :
    next (linkIn node head m) node = head := by
  unfold linkIn
  split
  · rw [next_setPrev (Or.inl rfl), next_setNext_same hhead]
  · rename_i hne
    rw [next_setPrev (Or.inr (hnode hne).symm), next_setPrev (Or.inl rfl),
      next_setNext_same hhead]

theorem prev_linkIn {node head : Nat} (hnode : head ≠ NULL ->
      node + 16 ≤ head ∨ head + 16 ≤ node) :
    prev (linkIn node head m) node = NULL := by
  unfold linkIn
  split
  · exact prev_setPrev_same (by decide)
  · rename_i hne
    rw [prev_setPrev_ne (hnode hne).symm]
    exact prev_setPrev_same (by decide)

theorem next_linkIn_other {node head k : Nat} (hk : node + 16 ≤ k ∨ k + 16 ≤ node)
    (hhead : head ≠ NULL -> k = head ∨ head + 16 ≤ k ∨ k + 16 ≤ head) :
    next (linkIn node head m) k = next m k := by
  unfold linkIn
  split
  · rw [next_setPrev (Or.inr hk), next_setNext_ne hk]
  · rename_i hne
    rw [next_setPrev (hhead hne), next_setPrev (Or.inr hk), next_setNext_ne hk]

theorem prev_linkIn_other {node head k : Nat} (hk : node + 16 ≤ k ∨ k + 16 ≤ node)
    (hhead : head ≠ NULL -> k = head ∨ head + 16 ≤ k ∨ k + 16 ≤ head)
    (hpos : k ≠ NULL) (hnode : node < 2 ^ 64) :
    prev (linkIn node head m) k = if k = head then node else prev m k := by
  unfold linkIn
  split
  · rename_i hnull
    rw [if_neg (fun heq => hpos (heq.trans hnull)), prev_setPrev_ne hk,
      prev_setNext (Or.inr hk)]
  · rename_i hne
    rcases hhead hne with heq | hfar
    · rw [if_pos heq, heq]
      exact prev_setPrev_same hnode
    · have hneq : k ≠ head := by omega
      rw [if_neg hneq, prev_setPrev_ne hfar, prev_setPrev_ne hk,
        prev_setNext (Or.inr hk)]

theorem next_linkOut {before after k : Nat} (hpos : k ≠ NULL)
    (hbefore : before ≠ NULL -> k = before ∨ before + 16 ≤ k ∨ k + 16 ≤ before)
    (hafter : after ≠ NULL -> k = after ∨ after + 16 ≤ k ∨ k + 16 ≤ after)
    (hlt : after < 2 ^ 64) :
    next (linkOut before after m) k = if k = before then after else next m k := by
  have hfirst : next (if before = NULL then m else setNext before after m) k =
      if k = before then after else next m k := by
    split
    · rename_i hnull
      rw [if_neg (fun heq => hpos (heq.trans hnull))]
    · rename_i hne
      rcases hbefore hne with heq | hfar
      · rw [if_pos heq, heq]
        exact next_setNext_same hlt
      · have hneq : k ≠ before := by omega
        rw [if_neg hneq, next_setNext_ne hfar]
  unfold linkOut
  dsimp only
  rw [← hfirst]
  split
  · rfl
  · rename_i hne
    exact next_setPrev (hafter hne)

theorem prev_linkOut {before after k : Nat} (hpos : k ≠ NULL)
    (hbefore : before ≠ NULL -> k = before ∨ before + 16 ≤ k ∨ k + 16 ≤ before)
    (hafter : after ≠ NULL -> k = after ∨ after + 16 ≤ k ∨ k + 16 ≤ after)
    (hlt : before < 2 ^ 64) :
    prev (linkOut before after m) k = if k = after then before else prev m k := by
  have hfirst : prev (if before = NULL then m else setNext before after m) k =
      prev m k := by
    split
    · rfl
    · rename_i hne
      exact prev_setNext (hbefore hne)
  unfold linkOut
  dsimp only
  split
  · rename_i hnull
    rw [hfirst, if_neg (fun heq => hpos (heq.trans hnull))]
  · rename_i hne
    rcases hafter hne with heq | hfar
    · rw [if_pos heq, heq]
      exact prev_setPrev_same hlt
    · have hneq : k ≠ after := by omega
      rw [if_neg hneq, prev_setPrev_ne hfar, hfirst]

theorem poisoned_linkIn (node head : Nat) (m : Mem) :
    poisoned (linkIn node head m).trace = poisoned m.trace := by
  unfold linkIn
  split <;> rfl

theorem poisoned_linkOut (before after : Nat) (m : Mem) :
    poisoned (linkOut before after m).trace = poisoned m.trace := by
  unfold linkOut
  dsimp only
  split
  · split <;> rfl
  · split <;> rfl

theorem wrote_linkIn {P : Nat -> Nat -> Prop} {node head : Nat}
    (hnode : P node 8 ∧ P (node + 8) 8) (hhead : head ≠ NULL -> P (head + 8) 8) :
    Wrote P m (linkIn node head m) := by
  have hfirst : Wrote P m (setPrev node NULL (setNext node head m)) :=
    (wrote_setNext hnode.left).trans (wrote_setPrev hnode.right)
  unfold linkIn
  split
  · exact hfirst
  · rename_i hne
    exact hfirst.trans (wrote_setPrev (hhead hne))

theorem wrote_linkOut {P : Nat -> Nat -> Prop} {before after : Nat}
    (hbefore : before ≠ NULL -> P before 8)
    (hafter : after ≠ NULL -> P (after + 8) 8) :
    Wrote P m (linkOut before after m) := by
  have hfirst : Wrote P m (if before = NULL then m else setNext before after m) := by
    split
    · exact Wrote.refl P m
    · rename_i hne
      exact wrote_setNext (hbefore hne)
  unfold linkOut
  dsimp only
  split
  · exact hfirst
  · rename_i hne
    exact hfirst.trans (wrote_setPrev (hafter hne))

end BuddyNode

/-!
# Nodes as blocks
-/

namespace BuddyContext

variable (c : BuddyContext)

def nodeAddr (n : Node) : Nat :=
  c.buffer + n.first c.maxOrder

def nodeBlock (n : Node) : Block :=
  ⟨c.nodeAddr n, n.leaves c.maxOrder⟩

def header (n : Node) : Block :=
  ⟨c.nodeAddr n, sizeofBuddyNode⟩

theorem nodeAddr_inj {l i j : Nat} (h : c.nodeAddr ⟨l, i⟩ = c.nodeAddr ⟨l, j⟩) :
    i = j := by
  unfold nodeAddr Node.first at h
  exact Nat.eq_of_mul_eq_mul_right (Nat.two_pow_pos (c.maxOrder - l))
    (Nat.add_left_cancel h)

end BuddyContext

/-- Headers in which the allocator may write. -/
def HeaderOf (c : BuddyContext) (N : Set Node) (x len : Nat) : Prop :=
  exists n, n ∈ N ∧ Block.Inside ⟨x, len⟩ (c.header n)

theorem HeaderOf.mono {c : BuddyContext} {N M : Set Node} (h : N ⊆ M) {x len : Nat}
    (hx : HeaderOf c N x len) : HeaderOf c M x len := by
  rcases hx with ⟨n, hn, hinside⟩
  exact ⟨n, h hn, hinside⟩

theorem headerOf_next {c : BuddyContext} {N : Set Node} {n : Node} (hn : n ∈ N) :
    HeaderOf c N (c.nodeAddr n) 8 := by
  refine ⟨n, hn, ?_⟩
  simp only [Block.Inside, Block.stop, BuddyContext.header, sizeofBuddyNode]
  omega

theorem headerOf_prev {c : BuddyContext} {N : Set Node} {n : Node} (hn : n ∈ N) :
    HeaderOf c N (c.nodeAddr n + 8) 8 := by
  refine ⟨n, hn, ?_⟩
  simp only [Block.Inside, Block.stop, BuddyContext.header, sizeofBuddyNode]
  omega

/-- The headers of these nodes can be told apart. -/
structure Spread (c : BuddyContext) (N : Set Node) : Prop where
  pos : forall n, n ∈ N -> 0 < c.nodeAddr n ∧ c.nodeAddr n < 2 ^ 64
  apart : forall n, n ∈ N -> forall m, m ∈ N -> n ≠ m ->
    c.nodeAddr n + 16 ≤ c.nodeAddr m ∨ c.nodeAddr m + 16 ≤ c.nodeAddr n

namespace Spread

variable {c : BuddyContext} {N M : Set Node} {n m : Node}

theorem subset (h : Spread c N) (hsub : M ⊆ N) : Spread c M :=
  { pos := fun n hn => h.pos n (hsub hn)
    apart := fun n hn m hm => h.apart n (hsub hn) m (hsub hm) }

theorem apart_or_eq (h : Spread c N) (hn : n ∈ N) (hm : m ∈ N) :
    c.nodeAddr m = c.nodeAddr n ∨ c.nodeAddr n + 16 ≤ c.nodeAddr m ∨
      c.nodeAddr m + 16 ≤ c.nodeAddr n := by
  by_cases heq : n = m
  · exact Or.inl (congrArg c.nodeAddr heq.symm)
  · exact Or.inr (h.apart n hn m hm heq)

theorem addr_ne (h : Spread c N) (hn : n ∈ N) (hm : m ∈ N) (hne : n ≠ m) :
    c.nodeAddr n ≠ c.nodeAddr m := by
  intro heq
  have hapart := h.apart n hn m hm hne
  omega

end Spread

/-- `x` is null or the address of one of the nodes. -/
def LinkTo (c : BuddyContext) (N : Set Node) (x : Nat) : Prop :=
  x = NULL ∨ exists k, k ∈ N ∧ c.nodeAddr k = x

namespace LinkTo

variable {c : BuddyContext} {N M : Set Node} {n : Node} {x : Nat}

theorem mono (h : LinkTo c N x) (hsub : N ⊆ M) : LinkTo c M x := by
  rcases h with hnull | ⟨k, hk, haddr⟩
  · exact Or.inl hnull
  · exact Or.inr ⟨k, hsub hk, haddr⟩

theorem lt (h : LinkTo c N x) (hs : Spread c N) : x < 2 ^ 64 := by
  rcases h with hnull | ⟨k, hk, haddr⟩
  · rw [hnull]
    decide
  · rw [← haddr]
    exact (hs.pos k hk).right

theorem apart_or_eq (h : LinkTo c N x) (hs : Spread c N) (hn : n ∈ N)
    (hne : x ≠ NULL) : c.nodeAddr n = x ∨ x + 16 ≤ c.nodeAddr n ∨
      c.nodeAddr n + 16 ≤ x := by
  rcases h with hnull | ⟨k, hk, haddr⟩
  · exact absurd hnull hne
  · rw [← haddr]
    exact hs.apart_or_eq hk hn

theorem header_next (h : LinkTo c N x) (hne : x ≠ NULL) : HeaderOf c N x 8 := by
  rcases h with hnull | ⟨k, hk, haddr⟩
  · exact absurd hnull hne
  · rw [← haddr]
    exact headerOf_next hk

theorem header_prev (h : LinkTo c N x) (hne : x ≠ NULL) :
    HeaderOf c N (x + 8) 8 := by
  rcases h with hnull | ⟨k, hk, haddr⟩
  · exact absurd hnull hne
  · rw [← haddr]
    exact headerOf_prev hk

end LinkTo

/-!
# The lists
-/

/-- The free nodes, when `fl l` lists the indices of the free nodes of level `l`. -/
def FreeNodes (fl : Nat -> List Nat) : Set Node :=
  { n | n.index ∈ fl n.level }

def levelAddrs (c : BuddyContext) (fl : Nat -> List Nat) (level : Nat) : List Nat :=
  (fl level).map (fun i => c.nodeAddr ⟨level, i⟩)

def FreeLists (c : BuddyContext) (m : Mem) (fl : Nat -> List Nat) : Prop :=
  forall level, DList (BuddyNode.next m) (BuddyNode.prev m) NULL
    (c.freeLists level) (levelAddrs c fl level)

section Lists

variable {c c' : BuddyContext} {m m' : Mem} {fl : Nat -> List Nat} {n : Node}

theorem mem_levelAddrs {level x : Nat} : x ∈ levelAddrs c fl level <->
    exists k, k ∈ FreeNodes fl ∧ k.level = level ∧ c.nodeAddr k = x := by
  unfold levelAddrs
  rw [List.mem_map]
  constructor
  · intro h
    rcases h with ⟨i, hi, rfl⟩
    exact ⟨⟨level, i⟩, hi, rfl, rfl⟩
  · intro h
    rcases h with ⟨k, hk, rfl, rfl⟩
    exact ⟨k.index, hk, rfl⟩

theorem levelAddrs_congr (haddr : forall k, c'.nodeAddr k = c.nodeAddr k)
    (fl : Nat -> List Nat) (level : Nat) :
    levelAddrs c' fl level = levelAddrs c fl level := by
  unfold levelAddrs
  exact List.map_congr_left (fun i _ => haddr ⟨level, i⟩)

theorem levelAddrs_update_ne {level k : Nat} (hlevel : level ≠ k) (xs : List Nat) :
    levelAddrs c (Function.update fl k xs) level = levelAddrs c fl level := by
  unfold levelAddrs
  rw [Function.update_of_ne hlevel]

theorem freeNodes_push (fl : Nat -> List Nat) (n : Node) :
    FreeNodes (Function.update fl n.level (n.index :: fl n.level)) =
      insert n (FreeNodes fl) := by
  ext k
  rcases n with ⟨l, i⟩
  rcases k with ⟨l', i'⟩
  by_cases hlevel : l' = l
  · subst hlevel
    simp [FreeNodes]
  · simp [FreeNodes, hlevel]

theorem freeNodes_erase (fl : Nat -> List Nat) (n : Node)
    (hnodup : (fl n.level).Nodup) :
    FreeNodes (Function.update fl n.level ((fl n.level).erase n.index)) =
      FreeNodes fl \ {n} := by
  ext k
  rcases n with ⟨l, i⟩
  rcases k with ⟨l', i'⟩
  by_cases hlevel : l' = l
  · subst hlevel
    simp [FreeNodes, hnodup.mem_erase_iff, and_comm]
  · simp [FreeNodes, hlevel]

namespace FreeLists

theorem nodup (h : FreeLists c m fl) (level : Nat) : (fl level).Nodup :=
  List.Nodup.of_map _ (h level).chain.nodup

/-- A list starts with the null pointer or with one of its nodes. -/
theorem head_cases (h : FreeLists c m fl) (level : Nat) :
    c.freeLists level = NULL ∧ fl level = [] ∨
      exists i rest, fl level = i :: rest ∧
        c.freeLists level = c.nodeAddr ⟨level, i⟩ := by
  have hlist := h level
  unfold levelAddrs at hlist
  cases hfl : fl level with
  | nil =>
      rw [hfl] at hlist
      exact Or.inl ⟨hlist, rfl⟩
  | cons i rest =>
      rw [hfl] at hlist
      exact Or.inr ⟨i, rest, rfl, hlist.left⟩

theorem head_link (h : FreeLists c m fl) (level : Nat) :
    LinkTo c (FreeNodes fl) (c.freeLists level) := by
  rcases h.head_cases level with ⟨hnull, _⟩ | ⟨i, rest, hfl, haddr⟩
  · exact Or.inl hnull
  · refine Or.inr ⟨⟨level, i⟩, ?_, haddr.symm⟩
    show i ∈ fl level
    rw [hfl]
    exact List.mem_cons_self

/-- The lists depend on the links of their nodes. -/
theorem congr (h : FreeLists c m fl)
    (haddr : forall k, c'.nodeAddr k = c.nodeAddr k)
    (hheads : c'.freeLists = c.freeLists)
    (hnext : forall k, k ∈ FreeNodes fl ->
      BuddyNode.next m' (c.nodeAddr k) = BuddyNode.next m (c.nodeAddr k))
    (hprev : forall k, k ∈ FreeNodes fl ->
      BuddyNode.prev m' (c.nodeAddr k) = BuddyNode.prev m (c.nodeAddr k)) :
    FreeLists c' m' fl := by
  intro level
  rw [levelAddrs_congr haddr, hheads]
  apply (h level).congr
  · intro y hy
    rcases mem_levelAddrs.mp hy with ⟨k, hk, _, rfl⟩
    exact hnext k hk
  · intro y hy
    rcases mem_levelAddrs.mp hy with ⟨k, hk, _, rfl⟩
    exact hprev k hk

/-- Linking a node in. -/
theorem push (h : FreeLists c m fl) (hs : Spread c (insert n (FreeNodes fl)))
    (haddr : forall k, c'.nodeAddr k = c.nodeAddr k)
    (hheads : c'.freeLists =
      Function.update c.freeLists n.level (c.nodeAddr n))
    (hnextn : BuddyNode.next m' (c.nodeAddr n) = c.freeLists n.level)
    (hprevn : BuddyNode.prev m' (c.nodeAddr n) = NULL)
    (hnext : forall k, k ∈ FreeNodes fl ->
      BuddyNode.next m' (c.nodeAddr k) = BuddyNode.next m (c.nodeAddr k))
    (hprev : forall k, k ∈ FreeNodes fl ->
      BuddyNode.prev m' (c.nodeAddr k) =
        if c.nodeAddr k = c.freeLists n.level then c.nodeAddr n
        else BuddyNode.prev m (c.nodeAddr k)) :
    FreeLists c' m'
      (Function.update fl n.level (n.index :: fl n.level)) := by
  intro level
  have hnextLevel : forall y, y ∈ levelAddrs c fl level ->
      BuddyNode.next m' y = BuddyNode.next m y := by
    intro y hy
    rcases mem_levelAddrs.mp hy with ⟨k, hk, _, rfl⟩
    exact hnext k hk
  have hprevLevel : forall y, y ∈ levelAddrs c fl level ->
      BuddyNode.prev m' y = if y = c.freeLists n.level then c.nodeAddr n
        else BuddyNode.prev m y := by
    intro y hy
    rcases mem_levelAddrs.mp hy with ⟨k, hk, _, rfl⟩
    exact hprev k hk
  have hpos : c.nodeAddr n ≠ NULL :=
    Nat.ne_of_gt (hs.pos n (Set.mem_insert n _)).left
  rw [levelAddrs_congr haddr, hheads]
  by_cases hlevel : level = n.level
  · subst hlevel
    have hlist := (h n.level).push hpos hnextn hprevn hnextLevel hprevLevel
    rw [Function.update_self]
    unfold levelAddrs at hlist ⊢
    rw [Function.update_self]
    exact hlist
  · rw [Function.update_of_ne hlevel, levelAddrs_update_ne hlevel]
    apply (h level).congr hnextLevel
    intro y hy
    rw [hprevLevel y hy, if_neg]
    intro hhead
    rcases mem_levelAddrs.mp hy with ⟨k, hk, hklevel, rfl⟩
    rcases h.head_cases n.level with ⟨hnull, _⟩ | ⟨i, rest, hfl, haddr⟩
    · exact Nat.ne_of_gt (hs.pos k (Set.mem_insert_of_mem n hk)).left
        (hhead.trans hnull)
    · have hi : (⟨n.level, i⟩ : Node) ∈ FreeNodes fl := by
        show i ∈ fl n.level
        rw [hfl]
        exact List.mem_cons_self
      have hne : k ≠ ⟨n.level, i⟩ := by
        intro heq
        have hsame : k.level = n.level := by rw [heq]
        exact hlevel (hklevel.symm.trans hsame)
      exact hs.addr_ne (Set.mem_insert_of_mem n hk)
        (Set.mem_insert_of_mem n hi) hne (hhead.trans haddr)

/-- The links of a node are null or lead to nodes of its level. -/
theorem links (h : FreeLists c m fl) (hn : n ∈ FreeNodes fl) :
    (BuddyNode.prev m (c.nodeAddr n) = NULL ∨
        BuddyNode.prev m (c.nodeAddr n) ∈ levelAddrs c fl n.level) ∧
      (BuddyNode.next m (c.nodeAddr n) = NULL ∨
        BuddyNode.next m (c.nodeAddr n) ∈ levelAddrs c fl n.level) := by
  have hmem : c.nodeAddr n ∈ levelAddrs c fl n.level :=
    mem_levelAddrs.mpr ⟨n, hn, rfl, rfl⟩
  constructor
  · exact ((h n.level).prev_mem hmem).imp And.right And.left
  · exact (h n.level).next_mem hmem

theorem links_to (h : FreeLists c m fl) (hn : n ∈ FreeNodes fl) :
    LinkTo c (FreeNodes fl) (BuddyNode.prev m (c.nodeAddr n)) ∧
      LinkTo c (FreeNodes fl) (BuddyNode.next m (c.nodeAddr n)) := by
  have hlink : forall x, x = NULL ∨ x ∈ levelAddrs c fl n.level ->
      LinkTo c (FreeNodes fl) x := by
    intro x hx
    rcases hx with hnull | hmem
    · exact Or.inl hnull
    · rcases mem_levelAddrs.mp hmem with ⟨k, hk, _, haddr⟩
      exact Or.inr ⟨k, hk, haddr⟩
  exact ⟨hlink _ (h.links hn).left, hlink _ (h.links hn).right⟩

/-- Linking a node out. -/
theorem remove (h : FreeLists c m fl) (hs : Spread c (FreeNodes fl))
    (hn : n ∈ FreeNodes fl) (haddr : forall k, c'.nodeAddr k = c.nodeAddr k)
    (hheads : c'.freeLists =
      if BuddyNode.prev m (c.nodeAddr n) = NULL then
        Function.update c.freeLists n.level (BuddyNode.next m (c.nodeAddr n))
      else c.freeLists)
    (hnext : forall k, k ∈ FreeNodes fl -> k ≠ n ->
      BuddyNode.next m' (c.nodeAddr k) =
        if c.nodeAddr k = BuddyNode.prev m (c.nodeAddr n) then
          BuddyNode.next m (c.nodeAddr n)
        else BuddyNode.next m (c.nodeAddr k))
    (hprev : forall k, k ∈ FreeNodes fl -> k ≠ n ->
      BuddyNode.prev m' (c.nodeAddr k) =
        if c.nodeAddr k = BuddyNode.next m (c.nodeAddr n) then
          BuddyNode.prev m (c.nodeAddr n)
        else BuddyNode.prev m (c.nodeAddr k)) :
    FreeLists c' m'
      (Function.update fl n.level ((fl n.level).erase n.index)) := by
  intro level
  have hmem : c.nodeAddr n ∈ levelAddrs c fl n.level :=
    mem_levelAddrs.mpr ⟨n, hn, rfl, rfl⟩
  have hnull : forall l, NULL ∉ levelAddrs c fl l :=
    fun l hl => (h l).chain.ne_zero hl rfl
  have hfirst := (h n.level).prev_mem hmem
  rw [levelAddrs_congr haddr, hheads]
  by_cases hlevel : level = n.level
  · subst hlevel
    have hlist : DList (BuddyNode.next m') (BuddyNode.prev m') NULL
        (if c.freeLists n.level = c.nodeAddr n then
          BuddyNode.next m (c.nodeAddr n) else c.freeLists n.level)
        ((levelAddrs c fl n.level).erase (c.nodeAddr n)) := by
      apply (h n.level).remove hmem (hnull n.level)
      · intro y hy hne
        rcases mem_levelAddrs.mp hy with ⟨k, hk, _, rfl⟩
        exact hnext k hk (fun heq => hne (congrArg c.nodeAddr heq))
      · intro y hy hne
        rcases mem_levelAddrs.mp hy with ⟨k, hk, _, rfl⟩
        exact hprev k hk (fun heq => hne (congrArg c.nodeAddr heq))
    have hinj : Function.Injective (fun i => c.nodeAddr ⟨n.level, i⟩) :=
      fun _ _ heq => c.nodeAddr_inj heq
    have herase : levelAddrs c
        (Function.update fl n.level ((fl n.level).erase n.index)) n.level =
          (levelAddrs c fl n.level).erase (c.nodeAddr n) := by
      unfold levelAddrs
      rw [Function.update_self, List.map_erase hinj]
    have hhead : (if BuddyNode.prev m (c.nodeAddr n) = NULL then
        Function.update c.freeLists n.level (BuddyNode.next m (c.nodeAddr n))
        else c.freeLists) n.level =
          if c.freeLists n.level = c.nodeAddr n then
            BuddyNode.next m (c.nodeAddr n)
          else c.freeLists n.level := by
      rcases hfirst with ⟨hhead, hprevn⟩ | ⟨hprevMem, hlink⟩
      · rw [if_pos hprevn, if_pos hhead, Function.update_self]
      · have hprevNe : BuddyNode.prev m (c.nodeAddr n) ≠ NULL :=
          (h n.level).chain.ne_zero hprevMem
        have hheadNe : c.freeLists n.level ≠ c.nodeAddr n := by
          intro heq
          have hback := (h n.level).prev_head (heq ▸ hmem)
          rw [heq] at hback
          exact hprevNe hback
        rw [if_neg hprevNe, if_neg hheadNe]
    rw [herase, hhead]
    exact hlist
  · have hsame : (if BuddyNode.prev m (c.nodeAddr n) = NULL then
        Function.update c.freeLists n.level (BuddyNode.next m (c.nodeAddr n))
        else c.freeLists) level = c.freeLists level := by
      split
      · exact Function.update_of_ne hlevel _ _
      · rfl
    -- A link of the removed node leads to a node of its own level.
    have hother : forall k, k ∈ FreeNodes fl -> k.level = level ->
        forall y, y = NULL ∨ y ∈ levelAddrs c fl n.level -> c.nodeAddr k ≠ y := by
      intro k hk hklevel y hy heq
      rcases hy with hzero | hy
      · exact Nat.ne_of_gt (hs.pos k hk).left (heq.trans hzero)
      · rcases mem_levelAddrs.mp hy with ⟨j, hj, hjlevel, hjaddr⟩
        have hkj : k ≠ j := by
          intro hkj
          rw [hkj, hjlevel] at hklevel
          exact hlevel hklevel.symm
        exact hs.addr_ne hk hj hkj (heq.trans hjaddr.symm)
    have hkn : forall k, k.level = level -> k ≠ n := by
      intro k hk heq
      rw [heq] at hk
      exact hlevel hk.symm
    rw [hsame, levelAddrs_update_ne hlevel]
    apply (h level).congr
    · intro y hy
      rcases mem_levelAddrs.mp hy with ⟨k, hk, hklevel, rfl⟩
      rw [hnext k hk (hkn k hklevel), if_neg]
      exact hother k hk hklevel _ (h.links hn).left
    · intro y hy
      rcases mem_levelAddrs.mp hy with ⟨k, hk, hklevel, rfl⟩
      rw [hprev k hk (hkn k hklevel), if_neg]
      exact hother k hk hklevel _ (h.links hn).right

end FreeLists

end Lists

end Liballo
