import Mathlib.Data.List.Nodup
import Mathlib.Data.List.Perm.Subperm

/-!
# Linked lists in memory

A null-terminated list is given by its head and the function that reads the link
of a node; the nodes in their order are a ghost list. The same ghost list describes
a doubly linked list, where the link back of each node names the node before it.
-/

namespace Liballo
namespace Foundation

/-!
# Singly linked lists
-/

def Chain (next : Nat -> Nat) : Nat -> List Nat -> Prop
  | head, [] => head = 0
  | head, x :: xs => head = x ∧ x ≠ 0 ∧ Chain next (next x) xs

namespace Chain

variable {next next' : Nat -> Nat} {head : Nat} {xs ys : List Nat}

theorem congr (h : Chain next head xs)
    (heq : forall x, x ∈ xs -> next' x = next x) : Chain next' head xs := by
  induction xs generalizing head with
  | nil => exact h
  | cons x xs ih =>
      rcases h with ⟨hhead, hne, htail⟩
      refine ⟨hhead, hne, ?_⟩
      rw [heq x List.mem_cons_self]
      exact ih htail (fun y hy => heq y (List.mem_cons_of_mem x hy))

/-- The links determine the nodes. -/
theorem unique (h : Chain next head xs) (h' : Chain next head ys) : xs = ys := by
  induction xs generalizing head ys with
  | nil =>
      cases ys with
      | nil => rfl
      | cons y ys => exact absurd (h'.left.symm.trans h) h'.right.left
  | cons x xs ih =>
      cases ys with
      | nil => exact absurd (h.left.symm.trans h') h.right.left
      | cons y ys =>
          have hxy : x = y := h.left.symm.trans h'.left
          subst hxy
          rw [ih h.right.right h'.right.right]

theorem drop (h : Chain next head (xs ++ ys)) : exists mid, Chain next mid ys := by
  induction xs generalizing head with
  | nil => exact ⟨head, h⟩
  | cons x xs ih => exact ih h.right.right

/-- A list that ends has no cycle. -/
theorem nodup (h : Chain next head xs) : xs.Nodup := by
  induction xs generalizing head with
  | nil => exact List.nodup_nil
  | cons x xs ih =>
      rw [List.nodup_cons]
      constructor
      · intro hmem
        rcases List.append_of_mem hmem with ⟨pre, post, hsplit⟩
        have htail : Chain next (next x) (pre ++ x :: post) := by
          rw [← hsplit]
          exact h.right.right
        rcases htail.drop with ⟨mid, hmid⟩
        have hmidEq : mid = x := hmid.left
        have hhere : Chain next x (x :: xs) := ⟨rfl, h.right.left, h.right.right⟩
        have hsame : x :: xs = x :: post := hhere.unique (hmidEq ▸ hmid)
        have hlen := congrArg List.length hsame
        rw [hsplit] at hlen
        simp only [List.length_cons, List.length_append] at hlen
        omega
      · exact ih h.right.right

theorem ne_zero (h : Chain next head xs) {x : Nat} (hx : x ∈ xs) : x ≠ 0 := by
  induction xs generalizing head with
  | nil => cases hx
  | cons y ys ih =>
      cases hx with
      | head => exact h.right.left
      | tail _ hy => exact ih h.right.right hy

/-- Linking a node in behind `cur`. -/
theorem insert_after {pre post : List Nat} {cur new : Nat}
    (h : Chain next head (pre ++ cur :: post)) (hnew : new ≠ 0)
    (hcurLink : next' cur = new) (hnewLink : next' new = next cur)
    (hother : forall x, x ∈ pre ++ cur :: post -> x ≠ cur -> next' x = next x) :
    Chain next' head (pre ++ cur :: new :: post) := by
  have hnodup := h.nodup
  induction pre generalizing head with
  | nil =>
      rcases h with ⟨hhead, hne, htail⟩
      refine ⟨hhead, hne, hcurLink, hnew, ?_⟩
      rw [hnewLink]
      apply htail.congr
      intro x hx
      apply hother x (List.mem_cons_of_mem cur hx)
      intro heq
      subst heq
      exact (List.nodup_cons.mp hnodup).left hx
  | cons p pre ih =>
      rcases h with ⟨hhead, hne, htail⟩
      refine ⟨hhead, hne, ?_⟩
      have hpcur : p ≠ cur := by
        intro heq
        subst heq
        apply (List.nodup_cons.mp hnodup).left
        exact List.mem_append_right pre List.mem_cons_self
      rw [hother p List.mem_cons_self hpcur]
      exact ih htail
        (fun x hx => hother x (List.mem_cons_of_mem p hx))
        (List.nodup_cons.mp hnodup).right

end Chain

/-- A duplicate-free list of addresses below `n` has at most `n` members. -/
theorem length_le_of_lt {xs : List Nat} {n : Nat} (hnodup : xs.Nodup)
    (hlt : forall x, x ∈ xs -> x < n) : xs.length ≤ n := by
  have hsub : xs ⊆ List.range n := fun x hx => List.mem_range.mpr (hlt x hx)
  have hle := (hnodup.subperm hsub).length_le
  rwa [List.length_range] at hle

/-- The nodes of a list of addresses below `n` and the null address are apart. -/
theorem Chain.length_lt {next : Nat -> Nat} {head n : Nat} {xs : List Nat}
    (h : Chain next head xs) (hpos : 0 < n)
    (hlt : forall x, x ∈ xs -> x < n) : xs.length < n := by
  have hnodup : (0 :: xs).Nodup := by
    rw [List.nodup_cons]
    exact ⟨fun hmem => h.ne_zero hmem rfl, h.nodup⟩
  have hle := length_le_of_lt hnodup (n := n) (by
    intro x hx
    cases hx with
    | head => exact hpos
    | tail _ hx => exact hlt x hx)
  exact hle

/-!
# Doubly linked lists
-/

/-- `before` is what the first node links back to. -/
def DList (next prev : Nat -> Nat) : Nat -> Nat -> List Nat -> Prop
  | _, head, [] => head = 0
  | before, head, x :: xs =>
      head = x ∧ x ≠ 0 ∧ prev x = before ∧ DList next prev x (next x) xs

namespace DList

variable {next next' prev prev' : Nat -> Nat} {before head x : Nat}
variable {xs ys : List Nat}

theorem chain (h : DList next prev before head xs) : Chain next head xs := by
  induction xs generalizing before head with
  | nil => exact h
  | cons y ys ih => exact ⟨h.left, h.right.left, ih h.right.right.right⟩

theorem congr (h : DList next prev before head xs)
    (hnext : forall y, y ∈ xs -> next' y = next y)
    (hprev : forall y, y ∈ xs -> prev' y = prev y) :
    DList next' prev' before head xs := by
  induction xs generalizing before head with
  | nil => exact h
  | cons y ys ih =>
      rcases h with ⟨hhead, hne, hback, htail⟩
      refine ⟨hhead, hne, (hprev y List.mem_cons_self).trans hback, ?_⟩
      rw [hnext y List.mem_cons_self]
      exact ih htail (fun z hz => hnext z (List.mem_cons_of_mem y hz))
        (fun z hz => hprev z (List.mem_cons_of_mem y hz))

/-- A node is the first one or links back to a node that links to it. -/
theorem prev_mem (h : DList next prev before head xs) (hx : x ∈ xs) :
    head = x ∧ prev x = before ∨ prev x ∈ xs ∧ next (prev x) = x := by
  induction xs generalizing before head with
  | nil => cases hx
  | cons y ys ih =>
      rcases h with ⟨hhead, _, hback, htail⟩
      cases hx with
      | head => exact Or.inl ⟨hhead, hback⟩
      | tail _ hx =>
          rcases ih htail hx with ⟨hlink, hprev⟩ | ⟨hmem, hlink⟩
          · rw [hprev]
            exact Or.inr ⟨List.mem_cons_self, hlink⟩
          · exact Or.inr ⟨List.mem_cons_of_mem y hmem, hlink⟩

theorem next_mem (h : DList next prev before head xs) (hx : x ∈ xs) :
    next x = 0 ∨ next x ∈ xs := by
  induction xs generalizing before head with
  | nil => cases hx
  | cons y ys ih =>
      rcases h with ⟨_, _, _, htail⟩
      cases hx with
      | head =>
          cases ys with
          | nil => exact Or.inl htail
          | cons z zs =>
              rw [htail.left]
              exact Or.inr (List.mem_cons_of_mem x List.mem_cons_self)
      | tail _ hx =>
          exact (ih htail hx).imp_right (List.mem_cons_of_mem y)

theorem prev_head (h : DList next prev before head xs) (hhead : head ∈ xs) :
    prev head = before := by
  cases xs with
  | nil => cases hhead
  | cons y ys =>
      rw [h.left]
      exact h.right.right.left

/-- The first node takes another back link. -/
theorem rehead (h : DList next prev before head xs) {after : Nat}
    (hnext : forall y, y ∈ xs -> next' y = next y)
    (hprev : forall y, y ∈ xs -> prev' y = if y = head then after else prev y) :
    DList next' prev' after head xs := by
  cases xs with
  | nil => exact h
  | cons y ys =>
      have hnodup := List.nodup_cons.mp h.chain.nodup
      rcases h with ⟨hhead, hne, _, htail⟩
      refine ⟨hhead, hne, ?_, ?_⟩
      · rw [hprev y List.mem_cons_self, if_pos hhead.symm]
      · rw [hnext y List.mem_cons_self]
        apply htail.congr
        · exact fun z hz => hnext z (List.mem_cons_of_mem y hz)
        · intro z hz
          rw [hprev z (List.mem_cons_of_mem y hz), if_neg]
          intro heq
          rw [heq, hhead] at hz
          exact hnodup.left hz

/-- Linking a node in at the front. -/
theorem push (h : DList next prev 0 head xs) (hx : x ≠ 0)
    (hxNext : next' x = head) (hxPrev : prev' x = 0)
    (hnext : forall y, y ∈ xs -> next' y = next y)
    (hprev : forall y, y ∈ xs -> prev' y = if y = head then x else prev y) :
    DList next' prev' 0 x (x :: xs) := by
  refine ⟨rfl, hx, hxPrev, ?_⟩
  rw [hxNext]
  exact h.rehead hnext hprev

/-- Linking a node out. -/
theorem remove (h : DList next prev before head xs) (hx : x ∈ xs)
    (hbefore : before ∉ xs)
    (hnext : forall y, y ∈ xs -> y ≠ x ->
      next' y = if y = prev x then next x else next y)
    (hprev : forall y, y ∈ xs -> y ≠ x ->
      prev' y = if y = next x then prev x else prev y) :
    DList next' prev' before (if head = x then next x else head)
      (xs.erase x) := by
  induction xs generalizing before head with
  | nil => cases hx
  | cons y ys ih =>
      have hchain := h.chain
      have hnodup := List.nodup_cons.mp hchain.nodup
      rcases h with ⟨hhead, hne, hback, htail⟩
      have hbeforeTail : before ∉ ys :=
        fun hmem => hbefore (List.mem_cons_of_mem y hmem)
      by_cases hxy : y = x
      · subst hxy
        rw [List.erase_cons_head, if_pos hhead]
        have hother : forall z, z ∈ ys -> z ≠ y := by
          intro z hz heq
          exact hnodup.left (heq ▸ hz)
        apply htail.rehead
        · intro z hz
          rw [hnext z (List.mem_cons_of_mem y hz) (hother z hz), if_neg]
          intro heq
          rw [heq, hback] at hz
          exact hbeforeTail hz
        · intro z hz
          rw [hprev z (List.mem_cons_of_mem y hz) (hother z hz), hback]
      · have hxs : x ∈ ys := by
          cases hx with
          | head => exact absurd rfl hxy
          | tail _ hx => exact hx
        have hheadNe : head ≠ x := fun heq => hxy (hhead.symm.trans heq)
        rw [List.erase_cons_tail (by simpa using hxy), if_neg hheadNe]
        have hlink : y = prev x <-> next y = x := by
          constructor
          · intro heq
            rcases htail.prev_mem hxs with ⟨hfirst, _⟩ | ⟨_, hlast⟩
            · exact hfirst
            · exact heq ▸ hlast
          · intro heq
            rw [← heq]
            exact (htail.prev_head (heq ▸ hxs)).symm
        have hback' : prev' y = before := by
          rw [hprev y List.mem_cons_self hxy, if_neg, hback]
          intro heq
          rcases htail.next_mem hxs with hzero | hmem
          · exact hne (heq.trans hzero)
          · exact hnodup.left (heq ▸ hmem)
        have htail' := ih htail hxs hnodup.left
          (fun z hz => hnext z (List.mem_cons_of_mem y hz))
          (fun z hz => hprev z (List.mem_cons_of_mem y hz))
        refine ⟨hhead, hne, hback', ?_⟩
        rw [hnext y List.mem_cons_self hxy]
        by_cases hy : y = prev x
        · rw [if_pos hy]
          rwa [if_pos (hlink.mp hy)] at htail'
        · rw [if_neg hy]
          rwa [if_neg (fun heq => hy (hlink.mpr heq))] at htail'

end DList

end Foundation
end Liballo
