import Liballo.Foundation.Blocks
import Liballo.Foundation.Traces

/-!
# Memory mappings

An operating system that maps, moves and unmaps regions of the address space. It
either refuses a request or grants a region apart from every other live mapping.
Which mappings are live is read off the trace, so the grants need no state besides
the memory.
-/

namespace Liballo
namespace Foundation

/-- The mappings that are live after a trace. -/
def liveMaps : List Event -> List Block
  | [] => []
  | Event.map a n :: tr => ⟨a, n⟩ :: liveMaps tr
  | Event.remap a n a' n' :: tr => ⟨a', n'⟩ :: (liveMaps tr).erase ⟨a, n⟩
  | Event.unmap a n :: tr => (liveMaps tr).erase ⟨a, n⟩
  | _ :: tr => liveMaps tr

/-- The blocks that were unmapped in a trace, newest first. -/
def unmapped : List Event -> List Block
  | [] => []
  | Event.unmap a n :: tr => ⟨a, n⟩ :: unmapped tr
  | _ :: tr => unmapped tr

/-- The regions that were moved away from or unmapped in a trace, newest first. -/
def givenUp : List Event -> List Block
  | [] => []
  | Event.remap a n _ _ :: tr => ⟨a, n⟩ :: givenUp tr
  | Event.unmap a n :: tr => ⟨a, n⟩ :: givenUp tr
  | _ :: tr => givenUp tr

/-- The number of requests that were answered in a trace. -/
def requests : List Event -> Nat
  | [] => 0
  | Event.map _ _ :: tr => requests tr + 1
  | Event.remap _ _ _ _ :: tr => requests tr + 1
  | Event.refuse :: tr => requests tr + 1
  | _ :: tr => requests tr

/-- A region that may be granted while the mappings `L` are live. -/
def Granted (b : Block) (L : List Block) : Prop :=
  b.WellFormed ∧ forall c, c ∈ L -> b.Disjoint c

instance (b : Block) (L : List Block) : Decidable (Granted b L) :=
  inferInstanceAs (Decidable (_ ∧ _))

/-- An operating system intends the address `answer i` for the `i`-th request; the
null address stands for a refusal. -/
structure Os where
  pageSize : Nat
  answer : Nat -> Nat

namespace Os

/-- Map `n` bytes of zeros. The result is the null address if the request fails. -/
def map (os : Os) (n : Nat) (m : Mem) : Nat × Mem :=
  let a := os.answer (requests m.trace)
  if Granted ⟨a, n⟩ (liveMaps m.trace) then
    (a,
      { bytes := fun x => if a ≤ x ∧ x < a + n then 0 else m.bytes x
        trace := Event.map a n :: m.trace })
  else (0, m.note Event.refuse)

/-- Resize a mapping, moving its contents if it has to. -/
def remap (os : Os) (old n n' : Nat) (m : Mem) : Nat × Mem :=
  let a := os.answer (requests m.trace)
  if n ≠ 0 ∧ Granted ⟨a, n'⟩ ((liveMaps m.trace).erase ⟨old, n⟩) then
    (a,
      { bytes := fun x =>
          if a ≤ x ∧ x < a + n' then
            if x - a < n then m.bytes (old + (x - a)) else 0
          else m.bytes x
        trace := Event.remap old n a n' :: m.trace })
  else (0, m.note Event.refuse)

def unmap (a n : Nat) (m : Mem) : Mem :=
  m.note (Event.unmap a n)

/-- Every refusal was the intention of the system, not a conflict of the address it
had in mind. -/
def Answered (os : Os) : List Event -> Prop
  | [] => True
  | Event.refuse :: tr => os.Answered tr ∧ os.answer (requests tr) = 0
  | _ :: tr => os.Answered tr

end Os

/-!
# Outcomes of requests
-/

inductive Mapped (n : Nat) (m : Mem) : Nat -> Mem -> Prop where
  | refused : Mapped n m 0 (m.note Event.refuse)
  | granted {a : Nat} {m' : Mem} :
      Granted ⟨a, n⟩ (liveMaps m.trace) ->
      m'.trace = Event.map a n :: m.trace ->
      (forall x, Block.Contains ⟨a, n⟩ x -> m'.bytes x = 0) ->
      (forall x, ¬ Block.Contains ⟨a, n⟩ x -> m'.bytes x = m.bytes x) ->
      Mapped n m a m'

inductive Remapped (old n n' : Nat) (m : Mem) : Nat -> Mem -> Prop where
  | refused : Remapped old n n' m 0 (m.note Event.refuse)
  | granted {a : Nat} {m' : Mem} :
      Granted ⟨a, n'⟩ ((liveMaps m.trace).erase ⟨old, n⟩) ->
      m'.trace = Event.remap old n a n' :: m.trace ->
      (forall i, i < n -> i < n' -> m'.bytes (a + i) = m.bytes (old + i)) ->
      (forall x, ¬ Block.Contains ⟨a, n'⟩ x -> m'.bytes x = m.bytes x) ->
      Remapped old n n' m a m'

theorem Os.map_spec (os : Os) (n : Nat) (m : Mem) :
    Mapped n m (os.map n m).1 (os.map n m).2 := by
  unfold Os.map
  dsimp only
  split
  · rename_i hgrant
    apply Mapped.granted hgrant rfl
    · intro x hx
      exact if_pos hx
    · intro x hx
      exact if_neg hx
  · exact Mapped.refused

theorem Os.remap_spec (os : Os) (old n n' : Nat) (m : Mem) :
    Remapped old n n' m (os.remap old n n' m).1 (os.remap old n n' m).2 := by
  unfold Os.remap
  dsimp only
  split
  · rename_i hgrant
    apply Remapped.granted hgrant.right rfl
    · intro i hi hi'
      simp [hi, hi']
    · intro x hx
      exact if_neg hx
  · exact Remapped.refused

/-- One request was answered as the system intended. -/
structure Os.Asked (os : Os) (m : Mem) (a : Nat) (m' : Mem) : Prop where
  requests : requests m'.trace = requests m.trace + 1
  granted : a ≠ 0 -> os.answer (Foundation.requests m.trace) ≠ 0
  refused : a = 0 -> os.Answered m'.trace ->
    os.answer (Foundation.requests m.trace) = 0

theorem Os.map_asked (os : Os) (n : Nat) (m : Mem) :
    os.Asked m (os.map n m).1 (os.map n m).2 := by
  unfold Os.map
  dsimp only
  split
  · rename_i hgrant
    constructor
    · rfl
    · exact id
    · intro hnull _
      exact hnull
  · constructor
    · rfl
    · intro hne
      exact absurd rfl hne
    · intro _ hanswered
      exact hanswered.right

theorem Os.remap_asked (os : Os) (old n n' : Nat) (m : Mem) :
    os.Asked m (os.remap old n n' m).1 (os.remap old n n' m).2 := by
  unfold Os.remap
  dsimp only
  split
  · rename_i hgrant
    constructor
    · rfl
    · exact id
    · intro hnull _
      exact hnull
  · constructor
    · rfl
    · intro hne
      exact absurd rfl hne
    · intro _ hanswered
      exact hanswered.right

/-- What was intended of a whole trace was intended of its past. -/
theorem Os.Answered.of_append {os : Os} {es tr : List Event}
    (h : os.Answered (es ++ tr)) : os.Answered tr := by
  induction es with
  | nil => exact h
  | cons e es ih =>
      apply ih
      cases e with
      | refuse => exact h.left
      | _ => exact h

/-!
# Live mappings
-/

/-- A program holds the mappings `L` among all live ones `M`; the others belong to
somebody else. -/
structure Holds (base L M : List Block) : Prop where
  maps : M.Perm (L ++ base)
  disjoint : AllDisjoint L
  wellFormed : AllWellFormed L
  apart : forall b, b ∈ L -> forall d, d ∈ base -> b.Disjoint d

namespace Holds

variable {base L L' M : List Block} {b d : Block}

theorem start (base : List Block) : Holds base [] base :=
  { maps := List.Perm.refl base
    disjoint := List.Pairwise.nil
    wellFormed := fun _ hb => absurd hb List.not_mem_nil
    apart := fun _ hb => absurd hb List.not_mem_nil }

theorem perm (h : Holds base L M) (hperm : L.Perm L') : Holds base L' M :=
  { maps := h.maps.trans (hperm.append_right base)
    disjoint := (allDisjoint_perm hperm).mp h.disjoint
    wellFormed := fun b hb => h.wellFormed b (hperm.mem_iff.mpr hb)
    apart := fun b hb => h.apart b (hperm.mem_iff.mpr hb) }

theorem mem (h : Holds base L M) (hb : b ∈ L) : b ∈ M :=
  h.maps.mem_iff.mpr (List.mem_append_left base hb)

theorem map (h : Holds base L M) (hgrant : Granted b M) :
    Holds base (b :: L) (b :: M) := by
  have hapart : forall d, d ∈ L ++ base -> b.Disjoint d :=
    fun d hd => hgrant.right d (h.maps.mem_iff.mpr hd)
  refine
    { maps := h.maps.cons b
      disjoint := List.pairwise_cons.mpr
        ⟨fun d hd => hapart d (List.mem_append_left base hd), h.disjoint⟩
      wellFormed := ?_
      apart := ?_ }
  · intro d hd
    cases hd with
    | head => exact hgrant.left
    | tail _ hd => exact h.wellFormed d hd
  · intro d hd e he
    cases hd with
    | head => exact hapart e (List.mem_append_right L he)
    | tail _ hd => exact h.apart d hd e he

theorem unmap (h : Holds base L M) (hb : b ∈ L) :
    Holds base (L.erase b) (M.erase b) := by
  have hmaps := h.maps.erase b
  rw [List.erase_append_left base hb] at hmaps
  exact
    { maps := hmaps
      disjoint := h.disjoint.erase b
      wellFormed := fun d hd => h.wellFormed d (List.mem_of_mem_erase hd)
      apart := fun d hd => h.apart d (List.mem_of_mem_erase hd) }

theorem remap (h : Holds base L M) (hb : b ∈ L) (hgrant : Granted d (M.erase b)) :
    Holds base (d :: L.erase b) (d :: M.erase b) :=
  (h.unmap hb).map hgrant

/-- The other live mappings lie apart from a mapping that the program holds. -/
theorem alone (h : Holds base L M) (hb : b ∈ L) (hd : d ∈ M.erase b) : b.Disjoint d := by
  rcases List.mem_append.mp ((h.unmap hb).maps.mem_iff.mp hd) with hd | hd
  · exact h.disjoint.disjoint_of_mem_erase hb hd
  · exact h.apart b hb d hd

end Holds

/-- Local accesses do not change the mappings. -/
theorem liveMaps_local {P : Nat -> Nat -> Prop} {es : List Event}
    (h : forall e, e ∈ es -> e.WritesOnly P) (tr : List Event) :
    liveMaps (es ++ tr) = liveMaps tr ∧ requests (es ++ tr) = requests tr ∧
      givenUp (es ++ tr) = givenUp tr := by
  induction es with
  | nil => exact ⟨rfl, rfl, rfl⟩
  | cons e es ih =>
      have hrest := ih (fun f hf => h f (List.mem_cons_of_mem e hf))
      have hhead := h e List.mem_cons_self
      cases e <;> first
        | exact hrest
        | exact absurd hhead (by simp [Event.WritesOnly])

theorem Wrote.liveMaps_eq {P : Nat -> Nat -> Prop} {m m' : Mem}
    (h : Wrote P m m') : liveMaps m'.trace = liveMaps m.trace := by
  rcases h.trace with ⟨es, hes, hall⟩
  rw [hes]
  exact (liveMaps_local hall m.trace).left

theorem Wrote.requests_eq {P : Nat -> Nat -> Prop} {m m' : Mem}
    (h : Wrote P m m') : requests m'.trace = requests m.trace := by
  rcases h.trace with ⟨es, hes, hall⟩
  rw [hes]
  exact (liveMaps_local hall m.trace).right.left

theorem Wrote.givenUp_eq {P : Nat -> Nat -> Prop} {m m' : Mem}
    (h : Wrote P m m') : givenUp m'.trace = givenUp m.trace := by
  rcases h.trace with ⟨es, hes, hall⟩
  rw [hes]
  exact (liveMaps_local hall m.trace).right.right

/-!
# Requests that keep to live mappings

A program that moves and unmaps only live mappings has unmapped or moved every region
it was granted, each once, when the mappings it started with are live again.
-/

/-- A mapping is moved or unmapped only while it is live. -/
def MapEvent (tr : List Event) : Event -> Prop
  | Event.remap a n _ _ => ⟨a, n⟩ ∈ liveMaps tr
  | Event.unmap a n => ⟨a, n⟩ ∈ liveMaps tr
  | _ => True

/-- The regions that were granted in a trace, newest first. -/
def granted : List Event -> List Block
  | [] => []
  | Event.map a n :: tr => ⟨a, n⟩ :: granted tr
  | Event.remap _ _ a n :: tr => ⟨a, n⟩ :: granted tr
  | _ :: tr => granted tr

/-- The regions that were moved away from in a trace, newest first. -/
def moved : List Event -> List Block
  | [] => []
  | Event.remap a n _ _ :: tr => ⟨a, n⟩ :: moved tr
  | _ :: tr => moved tr

/-- Every region that was live or granted is still live, or it was given up once. -/
theorem granted_balance {es old : List Event} (h : Judged MapEvent old es) :
    (granted es ++ liveMaps old).Perm
      (moved es ++ (unmapped es ++ liveMaps (es ++ old))) := by
  have hpush : forall (b : Block) (M U T : List Block),
      (b :: (M ++ (U ++ T))).Perm (M ++ (U ++ b :: T)) := by
    intro b M U T
    exact List.perm_middle.symm.trans (List.perm_middle.symm.append_left M)
  induction es with
  | nil => exact List.Perm.refl _
  | cons e es ih =>
      have hrest := ih h.left
      have htake : forall b, b ∈ liveMaps (es ++ old) ->
          (granted es ++ liveMaps old).Perm
            (b :: (moved es ++ (unmapped es ++ (liveMaps (es ++ old)).erase b))) := by
        intro b hb
        have hout := ((List.perm_cons_erase hb).append_left (unmapped es)).append_left
          (moved es)
        exact (hrest.trans hout).trans (hpush b _ _ _).symm
      cases e with
      | map a n => exact (hrest.cons _).trans (hpush _ _ _ _)
      | unmap a n => exact (htake ⟨a, n⟩ h.right).trans List.perm_middle.symm
      | remap a n a' n' =>
          have hcons := (htake ⟨a, n⟩ h.right).cons (⟨a', n'⟩ : Block)
          exact (hcons.trans (List.Perm.swap _ _ _)).trans ((hpush _ _ _ _).cons _)
      | _ => exact hrest

theorem givenUp_perm (es : List Event) : (givenUp es).Perm (moved es ++ unmapped es) := by
  induction es with
  | nil => exact List.Perm.refl _
  | cons e es ih =>
      cases e with
      | remap a n a' n' => exact ih.cons _
      | unmap a n => exact (ih.cons _).trans List.perm_middle.symm
      | _ => exact ih

theorem givenUp_append (es tr : List Event) :
    givenUp (es ++ tr) = givenUp es ++ givenUp tr := by
  induction es with
  | nil => rfl
  | cons e es ih =>
      cases e with
      | remap a n a' n' => exact congrArg (List.cons _) ih
      | unmap a n => exact congrArg (List.cons _) ih
      | _ => exact ih

/-- An address of a mapping that was given up is in no live mapping, unless it was granted
again. -/
theorem not_live_of_givenUp {es old : List Event} {c : Block} {x : Nat}
    (h : Judged MapEvent old es) (hc : c ∈ liveMaps old)
    (hothers : forall d, d ∈ (liveMaps old).erase c -> ¬ d.Contains x)
    (hgone : c ∈ givenUp es) (hx : c.Contains x)
    (hnew : forall d, d ∈ granted es -> ¬ d.Contains x) :
    forall d, d ∈ liveMaps (es ++ old) -> ¬ d.Contains x := by
  have hbalance : (granted es ++ liveMaps old).Perm
      (givenUp es ++ liveMaps (es ++ old)) := by
    refine (granted_balance h).trans ?_
    rw [← List.append_assoc]
    exact (givenUp_perm es).symm.append_right _
  -- Count the regions around the address on both sides.
  have hnone : forall L : List Block, L.countP (fun d => decide (d.Contains x)) = 0 <->
      forall d, d ∈ L -> ¬ d.Contains x := by
    intro L
    simp [List.countP_eq_zero]
  have hcount := hbalance.countP_eq (fun d => decide (d.Contains x))
  have hold := (List.perm_cons_erase hc).countP_eq (fun d => decide (d.Contains x))
  have hgiven : 0 < (givenUp es).countP (fun d => decide (d.Contains x)) :=
    List.countP_pos_iff.mpr ⟨c, hgone, decide_eq_true hx⟩
  rw [List.countP_cons, (hnone _).mpr hothers, if_pos (decide_eq_true hx)] at hold
  rw [List.countP_append, List.countP_append, (hnone _).mpr hnew, hold] at hcount
  apply (hnone _).mp
  omega

/-- The event leaves the mapping `b` where it is. -/
def Event.Spares (b : Block) : Event -> Prop
  | Event.remap a n _ _ => ⟨a, n⟩ ≠ b
  | Event.unmap a n => ⟨a, n⟩ ≠ b
  | _ => True

theorem mem_liveMaps_of_spares {e : Event} {b : Block} {tr : List Event}
    (he : e.Spares b) (hb : b ∈ liveMaps tr) : b ∈ liveMaps (e :: tr) := by
  cases e with
  | map a n => exact List.mem_cons_of_mem _ hb
  | unmap a n => exact (List.mem_erase_of_ne (Ne.symm he)).mpr hb
  | remap a n a' n' =>
      exact List.mem_cons_of_mem _ ((List.mem_erase_of_ne (Ne.symm he)).mpr hb)
  | _ => exact hb

/-- A mapping that is spared stays live, so it was live at every event. -/
theorem Traced.while_live {b : Block} {m m' : Mem}
    (h : Traced (fun _ e => e.Spares b) m m') (hb : b ∈ liveMaps m.trace) :
    Traced (fun tr _ => b ∈ liveMaps tr) m m' ∧ b ∈ liveMaps m'.trace := by
  rcases h with ⟨es, hes, hj⟩
  rw [hes]
  suffices hlive : Judged (fun tr _ => b ∈ liveMaps tr) m.trace es ∧
      b ∈ liveMaps (es ++ m.trace) from ⟨⟨es, hes, hlive.left⟩, hlive.right⟩
  clear hes
  induction es with
  | nil => exact ⟨trivial, hb⟩
  | cons e es ih =>
      rcases ih hj.left with ⟨hjudged, hmem⟩
      exact ⟨⟨hjudged, hmem⟩, mem_liveMaps_of_spares hj.right hmem⟩

/-- The event accesses the block. -/
def Event.Accesses (b : Block) : Event -> Prop
  | Event.read a n => ¬ Block.Disjoint ⟨a, n⟩ b
  | Event.write a n => ¬ Block.Disjoint ⟨a, n⟩ b
  | Event.touch a n => ¬ Block.Disjoint ⟨a, n⟩ b
  | _ => False

/-- The block is accessed only while a mapping around it is live. -/
def BackedEvent (b : Block) (tr : List Event) (e : Event) : Prop :=
  e.Accesses b -> exists d, d ∈ liveMaps tr ∧ b.Inside d

/-!
# Removing an element by swapping in the last one
-/

theorem set_dropLast_perm {α : Type} {init : List α} {last : α} {i : Nat}
    (hi : i ≤ init.length) :
    (((init ++ [last]).set i last).dropLast).Perm
      ((init ++ [last]).eraseIdx i) := by
  rcases Nat.lt_or_eq_of_le hi with hlt | heq
  · rw [List.set_append_left i last hlt, List.dropLast_concat,
      List.eraseIdx_append_of_lt_length hlt]
    exact (List.set_perm_cons_eraseIdx hlt last).trans
      (List.perm_append_singleton last _).symm
  · subst heq
    rw [List.set_append_right _ last (Nat.le_refl _),
      List.eraseIdx_append_of_length_le (Nat.le_refl _)]
    simp

theorem eraseIdx_perm {α : Type} [BEq α] [LawfulBEq α] {xs : List α} {i : Nat}
    {x : α} (hx : xs[i]? = some x) : (xs.eraseIdx i).Perm (xs.erase x) := by
  rcases List.getElem?_eq_some_iff.mp hx with ⟨hlt, hget⟩
  have hidx : (x :: xs.eraseIdx i).Perm xs :=
    hget ▸ List.getElem_cons_eraseIdx_perm hlt
  exact (hidx.trans (List.perm_cons_erase (List.mem_of_getElem? hx))).cons_inv

end Foundation
end Liballo
