import Liballo.Fuzz.Defs
import Liballo.Service

/-!
# What the fuzz target does with a service

Whatever the input is, the trackers hold exactly the live blocks of the allocator, and
every one of them still has its value in all its bytes. So no check fails, and at the end
everything is freed.
-/

namespace Liballo

open Foundation

/-!
# What the trackers hold
-/

namespace Tracker

/-- The block of a tracker. -/
def block (t : Tracker) : Option Block :=
  if t.ptr = NULL then none else some ⟨t.ptr, t.size⟩

/-- Every byte of the block has the value of the tracker. -/
def Intact (m : Mem) (t : Tracker) : Prop :=
  t.ptr ≠ NULL -> forall i, i < t.size -> m.bytes (t.ptr + i) = t.magic

variable {t : Tracker} {m m' : Mem} {K : List Block}

theorem block_null (h : t.ptr = NULL) : t.block = none :=
  if_pos h

theorem block_some (h : t.ptr ≠ NULL) : t.block = some ⟨t.ptr, t.size⟩ :=
  if_neg h

theorem Intact.of_null (h : t.ptr = NULL) : t.Intact m :=
  fun hne => absurd h hne

theorem Intact.congr (h : t.Intact m) (hkeeps : KeepsBytes K m m')
    (hK : forall b, t.block = some b -> b ∈ K) : t.Intact m' := by
  intro hne i hi
  have hb := hK _ (block_some hne)
  rw [hkeeps _ hb _ ⟨Nat.le_add_right _ i, Nat.add_lt_add_left hi _⟩]
  exact h hne i hi

/-- The check of an intact block passes. -/
theorem checkMagic_intact (h : t.Intact m) (hne : t.ptr ≠ NULL) :
    checkMagic t m = some () := by
  refine if_pos (List.all_eq_true.mpr ?_)
  intro i hi
  exact decide_eq_true (h hne i (List.mem_range.mp hi))

end Tracker

/-- The blocks of the trackers `is`. -/
def held (tracked : Nat -> Tracker) (is : List Nat) : List Block :=
  is.filterMap (fun i => (tracked i).block)

section Held

variable {tracked : Nat -> Tracker} {t : Tracker} {is : List Nat} {i j : Nat}

theorem held_cons : held tracked (i :: is) = (tracked i).block.toList ++ held tracked is := by
  unfold held
  rw [List.filterMap_cons]
  cases (tracked i).block with
  | none => rfl
  | some b => rfl

theorem mem_held {b : Block} (hi : i ∈ is) (hb : (tracked i).block = some b) :
    b ∈ held tracked is :=
  List.mem_filterMap.mpr ⟨i, hi, hb⟩

/-- One tracker and the others. -/
theorem held_perm (hi : i ∈ is) :
    (held tracked is).Perm ((tracked i).block.toList ++ held tracked (is.erase i)) := by
  rw [← held_cons]
  exact (List.perm_cons_erase hi).filterMap _

/-- Changing a tracker does not change what the others hold. -/
theorem held_update (hi : i ∉ is) : held (Function.update tracked i t) is = held tracked is := by
  apply List.filterMap_congr
  intro j hj
  have hne : j ≠ i := by
    rintro rfl
    exact hi hj
  rw [Function.update_of_ne hne]

end Held

/-!
# One operation
-/

section Service

variable {σ : Type} [HasMem σ] {a : Allo σ} {limit : Nat} (S : Service a limit)

/-- The tracker `t` holds an intact block or none, besides the blocks `K`. -/
structure SlotInv (K : List Block) (t : Tracker) (s : σ) : Prop where
  inv : S.Inv s (t.block.toList ++ K)
  intact : t.Intact (mem s)

/-- What an operation on one tracker does. -/
def SlotStep (K : List Block) (s : σ) (call : Option (Tracker × σ)) : Prop :=
  exists t' s', call = some (t', s') ∧ SlotInv S K t' s' ∧ KeepsBytes K (mem s) (mem s')

variable {S} {K : List Block} {t : Tracker} {s : σ}

namespace SlotInv

theorem null (h : SlotInv S K t s) (hnull : t.ptr = NULL) : S.Inv s K := by
  have hinv := h.inv
  rw [Tracker.block_null hnull] at hinv
  exact hinv

theorem some (h : SlotInv S K t s) (hne : t.ptr ≠ NULL) :
    S.Inv s (⟨t.ptr, t.size⟩ :: K) := by
  have hinv := h.inv
  rw [Tracker.block_some hne] at hinv
  exact hinv

theorem of_null (hinv : S.Inv s K) (hnull : t.ptr = NULL) : SlotInv S K t s where
  inv := by
    rw [Tracker.block_null hnull]
    exact hinv
  intact := Tracker.Intact.of_null hnull

theorem size_pos (h : SlotInv S K t s) (hne : t.ptr ≠ NULL) : t.size > 0 :=
  (S.wellFormed (h.some hne) _ List.mem_cons_self).right.left

/-- Freeing what a tracker holds. -/
theorem free (h : SlotInv S K t s) (hne : t.ptr ≠ NULL) :
    exists s', alloFree a t.ptr t.size s = Option.some s' ∧
      KeepsBytes K (mem s) (mem s') ∧ S.Inv s' K := by
  rcases S.free (h.some hne) List.mem_cons_self with ⟨s', hcall, hkeeps, hinv⟩
  rw [List.erase_cons_head] at hkeeps hinv
  exact ⟨s', hcall, hkeeps, hinv⟩

/-- A new block that is filled with the value of its tracker. -/
theorem fill {p n : Nat} (hinv : S.Inv s (⟨p, n⟩ :: K)) (hp : p ≠ NULL) (v : UInt8) :
    SlotInv S K ⟨p, n, v⟩ (modifyMem (alloMemset p v.toNat n) s) ∧
      KeepsBytes K (mem s) (mem (modifyMem (alloMemset p v.toNat n) s)) := by
  rcases S.filled hinv v.toNat with ⟨hfilled, hothers, hbytes⟩
  refine ⟨⟨?_, fun _ i hi => ?_⟩, hothers⟩
  · rw [Tracker.block_some hp]
    exact hfilled
  · rw [hbytes i hi]
    exact UInt8.ofNat_toNat

end SlotInv

theorem fuzzAlloc_step (h : SlotInv S K t s) (opByte : UInt8) {n : Nat} (hn : n < limit) :
    SlotStep S K s (fuzzAlloc a opByte n t s) := by
  have hcleared : exists s₁, (if t.ptr ≠ NULL ∧ t.size > 0 then (do
        checkMagic t (mem s)
        alloFree a t.ptr t.size s) else some s) = some s₁ ∧
      KeepsBytes K (mem s) (mem s₁) ∧ S.Inv s₁ K := by
    by_cases hnull : t.ptr = NULL
    · exact ⟨s, if_neg (fun hboth => hboth.left hnull), KeepsBytes.refl K _, h.null hnull⟩
    · rcases h.free hnull with ⟨s₁, hcall, hkeeps, hinv⟩
      refine ⟨s₁, ?_, hkeeps, hinv⟩
      rw [if_pos ⟨hnull, h.size_pos hnull⟩, Tracker.checkMagic_intact h.intact hnull]
      exact hcall
  rcases hcleared with ⟨s₁, hclear, hkeeps₁, hinv₁⟩
  rcases S.alloc hinv₁ hn with ⟨p, s₂, hcall, hkeeps₂, hcase⟩
  unfold fuzzAlloc
  rw [hclear]
  simp only [hcall, Option.bind_eq_bind, Option.bind_some]
  rcases hcase with ⟨hnull, hinv₂⟩ | ⟨hne, hinv₂⟩
  · rw [if_neg (fun hboth => hboth.left hnull)]
    exact ⟨_, s₂, rfl, SlotInv.of_null hinv₂ hnull, hkeeps₁.trans hkeeps₂⟩
  · have hpos : n > 0 := (S.wellFormed hinv₂ _ List.mem_cons_self).right.left
    rcases SlotInv.fill hinv₂ hne opByte with ⟨hslot, hkeeps₃⟩
    rw [if_pos ⟨hne, hpos⟩]
    exact ⟨_, _, rfl, hslot, (hkeeps₁.trans hkeeps₂).trans hkeeps₃⟩

theorem fuzzFree_step (h : SlotInv S K t s) : SlotStep S K s (fuzzFree a t s) := by
  unfold fuzzFree
  by_cases hnull : t.ptr = NULL
  · rw [if_neg (not_not_intro hnull)]
    exact ⟨t, s, rfl, h, KeepsBytes.refl K _⟩
  · rcases h.free hnull with ⟨s', hcall, hkeeps, hinv⟩
    rw [if_pos hnull, if_pos (h.size_pos hnull), Tracker.checkMagic_intact h.intact hnull]
    simp only [hcall, Option.bind_eq_bind, Option.bind_some]
    exact ⟨_, s', rfl, SlotInv.of_null hinv rfl, hkeeps⟩

theorem fuzzRealloc_step (h : SlotInv S K t s) (opByte : UInt8) {n : Nat}
    (hn : n < limit) : SlotStep S K s (fuzzRealloc a opByte n t s) := by
  have hcheck : (if t.ptr ≠ NULL ∧ t.size > 0 then checkMagic t (mem s) else some ()) =
      some () := by
    split
    · rename_i hboth
      exact Tracker.checkMagic_intact h.intact hboth.left
    · rfl
  -- The block is replaced, or the call failed and the tracker is kept.
  have hcase : exists p s', alloRealloc a t.ptr t.size n s = some (p, s') ∧
      KeepsBytes K (mem s) (mem s') ∧
        (p = NULL ∧ (n = 0 ∧ S.Inv s' K ∨ n ≠ 0 ∧ SlotInv S K t s') ∨
          p ≠ NULL ∧ n ≠ 0 ∧ S.Inv s' (⟨p, n⟩ :: K)) := by
    by_cases hnull : t.ptr = NULL
    · rcases S.wrapped_realloc_null (h.null hnull) t.size hn with
        ⟨p, s', hcall, hkeeps, hcase⟩
      rw [← hnull] at hcall
      refine ⟨p, s', hcall, hkeeps, hcase.imp_left ?_⟩
      rintro ⟨hp, hinv⟩
      refine ⟨hp, ?_⟩
      by_cases hzero : n = 0
      · exact Or.inl ⟨hzero, hinv⟩
      · exact Or.inr ⟨hzero, SlotInv.of_null hinv hnull⟩
    · by_cases hzero : n = 0
      · subst hzero
        rcases h.free hnull with ⟨s', hcall, hkeeps, hinv⟩
        exact ⟨NULL, s', alloRealloc_zero hcall, hkeeps, Or.inl ⟨rfl, Or.inl ⟨rfl, hinv⟩⟩⟩
      · rcases S.wrapped_realloc (h.some hnull) List.mem_cons_self hzero hn with
          ⟨p, s', hcall, ⟨hp, hinv, hkeeps⟩ | ⟨hp, hinv, hkeeps, _⟩⟩
        · refine ⟨p, s', hcall, hkeeps.subset (fun b hb => List.mem_cons_of_mem _ hb),
            Or.inl ⟨hp, Or.inr ⟨hzero, ?_⟩⟩⟩
          have hinv' : S.Inv s' (t.block.toList ++ K) := by
            rw [Tracker.block_some hnull]
            exact hinv
          refine ⟨hinv', h.intact.congr hkeeps ?_⟩
          intro b hb
          rw [Tracker.block_some hnull] at hb
          cases hb
          exact List.mem_cons_self
        · rw [List.erase_cons_head] at hinv hkeeps
          exact ⟨p, s', hcall, hkeeps, Or.inr ⟨hp, hzero, hinv⟩⟩
  rcases hcase with ⟨p, s', hcall, hkeeps, hcase⟩
  unfold fuzzRealloc
  rw [hcheck]
  simp only [hcall, Option.bind_eq_bind, Option.bind_some]
  rcases hcase with ⟨hp, ⟨hzero, hinv⟩ | ⟨hzero, hslot⟩⟩ | ⟨hp, hzero, hinv⟩
  · rw [if_pos (Or.inr hzero), if_neg (fun hboth => hboth.left hp)]
    exact ⟨_, s', rfl, SlotInv.of_null hinv hp, hkeeps⟩
  · rw [if_neg (fun heither => heither.elim (fun hne => hne hp) hzero)]
    exact ⟨t, s', rfl, hslot, hkeeps⟩
  · rcases SlotInv.fill hinv hp opByte with ⟨hslot, hkeeps'⟩
    rw [if_pos (Or.inl hp), if_pos ⟨hp, Nat.pos_of_ne_zero hzero⟩]
    exact ⟨_, _, rfl, hslot, hkeeps.trans hkeeps'⟩

/-!
# The loop
-/

variable {tracked : Nat -> Tracker} {maxPointers maxAlloc : Nat}

variable (S) in
/-- The trackers below `maxPointers` hold the live blocks, and these are intact. -/
structure FuzzInv (maxPointers : Nat) (tracked : Nat -> Tracker) (s : σ) : Prop where
  inv : S.Inv s (held tracked (List.range maxPointers))
  intact : forall i, i < maxPointers -> (tracked i).Intact (mem s)

/-- An operation on one tracker keeps the invariant of all. -/
theorem FuzzInv.step (h : FuzzInv S maxPointers tracked s) {i : Nat} (hi : i < maxPointers)
    {call : Option (Tracker × σ)}
    (hstep : forall K, SlotInv S K (tracked i) s -> SlotStep S K s call) :
    exists t s', call = some (t, s') ∧
      FuzzInv S maxPointers (Function.update tracked i t) s' := by
  have hmem : i ∈ List.range maxPointers := List.mem_range.mpr hi
  have hnot : i ∉ (List.range maxPointers).erase i :=
    List.nodup_range.not_mem_erase
  have hslot : SlotInv S (held tracked ((List.range maxPointers).erase i)) (tracked i) s :=
    ⟨S.perm h.inv (held_perm hmem), h.intact i hi⟩
  rcases hstep _ hslot with ⟨t, s', hcall, hslot', hkeeps⟩
  refine ⟨t, s', hcall, ?_, ?_⟩
  · apply S.perm hslot'.inv
    rw [← held_update (t := t) hnot]
    have hperm : (held (Function.update tracked i t) (List.range maxPointers)).Perm _ :=
      held_perm hmem
    rw [Function.update_self] at hperm
    exact hperm.symm
  · intro j hj
    by_cases heq : j = i
    · subst heq
      rw [Function.update_self]
      exact hslot'.intact
    · rw [Function.update_of_ne heq]
      apply (h.intact j hj).congr hkeeps
      intro b hb
      exact mem_held ((List.mem_erase_of_ne heq).mpr (List.mem_range.mpr hj)) hb

theorem fuzzLoop_keeps (hpointers : 0 < maxPointers) (hpos : 0 < maxAlloc)
    (hlimit : maxAlloc ≤ limit) {data : List UInt8} (h : FuzzInv S maxPointers tracked s) :
    exists tracked' s', fuzzLoop a maxPointers maxAlloc data tracked s =
        some (tracked', s') ∧ FuzzInv S maxPointers tracked' s' := by
  induction hlength : data.length using Nat.strong_induction_on generalizing data tracked s with
  | h length ih =>
      cases data with
      | nil =>
          rw [fuzzLoop]
          exact ⟨tracked, s, rfl, h⟩
      | cons opByte data =>
          have hindex : (opByte.toNat >>> 2) % maxPointers < maxPointers :=
            Nat.mod_lt _ hpointers
          have hsize : forall n, n % maxAlloc < limit :=
            fun n => Nat.lt_of_lt_of_le (Nat.mod_lt n hpos) hlimit
          have hdata : data.length < length := by
            rw [← hlength]
            exact Nat.lt_succ_self _
          unfold fuzzLoop
          dsimp only
          cases operation opByte with
          | alloc =>
              match data with
              | [] | [_] => exact ⟨tracked, s, rfl, h⟩
              | high :: low :: rest =>
                  rcases h.step hindex (fun K hslot => fuzzAlloc_step hslot opByte
                    (hsize (twoBytes high low))) with ⟨t, s', hcall, h'⟩
                  simp only [hcall, Option.bind_eq_bind, Option.bind_some]
                  have hrest : rest.length < length :=
                    Nat.lt_trans (Nat.lt_add_of_pos_right (Nat.two_pos)) hdata
                  exact ih rest.length hrest h' rfl
          | free =>
              rcases h.step hindex (fun K hslot => fuzzFree_step hslot) with
                ⟨t, s', hcall, h'⟩
              rw [hcall]
              exact ih data.length hdata h' rfl
          | realloc =>
              match data with
              | [] | [_] => exact ⟨tracked, s, rfl, h⟩
              | high :: low :: rest =>
                  rcases h.step hindex (fun K hslot => fuzzRealloc_step hslot opByte
                    (hsize (twoBytes high low))) with ⟨t, s', hcall, h'⟩
                  simp only [hcall, Option.bind_eq_bind, Option.bind_some]
                  have hrest : rest.length < length :=
                    Nat.lt_trans (Nat.lt_add_of_pos_right (Nat.two_pos)) hdata
                  exact ih rest.length hrest h' rfl

/-!
# The end
-/

theorem fuzzTeardown_frees {is : List Nat} (hinv : S.Inv s (held tracked is))
    (hintact : forall i, i ∈ is -> (tracked i).Intact (mem s)) :
    exists s', fuzzTeardown a tracked is s = some s' ∧ S.Inv s' [] := by
  induction is generalizing s with
  | nil => exact ⟨s, rfl, hinv⟩
  | cons i is ih =>
      have hslot : SlotInv S (held tracked is) (tracked i) s :=
        ⟨held_cons ▸ hinv, hintact i List.mem_cons_self⟩
      rw [fuzzTeardown]
      by_cases hnull : (tracked i).ptr = NULL
      · rw [if_neg (not_not_intro hnull)]
        exact ih (hslot.null hnull) (fun j hj => hintact j (List.mem_cons_of_mem i hj))
      · rcases hslot.free hnull with ⟨s', hcall, hkeeps, hinv'⟩
        rw [if_pos hnull, if_pos (hslot.size_pos hnull),
          Tracker.checkMagic_intact hslot.intact hnull]
        simp only [hcall, Option.bind_eq_bind, Option.bind_some]
        apply ih hinv'
        intro j hj
        apply (hintact j (List.mem_cons_of_mem i hj)).congr hkeeps
        exact fun b hb => mem_held hj hb

/-- Whatever the input is, the target comes back from a new service, after it freed all it
took and destroyed the allocator. -/
theorem fuzzBody_closes (S : Service a limit) (hpointers : 0 < maxPointers)
    (hpos : 0 < maxAlloc) (hlimit : maxAlloc ≤ limit) (data : List UInt8)
    (h : S.Inv s []) :
    exists s', fuzzBody a maxPointers maxAlloc data s = some s' ∧ S.Closed s' [] := by
  have hheld : held (fun _ => { ptr := NULL, size := 0, magic := 0 })
      (List.range maxPointers) = [] :=
    List.filterMap_eq_nil_iff.mpr (fun _ _ => Tracker.block_null rfl)
  have hstart : FuzzInv S maxPointers
      (fun _ => { ptr := NULL, size := 0, magic := 0 }) s := by
    refine ⟨?_, fun _ _ => Tracker.Intact.of_null rfl⟩
    rw [hheld]
    exact h
  have hrun : exists tracked s₁, fuzzLoop a maxPointers maxAlloc data
      (fun _ => { ptr := NULL, size := 0, magic := 0 }) s = some (tracked, s₁) ∧ _ :=
    fuzzLoop_keeps hpointers hpos hlimit hstart
  rcases hrun with ⟨tracked, s₁, hloop, hlast⟩
  rcases fuzzTeardown_frees hlast.inv (fun i hi => hlast.intact i (List.mem_range.mp hi))
    with ⟨s₂, hteardown, hfreed⟩
  rcases S.destroy hfreed with ⟨s₃, hdestroy, hclosed⟩
  refine ⟨s₃, ?_, hclosed⟩
  unfold fuzzBody
  rw [hloop]
  simp only [Option.bind_eq_bind, Option.bind_some, hteardown, hdestroy]

end Service

end Liballo
