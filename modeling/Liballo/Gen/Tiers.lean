import Liballo.Gen.Defs

/-!
# The tier that serves a size

The generic allocator computes the tier of a block from its size, on every call anew. The
tier is made explicit here, and the operations are restated by it.
-/

namespace Liballo

open Foundation

inductive Tier where
  | pool (i : Nat)
  | buddy
  | page
  deriving DecidableEq, Repr

/-- The tier that serves blocks of a size. -/
def genTier (size : Nat) : Tier :=
  if size ≤ smallObjLimit then Tier.pool (getPoolIndex size)
  else if size ≤ mediumObjLimit then Tier.buddy
  else Tier.page

/-!
# The table of pools
-/

/-- The blocks of the pool that the table names are large enough. -/
theorem poolIndexTable_spec :
    forall q, q < 128 -> poolIndexTable.getD q 0 < poolCount ∧
      16 * (q + 1) ≤ poolSizes.getD (poolIndexTable.getD q 0) 0 := by
  decide

theorem getPoolIndex_eq {size : Nat} (hpos : size ≠ 0) (hle : size ≤ smallObjLimit) :
    (size - 1) / 16 < 128 ∧
      getPoolIndex size = poolIndexTable.getD ((size - 1) / 16) 0 := by
  have hlimit : smallObjLimit = 16 * 128 := rfl
  have hidx : (size - 1) / 16 < 128 := by omega
  refine ⟨hidx, ?_⟩
  unfold getPoolIndex
  rw [if_neg hpos]
  dsimp only
  rw [Nat.shiftRight_eq_div_pow, if_neg (by omega)]

theorem getPoolIndex_spec {size : Nat} (hpos : size ≠ 0) (hle : size ≤ smallObjLimit) :
    getPoolIndex size < poolCount ∧ size ≤ poolSizes.getD (getPoolIndex size) 0 := by
  rcases getPoolIndex_eq hpos hle with ⟨hidx, heq⟩
  rcases poolIndexTable_spec _ hidx with ⟨hlt, hsize⟩
  rw [heq]
  refine ⟨hlt, Nat.le_trans ?_ hsize⟩
  omega

theorem genTier_pool {size i : Nat} (h : genTier size = Tier.pool i) :
    size ≤ smallObjLimit ∧ getPoolIndex size = i := by
  unfold genTier at h
  split at h
  · rename_i hle
    exact ⟨hle, Tier.pool.inj h⟩
  · split at h
    · cases h
    · cases h

theorem genTier_buddy {size : Nat} (h : genTier size = Tier.buddy) :
    smallObjLimit < size ∧ size ≤ mediumObjLimit := by
  unfold genTier at h
  split at h
  · cases h
  · rename_i hsmall
    split at h
    · rename_i hmedium
      exact ⟨Nat.not_le.mp hsmall, hmedium⟩
    · cases h

theorem genTier_page {size : Nat} (h : genTier size = Tier.page) :
    mediumObjLimit < size := by
  unfold genTier at h
  split at h
  · cases h
  · split at h
    · cases h
    · rename_i hmedium
      exact Nat.not_le.mp hmedium

/-- A pool that serves a size exists and has blocks of that size at least. -/
theorem tier_pool_fits {size i : Nat} (hpos : size ≠ 0)
    (h : genTier size = Tier.pool i) :
    i < poolCount ∧ size ≤ poolSizes.getD i 0 := by
  rcases genTier_pool h with ⟨hle, heq⟩
  rw [← heq]
  exact getPoolIndex_spec hpos hle

/-!
# The blocks of a tier
-/

/-- The blocks of `L` that a tier serves. -/
def tierBlocks (t : Tier) (L : List Block) : List Block :=
  L.filter (fun b => genTier b.size = t)

section TierBlocks

variable {t : Tier} {L M : List Block} {b : Block}

theorem mem_tierBlocks : b ∈ tierBlocks t L <-> b ∈ L ∧ genTier b.size = t := by
  simp [tierBlocks]

theorem tierBlocks_perm (h : L.Perm M) : (tierBlocks t L).Perm (tierBlocks t M) :=
  h.filter _

theorem tierBlocks_cons_same (h : genTier b.size = t) :
    tierBlocks t (b :: L) = b :: tierBlocks t L := by
  simp [tierBlocks, h]

theorem tierBlocks_cons_ne (h : genTier b.size ≠ t) :
    tierBlocks t (b :: L) = tierBlocks t L := by
  simp [tierBlocks, h]

theorem tierBlocks_erase_same (hb : b ∈ L) (h : genTier b.size = t) :
    ((tierBlocks t L).erase b).Perm (tierBlocks t (L.erase b)) := by
  have hperm := (tierBlocks_perm (t := t) (List.perm_cons_erase hb)).erase b
  rw [tierBlocks_cons_same h, List.erase_cons_head] at hperm
  exact hperm

theorem tierBlocks_erase_ne (hb : b ∈ L) (h : genTier b.size ≠ t) :
    (tierBlocks t L).Perm (tierBlocks t (L.erase b)) := by
  have hperm := tierBlocks_perm (t := t) (List.perm_cons_erase hb)
  rw [tierBlocks_cons_ne h] at hperm
  exact hperm

/-- One list of a family got a new head. -/
theorem flatMap_cons_perm {ι α : Type} {f g : ι -> List α} {act : List ι} {i : ι}
    {x : α} (hi : i ∈ act) (hnodup : act.Nodup) (hsame : g i = x :: f i)
    (hother : forall j, j ≠ i -> g j = f j) :
    (act.flatMap g).Perm (x :: act.flatMap f) := by
  induction act with
  | nil => cases hi
  | cons j act ih =>
      rcases List.nodup_cons.mp hnodup with ⟨hnot, hrest⟩
      rw [List.flatMap_cons, List.flatMap_cons]
      cases hi with
      | head =>
          have hsame' : act.flatMap g = act.flatMap f := by
            apply List.flatMap_congr
            intro k hk
            apply hother
            intro heq
            rw [heq] at hk
            exact hnot hk
          rw [hsame, hsame']
          exact List.Perm.refl _
      | tail _ hi =>
          have hne : j ≠ i := by
            intro heq
            rw [heq] at hnot
            exact hnot hi
          rw [hother j hne]
          exact ((ih hi hrest).append_left (f j)).trans List.perm_middle

/-- Every block is in one tier. -/
theorem tier_split (hpos : forall b, b ∈ L -> b.size ≠ 0) :
    L.Perm (tierBlocks Tier.page L ++ (tierBlocks Tier.buddy L ++
      (List.range poolCount).flatMap (fun i => tierBlocks (Tier.pool i) L))) := by
  induction L with
  | nil => exact List.Perm.refl _
  | cons b L ih =>
      have hrest := (ih (fun c hc => hpos c (List.mem_cons_of_mem b hc))).cons b
      have hpools : (forall i, genTier b.size ≠ Tier.pool i) ->
          (fun i => tierBlocks (Tier.pool i) (b :: L)) =
            fun i => tierBlocks (Tier.pool i) L :=
        fun hno => funext fun i => tierBlocks_cons_ne (hno i)
      cases ht : genTier b.size with
      | page =>
          have hno : forall i, genTier b.size ≠ Tier.pool i := by
            intro i
            rw [ht]
            exact Tier.noConfusion
          rw [tierBlocks_cons_same ht, hpools hno,
            tierBlocks_cons_ne (by rw [ht]; exact Tier.noConfusion)]
          exact hrest
      | buddy =>
          have hno : forall i, genTier b.size ≠ Tier.pool i := by
            intro i
            rw [ht]
            exact Tier.noConfusion
          rw [tierBlocks_cons_same ht, hpools hno,
            tierBlocks_cons_ne (by rw [ht]; exact Tier.noConfusion)]
          exact hrest.trans List.perm_middle.symm
      | pool i =>
          rcases tier_pool_fits (hpos b List.mem_cons_self) ht with ⟨hi, _⟩
          have hsmall : ((List.range poolCount).flatMap
              (fun j => tierBlocks (Tier.pool j) (b :: L))).Perm
                (b :: (List.range poolCount).flatMap
                  (fun j => tierBlocks (Tier.pool j) L)) := by
            apply flatMap_cons_perm (List.mem_range.mpr hi) List.nodup_range
            · exact tierBlocks_cons_same ht
            · intro j hne
              apply tierBlocks_cons_ne
              rw [ht]
              exact fun heq => hne (Tier.pool.inj heq).symm
          rw [tierBlocks_cons_ne (by rw [ht]; exact Tier.noConfusion),
            tierBlocks_cons_ne (by rw [ht]; exact Tier.noConfusion)]
          have hfront : (b :: (tierBlocks Tier.page L ++ (tierBlocks Tier.buddy L ++
              (List.range poolCount).flatMap (fun j => tierBlocks (Tier.pool j) L)))).Perm
                (tierBlocks Tier.page L ++ (tierBlocks Tier.buddy L ++ (b ::
                  (List.range poolCount).flatMap
                    (fun j => tierBlocks (Tier.pool j) L)))) :=
            List.perm_middle.symm.trans (List.perm_middle.symm.append_left _)
          exact (hrest.trans hfront).trans
            ((hsmall.symm.append_left _).append_left _)

end TierBlocks

/-!
# Operations by tier
-/

section Operations

variable {os : Os} {s : GenState} {size ptr i p : Nat}

theorem genAllocFn_pool {t : PoolState (BuddyState PageState)} (hpos : size ≠ 0)
    (h : genTier size = Tier.pool i)
    (hcall : alloAlloc (genPool os) size ((s.touchPool i).pool i) = some (p, t)) :
    genAllocFn os size s = some (p, (s.touchPool i).setPool i t) := by
  rcases genTier_pool h with ⟨hle, heq⟩
  unfold genAllocFn
  rw [if_neg hpos, if_pos hle]
  dsimp only
  rw [heq]
  exact Option.bind_eq_some_iff.mpr ⟨_, hcall, rfl⟩

theorem genAllocFn_buddy {t : BuddyState PageState} (h : genTier size = Tier.buddy)
    (hcall : alloAlloc (genBuddy os) size s.tower = some (p, t)) :
    genAllocFn os size s = some (p, { s with tower := t }) := by
  rcases genTier_buddy h with ⟨hlarge, hle⟩
  unfold genAllocFn
  rw [if_neg (Nat.ne_of_gt (Nat.lt_of_le_of_lt (Nat.zero_le _) hlarge)),
    if_neg (Nat.not_le.mpr hlarge), if_pos hle]
  exact Option.bind_eq_some_iff.mpr ⟨_, hcall, rfl⟩

theorem genAllocFn_page {t : PageState} (h : genTier size = Tier.page)
    (hcall : alloAlloc (pageAllo os) size s.tower.child = some (p, t)) :
    genAllocFn os size s = some (p, s.setPage t) := by
  have hlarge := genTier_page h
  have hsmall : smallObjLimit < size := Nat.lt_trans (by decide) hlarge
  unfold genAllocFn
  rw [if_neg (Nat.ne_of_gt (Nat.lt_of_le_of_lt (Nat.zero_le _) hlarge)),
    if_neg (Nat.not_le.mpr hsmall), if_neg (Nat.not_le.mpr hlarge)]
  exact Option.bind_eq_some_iff.mpr ⟨_, hcall, rfl⟩

theorem genFreeFn_pool {t : PoolState (BuddyState PageState)} (hptr : ptr ≠ NULL)
    (h : genTier size = Tier.pool i)
    (hcall : alloFree (genPool os) ptr size ((s.touchPool i).pool i) = some t) :
    genFreeFn os ptr size s = some ((s.touchPool i).setPool i t) := by
  rcases genTier_pool h with ⟨hle, heq⟩
  unfold genFreeFn
  rw [if_neg hptr, if_pos hle]
  dsimp only
  rw [heq]
  exact Option.bind_eq_some_iff.mpr ⟨_, hcall, rfl⟩

theorem genFreeFn_buddy {t : BuddyState PageState} (hptr : ptr ≠ NULL)
    (h : genTier size = Tier.buddy)
    (hcall : alloFree (genBuddy os) ptr size s.tower = some t) :
    genFreeFn os ptr size s = some { s with tower := t } := by
  rcases genTier_buddy h with ⟨hlarge, hle⟩
  unfold genFreeFn
  rw [if_neg hptr, if_neg (Nat.not_le.mpr hlarge), if_pos hle]
  exact Option.bind_eq_some_iff.mpr ⟨_, hcall, rfl⟩

theorem genFreeFn_page {t : PageState} (hptr : ptr ≠ NULL)
    (h : genTier size = Tier.page)
    (hcall : alloFree (pageAllo os) ptr size s.tower.child = some t) :
    genFreeFn os ptr size s = some (s.setPage t) := by
  have hlarge := genTier_page h
  have hsmall : smallObjLimit < size := Nat.lt_trans (by decide) hlarge
  unfold genFreeFn
  rw [if_neg hptr, if_neg (Nat.not_le.mpr hsmall), if_neg (Nat.not_le.mpr hlarge)]
  exact Option.bind_eq_some_iff.mpr ⟨_, hcall, rfl⟩

/-- Between two tiers, or between two pools, a block is moved. -/
theorem genReallocFn_cross {oldSize newSize : Nat} (hptr : ptr ≠ NULL)
    (hpos : newSize ≠ 0) (h : genTier oldSize ≠ genTier newSize) :
    genReallocFn os ptr oldSize newSize s = genMove os ptr oldSize newSize s := by
  unfold genReallocFn
  rw [if_neg hptr, if_neg hpos]
  unfold genTier at h
  by_cases hsmall : oldSize ≤ smallObjLimit ∧ newSize ≤ smallObjLimit
  · rw [if_pos hsmall.left, if_pos hsmall.right] at h
    rw [if_pos hsmall, if_neg (fun heq => h (congrArg Tier.pool heq))]
  · rw [if_neg hsmall]
    have hlimits : smallObjLimit < mediumObjLimit := by decide
    rw [if_neg, if_neg]
    · rintro ⟨hold, hnew⟩
      rw [if_neg (by omega), if_neg (by omega), if_neg (by omega),
        if_neg (by omega)] at h
      exact h rfl
    · rintro ⟨hold, hold', hnew, hnew'⟩
      rw [if_neg (by omega), if_pos hold', if_neg (by omega), if_pos hnew'] at h
      exact h rfl

theorem genReallocFn_pool {oldSize newSize : Nat}
    {t : PoolState (BuddyState PageState)} (hptr : ptr ≠ NULL) (hpos : newSize ≠ 0)
    (hold : genTier oldSize = Tier.pool i) (hnew : genTier newSize = Tier.pool i)
    (hcall : alloRealloc (genPool os) ptr oldSize newSize ((s.touchPool i).pool i) =
      some (p, t)) :
    genReallocFn os ptr oldSize newSize s =
      some (p, (s.touchPool i).setPool i t) := by
  rcases genTier_pool hold with ⟨hle, heq⟩
  rcases genTier_pool hnew with ⟨hle', heq'⟩
  unfold genReallocFn
  rw [if_neg hptr, if_neg hpos, if_pos ⟨hle, hle'⟩, if_pos (heq.trans heq'.symm)]
  dsimp only
  rw [heq]
  exact Option.bind_eq_some_iff.mpr ⟨_, hcall, rfl⟩

theorem genReallocFn_buddy {oldSize newSize : Nat} {t : BuddyState PageState}
    (hptr : ptr ≠ NULL) (hold : genTier oldSize = Tier.buddy)
    (hnew : genTier newSize = Tier.buddy)
    (hcall : alloRealloc (genBuddy os) ptr oldSize newSize s.tower = some (p, t)) :
    genReallocFn os ptr oldSize newSize s = some (p, { s with tower := t }) := by
  rcases genTier_buddy hold with ⟨hgt, hle⟩
  rcases genTier_buddy hnew with ⟨hgt', hle'⟩
  unfold genReallocFn
  rw [if_neg hptr, if_neg (Nat.ne_of_gt (Nat.lt_of_le_of_lt (Nat.zero_le _) hgt')),
    if_neg (fun hboth => absurd hboth.left (Nat.not_le.mpr hgt)),
    if_pos ⟨hgt, hle, hgt', hle'⟩]
  exact Option.bind_eq_some_iff.mpr ⟨_, hcall, rfl⟩

theorem genReallocFn_page {oldSize newSize : Nat} {t : PageState}
    (hptr : ptr ≠ NULL) (hold : genTier oldSize = Tier.page)
    (hnew : genTier newSize = Tier.page)
    (hcall : alloRealloc (pageAllo os) ptr oldSize newSize s.tower.child =
      some (p, t)) :
    genReallocFn os ptr oldSize newSize s = some (p, s.setPage t) := by
  have hgt := genTier_page hold
  have hgt' := genTier_page hnew
  have hlimits : smallObjLimit < mediumObjLimit := by decide
  unfold genReallocFn
  rw [if_neg hptr, if_neg (by omega), if_neg (by omega), if_neg (by omega),
    if_pos ⟨hgt, hgt'⟩]
  exact Option.bind_eq_some_iff.mpr ⟨_, hcall, rfl⟩

end Operations

end Liballo
