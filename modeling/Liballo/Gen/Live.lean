import Liballo.Gen.Ops
import Liballo.Page.Refusal

/-!
# Live blocks of the generic allocator

The live blocks of a client are those of the three tiers, each in the tier that its size
names. The module restates the operations of the source for the one list of live blocks.
-/

namespace Liballo

open Foundation

/-- The whole block that serves `b` in the tier of its size. -/
def GenState.served (s : GenState) (b : Block) : Block :=
  match genTier b.size with
  | Tier.pool i => ⟨b.ptr, (s.pools i).blockSize⟩
  | Tier.buddy => s.buddyBlock b
  | Tier.page => s.pageBlock b

/-!
# Splitting the live blocks by tier
-/

/-- The live blocks `L` are the large blocks `pl`, the medium blocks `bl` and the small
blocks at the addresses `sl`. -/
structure GenSplit (L pl bl : List Block) (sl : Nat -> List Nat) : Prop where
  large : pl.Perm (tierBlocks Tier.page L)
  medium : bl.Perm (tierBlocks Tier.buddy L)
  small : forall i, (sl i).Perm ((tierBlocks (Tier.pool i) L).map Block.ptr)
  positive : forall b, b ∈ L -> b.size ≠ 0

namespace GenSplit

variable {L pl bl : List Block} {sl : Nat -> List Nat} {b : Block} {i : Nat}

theorem cons_positive (h : GenSplit L pl bl sl) (hpos : b.size ≠ 0) :
    forall c, c ∈ b :: L -> c.size ≠ 0 := by
  intro c hc
  cases hc with
  | head => exact hpos
  | tail _ hc => exact h.positive c hc

theorem cons_large (h : GenSplit L pl bl sl) (hpos : b.size ≠ 0)
    (ht : genTier b.size = Tier.page) : GenSplit (b :: L) (b :: pl) bl sl where
  large := by
    rw [tierBlocks_cons_same ht]
    exact h.large.cons b
  medium := by
    rw [tierBlocks_cons_ne (by rw [ht]; exact Tier.noConfusion)]
    exact h.medium
  small := by
    intro i
    rw [tierBlocks_cons_ne (by rw [ht]; exact Tier.noConfusion)]
    exact h.small i
  positive := h.cons_positive hpos

theorem cons_medium (h : GenSplit L pl bl sl) (hpos : b.size ≠ 0)
    (ht : genTier b.size = Tier.buddy) : GenSplit (b :: L) pl (b :: bl) sl where
  large := by
    rw [tierBlocks_cons_ne (by rw [ht]; exact Tier.noConfusion)]
    exact h.large
  medium := by
    rw [tierBlocks_cons_same ht]
    exact h.medium.cons b
  small := by
    intro i
    rw [tierBlocks_cons_ne (by rw [ht]; exact Tier.noConfusion)]
    exact h.small i
  positive := h.cons_positive hpos

theorem cons_small (h : GenSplit L pl bl sl) (hpos : b.size ≠ 0)
    (ht : genTier b.size = Tier.pool i) :
    GenSplit (b :: L) pl bl (Function.update sl i (b.ptr :: sl i)) where
  large := by
    rw [tierBlocks_cons_ne (by rw [ht]; exact Tier.noConfusion)]
    exact h.large
  medium := by
    rw [tierBlocks_cons_ne (by rw [ht]; exact Tier.noConfusion)]
    exact h.medium
  small := by
    intro j
    by_cases heq : j = i
    · subst heq
      rw [Function.update_self, tierBlocks_cons_same ht]
      exact (h.small j).cons b.ptr
    · rw [Function.update_of_ne heq, tierBlocks_cons_ne]
      · exact h.small j
      · rw [ht]
        exact fun hno => heq (Tier.pool.inj hno).symm
  positive := h.cons_positive hpos

theorem erase_positive (h : GenSplit L pl bl sl) (b : Block) :
    forall c, c ∈ L.erase b -> c.size ≠ 0 :=
  fun c hc => h.positive c (List.mem_of_mem_erase hc)

theorem erase_large (h : GenSplit L pl bl sl) (hb : b ∈ L)
    (ht : genTier b.size = Tier.page) : GenSplit (L.erase b) (pl.erase b) bl sl where
  large := (h.large.erase b).trans (tierBlocks_erase_same hb ht)
  medium := h.medium.trans
    (tierBlocks_erase_ne hb (by rw [ht]; exact Tier.noConfusion))
  small := fun i => (h.small i).trans
    ((tierBlocks_erase_ne hb (by rw [ht]; exact Tier.noConfusion)).map _)
  positive := h.erase_positive b

theorem erase_medium (h : GenSplit L pl bl sl) (hb : b ∈ L)
    (ht : genTier b.size = Tier.buddy) : GenSplit (L.erase b) pl (bl.erase b) sl where
  large := h.large.trans
    (tierBlocks_erase_ne hb (by rw [ht]; exact Tier.noConfusion))
  medium := (h.medium.erase b).trans (tierBlocks_erase_same hb ht)
  small := fun i => (h.small i).trans
    ((tierBlocks_erase_ne hb (by rw [ht]; exact Tier.noConfusion)).map _)
  positive := h.erase_positive b

theorem erase_small (h : GenSplit L pl bl sl) (hb : b ∈ L)
    (ht : genTier b.size = Tier.pool i) :
    GenSplit (L.erase b) pl bl (Function.update sl i ((sl i).erase b.ptr)) where
  large := h.large.trans
    (tierBlocks_erase_ne hb (by rw [ht]; exact Tier.noConfusion))
  medium := h.medium.trans
    (tierBlocks_erase_ne hb (by rw [ht]; exact Tier.noConfusion))
  small := by
    intro j
    by_cases heq : j = i
    · subst heq
      have hout := (tierBlocks_perm (t := Tier.pool j)
        (List.perm_cons_erase hb)).map Block.ptr
      rw [tierBlocks_cons_same ht, List.map_cons] at hout
      have herase := ((h.small j).trans hout).erase b.ptr
      rw [List.erase_cons_head] at herase
      rw [Function.update_self]
      exact herase
    · rw [Function.update_of_ne heq]
      refine (h.small j).trans ((tierBlocks_erase_ne hb ?_).map _)
      rw [ht]
      exact fun hno => heq (Tier.pool.inj hno).symm
  positive := h.erase_positive b

theorem perm {M : List Block} (h : GenSplit L pl bl sl) (hperm : L.Perm M) :
    GenSplit M pl bl sl where
  large := h.large.trans (tierBlocks_perm hperm)
  medium := h.medium.trans (tierBlocks_perm hperm)
  small := fun i => (h.small i).trans ((tierBlocks_perm hperm).map _)
  positive := fun b hb => h.positive b (hperm.mem_iff.mpr hb)

theorem mem_large (h : GenSplit L pl bl sl) (hb : b ∈ L)
    (ht : genTier b.size = Tier.page) : b ∈ pl :=
  h.large.mem_iff.mpr (mem_tierBlocks.mpr ⟨hb, ht⟩)

theorem mem_medium (h : GenSplit L pl bl sl) (hb : b ∈ L)
    (ht : genTier b.size = Tier.buddy) : b ∈ bl :=
  h.medium.mem_iff.mpr (mem_tierBlocks.mpr ⟨hb, ht⟩)

theorem mem_small (h : GenSplit L pl bl sl) (hb : b ∈ L)
    (ht : genTier b.size = Tier.pool i) : b.ptr ∈ sl i :=
  (h.small i).mem_iff.mpr (List.mem_map_of_mem (mem_tierBlocks.mpr ⟨hb, ht⟩))

/-- A block of a pool was resized in place. -/
theorem resize_small (h : GenSplit L pl bl sl) (hb : b ∈ L) {n : Nat} (hn : n ≠ 0)
    (ht : genTier b.size = Tier.pool i) (hnew : genTier n = Tier.pool i) :
    GenSplit (⟨b.ptr, n⟩ :: L.erase b) pl bl sl := by
  have hafter := (h.erase_small hb ht).cons_small (b := ⟨b.ptr, n⟩) hn hnew
  refine { hafter with small := ?_ }
  intro j
  refine List.Perm.trans ?_ (hafter.small j)
  by_cases heq : j = i
  · subst heq
    rw [Function.update_self, Function.update_self]
    have hmem := h.mem_small hb ht
    exact List.perm_cons_erase hmem
  · rw [Function.update_of_ne heq, Function.update_of_ne heq]

/-- A live block lies in the block that a tier handed out for it. -/
theorem leaf (h : GenSplit L pl bl sl) {s : GenState}
    (hshapes : forall i, i ∈ List.range poolCount -> PoolShape i (s.pools i))
    (hb : b ∈ L) :
    exists c, c ∈ s.leaves (List.range poolCount) pl bl sl ∧ c.ptr = b.ptr ∧
      b.Inside c := by
  cases ht : genTier b.size with
  | page =>
      exact ⟨b, GenParts.mem_leaves.mpr (Or.inl (h.mem_large hb ht)), rfl,
        Nat.le_refl _, Nat.le_refl _⟩
  | buddy =>
      exact ⟨b, GenParts.mem_leaves.mpr (Or.inr (Or.inl (h.mem_medium hb ht))), rfl,
        Nat.le_refl _, Nat.le_refl _⟩
  | pool i =>
      rcases tier_pool_fits (h.positive b hb) ht with ⟨hi, hle⟩
      have hact : i ∈ List.range poolCount := List.mem_range.mpr hi
      refine ⟨⟨b.ptr, (s.pools i).blockSize⟩, GenParts.mem_leaves.mpr
        (Or.inr (Or.inr ⟨i, hact, b.ptr, h.mem_small hb ht, rfl⟩)), rfl,
        Nat.le_refl _, ?_⟩
      rw [(hshapes i hact).blockSize]
      exact Nat.add_le_add_left hle b.ptr

theorem keeps (h : GenSplit L pl bl sl) {s : GenState} {m m' : Mem}
    (hshapes : forall i, i ∈ List.range poolCount -> PoolShape i (s.pools i))
    (hkeeps : KeepsBytes (s.leaves (List.range poolCount) pl bl sl) m m') :
    KeepsBytes L m m' := by
  intro b hb x hx
  rcases h.leaf hshapes hb with ⟨c, hc, _, hinside⟩
  exact hkeeps c hc x (hinside.contains hx)

theorem served_perm (h : GenSplit L pl bl sl) (s : GenState) :
    (L.map s.served).Perm (s.serving (List.range poolCount) pl bl sl) := by
  have hlarge : (tierBlocks Tier.page L).map s.served =
      (tierBlocks Tier.page L).map s.pageBlock := by
    apply List.map_congr_left
    intro b hb
    simp only [GenState.served, (mem_tierBlocks.mp hb).right]
  have hmedium : (tierBlocks Tier.buddy L).map s.served =
      (tierBlocks Tier.buddy L).map s.buddyBlock := by
    apply List.map_congr_left
    intro b hb
    simp only [GenState.served, (mem_tierBlocks.mp hb).right]
  have hsmall : forall i, (tierBlocks (Tier.pool i) L).map s.served =
      ((tierBlocks (Tier.pool i) L).map Block.ptr).map
        (fun p => ⟨p, (s.pools i).blockSize⟩) := by
    intro i
    rw [List.map_map]
    apply List.map_congr_left
    intro b hb
    simp only [GenState.served, (mem_tierBlocks.mp hb).right, Function.comp]
  have hsplit := (tier_split h.positive).map s.served
  rw [List.map_append, List.map_append, List.map_flatMap, hlarge, hmedium] at hsplit
  have hlists : ((List.range poolCount).flatMap
      (fun i => (tierBlocks (Tier.pool i) L).map s.served)).Perm
        ((List.range poolCount).flatMap (s.poolLeaves sl)) := by
    apply List.Perm.flatMap_left
    intro i _
    rw [hsmall]
    exact (h.small i).symm.map _
  exact hsplit.trans ((h.large.symm.map _).append ((h.medium.symm.map _).append hlists))

end GenSplit

/-!
# Live blocks
-/

/-- The tower serves the live blocks `L`; `fl` and `free` are free. -/
def GenLive (os : Os) (base : List Block) (m₀ : Mem) (s : GenState)
    (fl free : Nat -> List Nat) (L : List Block) : Prop :=
  exists pl bl sl, GenParts os base m₀ (List.range poolCount) s fl free pl bl sl ∧
    GenSplit L pl bl sl

/-- A refused request leaves everything but the trace and room in the registry. -/
inductive GenRefused (base : List Block) (s : GenState) : GenState -> Prop where
  | pool (i : Nat) : GenRefused base s (s.touchPool i)
  | buddy {t : BuddyState PageState} :
      BuddyRefused False s.tower t -> GenRefused base s { s with tower := t }
  | page {w : PageState} {es : List Block} :
      PageRefused base s.tower.child w es -> GenRefused base s (s.setPage w)

namespace GenLive

variable {os : Os} {base L : List Block} {m₀ : Mem} {s : GenState}
variable {fl free : Nat -> List Nat} {n : Nat} {b : Block}

theorem perm {M : List Block} (h : GenLive os base m₀ s fl free L)
    (hperm : L.Perm M) : GenLive os base m₀ s fl free M := by
  rcases h with ⟨pl, bl, sl, hparts, hsplit⟩
  exact ⟨pl, bl, sl, hparts, hsplit.perm hperm⟩

theorem wellFormed (h : GenLive os base m₀ s fl free L) : AllWellFormed L := by
  rcases h with ⟨pl, bl, sl, hparts, hsplit⟩
  intro b hb
  rcases hsplit.leaf hparts.shapes hb with ⟨c, hc, hptr, hinside⟩
  have houter : exists d, d.WellFormed ∧ c.Inside d := by
    rcases hparts.leaf_inside hc with hlarge | hregion
    · exact ⟨c, hparts.blocks_wellFormed c (GenParts.large_mem hlarge),
        Nat.le_refl _, Nat.le_refl _⟩
    · exact ⟨_, hparts.blocks_wellFormed _ hparts.region_mem, hregion⟩
  rcases houter with ⟨d, hd, hin⟩
  have hpos := hsplit.positive b hb
  have hall := hinside.trans hin
  simp only [Block.WellFormed, Block.Inside, Block.stop] at hd hall ⊢
  omega

theorem ptr_ne_null (h : GenLive os base m₀ s fl free L) (hb : b ∈ L) :
    b.ptr ≠ NULL :=
  Nat.ne_of_gt (h.wellFormed b hb).left

/-- The serving block holds the live block. -/
theorem served_inside (h : GenLive os base m₀ s fl free L) (hb : b ∈ L) :
    b.Inside (s.served b) := by
  rcases h with ⟨pl, bl, sl, hparts, hsplit⟩
  unfold GenState.served
  cases ht : genTier b.size with
  | page => exact hparts.pageBlock_inside (GenParts.large_mem (hsplit.mem_large hb ht))
  | buddy =>
      exact hparts.buddy.block_inside (List.mem_append_left _ (hsplit.mem_medium hb ht))
  | pool i =>
      rcases tier_pool_fits (hsplit.positive b hb) ht with ⟨hi, hle⟩
      rw [← (hparts.shapes i (List.mem_range.mpr hi)).blockSize] at hle
      exact ⟨Nat.le_refl _, Nat.add_le_add_left hle b.ptr⟩

theorem served_disjoint (h : GenLive os base m₀ s fl free L) :
    AllDisjoint (L.map s.served) := by
  rcases h with ⟨pl, bl, sl, hparts, hsplit⟩
  exact (allDisjoint_perm (hsplit.served_perm s)).mpr hparts.serving_disjoint

theorem disjoint (h : GenLive os base m₀ s fl free L) : AllDisjoint L := by
  refine (List.pairwise_map.mp h.served_disjoint).imp_of_mem ?_
  intro b c hb hc hapart
  have hleft := (h.served_inside hb).disjoint hapart
  exact ((h.served_inside hc).disjoint hleft.symm).symm

/-!
# Operations
-/

theorem alloc (h : GenLive os base m₀ s fl free L) (hn : n < 2 ^ 64) :
    exists p s', genAllocFn os n s = some (p, s') ∧ s.Stays s' ∧
      KeepsBytes L (mem s) (mem s') ∧
        (p = NULL ∧ GenLive os base m₀ s' fl free L ∧ (n ≠ 0 -> GenRefused base s s') ∨
          p ≠ NULL ∧ exists fl' free',
            GenLive os base m₀ s' fl' free' (⟨p, n⟩ :: L)) := by
  by_cases hzero : n = 0
  · exact ⟨NULL, s, if_pos hzero, GenState.Stays.refl s, KeepsBytes.refl _ _,
      Or.inl ⟨rfl, h, fun hne => absurd hzero hne⟩⟩
  rcases h with ⟨pl, bl, sl, hparts, hsplit⟩
  cases ht : genTier n with
  | page =>
      rcases hcall : pageAllocFn os n s.tower.child with ⟨p, w⟩
      rcases hparts.page_alloc hn hcall with ⟨hkeeps, hcase⟩
      refine ⟨p, s.setPage w, genAllocFn_page ht (congrArg some hcall), s.stays_setPage w,
        hsplit.keeps hparts.shapes hkeeps, ?_⟩
      rcases hcase with ⟨hnull, hparts'⟩ | ⟨hne, hparts'⟩
      · refine Or.inl ⟨hnull, ⟨pl, bl, sl, hparts', hsplit⟩, fun _ => ?_⟩
        rcases hparts.page.live with ⟨es, hlive⟩
        rw [hnull] at hcall
        exact GenRefused.page (pageAllocFn_refused hlive.inv hn hcall)
      · exact Or.inr ⟨hne, fl, free, _, bl, sl, hparts', hsplit.cons_large hzero ht⟩
  | buddy =>
      rcases hparts.buddy_alloc hn with ⟨p, t, hcall, hstays, hkeeps, hcase⟩
      refine ⟨p, { s with tower := t }, genAllocFn_buddy ht (congrArg some hcall), hstays,
        hsplit.keeps hparts.shapes hkeeps, ?_⟩
      rcases hcase with ⟨hnull, hrefused, hparts'⟩ | ⟨hne, fl', hparts'⟩
      · exact Or.inl ⟨hnull, ⟨pl, bl, sl, hparts', hsplit⟩,
          fun _ => GenRefused.buddy hrefused⟩
      · exact Or.inr ⟨hne, fl', free, pl, _, sl, hparts', hsplit.cons_medium hzero ht⟩
  | pool i =>
      rcases tier_pool_fits hzero ht with ⟨hi, hle⟩
      have hact : i ∈ List.range poolCount := List.mem_range.mpr hi
      have htouched := hparts.touchPool i
      rw [← (htouched.shapes i hact).blockSize] at hle
      rcases htouched.pool_alloc hact hzero hle with ⟨p, t, hcall, hbytes, hsame, hcase⟩
      refine ⟨p, (s.touchPool i).setPool i t,
        genAllocFn_pool hzero ht (congrArg some hcall),
        (s.stays_touchPool i).trans (GenState.Stays.of_pool hsame), ?_, ?_⟩
      · exact fun _ _ x _ => congrFun hbytes x
      · rcases hcase with ⟨hnull, hstate⟩ | ⟨hne, free', hparts'⟩
        · rw [hstate, (s.touchPool i).setPool_pool i]
          exact Or.inl ⟨hnull, ⟨pl, bl, sl, htouched, hsplit⟩,
            fun _ => GenRefused.pool i⟩
        · exact Or.inr ⟨hne, fl, _, pl, bl, _, hparts',
            hsplit.cons_small (b := ⟨p, n⟩) hzero ht⟩

theorem free_block (h : GenLive os base m₀ s fl free L) (hb : b ∈ L) :
    exists s' fl' free', genFreeFn os b.ptr b.size s = some s' ∧ s.Stays s' ∧
      GenLive os base m₀ s' fl' free' (L.erase b) ∧
        KeepsBytes (L.erase b) (mem s) (mem s') := by
  have hptr := h.ptr_ne_null hb
  rcases h with ⟨pl, bl, sl, hparts, hsplit⟩
  cases ht : genTier b.size with
  | page =>
      rcases hparts.page_free (hsplit.mem_large hb ht) with ⟨hparts', hkeeps⟩
      have hsplit' := hsplit.erase_large hb ht
      exact ⟨_, fl, free, genFreeFn_page hptr ht rfl, s.stays_setPage _,
        ⟨_, bl, sl, hparts', hsplit'⟩, hsplit'.keeps hparts.shapes hkeeps⟩
  | buddy =>
      rcases hparts.buddy_free (hsplit.mem_medium hb ht) with
        ⟨t, fl', hcall, hstays, hparts', hkeeps⟩
      have hsplit' := hsplit.erase_medium hb ht
      exact ⟨_, fl', free, genFreeFn_buddy hptr ht hcall, hstays,
        ⟨pl, _, sl, hparts', hsplit'⟩, hsplit'.keeps hparts.shapes hkeeps⟩
  | pool i =>
      rcases tier_pool_fits (hsplit.positive b hb) ht with ⟨hi, _⟩
      have hact : i ∈ List.range poolCount := List.mem_range.mpr hi
      have htouched := hparts.touchPool i
      rcases htouched.pool_free hact (hsplit.mem_small hb ht) b.size with
        ⟨t, hcall, hsame, hparts', hkeeps⟩
      have hsplit' := hsplit.erase_small hb ht
      exact ⟨_, fl, _, genFreeFn_pool hptr ht hcall,
        (s.stays_touchPool i).trans (GenState.Stays.of_pool hsame),
        ⟨pl, bl, _, hparts', hsplit'⟩, hsplit'.keeps htouched.shapes hkeeps⟩

/-- Stores inside live blocks. -/
theorem store (h : GenLive os base m₀ s fl free L) {P : Nat -> Nat -> Prop} {m : Mem}
    (hw : Wrote P (mem s) m)
    (hP : forall x k, P x k -> exists b, b ∈ L ∧ Block.Inside ⟨x, k⟩ b) :
    GenLive os base m₀ (setMem m s) fl free L := by
  rcases h with ⟨pl, bl, sl, hparts, hsplit⟩
  refine ⟨pl, bl, sl, hparts.store hw ?_, hsplit⟩
  intro x k hxk
  rcases hP x k hxk with ⟨b, hb, hinside⟩
  rcases hsplit.leaf hparts.shapes hb with ⟨c, hc, _, hin⟩
  exact ⟨c, hc, hinside.trans hin⟩

/-- A block that moves to another tier is copied and given back. -/
theorem move (h : GenLive os base m₀ s fl free L) (hb : b ∈ L) (hpos : n ≠ 0)
    (hn : n < 2 ^ 64) :
    exists p s', genMove os b.ptr b.size n s = some (p, s') ∧ s.Stays s' ∧
      KeepsBytes (L.erase b) (mem s) (mem s') ∧
        (p = NULL ∧ GenLive os base m₀ s' fl free L ∧ GenRefused base s s' ∧
            KeepsBytes L (mem s) (mem s') ∨
          p ≠ NULL ∧ KeepsPrefix b.ptr p (min b.size n) (mem s) (mem s') ∧
            exists fl' free',
              GenLive os base m₀ s' fl' free' (⟨p, n⟩ :: L.erase b)) := by
  rcases h.alloc hn with ⟨p, s₁, halloc, hstays₁, hkeeps₁, hcase⟩
  rcases hcase with ⟨rfl, hlive₁, hrefused⟩ | ⟨hne, fl₁, free₁, hlive₁⟩
  · refine ⟨NULL, s₁, ?_, hstays₁, hkeeps₁.subset (fun _ hc => List.mem_of_mem_erase hc),
      Or.inl ⟨rfl, hlive₁, hrefused hpos, hkeeps₁⟩⟩
    unfold genMove
    rw [halloc]
    rfl
  · have hb₁ : b ∈ (⟨p, n⟩ :: L : List Block) := List.mem_cons_of_mem _ hb
    have hfresh : forall d, d ∈ L -> d.Disjoint ⟨p, n⟩ :=
      fun d hd => ((List.pairwise_cons.mp hlive₁.disjoint).left d hd).symm
    have hbw := hlive₁.wellFormed b hb₁
    have hpw := hlive₁.wellFormed ⟨p, n⟩ List.mem_cons_self
    have hcopy : alloMemcpy p b.ptr (min b.size n) (mem s₁) =
        some ((mem s₁).copy p b.ptr (min b.size n)) :=
      alloMemcpy_blocks hbw hpw (hfresh b hb) (Nat.min_le_left _ _) (Nat.min_le_right _ _)
    have hwrote : Wrote (fun x k => x = p ∧ k = min b.size n) (mem s₁)
        ((mem s₁).copy p b.ptr (min b.size n)) := Wrote.copy ⟨rfl, rfl⟩
    have hlive₂ := hlive₁.store hwrote (by
      rintro x k ⟨rfl, rfl⟩
      exact ⟨_, List.mem_cons_self, Nat.le_refl _,
        Nat.add_le_add_left (Nat.min_le_right b.size n) x⟩)
    rcases hlive₂.free_block hb₁ with ⟨s', fl', free', hfree, hstays', hlive', hkeeps'⟩
    have herase : (⟨p, n⟩ :: L : List Block).erase b = ⟨p, n⟩ :: L.erase b := by
      apply List.erase_cons_tail
      rw [beq_iff_eq]
      exact ((hfresh b hb).ne hbw.right.left).symm
    rw [herase] at hlive' hkeeps'
    rw [HasMem.mem_setMem] at hkeeps'
    have hothers : KeepsBytes (L.erase b) (mem s₁)
        ((mem s₁).copy p b.ptr (min b.size n)) :=
      KeepsBytes.copy (Nat.min_le_right b.size n)
        (fun d hd => hfresh d (List.mem_of_mem_erase hd))
    have hmin := copySize_eq b.size n
    refine ⟨p, s', ?_, (hstays₁.trans (s₁.stays_setMem _)).trans hstays', ?_,
      Or.inr ⟨hne, ?_, fl', free', hlive'⟩⟩
    · unfold genMove
      simp only [halloc, if_neg hne, hmin, hcopy, Option.bind_eq_bind, Option.bind_some,
        hfree]
    · exact ((hkeeps₁.subset (fun _ hd => List.mem_of_mem_erase hd)).trans hothers).trans
        (hkeeps'.subset (fun _ hd => List.mem_cons_of_mem _ hd))
    · exact KeepsPrefix.of_copy (hkeeps₁ b hb) (hkeeps' _ List.mem_cons_self)

theorem realloc (h : GenLive os base m₀ s fl free L) (hb : b ∈ L) (hpos : n ≠ 0)
    (hn : n < 2 ^ 64) (hne : b.size ≠ n) :
    exists p s', genReallocFn os b.ptr b.size n s = some (p, s') ∧
      s.Stays s' ∧ KeepsBytes (L.erase b) (mem s) (mem s') ∧
        (p = NULL ∧ GenLive os base m₀ s' fl free L ∧ GenRefused base s s' ∧
            KeepsBytes L (mem s) (mem s') ∨
          p ≠ NULL ∧ KeepsPrefix b.ptr p (min b.size n) (mem s) (mem s') ∧
            exists fl' free',
              GenLive os base m₀ s' fl' free' (⟨p, n⟩ :: L.erase b)) := by
  have hptr := h.ptr_ne_null hb
  by_cases hcross : genTier b.size ≠ genTier n
  · rw [genReallocFn_cross hptr hpos hcross]
    exact h.move hb hpos hn
  have hsame : genTier n = genTier b.size := (not_not.mp hcross).symm
  rcases h with ⟨pl, bl, sl, hparts, hsplit⟩
  cases ht : genTier b.size with
  | page =>
      rw [ht] at hsame
      have hlarge := hsplit.mem_large hb ht
      rcases hcall : pageReallocFn os b.ptr b.size n s.tower.child with ⟨p, w⟩
      have hpass : alloRealloc (pageAllo os) b.ptr b.size n s.tower.child =
          some (p, w) := by
        rw [alloRealloc_pass hpos hptr hne]
        exact congrArg some hcall
      rcases hparts.page_realloc hlarge hpos hn hcall with ⟨hkeeps, hcase⟩
      have hsplit' := hsplit.erase_large hb ht
      refine ⟨p, s.setPage w, genReallocFn_page hptr ht hsame hpass, s.stays_setPage w,
        hsplit'.keeps hparts.shapes hkeeps, ?_⟩
      rcases hcase with ⟨hnull, hparts', hbytes⟩ | ⟨hp, hprefix, hparts'⟩
      · rcases hparts.page.live with ⟨es, hlive⟩
        rw [hnull] at hcall
        have hrefused := pageReallocFn_refused hlive
          (List.mem_append_left _ (GenParts.large_mem hlarge)) hn hcall
        exact Or.inl ⟨hnull, ⟨pl, bl, sl, hparts', hsplit⟩,
          GenRefused.page hrefused.left, fun _ _ x _ => congrFun hbytes x⟩
      · exact Or.inr ⟨hp, hprefix, fl, free, _, bl, sl, hparts',
          hsplit'.cons_large hpos hsame⟩
  | buddy =>
      rw [ht] at hsame
      rcases hparts.buddy_realloc (hsplit.mem_medium hb ht) hpos hn with
        ⟨p, t, hcall, hstays, hkeeps, hcase⟩
      have hpass : alloRealloc (genBuddy os) b.ptr b.size n s.tower = some (p, t) := by
        rw [alloRealloc_pass hpos hptr hne]
        exact hcall
      have hsplit' := hsplit.erase_medium hb ht
      refine ⟨p, { s with tower := t }, genReallocFn_buddy hptr ht hsame hpass, hstays,
        hsplit'.keeps hparts.shapes hkeeps, ?_⟩
      rcases hcase with ⟨hnull, hrefused, hparts'⟩ | ⟨hp, hprefix, fl', hparts'⟩
      · exact Or.inl ⟨hnull, ⟨pl, bl, sl, hparts', hsplit⟩,
          GenRefused.buddy hrefused, fun _ _ x _ => congrFun hrefused.bytes x⟩
      · exact Or.inr ⟨hp, hprefix, fl', free, pl, _, sl, hparts',
          hsplit'.cons_medium hpos hsame⟩
  | pool i =>
      rw [ht] at hsame
      rcases tier_pool_fits hpos hsame with ⟨hi, hle⟩
      have hact : i ∈ List.range poolCount := List.mem_range.mpr hi
      have htouched := hparts.touchPool i
      rw [← (htouched.shapes i hact).blockSize] at hle
      have hstay : alloRealloc (genPool os) b.ptr b.size n ((s.touchPool i).pool i) =
          some (b.ptr, (s.touchPool i).pool i) := by
        rw [alloRealloc_pass hpos hptr hne]
        refine (poolReallocFn_eq (htouched.pools i hact) (hsplit.mem_small hb ht) b.size
          n).trans ?_
        rw [if_pos (show n ≤ ((s.touchPool i).pool i).ctx.blockSize from hle)]
      have hcall := genReallocFn_pool hptr hpos ht hsame hstay
      rw [(s.touchPool i).setPool_pool i] at hcall
      exact ⟨b.ptr, s.touchPool i, hcall, s.stays_touchPool i, fun _ _ _ _ => rfl,
        Or.inr ⟨hptr, fun _ _ => rfl, fl, free, pl, bl, sl, htouched,
          hsplit.resize_small hb hpos ht hsame⟩⟩

end GenLive

end Liballo
