import Liballo.Gen.Make

/-!
# Building the tower

The buddy allocator takes its buffer and its tables from the page allocator, and each
pool takes a buffer of 64 KiB from the buddy allocator. The buffer of the buddy allocator
has room for many more of these, so no pool is refused.
-/

namespace Liballo

open Foundation

/-- The size of the buffer of every pool. -/
def poolBufferSize : Nat :=
  64 * 1024

section Build

variable {os : Os} {base : List Block} {m₀ : Mem} {act : List Nat} {s : GenState}
variable {fl free : Nat -> List Nat} {pl bl : List Block} {sl : Nat -> List Nat}
variable {i : Nat} {b : Block}

/-!
# The buddy allocator
-/

/-- The requested size is a power of two, so the doubling stops there. -/
theorem buddyShape_total {c : BuddyContext} (h : BuddyShape NULL buddyTotalSize c) :
    c.maxOrder = 24 := by
  rcases h.rounded with ⟨k, _, _, hmax, hle, hleast⟩
  have hsize : buddyTotalSize = 2 ^ 24 := by decide
  rw [hsize] at hle hleast
  have hge : 24 ≤ k := (Nat.pow_le_pow_iff_right (by decide)).mp hle
  have hnot : ¬ 24 < k := fun hlt => Nat.lt_irrefl _ (hleast 24 hlt)
  omega

theorem genParts_start {block : Nat} {t : BuddyState PageState}
    (hmade : BuddyMade (genPages os base block m₀) [] NULL buddyTotalSize t)
    (pools : Nat -> PoolContext) :
    GenParts os base m₀ [] { block := block, pools := pools, tower := buddyStart t }
      rootLists (fun _ => []) [] [] (fun _ => []) := by
  rcases hmade.fresh (fun hno => absurd rfl hno) with ⟨depth, hfresh⟩
  have hdepth : depth = 19 := by
    have hmax := hfresh.geom.maxOrder
    rw [buddyShape_total hmade.shape] at hmax
    omega
  subst hdepth
  have hstart : BuddyLive False 19 (buddyStart t) rootLists [] ∧
      BuddyMoved False (HeaderOf t.ctx {Node.root}) t (buddyStart t) :=
    buddyStart_spec hfresh
  rcases hstart with ⟨hlive, hmoved⟩
  have hown : t.ctx.ownBuffer = true := hmade.shape.own.trans rfl
  have hregion : t.ctx.region ∈ t.ctx.tables ++ (t.ctx.ownBlocks ++ []) := by
    rw [show t.ctx.ownBlocks = [t.ctx.region] from if_pos hown]
    exact List.mem_append_right _ List.mem_cons_self
  have hpage : GenPages os base block m₀ (setMem (mem (buddyStart t)) t.child)
      (t.ctx.tables ++ (t.ctx.ownBlocks ++ [])) := by
    apply hmade.blocks.store hmoved.wrote
    rintro x n ⟨k, hk, hinside⟩ y hle hlt
    have hroot : k = Node.root := hk
    have hvalid : k.Valid 19 := by
      rw [hroot]
      exact ⟨Nat.zero_le 19, Nat.two_pow_pos 0⟩
    have hheader := (hfresh.geom.header_inside hvalid).trans
      (hfresh.geom.nodeBlock_inside hvalid)
    exact (genPages os base block m₀).own_apart hmade.blocks hregion
      ((hinside.trans hheader).contains ⟨hle, hlt⟩)
  rw [← hmoved.child] at hpage
  rcases hmoved.ctx with ⟨f, o, k, hctx⟩
  refine
    { page := ?_
      own := ?_
      buddy := hlive
      pools := fun i hi => absurd hi List.not_mem_nil
      shapes := fun i hi => absurd hi List.not_mem_nil
      nodup := List.nodup_nil }
  · show GenPages os base block m₀ (buddyStart t).child
      ((buddyStart t).ctx.tables ++ ((buddyStart t).ctx.ownBlocks ++ []))
    rw [hctx]
    exact hpage
  · show (buddyStart t).ctx.ownBuffer = true
    rw [hctx]
    exact hown

/-- Fewer blocks than a level has leave room on it. -/
theorem BuddyLive.has_room {χ : Type} [HasMem χ] {asan : Prop} {depth level : Nat}
    {t : BuddyState χ} {live : List Block} (h : BuddyLive asan depth t fl live)
    (hlevel : level ≤ depth)
    (hall : forall b, b ∈ live -> (t.ctx.blockNode b).level = level)
    (hfew : live.length < 2 ^ level) : exists l, l ≤ level ∧ fl l ≠ [] := by
  have hfree : exists j, j < 2 ^ level ∧
      j ∉ live.map (fun b => (t.ctx.blockNode b).index) := by
    by_contra hno
    have hsub : List.range (2 ^ level) ⊆
        live.map (fun b => (t.ctx.blockNode b).index) := by
      intro j hj
      by_contra hnot
      exact hno ⟨j, List.mem_range.mp hj, hnot⟩
    have hlength := (List.nodup_range.subperm hsub).length_le
    rw [List.length_range, List.length_map] at hlength
    exact absurd hfew (Nat.not_lt.mpr hlength)
  rcases hfree with ⟨j, hj, hnot⟩
  have hvacant : Vacant depth (live.map t.ctx.blockNode) ⟨level, j⟩ := by
    refine ⟨⟨hlevel, hj⟩, ?_⟩
    intro k hk
    rcases List.mem_map.mp hk with ⟨b, hb, rfl⟩
    apply Node.apart_of_level (hall b hb).symm
    intro heq
    exact hnot (List.mem_map.mpr ⟨b, hb, congrArg Node.index heq.symm⟩)
  rcases (h.inv.tiled.exists_vacant_iff hlevel).mp ⟨_, rfl, hvacant⟩ with ⟨f, hf, hle⟩
  refine ⟨f.level, hle, ?_⟩
  intro hnil
  have hmem : f.index ∈ fl f.level := hf
  rw [hnil] at hmem
  exact absurd hmem List.not_mem_nil

/-!
# The pools
-/

/-- The pools are cut out of buffers of one size. -/
theorem poolTable_spec (hi : i < poolCount) :
    poolBlockSize (poolSizes.getD i 0) = poolSizes.getD i 0 ∧
      8 ≤ poolSizes.getD i 0 ∧ 0 < poolTotals.getD i 0 ∧
        poolSizes.getD i 0 * poolTotals.getD i 0 = poolBufferSize := by
  have hall : forall i, i < poolCount ->
      poolBlockSize (poolSizes.getD i 0) = poolSizes.getD i 0 ∧
        8 ≤ poolSizes.getD i 0 ∧ 0 < poolTotals.getD i 0 ∧
          poolSizes.getD i 0 * poolTotals.getD i 0 = poolBufferSize := by
    decide
  exact hall i hi

namespace GenParts

theorem poolBuffer_size (h : GenParts os base m₀ act s fl free pl bl sl)
    (hi : i ∈ act) (hlt : i < poolCount) : (s.poolBuffer i).size = poolBufferSize := by
  have hshape := h.shapes i hi
  show (s.pools i).blockSize * (s.pools i).totalBlocks = poolBufferSize
  rw [hshape.blockSize, hshape.totalBlocks]
  exact (poolTable_spec hlt).right.right.right

/-- As long as only pools hold medium blocks, one more buffer of a pool is granted. -/
theorem buffer_granted (h : GenParts os base m₀ act s fl free pl [] sl)
    (hact : forall j, j ∈ act -> j < poolCount) (hfew : act.length < 2 ^ 8) :
    exists p t fl', buddyAllocFn poolBufferSize s.tower = (p, t) ∧ p ≠ NULL ∧
      GenParts os base m₀ act { s with tower := t } fl' free pl
        [⟨p, poolBufferSize⟩] sl := by
  have horder : s.tower.ctx.order poolBufferSize = 16 := by
    rw [h.buddy.inv.geom.order_eq]
    decide
  have hmax : s.tower.ctx.maxOrder = 24 := h.buddy.inv.geom.maxOrder
  have hroom : exists l, l ≤ 8 ∧ fl l ≠ [] := by
    apply h.buddy.has_room (by decide)
    · intro b hb
      rcases List.mem_map.mp hb with ⟨j, hj, rfl⟩
      show s.tower.ctx.maxOrder - s.tower.ctx.order (s.poolBuffer j).size = 8
      rw [h.poolBuffer_size hj (hact j hj), horder, hmax]
    · rw [List.nil_append, List.length_map]
      exact hfew
  rcases hroom with ⟨l, hl, hne⟩
  have hlt : poolBufferSize < 2 ^ 64 := by decide
  rcases h.buddy_alloc hlt with ⟨p, t, hcall, _, _, hcase⟩
  rcases hcase with ⟨hnull, _⟩ | ⟨hp, fl', hparts⟩
  · rcases buddyAllocFn_spec h.buddy.inv poolBufferSize with ⟨q, t', hcall', hreason⟩
    rw [hcall] at hcall'
    cases hcall'
    rcases hreason with ⟨_, _, hwhy⟩ | ⟨fl', k, hgrant⟩
    · rcases hwhy with hzero | hlarge | hempty
      · exact absurd hzero (by decide)
      · rw [hmax, horder] at hlarge
        exact absurd hlarge (by decide)
      · rw [hmax, horder] at hempty
        exact absurd (hempty l hl) hne
    · exact absurd hnull (h.buddy.granted hlt hgrant).left
  · exact ⟨p, t, fl', hcall, hp, hparts⟩

/-- The buffer of a new pool turns from a medium block into a part of the tower. -/
theorem add_pool (h : GenParts os base m₀ act s fl free pl (b :: bl) sl)
    (hi : i ∉ act) {t : PoolState (BuddyState PageState)} {free' live' : List Nat}
    {P : Nat -> Nat -> Prop} (hchild : t.child = setMem (mem t) s.tower)
    (hbuffer : (s.setPool i t).poolBuffer i = b) (hshape : PoolShape i t.ctx)
    (hinv : PoolInv t free' live') (hw : Wrote P (mem s) (mem t))
    (hP : forall x n, P x n -> Block.Inside ⟨x, n⟩ b) :
    GenParts os base m₀ (act ++ [i]) (s.setPool i t) fl (Function.update free i free')
      pl bl (Function.update sl i live') := by
  have hmem : forall x n, P x n ->
      exists c, c ∈ s.leaves act pl (b :: bl) sl ∧ Block.Inside ⟨x, n⟩ c :=
    fun x n hxn =>
      ⟨b, mem_leaves.mpr (Or.inr (Or.inl List.mem_cons_self)), hP x n hxn⟩
  have hstored := h.store hw hmem
  have hold : forall j, j ∈ act -> j ≠ i := by
    rintro j hj rfl
    exact hi hj
  have htower : (s.setPool i t).tower = setMem (mem t) s.tower := hchild
  have hbuffers : act.map (s.setPool i t).poolBuffer = act.map s.poolBuffer := by
    apply List.map_congr_left
    intro j hj
    unfold GenState.poolBuffer
    rw [GenState.setPool_pools_ne s t (hold j hj)]
  constructor
  · rw [htower]
    exact hstored.page
  · rw [htower]
    exact h.own
  · rw [htower, List.map_append, hbuffers, List.map_cons, List.map_nil, hbuffer]
    apply hstored.buddy.perm
    rw [← List.append_assoc]
    exact (List.perm_append_singleton b _).symm
  · intro j hj
    rcases List.mem_append.mp hj with hj | hj
    · have hne := hold j hj
      have hpool : (s.setPool i t).pool j = (setMem (mem t) s).pool j := by
        unfold GenState.pool
        rw [GenState.setPool_pools_ne s t hne, htower]
        rfl
      rw [hpool, Function.update_of_ne hne, Function.update_of_ne hne]
      exact hstored.pools j hj
    · rw [List.mem_singleton.mp hj]
      have hpool : (s.setPool i t).pool i = t := by
        unfold GenState.pool
        rw [GenState.setPool_pools_same]
        rfl
      rw [hpool, Function.update_self, Function.update_self]
      exact hinv
  · intro j hj
    rcases List.mem_append.mp hj with hj | hj
    · rw [GenState.setPool_pools_ne s t (hold j hj)]
      exact h.shapes j hj
    · rw [List.mem_singleton.mp hj, GenState.setPool_pools_same]
      exact hshape
  · exact List.nodup_append.mpr ⟨h.nodup, List.nodup_singleton i, fun j hj k hk =>
      (List.mem_singleton.mp hk).symm ▸ hold j hj⟩

/-- Pool `i` is made on top of the buddy allocator, which does not refuse its buffer. -/
theorem make_pool (h : GenParts os base m₀ (List.range i) s fl free pl [] sl)
    (hi : i < poolCount) :
    exists t fl' free' sl',
      makePoolAllocator (genPoolAt s.block i) (some (genBuddy os)) NULL
          (poolSizes.getD i 0) (poolTotals.getD i 0) (s.touchPool i).tower =
        some (Made.ok t) ∧
      GenParts os base m₀ (List.range (i + 1)) (s.setPool i t) fl' free' pl [] sl' ∧
        (forall j, sl' j = if j = i then [] else sl j) := by
  rcases poolTable_spec hi with ⟨hround, hsize, htotal, hbytes⟩
  have hlt : poolBufferSize < 2 ^ 64 := by decide
  have hmul : sizeMul (poolSizes.getD i 0) (poolTotals.getD i 0) = poolBufferSize := by
    rw [← hbytes] at hlt ⊢
    exact sizeMul_eq hlt
  have hbefore : forall j, j ∈ List.range i -> j < poolCount :=
    fun j hj => Nat.lt_trans (List.mem_range.mp hj) hi
  have hfew : (List.range i).length < 2 ^ 8 := by
    rw [List.length_range]
    exact Nat.lt_trans hi (by decide)
  rcases (h.touchPool i).buffer_granted hbefore hfew with
    ⟨p, w, fl', hcall, hne, hparts⟩
  have halloc : alloAlloc (genBuddy os) poolBufferSize (s.touchPool i).tower =
      some (p, w) := congrArg some hcall
  have hwf : Block.WellFormed ⟨p, poolBufferSize⟩ :=
    hparts.buddy.wellFormed _ (List.mem_append_left _ List.mem_cons_self)
  have hregion : Block.WellFormed ⟨p, poolSizes.getD i 0 * poolTotals.getD i 0⟩ := by
    rw [hbytes]
    exact hwf
  have hwrote : Wrote (fun x n => Block.Inside ⟨x, n⟩ ⟨p, poolBufferSize⟩) (mem w)
      (mem (poolStart p (poolSizes.getD i 0) (poolTotals.getD i 0) true w)) := by
    rw [← hbytes]
    exact wrote_poolStart hsize hregion.right.right
  have hpool : (GenState.setPool i
      (poolStart p (poolSizes.getD i 0) (poolTotals.getD i 0) true w)
        { s.touchPool i with tower := w }).poolBuffer i = ⟨p, poolBufferSize⟩ := by
    unfold GenState.poolBuffer
    rw [GenState.setPool_pools_same, poolStart_ctx, hbytes]
  refine ⟨poolStart p (poolSizes.getD i 0) (poolTotals.getD i 0) true w, fl',
    Function.update free i (poolBlocks p (poolSizes.getD i 0) (poolTotals.getD i 0)),
    Function.update sl i [], ?_, ?_, ?_⟩
  · have hargs : ¬ (genPoolAt s.block i = NULL ∨
        (NULL = NULL ∧ (some (genBuddy os)).isNone = true) ∨
          poolSizes.getD i 0 = 0 ∨ poolTotals.getD i 0 = 0) := by
      rintro (hnull | ⟨_, hnone⟩ | hzero | hzero)
      · unfold genPoolAt at hnull
        have hobject : 0 < sizeofAllo := by decide
        have hnot : s.block + 2 * sizeofAllo + sizeofAllo * i = 0 := hnull
        omega
      · cases hnone
      · omega
      · omega
    unfold makePoolAllocator
    rw [if_neg hargs, if_pos rfl, hround, hmul]
    simp only [Option.bind_eq_bind, Option.bind_some, halloc, if_neg hne]
  · rw [List.range_succ]
    exact hparts.add_pool List.not_mem_range_self rfl hpool
      { blockSize := rfl, totalBlocks := rfl, ownBuffer := rfl }
      (poolInv_start htotal hsize hregion) hwrote (fun _ _ hx => hx)
  · intro j
    exact Function.update_apply sl i [] j

/-- The loop makes all the pools. -/
theorem make_pools {left : Nat}
    (h : GenParts os base m₀ (List.range i) s fl free pl [] sl)
    (hleft : i + left = poolCount) (hsl : forall j, sl j = []) :
    exists st fl' free' sl', genMakePools os left i s = some (Made.ok st) ∧
      st.block = s.block ∧
        GenParts os base m₀ (List.range poolCount) st fl' free' pl [] sl' ∧
          forall j, sl' j = [] := by
  induction left generalizing i s fl free sl with
  | zero =>
      have hdone : i = poolCount := hleft
      rw [hdone] at h
      exact ⟨s, fl, free, sl, rfl, rfl, h, hsl⟩
  | succ left ih =>
      have hi : i < poolCount := by omega
      rcases h.make_pool hi with ⟨t, fl', free', sl', hmake, hparts, hempty⟩
      have hempty' : forall j, sl' j = [] := by
        intro j
        rw [hempty, hsl]
        split
        · rfl
        · rfl
      have hrest : i + 1 + left = poolCount := by omega
      rcases ih hparts hrest hempty' with ⟨st, fl'', free'', sl'', hcall, hblock, hall⟩
      refine ⟨st, fl'', free'', sl'', ?_, hblock, hall⟩
      unfold genMakePools
      simp only [hmake, Option.bind_eq_bind, Option.bind_some]
      exact hcall

end GenParts

/-!
# The whole constructor
-/

theorem genAbandon_eq (e : AlloError) (page : PageState) :
    genAbandon os e page = some (Made.failed e
      (pageDestroyFn (pageFreeFn page.self sizeofGenState page).touch).mem) :=
  rfl

/-- When the buddy allocator is refused, everything is abandoned; otherwise the tower is
complete. -/
theorem genBuild_spec {page : PageState}
    (h : GenPages os base page.self m₀ page []) :
    (exists e w,
        makeBuddyAllocator (genBuddyAt page.self) (some (pageAllo os)) NULL
            buddyTotalSize page = some (Made.failed e w) ∧
          GenPages os base page.self m₀ w [] ∧
            genBuild os page = genAbandon os e w) ∨
      exists st fl free, genBuild os page = some (Made.ok st) ∧ st.block = page.self ∧
        GenLive os base m₀ st fl free [] := by
  have hsize : buddyTotalSize ≤ 2 ^ 63 := by decide
  rcases @makeBuddyAllocator_total _ _ _ [] (genPages os base page.self m₀)
    (genBuddyAt page.self) NULL buddyTotalSize page hsize h with ⟨made, hmake, hcase⟩
  rcases hcase with ⟨e, w, rfl, hinv⟩ | ⟨t, rfl, hmade⟩
  · refine Or.inl ⟨e, w, hmake, hinv, ?_⟩
    unfold genBuild
    rw [hmake]
    rfl
  · have hparts := genParts_start hmade (fun _ => ⟨NULL, 0, 0, NULL, false⟩)
    have hrange : List.range 0 = ([] : List Nat) := rfl
    rw [← hrange] at hparts
    rcases hparts.make_pools (Nat.zero_add poolCount) (fun _ => rfl) with
      ⟨st, fl, free, sl, hcall, hblock, hall, hempty⟩
    refine Or.inr ⟨st, fl, free, ?_, hblock, [], [], sl, hall, ?_⟩
    · unfold genBuild
      rw [hmake]
      exact hcall
    · exact
        { large := List.Perm.refl _
          medium := List.Perm.refl _
          small := fun i => (hempty i).symm ▸ List.Perm.refl _
          positive := fun b hb => absurd hb List.not_mem_nil }

/-- A generic allocator that was made in the memory `m`; its state block was in place in
the memory `m₀`. -/
structure GenMade (os : Os) (frame : Nat) (m m₀ : Mem) (st : GenState)
    (fl free : Nat -> List Nat) : Prop where
  live : GenLive os (liveMaps m.trace) m₀ st fl free []
  traced : Traced MapEvent m m₀
  backed : FrameMapped frame m ->
    Traced (BackedEvent ⟨st.block, sizeofGenState⟩) m m₀
  inside : Block.Inside ⟨st.block, sizeofGenState⟩ (stateMap os st.block)
  mapped : stateMap os st.block ∈ liveMaps m₀.trace

theorem makeGenAllocator_ok {out frame : Nat} {m : Mem} {st : GenState}
    (hpage : exists k, 4 ≤ k ∧ k < 64 ∧ os.pageSize = 2 ^ k)
    (hmake : makeGenAllocator os out frame m = some (Made.ok st)) :
    exists m₀ fl free, GenMade os frame m m₀ st fl free := by
  unfold makeGenAllocator at hmake
  split at hmake
  · cases hmake
  · rcases @genBootstrap_spec os frame m hpage with
      ⟨made, hboot, hcase⟩
    rw [hboot, Option.bind_eq_bind, Option.bind_some] at hmake
    rcases hcase with ⟨e, m', rfl, _⟩ | ⟨page, rfl, hbooted⟩
    · cases hmake
    · have hbuild : genBuild os page = some (Made.ok st) := hmake
      rcases hbooted.pages.state_inside with ⟨hinside, hmapped, _, _⟩
      rcases genBuild_spec hbooted.pages with ⟨e, w, _, hinv, habandon⟩ | hbuilt
      · rw [habandon, genAbandon_eq] at hbuild
        cases hbuild
      · rcases hbuilt with ⟨st', fl, free, hcall, hblock, hlive⟩
        rw [hbuild] at hcall
        cases hcall
        rw [← hblock] at hinside hmapped
        have hbacked := hbooted.backed
        rw [← hblock] at hbacked
        exact ⟨page.mem, fl, free,
          { live := hlive
            traced := hbooted.traced
            backed := hbacked
            inside := hinside
            mapped := hmapped }⟩

/-- With the state block in place the rest is built. -/
theorem makeGenAllocator_of_boot {out frame : Nat} {m : Mem} {page : PageState}
    (hout : out ≠ NULL) (hboot : genBootstrap os frame m = some (Made.ok page)) :
    makeGenAllocator os out frame m = genBuild os page := by
  unfold makeGenAllocator
  rw [if_neg hout, hboot]
  rfl

/-- When the buddy allocator is made, so is the generic allocator. -/
theorem makeGenAllocator_of_buddy {out frame : Nat} {m : Mem} {page : PageState}
    {tower : BuddyState PageState}
    (hpage : exists k, 4 ≤ k ∧ k < 64 ∧ os.pageSize = 2 ^ k) (hout : out ≠ NULL)
    (hboot : genBootstrap os frame m = some (Made.ok page))
    (hbuddy : makeBuddyAllocator (genBuddyAt page.self) (some (pageAllo os)) NULL
      buddyTotalSize page = some (Made.ok tower)) :
    exists st, makeGenAllocator os out frame m = some (Made.ok st) := by
  have hbuild : makeGenAllocator os out frame m = genBuild os page :=
    makeGenAllocator_of_boot hout hboot
  rcases @genBootstrap_spec os frame m hpage with ⟨made, hboot', hcase⟩
  rw [hboot] at hboot'
  cases hboot'
  rcases hcase with ⟨e, m', hno, _⟩ | ⟨page', heq, hbooted⟩
  · cases hno
  · cases heq
    rcases genBuild_spec hbooted.pages with ⟨e, w, hfailed, _⟩ | ⟨st, _, _, hcall, _⟩
    · rw [hbuddy] at hfailed
      cases hfailed
    · exact ⟨st, hbuild.trans hcall⟩

end Build

/-- A system with pages of 4 KiB that grants every request, far from the others. -/
def roomyOs : Os :=
  { pageSize := 4096, answer := fun i => (i + 1) * 2 ^ 32 }

/-- A memory with one page in use. -/
def onePageMem : Mem :=
  { bytes := fun _ => 0, trace := [Event.map 4096 4096] }

theorem roomyOs_page : exists k, 4 ≤ k ∧ k < 64 ∧ roomyOs.pageSize = 2 ^ k :=
  ⟨12, by decide, by decide, rfl⟩

theorem roomyOs_made : exists st,
    makeGenAllocator roomyOs 8 4096 onePageMem = some (Made.ok st) := by
  have hboot : genBootstrap roomyOs 4096 onePageMem = some (Made.ok _) := rfl
  have hne : 8 ≠ NULL := by decide
  exact makeGenAllocator_of_buddy roomyOs_page hne hboot rfl

/-- A new allocator serves a small request. -/
theorem GenLive.first_small {os : Os} {base : List Block} {m₀ : Mem} {s : GenState}
    {fl free : Nat -> List Nat} (h : GenLive os base m₀ s fl free []) {n i : Nat}
    (hpos : n ≠ 0) (ht : genTier n = Tier.pool i) :
    exists p s', genAllocFn os n s = some (p, s') ∧ p ≠ NULL := by
  rcases h with ⟨pl, bl, sl, hparts, hsplit⟩
  rcases tier_pool_fits hpos ht with ⟨hi, hle⟩
  have hact : i ∈ List.range poolCount := List.mem_range.mpr hi
  have htouched := hparts.touchPool i
  have hshape := htouched.shapes i hact
  have hpool := htouched.pools i hact
  rw [← hshape.blockSize] at hle
  have hempty : sl i = [] := List.perm_nil.mp (hsplit.small i)
  have hlength := hpool.parts.length_eq
  rw [hempty, List.append_nil, List.length_range'] at hlength
  have htotal : (free i).length = poolTotals.getD i 0 := hlength.trans hshape.totalBlocks
  cases hfree : free i with
  | nil =>
      rw [hfree] at htotal
      have hsome := (poolTable_spec hi).right.right.left
      rw [← htotal] at hsome
      exact absurd hsome (Nat.lt_irrefl 0)
  | cons p rest =>
      rw [hfree] at hpool
      rcases poolAllocFn_served hpool hpos hle with ⟨t, hcall, hinv, _, _⟩
      exact ⟨p, _, genAllocFn_pool hpos ht (congrArg some hcall),
        hinv.live_ne_null List.mem_cons_self⟩

/-- One request of a client, which holds the block then. -/
theorem roomyOs_live : exists st s p,
    makeGenAllocator roomyOs 8 4096 onePageMem = some (Made.ok st) ∧
      Session.exec (genAllo roomyOs 4096) (Op.alloc 100) (Session.start st) = some s ∧
        (Session.client (genAllo roomyOs 4096)).Reaches (Session.start st) s ∧
          s.live = [⟨p, 100⟩] := by
  rcases roomyOs_made with ⟨st, hmake⟩
  rcases makeGenAllocator_ok roomyOs_page hmake with ⟨m₀, fl, free, hmade⟩
  have hpos : 100 ≠ 0 := by decide
  have ht : genTier 100 = Tier.pool 3 := by decide
  rcases hmade.live.first_small hpos ht with ⟨p, t, hcall, hp⟩
  have hlegal : (Session.start st).Legal (Op.alloc 100) :=
    show 100 < 2 ^ 64 by decide
  have halloc : alloAlloc (genAllo roomyOs 4096) 100 (Session.start st).state =
      some (p, t) := hcall
  have hexec : Session.exec (genAllo roomyOs 4096) (Op.alloc 100) (Session.start st) =
      some ((Session.start st).afterAlloc 100 p t) := by
    simp only [Session.exec, halloc, Option.bind_eq_bind, Option.bind_some]
  refine ⟨st, _, p, hmake, hexec, Machine.Reaches.start.step ⟨hlegal, trivial⟩ hexec, ?_⟩
  rw [Session.afterAlloc_placed _ t hp]
  rfl

/-- One request of a client. -/
theorem roomyOs_alloc : exists st s,
    makeGenAllocator roomyOs 8 4096 onePageMem = some (Made.ok st) ∧
      Session.exec (genAllo roomyOs 4096) (Op.alloc 100) (Session.start st) = some s ∧
        (Session.client (genAllo roomyOs 4096)).Reaches (Session.start st) s := by
  rcases roomyOs_live with ⟨st, s, p, hmake, hexec, hreach, _⟩
  exact ⟨st, s, hmake, hexec, hreach⟩

end Liballo
