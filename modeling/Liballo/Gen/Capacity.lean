import Liballo.Buddy.Capacity
import Liballo.Gen.Quiet
import Liballo.Page.Service
import Liballo.Pool.Backing

/-!
# How much the generic allocator can hold

Small and medium requests are served from the memory that was mapped when the allocator
was made: no system call is made for them, and they are refused only where their own
tier is full. The buffers of the pools were cut from the smallest free block each time,
so together they take up a single block of 512 KiB of the buddy allocator.
-/

namespace Liballo

open Foundation

/-!
# The buffers of the pools lie together
-/

section Packing

variable {χ : Type} [HasMem χ] {asan : Prop} {t : BuddyState χ}
variable {fl fl' : Nat -> List Nat} {us : List Node} {n k r : Node}

/-- The next buffer is cut from the block that the earlier ones lie in. -/
theorem BuddyInv.cut_within (h : BuddyInv asan 19 t fl us) (hr : r.Valid 19)
    (hlevel : r.level = 5) (hall : forall m, m ∈ us -> m.level = 8 ∧ m.Within r)
    (hne : us ≠ []) (hfew : us.length < 8) (hcut : CutFrom n k fl fl')
    (hk : k.level = 8) : k.Within r := by
  rcases List.exists_mem_of_ne_nil us hne with ⟨u, hu⟩
  have hones : us.map (fun m => 2 ^ (8 - m.level)) = us.map (fun _ => 1) := by
    apply List.map_congr_left
    intro m hm
    rw [(hall m hm).left]
    rfl
  have hplaces : (takenPlaces 8 us).card < 2 ^ (8 - r.level) := by
    have hcard := card_takenPlaces_le 8 us
    rw [hones, List.map_const', List.sum_replicate_nat, Nat.mul_one] at hcard
    rw [hlevel]
    exact Nat.lt_of_le_of_lt hcard hfew
  have hn : n ∈ FreeNodes fl := by
    show n.index ∈ fl n.level
    rw [hcut.front]
    exact List.mem_cons_self
  have hsmall : forall f, f ∈ FreeNodes fl -> f.level ≤ 8 -> f.level ≤ n.level := by
    intro f hf hle
    refine Nat.le_of_not_lt fun hlt => ?_
    have hmem : f.index ∈ fl f.level := hf
    rw [hcut.between f.level hlt (hk ▸ hle)] at hmem
    cases hmem
  exact hcut.within.trans (h.tiled.smallest_within hr (fun m hm => (hall m hm).right) hu
    (by omega) (by decide) hplaces hn hsmall)

end Packing

/-- One block of 512 KiB holds the buffers of the first `i` pools. -/
def PoolsPacked (i : Nat) (s : GenState) : Prop :=
  exists r : Node, r.Valid 19 ∧ r.level = 5 ∧
    forall j, j < i -> (s.tower.ctx.blockNode (s.poolBuffer j)).Within r

section Packed

variable {os : Os} {base : List Block} {m₀ : Mem} {s st : GenState}
variable {fl free : Nat -> List Nat} {pl : List Block} {sl : Nat -> List Nat} {i : Nat}

theorem PoolsPacked.stays {s' : GenState} (h : PoolsPacked i s) (hstays : s.Stays s') :
    PoolsPacked i s' := by
  unfold PoolsPacked
  rw [hstays.blockNode, hstays.buffers]
  exact h

theorem poolsPacked_zero (s : GenState) : PoolsPacked 0 s :=
  ⟨⟨5, 0⟩, ⟨by decide, by decide⟩, rfl, fun _ hj => absurd hj (Nat.not_lt_zero _)⟩

/-- Pool `i` is made next to the others. -/
theorem PoolsPacked.make_pool {t : PoolState (BuddyState PageState)}
    (h : GenParts os base m₀ (List.range i) s fl free pl [] sl) (hi : i < poolCount)
    (hpacked : PoolsPacked i s)
    (hmake : makePoolAllocator (genPoolAt s.block i) (some (genBuddy os)) NULL
      (poolSizes.getD i 0) (poolTotals.getD i 0) (s.touchPool i).tower =
        some (Made.ok t)) : PoolsPacked (i + 1) (s.setPool i t) := by
  rcases poolTable_spec hi with ⟨hround, _, _, hbytes⟩
  have hlt : poolBufferSize < 2 ^ 64 := by decide
  have hmul : sizeMul (poolSizes.getD i 0) (poolTotals.getD i 0) = poolBufferSize := by
    rw [← hbytes] at hlt ⊢
    exact sizeMul_eq hlt
  rcases makePoolAllocator_backed hmake with ⟨_, p, v, hcall, hne, rfl⟩
  rw [hround, hmul] at hcall
  have hparts := h.touchPool i
  have hgeom := hparts.buddy.inv.geom
  have hmax : (s.touchPool i).tower.ctx.maxOrder = 24 := hgeom.maxOrder
  have horder : (s.touchPool i).tower.ctx.order poolBufferSize = 16 := by
    rw [hgeom.order_eq]
    decide
  rcases buddyAllocFn_lists hparts.buddy.inv poolBufferSize with ⟨q, w, hcall', hcase⟩
  have hsame : (q, w) = (p, v) := hcall'.symm.trans (Option.some.inj hcall)
  cases hsame
  rcases hcase with ⟨hnull, _⟩ | ⟨fl', k, n, hgrant, hcut⟩
  · exact absurd hnull hne
  have hk : k.level = 8 := by
    rw [hgrant.level, hmax, horder]
  have hctx : v.ctx.blockNode = s.tower.ctx.blockNode := hgrant.moved.blockNode
  have hnew : s.tower.ctx.blockNode ⟨p, poolBufferSize⟩ = k := by
    rw [hgrant.addr]
    exact blockNode_eq hgrant.order hgrant.level
  -- The buffers that were there, and the new one.
  have hold : forall r : Node,
      (forall j, j < i -> (s.tower.ctx.blockNode (s.poolBuffer j)).Within r) ->
      k.Within r -> forall j, j < i + 1 ->
        ((s.setPool i (poolStart p (poolBlockSize (poolSizes.getD i 0))
            (poolTotals.getD i 0) true v)).tower.ctx.blockNode
          ((s.setPool i (poolStart p (poolBlockSize (poolSizes.getD i 0))
            (poolTotals.getD i 0) true v)).poolBuffer j)).Within r := by
    intro r hbefore hkr j hj
    show (v.ctx.blockNode _).Within r
    rw [hctx]
    rcases Nat.lt_or_eq_of_le (Nat.le_of_lt_succ hj) with hlt | rfl
    · unfold GenState.poolBuffer
      rw [GenState.setPool_pools_ne s _ (Nat.ne_of_lt hlt)]
      exact hbefore j hlt
    · unfold GenState.poolBuffer
      rw [GenState.setPool_pools_same, poolStart_ctx, hround, hbytes, hnew]
      exact hkr
  rcases hpacked with ⟨r, hr, hlevel, hall⟩
  by_cases hzero : i = 0
  · -- The first buffer decides which block it is.
    have hvalid := hgrant.inv.tiled.used_valid k List.mem_cons_self
    have hdeep : 5 ≤ k.level := by omega
    have hshallow : 5 ≤ 19 := by decide
    have hup : k.Within ⟨5, k.index / 2 ^ (k.level - 5)⟩ := ⟨hdeep, rfl⟩
    refine ⟨⟨5, k.index / 2 ^ (k.level - 5)⟩, ⟨hshallow, ?_⟩, rfl, hold _ ?_ hup⟩
    · have hindex := hvalid.right
      rw [hk] at hindex ⊢
      show k.index / 2 ^ (8 - 5) < 2 ^ 5
      omega
    · intro j hj
      omega
  · refine ⟨r, hr, hlevel, hold r hall ?_⟩
    refine hparts.buddy.inv.cut_within hr hlevel ?_ ?_ ?_ hcut hk
    · intro m hm
      rw [List.nil_append, List.map_map] at hm
      rcases List.mem_map.mp hm with ⟨j, hj, rfl⟩
      have hj' := List.mem_range.mp hj
      refine ⟨?_, hall j hj'⟩
      show (s.touchPool i).tower.ctx.maxOrder -
        (s.touchPool i).tower.ctx.order ((s.touchPool i).poolBuffer j).size = 8
      rw [hparts.poolBuffer_size hj (Nat.lt_trans hj' hi), horder, hmax]
    · intro hnil
      have hlength := congrArg List.length hnil
      rw [List.nil_append, List.length_map, List.length_map, List.length_range] at hlength
      exact hzero hlength
    · rw [List.nil_append, List.length_map, List.length_map, List.length_range]
      exact hi

theorem PoolsPacked.make_pools {left : Nat}
    (h : GenParts os base m₀ (List.range i) s fl free pl [] sl)
    (hleft : i + left = poolCount) (hpacked : PoolsPacked i s)
    (hmake : genMakePools os left i s = some (Made.ok st)) : PoolsPacked poolCount st := by
  induction left generalizing i s fl free sl with
  | zero =>
      have hdone : i = poolCount := hleft
      rw [hdone] at hpacked
      cases hmake
      exact hpacked
  | succ left ih =>
      have hi : i < poolCount := by omega
      rcases h.make_pool hi with ⟨t, fl', free', sl', hcall, hparts, _⟩
      have hnext := PoolsPacked.make_pool h hi hpacked hcall
      have hrest : i + 1 + left = poolCount := by omega
      unfold genMakePools at hmake
      simp only [hcall, Option.bind_eq_bind, Option.bind_some] at hmake
      exact ih hparts hrest hnext hmake

/-- The buffers of the pools are packed from the start. -/
theorem poolsPacked_of_build {page : PageState}
    (h : GenPages os base page.self m₀ page [])
    (hbuild : genBuild os page = some (Made.ok st)) : PoolsPacked poolCount st := by
  have hsize : buddyTotalSize ≤ 2 ^ 63 := by decide
  rcases @makeBuddyAllocator_total _ _ _ [] (genPages os base page.self m₀)
    (genBuddyAt page.self) NULL buddyTotalSize page hsize h with ⟨made, hmake, hcase⟩
  rcases hcase with ⟨e, w, rfl, _⟩ | ⟨t, rfl, hmade⟩
  · unfold genBuild at hbuild
    rw [hmake, Option.bind_eq_bind, Option.bind_some] at hbuild
    dsimp only at hbuild
    rw [genAbandon_eq] at hbuild
    cases hbuild
  · have hparts := genParts_start hmade (fun _ => ⟨NULL, 0, 0, NULL, false⟩)
    have hrange : List.range 0 = ([] : List Nat) := rfl
    rw [← hrange] at hparts
    have hpools : genMakePools os poolCount 0
        { block := page.self
          pools := fun _ => ⟨NULL, 0, 0, NULL, false⟩
          tower := buddyStart t } = some (Made.ok st) := by
      unfold genBuild at hbuild
      rw [hmake] at hbuild
      exact hbuild
    exact PoolsPacked.make_pools hparts (Nat.zero_add poolCount) (poolsPacked_zero _) hpools

theorem poolsPacked_of_make {out frame : Nat} {m : Mem}
    (hpage : exists k, 4 ≤ k ∧ k < 64 ∧ os.pageSize = 2 ^ k)
    (hmake : makeGenAllocator os out frame m = some (Made.ok st)) :
    PoolsPacked poolCount st := by
  unfold makeGenAllocator at hmake
  split at hmake
  · cases hmake
  · rcases @genBootstrap_spec os frame m hpage with ⟨made, hboot, hcase⟩
    rw [hboot, Option.bind_eq_bind, Option.bind_some] at hmake
    rcases hcase with ⟨e, m', rfl, _⟩ | ⟨page, rfl, hbooted⟩
    · cases hmake
    · exact poolsPacked_of_build hbooted.pages hmake

end Packed

/-!
# Where the tower stands
-/

section Runs

variable {os : Os} {base : List Block} {m₀ : Mem} {frame : Nat}
variable {fl free : Nat -> List Nat} {s s' : Session GenState}

theorem gen_step_stays (h : GenLive os base m₀ s.state fl free s.live) {op : Op}
    (hlegal : s.Legal op) (hexec : Session.exec (genAllo os frame) op s = some s') :
    s.state.Stays s'.state := by
  cases op with
  | alloc n =>
      rcases Session.exec_alloc hexec with ⟨p, st, hcall, rfl⟩
      rcases h.alloc hlegal with ⟨q, t, hcall', hstays, _⟩
      cases hcall.symm.trans hcall'
      rw [Session.afterAlloc_state]
      exact hstays
  | free b =>
      rcases Session.exec_free hexec with ⟨st, hcall, rfl⟩
      rcases h.free_block hlegal with ⟨t, _, _, hcall', hstays, _⟩
      cases hcall.symm.trans hcall'
      exact hstays
  | realloc b n =>
      have hb := hlegal.left
      rcases Session.exec_realloc hexec with ⟨p, st, hcall, rfl⟩
      rw [Session.afterRealloc_state]
      rcases alloRealloc_cases (h.ptr_ne_null hb) hcall with
        ⟨_, _, hfree⟩ | ⟨_, _, _, rfl⟩ | ⟨hpos, hne, hrealloc⟩
      · rcases h.free_block hb with ⟨t, _, _, hcall', hstays, _⟩
        cases hfree.symm.trans hcall'
        exact hstays
      · exact GenState.Stays.refl _
      · rcases h.realloc hb hpos hlegal.right hne with ⟨q, t, hcall', hstays, _⟩
        cases hrealloc.symm.trans hcall'
        exact hstays
  | poke x v =>
      rw [Session.exec_poke hexec]
      exact s.state.stays_setMem _

theorem gen_run_stays {st : GenState} (h : GenLive os base m₀ st fl free [])
    (hreach : (Session.client (genAllo os frame)).Reaches (Session.start st) s) :
    (exists fl' free', GenLive os base m₀ s.state fl' free' s.live) ∧
      st.Stays s.state := by
  refine hreach.invariant (fun s => (exists fl' free',
    GenLive os base m₀ s.state fl' free' s.live) ∧ st.Stays s.state) ?_ ?_
  · exact ⟨⟨fl, free, h⟩, GenState.Stays.refl st⟩
  · rintro s op s' ⟨⟨fl', free', hlive⟩, hstays⟩ hlegal hexec
    have hstep : exists s'' fl'' free'',
        GenStepped os base m₀ frame s op s'' fl'' free'' := gen_step hlive hlegal.left
    rcases hstep with ⟨s'', fl'', free'', hstepped⟩
    cases hexec.symm.trans hstepped.exec
    exact ⟨⟨fl'', free'', hstepped.live⟩,
      hstays.trans (gen_step_stays hlive hlegal.left hexec)⟩

end Runs

/-!
# The answers of the tiers
-/

section Answers

variable {os : Os} {base L : List Block} {m₀ : Mem} {s : GenState}
variable {fl free : Nat -> List Nat} {n i k : Nat}

/-- A pool refuses a request it is there for exactly when all of its blocks are live. -/
theorem GenLive.answer_small (h : GenLive os base m₀ s fl free L) (hpos : n ≠ 0)
    (ht : genTier n = Tier.pool i) :
    exists p s', genAllocFn os n s = some (p, s') ∧
      (p = NULL <-> (tierBlocks (Tier.pool i) L).length = poolTotals.getD i 0) := by
  rcases h with ⟨pl, bl, sl, hparts, hsplit⟩
  rcases tier_pool_fits hpos ht with ⟨hi, hle⟩
  have hact : i ∈ List.range poolCount := List.mem_range.mpr hi
  have htouched := hparts.touchPool i
  have hpool := htouched.pools i hact
  have hshape := htouched.shapes i hact
  have hfits : n ≤ ((s.touchPool i).pool i).ctx.blockSize := by
    show n ≤ ((s.touchPool i).pools i).blockSize
    rw [hshape.blockSize]
    exact hle
  have hcount : (free i).length + (tierBlocks (Tier.pool i) L).length =
      poolTotals.getD i 0 := by
    have hlength := hpool.parts.length_eq
    rw [List.length_append, List.length_range', (hsplit.small i).length_eq,
      List.length_map] at hlength
    exact hlength.trans hshape.totalBlocks
  cases hfree : free i with
  | nil =>
      have hnone : poolAllocFn n ((s.touchPool i).pool i) = (NULL, (s.touchPool i).pool i) :=
        poolAllocFn_refused hpool (Or.inr (Or.inr hfree))
      refine ⟨_, _, genAllocFn_pool hpos ht (congrArg some hnone), ?_⟩
      rw [hfree, List.length_nil, Nat.zero_add] at hcount
      exact iff_of_true rfl hcount
  | cons q rest =>
      rw [hfree] at hpool
      rcases poolAllocFn_served hpool hpos hfits with ⟨t, hcall, hserved, _⟩
      refine ⟨_, _, genAllocFn_pool hpos ht (congrArg some hcall), ?_⟩
      have hne := hserved.live_ne_null List.mem_cons_self
      rw [hfree, List.length_cons] at hcount
      exact iff_of_false hne (by omega)

/-- The buddy allocator refuses no medium request while the medium blocks, and one block of
512 KiB for the pools, leave an aligned place of a size the request fits in. -/
theorem GenLive.answer_medium (h : GenLive os base m₀ s fl free L)
    (hpacked : PoolsPacked poolCount s) (ht : genTier n = Tier.buddy) :
    exists p s', genAllocFn os n s = some (p, s') ∧ forall k, getOrder n ≤ k ->
      placesTaken k (tierBlocks Tier.buddy L) + 2 ^ (19 - k) < 2 ^ (24 - k) ->
        p ≠ NULL := by
  rcases h with ⟨pl, bl, sl, hparts, hsplit⟩
  have hbuddy := hparts.buddy
  have hgeom := hbuddy.inv.geom
  have hmax : s.tower.ctx.maxOrder = 24 := hgeom.maxOrder
  rcases genTier_buddy ht with ⟨hlarge, hmedium⟩
  have hpos : n ≠ 0 := Nat.ne_of_gt (Nat.lt_of_le_of_lt (Nat.zero_le _) hlarge)
  have hlt : n < 2 ^ 64 := Nat.lt_of_le_of_lt hmedium (by decide)
  rcases hcall : buddyAllocFn n s.tower with ⟨p, t⟩
  refine ⟨p, _, genAllocFn_buddy ht (congrArg some hcall), ?_⟩
  intro k hk hroom
  have hpow := Nat.two_pow_pos (19 - k)
  have hle : k ≤ 24 := by
    by_contra hbig
    rw [Nat.sub_eq_zero_of_le (by omega : 24 ≤ k), Nat.pow_zero] at hroom
    omega
  have horder := hgeom.order_eq n
  have hfive : 5 ≤ k := by
    by_contra hsmall
    have hsize := hgeom.size_le hlt
    rw [horder, Nat.max_eq_right (by omega)] at hsize
    exact absurd (Nat.lt_of_lt_of_le hlarge hsize) (by decide)
  rcases hpacked with ⟨r, hr, hlevel, hall⟩
  have hplaces : (takenPlaces (24 - k) ((bl ++ (List.range poolCount).map
      s.poolBuffer).map s.tower.ctx.blockNode)).card < 2 ^ (24 - k) := by
    have hpools : forall m, m ∈ ((List.range poolCount).map s.poolBuffer).map
        s.tower.ctx.blockNode -> m.Within r := by
      intro m hm
      rw [List.map_map] at hm
      rcases List.mem_map.mp hm with ⟨j, hj, rfl⟩
      exact hall j (List.mem_range.mp hj)
    have hblocks := hgeom.takenPlaces_le (L := bl)
      (fun b hb => (hbuddy.fits b (List.mem_append_left _ hb)).order) hfive
    have hperm : placesTaken k bl = placesTaken k (tierBlocks Tier.buddy L) :=
      (hsplit.medium.map _).sum_eq
    have hshared : (takenPlaces (24 - k) (((List.range poolCount).map s.poolBuffer).map
        s.tower.ctx.blockNode)).card ≤ (r.places (24 - k)).card :=
      Finset.card_le_card (takenPlaces_subset_of_within hpools)
    rw [r.card_places, hlevel] at hshared
    rw [hmax, hperm] at hblocks
    rw [List.map_append, takenPlaces_append]
    refine Nat.lt_of_le_of_lt (Finset.card_union_le _ _) ?_
    refine Nat.lt_of_le_of_lt (Nat.add_le_add hblocks hshared) ?_
    rw [show 24 - k - 5 = 19 - k by omega]
    exact hroom
  rcases hbuddy.inv.granted_of_room hpos (by omega) hplaces with
    ⟨q, u, _, _, hcall', hgrant⟩
  cases hcall.symm.trans hcall'
  exact hgrant.ne_null hgeom

/-- Medium blocks take up one place of a mebibyte each. -/
theorem placesTaken_medium (hall : forall b, b ∈ L -> genTier b.size = Tier.buddy) :
    placesTaken 20 L = L.length := by
  have hones : L.map (fun b => 2 ^ (getOrder b.size - 20)) = L.map (fun _ => 1) := by
    apply List.map_congr_left
    intro b hb
    have hle : b.size ≤ 2 ^ 20 := (genTier_buddy (hall b hb)).right
    have horder : getOrder b.size ≤ 20 :=
      (getOrder_le_iff (Nat.lt_of_le_of_lt hle (by decide))).mpr hle
    rw [Nat.sub_eq_zero_of_le horder, Nat.pow_zero]
  rw [placesTaken, hones, List.map_const', List.sum_replicate_nat, Nat.mul_one]

/-- A large request is refused only when the system refuses one on the way. -/
theorem genAllocFn_large (ht : genTier n = Tier.page) :
    exists p s', genAllocFn os n s = some (p, s') ∧
      (p = NULL -> exists es, (mem s').trace = Event.refuse :: (es ++ (mem s).trace)) := by
  have hpos : n ≠ 0 := Nat.ne_of_gt (Nat.lt_of_le_of_lt (Nat.zero_le _) (genTier_page ht))
  rcases hcall : pageAllocFn os n s.tower.child with ⟨p, w⟩
  refine ⟨p, _, genAllocFn_page ht (congrArg some hcall), ?_⟩
  rintro rfl
  exact pageAllocFn_refuses hpos hcall

end Answers

/-- When the generic allocator refuses a request in the state `s`, and that it makes no
request to the system for what is small or medium. -/
structure GenHolds (os : Os) (frame : Nat) (s : Session GenState) : Prop where
  small : forall n i, n ≠ 0 -> genTier n = Tier.pool i ->
    exists p s', alloAlloc (genAllo os frame) n s.state = some (p, s') ∧
      requests (mem s').trace = requests (mem s.state).trace ∧
        (p = NULL <->
          (tierBlocks (Tier.pool i) s.live).length = poolTotals.getD i 0)
  medium : forall n, genTier n = Tier.buddy ->
    exists p s', alloAlloc (genAllo os frame) n s.state = some (p, s') ∧
      requests (mem s').trace = requests (mem s.state).trace ∧
        ((tierBlocks Tier.buddy s.live).length < 15 -> p ≠ NULL) ∧
          forall k, getOrder n ≤ k ->
            placesTaken k (tierBlocks Tier.buddy s.live) + 2 ^ (19 - k) < 2 ^ (24 - k) ->
              p ≠ NULL
  large : forall n, genTier n = Tier.page ->
    exists p s', alloAlloc (genAllo os frame) n s.state = some (p, s') ∧
      (p = NULL ->
        exists es, (mem s').trace = Event.refuse :: (es ++ (mem s.state).trace))

/-- After any run, a small request is refused exactly when all blocks of its size class are
live, a medium one only if the medium blocks leave no place for it in the 16 MiB, and a
large one only if the system refuses. -/
theorem gen_refuses_only_when_full {os : Os} {out frame : Nat} {m : Mem} {st : GenState}
    {s : Session GenState} (hpage : exists k, 4 ≤ k ∧ k < 64 ∧ os.pageSize = 2 ^ k)
    (hmake : makeGenAllocator os out frame m = some (Made.ok st))
    (hreach : (Session.client (genAllo os frame)).Reaches (Session.start st) s) :
    GenHolds os frame s := by
  have hpacked := poolsPacked_of_make hpage hmake
  rcases makeGenAllocator_ok hpage hmake with ⟨m₀, fl, free, hmade⟩
  rcases gen_run_stays hmade.live hreach with ⟨⟨fl', free', hlive⟩, hstays⟩
  constructor
  · intro n i hpos ht
    rcases hlive.answer_small hpos ht with ⟨p, s', hcall, hiff⟩
    have hsmall : n ≤ mediumObjLimit := Nat.le_trans (genTier_pool ht).left (by decide)
    exact ⟨p, s', hcall, Wrote.requests_eq (quiet_alloc hlive hsmall hcall), hiff⟩
  · intro n ht
    have hmedium := genTier_buddy ht
    rcases hlive.answer_medium (hpacked.stays hstays) ht with ⟨p, s', hcall, hroom⟩
    refine ⟨p, s', hcall, Wrote.requests_eq (quiet_alloc hlive hmedium.right hcall), ?_,
      hroom⟩
    intro hfew
    have horder : getOrder n ≤ 20 :=
      (getOrder_le_iff (Nat.lt_of_le_of_lt hmedium.right (by decide))).mpr hmedium.right
    refine hroom 20 horder ?_
    rw [placesTaken_medium (fun b hb => (mem_tierBlocks.mp hb).right)]
    omega
  · intro n ht
    exact genAllocFn_large ht

/-- A client that holds one small block. -/
theorem gen_refuses_only_when_full_one : exists st s p,
    makeGenAllocator roomyOs 8 4096 onePageMem = some (Made.ok st) ∧
      s.live = [⟨p, 100⟩] ∧ GenHolds roomyOs 4096 s := by
  rcases roomyOs_live with ⟨st, s, p, hmake, _, hreach, hlive⟩
  exact ⟨st, s, p, hmake, hlive, gen_refuses_only_when_full roomyOs_page hmake hreach⟩

end Liballo
