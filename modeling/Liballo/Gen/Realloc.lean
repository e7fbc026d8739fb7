import Liballo.Buddy.Coalescing
import Liballo.Gen.Ownership

/-!
# Reallocation across the tiers

Whatever the two sizes are, a reallocation that succeeds comes to the same: a block of the
new size in the tier of that size, with the first bytes of the old block, which is back
with the part that owned it. All other blocks stay as they are.
-/

namespace Liballo

open Foundation

/-!
# Giving up mappings

Only the page allocator talks to the operating system. A large block that moves gives up
one mapping: by a move of the mapping if it stays large, and by a free if it does not.
-/

section GivenUp

variable {os : Os} {base L : List Block} {m₀ : Mem} {s s' : GenState}
variable {fl free : Nat -> List Nat} {pl bl : List Block} {sl : Nat -> List Nat}
variable {b : Block} {n p : Nat}

/-- Small and medium blocks are allocated without a request to the system. -/
theorem GenParts.alloc_givenUp
    (h : GenParts os base m₀ (List.range poolCount) s fl free pl bl sl) (hpos : n ≠ 0)
    (hn : n < 2 ^ 64) (ht : genTier n ≠ Tier.page)
    (hcall : genAllocFn os n s = some (p, s')) :
    givenUp (mem s').trace = givenUp (mem s).trace ∧
      s'.tower.child.ctx = s.tower.child.ctx := by
  cases hn' : genTier n with
  | page => exact absurd hn' ht
  | buddy =>
      rcases h.buddy.alloc hn with ⟨q, t, halloc, _, hcase⟩
      have hmoved : exists P, BuddyMoved False P s.tower t := by
        rcases hcase with ⟨_, hrefused, _⟩ | ⟨_, fl', _, hmoved⟩
        · exact ⟨_, hrefused.moved⟩
        · exact ⟨_, hmoved⟩
      rcases hmoved with ⟨P, hmoved⟩
      rw [genAllocFn_buddy hn' (congrArg some halloc)] at hcall
      cases hcall
      refine ⟨hmoved.wrote.givenUp_eq, ?_⟩
      show t.child.ctx = s.tower.child.ctx
      rw [hmoved.child]
      rfl
  | pool i =>
      rcases tier_pool_fits hpos hn' with ⟨hi, hle⟩
      have hact : i ∈ List.range poolCount := List.mem_range.mpr hi
      have htouched := h.touchPool i
      rw [← (htouched.shapes i hact).blockSize] at hle
      rcases htouched.pool_alloc hact hpos hle with ⟨q, t, halloc, _, hsame, _⟩
      have hwrote := wrote_poolAllocFn n ((s.touchPool i).pool i)
      rw [halloc] at hwrote
      rw [genAllocFn_pool hpos hn' (congrArg some halloc)] at hcall
      cases hcall
      refine ⟨hwrote.givenUp_eq, ?_⟩
      show t.child.child.ctx = s.tower.child.ctx
      rw [hsame.child]
      rfl

/-- A move that succeeds is an allocation, a copy and a free. -/
theorem genMove_some {ptr oldSize : Nat} (hp : p ≠ NULL)
    (hcall : genMove os ptr oldSize n s = some (p, s')) :
    exists s₁, genAllocFn os n s = some (p, s₁) ∧
      genFreeFn os ptr oldSize
        (setMem ((mem s₁).copy p ptr (min oldSize n)) s₁) = some s' := by
  rcases Option.bind_eq_some_iff.mp hcall with ⟨⟨q, s₁⟩, halloc, hrest⟩
  dsimp only at hrest
  by_cases hq : q = NULL
  · rw [if_pos hq] at hrest
    exact absurd (congrArg Prod.fst (Option.some.inj hrest)).symm hp
  · rw [if_neg hq] at hrest
    rcases Option.bind_eq_some_iff.mp hrest with ⟨m, hcopy, hrest⟩
    rcases Option.bind_eq_some_iff.mp hrest with ⟨s₂, hfree, hdone⟩
    cases hdone
    rw [copySize_eq] at hcopy
    have hm : m = (mem s₁).copy p ptr (min oldSize n) := alloMemcpy_some hcopy
    rw [hm] at hfree
    exact ⟨s₁, halloc, hfree⟩

/-- A large block that moves gives up its mapping, and that is all that is given up. -/
theorem GenLive.realloc_givenUp (h : GenLive os base m₀ s fl free L) (hb : b ∈ L)
    (hpos : n ≠ 0) (hn : n < 2 ^ 64) (ht : genTier b.size = Tier.page)
    (hcall : genReallocFn os b.ptr b.size n s = some (p, s')) (hp : p ≠ NULL)
    (hne : p ≠ b.ptr) :
    givenUp (mem s').trace = s.pageBlock b :: givenUp (mem s).trace := by
  have hptr := h.ptr_ne_null hb
  by_cases hlarge : genTier n = Tier.page
  · by_cases hsize : b.size = n
    · subst hsize
      rw [genReallocFn_page hptr ht ht (alloRealloc_same hpos hptr)] at hcall
      exact absurd (congrArg Prod.fst (Option.some.inj hcall)).symm hne
    · rcases hpage : pageReallocFn os b.ptr b.size n s.tower.child with ⟨q, w⟩
      have hpass : alloRealloc (pageAllo os) b.ptr b.size n s.tower.child =
          some (q, w) := by
        rw [alloRealloc_pass hpos hptr hsize]
        exact congrArg some hpage
      rw [genReallocFn_page hptr ht hlarge hpass] at hcall
      cases hcall
      exact pageReallocFn_givenUp hptr hpage hp hne
  · have hcross : genTier b.size ≠ genTier n := by
      rw [ht]
      exact Ne.symm hlarge
    rw [genReallocFn_cross hptr hpos hcross] at hcall
    rcases genMove_some hp hcall with ⟨s₁, halloc, hfree⟩
    rw [genFreeFn_page hptr ht rfl] at hfree
    cases hfree
    rcases h with ⟨pl, bl, sl, hparts, _⟩
    rcases hparts.alloc_givenUp hpos hn hlarge halloc with ⟨hsame, hctx⟩
    refine (pageFreeFn_givenUp hptr b.size).trans ?_
    show (⟨b.ptr, pageRound s₁.tower.child.ctx b.size⟩ : Block) ::
      givenUp (mem s₁).trace = s.pageBlock b :: givenUp (mem s).trace
    rw [hctx, hsame]
    rfl

end GivenUp

/-!
# Blocks that are back

A part has a block back when the block is free in it: once in the free list of a pool, in
one free node of the buddy allocator, or given up once to the operating system.
-/

/-- Between `s` and `s'` the block `b` went back to the part `t`; `fl'` and `free'` are free
in `s'`. -/
def TierHasBack (t : Tier) (s s' : GenState) (fl' free' : Nat -> List Nat) (b : Block) :
    Prop :=
  match t with
  | Tier.pool i => (free' i).count b.ptr = 1
  | Tier.buddy => exists k, k ∈ FreeNodes fl' ∧
      (s.buddyBlock b).Inside (s'.tower.ctx.nodeBlock k) ∧
        forall j, j ∈ FreeNodes fl' ->
          (s.buddyBlock b).Inside (s'.tower.ctx.nodeBlock j) -> j = k
  | Tier.page => givenUp (mem s').trace = s.pageBlock b :: givenUp (mem s).trace

section Back

variable {os : Os} {base L L' : List Block} {m₀ : Mem} {s s' : GenState}
variable {fl free fl' free' : Nat -> List Nat} {pl bl pl' bl' : List Block}
variable {sl sl' : Nat -> List Nat} {b : Block} {i n p : Nat}

namespace GenParts

/-- A block of a pool that is in nobody's hands is in the free list. -/
theorem pool_hasBack (h : GenParts os base m₀ (List.range poolCount) s fl free pl bl sl)
    (h' : GenParts os base m₀ (List.range poolCount) s' fl' free' pl' bl' sl')
    (hstays : s.Stays s') (hi : i < poolCount) (hp : p ∈ sl i) (hgone : p ∉ sl' i) :
    (free' i).count p = 1 := by
  have hact : i ∈ List.range poolCount := List.mem_range.mpr hi
  have hmem : p ∈ poolBlocks (s.pools i).buffer (s.pools i).blockSize
      (s.pools i).totalBlocks := (h.pools i hact).live_mem hp
  have hbuffer : (s'.pools i).buffer = (s.pools i).buffer :=
    congrArg Block.ptr (congrFun hstays.buffers i)
  have hshape := h.shapes i hact
  have hshape' := h'.shapes i hact
  rw [← hbuffer, hshape.blockSize, hshape.totalBlocks, ← hshape'.blockSize,
    ← hshape'.totalBlocks] at hmem
  have hpool := h'.pools i hact
  rcases List.mem_append.mp (hpool.parts.mem_iff.mpr hmem) with hfree | hlive
  · exact List.count_eq_one_of_mem (List.nodup_append.mp hpool.nodup).left hfree
  · exact absurd hlive hgone

/-- A node of the buddy allocator that is in nobody's hands lies in a free node. -/
theorem buddy_hasBack (h : GenParts os base m₀ (List.range poolCount) s fl free pl bl sl)
    (h' : GenParts os base m₀ (List.range poolCount) s' fl' free' pl' bl' sl')
    (hstays : s.Stays s') (hb : b ∈ bl)
    (hgone : forall d, d ∈ bl' ->
      (s.tower.ctx.blockNode d).Apart (s.tower.ctx.blockNode b)) :
    TierHasBack Tier.buddy s s' fl' free' b := by
  have hvalid := h.buddy.node_valid (List.mem_append_left _ hb)
  have hvacant : Vacant 19 ((bl' ++ (List.range poolCount).map s'.poolBuffer).map
      s'.tower.ctx.blockNode) (s.tower.ctx.blockNode b) := by
    refine ⟨hvalid, ?_⟩
    intro k hk
    rw [hstays.blockNode, hstays.buffers] at hk
    rcases List.mem_map.mp hk with ⟨d, hd, rfl⟩
    rcases List.mem_append.mp hd with hd | hd
    · exact (hgone d hd).symm
    · have hnodes := h.buddy.inv.tiled.used_apart
      rw [List.map_append] at hnodes
      exact (List.pairwise_append.mp hnodes).right.right _ (List.mem_map_of_mem hb) _
        (List.mem_map_of_mem hd)
  have htiled := h'.buddy.inv.tiled
  have hinside : forall k, k ∈ FreeNodes fl' ->
      ((s.buddyBlock b).Inside (s'.tower.ctx.nodeBlock k) <->
        (s.tower.ctx.blockNode b).Within k) := by
    intro k hk
    rw [hstays.nodeBlock]
    exact nodeBlock_inside_iff h.buddy.inv.geom hvalid (htiled.free_valid k hk)
  rcases htiled.vacant_within hvacant with ⟨k, hk, hwithin⟩
  refine ⟨k, hk, (hinside k hk).mpr hwithin, ?_⟩
  intro j hj hin
  by_contra hne
  have hboth := (htiled.free_apart j hj k hk hne).within ((hinside j hj).mp hin)
  exact hboth.left hwithin

/-- A reallocation that moves a block gives the old one back to its owner. -/
theorem realloc_hasBack (h : GenParts os base m₀ (List.range poolCount) s fl free pl bl sl)
    (h' : GenParts os base m₀ (List.range poolCount) s' fl' free' pl' bl' sl')
    (hsplit : GenSplit L pl bl sl) (hsplit' : GenSplit (⟨p, n⟩ :: L.erase b) pl' bl' sl')
    (hstays : s.Stays s') (hb : b ∈ L) (hpos : n ≠ 0) (hn : n < 2 ^ 64)
    (hcall : genReallocFn os b.ptr b.size n s = some (p, s')) (hp : p ≠ NULL)
    (hne : p ≠ b.ptr) : TierHasBack (genTier b.size) s s' fl' free' b := by
  have hlive : GenLive os base m₀ s fl free L := ⟨pl, bl, sl, h, hsplit⟩
  have hptr := hlive.ptr_ne_null hb
  cases ht : genTier b.size with
  | page => exact hlive.realloc_givenUp hb hpos hn ht hcall hp hne
  | pool i =>
      refine h.pool_hasBack h' hstays (tier_pool_fits (hsplit.positive b hb) ht).left
        (hsplit.mem_small hb ht) ?_
      intro hmem
      rcases List.mem_map.mp ((hsplit'.small i).mem_iff.mp hmem) with ⟨c, hc, hsame⟩
      have hout := (mem_tierBlocks.mp hc).left
      cases hout with
      | head => exact hne hsame
      | tail _ hold =>
          have hcb := hlive.disjoint.disjoint_of_mem_erase hb hold
          have hbpos := Nat.pos_of_ne_zero (hsplit.positive b hb)
          have hcpos := Nat.pos_of_ne_zero
            (hsplit.positive c (List.mem_of_mem_erase hold))
          exact hcb.ptr_ne hbpos hcpos hsame.symm
  | buddy =>
      have hmedium := hsplit.mem_medium hb ht
      refine h.buddy_hasBack h' hstays hmedium ?_
      intro d hd
      rcases mem_tierBlocks.mp (hsplit'.medium.mem_iff.mp hd) with ⟨hout, htd⟩
      cases hout with
      | head =>
          by_cases hsize : b.size = n
          · subst hsize
            rw [genReallocFn_buddy hptr ht ht (alloRealloc_same hpos hptr)] at hcall
            exact absurd (congrArg Prod.fst (Option.some.inj hcall)).symm hne
          · rcases h.buddy_realloc hmedium hpos hn with ⟨q, t, hbuddy, _⟩
            have hpass : alloRealloc (genBuddy os) b.ptr b.size n s.tower =
                some (q, t) := by
              rw [alloRealloc_pass hpos hptr hsize]
              exact hbuddy
            rw [genReallocFn_buddy hptr ht htd hpass] at hcall
            cases hcall
            exact h.buddy.realloc_apart (List.mem_append_left _ hmedium) hpos hn hbuddy hp
      | tail _ hold =>
          have hkept : d ∈ bl.erase b := (hsplit.erase_medium hb ht).medium.mem_iff.mpr
            (mem_tierBlocks.mpr ⟨hold, htd⟩)
          have hbuddy := h.buddy.perm ((List.perm_cons_erase hmedium).append_right _)
          have hnodes := hbuddy.inv.tiled.used_apart
          rw [List.cons_append, List.map_cons] at hnodes
          exact ((List.pairwise_cons.mp hnodes).left _ (List.mem_map_of_mem
            (List.mem_append_left _ hkept))).symm

end GenParts

end Back

/-!
# The specification
-/

section Realloc

variable {os : Os} {base L : List Block} {m₀ : Mem} {s : GenState}
variable {fl free : Nat -> List Nat} {b : Block} {n : Nat}

/-- A block that keeps its size stays where it is. -/
theorem GenLive.realloc_same (h : GenLive os base m₀ s fl free L) (hb : b ∈ L) :
    exists s', genReallocFn os b.ptr b.size b.size s = some (b.ptr, s') ∧ s.Stays s' ∧
      (mem s').bytes = (mem s).bytes ∧ GenLive os base m₀ s' fl free (b :: L.erase b) := by
  have hptr := h.ptr_ne_null hb
  have hlive := h.perm (List.perm_cons_erase hb)
  rcases h with ⟨pl, bl, sl, hparts, hsplit⟩
  have hpos := hsplit.positive b hb
  cases ht : genTier b.size with
  | page =>
      exact ⟨s, genReallocFn_page hptr ht ht (alloRealloc_same hpos hptr),
        GenState.Stays.refl s, rfl, hlive⟩
  | buddy =>
      exact ⟨s, genReallocFn_buddy hptr ht ht (alloRealloc_same hpos hptr),
        GenState.Stays.refl s, rfl, hlive⟩
  | pool i =>
      have hstay : alloRealloc (genPool os) b.ptr b.size b.size
          ((s.touchPool i).pool i) = some (b.ptr, (s.touchPool i).pool i) :=
        alloRealloc_same hpos hptr
      have hcall := genReallocFn_pool hptr hpos ht ht hstay
      rw [(s.touchPool i).setPool_pool i] at hcall
      exact ⟨s.touchPool i, hcall, s.stays_touchPool i, rfl, pl, bl, sl,
        hparts.touchPool i, hsplit.perm (List.perm_cons_erase hb)⟩

/-- Every reallocation to a positive size. -/
theorem GenLive.realloc_any (h : GenLive os base m₀ s fl free L) (hb : b ∈ L)
    (hpos : n ≠ 0) (hn : n < 2 ^ 64) :
    exists p s', genReallocFn os b.ptr b.size n s = some (p, s') ∧ s.Stays s' ∧
      KeepsBytes (L.erase b) (mem s) (mem s') ∧
        (p = NULL ∧ GenLive os base m₀ s' fl free L ∨
          p ≠ NULL ∧ KeepsPrefix b.ptr p (min b.size n) (mem s) (mem s') ∧
            exists fl' free',
              GenLive os base m₀ s' fl' free' (⟨p, n⟩ :: L.erase b)) := by
  by_cases hsize : b.size = n
  · subst hsize
    rcases h.realloc_same hb with ⟨s', hcall, hstays, hbytes, hlive⟩
    exact ⟨b.ptr, s', hcall, hstays, fun _ _ x _ => congrFun hbytes x,
      Or.inr ⟨h.ptr_ne_null hb, fun _ _ => congrFun hbytes _, fl, free, hlive⟩⟩
  · rcases h.realloc hb hpos hn hsize with ⟨p, s', hcall, hstays, hkeeps, hcase⟩
    refine ⟨p, s', hcall, hstays, hkeeps, ?_⟩
    rcases hcase with ⟨hnull, hlive, _⟩ | hmoved
    · exact Or.inl ⟨hnull, hlive⟩
    · exact Or.inr hmoved

end Realloc

/-- The block `b` of the client was resized to `n` bytes, which the call answered with `q`
and the state `st`. The parts hold `pl`, `bl` and `sl` before, and `pl'`, `bl'` and `sl'`
after. -/
structure GenResized (s : Session GenState) (b : Block) (n q : Nat) (st : GenState)
    (pl bl : List Block) (sl : Nat -> List Nat) (pl' bl' : List Block)
    (sl' fl' free' : Nat -> List Nat) : Prop where
  placed : q ≠ NULL -> (s.afterRealloc b n q st).live = ⟨q, n⟩ :: s.live.erase b
  kept : q ≠ NULL -> KeepsPrefix b.ptr q (min b.size n) (mem s.state) (mem st)
  others : KeepsBytes (s.live.erase b) (mem s.state) (mem st)
  owners : forall c, c ∈ s.live.erase b -> forall t,
    TierHolds t pl' bl' sl' c <-> TierHolds t pl bl sl c
  back : q ≠ NULL -> q ≠ b.ptr ->
    TierHasBack (genTier b.size) s.state st fl' free' b

/-- For every live block in every state that a client of a new generic allocator reaches,
and every positive size. -/
theorem gen_realloc_moves {os : Os} {out frame n : Nat} {m : Mem} {st : GenState}
    {s : Session GenState} {b : Block}
    (hpage : exists k, 4 ≤ k ∧ k < 64 ∧ os.pageSize = 2 ^ k)
    (hmake : makeGenAllocator os out frame m = some (Made.ok st))
    (hreach : (Session.client (genAllo os frame)).Reaches (Session.start st) s)
    (hb : b ∈ s.live) (hpos : n ≠ 0) (hn : n < 2 ^ 64) :
    exists q t, genReallocFn os b.ptr b.size n s.state = some (q, t) ∧
      exists m₀ fl free pl bl sl fl' free' pl' bl' sl',
        GenOwnership os (liveMaps m.trace) m₀ s fl free pl bl sl ∧
          GenOwnership os (liveMaps m.trace) m₀ (s.afterRealloc b n q t) fl' free' pl' bl'
              sl' ∧
            GenResized s b n q t pl bl sl pl' bl' sl' fl' free' := by
  rcases makeGenAllocator_ok hpage hmake with ⟨m₀, fl₀, free₀, hmade⟩
  rcases gen_run hmade.live hreach with ⟨fl, free, hlive, _⟩
  rcases hlive.realloc_any hb hpos hn with ⟨q, t, hcall, hstays, hkeeps, hcase⟩
  rcases hlive with ⟨pl, bl, sl, hparts, hsplit⟩
  have hpre := hparts.ownership hsplit
  refine ⟨q, t, hcall, m₀, fl, free, pl, bl, sl, ?_⟩
  have howners : forall {fl' free' pl' bl' sl'},
      GenOwnership os (liveMaps m.trace) m₀ (s.afterRealloc b n q t) fl' free' pl' bl' sl' ->
        (forall c, c ∈ s.live.erase b -> c ∈ (s.afterRealloc b n q t).live) ->
          forall c, c ∈ s.live.erase b -> forall u,
            TierHolds u pl' bl' sl' c <-> TierHolds u pl bl sl c := by
    intro fl' free' pl' bl' sl' hpost hsub c hc u
    exact (hpost.owner c (hsub c hc) u).trans
      (hpre.owner c (List.mem_of_mem_erase hc) u).symm
  rcases hcase with ⟨rfl, pl', bl', sl', hparts', hsplit'⟩ | ⟨hq, hprefix, hmoved⟩
  · have hafter := s.afterRealloc_null b t hpos
    have hpost : GenOwnership os (liveMaps m.trace) m₀ (s.afterRealloc b n NULL t) fl free
        pl' bl' sl' := by
      rw [hafter]
      exact hparts'.ownership hsplit'
    refine ⟨fl, free, pl', bl', sl', hpre, hpost, ?_⟩
    exact
      { placed := fun hno => absurd rfl hno
        kept := fun hno => absurd rfl hno
        others := hkeeps
        owners := howners hpost (by
          rw [hafter]
          exact fun c hc => List.mem_of_mem_erase hc)
        back := fun hno => absurd rfl hno }
  · rcases hmoved with ⟨fl', free', pl', bl', sl', hparts', hsplit'⟩
    have hafter := s.afterRealloc_placed b t hpos hq
    have hpost : GenOwnership os (liveMaps m.trace) m₀ (s.afterRealloc b n q t) fl' free'
        pl' bl' sl' := by
      rw [hafter]
      exact hparts'.ownership hsplit'
    refine ⟨fl', free', pl', bl', sl', hpre, hpost, ?_⟩
    exact
      { placed := fun _ => by rw [hafter]
        kept := fun _ => hprefix
        others := hkeeps
        owners := howners hpost (by
          rw [hafter]
          exact fun c hc => List.mem_cons_of_mem _ hc)
        back := fun _ hne => hparts.realloc_hasBack hparts' hsplit hsplit' hstays hb hpos
          hn hcall hq hne }

/-- The first block of a client goes from the pools to the page allocator. -/
theorem gen_realloc_moves_grow : exists st s p,
    makeGenAllocator roomyOs 8 4096 onePageMem = some (Made.ok st) ∧
      s.live = [⟨p, 100⟩] ∧ genTier 100 = Tier.pool 3 ∧ genTier 3000000 = Tier.page ∧
        exists q t, genReallocFn roomyOs p 100 3000000 s.state = some (q, t) ∧
          exists m₀ fl free pl bl sl fl' free' pl' bl' sl',
            GenOwnership roomyOs [⟨4096, 4096⟩] m₀ s fl free pl bl sl ∧
              GenOwnership roomyOs [⟨4096, 4096⟩] m₀
                  (s.afterRealloc ⟨p, 100⟩ 3000000 q t) fl' free' pl' bl' sl' ∧
                GenResized s ⟨p, 100⟩ 3000000 q t pl bl sl pl' bl' sl' fl' free' := by
  rcases roomyOs_live with ⟨st, s, p, hmake, _, hreach, hlive⟩
  have hb : (⟨p, 100⟩ : Block) ∈ s.live := by
    rw [hlive]
    exact List.mem_cons_self
  exact ⟨st, s, p, hmake, hlive, by decide, by decide,
    gen_realloc_moves roomyOs_page hmake hreach hb (by decide) (by decide)⟩

end Liballo
