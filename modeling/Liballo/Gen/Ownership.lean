import Liballo.Gen.Build

/-!
# Which part owns a block

In every state that a client reaches, a live block is in the hands of the part to which
a free of its size goes, and of no other part. What serves it lies apart from what serves
the other live blocks and from the storage of the allocator itself.
-/

namespace Liballo

open Foundation

/-- Free `b` in a tier that is already known. -/
def tierFree (os : Os) (t : Tier) (b : Block) (s : GenState) : Option GenState :=
  match t with
  | Tier.pool i =>
      (alloFree (genPool os) b.ptr b.size ((s.touchPool i).pool i)).map
        (fun t => (s.touchPool i).setPool i t)
  | Tier.buddy =>
      (alloFree (genBuddy os) b.ptr b.size s.tower).map
        (fun t => { s with tower := t })
  | Tier.page =>
      (alloFree (pageAllo os) b.ptr b.size s.tower.child).map (fun t => s.setPage t)

/-- A free goes to the tier of the size. -/
theorem genFreeFn_tier {os : Os} {s : GenState} {b : Block} (hptr : b.ptr ≠ NULL) :
    genFreeFn os b.ptr b.size s = tierFree os (genTier b.size) b s := by
  unfold genFreeFn genTier
  rw [if_neg hptr]
  split
  · rw [tierFree, Option.map_eq_bind]
    rfl
  · split
    · rw [tierFree, Option.map_eq_bind]
      rfl
    · rw [tierFree, Option.map_eq_bind]
      rfl

/-!
# The storage of the allocator itself
-/

/-- The state block, the registry of the page allocator, the tables of the buddy
allocator, its free blocks and the free blocks of the pools. -/
inductive GenOwn (os : Os) (s : GenState) (act : List Nat) (fl free : Nat -> List Nat) :
    Block -> Prop where
  | state : GenOwn os s act fl free (stateMap os s.block)
  | registry : GenOwn os s act fl free s.tower.child.ctx.registryMap
  | table {b : Block} :
      b ∈ s.tower.ctx.tables -> GenOwn os s act fl free (s.pageBlock b)
  | node {k : Node} :
      k ∈ FreeNodes fl -> GenOwn os s act fl free (s.tower.ctx.nodeBlock k)
  | slot {i q : Nat} :
      i ∈ act -> q ∈ free i -> GenOwn os s act fl free ⟨q, (s.pools i).blockSize⟩

namespace GenParts

variable {os : Os} {base : List Block} {m₀ : Mem} {act : List Nat} {s : GenState}
variable {fl free : Nat -> List Nat} {pl bl : List Block} {sl : Nat -> List Nat}
variable {i q : Nat} {b c x : Block}

theorem mem_serving : x ∈ s.serving act pl bl sl <->
    (exists b, b ∈ pl ∧ s.pageBlock b = x) ∨ (exists b, b ∈ bl ∧ s.buddyBlock b = x) ∨
      exists i, i ∈ act ∧ exists p, p ∈ sl i ∧ ⟨p, (s.pools i).blockSize⟩ = x := by
  simp only [GenState.serving, List.mem_append, List.mem_map, List.mem_flatMap,
    GenState.poolLeaves]

/-- What serves a user lies in the mapping of a large block or in that of the buffer. -/
theorem serving_mapped (h : GenParts os base m₀ act s fl free pl bl sl)
    (hx : x ∈ s.serving act pl bl sl) :
    exists b, b ∈ s.tower.ctx.region :: pl ∧ x.Inside (s.pageBlock b) := by
  have hregion := h.pageBlock_inside h.region_mem
  rcases mem_serving.mp hx with ⟨b, hb, rfl⟩ | ⟨b, hb, rfl⟩ | ⟨i, hi, p, hp, rfl⟩
  · exact ⟨b, List.mem_cons_of_mem _ hb, Nat.le_refl _, Nat.le_refl _⟩
  · exact ⟨_, List.mem_cons_self, (h.buddyBlock_inside hb).trans hregion⟩
  · exact ⟨_, List.mem_cons_self,
      ((h.small_inside hi hp).trans (h.buffer_inside hi)).trans hregion⟩

/-- The mappings of the users lie apart from the own mappings of the allocator. -/
theorem mapping_apart (h : GenParts os base m₀ act s fl free pl bl sl)
    (hb : b ∈ s.tower.ctx.region :: pl) :
    (s.pageBlock b).Disjoint (stateMap os s.block) ∧
      (s.pageBlock b).Disjoint s.tower.child.ctx.registryMap ∧
        forall d, d ∈ s.tower.ctx.tables -> (s.pageBlock b).Disjoint (s.pageBlock d) := by
  have hdisjoint := h.pageBlocks_disjoint
  rw [← List.cons_append, ← List.map_cons] at hdisjoint
  rcases List.pairwise_append.mp hdisjoint with ⟨_, husers, htables⟩
  have hstate := (List.pairwise_append.mp husers).right.right _ (List.mem_map_of_mem hb)
    _ List.mem_cons_self
  have hmap : s.pageBlock ⟨s.block, sizeofGenState⟩ = stateMap os s.block :=
    h.page.stateMap_eq
  rw [hmap] at hstate
  refine ⟨hstate, ?_, ?_⟩
  · rcases h.page.live with ⟨es, hlive⟩
    have hheld : b ∈ s.tower.ctx.tables ++ (s.tower.ctx.ownBlocks ++ pl) ++
        [(⟨s.block, sizeofGenState⟩ : Block)] := by
      apply List.mem_append_left
      cases hb with
      | head => exact h.region_mem
      | tail _ hb => exact large_mem hb
    exact (hlive.inv.entry_apart (hlive.mem_map hheld)).symm
  · intro d hd
    exact (htables _ (List.mem_map_of_mem hd) _
      (List.mem_append_left _ (List.mem_map_of_mem hb))).symm

/-- A free block of the buddy allocator lies apart from what serves the users. -/
theorem node_apart (h : GenParts os base m₀ act s fl free pl bl sl) {k : Node}
    (hk : k ∈ FreeNodes fl) (hx : x ∈ s.serving act pl bl sl) :
    x.Disjoint (s.tower.ctx.nodeBlock k) := by
  have hvalid := h.buddy.inv.tiled.free_valid k hk
  have hused : forall d, d ∈ bl ++ act.map s.poolBuffer ->
      (s.buddyBlock d).Disjoint (s.tower.ctx.nodeBlock k) := by
    intro d hd
    have hapart := h.buddy.inv.tiled.apart k hk _ (List.mem_map_of_mem hd)
    exact (h.buddy.inv.geom.nodeBlock_disjoint hvalid (h.buddy.node_valid hd)
      hapart).symm
  rcases mem_serving.mp hx with ⟨b, hb, rfl⟩ | ⟨b, hb, rfl⟩ | ⟨i, hi, p, hp, rfl⟩
  · have hinside := h.buddy.inv.geom.nodeBlock_inside hvalid
    exact (hinside.disjoint (h.pageBlock_apart hb).symm).symm
  · exact hused b (List.mem_append_left _ hb)
  · have hbuffer := List.mem_append_right bl (List.mem_map_of_mem (f := s.poolBuffer) hi)
    exact ((h.small_inside hi hp).trans (h.buddy.block_inside hbuffer)).disjoint
      (hused _ hbuffer)

/-- A free block of a pool lies apart from what serves the users. -/
theorem slot_apart (h : GenParts os base m₀ act s fl free pl bl sl) (hi : i ∈ act)
    (hq : q ∈ free i) (hx : x ∈ s.serving act pl bl sl) :
    x.Disjoint ⟨q, (s.pools i).blockSize⟩ := by
  have hinside := h.free_inside hi hq
  rcases mem_serving.mp hx with ⟨b, hb, rfl⟩ | ⟨b, hb, rfl⟩ | ⟨j, hj, p, hp, rfl⟩
  · have hregion := hinside.trans (h.buffer_inside hi)
    exact (hregion.disjoint (h.pageBlock_apart hb).symm).symm
  · exact (hinside.disjoint (h.buddyBlock_apart hb hi).symm).symm
  · have hleaf : (⟨p, (s.pools j).blockSize⟩ : Block) ∈ s.leaves act pl bl sl :=
      mem_leaves.mpr (Or.inr (Or.inr ⟨j, hj, p, hp, rfl⟩))
    exact (h.leaf_free hleaf hi hq).symm

theorem own_apart (h : GenParts os base m₀ act s fl free pl bl sl)
    (hc : GenOwn os s act fl free c) (hx : x ∈ s.serving act pl bl sl) :
    x.Disjoint c := by
  rcases h.serving_mapped hx with ⟨b, hb, hinside⟩
  rcases h.mapping_apart hb with ⟨hstate, hregistry, htables⟩
  cases hc with
  | state => exact hinside.disjoint hstate
  | registry => exact hinside.disjoint hregistry
  | table hd => exact hinside.disjoint (htables _ hd)
  | node hk => exact h.node_apart hk hx
  | slot hi hq => exact h.slot_apart hi hq hx

end GenParts

/-!
# Ownership
-/

/-- The part `t` has the block `b` among the blocks it handed out. -/
def TierHolds (t : Tier) (pl bl : List Block) (sl : Nat -> List Nat) (b : Block) : Prop :=
  match t with
  | Tier.pool i => i < poolCount ∧ b.ptr ∈ sl i
  | Tier.buddy => b ∈ bl
  | Tier.page => b ∈ pl

/-- The parts of the allocator hold the live blocks of the client, each exactly the
blocks of its tier, next to the blocks they hold for each other. -/
structure GenOwnership (os : Os) (base : List Block) (m₀ : Mem) (s : Session GenState)
    (fl free : Nat -> List Nat) (pl bl : List Block) (sl : Nat -> List Nat) : Prop where
  page : GenPages os base s.state.block m₀ s.state.tower.child
    (s.state.tower.ctx.tables ++ (s.state.tower.ctx.region :: pl))
  buddy : BuddyLive False 19 s.state.tower fl
    (bl ++ (List.range poolCount).map s.state.poolBuffer)
  pools : forall i, i < poolCount -> PoolInv (s.state.pool i) (free i) (sl i)
  routed : forall b, b ∈ s.live ->
    genFreeFn os b.ptr b.size s.state = tierFree os (genTier b.size) b s.state
  owner : forall b, b ∈ s.live -> forall t,
    TierHolds t pl bl sl b <-> t = genTier b.size
  capacity : forall b, b ∈ s.live -> b.Inside (s.state.served b)
  disjoint : AllDisjoint (s.live.map s.state.served)
  apart : forall b, b ∈ s.live -> forall c,
    GenOwn os s.state (List.range poolCount) fl free c -> (s.state.served b).Disjoint c

section Ownership

variable {os : Os} {base L : List Block} {m₀ : Mem} {s : GenState}
variable {fl free : Nat -> List Nat} {pl bl : List Block} {sl : Nat -> List Nat}
variable {b : Block}

theorem GenSplit.holds_iff (h : GenSplit L pl bl sl) (hdisjoint : AllDisjoint L)
    (hb : b ∈ L) (t : Tier) : TierHolds t pl bl sl b <-> t = genTier b.size := by
  constructor
  · intro hholds
    cases t with
    | page => exact (mem_tierBlocks.mp (h.large.mem_iff.mp hholds)).right.symm
    | buddy => exact (mem_tierBlocks.mp (h.medium.mem_iff.mp hholds)).right.symm
    | pool i =>
        rcases List.mem_map.mp ((h.small i).mem_iff.mp hholds.right) with ⟨c, hc, hptr⟩
        rcases mem_tierBlocks.mp hc with ⟨hlive, htier⟩
        have hpos := Nat.pos_of_ne_zero (h.positive b hb)
        have hpos' := Nat.pos_of_ne_zero (h.positive c hlive)
        have heq : c = b := by
          by_contra hne
          exact (hdisjoint.disjoint_of_ne hlive hb hne).ptr_ne hpos' hpos hptr
        rw [← heq, htier]
  · intro heq
    cases t with
    | page => exact h.mem_large hb heq.symm
    | buddy => exact h.mem_medium hb heq.symm
    | pool i =>
        exact ⟨(tier_pool_fits (h.positive b hb) heq.symm).left,
          h.mem_small hb heq.symm⟩

theorem GenParts.ownership {s : Session GenState}
    (h : GenParts os base m₀ (List.range poolCount) s.state fl free pl bl sl)
    (hsplit : GenSplit s.live pl bl sl) :
    GenOwnership os base m₀ s fl free pl bl sl := by
  have hlive : GenLive os base m₀ s.state fl free s.live := ⟨pl, bl, sl, h, hsplit⟩
  have hserved : forall b, b ∈ s.live -> s.state.served b ∈
      s.state.serving (List.range poolCount) pl bl sl :=
    fun b hb => (hsplit.served_perm s.state).mem_iff.mp (List.mem_map_of_mem hb)
  have hpages := h.page
  rw [h.ownBlocks_eq, List.singleton_append] at hpages
  exact
    { page := hpages
      buddy := h.buddy
      pools := fun i hi => h.pools i (List.mem_range.mpr hi)
      routed := fun b hb => genFreeFn_tier (hlive.ptr_ne_null hb)
      owner := fun b hb => hsplit.holds_iff hlive.disjoint hb
      capacity := fun b hb => hlive.served_inside hb
      disjoint := hlive.served_disjoint
      apart := fun b hb c hc => h.own_apart hc (hserved b hb) }

/-- For every run of a client on a new generic allocator. -/
theorem gen_tier_ownership {out frame : Nat} {m : Mem} {st : GenState}
    {s : Session GenState}
    (hpage : exists k, 4 ≤ k ∧ k < 64 ∧ os.pageSize = 2 ^ k)
    (hmake : makeGenAllocator os out frame m = some (Made.ok st))
    (hreach : (Session.client (genAllo os frame)).Reaches (Session.start st) s) :
    exists m₀ fl free pl bl sl,
      GenOwnership os (liveMaps m.trace) m₀ s fl free pl bl sl := by
  rcases makeGenAllocator_ok hpage hmake with ⟨m₀, fl₀, free₀, hmade⟩
  rcases gen_run hmade.live hreach with ⟨fl, free, ⟨pl, bl, sl, hparts, hsplit⟩, _⟩
  exact ⟨m₀, fl, free, pl, bl, sl, hparts.ownership hsplit⟩

end Ownership

/-- After the first request of a client. -/
theorem gen_tier_ownership_alloc : exists st s,
    makeGenAllocator roomyOs 8 4096 onePageMem = some (Made.ok st) ∧
      Session.exec (genAllo roomyOs 4096) (Op.alloc 100) (Session.start st) = some s ∧
        exists m₀ fl free pl bl sl,
          GenOwnership roomyOs [⟨4096, 4096⟩] m₀ s fl free pl bl sl := by
  rcases roomyOs_alloc with ⟨st, s, hmake, hexec, hreach⟩
  exact ⟨st, s, hmake, hexec, gen_tier_ownership roomyOs_page hmake hreach⟩

end Liballo
