import Liballo.Buddy.Make
import Liballo.Gen.Pages
import Liballo.Pool.Partition

/-!
# What the parts of the tower represent

The page allocator holds the tables and the buffer of the buddy allocator next to the
large blocks of the users, the buddy allocator holds the buffers of the pools next to
the medium blocks, and each pool holds its small blocks. A part sees the others only as
stores inside the blocks it handed out.
-/

namespace Liballo

open Foundation

namespace GenState

/-- The buffer of pool `i`. -/
def poolBuffer (s : GenState) (i : Nat) : Block :=
  ⟨(s.pools i).buffer, (s.pools i).blockSize * (s.pools i).totalBlocks⟩

/-- The blocks at the addresses `sl i`, which pool `i` handed out. -/
def poolLeaves (s : GenState) (sl : Nat -> List Nat) (i : Nat) : List Block :=
  (sl i).map (fun p => ⟨p, (s.pools i).blockSize⟩)

/-- The blocks in the hands of the users. -/
def leaves (s : GenState) (act : List Nat) (pl bl : List Block)
    (sl : Nat -> List Nat) : List Block :=
  pl ++ (bl ++ act.flatMap (s.poolLeaves sl))

end GenState

/-- A pool as the generic allocator makes it. -/
structure PoolShape (i : Nat) (c : PoolContext) : Prop where
  blockSize : c.blockSize = poolSizes.getD i 0
  totalBlocks : c.totalBlocks = poolTotals.getD i 0
  ownBuffer : c.ownBuffer = true

/-- The pools `act` are there. Users hold the large blocks `pl`, the medium blocks `bl`
and the blocks at `sl i` of pool `i`; `fl` and `free` are free. -/
structure GenParts (os : Os) (base : List Block) (m₀ : Mem) (act : List Nat)
    (s : GenState) (fl : Nat -> List Nat) (free : Nat -> List Nat)
    (pl bl : List Block) (sl : Nat -> List Nat) : Prop where
  page : GenPages os base s.block m₀ s.tower.child
    (s.tower.ctx.tables ++ (s.tower.ctx.ownBlocks ++ pl))
  own : s.tower.ctx.ownBuffer = true
  buddy : BuddyLive False 19 s.tower fl (bl ++ act.map s.poolBuffer)
  pools : forall i, i ∈ act -> PoolInv (s.pool i) (free i) (sl i)
  shapes : forall i, i ∈ act -> PoolShape i (s.pools i)
  nodup : act.Nodup

namespace GenParts

variable {os : Os} {base : List Block} {m₀ : Mem} {act : List Nat} {s : GenState}
variable {fl free : Nat -> List Nat} {pl bl : List Block} {sl : Nat -> List Nat}
variable {i j p : Nat} {b c : Block}

/-!
# Where the blocks lie
-/

theorem ownBlocks_eq (h : GenParts os base m₀ act s fl free pl bl sl) :
    s.tower.ctx.ownBlocks = [s.tower.ctx.region] :=
  if_pos h.own

theorem region_mem (h : GenParts os base m₀ act s fl free pl bl sl) :
    s.tower.ctx.region ∈ s.tower.ctx.tables ++ (s.tower.ctx.ownBlocks ++ pl) := by
  rw [h.ownBlocks_eq]
  exact List.mem_append_right _ List.mem_cons_self

theorem large_mem (hb : b ∈ pl) :
    b ∈ s.tower.ctx.tables ++ (s.tower.ctx.ownBlocks ++ pl) :=
  List.mem_append_right _ (List.mem_append_right _ hb)

theorem blocks_disjoint (h : GenParts os base m₀ act s fl free pl bl sl) :
    AllDisjoint (s.tower.ctx.tables ++ (s.tower.ctx.ownBlocks ++ pl)) :=
  (genPages os base s.block m₀).disjoint h.page

theorem blocks_wellFormed (h : GenParts os base m₀ act s fl free pl bl sl) :
    AllWellFormed (s.tower.ctx.tables ++ (s.tower.ctx.ownBlocks ++ pl)) :=
  (genPages os base s.block m₀).wellFormed h.page

/-- A large block lies outside the buffer of the buddy allocator. -/
theorem large_apart (h : GenParts os base m₀ act s fl free pl bl sl) (hb : b ∈ pl) :
    b.Disjoint s.tower.ctx.region := by
  have hdisjoint := (List.pairwise_append.mp h.blocks_disjoint).right.left
  rw [h.ownBlocks_eq] at hdisjoint
  exact ((List.pairwise_cons.mp hdisjoint).left b hb).symm

theorem buffer_inside (h : GenParts os base m₀ act s fl free pl bl sl)
    (hi : i ∈ act) : (s.poolBuffer i).Inside s.tower.ctx.region :=
  h.buddy.inside_region (List.mem_append_right _ (List.mem_map_of_mem hi))

theorem medium_inside (h : GenParts os base m₀ act s fl free pl bl sl)
    (hb : b ∈ bl) : b.Inside s.tower.ctx.region :=
  h.buddy.inside_region (List.mem_append_left _ hb)

theorem buffers_apart (h : GenParts os base m₀ act s fl free pl bl sl)
    (hi : i ∈ act) (hj : j ∈ act) (hne : i ≠ j) :
    (s.poolBuffer i).Disjoint (s.poolBuffer j) := by
  have hbuffers := (List.pairwise_append.mp h.buddy.disjoint).right.left
  have hpairs := List.pairwise_map.mp hbuffers
  have hsymm : Std.Symm (fun i j => (s.poolBuffer i).Disjoint (s.poolBuffer j)) :=
    ⟨fun _ _ hdisj => hdisj.symm⟩
  exact hpairs.forall hi hj hne

theorem medium_apart (h : GenParts os base m₀ act s fl free pl bl sl)
    (hb : b ∈ bl) (hi : i ∈ act) : b.Disjoint (s.poolBuffer i) :=
  (List.pairwise_append.mp h.buddy.disjoint).right.right b hb _
    (List.mem_map_of_mem hi)

theorem small_inside (h : GenParts os base m₀ act s fl free pl bl sl)
    (hi : i ∈ act) (hp : p ∈ sl i) :
    Block.Inside ⟨p, (s.pools i).blockSize⟩ (s.poolBuffer i) :=
  poolBlocks_inside ((h.pools i hi).live_mem hp)

theorem free_inside (h : GenParts os base m₀ act s fl free pl bl sl)
    (hi : i ∈ act) (hp : p ∈ free i) :
    Block.Inside ⟨p, (s.pools i).blockSize⟩ (s.poolBuffer i) :=
  poolBlocks_inside ((h.pools i hi).free_mem hp)

/-- The three kinds of blocks. -/
theorem mem_leaves : c ∈ s.leaves act pl bl sl <->
    c ∈ pl ∨ c ∈ bl ∨
      exists i, i ∈ act ∧ exists p, p ∈ sl i ∧ c = ⟨p, (s.pools i).blockSize⟩ := by
  simp only [GenState.leaves, List.mem_append, List.mem_flatMap, GenState.poolLeaves,
    List.mem_map, eq_comm]

/-- Medium and small blocks lie in the buffer of the buddy allocator. -/
theorem leaf_inside (h : GenParts os base m₀ act s fl free pl bl sl)
    (hc : c ∈ s.leaves act pl bl sl) :
    c ∈ pl ∨ c.Inside s.tower.ctx.region := by
  rcases mem_leaves.mp hc with hlarge | hmedium | ⟨i, hi, p, hp, rfl⟩
  · exact Or.inl hlarge
  · exact Or.inr (h.medium_inside hmedium)
  · exact Or.inr ((h.small_inside hi hp).trans (h.buffer_inside hi))

theorem leaf_registry (h : GenParts os base m₀ act s fl free pl bl sl)
    (hc : c ∈ s.leaves act pl bl sl) {x : Nat} (hx : c.Contains x) :
    ¬ s.tower.child.ctx.registryMap.Contains x := by
  rcases h.leaf_inside hc with hlarge | hinside
  · exact (genPages os base s.block m₀).own_apart h.page (large_mem hlarge) hx
  · exact (genPages os base s.block m₀).own_apart h.page h.region_mem
      (hinside.contains hx)

/-- The header of a free block lies apart from the blocks of the users. -/
theorem leaf_header (h : GenParts os base m₀ act s fl free pl bl sl)
    (hc : c ∈ s.leaves act pl bl sl) {k : Node} (hk : k ∈ FreeNodes fl) :
    (s.tower.ctx.header k).Disjoint c := by
  have hvalid := h.buddy.inv.tiled.free_valid k hk
  have hself : HeaderOf s.tower.ctx (FreeNodes fl) (s.tower.ctx.header k).ptr
      (s.tower.ctx.header k).size := ⟨k, hk, Nat.le_refl _, Nat.le_refl _⟩
  rcases mem_leaves.mp hc with hlarge | hmedium | ⟨i, hi, p, hp, rfl⟩
  · have hinside := (h.buddy.inv.geom.header_inside hvalid).trans
      (h.buddy.inv.geom.nodeBlock_inside hvalid)
    exact hinside.disjoint (h.large_apart hlarge).symm
  · exact (h.buddy.header_apart (List.mem_append_left _ hmedium) hself).symm
  · have hbuffer := h.buddy.header_apart
      (List.mem_append_right bl (List.mem_map_of_mem hi)) hself
    exact ((h.small_inside hi hp).disjoint hbuffer).symm

/-- A free block of a pool lies apart from the blocks of the users. -/
theorem leaf_free (h : GenParts os base m₀ act s fl free pl bl sl)
    (hc : c ∈ s.leaves act pl bl sl) (hi : i ∈ act) {q : Nat} (hq : q ∈ free i) :
    Block.Disjoint ⟨q, (s.pools i).blockSize⟩ c := by
  have hinside := h.free_inside hi hq
  rcases mem_leaves.mp hc with hlarge | hmedium | ⟨j, hj, p, hp, rfl⟩
  · exact (hinside.trans (h.buffer_inside hi)).disjoint (h.large_apart hlarge).symm
  · exact hinside.disjoint (h.medium_apart hmedium hi).symm
  · by_cases heq : i = j
    · subst heq
      exact (h.pools i hi).apart hq hp
    · have hbuffers := hinside.disjoint (h.buffers_apart hi hj heq)
      exact ((h.small_inside hj hp).disjoint hbuffers.symm).symm

/-- The blocks of a pool lie apart from each other. -/
theorem poolLeaves_disjoint (h : GenParts os base m₀ act s fl free pl bl sl)
    (hi : i ∈ act) : AllDisjoint (s.poolLeaves sl i) := by
  have hnodup := (List.nodup_append.mp (h.pools i hi).nodup).right.left
  apply List.pairwise_map.mpr
  refine hnodup.imp_of_mem ?_
  intro p q hp hq hne
  exact poolBlocks_apart ((h.pools i hi).live_mem hp) ((h.pools i hi).live_mem hq) hne

/-!
# The whole blocks that serve the users

The page allocator rounds a block up to whole pages, the buddy allocator to the block of a
node, and a pool to its block size.
-/

end GenParts

namespace GenState

/-- What serves the medium block `b`. -/
def buddyBlock (s : GenState) (b : Block) : Block :=
  s.tower.ctx.nodeBlock (s.tower.ctx.blockNode b)

/-- What serves the large block `b`. -/
def pageBlock (s : GenState) (b : Block) : Block :=
  pageMap s.tower.child.ctx b

/-- All the blocks that serve users. -/
def serving (s : GenState) (act : List Nat) (pl bl : List Block)
    (sl : Nat -> List Nat) : List Block :=
  pl.map s.pageBlock ++ (bl.map s.buddyBlock ++ act.flatMap (s.poolLeaves sl))

end GenState

namespace GenParts

variable {os : Os} {base : List Block} {m₀ : Mem} {act : List Nat} {s : GenState}
variable {fl free : Nat -> List Nat} {pl bl : List Block} {sl : Nat -> List Nat}
variable {i j p : Nat} {b c : Block}

theorem pageBlocks_disjoint (h : GenParts os base m₀ act s fl free pl bl sl) :
    AllDisjoint (s.tower.ctx.tables.map s.pageBlock ++
      s.pageBlock s.tower.ctx.region ::
        (pl.map s.pageBlock ++ [s.pageBlock ⟨s.block, sizeofGenState⟩])) := by
  rcases h.page.live with ⟨es, hlive⟩
  have hes := (List.pairwise_cons.mp hlive.inv.holds.disjoint).right
  have hmaps := (allDisjoint_perm hlive.listed).mp hes
  rw [h.ownBlocks_eq] at hmaps
  simp only [List.map_append, List.map_cons, List.map_nil, List.append_assoc,
    List.cons_append, List.nil_append] at hmaps
  exact hmaps

theorem pageBlock_inside (h : GenParts os base m₀ act s fl free pl bl sl)
    (hb : b ∈ s.tower.ctx.tables ++ (s.tower.ctx.ownBlocks ++ pl)) :
    b.Inside (s.pageBlock b) := by
  rcases h.page.live with ⟨es, hlive⟩
  exact hlive.inside_map (List.mem_append_left _ hb)

/-- The mapping of a large block lies outside the buffer of the buddy allocator. -/
theorem pageBlock_apart (h : GenParts os base m₀ act s fl free pl bl sl)
    (hb : b ∈ pl) : (s.pageBlock b).Disjoint s.tower.ctx.region := by
  have hrest := (List.pairwise_append.mp h.pageBlocks_disjoint).right.left
  have hhead := (List.pairwise_cons.mp hrest).left (s.pageBlock b)
    (List.mem_append_left _ (List.mem_map_of_mem hb))
  exact ((h.pageBlock_inside h.region_mem).disjoint hhead).symm

theorem buddyBlock_apart (h : GenParts os base m₀ act s fl free pl bl sl)
    (hb : b ∈ bl) (hi : i ∈ act) : (s.buddyBlock b).Disjoint (s.poolBuffer i) := by
  have hnodes := h.buddy.inv.tiled.used_apart
  rw [List.map_append] at hnodes
  have hbuffer : s.poolBuffer i ∈ bl ++ act.map s.poolBuffer :=
    List.mem_append_right _ (List.mem_map_of_mem hi)
  have hapart := (List.pairwise_append.mp hnodes).right.right _ (List.mem_map_of_mem hb)
    _ (List.mem_map_of_mem (List.mem_map_of_mem hi))
  have hblocks := h.buddy.inv.geom.nodeBlock_disjoint
    (h.buddy.node_valid (List.mem_append_left _ hb)) (h.buddy.node_valid hbuffer) hapart
  exact ((h.buddy.block_inside hbuffer).disjoint hblocks.symm).symm

theorem buddyBlock_inside (h : GenParts os base m₀ act s fl free pl bl sl)
    (hb : b ∈ bl) : (s.buddyBlock b).Inside s.tower.ctx.region :=
  h.buddy.inv.geom.nodeBlock_inside (h.buddy.node_valid (List.mem_append_left _ hb))

theorem buddyBlocks_disjoint (h : GenParts os base m₀ act s fl free pl bl sl) :
    AllDisjoint (bl.map s.buddyBlock) := by
  have hnodes := h.buddy.inv.tiled.used_apart
  rw [List.map_append] at hnodes
  have hbl := List.pairwise_map.mp (List.pairwise_append.mp hnodes).left
  apply List.pairwise_map.mpr
  refine hbl.imp_of_mem ?_
  intro b c hb hc hapart
  exact h.buddy.inv.geom.nodeBlock_disjoint
    (h.buddy.node_valid (List.mem_append_left _ hb))
    (h.buddy.node_valid (List.mem_append_left _ hc)) hapart

theorem mem_smalls (h : GenParts os base m₀ act s fl free pl bl sl)
    (hc : c ∈ act.flatMap (s.poolLeaves sl)) :
    exists i, i ∈ act ∧ c.Inside (s.poolBuffer i) := by
  rcases List.mem_flatMap.mp hc with ⟨i, hi, hci⟩
  rcases List.mem_map.mp hci with ⟨p, hp, rfl⟩
  exact ⟨i, hi, h.small_inside hi hp⟩

theorem smalls_disjoint (h : GenParts os base m₀ act s fl free pl bl sl) :
    AllDisjoint (act.flatMap (s.poolLeaves sl)) := by
  apply List.pairwise_flatMap.mpr
  refine ⟨fun i hi => h.poolLeaves_disjoint hi, ?_⟩
  refine h.nodup.imp_of_mem ?_
  intro i j hi hj hne x hx y hy
  rcases List.mem_map.mp hx with ⟨p, hp, rfl⟩
  rcases List.mem_map.mp hy with ⟨q, hq, rfl⟩
  have hbuffers := (h.small_inside hi hp).disjoint (h.buffers_apart hi hj hne)
  exact ((h.small_inside hj hq).disjoint hbuffers.symm).symm

theorem serving_disjoint (h : GenParts os base m₀ act s fl free pl bl sl) :
    AllDisjoint (s.serving act pl bl sl) := by
  have hlarge : AllDisjoint (pl.map s.pageBlock) := by
    have hrest := (List.pairwise_append.mp h.pageBlocks_disjoint).right.left
    exact (List.pairwise_append.mp (List.pairwise_cons.mp hrest).right).left
  apply List.pairwise_append.mpr
  refine ⟨hlarge, List.pairwise_append.mpr
    ⟨h.buddyBlocks_disjoint, h.smalls_disjoint, ?_⟩, ?_⟩
  · intro x hx y hy
    rcases List.mem_map.mp hx with ⟨b, hb, rfl⟩
    rcases h.mem_smalls hy with ⟨i, hi, hinside⟩
    exact (hinside.disjoint (h.buddyBlock_apart hb hi).symm).symm
  · intro x hx y hy
    rcases List.mem_map.mp hx with ⟨b, hb, rfl⟩
    have hinside : y.Inside s.tower.ctx.region := by
      rcases List.mem_append.mp hy with hy | hy
      · rcases List.mem_map.mp hy with ⟨c, hc, rfl⟩
        exact h.buddyBlock_inside hc
      · rcases h.mem_smalls hy with ⟨i, hi, hin⟩
        exact hin.trans (h.buffer_inside hi)
    exact (hinside.disjoint (h.pageBlock_apart hb).symm).symm

/-!
# Stores and changes of a part
-/

/-- Stores inside blocks of the users are invisible to all parts. -/
theorem store (h : GenParts os base m₀ act s fl free pl bl sl)
    {P : Nat -> Nat -> Prop} {m : Mem} (hw : Wrote P (mem s) m)
    (hP : forall x n, P x n -> exists c, c ∈ s.leaves act pl bl sl ∧
      Block.Inside ⟨x, n⟩ c) :
    GenParts os base m₀ act (setMem m s) fl free pl bl sl where
  page := by
    apply h.page.store hw
    intro x n hxn y hle hlt
    rcases hP x n hxn with ⟨c, hc, hinside⟩
    exact h.leaf_registry hc (hinside.contains ⟨hle, hlt⟩)
  own := h.own
  buddy := by
    apply h.buddy.store hw _ (fun hno => absurd hno not_false)
    intro x n hxn k hk
    rcases hP x n hxn with ⟨c, hc, hinside⟩
    exact (hinside.disjoint (h.leaf_header hc hk).symm).symm
  pools := by
    intro i hi
    apply (h.pools i hi).store hw
    intro x n hxn q hq
    rcases hP x n hxn with ⟨c, hc, hinside⟩
    have hfree := h.leaf_free hc hi hq
    have hsize := (h.pools i hi).granule
    have heq : (s.pool i).ctx.blockSize = (s.pools i).blockSize := rfl
    simp only [Block.Disjoint, Block.Inside, Block.stop] at hfree hinside
    omega
  shapes := h.shapes
  nodup := h.nodup

theorem touchPool (h : GenParts os base m₀ act s fl free pl bl sl) (i : Nat) :
    GenParts os base m₀ act (s.touchPool i) fl free pl bl sl := by
  have hnote : Wrote (fun _ _ => False) (mem s)
      ((mem s).note (Event.touch (genPoolAt s.block i) sizeofAllo)) :=
    Wrote.note trivial
  exact h.store hnote (fun _ _ hno => absurd hno not_false)

/-- The two lower parts changed and kept the bytes in the buffers of the pools. -/
theorem tower_changed (h : GenParts os base m₀ act s fl free pl bl sl)
    {t : BuddyState PageState} {fl' : Nat -> List Nat} {pl' bl' : List Block}
    (hpage : GenPages os base s.block m₀ t.child
      (t.ctx.tables ++ (t.ctx.ownBlocks ++ pl')))
    (hown : t.ctx.ownBuffer = true)
    (hbuddy : BuddyLive False 19 t fl' (bl' ++ act.map s.poolBuffer))
    (hkeeps : KeepsBytes (act.map s.poolBuffer) (mem s) (mem t)) :
    GenParts os base m₀ act { s with tower := t } fl' free pl' bl' sl where
  page := hpage
  own := hown
  buddy := hbuddy
  pools := by
    intro i hi
    refine (h.pools i hi).congr rfl ?_
    exact hkeeps _ (List.mem_map_of_mem hi)
  shapes := h.shapes
  nodup := h.nodup

end GenParts

/-!
# Changing one pool
-/

namespace GenState

variable (s : GenState) {i j : Nat} (t : PoolState (BuddyState PageState))

theorem setPool_pools_same : (s.setPool i t).pools i = t.ctx := by
  show Function.update s.pools i t.ctx i = t.ctx
  rw [Function.update_self]

theorem setPool_pools_ne (hne : j ≠ i) : (s.setPool i t).pools j = s.pools j := by
  show Function.update s.pools i t.ctx j = s.pools j
  rw [Function.update_of_ne hne]

/-- A pool that did not change. -/
theorem setPool_pool (i : Nat) : s.setPool i (s.pool i) = s :=
  congrArg (fun f => { s with pools := f }) (Function.update_eq_self i s.pools)

theorem setPool_poolBuffer (hsame : SamePool (s.pool i) t) (j : Nat) :
    (s.setPool i t).poolBuffer j = s.poolBuffer j := by
  unfold poolBuffer
  by_cases heq : j = i
  · subst heq
    rw [setPool_pools_same, hsame.ctx]
    rfl
  · rw [setPool_pools_ne s t heq]

theorem setPool_blockSize (hsame : SamePool (s.pool i) t) (j : Nat) :
    ((s.setPool i t).pools j).blockSize = (s.pools j).blockSize := by
  by_cases heq : j = i
  · subst heq
    rw [setPool_pools_same, hsame.ctx]
    rfl
  · rw [setPool_pools_ne s t heq]

end GenState

/-!
# What a step leaves in place
-/

/-- The parts of `s'` lie where those of `s` lie. -/
structure GenState.Stays (s s' : GenState) : Prop where
  block : s'.block = s.block
  geometry : exists freeLists bitset blockOrders, s'.tower.ctx =
    { s.tower.ctx with
      freeLists := freeLists
      bitset := bitset
      blockOrders := blockOrders }
  buffers : s'.poolBuffer = s.poolBuffer

namespace GenState.Stays

variable {s s' s'' : GenState}

theorem refl (s : GenState) : s.Stays s where
  block := rfl
  geometry := ⟨_, _, _, rfl⟩
  buffers := rfl

theorem trans (h : s.Stays s') (h' : s'.Stays s'') : s.Stays s'' where
  block := h'.block.trans h.block
  geometry := by
    rcases h.geometry with ⟨f, b, o, hctx⟩
    rcases h'.geometry with ⟨f', b', o', hctx'⟩
    exact ⟨f', b', o', by rw [hctx', hctx]⟩
  buffers := h'.buffers.trans h.buffers

theorem of_buddy {P : Nat -> Nat -> Prop} {t : BuddyState PageState}
    (h : BuddyMoved False P s.tower t) : s.Stays { s with tower := t } where
  block := rfl
  geometry := h.ctx
  buffers := rfl

theorem of_pool {i : Nat} {t : PoolState (BuddyState PageState)}
    (h : SamePool (s.pool i) t) : s.Stays (s.setPool i t) where
  block := rfl
  geometry := by
    have htower : (s.setPool i t).tower = setMem (mem t) s.tower := h.child
    rw [htower]
    exact ⟨_, _, _, rfl⟩
  buffers := funext (fun j => s.setPool_poolBuffer t h j)

theorem of_tower {t : BuddyState PageState} (h : t.ctx = s.tower.ctx) :
    s.Stays { s with tower := t } where
  block := rfl
  geometry := ⟨_, _, _, h⟩
  buffers := rfl

theorem blockNode (h : s.Stays s') : s'.tower.ctx.blockNode = s.tower.ctx.blockNode := by
  rcases h.geometry with ⟨f, b, o, hctx⟩
  rw [hctx]
  rfl

theorem nodeBlock (h : s.Stays s') : s'.tower.ctx.nodeBlock = s.tower.ctx.nodeBlock := by
  rcases h.geometry with ⟨f, b, o, hctx⟩
  rw [hctx]
  rfl

end GenState.Stays

namespace GenState

theorem stays_setPage (s : GenState) (w : PageState) : s.Stays (s.setPage w) :=
  Stays.of_tower rfl

theorem stays_setMem (s : GenState) (m : Mem) : s.Stays (setMem m s) :=
  Stays.of_tower rfl

theorem stays_touchPool (s : GenState) (i : Nat) : s.Stays (s.touchPool i) :=
  Stays.of_tower rfl

end GenState

namespace GenParts

variable {os : Os} {base : List Block} {m₀ : Mem} {act : List Nat} {s : GenState}
variable {fl free : Nat -> List Nat} {pl bl : List Block} {sl : Nat -> List Nat}
variable {i : Nat}

/-- Pool `i` changed, and it stored only inside its buffer. -/
theorem pool_changed (h : GenParts os base m₀ act s fl free pl bl sl) (hi : i ∈ act)
    {t : PoolState (BuddyState PageState)} {free' live' : List Nat}
    {P : Nat -> Nat -> Prop} (hsame : SamePool (s.pool i) t)
    (hinv : PoolInv t free' live') (hw : Wrote P (mem s) (mem t))
    (hP : forall x n, P x n -> Block.Inside ⟨x, n⟩ (s.poolBuffer i)) :
    GenParts os base m₀ act (s.setPool i t) fl (Function.update free i free') pl bl
      (Function.update sl i live') := by
  have htower : (s.setPool i t).tower = setMem (mem t) s.tower := hsame.child
  have hbuffers : act.map (s.setPool i t).poolBuffer = act.map s.poolBuffer :=
    List.map_congr_left (fun j _ => s.setPool_poolBuffer t hsame j)
  constructor
  · rw [htower]
    apply h.page.store hw
    intro x n hxn y hle hlt
    exact (genPages os base s.block m₀).own_apart h.page h.region_mem
      (((hP x n hxn).trans (h.buffer_inside hi)).contains ⟨hle, hlt⟩)
  · rw [htower]
    exact h.own
  · rw [htower, hbuffers]
    apply h.buddy.store_inside hw _ (fun hno => absurd hno not_false)
    intro x n hxn
    exact ⟨_, List.mem_append_right _ (List.mem_map_of_mem hi), hP x n hxn⟩
  · intro j hj
    by_cases heq : j = i
    · subst heq
      have hpool : (s.setPool j t).pool j = t := by
        unfold GenState.pool
        rw [GenState.setPool_pools_same]
        rfl
      rw [hpool, Function.update_self, Function.update_self]
      exact hinv
    · rw [Function.update_of_ne heq, Function.update_of_ne heq]
      apply (h.pools j hj).congr
      · exact s.setPool_pools_ne t heq
      · intro x hx
        apply hw.bytes
        intro a n hPan hin
        have hother := h.buffers_apart hj hi heq
        exact hother.not_contains hx ((hP a n hPan).contains hin)
  · intro j hj
    have hshape := h.shapes j hj
    by_cases heq : j = i
    · subst heq
      rw [GenState.setPool_pools_same, hsame.ctx]
      exact
        { blockSize := hshape.blockSize
          totalBlocks := hshape.totalBlocks
          ownBuffer := hshape.ownBuffer }
    · rw [GenState.setPool_pools_ne s t heq]
      exact hshape
  · exact h.nodup

end GenParts

end Liballo
