import Liballo.Gen.Tower

/-!
# Operations of the parts

Each operation of a part, seen from the whole tower: the part serves the call, the other
parts keep what they represent, and no other block of a user changes.
-/

namespace Liballo

open Foundation

namespace GenParts

variable {os : Os} {base : List Block} {m₀ : Mem} {act : List Nat} {s : GenState}
variable {fl free : Nat -> List Nat} {pl bl : List Block} {sl : Nat -> List Nat}
variable {i n p : Nat} {b : Block}

/-!
# The page allocator
-/

/-- The page allocator served a call and kept the bytes of the blocks `K`. -/
theorem page_changed (h : GenParts os base m₀ act s fl free pl bl sl) {w : PageState}
    {pl' K : List Block}
    (hpage : GenPages os base s.block m₀ w
      (s.tower.ctx.tables ++ (s.tower.ctx.ownBlocks ++ pl')))
    (hkeeps : KeepsBytes K (mem s) (mem w)) (hregion : s.tower.ctx.region ∈ K) :
    GenParts os base m₀ act (s.setPage w) fl free pl' bl sl ∧
      forall M, (forall c, c ∈ M -> c ∈ K) ->
        KeepsBytes (s.leaves act M bl sl) (mem s) (mem (s.setPage w)) := by
  have hbytes : forall x, s.tower.ctx.region.Contains x ->
      (mem w).bytes x = (mem s).bytes x := hkeeps _ hregion
  refine ⟨h.tower_changed hpage h.own (h.buddy.child_congr hbytes) ?_, ?_⟩
  · intro c hc x hx
    rcases List.mem_map.mp hc with ⟨i, hi, rfl⟩
    exact hbytes x ((h.buffer_inside hi).contains hx)
  · intro M hM c hc x hx
    rcases mem_leaves.mp hc with hlarge | hmedium | ⟨i, hi, q, hq, rfl⟩
    · exact hkeeps c (hM c hlarge) x hx
    · exact hbytes x ((h.medium_inside hmedium).contains hx)
    · exact hbytes x (((h.small_inside hi hq).trans (h.buffer_inside hi)).contains hx)

theorem page_alloc (h : GenParts os base m₀ act s fl free pl bl sl) {w : PageState}
    (hn : n < 2 ^ 64) (hcall : pageAllocFn os n s.tower.child = (p, w)) :
    KeepsBytes (s.leaves act pl bl sl) (mem s) (mem (s.setPage w)) ∧
      (p = NULL ∧ GenParts os base m₀ act (s.setPage w) fl free pl bl sl ∨
        p ≠ NULL ∧
          GenParts os base m₀ act (s.setPage w) fl free (⟨p, n⟩ :: pl) bl sl) := by
  rcases h.page.alloc hn hcall with ⟨hkeeps, hcase⟩
  have hregion := List.mem_append_left [(⟨s.block, sizeofGenState⟩ : Block)]
    h.region_mem
  have hlarge : forall c, c ∈ pl -> c ∈ s.tower.ctx.tables ++
      (s.tower.ctx.ownBlocks ++ pl) ++ [(⟨s.block, sizeofGenState⟩ : Block)] :=
    fun c hc => List.mem_append_left _ (large_mem hc)
  rcases hcase with ⟨hnull, hpage⟩ | ⟨hne, hpage⟩
  · rcases h.page_changed hpage hkeeps hregion with ⟨hparts, hleaves⟩
    exact ⟨hleaves pl hlarge, Or.inl ⟨hnull, hparts⟩⟩
  · have hperm : ((⟨p, n⟩ : Block) :: (s.tower.ctx.tables ++
        (s.tower.ctx.ownBlocks ++ pl))).Perm
          (s.tower.ctx.tables ++ (s.tower.ctx.ownBlocks ++ ⟨p, n⟩ :: pl)) :=
      List.perm_middle.symm.trans (List.perm_middle.symm.append_left _)
    rcases h.page_changed (hpage.perm hperm) hkeeps hregion with ⟨hparts, hleaves⟩
    exact ⟨hleaves pl hlarge, Or.inr ⟨hne, hparts⟩⟩

/-- Taking a large block out of the blocks of the page allocator. -/
theorem erase_large (hb : b ∈ pl) :
    ((s.tower.ctx.tables ++ (s.tower.ctx.ownBlocks ++ pl)).erase b).Perm
      (s.tower.ctx.tables ++ (s.tower.ctx.ownBlocks ++ pl.erase b)) := by
  have hout := ((List.perm_cons_erase hb).append_left s.tower.ctx.ownBlocks).append_left
    s.tower.ctx.tables
  have hfront := hout.trans ((List.perm_middle.append_left _).trans List.perm_middle)
  have herase := hfront.erase b
  rw [List.erase_cons_head] at herase
  exact herase

/-- The region of the buddy allocator stays with the page allocator. -/
theorem region_mem_erase (h : GenParts os base m₀ act s fl free pl bl sl) (hb : b ∈ pl) :
    s.tower.ctx.region ∈
      (s.tower.ctx.tables ++ (s.tower.ctx.ownBlocks ++ pl)).erase b := by
  rw [(erase_large hb).mem_iff, h.ownBlocks_eq]
  exact List.mem_append_right _ List.mem_cons_self

theorem page_free (h : GenParts os base m₀ act s fl free pl bl sl) (hb : b ∈ pl) :
    GenParts os base m₀ act (s.setPage (pageFreeFn b.ptr b.size s.tower.child)) fl free
        (pl.erase b) bl sl ∧
      KeepsBytes (s.leaves act (pl.erase b) bl sl) (mem s)
        (mem (s.setPage (pageFreeFn b.ptr b.size s.tower.child))) := by
  rcases h.page.free (large_mem hb) with ⟨hkeeps, hpage⟩
  have herase : ((s.tower.ctx.tables ++ (s.tower.ctx.ownBlocks ++ pl)).erase b).Perm
      (s.tower.ctx.tables ++ (s.tower.ctx.ownBlocks ++ pl.erase b)) := erase_large hb
  rcases h.page_changed (hpage.perm herase) hkeeps
    (List.mem_append_left _ (h.region_mem_erase hb)) with ⟨hparts, hleaves⟩
  refine ⟨hparts, hleaves _ ?_⟩
  exact fun c hc => List.mem_append_left _ (herase.mem_iff.mpr (large_mem hc))

theorem page_realloc (h : GenParts os base m₀ act s fl free pl bl sl) (hb : b ∈ pl)
    {w : PageState} (hpos : n ≠ 0) (hn : n < 2 ^ 64)
    (hcall : pageReallocFn os b.ptr b.size n s.tower.child = (p, w)) :
    KeepsBytes (s.leaves act (pl.erase b) bl sl) (mem s) (mem (s.setPage w)) ∧
      (p = NULL ∧ GenParts os base m₀ act (s.setPage w) fl free pl bl sl ∧
          (mem (s.setPage w)).bytes = (mem s).bytes ∨
        p ≠ NULL ∧ KeepsPrefix b.ptr p (min b.size n) (mem s) (mem (s.setPage w)) ∧
          GenParts os base m₀ act (s.setPage w) fl free (⟨p, n⟩ :: pl.erase b) bl
            sl) := by
  rcases h.page.realloc (large_mem hb) hpos hn hcall with ⟨hkeeps, hcase⟩
  have herase : ((s.tower.ctx.tables ++ (s.tower.ctx.ownBlocks ++ pl)).erase b).Perm
      (s.tower.ctx.tables ++ (s.tower.ctx.ownBlocks ++ pl.erase b)) := erase_large hb
  have hin := List.mem_append_left [(⟨s.block, sizeofGenState⟩ : Block)]
    (h.region_mem_erase hb)
  have hlarge : forall c, c ∈ pl.erase b -> c ∈ (s.tower.ctx.tables ++
      (s.tower.ctx.ownBlocks ++ pl)).erase b ++
        [(⟨s.block, sizeofGenState⟩ : Block)] :=
    fun c hc => List.mem_append_left _ (herase.mem_iff.mpr (large_mem hc))
  rcases hcase with ⟨hnull, hpage, hbytes⟩ | ⟨hne, hprefix, hpage⟩
  · rcases h.page_changed hpage hkeeps hin with ⟨hparts, hleaves⟩
    exact ⟨hleaves _ hlarge, Or.inl ⟨hnull, hparts, hbytes⟩⟩
  · have hperm : ((⟨p, n⟩ : Block) :: (s.tower.ctx.tables ++
        (s.tower.ctx.ownBlocks ++ pl)).erase b).Perm
          (s.tower.ctx.tables ++ (s.tower.ctx.ownBlocks ++ ⟨p, n⟩ :: pl.erase b)) :=
      (herase.cons _).trans
        (List.perm_middle.symm.trans (List.perm_middle.symm.append_left _))
    rcases h.page_changed (hpage.perm hperm) hkeeps hin with ⟨hparts, hleaves⟩
    exact ⟨hleaves _ hlarge, Or.inr ⟨hne, hprefix, hparts⟩⟩

/-!
# The buddy allocator
-/

/-- The buddy allocator served a call, storing only inside its buffer. -/
theorem buddy_changed (h : GenParts os base m₀ act s fl free pl bl sl)
    {t : BuddyState PageState} {P : Nat -> Nat -> Prop} {fl' : Nat -> List Nat}
    {bl' : List Block} (hmoved : BuddyMoved False P s.tower t)
    (hP : forall x n, P x n -> Block.Inside ⟨x, n⟩ s.tower.ctx.region)
    (hbuddy : BuddyLive False 19 t fl' (bl' ++ act.map s.poolBuffer))
    {M : List Block} (hkeeps : KeepsBytes (M ++ act.map s.poolBuffer) (mem s) (mem t)) :
    GenParts os base m₀ act { s with tower := t } fl' free pl bl' sl ∧
      KeepsBytes (s.leaves act pl M sl) (mem s) (mem t) := by
  have hpage : GenPages os base s.block m₀ (setMem (mem t) s.tower.child)
      (s.tower.ctx.tables ++ (s.tower.ctx.ownBlocks ++ pl)) := by
    apply h.page.store hmoved.wrote
    intro x n hxn y hle hlt
    exact (genPages os base s.block m₀).own_apart h.page h.region_mem
      ((hP x n hxn).contains ⟨hle, hlt⟩)
  rw [← hmoved.child] at hpage
  constructor
  · have hbuffers : KeepsBytes (act.map s.poolBuffer) (mem s) (mem t) :=
      hkeeps.subset (fun c hc => List.mem_append_right _ hc)
    rcases hmoved.ctx with ⟨f, o, k, hctx⟩
    apply h.tower_changed _ _ hbuddy hbuffers
    · rw [hctx]
      exact hpage
    · rw [hctx]
      exact h.own
  · intro c hc x hx
    rcases mem_leaves.mp hc with hlarge | hmedium | ⟨i, hi, q, hq, rfl⟩
    · apply hmoved.wrote.bytes
      intro a n hPan hin
      exact (h.large_apart hlarge).not_contains hx ((hP a n hPan).contains hin)
    · exact hkeeps c (List.mem_append_left _ hmedium) x hx
    · exact hkeeps _ (List.mem_append_right _ (List.mem_map_of_mem hi)) x
        ((h.small_inside hi hq).contains hx)

theorem buddy_alloc (h : GenParts os base m₀ act s fl free pl bl sl)
    (hn : n < 2 ^ 64) :
    exists p t, buddyAllocFn n s.tower = (p, t) ∧ s.Stays { s with tower := t } ∧
      KeepsBytes (s.leaves act pl bl sl) (mem s) (mem t) ∧
        (p = NULL ∧ BuddyRefused False s.tower t ∧
            GenParts os base m₀ act { s with tower := t } fl free pl bl sl ∨
          p ≠ NULL ∧ exists fl',
            GenParts os base m₀ act { s with tower := t } fl' free pl (⟨p, n⟩ :: bl)
              sl) := by
  rcases h.buddy.alloc hn with ⟨p, t, hcall, hkeeps, hcase⟩
  refine ⟨p, t, hcall, ?_⟩
  rcases hcase with ⟨hnull, hrefused, hbuddy⟩ | ⟨hne, fl', hbuddy, hmoved⟩
  · rcases h.buddy_changed hrefused.moved (fun _ _ hno => absurd hno not_false) hbuddy
      hkeeps with ⟨hparts, hleaves⟩
    exact ⟨GenState.Stays.of_buddy hrefused.moved, hleaves,
      Or.inl ⟨hnull, hrefused, hparts⟩⟩
  · have hinside : forall x k, HeaderOf s.tower.ctx (FreeNodes fl ∪ FreeNodes fl') x k ->
        Block.Inside ⟨x, k⟩ s.tower.ctx.region :=
      fun x k hx => h.buddy.headers_inside hbuddy hx
    rw [← List.cons_append] at hbuddy
    rcases h.buddy_changed hmoved hinside hbuddy hkeeps with ⟨hparts, hleaves⟩
    exact ⟨GenState.Stays.of_buddy hmoved, hleaves, Or.inr ⟨hne, fl', hparts⟩⟩

theorem buddy_free (h : GenParts os base m₀ act s fl free pl bl sl) (hb : b ∈ bl) :
    exists t fl', buddyFreeFn b.ptr b.size s.tower = some t ∧
      s.Stays { s with tower := t } ∧
        GenParts os base m₀ act { s with tower := t } fl' free pl (bl.erase b) sl ∧
          KeepsBytes (s.leaves act pl (bl.erase b) sl) (mem s) (mem t) := by
  rcases h.buddy.free (List.mem_append_left _ hb) with
    ⟨t, fl', hcall, hbuddy, hkeeps, hmoved⟩
  have hinside : forall x k, HeaderOf s.tower.ctx (FreeNodes fl ∪ FreeNodes fl') x k ->
      Block.Inside ⟨x, k⟩ s.tower.ctx.region :=
    fun x k hx => h.buddy.headers_inside hbuddy hx
  rw [List.erase_append_left _ hb] at hbuddy hkeeps
  exact ⟨t, fl', hcall, GenState.Stays.of_buddy hmoved,
    h.buddy_changed hmoved hinside hbuddy hkeeps⟩

theorem buddy_realloc (h : GenParts os base m₀ act s fl free pl bl sl) (hb : b ∈ bl)
    (hpos : n ≠ 0) (hn : n < 2 ^ 64) :
    exists p t, buddyReallocFn b.ptr b.size n s.tower = some (p, t) ∧
      s.Stays { s with tower := t } ∧
        KeepsBytes (s.leaves act pl (bl.erase b) sl) (mem s) (mem t) ∧
        (p = NULL ∧ BuddyRefused False s.tower t ∧
            GenParts os base m₀ act { s with tower := t } fl free pl bl sl ∨
          p ≠ NULL ∧ KeepsPrefix b.ptr p (min b.size n) (mem s) (mem t) ∧ exists fl',
            GenParts os base m₀ act { s with tower := t } fl' free pl
              (⟨p, n⟩ :: bl.erase b) sl) := by
  rcases h.buddy.realloc (List.mem_append_left _ hb) hpos hn with ⟨p, t, hcall, hcase⟩
  refine ⟨p, t, hcall, ?_⟩
  rcases hcase with ⟨hnull, hrefused, hbuddy⟩ | ⟨fl', hdone⟩
  · have hsame : KeepsBytes (bl.erase b ++ act.map s.poolBuffer) (mem s) (mem t) :=
      fun _ _ x _ => congrFun hrefused.bytes x
    rcases h.buddy_changed hrefused.moved (fun _ _ hno => absurd hno not_false) hbuddy
      hsame with ⟨hparts, hleaves⟩
    exact ⟨GenState.Stays.of_buddy hrefused.moved, hleaves,
      Or.inl ⟨hnull, hrefused, hparts⟩⟩
  · have hinside : forall x k,
        (HeaderOf s.tower.ctx (FreeNodes fl ∪ FreeNodes fl') x k ∨
          x = p ∧ k = min b.size n) -> Block.Inside ⟨x, k⟩ s.tower.ctx.region := by
      intro x k hx
      rcases hx with hheader | ⟨rfl, rfl⟩
      · exact h.buddy.headers_inside hdone.inv hheader
      · have hnew := hdone.inv.inside_region List.mem_cons_self
        rw [hdone.moved.region] at hnew
        have hcopied : Block.Inside ⟨x, min b.size n⟩ ⟨x, n⟩ :=
          ⟨Nat.le_refl x, Nat.add_le_add_left (Nat.min_le_right b.size n) x⟩
        exact hcopied.trans hnew
    have hbuddy := hdone.inv
    have hothers := hdone.others
    rw [List.erase_append_left _ hb] at hbuddy hothers
    rw [← List.cons_append] at hbuddy
    rcases h.buddy_changed hdone.moved hinside hbuddy hothers with ⟨hparts, hleaves⟩
    exact ⟨GenState.Stays.of_buddy hdone.moved, hleaves,
      Or.inr ⟨hdone.ptr_ne, hdone.kept, fl', hparts⟩⟩

/-!
# The pools
-/

/-- The first block of the free list of pool `i` is handed out, if there is one. -/
theorem pool_alloc (h : GenParts os base m₀ act s fl free pl bl sl) (hi : i ∈ act)
    (hpos : n ≠ 0) (hle : n ≤ (s.pools i).blockSize) :
    exists p t, poolAllocFn n (s.pool i) = (p, t) ∧
      (mem t).bytes = (mem s).bytes ∧ SamePool (s.pool i) t ∧
        (p = NULL ∧ t = s.pool i ∨
          p ≠ NULL ∧ exists free',
            GenParts os base m₀ act (s.setPool i t) fl (Function.update free i free') pl
              bl (Function.update sl i (p :: sl i))) := by
  have hpool := h.pools i hi
  cases hfree : free i with
  | nil =>
      rw [hfree] at hpool
      exact ⟨NULL, s.pool i, poolAllocFn_refused hpool (Or.inr (Or.inr rfl)), rfl,
        SamePool.refl _, Or.inl ⟨rfl, rfl⟩⟩
  | cons p rest =>
      rw [hfree] at hpool
      rcases poolAllocFn_served hpool hpos hle with ⟨t, hcall, hinv, hbytes, hsame⟩
      have hw := wrote_poolAllocFn n (s.pool i)
      rw [hcall] at hw
      refine ⟨p, t, hcall, hbytes, hsame, Or.inr ⟨?_, rest, ?_⟩⟩
      · exact hinv.live_ne_null List.mem_cons_self
      · exact h.pool_changed hi hsame hinv hw (fun _ _ hno => absurd hno not_false)

theorem leaves_congr {s s' : GenState}
    (h : forall i, (s'.pools i).blockSize = (s.pools i).blockSize) :
    s'.leaves act pl bl sl = s.leaves act pl bl sl := by
  unfold GenState.leaves GenState.poolLeaves
  simp only [h]

theorem pool_free (h : GenParts os base m₀ act s fl free pl bl sl) (hi : i ∈ act)
    (hp : p ∈ sl i) (size : Nat) :
    exists t, poolFreeFn p size (s.pool i) = some t ∧ SamePool (s.pool i) t ∧
      GenParts os base m₀ act (s.setPool i t) fl (Function.update free i (p :: free i))
          pl bl (Function.update sl i ((sl i).erase p)) ∧
        KeepsBytes (s.leaves act pl bl (Function.update sl i ((sl i).erase p))) (mem s)
          (mem t) := by
  have hpool := h.pools i hi
  rcases poolFreeFn_served hpool hp size with ⟨t, hcall, hinv, hw, hsame⟩
  have hheader : Block.Inside ⟨p, 8⟩ ⟨p, (s.pools i).blockSize⟩ :=
    ⟨Nat.le_refl p, Nat.add_le_add_left hpool.granule p⟩
  have hparts := h.pool_changed hi hsame hinv hw (by
    rintro x k ⟨rfl, rfl⟩
    exact hheader.trans (h.small_inside hi hp))
  refine ⟨t, hcall, hsame, hparts, ?_⟩
  intro c hc x hx
  apply hw.bytes
  rintro a k ⟨rfl, rfl⟩ hin
  rw [← leaves_congr (s.setPool_blockSize t hsame)] at hc
  have hfreed : a ∈ Function.update free i (a :: free i) i := by
    rw [Function.update_self]
    exact List.mem_cons_self
  have hapart := hparts.leaf_free hc hi hfreed
  rw [s.setPool_blockSize t hsame] at hapart
  exact (hheader.disjoint hapart).symm.not_contains hx hin

end GenParts

end Liballo
