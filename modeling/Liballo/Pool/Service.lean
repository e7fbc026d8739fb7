import Liballo.Pool.Partition
import Liballo.Service

/-!
# The pool allocator as a service

A pool whose buffer comes from its child. A client may hold a block with fewer bytes than
the blocks of the pool have. What the pool keeps for itself are the links in the free
blocks.
-/

namespace Liballo

open Foundation

variable {χ : Type} [HasMem χ] {a : Allo χ}

/-- The managed buffer. -/
def PoolContext.region (c : PoolContext) : Block :=
  ⟨c.buffer, c.blockSize * c.totalBlocks⟩

/-- The bytes of the links that the free list leads to. -/
def PoolState.Links (s : PoolState χ) (x : Nat) : Prop :=
  exists nodes node, Chain (PoolFreeNode.next (mem s)) s.ctx.freeList nodes ∧
    node ∈ nodes ∧ Block.Contains ⟨node, sizeofPoolFreeNode⟩ x

section Links

variable {s : PoolState χ} {free live : List Nat}

theorem PoolInv.links_iff (h : PoolInv s free live) (x : Nat) :
    s.Links x <-> exists q, q ∈ free ∧ Block.Contains ⟨q, sizeofPoolFreeNode⟩ x := by
  constructor
  · rintro ⟨nodes, node, hchain, hnode, hx⟩
    have hlist : nodes = free := hchain.unique h.chain
    exact ⟨node, hlist ▸ hnode, hx⟩
  · rintro ⟨q, hq, hx⟩
    exact ⟨free, q, h.chain, hq, hx⟩

/-- Only the links of the free blocks have to stay. -/
theorem PoolInv.links_congr (h : PoolInv s free live) {m : Mem}
    (hbytes : forall x, s.Links x -> m.bytes x = (mem s).bytes x) :
    PoolInv (setMem m s) free live where
  region := h.region
  granule := h.granule
  chain := by
    apply h.chain.congr
    intro q hq
    change (mem (setMem m s)).word q = (mem s).word q
    rw [HasMem.mem_setMem]
    apply Mem.word_congr
    intro x hx hlt
    exact hbytes x ((h.links_iff x).mpr ⟨q, hq, hx, hlt⟩)
  parts := h.parts

end Links

/-- The live blocks `L` lie at the start of blocks of the pool, in a buffer that the child
provided; the child has handed out the blocks `base` to others. -/
structure PoolServes (C : Contract a) (base : List Block) (s : PoolState χ)
    (L : List Block) : Prop where
  inv : exists free, PoolInv s free (L.map Block.ptr)
  fits : forall b, b ∈ L -> 0 < b.size ∧ b.size ≤ s.ctx.blockSize
  granule : 8 ∣ s.ctx.blockSize
  own : s.ctx.ownBuffer = true
  child : C.Inv s.child (s.ctx.region :: base)

/-- What must not be stored to. -/
def PoolOwn (C : Contract a) (s : PoolState χ) (x : Nat) : Prop :=
  C.own s.child x ∨ s.Links x

namespace PoolServes

variable {C : Contract a} {base L : List Block} {s s' : PoolState χ} {b : Block} {n : Nat}

/-- A live block and the block of the pool that it lies in. -/
theorem inside (h : PoolServes C base s L) (hb : b ∈ L) :
    b.Inside ⟨b.ptr, s.ctx.blockSize⟩ ∧
      Block.Inside ⟨b.ptr, s.ctx.blockSize⟩ s.ctx.region := by
  rcases h.inv with ⟨free, hinv⟩
  refine ⟨⟨Nat.le_refl _, Nat.add_le_add_left (h.fits b hb).right b.ptr⟩, ?_⟩
  exact poolBlocks_inside (hinv.live_mem (List.mem_map_of_mem hb))

theorem wellFormed (h : PoolServes C base s L) : AllWellFormed L := by
  intro b hb
  rcases h.inv with ⟨free, hinv⟩
  rcases h.inside hb with ⟨hblock, hregion⟩
  have hbounds := hinv.region
  have hin := hblock.trans hregion
  simp only [Block.Inside, Block.WellFormed, Block.stop, PoolContext.region] at hin hbounds ⊢
  exact ⟨by omega, (h.fits b hb).left, by omega⟩

theorem disjoint (h : PoolServes C base s L) : AllDisjoint L := by
  rcases h.inv with ⟨free, hinv⟩
  have hnodup : (L.map Block.ptr).Nodup := (List.nodup_append.mp hinv.nodup).right.left
  have hptrs : L.Pairwise (fun b c => b.ptr ≠ c.ptr) := List.pairwise_map.mp hnodup
  apply List.Pairwise.imp_of_mem _ hptrs
  intro b c hb hc hne
  have hapart := poolBlocks_apart (hinv.live_mem (List.mem_map_of_mem hb))
    (hinv.live_mem (List.mem_map_of_mem hc)) hne
  exact ((h.inside hc).left.disjoint ((h.inside hb).left.disjoint hapart).symm).symm

theorem perm (h : PoolServes C base s L) {M : List Block} (hperm : L.Perm M) :
    PoolServes C base s M := by
  rcases h.inv with ⟨free, hinv⟩
  exact ⟨⟨free, hinv.perm (hperm.map _)⟩, fun b hb => h.fits b (hperm.mem_iff.mpr hb),
    h.granule, h.own, h.child⟩

/-- Steps that write inside the buffer are invisible to the child. -/
theorem same (h : PoolServes C base s L) (hsame : SamePool s s') {P : Nat -> Nat -> Prop}
    (hw : Wrote P (mem s) (mem s'))
    (hP : forall x k, P x k -> Block.Inside ⟨x, k⟩ s.ctx.region) {free : List Nat}
    {M : List Block} (hinv : PoolInv s' free (M.map Block.ptr))
    (hfits : forall b, b ∈ M -> 0 < b.size ∧ b.size ≤ s.ctx.blockSize) :
    PoolServes C base s' M := by
  have hchild : C.Inv s'.child (s.ctx.region :: base) := by
    rw [hsame.child]
    apply (C.store_inside h.child hw _).left
    exact fun x k hxk => ⟨s.ctx.region, List.mem_cons_self, hP x k hxk⟩
  have hctx := hsame.ctx
  refine ⟨⟨free, hinv⟩, ?_, ?_, ?_, ?_⟩
  · rw [hctx]
    exact hfits
  · rw [hctx]
    exact h.granule
  · rw [hctx]
    exact h.own
  · rw [hctx]
    exact hchild

theorem alloc (h : PoolServes C base s L) (n : Nat) :
    exists p s', alloAlloc (poolAllo (some a)) n s = some (p, s') ∧
      KeepsBytes L (mem s) (mem s') ∧
        (p = NULL ∧ PoolServes C base s' L ∨
          p ≠ NULL ∧ PoolServes C base s' (⟨p, n⟩ :: L)) := by
  rcases h.inv with ⟨free, hinv⟩
  by_cases hno : n = 0 ∨ s.ctx.blockSize < n ∨ free = []
  · refine ⟨NULL, s, congrArg some (poolAllocFn_refused hinv hno), KeepsBytes.refl L _, ?_⟩
    exact Or.inl ⟨rfl, h⟩
  · have hpos : n ≠ 0 := fun hzero => hno (Or.inl hzero)
    have hle : n ≤ s.ctx.blockSize :=
      Nat.le_of_not_lt (fun hlt => hno (Or.inr (Or.inl hlt)))
    cases free with
    | nil => exact absurd (Or.inr (Or.inr rfl)) hno
    | cons p free =>
        rcases poolAllocFn_served hinv hpos hle with ⟨s', hcall, hinv', hbytes, hsame⟩
        refine ⟨p, s', congrArg some hcall, fun c _ x _ => congrFun hbytes x, ?_⟩
        have hw : Wrote (fun _ _ => False) (mem s) (mem s') := by
          have hwrote := wrote_poolAllocFn n s
          rw [hcall] at hwrote
          exact hwrote
        refine Or.inr ⟨hinv'.live_ne_null List.mem_cons_self, ?_⟩
        apply h.same hsame hw (fun _ _ hno => hno.elim) (M := ⟨p, n⟩ :: L) hinv'
        intro c hc
        cases hc with
        | head => exact ⟨Nat.pos_of_ne_zero hpos, hle⟩
        | tail _ hc => exact h.fits c hc

theorem free (h : PoolServes C base s L) (hb : b ∈ L) :
    exists s', alloFree (poolAllo (some a)) b.ptr b.size s = some s' ∧
      KeepsBytes (L.erase b) (mem s) (mem s') ∧ PoolServes C base s' (L.erase b) := by
  rcases h.inv with ⟨free, hinv⟩
  rcases poolFreeFn_served hinv (List.mem_map_of_mem hb) b.size with
    ⟨s', hcall, hinv', hw, hsame⟩
  have hlink : Block.Inside ⟨b.ptr, 8⟩ ⟨b.ptr, s.ctx.blockSize⟩ :=
    ⟨Nat.le_refl _, Nat.add_le_add_left hinv.granule b.ptr⟩
  refine ⟨s', hcall, ?_, ?_⟩
  · apply KeepsBytes.of_wrote hw
    rintro x k ⟨rfl, rfl⟩ c hc
    have hmem := List.mem_of_mem_erase hc
    have hne : c.ptr ≠ b.ptr := by
      have hd := h.disjoint.disjoint_of_mem_erase hb hc
      exact (hd.symm).ptr_ne (h.fits c hmem).left (h.fits b hb).left
    have hapart := poolBlocks_apart (hinv.live_mem (List.mem_map_of_mem hmem))
      (hinv.live_mem (List.mem_map_of_mem hb)) hne
    exact (hlink.disjoint ((h.inside hmem).left.disjoint hapart).symm).symm
  · apply h.same hsame hw _ (hinv'.perm (map_erase_perm Block.ptr hb))
      (fun c hc => h.fits c (List.mem_of_mem_erase hc))
    rintro x k ⟨rfl, rfl⟩
    exact hlink.trans (h.inside hb).right

/-- A block is never moved. -/
theorem realloc (h : PoolServes C base s L) (hb : b ∈ L) (hpos : n ≠ 0) :
    exists p s', (poolAllo (some a)).realloc b.ptr b.size n s = some (p, s') ∧
      Reallocated (PoolServes C base) s L b n p s' := by
  rcases h.inv with ⟨free, hinv⟩
  have hcall := poolReallocFn_eq hinv (List.mem_map_of_mem hb) b.size n
  refine ⟨_, _, hcall, ?_⟩
  by_cases hle : n ≤ s.ctx.blockSize
  · rw [if_pos hle]
    have hptr := hinv.live_ne_null (List.mem_map_of_mem hb)
    refine Or.inr ⟨hptr, ⟨⟨free, ?_⟩, ?_, h.granule, h.own, h.child⟩,
      KeepsBytes.refl _ _, fun _ _ => rfl⟩
    · exact hinv.perm ((List.perm_cons_erase hb).map Block.ptr)
    · intro c hc
      cases hc with
      | head => exact ⟨Nat.pos_of_ne_zero hpos, hle⟩
      | tail _ hc => exact h.fits c (List.mem_of_mem_erase hc)
  · rw [if_neg hle]
    exact Or.inl ⟨rfl, h, KeepsBytes.refl L _⟩

theorem own_apart (h : PoolServes C base s L) (hb : b ∈ L) {x : Nat} (hx : b.Contains x) :
    ¬ PoolOwn C s x := by
  rcases h.inv with ⟨free, hinv⟩
  rcases h.inside hb with ⟨hblock, hregion⟩
  rintro (hchild | hlink)
  · exact C.own_apart h.child List.mem_cons_self ((hblock.trans hregion).contains hx) hchild
  · rcases (hinv.links_iff x).mp hlink with ⟨q, hq, hqx⟩
    have hlinkInside : Block.Inside ⟨q, sizeofPoolFreeNode⟩ ⟨q, s.ctx.blockSize⟩ :=
      ⟨Nat.le_refl _, Nat.add_le_add_left hinv.granule q⟩
    have hapart := hinv.apart hq (List.mem_map_of_mem hb)
    exact hapart.not_contains (hlinkInside.contains hqx) (hblock.contains hx)

/-- A store that avoids what the pool keeps for itself. -/
theorem store (h : PoolServes C base s L) {P : Nat -> Nat -> Prop} {m : Mem}
    (hw : Wrote P (mem s) m)
    (hP : forall x k, P x k -> forall y, x ≤ y -> y < x + k -> ¬ PoolOwn C s y) :
    PoolServes C base (setMem m s) L ∧
      forall y, PoolOwn C (setMem m s) y -> PoolOwn C s y := by
  rcases h.inv with ⟨free, hinv⟩
  have hstored := C.store h.child hw
    (fun x k hxk y hle hlt hown => hP x k hxk y hle hlt (Or.inl hown))
  have hinv' : PoolInv (setMem m s) free (L.map Block.ptr) := by
    apply hinv.links_congr
    intro x hx
    apply hw.bytes
    rintro c k hck ⟨hle, hlt⟩
    exact hP c k hck x hle hlt (Or.inr hx)
  refine ⟨⟨⟨free, hinv'⟩, h.fits, h.granule, h.own, hstored.left⟩, ?_⟩
  rintro y (hchild | hlink)
  · exact Or.inl (hstored.right y hchild)
  · exact Or.inr ((hinv.links_iff y).mpr ((hinv'.links_iff y).mp hlink))

/-- Destroying the pool gives the buffer back. -/
theorem destroy (h : PoolServes C base s L) :
    exists s', alloDestroy (poolAllo (some a)) s = some s' ∧ C.Inv s'.child base := by
  rcases h.inv with ⟨free, hinv⟩
  have hend : s.ctx.buffer + s.ctx.blockSize * s.ctx.totalBlocks < 2 ^ 64 :=
    hinv.region.right.right
  have hmul : sizeMul s.ctx.blockSize s.ctx.totalBlocks =
      s.ctx.blockSize * s.ctx.totalBlocks := sizeMul_eq (by omega)
  rcases C.free h.child List.mem_cons_self with ⟨w, hcall, _, hinv'⟩
  rw [List.erase_cons_head] at hinv'
  refine ⟨{ s with child := w }, ?_, hinv'⟩
  have hfree : alloFree a s.ctx.buffer (sizeMul s.ctx.blockSize s.ctx.totalBlocks) s.child =
      some w := by
    rw [hmul]
    exact hcall
  simp [alloDestroy, poolAllo, poolDestroyFn, h.own, hfree]

end PoolServes

/-- The blocks of a pool are whole words. -/
theorem PoolServes.aligned {A : Lawful a} {base L : List Block} {s : PoolState χ}
    {b : Block} (h : PoolServes A.toContract base s L) (hb : b ∈ L) : 8 ∣ b.ptr := by
  rcases h.inv with ⟨free, hinv⟩
  have hbuffer : 8 ∣ s.ctx.buffer := A.aligned h.child List.mem_cons_self
  rcases List.mem_range'.mp (hinv.live_mem (List.mem_map_of_mem hb)) with ⟨i, _, hptr⟩
  rw [hptr]
  exact Nat.dvd_add hbuffer (Nat.dvd_trans h.granule (Nat.dvd_mul_right _ _))

/-- When a pool is destroyed, its child has the buffer back. -/
def poolLawful (A : Lawful a) (base : List Block) : Lawful (poolAllo (some a)) where
  Inv := PoolServes A.toContract base
  own := PoolOwn A.toContract
  wellFormed := fun h => h.wellFormed
  disjoint := fun h => h.disjoint
  own_apart := fun h hb hx => h.own_apart hb hx
  alloc := fun h _ => h.alloc _
  store := fun h hw hP => h.store hw hP
  free := fun h hb => h.free hb
  Closed := fun s _ => A.Inv s.child base
  aligned := fun h hb => h.aligned hb
  perm := fun h hperm => h.perm hperm
  freeNull := fun _ h => ⟨_, rfl, KeepsBytes.refl _ _, h⟩
  realloc := fun h hb hpos _ _ => h.realloc hb hpos
  destroy := fun h => h.destroy

theorem poolServes_start {C : Contract a} {w : χ} {base : List Block}
    {buffer size total : Nat} (h : C.Inv w (⟨buffer, size * total⟩ :: base))
    (htotal : 0 < total) (hsize : 8 ≤ size) (hgranule : 8 ∣ size) :
    PoolServes C base (poolStart buffer size total true w) [] where
  inv := ⟨_, poolInv_start htotal hsize (C.wellFormed h _ List.mem_cons_self)⟩
  fits := fun _ hb => absurd hb List.not_mem_nil
  granule := hgranule
  own := rfl
  child := by
    have hend := (C.wellFormed h _ List.mem_cons_self).right.right
    have hw : Wrote (fun x n => Block.Inside ⟨x, n⟩ ⟨buffer, size * total⟩) (mem w)
        (mem (poolStart buffer size total true w)) := wrote_poolStart hsize hend
    have hstored := (C.store_inside h hw
      (fun x k hxk => ⟨_, List.mem_cons_self, hxk⟩)).left
    rw [mem_poolStart] at hstored
    exact hstored

/-- A pool that was made over a child is such a service, unless the size of its buffer
overflows. -/
theorem makePoolAllocator_serves {C : Contract a} {out blockSize totalBlocks : Nat}
    {w : χ} {base : List Block} (hchild : C.Inv w base)
    (hsize : roundedBlockSize blockSize * totalBlocks < 2 ^ 64) :
    exists made, makePoolAllocator out (some a) NULL blockSize totalBlocks w = some made ∧
      ((exists e w', made = Made.failed e w' ∧ C.Inv w' base) ∨
        exists st, made = Made.ok st ∧ PoolServes C base st []) := by
  unfold makePoolAllocator
  split
  · exact ⟨_, rfl, Or.inl ⟨_, w, rfl, hchild⟩⟩
  · rename_i hargs
    have htotal : 0 < totalBlocks :=
      Nat.pos_of_ne_zero (fun hzero => hargs (Or.inr (Or.inr (Or.inr hzero))))
    have hround : roundedBlockSize blockSize < 2 ^ 64 :=
      Nat.lt_of_le_of_lt (Nat.le_mul_of_pos_right _ htotal) hsize
    have hmul : sizeMul (poolBlockSize blockSize) totalBlocks =
        roundedBlockSize blockSize * totalBlocks := by
      rw [poolBlockSize_eq hround]
      exact sizeMul_eq hsize
    rw [if_pos rfl, hmul, poolBlockSize_eq hround]
    rcases C.alloc hchild hsize with ⟨p, w', hcall, _, hcase⟩
    simp only [hcall, Option.bind_eq_bind, Option.bind_some]
    rcases hcase with ⟨hnull, hinv⟩ | ⟨hne, hinv⟩
    · rw [if_pos hnull]
      exact ⟨_, rfl, Or.inl ⟨_, w', rfl, hinv⟩⟩
    · rw [if_neg hne]
      refine ⟨_, rfl, Or.inr ⟨_, rfl, ?_⟩⟩
      exact poolServes_start hinv htotal (eight_le_roundedBlockSize blockSize)
        (Nat.dvd_mul_left 8 _)

end Liballo
