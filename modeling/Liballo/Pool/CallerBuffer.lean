import Liballo.Pool.Partition

/-!
# The buffer of a caller

The constructor rounds the block size up and keeps the number of blocks, also when the
caller chose the buffer for them. A pool stays inside such a buffer when the rounding
changes nothing, or when it wraps to zero and the pool has nothing to hand out.
-/

namespace Liballo

open Foundation

section CallerBuffer

variable {χ : Type} [HasMem χ] {child : Option (Allo χ)}
variable {s s' : PoolSession χ} {made : PoolState χ} {w : χ}
variable {out buffer blockSize totalBlocks : Nat}

/-- What the constructor writes, the blocks of every run with their full capacity, and
what a run writes lie inside `region`. -/
structure PoolConfined (child : Option (Allo χ)) (region : Block) (w : χ)
    (made : PoolState χ) : Prop where
  start : Wrote (fun x n => Block.Inside ⟨x, n⟩ region) (mem w) (mem made)
  blocks : forall s, (poolClient child).Reaches (PoolSession.start made) s ->
    forall p, p ∈ s.live -> Block.Inside ⟨p, s.state.ctx.blockSize⟩ region
  writes : forall s, (poolClient child).Reaches (PoolSession.start made) s ->
    Wrote (fun x n => Block.Inside ⟨x, n⟩ region) (mem made) (mem s.state)

theorem makePoolAllocator_given (hne : buffer ≠ NULL)
    (hmake : makePoolAllocator out child buffer blockSize totalBlocks w =
      some (Made.ok made)) :
    0 < blockSize ∧ 0 < totalBlocks ∧
      made = poolStart buffer (poolBlockSize blockSize) totalBlocks false w := by
  rcases makePoolAllocator_ok hmake with ⟨hsize, htotal, ⟨hnull, _⟩ | ⟨_, heq⟩⟩
  · exact absurd hnull hne
  · exact ⟨hsize, htotal, heq⟩

/-!
# What a run writes
-/

/-- A store of a step lies in a block that the client holds before it. -/
def StoresInLive (s : PoolSession χ) (x n : Nat) : Prop :=
  exists p, p ∈ s.live ∧ Block.Inside ⟨x, n⟩ ⟨p, s.state.ctx.blockSize⟩

theorem wrote_poolFree {fresh : List Nat} (h : PoolSessionInv made s fresh) {p : Nat}
    (hp : p ∈ s.live) {size : Nat} {state : PoolState χ}
    (hcall : alloFree (poolAllo child) p size s.state = some state) :
    Wrote (StoresInLive s) (mem s.state) (mem state) := by
  rcases poolFreeFn_served h.inv hp size with ⟨t, hserved, _, hwrote, _⟩
  have heq : t = state := Option.some.inj (hserved.symm.trans hcall)
  rw [← heq]
  apply hwrote.mono
  rintro x n ⟨rfl, rfl⟩
  have hgranule := h.inv.granule
  exact ⟨x, hp, Nat.le_refl x, Nat.add_le_add_left hgranule x⟩

theorem wrote_poolRealloc {fresh : List Nat} (h : PoolSessionInv made s fresh) {p q : Nat}
    (hp : p ∈ s.live) {oldSize newSize : Nat} {state : PoolState χ}
    (hcall : alloRealloc (poolAllo child) p oldSize newSize s.state = some (q, state)) :
    Wrote (StoresInLive s) (mem s.state) (mem state) := by
  rcases alloRealloc_cases (h.inv.live_ne_null hp) hcall with
    ⟨_, _, hfree⟩ | ⟨_, _, _, hsame⟩ | ⟨_, _, hrealloc⟩
  · exact wrote_poolFree h hp hfree
  · rw [hsame]
    exact Wrote.refl _ _
  · have hanswer := (poolReallocFn_eq h.inv hp oldSize newSize).symm.trans hrealloc
    have hsame : s.state = state := congrArg Prod.snd (Option.some.inj hanswer)
    rw [hsame]
    exact Wrote.refl _ _

theorem poolExec_wrote {fresh : List Nat} (h : PoolSessionInv made s fresh) {op : PoolOp}
    (hlegal : s.Legal op) (hexec : PoolSession.exec (poolAllo child) op s = some s') :
    Wrote (StoresInLive s) (mem s.state) (mem s'.state) := by
  unfold PoolSession.exec at hexec
  cases op with
  | alloc size =>
      rcases Option.bind_eq_some_iff.mp hexec with ⟨⟨p, state⟩, hcall, hlast⟩
      have hanswer : poolAllocFn size s.state = (p, state) := Option.some.inj hcall
      have hwrote := wrote_poolAllocFn size s.state
      rw [hanswer] at hwrote
      cases hlast
      rw [PoolSession.afterAlloc_state]
      exact hwrote.mono (fun _ _ hno => absurd hno not_false)
  | free p size =>
      rcases Option.bind_eq_some_iff.mp hexec with ⟨state, hcall, hlast⟩
      cases hlast
      exact wrote_poolFree h hlegal hcall
  | realloc p oldSize newSize =>
      rcases Option.bind_eq_some_iff.mp hexec with ⟨⟨q, state⟩, hcall, hlast⟩
      cases hlast
      rw [PoolSession.afterRealloc_state]
      exact wrote_poolRealloc h hlegal hcall
  | poke x v =>
      cases hexec
      rcases hlegal with ⟨p, hp, hx⟩
      have hinside : StoresInLive s x 1 := ⟨p, hp, hx.left, hx.right⟩
      change Wrote _ _ (mem (modifyMem (Mem.poke x v) s.state))
      rw [mem_modifyMem]
      exact Wrote.poke hinside

/-- Nothing is written outside the blocks of the pool. -/
theorem pool_run_wrote (hinv : PoolInv made (poolBlocks made.ctx.buffer
      made.ctx.blockSize made.ctx.totalBlocks) [])
    (hreach : (poolClient child).Reaches (PoolSession.start made) s) :
    (exists fresh, PoolSessionInv made s fresh) ∧
      Wrote (fun x n => Block.Inside ⟨x, n⟩
        ⟨made.ctx.buffer, made.ctx.blockSize * made.ctx.totalBlocks⟩)
          (mem made) (mem s.state) := by
  refine hreach.invariant_of_step (fun s => (exists fresh, PoolSessionInv made s fresh) ∧
    Wrote (fun x n => Block.Inside ⟨x, n⟩
      ⟨made.ctx.buffer, made.ctx.blockSize * made.ctx.totalBlocks⟩)
        (mem made) (mem s.state)) ?_ ?_
  · exact ⟨⟨_, hinv, SamePool.refl made⟩, Wrote.refl _ _⟩
  · intro s op hs hlegal
    rcases hs with ⟨⟨fresh, hs⟩, hwrote⟩
    have hstep : exists s' fresh', PoolStepped made child s op s' fresh' :=
      poolStep hs hlegal
    rcases hstep with ⟨s', fresh', hstep⟩
    refine ⟨s', hstep.exec, ⟨fresh', hstep.inv⟩, hwrote.trans ?_⟩
    apply (poolExec_wrote hs hlegal hstep.exec).mono
    rintro x n ⟨p, hp, hinside⟩
    have hblock := hinside.trans (poolBlocks_inside (hs.inv.live_mem hp))
    rw [hs.same.ctx] at hblock
    exact hblock

/-!
# When a pool stays inside
-/

/-- The blocks have the size the caller asked for. -/
theorem poolConfined_of_dvd (hdvd : 8 ∣ blockSize) (hsize : 0 < blockSize)
    (htotal : 0 < totalBlocks)
    (hbuffer : Block.WellFormed ⟨buffer, blockSize * totalBlocks⟩) :
    PoolConfined child ⟨buffer, blockSize * totalBlocks⟩ w
      (poolStart buffer blockSize totalBlocks false w) := by
  have hgranule : 8 ≤ blockSize := Nat.le_of_dvd hsize hdvd
  have hinv : PoolInv (poolStart buffer blockSize totalBlocks false w)
      (poolBlocks buffer blockSize totalBlocks) [] := poolInv_start htotal hgranule hbuffer
  constructor
  · exact wrote_poolStart hgranule hbuffer.right.right
  · intro s hreach p hp
    rcases poolSessionInv_of_reaches hinv hreach with ⟨fresh, hs⟩
    have hinside := poolBlocks_inside (hs.inv.live_mem hp)
    rw [hs.same.ctx] at hinside ⊢
    exact hinside
  · intro s hreach
    exact (pool_run_wrote hinv hreach).right

/-- A pool without capacity serves no request. -/
theorem poolAllocFn_zero {state : PoolState χ} (hzero : state.ctx.blockSize = 0)
    (size : Nat) : poolAllocFn size state = (NULL, state) := by
  unfold poolAllocFn
  by_cases hsize : size = 0
  · rw [if_pos hsize]
  · rw [if_neg hsize, hzero, if_pos (Nat.pos_of_ne_zero hsize)]

theorem pool_run_zero (hzero : made.ctx.blockSize = 0)
    (hreach : (poolClient child).Reaches (PoolSession.start made) s) :
    s.live = [] ∧ s.state = made := by
  refine hreach.invariant (fun s => s.live = [] ∧ s.state = made) ⟨rfl, rfl⟩ ?_
  rintro s op s' ⟨hlive, hstate⟩ hlegal hexec
  have hnone : forall p, p ∈ s.live -> False := by
    intro p hp
    rw [hlive] at hp
    exact List.not_mem_nil hp
  cases op with
  | alloc size =>
      have hcall : alloAlloc (poolAllo child) size s.state = some (NULL, s.state) :=
        congrArg some (poolAllocFn_zero (hstate ▸ hzero) size)
      have hanswer := (PoolSession.exec_alloc_of hcall).symm.trans hexec
      rw [← Option.some.inj hanswer]
      unfold PoolSession.afterAlloc
      rw [if_pos rfl]
      exact ⟨hlive, hstate⟩
  | free p size => exact absurd hlegal (hnone p)
  | realloc p oldSize newSize => exact absurd hlegal (hnone p)
  | poke x v =>
      rcases hlegal with ⟨p, hp, _⟩
      exact absurd hp (hnone p)

/-- The block size wrapped to zero, and there is one block. -/
theorem poolConfined_of_zero (hsize : 8 ≤ blockSize) :
    PoolConfined child ⟨buffer, blockSize⟩ w (poolStart buffer 0 1 false w) := by
  constructor
  · rw [mem_poolStart]
    have hnode : Block.Inside ⟨buffer, 8⟩ ⟨buffer, blockSize⟩ :=
      ⟨Nat.le_refl buffer, Nat.add_le_add_left hsize buffer⟩
    have hpoison : Wrote (fun x n => Block.Inside ⟨x, n⟩ ⟨buffer, blockSize⟩) (mem w)
        ((mem w).note (Event.poison buffer (sizeMul 0 1))) := Wrote.note trivial
    have hunpoison : Wrote (fun x n => Block.Inside ⟨x, n⟩ ⟨buffer, blockSize⟩) _
        (((mem w).note (Event.poison buffer (sizeMul 0 1))).note
          (Event.unpoison buffer sizeofPoolFreeNode)) := Wrote.note trivial
    exact hpoison.trans (hunpoison.trans (Wrote.writeWord hnode))
  · intro s hreach p hp
    rw [(pool_run_zero rfl hreach).left] at hp
    exact absurd hp List.not_mem_nil
  · intro s hreach
    rw [(pool_run_zero rfl hreach).right]
    exact Wrote.refl _ _

/-!
# When a pool leaves it
-/

/-- The free list after its first block was handed out. -/
theorem poolAllocFn_chain {state : PoolState χ} {p : Nat} {free : List Nat}
    (hchain : Chain (PoolFreeNode.next (mem state)) state.ctx.freeList (p :: free))
    {size : Nat} (hpos : size ≠ 0) (hle : size ≤ state.ctx.blockSize) :
    exists state', poolAllocFn size state = (p, state') ∧
      state'.ctx.blockSize = state.ctx.blockSize ∧
        Chain (PoolFreeNode.next (mem state')) state'.ctx.freeList free := by
  refine ⟨_, poolAllocFn_head hchain hpos hle, ?_, ?_⟩
  · rw [PoolState.ctx_note, PoolState.setFreeList_blockSize, PoolState.ctx_note]
  rw [PoolState.ctx_note, PoolState.setFreeList_freeList]
  apply hchain.right.right.congr
  intro q _
  rw [PoolState.mem_note, PoolState.mem_setFreeList, PoolState.mem_note]
  exact (Mem.word_note _ _ q).trans (Mem.word_note _ (mem state) q)

/-- Requests for one byte hand out the whole free list. -/
theorem pool_serves_all {nodes : List Nat} (hsize : 1 ≤ made.ctx.blockSize)
    (hreach : (poolClient child).Reaches (PoolSession.start made) s)
    (hsame : s.state.ctx.blockSize = made.ctx.blockSize)
    (hchain : Chain (PoolFreeNode.next (mem s.state)) s.state.ctx.freeList nodes) :
    exists s', (poolClient child).Reaches (PoolSession.start made) s' ∧
      s'.state.ctx.blockSize = made.ctx.blockSize ∧
        forall p, p ∈ nodes ∨ p ∈ s.live -> p ∈ s'.live := by
  induction nodes generalizing s with
  | nil =>
      refine ⟨s, hreach, hsame, ?_⟩
      intro p hp
      exact hp.resolve_left List.not_mem_nil
  | cons p nodes ih =>
      have hlegal : (poolClient child).Legal s (PoolOp.alloc 1) := trivial
      rcases poolAllocFn_chain hchain Nat.one_ne_zero (hsame ▸ hsize) with
        ⟨state, hcall, hsize', hrest⟩
      have hexec : (poolClient child).exec (PoolOp.alloc 1) s =
          some (s.afterAlloc p state) := PoolSession.exec_alloc_of (congrArg some hcall)
      have hnext := hreach.step hlegal hexec
      have hafter : s.afterAlloc p state =
          { state := state, live := p :: s.live, freed := s.freed.erase p } :=
        if_neg hchain.right.left
      rw [hafter] at hnext
      rcases ih hnext (hsize'.trans hsame) hrest with ⟨s', hreach', hsame', hall⟩
      refine ⟨s', hreach', hsame', ?_⟩
      rintro q (hq | hq)
      · rcases List.mem_cons.mp hq with rfl | hq
        · exact hall q (Or.inr List.mem_cons_self)
        · exact hall q (Or.inl hq)
      · exact hall q (Or.inr (List.mem_cons_of_mem p hq))

/-- The nodes of a pool whose constructor stayed inside the buffer do not wrap. -/
theorem node_inside {size n : Nat} {own : Bool}
    (hwrote : Wrote (fun x len => Block.Inside ⟨x, len⟩ ⟨buffer, n⟩) (mem w)
      (mem (poolStart buffer size totalBlocks own w)))
    (hlt : buffer < 2 ^ 64) (hfits : size * totalBlocks < 2 ^ 64) {j : Nat}
    (hj : j < totalBlocks) : buffer + size * j + 8 ≤ buffer + n := by
  rw [mem_poolStart] at hwrote
  have hloop : exists es, (poolInitLoop size totalBlocks buffer
      ((mem w).note (Event.poison buffer (sizeMul size totalBlocks)))).trace =
        es ++ Event.poison buffer (sizeMul size totalBlocks) :: (mem w).trace ∧
      forall j, j < totalBlocks -> Event.write ((buffer + size * j) % 2 ^ 64) 8 ∈ es :=
    poolInitLoop_writes hlt
  rcases hloop with ⟨es, htrace, hall⟩
  rw [List.append_cons] at htrace
  have hinside := hwrote.events htrace _ (List.mem_append_left _ (hall j hj))
  have hmul : size * j ≤ size * totalBlocks := Nat.mul_le_mul_left size (Nat.le_of_lt hj)
  simp only [Event.WritesOnly, Block.Inside, Block.stop] at hinside
  omega

/-- If the pool stays inside the buffer, its last block ends there. -/
theorem PoolConfined.total_le {size n : Nat}
    (h : PoolConfined child ⟨buffer, n⟩ w (poolStart buffer size totalBlocks false w))
    (hne : 0 < buffer) (hlt : buffer + n < 2 ^ 64) (hsize : 8 ≤ size)
    (htotal : 0 < totalBlocks) (hfits : size * totalBlocks < 2 ^ 64) :
    size * totalBlocks ≤ n := by
  have hnodes : forall j, j < totalBlocks -> buffer + size * j < 2 ^ 64 := by
    intro j hj
    have hinside := node_inside h.start (by omega) hfits hj
    omega
  have hchain := chain_poolInitLoop (m := (mem w).note
    (Event.poison buffer (sizeMul size totalBlocks))) hne htotal hsize hnodes
  rw [← mem_poolStart buffer size false w] at hchain
  have hone : 1 ≤ (poolStart buffer size totalBlocks false w).ctx.blockSize := by
    rw [poolStart_ctx]
    exact Nat.le_trans (by decide) hsize
  have hstart : (poolClient child).Reaches
      (PoolSession.start (poolStart buffer size totalBlocks false w))
        (PoolSession.start (poolStart buffer size totalBlocks false w)) :=
    Machine.Reaches.start
  rcases pool_serves_all hone hstart rfl hchain with ⟨s, hreach, hsame, hall⟩
  have hlast : buffer + size * (totalBlocks - 1) ∈ poolBlocks buffer size totalBlocks :=
    List.mem_range'.mpr ⟨totalBlocks - 1, by omega, rfl⟩
  have hinside := h.blocks s hreach _ (hall _ (Or.inl hlast))
  rw [hsame, poolStart_ctx] at hinside
  have hsucc : size * totalBlocks = size * (totalBlocks - 1) + size := by
    rw [← Nat.mul_succ, Nat.succ_eq_add_one, Nat.sub_add_cancel htotal]
  simp only [Block.Inside, Block.stop] at hinside
  omega

/-- A pool over a caller's buffer stays inside it when the block size is a multiple of
eight, or so large that it is rounded to zero. If the rounded blocks can be addressed at
all, it does so only then. -/
theorem pool_confined_iff (hne : buffer ≠ NULL)
    (hbuffer : Block.WellFormed ⟨buffer, blockSize * totalBlocks⟩)
    (hmake : makePoolAllocator out child buffer blockSize totalBlocks w =
      some (Made.ok made)) :
    (8 ∣ blockSize ∨ 2 ^ 64 - 8 < blockSize ->
      PoolConfined child ⟨buffer, blockSize * totalBlocks⟩ w made) ∧
    (roundedBlockSize blockSize * totalBlocks < 2 ^ 64 ->
      PoolConfined child ⟨buffer, blockSize * totalBlocks⟩ w made -> 8 ∣ blockSize) := by
  rcases makePoolAllocator_given hne hmake with ⟨hsize, htotal, rfl⟩
  have hend : buffer + blockSize * totalBlocks < 2 ^ 64 := hbuffer.right.right
  have hle : blockSize ≤ blockSize * totalBlocks := Nat.le_mul_of_pos_right _ htotal
  constructor
  · rintro (hdvd | hlarge)
    · have hround : roundedBlockSize blockSize = blockSize := by
        have hmax := Nat.max_eq_left (Nat.le_of_dvd hsize hdvd)
        unfold roundedBlockSize sizeofPoolFreeNode
        omega
      rw [poolBlockSize_eq (by omega), hround]
      exact poolConfined_of_dvd hdvd hsize htotal hbuffer
    · have hone : totalBlocks = 1 := by
        by_contra hmore
        have htwo := Nat.mul_le_mul_left blockSize (show 2 ≤ totalBlocks by omega)
        omega
      rw [poolBlockSize_wraps hlarge (by omega), hone, Nat.mul_one]
      exact poolConfined_of_zero (by omega)
  · intro hfits hconfined
    have hround : roundedBlockSize blockSize < 2 ^ 64 :=
      Nat.lt_of_le_of_lt (Nat.le_mul_of_pos_right _ htotal) hfits
    rw [poolBlockSize_eq hround] at hconfined
    have htotalLe := hconfined.total_le hbuffer.left hend
      (eight_le_roundedBlockSize blockSize) htotal hfits
    have hsame : roundedBlockSize blockSize = blockSize :=
      Nat.le_antisymm (Nat.le_of_mul_le_mul_right htotalLe htotal)
        (le_roundedBlockSize blockSize)
    rw [← hsame]
    exact Nat.dvd_mul_left 8 _

end CallerBuffer

theorem pool_confined_iff_sixteen :
    exists made, makePoolAllocator 8 (none : Option (Allo Mem)) 64 16 3
        { bytes := fun _ => 0, trace := [] } = some (Made.ok made) ∧
      PoolConfined (none : Option (Allo Mem)) ⟨64, 16 * 3⟩
        { bytes := fun _ => 0, trace := [] } made := by
  have hmake : makePoolAllocator 8 (none : Option (Allo Mem)) 64 16 3
      { bytes := fun _ => 0, trace := [] } = some (Made.ok _) := rfl
  exact ⟨_, hmake, (pool_confined_iff (by decide) (by decide) hmake).left
    (Or.inl (by decide))⟩

/-- Two blocks of twelve bytes in a buffer of 24 bytes: the second one starts sixteen bytes
after the first, and its sixteen bytes end behind the buffer. -/
theorem pool_leaves_buffer :
    exists made s, makePoolAllocator 8 (none : Option (Allo Mem)) 64 12 2
        { bytes := fun _ => 0, trace := [] } = some (Made.ok made) ∧
      (poolClient (none : Option (Allo Mem))).Reaches (PoolSession.start made) s ∧
        80 ∈ s.live ∧ s.state.ctx.blockSize = 16 ∧
          ¬ PoolConfined (none : Option (Allo Mem)) ⟨64, 12 * 2⟩
            { bytes := fun _ => 0, trace := [] } made := by
  have hmake : makePoolAllocator 8 (none : Option (Allo Mem)) 64 12 2
      { bytes := fun _ => 0, trace := [] } = some (Made.ok _) := rfl
  have hrun : exists s, (poolClient (none : Option (Allo Mem))).Reaches
      (PoolSession.start (poolStart 64 16 2 false
        ({ bytes := fun _ => 0, trace := [] } : Mem))) s ∧
      s.live = [80, 64] ∧ s.state.ctx.blockSize = 16 := by
    have hone := @Machine.Reaches.step _ _ (poolClient (none : Option (Allo Mem)))
      (PoolSession.start (poolStart 64 16 2 false { bytes := fun _ => 0, trace := [] }))
      _ _ (PoolOp.alloc 12) Machine.Reaches.start trivial rfl
    exact ⟨_, @Machine.Reaches.step _ _ _ _ _ _ (PoolOp.alloc 12) hone trivial rfl, rfl,
      rfl⟩
  rcases hrun with ⟨s, hreach, hlive, hsize⟩
  have hmem : 80 ∈ s.live := by
    rw [hlive]
    exact List.mem_cons_self
  refine ⟨_, s, hmake, hreach, hmem, hsize, ?_⟩
  intro hconfined
  have hinside := hconfined.blocks s hreach 80 hmem
  rw [hsize] at hinside
  exact absurd hinside (by decide)

end Liballo
