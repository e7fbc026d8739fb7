import Liballo.Buddy.Session
import Liballo.Buffer.Contract

/-!
# The buffer of a caller

The constructor rounds the total size up to a power of two, also when the buffer is the
caller's. An allocator stays inside such a buffer exactly when there was nothing to round.
-/

namespace Liballo

open Foundation

section CallerBuffer

variable {χ : Type} [HasMem χ] {a : Allo χ} {C : Contract a} {L : List Block}
variable {out buffer size : Nat} {w : χ} {st t : BuddyState χ}

/-- The header the constructor writes, the blocks of every run and all that a run writes
lie inside `region`. -/
structure BuddyConfined (C : Contract a) (L : List Block) (region : Block)
    (st : BuddyState χ) : Prop where
  made : exists t, st = buddyStart t ∧ BuddyMade C L region.ptr region.size t ∧
    Wrote (fun x n => Block.Inside ⟨x, n⟩ region) (mem t) (mem st)
  blocks : forall s, (Session.client (buddyAllo a)).Reaches (Session.start st) s ->
    forall b, b ∈ s.live -> b.Inside region
  writes : forall s, (Session.client (buddyAllo a)).Reaches (Session.start st) s ->
    Wrote (fun x n => Block.Inside ⟨x, n⟩ region) (mem st) (mem s.state)

/-!
# The whole buffer as one block
-/

namespace BuddyMade

/-- The order of the total is not raised to that of the smallest block. -/
theorem order_total (h : BuddyMade C L buffer size t) :
    t.ctx.order t.ctx.totalSize = t.ctx.maxOrder := by
  rcases h.shape.rounded with ⟨k, hk, htotal, hmax, _⟩
  have hge := h.order_ge
  rw [hmax] at hge
  have horder : getOrder t.ctx.totalSize = k := by
    rw [htotal]
    exact getOrder_two_pow (by omega)
  unfold BuddyContext.order
  rw [horder, h.shape.minBlockSize, getOrder_thirtytwo, hmax,
    if_neg (Nat.not_lt.mpr hge)]

/-- The first request is served with the whole buffer, if it asks for so much. -/
theorem serves_total (h : BuddyMade C L buffer size t) (hne : t.ctx.buffer ≠ NULL) :
    exists s, buddyAllocFn t.ctx.totalSize (buddyStart t) = (t.ctx.buffer, s) := by
  have hpos : t.ctx.totalSize ≠ 0 := by
    rcases h.shape.rounded with ⟨k, _, htotal, _⟩
    rw [htotal]
    exact Nat.ne_of_gt (Nat.two_pow_pos k)
  have horder : (buddyStart t).ctx.order t.ctx.totalSize = (buddyStart t).ctx.maxOrder :=
    h.order_total
  have hhead : (buddyStart t).ctx.freeLists 0 = t.ctx.buffer := rfl
  have hscan : scanLevels 0 (buddyStart t).touch =
      (some 0, (buddyStart t).touch.note
        (Event.index 0 (buddyStart t).touch.ctx.freeListsCount)) :=
    if_neg (hhead ▸ hne)
  exact ⟨_, buddyAllocFn_some hpos (by omega) (by omega) hscan hhead rfl rfl rfl⟩

/-- A size that is a power of two is the total. -/
theorem total_two_pow {k : Nat} (h : BuddyMade C L buffer (2 ^ k) t) :
    t.ctx.totalSize = 2 ^ k := by
  rcases h.shape.rounded with ⟨j, _, htotal, _, hle, hleast⟩
  rw [htotal]
  apply Nat.le_antisymm
  · apply Nat.pow_le_pow_right (by decide)
    by_contra hlt
    exact absurd (hleast k (Nat.lt_of_not_le hlt)) (Nat.lt_irrefl _)
  · exact hle

end BuddyMade

/-!
# Staying inside
-/

theorem BuddyMade.confined {k : Nat} (h : BuddyMade C L buffer (2 ^ k) t)
    (hne : buffer ≠ NULL) (hwell : Block.WellFormed ⟨buffer, 2 ^ k⟩) :
    BuddyConfined C L ⟨buffer, 2 ^ k⟩ (buddyStart t) := by
  have hregion : t.ctx.region = ⟨buffer, 2 ^ k⟩ := by
    unfold BuddyContext.region
    rw [h.shape.buffer_eq hne, h.total_two_pow]
  have hbuffer : buffer ≠ NULL -> Block.WellFormed ⟨buffer, t.ctx.totalSize⟩ := by
    intro _
    rw [h.total_two_pow]
    exact hwell
  rcases h.fresh hbuffer with ⟨depth, hfresh⟩
  have hstart : BuddyLive True depth (buddyStart t) rootLists [] ∧
      BuddyMoved False (HeaderOf t.ctx {Node.root}) t (buddyStart t) :=
    buddyStart_spec hfresh
  have hregion' : (buddyStart t).ctx.region = ⟨buffer, 2 ^ k⟩ :=
    hstart.right.region.trans hregion
  have hrun : forall s, (Session.client (buddyAllo a)).Reaches
      (Session.start (buddyStart t)) s -> exists fl, BuddyRun depth (buddyStart t) s fl :=
    fun s hreach => buddy_run hstart.left hreach
  constructor
  · refine ⟨t, rfl, h, hstart.right.wrote.mono ?_⟩
    intro x n hx
    rw [← hregion]
    rcases hx with ⟨m, hm, hinside⟩
    have hvalid := (Tiled.start depth).free_valid m hm
    exact (hinside.trans (hfresh.geom.header_inside hvalid)).trans
      (hfresh.geom.nodeBlock_inside hvalid)
  · intro s hreach b hb
    rcases hrun s hreach with ⟨fl, hrun⟩
    have hinside := hrun.live.inside_region hb
    rw [hrun.moved.region, hregion'] at hinside
    exact hinside
  · intro s hreach
    rcases hrun s hreach with ⟨fl, hrun⟩
    have hwrote := hrun.moved.wrote
    rw [hregion'] at hwrote
    exact hwrote

/-- A block of the total does not fit into a smaller buffer. -/
theorem BuddyMade.total_le (h : BuddyMade C L buffer size t) (hne : buffer ≠ NULL)
    (hconfined : BuddyConfined C L ⟨buffer, size⟩ (buddyStart t)) :
    t.ctx.totalSize ≤ size := by
  have hptr := h.shape.buffer_eq hne
  rcases h.serves_total (hptr ▸ hne) with ⟨s, hcall⟩
  have hexec : Session.exec (buddyAllo a) (Op.alloc t.ctx.totalSize)
      (Session.start (buddyStart t)) =
        some ((Session.start (buddyStart t)).afterAlloc t.ctx.totalSize t.ctx.buffer s) := by
    simp [Session.exec, alloAlloc, buddyAllo, hcall, Session.start]
  have hlegal : (Session.start (buddyStart t)).Legal (Op.alloc t.ctx.totalSize) :=
    h.shape.total_lt
  have hreach := Machine.Reaches.start.step
    (M := Session.client (buddyAllo a)) ⟨hlegal, trivial⟩ hexec
  rw [Session.afterAlloc_placed _ s (hptr ▸ hne)] at hreach
  have hinside := hconfined.blocks _ hreach _ List.mem_cons_self
  have hstop := hinside.right
  unfold Block.stop at hstop
  dsimp only at hstop
  omega

/-- An allocator over a caller's buffer stays inside it exactly for a power of two. -/
theorem buddy_confined_iff (hchild : C.Inv w L) (hne : buffer ≠ NULL)
    (hbuffer : Block.WellFormed ⟨buffer, size⟩)
    (hmake : makeBuddyAllocator out (some a) buffer size w = some (Made.ok st)) :
    BuddyConfined C L ⟨buffer, size⟩ st <-> exists k, size = 2 ^ k := by
  rcases makeBuddyAllocator_ok hchild hmake with ⟨t, rfl, hmade⟩
  constructor
  · intro hconfined
    rcases hmade.shape.rounded with ⟨k, _, htotal, _, hle, _⟩
    have htotalLe := hmade.total_le hne hconfined
    rw [htotal] at htotalLe
    exact ⟨k, Nat.le_antisymm hle htotalLe⟩
  · rintro ⟨k, rfl⟩
    exact hmade.confined hne hbuffer

end CallerBuffer

theorem buddy_confined_iff_sixtyfour :
    exists st, makeBuddyAllocator 8 (some bufAllo) 4096 64 bufOf512 = some (Made.ok st) ∧
      (BuddyConfined bufContract [] ⟨4096, 64⟩ st <-> exists k, 64 = 2 ^ k) := by
  have hmake : makeBuddyAllocator 8 (some bufAllo) 4096 64 bufOf512 =
      some (Made.ok _) := rfl
  exact ⟨_, hmake, buddy_confined_iff bufOf512_inv (by decide) (by decide) hmake⟩

/-- A buffer of 48 bytes is managed as if it had 64, and the second block of 32 bytes ends
behind it. -/
theorem buddy_leaves_buffer :
    exists st s, makeBuddyAllocator 8 (some bufAllo) 4096 48 bufOf512 =
        some (Made.ok st) ∧
      (Session.client (buddyAllo bufAllo)).Reaches (Session.start st) s ∧
        (⟨4128, 32⟩ : Block) ∈ s.live ∧ ¬ BuddyConfined bufContract [] ⟨4096, 48⟩ st := by
  have hcalls : exists st s₁ s₂,
      makeBuddyAllocator 8 (some bufAllo) 4096 48 bufOf512 = some (Made.ok st) ∧
        Session.exec (buddyAllo bufAllo) (Op.alloc 32) (Session.start st) = some s₁ ∧
          Session.exec (buddyAllo bufAllo) (Op.alloc 32) s₁ = some s₂ ∧
            s₂.live = [⟨4128, 32⟩, ⟨4096, 32⟩] :=
    ⟨_, _, _, rfl, rfl, rfl, rfl⟩
  rcases hcalls with ⟨st, s₁, s₂, hmake, hfirst, hsecond, hlive⟩
  have hlegal : forall s : Session (BuddyState BufState),
      (Session.client (buddyAllo bufAllo)).Legal s (Op.alloc 32) :=
    fun s => ⟨show 32 < 2 ^ 64 by decide, trivial⟩
  have hreach : (Session.client (buddyAllo bufAllo)).Reaches (Session.start st) s₂ :=
    (Machine.Reaches.start.step (hlegal _) hfirst).step (hlegal _) hsecond
  have hmem : (⟨4128, 32⟩ : Block) ∈ s₂.live := by
    rw [hlive]
    exact List.mem_cons_self
  refine ⟨st, s₂, hmake, hreach, hmem, ?_⟩
  intro hconfined
  exact absurd (hconfined.blocks s₂ hreach _ hmem) (by decide)

end Liballo
