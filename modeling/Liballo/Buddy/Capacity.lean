import Liballo.Buddy.Coalescing
import Liballo.Foundation.Capacity

/-!
# How much the buddy allocator can hold

Freed memory is merged again, but what is free may lie scattered. A request of order `k`
can be refused only where the live blocks take up every aligned place of `2 ^ k` bytes.
Blocks of one order are never in each other's way: the request is refused exactly when
as many of them are live as fit.
-/

namespace Liballo

open Foundation

/-- How many aligned places of `2 ^ k` bytes the blocks may take up. -/
def placesTaken (k : Nat) (L : List Block) : Nat :=
  (L.map (fun b => 2 ^ (getOrder b.size - k))).sum

section Room

variable {χ : Type} [HasMem χ] {asan : Prop} {depth level : Nat}
variable {s : BuddyState χ} {fl : Nat -> List Nat} {us : List Node} {n k : Nat}

/-- A request is granted where the used nodes leave a place of a level it fits in. -/
theorem BuddyInv.granted_of_room (h : BuddyInv asan depth s fl us) (hpos : n ≠ 0)
    (hlevel : level + s.ctx.order n ≤ s.ctx.maxOrder)
    (hfew : (takenPlaces level us).card < 2 ^ level) :
    exists p s' fl' m, buddyAllocFn n s = (p, s') ∧
      BuddyGranted asan depth s fl us n p s' fl' m := by
  have hmax := h.geom.maxOrder
  have horder := h.geom.order_eq n
  have hdepth : level ≤ depth := by omega
  rcases (h.tiled.exists_vacant_iff hdepth).mp (exists_vacant hdepth hfew) with
    ⟨f, hf, hle⟩
  rcases buddyAllocFn_spec h n with ⟨p, s', hcall, ⟨_, _, hwhy⟩ | ⟨fl', m, hgrant⟩⟩
  · rcases hwhy with hzero | hbig | hempty
    · exact absurd hzero hpos
    · omega
    · have hnil := hempty f.level (by omega)
      have hmem : f.index ∈ fl f.level := hf
      rw [hnil] at hmem
      cases hmem
  · exact ⟨p, s', fl', m, hcall, hgrant⟩

theorem BuddyGranted.ne_null {p : Nat} {s' : BuddyState χ} {fl' : Nat -> List Nat}
    {m : Node} (h : BuddyGranted asan depth s fl us n p s' fl' m)
    (hgeom : BuddyGeom depth s.ctx) : p ≠ NULL := by
  have hvalid := h.inv.tiled.used_valid m List.mem_cons_self
  rw [h.addr]
  exact Nat.ne_of_gt (hgeom.nodeBlock_wellFormed hvalid).left

omit [HasMem χ] in
/-- The places that blocks take up, counted from their sizes. -/
theorem BuddyGeom.takenPlaces_le {c : BuddyContext} {L : List Block}
    (h : BuddyGeom depth c) (hfits : forall b, b ∈ L -> c.order b.size ≤ c.maxOrder)
    (hk : 5 ≤ k) :
    (takenPlaces (c.maxOrder - k) (L.map c.blockNode)).card ≤ placesTaken k L := by
  have hcard := card_takenPlaces_le (c.maxOrder - k) (L.map c.blockNode)
  rw [List.map_map] at hcard
  refine Nat.le_trans hcard (Nat.le_of_eq ?_)
  unfold placesTaken
  congr 1
  apply List.map_congr_left
  intro b hb
  have hle := hfits b hb
  have horder := h.order_eq b.size
  show 2 ^ (c.maxOrder - k - (c.maxOrder - c.order b.size)) = 2 ^ (getOrder b.size - k)
  congr 1
  omega

/-- Nodes of one level that are apart from each other are no more than the level has. -/
theorem length_le_of_level (hvalid : forall m, m ∈ us -> m.Valid depth)
    (hapart : us.Pairwise Node.Apart) (hlevel : forall m, m ∈ us -> m.level = level) :
    us.length ≤ 2 ^ level := by
  have hnodup : (us.map Node.index).Nodup := by
    refine List.pairwise_map.mpr (hapart.imp_of_mem ?_)
    intro a b ha hb hab heq
    refine hab.left ?_
    have hsame : a = b := by
      cases a
      cases b
      cases heq
      exact congrArg (fun l => Node.mk l _) ((hlevel _ ha).trans (hlevel _ hb).symm)
    exact hsame ▸ Node.within_refl a
  have hsub : us.map Node.index ⊆ List.range (2 ^ level) := by
    intro i hi
    rcases List.mem_map.mp hi with ⟨m, hm, rfl⟩
    exact List.mem_range.mpr (hlevel m hm ▸ (hvalid m hm).right)
  have hlength := (hnodup.subperm hsub).length_le
  rwa [List.length_map, List.length_range] at hlength

/-- Where all live blocks have the order of the request, they fill the buffer. -/
theorem BuddyLive.refused_iff_full {live : List Block}
    (h : BuddyLive asan depth s fl live) (hpos : n ≠ 0)
    (hfits : s.ctx.order n ≤ s.ctx.maxOrder)
    (hsame : forall b, b ∈ live -> s.ctx.order b.size = s.ctx.order n) :
    (exists s', buddyAllocFn n s = (NULL, s')) <->
      live.length = 2 ^ (s.ctx.maxOrder - s.ctx.order n) := by
  have hgeom := h.inv.geom
  have horder := hgeom.order_eq n
  have hlevels : forall m, m ∈ live.map s.ctx.blockNode ->
      m.level = s.ctx.maxOrder - s.ctx.order n := by
    intro m hm
    rcases List.mem_map.mp hm with ⟨b, hb, rfl⟩
    exact congrArg (s.ctx.maxOrder - ·) (hsame b hb)
  have htiled := h.inv.tiled
  have hmost := length_le_of_level htiled.used_valid htiled.used_apart hlevels
  rw [List.length_map] at hmost
  constructor
  · rintro ⟨s', hnull⟩
    refine Nat.le_antisymm hmost (Nat.le_of_not_lt fun hlt => ?_)
    have hfew : (takenPlaces (s.ctx.maxOrder - s.ctx.order n)
        (live.map s.ctx.blockNode)).card < 2 ^ (s.ctx.maxOrder - s.ctx.order n) := by
      have hcount := hgeom.takenPlaces_le (fun b hb => (h.fits b hb).order)
        (k := s.ctx.order n) (by omega)
      refine Nat.lt_of_le_of_lt hcount (Nat.lt_of_le_of_lt (Nat.le_of_eq ?_) hlt)
      have hones : live.map (fun b => 2 ^ (getOrder b.size - s.ctx.order n)) =
          live.map (fun _ => 1) := by
        apply List.map_congr_left
        intro b hb
        have hb' := hgeom.order_eq b.size
        have heq := hsame b hb
        have hzero : getOrder b.size - s.ctx.order n = 0 := by omega
        rw [hzero, Nat.pow_zero]
      rw [placesTaken, hones, List.map_const', List.sum_replicate_nat, Nat.mul_one]
    rcases h.inv.granted_of_room hpos (by omega) hfew with ⟨p, t, fl', m, hcall, hgrant⟩
    rw [hnull] at hcall
    cases hcall
    exact hgrant.ne_null hgeom rfl
  · intro hfull
    rcases buddyAllocFn_spec h.inv n with ⟨p, t, hcall, ⟨rfl, _⟩ | ⟨fl', m, hgrant⟩⟩
    · exact ⟨t, hcall⟩
    · -- The new node would be one more than the level has.
      have hnew := hgrant.inv.tiled
      have hall : forall j, j ∈ m :: live.map s.ctx.blockNode ->
          j.level = s.ctx.maxOrder - s.ctx.order n := by
        intro j hj
        cases hj with
        | head => exact hgrant.level
        | tail _ hj => exact hlevels j hj
      have hlength := length_le_of_level hnew.used_valid hnew.used_apart hall
      rw [List.length_cons, List.length_map, hfull] at hlength
      exact absurd hlength (Nat.not_succ_le_self _)

end Room

section Runs

variable {χ : Type} [HasMem χ] {a : Allo χ}

/-- After any run, a request for `n` bytes of order at most `k` is served as long as the live
blocks leave one of the aligned places of `2 ^ k` bytes, and where they all have the order
of the request it is refused exactly when they fill the buffer. -/
theorem buddy_serves_while_room {C : Contract a} {out buffer size : Nat} {w : χ}
    {L : List Block} {st : BuddyState χ} {s : Session (BuddyState χ)} {n k : Nat}
    (hchild : C.Inv w L)
    (hmake : makeBuddyAllocator out (some a) buffer size w = some (Made.ok st))
    (hbuffer : buffer ≠ NULL -> Block.WellFormed ⟨buffer, st.ctx.totalSize⟩)
    (hreach : (Session.client (buddyAllo a)).Reaches (Session.start st) s)
    (hpos : n ≠ 0) (hle : s.state.ctx.order n ≤ k) (hmax : k ≤ s.state.ctx.maxOrder) :
    (placesTaken k s.live < 2 ^ (s.state.ctx.maxOrder - k) ->
      exists p s', alloAlloc (buddyAllo a) n s.state = some (p, s') ∧ p ≠ NULL) ∧
    ((forall b, b ∈ s.live -> s.state.ctx.order b.size = s.state.ctx.order n) ->
      ((exists s', alloAlloc (buddyAllo a) n s.state = some (NULL, s')) <->
        s.live.length = 2 ^ (s.state.ctx.maxOrder - s.state.ctx.order n))) := by
  rcases buddyLive_of_make hchild hmake hbuffer with ⟨depth, hlive⟩
  rcases buddy_run hlive hreach with ⟨fl, hrun⟩
  have horder := hrun.live.inv.geom.order_eq n
  constructor
  · intro hroom
    have hcount := hrun.live.inv.geom.takenPlaces_le
      (fun b hb => (hrun.live.fits b hb).order) (k := k) (by omega)
    rcases hrun.live.inv.granted_of_room hpos (by omega)
      (Nat.lt_of_le_of_lt hcount hroom) with ⟨p, s', _, _, hcall, hgrant⟩
    exact ⟨p, s', congrArg some hcall, hgrant.ne_null hrun.live.inv.geom⟩
  · intro hsame
    rw [← hrun.live.refused_iff_full hpos (Nat.le_trans hle hmax) hsame]
    exact exists_congr fun s' => ⟨fun h => Option.some.inj h, fun h => congrArg some h⟩

end Runs

/-- Two requests for twenty bytes fit in 64 bytes, a third one does not. -/
theorem buddy_serves_while_room_twenty : exists st,
    makeBuddyAllocator 8 (some bufAllo) NULL 64 bufOf512 = some (Made.ok st) ∧
      exists p s', alloAlloc (buddyAllo bufAllo) 20 st = some (p, s') ∧ p ≠ NULL := by
  have hmake : makeBuddyAllocator 8 (some bufAllo) NULL 64 bufOf512 =
      some (Made.ok _) := rfl
  refine ⟨_, hmake, ?_⟩
  exact (buddy_serves_while_room (s := Session.start _) (n := 20) (k := 5) bufOf512_inv
    hmake (fun hno => absurd rfl hno) Machine.Reaches.start (by decide) (by decide)
    (by decide)).left (by decide)

end Liballo
