import Liballo.Arena.Integrity

/-!
# Backing of arena blocks

An arena asks its child for the sum of the header and the payload of a block, and
compares sums of offsets and sizes with the size of the current block. Each of these
sums can wrap around. As long as none of them does, every block of the list is backed
by the child, and every pointer an arena answers lies in a payload.
-/

namespace Liballo

open Foundation
open ArenaBlock

section Backing

variable {χ : Type} [HasMem χ] {a : Allo χ}

/-!
# What has to fit
-/

def Refuses (a : Allo χ) (n : Nat) (w : χ) : Prop :=
  forall p w', alloAlloc a n w = some (p, w') -> p = NULL

/-- The sums of an allocation. A dedicated block whose size wraps around does no harm
if the child refuses it. -/
def ArenaAllocFits (a : Allo χ) (s : ArenaState χ) (n : Nat) : Prop :=
  (s.ctx.blockSize < n -> sizeofArenaBlock + n < 2 ^ 64 ∨
    Refuses a (sizeAdd sizeofArenaBlock n) s.child) ∧
  (n ≤ s.ctx.blockSize -> arenaAlignedOffset s + n < 2 ^ 64)

/-- The sums of a step. -/
def ArenaFits (a : Allo χ) (s : Session (ArenaState χ)) : Op -> Prop
  | Op.alloc n => ArenaAllocFits a s.state n
  | Op.realloc l n =>
      (arenaIsLast l.ptr l.size s.state = true ->
        arenaOffsetWithoutThis l.ptr s.state + n < 2 ^ 64) ∧
      (l.size < n -> ¬ (arenaIsLast l.ptr l.size s.state = true ∧
        arenaFitsInCurrent l.ptr n s.state = true) -> ArenaAllocFits a s.state n)
  | _ => True

/-- The child granted the block at `p` with at least the size its header needs. -/
def ArenaBacked (r : Recorded χ) (p : Nat) : Prop :=
  exists g, g ∈ r.granted ∧ g.ptr = p ∧ sizeofArenaBlock + size (mem r) p ≤ g.size

/-- `⟨p, n⟩` lies in the payload of a block of the list. -/
def InArenaPayload (s : ArenaState χ) (p n : Nat) : Prop :=
  exists ptrs, Chain (next (mem s)) s.ctx.first ptrs ∧
    exists b, b ∈ ptrs ∧
      Block.Inside ⟨p, n⟩ ⟨b + sizeofArenaBlock, size (mem s) b⟩

/-- Whatever non-null pointer the requested step answers lies in a payload. -/
def ArenaAnswersInside (a : Allo χ) (s : Session (ArenaState χ)) : Op -> Prop
  | Op.alloc n => forall p st, alloAlloc (arenaAllo a) n s.state = some (p, st) ->
      p ≠ NULL -> InArenaPayload st p n
  | Op.realloc l n => forall p st,
      alloRealloc (arenaAllo a) l.ptr l.size n s.state = some (p, st) ->
        p ≠ NULL -> InArenaPayload st p n
  | _ => True

/-!
# One call
-/

section Call

variable {S : Supply a} {base blocks : List Block} {s s' : ArenaState χ}

/-- The header of a new block, also of one that is too small for it. -/
theorem newArenaBlock_header {n p : Nat} {w w' : χ} (hn : n < 2 ^ 64)
    (hcall : newArenaBlock a n w = some (p, w')) (hp : p ≠ NULL) :
    next (mem w') p = NULL ∧ size (mem w') p = n ∧ offset (mem w') p = 0 := by
  rcases Option.bind_eq_some_iff.mp hcall with ⟨⟨q, w₁⟩, _, hrest⟩
  dsimp only at hrest
  split at hrest
  · cases hrest
    exact absurd rfl hp
  · cases hrest
    rw [mem_modifyMem]
    exact init_fields hn

theorem makeArenaAllocator_new {out blockSize : Nat} {w : χ} {st : ArenaState χ}
    (hmake : makeArenaAllocator out (some a) blockSize w = some (Made.ok st)) :
    newArenaBlock a blockSize w = some (st.ctx.first, st.child) ∧
      st.ctx.first ≠ NULL ∧ st.ctx.current = st.ctx.first ∧
        st.ctx.blockSize = blockSize := by
  unfold makeArenaAllocator at hmake
  dsimp only at hmake
  split at hmake
  · cases hmake
  · rcases Option.bind_eq_some_iff.mp hmake with ⟨⟨p, w'⟩, hcall, hrest⟩
    dsimp only at hrest
    split at hrest
    · cases hrest
    · rename_i hne
      cases hrest
      exact ⟨hcall, hne, rfl, rfl⟩

theorem newArenaBlock_refused {w : χ} {n : Nat} (h : ArenaChild S base w blocks)
    (hrefuses : Refuses a (sizeAdd sizeofArenaBlock n) w) :
    exists w', newArenaBlock a n w = some (NULL, w') ∧
      KeepsBytes blocks (mem w) (mem w') ∧ ArenaChild S base w' blocks := by
  rcases h.alloc (sizeAdd_lt sizeofArenaBlock n) with ⟨p, w', hcall, hkeeps, hcase⟩
  have hnull : p = NULL := hrefuses p w' hcall
  rcases hcase with ⟨_, hchild⟩ | ⟨hne, _⟩
  · refine ⟨w', ?_, hkeeps, hchild⟩
    simp [newArenaBlock, hcall, hnull]
  · exact absurd hnull hne

theorem arenaAllocFn_fits (h : ArenaInv S base s blocks) {n : Nat}
    (hfits : ArenaAllocFits a s n) :
    exists p s', arenaAllocFn a n s = some (p, s') ∧
      (p = NULL ∧ ArenaInv S base s' blocks ∨
        exists blocks', ArenaGrant S base s blocks n p s' blocks') := by
  by_cases hsums : ArenaSums s n
  · rcases arenaAllocFn_outcome h hsums with ⟨p, s', hcall, hcase⟩
    exact ⟨p, s', hcall, hcase.imp_left (fun hnull => ⟨hnull.left, hnull.right.left⟩)⟩
  · -- Only the size of a dedicated block can wrap around, and then it is refused.
    have hlarge : s.ctx.blockSize < n ∧ ¬ sizeofArenaBlock + n < 2 ^ 64 := by
      by_contra hno
      apply hsums
      constructor
      · intro hlt
        by_contra hwrap
        exact hno ⟨hlt, hwrap⟩
      · exact hfits.right
    have hrefuses := (hfits.left hlarge.left).resolve_left hlarge.right
    rcases newArenaBlock_refused h.child hrefuses with ⟨w, hcall, hkeeps, hchild⟩
    have hpos : n ≠ 0 := Nat.ne_of_gt (Nat.lt_of_le_of_lt (Nat.zero_le _) hlarge.left)
    refine ⟨NULL, { s with child := w }, ?_, Or.inl ⟨rfl, ?_⟩⟩
    · unfold arenaAllocFn
      rw [if_neg hpos]
      dsimp only
      rw [if_pos hlarge.left, hcall]
      rfl
    · exact ⟨h.list.keepsBytes hkeeps, hchild⟩

theorem ArenaInv.payload_eq (h : ArenaInv S base s blocks) {b : Block}
    (hb : b ∈ blocks) :
    payload b = ⟨b.ptr + sizeofArenaBlock, size (mem s) b.ptr⟩ := by
  have hsize := h.list.size_eq b hb
  unfold payload
  rw [hsize, Nat.add_sub_cancel_left]

theorem ArenaInv.inPayload (h : ArenaInv S base s blocks) {p n : Nat} {b : Block}
    (hb : b ∈ blocks) (hinside : Block.Inside ⟨p, n⟩ (payload b)) :
    InArenaPayload s p n := by
  rw [h.payload_eq hb] at hinside
  exact ⟨_, h.list.chain, b.ptr, List.mem_map_of_mem hb, hinside⟩

theorem ArenaGrant.inside {blocks' : List Block} {n p : Nat}
    (h : ArenaGrant S base s blocks n p s' blocks') :
    exists b, b ∈ blocks' ∧ Block.Inside ⟨p, n⟩ (payload b) := by
  rcases h.place with ⟨b, k, hb, hp, _, hend⟩
  have hused := h.inv.list.used_inside hb
  refine ⟨b, hb, ?_⟩
  simp only [Block.Inside, used, payload, Block.stop] at hused ⊢
  omega

/-- What a call of the arena leaves: the blocks of before are still there, and the
answer lies in a payload. -/
structure ArenaAnswered (S : Supply a) (base blocks : List Block) (n p : Nat)
    (s' : ArenaState χ) (blocks' : List Block) : Prop where
  inv : ArenaInv S base s' blocks'
  mono : forall b, b ∈ blocks -> b ∈ blocks'
  inside : p ≠ NULL -> exists b, b ∈ blocks' ∧ Block.Inside ⟨p, n⟩ (payload b)

theorem arenaAlloc_answered (h : ArenaInv S base s blocks) {n p : Nat}
    (hfits : ArenaAllocFits a s n) (hcall : arenaAllocFn a n s = some (p, s')) :
    exists blocks', ArenaAnswered S base blocks n p s' blocks' := by
  rcases arenaAllocFn_fits h hfits with ⟨q, t, hcall', hcase⟩
  rw [hcall] at hcall'
  cases hcall'
  rcases hcase with ⟨hnull, hinv⟩ | ⟨blocks', hgrant⟩
  · exact ⟨blocks,
      { inv := hinv
        mono := fun _ hb => hb
        inside := fun hne => absurd hnull hne }⟩
  · exact ⟨blocks',
      { inv := hgrant.inv
        mono := hgrant.grows.mono
        inside := fun _ => hgrant.inside }⟩

theorem arenaRealloc_answered (h : ArenaInv S base s blocks) {l : Block} {n p : Nat}
    (hl : exists b, b ∈ blocks ∧ l.Inside (payload b))
    (hlast : arenaIsLast l.ptr l.size s = true ->
      arenaOffsetWithoutThis l.ptr s + n < 2 ^ 64)
    (hfits : l.size < n -> ¬ (arenaIsLast l.ptr l.size s = true ∧
      arenaFitsInCurrent l.ptr n s = true) -> ArenaAllocFits a s n)
    (hcall : arenaReallocFn a l.ptr l.size n s = some (p, s')) :
    exists blocks', ArenaAnswered S base blocks n p s' blocks' := by
  rcases hl with ⟨b, hb, hinside⟩
  unfold arenaReallocFn at hcall
  split at hcall
  · -- In place: the new end was compared with the size of the current block.
    rename_i hplace
    cases hcall
    have hbound := (h.list.wellFormed b hb).right.right
    have hstop := (hinside.trans (h.list.payload_inside hb)).right
    have hlt : l.ptr + l.size < 2 ^ 64 := Nat.lt_of_le_of_lt hstop hbound
    have hinPlace := arenaLast_of_inPlace h hlt hplace.left hplace.right
      (hlast hplace.left)
    have hresized := arenaResizeLast_spec h hinPlace hplace.right
    rcases h.list.current with ⟨cur, hcur, hcurPtr, _⟩
    exact ⟨blocks,
      { inv := hresized.inv
        mono := fun _ hd => hd
        inside := fun _ => ⟨cur, hcur, hresized.inside h hcur hcurPtr⟩ }⟩
  rename_i hplace
  split at hcall
  · rename_i hle
    cases hcall
    have hsmaller : Block.Inside ⟨l.ptr, n⟩ l :=
      ⟨Nat.le_refl _, Nat.add_le_add_left hle l.ptr⟩
    exact ⟨blocks,
      { inv := h
        mono := fun _ hd => hd
        inside := fun _ => ⟨b, hb, hsmaller.trans hinside⟩ }⟩
  rename_i hle
  have hlt : l.size < n := Nat.not_le.mp hle
  rcases arenaAllocFn_fits h (hfits hlt hplace) with ⟨q, t, halloc, hcase⟩
  rw [halloc] at hcall
  simp only [Option.bind_eq_bind, Option.bind_some] at hcall
  split at hcall
  · rename_i hnull
    cases hcall
    rcases hcase with ⟨_, hinv⟩ | ⟨blocks', hgrant⟩
    · exact ⟨blocks,
        { inv := hinv
          mono := fun _ hd => hd
          inside := fun hne => absurd rfl hne }⟩
    · exact absurd hnull hgrant.bounds.left
  · rename_i hne
    rcases hcase with ⟨hnull, _⟩ | ⟨blocks', hgrant⟩
    · exact absurd hnull hne
    · rcases Option.bind_eq_some_iff.mp hcall with ⟨m, hcopy, heq⟩
      cases heq
      rw [alloMemcpy_inv hcopy]
      exact ⟨blocks',
        { inv := hgrant.copy_inv l.ptr (Nat.le_of_lt hlt)
          mono := hgrant.grows.mono
          inside := fun _ => hgrant.inside }⟩

/-- Through the wrapper, a block that keeps its size stays where it is and one whose
size becomes zero is freed. -/
theorem alloRealloc_answered (h : ArenaInv S base s blocks) {l : Block} {n p : Nat}
    (hl : exists b, b ∈ blocks ∧ l.Inside (payload b))
    (hlast : arenaIsLast l.ptr l.size s = true ->
      arenaOffsetWithoutThis l.ptr s + n < 2 ^ 64)
    (hfits : l.size < n -> ¬ (arenaIsLast l.ptr l.size s = true ∧
      arenaFitsInCurrent l.ptr n s = true) -> ArenaAllocFits a s n)
    (hcall : alloRealloc (arenaAllo a) l.ptr l.size n s = some (p, s')) :
    (n = 0 -> p = NULL) ∧ exists blocks', ArenaAnswered S base blocks n p s' blocks' := by
  have hptr : l.ptr ≠ NULL := by
    rcases hl with ⟨b, hb, hinside⟩
    have hstart := hinside.left
    simp only [payload, sizeofArenaBlock, NULL] at hstart ⊢
    omega
  rcases alloRealloc_cases hptr hcall with
    ⟨_, hnull, hfree⟩ | ⟨hne, hsame, rfl, rfl⟩ | ⟨hne, _, hpass⟩
  · rcases arenaFreeFn_spec h l.ptr l.size with ⟨t, hspec, hinv, _, _⟩
    have heq : some s' = some t := hfree.symm.trans hspec
    cases heq
    exact ⟨fun _ => hnull, blocks,
      { inv := hinv
        mono := fun _ hb => hb
        inside := fun hno => absurd hnull hno }⟩
  · rw [← hsame]
    exact ⟨fun hzero => absurd (hsame ▸ hzero) hne, blocks,
      { inv := h
        mono := fun _ hb => hb
        inside := fun _ => hl }⟩
  · exact ⟨fun hzero => absurd hzero hne, arenaRealloc_answered h hl hlast hfits hpass⟩

end Call

/-!
# Runs
-/

section Runs

variable {S : Supply a} {base : List Block} {s s' : Session (ArenaState χ)}

/-- Every live block lies in a payload. -/
def ArenaHeld (S : Supply a) (base : List Block) (s : Session (ArenaState χ)) : Prop :=
  exists blocks, ArenaInv S base s.state blocks ∧
    forall l, l ∈ s.live -> exists b, b ∈ blocks ∧ l.Inside (payload b)

theorem ArenaAnswered.held {blocks blocks' live : List Block} {n p : Nat}
    {st : ArenaState χ} (h : ArenaAnswered S base blocks n p st blocks')
    (hlive : forall l, l ∈ live -> exists b, b ∈ blocks ∧ l.Inside (payload b)) :
    forall l, l ∈ live -> exists b, b ∈ blocks' ∧ l.Inside (payload b) := by
  intro l hl
  rcases hlive l hl with ⟨b, hb, hinside⟩
  exact ⟨b, h.mono b hb, hinside⟩

theorem arenaHeld_step {op : Op} (h : ArenaHeld S base s) (hlegal : s.Legal op)
    (hfits : ArenaFits a s op)
    (hexec : Session.exec (arenaAllo a) op s = some s') : ArenaHeld S base s' := by
  rcases h with ⟨blocks, hinv, hlive⟩
  cases op with
  | alloc n =>
      rcases Session.exec_alloc hexec with ⟨p, st, hcall, rfl⟩
      rcases arenaAlloc_answered hinv hfits hcall with ⟨blocks', hdone⟩
      have hold := hdone.held hlive
      by_cases hp : p = NULL
      · subst hp
        rw [s.afterAlloc_null]
        exact ⟨blocks', hdone.inv, hold⟩
      · rw [s.afterAlloc_placed st hp]
        exact ⟨blocks', hdone.inv, List.forall_mem_cons.mpr ⟨hdone.inside hp, hold⟩⟩
  | free l =>
      rcases Session.exec_free hexec with ⟨st, hcall, rfl⟩
      rcases arenaFreeFn_spec hinv l.ptr l.size with ⟨t, hspec, hinv', _, _⟩
      have heq : some st = some t := hcall.symm.trans hspec
      cases heq
      exact ⟨blocks, hinv', fun d hd => hlive d (List.mem_of_mem_erase hd)⟩
  | realloc l n =>
      rcases Session.exec_realloc hexec with ⟨p, st, hcall, rfl⟩
      rcases alloRealloc_answered hinv (hlive l hlegal.left) hfits.left hfits.right
        hcall with ⟨_, blocks', hdone⟩
      have hold := hdone.held
        (fun d hd => hlive d (List.mem_of_mem_erase (a := d) (b := l) hd))
      by_cases hn : n = 0
      · subst hn
        rw [s.afterRealloc_zero]
        exact ⟨blocks', hdone.inv, hold⟩
      by_cases hp : p = NULL
      · subst hp
        rw [s.afterRealloc_null l st hn]
        exact ⟨blocks', hdone.inv, hdone.held hlive⟩
      · rw [s.afterRealloc_placed l st hn hp]
        exact ⟨blocks', hdone.inv, List.forall_mem_cons.mpr ⟨hdone.inside hp, hold⟩⟩
  | poke x v =>
      rw [Session.exec_poke hexec]
      refine ⟨blocks, ?_, hlive⟩
      rcases hlegal with ⟨l, hl, hx⟩
      rcases hlive l hl with ⟨b, hb, hinside⟩
      apply hinv.store_payload (P := fun y k => y = x ∧ k = 1)
      · exact Wrote.poke ⟨rfl, rfl⟩
      · rintro y k ⟨rfl, rfl⟩
        have hbyte : Block.Inside ⟨y, 1⟩ l := ⟨hx.left, hx.right⟩
        exact ⟨b, hb, hbyte.trans hinside⟩

theorem ArenaHeld.answersInside {op : Op} (h : ArenaHeld S base s)
    (hlegal : s.Legal op) (hfits : ArenaFits a s op) : ArenaAnswersInside a s op := by
  rcases h with ⟨blocks, hinv, hlive⟩
  cases op with
  | alloc n =>
      intro p st hcall hne
      rcases arenaAlloc_answered hinv hfits hcall with ⟨blocks', hdone⟩
      rcases hdone.inside hne with ⟨b, hb, hinside⟩
      exact hdone.inv.inPayload hb hinside
  | realloc l n =>
      intro p st hcall hne
      rcases alloRealloc_answered hinv (hlive l hlegal.left) hfits.left hfits.right
        hcall with ⟨_, blocks', hdone⟩
      rcases hdone.inside hne with ⟨b, hb, hinside⟩
      exact hdone.inv.inPayload hb hinside
  | free _ => trivial
  | poke _ _ => trivial

end Runs

/-!
# What the child granted
-/

section Granted

variable {S : Supply a} {base : List Block}

/-- The blocks of the list are those the child granted, with their exact sizes. -/
theorem ArenaInv.backed {blocks : List Block} {s : ArenaState (Recorded χ)}
    (h : ArenaInv (S.recording base) base s blocks) :
    exists ptrs, Chain (next (mem s)) s.ctx.first ptrs ∧
      forall p, p ∈ ptrs -> ArenaBacked s.child p := by
  refine ⟨_, h.list.chain, ?_⟩
  intro p hp
  rcases List.mem_map.mp hp with ⟨b, hb, rfl⟩
  have hgranted := h.perm_granted.left.mem_iff.mp hb
  exact ⟨b, hgranted, rfl, Nat.le_of_eq (h.list.size_eq b hb).symm⟩

theorem newArenaBlock_granted {n p : Nat} {r r' : Recorded χ}
    (hcall : newArenaBlock (recording a) n r = some (p, r')) (hp : p ≠ NULL) :
    r'.granted = ⟨p, sizeAdd sizeofArenaBlock n⟩ :: r.granted := by
  rcases Option.bind_eq_some_iff.mp hcall with ⟨⟨q, r₁⟩, halloc, hrest⟩
  rcases Option.bind_eq_some_iff.mp halloc with ⟨⟨q', w⟩, _, heq⟩
  cases heq
  dsimp only at hrest
  split at hrest
  · cases hrest
    exact absurd rfl hp
  · cases hrest
    rw [Recorded.grant_placed r _ w hp]
    rfl

/-- A new block is backed exactly if the sum of its header and its size does not wrap
around. -/
theorem newArenaBlock_backed_iff {L : List Block} {n p : Nat} {r r' : Recorded χ}
    (h : (S.recording base).Inv r L) (hn : n < 2 ^ 64)
    (hcall : newArenaBlock (recording a) n r = some (p, r')) (hp : p ≠ NULL) :
    ArenaBacked r' p <-> sizeofArenaBlock + n < 2 ^ 64 := by
  have hgranted := newArenaBlock_granted hcall hp
  have hsize := (newArenaBlock_header hn hcall hp).right.left
  constructor
  · intro hbacked
    rcases hbacked with ⟨g, hg, _, hle⟩
    rw [hsize] at hle
    rw [hgranted] at hg
    cases hg with
    | head => exact Nat.lt_of_le_of_lt hle (sizeAdd_lt sizeofArenaBlock n)
    | tail _ hold =>
        have hmem : g ∈ L := h.right.right.mem_iff.mp (List.mem_append_left base hold)
        have hstop := (S.wellFormed h.left g hmem).right.right
        exact Nat.lt_of_le_of_lt hle (Nat.lt_of_le_of_lt (Nat.le_add_left _ g.ptr) hstop)
  · intro hfits
    refine ⟨⟨p, sizeAdd sizeofArenaBlock n⟩, ?_, rfl, ?_⟩
    · rw [hgranted]
      exact List.mem_cons_self
    · rw [hsize, sizeAdd_eq hfits]

/-- The first block of an arena is backed exactly if its size did not wrap around. From
then on, in every run whose sums fit, all blocks of the list are backed and every
pointer that is answered lies in a payload; and a dedicated block that the child grants
is backed exactly if its size did not wrap around. -/
theorem arena_blocks_backed {w : χ} {out blockSize : Nat}
    {st : ArenaState (Recorded χ)} (hw : S.Inv w base)
    (hsize : blockSize < 2 ^ 64)
    (hmake : makeArenaAllocator out (some (recording a)) blockSize
      (Recorded.start w) = some (Made.ok st)) :
    (ArenaBacked st.child st.ctx.first <-> sizeofArenaBlock + blockSize < 2 ^ 64) ∧
    (sizeofArenaBlock + blockSize < 2 ^ 64 ->
      forall s, (Session.clientOf (arenaAllo (recording a))
          (ArenaFits (recording a))).Reaches (Session.start st) s ->
        (exists ptrs, Chain (next (mem s.state)) s.state.ctx.first ptrs ∧
          forall p, p ∈ ptrs -> ArenaBacked s.state.child p) ∧
        (forall op, s.Legal op -> ArenaFits (recording a) s op ->
          ArenaAnswersInside (recording a) s op) ∧
        forall n p r, n < 2 ^ 64 ->
          newArenaBlock (recording a) n s.state.child = some (p, r) -> p ≠ NULL ->
            (ArenaBacked r p <-> sizeofArenaBlock + n < 2 ^ 64)) := by
  have hstart : (S.recording base).Inv (Recorded.start w) base :=
    ⟨hw, rfl, List.Perm.refl base⟩
  constructor
  · rcases makeArenaAllocator_new hmake with ⟨hcall, hne, _, _⟩
    exact newArenaBlock_backed_iff hstart hsize hcall hne
  · intro hsum s hreach
    have hheld : ArenaHeld (S.recording base) base s := by
      refine hreach.invariant (ArenaHeld (S.recording base) base) ?_ ?_
      · rcases makeArenaAllocator_spec hstart hsum hmake with ⟨b, hinv, _⟩
        exact ⟨[b], hinv, fun l hl => absurd hl List.not_mem_nil⟩
      · intro s op s' hs hlegal hexec
        exact arenaHeld_step hs hlegal.left hlegal.right hexec
    refine ⟨?_, fun op hlegal hfits => hheld.answersInside hlegal hfits, ?_⟩
    · rcases hheld with ⟨blocks, hinv, _⟩
      exact hinv.backed
    · intro n p r hn hcall hne
      rcases hheld with ⟨blocks, hinv, _⟩
      rcases hinv.child with ⟨L, _, hchild⟩
      exact newArenaBlock_backed_iff hchild hn hcall hne

end Granted

end Backing

/-- An arena of 32-byte blocks over a fixed buffer: a first allocation lies in the
payload. -/
theorem arena_blocks_backed_start :
    exists st, makeArenaAllocator 8 (some (recording bufAllo)) 32
      (Recorded.start bufOf256) = some (Made.ok st) ∧
        ArenaAnswersInside (recording bufAllo) (Session.start st) (Op.alloc 20) := by
  have hmake : makeArenaAllocator 8 (some (recording bufAllo)) 32
      (Recorded.start bufOf256) = some (Made.ok _) := rfl
  have hsum : sizeofArenaBlock + 32 < 2 ^ 64 := by decide
  have hruns := (arena_blocks_backed (S := bufContract.toSupply) bufOf256_inv
    (by decide) hmake).right hsum _ Machine.Reaches.start
  have hlegal : (20 : Nat) < 2 ^ 64 := by decide
  refine ⟨_, hmake, hruns.right.left (Op.alloc 20) hlegal ?_⟩
  exact ⟨fun hno => absurd hno (by decide), fun _ => by decide⟩

/-- That arena serves a request of nearly the whole address space: 24 plus the size
wraps around to 8, the child grants 8 bytes at 120, and the payload behind their header
is answered. -/
theorem arena_block_unbacked :
    exists st st', makeArenaAllocator 8 (some (recording bufAllo)) 32
        (Recorded.start bufOf256) = some (Made.ok st) ∧
      alloAlloc (arenaAllo (recording bufAllo)) (2 ^ 64 - 16) st = some (144, st') ∧
      st'.child.granted = [⟨120, 8⟩, ⟨64, 56⟩] ∧ ¬ ArenaBacked st'.child 120 := by
  have hmake : makeArenaAllocator 8 (some (recording bufAllo)) 32
      (Recorded.start bufOf256) = some (Made.ok _) := rfl
  refine ⟨_, _, hmake, rfl, rfl, ?_⟩
  rintro ⟨g, hg, hptr, hle⟩
  have hgranted : g ∈ [(⟨120, 8⟩ : Block), ⟨64, 56⟩] := hg
  have hsmall : g.size = 8 := by
    cases hgranted with
    | head => rfl
    | tail _ htail =>
        rw [List.mem_singleton.mp htail] at hptr
        exact absurd hptr (by decide)
  rw [hsmall] at hle
  simp only [sizeofArenaBlock] at hle
  omega

end Liballo
