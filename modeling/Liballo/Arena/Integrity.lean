import Liballo.Arena.BlockList

/-!
# Integrity of arena allocations

Every live block lies in the used part of the payload of one arena block. The
last allocation of the current block is recognised by address arithmetic; since
the used parts of different arena blocks are apart, no other block is mistaken for
it, and resizing it moves nobody else's bytes.
-/

namespace Liballo

open Foundation
open ArenaBlock

section Integrity

variable {χ : Type} [HasMem χ] {a : Allo χ}
variable {S : Supply a} {base blocks live : List Block} {s : ArenaState χ}

/-!
# Live blocks
-/

structure ArenaLive (m : Mem) (blocks live : List Block) : Prop where
  disjoint : AllDisjoint live
  aligned : forall l, l ∈ live -> 8 ∣ l.ptr
  pos : forall l, l ∈ live -> 0 < l.size
  held : forall l, l ∈ live -> exists b, b ∈ blocks ∧ l.Inside (used m b)

namespace ArenaLive

variable {m : Mem}

theorem erase (h : ArenaLive m blocks live) (l : Block) :
    ArenaLive m blocks (live.erase l) :=
  { disjoint := h.disjoint.erase l
    aligned := fun d hd => h.aligned d (List.mem_of_mem_erase hd)
    pos := fun d hd => h.pos d (List.mem_of_mem_erase hd)
    held := fun d hd => h.held d (List.mem_of_mem_erase hd) }

/-- The invariant only depends on the offsets, which may grow. -/
theorem grows (h : ArenaLive m blocks live) {m' : Mem} {blocks' : List Block}
    (hsub : forall b, b ∈ blocks -> b ∈ blocks')
    (hle : forall b, b ∈ blocks -> offset m b.ptr ≤ offset m' b.ptr) :
    ArenaLive m' blocks' live := by
  refine ⟨h.disjoint, h.aligned, h.pos, ?_⟩
  intro l hl
  rcases h.held l hl with ⟨b, hb, hinside⟩
  have hoffset := hle b hb
  refine ⟨b, hsub b hb, hinside.trans ?_⟩
  constructor
  · exact Nat.le_refl _
  · simp only [used, Block.stop]
    omega

theorem cons (h : ArenaLive m blocks live) {p n : Nat} (hpos : 0 < n)
    (haligned : 8 ∣ p)
    (hheld : exists b, b ∈ blocks ∧ Block.Inside ⟨p, n⟩ (used m b))
    (hfresh : forall l, l ∈ live -> Block.Disjoint ⟨p, n⟩ l) :
    ArenaLive m blocks (⟨p, n⟩ :: live) := by
  refine ⟨List.pairwise_cons.mpr ⟨hfresh, h.disjoint⟩, ?_, ?_, ?_⟩
  · intro l hl
    cases hl with
    | head => exact haligned
    | tail _ hl => exact h.aligned l hl
  · intro l hl
    cases hl with
    | head => exact hpos
    | tail _ hl => exact h.pos l hl
  · intro l hl
    cases hl with
    | head => exact hheld
    | tail _ hl => exact h.held l hl

/-- Shrinking a block where it is. -/
theorem shrink (h : ArenaLive m blocks live) {l : Block} {n : Nat}
    (hl : l ∈ live) (hn : 0 < n) (hle : n ≤ l.size) :
    ArenaLive m blocks (⟨l.ptr, n⟩ :: live.erase l) := by
  have hinside : Block.Inside ⟨l.ptr, n⟩ l := by
    simp only [Block.Inside, Block.stop]
    omega
  apply (h.erase l).cons hn (h.aligned l hl)
  · rcases h.held l hl with ⟨b, hb, hheld⟩
    exact ⟨b, hb, hinside.trans hheld⟩
  · intro d hd
    exact hinside.disjoint (h.disjoint.disjoint_of_mem_erase hl hd)

end ArenaLive

/-- A live block lies in the payload of an arena block, so it has an address and
is apart from every header. -/
theorem ArenaInv.live_inside (h : ArenaInv S base s blocks)
    (hlive : ArenaLive (mem s) blocks live) {l : Block} (hl : l ∈ live) :
    exists b, b ∈ blocks ∧ l.Inside (payload b) := by
  rcases hlive.held l hl with ⟨b, hb, hinside⟩
  exact ⟨b, hb, hinside.trans (h.list.used_inside hb)⟩

theorem ArenaInv.live_bounds (h : ArenaInv S base s blocks)
    (hlive : ArenaLive (mem s) blocks live) {l : Block} (hl : l ∈ live) :
    l.ptr ≠ NULL ∧ l.ptr + l.size < 2 ^ 64 := by
  rcases h.live_inside hlive hl with ⟨b, hb, hinside⟩
  have hbound := h.bounds hb
  have hsize := h.list.size_eq b hb
  simp only [Block.Inside, payload, Block.stop, NULL] at hinside ⊢
  omega

theorem arenaLive_extends {s' : ArenaState χ} {blocks' : List Block}
    (h : ArenaExtends s blocks s' blocks')
    (hlive : ArenaLive (mem s) blocks live) :
    ArenaLive (mem s') blocks' live :=
  hlive.grows h.mono h.offset_le

/-- No payload byte of a live block changed. -/
theorem ArenaExtends.keeps {s' : ArenaState χ} {blocks' : List Block}
    (h : ArenaExtends s blocks s' blocks') (hinv : ArenaInv S base s blocks)
    (hlive : ArenaLive (mem s) blocks live) :
    KeepsBytes live (mem s) (mem s') := by
  intro l hl x hx
  rcases hinv.live_inside hlive hl with ⟨b, hb, hinside⟩
  exact h.kept b hb x (hinside.contains hx)

theorem ArenaGrant.fresh {s' : ArenaState χ} {blocks' : List Block} {n p : Nat}
    (h : ArenaGrant S base s blocks n p s' blocks')
    (hlive : ArenaLive (mem s) blocks live) {l : Block} (hl : l ∈ live) :
    Block.Disjoint ⟨p, n⟩ l := by
  rcases hlive.held l hl with ⟨b, hb, hinside⟩
  exact (hinside.disjoint (h.apart b hb)).symm

theorem ArenaGrant.bounds {s' : ArenaState χ} {blocks' : List Block} {n p : Nat}
    (h : ArenaGrant S base s blocks n p s' blocks') :
    p ≠ NULL ∧ p + n < 2 ^ 64 := by
  rcases h.place with ⟨b, k, hb, hp, _, hend⟩
  have hbound := h.inv.bounds hb
  simp only [NULL]
  omega

theorem arenaLive_grant {s' : ArenaState χ} {blocks' : List Block} {n p : Nat}
    (h : ArenaGrant S base s blocks n p s' blocks')
    (haligned : forall b, b ∈ blocks' -> 8 ∣ b.ptr)
    (hlive : ArenaLive (mem s) blocks live) :
    ArenaLive (mem s') blocks' (⟨p, n⟩ :: live) := by
  rcases h.place with ⟨b, k, hb, hp, hk, hend⟩
  apply (arenaLive_extends h.grows hlive).cons h.pos
  · rw [hp]
    exact Nat.dvd_add (Nat.dvd_add (haligned b hb) (by decide)) hk
  · refine ⟨b, hb, ?_⟩
    simp only [Block.Inside, used, Block.stop]
    omega
  · exact fun l hl => h.fresh hlive hl

/-!
# Resizing the last allocation
-/

/-- The block `l` is the last allocation of the current block, and `n` bytes fit
in its place. -/
structure ArenaLast (s : ArenaState χ) (l : Block) (n : Nat) : Prop where
  start : s.ctx.current + sizeofArenaBlock ≤ l.ptr
  stop : l.stop = s.ctx.current + sizeofArenaBlock +
    offset (mem s) s.ctx.current
  fits : l.ptr - (s.ctx.current + sizeofArenaBlock) + n ≤
    size (mem s) s.ctx.current
  off : sizeAdd (arenaOffsetWithoutThis l.ptr s) n =
    l.ptr - (s.ctx.current + sizeofArenaBlock) + n

theorem arenaLast_of_inPlace (h : ArenaInv S base s blocks) {l : Block} {n : Nat}
    (hl : l.ptr + l.size < 2 ^ 64) (hlast : arenaIsLast l.ptr l.size s = true)
    (hfits : arenaFitsInCurrent l.ptr n s = true)
    (hwrap : arenaOffsetWithoutThis l.ptr s + n < 2 ^ 64) :
    ArenaLast s l n := by
  rcases h.list.current with ⟨cur, hcur, hcurPtr, _⟩
  have hbound := h.bounds hcur
  rw [hcurPtr] at hbound
  have hstart : sizeAdd s.ctx.current sizeofArenaBlock =
      s.ctx.current + sizeofArenaBlock := sizeAdd_eq (by omega)
  have hend : sizeAdd (s.ctx.current + sizeofArenaBlock)
      (offset (mem s) s.ctx.current) = s.ctx.current + sizeofArenaBlock +
        offset (mem s) s.ctx.current := sizeAdd_eq (by omega)
  simp only [arenaIsLast, decide_eq_true_eq, hstart, hend, sizeAdd_eq hl] at hlast
  have hoff : arenaOffsetWithoutThis l.ptr s =
      l.ptr - (s.ctx.current + sizeofArenaBlock) := by
    unfold arenaOffsetWithoutThis
    rw [hstart]
    exact sizeSub_eq hlast.right (by omega)
  rw [arenaFitsInCurrent, decide_eq_true_eq, sizeAdd_eq hwrap, hoff] at hfits
  exact
    { start := hlast.right
      stop := hlast.left
      fits := hfits
      off := by rw [sizeAdd_eq hwrap, hoff] }

/-- What resizing the last allocation did. -/
structure ArenaResized (S : Supply a) (base : List Block) (s : ArenaState χ)
    (blocks : List Block) (l : Block) (n : Nat) (s' : ArenaState χ) :
    Prop where
  inv : ArenaInv S base s' blocks
  last : ArenaLast s l n
  offset_current : offset (mem s') s.ctx.current =
    l.ptr - (s.ctx.current + sizeofArenaBlock) + n
  offset_other : forall b, b ∈ blocks -> b.ptr ≠ s.ctx.current ->
    offset (mem s') b.ptr = offset (mem s) b.ptr
  kept : forall b, b ∈ blocks -> forall x, (payload b).Contains x ->
    (mem s').bytes x = (mem s).bytes x

theorem arenaResizeLast_spec (h : ArenaInv S base s blocks) {l : Block}
    {n : Nat} (hlast : ArenaLast s l n)
    (hfits : arenaFitsInCurrent l.ptr n s = true) :
    ArenaResized S base s blocks l n (arenaResizeLast l.ptr l.size n s) := by
  rcases h.list.current with ⟨cur, hcur, hcurPtr, _⟩
  have hbound := h.bounds hcur
  rw [hcurPtr] at hbound
  have hfit := hlast.fits
  have hmem : exists e : Event, e.WritesOnly (HeaderWrites blocks) ∧
      mem (arenaResizeLast l.ptr l.size n s) =
        (setOffset s.ctx.current
          (l.ptr - (s.ctx.current + sizeofArenaBlock) + n) (mem s)).note e := by
    simp only [arenaResizeLast, mem_modifyMem, hlast.off]
    refine ⟨_, ?_, rfl⟩
    split <;> trivial
  rcases hmem with ⟨e, he, hmem⟩
  refine
    { inv := arenaResizeLast_inv h hfits
      last := hlast
      offset_current := ?_
      offset_other := ?_
      kept := ?_ }
  · rw [hmem]
    exact Mem.word_writeWord_same (by omega)
  · intro b hb hne
    have hfar := h.list.header_apart hb hcur (by rw [hcurPtr]; exact hne)
    rw [hcurPtr] at hfar
    simp only [sizeofArenaBlock] at hfar
    rw [hmem]
    apply Mem.word_writeWord_disjoint
    omega
  · intro b hb x hx
    rw [hmem]
    have hwrote := wrote_setOffset (m := mem s) hcur
      (l.ptr - (s.ctx.current + sizeofArenaBlock) + n)
    rw [hcurPtr] at hwrote
    exact h.list.payload_bytes (hwrote.trans (Wrote.note he)) hb hx

namespace ArenaResized

variable {s' : ArenaState χ} {l d : Block} {n : Nat}

/-- The resized block stays inside the payload of the current arena block. -/
theorem inside (h : ArenaResized S base s blocks l n s')
    (hinv : ArenaInv S base s blocks) {cur : Block} (hcur : cur ∈ blocks)
    (hcurPtr : cur.ptr = s.ctx.current) :
    Block.Inside ⟨l.ptr, n⟩ (payload cur) := by
  have hstart := h.last.start
  have hfits := h.last.fits
  have hsize := hinv.list.size_eq cur hcur
  rw [hcurPtr] at hsize
  simp only [Block.Inside, payload, Block.stop, hcurPtr]
  omega

/-- Any other live block ends below the last allocation or lies in another arena
block. -/
theorem other_live (h : ArenaResized S base s blocks l n s')
    (hinv : ArenaInv S base s blocks) (hlive : ArenaLive (mem s) blocks live)
    (hl : l ∈ live) (hd : d ∈ live.erase l) :
    exists b, b ∈ blocks ∧ d.Inside (used (mem s') b) ∧
      Block.Disjoint ⟨l.ptr, n⟩ d := by
  have hdLive := List.mem_of_mem_erase hd
  have hdisj := hlive.disjoint.disjoint_of_mem_erase hl hd
  have hpos := hlive.pos d hdLive
  have hstart := h.last.start
  have hstop := h.last.stop
  rcases hlive.held d hdLive with ⟨b, hb, hheld⟩
  refine ⟨b, hb, ?_⟩
  by_cases hptr : b.ptr = s.ctx.current
  · have hset := h.offset_current
    have hbelow : d.stop ≤ l.ptr := by
      simp only [Block.Disjoint, Block.Inside, used, Block.stop, hptr] at *
      omega
    constructor
    · refine ⟨hheld.left, ?_⟩
      simp only [used, Block.stop, hptr, hset] at hbelow ⊢
      omega
    · exact Or.inr hbelow
  · have hset := h.offset_other b hb hptr
    constructor
    · unfold used
      rw [hset]
      exact hheld
    · rcases hinv.list.current with ⟨cur, hcur, hcurPtr, _⟩
      have hne : cur ≠ b := by
        intro heq
        subst heq
        exact hptr hcurPtr
      have hblocks := hinv.list.disjoint.disjoint_of_ne hcur hb hne
      have hlast := ((h.inside hinv hcur hcurPtr).trans
        (hinv.list.payload_inside hcur)).disjoint hblocks
      have hother := (hheld.trans (hinv.list.used_inside hb)).trans
        (hinv.list.payload_inside hb)
      exact (hother.disjoint hlast.symm).symm

theorem arenaLive (h : ArenaResized S base s blocks l n s')
    (hinv : ArenaInv S base s blocks) (hlive : ArenaLive (mem s) blocks live)
    (hl : l ∈ live) (hn : 0 < n) :
    ArenaLive (mem s') blocks (⟨l.ptr, n⟩ :: live.erase l) := by
  have hrest := hlive.erase l
  have hheld : ArenaLive (mem s') blocks (live.erase l) := by
    refine ⟨hrest.disjoint, hrest.aligned, hrest.pos, ?_⟩
    intro d hd
    rcases h.other_live hinv hlive hl hd with ⟨b, hb, hinside, _⟩
    exact ⟨b, hb, hinside⟩
  apply hheld.cons hn (hlive.aligned l hl)
  · rcases hinv.list.current with ⟨cur, hcur, hcurPtr, _⟩
    have hstart := h.last.start
    have hset := h.offset_current
    refine ⟨cur, hcur, ?_⟩
    simp only [Block.Inside, used, Block.stop, hcurPtr, hset]
    omega
  · intro d hd
    rcases h.other_live hinv hlive hl hd with ⟨_, _, _, hdisj⟩
    exact hdisj

end ArenaResized

/-!
# Reallocation
-/

/-- No sum of sizes in a call of `arenaAllocFn` wraps around. -/
def ArenaSums (s : ArenaState χ) (n : Nat) : Prop :=
  (s.ctx.blockSize < n -> sizeofArenaBlock + n < 2 ^ 64) ∧
    (n ≤ s.ctx.blockSize -> arenaAlignedOffset s + n < 2 ^ 64)

theorem ArenaSums.alloc (S : Supply a) {n : Nat} (h : ArenaSums s n) :
    ArenaAllocSums S s n :=
  ⟨h.left, fun hn => Or.inl (h.right hn)⟩

/-- A call that left the blocks of the arena alone. -/
theorem arenaExtends_of_keeps {s' : ArenaState χ}
    (h : ArenaInv S base s blocks) (hctx : s'.ctx = s.ctx)
    (hkeeps : KeepsBytes blocks (mem s) (mem s')) :
    ArenaExtends s blocks s' blocks := by
  refine ⟨by rw [hctx], fun _ hb => hb, ?_, ?_⟩
  · intro b hb
    apply Nat.le_of_eq
    symm
    apply Mem.word_congr
    intro x hx hlt
    apply hkeeps b hb x
    apply (h.list.header_inside hb).contains
    simp only [Block.Contains, header, Block.stop, sizeofArenaBlock]
    omega
  · exact fun b hb x hx =>
      hkeeps b hb x ((h.list.payload_inside hb).contains hx)

theorem arenaAllocFn_outcome (h : ArenaInv S base s blocks) {n : Nat}
    (hsums : ArenaSums s n) :
    exists p s', arenaAllocFn a n s = some (p, s') ∧
      (p = NULL ∧ ArenaInv S base s' blocks ∧ ArenaExtends s blocks s' blocks ∨
        exists blocks', ArenaGrant S base s blocks n p s' blocks') := by
  rcases arenaAllocFn_spec h (hsums.alloc S) with ⟨p, s', hcall, hout⟩
  refine ⟨p, s', hcall, ?_⟩
  cases hout with
  | failed hinv hctx hkeeps =>
      exact Or.inl ⟨rfl, hinv, arenaExtends_of_keeps h hctx hkeeps⟩
  | granted hgrant => exact Or.inr ⟨_, hgrant⟩
  | wrapped hwrap hn _ _ _ =>
      exact absurd (hsums.right hn) (Nat.not_lt.mpr hwrap)

/-- The sums a reallocation forms: the new end in the current block when the last
allocation is resized, and those of an allocation when the block has to move. -/
def ArenaReallocSums (s : ArenaState χ) (l : Block) (n : Nat) : Prop :=
  (arenaIsLast l.ptr l.size s = true ->
    arenaOffsetWithoutThis l.ptr s + n < 2 ^ 64) ∧
    (l.size < n -> ¬ (arenaIsLast l.ptr l.size s = true ∧
      arenaFitsInCurrent l.ptr n s = true) -> ArenaSums s n)

/-- The outcomes of a reallocation of the block `l`. -/
inductive ArenaReallocated (S : Supply a) (base : List Block)
    (s : ArenaState χ) (blocks : List Block) (l : Block) (n : Nat) :
    Nat -> ArenaState χ -> Prop where
  | resized {s' : ArenaState χ} :
      ArenaResized S base s blocks l n s' ->
      ArenaReallocated S base s blocks l n l.ptr s'
  | kept : n ≤ l.size -> ArenaReallocated S base s blocks l n l.ptr s
  | failed {s' : ArenaState χ} :
      ArenaInv S base s' blocks -> ArenaExtends s blocks s' blocks ->
      ArenaReallocated S base s blocks l n NULL s'
  | moved {p : Nat} {s' : ArenaState χ} {blocks' : List Block} :
      l.size < n -> ArenaGrant S base s blocks n p s' blocks' ->
      ArenaReallocated S base s blocks l n p
        (setMem ((mem s').copy p l.ptr l.size) s')

theorem arenaReallocFn_spec (h : ArenaInv S base s blocks)
    (hlive : ArenaLive (mem s) blocks live) {l : Block} {n : Nat}
    (hl : l ∈ live) (hsums : ArenaReallocSums s l n) :
    exists p s', arenaReallocFn a l.ptr l.size n s = some (p, s') ∧
      ArenaReallocated S base s blocks l n p s' := by
  unfold arenaReallocFn
  by_cases hplace : arenaIsLast l.ptr l.size s = true ∧
      arenaFitsInCurrent l.ptr n s = true
  · rw [if_pos hplace]
    have hlast := arenaLast_of_inPlace h (h.live_bounds hlive hl).right
      hplace.left hplace.right (hsums.left hplace.left)
    exact ⟨_, _, rfl, ArenaReallocated.resized
      (arenaResizeLast_spec h hlast hplace.right)⟩
  rw [if_neg hplace]
  by_cases hle : n ≤ l.size
  · rw [if_pos hle]
    exact ⟨_, _, rfl, ArenaReallocated.kept hle⟩
  rw [if_neg hle]
  have hlt : l.size < n := Nat.not_le.mp hle
  rcases arenaAllocFn_outcome h (hsums.right hlt hplace) with
    ⟨p, s', hcall, hcase⟩
  rw [hcall]
  rcases hcase with ⟨hnull, hinv, hgrows⟩ | ⟨blocks', hgrant⟩
  · refine ⟨NULL, s', ?_, ArenaReallocated.failed hinv hgrows⟩
    simp [hnull]
  · have hbounds := hgrant.bounds
    have hold := h.live_bounds hlive hl
    have hfresh := hgrant.fresh hlive hl
    have hcopy : alloMemcpy p l.ptr l.size (mem s') =
        some ((mem s').copy p l.ptr l.size) := by
      apply alloMemcpy_eq_some hbounds.left hold.left
      · omega
      · exact hold.right
      · simp only [Block.Disjoint, Block.stop] at hfresh
        omega
    refine ⟨p, _, ?_, ArenaReallocated.moved hlt hgrant⟩
    simp [hbounds.left, hcopy]

theorem keepsPrefix_arenaRealloc {s' : ArenaState χ} {l : Block} {n p : Nat}
    (hinv : ArenaInv S base s blocks) (hlive : ArenaLive (mem s) blocks live)
    (hl : l ∈ live) (hp : p ≠ NULL)
    (hout : ArenaReallocated S base s blocks l n p s') :
    KeepsPrefix l.ptr p (min l.size n) (mem s) (mem s') := by
  intro i hi
  have hi' : l.Contains (l.ptr + i) := by
    simp only [Block.Contains, Block.stop]
    omega
  cases hout with
  | resized hresized =>
      rcases hinv.live_inside hlive hl with ⟨b, hb, hinside⟩
      exact hresized.kept b hb _ (hinside.contains hi')
  | kept _ => rfl
  | failed _ _ => exact absurd rfl hp
  | moved hlt hgrant =>
      rw [HasMem.mem_setMem, Mem.copy_bytes_inside (by omega)]
      exact hgrant.grows.keeps hinv hlive l hl _ hi'

theorem keepsBytes_arenaRealloc {s' : ArenaState χ} {l : Block} {n p : Nat}
    (hinv : ArenaInv S base s blocks) (hlive : ArenaLive (mem s) blocks live)
    (hout : ArenaReallocated S base s blocks l n p s') :
    KeepsBytes live (mem s) (mem s') := by
  cases hout with
  | resized hresized =>
      intro d hd x hx
      rcases hinv.live_inside hlive hd with ⟨b, hb, hinside⟩
      exact hresized.kept b hb x (hinside.contains hx)
  | kept _ => exact KeepsBytes.refl _ _
  | failed _ hgrows => exact hgrows.keeps hinv hlive
  | moved hlt hgrant =>
      apply (hgrant.grows.keeps hinv hlive).trans
      rw [HasMem.mem_setMem]
      intro d hd x hx
      have hfresh := hgrant.fresh hlive hd
      apply Mem.copy_bytes_outside
      simp only [Block.Disjoint, Block.Contains, Block.stop] at hfresh hx
      omega

/-!
# Runs
-/

/-- The invariant of a client session. -/
def ArenaSessionInv (S : Supply a) (base : List Block)
    (s : Session (ArenaState χ)) : Prop :=
  exists blocks, ArenaInv S base s.state blocks ∧
    ArenaLive (mem s.state) blocks s.live

/-- Stores to payloads change no offset. -/
theorem arenaLive_store {s' : ArenaState χ} (h : ArenaInv S base s blocks)
    (hlive : ArenaLive (mem s) blocks live) {P : Nat -> Nat -> Prop}
    (hw : Wrote P (mem s) (mem s'))
    (hP : forall x n, P x n ->
      exists b, b ∈ blocks ∧ Block.Inside ⟨x, n⟩ (payload b)) :
    ArenaLive (mem s') blocks live := by
  apply hlive.grows (fun _ hb => hb)
  intro b hb
  apply Nat.le_of_eq
  symm
  apply hw.word_eq
  intro x n hxn
  rcases hP x n hxn with ⟨d, hd, hinside⟩
  have hdisj := (hinside.disjoint (h.list.header_payload_disjoint hb hd).symm)
  simp only [Block.Disjoint, header, Block.stop, sizeofArenaBlock] at hdisj
  omega

theorem ArenaInv.blocks_aligned (h : ArenaInv S base s blocks)
    (haligned : forall w L, S.Inv w L -> forall b, b ∈ L -> 8 ∣ b.ptr) :
    forall b, b ∈ blocks -> 8 ∣ b.ptr := by
  intro b hb
  rcases h.child with ⟨L, hL, hchild⟩
  exact haligned _ L hchild b (hL.mem_iff.mpr (List.mem_append_left base hb))

theorem arenaInv_afterRealloc {s : Session (ArenaState χ)} {l : Block}
    {n p : Nat} {st : ArenaState χ} {blocks : List Block}
    (haligned : forall w L, S.Inv w L -> forall b, b ∈ L -> 8 ∣ b.ptr)
    (hinv : ArenaInv S base s.state blocks)
    (hlive : ArenaLive (mem s.state) blocks s.live) (hl : l ∈ s.live)
    (hn : n ≠ 0) (hout : ArenaReallocated S base s.state blocks l n p st) :
    ArenaSessionInv S base (s.afterRealloc l n p st) := by
  have hptr := (hinv.live_bounds hlive hl).left
  have hpos := Nat.pos_of_ne_zero hn
  cases hout with
  | resized hresized =>
      rw [s.afterRealloc_placed l st hn hptr]
      exact ⟨blocks, hresized.inv, hresized.arenaLive hinv hlive hl hpos⟩
  | kept hle =>
      rw [s.afterRealloc_placed l _ hn hptr]
      exact ⟨blocks, hinv, hlive.shrink hl hpos hle⟩
  | failed hinv' hgrows =>
      rw [s.afterRealloc_null l st hn]
      exact ⟨blocks, hinv', arenaLive_extends hgrows hlive⟩
  | moved hlt hgrant =>
      rename_i s' blocks'
      rw [s.afterRealloc_placed l _ hn hgrant.bounds.left]
      have hblocks := hgrant.inv.blocks_aligned haligned
      refine ⟨blocks', hgrant.copy_inv l.ptr (Nat.le_of_lt hlt), ?_⟩
      have hplaced := arenaLive_grant hgrant hblocks (hlive.erase l)
      show ArenaLive (mem (setMem _ s')) blocks' _
      apply arenaLive_store hgrant.inv hplaced
        (P := fun x k => x = p ∧ k = l.size)
      · rw [HasMem.mem_setMem]
        exact Wrote.copy ⟨rfl, rfl⟩
      · intro x k hxk
        rcases hgrant.place with ⟨b, o, hb, hp, _, hend⟩
        have hused := hgrant.inv.list.used_inside hb
        refine ⟨b, hb, ?_⟩
        simp only [Block.Inside, used, payload, Block.stop] at hused ⊢
        omega

/-- Freeing only takes the block off the live list. -/
theorem arenaInv_afterFree {s : Session (ArenaState χ)} {l : Block}
    {st : ArenaState χ} (h : ArenaSessionInv S base s)
    (hcall : arenaFreeFn l.ptr l.size s.state = some st) :
    ArenaSessionInv S base (s.afterFree l st) ∧
      (mem st).bytes = (mem s.state).bytes := by
  rcases h with ⟨blocks, hinv, hlive⟩
  rcases arenaFreeFn_spec hinv l.ptr l.size with ⟨t, hspec, hinv', _, hbytes⟩
  have heq : some st = some t := hcall.symm.trans hspec
  cases heq
  refine ⟨⟨blocks, hinv', ?_⟩, hbytes⟩
  apply (hlive.erase l).grows (fun _ hb => hb)
  intro b _
  apply Nat.le_of_eq
  symm
  exact Mem.word_congr (fun x _ _ => congrFun hbytes x)

end Integrity

end Liballo
