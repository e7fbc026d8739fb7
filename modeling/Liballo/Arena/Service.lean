import Liballo.Arena.Integrity
import Liballo.Service

/-!
# The arena as a service

The sums that an arena computes do not wrap around if the sizes of a client, the block
size and a header sum up to an address.
-/

namespace Liballo

open Foundation
open ArenaBlock

variable {χ : Type} [HasMem χ] {a : Allo χ}

/-- The live blocks `L` lie in payloads of blocks of the child, which has handed out the
blocks `base` to others. -/
structure ArenaServes (S : Supply a) (base : List Block) (blockSize : Nat)
    (s : ArenaState χ) (L : List Block) : Prop where
  inv : exists blocks, ArenaInv S base s blocks ∧ ArenaLive (mem s) blocks L
  blockSize_eq : s.ctx.blockSize = blockSize

namespace ArenaServes

variable {S : Supply a} {base L blocks : List Block} {blockSize limit n : Nat}
variable {s s' : ArenaState χ} {b : Block}

theorem offset_le (h : ArenaInv S base s blocks) :
    offset (mem s) s.ctx.current ≤ s.ctx.blockSize := by
  rcases h.list.current with ⟨cur, hcur, hptr, hsize⟩
  have hle := h.list.offset_le cur hcur
  have hfull := h.list.size_eq cur hcur
  rw [hptr] at hle hfull
  omega

theorem alignedOffset_le (h : ArenaInv S base s blocks)
    (hlimit : s.ctx.blockSize + 8 ≤ 2 ^ 64) :
    arenaAlignedOffset s ≤ s.ctx.blockSize + 7 := by
  have hle := offset_le h
  unfold arenaAlignedOffset
  rw [alloAlignUp_eight (by omega)]
  omega

theorem sums (h : ArenaInv S base s blocks)
    (hn : s.ctx.blockSize + n + 32 ≤ 2 ^ 64) : ArenaSums s n := by
  have hle := alignedOffset_le h (by omega)
  constructor
  · intro _
    simp only [sizeofArenaBlock]
    omega
  · intro _
    omega

theorem reallocSums (h : ArenaInv S base s blocks)
    (hn : s.ctx.blockSize + n + 32 ≤ 2 ^ 64) (hb : b.ptr + b.size < 2 ^ 64) :
    ArenaReallocSums s b n := by
  refine ⟨fun hlast => ?_, fun _ _ => sums h hn⟩
  have hle := offset_le h
  rcases h.list.current with ⟨cur, hcur, hptr, _⟩
  have hbounds := h.bounds hcur
  rw [hptr] at hbounds
  have hstart : sizeAdd s.ctx.current sizeofArenaBlock =
      s.ctx.current + sizeofArenaBlock := sizeAdd_eq (by omega)
  have hend : sizeAdd (s.ctx.current + sizeofArenaBlock) (offset (mem s) s.ctx.current) =
      s.ctx.current + sizeofArenaBlock + offset (mem s) s.ctx.current :=
    sizeAdd_eq (by omega)
  simp only [arenaIsLast, hstart, hend, sizeAdd_eq hb, decide_eq_true_eq] at hlast
  have hoffset : arenaOffsetWithoutThis b.ptr s =
      b.ptr - (s.ctx.current + sizeofArenaBlock) := by
    unfold arenaOffsetWithoutThis
    rw [hstart]
    exact sizeSub_eq hlast.right (by omega)
  rw [hoffset]
  omega

theorem wellFormed (h : ArenaServes S base blockSize s L) : AllWellFormed L := by
  rcases h.inv with ⟨blocks, hinv, hlive⟩
  intro b hb
  rcases hinv.live_bounds hlive hb with ⟨hne, hend⟩
  exact ⟨Nat.pos_of_ne_zero hne, hlive.pos b hb, hend⟩

theorem perm (h : ArenaServes S base blockSize s L) {M : List Block} (hperm : L.Perm M) :
    ArenaServes S base blockSize s M := by
  rcases h.inv with ⟨blocks, hinv, hlive⟩
  have hmem : forall b, b ∈ M -> b ∈ L := fun b hb => hperm.mem_iff.mpr hb
  refine ⟨⟨blocks, hinv, ?_⟩, h.blockSize_eq⟩
  exact
    { disjoint := (allDisjoint_perm hperm).mp hlive.disjoint
      aligned := fun b hb => hlive.aligned b (hmem b hb)
      pos := fun b hb => hlive.pos b (hmem b hb)
      held := fun b hb => hlive.held b (hmem b hb) }

theorem alloc (haligned : forall w L, S.Inv w L -> forall b, b ∈ L -> 8 ∣ b.ptr)
    (h : ArenaServes S base blockSize s L) (hn : blockSize + n + 32 ≤ 2 ^ 64) :
    exists p s', alloAlloc (arenaAllo a) n s = some (p, s') ∧
      KeepsBytes L (mem s) (mem s') ∧
        (p = NULL ∧ ArenaServes S base blockSize s' L ∨
          p ≠ NULL ∧ ArenaServes S base blockSize s' (⟨p, n⟩ :: L)) := by
  rcases h.inv with ⟨blocks, hinv, hlive⟩
  have hsums : ArenaSums s n := sums hinv (by rw [h.blockSize_eq]; exact hn)
  rcases arenaAllocFn_outcome hinv hsums with ⟨p, s', hcall, hcase⟩
  refine ⟨p, s', hcall, ?_⟩
  rcases hcase with ⟨hnull, hinv', hgrows⟩ | ⟨blocks', hgrant⟩
  · refine ⟨hgrows.keeps hinv hlive, Or.inl ⟨hnull, ?_⟩⟩
    exact ⟨⟨blocks, hinv', arenaLive_extends hgrows hlive⟩,
      hgrows.blockSize.trans h.blockSize_eq⟩
  · refine ⟨hgrant.grows.keeps hinv hlive, Or.inr ⟨hgrant.bounds.left, ?_⟩⟩
    have hblocks := hgrant.inv.blocks_aligned haligned
    exact ⟨⟨blocks', hgrant.inv, arenaLive_grant hgrant hblocks hlive⟩,
      hgrant.grows.blockSize.trans h.blockSize_eq⟩

/-- Freed memory is not used again. -/
theorem free (h : ArenaServes S base blockSize s L) (b : Block) :
    exists s', alloFree (arenaAllo a) b.ptr b.size s = some s' ∧
      KeepsBytes (L.erase b) (mem s) (mem s') ∧
        ArenaServes S base blockSize s' (L.erase b) := by
  rcases h.inv with ⟨blocks, hinv, hlive⟩
  rcases arenaFreeFn_spec hinv b.ptr b.size with ⟨s', hcall, _, hctx, hbytes⟩
  have hsession : ArenaSessionInv S base ⟨s, L, []⟩ := ⟨blocks, hinv, hlive⟩
  rcases (arenaInv_afterFree hsession hcall).left with ⟨blocks', hinv', hlive'⟩
  refine ⟨s', hcall, fun c _ x _ => congrFun hbytes x, ⟨blocks', hinv', hlive'⟩, ?_⟩
  rw [hctx]
  exact h.blockSize_eq

theorem freeNull (h : ArenaServes S base blockSize s L) (n : Nat) :
    exists s', alloFree (arenaAllo a) NULL n s = some s' ∧
      KeepsBytes L (mem s) (mem s') ∧ ArenaServes S base blockSize s' L := by
  refine ⟨s, ?_, KeepsBytes.refl L _, h⟩
  simp [alloFree, arenaAllo, arenaFreeFn]


theorem realloc (haligned : forall w L, S.Inv w L -> forall b, b ∈ L -> 8 ∣ b.ptr)
    (h : ArenaServes S base blockSize s L) (hb : b ∈ L) (hpos : n ≠ 0)
    (hn : blockSize + n + 32 ≤ 2 ^ 64) :
    exists p s', (arenaAllo a).realloc b.ptr b.size n s = some (p, s') ∧
      Reallocated (ArenaServes S base blockSize) s L b n p s' := by
  rcases h.inv with ⟨blocks, hinv, hlive⟩
  have hsums : ArenaReallocSums s b n :=
    reallocSums hinv (by rw [h.blockSize_eq]; exact hn) (hinv.live_bounds hlive hb).right
  rcases arenaReallocFn_spec hinv hlive hb hsums with ⟨p, s', hcall, hout⟩
  have hkeeps := keepsBytes_arenaRealloc hinv hlive hout
  have hsize : s'.ctx.blockSize = blockSize := by
    rcases arenaReallocFn_inv hinv (fun hlt hnot => (hsums.right hlt hnot).alloc S) hcall
      with ⟨_, _, hsize⟩
    exact hsize.trans h.blockSize_eq
  have hlive' : ArenaLive (mem (⟨s, L, []⟩ : Session (ArenaState χ)).state) blocks L := hlive
  have hafter := arenaInv_afterRealloc haligned (s := ⟨s, L, []⟩) hinv hlive' hb hpos hout
  refine ⟨p, s', hcall, ?_⟩
  by_cases hp : p = NULL
  · subst hp
    rw [Session.afterRealloc_null _ b s' hpos] at hafter
    exact Or.inl ⟨rfl, ⟨hafter, hsize⟩, hkeeps⟩
  · rw [Session.afterRealloc_placed _ b s' hpos hp] at hafter
    refine Or.inr ⟨hp, ⟨hafter, hsize⟩, ?_, keepsPrefix_arenaRealloc hinv hlive hb hp hout⟩
    exact hkeeps.subset (fun c hc => List.mem_of_mem_erase hc)

theorem store (h : ArenaServes S base blockSize s L) {P : Nat -> Nat -> Prop} {m : Mem}
    (hw : Wrote P (mem s) m)
    (hP : forall x k, P x k -> exists b, b ∈ L ∧ Block.Inside ⟨x, k⟩ b) :
    ArenaServes S base blockSize (setMem m s) L := by
  rcases h.inv with ⟨blocks, hinv, hlive⟩
  have hpayload : forall x k, P x k ->
      exists b, b ∈ blocks ∧ Block.Inside ⟨x, k⟩ (payload b) := by
    intro x k hxk
    rcases hP x k hxk with ⟨b, hb, hinside⟩
    rcases hinv.live_inside hlive hb with ⟨c, hc, hin⟩
    exact ⟨c, hc, hinside.trans hin⟩
  refine ⟨⟨blocks, hinv.store_payload hw hpayload, ?_⟩, h.blockSize_eq⟩
  apply arenaLive_store hinv hlive _ hpayload
  rw [HasMem.mem_setMem]
  exact hw

end ArenaServes

/-- When an arena is destroyed, its child has every block back. -/
theorem ArenaServes.destroy {A : Lawful a} {base L : List Block} {blockSize : Nat}
    {s : ArenaState χ} (h : ArenaServes A.toSupply base blockSize s L) :
    exists s', alloDestroy (arenaAllo a) s = some s' ∧ A.Inv s'.child base := by
  rcases h.inv with ⟨blocks, hinv, _⟩
  rcases arenaDestroyFn_spec hinv with ⟨s', hcall, M, hperm, hchild⟩
  exact ⟨s', hcall, A.perm hchild hperm⟩

def arenaService (A : Lawful a) (base : List Block) (blockSize limit : Nat)
    (hlimit : blockSize + limit + 32 ≤ 2 ^ 64) : Service (arenaAllo a) limit where
  Inv := ArenaServes A.toSupply base blockSize
  Closed := fun s _ => A.Inv s.child base
  limit_le := Nat.le_trans (Nat.le_add_left limit blockSize) (Nat.le_of_add_right_le hlimit)
  wellFormed := fun h => h.wellFormed
  disjoint := fun h => h.inv.choose_spec.right.disjoint
  perm := fun h hperm => h.perm hperm
  alloc := fun h hn => h.alloc (fun _ _ hw _ hb => A.aligned hw hb) (by omega)
  free := fun h _ => h.free _
  freeNull := fun _ h => h.freeNull _
  realloc := fun h hb hpos _ hn =>
    h.realloc (fun _ _ hw _ hb => A.aligned hw hb) hb hpos (by omega)
  store := fun h hw hP => h.store hw hP
  destroy := fun h => h.destroy

/-- An arena that was made over a child is such a service. -/
theorem makeArenaAllocator_serves {A : Lawful a} {out blockSize : Nat} {w : χ}
    {base : List Block} (hchild : A.Inv w base) (hsum : blockSize + 32 ≤ 2 ^ 64) :
    exists made, makeArenaAllocator out (some a) blockSize w = some made ∧
      ((exists e w', made = Made.failed e w' ∧ A.Inv w' base) ∨
        exists st, made = Made.ok st ∧
          ArenaServes A.toSupply base blockSize st []) := by
  have hfits : sizeofArenaBlock + blockSize < 2 ^ 64 := by
    simp only [sizeofArenaBlock]
    omega
  have hstart : ArenaChild A.toSupply base w [] := ⟨base, List.Perm.refl _, hchild⟩
  rcases newArenaBlock_spec hstart hfits with ⟨p, w', hcall, _, hcase⟩
  have hmake : makeArenaAllocator out (some a) blockSize w =
      if out = NULL ∨ blockSize = 0 then some (Made.failed AlloError.inval w)
      else if p = NULL then some (Made.failed AlloError.nomem w')
      else some (Made.ok
        { ctx := { first := p, current := p, blockSize := blockSize }, child := w' }) := by
    simp only [makeArenaAllocator, hcall, Option.bind_eq_bind, Option.bind_some]
  by_cases hargs : out = NULL ∨ blockSize = 0
  · rw [if_pos hargs] at hmake
    exact ⟨_, hmake, Or.inl ⟨_, w, rfl, hchild⟩⟩
  · rw [if_neg hargs] at hmake
    rcases hcase with ⟨hnull, M, hperm, hinv⟩ | ⟨hne, _⟩
    · rw [if_pos hnull] at hmake
      exact ⟨_, hmake, Or.inl ⟨_, w', rfl, A.perm hinv hperm⟩⟩
    · rw [if_neg hne] at hmake
      rcases makeArenaAllocator_spec hchild hfits hmake with ⟨b, hinv, hsize⟩
      refine ⟨_, hmake, Or.inr ⟨_, rfl, ⟨[b], hinv, ?_⟩, hsize⟩⟩
      exact
        { disjoint := List.Pairwise.nil
          aligned := fun _ hl => absurd hl List.not_mem_nil
          pos := fun _ hl => absurd hl List.not_mem_nil
          held := fun _ hl => absurd hl List.not_mem_nil }

end Liballo
