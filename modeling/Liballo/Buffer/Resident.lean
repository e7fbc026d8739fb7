import Liballo.Buffer.Service
import Liballo.Fallback.Spill
import Liballo.Stack

/-!
# Fixed buffers that spill over

A fixed buffer lives in a block that the client took from some stack of allocators. What
does not fit in the buffer goes to the stack.
-/

namespace Liballo

open Foundation

/-!
# A fixed buffer is a resident of its block
-/

section FixedBuffer

variable {s s' : BufState} {L : List Block} {region b : Block} {n p limit : Nat}

theorem wrote_bufAllocFn (P : Nat -> Nat -> Prop) (h : bufAllocFn n s = some (p, s')) :
    Wrote P (mem s) (mem s') := by
  unfold bufAllocFn at h
  split at h
  · cases h
    exact Wrote.refl P _
  · split at h
    · cases h
    · dsimp only at h
      split at h
      · cases h
        exact Wrote.refl P _
      · cases h
        exact Wrote.note trivial

theorem wrote_bufResizeLast (P : Nat -> Nat -> Prop) (ptr old new : Nat) (s : BufState) :
    Wrote P (mem s) (mem (bufResizeLast ptr old new s)) := by
  unfold bufResizeLast
  show Wrote P s.mem _
  split
  · exact Wrote.note trivial
  · exact Wrote.note trivial

/-- Only the copy of a moved block is stored, into the new block. -/
theorem wrote_bufReallocFn (hok : BufOk s.ctx) {ptr old : Nat}
    (h : bufReallocFn ptr old n s = some (p, s')) :
    Wrote (WritesIn s.ctx.region) (mem s) (mem s') := by
  unfold bufReallocFn at h
  dsimp only at h
  split at h
  · cases h
    exact wrote_bufResizeLast _ p old n s
  · split at h
    · cases h
      exact Wrote.refl _ _
    · rename_i hgrows
      rcases bufAllocFn_spec (n := n) hok with ⟨q, t, hcall, hcase⟩
      simp only [hcall, Option.bind_eq_bind, Option.bind_some] at h
      rcases hcase with ⟨hnull, hsame⟩ | ⟨start, hplaced⟩
      · rw [if_pos hnull] at h
        cases h
        exact wrote_bufAllocFn _ hcall
      · have hbounds := hok.bounds
        have hptr := hplaced.ptr
        have hfits := hplaced.fits
        have hne : q ≠ NULL := by
          simp only [NULL]
          omega
        rw [if_neg hne] at h
        rcases Option.bind_eq_some_iff.mp h with ⟨m, hcopy, hdone⟩
        cases hdone
        rw [alloMemcpy_some hcopy]
        apply (wrote_bufAllocFn _ hcall).trans
        apply Wrote.copy
        constructor
        · simp only [BufContext.region]
          omega
        · simp only [BufContext.region, Block.stop]
          omega

/-- The fixed buffer is the block `region`. -/
structure BufResides (region : Block) (s : BufState) (L : List Block) : Prop where
  serves : FixedBufServes region.size s L
  region_eq : s.ctx.region = region

namespace BufResides

theorem ok (h : BufResides region s L) : BufOk s.ctx := by
  rcases h.serves.inv with ⟨placed, hinv⟩
  exact hinv.ok

theorem inside (h : BufResides region s L) (hb : b ∈ L) : b.Inside region := by
  rcases h.serves.inv with ⟨placed, hinv⟩
  have hstart := hinv.start_le b hb
  have hstop := hinv.stop_le b hb
  have hoffset := hinv.ok.offset_le
  rw [← h.region_eq]
  constructor
  · exact hstart
  · simp only [BufContext.region, Block.stop] at hstop ⊢
    omega

theorem contains (x : Nat) (h : BufResides region s L) :
    alloContains bufAllo x s =
      some (if region.Contains x then AlloContains.yes else AlloContains.no) := by
  have hsum : sizeAdd s.ctx.buffer s.ctx.size = s.ctx.buffer + s.ctx.size :=
    sizeAdd_eq h.ok.bounds.right
  rw [← h.region_eq]
  show some (bufContainsFn x s) = _
  unfold bufContainsFn
  rw [hsum]
  rfl

theorem alloc (h : BufResides region s L) (n : Nat) :
    exists p s', alloAlloc bufAllo n s = some (p, s') ∧ KeepsBytes L (mem s) (mem s') ∧
      (p = NULL ∧ BufResides region s' L ∨
        p ≠ NULL ∧ BufResides region s' (⟨p, n⟩ :: L)) := by
  rcases h.serves.alloc n with ⟨p, s', hcall, hkeeps, hcase⟩
  have hregion : s'.ctx.region = region := (bufAllocFn_region hcall).trans h.region_eq
  refine ⟨p, s', hcall, hkeeps, ?_⟩
  rcases hcase with ⟨hnull, hserves⟩ | ⟨hne, hserves⟩
  · exact Or.inl ⟨hnull, hserves, hregion⟩
  · exact Or.inr ⟨hne, hserves, hregion⟩

theorem free (h : BufResides region s L) (b : Block) :
    exists s', alloFree bufAllo b.ptr b.size s = some s' ∧
      KeepsBytes (L.erase b) (mem s) (mem s') ∧ BufResides region s' (L.erase b) := by
  rcases h.serves.free b with ⟨s', hcall, hkeeps, hserves⟩
  refine ⟨s', hcall, hkeeps, hserves, ?_⟩
  cases hcall
  rw [bufFreeFn_ctx]
  exact h.region_eq

theorem freeNull (h : BufResides region s L) (n : Nat) :
    exists s', alloFree bufAllo NULL n s = some s' ∧ KeepsBytes L (mem s) (mem s') ∧
      BufResides region s' L := by
  refine ⟨s, ?_, KeepsBytes.refl L _, h⟩
  simp [alloFree, bufAllo, bufFreeFn]

theorem realloc (h : BufResides region s L) (hb : b ∈ L) (hpos : n ≠ 0)
    (hn : region.size + n < 2 ^ 64) :
    exists p s', bufAllo.realloc b.ptr b.size n s = some (p, s') ∧
      Reallocated (BufResides region) s L b n p s' := by
  rcases h.serves.realloc hb hpos hn with ⟨p, s', hcall, hcase⟩
  have hregion : s'.ctx.region = region := (bufReallocFn_region hcall).trans h.region_eq
  refine ⟨p, s', hcall, ?_⟩
  rcases hcase with ⟨hnull, hserves, hkeeps⟩ | ⟨hne, hserves, hkeeps⟩
  · exact Or.inl ⟨hnull, ⟨hserves, hregion⟩, hkeeps⟩
  · exact Or.inr ⟨hne, ⟨hserves, hregion⟩, hkeeps⟩

theorem wrote_free (h : alloFree bufAllo b.ptr b.size s = some s') :
    Wrote (WritesIn region) (mem s) (mem s') := by
  cases h
  unfold bufFreeFn
  split
  · exact Wrote.note trivial
  · exact Wrote.refl _ _

theorem wrote_realloc (h : BufResides region s L)
    (hcall : bufAllo.realloc b.ptr b.size n s = some (p, s')) :
    Wrote (WritesIn region) (mem s) (mem s') := by
  rw [← h.region_eq]
  exact wrote_bufReallocFn h.ok hcall

end BufResides

/-- A fixed buffer is a resident of its buffer. -/
def bufResident (region : Block) (limit : Nat) (hlimit : region.size + limit ≤ 2 ^ 64) :
    Resident bufAllo limit region where
  Inv := BufResides region
  Closed := fun _ _ => True
  limit_le := Nat.le_of_add_left_le hlimit
  wellFormed := fun h => h.serves.inv.choose_spec.wellFormed
  disjoint := fun h => h.serves.inv.choose_spec.disjoint
  perm := fun h hperm => ⟨h.serves.perm hperm, h.region_eq⟩
  alloc := fun h _ => h.alloc _
  free := fun h _ => h.free _
  freeNull := fun _ h => h.freeNull _
  realloc := fun h hb hpos _ hn =>
    h.realloc hb hpos (Nat.lt_of_lt_of_le (Nat.add_lt_add_left hn region.size) hlimit)
  store := fun h _ _ => ⟨⟨h.serves.inv, h.serves.size_eq⟩, h.region_eq⟩
  destroy := fun _ => ⟨_, rfl, trivial⟩
  inside := fun h hb => h.inside hb
  contains := BufResides.contains
  wrote_alloc := fun _ hcall => wrote_bufAllocFn _ hcall
  wrote_free := fun _ _ hcall => BufResides.wrote_free hcall
  wrote_realloc := fun h _ _ _ hcall => h.wrote_realloc hcall
  congr := fun h _ => ⟨⟨h.serves.inv, h.serves.size_eq⟩, h.region_eq⟩

/-- A new fixed buffer in a block of some allocator is a resident of the block. -/
theorem bufResides_of_make {out : Nat} {m : Mem} (hregion : region.WellFormed)
    (hmake : makeFixedBufAllocator out region.ptr region.size m = Except.ok s) :
    BufResides region s [] ∧ mem s = m.note (Event.poison region.ptr region.size) := by
  refine ⟨⟨fixedBufServes_of_make hregion hmake, ?_⟩, ?_⟩
  · rw [(makeFixedBufAllocator_ok hmake).right]
    rfl
  · rw [(makeFixedBufAllocator_ok hmake).right]
    rfl

end FixedBuffer

/-!
# A fixed buffer that spills over to a stack
-/

section Stacks

variable {χ : Type} [HasMem χ]

/-- A client takes a buffer from the top of a stack. `near` and `out` are where the
interfaces of the fixed buffer and the fallback allocator are made. -/
def makeSpill (near out size : Nat) (a : Allo χ) (w : χ) (ls : List Layer) :
    Option (Made (SpillState BufState (StackState χ ls)) χ) := do
  match ← makeStack a w ls with
  | Made.failed e w => some (Made.failed e w)
  | Made.ok s => do
      let (buffer, s) ← alloAlloc (stackAllo a ls) size s
      match makeFixedBufAllocator near buffer size (mem s) with
      | Except.error e => do
          let w ← destroyStack a ls s
          some (Made.failed e w)
      | Except.ok t =>
          let primary := nearPart.allo bufAllo
          let fallback := farPart.allo (stackAllo a ls)
          match makeFallbackAllocator out (some primary) (some fallback) with
          | Except.error e => do
              let w ← destroyStack a ls s
              some (Made.failed e w)
          | Except.ok _ => some (Made.ok { near := t, child := setMem (mem t) s })

/-- What comes of it, for requests of fewer than `limit` bytes. -/
def SpillMade (near out size limit : Nat) (a : Allo χ) (ls : List Layer)
    (Closed : χ -> Prop) (w : χ) : Prop :=
  exists made, makeSpill near out size a w ls = some made ∧
    ((exists e w', made = Made.failed e w' ∧ Closed w') ∨
      exists st, made = Made.ok st ∧
        forall es s, (objectStore limit).LegalAll [] es ->
          Dialogue (perform (spillAllo bufAllo (stackAllo a ls))) st es s ->
            KeepsObjects (spillAllo bufAllo (stackAllo a ls)) limit es s ∧
              exists w', destroyStack a ls s.child = some w' ∧ Closed w')

variable {a : Allo χ} {near out size limit : Nat} {w : χ} {ls : List Layer}

/-- The new fallback allocator has handed out nothing. -/
theorem spilt_start (A : Lawful a) {region : Block} {s : χ} {t : BufState}
    (hlimit : region.size + limit ≤ 2 ^ 64) (h : A.Inv s [region])
    (hmake : makeFixedBufAllocator near region.ptr region.size (mem s) = Except.ok t) :
    Spilt (bufResident region limit hlimit) A [] { near := t, child := setMem (mem t) s }
      [] [] := by
  have hregion := A.wellFormed h region List.mem_cons_self
  rcases bufResides_of_make hregion hmake with ⟨hresides, hmem⟩
  constructor
  · have hget : nearPart.get (⟨t, setMem (mem t) s⟩ : SpillState BufState χ) = t := by
      simp [nearPart]
    rw [hget]
    exact hresides
  · rw [hmem]
    exact A.toContract.note h trivial

/-- Either way everything is given back in the end. -/
theorem spillMade_of_lawful (A : Lawful a) (hlimit : size + limit < 2 ^ 64)
    (hfits : forall l, l ∈ ls -> l.Fits) (hleaf : A.Inv w []) :
    SpillMade near out size limit a ls (fun w => exists L, A.Closed w L) w := by
  have hclose : forall {s : StackState χ ls} {L : List Block}, (stackLawful A ls).Inv s L ->
      exists w, destroyStack a ls s = some w ∧ exists L, A.Closed w L := by
    intro s L h
    rcases destroyStack_closed A h with ⟨w, hcall, hclosed⟩
    exact ⟨w, hcall, _, hclosed⟩
  rcases makeStack_serves A hfits hleaf with
    ⟨made, hmake, ⟨e, w', rfl, hclosed⟩ | ⟨s, rfl, hserves⟩⟩
  · refine ⟨Made.failed e w', ?_, Or.inl ⟨e, w', rfl, _, hclosed⟩⟩
    simp only [makeSpill, hmake, Option.bind_eq_bind, Option.bind_some]
  · have hsize : size < 2 ^ 64 := Nat.lt_of_le_of_lt (Nat.le_add_right size limit) hlimit
    rcases (stackLawful A ls).alloc hserves hsize with ⟨buffer, s', hcall, _, hcase⟩
    have hstays : exists L, (stackLawful A ls).Inv s' L := by
      rcases hcase with ⟨_, hinv⟩ | ⟨_, hinv⟩
      · exact ⟨_, hinv⟩
      · exact ⟨_, hinv⟩
    rcases hstays with ⟨L, hinv⟩
    rcases hclose hinv with ⟨w', hdestroy, hclosed⟩
    cases hbuf : makeFixedBufAllocator near buffer size (mem s') with
    | error e =>
        refine ⟨Made.failed e w', ?_, Or.inl ⟨e, w', rfl, hclosed⟩⟩
        simp only [makeSpill, hmake, hcall, hbuf, hdestroy, Option.bind_eq_bind,
          Option.bind_some]
    | ok t =>
        by_cases hout : out = NULL
        · refine ⟨Made.failed AlloError.inval w', ?_, Or.inl ⟨_, w', rfl, hclosed⟩⟩
          simp only [makeSpill, hmake, hcall, hbuf, makeFallbackAllocator, if_pos hout,
            hdestroy, Option.bind_eq_bind, Option.bind_some]
        · have hnew : (stackLawful A ls).Inv s' [⟨buffer, size⟩] := by
            rcases hcase with ⟨hnull, _⟩ | ⟨_, hinv⟩
            · rw [makeFixedBufAllocator, if_pos (Or.inr (Or.inl hnull))] at hbuf
              cases hbuf
            · exact hinv
          have hstart := spilt_start (stackLawful A ls) (Nat.le_of_lt hlimit) hnew hbuf
          refine ⟨_, ?_, Or.inr ⟨⟨t, setMem (mem t) s'⟩, rfl, fun es s hlegal hrun => ?_⟩⟩
          · simp only [makeSpill, hmake, hcall, hbuf, makeFallbackAllocator, if_neg hout,
              Option.bind_eq_bind, Option.bind_some]
          · let S := spillService (bufResident ⟨buffer, size⟩ limit (Nat.le_of_lt hlimit))
              (stackLawful A ls) []
            rcases S.dialogue ⟨[], [], List.Perm.refl _, hstart⟩ hlegal hrun with
              ⟨hobjects, near', far', _, hspilt⟩
            exact ⟨hobjects, hclose hspilt.far⟩

end Stacks

/-- A fixed buffer in a block of any stack on the page allocator, backed by the stack, keeps
the objects of its client wherever they lie, and all mappings go back in the end. -/
theorem pageSpill_keeps {os : Os} {near out backing size limit : Nat} {m : Mem}
    {page : PageState} {ls : List Layer}
    (hpage : exists k, 4 ≤ k ∧ k < 64 ∧ os.pageSize = 2 ^ k) (hos : Os.Aligned os)
    (hlimit : size + limit < 2 ^ 64) (hfits : forall l, l ∈ ls -> l.Fits)
    (hmake : makePageAllocator os backing m = Made.ok page) :
    SpillMade near out size limit (pageAllo os) ls
      (fun s => (liveMaps (mem s).trace).Perm (liveMaps m.trace)) page := by
  have hlive := makePageAllocator_spec hpage hmake
  have hclosed : forall s : PageState,
      (exists L, (pageLawful os hos (liveMaps m.trace)).Closed s L) ->
        (liveMaps (mem s).trace).Perm (liveMaps m.trace) := fun s h => h.choose_spec
  have hmade : SpillMade near out size limit (pageAllo os) ls
      (fun s => exists L, (pageLawful os hos (liveMaps m.trace)).Closed s L) page :=
    spillMade_of_lawful (pageLawful os hos (liveMaps m.trace)) hlimit hfits
      ⟨⟨[], hlive⟩, fun b hb => absurd hb List.not_mem_nil⟩
  rcases hmade with ⟨made, hrun, hcase⟩
  refine ⟨made, hrun, ?_⟩
  rcases hcase with ⟨e, w', hfailed, hback⟩ | ⟨st, hok, hkeeps⟩
  · exact Or.inl ⟨e, w', hfailed, hclosed w' hback⟩
  · refine Or.inr ⟨st, hok, fun es s hlegal hdialogue => ?_⟩
    rcases hkeeps es s hlegal hdialogue with ⟨hobjects, w', hdestroy, hback⟩
    exact ⟨hobjects, w', hdestroy, hclosed w' hback⟩

/-- A kilobyte in front of a buddy allocator on the page allocator. -/
theorem pageSpill_keeps_roomy : exists page,
    makePageAllocator roomyOs 8 onePageMem = Made.ok page ∧
      SpillMade 24 32 1024 (2 ^ 63) (pageAllo roomyOs) [Layer.buddy 16 65536]
        (fun s => (liveMaps (mem s).trace).Perm (liveMaps onePageMem.trace)) page := by
  have hmake : makePageAllocator roomyOs 8 onePageMem = Made.ok _ := rfl
  exact ⟨_, hmake, pageSpill_keeps roomyOs_page roomyOs_aligned (by decide) (by decide) hmake⟩

end Liballo
