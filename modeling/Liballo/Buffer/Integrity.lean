import Liballo.Buffer.Defs

/-!
# Integrity of fixed-buffer allocations

In every state a client can reach the live blocks are apart, aligned and inside
the used part of the buffer, and only the block placed last can touch the offset.
The invariant also records where the last placed block starts: the offset stays
above it, also after the block was freed, which is why an older block is never
taken for the last one.
-/

namespace Liballo

open Foundation

/-!
# Specifications of the operations
-/

/-- A context over an aligned buffer that exists in the address space. -/
structure BufOk (c : BufContext) : Prop where
  buffer : c.region.WellFormed
  aligned : 8 ∣ c.buffer
  offset_le : c.offset ≤ c.size

theorem BufOk.bounds {c : BufContext} (h : BufOk c) :
    8 ≤ c.buffer ∧ c.buffer + c.size < 2 ^ 64 := by
  rcases h.buffer with ⟨hptr, _hsize, hstop⟩
  exact ⟨Nat.le_of_dvd hptr h.aligned, hstop⟩

/-- What an allocation that placed a block did: `start` is its offset. -/
structure BufPlaced (s : BufState) (n start p : Nat) (s' : BufState) : Prop where
  pos : 0 < n
  offset_le : s.ctx.offset ≤ start
  aligned : 8 ∣ start
  fits : start + n ≤ s.ctx.size
  ptr : p = s.ctx.buffer + start
  ctx : s'.ctx = { s.ctx with offset := start + n }
  bytes : s'.mem.bytes = s.mem.bytes

theorem bufAllocFn_spec {n : Nat} {s : BufState}
    (hok : BufOk s.ctx) :
    exists p s', bufAllocFn n s = some (p, s') ∧
      (p = NULL ∧ s' = s ∨ exists start, BufPlaced s n start p s') := by
  rcases hok.bounds with ⟨hptr, hstop⟩
  have hoff := hok.offset_le
  unfold bufAllocFn
  by_cases hzero : n = 0
  · exact ⟨NULL, s, by rw [if_pos hzero], Or.inl ⟨rfl, rfl⟩⟩
  rw [if_neg hzero, if_neg (not_not.mpr hoff)]
  by_cases hfull : alloAlignUp s.ctx.offset 8 > s.ctx.size ∨
      n > s.ctx.size - alloAlignUp s.ctx.offset 8
  · exact ⟨NULL, s, by simp [hfull], Or.inl ⟨rfl, rfl⟩⟩
  · refine ⟨_, _, if_neg hfull, Or.inr ⟨alloAlignUp s.ctx.offset 8, ?_⟩⟩
    have hround : s.ctx.offset ≤ alloAlignUp s.ctx.offset 8 ∧
        8 ∣ alloAlignUp s.ctx.offset 8 := by
      rw [alloAlignUp_eight (by omega)]
      exact ⟨by omega, Nat.dvd_mul_left 8 _⟩
    rw [not_or, Nat.not_lt, Nat.not_lt] at hfull
    rcases hfull with ⟨hle, hfit⟩
    refine
      { pos := by omega
        offset_le := hround.left
        aligned := hround.right
        fits := by omega
        ptr := sizeAdd_eq (by omega)
        ctx := ?_
        bytes := rfl }
    rw [sizeAdd_eq (a := alloAlignUp s.ctx.offset 8) (by omega)]

/-- The outcomes of a reallocation of the block `b`. -/
inductive BufRealloc (s : BufState) (b : Block) (n : Nat) :
    Nat -> BufState -> Prop where
  | resized {s' : BufState} :
      b.stop = s.ctx.buffer + s.ctx.offset ->
      b.ptr - s.ctx.buffer + n ≤ s.ctx.size ->
      s'.ctx = { s.ctx with offset := b.ptr - s.ctx.buffer + n } ->
      s'.mem.bytes = s.mem.bytes -> BufRealloc s b n b.ptr s'
  | kept : n ≤ b.size -> BufRealloc s b n b.ptr s
  | failed : BufRealloc s b n NULL s
  | moved {start p : Nat} {s' s'' : BufState} :
      b.size < n -> BufPlaced s n start p s' ->
      s'' = { s' with mem := s'.mem.copy p b.ptr b.size } ->
      BufRealloc s b n p s''

theorem bufReallocFn_spec {b : Block} {n : Nat} {s : BufState}
    (hok : BufOk s.ctx) (hpos : 0 < b.size)
    (hle : s.ctx.buffer ≤ b.ptr) (hend : b.stop ≤ s.ctx.buffer + s.ctx.offset)
    (hwrap : b.stop = s.ctx.buffer + s.ctx.offset ->
      b.ptr - s.ctx.buffer + n < 2 ^ 64) :
    exists p s', bufReallocFn b.ptr b.size n s = some (p, s') ∧
      BufRealloc s b n p s' := by
  rcases hok.bounds with ⟨hptr, hstop⟩
  have hoff := hok.offset_le
  simp only [Block.stop] at hend hwrap
  have hlast : sizeAdd b.ptr b.size = sizeAdd s.ctx.buffer s.ctx.offset <->
      b.stop = s.ctx.buffer + s.ctx.offset := by
    rw [sizeAdd_eq (by omega), sizeAdd_eq (by omega), Block.stop]
  have hbase : sizeSub b.ptr s.ctx.buffer = b.ptr - s.ctx.buffer :=
    sizeSub_eq hle (by omega)
  unfold bufReallocFn
  by_cases hresize :
      sizeAdd b.ptr b.size = sizeAdd s.ctx.buffer s.ctx.offset ∧
        sizeAdd (sizeSub b.ptr s.ctx.buffer) n ≤ s.ctx.size
  · have heq := hlast.mp hresize.left
    have hsum : sizeAdd (sizeSub b.ptr s.ctx.buffer) n =
        b.ptr - s.ctx.buffer + n := by
      rw [hbase, sizeAdd_eq (hwrap heq)]
    refine ⟨_, _, if_pos hresize, BufRealloc.resized heq ?_ ?_ ?_⟩
    · rw [← hsum]
      exact hresize.right
    · simp only [bufResizeLast, hsum]
    · unfold bufResizeLast
      by_cases hgrow : n > b.size
      · simp [hgrow]
      · simp [hgrow]
  · simp only [if_neg hresize]
    by_cases hshrink : n ≤ b.size
    · exact ⟨_, _, if_pos hshrink, BufRealloc.kept hshrink⟩
    · rw [if_neg hshrink]
      rcases bufAllocFn_spec (n := n) hok with ⟨p, s', halloc, hcase⟩
      rw [halloc]
      rcases hcase with ⟨hnull, hsame⟩ | ⟨start, hplaced⟩
      · refine ⟨NULL, s, ?_, BufRealloc.failed⟩
        simp [hnull, hsame]
      · have hp : p = s.ctx.buffer + start := hplaced.ptr
        have hfits := hplaced.fits
        have hstart := hplaced.offset_le
        have hcopy : alloMemcpy p b.ptr b.size s'.mem =
            some (s'.mem.copy p b.ptr b.size) := by
          apply alloMemcpy_eq_some
          · simp only [NULL]
            omega
          · simp only [NULL]
            omega
          · omega
          · omega
          · omega
        refine ⟨p, _, ?_, BufRealloc.moved (by omega) hplaced rfl⟩
        have hne : p ≠ NULL := by
          simp only [NULL]
          omega
        simp [hne, hcopy]

/-!
# The invariant

It speaks about the context, the live blocks and the placed pointers; the bytes do
not matter.
-/

structure BufInv (c : BufContext) (live : List Block) (placed : List Nat) :
    Prop where
  ok : BufOk c
  disjoint : AllDisjoint live
  pos : forall b, b ∈ live -> 0 < b.size
  aligned : forall b, b ∈ live -> 8 ∣ b.ptr
  start_le : forall b, b ∈ live -> c.buffer ≤ b.ptr
  stop_le : forall b, b ∈ live -> b.stop ≤ c.buffer + c.offset
  last : forall b, b ∈ live -> exists p rest, placed = p :: rest ∧
    p < c.buffer + c.offset ∧ (b.ptr = p ∨ b.stop ≤ p)

namespace BufInv

variable {c : BufContext} {live : List Block} {placed : List Nat}

theorem erase (h : BufInv c live placed) (b : Block) :
    BufInv c (live.erase b) placed :=
  { ok := h.ok
    disjoint := h.disjoint.erase b
    pos := fun d hd => h.pos d (List.mem_of_mem_erase hd)
    aligned := fun d hd => h.aligned d (List.mem_of_mem_erase hd)
    start_le := fun d hd => h.start_le d (List.mem_of_mem_erase hd)
    stop_le := fun d hd => h.stop_le d (List.mem_of_mem_erase hd)
    last := fun d hd => h.last d (List.mem_of_mem_erase hd) }

/-- Placing a block at or above the offset. -/
theorem place (h : BufInv c live placed) {n start : Nat} (hpos : 0 < n)
    (hoffset : c.offset ≤ start) (haligned : 8 ∣ start)
    (hfits : start + n ≤ c.size) :
    BufInv { c with offset := start + n } (⟨c.buffer + start, n⟩ :: live)
      ((c.buffer + start) :: placed) := by
  have hfresh : forall d, d ∈ live -> d.stop ≤ c.buffer + start := by
    intro d hd
    have hstop := h.stop_le d hd
    omega
  refine
    { ok := ⟨h.ok.buffer, h.ok.aligned, hfits⟩
      disjoint := ?_
      pos := ?_
      aligned := ?_
      start_le := ?_
      stop_le := ?_
      last := ?_ }
  · exact List.pairwise_cons.mpr ⟨fun d hd => Or.inr (hfresh d hd), h.disjoint⟩
  · intro d hd
    cases hd with
    | head => exact hpos
    | tail _ hold => exact h.pos d hold
  · intro d hd
    cases hd with
    | head => exact Nat.dvd_add h.ok.aligned haligned
    | tail _ hold => exact h.aligned d hold
  · intro d hd
    cases hd with
    | head => exact Nat.le_add_right c.buffer start
    | tail _ hold => exact h.start_le d hold
  · intro d hd
    cases hd with
    | head => exact Nat.le_of_eq (Nat.add_assoc c.buffer start n)
    | tail _ hold =>
        have hstop := hfresh d hold
        show d.stop ≤ c.buffer + (start + n)
        omega
  · intro d hd
    refine ⟨c.buffer + start, placed, rfl, ?_, ?_⟩
    · show c.buffer + start < c.buffer + (start + n)
      omega
    · cases hd with
      | head => exact Or.inl rfl
      | tail _ hold => exact Or.inr (hfresh d hold)

/-- Any live block other than the one that touches the offset ends at or below
the start of that one. -/
theorem below_last (h : BufInv c live placed) {b d : Block} (hb : b ∈ live)
    (hlast : b.stop = c.buffer + c.offset) (hd : d ∈ live.erase b) :
    d.stop ≤ b.ptr := by
  have hstop := h.stop_le d (List.mem_of_mem_erase hd)
  have hpos := h.pos d (List.mem_of_mem_erase hd)
  have hdisj := h.disjoint.disjoint_of_mem_erase hb hd
  simp only [Block.Disjoint, Block.stop] at *
  omega

/-- Resizing the block that touches the offset. -/
theorem resize (h : BufInv c live placed) {b : Block} {n : Nat} (hb : b ∈ live)
    (hn : 0 < n) (hlast : b.stop = c.buffer + c.offset)
    (hfits : b.ptr - c.buffer + n ≤ c.size) :
    BufInv { c with offset := b.ptr - c.buffer + n }
      (⟨b.ptr, n⟩ :: live.erase b) placed := by
  have hle := h.start_le b hb
  have hbelow := fun d hd => h.below_last (d := d) hb hlast hd
  have hrest := h.erase b
  rcases h.last b hb with ⟨p, rest, hplaced, hlt, hcase⟩
  have hp : b.ptr = p := by
    cases hcase with
    | inl heq => exact heq
    | inr hstop => omega
  refine
    { ok := ⟨h.ok.buffer, h.ok.aligned, hfits⟩
      disjoint := ?_
      pos := ?_
      aligned := ?_
      start_le := ?_
      stop_le := ?_
      last := ?_ }
  · exact List.pairwise_cons.mpr
      ⟨fun d hd => Or.inr (hbelow d hd), hrest.disjoint⟩
  · intro d hd
    cases hd with
    | head => exact hn
    | tail _ hold => exact hrest.pos d hold
  · intro d hd
    cases hd with
    | head => exact h.aligned b hb
    | tail _ hold => exact hrest.aligned d hold
  · intro d hd
    cases hd with
    | head => exact hle
    | tail _ hold => exact hrest.start_le d hold
  · intro d hd
    cases hd with
    | head =>
        simp only [Block.stop]
        omega
    | tail _ hold =>
        have hstop := hbelow d hold
        show d.stop ≤ c.buffer + (b.ptr - c.buffer + n)
        omega
  · intro d hd
    refine ⟨p, rest, hplaced, ?_, ?_⟩
    · show p < c.buffer + (b.ptr - c.buffer + n)
      omega
    · cases hd with
      | head => exact Or.inl hp
      | tail _ hold => exact Or.inr (hp ▸ hbelow d hold)

/-- Shrinking a block without moving the offset. -/
theorem shrink (h : BufInv c live placed) {b : Block} {n : Nat} (hb : b ∈ live)
    (hn : 0 < n) (hle : n ≤ b.size) :
    BufInv c (⟨b.ptr, n⟩ :: live.erase b) placed := by
  have hrest := h.erase b
  have hinside : Block.Inside ⟨b.ptr, n⟩ b := by
    simp only [Block.Inside, Block.stop]
    omega
  have hstop := h.stop_le b hb
  refine
    { ok := h.ok
      disjoint := ?_
      pos := ?_
      aligned := ?_
      start_le := ?_
      stop_le := ?_
      last := ?_ }
  · refine List.pairwise_cons.mpr ⟨?_, hrest.disjoint⟩
    intro d hd
    exact hinside.disjoint (h.disjoint.disjoint_of_mem_erase hb hd)
  · intro d hd
    cases hd with
    | head => exact hn
    | tail _ hold => exact hrest.pos d hold
  · intro d hd
    cases hd with
    | head => exact h.aligned b hb
    | tail _ hold => exact hrest.aligned d hold
  · intro d hd
    cases hd with
    | head => exact h.start_le b hb
    | tail _ hold => exact hrest.start_le d hold
  · intro d hd
    cases hd with
    | head => exact Nat.le_trans hinside.right hstop
    | tail _ hold => exact hrest.stop_le d hold
  · intro d hd
    cases hd with
    | head =>
        rcases h.last b hb with ⟨p, rest, hplaced, hlt, hcase⟩
        refine ⟨p, rest, hplaced, hlt, ?_⟩
        cases hcase with
        | inl heq => exact Or.inl heq
        | inr hbelow => exact Or.inr (Nat.le_trans hinside.right hbelow)
    | tail _ hold => exact hrest.last d hold

end BufInv

/-!
# Runs

A step that computes no offset sum beyond `2 ^ 64` succeeds, keeps the invariant
and touches no byte of a block it was not given.
-/

/-- The invariant of a client session. -/
def BufSessionInv (s : Session BufState) : Prop :=
  BufInv s.state.ctx s.live s.placed

/-- The only sum of an offset and a requested size that can wrap is the one of an
in-place reallocation. -/
def BufNoWrap (s : Session BufState) : Op -> Prop
  | Op.realloc b n =>
      b.stop = s.state.ctx.buffer + s.state.ctx.offset ->
        b.ptr - s.state.ctx.buffer + n < 2 ^ 64
  | _ => True

theorem makeFixedBufAllocator_ok {out buffer size : Nat} {m : Mem} {st : BufState}
    (h : makeFixedBufAllocator out buffer size m = Except.ok st) :
    8 ∣ buffer ∧
      st =
        { ctx := { buffer := buffer, size := size, offset := 0 }
          mem := m.note (Event.poison buffer size) } := by
  unfold makeFixedBufAllocator at h
  split at h
  · cases h
  · split at h
    · cases h
    · rename_i halign
      cases h
      exact ⟨alloIsAligned_eight.mp (not_not.mp halign), rfl⟩

theorem bufInv_makeFixedBufAllocator {out buffer size : Nat} {m : Mem}
    {st : BufState} (hbuffer : Block.WellFormed ⟨buffer, size⟩)
    (h : makeFixedBufAllocator out buffer size m = Except.ok st) :
    BufInv st.ctx [] [] := by
  rcases makeFixedBufAllocator_ok h with ⟨halign, rfl⟩
  refine
    { ok := ⟨hbuffer, halign, Nat.zero_le _⟩
      disjoint := List.Pairwise.nil
      pos := ?_
      aligned := ?_
      start_le := ?_
      stop_le := ?_
      last := ?_ } <;>
    intro b hb <;> cases hb

/-- A copy to the place of a new block reaches no live block. -/
theorem BufPlaced.keeps_below {s s' : BufState} {n start p k : Nat} {c : Block}
    (hp : BufPlaced s n start p s')
    (hc : c.stop ≤ s.ctx.buffer + s.ctx.offset) (src : Nat) {x : Nat}
    (hx : c.Contains x) :
    (s'.mem.copy p src k).bytes x = s.mem.bytes x := by
  have hptr := hp.ptr
  have hoffset := hp.offset_le
  rw [Mem.copy_bytes_outside, hp.bytes]
  simp only [Block.Contains] at hx
  omega

theorem bufInv_afterRealloc {s : Session BufState} {b : Block} {n p : Nat}
    {st : BufState} (h : BufSessionInv s) (hb : b ∈ s.live)
    (hn : n ≠ 0) (hout : BufRealloc s.state b n p st) :
    BufSessionInv (s.afterRealloc b n p st) := by
  have hptr : b.ptr ≠ NULL := by
    have hle := h.start_le b hb
    have hbuffer := h.ok.bounds
    simp only [NULL]
    omega
  cases hout with
  | resized hlast hfits hctx _ =>
      rw [s.afterRealloc_placed b st hn hptr, if_pos rfl]
      show BufInv st.ctx _ _
      rw [hctx]
      exact h.resize hb (by omega) hlast hfits
  | kept hle =>
      rw [s.afterRealloc_placed b _ hn hptr, if_pos rfl]
      exact h.shrink hb (by omega) hle
  | failed =>
      rw [s.afterRealloc_null b _ hn]
      exact h
  | moved _ hplaced hst =>
      rename_i start s' _
      have hp := hplaced.ptr
      have hoffset := hplaced.offset_le
      have hstop := h.stop_le b hb
      have hpos := h.pos b hb
      have hbuffer := h.ok.bounds
      simp only [Block.stop] at hstop
      have hpne : p ≠ NULL := by
        simp only [NULL]
        omega
      have hpb : p ≠ b.ptr := by omega
      rw [s.afterRealloc_placed b st hn hpne, if_neg hpb, hst]
      show BufInv s'.ctx _ _
      rw [hplaced.ctx, hp]
      exact (h.erase b).place hplaced.pos hplaced.offset_le hplaced.aligned
        hplaced.fits

theorem keepsPrefix_bufRealloc {s s' : BufState} {b : Block} {n p : Nat}
    (hp : p ≠ NULL) (hout : BufRealloc s b n p s') :
    KeepsPrefix b.ptr p (min b.size n) s.mem s'.mem := by
  intro i hi
  cases hout with
  | resized _ _ _ hbytes => rw [hbytes]
  | kept _ => rfl
  | failed => exact absurd rfl hp
  | moved hlt hplaced hst =>
      rw [hst, Mem.copy_bytes_inside (by omega), hplaced.bytes]

theorem keepsBytes_bufRealloc {s s' : BufState} {b c : Block} {n p x : Nat}
    (hout : BufRealloc s b n p s')
    (hc : c.stop ≤ s.ctx.buffer + s.ctx.offset) (hx : c.Contains x) :
    s'.mem.bytes x = s.mem.bytes x := by
  cases hout with
  | resized _ _ _ hbytes => rw [hbytes]
  | kept _ => rfl
  | failed => rfl
  | moved hlt hplaced hst =>
      rw [hst]
      exact hplaced.keeps_below hc b.ptr hx

/-- Every legal reallocation through the wrapper returns. -/
theorem bufRealloc_total {s : Session BufState} {b : Block} {n : Nat}
    (h : BufSessionInv s) (hb : b ∈ s.live)
    (hwrap : BufNoWrap s (Op.realloc b n)) :
    exists p st, alloRealloc bufAllo b.ptr b.size n s.state = some (p, st) ∧
      (n = 0 ∧ p = NULL ∧ st = bufFreeFn b.ptr b.size s.state ∨
        n ≠ 0 ∧ BufRealloc s.state b n p st) := by
  have hle := h.start_le b hb
  have hbuffer := h.ok.bounds
  have hptr : b.ptr ≠ NULL := by
    simp only [NULL]
    omega
  by_cases hzero : n = 0
  · subst hzero
    exact ⟨NULL, _, alloRealloc_zero rfl, Or.inl ⟨rfl, rfl, rfl⟩⟩
  · by_cases hsame : b.size = n
    · refine ⟨b.ptr, s.state, ?_, Or.inr ⟨hzero, BufRealloc.kept (by omega)⟩⟩
      rw [hsame]
      exact alloRealloc_same hzero hptr
    · rcases bufReallocFn_spec h.ok (h.pos b hb) hle (h.stop_le b hb) hwrap with
        ⟨p, st, hcall, hout⟩
      refine ⟨p, st, ?_, Or.inr ⟨hzero, hout⟩⟩
      rw [alloRealloc_pass hzero hptr hsame]
      exact hcall

theorem bufFreeFn_ctx (ptr size : Nat) (s : BufState) :
    (bufFreeFn ptr size s).ctx = s.ctx := by
  unfold bufFreeFn
  split <;> rfl

theorem bufFreeFn_bytes (ptr size : Nat) (s : BufState) :
    (bufFreeFn ptr size s).mem.bytes = s.mem.bytes := by
  unfold bufFreeFn
  split <;> rfl

theorem bufInv_afterFree {s : Session BufState} (h : BufSessionInv s)
    (b : Block) :
    BufSessionInv (s.afterFree b (bufFreeFn b.ptr b.size s.state)) := by
  show BufInv (bufFreeFn b.ptr b.size s.state).ctx _ _
  rw [bufFreeFn_ctx]
  exact h.erase b

/-- The step lemma of the fixed-buffer allocator. -/
theorem buf_step {s : Session BufState} {op : Op}
    (h : BufSessionInv s) (hlegal : s.Legal op)
    (hwrap : BufNoWrap s op) :
    exists s', Session.exec bufAllo op s = some s' ∧
      BufSessionInv s' ∧ s.KeepsOthers op s' ∧
        s.ReallocKeepsPrefix bufAllo op := by
  cases op with
  | alloc n =>
      rcases bufAllocFn_spec (n := n) h.ok with ⟨p, st, hcall, hcase⟩
      have hexec : Session.exec bufAllo (Op.alloc n) s =
          some (s.afterAlloc n p st) := by
        simp [Session.exec, alloAlloc, bufAllo, hcall]
      refine ⟨_, hexec, ?_⟩
      rcases hcase with ⟨hnull, hsame⟩ | ⟨start, hplaced⟩
      · rw [hnull, hsame, s.afterAlloc_null]
        exact ⟨h, fun _ _ _ _ _ => rfl, trivial⟩
      · have hptr := hplaced.ptr
        have hbuffer := h.ok.bounds
        have hne : p ≠ NULL := by
          simp only [NULL]
          omega
        rw [s.afterAlloc_placed st hne]
        refine ⟨?_, fun c _ _ x _ => congrFun hplaced.bytes x, trivial⟩
        show BufInv st.ctx _ _
        rw [hplaced.ctx, hptr]
        exact h.place hplaced.pos hplaced.offset_le hplaced.aligned
          hplaced.fits
  | free b =>
      refine ⟨_, rfl, ?_, ?_, trivial⟩
      · exact bufInv_afterFree h b
      · intro c _ _ x _
        exact congrFun (bufFreeFn_bytes b.ptr b.size s.state) x
  | realloc b n =>
      have hb : b ∈ s.live := hlegal.left
      rcases bufRealloc_total h hb hwrap with ⟨p, st, hcall, hcase⟩
      have hexec : Session.exec bufAllo (Op.realloc b n) s =
          some (s.afterRealloc b n p st) := by
        simp [Session.exec, hcall]
      have hprefix : s.ReallocKeepsPrefix bufAllo (Op.realloc b n) := by
        intro p' st' hcall' hp'
        rw [hcall] at hcall'
        cases hcall'
        rcases hcase with ⟨_, hnull, _⟩ | ⟨_, hout⟩
        · exact absurd hnull hp'
        · exact keepsPrefix_bufRealloc hp' hout
      refine ⟨_, hexec, ?_, ?_, hprefix⟩
      · rcases hcase with ⟨hzero, _, hst⟩ | ⟨hne, hout⟩
        · subst hzero
          rw [s.afterRealloc_zero, hst]
          exact bufInv_afterFree h b
        · exact bufInv_afterRealloc h hb hne hout
      · intro c hc _ x hx
        rw [Session.afterRealloc_state]
        rcases hcase with ⟨_, _, hst⟩ | ⟨_, hout⟩
        · rw [hst]
          exact congrFun (bufFreeFn_bytes b.ptr b.size s.state) x
        · exact keepsBytes_bufRealloc hout (h.stop_le c hc) hx
  | poke x v =>
      exact ⟨_, rfl, h, s.keepsOthers_poke x v, trivial⟩

/-!
# The buffer stays the same
-/

theorem region_withOffset (c : BufContext) (offset : Nat) :
    ({ c with offset := offset } : BufContext).region = c.region := rfl

theorem bufAllocFn_region {n p : Nat} {s s' : BufState}
    (h : bufAllocFn n s = some (p, s')) : s'.ctx.region = s.ctx.region := by
  unfold bufAllocFn at h
  split at h
  · cases h
    rfl
  · split at h
    · cases h
    · dsimp only at h
      split at h
      · cases h
        rfl
      · cases h
        exact region_withOffset s.ctx _

theorem bufReallocFn_region {ptr old new p : Nat} {s s' : BufState}
    (h : bufReallocFn ptr old new s = some (p, s')) :
    s'.ctx.region = s.ctx.region := by
  unfold bufReallocFn at h
  dsimp only at h
  split at h
  · cases h
    exact region_withOffset s.ctx _
  · split at h
    · cases h
      rfl
    · simp only [Option.bind_eq_bind, Option.bind_eq_some_iff] at h
      rcases h with ⟨⟨q, st⟩, halloc, hrest⟩
      have hregion := bufAllocFn_region halloc
      dsimp only at hrest
      split at hrest
      · cases hrest
        exact hregion
      · simp only [Option.bind_eq_some_iff] at hrest
        rcases hrest with ⟨m, _, heq⟩
        cases heq
        exact hregion

theorem exec_bufAllo_region {op : Op} {s s' : Session BufState}
    (hlegal : s.Legal op) (hptr : forall b, b ∈ s.live -> b.ptr ≠ NULL)
    (h : Session.exec bufAllo op s = some s') :
    s'.state.ctx.region = s.state.ctx.region := by
  cases op with
  | alloc n =>
      rcases Session.exec_alloc h with ⟨p, st, hcall, rfl⟩
      rw [Session.afterAlloc_state]
      exact bufAllocFn_region hcall
  | free b =>
      rcases Session.exec_free h with ⟨st, hcall, rfl⟩
      cases hcall
      exact congrArg BufContext.region (bufFreeFn_ctx b.ptr b.size s.state)
  | realloc b n =>
      rcases Session.exec_realloc h with ⟨p, st, hcall, rfl⟩
      rw [Session.afterRealloc_state]
      rcases alloRealloc_cases (hptr b hlegal.left) hcall with
        ⟨_, _, hfree⟩ | ⟨_, _, _, hsame⟩ | ⟨_, _, hpass⟩
      · cases hfree
        exact congrArg BufContext.region (bufFreeFn_ctx b.ptr b.size s.state)
      · rw [hsame]
      · exact bufReallocFn_region hpass
  | poke x v =>
      rw [Session.exec_poke h]
      rfl

/-!
# Every reachable state
-/

/-- The invariant and the buffer in every state a client reaches. -/
theorem bufSessionInv_of_reaches {out buffer size : Nat} {m : Mem} {st : BufState}
    {s : Session BufState} (hbuffer : Block.WellFormed ⟨buffer, size⟩)
    (hmake : makeFixedBufAllocator out buffer size m = Except.ok st)
    (hreach : (Session.clientOf bufAllo BufNoWrap).Reaches
      (Session.start st) s) :
    BufSessionInv s ∧ s.state.ctx.region = ⟨buffer, size⟩ := by
  have hstart : st.ctx.region = ⟨buffer, size⟩ := by
    rw [(makeFixedBufAllocator_ok hmake).right]
    rfl
  refine hreach.invariant_of_step
    (fun s => BufSessionInv s ∧ s.state.ctx.region = ⟨buffer, size⟩) ?_ ?_
  · exact ⟨bufInv_makeFixedBufAllocator hbuffer hmake, hstart⟩
  · intro s op hs hlegal
    rcases buf_step hs.left hlegal.left hlegal.right with
      ⟨s', hexec, hinv, _, _⟩
    have hptr : forall b, b ∈ s.live -> b.ptr ≠ NULL := by
      intro b hb
      have hle := hs.left.start_le b hb
      have hbounds := hs.left.ok.bounds
      simp only [NULL]
      omega
    refine ⟨s', hexec, hinv, ?_⟩
    rw [exec_bufAllo_region hlegal.left hptr hexec]
    exact hs.right

end Liballo
