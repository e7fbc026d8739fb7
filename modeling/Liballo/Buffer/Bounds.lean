import Liballo.Buffer.Integrity

/-!
# The bound checks of the fixed buffer

An allocation compares the size with the space that is left, a reallocation in place
compares the new end with the size of the buffer. The second sum can wrap around, and
then a block longer than the buffer is handed out.
-/

namespace Liballo

open Foundation

/-- The block `⟨p, n⟩` lies in the buffer, and the offset is above all live blocks. -/
def BufCommitted (buffer size : Nat) (s : Session BufState) (p n : Nat) : Prop :=
  buffer ≤ p ∧ p - buffer + n ≤ size ∧
    forall b, b ∈ s.live -> b.stop ≤ buffer + s.state.ctx.offset

/-- Whatever non-null pointer the requested step answers is backed by the buffer. -/
def BufNoOvercommit (buffer size : Nat) (s : Session BufState) : Op -> Prop
  | Op.alloc n => forall p st, alloAlloc bufAllo n s.state = some (p, st) ->
      p ≠ NULL -> BufCommitted buffer size (s.afterAlloc n p st) p n
  | Op.realloc b n => forall p st,
      alloRealloc bufAllo b.ptr b.size n s.state = some (p, st) ->
        p ≠ NULL -> BufCommitted buffer size (s.afterRealloc b n p st) p n
  | _ => True

theorem BufSessionInv.ptr_ne_null {s : Session BufState} (h : BufSessionInv s)
    {b : Block} (hb : b ∈ s.live) : b.ptr ≠ NULL := by
  have hle := h.start_le b hb
  have hbuffer := h.ok.bounds
  simp only [NULL]
  omega

theorem BufSessionInv.committed {s : Session BufState} {buffer size p n : Nat}
    (h : BufSessionInv s) (hregion : s.state.ctx.region = ⟨buffer, size⟩)
    (hp : (⟨p, n⟩ : Block) ∈ s.live) : BufCommitted buffer size s p n := by
  have hptr : s.state.ctx.buffer = buffer := congrArg Block.ptr hregion
  have hsize : s.state.ctx.size = size := congrArg Block.size hregion
  have hstart := h.start_le _ hp
  have hstop := h.stop_le _ hp
  have hoffset := h.ok.offset_le
  rw [hptr] at hstart hstop
  rw [hsize] at hoffset
  refine ⟨hstart, ?_, ?_⟩
  · simp only [Block.stop] at hstart hstop
    omega
  · intro b hb
    rw [← hptr]
    exact h.stop_le b hb

/-- Without a wrapped sum nothing is over-committed. -/
theorem bufNoOvercommit_of_noWrap {s : Session BufState} {buffer size : Nat}
    (h : BufSessionInv s) (hregion : s.state.ctx.region = ⟨buffer, size⟩) {op : Op}
    (hlegal : s.Legal op) (hwrap : BufNoWrap s op) :
    BufNoOvercommit buffer size s op := by
  rcases buf_step h hlegal hwrap with ⟨s', hexec, hinv, _, _⟩
  have hregion' : s'.state.ctx.region = ⟨buffer, size⟩ := by
    rw [exec_bufAllo_region hlegal (fun b hb => h.ptr_ne_null hb) hexec]
    exact hregion
  cases op with
  | alloc n =>
      intro p st hcall hne
      rcases Session.exec_alloc hexec with ⟨q, t, hcall', rfl⟩
      rw [hcall] at hcall'
      cases hcall'
      apply hinv.committed hregion'
      rw [s.afterAlloc_placed st hne]
      exact List.mem_cons_self
  | realloc b n =>
      intro p st hcall hne
      rcases Session.exec_realloc hexec with ⟨q, t, hcall', rfl⟩
      rw [hcall] at hcall'
      cases hcall'
      have hn : n ≠ 0 := by
        rintro rfl
        rcases alloRealloc_cases (h.ptr_ne_null hlegal.left) hcall with
          ⟨_, hnull, _⟩ | ⟨hno, _⟩ | ⟨hno, _⟩
        · exact hne hnull
        · exact hno rfl
        · exact hno rfl
      apply hinv.committed hregion'
      rw [s.afterRealloc_placed b st hn hne]
      exact List.mem_cons_self
  | free _ => trivial
  | poke _ _ => trivial

/-- When the sum wraps around, the request is granted in place although it is longer
than the buffer. -/
theorem bufRealloc_of_wrap {s : Session BufState} (h : BufSessionInv s) {b : Block}
    {n : Nat} (hb : b ∈ s.live) (hn : n < 2 ^ 64)
    (hlast : b.stop = s.state.ctx.buffer + s.state.ctx.offset)
    (hwrap : 2 ^ 64 ≤ b.ptr - s.state.ctx.buffer + n) :
    exists st, alloRealloc bufAllo b.ptr b.size n s.state = some (b.ptr, st) := by
  have hle := h.start_le b hb
  have hstop := h.stop_le b hb
  have hoffset := h.ok.offset_le
  have hbuffer := h.ok.bounds
  simp only [Block.stop] at hlast hstop
  have hpos : n ≠ 0 := by omega
  have hdiff : b.size ≠ n := by omega
  have hbase : sizeSub b.ptr s.state.ctx.buffer = b.ptr - s.state.ctx.buffer :=
    sizeSub_eq hle (by omega)
  have hend : sizeAdd b.ptr b.size =
      sizeAdd s.state.ctx.buffer s.state.ctx.offset := by
    unfold sizeAdd
    rw [hlast]
  have hsum : sizeAdd (b.ptr - s.state.ctx.buffer) n ≤ s.state.ctx.size := by
    unfold sizeAdd sizeMod
    omega
  rw [alloRealloc_pass hpos (h.ptr_ne_null hb) hdiff]
  show exists st, bufReallocFn b.ptr b.size n s.state = some (b.ptr, st)
  unfold bufReallocFn
  rw [hbase]
  exact ⟨_, if_pos ⟨hend, hsum⟩⟩

/-- In every run without a wrapped sum, a further step over-commits the buffer exactly
if it reallocates the last block in place and the sum of its offset and the new size
wraps around. -/
theorem fixedBuf_never_overcommits {out buffer size : Nat} {m : Mem} {st : BufState}
    {s : Session BufState} (hbuffer : Block.WellFormed ⟨buffer, size⟩)
    (hmake : makeFixedBufAllocator out buffer size m = Except.ok st)
    (hreach : (Session.clientOf bufAllo BufNoWrap).Reaches
      (Session.start st) s) :
    forall op, s.Legal op -> (BufNoOvercommit buffer size s op <-> BufNoWrap s op) := by
  intro op hlegal
  rcases bufSessionInv_of_reaches hbuffer hmake hreach with ⟨hinv, hregion⟩
  constructor
  · intro hsafe
    cases op with
    | realloc b n =>
        intro hlast
        by_contra hwrap
        rcases bufRealloc_of_wrap hinv hlegal.left hlegal.right hlast
          (Nat.not_lt.mp hwrap) with ⟨st', hcall⟩
        rcases hsafe _ _ hcall (hinv.ptr_ne_null hlegal.left) with ⟨_, hfits, _⟩
        have hptr : s.state.ctx.buffer = buffer := congrArg Block.ptr hregion
        have hstop := hbuffer.right.right
        simp only [Block.stop] at hstop
        rw [hptr] at hwrap
        omega
    | alloc _ => trivial
    | free _ => trivial
    | poke _ _ => trivial
  · exact bufNoOvercommit_of_noWrap hinv hregion hlegal

/-- A buffer of 64 bytes at address 64. -/
def bufOf64 : BufState :=
  { ctx := { buffer := 64, size := 64, offset := 0 }
    mem := Mem.note (Event.poison 64 64) { bytes := fun _ => 0, trace := [] } }

theorem fixedBuf_never_overcommits_start :
    BufNoOvercommit 64 64 (Session.start bufOf64) (Op.alloc 24) := by
  have hmake : makeFixedBufAllocator 8 64 64
      { bytes := fun _ => 0, trace := [] } = Except.ok bufOf64 := rfl
  have hlegal : (24 : Nat) < 2 ^ 64 := by decide
  exact (fixedBuf_never_overcommits (by decide) hmake Machine.Reaches.start
    (Op.alloc 24) hlegal).mpr trivial

/-- One and two blocks of 8 bytes were placed in that buffer. -/
def bufOneBlock : Session BufState :=
  { state :=
      { ctx := { buffer := 64, size := 64, offset := 8 }
        mem := Mem.note (Event.unpoison 64 8) bufOf64.mem }
    live := [⟨64, 8⟩]
    placed := [64] }

def bufTwoBlocks : Session BufState :=
  { state :=
      { ctx := { buffer := 64, size := 64, offset := 16 }
        mem := Mem.note (Event.unpoison 72 8) bufOneBlock.state.mem }
    live := [⟨72, 8⟩, ⟨64, 8⟩]
    placed := [72, 64] }

theorem bufTwoBlocks_reached :
    (Session.client bufAllo).Reaches (Session.start bufOf64) bufTwoBlocks := by
  have hlegal : forall s : Session BufState,
      (Session.client bufAllo).Legal s (Op.alloc 8) :=
    fun s => ⟨show 8 < 2 ^ 64 by decide, trivial⟩
  have hone : (Session.client bufAllo).Reaches (Session.start bufOf64) bufOneBlock :=
    Machine.Reaches.start.step (hlegal _) rfl
  exact hone.step (hlegal _) rfl

/-- The second block grows to nearly the whole address space: its offset 8 plus the new
size wraps around to 0. -/
theorem fixedBuf_overcommits :
    makeFixedBufAllocator 8 64 64 { bytes := fun _ => 0, trace := [] } =
        Except.ok bufOf64 ∧
      (Session.client bufAllo).Reaches (Session.start bufOf64) bufTwoBlocks ∧
      bufTwoBlocks.Legal (Op.realloc ⟨72, 8⟩ (2 ^ 64 - 8)) ∧
      ¬ BufNoOvercommit 64 64 bufTwoBlocks (Op.realloc ⟨72, 8⟩ (2 ^ 64 - 8)) := by
  refine ⟨rfl, bufTwoBlocks_reached, ⟨List.mem_cons_self, by decide⟩, ?_⟩
  intro hsafe
  have hcall : alloRealloc bufAllo 72 8 (2 ^ 64 - 8) bufTwoBlocks.state =
      some (72, _) := rfl
  rcases hsafe 72 _ hcall (by decide) with ⟨_, hfits, _⟩
  exact absurd hfits (by decide)

end Liballo
