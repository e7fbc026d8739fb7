import Liballo.Buffer.Integrity
import Liballo.Contract

/-!
# The fixed-buffer allocator as a child

Its state is kept outside the memory, so stores never disturb it.
-/

namespace Liballo

open Foundation

namespace BufInv

variable {c : BufContext} {live : List Block} {placed : List Nat}

theorem wellFormed (h : BufInv c live placed) : AllWellFormed live := by
  intro b hb
  have hbounds := h.ok.bounds
  have hstart := h.start_le b hb
  have hstop := h.stop_le b hb
  have hoffset := h.ok.offset_le
  refine ⟨?_, h.pos b hb, ?_⟩
  · omega
  · omega

/-- A request is refused and changes nothing, or places a block. -/
theorem alloc {s : BufState} {n : Nat} (h : BufInv s.ctx live placed) :
    exists p s', alloAlloc bufAllo n s = some (p, s') ∧
      KeepsBytes live (mem s) (mem s') ∧
        (p = NULL ∧ (exists placed', BufInv s'.ctx live placed') ∨
          p ≠ NULL ∧ exists placed', BufInv s'.ctx (⟨p, n⟩ :: live) placed') := by
  rcases bufAllocFn_spec (n := n) h.ok with ⟨p, s', hcall, hcase⟩
  refine ⟨p, s', hcall, ?_⟩
  rcases hcase with ⟨hnull, hsame⟩ | ⟨start, hplaced⟩
  · subst hsame
    exact ⟨KeepsBytes.refl live _, Or.inl ⟨hnull, placed, h⟩⟩
  · have hbuffer := h.ok.bounds
    have hptr := hplaced.ptr
    refine ⟨fun c _ x _ => congrFun hplaced.bytes x, Or.inr ⟨?_, ?_⟩⟩
    · simp only [NULL]
      omega
    · have hinv' := h.place hplaced.pos hplaced.offset_le hplaced.aligned
        hplaced.fits
      rw [hptr, hplaced.ctx]
      exact ⟨_, hinv'⟩

end BufInv

def bufContract : Contract bufAllo where
  Inv := fun s L => exists placed, BufInv s.ctx L placed
  own := fun _ _ => False
  wellFormed := by
    intro s L h
    rcases h with ⟨placed, hinv⟩
    exact hinv.wellFormed
  disjoint := by
    intro s L h
    rcases h with ⟨placed, hinv⟩
    exact hinv.disjoint
  own_apart := fun _ _ _ hown => hown
  alloc := by
    intro s L n h _
    rcases h with ⟨placed, hinv⟩
    exact hinv.alloc
  store := fun h _ _ => ⟨h, fun _ hown => hown⟩
  free := by
    intro s L b h _
    rcases h with ⟨placed, hinv⟩
    refine ⟨bufFreeFn b.ptr b.size s, rfl, ?_, placed, ?_⟩
    · intro c _ x _
      exact congrFun (bufFreeFn_bytes b.ptr b.size s) x
    · rw [bufFreeFn_ctx]
      exact hinv.erase b

theorem bufContract_start {out buffer size : Nat} {m : Mem} {st : BufState}
    (hbuffer : Block.WellFormed ⟨buffer, size⟩)
    (h : makeFixedBufAllocator out buffer size m = Except.ok st) :
    bufContract.Inv st [] :=
  ⟨[], bufInv_makeFixedBufAllocator hbuffer h⟩

/-- A fixed buffer of 512 bytes. -/
def bufOf512 : BufState :=
  { ctx := { buffer := 64, size := 512, offset := 0 }
    mem := Mem.note (Event.poison 64 512) { bytes := fun _ => 0, trace := [] } }

theorem bufOf512_inv : bufContract.Inv bufOf512 [] := by
  have hmake : makeFixedBufAllocator 8 64 512
      { bytes := fun _ => 0, trace := [] } = Except.ok bufOf512 := rfl
  exact bufContract_start (by decide) hmake

end Liballo
