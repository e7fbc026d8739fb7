import Liballo.Buffer.Contract
import Liballo.Service

/-!
# The fixed-buffer allocator as a service

A reallocation computes where the resized block would end, and that sum must not wrap
around. The sizes of a client are small enough if they and the size of the buffer sum up
to an address.
-/

namespace Liballo

open Foundation

/-- The live blocks `L` lie in a buffer of `size` bytes. -/
structure FixedBufServes (size : Nat) (s : BufState) (L : List Block) : Prop where
  inv : exists placed, BufInv s.ctx L placed
  size_eq : s.ctx.size = size

namespace FixedBufServes

variable {size n : Nat} {s : BufState} {L : List Block} {b : Block}

theorem perm (h : FixedBufServes size s L) {M : List Block} (hperm : L.Perm M) :
    FixedBufServes size s M := by
  rcases h.inv with ⟨placed, hinv⟩
  have hmem : forall b, b ∈ M -> b ∈ L := fun b hb => hperm.mem_iff.mpr hb
  have hinv' : BufInv s.ctx M placed :=
    { ok := hinv.ok
      disjoint := (allDisjoint_perm hperm).mp hinv.disjoint
      pos := fun b hb => hinv.pos b (hmem b hb)
      aligned := fun b hb => hinv.aligned b (hmem b hb)
      start_le := fun b hb => hinv.start_le b (hmem b hb)
      stop_le := fun b hb => hinv.stop_le b (hmem b hb)
      last := fun b hb => hinv.last b (hmem b hb) }
  exact ⟨⟨placed, hinv'⟩, h.size_eq⟩

theorem alloc (h : FixedBufServes size s L) (n : Nat) :
    exists p s', alloAlloc bufAllo n s = some (p, s') ∧ KeepsBytes L (mem s) (mem s') ∧
      (p = NULL ∧ FixedBufServes size s' L ∨ p ≠ NULL ∧ FixedBufServes size s' (⟨p, n⟩ :: L)) := by
  rcases h.inv with ⟨placed, hinv⟩
  rcases hinv.alloc (n := n) with ⟨p, s', hcall, hkeeps, hcase⟩
  have hregion : s'.ctx.region = s.ctx.region := bufAllocFn_region hcall
  have hsize : s'.ctx.size = size := (congrArg Block.size hregion).trans h.size_eq
  refine ⟨p, s', hcall, hkeeps, ?_⟩
  rcases hcase with ⟨hnull, hinv'⟩ | ⟨hne, hinv'⟩
  · exact Or.inl ⟨hnull, hinv', hsize⟩
  · exact Or.inr ⟨hne, hinv', hsize⟩

theorem free (h : FixedBufServes size s L) (b : Block) :
    exists s', alloFree bufAllo b.ptr b.size s = some s' ∧
      KeepsBytes (L.erase b) (mem s) (mem s') ∧ FixedBufServes size s' (L.erase b) := by
  rcases h.inv with ⟨placed, hinv⟩
  have hctx := bufFreeFn_ctx b.ptr b.size s
  refine ⟨bufFreeFn b.ptr b.size s, rfl, ?_, ⟨placed, ?_⟩, ?_⟩
  · exact fun c _ x _ => congrFun (bufFreeFn_bytes b.ptr b.size s) x
  · rw [hctx]
    exact hinv.erase b
  · rw [hctx]
    exact h.size_eq

theorem freeNull (h : FixedBufServes size s L) (n : Nat) :
    exists s', alloFree bufAllo NULL n s = some s' ∧ KeepsBytes L (mem s) (mem s') ∧
      FixedBufServes size s' L := by
  refine ⟨s, ?_, KeepsBytes.refl L _, h⟩
  simp [alloFree, bufAllo, bufFreeFn]

theorem realloc (h : FixedBufServes size s L) (hb : b ∈ L) (hpos : n ≠ 0)
    (hn : size + n < 2 ^ 64) :
    exists p s', bufAllo.realloc b.ptr b.size n s = some (p, s') ∧
      Reallocated (FixedBufServes size) s L b n p s' := by
  rcases h.inv with ⟨placed, hinv⟩
  have hsession : BufSessionInv ⟨s, L, placed⟩ := hinv
  have hwrap : b.stop = s.ctx.buffer + s.ctx.offset ->
      b.ptr - s.ctx.buffer + n < 2 ^ 64 := by
    intro hlast
    have hoffset := hinv.ok.offset_le
    have hsize := h.size_eq
    simp only [Block.stop] at hlast
    omega
  rcases bufReallocFn_spec hinv.ok (hinv.pos b hb) (hinv.start_le b hb)
    (hinv.stop_le b hb) hwrap with ⟨p, s', hcall, hout⟩
  have hregion : s'.ctx.region = s.ctx.region := bufReallocFn_region hcall
  have hsize : s'.ctx.size = size := (congrArg Block.size hregion).trans h.size_eq
  have hkeeps : KeepsBytes L (mem s) (mem s') :=
    fun c hc x hx => keepsBytes_bufRealloc hout (hinv.stop_le c hc) hx
  have hafter := bufInv_afterRealloc hsession hb hpos hout
  refine ⟨p, s', hcall, ?_⟩
  by_cases hp : p = NULL
  · subst hp
    rw [Session.afterRealloc_null _ b s' hpos] at hafter
    exact Or.inl ⟨rfl, ⟨⟨placed, hafter⟩, hsize⟩, hkeeps⟩
  · rw [Session.afterRealloc_placed _ b s' hpos hp] at hafter
    refine Or.inr ⟨hp, ⟨⟨_, hafter⟩, hsize⟩, ?_, keepsPrefix_bufRealloc hp hout⟩
    exact hkeeps.subset (fun c hc => List.mem_of_mem_erase hc)

end FixedBufServes

/-- The buffer belongs to the caller, so there is nothing to give back. -/
def bufService (size limit : Nat) (hlimit : size + limit ≤ 2 ^ 64) :
    Service bufAllo limit where
  Inv := FixedBufServes size
  Closed := fun _ _ => True
  limit_le := Nat.le_of_add_left_le hlimit
  wellFormed := fun h => h.inv.choose_spec.wellFormed
  disjoint := fun h => h.inv.choose_spec.disjoint
  perm := fun h hperm => h.perm hperm
  alloc := fun h _ => h.alloc _
  free := fun h _ => h.free _
  freeNull := fun _ h => h.freeNull _
  realloc := fun h hb hpos _ hn =>
    h.realloc hb hpos (Nat.lt_of_lt_of_le (Nat.add_lt_add_left hn size) hlimit)
  store := fun h _ _ => ⟨h.inv, h.size_eq⟩
  destroy := fun _ => ⟨_, rfl, trivial⟩

theorem fixedBufServes_of_make {out buffer size : Nat} {m : Mem} {st : BufState}
    (hbuffer : Block.WellFormed ⟨buffer, size⟩)
    (hmake : makeFixedBufAllocator out buffer size m = Except.ok st) :
    FixedBufServes size st [] := by
  refine ⟨⟨[], bufInv_makeFixedBufAllocator hbuffer hmake⟩, ?_⟩
  rw [(makeFixedBufAllocator_ok hmake).right]

end Liballo
