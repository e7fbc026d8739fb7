import Liballo.Service
import Liballo.Foundation.CHeap

/-!
# The C allocator

The functions of `allo_libc.c`, over the heap of the C library. The allocator keeps
nothing of its own, so its books are those of the library.
-/

namespace Liballo

open Foundation

section Operations

variable (lib : CLib)

def cAllocFn (size : Nat) (h : CHeap) : Nat × CHeap :=
  if size = 0 then (NULL, h)
  else
    let (ptr, h) := h.malloc lib size
    if ptr ≠ NULL then (ptr, modifyMem (Mem.note (Event.unpoison ptr size)) h)
    else (ptr, h)

def cReallocFn (ptr oldSize newSize : Nat) (h : CHeap) : Option (Nat × CHeap) := do
  -- The library may have to read the block.
  let h := if ptr ≠ NULL then modifyMem (Mem.note (Event.unpoison ptr oldSize)) h else h
  let (newPtr, h) ← h.realloc lib ptr newSize
  if newPtr ≠ NULL then
    some (newPtr, modifyMem (Mem.note (Event.unpoison newPtr newSize)) h)
  else if ptr ≠ NULL then
    some (newPtr, modifyMem (Mem.note (Event.unpoison ptr oldSize)) h)
  else some (newPtr, h)

def cFreeFn (ptr size : Nat) (h : CHeap) : Option CHeap :=
  if ptr = NULL then some h
  else (modifyMem (Mem.note (Event.poison ptr size)) h).free lib ptr

def cAllo : Allo CHeap where
  alloc := fun size h => some (cAllocFn lib size h)
  realloc := cReallocFn lib
  freeMem := cFreeFn lib
  destroy := none
  contains := none

def makeCAllocator (out : Nat) : Except AlloError (Allo CHeap) :=
  if out = NULL then Except.error AlloError.inval else Except.ok (cAllo lib)

end Operations

/-!
# The C allocator is lawful

The library may keep its books in every byte that it did not hand out.
-/

section Lawful

variable {lib : CLib} {base L : List Block} {h : CHeap} {b : Block} {n : Nat}

theorem cAllocFn_spec (hs : CHeap.Serves base L h) :
    exists p h', alloAlloc (cAllo lib) n h = some (p, h') ∧
      KeepsBytes L (mem h) (mem h') ∧
        (p = NULL ∧ CHeap.Serves base L h' ∨
          p ≠ NULL ∧ CHeap.Serves base (⟨p, n⟩ :: L) h') := by
  by_cases hn : n = 0
  · refine ⟨NULL, h, ?_, KeepsBytes.refl L _, Or.inl ⟨rfl, hs⟩⟩
    simp [alloAlloc, cAllo, cAllocFn, hn]
  · rcases hs.malloc lib n with ⟨p, h', hcall, hkeeps, hcase⟩
    rcases hcase with ⟨hnull, hs'⟩ | ⟨hne, hs'⟩
    · refine ⟨p, h', ?_, hkeeps, Or.inl ⟨hnull, hs'⟩⟩
      simp [alloAlloc, cAllo, cAllocFn, hn, hcall, NULL, hnull]
    · refine ⟨p, _, ?_, ?_, Or.inr ⟨hne, hs'.note (Event.unpoison p n)⟩⟩
      · simp [alloAlloc, cAllo, cAllocFn, hn, hcall, NULL, hne]
      · rw [mem_modifyMem]
        exact hkeeps

theorem cFreeFn_spec (hs : CHeap.Serves base L h) (hb : b ∈ L) :
    exists h', alloFree (cAllo lib) b.ptr b.size h = some h' ∧
      KeepsBytes (L.erase b) (mem h) (mem h') ∧ CHeap.Serves base (L.erase b) h' := by
  have hne : b.ptr ≠ NULL := Nat.ne_of_gt (hs.wellFormed b (hs.owned hb)).left
  rcases (hs.note (Event.poison b.ptr b.size)).free lib hb with ⟨h', hcall, hkeeps, hs'⟩
  refine ⟨h', ?_, hkeeps, hs'⟩
  simpa [alloFree, cAllo, cFreeFn, hne] using hcall

theorem cReallocFn_spec (hs : CHeap.Serves base L h) (hb : b ∈ L) (hn : n ≠ 0) :
    exists p h', (cAllo lib).realloc b.ptr b.size n h = some (p, h') ∧
      Reallocated (fun h L => CHeap.Serves base L h) h L b n p h' := by
  have hne : b.ptr ≠ NULL := Nat.ne_of_gt (hs.wellFormed b (hs.owned hb)).left
  rcases (hs.note (Event.unpoison b.ptr b.size)).realloc lib hb hn with
    ⟨p, h', hcall, hcase⟩
  rcases hcase with ⟨hnull, hs', hkeeps⟩ | ⟨hp, hs', hkeeps, hmoved⟩
  · refine ⟨p, _, ?_, Or.inl ⟨hnull, hs'.note (Event.unpoison b.ptr b.size), ?_⟩⟩
    · have hp : ¬ p ≠ NULL := not_not.mpr hnull
      simp only [cAllo, cReallocFn, if_pos hne, hcall, Option.bind_eq_bind, Option.bind_some,
        if_neg hp]
    · rw [mem_modifyMem]
      exact hkeeps
  · refine ⟨p, _, ?_, Or.inr ⟨hp, hs'.note (Event.unpoison p n), ?_, ?_⟩⟩
    · have hp' : p ≠ NULL := hp
      simp only [cAllo, cReallocFn, if_pos hne, hcall, Option.bind_eq_bind, Option.bind_some,
        if_pos hp']
    · rw [mem_modifyMem]
      exact hkeeps
    · rw [mem_modifyMem]
      exact hmoved

theorem cFreeFn_null : alloFree (cAllo lib) NULL n h = some h := by
  simp [alloFree, cAllo, cFreeFn]

/-- The blocks `base` belong to other users of the library. The allocator does not give
back what its clients leave behind. -/
def cLawful (lib : CLib) (base : List Block) : Lawful (cAllo lib) where
  Inv := fun h L => CHeap.Serves base L h
  own := fun h x => ¬ Covered h.owned x
  wellFormed := fun hs => hs.holds.wellFormed
  disjoint := fun hs => hs.holds.disjoint
  own_apart := fun hs hb hx hown => hown ⟨_, hs.owned hb, hx⟩
  alloc := fun hs _ => cAllocFn_spec hs
  store := fun hs _ _ => ⟨hs.congr rfl, fun _ hown => hown⟩
  free := fun hs hb => cFreeFn_spec hs hb
  Closed := fun h L => CHeap.Serves base L h
  aligned := fun hs hb => Nat.dvd_trans (by decide) (hs.aligned _ hb)
  perm := fun hs hperm => hs.perm hperm
  freeNull := fun _ hs => ⟨_, cFreeFn_null, KeepsBytes.refl _ _, hs⟩
  realloc := fun hs hb hn _ _ => cReallocFn_spec hs hb hn
  destroy := fun hs => ⟨_, rfl, hs⟩

end Lawful

end Liballo
