import Liballo.Arena.Service
import Liballo.Buddy.Service
import Liballo.Buffer.Service
import Liballo.Fuzz.Body
import Liballo.Gen.Service
import Liballo.Page.Service
import Liballo.Pool.Service

/-!
# The fuzz target never aborts

Every input is worked off: no byte of a tracked block is ever lost, nothing undefined is
done, and at the end the heap and the mappings are those at the start.
-/

namespace Liballo

open Foundation

section Selectors

variable {os : Os} {lib : CLib} {locals : FuzzLocals} {maxPointers maxAlloc : Nat}
variable {h : CHeap}

/-- The limits that the input chooses. -/
structure FuzzLimits (maxPointers maxAlloc : Nat) : Prop where
  pointers : 0 < maxPointers
  pointers_le : maxPointers ≤ 128
  alloc : 0 < maxAlloc
  alloc_le : maxAlloc ≤ 2 ^ 21

/-- A run on the heap ends with what the heap had handed out before. -/
def FuzzOwns (h : CHeap) (run : Option CHeap) : Prop :=
  exists h', run = some h' ∧ h'.owned.Perm h.owned

theorem twoBytes_lt (high low : UInt8) : twoBytes high low < 2 ^ 16 := by
  have hhigh : high.toNat < 2 ^ 8 := high.toNat_lt
  have hlow : low.toNat < 2 ^ 8 := low.toNat_lt
  unfold twoBytes
  apply Nat.or_lt_two_pow
  · rw [Nat.shiftLeft_eq]
    omega
  · omega

/-- The body on a service whose memory is all that it has. -/
theorem fuzzBody_returns {σ : Type} [HasMem σ] {a : Allo σ} {limit : Nat}
    (S : Service a limit) (hlimits : FuzzLimits maxPointers maxAlloc)
    (hlimit : 2 ^ 21 ≤ limit) {s : σ} (hs : S.Inv s []) (data : List UInt8) :
    exists s', fuzzBody a maxPointers maxAlloc data s = some s' ∧ S.Closed s' [] :=
  fuzzBody_closes S hlimits.pointers hlimits.alloc
    (Nat.le_trans hlimits.alloc_le hlimit) data hs

/-- The child is destroyed after the body. -/
theorem fuzzChild_owns {χ : Type} {child : χ -> CHeap} {body : Option χ}
    (hbody : exists s', body = some s' ∧ CHeap.Serves h.owned [] (child s')) :
    FuzzOwns h (body.bind (fun s' => alloDestroy (cAllo lib) (child s'))) := by
  rcases hbody with ⟨s', rfl, hclosed⟩
  rcases (cLawful lib h.owned).destroy hclosed with ⟨h', hdestroy, hend⟩
  exact ⟨h', hdestroy, CHeap.Serves.owned_perm hend⟩

theorem fuzzC_owns (hlimits : FuzzLimits maxPointers maxAlloc)
    (howned : AllWellFormed h.owned) (data : List UInt8) :
    FuzzOwns h (fuzzC lib locals maxPointers maxAlloc data h) := by
  unfold fuzzC makeCAllocator
  split
  · exact ⟨h, rfl, List.Perm.refl _⟩
  · rename_i c hc
    split at hc
    · cases hc
    · cases hc
      rcases fuzzBody_returns (cLawful lib h.owned).service hlimits (by decide)
        (CHeap.Serves.start howned) data with ⟨h', hcall, hclosed⟩
      exact ⟨h', hcall, CHeap.Serves.owned_perm hclosed⟩

theorem fuzzFixedBuf_owns (hlimits : FuzzLimits maxPointers maxAlloc)
    (howned : AllWellFormed h.owned) (data : List UInt8) :
    FuzzOwns h (fuzzFixedBuf lib locals maxPointers maxAlloc data h) := by
  match data with
  | [] | [_] => exact ⟨h, rfl, List.Perm.refl _⟩
  | high :: low :: data =>
      simp only [fuzzFixedBuf]
      have hsize : twoBytes high low % (maxAlloc * maxPointers + 1) + 1 ≤ 2 ^ 28 + 1 := by
        have hproduct : maxAlloc * maxPointers ≤ 2 ^ 21 * 128 :=
          Nat.mul_le_mul hlimits.alloc_le hlimits.pointers_le
        have hmod : twoBytes high low % (maxAlloc * maxPointers + 1) <
            maxAlloc * maxPointers + 1 := Nat.mod_lt _ (Nat.succ_pos _)
        omega
      generalize twoBytes high low % (maxAlloc * maxPointers + 1) + 1 = bufSize at hsize ⊢
      rcases (CHeap.Serves.start howned).malloc lib bufSize with
        ⟨backing, h', hmalloc, _, hcase⟩
      -- The buffer goes back, also if it was refused.
      have hfree : forall m, FuzzOwns h ((setMem m h').free lib backing) := by
        intro m
        rcases hcase with ⟨hnull, hserves⟩ | ⟨_, hserves⟩
        · exact ⟨_, if_pos hnull, hserves.owned_perm⟩
        · have hserves' : CHeap.Serves h.owned [⟨backing, bufSize⟩] (setMem m h') :=
            hserves.congr rfl
          rcases hserves'.free lib List.mem_cons_self with ⟨h'', hcall, _, hend⟩
          rw [List.erase_cons_head] at hend
          exact ⟨h'', hcall, hend.owned_perm⟩
      rw [hmalloc]
      dsimp only
      split
      · exact hfree h'.mem
      · rename_i st hmake
        rcases hcase with ⟨hnull, _⟩ | ⟨_, hserves⟩
        · have hrefused : makeFixedBufAllocator locals.a backing bufSize (mem h') =
              Except.error AlloError.inval := if_pos (Or.inr (Or.inl hnull))
          rw [hrefused] at hmake
          cases hmake
        · have hwell : Block.WellFormed ⟨backing, bufSize⟩ :=
            hserves.holds.wellFormed _ List.mem_cons_self
          rcases fuzzBody_returns (bufService bufSize (2 ^ 21) (by omega)) hlimits
            (Nat.le_refl _) (fixedBufServes_of_make hwell hmake) data with
            ⟨s, hcall, _⟩
          rw [hcall]
          exact hfree _

theorem fuzzArena_owns (hlimits : FuzzLimits maxPointers maxAlloc)
    (howned : AllWellFormed h.owned) (data : List UInt8) :
    FuzzOwns h (fuzzArena lib locals maxPointers maxAlloc data h) := by
  match data with
  | [] | [_] => exact ⟨h, rfl, List.Perm.refl _⟩
  | high :: low :: data =>
      simp only [fuzzArena, makeCAllocator]
      by_cases hchild : locals.child = NULL
      · rw [if_pos hchild]
        exact ⟨h, rfl, List.Perm.refl _⟩
      · have hsize : twoBytes high low + 1 ≤ 2 ^ 16 := twoBytes_lt high low
        rw [if_neg hchild]
        dsimp only
        generalize twoBytes high low + 1 = blockSize at hsize ⊢
        have hsum : blockSize + 32 ≤ 2 ^ 64 := by omega
        have hmade : exists made,
            makeArenaAllocator locals.a (some (cAllo lib)) blockSize h = some made ∧ _ :=
          makeArenaAllocator_serves (A := cLawful lib h.owned) (CHeap.Serves.start howned)
            hsum
        rcases hmade with ⟨made, hmake, ⟨e, h', rfl, hserves⟩ | ⟨st, rfl, hserves⟩⟩
        · rw [hmake]
          exact ⟨h', rfl, CHeap.Serves.owned_perm hserves⟩
        · rw [hmake]
          exact fuzzChild_owns (fuzzBody_returns
            (arenaService (cLawful lib h.owned) [] blockSize (2 ^ 21) (by omega)) hlimits
            (Nat.le_refl _) hserves data)

theorem fuzzPool_owns (hlimits : FuzzLimits maxPointers maxAlloc)
    (howned : AllWellFormed h.owned) (data : List UInt8) :
    FuzzOwns h (fuzzPool lib locals maxPointers maxAlloc data h) := by
  match data with
  | [] | [_] | [_, _] | [_, _, _] => exact ⟨h, rfl, List.Perm.refl _⟩
  | high :: low :: high' :: low' :: data =>
      simp only [fuzzPool, makeCAllocator]
      by_cases hchild : locals.child = NULL
      · rw [if_pos hchild]
        exact ⟨h, rfl, List.Perm.refl _⟩
      · rw [if_neg hchild]
        dsimp only
        have hblock : twoBytes high low % 4096 + 1 ≤ 4096 :=
          Nat.mod_lt _ (by decide)
        have htotal : twoBytes high' low' % 1024 + 1 ≤ 1024 :=
          Nat.mod_lt _ (by decide)
        generalize twoBytes high low % 4096 + 1 = blockSize at hblock ⊢
        generalize twoBytes high' low' % 1024 + 1 = totalBlocks at htotal ⊢
        have hrounded : roundedBlockSize blockSize ≤ 4103 := by
          unfold roundedBlockSize sizeofPoolFreeNode
          omega
        have hsize : roundedBlockSize blockSize * totalBlocks < 2 ^ 64 :=
          Nat.lt_of_le_of_lt (Nat.mul_le_mul hrounded htotal) (by decide)
        have hmade : exists made, makePoolAllocator locals.a (some (cAllo lib)) NULL blockSize
            totalBlocks h = some made ∧ _ :=
          makePoolAllocator_serves (C := (cLawful lib h.owned).toContract)
            (CHeap.Serves.start howned) hsize
        rcases hmade with ⟨made, hmake, ⟨e, h', rfl, hserves⟩ | ⟨st, rfl, hserves⟩⟩
        · rw [hmake]
          exact ⟨h', rfl, CHeap.Serves.owned_perm hserves⟩
        · rw [hmake]
          exact fuzzChild_owns (fuzzBody_returns
            (poolLawful (cLawful lib h.owned) []).service hlimits (by decide) hserves data)

theorem fuzzBuddy_owns (hlimits : FuzzLimits maxPointers maxAlloc)
    (howned : AllWellFormed h.owned) (data : List UInt8) :
    FuzzOwns h (fuzzBuddy lib locals maxPointers maxAlloc data h) := by
  match data with
  | [] => exact ⟨h, rfl, List.Perm.refl _⟩
  | order :: data =>
      simp only [fuzzBuddy, makeCAllocator]
      by_cases hchild : locals.child = NULL
      · rw [if_pos hchild]
        exact ⟨h, rfl, List.Perm.refl _⟩
      · rw [if_neg hchild]
        dsimp only
        have horder : order.toNat % 11 + 10 ≤ 63 := by omega
        have hsize : 1 <<< (order.toNat % 11 + 10) ≤ 2 ^ 63 := by
          rw [Nat.one_shiftLeft]
          exact Nat.pow_le_pow_right Nat.two_pos horder
        generalize 1 <<< (order.toNat % 11 + 10) = size at hsize ⊢
        have hserves : (cLawful lib h.owned).Inv h [] := CHeap.Serves.start howned
        have hmade : exists made, makeBuddyAllocator locals.a (some (cAllo lib)) NULL size h =
            some made ∧ _ :=
          makeBuddyAllocator_total (C := (cLawful lib h.owned).toContract) hsize hserves
        rcases hmade with ⟨made, hmake, ⟨e, h', rfl, hfailed⟩ | ⟨t, rfl, _⟩⟩
        · rw [hmake]
          exact ⟨h', rfl, CHeap.Serves.owned_perm hfailed⟩
        · have hstart := buddyServes_of_make (C := (cLawful lib h.owned).toContract)
            hserves hmake
          rw [hmake]
          exact fuzzChild_owns (fuzzBody_returns
            (buddyLawful (cLawful lib h.owned) []).service hlimits (by decide) hstart data)

/-- A run on mappings of the system ends with the mappings there were before. -/
def FuzzMaps (h : CHeap) (run : Option CHeap) : Prop :=
  exists h', run = some h' ∧ h'.owned = h.owned ∧
    (liveMaps (mem h').trace).Perm (liveMaps (mem h).trace)

theorem fuzzPage_maps (hpage : exists k, 4 ≤ k ∧ k < 64 ∧ os.pageSize = 2 ^ k)
    (hos : Os.Aligned os) (hlimits : FuzzLimits maxPointers maxAlloc) (data : List UInt8) :
    FuzzMaps h (fuzzPage os locals maxPointers maxAlloc data h) := by
  unfold fuzzPage
  cases hmake : makePageAllocator os locals.a (mem h) with
  | failed e m => exact ⟨setMem m h, rfl, rfl, (makePageAllocator_failed hmake).left.maps⟩
  | ok st =>
      have hserves : PageServes (liveMaps (mem h).trace) st [] :=
        ⟨⟨[], makePageAllocator_spec hpage hmake⟩, fun b hb => absurd hb List.not_mem_nil⟩
      rcases fuzzBody_returns (pageLawful os hos (liveMaps (mem h).trace)).service hlimits
        (by decide) hserves data with ⟨s, hcall, hclosed⟩
      dsimp only
      rw [hcall]
      exact ⟨_, rfl, rfl, hclosed⟩

theorem fuzzGen_maps (hpage : exists k, 4 ≤ k ∧ k < 64 ∧ os.pageSize = 2 ^ k)
    (hlimits : FuzzLimits maxPointers maxAlloc) {st : GenState}
    (hmake : makeGenAllocator os locals.a locals.page (mem h) = some (Made.ok st))
    (data : List UInt8) :
    FuzzMaps h (fuzzGen os locals maxPointers maxAlloc data h) := by
  rcases fuzzBody_returns (genService os locals.page (liveMaps (mem h).trace)) hlimits
    (by decide) (genServes_of_make hpage hmake) data with ⟨s, hcall, hclosed⟩
  unfold fuzzGen
  rw [hmake]
  simp only [Option.bind_eq_bind, Option.bind_some, hcall]
  exact ⟨_, rfl, rfl, hclosed⟩

end Selectors

/-!
# The whole target
-/

/-- The number of the allocator that the input selects. -/
def fuzzSelector (data : List UInt8) : Nat :=
  (data.headD 0).toNat % 7

theorem fuzzLimits (d₁ : UInt8) (n : Nat) :
    FuzzLimits (d₁.toNat % absoluteMaxPointers + 1) (n % absoluteMaxAlloc + 1) where
  pointers := Nat.succ_pos _
  pointers_le := Nat.mod_lt _ (by decide)
  alloc := Nat.succ_pos _
  alloc_le := Nat.mod_lt _ (by decide)

/-- The run comes back without a check that failed. What it took from the heap and, where
the allocator maps pages itself, from the system is given back. -/
def FuzzEnds (data : List UInt8) (h : CHeap) (run : Option CHeap) : Prop :=
  exists h', run = some h' ∧ h'.owned.Perm h.owned ∧
    (fuzzSelector data = 1 ∨ fuzzSelector data = 6 ->
      (liveMaps (mem h').trace).Perm (liveMaps (mem h).trace))

section Target

variable {os : Os} {lib : CLib} {locals : FuzzLocals} {h : CHeap} {data : List UInt8}
variable {run : Option CHeap}

theorem FuzzEnds.idle : FuzzEnds data h (some h) :=
  ⟨h, rfl, List.Perm.refl _, fun _ => List.Perm.refl _⟩

theorem FuzzEnds.of_owns (hrun : FuzzOwns h run)
    (hno : ¬ (fuzzSelector data = 1 ∨ fuzzSelector data = 6)) : FuzzEnds data h run := by
  rcases hrun with ⟨h', hcall, hperm⟩
  exact ⟨h', hcall, hperm, fun hyes => absurd hyes hno⟩

theorem FuzzEnds.of_maps (hrun : FuzzMaps h run) : FuzzEnds data h run := by
  rcases hrun with ⟨h', hcall, hsame, hmaps⟩
  exact ⟨h', hcall, hsame ▸ List.Perm.refl _, fun _ => hmaps⟩

/-- Every input is worked off, whatever the system and the library answer. The generic
allocator has to be made. -/
theorem fuzz_never_aborts (hpage : exists k, 4 ≤ k ∧ k < 64 ∧ os.pageSize = 2 ^ k)
    (hos : Os.Aligned os) (howned : AllWellFormed h.owned) (data : List UInt8)
    (hgen : fuzzSelector data = 6 -> exists st,
      makeGenAllocator os locals.a locals.page (mem h) = some (Made.ok st)) :
    FuzzEnds data h (llvmFuzzerTestOneInput os lib locals data h) := by
  unfold llvmFuzzerTestOneInput
  split
  · exact FuzzEnds.idle
  · match data with
    | [] | [_] | [_, _] | [_, _, _] | [_, _, _, _] => exact FuzzEnds.idle
    | d₀ :: d₁ :: d₂ :: d₃ :: d₄ :: rest =>
        dsimp only
        have hlimits := fuzzLimits d₁
          ((d₂.toNat <<< 16) ||| (d₃.toNat <<< 8) ||| d₄.toNat)
        have hlt : d₀.toNat % 7 < 7 := Nat.mod_lt _ (by decide)
        have hselector : fuzzSelector (d₀ :: d₁ :: d₂ :: d₃ :: d₄ :: rest) =
            d₀.toNat % 7 := rfl
        generalize d₀.toNat % 7 = selector at hlt hselector ⊢
        have howns : forall run, FuzzOwns h run -> selector ≠ 1 -> selector ≠ 6 ->
            FuzzEnds (d₀ :: d₁ :: d₂ :: d₃ :: d₄ :: rest) h run := by
          intro run hrun hone hsix
          apply FuzzEnds.of_owns hrun
          rw [hselector]
          exact fun heither => heither.elim hone hsix
        match selector with
        | 0 => exact howns _ (fuzzC_owns hlimits howned rest) (by decide) (by decide)
        | 1 => exact FuzzEnds.of_maps (fuzzPage_maps hpage hos hlimits rest)
        | 2 => exact howns _ (fuzzFixedBuf_owns hlimits howned rest) (by decide) (by decide)
        | 3 => exact howns _ (fuzzArena_owns hlimits howned rest) (by decide) (by decide)
        | 4 => exact howns _ (fuzzPool_owns hlimits howned rest) (by decide) (by decide)
        | 5 => exact howns _ (fuzzBuddy_owns hlimits howned rest) (by decide) (by decide)
        | 6 =>
            rcases hgen hselector with ⟨st, hmake⟩
            exact FuzzEnds.of_maps (fuzzGen_maps hpage hlimits hmake rest)
        | n + 7 => exact absurd hlt (Nat.not_lt.mpr (Nat.le_add_left 7 n))

end Target

/-- A request for 100 bytes of the generic allocator, and one to make them 200. -/
theorem fuzz_never_aborts_gen :
    FuzzEnds [6, 1, 0, 4, 0, 0, 0, 100, 2, 0, 200] ⟨[], 0, onePageMem⟩
      (llvmFuzzerTestOneInput roomyOs ⟨fun _ => 0, fun _ _ => 0⟩ ⟨8, 16, 4096⟩
        [6, 1, 0, 4, 0, 0, 0, 100, 2, 0, 200] ⟨[], 0, onePageMem⟩) :=
  fuzz_never_aborts roomyOs_page roomyOs_aligned (fun _ hb => absurd hb List.not_mem_nil) _
    (fun _ => roomyOs_made)

end Liballo
