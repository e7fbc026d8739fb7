import Mathlib.Data.Nat.ModEq
import Liballo.Arena.Backing

/-!
# An arena of one block behaves like a fixed buffer

A fixed buffer and an arena whose blocks have the same size are given the same calls.
While the fixed buffer serves them, both answer pointers at the same offset, and the
arena gets by with its first block. Blocks and stores are named by their offset in the
storage; `buffer` and `start` are where the storage of the one and of the other begins.
-/

namespace Liballo

open Foundation
open ArenaBlock

/-- The block at that offset of the storage at `base`. -/
def offsetBlock (base : Nat) (b : Block) : Block :=
  ⟨base + b.ptr, b.size⟩

section Agreement

variable {χ : Type} [HasMem χ]

/-- A child that comes back from no call. -/
def noChild : Allo χ where
  alloc := fun _ _ => none
  realloc := fun _ _ _ _ => none
  freeMem := fun _ _ _ => none
  destroy := none
  contains := none

/-- Both manage `size` bytes and have handed out the same number of them. The arena has
one block. -/
structure TwinStates (buffer start size : Nat) (s : BufState) (r : ArenaState χ) :
    Prop where
  region : s.ctx.region = ⟨buffer, size⟩
  offset_le : s.ctx.offset ≤ size
  buffer_pos : 0 < buffer
  buffer_lt : buffer + size < 2 ^ 64
  first : r.ctx.first = r.ctx.current
  current : r.ctx.current + sizeofArenaBlock = start
  current_pos : 0 < r.ctx.current
  start_lt : start + size < 2 ^ 64
  blockSize : r.ctx.blockSize = size
  next : next (mem r) r.ctx.current = NULL
  size : ArenaBlock.size (mem r) r.ctx.current = size
  offset : ArenaBlock.offset (mem r) r.ctx.current = s.ctx.offset

/-- The bytes at the offsets `W` are the same. -/
def SameBytes (buffer start : Nat) (W : Set Nat) (m m' : Mem) : Prop :=
  forall x, x ∈ W -> m.bytes (buffer + x) = m'.bytes (start + x)

/-- The offsets `W` after `n` bytes were copied. -/
def copiedOffsets (W : Set Nat) (dst src n : Nat) : Set Nat :=
  { x | if dst ≤ x ∧ x < dst + n then src + (x - dst) ∈ W else x ∈ W }

/-- Both answers are null, or both are at the same offset of the storage. -/
def SameAnswer (buffer start size p q : Nat) : Prop :=
  p = NULL ∧ q = NULL ∨
    exists k, k < size ∧ p = buffer + k ∧ q = start + k

namespace TwinStates

variable {buffer start size : Nat} {s s' : BufState} {r r' : ArenaState χ}

theorem buffer_eq (h : TwinStates buffer start size s r) : s.ctx.buffer = buffer :=
  congrArg Block.ptr h.region

theorem size_eq (h : TwinStates buffer start size s r) : s.ctx.size = size :=
  congrArg Block.size h.region

theorem start_eq (h : TwinStates buffer start size s r) :
    sizeAdd r.ctx.current sizeofArenaBlock = start := by
  have hlt := h.start_lt
  rw [← h.current] at hlt ⊢
  exact sizeAdd_eq (by omega)

/-- Both offsets become `v`, and the other words of the header stay. -/
theorem ofOffset (h : TwinStates buffer start size s r) {v : Nat} (hv : v ≤ size)
    (hctx : s'.ctx = { s.ctx with offset := v }) (hctx' : r'.ctx = r.ctx)
    (hword : forall k, k ≤ 8 ->
      (mem r').word (r.ctx.current + k) = (mem r).word (r.ctx.current + k))
    (hoffset : ArenaBlock.offset (mem r') r.ctx.current = v) :
    TwinStates buffer start size s' r' where
  region := by rw [hctx]; exact h.region
  offset_le := by rw [hctx]; exact hv
  buffer_pos := h.buffer_pos
  buffer_lt := h.buffer_lt
  first := by rw [hctx']; exact h.first
  current := by rw [hctx']; exact h.current
  current_pos := by rw [hctx']; exact h.current_pos
  start_lt := h.start_lt
  blockSize := by rw [hctx']; exact h.blockSize
  next := by
    rw [hctx']
    exact (hword 0 (by decide)).trans h.next
  size := by
    rw [hctx']
    exact (hword 8 (by decide)).trans h.size
  offset := by
    rw [hctx', hctx]
    exact hoffset

/-- The header of the block of the arena lies below the storage. -/
theorem congr (h : TwinStates buffer start size s r) (hctx : s'.ctx = s.ctx)
    (hctx' : r'.ctx = r.ctx)
    (hbytes : forall x, x < start -> (mem r').bytes x = (mem r).bytes x) :
    TwinStates buffer start size s' r' := by
  have hword : forall k, k ≤ 16 ->
      (mem r').word (r.ctx.current + k) = (mem r).word (r.ctx.current + k) := by
    intro k hk
    apply Mem.word_congr
    intro x _ hlt
    apply hbytes
    rw [← h.current]
    simp only [sizeofArenaBlock]
    omega
  apply h.ofOffset h.offset_le hctx hctx'
  · exact fun k hk => hword k (Nat.le_trans hk (by decide))
  · exact (hword 16 (by decide)).trans h.offset

/-- Both offsets are set to the same value. -/
theorem setOffset (h : TwinStates buffer start size s r) {v : Nat} (hv : v ≤ size)
    (hctx : s'.ctx = { s.ctx with offset := v }) (hctx' : r'.ctx = r.ctx)
    {e : Event}
    (hmem : mem r' = (ArenaBlock.setOffset r.ctx.current v (mem r)).note e) :
    TwinStates buffer start size s' r' := by
  have hvlt : v < 2 ^ 64 := Nat.lt_of_le_of_lt (Nat.le_trans hv (Nat.le_add_left _ _))
    h.buffer_lt
  apply h.ofOffset hv hctx hctx'
  · intro k hk
    rw [hmem]
    apply Mem.word_writeWord_disjoint
    omega
  · rw [hmem]
    exact Mem.word_writeWord_same hvlt

/-!
# Allocation
-/

/-- What the fixed buffer does when it serves a request. -/
theorem bufAlloc_served (h : TwinStates buffer start size s r) {n p : Nat}
    (hcall : bufAllocFn n s = some (p, s')) (hne : p ≠ NULL) :
    n ≠ 0 ∧ alloAlignUp s.ctx.offset 8 + n ≤ size ∧
      p = buffer + alloAlignUp s.ctx.offset 8 ∧
      s'.ctx = { s.ctx with offset := alloAlignUp s.ctx.offset 8 + n } ∧
      (mem s').bytes = (mem s).bytes := by
  have hoffset := h.offset_le
  have hlt := h.buffer_lt
  unfold bufAllocFn at hcall
  rw [h.buffer_eq, h.size_eq] at hcall
  by_cases hpos : n = 0
  · rw [if_pos hpos] at hcall
    cases hcall
    exact absurd rfl hne
  rw [if_neg hpos, if_neg (not_not.mpr hoffset)] at hcall
  dsimp only at hcall
  generalize alloAlignUp s.ctx.offset 8 = k at hcall ⊢
  split at hcall
  · cases hcall
    exact absurd rfl hne
  rename_i hfits
  rw [not_or, Nat.not_lt, Nat.not_lt] at hfits
  have hend : k + n ≤ size := by omega
  rw [sizeAdd_eq (show buffer + k < 2 ^ 64 by omega),
    sizeAdd_eq (show k + n < 2 ^ 64 by omega)] at hcall
  cases hcall
  exact ⟨hpos, hend, rfl, rfl, rfl⟩

/-- The arena serves the same request from its block, whatever its child is. -/
theorem arenaAlloc_served (h : TwinStates buffer start size s r) (a : Allo χ) {n : Nat}
    (hpos : n ≠ 0) (hfits : alloAlignUp s.ctx.offset 8 + n ≤ size) :
    arenaAllocFn a n r = some (start + alloAlignUp s.ctx.offset 8,
      setMem ((ArenaBlock.setOffset r.ctx.current (alloAlignUp s.ctx.offset 8 + n)
        (mem r)).note (Event.unpoison (start + alloAlignUp s.ctx.offset 8) n)) r) := by
  have hlt := h.start_lt
  have haligned : arenaAlignedOffset r = alloAlignUp s.ctx.offset 8 := by
    unfold arenaAlignedOffset
    rw [h.offset]
  generalize alloAlignUp s.ctx.offset 8 = k at hfits haligned ⊢
  have hsmall : ¬ n > r.ctx.blockSize := by
    rw [h.blockSize]
    omega
  have hroom : ¬ sizeAdd k n > ArenaBlock.size (mem r) r.ctx.current := by
    rw [h.size, sizeAdd_eq (by omega)]
    omega
  have hptr : r.ctx.current + sizeofArenaBlock + k < 2 ^ 64 := by
    rw [h.current]
    omega
  have hbump := arenaBump_eq (s := r) (show k + n < 2 ^ 64 by omega) hptr
  rw [h.current] at hbump
  unfold arenaAllocFn
  rw [if_neg hpos]
  dsimp only
  rw [if_neg hsmall, haligned, if_neg hroom, hbump]

/-- What corresponding calls leave behind. -/
structure Served (buffer start size : Nat) (s : BufState) (r : ArenaState χ)
    (p q : Nat) (s' : BufState) (r' : ArenaState χ) : Prop where
  states : TwinStates buffer start size s' r'
  answer : SameAnswer buffer start size p q
  left : (mem s').bytes = (mem s).bytes
  right : forall x, start ≤ x -> (mem r').bytes x = (mem r).bytes x

theorem alloc_null (h : TwinStates buffer start size s r) (a : Allo χ)
    (hcall : bufAllocFn 0 s = some (NULL, s')) :
    arenaAllocFn a 0 r = some (NULL, r) ∧
      Served buffer start size s r NULL NULL s' r := by
  have hsame : s' = s := by
    unfold bufAllocFn at hcall
    rw [if_pos rfl] at hcall
    cases hcall
    rfl
  subst hsame
  exact ⟨rfl,
    { states := h
      answer := Or.inl ⟨rfl, rfl⟩
      left := rfl
      right := fun _ _ => rfl }⟩

theorem alloc (h : TwinStates buffer start size s r) {n p : Nat}
    (hcall : bufAllocFn n s = some (p, s')) (hserved : p = NULL -> n = 0) :
    exists q r', (forall a : Allo χ, arenaAllocFn a n r = some (q, r')) ∧
      Served buffer start size s r p q s' r' := by
  by_cases hnull : p = NULL
  · have hzero := hserved hnull
    subst hnull hzero
    exact ⟨NULL, r, fun a => (h.alloc_null a hcall).left,
      (h.alloc_null noChild hcall).right⟩
  · rcases h.bufAlloc_served hcall hnull with ⟨hpos, hfits, hp, hctx, hbytes⟩
    refine ⟨_, _, fun a => h.arenaAlloc_served a hpos hfits, ?_⟩
    refine
      { states := h.setOffset hfits hctx rfl (HasMem.mem_setMem _ r)
        answer := Or.inr ⟨_, by omega, hp, rfl⟩
        left := hbytes
        right := ?_ }
    intro x hx
    rw [HasMem.mem_setMem]
    apply Mem.writeWord_bytes_outside
    rw [← h.current] at hx
    simp only [sizeofArenaBlock] at hx
    omega

/-!
# Freeing
-/

/-- Freeing changes no byte, and the walk over the one block of the arena ends. -/
theorem free (h : TwinStates buffer start size s r) (ptr ptr' n : Nat) :
    exists r', arenaFreeFn ptr' n r = some r' ∧
      Served buffer start size s r NULL NULL (bufFreeFn ptr n s) r' := by
  have hbytes := bufFreeFn_bytes ptr n s
  have hctx := bufFreeFn_ctx ptr n s
  have hsame : forall r' : ArenaState χ, r'.ctx = r.ctx ->
      (mem r').bytes = (mem r).bytes ->
        Served buffer start size s r NULL NULL (bufFreeFn ptr n s) r' := by
    intro r' hctx' hbytes'
    exact
      { states := h.congr hctx hctx' (fun x _ => congrFun hbytes' x)
        answer := Or.inl ⟨rfl, rfl⟩
        left := hbytes
        right := fun x _ => congrFun hbytes' x }
  have hchain : Chain (ArenaBlock.next (mem r)) r.ctx.first [r.ctx.current] :=
    ⟨h.first, Nat.ne_of_gt h.current_pos, h.next⟩
  have hanswer : exists answer, arenaContainsFn ptr' r = some answer := by
    unfold arenaContainsFn
    split
    · exact ⟨_, rfl⟩
    · have hlen : [r.ctx.current].length < walkBound := show 1 < 2 ^ 64 by decide
      rcases arenaScan_spec r.ctx.current ptr' hchain hlen with ⟨answer, hscan, _⟩
      exact ⟨answer, hscan⟩
  rcases hanswer with ⟨answer, hanswer⟩
  unfold arenaFreeFn
  by_cases hnull : ptr' = NULL ∨ n = 0
  · rw [if_pos hnull]
    exact ⟨r, rfl, hsame r rfl rfl⟩
  rw [if_neg hnull, hanswer]
  simp only [Option.bind_eq_bind, Option.bind_some]
  by_cases hno : answer = AlloContains.no
  · rw [if_pos hno]
    exact ⟨r, rfl, hsame r rfl rfl⟩
  · rw [if_neg hno]
    refine ⟨_, rfl, hsame _ rfl ?_⟩
    rw [mem_modifyMem]
    rfl

end TwinStates

/-!
# Reallocation
-/

/-- The check of `bufReallocFn` for resizing in place. -/
def BufInPlace (s : BufState) (ptr old n : Nat) : Prop :=
  sizeAdd ptr old = sizeAdd s.ctx.buffer s.ctx.offset ∧
    sizeAdd (sizeSub ptr s.ctx.buffer) n ≤ s.ctx.size

instance (s : BufState) (ptr old n : Nat) : Decidable (BufInPlace s ptr old n) :=
  inferInstanceAs (Decidable (_ ∧ _))

/-- The offsets that are known to be the same after a reallocation answered `p`. -/
def reallocOffsets (buffer : Nat) (W : Set Nat) (b : Block) (p : Nat) : Set Nat :=
  if p = NULL ∨ p = buffer + b.ptr then W
  else copiedOffsets W (p - buffer) b.ptr b.size

/-- The assertion of the copy is decided without a wrapped sum. -/
def CopyInSpace (s : BufState) (b : Block) (n : Nat) : Prop :=
  b.size < n -> ¬ BufInPlace s b.ptr b.size n ->
    s.ctx.buffer + alloAlignUp s.ctx.offset 8 + b.size ≤ b.ptr ∨ b.stop < 2 ^ 64

/-- Sums with a common address are equal if the rests are. -/
theorem sizeAdd_shift_iff (x y z v : Nat) :
    sizeAdd (x + y) z = sizeAdd x v <-> (y + z) % sizeMod = v % sizeMod := by
  unfold sizeAdd
  rw [Nat.add_assoc]
  constructor
  · exact fun heq => Nat.ModEq.add_left_cancel' x heq
  · exact fun heq => Nat.ModEq.add_left x heq

theorem SameBytes.served {buffer start size : Nat} {s s' : BufState}
    {r r' : ArenaState χ} {p q : Nat} {W : Set Nat}
    (hsame : SameBytes buffer start W (mem s) (mem r))
    (h : TwinStates.Served buffer start size s r p q s' r') :
    SameBytes buffer start W (mem s') (mem r') := by
  intro x hx
  rw [h.left, h.right (start + x) (Nat.le_add_right _ _)]
  exact hsame x hx

theorem SameBytes.copy {buffer start k off n : Nat} {m m' : Mem} {W : Set Nat}
    (h : SameBytes buffer start W m m') :
    SameBytes buffer start (copiedOffsets W k off n)
      (m.copy (buffer + k) (buffer + off) n) (m'.copy (start + k) (start + off) n) := by
  intro x hx
  by_cases hin : k ≤ x ∧ x < k + n
  · have hsrc : off + (x - k) ∈ W := by
      unfold copiedOffsets at hx
      rw [Set.mem_ofPred_eq, if_pos hin] at hx
      exact hx
    have hi : x - k < n := by omega
    have hcopied : forall (base : Nat) (m : Mem),
        (m.copy (base + k) (base + off) n).bytes (base + x) =
          m.bytes (base + (off + (x - k))) := by
      intro base m
      have haddr : base + k + (x - k) = base + x := by omega
      rw [← haddr, Mem.copy_bytes_inside hi, Nat.add_assoc]
    rw [hcopied, hcopied]
    exact h _ hsrc
  · have hkept : x ∈ W := by
      unfold copiedOffsets at hx
      rw [Set.mem_ofPred_eq, if_neg hin] at hx
      exact hx
    rw [Mem.copy_bytes_outside (by omega), Mem.copy_bytes_outside (by omega)]
    exact h x hkept

namespace TwinStates

variable {buffer start size : Nat} {s s' : BufState} {r r' : ArenaState χ} {b : Block}

theorem bufBase (h : TwinStates buffer start size s r) (hb : b.ptr < size) :
    sizeSub (buffer + b.ptr) buffer = b.ptr := by
  have hlt := h.buffer_lt
  rw [sizeSub_eq (Nat.le_add_right _ _) (by omega)]
  exact Nat.add_sub_cancel_left buffer b.ptr

theorem arenaBase (h : TwinStates buffer start size s r) (hb : b.ptr < size) :
    arenaOffsetWithoutThis (start + b.ptr) r = b.ptr := by
  have hlt := h.start_lt
  unfold arenaOffsetWithoutThis
  rw [h.start_eq, sizeSub_eq (Nat.le_add_right _ _) (by omega)]
  exact Nat.add_sub_cancel_left start b.ptr

/-- Both recognise the last block alike and let it grow alike. -/
theorem inPlace_iff (h : TwinStates buffer start size s r) (hb : b.ptr < size)
    (n : Nat) :
    (arenaIsLast (start + b.ptr) b.size r = true ∧
      arenaFitsInCurrent (start + b.ptr) n r = true) <->
        BufInPlace s (buffer + b.ptr) b.size n := by
  unfold arenaIsLast arenaFitsInCurrent BufInPlace
  simp only [decide_eq_true_eq, h.start_eq, h.arenaBase hb, h.buffer_eq, h.bufBase hb,
    h.size, h.offset, h.size_eq]
  rw [sizeAdd_shift_iff, sizeAdd_shift_iff]
  constructor
  · exact fun hplace => ⟨hplace.left.left, hplace.right⟩
  · exact fun hplace => ⟨⟨hplace.left, Nat.le_add_right _ _⟩, hplace.right⟩

theorem resize (h : TwinStates buffer start size s r) (hb : b.ptr < size) {n : Nat}
    (hfits : sizeAdd b.ptr n ≤ size) :
    Served buffer start size s r (buffer + b.ptr) (start + b.ptr)
      (bufResizeLast (buffer + b.ptr) b.size n s)
      (arenaResizeLast (start + b.ptr) b.size n r) := by
  have hmem : exists e : Event, mem (arenaResizeLast (start + b.ptr) b.size n r) =
      (ArenaBlock.setOffset r.ctx.current (sizeAdd b.ptr n) (mem r)).note e := by
    simp only [arenaResizeLast, mem_modifyMem, h.arenaBase hb]
    exact ⟨_, rfl⟩
  rcases hmem with ⟨e, hmem⟩
  refine
    { states := h.setOffset hfits ?_ rfl hmem
      answer := Or.inr ⟨b.ptr, hb, rfl, rfl⟩
      left := ?_
      right := ?_ }
  · simp only [bufResizeLast, h.buffer_eq, h.bufBase hb]
  · show (bufResizeLast (buffer + b.ptr) b.size n s).mem.bytes = s.mem.bytes
    unfold bufResizeLast
    dsimp only
    split <;> rfl
  · intro x hx
    rw [hmem]
    apply Mem.writeWord_bytes_outside
    rw [← h.current] at hx
    simp only [sizeofArenaBlock] at hx
    omega

/-- What corresponding reallocations leave behind. -/
structure Moved (buffer start size : Nat) (s : BufState) (r : ArenaState χ)
    (b : Block) (p q : Nat) (s' : BufState) (r' : ArenaState χ) : Prop where
  states : TwinStates buffer start size s' r'
  answer : SameAnswer buffer start size p q
  bytes : forall W, SameBytes buffer start W (mem s) (mem r) ->
    SameBytes buffer start (reallocOffsets buffer W b p) (mem s') (mem r')

theorem moved_of_served {p q : Nat} (h : Served buffer start size s r p q s' r')
    (hp : p = NULL ∨ p = buffer + b.ptr) :
    Moved buffer start size s r b p q s' r' :=
  { states := h.states
    answer := h.answer
    bytes := fun W hsame => by
      unfold reallocOffsets
      rw [if_pos hp]
      exact hsame.served h }

/-- The copy to a new block is made by both, or by none of them. -/
theorem memcpy_eq (h : TwinStates buffer start size s r) {n k : Nat}
    (hk : k + n ≤ size) (hlt : b.size < n)
    (hspace : k + b.size ≤ b.ptr ∨ buffer + b.ptr + b.size < 2 ^ 64) {m m₁ : Mem}
    (hcopy : alloMemcpy (buffer + k) (buffer + b.ptr) b.size m = some m₁) (m' : Mem) :
    m₁ = m.copy (buffer + k) (buffer + b.ptr) b.size ∧
      alloMemcpy (start + k) (start + b.ptr) b.size m' =
        some (m'.copy (start + k) (start + b.ptr) b.size) ∧
      (k + b.size ≤ b.ptr ∨ b.ptr + b.size ≤ k) := by
  have hbuffer := h.buffer_lt
  have hstart := h.start_lt
  have hpos := h.current
  simp only [sizeofArenaBlock] at hpos
  have hdst : sizeAdd (buffer + k) b.size = buffer + k + b.size :=
    sizeAdd_eq (by omega)
  have hdst' : sizeAdd (start + k) b.size = start + k + b.size :=
    sizeAdd_eq (by omega)
  have hapart : k + b.size ≤ b.ptr ∨ b.ptr + b.size ≤ k := by
    unfold alloMemcpy at hcopy
    split at hcopy
    · cases hcopy
    split at hcopy
    · rename_i hassert
      rw [hdst] at hassert
      rcases hspace with hbelow | hend
      · exact Or.inl hbelow
      · rw [sizeAdd_eq hend] at hassert
        omega
    · cases hcopy
  refine ⟨alloMemcpy_inv hcopy, ?_, hapart⟩
  unfold alloMemcpy
  have hne : ¬ (start + k = NULL ∨ start + b.ptr = NULL) := by
    simp only [NULL]
    omega
  rw [if_neg hne, hdst']
  apply if_pos
  rcases hapart with hbelow | habove
  · exact Or.inl (by omega)
  · right
    rw [sizeAdd_eq (by omega)]
    omega

theorem realloc (h : TwinStates buffer start size s r) (hb : b.ptr < size)
    (hpos : 0 < b.size) {n p : Nat}
    (hcall : bufReallocFn (buffer + b.ptr) b.size n s = some (p, s'))
    (hserved : p = NULL -> n = 0) (hspace : CopyInSpace s (offsetBlock buffer b) n) :
    exists q r', (forall a : Allo χ,
        arenaReallocFn a (start + b.ptr) b.size n r = some (q, r')) ∧
      Moved buffer start size s r b p q s' r' := by
  have hplaces := h.inPlace_iff hb n
  unfold bufReallocFn at hcall
  change (if BufInPlace s (buffer + b.ptr) b.size n then _ else _) = _ at hcall
  by_cases hplace : BufInPlace s (buffer + b.ptr) b.size n
  · -- In place, with the same end.
    rw [if_pos hplace] at hcall
    cases hcall
    have hfits : sizeAdd b.ptr n ≤ size := by
      have hright := hplace.right
      rw [h.buffer_eq, h.bufBase hb, h.size_eq] at hright
      exact hright
    refine ⟨_, _, fun a => ?_, moved_of_served (h.resize hb hfits) (Or.inr rfl)⟩
    unfold arenaReallocFn
    rw [if_pos (hplaces.mpr hplace)]
  rw [if_neg hplace] at hcall
  have harena : ¬ (arenaIsLast (start + b.ptr) b.size r = true ∧
      arenaFitsInCurrent (start + b.ptr) n r = true) :=
    fun hboth => hplace (hplaces.mp hboth)
  by_cases hle : n ≤ b.size
  · rw [if_pos hle] at hcall
    cases hcall
    refine ⟨start + b.ptr, r, fun a => ?_, ?_⟩
    · unfold arenaReallocFn
      rw [if_neg harena, if_pos hle]
    · exact moved_of_served
        { states := h
          answer := Or.inr ⟨b.ptr, hb, rfl, rfl⟩
          left := rfl
          right := fun _ _ => rfl } (Or.inr rfl)
  rw [if_neg hle] at hcall
  have hlt : b.size < n := Nat.not_le.mp hle
  rcases Option.bind_eq_some_iff.mp hcall with ⟨⟨p₁, s₁⟩, halloc, hrest⟩
  dsimp only at hrest
  by_cases hnull : p₁ = NULL
  · rw [if_pos hnull] at hrest
    cases hrest
    exact absurd (hserved rfl) (by omega)
  rw [if_neg hnull] at hrest
  rcases Option.bind_eq_some_iff.mp hrest with ⟨m, hcopy, heq⟩
  cases heq
  rcases h.bufAlloc_served halloc hnull with ⟨hn, hfits, hp, _, _⟩
  have hspace' := hspace hlt hplace
  rcases h.alloc halloc (fun hno => absurd hno hnull) with ⟨q, r₁, hcalls, hdone⟩
  have hq : q = start + alloAlignUp s.ctx.offset 8 := by
    have hsame := (hcalls noChild).symm.trans (h.arenaAlloc_served noChild hn hfits)
    cases hsame
    rfl
  rw [h.buffer_eq] at hspace'
  generalize alloAlignUp s.ctx.offset 8 = k at hfits hp hspace' hq
  subst hp hq
  have hnear : k + b.size ≤ b.ptr ∨ buffer + b.ptr + b.size < 2 ^ 64 := by
    simp only [offsetBlock, Block.stop] at hspace'
    omega
  rcases h.memcpy_eq hfits hlt hnear hcopy (mem r₁) with
    ⟨rfl, hcopy', hapart⟩
  have hne : start + k ≠ NULL := by
    have hstart := h.current
    simp only [sizeofArenaBlock, NULL] at hstart ⊢
    omega
  refine ⟨start + k, setMem ((mem r₁).copy (start + k) (start + b.ptr) b.size) r₁,
    fun a => ?_, ?_⟩
  · unfold arenaReallocFn
    rw [if_neg harena, if_neg hle, hcalls a]
    simp only [Option.bind_eq_bind, Option.bind_some]
    rw [if_neg hne, hcopy']
    rfl
  · refine
      { states := hdone.states.congr rfl rfl ?_
        answer := hdone.answer
        bytes := ?_ }
    · intro x hx
      rw [HasMem.mem_setMem]
      exact Mem.copy_bytes_outside (by omega)
    · intro W hsame
      have hmoved : ¬ (buffer + k = NULL ∨ buffer + k = buffer + b.ptr) := by
        have hbuffer := h.buffer_pos
        simp only [NULL]
        omega
      unfold reallocOffsets
      rw [if_neg hmoved, Nat.add_sub_cancel_left, HasMem.mem_setMem]
      exact (hsame.served hdone).copy

end TwinStates

/-!
# Runs
-/

/-- A fixed buffer and an arena with their clients, and the offsets whose bytes the
client stored in both or copied from such. -/
structure Twin (χ : Type) where
  buf : Session BufState
  arena : Session (ArenaState χ)
  written : Set Nat

section Runs

variable {buffer start size : Nat} {t : Twin χ}

theorem TwinStates.start_pos {s : BufState} {r : ArenaState χ}
    (h : TwinStates buffer start size s r) : 0 < start := by
  rw [← h.current]
  exact Nat.lt_of_lt_of_le h.current_pos (Nat.le_add_right _ _)

/-- Corresponding reallocations through the wrapper. -/
theorem TwinStates.alloRealloc {s s' : BufState} {r : ArenaState χ} {b : Block}
    (h : TwinStates buffer start size s r) (hb : b.ptr < size) (hpos : 0 < b.size)
    {n p : Nat}
    (hcall : alloRealloc bufAllo (buffer + b.ptr) b.size n s = some (p, s'))
    (hserved : p = NULL -> n = 0) (hspace : CopyInSpace s (offsetBlock buffer b) n) :
    exists q r', (forall a : Allo χ,
        alloRealloc (arenaAllo a) (start + b.ptr) b.size n r = some (q, r')) ∧
      Moved buffer start size s r b p q s' r' ∧ (n = 0 -> p = NULL) := by
  have hp : buffer + b.ptr ≠ NULL :=
    Nat.ne_of_gt (Nat.lt_of_lt_of_le h.buffer_pos (Nat.le_add_right _ _))
  have hq : start + b.ptr ≠ NULL :=
    Nat.ne_of_gt (Nat.lt_of_lt_of_le h.start_pos (Nat.le_add_right _ _))
  rcases alloRealloc_cases hp hcall with
    ⟨rfl, rfl, hfree⟩ | ⟨hn, hsame, rfl, rfl⟩ | ⟨hn, hne, hpass⟩
  · rcases h.free (buffer + b.ptr) (start + b.ptr) b.size with ⟨r', hright, hdone⟩
    cases hfree
    exact ⟨NULL, r', fun a => alloRealloc_zero hright,
      moved_of_served hdone (Or.inl rfl), fun _ => rfl⟩
  · subst hsame
    refine ⟨start + b.ptr, r, fun a => alloRealloc_same hn hq, ?_,
      fun hzero => absurd hzero hn⟩
    exact moved_of_served
      { states := h
        answer := Or.inr ⟨b.ptr, hb, rfl, rfl⟩
        left := rfl
        right := fun _ _ => rfl } (Or.inr rfl)
  · rcases h.realloc hb hpos hpass hserved hspace with ⟨q, r', hcalls, hmoved⟩
    refine ⟨q, r', fun a => ?_, hmoved, fun hzero => absurd hzero hn⟩
    rw [alloRealloc_pass hn hq hne]
    exact hcalls a

def Twin.fresh (s : BufState) (r : ArenaState χ) (W : Set Nat) : Twin χ :=
  { buf := Session.start s, arena := Session.start r, written := W }

end Runs

end Agreement

end Liballo
