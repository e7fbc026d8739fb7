import Liballo.Arena.Defs
import Liballo.Foundation.LinkedList

/-!
# The block list of an arena

The blocks obtained from the child are kept as a ghost list in link order. The
headers in memory describe this list, and every operation either leaves the
headers alone, sets one offset, or links one new block in behind the current one.
-/

namespace Liballo

open Foundation

namespace ArenaBlock

def header (b : Block) : Block :=
  ⟨b.ptr, sizeofArenaBlock⟩

def payload (b : Block) : Block :=
  ⟨b.ptr + sizeofArenaBlock, b.size - sizeofArenaBlock⟩

/-- The part of the payload that was handed out. -/
def used (m : Mem) (b : Block) : Block :=
  ⟨b.ptr + sizeofArenaBlock, offset m b.ptr⟩

end ArenaBlock

open ArenaBlock

structure ArenaBlocks (c : ArenaContext) (m : Mem) (blocks : List Block) :
    Prop where
  chain : Chain (next m) c.first (blocks.map Block.ptr)
  size_eq : forall b, b ∈ blocks -> b.size = sizeofArenaBlock + size m b.ptr
  offset_le : forall b, b ∈ blocks -> offset m b.ptr ≤ size m b.ptr
  blockSize_le : forall b, b ∈ blocks -> c.blockSize ≤ size m b.ptr
  current : exists b, b ∈ blocks ∧ b.ptr = c.current ∧
    b.size = sizeofArenaBlock + c.blockSize
  wellFormed : AllWellFormed blocks
  disjoint : AllDisjoint blocks

/-- The writes of arena operations to headers. -/
def HeaderWrites (blocks : List Block) (x n : Nat) : Prop :=
  exists b, b ∈ blocks ∧ Block.Inside ⟨x, n⟩ (header b)

theorem HeaderWrites.mono {blocks blocks' : List Block}
    (hsub : forall b, b ∈ blocks -> b ∈ blocks') {x n : Nat}
    (h : HeaderWrites blocks x n) : HeaderWrites blocks' x n := by
  rcases h with ⟨b, hb, hinside⟩
  exact ⟨b, hsub b hb, hinside⟩

theorem headerWrites_word {blocks : List Block} {b : Block} (hb : b ∈ blocks)
    {k : Nat} (hk : k ≤ 16) : HeaderWrites blocks (b.ptr + k) 8 := by
  refine ⟨b, hb, Nat.le_add_right b.ptr k, ?_⟩
  simp only [header, Block.stop, sizeofArenaBlock]
  omega

namespace ArenaBlocks

variable {c : ArenaContext} {m m' : Mem} {blocks : List Block}

theorem header_inside (h : ArenaBlocks c m blocks) {b : Block}
    (hb : b ∈ blocks) : (header b).Inside b := by
  have hsize := h.size_eq b hb
  constructor
  · exact Nat.le_refl b.ptr
  · simp only [header, Block.stop]
    omega

theorem payload_inside (h : ArenaBlocks c m blocks) {b : Block}
    (hb : b ∈ blocks) : (payload b).Inside b := by
  have hsize := h.size_eq b hb
  constructor
  · exact Nat.le_add_right b.ptr sizeofArenaBlock
  · simp only [payload, Block.stop]
    omega

theorem used_inside (h : ArenaBlocks c m blocks) {b : Block}
    (hb : b ∈ blocks) : (used m b).Inside (payload b) := by
  have hsize := h.size_eq b hb
  have hoffset := h.offset_le b hb
  constructor
  · exact Nat.le_refl _
  · simp only [used, payload, Block.stop]
    omega

theorem eq_of_ptr_eq (h : ArenaBlocks c m blocks) {b d : Block}
    (hb : b ∈ blocks) (hd : d ∈ blocks) (hptr : b.ptr = d.ptr) : b = d :=
  h.disjoint.eq_of_ptr_eq (fun e he => (h.wellFormed e he).right.left) hb hd hptr

/-- Headers are apart from payloads, also within one block. -/
theorem header_payload_disjoint (h : ArenaBlocks c m blocks) {b d : Block}
    (hb : b ∈ blocks) (hd : d ∈ blocks) : (header b).Disjoint (payload d) := by
  by_cases heq : b = d
  · subst heq
    exact Or.inl (Nat.le_refl _)
  · have hdisj := h.disjoint.disjoint_of_ne hb hd heq
    have hheader := (h.header_inside hb).disjoint hdisj
    exact ((h.payload_inside hd).disjoint hheader.symm).symm

/-- The list only depends on the header bytes. -/
theorem congr (h : ArenaBlocks c m blocks)
    (hsame : forall b, b ∈ blocks -> forall x, (header b).Contains x ->
      m'.bytes x = m.bytes x) : ArenaBlocks c m' blocks := by
  have hword : forall b, b ∈ blocks -> forall k, k ≤ 16 ->
      m'.word (b.ptr + k) = m.word (b.ptr + k) := by
    intro b hb k hk
    apply Mem.word_congr
    intro x hx hlt
    apply hsame b hb x
    simp only [Block.Contains, header, Block.stop, sizeofArenaBlock]
    omega
  have hsize : forall b, b ∈ blocks -> size m' b.ptr = size m b.ptr :=
    fun b hb => hword b hb 8 (by omega)
  refine
    { chain := ?_
      size_eq := ?_
      offset_le := ?_
      blockSize_le := ?_
      current := h.current
      wellFormed := h.wellFormed
      disjoint := h.disjoint }
  · apply h.chain.congr
    intro x hx
    rcases List.mem_map.mp hx with ⟨b, hb, hptr⟩
    rw [← hptr]
    exact hword b hb 0 (by omega)
  · intro b hb
    rw [hsize b hb]
    exact h.size_eq b hb
  · intro b hb
    rw [hsize b hb]
    have hoffset : offset m' b.ptr = offset m b.ptr := hword b hb 16 (by omega)
    rw [hoffset]
    exact h.offset_le b hb
  · intro b hb
    rw [hsize b hb]
    exact h.blockSize_le b hb

theorem keepsBytes (h : ArenaBlocks c m blocks)
    (hkeeps : KeepsBytes blocks m m') : ArenaBlocks c m' blocks :=
  h.congr (fun b hb x hx =>
    hkeeps b hb x ((h.header_inside hb).contains hx))

/-- Stores that reach no header leave the list alone. -/
theorem wrote {P : Nat -> Nat -> Prop} (h : ArenaBlocks c m blocks)
    (hw : Wrote P m m')
    (hP : forall x n, P x n -> forall b, b ∈ blocks ->
      (header b).Disjoint ⟨x, n⟩) : ArenaBlocks c m' blocks := by
  apply h.congr
  intro b hb x hx
  apply hw.bytes
  intro a n hPan
  exact (hP a n hPan b hb).not_contains hx

/-- Header writes reach no payload. -/
theorem payload_bytes (h : ArenaBlocks c m blocks) {m₁ m₂ : Mem}
    (hw : Wrote (HeaderWrites blocks) m₁ m₂) {b : Block} (hb : b ∈ blocks)
    {x : Nat} (hx : (payload b).Contains x) : m₂.bytes x = m₁.bytes x := by
  apply hw.bytes
  intro a n hwrite
  rcases hwrite with ⟨d, hd, hinside⟩
  have hdisj := hinside.disjoint (h.header_payload_disjoint hd hb)
  exact hdisj.symm.not_contains hx

/-- The distance between two headers. -/
theorem header_apart (h : ArenaBlocks c m blocks) {b d : Block}
    (hb : b ∈ blocks) (hd : d ∈ blocks) (hne : b.ptr ≠ d.ptr) :
    b.ptr + sizeofArenaBlock ≤ d.ptr ∨ d.ptr + sizeofArenaBlock ≤ b.ptr := by
  have hdisj := h.disjoint.disjoint_of_ne hb hd
    (fun heq => hne (congrArg Block.ptr heq))
  exact (h.header_inside hd).disjoint
    ((h.header_inside hb).disjoint hdisj).symm |>.symm

/-!
# Setting an offset
-/

theorem setOffset (h : ArenaBlocks c m blocks) {b : Block} (hb : b ∈ blocks)
    {v : Nat} (hv : v ≤ size m b.ptr) :
    ArenaBlocks c (ArenaBlock.setOffset b.ptr v m) blocks := by
  have hvlt : v < 2 ^ 64 := Nat.lt_of_le_of_lt hv (m.word_lt _)
  have hapart : forall d, d ∈ blocks ->
      d.ptr + 16 ≤ b.ptr + 16 ∨ b.ptr + 16 + 8 ≤ d.ptr := by
    intro d hd
    by_cases hptr : b.ptr = d.ptr
    · omega
    · have hfar := h.header_apart hb hd hptr
      simp only [sizeofArenaBlock] at hfar
      omega
  have hnext : forall d, d ∈ blocks ->
      next (ArenaBlock.setOffset b.ptr v m) d.ptr = next m d.ptr := by
    intro d hd
    have hd' := hapart d hd
    apply Mem.word_writeWord_disjoint
    omega
  have hsize : forall d, d ∈ blocks ->
      size (ArenaBlock.setOffset b.ptr v m) d.ptr = size m d.ptr := by
    intro d hd
    have hd' := hapart d hd
    apply Mem.word_writeWord_disjoint
    omega
  refine
    { chain := ?_
      size_eq := ?_
      offset_le := ?_
      blockSize_le := ?_
      current := h.current
      wellFormed := h.wellFormed
      disjoint := h.disjoint }
  · apply h.chain.congr
    intro x hx
    rcases List.mem_map.mp hx with ⟨d, hd, hptr⟩
    rw [← hptr]
    exact hnext d hd
  · intro d hd
    rw [hsize d hd]
    exact h.size_eq d hd
  · intro d hd
    rw [hsize d hd]
    by_cases hptr : b.ptr = d.ptr
    · have hset : offset (ArenaBlock.setOffset b.ptr v m) d.ptr = v := by
        rw [← hptr]
        exact Mem.word_writeWord_same hvlt
      rw [hset, ← hptr]
      exact hv
    · have hset : offset (ArenaBlock.setOffset b.ptr v m) d.ptr =
          offset m d.ptr := by
        have hfar := h.header_apart hb hd hptr
        simp only [sizeofArenaBlock] at hfar
        apply Mem.word_writeWord_disjoint
        omega
      rw [hset]
      exact h.offset_le d hd
  · intro d hd
    rw [hsize d hd]
    exact h.blockSize_le d hd

/-!
# Linking a block in
-/

theorem splice_word {current block x : Nat} {m : Mem}
    (hcurrent : x + 8 ≤ current ∨ current + 8 ≤ x)
    (hblock : x + 8 ≤ block ∨ block + 8 ≤ x) :
    (splice current block m).word x = m.word x := by
  unfold splice setNext
  rw [Mem.word_writeWord_disjoint hcurrent, Mem.word_writeWord_disjoint hblock]

theorem next_splice_current {current block : Nat} {m : Mem}
    (hlt : block < 2 ^ 64) : next (splice current block m) current = block :=
  Mem.word_writeWord_same hlt

theorem next_splice_block {current block : Nat} {m : Mem}
    (hfar : block + 8 ≤ current ∨ current + 8 ≤ block) :
    next (splice current block m) block = next m current := by
  unfold splice setNext next
  rw [Mem.word_writeWord_disjoint hfar, Mem.word_writeWord_same (m.word_lt _)]

/-- A header that is apart from all headers of the list. -/
theorem new_apart (h : ArenaBlocks c m blocks) {new : Block}
    (hfar : forall b, b ∈ blocks -> new.Disjoint b)
    (hsize : new.size = sizeofArenaBlock + size m new.ptr) {b : Block}
    (hb : b ∈ blocks) : new.ptr + sizeofArenaBlock ≤ b.ptr ∨
      b.ptr + sizeofArenaBlock ≤ new.ptr := by
  have hdisj := hfar b hb
  have hbsize := h.size_eq b hb
  simp only [Block.Disjoint, Block.stop] at hdisj
  omega

/-- Only the two link words change. -/
theorem splice_fields (h : ArenaBlocks c m blocks) {new : Block}
    (hfar : forall b, b ∈ blocks -> new.Disjoint b)
    (hsize : new.size = sizeofArenaBlock + size m new.ptr) {b : Block}
    (hb : b ∈ new :: blocks) :
    size (splice c.current new.ptr m) b.ptr = size m b.ptr ∧
      offset (splice c.current new.ptr m) b.ptr = offset m b.ptr := by
  rcases h.current with ⟨cur, hcur, hcurPtr, _⟩
  have hword : forall k, 8 ≤ k -> k ≤ 16 ->
      (splice c.current new.ptr m).word (b.ptr + k) = m.word (b.ptr + k) := by
    intro k hk hk'
    rw [← hcurPtr]
    apply splice_word
    · cases hb with
      | head =>
          have hd := h.new_apart hfar hsize hcur
          simp only [sizeofArenaBlock] at hd
          omega
      | tail _ hb =>
          by_cases hptr : b.ptr = cur.ptr
          · omega
          · have hd := h.header_apart hb hcur hptr
            simp only [sizeofArenaBlock] at hd
            omega
    · cases hb with
      | head => omega
      | tail _ hb =>
          have hd := h.new_apart hfar hsize hb
          simp only [sizeofArenaBlock] at hd
          omega
  exact ⟨hword 8 (by omega) (by omega), hword 16 (by omega) (by omega)⟩

theorem splice_new (h : ArenaBlocks c m blocks) {new : Block}
    (hwf : new.WellFormed) (hfar : forall b, b ∈ blocks -> new.Disjoint b)
    (hsize : new.size = sizeofArenaBlock + size m new.ptr)
    (hoffset : offset m new.ptr ≤ size m new.ptr)
    (hlarge : c.blockSize ≤ size m new.ptr) :
    exists blocks', ArenaBlocks c (splice c.current new.ptr m) blocks' ∧
      blocks'.Perm (new :: blocks) := by
  rcases h.current with ⟨cur, hcur, hcurPtr, hcurSize⟩
  have hnewLt : new.ptr < 2 ^ 64 := by
    have hstop := hwf.right.right
    simp only [Block.stop] at hstop
    omega
  have hapart : forall b, b ∈ blocks -> new.ptr + sizeofArenaBlock ≤ b.ptr ∨
      b.ptr + sizeofArenaBlock ≤ new.ptr :=
    fun b hb => h.new_apart hfar hsize hb
  have hfields := fun b hb => h.splice_fields (b := b) hfar hsize hb
  rcases List.append_of_mem hcur with ⟨pre, post, hsplit⟩
  have hperm : (pre ++ cur :: new :: post).Perm (new :: blocks) := by
    rw [hsplit]
    exact (List.Perm.append_left pre (List.Perm.swap new cur post)).trans
      List.perm_middle
  have hchain : Chain (next (splice c.current new.ptr m)) c.first
      ((pre ++ cur :: new :: post).map Block.ptr) := by
    have hold := h.chain
    rw [hsplit, List.map_append, List.map_cons] at hold
    rw [List.map_append, List.map_cons, List.map_cons]
    apply hold.insert_after
    · exact Nat.ne_of_gt hwf.left
    · rw [hcurPtr]
      exact next_splice_current hnewLt
    · rw [hcurPtr]
      apply next_splice_block
      have hd := hapart cur hcur
      simp only [sizeofArenaBlock] at hd
      omega
    · intro x hx hne
      rw [← List.map_cons, ← List.map_append, ← hsplit] at hx
      rcases List.mem_map.mp hx with ⟨b, hb, hptr⟩
      subst hptr
      have hd := h.header_apart hb hcur hne
      have hd' := hapart b hb
      simp only [sizeofArenaBlock] at hd hd'
      apply splice_word <;> omega
  refine ⟨pre ++ cur :: new :: post, ?_, hperm⟩
  refine
    { chain := hchain
      size_eq := ?_
      offset_le := ?_
      blockSize_le := ?_
      current := ⟨cur, by simp, hcurPtr, hcurSize⟩
      wellFormed := ?_
      disjoint := ?_ }
  · intro b hb
    have hb' := hperm.mem_iff.mp hb
    rw [(hfields b hb').left]
    cases hb' with
    | head => exact hsize
    | tail _ hb => exact h.size_eq b hb
  · intro b hb
    have hb' := hperm.mem_iff.mp hb
    rw [(hfields b hb').left, (hfields b hb').right]
    cases hb' with
    | head => exact hoffset
    | tail _ hb => exact h.offset_le b hb
  · intro b hb
    have hb' := hperm.mem_iff.mp hb
    rw [(hfields b hb').left]
    cases hb' with
    | head => exact hlarge
    | tail _ hb => exact h.blockSize_le b hb
  · intro b hb
    cases hperm.mem_iff.mp hb with
    | head => exact hwf
    | tail _ hb => exact h.wellFormed b hb
  · rw [allDisjoint_perm hperm]
    exact List.pairwise_cons.mpr ⟨hfar, h.disjoint⟩

theorem setCurrent (h : ArenaBlocks c m blocks) {b : Block} (hb : b ∈ blocks)
    (hsize : b.size = sizeofArenaBlock + c.blockSize) :
    ArenaBlocks { c with current := b.ptr } m blocks :=
  { h with current := ⟨b, hb, rfl, hsize⟩ }

end ArenaBlocks

end Liballo
