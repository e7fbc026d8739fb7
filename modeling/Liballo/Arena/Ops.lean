import Liballo.Arena.Blocks

/-!
# Specifications of the arena operations

The invariant ties the block list to the blocks the child handed out. Each
operation gets one lemma that says which outcomes it has.
-/

namespace Liballo

open Foundation
open ArenaBlock

section Arena

variable {χ : Type} [HasMem χ] {a : Allo χ}

/-- The child handed out the blocks of the arena and those of `base`. -/
def ArenaChild (S : Supply a) (base : List Block) (w : χ)
    (blocks : List Block) : Prop :=
  exists L, L.Perm (blocks ++ base) ∧ S.Inv w L

namespace ArenaChild

variable {S : Supply a} {base blocks blocks' : List Block} {w : χ}

theorem perm (h : ArenaChild S base w blocks) (hperm : blocks'.Perm blocks) :
    ArenaChild S base w blocks' := by
  rcases h with ⟨L, hL, hinv⟩
  exact ⟨L, hL.trans (hperm.append_right base).symm, hinv⟩

theorem store (h : ArenaChild S base w blocks) {P : Nat -> Nat -> Prop}
    {m : Mem} (hw : Wrote P (mem w) m)
    (hP : forall x n, P x n -> exists b, b ∈ blocks ∧ Block.Inside ⟨x, n⟩ b) :
    ArenaChild S base (setMem m w) blocks ∧
      forall y, S.own (setMem m w) y -> S.own w y := by
  rcases h with ⟨L, hL, hinv⟩
  have hinside : forall x n, P x n ->
      exists b, b ∈ L ∧ Block.Inside ⟨x, n⟩ b := by
    intro x n hxn
    rcases hP x n hxn with ⟨b, hb, hin⟩
    exact ⟨b, hL.mem_iff.mpr (List.mem_append_left base hb), hin⟩
  rcases S.store_inside hinv hw hinside with ⟨hinv', hown⟩
  exact ⟨⟨L, hL, hinv'⟩, hown⟩

theorem alloc (h : ArenaChild S base w blocks) {n : Nat} (hn : n < 2 ^ 64) :
    exists p w', alloAlloc a n w = some (p, w') ∧
      KeepsBytes blocks (mem w) (mem w') ∧
        (p = NULL ∧ ArenaChild S base w' blocks ∨
          p ≠ NULL ∧ ArenaChild S base w' (⟨p, n⟩ :: blocks) ∧
            Block.WellFormed ⟨p, n⟩ ∧
              forall b, b ∈ blocks -> Block.Disjoint ⟨p, n⟩ b) := by
  rcases h with ⟨L, hL, hinv⟩
  have hmem : forall b, b ∈ blocks -> b ∈ L :=
    fun b hb => hL.mem_iff.mpr (List.mem_append_left base hb)
  rcases S.alloc hinv hn with ⟨p, w', hcall, hkeeps, hcase⟩
  refine ⟨p, w', hcall, hkeeps.subset hmem, ?_⟩
  rcases hcase with ⟨hnull, hinv'⟩ | ⟨hne, hinv'⟩
  · exact Or.inl ⟨hnull, L, hL, hinv'⟩
  · have hdisj := List.pairwise_cons.mp (S.disjoint hinv')
    refine Or.inr ⟨hne, ⟨_, hL.cons _, hinv'⟩, ?_, ?_⟩
    · exact S.wellFormed hinv' _ List.mem_cons_self
    · exact fun b hb => hdisj.left b (hmem b hb)

end ArenaChild

structure ArenaInv (S : Supply a) (base : List Block) (s : ArenaState χ)
    (blocks : List Block) : Prop where
  list : ArenaBlocks s.ctx (mem s) blocks
  child : ArenaChild S base s.child blocks

namespace ArenaInv

variable {S : Supply a} {base blocks : List Block} {s : ArenaState χ}

/-- Stores inside arena blocks that keep the list keep the invariant. -/
theorem store (h : ArenaInv S base s blocks) {P : Nat -> Nat -> Prop}
    {m : Mem} (hw : Wrote P (mem s) m)
    (hP : forall x n, P x n -> exists b, b ∈ blocks ∧ Block.Inside ⟨x, n⟩ b)
    (hlist : ArenaBlocks s.ctx m blocks) :
    ArenaInv S base (setMem m s) blocks :=
  { list := by
      show ArenaBlocks s.ctx (mem (setMem m s)) blocks
      rw [HasMem.mem_setMem]
      exact hlist
    child := (h.child.store hw hP).left }

theorem store_header (h : ArenaInv S base s blocks) {m : Mem}
    (hw : Wrote (HeaderWrites blocks) (mem s) m)
    (hlist : ArenaBlocks s.ctx m blocks) :
    ArenaInv S base (setMem m s) blocks := by
  apply h.store hw _ hlist
  intro x n hwrite
  rcases hwrite with ⟨b, hb, hinside⟩
  exact ⟨b, hb, hinside.trans (h.list.header_inside hb)⟩

theorem store_payload (h : ArenaInv S base s blocks) {P : Nat -> Nat -> Prop}
    {m : Mem} (hw : Wrote P (mem s) m)
    (hP : forall x n, P x n ->
      exists b, b ∈ blocks ∧ Block.Inside ⟨x, n⟩ (payload b)) :
    ArenaInv S base (setMem m s) blocks := by
  apply h.store hw
  · intro x n hxn
    rcases hP x n hxn with ⟨b, hb, hinside⟩
    exact ⟨b, hb, hinside.trans (h.list.payload_inside hb)⟩
  · apply h.list.wrote hw
    intro x n hxn b hb
    rcases hP x n hxn with ⟨d, hd, hinside⟩
    exact (hinside.disjoint (h.list.header_payload_disjoint hb hd).symm).symm

/-- Bounds that hold for every block of the list. -/
theorem bounds (h : ArenaInv S base s blocks) {b : Block} (hb : b ∈ blocks) :
    0 < b.ptr ∧ b.ptr + sizeofArenaBlock + size (mem s) b.ptr < 2 ^ 64 ∧
      offset (mem s) b.ptr ≤ size (mem s) b.ptr := by
  have hwf := h.list.wellFormed b hb
  have hsize := h.list.size_eq b hb
  have hstop := hwf.right.right
  simp only [Block.stop] at hstop
  refine ⟨hwf.left, ?_, h.list.offset_le b hb⟩
  omega

theorem blocks_lt (h : ArenaInv S base s blocks) {x : Nat}
    (hx : x ∈ blocks.map Block.ptr) : x < 2 ^ 64 := by
  rcases List.mem_map.mp hx with ⟨b, hb, hptr⟩
  subst hptr
  have hbound := h.bounds hb
  omega

theorem length_lt (h : ArenaInv S base s blocks) :
    (blocks.map Block.ptr).length < walkBound :=
  h.list.chain.length_lt (by decide) (fun _ hx => h.blocks_lt hx)

end ArenaInv

/-!
# Ownership
-/

section Contains

variable {S : Supply a} {base blocks : List Block} {s : ArenaState χ}

theorem arenaBlockHas_iff (h : ArenaInv S base s blocks) {b : Block}
    (hb : b ∈ blocks) (x : Nat) :
    arenaBlockHas (mem s) b.ptr x = true <-> (payload b).Contains x := by
  have hbound := h.bounds hb
  have hsize := h.list.size_eq b hb
  have hstart : sizeAdd b.ptr sizeofArenaBlock = b.ptr + sizeofArenaBlock :=
    sizeAdd_eq (by omega)
  simp only [arenaBlockHas, hstart, sizeAdd_eq hbound.right.left]
  simp only [decide_eq_true_eq, Block.Contains, payload, Block.stop]
  omega

theorem arenaScan_spec {m : Mem} (current x : Nat) {head fuel : Nat}
    {xs : List Nat} (hchain : Chain (next m) head xs)
    (hfuel : xs.length < fuel) :
    exists answer, arenaScan m current x fuel head = some answer ∧
      answer ≠ AlloContains.unknown ∧
        (answer = AlloContains.yes <->
          exists y, y ∈ xs ∧ y ≠ current ∧ arenaBlockHas m y x = true) := by
  induction xs generalizing head fuel with
  | nil =>
      cases fuel with
      | zero => cases hfuel
      | succ fuel =>
          have hhead : head = NULL := hchain
          exact ⟨AlloContains.no, by rw [arenaScan, if_pos hhead], by simp⟩
  | cons y ys ih =>
      cases fuel with
      | zero => cases hfuel
      | succ fuel =>
          rcases hchain with ⟨hhead, hne, htail⟩
          subst hhead
          have hnull : head ≠ NULL := hne
          by_cases hhit : head ≠ current ∧ arenaBlockHas m head x = true
          · refine ⟨AlloContains.yes, ?_, by simp, ?_⟩
            · rw [arenaScan, if_neg hnull, if_pos hhit]
            · simpa using Or.inl hhit
          · have hlen : ys.length < fuel := by simpa using hfuel
            rcases ih htail hlen with ⟨answer, hscan, hknown, hyes⟩
            refine ⟨answer, ?_, hknown, ?_⟩
            · rw [arenaScan, if_neg hnull, if_neg hhit, hscan]
            · rw [hyes]
              constructor
              · rintro ⟨z, hz, hcond⟩
                exact ⟨z, List.mem_cons_of_mem _ hz, hcond⟩
              · rintro ⟨z, hz, hcond⟩
                cases hz with
                | head => exact absurd hcond hhit
                | tail _ hz => exact ⟨z, hz, hcond⟩

/-- The answer is exact: it is yes for the payload bytes of the blocks. -/
theorem arenaContainsFn_spec (h : ArenaInv S base s blocks) (x : Nat) :
    exists answer, arenaContainsFn x s = some answer ∧
      answer ≠ AlloContains.unknown ∧
        (answer = AlloContains.yes <->
          exists b, b ∈ blocks ∧ (payload b).Contains x) := by
  rcases h.list.current with ⟨cur, hcur, hcurPtr, _⟩
  have hcurHas := arenaBlockHas_iff h hcur x
  rw [hcurPtr] at hcurHas
  unfold arenaContainsFn
  by_cases hhit : arenaBlockHas (mem s) s.ctx.current x = true
  · rw [if_pos hhit]
    exact ⟨_, rfl, by simp, by simpa using ⟨cur, hcur, hcurHas.mp hhit⟩⟩
  · rw [if_neg hhit]
    rcases arenaScan_spec s.ctx.current x h.list.chain h.length_lt with
      ⟨answer, hscan, hknown, hyes⟩
    refine ⟨answer, hscan, hknown, ?_⟩
    rw [hyes]
    constructor
    · rintro ⟨y, hy, _, hhas⟩
      rcases List.mem_map.mp hy with ⟨b, hb, hptr⟩
      subst hptr
      exact ⟨b, hb, (arenaBlockHas_iff h hb x).mp hhas⟩
    · rintro ⟨b, hb, hin⟩
      have hhas := (arenaBlockHas_iff h hb x).mpr hin
      refine ⟨b.ptr, List.mem_map_of_mem hb, ?_, hhas⟩
      intro heq
      rw [heq] at hhas
      exact hhit hhas

end Contains

/-!
# New blocks
-/

theorem wrote_setNext {m : Mem} {blocks : List Block} {b : Block}
    (hb : b ∈ blocks) (v : Nat) :
    Wrote (HeaderWrites blocks) m (setNext b.ptr v m) :=
  Wrote.writeWord (headerWrites_word (k := 0) hb (by omega))

theorem wrote_setSize {m : Mem} {blocks : List Block} {b : Block}
    (hb : b ∈ blocks) (v : Nat) :
    Wrote (HeaderWrites blocks) m (setSize b.ptr v m) :=
  Wrote.writeWord (headerWrites_word hb (by omega))

theorem wrote_setOffset {m : Mem} {blocks : List Block} {b : Block}
    (hb : b ∈ blocks) (v : Nat) :
    Wrote (HeaderWrites blocks) m (setOffset b.ptr v m) :=
  Wrote.writeWord (headerWrites_word hb (by omega))

/-- A block that `newArenaBlock` obtained, with its header in place. -/
structure NewBlock (S : Supply a) (base blocks : List Block) (n : Nat)
    (new : Block) (w : χ) : Prop where
  child : ArenaChild S base w (new :: blocks)
  wellFormed : new.WellFormed
  apart : forall b, b ∈ blocks -> new.Disjoint b
  size_eq : new.size = sizeofArenaBlock + n
  next : next (mem w) new.ptr = NULL
  size : size (mem w) new.ptr = n
  offset : offset (mem w) new.ptr = 0

theorem init_fields {p n : Nat} {m : Mem} (hn : n < 2 ^ 64) :
    next (init p n m) p = NULL ∧ size (init p n m) p = n ∧
      offset (init p n m) p = 0 := by
  refine ⟨?_, ?_, Mem.word_writeWord_same (by decide)⟩
  · unfold next init setOffset setSize setNext
    rw [Mem.word_writeWord_disjoint (by omega),
      Mem.word_writeWord_disjoint (by omega)]
    exact Mem.word_writeWord_same (by decide)
  · unfold size init setOffset setSize
    rw [Mem.word_writeWord_disjoint (by omega), Mem.word_writeWord_same hn]

theorem wrote_init {m : Mem} {blocks : List Block} {b : Block}
    (hb : b ∈ blocks) (n : Nat) :
    Wrote (HeaderWrites blocks) m (init b.ptr n m) :=
  ((wrote_setNext hb NULL).trans (wrote_setSize hb n)).trans
    (wrote_setOffset hb 0)

theorem newArenaBlock_spec {S : Supply a} {base blocks : List Block} {w : χ}
    {n : Nat} (h : ArenaChild S base w blocks)
    (hn : sizeofArenaBlock + n < 2 ^ 64) :
    exists p w', newArenaBlock a n w = some (p, w') ∧
      KeepsBytes blocks (mem w) (mem w') ∧
        (p = NULL ∧ ArenaChild S base w' blocks ∨
          p ≠ NULL ∧ NewBlock S base blocks n ⟨p, sizeofArenaBlock + n⟩ w') := by
  have hsum : sizeAdd sizeofArenaBlock n = sizeofArenaBlock + n := sizeAdd_eq hn
  rcases h.alloc hn with ⟨p, w₁, hcall, hkeeps, hcase⟩
  rcases hcase with ⟨hnull, hchild⟩ | ⟨hne, hchild, hwf, hapart⟩
  · refine ⟨NULL, w₁, ?_, hkeeps, Or.inl ⟨rfl, hchild⟩⟩
    simp [newArenaBlock, hsum, hcall, hnull]
  · let e := Event.poison (sizeAdd p sizeofArenaBlock) n
    have hrun : newArenaBlock a n w =
        some (p, setMem ((init p n (mem w₁)).note e) w₁) := by
      simp [newArenaBlock, hsum, hcall, hne, modifyMem, e]
    have hwrote : Wrote (HeaderWrites [⟨p, sizeofArenaBlock + n⟩]) (mem w₁)
        ((init p n (mem w₁)).note e) :=
      (wrote_init (b := ⟨p, sizeofArenaBlock + n⟩) List.mem_cons_self n).trans
        (Wrote.note trivial)
    have hinside : forall x k,
        HeaderWrites [⟨p, sizeofArenaBlock + n⟩] x k ->
          Block.Inside ⟨x, k⟩ ⟨p, sizeofArenaBlock + n⟩ := by
      intro x k hwrite
      rcases hwrite with ⟨b, hb, hin⟩
      rw [List.mem_singleton] at hb
      subst hb
      apply hin.trans
      simp only [Block.Inside, header, Block.stop]
      omega
    have hfields := init_fields (p := p) (m := mem w₁)
      (show n < 2 ^ 64 by omega)
    refine ⟨p, _, hrun, ?_, Or.inr ⟨hne, ?_⟩⟩
    · rw [HasMem.mem_setMem]
      apply hkeeps.trans
      apply KeepsBytes.of_wrote hwrote
      intro x k hwrite b hb
      exact ((hinside x k hwrite).disjoint (hapart b hb)).symm
    · refine
        { child := ?_
          wellFormed := hwf
          apart := hapart
          size_eq := rfl
          next := ?_
          size := ?_
          offset := ?_ }
      · apply (hchild.store hwrote _).left
        intro x k hwrite
        exact ⟨_, List.mem_cons_self, hinside x k hwrite⟩
      · rw [HasMem.mem_setMem]
        exact hfields.left
      · rw [HasMem.mem_setMem]
        exact hfields.right.left
      · rw [HasMem.mem_setMem]
        exact hfields.right.right

/-!
# The first block
-/

theorem makeArenaAllocator_spec {S : Supply a} {base : List Block} {w : χ}
    {out blockSize : Nat} {st : ArenaState χ} (hw : S.Inv w base)
    (hsum : sizeofArenaBlock + blockSize < 2 ^ 64)
    (hmake : makeArenaAllocator out (some a) blockSize w = some (Made.ok st)) :
    exists b, ArenaInv S base st [b] ∧ st.ctx.blockSize = blockSize := by
  have hchild : ArenaChild S base w [] := ⟨base, List.Perm.refl _, hw⟩
  unfold makeArenaAllocator at hmake
  by_cases hinval : out = NULL ∨ blockSize = 0
  · simp [hinval] at hmake
  rcases newArenaBlock_spec hchild hsum with ⟨p, w₁, hcall, _, hcase⟩
  simp only [if_neg hinval, hcall, Option.bind_eq_bind, Option.bind_some]
    at hmake
  rcases hcase with ⟨hnull, _⟩ | ⟨hne, hnew⟩
  · rw [if_pos hnull] at hmake
    cases hmake
  · rw [if_neg hne] at hmake
    cases hmake
    refine ⟨⟨p, sizeofArenaBlock + blockSize⟩, ⟨?_, hnew.child⟩, rfl⟩
    have hsizeEq := hnew.size
    have hoffset := hnew.offset
    refine
      { chain := ⟨rfl, hne, hnew.next⟩
        size_eq := ?_
        offset_le := ?_
        blockSize_le := ?_
        current := ⟨_, List.mem_cons_self, rfl, rfl⟩
        wellFormed := ?_
        disjoint := List.pairwise_singleton _ _ }
    · intro b hb
      rw [List.mem_singleton] at hb
      subst hb
      exact congrArg (fun k => sizeofArenaBlock + k) hsizeEq.symm
    · intro b hb
      rw [List.mem_singleton] at hb
      subst hb
      exact hoffset ▸ Nat.zero_le _
    · intro b hb
      rw [List.mem_singleton] at hb
      subst hb
      exact Nat.le_of_eq hsizeEq.symm
    · intro b hb
      rw [List.mem_singleton] at hb
      subst hb
      exact hnew.wellFormed

end Arena

end Liballo
