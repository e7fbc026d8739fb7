import Liballo.Arena.Ops

/-!
# Placing blocks in an arena

An allocation fails, hands out the next bytes of a payload, or, when the sum of
the aligned offset and the size wraps around, sets the offset back. The last case
needs a current block of more than half of the address space.
-/

namespace Liballo

open Foundation
open ArenaBlock

section Placement

variable {χ : Type} [HasMem χ] {a : Allo χ}
variable {S : Supply a} {base blocks : List Block} {s : ArenaState χ}

/-- The arena grew: the old blocks and their offsets are still there, and no
payload byte changed. -/
structure ArenaExtends (s : ArenaState χ) (blocks : List Block)
    (s' : ArenaState χ) (blocks' : List Block) : Prop where
  blockSize : s'.ctx.blockSize = s.ctx.blockSize
  mono : forall b, b ∈ blocks -> b ∈ blocks'
  offset_le : forall b, b ∈ blocks ->
    offset (mem s) b.ptr ≤ offset (mem s') b.ptr
  kept : forall b, b ∈ blocks -> forall x, (payload b).Contains x ->
    (mem s').bytes x = (mem s).bytes x

theorem ArenaExtends.trans {s' s'' : ArenaState χ} {blocks' blocks'' : List Block}
    (h : ArenaExtends s blocks s' blocks')
    (h' : ArenaExtends s' blocks' s'' blocks'') :
    ArenaExtends s blocks s'' blocks'' :=
  { blockSize := h'.blockSize.trans h.blockSize
    mono := fun b hb => h'.mono b (h.mono b hb)
    offset_le := fun b hb =>
      (h.offset_le b hb).trans (h'.offset_le b (h.mono b hb))
    kept := fun b hb x hx =>
      (h'.kept b (h.mono b hb) x hx).trans (h.kept b hb x hx) }

theorem ArenaExtends.used_inside {s' : ArenaState χ} {blocks' : List Block}
    (h : ArenaExtends s blocks s' blocks') {b : Block} (hb : b ∈ blocks) :
    (used (mem s) b).Inside (used (mem s') b) := by
  have hle := h.offset_le b hb
  constructor
  · exact Nat.le_refl _
  · simp only [used, Block.stop]
    omega

/-- The bytes `⟨p, n⟩` were handed out. -/
structure ArenaGrant (S : Supply a) (base : List Block) (s : ArenaState χ)
    (blocks : List Block) (n p : Nat) (s' : ArenaState χ)
    (blocks' : List Block) : Prop where
  inv : ArenaInv S base s' blocks'
  grows : ArenaExtends s blocks s' blocks'
  pos : 0 < n
  place : exists b k, b ∈ blocks' ∧ p = b.ptr + sizeofArenaBlock + k ∧ 8 ∣ k ∧
    k + n ≤ offset (mem s') b.ptr
  apart : forall b, b ∈ blocks -> (used (mem s) b).Disjoint ⟨p, n⟩

theorem ArenaGrant.after {s' s'' : ArenaState χ} {blocks' blocks'' : List Block}
    {n p : Nat} (hext : ArenaExtends s blocks s' blocks')
    (h : ArenaGrant S base s' blocks' n p s'' blocks'') :
    ArenaGrant S base s blocks n p s'' blocks'' :=
  { inv := h.inv
    grows := hext.trans h.grows
    pos := h.pos
    place := h.place
    apart := fun b hb =>
      (hext.used_inside hb).disjoint (h.apart b (hext.mono b hb)) }

namespace ArenaInv

/-- Hand out the bytes of the payload of `b` from offset `k` on. -/
theorem grant (h : ArenaInv S base s blocks) {b : Block} (hb : b ∈ blocks)
    {k n : Nat} (hpos : 0 < n) (halign : 8 ∣ k)
    (hoffset : offset (mem s) b.ptr ≤ k)
    (hfits : k + n ≤ size (mem s) b.ptr) {e : Event} (he : e.WritesOnly
      (HeaderWrites blocks)) :
    ArenaGrant S base s blocks n (b.ptr + sizeofArenaBlock + k)
      (setMem ((setOffset b.ptr (k + n) (mem s)).note e) s) blocks := by
  have hwrote : Wrote (HeaderWrites blocks) (mem s)
      ((setOffset b.ptr (k + n) (mem s)).note e) :=
    (wrote_setOffset hb _).trans (Wrote.note he)
  have hlist : ArenaBlocks s.ctx ((setOffset b.ptr (k + n) (mem s)).note e)
      blocks :=
    (h.list.setOffset hb hfits).congr (fun _ _ _ _ => rfl)
  have hlt : k + n < 2 ^ 64 := Nat.lt_of_le_of_lt hfits (Mem.word_lt _ _)
  have hset : offset ((setOffset b.ptr (k + n) (mem s)).note e) b.ptr = k + n :=
    Mem.word_writeWord_same hlt
  refine
    { inv := h.store_header hwrote hlist
      grows := ?_
      pos := hpos
      place := ⟨b, k, hb, rfl, halign, ?_⟩
      apart := ?_ }
  · refine ⟨rfl, fun _ hd => hd, ?_, ?_⟩
    · intro d hd
      rw [HasMem.mem_setMem]
      by_cases hptr : b.ptr = d.ptr
      · rw [← hptr, hset]
        omega
      · have hfar := h.list.header_apart hb hd hptr
        simp only [sizeofArenaBlock] at hfar
        apply Nat.le_of_eq
        symm
        apply Mem.word_writeWord_disjoint
        omega
    · intro d hd x hx
      rw [HasMem.mem_setMem]
      exact h.list.payload_bytes hwrote hd hx
  · rw [HasMem.mem_setMem, hset]
  · intro d hd
    by_cases hdb : d = b
    · subst hdb
      left
      simp only [used, Block.stop]
      omega
    · have hdisj := h.list.disjoint.disjoint_of_ne hd hb hdb
      have hused := ((h.list.used_inside hd).trans
        (h.list.payload_inside hd)).disjoint hdisj
      have hsize := h.list.size_eq b hb
      have hinside : Block.Inside ⟨b.ptr + sizeofArenaBlock + k, n⟩ b := by
        simp only [Block.Inside, Block.stop]
        omega
      exact (hinside.disjoint hused.symm).symm

end ArenaInv

/-- Linking a new block in. -/
theorem arenaSplice_spec {w : χ} {n : Nat} {new : Block}
    (h : ArenaInv S base s blocks)
    (hkeeps : KeepsBytes blocks (mem s) (mem w))
    (hnew : NewBlock S base blocks n new w) (hlarge : s.ctx.blockSize ≤ n) :
    exists blocks',
      ArenaInv S base (arenaSplice new.ptr { s with child := w }) blocks' ∧
        ArenaExtends s blocks (arenaSplice new.ptr { s with child := w })
          blocks' ∧
        new ∈ blocks' ∧
        size (mem (arenaSplice new.ptr { s with child := w })) new.ptr = n ∧
        offset (mem (arenaSplice new.ptr { s with child := w })) new.ptr = 0 := by
  have hlist : ArenaBlocks s.ctx (mem w) blocks := h.list.keepsBytes hkeeps
  have hsize : new.size = sizeofArenaBlock + size (mem w) new.ptr := by
    rw [hnew.size]
    exact hnew.size_eq
  have hfields := fun b hb => hlist.splice_fields (b := b) hnew.apart hsize hb
  rcases hlist.splice_new hnew.wellFormed hnew.apart hsize
    (by rw [hnew.offset]; exact Nat.zero_le _)
    (by rw [hnew.size]; exact hlarge) with ⟨blocks', hlist', hperm⟩
  have hsub : forall b, b ∈ blocks -> b ∈ blocks' :=
    fun b hb => hperm.mem_iff.mpr (List.mem_cons_of_mem new hb)
  have hmemNew : new ∈ blocks' := hperm.mem_iff.mpr List.mem_cons_self
  have hmem : mem (arenaSplice new.ptr { s with child := w }) =
      splice s.ctx.current new.ptr (mem w) := by
    simp only [arenaSplice, mem_modifyMem]
    rfl
  have hwrote : Wrote (HeaderWrites blocks') (mem w)
      (splice s.ctx.current new.ptr (mem w)) := by
    rcases hlist.current with ⟨cur, hcur, hcurPtr, _⟩
    rw [← hcurPtr]
    exact (wrote_setNext hmemNew _).trans (wrote_setNext (hsub cur hcur) _)
  refine ⟨blocks', ?_, ?_, hmemNew, ?_, ?_⟩
  · have hchild := hnew.child.perm hperm
    refine ⟨?_, ?_⟩
    · rw [hmem]
      exact hlist'
    · apply (hchild.store hwrote _).left
      intro x k hwrite
      rcases hwrite with ⟨b, hb, hinside⟩
      exact ⟨b, hb, hinside.trans (hlist'.header_inside hb)⟩
  · refine ⟨rfl, hsub, ?_, ?_⟩
    · intro b hb
      have hsame : offset (mem w) b.ptr = offset (mem s) b.ptr := by
        apply Mem.word_congr
        intro x hx hlt
        apply hkeeps b hb x
        apply (hlist.header_inside hb).contains
        simp only [Block.Contains, header, Block.stop, sizeofArenaBlock]
        omega
      rw [hmem, (hfields b (List.mem_cons_of_mem new hb)).right, hsame]
    · intro b hb x hx
      rw [hmem, hlist'.payload_bytes hwrote (hsub b hb) hx]
      exact hkeeps b hb x ((hlist.payload_inside hb).contains hx)
  · rw [hmem, (hfields new List.mem_cons_self).left]
    exact hnew.size
  · rw [hmem, (hfields new List.mem_cons_self).right]
    exact hnew.offset

/-!
# Allocation
-/

/-- The sums a call of `arenaAllocFn` forms: the size of a dedicated block, and the
end of the new object in the current block. A wrapped end is harmless as long as
the object still has an address and the child keeps no state in memory that the
object could cover. -/
def ArenaAllocSums (S : Supply a) (s : ArenaState χ) (n : Nat) : Prop :=
  (s.ctx.blockSize < n -> sizeofArenaBlock + n < 2 ^ 64) ∧
    (n ≤ s.ctx.blockSize ->
      arenaAlignedOffset s + n < 2 ^ 64 ∨
        s.ctx.current + sizeofArenaBlock + arenaAlignedOffset s < 2 ^ 64 ∧
          forall y, ¬ S.own s.child y)

inductive ArenaAllocated (S : Supply a) (base : List Block) (s : ArenaState χ)
    (blocks : List Block) (n : Nat) : Nat -> ArenaState χ -> Prop where
  | failed {s' : ArenaState χ} :
      ArenaInv S base s' blocks -> s'.ctx = s.ctx ->
      KeepsBytes blocks (mem s) (mem s') ->
      ArenaAllocated S base s blocks n NULL s'
  | granted {p : Nat} {s' : ArenaState χ} {blocks' : List Block} :
      ArenaGrant S base s blocks n p s' blocks' ->
      ArenaAllocated S base s blocks n p s'
  | wrapped {s' : ArenaState χ} :
      2 ^ 64 ≤ arenaAlignedOffset s + n -> n ≤ s.ctx.blockSize ->
      ArenaInv S base s' blocks -> s'.ctx = s.ctx ->
      (forall y, ¬ S.own s'.child y) ->
      ArenaAllocated S base s blocks n
        (s.ctx.current + sizeofArenaBlock + arenaAlignedOffset s) s'

theorem arenaAlignedOffset_spec (h : ArenaInv S base s blocks) :
    offset (mem s) s.ctx.current ≤ arenaAlignedOffset s ∧
      8 ∣ arenaAlignedOffset s := by
  rcases h.list.current with ⟨cur, hcur, hcurPtr, _⟩
  have hbound := h.bounds hcur
  rw [hcurPtr] at hbound
  simp only [sizeofArenaBlock] at hbound
  unfold arenaAlignedOffset
  rw [alloAlignUp_eight (by omega)]
  exact ⟨by omega, Nat.dvd_mul_left 8 _⟩

theorem arenaBump_eq {k n : Nat} (hend : k + n < 2 ^ 64)
    (hptr : s.ctx.current + sizeofArenaBlock + k < 2 ^ 64) :
    arenaBump k n s = (s.ctx.current + sizeofArenaBlock + k,
      setMem ((setOffset s.ctx.current (k + n) (mem s)).note
        (Event.unpoison (s.ctx.current + sizeofArenaBlock + k) n)) s) := by
  have hstart : sizeAdd s.ctx.current sizeofArenaBlock =
      s.ctx.current + sizeofArenaBlock := sizeAdd_eq (by omega)
  simp only [arenaBump, hstart, sizeAdd_eq hptr, sizeAdd_eq hend, modifyMem]

theorem arenaBump_grant (h : ArenaInv S base s blocks) {k n : Nat}
    (hpos : 0 < n) (halign : 8 ∣ k)
    (hoffset : offset (mem s) s.ctx.current ≤ k)
    (hfits : k + n ≤ size (mem s) s.ctx.current) :
    ArenaGrant S base s blocks n (arenaBump k n s).1 (arenaBump k n s).2
      blocks := by
  rcases h.list.current with ⟨cur, hcur, hcurPtr, _⟩
  have hbound := h.bounds hcur
  rw [hcurPtr] at hbound
  rw [arenaBump_eq (by omega) (by omega)]
  have hgrant := h.grant hcur (k := k) (n := n)
    (e := Event.unpoison (s.ctx.current + sizeofArenaBlock + k) n)
  rw [hcurPtr] at hgrant
  exact hgrant hpos halign hoffset hfits trivial

theorem arenaBump_wrapped (h : ArenaInv S base s blocks) {k n : Nat}
    (hfits : sizeAdd k n ≤ size (mem s) s.ctx.current)
    (hptr : s.ctx.current + sizeofArenaBlock + k < 2 ^ 64) :
    (arenaBump k n s).1 = s.ctx.current + sizeofArenaBlock + k ∧
      ArenaInv S base (arenaBump k n s).2 blocks ∧
        forall y, S.own (arenaBump k n s).2.child y -> S.own s.child y := by
  rcases h.list.current with ⟨cur, hcur, hcurPtr, _⟩
  have hstart : sizeAdd s.ctx.current sizeofArenaBlock =
      s.ctx.current + sizeofArenaBlock := sizeAdd_eq (by omega)
  have hfst : (arenaBump k n s).1 = s.ctx.current + sizeofArenaBlock + k := by
    simp only [arenaBump, hstart, sizeAdd_eq hptr]
  have hwrote : Wrote (HeaderWrites blocks) (mem s)
      ((setOffset s.ctx.current (sizeAdd k n) (mem s)).note
        (Event.unpoison (arenaBump k n s).1 n)) := by
    rw [← hcurPtr]
    exact (wrote_setOffset hcur _).trans (Wrote.note trivial)
  have hlist := h.list.setOffset hcur (v := sizeAdd k n)
    (by rw [hcurPtr]; exact hfits)
  rw [hcurPtr] at hlist
  refine ⟨hfst, ?_, ?_⟩
  · exact h.store_header hwrote (hlist.congr (fun _ _ _ _ => rfl))
  · apply (h.child.store hwrote _).right
    intro x l hwrite
    rcases hwrite with ⟨b, hb, hinside⟩
    exact ⟨b, hb, hinside.trans (h.list.header_inside hb)⟩

theorem arenaAllocFn_spec (h : ArenaInv S base s blocks) {n : Nat}
    (hsums : ArenaAllocSums S s n) :
    exists p s', arenaAllocFn a n s = some (p, s') ∧
      ArenaAllocated S base s blocks n p s' := by
  unfold arenaAllocFn
  by_cases hzero : n = 0
  · rw [if_pos hzero]
    exact ⟨NULL, s, rfl, ArenaAllocated.failed h rfl (KeepsBytes.refl _ _)⟩
  rw [if_neg hzero]
  have hpos : 0 < n := Nat.pos_of_ne_zero hzero
  dsimp only
  by_cases hlarge : n > s.ctx.blockSize
  · -- A dedicated block behind the current one.
    rw [if_pos hlarge]
    have hsum := hsums.left hlarge
    rcases newArenaBlock_spec h.child hsum with ⟨p, w, hcall, hkeeps, hcase⟩
    rw [hcall]
    rcases hcase with ⟨hnull, hchild⟩ | ⟨hne, hnew⟩
    · refine ⟨NULL, { s with child := w }, by simp [hnull], ?_⟩
      exact ArenaAllocated.failed ⟨h.list.keepsBytes hkeeps, hchild⟩ rfl hkeeps
    · rcases arenaSplice_spec h hkeeps hnew (Nat.le_of_lt hlarge) with
        ⟨blocks', hinv, hgrows, hmem, hsize, hoffset⟩
      have hbound := hinv.bounds hmem
      simp only [hsize] at hbound
      have hgrant := hinv.grant hmem (k := 0) (n := n)
        (e := Event.unpoison (p + sizeofArenaBlock) n) hpos (Nat.dvd_zero 8)
        (Nat.le_of_eq hoffset) (by rw [Nat.zero_add, hsize]) trivial
      have hptr : sizeAdd p sizeofArenaBlock = p + sizeofArenaBlock :=
        sizeAdd_eq (by omega)
      refine ⟨p + sizeofArenaBlock, _, ?_,
        ArenaAllocated.granted (hgrant.after hgrows)⟩
      simp [hne, hptr, modifyMem]
  · rw [if_neg hlarge]
    have hle : n ≤ s.ctx.blockSize := Nat.not_lt.mp hlarge
    rcases h.list.current with ⟨cur, hcur, hcurPtr, hcurSize⟩
    have haligned := arenaAlignedOffset_spec h
    by_cases hfull : sizeAdd (arenaAlignedOffset s) n >
        size (mem s) s.ctx.current
    · -- The current block is full: a new one becomes current.
      rw [if_pos hfull]
      have hsum : sizeofArenaBlock + s.ctx.blockSize < 2 ^ 64 := by
        have hwf := (h.list.wellFormed cur hcur).right.right
        simp only [Block.stop] at hwf
        omega
      rcases newArenaBlock_spec h.child hsum with ⟨p, w, hcall, hkeeps, hcase⟩
      rw [hcall]
      rcases hcase with ⟨hnull, hchild⟩ | ⟨hne, hnew⟩
      · refine ⟨NULL, { s with child := w }, by simp [hnull], ?_⟩
        exact ArenaAllocated.failed ⟨h.list.keepsBytes hkeeps, hchild⟩ rfl hkeeps
      · rcases arenaSplice_spec h hkeeps hnew (Nat.le_refl _) with
          ⟨blocks', hinv, hgrows, hmem, hsize, hoffset⟩
        have hinv' : ArenaInv S base
            { arenaSplice p { s with child := w } with
              ctx := { s.ctx with current := p } } blocks' :=
          ⟨hinv.list.setCurrent hmem rfl, hinv.child⟩
        have hgrant := arenaBump_grant hinv' hpos (Nat.dvd_zero 8)
          (Nat.le_of_eq hoffset) (n := n) (by
            rw [Nat.zero_add]
            exact Nat.le_trans hle (Nat.le_of_eq hsize.symm))
        have hgrows' : ArenaExtends s blocks
            { arenaSplice p { s with child := w } with
              ctx := { s.ctx with current := p } } blocks' :=
          ⟨hgrows.blockSize, hgrows.mono, hgrows.offset_le, hgrows.kept⟩
        refine ⟨_, _, ?_, ArenaAllocated.granted (hgrant.after hgrows')⟩
        simp [hne]
        rfl
    · -- The current block has room, or the sum wrapped around.
      rw [if_neg hfull]
      have hfits : sizeAdd (arenaAlignedOffset s) n ≤
          size (mem s) s.ctx.current := Nat.not_lt.mp hfull
      by_cases hwrap : arenaAlignedOffset s + n < 2 ^ 64
      · rw [sizeAdd_eq hwrap] at hfits
        exact ⟨_, _, rfl, ArenaAllocated.granted
          (arenaBump_grant h hpos haligned.right haligned.left hfits)⟩
      · rcases hsums.right hle with hno | ⟨hptr, hown⟩
        · exact absurd hno hwrap
        · rcases arenaBump_wrapped h hfits hptr with ⟨hfst, hinv, hsub⟩
          refine ⟨_, _, congrArg some (Prod.ext hfst rfl), ?_⟩
          exact ArenaAllocated.wrapped (Nat.not_lt.mp hwrap) hle hinv rfl
            (fun y hy => hown y (hsub y hy))

/-!
# Reallocation

The copy of a moved block stays inside the payload it was granted. When the sum
wrapped, the current block is the only one, and the copy starts behind its header.
-/

theorem ArenaChild.store_free {w : χ} (h : ArenaChild S base w blocks)
    {P : Nat -> Nat -> Prop} {m : Mem} (hw : Wrote P (mem w) m)
    (hown : forall y, ¬ S.own w y) : ArenaChild S base (setMem m w) blocks := by
  rcases h with ⟨L, hL, hinv⟩
  exact ⟨L, hL, (S.store hinv hw (fun _ _ _ y _ _ => hown y)).left⟩

/-- Two blocks of more than half of the address space do not fit into it. -/
theorem ArenaInv.only_current (h : ArenaInv S base s blocks)
    (hhuge : 2 ^ 63 - 3 ≤ s.ctx.blockSize) {b : Block} (hb : b ∈ blocks) :
    b.ptr = s.ctx.current := by
  rcases h.list.current with ⟨cur, hcur, hcurPtr, hcurSize⟩
  by_contra hne
  rw [← hcurPtr] at hne
  have hdisj := h.list.disjoint.disjoint_of_ne hb hcur
    (fun heq => hne (congrArg Block.ptr heq))
  have hbSize := h.list.size_eq b hb
  have hbLarge := h.list.blockSize_le b hb
  have hbStop := (h.list.wellFormed b hb).right.right
  have hcurStop := (h.list.wellFormed cur hcur).right.right
  simp only [Block.Disjoint, Block.stop, sizeofArenaBlock] at *
  omega

theorem ArenaInv.huge_of_wrap (h : ArenaInv S base s blocks) {n : Nat}
    (hwrap : 2 ^ 64 ≤ arenaAlignedOffset s + n) (hn : n ≤ s.ctx.blockSize) :
    2 ^ 63 - 3 ≤ s.ctx.blockSize := by
  rcases h.list.current with ⟨cur, hcur, hcurPtr, hcurSize⟩
  have hbound := h.bounds hcur
  have hsize := h.list.size_eq cur hcur
  rw [hcurPtr] at hbound hsize
  unfold arenaAlignedOffset at hwrap
  simp only [sizeofArenaBlock] at hbound hsize hcurSize
  rw [alloAlignUp_eight (by omega)] at hwrap
  omega

theorem arenaResizeLast_inv (h : ArenaInv S base s blocks) {ptr old new : Nat}
    (hfits : arenaFitsInCurrent ptr new s = true) :
    ArenaInv S base (arenaResizeLast ptr old new s) blocks := by
  rcases h.list.current with ⟨cur, hcur, hcurPtr, _⟩
  rw [arenaFitsInCurrent, decide_eq_true_eq, ← hcurPtr] at hfits
  have hlist := h.list.setOffset hcur hfits
  have hwrote := wrote_setOffset (m := mem s) hcur
    (sizeAdd (arenaOffsetWithoutThis ptr s) new)
  rw [hcurPtr] at hlist hwrote
  unfold arenaResizeLast modifyMem
  apply h.store_header
  · apply hwrote.trans
    apply Wrote.note
    split <;> trivial
  · exact hlist.congr (fun _ _ _ _ => rfl)

/-- The copy of a block to the place it was granted. -/
theorem ArenaGrant.copy_inv {s' : ArenaState χ} {blocks' : List Block}
    {n p : Nat} (h : ArenaGrant S base s blocks n p s' blocks') (src : Nat)
    {len : Nat} (hlen : len ≤ n) :
    ArenaInv S base (setMem ((mem s').copy p src len) s') blocks' := by
  apply h.inv.store_payload (P := fun x k => x = p ∧ k = len)
  · exact Wrote.copy ⟨rfl, rfl⟩
  · intro x k hxk
    rcases h.place with ⟨b, o, hb, hp, _, hend⟩
    have hused := h.inv.list.used_inside hb
    refine ⟨b, hb, ?_⟩
    simp only [Block.Inside, used, payload, Block.stop] at hused ⊢
    omega

theorem alloMemcpy_inv {dst src n : Nat} {m m' : Mem}
    (h : alloMemcpy dst src n m = some m') : m' = m.copy dst src n := by
  unfold alloMemcpy at h
  split at h
  · cases h
  · split at h
    · cases h
      rfl
    · cases h

theorem arenaReallocFn_inv (h : ArenaInv S base s blocks)
    {ptr old new p : Nat} {s' : ArenaState χ}
    (hsums : old < new -> ¬ (arenaIsLast ptr old s = true ∧
      arenaFitsInCurrent ptr new s = true) -> ArenaAllocSums S s new)
    (hcall : arenaReallocFn a ptr old new s = some (p, s')) :
    exists blocks', ArenaInv S base s' blocks' ∧
      s'.ctx.blockSize = s.ctx.blockSize := by
  unfold arenaReallocFn at hcall
  by_cases hplace : arenaIsLast ptr old s = true ∧
      arenaFitsInCurrent ptr new s = true
  · rw [if_pos hplace] at hcall
    cases hcall
    exact ⟨blocks, arenaResizeLast_inv h hplace.right, rfl⟩
  rw [if_neg hplace] at hcall
  by_cases hle : new ≤ old
  · rw [if_pos hle] at hcall
    cases hcall
    exact ⟨blocks, h, rfl⟩
  rw [if_neg hle] at hcall
  have hlt : old < new := Nat.not_le.mp hle
  rcases arenaAllocFn_spec h (hsums hlt hplace) with ⟨q, t, halloc, hout⟩
  rw [halloc] at hcall
  simp only [Option.bind_eq_bind, Option.bind_some] at hcall
  by_cases hnull : q = NULL
  · rw [if_pos hnull] at hcall
    cases hcall
    cases hout with
    | failed hinv hctx _ => exact ⟨blocks, hinv, by rw [hctx]⟩
    | granted hgrant => exact ⟨_, hgrant.inv, hgrant.grows.blockSize⟩
    | wrapped _ _ hinv hctx _ => exact ⟨blocks, hinv, by rw [hctx]⟩
  · rw [if_neg hnull, Option.bind_eq_some_iff] at hcall
    rcases hcall with ⟨m, hcopy, heq⟩
    cases heq
    rw [alloMemcpy_inv hcopy]
    cases hout with
    | failed _ _ _ => exact absurd rfl hnull
    | granted hgrant =>
        exact ⟨_, hgrant.copy_inv ptr (Nat.le_of_lt hlt),
          hgrant.grows.blockSize⟩
    | wrapped hwrap hn hinv hctx hown =>
        have hhuge := h.huge_of_wrap hwrap hn
        have hcopyWrote : Wrote (fun x k =>
            x = s.ctx.current + sizeofArenaBlock + arenaAlignedOffset s ∧
              k = old) (mem t) ((mem t).copy
                (s.ctx.current + sizeofArenaBlock + arenaAlignedOffset s)
                  ptr old) :=
          Wrote.copy ⟨rfl, rfl⟩
        refine ⟨blocks, ⟨?_, hinv.child.store_free hcopyWrote hown⟩, by
          show t.ctx.blockSize = _
          rw [hctx]⟩
        show ArenaBlocks t.ctx (mem (setMem _ t)) blocks
        rw [HasMem.mem_setMem]
        apply hinv.list.wrote hcopyWrote
        intro x k hxk b hb
        have hptr := hinv.only_current (by rw [hctx]; exact hhuge) hb
        rw [hctx] at hptr
        left
        simp only [header, Block.stop]
        omega

theorem arenaFreeFn_spec (h : ArenaInv S base s blocks) (ptr size : Nat) :
    exists s', arenaFreeFn ptr size s = some s' ∧
      ArenaInv S base s' blocks ∧ s'.ctx = s.ctx ∧
        (mem s').bytes = (mem s).bytes := by
  unfold arenaFreeFn
  by_cases hnull : ptr = NULL ∨ size = 0
  · rw [if_pos hnull]
    exact ⟨s, rfl, h, rfl, rfl⟩
  rw [if_neg hnull]
  rcases arenaContainsFn_spec h ptr with ⟨answer, hcall, _, _⟩
  rw [hcall]
  simp only [Option.bind_eq_bind, Option.bind_some]
  by_cases hno : answer = AlloContains.no
  · rw [if_pos hno]
    exact ⟨s, rfl, h, rfl, rfl⟩
  · rw [if_neg hno]
    refine ⟨_, rfl, ?_, rfl, ?_⟩
    · exact h.store_header (Wrote.note trivial)
        (h.list.congr (fun _ _ _ _ => rfl))
    · rw [mem_modifyMem]
      rfl

/-!
# Destruction
-/

theorem arenaFreeBlocks_spec (C : Contract a) {w : χ} {head fuel : Nat}
    (hchain : Chain (next (mem w)) head (blocks.map Block.ptr))
    (hsize : forall b, b ∈ blocks ->
      b.size = sizeofArenaBlock + size (mem w) b.ptr)
    (hchild : ArenaChild C.toSupply base w blocks)
    (hfuel : blocks.length < fuel) :
    exists w', arenaFreeBlocks a fuel head w = some w' ∧
      ArenaChild C.toSupply base w' [] := by
  induction blocks generalizing w head fuel with
  | nil =>
      cases fuel with
      | zero => cases hfuel
      | succ fuel =>
          have hhead : head = NULL := hchain
          exact ⟨w, by rw [arenaFreeBlocks, if_pos hhead], hchild⟩
  | cons b rest ih =>
      cases fuel with
      | zero => cases hfuel
      | succ fuel =>
          rcases hchain with ⟨hhead, hne, htail⟩
          have hnull : b.ptr ≠ NULL := hne
          rcases hchild with ⟨L, hL, hinv⟩
          have hbL : b ∈ L := hL.mem_iff.mpr List.mem_cons_self
          have hstop := (C.wellFormed hinv b hbL).right.right
          have hbSize := hsize b List.mem_cons_self
          have hsum : sizeAdd sizeofArenaBlock (size (mem w) b.ptr) = b.size := by
            simp only [Block.stop] at hstop
            rw [sizeAdd_eq (by omega), hbSize]
          rcases C.free hinv hbL with ⟨w₁, hcall, hkeeps, hinv'⟩
          have hrest : (L.erase b).Perm (rest ++ base) := by
            have hperm := hL.erase b
            rwa [List.cons_append, List.erase_cons_head] at hperm
          have hword : forall d, d ∈ rest -> forall k, k ≤ 16 ->
              (mem w₁).word (d.ptr + k) = (mem w).word (d.ptr + k) := by
            intro d hd k hk
            have hdSize := hsize d (List.mem_cons_of_mem b hd)
            apply Mem.word_congr
            intro x hx hlt
            apply hkeeps d (hrest.mem_iff.mpr (List.mem_append_left base hd))
            simp only [Block.Contains, Block.stop, sizeofArenaBlock] at hdSize ⊢
            omega
          have htail' : Chain (next (mem w₁)) (next (mem w) b.ptr)
              (rest.map Block.ptr) := by
            apply htail.congr
            intro x hx
            rcases List.mem_map.mp hx with ⟨d, hd, hptr⟩
            subst hptr
            exact hword d hd 0 (by omega)
          have hsize' : forall d, d ∈ rest ->
              d.size = sizeofArenaBlock + size (mem w₁) d.ptr := by
            intro d hd
            have hsame : size (mem w₁) d.ptr = size (mem w) d.ptr :=
              hword d hd 8 (by omega)
            rw [hsame]
            exact hsize d (List.mem_cons_of_mem b hd)
          have hfuel' : rest.length < fuel := by simpa using hfuel
          rcases ih htail' hsize' ⟨_, hrest, hinv'⟩ hfuel' with
            ⟨w₂, hrun, hdone⟩
          refine ⟨w₂, ?_, hdone⟩
          rw [hhead, arenaFreeBlocks, if_neg hnull]
          simp only [hsum, hcall, Option.bind_eq_bind, Option.bind_some]
          exact hrun

theorem arenaDestroyFn_spec {C : Contract a}
    (h : ArenaInv C.toSupply base s blocks) :
    exists s', arenaDestroyFn a s = some s' ∧
      ArenaChild C.toSupply base s'.child [] := by
  have hfuel := h.length_lt
  rw [List.length_map] at hfuel
  rcases arenaFreeBlocks_spec C h.list.chain h.list.size_eq h.child hfuel with
    ⟨w, hrun, hdone⟩
  refine ⟨{ s with child := w }, ?_, hdone⟩
  simp [arenaDestroyFn, hrun]

end Placement

end Liballo
