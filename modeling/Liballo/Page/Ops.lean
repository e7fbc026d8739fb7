import Liballo.Page.Registry

/-!
# Operations of the page allocator

Every operation keeps the registry in step with the mappings, writes only inside it,
and moves or unmaps only whole live mappings.
-/

namespace Liballo

open Foundation

/-!
# Steps
-/

/-- An event judged by those before it, when `R` is the mapping of the registry. -/
def PageEvent (R : Block) (tr : List Event) : Event -> Prop
  | Event.write a n => Block.Inside ⟨a, n⟩ R ∧ R ∈ liveMaps tr
  | Event.remap a n _ _ => ⟨a, n⟩ ∈ liveMaps tr
  | Event.unmap a n => ⟨a, n⟩ ∈ liveMaps tr
  | _ => True

structure PageStep (R : Block) (L : List Block) (s s' : PageState) : Prop where
  self : s'.self = s.self
  pageSize : s'.ctx.pageSize = s.ctx.pageSize
  keeps : KeepsBytes L s.mem s'.mem
  traced : Traced (PageEvent R) s.mem s'.mem

namespace PageStep

variable {R : Block} {L L' : List Block} {s s' s'' : PageState}

theorem refl (R : Block) (L : List Block) (s : PageState) : PageStep R L s s :=
  { self := rfl
    pageSize := rfl
    keeps := KeepsBytes.refl L s.mem
    traced := Traced.refl _ s.mem }

theorem trans (h : PageStep R L s s') (h' : PageStep R L s' s'') :
    PageStep R L s s'' :=
  { self := h'.self.trans h.self
    pageSize := h'.pageSize.trans h.pageSize
    keeps := h.keeps.trans h'.keeps
    traced := h.traced.trans h'.traced }

theorem subset (h : PageStep R L s s') (hsub : forall b, b ∈ L' -> b ∈ L) :
    PageStep R L' s s' :=
  { h with keeps := h.keeps.subset hsub }

theorem note {e : Event} (he : PageEvent R s.mem.trace e) :
    PageStep R L s { s with mem := s.mem.note e } :=
  { self := rfl
    pageSize := rfl
    keeps := KeepsBytes.refl L s.mem
    traced := Traced.event rfl he }

theorem touch : PageStep R L s s.touch :=
  note trivial

theorem repoison (a n a' n' : Nat) :
    PageStep R L s
      { s with
        mem := (s.mem.note (Event.poison a n)).note (Event.unpoison a' n') } := by
  have hfirst : PageStep R L s { s with mem := s.mem.note (Event.poison a n) } :=
    note trivial
  exact hfirst.trans (note trivial)

end PageStep

section Entries

variable {base es : List Block} {s : PageState} {a : Nat} {m : Mem}

theorem PageInv.touch (h : PageInv base s.ctx s.mem es) :
    PageInv base s.touch.ctx s.touch.mem es :=
  h.note rfl

/-- Writing an entry touches no mapping of a user. -/
theorem PageStep.setEntry {i : Nat} {c : PageContext} {L : List Block}
    (hi : i < s.ctx.capacity) (hpage : c.pageSize = s.ctx.pageSize)
    (hlive : s.ctx.registryMap ∈ liveMaps s.mem.trace)
    (hapart : forall b, b ∈ L -> s.ctx.registryMap.Disjoint b)
    (addr size : Nat) :
    PageStep s.ctx.registryMap L s
      { s with
        ctx := c
        mem := setPageEntry s.ctx.registry i addr size s.mem } := by
  have hinside := pageEntry_inside hi
  refine
    { self := rfl
      pageSize := hpage
      keeps := ?_
      traced := ?_ }
  · apply KeepsBytes.of_wrote (wrote_setPageEntry hi addr size s.mem)
    intro x n hxn b hb
    exact (hxn.disjoint (hapart b hb)).symm
  · simp only [Block.Inside, Block.stop, sizeofPageEntry] at hinside
    apply Traced.trans
    · apply Traced.event
        (Mem.writeWord_trace (pageEntryAt s.ctx.registry i) addr s.mem)
      refine ⟨?_, hlive⟩
      simp only [Block.Inside, Block.stop]
      omega
    · apply Traced.event (Mem.writeWord_trace _ size _)
      refine ⟨?_, hlive⟩
      simp only [Block.Inside, Block.stop]
      omega

/-- The state after the registry moved. -/
def PageState.regrown (s : PageState) (a : Nat) (m : Mem) : PageState :=
  { s with
    ctx :=
      { s.ctx with
        registry := a
        capacity := (s.ctx.capacity * sizeofPageEntry + s.ctx.pageSize) /
          sizeofPageEntry }
    mem := m }

theorem PageInv.grow_step (h : PageInv base s.ctx s.mem es)
    (hgrant : Granted ⟨a, s.ctx.capacity * sizeofPageEntry + s.ctx.pageSize⟩
      ((liveMaps s.mem.trace).erase s.ctx.registryMap))
    (htrace : m.trace = Event.remap s.ctx.registry
      (s.ctx.capacity * sizeofPageEntry) a
      (s.ctx.capacity * sizeofPageEntry + s.ctx.pageSize) :: s.mem.trace)
    (hmoved : forall i, i < s.ctx.capacity * sizeofPageEntry ->
      m.bytes (a + i) = s.mem.bytes (s.ctx.registry + i))
    (hkept : forall x, ¬ Block.Contains
      ⟨a, s.ctx.capacity * sizeofPageEntry + s.ctx.pageSize⟩ x ->
        m.bytes x = s.mem.bytes x) :
    PageInv base (s.regrown a m).ctx m es ∧
      (forall R, PageStep R es s (s.regrown a m)) ∧
        s.ctx.capacity < (s.regrown a m).ctx.capacity := by
  have hdvd : sizeofPageEntry ∣
      s.ctx.capacity * sizeofPageEntry + s.ctx.pageSize :=
    Nat.dvd_add (Nat.dvd_mul_left _ _) h.page_pos.left
  have hback : (s.regrown a m).ctx.capacity * sizeofPageEntry =
      s.ctx.capacity * sizeofPageEntry + s.ctx.pageSize :=
    Nat.div_mul_cancel hdvd
  have hmap : (s.regrown a m).ctx.registryMap =
      ⟨a, s.ctx.capacity * sizeofPageEntry + s.ctx.pageSize⟩ :=
    congrArg (Block.mk a) hback
  refine ⟨?_, ?_, ?_⟩
  · refine h.grow rfl rfl hback ?_ ?_ hmoved
    · rw [hmap]
      exact hgrant
    · rw [hmap, htrace]
      rfl
  · intro R
    refine
      { self := rfl
        pageSize := rfl
        keeps := ?_
        traced := Traced.event htrace (h.holds.mem List.mem_cons_self) }
    intro b hb x hx
    apply hkept
    have hlive : b ∈ (liveMaps s.mem.trace).erase s.ctx.registryMap :=
      (List.mem_erase_of_ne (h.registry_ne hb).symm).mpr
        (h.holds.mem (List.mem_cons_of_mem _ hb))
    exact (hgrant.right b hlive).symm.not_contains hx
  · have hpos := h.page_pos.right.left
    simp only [sizeofPageEntry] at hback
    omega

/-- A new mapping leaves those of the users alone. -/
theorem PageStep.granted {R : Block} {n : Nat}
    (h : PageInv base s.ctx s.mem es) (hgrant : Granted ⟨a, n⟩ (liveMaps s.mem.trace))
    (htrace : m.trace = Event.map a n :: s.mem.trace)
    (hkept : forall x, ¬ Block.Contains ⟨a, n⟩ x -> m.bytes x = s.mem.bytes x) :
    PageStep R es s { s with mem := m } := by
  refine
    { self := rfl
      pageSize := rfl
      keeps := ?_
      traced := Traced.event htrace trivial }
  intro b hb x hx
  apply hkept
  have hlive := h.holds.mem (List.mem_cons_of_mem _ hb)
  exact (hgrant.right b hlive).symm.not_contains hx

theorem PageStep.regranted {R b : Block} {n : Nat}
    (h : PageInv base s.ctx s.mem es) (hb : b ∈ es)
    (hgrant : Granted ⟨a, n⟩ ((liveMaps s.mem.trace).erase b))
    (htrace : m.trace = Event.remap b.ptr b.size a n :: s.mem.trace)
    (hkept : forall x, ¬ Block.Contains ⟨a, n⟩ x -> m.bytes x = s.mem.bytes x) :
    PageStep R (es.erase b) s { s with mem := m } := by
  refine
    { self := rfl
      pageSize := rfl
      keeps := ?_
      traced := Traced.event htrace (h.holds.mem (List.mem_cons_of_mem _ hb)) }
  intro d hd x hx
  apply hkept
  have hne : d ≠ b := fun heq => (h.nodup.mem_erase_iff.mp hd).left heq
  have hlive : d ∈ (liveMaps s.mem.trace).erase b :=
    (List.mem_erase_of_ne hne).mpr
      (h.holds.mem (List.mem_cons_of_mem _ (List.mem_of_mem_erase hd)))
  exact (hgrant.right d hlive).symm.not_contains hx

end Entries

/-!
# The operations on the registry
-/

section Registry

variable {base es : List Block} {s s' : PageState} {os : Os}

theorem registryEnsureCapacity_spec (h : PageInv base s.ctx s.mem es) {ok : Bool}
    (hcall : registryEnsureCapacity os s = (ok, s')) :
    PageInv base s'.ctx s'.mem es ∧ (forall R, PageStep R es s s') ∧
      (ok = true -> s'.ctx.count < s'.ctx.capacity) := by
  have htouch := h.touch
  have hle := h.count_le
  unfold registryEnsureCapacity at hcall
  dsimp only at hcall
  by_cases hfull : s.touch.ctx.count = s.touch.ctx.capacity
  · rw [if_pos hfull, htouch.old_size] at hcall
    rcases alloOsMremap_cases os s.touch.ctx.registry
      (s.touch.ctx.capacity * sizeofPageEntry)
      (sizeAdd (s.touch.ctx.capacity * sizeofPageEntry) s.touch.ctx.pageSize)
      s.touch.mem with hrefused | ⟨a, m, hgranted, hne, hgrant, htrace, hmoved, hkept⟩
    · rw [hrefused] at hcall
      dsimp only at hcall
      rw [if_pos rfl] at hcall
      cases hcall
      refine ⟨htouch.note rfl, fun R => ?_, fun hok => by cases hok⟩
      exact PageStep.touch.trans (PageStep.note trivial)
    · rw [hgranted] at hcall
      dsimp only at hcall
      rw [if_neg hne] at hcall
      have hnew := htouch.new_size hgrant.left.right.left
      rw [hnew] at hcall hgrant htrace hmoved hkept
      rcases htouch.grow_step hgrant htrace
        (fun i hi => hmoved i hi (Nat.lt_of_lt_of_le hi (Nat.le_add_right _ _)))
        hkept with ⟨hinv, hstep, hroom⟩
      cases hcall
      refine ⟨hinv.note rfl, fun R => ?_, fun _ => ?_⟩
      · exact (PageStep.touch.trans (hstep R)).trans PageStep.touch
      · exact Nat.lt_of_le_of_lt (Nat.le_of_eq hfull) hroom
  · rw [if_neg hfull] at hcall
    cases hcall
    exact ⟨htouch, fun R => PageStep.touch, fun _ =>
      Nat.lt_of_le_of_ne hle hfull⟩

theorem registryRemove_eq (h : PageInv base s.ctx s.mem es) {b : Block}
    (hb : b ∈ es) :
    exists i, es[i]? = some b ∧ registryRemove b.ptr s =
      { s with
        ctx := { s.ctx with count := s.ctx.count - 1 }
        mem := setPageEntry s.ctx.registry i
          (pageEntryAddr s.mem s.ctx.registry (s.ctx.count - 1))
          (pageEntrySize s.mem s.ctx.registry (s.ctx.count - 1))
          s.touch.mem } := by
  have hbytes : forall x, s.ctx.registryMap.Contains x ->
      s.touch.mem.bytes x = s.mem.bytes x := fun _ _ => rfl
  rcases registryFind_mem h hbytes hb with ⟨i, hfind, hi⟩
  have hpos : 0 < s.ctx.count :=
    Nat.lt_of_le_of_lt (Nat.zero_le i) (h.index_lt hi)
  have hlast : sizeSub s.touch.ctx.count 1 = s.ctx.count - 1 := by
    apply sizeSub_eq hpos
    have hcap := h.capacity_bound
    have hle := h.count_le
    simp only [sizeofPageEntry] at hcap
    show s.ctx.count < 2 ^ 64
    omega
  refine ⟨i, hi, ?_⟩
  unfold registryRemove
  dsimp only
  rw [show registryFind s.touch.mem s.touch.ctx.registry b.ptr 0
    s.touch.ctx.count = some i from hfind]
  dsimp only
  rw [hlast]
  rfl

theorem registryUpdate_eq {m : Mem} (h : PageInv base s.ctx m es)
    (hbytes : forall x, s.ctx.registryMap.Contains x ->
      s.mem.bytes x = m.bytes x) {b : Block} (hb : b ∈ es) (a n : Nat) :
    exists i, es[i]? = some b ∧ registryUpdate b.ptr a n s =
      { s with mem := setPageEntry s.ctx.registry i a n s.touch.mem } := by
  have htouch : forall x, s.ctx.registryMap.Contains x ->
      s.touch.mem.bytes x = m.bytes x := hbytes
  rcases registryFind_mem h htouch hb with ⟨i, hfind, hi⟩
  refine ⟨i, hi, ?_⟩
  unfold registryUpdate
  dsimp only
  rw [show registryFind s.touch.mem s.touch.ctx.registry b.ptr 0
    s.touch.ctx.count = some i from hfind]
  rfl

theorem registryAdd_eq (h : PageInv base s.ctx s.mem es)
    (hroom : s.ctx.count < s.ctx.capacity) (a n : Nat) (m : Mem) :
    registryAdd a n { s with mem := m } =
      { s with
        ctx := { s.ctx with count := s.ctx.count + 1 }
        mem := setPageEntry s.ctx.registry s.ctx.count a n
          (m.note (Event.touch s.self sizeofAllo)) } := by
  have hnext : sizeAdd s.ctx.count 1 = s.ctx.count + 1 := by
    apply sizeAdd_eq
    have hcap := h.capacity_bound
    simp only [sizeofPageEntry] at hcap
    omega
  simp only [registryAdd, PageState.touch, hnext]

end Registry

/-!
# The operations
-/

section Ops

variable {base es : List Block} {s s' : PageState} {os : Os}

theorem pageAllocFn_spec (h : PageInv base s.ctx s.mem es) {n p : Nat}
    (hn : n < 2 ^ 64) (hcall : pageAllocFn os n s = (p, s')) :
    PageStep s'.ctx.registryMap es s s' ∧
      (p = NULL ∧ PageInv base s'.ctx s'.mem es ∨
        p ≠ NULL ∧ n ≠ 0 ∧ n ≤ pageRound s.ctx n ∧
          PageInv base s'.ctx s'.mem (es ++ [⟨p, pageRound s.ctx n⟩])) := by
  unfold pageAllocFn at hcall
  by_cases hzero : n = 0
  · rw [if_pos hzero] at hcall
    cases hcall
    exact ⟨PageStep.refl _ es s, Or.inl ⟨rfl, h⟩⟩
  · rw [if_neg hzero] at hcall
    rcases hens : registryEnsureCapacity os s with ⟨ok, s₁⟩
    rcases registryEnsureCapacity_spec h hens with ⟨hinv, hstep, hroom⟩
    have hround : pageRound s₁.ctx n = pageRound s.ctx n := by
      unfold pageRound
      rw [(hstep s.ctx.registryMap).pageSize]
    rw [hens] at hcall
    dsimp only at hcall
    cases ok with
    | false =>
        rw [if_pos rfl] at hcall
        cases hcall
        exact ⟨hstep _, Or.inl ⟨rfl, hinv⟩⟩
    | true =>
        rw [if_neg (by decide), hround] at hcall
        rcases alloOsMmap_cases os (pageRound s.ctx n) s₁.mem with
          hrefused | ⟨a, m, hgranted, hne, hgrant, htrace, _, hkept⟩
        · rw [hrefused] at hcall
          dsimp only at hcall
          rw [if_pos rfl] at hcall
          cases hcall
          exact ⟨(hstep _).trans (PageStep.note trivial),
            Or.inl ⟨rfl, hinv.note rfl⟩⟩
        · rw [hgranted] at hcall
          dsimp only at hcall
          rw [if_neg hne, registryAdd_eq hinv (hroom rfl)] at hcall
          cases hcall
          have hle : n ≤ pageRound s.ctx n := by
            rcases h.pageSize with ⟨k, _, hk, hpage⟩
            rcases pageRound_spec hk hpage hn with hnone | hle
            · exact absurd hnone (Nat.ne_of_gt hgrant.left.right.left)
            · exact hle
          have hapart : s₁.ctx.registryMap.Disjoint ⟨p, pageRound s.ctx n⟩ :=
            (hgrant.right _ (hinv.holds.mem List.mem_cons_self)).symm
          have hmaps :
              liveMaps (m.note (Event.touch s₁.self sizeofAllo)).trace =
                ⟨p, pageRound s.ctx n⟩ :: liveMaps s₁.mem.trace := by
            rw [Mem.note_trace, htrace]
            rfl
          have hmap : PageStep s₁.ctx.registryMap es s₁
              { s₁ with mem := m.note (Event.touch s₁.self sizeofAllo) } :=
            (PageStep.granted hinv hgrant htrace hkept).trans
              (PageStep.note trivial)
          have hlive : s₁.ctx.registryMap ∈ liveMaps m.trace := by
            rw [htrace]
            exact List.mem_cons_of_mem _ (hinv.holds.mem List.mem_cons_self)
          have hadd := PageStep.setEntry
            (s := { s₁ with mem := m.note (Event.touch s₁.self sizeofAllo) })
            (c := { s₁.ctx with count := s₁.ctx.count + 1 })
            (hroom rfl) rfl hlive (fun b hb => hinv.entry_apart hb) p
            (pageRound s.ctx n)
          have hfresh := hinv.add (hroom rfl) hgrant hmaps
            (fun x hx => hkept x (hapart.not_contains hx))
          constructor
          · exact (((hstep _).trans hmap).trans hadd).trans
              (PageStep.repoison p (pageRound s.ctx n) p n)
          · exact Or.inr ⟨hne, hzero, hle, (hfresh.note rfl).note rfl⟩

theorem pageFreeFn_spec (h : PageInv base s.ctx s.mem es) {b : Block} {n : Nat}
    (hb : b ∈ es) (hround : pageRound s.ctx n = b.size) :
    PageStep s.ctx.registryMap (es.erase b) s (pageFreeFn b.ptr n s) ∧
      (pageFreeFn b.ptr n s).ctx.registryMap = s.ctx.registryMap ∧
        exists es', es'.Perm (es.erase b) ∧
          PageInv base (pageFreeFn b.ptr n s).ctx (pageFreeFn b.ptr n s).mem
            es' := by
  have hptr : b.ptr ≠ NULL :=
    Nat.ne_of_gt (h.holds.wellFormed b (List.mem_cons_of_mem _ hb)).left
  rcases registryRemove_eq h.touch hb with ⟨i, hi, hremove⟩
  have hcap : i < s.ctx.capacity := Nat.lt_of_lt_of_le (h.index_lt hi) h.count_le
  have hset := PageStep.setEntry (s := s.touch.touch)
    (c := { s.ctx with count := s.ctx.count - 1 }) hcap rfl
    (h.holds.mem List.mem_cons_self)
    (fun d (hd : d ∈ es.erase b) => h.entry_apart (List.mem_of_mem_erase hd))
    (pageEntryAddr s.mem s.ctx.registry (s.ctx.count - 1))
    (pageEntrySize s.mem s.ctx.registry (s.ctx.count - 1))
  have hmaps := (wrote_setPageEntry hcap
    (pageEntryAddr s.mem s.ctx.registry (s.ctx.count - 1))
    (pageEntrySize s.mem s.ctx.registry (s.ctx.count - 1))
    s.touch.touch.mem).liveMaps_eq
  have hlive : b ∈ liveMaps s.mem.trace :=
    h.holds.mem (List.mem_cons_of_mem _ hb)
  have hcalled : pageFreeFn b.ptr n s =
      { s with
        ctx := { s.ctx with count := s.ctx.count - 1 }
        mem := Os.unmap b.ptr b.size
          ((setPageEntry s.ctx.registry i
            (pageEntryAddr s.mem s.ctx.registry (s.ctx.count - 1))
            (pageEntrySize s.mem s.ctx.registry (s.ctx.count - 1))
            s.touch.touch.mem).note (Event.unpoison b.ptr b.size)) } := by
    unfold pageFreeFn
    rw [if_neg hptr, hround]
    dsimp only
    rw [hremove]
    rfl
  rw [hcalled]
  refine ⟨?_, rfl, ?_⟩
  · have hopen := hset.trans (PageStep.note
      (e := Event.unpoison b.ptr b.size) trivial)
    apply (PageStep.touch.trans PageStep.touch).trans
    apply hopen.trans
    apply PageStep.note
    exact Eq.mpr (congrArg (fun L => b ∈ L) hmaps) hlive
  · have hgone : liveMaps (Os.unmap b.ptr b.size
        ((setPageEntry s.ctx.registry i
          (pageEntryAddr s.mem s.ctx.registry (s.ctx.count - 1))
          (pageEntrySize s.mem s.ctx.registry (s.ctx.count - 1))
          s.touch.touch.mem).note (Event.unpoison b.ptr b.size))).trace =
        (liveMaps s.mem.trace).erase b :=
      congrArg (fun L => List.erase L b) hmaps
    exact h.remove hi hgone rfl

theorem pageReallocFn_spec (h : PageInv base s.ctx s.mem es) {b : Block}
    {n n' p : Nat} (hb : b ∈ es) (hround : pageRound s.ctx n = b.size)
    (hn : n' < 2 ^ 64) (hcall : pageReallocFn os b.ptr n n' s = (p, s')) :
    PageStep s.ctx.registryMap (es.erase b) s s' ∧
      s'.ctx = s.ctx ∧
        (p = NULL ∧ PageInv base s'.ctx s'.mem es ∧
            s'.mem.bytes = s.mem.bytes ∨
          p ≠ NULL ∧ n' ≤ pageRound s.ctx n' ∧
            KeepsPrefix b.ptr p (min b.size (pageRound s.ctx n')) s.mem s'.mem ∧
              exists es', es'.Perm (⟨p, pageRound s.ctx n'⟩ :: es.erase b) ∧
                PageInv base s'.ctx s'.mem es') := by
  have hwf := h.holds.wellFormed b (List.mem_cons_of_mem _ hb)
  have hptr : b.ptr ≠ NULL := Nat.ne_of_gt hwf.left
  have hle : 0 < pageRound s.ctx n' -> n' ≤ pageRound s.ctx n' := by
    intro hpos
    rcases h.pageSize with ⟨k, _, hk, hpage⟩
    rcases pageRound_spec hk hpage hn with hnone | hle
    · exact absurd hnone (Nat.ne_of_gt hpos)
    · exact hle
  unfold pageReallocFn at hcall
  rw [if_neg hptr] at hcall
  dsimp only at hcall
  rw [show pageRound s.touch.ctx n = b.size from hround,
    show pageRound s.touch.ctx n' = pageRound s.ctx n' from rfl] at hcall
  by_cases hsame : b.size = pageRound s.ctx n'
  · rw [if_pos hsame] at hcall
    have hpos : 0 < pageRound s.ctx n' := hsame ▸ hwf.right.left
    have hresult : exists e, liveMaps (e :: s.touch.mem.trace) =
        liveMaps s.touch.mem.trace ∧ PageEvent s.ctx.registryMap s.touch.mem.trace e ∧
          (b.ptr, { s.touch with mem := s.touch.mem.note e }) = (p, s') := by
      refine ⟨_, ?_, ?_, hcall⟩
      · split <;> rfl
      · split <;> trivial
    rcases hresult with ⟨e, hmaps, hevent, hresult⟩
    cases hresult
    refine ⟨PageStep.touch.trans (PageStep.note hevent), rfl, Or.inr ?_⟩
    refine ⟨hptr, hle hpos, fun _ _ => rfl, es, ?_, h.touch.note hmaps⟩
    rw [← hsame]
    exact List.perm_cons_erase hb
  · rw [if_neg hsame] at hcall
    have hopen : PageStep s.ctx.registryMap (es.erase b) s
        { s.touch with mem := s.touch.mem.note (Event.unpoison b.ptr b.size) } :=
      PageStep.touch.trans (PageStep.note trivial)
    have hinv : PageInv base s.ctx
        (s.touch.mem.note (Event.unpoison b.ptr b.size)) es :=
      h.touch.note rfl
    rcases alloOsMremap_cases os b.ptr b.size (pageRound s.ctx n')
      (s.touch.mem.note (Event.unpoison b.ptr b.size)) with
      hrefused | ⟨a, m, hgranted, hne, hgrant, htrace, hmoved, hkept⟩
    · rw [hrefused] at hcall
      dsimp only at hcall
      rw [if_pos rfl] at hcall
      cases hcall
      refine ⟨hopen.trans ((PageStep.note (e := Event.refuse) trivial).trans
        (PageStep.note trivial)), rfl, Or.inl ⟨rfl, ?_, rfl⟩⟩
      exact (hinv.note (e := Event.refuse) rfl).note rfl
    · rw [hgranted] at hcall
      dsimp only at hcall
      rw [if_neg hne] at hcall
      have hreg : s.ctx.registryMap ∈ (liveMaps s.mem.trace).erase b :=
        (List.mem_erase_of_ne (h.registry_ne hb)).mpr
          (h.holds.mem List.mem_cons_self)
      have hapart : s.ctx.registryMap.Disjoint ⟨a, pageRound s.ctx n'⟩ :=
        (hgrant.right _ hreg).symm
      have hkeptReg : forall x, s.ctx.registryMap.Contains x ->
          m.bytes x = s.mem.bytes x :=
        fun x hx => hkept x (hapart.not_contains hx)
      rcases registryUpdate_eq (s := { s.touch with mem := m }) hinv hkeptReg hb
        a (pageRound s.ctx n') with ⟨i, hi, hupdate⟩
      rw [hupdate] at hcall
      cases hcall
      have hcap : i < s.ctx.capacity :=
        Nat.lt_of_lt_of_le (h.index_lt hi) h.count_le
      have hmaps : liveMaps (m.note (Event.touch s.self sizeofAllo)).trace =
          ⟨p, pageRound s.ctx n'⟩ :: (liveMaps s.mem.trace).erase b := by
        rw [Mem.note_trace, htrace]
        rfl
      have hlive : s.ctx.registryMap ∈
          liveMaps (m.note (Event.touch s.self sizeofAllo)).trace :=
        hmaps ▸ List.mem_cons_of_mem _ hreg
      have hset := PageStep.setEntry
        (s := { s with mem := m.note (Event.touch s.self sizeofAllo) })
        (L := ⟨p, pageRound s.ctx n'⟩ :: es.erase b) hcap rfl hlive
        (fun d hd => by
          cases hd with
          | head => exact hapart
          | tail _ hd => exact h.entry_apart (List.mem_of_mem_erase hd))
        p (pageRound s.ctx n')
      have hmove : PageStep s.ctx.registryMap (es.erase b) s
          { s with mem := m.note (Event.touch s.self sizeofAllo) } :=
        (hopen.trans (PageStep.regranted hinv hb hgrant htrace hkept)).trans
          (PageStep.note trivial)
      refine ⟨(hmove.trans (hset.subset
        (fun d hd => List.mem_cons_of_mem _ hd))).trans
          (PageStep.repoison p (pageRound s.ctx n') p n'), rfl, Or.inr ?_⟩
      rcases h.update hi hgrant hmaps hkeptReg with ⟨hnew, hperm⟩
      refine ⟨hne, hle hgrant.left.right.left, ?_, _, hperm,
        (hnew.note rfl).note rfl⟩
      intro j hj
      have hjold : j < b.size := Nat.lt_of_lt_of_le hj (Nat.min_le_left _ _)
      have hjnew : j < pageRound s.ctx n' :=
        Nat.lt_of_lt_of_le hj (Nat.min_le_right _ _)
      exact (hset.keeps _ List.mem_cons_self (p + j)
        ⟨Nat.le_add_right p j, Nat.add_lt_add_left hjnew p⟩).trans
          (hmoved j hjold hjnew)

theorem pageScan_spec {m : Mem} {registry x : Nat} {ds : List Block} {i : Nat}
    (hwf : AllWellFormed ds)
    (hentries : forall j b, ds[j]? = some b ->
      pageEntryAddr m registry (i + j) = b.ptr ∧
        pageEntrySize m registry (i + j) = b.size) :
    pageScan m registry x i ds.length =
      if exists b, b ∈ ds ∧ b.Contains x then AlloContains.yes
      else AlloContains.no := by
  induction ds generalizing i with
  | nil => simp [pageScan]
  | cons d ds ih =>
      rcases hentries 0 d rfl with ⟨haddr, hsize⟩
      rw [Nat.add_zero] at haddr hsize
      have hstop : sizeAdd d.ptr d.size = d.stop :=
        sizeAdd_eq (hwf d List.mem_cons_self).right.right
      have hrest : pageScan m registry x (i + 1) ds.length =
          if exists b, b ∈ ds ∧ b.Contains x then AlloContains.yes
          else AlloContains.no := by
        apply ih (fun b hb => hwf b (List.mem_cons_of_mem d hb))
        intro j b hb
        rw [Nat.add_right_comm, Nat.add_assoc]
        exact hentries (j + 1) b hb
      rw [List.length_cons, pageScan, haddr, hsize, hstop]
      by_cases hhit : x ≥ d.ptr ∧ x < d.stop
      · have hcontains : d.Contains x := hhit
        rw [if_pos hhit, if_pos ⟨d, List.mem_cons_self, hcontains⟩]
      · have hmiss : ¬ d.Contains x := hhit
        rw [if_neg hhit, hrest]
        simp [hmiss]

theorem pageContainsFn_spec (h : PageInv base s.ctx s.mem es) (x : Nat) :
    pageContainsFn x s = if exists b, b ∈ es ∧ b.Contains x then AlloContains.yes
      else AlloContains.no := by
  unfold pageContainsFn
  rw [h.count]
  apply pageScan_spec
  · exact fun b hb => h.holds.wellFormed b (List.mem_cons_of_mem _ hb)
  · intro j b hb
    rw [Nat.zero_add]
    exact h.entries j b hb

/-- The mapping `e` is registered. -/
def PageState.Registered (s : PageState) (e : Block) : Prop :=
  exists i, i < s.ctx.count ∧ pageEntryAddr s.mem s.ctx.registry i = e.ptr ∧
    pageEntrySize s.mem s.ctx.registry i = e.size

theorem registered_iff (h : PageInv base s.ctx s.mem es) (e : Block) :
    s.Registered e <-> e ∈ es := by
  constructor
  · rintro ⟨i, hi, haddr, hsize⟩
    rw [h.count] at hi
    have hget : es[i]? = some es[i] := List.getElem?_eq_getElem hi
    rcases h.entries i _ hget with ⟨haddr', hsize'⟩
    have heq : e = es[i] := by
      cases e
      rw [haddr] at haddr'
      rw [hsize] at hsize'
      exact congrArg₂ Block.mk haddr' hsize'
    rw [heq]
    exact List.getElem_mem hi
  · intro he
    rcases List.mem_iff_getElem?.mp he with ⟨i, hget⟩
    exact ⟨i, h.index_lt hget, h.entries i e hget⟩

/-!
# Destroying the allocator
-/

/-- The loop unmaps the mappings `ds` that are still registered. -/
theorem pageUnmapEntries_spec {ds : List Block} {i : Nat}
    (hholds : Holds base (s.ctx.registryMap :: ds) (liveMaps s.mem.trace))
    (hentries : forall j b, ds[j]? = some b ->
      pageEntryAddr s.mem s.ctx.registry (i + j) = b.ptr ∧
        pageEntrySize s.mem s.ctx.registry (i + j) = b.size) :
    (pageUnmapEntries i ds.length s).ctx = s.ctx ∧
      Holds base [s.ctx.registryMap]
        (liveMaps (pageUnmapEntries i ds.length s).mem.trace) ∧
      unmapped (pageUnmapEntries i ds.length s).mem.trace =
        ds.reverse ++ unmapped s.mem.trace ∧
      Traced (PageEvent s.ctx.registryMap) s.mem
        (pageUnmapEntries i ds.length s).mem := by
  induction ds generalizing i s with
  | nil => exact ⟨rfl, hholds, rfl, Traced.event rfl trivial⟩
  | cons d ds ih =>
      rcases hentries 0 d rfl with ⟨haddr, hsize⟩
      rw [Nat.add_zero] at haddr hsize
      have hstep : pageUnmapEntries i (d :: ds).length s =
          pageUnmapEntries (i + 1) ds.length
            { s with mem := Os.unmap d.ptr d.size s.touch.mem } := by
        rw [← haddr, ← hsize]
        rfl
      have hholds' : Holds base (s.ctx.registryMap :: ds)
          ((liveMaps s.mem.trace).erase d) := by
        have hswap := (hholds.perm (List.Perm.swap _ _ _)).unmap
          (b := d) List.mem_cons_self
        rwa [List.erase_cons_head] at hswap
      have hlive : d ∈ liveMaps s.mem.trace :=
        hholds.mem (List.mem_cons_of_mem _ List.mem_cons_self)
      have hrest := ih (i := i + 1)
        (s := { s with mem := Os.unmap d.ptr d.size s.touch.mem }) hholds' (by
          intro j b hb
          rw [Nat.add_right_comm, Nat.add_assoc]
          exact hentries (j + 1) b hb)
      rw [hstep]
      rcases hrest with ⟨hctx, hheld, hunmapped, htraced⟩
      refine ⟨hctx, hheld, ?_, ?_⟩
      · rw [hunmapped, List.reverse_cons, List.append_assoc]
        rfl
      · have htouch : Traced (PageEvent s.ctx.registryMap) s.mem s.touch.mem :=
          Traced.event rfl trivial
        have hunmap : Traced (PageEvent s.ctx.registryMap) s.touch.mem
            (Os.unmap d.ptr d.size s.touch.mem) := Traced.event rfl hlive
        exact (htouch.trans hunmap).trans htraced

theorem pageDestroyFn_spec (h : PageInv base s.ctx s.mem es) :
    (liveMaps (pageDestroyFn s).mem.trace).Perm base ∧
      (unmapped (pageDestroyFn s).mem.trace).Perm
        (s.ctx.registryMap :: es ++ unmapped s.mem.trace) ∧
      Traced (PageEvent s.ctx.registryMap) s.mem (pageDestroyFn s).mem := by
  rcases pageUnmapEntries_spec (i := 0) h.holds (by
    intro j b hb
    rw [Nat.zero_add]
    exact h.entries j b hb) with ⟨hctx, hheld, hunmapped, htraced⟩
  have hcalled : pageDestroyFn s =
      { pageUnmapEntries 0 es.length s with
        mem := Os.unmap s.ctx.registry (s.ctx.capacity * sizeofPageEntry)
          (pageUnmapEntries 0 es.length s).mem } := by
    unfold pageDestroyFn
    rw [h.count]
    dsimp only
    rw [hctx, h.old_size]
    rfl
  rw [hcalled]
  refine ⟨?_, ?_, htraced.trans (Traced.event rfl (hheld.mem List.mem_cons_self))⟩
  · have hgone := (hheld.unmap List.mem_cons_self).maps
    rwa [List.erase_cons_head] at hgone
  · apply List.Perm.cons
    show (unmapped (pageUnmapEntries 0 es.length s).mem.trace).Perm _
    rw [hunmapped]
    exact (List.reverse_perm es).append_right _

end Ops

/-!
# What a call gives up
-/

section GivenUp

variable {os : Os} {s s' : PageState} {ptr : Nat}

theorem registryRemove_givenUp (addr : Nat) (s : PageState) :
    givenUp (registryRemove addr s).mem.trace = givenUp s.mem.trace := by
  unfold registryRemove
  dsimp only
  split
  · rfl
  · rfl

theorem registryUpdate_givenUp (addr a n : Nat) (s : PageState) :
    givenUp (registryUpdate addr a n s).mem.trace = givenUp s.mem.trace := by
  unfold registryUpdate
  dsimp only
  split
  · rfl
  · rfl

/-- A free gives up one mapping. -/
theorem pageFreeFn_givenUp (hptr : ptr ≠ NULL) (size : Nat) :
    givenUp (pageFreeFn ptr size s).mem.trace =
      ⟨ptr, pageRound s.ctx size⟩ :: givenUp s.mem.trace := by
  have hremove := registryRemove_givenUp ptr s.touch
  unfold pageFreeFn
  rw [if_neg hptr]
  exact congrArg (List.cons (⟨ptr, pageRound s.ctx size⟩ : Block)) hremove

/-- A reallocation that moves a block gives up the mapping it had. -/
theorem pageReallocFn_givenUp {oldSize newSize p : Nat} (hptr : ptr ≠ NULL)
    (hcall : pageReallocFn os ptr oldSize newSize s = (p, s')) (hp : p ≠ NULL)
    (hne : p ≠ ptr) :
    givenUp s'.mem.trace = ⟨ptr, pageRound s.ctx oldSize⟩ :: givenUp s.mem.trace := by
  unfold pageReallocFn at hcall
  rw [if_neg hptr] at hcall
  dsimp only at hcall
  split at hcall
  · exact absurd (congrArg Prod.fst hcall).symm hne
  · rcases alloOsMremap_cases os ptr (pageRound s.touch.ctx oldSize)
      (pageRound s.touch.ctx newSize)
      (s.touch.mem.note (Event.unpoison ptr (pageRound s.touch.ctx oldSize))) with
      hrefused | ⟨a, m, hgranted, hne', _, htrace, _, _⟩
    · rw [hrefused] at hcall
      dsimp only at hcall
      rw [if_pos rfl] at hcall
      exact absurd (congrArg Prod.fst hcall).symm hp
    · rw [hgranted] at hcall
      dsimp only at hcall
      rw [if_neg hne'] at hcall
      cases hcall
      refine (registryUpdate_givenUp ptr p _ { s.touch with mem := m }).trans ?_
      show givenUp m.trace = _
      rw [htrace]
      rfl

end GivenUp

end Liballo
