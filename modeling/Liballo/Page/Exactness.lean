import Liballo.Page.Ops

/-!
# Exactness of the page registry

In a session the registry lists the blocks of the client, rounded to whole pages.
The same invariant makes the page allocator a child others can rely on.
-/

namespace Liballo

open Foundation

/-!
# Live blocks and their mappings
-/

/-- The mapping that holds a live block. -/
def pageMap (c : PageContext) (b : Block) : Block :=
  ⟨b.ptr, pageRound c b.size⟩

theorem pageMap_congr {c c' : PageContext} (h : c'.pageSize = c.pageSize) :
    pageMap c' = pageMap c := by
  funext b
  unfold pageMap pageRound
  rw [h]

structure PageLive (base : List Block) (s : PageState) (L es : List Block) :
    Prop where
  inv : PageInv base s.ctx s.mem es
  listed : es.Perm (L.map (pageMap s.ctx))
  fits : forall b, b ∈ L -> b.size ≠ 0 ∧ b.size ≤ pageRound s.ctx b.size

namespace PageLive

variable {base L es : List Block} {s s' : PageState} {os : Os} {b : Block}

theorem mem_map (h : PageLive base s L es) (hb : b ∈ L) :
    pageMap s.ctx b ∈ es :=
  h.listed.mem_iff.mpr (List.mem_map_of_mem hb)

theorem inside_map (h : PageLive base s L es) (hb : b ∈ L) :
    b.Inside (pageMap s.ctx b) := by
  constructor
  · exact Nat.le_refl b.ptr
  · exact Nat.add_le_add_left (h.fits b hb).right b.ptr

theorem erase_map (h : PageLive base s L es) (hb : b ∈ L) :
    (es.erase (pageMap s.ctx b)).Perm ((L.erase b).map (pageMap s.ctx)) := by
  have hlist := h.listed.erase (pageMap s.ctx b)
  have hcons := ((List.perm_cons_erase hb).map (pageMap s.ctx)).erase
    (pageMap s.ctx b)
  rw [List.map_cons, List.erase_cons_head] at hcons
  exact hlist.trans hcons

theorem wellFormed (h : PageLive base s L es) : AllWellFormed L := by
  intro b hb
  have hwf := h.inv.holds.wellFormed _ (List.mem_cons_of_mem _ (h.mem_map hb))
  rcases h.fits b hb with ⟨hpos, hle⟩
  refine ⟨hwf.left, Nat.pos_of_ne_zero hpos, ?_⟩
  exact Nat.lt_of_le_of_lt (Nat.add_le_add_left hle b.ptr) hwf.right.right

theorem disjoint (h : PageLive base s L es) : AllDisjoint L := by
  have hes : AllDisjoint es := (List.pairwise_cons.mp h.inv.holds.disjoint).right
  have hmaps : AllDisjoint (L.map (pageMap s.ctx)) :=
    (allDisjoint_perm h.listed).mp hes
  refine (List.pairwise_map.mp hmaps).imp_of_mem ?_
  intro b c hb hc hdisj
  have hleft : b.Disjoint (pageMap s.ctx c) := (h.inside_map hb).disjoint hdisj
  exact ((h.inside_map hc).disjoint hleft.symm).symm

/-- A step that keeps the bytes of the mappings keeps those of the blocks. -/
theorem keeps (h : PageLive base s L es) {M es' : List Block} {m m' : Mem}
    (hsub : forall b, b ∈ M -> b ∈ L ∧ pageMap s.ctx b ∈ es')
    (hkeeps : KeepsBytes es' m m') : KeepsBytes M m m' := by
  intro b hb x hx
  rcases hsub b hb with ⟨hbL, hmap⟩
  exact hkeeps _ hmap x ((h.inside_map hbL).contains hx)

theorem congr_fits (h : PageLive base s L es)
    (hpage : s'.ctx.pageSize = s.ctx.pageSize) {M : List Block}
    (hsub : forall b, b ∈ M -> b ∈ L) :
    forall b, b ∈ M -> b.size ≠ 0 ∧ b.size ≤ pageRound s'.ctx b.size := by
  intro b hb
  have hround : pageRound s'.ctx b.size = pageRound s.ctx b.size := by
    unfold pageRound
    rw [hpage]
  rw [hround]
  exact h.fits b (hsub b hb)

theorem alloc (h : PageLive base s L es) {n p : Nat} (hn : n < 2 ^ 64)
    (hcall : pageAllocFn os n s = (p, s')) :
    PageStep s'.ctx.registryMap L s s' ∧
      (p = NULL ∧ PageLive base s' L es ∨
        p ≠ NULL ∧
          PageLive base s' (⟨p, n⟩ :: L) (es ++ [pageMap s.ctx ⟨p, n⟩])) := by
  rcases pageAllocFn_spec h.inv hn hcall with ⟨hstep, hcase⟩
  have hmap := pageMap_congr hstep.pageSize
  have hkeeps : KeepsBytes L s.mem s'.mem :=
    h.keeps (fun b hb => ⟨hb, h.mem_map hb⟩) hstep.keeps
  refine ⟨{ hstep with keeps := hkeeps }, ?_⟩
  rcases hcase with ⟨hnull, hinv⟩ | ⟨hne, hpos, hle, hinv⟩
  · refine Or.inl ⟨hnull, ?_⟩
    exact
      { inv := hinv
        listed := hmap ▸ h.listed
        fits := h.congr_fits hstep.pageSize (fun _ hb => hb) }
  · refine Or.inr ⟨hne, ?_⟩
    refine
      { inv := hinv
        listed := ?_
        fits := ?_ }
    · rw [hmap, List.map_cons]
      exact (List.perm_append_singleton _ _).trans (h.listed.cons _)
    · intro b hb
      cases hb with
      | head =>
          have hround : pageRound s'.ctx n = pageRound s.ctx n :=
            congrArg Block.size (congrFun hmap ⟨p, n⟩)
          rw [hround]
          exact ⟨hpos, hle⟩
      | tail _ hb =>
          exact h.congr_fits hstep.pageSize (fun _ hb => hb) b hb

theorem free (h : PageLive base s L es) (hb : b ∈ L) :
    PageStep s.ctx.registryMap (L.erase b) s (pageFreeFn b.ptr b.size s) ∧
      (pageFreeFn b.ptr b.size s).ctx.registryMap = s.ctx.registryMap ∧
        exists es', PageLive base (pageFreeFn b.ptr b.size s) (L.erase b) es' := by
  rcases pageFreeFn_spec h.inv (h.mem_map hb) rfl with
    ⟨hstep, hreg, es', hperm, hinv⟩
  have herase := h.erase_map hb
  have hkeeps : KeepsBytes (L.erase b) s.mem (pageFreeFn b.ptr b.size s).mem := by
    apply h.keeps _ hstep.keeps
    intro c hc
    exact ⟨List.mem_of_mem_erase hc,
      herase.mem_iff.mpr (List.mem_map_of_mem hc)⟩
  refine ⟨{ hstep with keeps := hkeeps }, hreg, es', ?_⟩
  exact
    { inv := hinv
      listed := pageMap_congr hstep.pageSize ▸ hperm.trans herase
      fits := h.congr_fits hstep.pageSize (fun c hc => List.mem_of_mem_erase hc) }

theorem realloc (h : PageLive base s L es) (hb : b ∈ L) {n p : Nat}
    (hpos : n ≠ 0) (hn : n < 2 ^ 64)
    (hcall : pageReallocFn os b.ptr b.size n s = (p, s')) :
    PageStep s.ctx.registryMap (L.erase b) s s' ∧
      s'.ctx.registryMap = s.ctx.registryMap ∧
        (p = NULL ∧ PageLive base s' L es ∧ s'.mem.bytes = s.mem.bytes ∨
          p ≠ NULL ∧ KeepsPrefix b.ptr p (min b.size n) s.mem s'.mem ∧
            exists es', PageLive base s' (⟨p, n⟩ :: L.erase b) es') := by
  rcases pageReallocFn_spec h.inv (h.mem_map hb) rfl hn hcall with
    ⟨hstep, hctx, hcase⟩
  have herase := h.erase_map hb
  have hmap := pageMap_congr hstep.pageSize
  have hkeeps : KeepsBytes (L.erase b) s.mem s'.mem := by
    apply h.keeps _ hstep.keeps
    intro c hc
    exact ⟨List.mem_of_mem_erase hc,
      herase.mem_iff.mpr (List.mem_map_of_mem hc)⟩
  refine ⟨{ hstep with keeps := hkeeps }, congrArg _ hctx, ?_⟩
  rcases hcase with ⟨hnull, hinv, hbytes⟩ | ⟨hne, hle, hprefix, es', hperm, hinv⟩
  · refine Or.inl ⟨hnull, ?_, hbytes⟩
    exact
      { inv := hinv
        listed := hmap ▸ h.listed
        fits := h.congr_fits hstep.pageSize (fun _ hc => hc) }
  · refine Or.inr ⟨hne, ?_, es', ?_⟩
    · intro i hi
      have hold := (h.fits b hb).right
      apply hprefix
      show i < min (pageRound s.ctx b.size) (pageRound s.ctx n)
      omega
    · refine
        { inv := hinv
          listed := ?_
          fits := ?_ }
      · rw [hmap]
        exact hperm.trans (herase.cons _)
      · intro c hc
        cases hc with
        | head =>
            have hround : pageRound s'.ctx n = pageRound s.ctx n :=
              congrArg Block.size (congrFun hmap ⟨p, n⟩)
            rw [hround]
            exact ⟨hpos, hle⟩
        | tail _ hc =>
            exact h.congr_fits hstep.pageSize
              (fun c hc => List.mem_of_mem_erase hc) c hc

theorem perm (h : PageLive base s L es) {M : List Block} (hperm : L.Perm M) :
    PageLive base s M es :=
  { inv := h.inv
    listed := h.listed.trans (hperm.map _)
    fits := fun c hc => h.fits c (hperm.mem_iff.mpr hc) }

/-- Stores outside the registry are invisible. -/
theorem store (h : PageLive base s L es) {P : Nat -> Nat -> Prop} {m : Mem}
    (hw : Wrote P s.mem m)
    (hP : forall x n, P x n -> forall y, x ≤ y -> y < x + n ->
      ¬ s.ctx.registryMap.Contains y) :
    PageLive base { s with mem := m } L es := by
  refine
    { inv := h.inv.congr hw.liveMaps_eq ?_
      listed := h.listed
      fits := h.fits }
  intro x hx
  apply hw.bytes
  intro a n hPan hin
  exact hP a n hPan x hin.left hin.right hx

theorem registry_apart (h : PageLive base s L es) (hb : b ∈ L) {x : Nat}
    (hx : b.Contains x) : ¬ s.ctx.registryMap.Contains x :=
  (h.inv.entry_apart (h.mem_map hb)).symm.not_contains
    ((h.inside_map hb).contains hx)

theorem poke (h : PageLive base s L es) {x : Nat} {v : UInt8}
    (hx : exists b, b ∈ L ∧ b.Contains x) :
    PageLive base { s with mem := s.mem.poke x v } L es := by
  rcases hx with ⟨b, hb, hx⟩
  apply h.store (Wrote.poke (P := fun y n => y = x ∧ n = 1) ⟨rfl, rfl⟩)
  rintro y n ⟨rfl, rfl⟩ z hle hlt
  have hz : z = y := by omega
  subst hz
  exact h.registry_apart hb hx

end PageLive

/-- A page allocator as a child. -/
def pageContract (os : Os) (base : List Block) : Contract (pageAllo os) where
  Inv := fun s L => exists es, PageLive base s L es
  own := fun s x => s.ctx.registryMap.Contains x
  wellFormed := fun ⟨_, h⟩ => h.wellFormed
  disjoint := fun ⟨_, h⟩ => h.disjoint
  own_apart := fun ⟨_, h⟩ hb hx => h.registry_apart hb hx
  alloc := by
    rintro s L n ⟨es, h⟩ hn
    rcases hcall : pageAllocFn os n s with ⟨p, s'⟩
    rcases h.alloc hn hcall with ⟨hstep, hcase⟩
    refine ⟨p, s', congrArg some hcall, hstep.keeps, ?_⟩
    rcases hcase with ⟨hnull, h'⟩ | ⟨hne, h'⟩
    · exact Or.inl ⟨hnull, es, h'⟩
    · exact Or.inr ⟨hne, _, h'⟩
  store := by
    rintro s L P m ⟨es, h⟩ hw hP
    exact ⟨⟨es, h.store hw hP⟩, fun _ hy => hy⟩
  free := by
    rintro s L b ⟨es, h⟩ hb
    rcases h.free hb with ⟨hstep, _, h'⟩
    exact ⟨_, rfl, hstep.keeps, h'⟩

/-!
# Sessions
-/

theorem makePageAllocator_spec {os : Os} {out : Nat} {m : Mem} {st : PageState}
    (hpage : exists k, 4 ≤ k ∧ k < 64 ∧ os.pageSize = 2 ^ k)
    (hmake : makePageAllocator os out m = Made.ok st) :
    PageLive (liveMaps m.trace) st [] [] := by
  have hdvd : 16 ∣ os.pageSize := by
    rcases hpage with ⟨k, hk, _, hpow⟩
    rw [hpow]
    exact Nat.pow_dvd_pow 2 hk
  have hcap : os.pageSize / sizeofPageEntry * sizeofPageEntry = os.pageSize :=
    Nat.div_mul_cancel hdvd
  unfold makePageAllocator at hmake
  by_cases hout : out = NULL
  · rw [if_pos hout] at hmake
    cases hmake
  · rw [if_neg hout] at hmake
    unfold alloOsGetPageSize at hmake
    dsimp only at hmake
    rcases alloOsMmap_cases os os.pageSize (m.note (Event.touch out sizeofAllo)) with
      hrefused | ⟨a, m', hgranted, hne, hgrant, htrace, hzero, hkept⟩
    · rw [hrefused] at hmake
      dsimp only at hmake
      rw [if_pos rfl] at hmake
      cases hmake
    · rw [hgranted] at hmake
      dsimp only at hmake
      rw [if_neg hne] at hmake
      cases hmake
      have hholds := (Holds.start (liveMaps m.trace)).map hgrant
      refine
        { inv :=
            { pageSize := hpage
              count := rfl
              count_le := Nat.zero_le _
              whole := ?_
              entries := fun i b hb => by cases hb
              holds := ?_ }
          listed := List.Perm.refl _
          fits := fun b hb => absurd hb List.not_mem_nil }
      · show os.pageSize ∣ os.pageSize / sizeofPageEntry * sizeofPageEntry
        rw [hcap]
      · show Holds (liveMaps m.trace)
          [⟨a, os.pageSize / sizeofPageEntry * sizeofPageEntry⟩]
          (liveMaps m'.trace)
        rw [hcap, htrace]
        exact hholds

theorem page_step {os : Os} {base es : List Block} {s : Session PageState}
    {op : Op} (h : PageLive base s.state s.live es) (hlegal : s.Legal op) :
    exists s' es', Session.exec (pageAllo os) op s = some s' ∧
      PageLive base s'.state s'.live es' ∧ s.KeepsOthers op s' ∧
        Traced (PageEvent s'.state.ctx.registryMap) s.state.mem s'.state.mem := by
  cases op with
  | alloc n =>
      rcases hcall : pageAllocFn os n s.state with ⟨p, st⟩
      have hexec : Session.exec (pageAllo os) (Op.alloc n) s =
          some (s.afterAlloc n p st) := by
        simp [Session.exec, alloAlloc, pageAllo, hcall]
      rcases h.alloc hlegal hcall with ⟨hstep, hcase⟩
      rw [hexec]
      rcases hcase with ⟨rfl, h'⟩ | ⟨hne, h'⟩
      · rw [Session.afterAlloc_null]
        exact ⟨_, es, rfl, h', fun c hc _ => hstep.keeps c hc, hstep.traced⟩
      · rw [Session.afterAlloc_placed s st hne]
        exact ⟨_, _, rfl, h', fun c hc _ => hstep.keeps c hc, hstep.traced⟩
  | free b =>
      rcases h.free hlegal with ⟨hstep, hreg, es', h'⟩
      refine ⟨_, es', rfl, h', ?_, ?_⟩
      · intro c hc hnamed
        exact hstep.keeps c ((List.mem_erase_of_ne hnamed).mpr hc)
      · exact hreg ▸ hstep.traced
  | realloc b n =>
      have hptr : b.ptr ≠ NULL :=
        Nat.ne_of_gt (h.wellFormed b hlegal.left).left
      by_cases hzero : n = 0
      · subst hzero
        have hcall : alloRealloc (pageAllo os) b.ptr b.size 0 s.state =
            some (NULL, pageFreeFn b.ptr b.size s.state) := alloRealloc_zero rfl
        have hexec : Session.exec (pageAllo os) (Op.realloc b 0) s =
            some (s.afterFree b (pageFreeFn b.ptr b.size s.state)) := by
          simp [Session.exec, hcall, Session.afterRealloc_zero]
        rcases h.free hlegal.left with ⟨hstep, hreg, es', h'⟩
        refine ⟨_, es', hexec, h', ?_, ?_⟩
        · intro c hc hnamed
          exact hstep.keeps c ((List.mem_erase_of_ne hnamed).mpr hc)
        · exact hreg ▸ hstep.traced
      · by_cases hsame : b.size = n
        · subst hsame
          have hcall := alloRealloc_same (a := pageAllo os) (s := s.state)
            hzero hptr
          have hexec : Session.exec (pageAllo os) (Op.realloc b b.size) s =
              some (s.afterRealloc b b.size b.ptr s.state) := by
            simp [Session.exec, hcall]
          rw [s.afterRealloc_placed b s.state hzero hptr] at hexec
          refine ⟨_, es, hexec, ?_, fun _ _ _ _ _ => rfl, Traced.refl _ _⟩
          exact h.perm (List.perm_cons_erase hlegal.left)
        · rcases hcall : pageReallocFn os b.ptr b.size n s.state with ⟨p, st⟩
          have hpass : alloRealloc (pageAllo os) b.ptr b.size n s.state =
              some (p, st) := by
            rw [alloRealloc_pass hzero hptr hsame]
            exact congrArg some hcall
          have hexec : Session.exec (pageAllo os) (Op.realloc b n) s =
              some (s.afterRealloc b n p st) := by
            simp [Session.exec, hpass]
          rcases h.realloc hlegal.left hzero hlegal.right hcall with
            ⟨hstep, hreg, hcase⟩
          have hothers : forall c, c ∈ s.live -> c ≠ b -> forall x,
              c.Contains x -> st.mem.bytes x = s.state.mem.bytes x :=
            fun c hc hne => hstep.keeps c ((List.mem_erase_of_ne hne).mpr hc)
          have htraced := hreg ▸ hstep.traced
          rcases hcase with ⟨rfl, h', _⟩ | ⟨hne, _, es', h'⟩
          · rw [s.afterRealloc_null b st hzero] at hexec
            exact ⟨_, es, hexec, h', hothers, htraced⟩
          · rw [s.afterRealloc_placed b st hzero hne] at hexec
            exact ⟨_, es', hexec, h', hothers, htraced⟩
  | poke x v =>
      refine ⟨_, es, rfl, h.poke hlegal, s.keepsOthers_poke x v, ?_⟩
      exact Traced.of_trace_eq rfl

/-- The registry in a state of a session that began with the mappings `base`. -/
structure PageExact (os : Os) (base : List Block) (s : Session PageState)
    (es : List Block) : Prop where
  count : s.state.ctx.count = es.length
  entries : forall i b, es[i]? = some b ->
    pageEntryAddr s.state.mem s.state.ctx.registry i = b.ptr ∧
      pageEntrySize s.state.mem s.state.ctx.registry i = b.size
  nodup : es.Nodup
  user : es.Perm (s.live.map (pageMap s.state.ctx))
  maps : (liveMaps s.state.mem.trace).Perm
    (s.state.ctx.registryMap :: es ++ base)
  registry_apart : forall b, b ∈ es -> s.state.ctx.registryMap.Disjoint b
  count_le : s.state.ctx.count ≤ s.state.ctx.capacity
  fits : forall b, b ∈ s.live -> b.size ≤ pageRound s.state.ctx b.size
  contains : forall x, alloContains (pageAllo os) x s.state =
    some (if exists b, b ∈ es ∧ b.Contains x then AlloContains.yes
      else AlloContains.no)
  destroy : exists st, alloDestroy (pageAllo os) s.state = some st ∧
    (unmapped st.mem.trace).Perm
      (s.state.ctx.registryMap :: es ++ unmapped s.state.mem.trace) ∧
    (liveMaps st.mem.trace).Perm base ∧
    Traced (PageEvent s.state.ctx.registryMap) s.state.mem st.mem

theorem PageLive.exact {os : Os} {base es : List Block} {s : Session PageState}
    (h : PageLive base s.state s.live es) : PageExact os base s es := by
  rcases pageDestroyFn_spec h.inv with ⟨hmaps, hunmapped, htraced⟩
  exact
    { count := h.inv.count
      entries := h.inv.entries
      nodup := h.inv.nodup
      user := h.listed
      maps := h.inv.holds.maps
      registry_apart := fun b hb => h.inv.entry_apart hb
      count_le := h.inv.count_le
      fits := fun b hb => (h.fits b hb).right
      contains := fun x => congrArg some (pageContainsFn_spec h.inv x)
      destroy := ⟨_, rfl, hunmapped, hmaps, htraced⟩ }

end Liballo
