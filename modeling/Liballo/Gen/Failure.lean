import Liballo.Buddy.Requests
import Liballo.Gen.Lifecycle
import Liballo.Page.Requests

/-!
# When the constructor fails

The constructor asks for the registry of the page allocator, for the state block, and for
the four blocks of the buddy allocator; the registry may have to grow in between. After a
refusal everything goes back. Once the page allocator lies in the state block, though, it
unmaps that block and is then used again.
-/

namespace Liballo

open Foundation

section Failure

variable {os : Os} {base : List Block} {frame : Nat} {m m₀ m' : Mem} {w : PageState}

/-!
# Counting the requests
-/

/-- The number of requests of a construction that succeeds: six blocks, and the registry
grows whenever it is full. -/
def genRequests (os : Os) : Nat :=
  6 + 4 / pageEntries os

theorem pageEntries_spec (hpage : exists k, 4 ≤ k ∧ k < 64 ∧ os.pageSize = 2 ^ k) :
    0 < pageEntries os ∧ sizeofPageEntry * pageEntries os = os.pageSize ∧
      os.pageSize + 128 < 2 ^ 64 := by
  rcases hpage with ⟨k, hle, hlt, hsize⟩
  have hsplit : os.pageSize = sizeofPageEntry * 2 ^ (k - 4) := by
    rw [hsize, show sizeofPageEntry = 2 ^ 4 from rfl, ← Nat.pow_add]
    congr 1
    omega
  have hentries : pageEntries os = 2 ^ (k - 4) := by
    unfold pageEntries
    rw [hsplit]
    exact Nat.mul_div_cancel_left _ (by decide)
  refine ⟨?_, ?_, ?_⟩
  · rw [hentries]
    exact Nat.two_pow_pos _
  · rw [hentries, hsplit]
  · have hpow : 2 ^ k ≤ 2 ^ 63 := Nat.pow_le_pow_right (by decide) (by omega)
    omega

theorem every_quiet (addr : Nat) : PageQuiet (fun _ => True) addr where
  touch := trivial
  write := fun _ _ => trivial
  poison := fun _ _ => trivial
  unpoison := fun _ _ => trivial
  map := fun _ _ => trivial
  refuse := trivial

theorem pageFreeFn_trace (p n : Nat) (w : PageState) :
    Every (fun _ => True) w.mem (pageFreeFn p n w).mem :=
  pageFreeFn_events (every_quiet w.self) trivial

theorem pageDestroyFn_trace (w : PageState) :
    Every (fun _ => True) w.mem (pageDestroyFn w).mem :=
  pageDestroyFn_events (every_quiet w.self) (fun _ _ => trivial)

/-- The child of the buddy allocator made the requests from number `lo` on; the first of
them was for the state block. -/
theorem pageAllo_asked (hpage : exists k, 4 ≤ k ∧ k < 64 ∧ os.pageSize = 2 ^ k)
    (lo : Nat) : ChildAsked (pageAllo os)
      (fun j w => PageAsked os lo (j + 1) (j / pageEntries os) w)
      (fun w => RefusedOne os lo (5 + 4 / pageEntries os) w.mem) := by
  rcases pageEntries_spec hpage with ⟨hpos, hentries, hroom⟩
  constructor
  · intro j w n n' hasked
    have hw : Wrote (fun _ _ => False) w.mem (w.mem.note (Event.touch n n')) :=
      Wrote.note trivial
    exact hasked.store hw
  · intro j w p n hasked
    have hw : Wrote (fun _ _ => True) w.mem (alloMemset p 0 n w.mem) :=
      wrote_alloMemset trivial
    exact hasked.store hw
  · intro w n n' hrefused
    have htrace : (w.mem.note (Event.touch n n')).trace =
        [Event.touch n n'] ++ w.mem.trace := rfl
    exact hrefused.later htrace
  · intro w w' p n hrefused hcall
    have hfree : pageFreeFn p n w = w' := Option.some.inj hcall
    rcases pageFreeFn_trace p n w with ⟨es, htrace, _⟩
    rw [← hfree]
    exact hrefused.later htrace
  · intro j w w' n p hj hne hasked hcall
    have halloc : pageAllocFn os n w = (p, w') := Option.some.inj hcall
    have hfits : sizeofPageEntry * (j + 1) + os.pageSize < 2 ^ 64 := by
      unfold sizeofPageEntry
      omega
    rcases pageAllocFn_asked hasked hentries hpos hfits hne halloc with
      ⟨hp, hnext⟩ | ⟨hnull, hrefused⟩
    · exact Or.inl ⟨hp, hnext⟩
    · refine Or.inr ⟨hnull, hrefused.mono ?_⟩
      have hgrow : (j + 1) / pageEntries os ≤ 4 / pageEntries os :=
        Nat.div_le_div_right hj
      omega

/-- The registry and the state block take the first two requests. -/
theorem genBootstrap_asked (hpage : exists k, 4 ≤ k ∧ k < 64 ∧ os.pageSize = 2 ^ k)
    (hframe : frame ≠ NULL) {made : Made PageState Mem}
    (hboot : genBootstrap os frame m = some made) :
    (forall e m', made = Made.failed e m' ->
      RefusedOne os (requests m.trace) 2 m') ∧
      (forall page, made = Made.ok page ->
        os.answer (requests m.trace) ≠ 0 ∧
          PageAsked os (requests m.trace + 1) 1 0 page) := by
  rcases pageEntries_spec hpage with ⟨hpos, hentries, hroom⟩
  unfold genBootstrap makePageAllocator at hboot
  rw [if_neg hframe] at hboot
  have hasked := Os.map_asked os os.pageSize (m.note (Event.touch frame sizeofAllo))
  unfold alloOsMmap alloOsGetPageSize at hboot
  dsimp only at hboot
  generalize Os.map os os.pageSize (m.note (Event.touch frame sizeofAllo)) = answer
    at hboot hasked
  rcases answer with ⟨a, m₁⟩
  dsimp only at hboot hasked
  by_cases hnull : a = NULL
  · rw [if_pos hnull] at hboot
    cases hboot
    constructor
    · intro e m' heq
      cases heq
      refine ⟨0, by decide, ?_⟩
      exact hasked.refused hnull
    · intro page heq
      cases heq
  · rw [if_neg hnull] at hboot
    have hfirst : os.answer (requests m.trace) ≠ 0 := hasked.granted hnull
    have hnone : (0 - 1) / pageEntries os = 0 := Nat.zero_div _
    have hstart : PageAsked os (requests m.trace + 1) 0 ((0 - 1) / pageEntries os)
        { self := frame
          ctx :=
            { pageSize := os.pageSize
              registry := a
              count := 0
              capacity := os.pageSize / sizeofPageEntry }
          mem := m₁.note (Event.touch frame sizeofAllo) } := by
      rw [hnone]
      exact
        { pageSize := rfl
          count := rfl
          capacity := (Nat.mul_one _).symm
          requests := hasked.requests
          answers := fun i hi => absurd hi (Nat.not_lt_zero i) }
    rcases Option.bind_eq_some_iff.mp hboot with ⟨⟨block, page⟩, halloc, hrest⟩
    dsimp only at hrest
    have hfits : sizeofPageEntry * 0 + os.pageSize < 2 ^ 64 := by omega
    rcases pageAllocFn_asked hstart hentries hpos hfits (by decide)
      (Option.some.inj halloc) with ⟨hne, hnext⟩ | ⟨hnull', hrefused⟩
    · rw [if_neg hne] at hrest
      cases hrest
      constructor
      · intro e m' heq
        cases heq
      · intro page' heq
        cases heq
        refine ⟨hfirst, ?_⟩
        rw [Nat.zero_div] at hnext
        exact { hnext with requests := hnext.requests }
    · rw [if_pos hnull'] at hrest
      cases hrest
      constructor
      · intro e m' heq
        cases heq
        rw [Nat.zero_div] at hrefused
        rcases pageDestroyFn_trace page with ⟨es, htrace, _⟩
        exact (hrefused.later htrace).earlier
      · intro page' heq
        cases heq

theorem genBuddyAt_ne (state : Nat) : genBuddyAt state ≠ NULL := by
  have hobject : 0 < sizeofAllo := by decide
  exact Nat.ne_of_gt (Nat.lt_of_lt_of_le hobject (Nat.le_add_left _ state))

/-- The buddy allocator is made when all its requests are granted. -/
theorem genBuddy_asked (hpage : exists k, 4 ≤ k ∧ k < 64 ∧ os.pageSize = 2 ^ k) {lo : Nat}
    (hasked : PageAsked os lo 1 0 w) {made : Made (BuddyState PageState) PageState}
    (hmake : makeBuddyAllocator (genBuddyAt w.self) (some (pageAllo os)) NULL
      buddyTotalSize w = some made) :
    (forall e w', made = Made.failed e w' ->
      RefusedOne os lo (5 + 4 / pageEntries os) w'.mem) ∧
      (forall t, made = Made.ok t ->
        forall i, i < 5 + 4 / pageEntries os -> os.answer (lo + i) ≠ 0) := by
  have hstart : PageAsked os lo (0 + 1) (0 / pageEntries os) w := by
    rw [Nat.zero_div]
    exact hasked
  rcases (pageAllo_asked hpage lo).make (genBuddyAt_ne w.self) hstart hmake with
    ⟨hfailed, hok⟩
  constructor
  · exact hfailed
  · intro t heq
    rcases hok t heq with ⟨w', hdone⟩
    exact hdone.answers

/-!
# Giving up
-/

theorem genAbandon_trace {e : AlloError}
    (hcall : genAbandon os e w = some (Made.failed e m')) :
    Every (fun _ => True) w.mem m' := by
  rw [genAbandon_eq] at hcall
  cases hcall
  have htouch : Every (fun _ => True) (pageFreeFn w.self sizeofGenState w).mem
      (pageFreeFn w.self sizeofGenState w).touch.mem := every_note trivial
  exact ((pageFreeFn_trace _ _ w).trans htouch).trans (pageDestroyFn_trace _)

/-- The state block and the registry go back, each once. -/
theorem genAbandon_released {block : Nat} {e : AlloError}
    (h : GenPages os (liveMaps m.trace) block m₀ w []) (hrun : Traced MapEvent m m₀)
    (hcall : genAbandon os e w = some (Made.failed e m')) : GenReleased m m' := by
  rw [genAbandon_eq] at hcall
  cases hcall
  rcases h.live with ⟨es, hlive⟩
  have hself := h.self
  subst hself
  rcases hlive.free List.mem_cons_self with ⟨hstep, _, es', hlive'⟩
  rcases pageDestroyFn_spec hlive'.inv.touch with ⟨hmaps, _, htraced⟩
  have hwhole : Traced MapEvent m₀ w.mem := h.traced.mono (fun _ _ he => he.left)
  have hfree := hstep.traced.mono (fun _ _ he => he.mapEvent)
  have htouch : Traced MapEvent (pageFreeFn w.self sizeofGenState w).mem
      (pageFreeFn w.self sizeofGenState w).touch.mem := Traced.event rfl trivial
  exact
    { maps := hmaps
      traced := (((hrun.trans hwhole).trans hfree).trans htouch).trans
        (htraced.mono (fun _ _ he => he.mapEvent)) }

/-- The allocator object in the state block is used after the block was unmapped. -/
theorem genAbandon_unbacked {block : Nat} {e : AlloError}
    (h : GenPages os base block m₀ w []) (hrun : Traced MapEvent m w.mem)
    (hcall : genAbandon os e w = some (Made.failed e m')) :
    ¬ Traced (BackedEvent ⟨block, sizeofGenState⟩) m m' := by
  rw [genAbandon_eq] at hcall
  cases hcall
  intro hbacked
  rcases h.state_inside with ⟨hinside, _, hreg, hbase⟩
  rcases h.live with ⟨es, hlive⟩
  have hself := h.self
  subst hself
  rcases hlive.free List.mem_cons_self with ⟨hstep, hregistry, es', hlive'⟩
  have hfreed := (hrun.mono (fun _ _ _ => trivial)).trans
    (pageFreeFn_trace w.self sizeofGenState w)
  have htouch := hbacked.middle hfreed rfl
    (pageDestroyFn_trace (pageFreeFn w.self sizeofGenState w).touch)
  have hobject : (pageFreeFn w.self sizeofGenState w).self = w.self := hstep.self
  rw [hobject] at htouch
  have haccess : (Event.touch w.self sizeofAllo).Accesses ⟨w.self, sizeofGenState⟩ := by
    have hsizes : 0 < sizeofAllo ∧ 0 < sizeofGenState := by decide
    intro hapart
    exact hapart.ptr_ne hsizes.left hsizes.right rfl
  rcases htouch haccess with ⟨d, hd, hin⟩
  have hempty := hlive'.listed
  rw [List.nil_append, List.erase_cons_head, List.map_nil] at hempty
  have hnone : es' = [] := hempty.eq_nil
  subst hnone
  have hlisted := hlive'.inv.holds.maps.mem_iff.mp hd
  have hapart : d.Disjoint (stateMap os w.self) := by
    rcases List.mem_cons.mp hlisted with heq | hmem
    · rw [heq, hregistry]
      exact hreg
    · exact (hbase d hmem).symm
  have hpos : 0 < sizeofGenState := by decide
  exact (hin.disjoint (hinside.disjoint hapart.symm).symm).ptr_ne hpos hpos rfl

/-- Nothing is built without a buddy allocator. -/
theorem genBuild_ok {page : PageState} {st : GenState}
    (hcall : genBuild os page = some (Made.ok st)) :
    exists tower, makeBuddyAllocator (genBuddyAt page.self) (some (pageAllo os)) NULL
      buddyTotalSize page = some (Made.ok tower) := by
  unfold genBuild at hcall
  rcases Option.bind_eq_some_iff.mp hcall with ⟨made, hmake, hrest⟩
  cases made with
  | failed e w => cases hrest
  | ok tower => exact ⟨tower, hmake⟩

/-!
# Failure safety
-/

/-- What a failed construction should leave behind: every region that was granted was
moved or unmapped, each once and while it was live, and the state block was accessed only
while it was mapped. -/
structure GenFailedSafely (os : Os) (frame : Nat) (m m' : Mem) : Prop where
  maps : (liveMaps m'.trace).Perm (liveMaps m.trace)
  balance : exists es, m'.trace = es ++ m.trace ∧ Judged MapEvent m.trace es ∧
    (granted es).Perm (moved es ++ unmapped es)
  backed : forall page, genBootstrap os frame m = some (Made.ok page) ->
    Traced (BackedEvent ⟨page.self, sizeofGenState⟩) m m'

/-- The regions are given back on every path. -/
theorem makeGenAllocator_released {out : Nat} {e : AlloError}
    (hpage : exists k, 4 ≤ k ∧ k < 64 ∧ os.pageSize = 2 ^ k)
    (hcall : makeGenAllocator os out frame m = some (Made.failed e m')) :
    GenReleased m m' := by
  by_cases hout : out = NULL
  · unfold makeGenAllocator at hcall
    rw [if_pos hout] at hcall
    cases hcall
    exact { maps := List.Perm.refl _, traced := Traced.refl _ _ }
  · rcases @genBootstrap_spec os frame m hpage with ⟨made, hboot, hcase⟩
    rcases hcase with ⟨e', m'', rfl, hreleased⟩ | ⟨page, rfl, hbooted⟩
    · unfold makeGenAllocator at hcall
      rw [if_neg hout, hboot] at hcall
      cases hcall
      exact hreleased
    · rw [makeGenAllocator_of_boot hout hboot] at hcall
      rcases genBuild_spec hbooted.pages with ⟨e', w, _, hpages, habandon⟩ | hbuilt
      · rw [habandon, genAbandon_eq] at hcall
        cases hcall
        exact genAbandon_released hpages hbooted.traced (genAbandon_eq e w)
      · rcases hbuilt with ⟨st, fl, free, hmade, _⟩
        rw [hcall] at hmade
        cases hmade

theorem makeGenAllocator_failure {out : Nat}
    (hpage : exists k, 4 ≤ k ∧ k < 64 ∧ os.pageSize = 2 ^ k) (hframe : frame ≠ NULL)
    (hanswered : forall e m', makeGenAllocator os out frame m = some (Made.failed e m') ->
      os.Answered m'.trace) :
    (forall e m', makeGenAllocator os out frame m = some (Made.failed e m') ->
      GenFailedSafely os frame m m') <->
      (out = NULL ∨ os.answer (requests m.trace) = 0 ∨
        os.answer (requests m.trace + 1) = 0 ∨
          forall i, i < genRequests os -> os.answer (requests m.trace + i) ≠ 0) := by
  by_cases hout : out = NULL
  · refine iff_of_true ?_ (Or.inl hout)
    intro e m' hcall
    unfold makeGenAllocator at hcall
    rw [if_pos hout] at hcall
    cases hcall
    exact
      { maps := List.Perm.refl _
        balance := ⟨[], rfl, trivial, List.Perm.refl _⟩
        backed := fun _ _ => Traced.refl _ _ }
  · rcases @genBootstrap_spec os frame m hpage with ⟨made, hboot, hcase⟩
    rcases genBootstrap_asked hpage hframe hboot with ⟨hrefused, hgranted⟩
    rcases hcase with ⟨e, m', rfl, _⟩ | ⟨page, rfl, hbooted⟩
    · have hmake : makeGenAllocator os out frame m = some (Made.failed e m') := by
        unfold makeGenAllocator
        rw [if_neg hout, hboot]
        rfl
      refine iff_of_true ?_ ?_
      · intro e' m'' hcall
        have hreleased := makeGenAllocator_released hpage hcall
        exact
          { maps := hreleased.maps
            balance := granted_given_up hreleased.maps hreleased.traced
            backed := fun page hno => by
              rw [hboot] at hno
              cases hno }
      · rcases hrefused e m' rfl with ⟨i, hi, hwhy⟩
        have hzero := hwhy (hanswered e m' hmake)
        have hcases : i = 0 ∨ i = 1 := by omega
        rcases hcases with rfl | rfl
        · exact Or.inr (Or.inl hzero)
        · exact Or.inr (Or.inr (Or.inl hzero))
    · have hmake : makeGenAllocator os out frame m = genBuild os page :=
        makeGenAllocator_of_boot hout hboot
      rcases hgranted page rfl with ⟨hfirst, hasked⟩
      have hsecond : os.answer (requests m.trace + 1) ≠ 0 :=
        hasked.answers 0 (by decide)
      rcases genBuild_spec hbooted.pages with ⟨e, w, hbuddy, hpages, habandon⟩ | hbuilt
      · rw [habandon, genAbandon_eq] at hmake
        refine iff_of_false ?_ ?_
        · intro hsafe
          have hrun := hbooted.traced.trans
            (hpages.traced.mono (fun _ _ he => he.left))
          exact genAbandon_unbacked hpages hrun (genAbandon_eq e w)
            ((hsafe _ _ hmake).backed page hboot)
        · rintro (hnull | hzero | hzero | hall)
          · exact hout hnull
          · exact hfirst hzero
          · exact hsecond hzero
          · have hcall : genAbandon os e w = some (Made.failed e _) := genAbandon_eq e w
            rcases genAbandon_trace hcall with ⟨es, htrace, _⟩
            rcases ((genBuddy_asked hpage hasked hbuddy).left e w rfl).later htrace with
              ⟨i, hi, hwhy⟩
            have hlt : i + 1 < genRequests os := by
              unfold genRequests
              omega
            have hzero := hwhy (hanswered _ _ hmake)
            rw [Nat.add_assoc, Nat.add_comm 1] at hzero
            exact hall (i + 1) hlt hzero
      · rcases hbuilt with ⟨st, fl, free, hcall, _⟩
        rw [hcall] at hmake
        refine iff_of_true ?_ (Or.inr (Or.inr (Or.inr ?_)))
        · intro e m' hno
          rw [hmake] at hno
          cases hno
        · rcases genBuild_ok hcall with ⟨tower, hbuddy⟩
          have hanswers := (genBuddy_asked hpage hasked hbuddy).right tower rfl
          intro i hi
          cases i with
          | zero => exact hfirst
          | succ i =>
              have hlt : i < 5 + 4 / pageEntries os := by
                unfold genRequests at hi
                omega
              rw [Nat.add_comm i, ← Nat.add_assoc]
              exact hanswers i hlt

end Failure

/-- The system refuses the buffer of the buddy allocator. -/
def refusingOs : Os :=
  { pageSize := 4096, answer := fun i => if i = 3 then 0 else (i + 1) * 2 ^ 32 }

theorem refusingOs_page : exists k, 4 ≤ k ∧ k < 64 ∧ refusingOs.pageSize = 2 ^ k :=
  ⟨12, by decide, by decide, rfl⟩

theorem makeGenAllocator_failure_refusing :
    (forall e m', makeGenAllocator refusingOs 8 4096 onePageMem =
        some (Made.failed e m') -> GenFailedSafely refusingOs 4096 onePageMem m') <->
      (8 = NULL ∨ refusingOs.answer (requests onePageMem.trace) = 0 ∨
        refusingOs.answer (requests onePageMem.trace + 1) = 0 ∨
          forall i, i < genRequests refusingOs ->
            refusingOs.answer (requests onePageMem.trace + i) ≠ 0) := by
  apply makeGenAllocator_failure refusingOs_page (by decide)
  intro e m' hcall
  have hmake : makeGenAllocator refusingOs 8 4096 onePageMem =
      some (Made.failed AlloError.nomem _) := rfl
  rw [hmake] at hcall
  cases hcall
  exact ⟨trivial, rfl⟩

theorem makeGenAllocator_fails_unsafely : exists e m',
    makeGenAllocator refusingOs 8 4096 onePageMem = some (Made.failed e m') ∧
      ¬ GenFailedSafely refusingOs 4096 onePageMem m' := by
  have hout : 8 ≠ NULL := by decide
  have hboot : genBootstrap refusingOs 4096 onePageMem = some (Made.ok _) := rfl
  have hmake : makeGenAllocator refusingOs 8 4096 onePageMem =
      some (Made.failed AlloError.nomem _) := rfl
  rw [makeGenAllocator_of_boot hout hboot] at hmake ⊢
  rcases @genBootstrap_spec refusingOs 4096 onePageMem refusingOs_page with
    ⟨made, hboot', hcase⟩
  rw [hboot] at hboot'
  cases hboot'
  rcases hcase with ⟨e, m', hno, _⟩ | ⟨page, heq, hbooted⟩
  · cases hno
  · cases heq
    rcases genBuild_spec hbooted.pages with ⟨e, w, _, hpages, habandon⟩ | hbuilt
    · refine ⟨e, _, habandon.trans (genAbandon_eq e w), ?_⟩
      intro hsafe
      have hrun := hbooted.traced.trans (hpages.traced.mono (fun _ _ he => he.left))
      exact genAbandon_unbacked hpages hrun (genAbandon_eq e w) (hsafe.backed _ hboot)
    · rcases hbuilt with ⟨st, fl, free, hcall, _⟩
      rw [hmake] at hcall
      cases hcall

end Liballo
