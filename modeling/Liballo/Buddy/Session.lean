import Liballo.Buddy.Make

/-!
# Runs of a client of a buddy allocator

One step of a client, and what holds in every state a client reaches from an allocator
that was just made.
-/

namespace Liballo

open Foundation

section Session

variable {χ : Type} [HasMem χ] {a : Allo χ}

/-- Where a step may write: in headers of blocks that are free before or after it, and
where it copies or stores user data. -/
def BuddyWrites (s : Session (BuddyState χ)) (fl fl' : Nat -> List Nat) :
    Op -> Session (BuddyState χ) -> Nat -> Nat -> Prop
  | Op.realloc b n, s', x, len =>
      HeaderOf s.state.ctx (FreeNodes fl ∪ FreeNodes fl') x len ∨
        exists p, s'.live = ⟨p, n⟩ :: s.live.erase b ∧ x = p ∧ len = min b.size n
  | Op.poke y _, _, x, len => x = y ∧ len = 1
  | _, _, x, len => HeaderOf s.state.ctx (FreeNodes fl ∪ FreeNodes fl') x len

/-- A step that was carried out. -/
structure BuddyStepped (depth : Nat) (s : Session (BuddyState χ))
    (fl : Nat -> List Nat) (op : Op) (s' : Session (BuddyState χ))
    (fl' : Nat -> List Nat) : Prop where
  live : BuddyLive True depth s'.state fl' s'.live
  moved : BuddyMoved True (BuddyWrites s fl fl' op s') s.state s'.state
  others : s.KeepsOthers op s'

theorem keepsOthers_of_keeps {s s' : Session (BuddyState χ)} {op : Op}
    {K : List Block} (hkeeps : KeepsBytes K (mem s.state) (mem s'.state))
    (hothers : forall c, c ∈ s.live -> ¬ op.Names c -> c ∈ K) :
    s.KeepsOthers op s' :=
  fun c hc hnamed => hkeeps c (hothers c hc hnamed)

variable {depth : Nat} {fl : Nat -> List Nat} {s : Session (BuddyState χ)}

theorem buddy_alloc (h : BuddyLive True depth s.state fl s.live) {n : Nat}
    (hn : n < 2 ^ 64) :
    exists s' fl', Session.exec (buddyAllo a) (Op.alloc n) s = some s' ∧
      BuddyStepped depth s fl (Op.alloc n) s' fl' := by
  rcases h.alloc hn with ⟨p, st, hcall, hkeeps, hcase⟩
  have hexec : Session.exec (buddyAllo a) (Op.alloc n) s =
      some (s.afterAlloc n p st) := by
    simp [Session.exec, alloAlloc, buddyAllo, hcall]
  rw [hexec]
  rcases hcase with ⟨rfl, hrefused, hlive⟩ | ⟨hne, fl', hlive, hmoved⟩
  · rw [Session.afterAlloc_null]
    exact ⟨_, fl, rfl,
      { live := hlive
        moved := hrefused.moved.mono (fun _ _ hno => absurd hno not_false)
        others := keepsOthers_of_keeps hkeeps (fun c hc _ => hc) }⟩
  · rw [Session.afterAlloc_placed s st hne]
    exact ⟨_, fl', rfl,
      { live := hlive
        moved := hmoved
        others := keepsOthers_of_keeps hkeeps (fun c hc _ => hc) }⟩

theorem buddy_realloc (h : BuddyLive True depth s.state fl s.live) {b : Block}
    {n : Nat} (hb : b ∈ s.live) (hn : n < 2 ^ 64) :
    exists s' fl', Session.exec (buddyAllo a) (Op.realloc b n) s = some s' ∧
      BuddyStepped depth s fl (Op.realloc b n) s' fl' ∧
        s.ReallocKeepsPrefix (buddyAllo a) (Op.realloc b n) := by
  have hptr := h.ptr_ne_null hb
  have hothers : forall c, c ∈ s.live -> ¬ (Op.realloc b n).Names c ->
      c ∈ s.live.erase b :=
    fun c hc hnamed => (List.mem_erase_of_ne hnamed).mpr hc
  -- The wrapper answers, and its answer fixes the rest of the step.
  have hstep : forall p st fl', alloRealloc (buddyAllo a) b.ptr b.size n s.state =
      some (p, st) ->
        BuddyStepped depth s fl (Op.realloc b n) (s.afterRealloc b n p st) fl' ->
          (p ≠ NULL -> KeepsPrefix b.ptr p (min b.size n) (mem s.state) (mem st)) ->
            exists s' fl', Session.exec (buddyAllo a) (Op.realloc b n) s = some s' ∧
              BuddyStepped depth s fl (Op.realloc b n) s' fl' ∧
                s.ReallocKeepsPrefix (buddyAllo a) (Op.realloc b n) := by
    intro p st fl' hcall hstepped hprefix
    refine ⟨_, fl', ?_, hstepped, ?_⟩
    · simp [Session.exec, hcall]
    · intro p' st' hcall' hne
      rw [hcall] at hcall'
      cases hcall'
      exact hprefix hne
  by_cases hzero : n = 0
  · subst hzero
    rcases h.free hb with ⟨st, fl', hfree, hlive, hkeeps, hmoved⟩
    apply hstep NULL st fl' (alloRealloc_zero hfree)
    · rw [Session.afterRealloc_zero]
      exact
        { live := hlive
          moved := hmoved.mono (fun _ _ hx => Or.inl hx)
          others := keepsOthers_of_keeps hkeeps hothers }
    · exact fun hno => absurd rfl hno
  by_cases hsame : b.size = n
  · subst hsame
    have hperm := List.perm_cons_erase hb
    apply hstep b.ptr s.state fl (alloRealloc_same hzero hptr)
    · rw [Session.afterRealloc_placed s b s.state hzero hptr]
      exact
        { live := h.perm hperm
          moved := BuddyMoved.refl _ _
          others := fun _ _ _ _ _ => rfl }
    · exact fun _ i _ => rfl
  rcases h.realloc hb hzero hn with ⟨p, st, hcall, hcase⟩
  have hpass := alloRealloc_pass (a := buddyAllo a) (s := s.state) hzero hptr hsame
  have hcall' : alloRealloc (buddyAllo a) b.ptr b.size n s.state = some (p, st) :=
    hpass.trans hcall
  rcases hcase with ⟨rfl, hrefused, hlive⟩ | ⟨fl', hmovedTo⟩
  · apply hstep NULL st fl hcall'
    · rw [Session.afterRealloc_null s b st hzero]
      exact
        { live := hlive
          moved := hrefused.moved.mono (fun _ _ hno => absurd hno not_false)
          others := fun c _ _ x _ => congrFun hrefused.bytes x }
    · exact fun hno => absurd rfl hno
  · apply hstep p st fl' hcall'
    · rw [Session.afterRealloc_placed s b st hzero hmovedTo.ptr_ne]
      exact
        { live := hmovedTo.inv
          moved := hmovedTo.moved.mono (fun x len hx => hx.imp_right
            (fun hcopy => ⟨p, rfl, hcopy.left, hcopy.right⟩))
          others := keepsOthers_of_keeps hmovedTo.others hothers }
    · exact fun _ => hmovedTo.kept

theorem buddy_poke (h : BuddyLive True depth s.state fl s.live) {x : Nat} {v : UInt8}
    (hx : exists b, b ∈ s.live ∧ b.Contains x) :
    BuddyStepped depth s fl (Op.poke x v)
      { s with state := modifyMem (Mem.poke x v) s.state } fl := by
  have hpoke : Wrote (fun y n => y = x ∧ n = 1) (mem s.state)
      ((mem s.state).poke x v) := Wrote.poke ⟨rfl, rfl⟩
  refine
    { live := ?_
      moved := BuddyMoved.modify hpoke (Traced.of_trace_eq rfl)
      others := s.keepsOthers_poke x v }
  apply h.store_inside hpoke _ (fun _ => rfl)
  intro y n hyn
  rcases hx with ⟨b, hb, hin⟩
  refine ⟨b, hb, ?_⟩
  rw [hyn.left, hyn.right]
  exact ⟨hin.left, hin.right⟩

theorem buddy_step (h : BuddyLive True depth s.state fl s.live) {op : Op}
    (hlegal : s.Legal op) :
    exists s' fl', Session.exec (buddyAllo a) op s = some s' ∧
      BuddyStepped depth s fl op s' fl' ∧
        s.ReallocKeepsPrefix (buddyAllo a) op := by
  cases op with
  | alloc n =>
      rcases buddy_alloc h hlegal with ⟨s', fl', hexec, hstepped⟩
      exact ⟨s', fl', hexec, hstepped, trivial⟩
  | free b =>
      rcases h.free hlegal with ⟨st, fl', hcall, hlive, hkeeps, hmoved⟩
      refine ⟨s.afterFree b st, fl', ?_, ?_, trivial⟩
      · simp [Session.exec, alloFree, buddyAllo, hcall]
      · exact
          { live := hlive
            moved := hmoved
            others := keepsOthers_of_keeps hkeeps
              (fun c hc hnamed => (List.mem_erase_of_ne hnamed).mpr hc) }
  | realloc b n => exact buddy_realloc h hlegal.left hlegal.right
  | poke x v =>
      exact ⟨_, fl, rfl, buddy_poke h hlegal, trivial⟩

/-!
# Runs
-/

/-- Nothing is written outside the managed buffer. -/
theorem BuddyStepped.inside {op : Op} {s' : Session (BuddyState χ)}
    {fl' : Nat -> List Nat} (h : BuddyLive True depth s.state fl s.live)
    (hlegal : s.Legal op) (hstep : BuddyStepped depth s fl op s' fl') {x n : Nat}
    (hx : BuddyWrites s fl fl' op s' x n) :
    Block.Inside ⟨x, n⟩ s.state.ctx.region := by
  have hheader : HeaderOf s.state.ctx (FreeNodes fl ∪ FreeNodes fl') x n ->
      Block.Inside ⟨x, n⟩ s.state.ctx.region := h.headers_inside hstep.live
  have hlive : forall {t : Session (BuddyState χ)} {g : Nat -> List Nat} {b : Block},
      BuddyLive True depth t.state g t.live -> b ∈ t.live ->
        b.Inside t.state.ctx.region := by
    intro t g b ht hb
    exact ht.inside_region hb
  cases op with
  | alloc _ => exact hheader hx
  | free _ => exact hheader hx
  | realloc b m =>
      rcases hx with hx | ⟨p, hs', rfl, rfl⟩
      · exact hheader hx
      · have hp : (⟨x, m⟩ : Block) ∈ s'.live := by
          rw [hs']
          exact List.mem_cons_self
        have hinside := hlive hstep.live hp
        rw [hstep.moved.region] at hinside
        have hcopied : Block.Inside ⟨x, min b.size m⟩ ⟨x, m⟩ :=
          ⟨Nat.le_refl x, Nat.add_le_add_left (Nat.min_le_right b.size m) x⟩
        exact hcopied.trans hinside
  | poke y v =>
      rcases hlegal with ⟨b, hb, hin⟩
      rcases hx with ⟨rfl, rfl⟩
      have hbyte : Block.Inside ⟨x, 1⟩ b := ⟨hin.left, hin.right⟩
      exact hbyte.trans (hlive h hb)

/-- What holds after any number of steps from `st`. -/
structure BuddyRun (depth : Nat) (st : BuddyState χ) (s : Session (BuddyState χ))
    (fl : Nat -> List Nat) : Prop where
  live : BuddyLive True depth s.state fl s.live
  moved : BuddyMoved True (fun x n => Block.Inside ⟨x, n⟩ st.ctx.region) st s.state

theorem buddy_run {st : BuddyState χ} (h : BuddyLive True depth st fl [])
    (hreach : (Session.client (buddyAllo a)).Reaches (Session.start st) s) :
    exists fl', BuddyRun depth st s fl' := by
  refine hreach.invariant_of_step (fun s => exists fl', BuddyRun depth st s fl') ?_ ?_
  · exact ⟨fl,
      { live := h
        moved := BuddyMoved.refl _ st }⟩
  · intro s op hs hlegal
    rcases hs with ⟨fl', hrun⟩
    rcases buddy_step hrun.live hlegal.left with ⟨s', fl'', hexec, hstepped, _⟩
    refine ⟨s', hexec, fl'',
      { live := hstepped.live
        moved := hrun.moved.trans (hstepped.moved.mono ?_) }⟩
    intro x n hx
    rw [← hrun.moved.region]
    exact hstepped.inside hrun.live hlegal.left hx

theorem buddyLive_of_make {C : Contract a} {out buffer size : Nat} {w : χ}
    {L : List Block} {st : BuddyState χ} (hchild : C.Inv w L)
    (hmake : makeBuddyAllocator out (some a) buffer size w = some (Made.ok st))
    (hbuffer : buffer ≠ NULL -> Block.WellFormed ⟨buffer, st.ctx.totalSize⟩) :
    exists depth, BuddyLive True depth st rootLists [] := by
  rcases makeBuddyAllocator_ok hchild hmake with ⟨t, rfl, hmade⟩
  rcases hmade.fresh hbuffer with ⟨depth, hfresh⟩
  exact ⟨depth, (buddyStart_spec hfresh).left⟩

end Session

end Liballo
