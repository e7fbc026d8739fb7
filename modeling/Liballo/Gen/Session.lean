import Liballo.Gen.Live

/-!
# Runs of a client of the generic allocator

One step of a client, and what holds in every state a client reaches.
-/

namespace Liballo

open Foundation

section Session

variable {os : Os} {base : List Block} {m₀ : Mem} {frame : Nat}
variable {fl free : Nat -> List Nat} {s : Session GenState}

/-- A step that was carried out. -/
structure GenStepped (os : Os) (base : List Block) (m₀ : Mem) (frame : Nat)
    (s : Session GenState) (op : Op) (s' : Session GenState)
    (fl' free' : Nat -> List Nat) : Prop where
  exec : Session.exec (genAllo os frame) op s = some s'
  live : GenLive os base m₀ s'.state fl' free' s'.live
  block : s'.state.block = s.state.block
  others : s.KeepsOthers op s'
  kept : s.ReallocKeepsPrefix (genAllo os frame) op

theorem genStep_alloc (h : GenLive os base m₀ s.state fl free s.live) {n : Nat}
    (hn : n < 2 ^ 64) :
    exists s' fl' free', GenStepped os base m₀ frame s (Op.alloc n) s' fl' free' := by
  rcases h.alloc hn with ⟨p, st, hcall, hstays, hkeeps, hcase⟩
  have hexec : Session.exec (genAllo os frame) (Op.alloc n) s =
      some (s.afterAlloc n p st) := Option.bind_eq_some_iff.mpr ⟨_, hcall, rfl⟩
  rcases hcase with ⟨rfl, hlive, _⟩ | ⟨hne, fl', free', hlive⟩
  · rw [Session.afterAlloc_null] at hexec
    exact ⟨_, fl, free,
      { exec := hexec
        live := hlive
        block := hstays.block
        others := fun c hc _ => hkeeps c hc
        kept := trivial }⟩
  · rw [Session.afterAlloc_placed s st hne] at hexec
    exact ⟨_, fl', free',
      { exec := hexec
        live := hlive
        block := hstays.block
        others := fun c hc _ => hkeeps c hc
        kept := trivial }⟩

theorem genStep_free (h : GenLive os base m₀ s.state fl free s.live) {b : Block}
    (hb : b ∈ s.live) :
    exists s' fl' free', GenStepped os base m₀ frame s (Op.free b) s' fl' free' := by
  rcases h.free_block hb with ⟨st, fl', free', hcall, hstays, hlive, hkeeps⟩
  exact ⟨s.afterFree b st, fl', free',
    { exec := Option.bind_eq_some_iff.mpr ⟨_, hcall, rfl⟩
      live := hlive
      block := hstays.block
      others := fun c hc hnamed => hkeeps c ((List.mem_erase_of_ne hnamed).mpr hc)
      kept := trivial }⟩

theorem genStep_realloc (h : GenLive os base m₀ s.state fl free s.live) {b : Block}
    {n : Nat} (hb : b ∈ s.live) (hn : n < 2 ^ 64) :
    exists s' fl' free',
      GenStepped os base m₀ frame s (Op.realloc b n) s' fl' free' := by
  have hptr := h.ptr_ne_null hb
  have hothers : forall c, c ∈ s.live -> ¬ (Op.realloc b n).Names c ->
      c ∈ s.live.erase b :=
    fun c hc hnamed => (List.mem_erase_of_ne hnamed).mpr hc
  have hexec : forall p st, alloRealloc (genAllo os frame) b.ptr b.size n s.state =
      some (p, st) -> Session.exec (genAllo os frame) (Op.realloc b n) s =
        some (s.afterRealloc b n p st) :=
    fun _ _ hcall => Option.bind_eq_some_iff.mpr ⟨_, hcall, rfl⟩
  by_cases hzero : n = 0
  · subst hzero
    rcases h.free_block hb with ⟨st, fl', free', hcall, hstays, hlive, hkeeps⟩
    have hfreed : alloRealloc (genAllo os frame) b.ptr b.size 0 s.state =
        some (NULL, st) := alloRealloc_zero hcall
    refine ⟨s.afterFree b st, fl', free',
      { exec := ?_
        live := hlive
        block := hstays.block
        others := fun c hc hnamed => hkeeps c (hothers c hc hnamed)
        kept := ?_ }⟩
    · rw [hexec _ _ hfreed, Session.afterRealloc_zero]
    · intro p t hcall' hne
      rw [hfreed] at hcall'
      cases hcall'
      exact absurd rfl hne
  by_cases hsame : b.size = n
  · subst hsame
    have hstay := alloRealloc_same (a := genAllo os frame) (s := s.state) hzero hptr
    refine ⟨_, fl, free,
      { exec := hexec _ _ hstay
        live := ?_
        block := congrArg GenState.block (Session.afterRealloc_state s b s.state)
        others := ?_
        kept := ?_ }⟩
    · rw [Session.afterRealloc_placed s b s.state hzero hptr]
      exact h.perm (List.perm_cons_erase hb)
    · intro c _ _ x _
      rw [Session.afterRealloc_state]
    · intro p t hcall' _
      rw [hstay] at hcall'
      cases hcall'
      exact fun _ _ => rfl
  rcases h.realloc hb hzero hn hsame with ⟨p, st, hcall, hstays, hkeeps, hcase⟩
  have hpass : alloRealloc (genAllo os frame) b.ptr b.size n s.state = some (p, st) :=
    (alloRealloc_pass hzero hptr hsame).trans hcall
  have hstepped : forall fl' free',
      GenLive os base m₀ (s.afterRealloc b n p st).state fl' free'
        (s.afterRealloc b n p st).live ->
      (p ≠ NULL -> KeepsPrefix b.ptr p (min b.size n) (mem s.state) (mem st)) ->
        GenStepped os base m₀ frame s (Op.realloc b n) (s.afterRealloc b n p st)
          fl' free' := by
    intro fl' free' hlive hprefix
    refine
      { exec := hexec p st hpass
        live := hlive
        block := ?_
        others := ?_
        kept := ?_ }
    · rw [Session.afterRealloc_state]
      exact hstays.block
    · intro c hc hnamed x hx
      rw [Session.afterRealloc_state]
      exact hkeeps c (hothers c hc hnamed) x hx
    · intro q t hcall' hne
      rw [hpass] at hcall'
      cases hcall'
      exact hprefix hne
  rcases hcase with ⟨rfl, hlive, _⟩ | ⟨hne, hprefix, fl', free', hlive⟩
  · refine ⟨_, fl, free, hstepped fl free ?_ (fun hno => absurd rfl hno)⟩
    rw [Session.afterRealloc_null s b st hzero]
    exact hlive
  · refine ⟨_, fl', free', hstepped fl' free' ?_ (fun _ => hprefix)⟩
    rw [Session.afterRealloc_placed s b st hzero hne]
    exact hlive

theorem gen_step (h : GenLive os base m₀ s.state fl free s.live) {op : Op}
    (hlegal : s.Legal op) :
    exists s' fl' free', GenStepped os base m₀ frame s op s' fl' free' := by
  cases op with
  | alloc n => exact genStep_alloc h hlegal
  | free b => exact genStep_free h hlegal
  | realloc b n => exact genStep_realloc h hlegal.left hlegal.right
  | poke x v =>
      have hwrote : Wrote (fun y k => y = x ∧ k = 1) (mem s.state)
          ((mem s.state).poke x v) := Wrote.poke ⟨rfl, rfl⟩
      refine ⟨{ s with state := modifyMem (Mem.poke x v) s.state }, fl, free,
        { exec := rfl
          live := h.store hwrote ?_
          block := rfl
          others := s.keepsOthers_poke x v
          kept := trivial }⟩
      rcases hlegal with ⟨b, hb, hin⟩
      rintro y k ⟨rfl, rfl⟩
      exact ⟨b, hb, hin.left, hin.right⟩

/-- What holds after any number of steps. -/
theorem gen_run_from {s' : Session GenState}
    (h : GenLive os base m₀ s.state fl free s.live)
    (hreach : (Session.client (genAllo os frame)).Reaches s s') :
    exists fl' free', GenLive os base m₀ s'.state fl' free' s'.live ∧
      s'.state.block = s.state.block := by
  refine hreach.invariant_of_step (fun s' => exists fl' free',
    GenLive os base m₀ s'.state fl' free' s'.live ∧ s'.state.block = s.state.block) ?_ ?_
  · exact ⟨fl, free, h, rfl⟩
  · rintro s' op ⟨fl', free', hlive, hblock⟩ hlegal
    have hstep : exists s'' fl'' free'',
        GenStepped os base m₀ frame s' op s'' fl'' free'' := gen_step hlive hlegal.left
    rcases hstep with ⟨s'', fl'', free'', hstepped⟩
    exact ⟨s'', hstepped.exec, fl'', free'', hstepped.live,
      hstepped.block.trans hblock⟩

/-- What holds after any number of steps from `st`. -/
theorem gen_run {st : GenState} (h : GenLive os base m₀ st fl free [])
    (hreach : (Session.client (genAllo os frame)).Reaches (Session.start st) s) :
    exists fl' free', GenLive os base m₀ s.state fl' free' s.live ∧
      s.state.block = st.block :=
  gen_run_from (s := Session.start st) h hreach

end Session

end Liballo
