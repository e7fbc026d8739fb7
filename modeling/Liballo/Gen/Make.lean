import Liballo.Gen.Session

/-!
# Making the generic allocator

The page allocator is made in a local variable, maps the state block and moves into it.
The buddy allocator and the pools are then made one on top of the other.
-/

namespace Liballo

open Foundation

/-- Everything that was mapped on the way from `m` to `m'` was given back. -/
structure GenReleased (m m' : Mem) : Prop where
  maps : (liveMaps m'.trace).Perm (liveMaps m.trace)
  traced : Traced MapEvent m m'

/-- What the page allocator does while its object is the local variable at `frame`. -/
def PageLocal (frame : Nat) : Event -> Prop
  | Event.touch a n => a = frame ∧ n = sizeofAllo
  | Event.read _ _ => False
  | _ => True

theorem pageLocal_quiet (frame : Nat) : PageQuiet (PageLocal frame) frame where
  touch := ⟨rfl, rfl⟩
  write := fun _ _ => trivial
  poison := fun _ _ => trivial
  unpoison := fun _ _ => trivial
  map := fun _ _ => trivial
  refuse := trivial

section Bootstrap

variable {os : Os} {frame : Nat} {m : Mem}

/-- What the constructor of the page allocator does. -/
def PageStartEvent (frame : Nat) : Event -> Prop
  | Event.touch a n => a = frame ∧ n = sizeofAllo
  | Event.map _ _ => True
  | Event.refuse => True
  | _ => False

theorem PageStartEvent.mapEvent {tr : List Event} {e : Event}
    (h : PageStartEvent frame e) : MapEvent tr e := by
  cases e with
  | remap _ _ _ _ => exact absurd h not_false
  | unmap _ _ => exact absurd h not_false
  | _ => trivial

theorem PageStartEvent.pageLocal {e : Event} (h : PageStartEvent frame e) :
    PageLocal frame e := by
  cases e with
  | touch _ _ => exact h
  | read _ _ => exact absurd h not_false
  | _ => trivial

theorem PageStartEvent.pageEvent {R : Block} {tr : List Event} {e : Event}
    (h : PageStartEvent frame e) : PageEvent R tr e := by
  cases e with
  | write _ _ => exact absurd h not_false
  | remap _ _ _ _ => exact absurd h not_false
  | unmap _ _ => exact absurd h not_false
  | _ => trivial

theorem makePageAllocator_failed {e : AlloError} {m' : Mem}
    (h : makePageAllocator os frame m = Made.failed e m') :
    GenReleased m m' ∧ Every (PageStartEvent frame) m m' := by
  have htouch : Every (PageStartEvent frame) m
      (m.note (Event.touch frame sizeofAllo)) := every_note ⟨rfl, rfl⟩
  unfold makePageAllocator at h
  split at h
  · cases h
    exact ⟨⟨List.Perm.refl _, Traced.refl _ _⟩, Traced.refl _ _⟩
  · unfold alloOsGetPageSize at h
    dsimp only at h
    rcases alloOsMmap_cases os os.pageSize (m.note (Event.touch frame sizeofAllo)) with
      hrefused | ⟨a, m₁, hgranted, hne, _⟩
    · rw [hrefused] at h
      dsimp only at h
      rw [if_pos rfl] at h
      cases h
      have hall : Every (PageStartEvent frame) m _ :=
        (htouch.trans (every_note (e := Event.refuse) trivial)).trans
          (every_note (e := Event.touch frame sizeofAllo) ⟨rfl, rfl⟩)
      exact ⟨⟨List.Perm.refl _, hall.mono (fun _ _ he => he.mapEvent)⟩, hall⟩
    · rw [hgranted] at h
      dsimp only at h
      rw [if_neg hne] at h
      cases h

theorem makePageAllocator_ok {st : PageState}
    (h : makePageAllocator os frame m = Made.ok st) :
    st.self = frame ∧ st.ctx.pageSize = os.pageSize ∧
      Every (PageStartEvent frame) m st.mem := by
  have htouch : Every (PageStartEvent frame) m
      (m.note (Event.touch frame sizeofAllo)) := every_note ⟨rfl, rfl⟩
  unfold makePageAllocator at h
  split at h
  · cases h
  · unfold alloOsGetPageSize at h
    dsimp only at h
    rcases alloOsMmap_cases os os.pageSize (m.note (Event.touch frame sizeofAllo)) with
      hrefused | ⟨a, m₁, hgranted, hne, _, htrace, _, _⟩
    · rw [hrefused] at h
      dsimp only at h
      rw [if_pos rfl] at h
      cases h
    · rw [hgranted] at h
      dsimp only at h
      rw [if_neg hne] at h
      cases h
      have hmap : Every (PageStartEvent frame) _ m₁ := Traced.event htrace trivial
      exact ⟨rfl, rfl, (htouch.trans hmap).trans (every_note ⟨rfl, rfl⟩)⟩

/-- The object of a local variable lies in memory that the program has already. -/
def FrameMapped (frame : Nat) (m : Mem) : Prop :=
  exists d, d ∈ liveMaps m.trace ∧ Block.Inside ⟨frame, sizeofAllo⟩ d

/-- The state block is there and has the page allocator in it. -/
structure GenBooted (os : Os) (frame : Nat) (m : Mem) (page : PageState) : Prop where
  pages : GenPages os (liveMaps m.trace) page.self page.mem page []
  traced : Traced MapEvent m page.mem
  backed : FrameMapped frame m ->
    Traced (BackedEvent ⟨page.self, sizeofGenState⟩) m page.mem

/-- The state block lies in its mapping. -/
theorem GenPages.state_inside {base L : List Block} {block : Nat} {m₀ : Mem}
    {s : PageState} (h : GenPages os base block m₀ s L) :
    Block.Inside ⟨block, sizeofGenState⟩ (stateMap os block) ∧
      stateMap os block ∈ liveMaps s.mem.trace ∧
        s.ctx.registryMap.Disjoint (stateMap os block) ∧
          forall d, d ∈ base -> (stateMap os block).Disjoint d := by
  rcases h.live with ⟨es, hlive⟩
  have hstate : (⟨block, sizeofGenState⟩ : Block) ∈
      L ++ [(⟨block, sizeofGenState⟩ : Block)] :=
    List.mem_append_right L List.mem_cons_self
  have hmap := hlive.mem_map hstate
  have hinside := hlive.inside_map hstate
  rw [h.stateMap_eq] at hmap hinside
  exact ⟨hinside, hlive.inv.holds.mem (List.mem_cons_of_mem _ hmap),
    hlive.inv.entry_apart hmap,
    fun d hd => hlive.inv.holds.apart _ (List.mem_cons_of_mem _ hmap) d hd⟩

/-- A step of the page allocator in a local variable accesses nothing in a block apart
from the variable and from the registry. -/
theorem backed_of_local {R S : Block} {tr : List Event} {e : Event}
    (hpage : PageEvent R tr e) (hlocal : PageLocal frame e) (hR : R.Disjoint S)
    (hframe : Block.Disjoint ⟨frame, sizeofAllo⟩ S) : BackedEvent S tr e := by
  intro haccess
  cases e with
  | read _ _ => exact absurd hlocal not_false
  | write a n => exact absurd (hpage.left.disjoint hR) haccess
  | touch a n =>
      rcases hlocal with ⟨rfl, rfl⟩
      exact absurd hframe haccess
  | _ => exact absurd haccess not_false

theorem genBootstrap_spec
    (hpage : exists k, 4 ≤ k ∧ k < 64 ∧ os.pageSize = 2 ^ k) :
    exists made, genBootstrap os frame m = some made ∧
      ((exists e m', made = Made.failed e m' ∧ GenReleased m m') ∨
        exists page, made = Made.ok page ∧ GenBooted os frame m page) := by
  unfold genBootstrap
  cases hmake : makePageAllocator os frame m with
  | failed e m' =>
      exact ⟨_, rfl, Or.inl ⟨e, m', rfl, (makePageAllocator_failed hmake).left⟩⟩
  | ok st =>
      have hlive := makePageAllocator_spec hpage hmake
      rcases makePageAllocator_ok hmake with ⟨hself, hsize, hstart⟩
      have hmade : Traced MapEvent m st.mem := hstart.mono (fun _ _ he => he.mapEvent)
      dsimp only
      rcases hcall : pageAllocFn os sizeofGenState st with ⟨block, st'⟩
      have hlt : sizeofGenState < 2 ^ 64 := by decide
      rcases hlive.alloc hlt hcall with ⟨hstep, hcase⟩
      have hcalled : alloAlloc (pageAllo os) sizeofGenState st = some (block, st') :=
        congrArg some hcall
      have hmapped : Traced MapEvent m st'.mem :=
        hmade.trans (hstep.traced.mono (fun _ _ he => he.mapEvent))
      simp only [hcalled, Option.bind_eq_bind, Option.bind_some]
      rcases hcase with ⟨hnull, hlive'⟩ | ⟨hne, hlive'⟩
      · rcases pageDestroyFn_spec hlive'.inv with ⟨hmaps, _, htraced⟩
        rw [if_pos hnull]
        exact ⟨_, rfl, Or.inl ⟨_, _, rfl,
          { maps := hmaps
            traced := hmapped.trans (htraced.mono (fun _ _ he => he.mapEvent)) }⟩⟩
      · rw [if_neg hne]
        refine ⟨_, rfl, Or.inr ⟨_, rfl, ?_⟩⟩
        have hnotes : Wrote (fun _ _ => False) st'.mem
            ((st'.mem.note (Event.touch st'.self sizeofAllo)).note
              (Event.touch block sizeofAllo)) :=
          (Wrote.note (e := Event.touch st'.self sizeofAllo) trivial).trans
            (Wrote.note trivial)
        have hfinal := hlive'.store hnotes (fun _ _ hno => absurd hno not_false)
        have hpages : GenPages os (liveMaps m.trace) block
            ((st'.mem.note (Event.touch st'.self sizeofAllo)).note
              (Event.touch block sizeofAllo))
            (PageState.touch { st'.touch with self := block }) [] :=
          { self := rfl
            pageSize := hstep.pageSize.trans hsize
            live := ⟨_, hfinal.inv, hfinal.listed, hfinal.fits⟩
            traced := Traced.refl _ _ }
        rcases hpages.state_inside with ⟨hinside, hmem, hreg, hbase⟩
        refine
          { pages := hpages
            traced := hmapped.trans ((Traced.event rfl trivial).trans
              (Traced.event rfl trivial))
            backed := ?_ }
        rintro ⟨d, hd, hin⟩
        have hapart : Block.Disjoint ⟨frame, sizeofAllo⟩ ⟨block, sizeofGenState⟩ :=
          (hinside.disjoint (hin.disjoint (hbase d hd).symm).symm).symm
        have hregistry : st'.ctx.registryMap.Disjoint ⟨block, sizeofGenState⟩ :=
          (hinside.disjoint hreg.symm).symm
        have hquiet : PageQuiet (PageLocal frame) st.self :=
          hself.symm ▸ pageLocal_quiet frame
        have hcalls : Every (PageLocal frame) st.mem
            (pageAllocFn os sizeofGenState st).2.mem :=
          pageAllocFn_events hquiet (fun _ _ => trivial) _
        rw [hcall] at hcalls
        have hstarted : Traced (BackedEvent ⟨block, sizeofGenState⟩) m st.mem :=
          hstart.mono (fun _ _ he =>
            backed_of_local he.pageEvent he.pageLocal hregistry hapart)
        have hallocated : Traced (BackedEvent ⟨block, sizeofGenState⟩) st.mem st'.mem :=
          (hstep.traced.and hcalls).mono (fun _ _ he =>
            backed_of_local he.left he.right hregistry hapart)
        have hlocal : BackedEvent ⟨block, sizeofGenState⟩ st'.mem.trace
            (Event.touch st'.self sizeofAllo) := by
          intro haccess
          rw [hstep.self, hself] at haccess
          exact absurd hapart haccess
        have hcopied : Traced (BackedEvent ⟨block, sizeofGenState⟩) st'.mem
            (st'.mem.note (Event.touch st'.self sizeofAllo)) := Traced.event rfl hlocal
        exact ((hstarted.trans hallocated).trans hcopied).trans
          (Traced.event rfl (fun _ => ⟨_, hmem, hinside⟩))

end Bootstrap

end Liballo
