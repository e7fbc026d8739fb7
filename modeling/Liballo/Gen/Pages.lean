import Liballo.Gen.Tiers
import Liballo.Page.Exactness

/-!
# The page allocator in its own mapping

The generic allocator keeps its page allocator in the state block, which that page
allocator mapped. To the tower the page allocator is a child that has this one block
set aside. Until the block is given back, no request moves or unmaps it.
-/

namespace Liballo

open Foundation

/-!
# The events of a call

A predicate on events that holds of the accesses of the page allocator to its own object
and of its requests holds of a whole call.
-/

/-- The predicate holds of what every call of an allocator object at `addr` does. -/
structure PageQuiet (Q : Event -> Prop) (addr : Nat) : Prop where
  touch : Q (Event.touch addr sizeofAllo)
  write : forall a n, Q (Event.write a n)
  poison : forall a n, Q (Event.poison a n)
  unpoison : forall a n, Q (Event.unpoison a n)
  map : forall a n, Q (Event.map a n)
  refuse : Q Event.refuse

/-- All events between two memories meet `Q`. -/
abbrev Every (Q : Event -> Prop) (m m' : Mem) : Prop :=
  Traced (fun _ e => Q e) m m'

section Events

variable {os : Os} {Q : Event -> Prop} {m m' : Mem} {s : PageState}

theorem every_note {e : Event} (he : Q e) : Every Q m (m.note e) :=
  Traced.event rfl he

theorem every_map (hQ : PageQuiet Q s.self) (n : Nat) : Every Q m (os.map n m).2 := by
  have hspec := os.map_spec n m
  generalize os.map n m = answer at hspec
  rcases answer with ⟨a, m'⟩
  cases hspec with
  | refused => exact every_note hQ.refuse
  | granted _ htrace _ _ => exact Traced.event htrace (hQ.map _ _)

theorem every_remap (hQ : PageQuiet Q s.self) {old n n' : Nat}
    (hremap : forall a k, Q (Event.remap old n a k)) :
    Every Q m (os.remap old n n' m).2 := by
  have hspec := os.remap_spec old n n' m
  generalize os.remap old n n' m = answer at hspec
  rcases answer with ⟨a, m'⟩
  cases hspec with
  | refused => exact every_note hQ.refuse
  | granted _ htrace _ _ => exact Traced.event htrace (hremap _ _)

theorem every_setPageEntry (hQ : PageQuiet Q s.self) (registry i a n : Nat) :
    Every Q m (setPageEntry registry i a n m) := by
  have haddr : Every Q m (m.writeWord (pageEntryAt registry i) a) :=
    Traced.event rfl (hQ.write _ _)
  exact haddr.trans (Traced.event rfl (hQ.write _ _))

theorem registryEnsureCapacity_events (hQ : PageQuiet Q s.self)
    (hremap : forall a k, Q (Event.remap s.ctx.registry
      (sizeMul s.ctx.capacity sizeofPageEntry) a k)) :
    Every Q s.mem (registryEnsureCapacity os s).2.mem ∧
      (registryEnsureCapacity os s).2.self = s.self := by
  have htouch : Every Q s.mem s.touch.mem := every_note hQ.touch
  unfold registryEnsureCapacity
  dsimp only
  split
  · have hmoved : Every Q s.touch.mem (os.remap s.touch.ctx.registry
        (sizeMul s.touch.ctx.capacity sizeofPageEntry)
        (sizeAdd (sizeMul s.touch.ctx.capacity sizeofPageEntry) s.touch.ctx.pageSize)
        s.touch.mem).2 := every_remap hQ hremap
    unfold alloOsMremap
    split
    · exact ⟨htouch.trans hmoved, rfl⟩
    · exact ⟨(htouch.trans hmoved).trans (every_note hQ.touch), rfl⟩
  · exact ⟨htouch, rfl⟩

theorem registryRemove_events (hQ : PageQuiet Q s.self) (addr : Nat) :
    Every Q s.mem (registryRemove addr s).mem := by
  have htouch : Every Q s.mem s.touch.mem := every_note hQ.touch
  unfold registryRemove
  dsimp only
  split
  · exact htouch
  · exact htouch.trans (every_setPageEntry hQ _ _ _ _)

theorem registryUpdate_events (hQ : PageQuiet Q s.self) (addr a n : Nat) :
    Every Q s.mem (registryUpdate addr a n s).mem := by
  have htouch : Every Q s.mem s.touch.mem := every_note hQ.touch
  unfold registryUpdate
  dsimp only
  split
  · exact htouch
  · exact htouch.trans (every_setPageEntry hQ _ _ _ _)

/-- An allocation moves no mapping but that of the registry. -/
theorem pageAllocFn_events (hQ : PageQuiet Q s.self)
    (hremap : forall a k, Q (Event.remap s.ctx.registry
      (sizeMul s.ctx.capacity sizeofPageEntry) a k)) (n : Nat) :
    Every Q s.mem (pageAllocFn os n s).2.mem := by
  have hens : Every Q s.mem (registryEnsureCapacity os s).2.mem ∧
      (registryEnsureCapacity os s).2.self = s.self :=
    registryEnsureCapacity_events hQ hremap
  unfold pageAllocFn
  split
  · exact Traced.refl _ _
  · generalize registryEnsureCapacity os s = answer at hens
    rcases answer with ⟨ok, t⟩
    rcases hens with ⟨hens, hself⟩
    dsimp only at hens hself ⊢
    rw [← hself] at hQ
    have hmap : Every Q t.mem (os.map (pageRound t.ctx n) t.mem).2 := every_map hQ _
    split
    · exact hens
    · unfold alloOsMmap
      split
      · exact hens.trans hmap
      · have hadd := ((hens.trans hmap).trans (every_note hQ.touch)).trans
          (every_setPageEntry hQ t.ctx.registry t.ctx.count
            (os.map (pageRound t.ctx n) t.mem).1 (pageRound t.ctx n))
        exact (hadd.trans (every_note (hQ.poison _ _))).trans
          (every_note (hQ.unpoison _ _))

/-- Giving a block back unmaps its mapping. -/
theorem pageFreeFn_events (hQ : PageQuiet Q s.self) {ptr size : Nat}
    (hunmap : Q (Event.unmap ptr (pageRound s.ctx size))) :
    Every Q s.mem (pageFreeFn ptr size s).mem := by
  unfold pageFreeFn
  split
  · exact Traced.refl _ _
  · have hremove : Every Q s.touch.mem (registryRemove ptr s.touch).mem :=
      registryRemove_events (s := s.touch) hQ ptr
    have htouch : Every Q s.mem s.touch.mem := every_note hQ.touch
    exact ((htouch.trans hremove).trans (every_note (hQ.unpoison _ _))).trans
      (every_note hunmap)

theorem pageReallocFn_events (hQ : PageQuiet Q s.self) {ptr oldSize : Nat}
    (hregistry : forall a k, Q (Event.remap s.ctx.registry
      (sizeMul s.ctx.capacity sizeofPageEntry) a k))
    (hremap : forall a k, Q (Event.remap ptr (pageRound s.ctx oldSize) a k))
    (newSize : Nat) :
    Every Q s.mem (pageReallocFn os ptr oldSize newSize s).2.mem := by
  have htouch : Every Q s.mem s.touch.mem := every_note hQ.touch
  unfold pageReallocFn
  split
  · exact pageAllocFn_events hQ hregistry newSize
  · dsimp only
    split
    · split
      · exact htouch.trans (every_note (hQ.unpoison _ _))
      · exact htouch.trans (every_note (hQ.poison _ _))
    · have hopen : Every Q s.mem (s.touch.mem.note
          (Event.unpoison ptr (pageRound s.ctx oldSize))) :=
        htouch.trans (every_note (hQ.unpoison _ _))
      have hmoved : Every Q _ (os.remap ptr (pageRound s.ctx oldSize)
          (pageRound s.ctx newSize) (s.touch.mem.note
            (Event.unpoison ptr (pageRound s.ctx oldSize)))).2 := every_remap hQ hremap
      unfold alloOsMremap
      split
      · exact (hopen.trans hmoved).trans (every_note (hQ.poison _ _))
      · have hupdate : forall a m, Every Q m (registryUpdate ptr a
            (pageRound s.ctx newSize) { s.touch with mem := m }).mem :=
          fun a m => registryUpdate_events (s := { s.touch with mem := m }) hQ _ _ _
        exact (((hopen.trans hmoved).trans (hupdate _ _)).trans
          (every_note (hQ.poison _ _))).trans (every_note (hQ.unpoison _ _))

theorem pageUnmapEntries_events (hQ : PageQuiet Q s.self)
    (hunmap : forall a n, Q (Event.unmap a n)) (i n : Nat) :
    Every Q s.mem (pageUnmapEntries i n s).mem := by
  induction n generalizing i s with
  | zero => exact every_note hQ.touch
  | succ n ih =>
      have htouch : Every Q s.mem s.touch.mem := every_note hQ.touch
      have hunmapped : Every Q s.mem (alloOsMunmap
          (pageEntryAddr s.touch.mem s.ctx.registry i)
          (pageEntrySize s.touch.mem s.ctx.registry i) s.touch.mem) :=
        htouch.trans (every_note (hunmap _ _))
      have hrest : forall m, Every Q m
          (pageUnmapEntries (i + 1) n { s.touch with mem := m }).mem :=
        fun m => ih (s := { s.touch with mem := m }) hQ (i + 1)
      exact hunmapped.trans (hrest _)

/-- Destroying the allocator only unmaps. -/
theorem pageDestroyFn_events (hQ : PageQuiet Q s.self)
    (hunmap : forall a n, Q (Event.unmap a n)) :
    Every Q s.mem (pageDestroyFn s).mem :=
  (pageUnmapEntries_events hQ hunmap 0 s.ctx.count).trans (every_note (hunmap _ _))

end Events

/-!
# Requests that spare a mapping
-/

section Spares

variable {os : Os} {c : Block} {m m' : Mem} {s : PageState} {base es : List Block}

/-- The steps from `m` to `m'` leave the mapping `c` where it is. -/
abbrev Spared (c : Block) (m m' : Mem) : Prop :=
  Every (Event.Spares c) m m'

theorem spares_quiet (c : Block) (addr : Nat) : PageQuiet (Event.Spares c) addr where
  touch := trivial
  write := fun _ _ => trivial
  poison := fun _ _ => trivial
  unpoison := fun _ _ => trivial
  map := fun _ _ => trivial
  refuse := trivial

theorem Spared.of_wrote {P : Nat -> Nat -> Prop} (h : Wrote P m m') :
    Spared c m m' := by
  apply Traced.of_wrote h
  intro _ e he
  cases e with
  | remap _ _ _ _ => exact absurd he not_false
  | unmap _ _ => exact absurd he not_false
  | _ => trivial

theorem PageInv.registry_spared (h : PageInv base s.ctx s.mem es)
    (hc : s.ctx.registryMap ≠ c) (a k : Nat) :
    Event.Spares c (Event.remap s.ctx.registry
      (sizeMul s.ctx.capacity sizeofPageEntry) a k) := by
  rw [h.old_size]
  exact hc

theorem pageAllocFn_spares (h : PageInv base s.ctx s.mem es)
    (hc : s.ctx.registryMap ≠ c) (n : Nat) :
    Spared c s.mem (pageAllocFn os n s).2.mem :=
  pageAllocFn_events (spares_quiet c s.self) (h.registry_spared hc) n

theorem pageFreeFn_spares {ptr size : Nat} (hc : ⟨ptr, pageRound s.ctx size⟩ ≠ c) :
    Spared c s.mem (pageFreeFn ptr size s).mem :=
  pageFreeFn_events (spares_quiet c s.self) hc

theorem pageReallocFn_spares (h : PageInv base s.ctx s.mem es)
    (hreg : s.ctx.registryMap ≠ c) {ptr oldSize : Nat}
    (hc : ⟨ptr, pageRound s.ctx oldSize⟩ ≠ c) (newSize : Nat) :
    Spared c s.mem (pageReallocFn os ptr oldSize newSize s).2.mem :=
  pageReallocFn_events (spares_quiet c s.self) (h.registry_spared hreg)
    (fun _ _ => hc) newSize

end Spares

/-!
# The page allocator as the child of the tower
-/

/-- The mapping of the state block. -/
def stateMap (os : Os) (block : Nat) : Block :=
  ⟨block, alloAlignUp sizeofGenState os.pageSize⟩

/-- The page allocator holds the blocks `L` and the state block it lies in. Since the
memory was `m₀`, it moved and unmapped only live mappings, and never that of the state
block. -/
structure GenPages (os : Os) (base : List Block) (block : Nat) (m₀ : Mem)
    (s : PageState) (L : List Block) : Prop where
  self : s.self = block
  pageSize : s.ctx.pageSize = os.pageSize
  live : exists es, PageLive base s (L ++ [⟨block, sizeofGenState⟩]) es
  traced : Traced (fun tr e => MapEvent tr e ∧ e.Spares (stateMap os block)) m₀ s.mem

theorem PageEvent.mapEvent {R : Block} {tr : List Event} {e : Event}
    (h : PageEvent R tr e) : MapEvent tr e := by
  cases e with
  | remap _ _ _ _ => exact h
  | unmap _ _ => exact h
  | _ => trivial

namespace GenPages

variable {os : Os} {base L es : List Block} {block : Nat} {m₀ : Mem}
variable {s s' : PageState}

theorem stateMap_eq (h : GenPages os base block m₀ s L) :
    pageMap s.ctx ⟨block, sizeofGenState⟩ = stateMap os block := by
  unfold pageMap pageRound stateMap
  rw [h.pageSize]

/-- The next state, when the step spared the state block. -/
theorem step {R : Block} {K M : List Block} (h : GenPages os base block m₀ s L)
    (hstep : PageStep R K s s') (hspares : Spared (stateMap os block) s.mem s'.mem)
    (hlive : exists es, PageLive base s' (M ++ [⟨block, sizeofGenState⟩]) es) :
    GenPages os base block m₀ s' M where
  self := hstep.self.trans h.self
  pageSize := hstep.pageSize.trans h.pageSize
  live := hlive
  traced := h.traced.trans
    ((hstep.traced.mono (fun _ _ he => he.mapEvent)).and hspares)

theorem perm {M : List Block} (h : GenPages os base block m₀ s L)
    (hperm : L.Perm M) : GenPages os base block m₀ s M :=
  { h with
    live := by
      rcases h.live with ⟨es, hlive⟩
      exact ⟨es, hlive.perm (hperm.append_right _)⟩ }

theorem registry_ne (h : GenPages os base block m₀ s L) :
    s.ctx.registryMap ≠ stateMap os block := by
  rcases h.live with ⟨es, hlive⟩
  rw [← h.stateMap_eq]
  exact (hlive.inv.registry_ne (hlive.mem_map
    (List.mem_append_right L List.mem_cons_self)))

/-- A block in the hands of the tower has another mapping than the state block. -/
theorem map_ne (h : GenPages os base block m₀ s L) {b : Block} (hb : b ∈ L) :
    pageMap s.ctx b ≠ stateMap os block := by
  rcases h.live with ⟨es, hlive⟩
  rw [← h.stateMap_eq]
  intro heq
  have hapart := (List.pairwise_append.mp hlive.disjoint).right.right b hb _
    List.mem_cons_self
  have hpos := (hlive.wellFormed b (List.mem_append_left _ hb)).right.left
  have hstate : 0 < sizeofGenState := by decide
  have hptr : b.ptr = block := congrArg Block.ptr heq
  exact hapart.ptr_ne hpos hstate hptr

theorem alloc (h : GenPages os base block m₀ s L) {n p : Nat} (hn : n < 2 ^ 64)
    (hcall : pageAllocFn os n s = (p, s')) :
    KeepsBytes (L ++ [⟨block, sizeofGenState⟩]) s.mem s'.mem ∧
      (p = NULL ∧ GenPages os base block m₀ s' L ∨
        p ≠ NULL ∧ GenPages os base block m₀ s' (⟨p, n⟩ :: L)) := by
  rcases h.live with ⟨es, hlive⟩
  have hspares : Spared (stateMap os block) s.mem (pageAllocFn os n s).2.mem :=
    pageAllocFn_spares hlive.inv h.registry_ne n
  rw [hcall] at hspares
  rcases hlive.alloc hn hcall with ⟨hstep, hcase⟩
  refine ⟨hstep.keeps, ?_⟩
  rcases hcase with ⟨hnull, h'⟩ | ⟨hne, h'⟩
  · exact Or.inl ⟨hnull, h.step hstep hspares ⟨es, h'⟩⟩
  · exact Or.inr ⟨hne, h.step hstep hspares ⟨_, h'⟩⟩

theorem free (h : GenPages os base block m₀ s L) {b : Block} (hb : b ∈ L) :
    KeepsBytes (L.erase b ++ [⟨block, sizeofGenState⟩]) s.mem
        (pageFreeFn b.ptr b.size s).mem ∧
      GenPages os base block m₀ (pageFreeFn b.ptr b.size s) (L.erase b) := by
  rcases h.live with ⟨es, hlive⟩
  have hspares : Spared (stateMap os block) s.mem (pageFreeFn b.ptr b.size s).mem :=
    pageFreeFn_spares (h.map_ne hb)
  rcases hlive.free (List.mem_append_left _ hb) with ⟨hstep, _, es', h'⟩
  rw [List.erase_append_left _ hb] at hstep h'
  exact ⟨hstep.keeps, h.step hstep hspares ⟨es', h'⟩⟩

theorem realloc (h : GenPages os base block m₀ s L) {b : Block} (hb : b ∈ L)
    {n p : Nat} (hpos : n ≠ 0) (hn : n < 2 ^ 64)
    (hcall : pageReallocFn os b.ptr b.size n s = (p, s')) :
    KeepsBytes (L.erase b ++ [⟨block, sizeofGenState⟩]) s.mem s'.mem ∧
      (p = NULL ∧ GenPages os base block m₀ s' L ∧ s'.mem.bytes = s.mem.bytes ∨
        p ≠ NULL ∧ KeepsPrefix b.ptr p (min b.size n) s.mem s'.mem ∧
          GenPages os base block m₀ s' (⟨p, n⟩ :: L.erase b)) := by
  rcases h.live with ⟨es, hlive⟩
  have hspares : Spared (stateMap os block) s.mem
      (pageReallocFn os b.ptr b.size n s).2.mem :=
    pageReallocFn_spares hlive.inv h.registry_ne (h.map_ne hb) n
  rw [hcall] at hspares
  rcases hlive.realloc (List.mem_append_left _ hb) hpos hn hcall with
    ⟨hstep, _, hcase⟩
  rw [List.erase_append_left _ hb] at hstep hcase
  refine ⟨hstep.keeps, ?_⟩
  rcases hcase with ⟨hnull, h', hbytes⟩ | ⟨hne, hprefix, es', h'⟩
  · exact Or.inl ⟨hnull, h.step hstep hspares ⟨es, h'⟩, hbytes⟩
  · exact Or.inr ⟨hne, hprefix, h.step hstep hspares ⟨es', h'⟩⟩

theorem store (h : GenPages os base block m₀ s L) {P : Nat -> Nat -> Prop} {m : Mem}
    (hw : Wrote P s.mem m)
    (hP : forall x n, P x n -> forall y, x ≤ y -> y < x + n ->
      ¬ s.ctx.registryMap.Contains y) :
    GenPages os base block m₀ { s with mem := m } L where
  self := h.self
  pageSize := h.pageSize
  live := by
    rcases h.live with ⟨es, hlive⟩
    exact ⟨es, hlive.store hw hP⟩
  traced := by
    refine h.traced.trans (Traced.and (Traced.of_wrote hw ?_) (Spared.of_wrote hw))
    intro _ e he
    cases e with
    | remap _ _ _ _ => exact absurd he not_false
    | unmap _ _ => exact absurd he not_false
    | _ => trivial

end GenPages

/-- The contract of the page allocator with the tower. -/
def genPages (os : Os) (base : List Block) (block : Nat) (m₀ : Mem) :
    Contract (pageAllo os) where
  Inv := GenPages os base block m₀
  own := fun s x => s.ctx.registryMap.Contains x
  wellFormed := by
    intro s L h b hb
    rcases h.live with ⟨es, hlive⟩
    exact hlive.wellFormed b (List.mem_append_left _ hb)
  disjoint := by
    intro s L h
    rcases h.live with ⟨es, hlive⟩
    exact (List.pairwise_append.mp hlive.disjoint).left
  own_apart := by
    intro s L b x h hb hx
    rcases h.live with ⟨es, hlive⟩
    exact hlive.registry_apart (List.mem_append_left _ hb) hx
  alloc := by
    intro s L n h hn
    rcases hcall : pageAllocFn os n s with ⟨p, s'⟩
    rcases h.alloc hn hcall with ⟨hkeeps, hcase⟩
    refine ⟨p, s', congrArg some hcall, ?_, hcase⟩
    exact hkeeps.subset (fun _ hb => List.mem_append_left _ hb)
  store := fun h hw hP => ⟨h.store hw hP, fun _ hy => hy⟩
  free := by
    intro s L b h hb
    rcases h.free hb with ⟨hkeeps, h'⟩
    refine ⟨_, rfl, ?_, h'⟩
    exact hkeeps.subset (fun _ hb => List.mem_append_left _ hb)

end Liballo
