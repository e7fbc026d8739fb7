import Liballo.Buddy.Balance
import Liballo.Service

/-!
# The buddy allocator as a service

A buddy allocator whose buffer comes from its child. It may in turn be the child of
another allocator: what it keeps for itself are the tables and the headers of the free
blocks, which are the members of the free lists in memory.
-/

namespace Liballo

open Foundation

variable {χ : Type} [HasMem χ] {a : Allo χ}

/-- The bytes of the headers that the free lists lead to. -/
def BuddyState.Headers (s : BuddyState χ) (x : Nat) : Prop :=
  exists level nodes node,
    Chain (BuddyNode.next (mem s)) (s.ctx.freeLists level) nodes ∧ node ∈ nodes ∧
      Block.Contains ⟨node, sizeofBuddyNode⟩ x

section Headers

variable {asan : Prop} {depth : Nat} {s : BuddyState χ} {fl : Nat -> List Nat}
variable {live : List Block}

/-- The lists in memory lead to the headers of the free nodes and to nothing else. -/
theorem BuddyLive.headers_iff (h : BuddyLive asan depth s fl live) (x : Nat) :
    s.Headers x <-> exists k, k ∈ FreeNodes fl ∧ (s.ctx.header k).Contains x := by
  constructor
  · rintro ⟨level, nodes, node, hchain, hnode, hx⟩
    have hlist : nodes = levelAddrs s.ctx fl level :=
      hchain.unique (h.inv.lists level).chain
    rw [hlist] at hnode
    rcases mem_levelAddrs.mp hnode with ⟨k, hk, _, haddr⟩
    refine ⟨k, hk, ?_⟩
    rw [← haddr] at hx
    exact hx
  · rintro ⟨k, hk, hx⟩
    exact ⟨k.level, _, s.ctx.nodeAddr k, (h.inv.lists k.level).chain,
      mem_levelAddrs.mpr ⟨k, hk, rfl, rfl⟩, hx⟩

/-- Only the headers of the free blocks have to stay. -/
theorem BuddyLive.headers_congr (h : BuddyLive False depth s fl live) {w : χ}
    (hbytes : forall x, s.Headers x -> (mem w).bytes x = (mem s).bytes x) :
    BuddyLive False depth { s with child := w } fl live := by
  have hword : forall k, k ∈ FreeNodes fl -> forall c, s.ctx.nodeAddr k ≤ c ->
      c + 8 ≤ s.ctx.nodeAddr k + 16 -> (mem w).word c = (mem s).word c := by
    intro k hk c hle hend
    apply Mem.word_congr
    intro x hx hlt
    apply hbytes
    refine (h.headers_iff x).mpr ⟨k, hk, Nat.le_trans hle hx, ?_⟩
    simp only [Block.stop, BuddyContext.header, sizeofBuddyNode]
    omega
  exact
    { inv :=
        { geom := h.inv.geom
          lists := h.inv.lists.congr (fun _ => rfl) rfl
            (fun k hk => hword k hk _ (Nat.le_refl _) (by omega))
            (fun k hk => hword k hk _ (by omega) (by omega))
          tiled := h.inv.tiled
          marked := h.inv.marked
          bits := h.inv.bits
          shadow := fun hno => absurd hno not_false }
      fits := h.fits }

end Headers

/-- The live blocks `L` lie in a buffer that the child provided together with the tables;
the child has handed out the blocks `base` to others. -/
structure BuddyServes (C : Contract a) (base : List Block) (s : BuddyState χ)
    (L : List Block) : Prop where
  live : exists depth fl, BuddyLive False depth s fl L
  own : s.ctx.ownBuffer = true
  child : C.Inv s.child (s.ctx.tables ++ (s.ctx.ownBlocks ++ base))

/-- What must not be stored to. -/
def BuddyOwn (C : Contract a) (s : BuddyState χ) (x : Nat) : Prop :=
  C.own s.child x ∨ Covered s.ctx.tables x ∨ s.Headers x

namespace BuddyServes

variable {C : Contract a} {base L : List Block} {s s' : BuddyState χ} {b : Block} {n : Nat}

theorem region_mem (h : BuddyServes C base s L) :
    s.ctx.region ∈ s.ctx.tables ++ (s.ctx.ownBlocks ++ base) := by
  apply List.mem_append_right
  apply List.mem_append_left
  rw [BuddyContext.ownBlocks, if_pos h.own]
  exact List.mem_cons_self

/-- Steps that write inside the buffer are invisible to the child. -/
theorem child_moved (h : BuddyServes C base s L) {asan : Prop} {P : Nat -> Nat -> Prop}
    (hmoved : BuddyMoved asan P s s')
    (hP : forall x k, P x k -> Block.Inside ⟨x, k⟩ s.ctx.region) :
    s'.ctx.ownBuffer = true ∧
      C.Inv s'.child (s'.ctx.tables ++ (s'.ctx.ownBlocks ++ base)) := by
  have hchild : C.Inv s'.child (s.ctx.tables ++ (s.ctx.ownBlocks ++ base)) := by
    rw [hmoved.child]
    apply (C.store_inside h.child hmoved.wrote _).left
    exact fun x k hxk => ⟨s.ctx.region, h.region_mem, hP x k hxk⟩
  rcases hmoved.ctx with ⟨f, o, t, hctx⟩
  rw [hctx]
  exact ⟨h.own, hchild⟩

theorem moved (h : BuddyServes C base s L) {asan : Prop} {P : Nat -> Nat -> Prop}
    {depth : Nat} {fl : Nat -> List Nat} {M : List Block}
    (hmoved : BuddyMoved asan P s s')
    (hP : forall x k, P x k -> Block.Inside ⟨x, k⟩ s.ctx.region)
    (hlive : BuddyLive False depth s' fl M) : BuddyServes C base s' M where
  live := ⟨depth, fl, hlive⟩
  own := (h.child_moved hmoved hP).left
  child := (h.child_moved hmoved hP).right

theorem wellFormed (h : BuddyServes C base s L) : AllWellFormed L := by
  rcases h.live with ⟨depth, fl, hlive⟩
  exact hlive.wellFormed

theorem perm (h : BuddyServes C base s L) {M : List Block} (hperm : L.Perm M) :
    BuddyServes C base s M := by
  rcases h.live with ⟨depth, fl, hlive⟩
  exact ⟨⟨depth, fl, hlive.perm hperm⟩, h.own, h.child⟩

theorem alloc (h : BuddyServes C base s L) (hn : n < 2 ^ 64) :
    exists p s', alloAlloc (buddyAllo a) n s = some (p, s') ∧
      KeepsBytes L (mem s) (mem s') ∧
        (p = NULL ∧ BuddyServes C base s' L ∨
          p ≠ NULL ∧ BuddyServes C base s' (⟨p, n⟩ :: L)) := by
  rcases h.live with ⟨depth, fl, hlive⟩
  rcases hlive.alloc hn with ⟨p, s', hcall, hkeeps, hcase⟩
  refine ⟨p, s', congrArg some hcall, hkeeps, ?_⟩
  rcases hcase with ⟨hnull, hrefused, hlive'⟩ | ⟨hne, fl', hlive', hmoved⟩
  · exact Or.inl ⟨hnull, h.moved hrefused.moved (fun _ _ hno => hno.elim) hlive'⟩
  · exact Or.inr ⟨hne, h.moved hmoved (fun _ _ hx => hlive.headers_inside hlive' hx) hlive'⟩

theorem free (h : BuddyServes C base s L) (hb : b ∈ L) :
    exists s', alloFree (buddyAllo a) b.ptr b.size s = some s' ∧
      KeepsBytes (L.erase b) (mem s) (mem s') ∧ BuddyServes C base s' (L.erase b) := by
  rcases h.live with ⟨depth, fl, hlive⟩
  rcases hlive.free hb with ⟨s', fl', hcall, hlive', hkeeps, hmoved⟩
  refine ⟨s', hcall, hkeeps, ?_⟩
  exact h.moved hmoved (fun _ _ hx => hlive.headers_inside hlive' hx) hlive'

/-- The copy of a moved block goes into the new block, which lies in the buffer. -/
theorem realloc (h : BuddyServes C base s L) (hb : b ∈ L) (hpos : n ≠ 0)
    (hn : n < 2 ^ 64) :
    exists p s', (buddyAllo a).realloc b.ptr b.size n s = some (p, s') ∧
      Reallocated (BuddyServes C base) s L b n p s' := by
  rcases h.live with ⟨depth, fl, hlive⟩
  rcases hlive.realloc hb hpos hn with ⟨p, s', hcall, hcase⟩
  refine ⟨p, s', hcall, ?_⟩
  rcases hcase with ⟨hnull, hrefused, hlive'⟩ | ⟨fl', hdone⟩
  · refine Or.inl ⟨hnull, h.moved hrefused.moved (fun _ _ hno => hno.elim) hlive', ?_⟩
    exact fun c _ x _ => congrFun hrefused.bytes x
  · refine Or.inr ⟨hdone.ptr_ne, ?_, hdone.others, hdone.kept⟩
    apply h.moved hdone.moved _ hdone.inv
    rintro x k (hx | ⟨rfl, rfl⟩)
    · rcases hx with ⟨node, hnode, hinside⟩
      have hvalid : node.Valid depth := by
        rcases hnode with hnode | hnode
        · exact hlive.inv.tiled.free_valid node hnode
        · exact (hdone.inv.tiled_moved hdone.moved).free_valid node hnode
      exact (hinside.trans (hlive.inv.geom.header_inside hvalid)).trans
        (hlive.inv.geom.nodeBlock_inside hvalid)
    · have hnew : Block.Inside ⟨x, n⟩ s'.ctx.region :=
        hdone.inv.inside_region List.mem_cons_self
      rw [hdone.moved.region] at hnew
      have hpart : Block.Inside ⟨x, min b.size n⟩ ⟨x, n⟩ :=
        ⟨Nat.le_refl _, Nat.add_le_add_left (Nat.min_le_right _ _) x⟩
      exact hpart.trans hnew

/-- The live blocks are apart from all that the allocator keeps for itself. -/
theorem own_apart (h : BuddyServes C base s L) (hb : b ∈ L) {x : Nat}
    (hx : b.Contains x) : ¬ BuddyOwn C s x := by
  rcases h.live with ⟨depth, fl, hlive⟩
  have hregion : s.ctx.region.Contains x := hlive.region_contains hb hx
  rintro (hchild | ⟨t, ht, htx⟩ | hheader)
  · exact C.own_apart h.child h.region_mem hregion hchild
  · have hlists := List.pairwise_append.mp (C.disjoint h.child)
    have hregion' : s.ctx.region ∈ s.ctx.ownBlocks ++ base := by
      apply List.mem_append_left
      rw [BuddyContext.ownBlocks, if_pos h.own]
      exact List.mem_cons_self
    exact (hlists.right.right t ht _ hregion').not_contains htx hregion
  · rcases (hlive.headers_iff x).mp hheader with ⟨k, hk, hkx⟩
    have hheader : HeaderOf s.ctx (FreeNodes fl) (s.ctx.header k).ptr
        (s.ctx.header k).size := ⟨k, hk, Nat.le_refl _, Nat.le_refl _⟩
    exact (hlive.header_apart hb hheader).not_contains hx hkx

/-- A store that avoids what the allocator keeps for itself. -/
theorem store (h : BuddyServes C base s L) {P : Nat -> Nat -> Prop} {m : Mem}
    (hw : Wrote P (mem s) m)
    (hP : forall x k, P x k -> forall y, x ≤ y -> y < x + k -> ¬ BuddyOwn C s y) :
    BuddyServes C base (setMem m s) L ∧
      forall y, BuddyOwn C (setMem m s) y -> BuddyOwn C s y := by
  rcases h.live with ⟨depth, fl, hlive⟩
  have hstored := C.store h.child hw
    (fun x k hxk y hle hlt hown => hP x k hxk y hle hlt (Or.inl hown))
  have hlive' : BuddyLive False depth (setMem m s) fl L := by
    apply hlive.headers_congr
    intro x hx
    rw [HasMem.mem_setMem]
    apply hw.bytes
    rintro c k hck ⟨hle, hlt⟩
    exact hP c k hck x hle hlt (Or.inr (Or.inr hx))
  refine ⟨⟨⟨depth, fl, hlive'⟩, h.own, hstored.left⟩, ?_⟩
  rintro y (hchild | htable | hheader)
  · exact Or.inl (hstored.right y hchild)
  · exact Or.inr (Or.inl htable)
  · exact Or.inr (Or.inr ((hlive.headers_iff y).mpr ((hlive'.headers_iff y).mp hheader)))

end BuddyServes

/-- Blocks start at multiples of their sizes in an aligned buffer. -/
theorem BuddyServes.aligned {A : Lawful a} {base L : List Block} {s : BuddyState χ}
    {b : Block} (h : BuddyServes A.toContract base s L) (hb : b ∈ L) : 8 ∣ b.ptr := by
  rcases h.live with ⟨depth, fl, hlive⟩
  have hbuffer : 8 ∣ s.ctx.buffer := A.aligned h.child h.region_mem
  have hlevel : (s.ctx.blockNode b).level ≤ depth := (hlive.node_valid hb).left
  have horder := hlive.inv.geom.maxOrder
  have hpow : 2 ^ 3 ∣ 2 ^ (s.ctx.maxOrder - (s.ctx.blockNode b).level) :=
    Nat.pow_dvd_pow 2 (by omega)
  rw [← (hlive.fits b hb).addr]
  exact Nat.dvd_add hbuffer (Nat.dvd_trans hpow (Nat.dvd_mul_left _ _))

/-- When a buddy allocator is destroyed, its child has what it provided back. -/
def buddyLawful (A : Lawful a) (base : List Block) : Lawful (buddyAllo a) where
  Inv := BuddyServes A.toContract base
  own := BuddyOwn A.toContract
  wellFormed := fun h => h.wellFormed
  disjoint := fun h => h.live.choose_spec.choose_spec.disjoint
  own_apart := fun h hb hx => h.own_apart hb hx
  alloc := fun h hn => h.alloc hn
  store := fun h hw hP => h.store hw hP
  free := fun h hb => h.free hb
  Closed := fun s _ => A.Inv s.child base
  aligned := fun h hb => h.aligned hb
  perm := fun h hperm => h.perm hperm
  freeNull := fun _ h => ⟨_, rfl, KeepsBytes.refl _ _, h⟩
  realloc := fun h hb hpos _ hn => h.realloc hb hpos hn
  destroy := fun h => buddyDestroyFn_spec h.child

/-- A buddy allocator that was made over a child is such a service. -/
theorem buddyServes_of_make {C : Contract a} {out size : Nat} {w : χ} {base : List Block}
    {st : BuddyState χ} (hchild : C.Inv w base)
    (hmake : makeBuddyAllocator out (some a) NULL size w = some (Made.ok st)) :
    BuddyServes C base st [] := by
  rcases makeBuddyAllocator_ok hchild hmake with ⟨t, rfl, hmade⟩
  rcases hmade.fresh (fun hne => absurd rfl hne) with ⟨depth, hfresh⟩
  have hlive : BuddyLive True depth (buddyStart t) rootLists [] ∧
      BuddyMoved False (HeaderOf t.ctx {Node.root}) t (buddyStart t) :=
    buddyStart_spec hfresh
  have hrun : BuddyRun depth (buddyStart t) (Session.start (buddyStart t)) rootLists :=
    ⟨hlive.left, BuddyMoved.refl _ _⟩
  have hlive' : BuddyLive False depth (buddyStart t) rootLists [] :=
    (buddyStart_spec hfresh).left
  rcases hlive.right.ctx with ⟨f, o, b, hctx⟩
  refine ⟨⟨depth, rootLists, hlive'⟩, ?_, ?_⟩
  · rw [hctx]
    exact hmade.shape.own
  · exact hmade.child_after_run (fun hne => absurd rfl hne) hfresh hrun

end Liballo
