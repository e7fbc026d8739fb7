import Liballo.Buddy.Tiling

/-!
# Balance with the child

A recording child keeps the blocks it handed out and those it got back. A failed
constructor gave back all it obtained, and destroying an allocator after any run gives
back exactly what the constructor obtained, each block once and with its size.
-/

namespace Liballo

open Foundation

section Recording

variable {χ : Type} [HasMem χ] {a : Allo χ}

/-!
# What the recording child keeps
-/

end Recording

/-!
# What the child sees of a run
-/

section Child

variable {χ : Type} [HasMem χ] {a : Allo χ}

/-- While the blocks `base` are out, the child keeps no state of its own in `b`. -/
def Contract.KeepsOff (C : Contract a) (base : List Block) (b : Block) : Prop :=
  forall w L, C.Inv w L -> base ⊆ L -> forall x, b.Contains x -> ¬ C.own w x

variable {C : Contract a} {base : List Block} {buffer size : Nat}
variable {t s : BuddyState χ}

theorem BuddyMade.region_kept_off (h : BuddyMade C base buffer size t)
    (hbuffer : buffer ≠ NULL -> C.KeepsOff base t.ctx.region) {x : Nat}
    (hx : t.ctx.region.Contains x) : ¬ C.own t.child x := by
  by_cases hnull : buffer = NULL
  · have hown : t.ctx.ownBuffer = true := by
      rw [h.shape.own]
      exact decide_eq_true hnull
    have hmem : t.ctx.region ∈ t.ctx.ownBlocks := by
      unfold BuddyContext.ownBlocks
      rw [if_pos hown]
      exact List.mem_cons_self
    exact C.own_apart h.blocks
      (List.mem_append_right _ (List.mem_append_left _ hmem)) hx
  · refine hbuffer hnull t.child _ h.blocks ?_ x hx
    intro b hb
    exact List.mem_append_right _ (List.mem_append_right _ hb)

/-- Writing inside the managed buffer leaves the child as the constructor left it. -/
theorem BuddyMade.child_kept (h : BuddyMade C base buffer size t)
    (hbuffer : buffer ≠ NULL -> C.KeepsOff base t.ctx.region) {asan : Prop}
    (hmoved : BuddyMoved asan (fun x n => Block.Inside ⟨x, n⟩ t.ctx.region) t s) :
    C.Inv s.child (s.ctx.tables ++ (s.ctx.ownBlocks ++ base)) := by
  have hblocks : C.Inv s.child (t.ctx.tables ++ (t.ctx.ownBlocks ++ base)) := by
    rw [hmoved.child]
    refine (C.store h.blocks hmoved.wrote ?_).left
    intro x n hinside y hle hlt
    exact h.region_kept_off hbuffer (hinside.contains ⟨hle, hlt⟩)
  rcases hmoved.ctx with ⟨f, b, o, hctx⟩
  rw [hctx]
  exact hblocks

theorem BuddyMade.child_after_run {depth : Nat} {fl : Nat -> List Nat}
    {s : Session (BuddyState χ)} (h : BuddyMade C base buffer size t)
    (hbuffer : buffer ≠ NULL -> C.KeepsOff base t.ctx.region)
    (hfresh : BuddyFresh depth t.ctx) (hrun : BuddyRun depth (buddyStart t) s fl) :
    C.Inv s.state.child
      (s.state.ctx.tables ++ (s.state.ctx.ownBlocks ++ base)) := by
  have hboth : BuddyLive True depth (buddyStart t) rootLists [] ∧
      BuddyMoved False (HeaderOf t.ctx {Node.root}) t (buddyStart t) :=
    buddyStart_spec hfresh
  have hroot : forall x n, HeaderOf t.ctx {Node.root} x n ->
      Block.Inside ⟨x, n⟩ t.ctx.region := by
    intro x n hx
    rcases hx with ⟨k, rfl, hinside⟩
    have hvalid : Node.root.Valid depth := ⟨Nat.zero_le depth, Nat.one_pos⟩
    exact (hinside.trans (hfresh.geom.header_inside hvalid)).trans
      (hfresh.geom.nodeBlock_inside hvalid)
  exact h.child_kept hbuffer ((hboth.right.mono hroot).trans hrun.moved.without_asan)

end Child

/-!
# Runs
-/

section Balance

variable {χ : Type} [HasMem χ] {a : Allo χ}

end Balance

end Liballo
