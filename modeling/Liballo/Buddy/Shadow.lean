import Liballo.Buddy.Service
import Liballo.Sanitizer

/-!
# The buddy allocator is sanitized

The marks in the buffer are exact from the moment it is made, whatever its child left
there. A reallocation copies from one open block into another.
-/

namespace Liballo

open Foundation

/-- The live blocks and the headers of the free ones are what is open in the buffer. -/
def BuddyShadow {χ : Type} [HasMem χ] (s : BuddyState χ) (L : List Block) : Prop :=
  exists depth fl, BuddyLive True depth s fl L

section Sanitized

variable {χ : Type} [HasMem χ] {a : Allo χ} {depth : Nat} {s : BuddyState χ}
variable {fl : Nat -> List Nat} {L base : List Block}

theorem BuddyLive.opens (h : BuddyLive True depth s fl L) : AllOpen L (mem s) := by
  intro b hb x hx
  have hnode := (h.block_inside hb).contains hx
  have hregion := h.region_contains hb hx
  exact (h.inv.shadow trivial x hregion).mpr (Or.inl ⟨_, List.mem_map_of_mem hb, hnode⟩)

theorem BuddyMoved.opens {P : Nat -> Nat -> Prop} {s' : BuddyState χ}
    (h : BuddyMoved True P s s') : Traced HeaderOpen (mem s) (mem s') :=
  h.traced.mono (fun _ _ => headerOpen_of_buddyEvent)

theorem buddySanitized (A : Lawful a) (base : List Block) :
    (buddyLawful A base).service.Sanitized BuddyShadow where
  opens := by
    rintro s L _ ⟨depth, fl, hlive⟩
    exact hlive.opens
  perm := by
    rintro s L M ⟨depth, fl, hlive⟩ hperm
    exact ⟨depth, fl, hlive.perm hperm⟩
  alloc := by
    rintro s s' L n p _ ⟨depth, fl, hlive⟩ hn hcall
    rcases hlive.alloc hn with ⟨q, t, hcall', _, hcase⟩
    have hanswer : buddyAllocFn n s = (p, s') := Option.some.inj hcall
    cases hanswer.symm.trans hcall'
    rcases hcase with ⟨hnull, hrefused, hlive'⟩ | ⟨hne, fl', hlive', hmoved⟩
    · rw [if_pos hnull]
      exact ⟨hrefused.moved.opens, depth, fl, hlive'⟩
    · rw [if_neg hne]
      exact ⟨hmoved.opens, depth, fl', hlive'⟩
  free := by
    rintro s s' L b _ ⟨depth, fl, hlive⟩ hb hcall
    rcases hlive.free hb with ⟨t, fl', hcall', hlive', _, hmoved⟩
    cases hcall.symm.trans hcall'
    exact ⟨hmoved.opens, depth, fl', hlive'⟩
  freeNull := by
    intro s s' L n _ hshadow hcall
    cases hcall
    exact ⟨Traced.refl _ _, hshadow⟩
  realloc := by
    rintro s s' L b n p _ ⟨depth, fl, hlive⟩ hb hpos hn hcall
    rcases hlive.realloc hb hpos hn with ⟨q, t, hcall', hcase⟩
    cases hcall.symm.trans hcall'
    rcases hcase with ⟨hnull, hrefused, hlive'⟩ | ⟨fl', hdone⟩
    · rw [if_pos hnull]
      exact ⟨hrefused.moved.opens, depth, fl, hlive'⟩
    · rw [if_neg hdone.ptr_ne]
      exact ⟨hdone.moved.opens, depth, fl', hdone.inv⟩
  store := by
    rintro s L P m _ ⟨depth, fl, hlive⟩ hw hP heq
    exact ⟨depth, fl, hlive.store_inside hw hP (fun _ => heq)⟩

/-- A buddy allocator that was just made. -/
theorem buddyShadow_of_make {C : Contract a} {out size : Nat} {w : χ} {base : List Block}
    {st : BuddyState χ} (hchild : C.Inv w base)
    (hmake : makeBuddyAllocator out (some a) NULL size w = some (Made.ok st)) :
    BuddyShadow st [] := by
  rcases makeBuddyAllocator_ok hchild hmake with ⟨t, rfl, hmade⟩
  rcases hmade.fresh (fun hne => absurd rfl hne) with ⟨depth, hfresh⟩
  exact ⟨depth, rootLists, (buddyStart_spec hfresh).left⟩

end Sanitized

end Liballo
