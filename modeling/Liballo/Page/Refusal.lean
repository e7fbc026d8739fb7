import Liballo.Page.Exactness

/-!
# Refused requests of the page allocator

A request that the page allocator refuses leaves the registered mappings and their
contents as they were. At most the registry has moved and has room for more entries.
-/

namespace Liballo

open Foundation

/-- Before and after a refused request the mappings `es` are registered. -/
structure PageRefused (base : List Block) (s s' : PageState) (es : List Block) :
    Prop where
  self : s'.self = s.self
  pageSize : s'.ctx.pageSize = s.ctx.pageSize
  capacity : s.ctx.capacity ≤ s'.ctx.capacity
  before : PageInv base s.ctx s.mem es
  after : PageInv base s'.ctx s'.mem es
  keeps : KeepsBytes es s.mem s'.mem

section Refusal

variable {base es L : List Block} {s s' : PageState} {os : Os} {n : Nat}

theorem registryEnsureCapacity_capacity (h : PageInv base s.ctx s.mem es) {ok : Bool}
    (hcall : registryEnsureCapacity os s = (ok, s')) :
    s.ctx.capacity ≤ s'.ctx.capacity := by
  unfold registryEnsureCapacity at hcall
  dsimp only at hcall
  split at hcall
  · have htouch := h.touch
    rw [htouch.old_size] at hcall
    rcases alloOsMremap_cases os s.touch.ctx.registry
      (s.touch.ctx.capacity * sizeofPageEntry)
      (sizeAdd (s.touch.ctx.capacity * sizeofPageEntry) s.touch.ctx.pageSize)
      s.touch.mem with hrefused | ⟨a, m, hgranted, hne, hgrant, _, _, _⟩
    · rw [hrefused] at hcall
      dsimp only at hcall
      rw [if_pos rfl] at hcall
      cases hcall
      exact Nat.le_refl _
    · rw [hgranted] at hcall
      dsimp only at hcall
      rw [if_neg hne, htouch.new_size hgrant.left.right.left] at hcall
      cases hcall
      show s.ctx.capacity ≤
        (s.ctx.capacity * sizeofPageEntry + s.ctx.pageSize) / sizeofPageEntry
      have hback : s.ctx.capacity * sizeofPageEntry / sizeofPageEntry =
          s.ctx.capacity := Nat.mul_div_cancel _ (by decide)
      calc s.ctx.capacity
          = s.ctx.capacity * sizeofPageEntry / sizeofPageEntry := hback.symm
        _ ≤ (s.ctx.capacity * sizeofPageEntry + s.ctx.pageSize) / sizeofPageEntry :=
            Nat.div_le_div_right (Nat.le_add_right _ _)
  · cases hcall
    exact Nat.le_refl _

theorem pageAllocFn_capacity (h : PageInv base s.ctx s.mem es) {p : Nat}
    (hcall : pageAllocFn os n s = (p, s')) : s.ctx.capacity ≤ s'.ctx.capacity := by
  unfold pageAllocFn at hcall
  split at hcall
  · cases hcall
    exact Nat.le_refl _
  · rcases hens : registryEnsureCapacity os s with ⟨ok, t⟩
    have hle := registryEnsureCapacity_capacity h hens
    rw [hens] at hcall
    dsimp only at hcall
    split at hcall
    · cases hcall
      exact hle
    · split at hcall
      · cases hcall
        exact hle
      · cases hcall
        exact hle

theorem pageAllocFn_refused (h : PageInv base s.ctx s.mem es) (hn : n < 2 ^ 64)
    (hcall : pageAllocFn os n s = (NULL, s')) : PageRefused base s s' es := by
  rcases pageAllocFn_spec h hn hcall with ⟨hstep, hcase⟩
  rcases hcase with ⟨_, hinv⟩ | ⟨hno, _⟩
  · exact
      { self := hstep.self
        pageSize := hstep.pageSize
        capacity := pageAllocFn_capacity h hcall
        before := h
        after := hinv
        keeps := hstep.keeps }
  · exact absurd rfl hno

theorem pageReallocFn_refused (h : PageLive base s L es) {b : Block} (hb : b ∈ L)
    (hn : n < 2 ^ 64) (hcall : pageReallocFn os b.ptr b.size n s = (NULL, s')) :
    PageRefused base s s' es ∧ s'.ctx = s.ctx := by
  rcases pageReallocFn_spec h.inv (h.mem_map hb) rfl hn hcall with
    ⟨hstep, hctx, hcase⟩
  rcases hcase with ⟨_, hinv, hbytes⟩ | ⟨hno, _⟩
  · refine ⟨?_, hctx⟩
    exact
      { self := hstep.self
        pageSize := hstep.pageSize
        capacity := Nat.le_of_eq (congrArg PageContext.capacity hctx.symm)
        before := h.inv
        after := hinv
        keeps := fun _ _ x _ => congrFun hbytes x }
  · exact absurd rfl hno

/-- The blocks of the users are held as before. -/
theorem PageRefused.live (h : PageRefused base s s' es) (hlive : PageLive base s L es) :
    PageLive base s' L es :=
  { inv := h.after
    listed := by
      rw [pageMap_congr h.pageSize]
      exact hlive.listed
    fits := hlive.congr_fits h.pageSize (fun _ hb => hb) }

end Refusal

end Liballo
