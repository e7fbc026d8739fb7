import Liballo.Page.Service
import Liballo.Sanitizer

/-!
# The shadow memory of the page allocator

A mapping is a whole number of pages, and what the client did not ask for is poisoned.
Nothing else is, whatever was mapped, moved and unmapped before.
-/

namespace Liballo

open Foundation

/-- The end of the mapping of `b` that the client did not ask for. -/
def pageSlack (c : PageContext) (b : Block) : Block :=
  ⟨b.stop, pageRound c b.size - b.size⟩

/-- Exactly the ends of the mappings of `L` are poisoned. -/
def PageShadow (c : PageContext) (m : Mem) (L : List Block) : Prop :=
  forall x, poisoned m.trace x = true <-> exists b, b ∈ L ∧ (pageSlack c b).Contains x

/-!
# What the operations mark
-/

section Marks

variable {os : Os} {s s' : PageState} {n p ptr : Nat}

theorem poisoned_alloOsMmap (os : Os) (n : Nat) (m : Mem) :
    poisoned (alloOsMmap os n m).2.trace = poisoned m.trace := by
  rcases alloOsMmap_cases os n m with hrefused | ⟨a, m', hgranted, _, _, htrace, _⟩
  · rw [hrefused]
    rfl
  · rw [hgranted, htrace]
    rfl

theorem poisoned_alloOsMremap (os : Os) (old n n' : Nat) (m : Mem) :
    poisoned (alloOsMremap os old n n' m).2.trace = poisoned m.trace := by
  rcases alloOsMremap_cases os old n n' m with hrefused | ⟨a, m', hgranted, _, _, htrace, _⟩
  · rw [hrefused]
    rfl
  · rw [hgranted, htrace]
    rfl

theorem poisoned_registryEnsureCapacity (os : Os) (s : PageState) :
    poisoned (registryEnsureCapacity os s).2.mem.trace = poisoned s.mem.trace := by
  unfold registryEnsureCapacity
  dsimp only
  split
  · have hgrown := poisoned_alloOsMremap os s.touch.ctx.registry
      (sizeMul s.touch.ctx.capacity sizeofPageEntry)
      (sizeAdd (sizeMul s.touch.ctx.capacity sizeofPageEntry) s.touch.ctx.pageSize)
      s.touch.mem
    split
    · exact hgrown
    · exact hgrown
  · rfl

theorem poisoned_registryUpdate (addr newAddr size : Nat) (s : PageState) :
    poisoned (registryUpdate addr newAddr size s).mem.trace = poisoned s.mem.trace := by
  unfold registryUpdate
  dsimp only
  split
  · rfl
  · rfl

theorem poisoned_registryRemove (addr : Nat) (s : PageState) :
    poisoned (registryRemove addr s).mem.trace = poisoned s.mem.trace := by
  unfold registryRemove
  dsimp only
  split
  · rfl
  · rfl

theorem registryEnsureCapacity_pageSize (os : Os) (s : PageState) :
    (registryEnsureCapacity os s).2.ctx.pageSize = s.ctx.pageSize := by
  unfold registryEnsureCapacity
  dsimp only
  split
  · split
    · rfl
    · rfl
  · rfl

theorem pageRound_congr {c c' : PageContext} (h : c'.pageSize = c.pageSize) (n : Nat) :
    pageRound c' n = pageRound c n := by
  unfold pageRound
  rw [h]

/-- A new mapping is poisoned but for the bytes that were asked for. -/
theorem poisoned_pageAllocFn (hcall : pageAllocFn os n s = (p, s')) (x : Nat) :
    poisoned s'.mem.trace x =
      if p = NULL then poisoned s.mem.trace x
      else if Block.Contains ⟨p, n⟩ x then false
      else if Block.Contains ⟨p, pageRound s.ctx n⟩ x then true
      else poisoned s.mem.trace x := by
  have hgrown := poisoned_registryEnsureCapacity os s
  have hround := pageRound_congr (registryEnsureCapacity_pageSize os s) n
  unfold pageAllocFn at hcall
  split at hcall
  · cases hcall
    rw [if_pos rfl]
  · dsimp only at hcall
    generalize registryEnsureCapacity os s = grown at hcall hgrown hround
    rw [hround] at hcall
    have hmapped := poisoned_alloOsMmap os (pageRound s.ctx n) grown.2.mem
    split at hcall
    · cases hcall
      rw [if_pos rfl, hgrown]
    · split at hcall
      · cases hcall
        rw [if_pos rfl, hmapped, hgrown]
      · rename_i hne
        cases hcall
        rw [if_neg hne, ← hgrown, ← hmapped]
        rfl

theorem poisoned_pageFreeFn (hptr : ptr ≠ NULL) (x : Nat) :
    poisoned (pageFreeFn ptr n s).mem.trace x =
      if Block.Contains ⟨ptr, pageRound s.ctx n⟩ x then false
      else poisoned s.mem.trace x := by
  unfold pageFreeFn
  rw [if_neg hptr]
  dsimp only
  show poisoned (Event.unpoison ptr (pageRound s.ctx n) ::
    (registryRemove ptr s.touch).mem.trace) x = _
  rw [poisoned_unpoison, poisoned_registryRemove]
  rfl

/-- What a reallocation marks. A mapping that stays in place gets its new end, one that could
not be resized its old end again, and one that moved leaves nothing poisoned. -/
theorem poisoned_pageReallocFn (hptr : ptr ≠ NULL) {old : Nat}
    (hcall : pageReallocFn os ptr old n s = (p, s')) :
    (pageRound s.ctx old = pageRound s.ctx n ∧ p = ptr ∧
      forall x, poisoned s'.mem.trace x =
        if n > old then
          if Block.Contains ⟨sizeAdd ptr old, n - old⟩ x then false
          else poisoned s.mem.trace x
        else if Block.Contains ⟨sizeAdd ptr n, old - n⟩ x then true
        else poisoned s.mem.trace x) ∨
    (p = NULL ∧ forall x, poisoned s'.mem.trace x =
      if Block.Contains ⟨sizeAdd ptr old, sizeSub (pageRound s.ctx old) old⟩ x then true
      else if Block.Contains ⟨ptr, pageRound s.ctx old⟩ x then false
      else poisoned s.mem.trace x) ∨
    (p ≠ NULL ∧ forall x, poisoned s'.mem.trace x =
      if Block.Contains ⟨p, n⟩ x then false
      else if Block.Contains ⟨p, pageRound s.ctx n⟩ x then true
      else if Block.Contains ⟨ptr, pageRound s.ctx old⟩ x then false
      else poisoned s.mem.trace x) := by
  unfold pageReallocFn at hcall
  rw [if_neg hptr] at hcall
  dsimp only at hcall
  split at hcall
  · rename_i hround
    cases hcall
    refine Or.inl ⟨hround, rfl, fun x => ?_⟩
    dsimp only
    split
    · rfl
    · rfl
  · have hmoved := poisoned_alloOsMremap os ptr (pageRound s.touch.ctx old)
      (pageRound s.touch.ctx n)
      (s.touch.mem.note (Event.unpoison ptr (pageRound s.touch.ctx old)))
    have hopened : forall x, poisoned (s.touch.mem.note
        (Event.unpoison ptr (pageRound s.touch.ctx old))).trace x =
          if Block.Contains ⟨ptr, pageRound s.ctx old⟩ x then false
          else poisoned s.mem.trace x := fun x => rfl
    rw [← hmoved] at hopened
    split at hcall
    · cases hcall
      refine Or.inr (Or.inl ⟨rfl, fun x => ?_⟩)
      rw [← hopened x]
      rfl
    · rename_i hne
      cases hcall
      refine Or.inr (Or.inr ⟨hne, fun x => ?_⟩)
      rw [← hopened x]
      show poisoned (Event.unpoison _ _ :: Event.poison _ _ :: (registryUpdate _ _ _ _).mem.trace)
        x = _
      rw [poisoned_unpoison, poisoned_poison, poisoned_registryUpdate]
      rfl

end Marks

/-!
# The marks are exact
-/

section Exact

variable {base L K es es' : List Block} {s s' : PageState} {c : PageContext}
variable {os : Os} {b : Block} {m m' : Mem} {n p : Nat}

theorem pageSlack_inside (hfits : b.size ≤ pageRound c b.size) :
    (pageSlack c b).Inside (pageMap c b) := by
  constructor
  · exact Nat.le_add_right _ _
  · simp only [pageSlack, pageMap, Block.stop]
    omega

theorem pageSlack_congr (h : s'.ctx.pageSize = s.ctx.pageSize) (b : Block) :
    pageSlack s'.ctx b = pageSlack s.ctx b := by
  unfold pageSlack
  rw [pageRound_congr h]

/-- Mappings of different blocks are apart. -/
theorem PageLive.map_apart (h : PageLive base s (b :: K) es) {d : Block} (hd : d ∈ K) :
    (pageMap s.ctx b).Disjoint (pageMap s.ctx d) := by
  have hes : AllDisjoint es := (List.pairwise_cons.mp h.inv.holds.disjoint).right
  have hmaps := (allDisjoint_perm h.listed).mp hes
  rw [List.map_cons] at hmaps
  exact (List.pairwise_cons.mp hmaps).left _ (List.mem_map_of_mem hd)

/-- No mapping of another block has an end in the mapping of `b`. -/
theorem PageLive.no_slack (h : PageLive base s (b :: K) es) {x : Nat}
    (hx : (pageMap s.ctx b).Contains x) :
    ¬ exists d, d ∈ K ∧ (pageSlack s.ctx d).Contains x := by
  rintro ⟨d, hd, hin⟩
  have hfits := (h.fits d (List.mem_cons_of_mem b hd)).right
  exact (h.map_apart hd).not_contains hx ((pageSlack_inside hfits).contains hin)

namespace PageShadow

theorem perm (h : PageShadow c m L) (hperm : L.Perm K) : PageShadow c m K := by
  intro x
  rw [h x]
  simp only [hperm.mem_iff]

theorem congr (h : PageShadow s.ctx m L) (hpage : s'.ctx.pageSize = s.ctx.pageSize)
    (htrace : poisoned m'.trace = poisoned m.trace) : PageShadow s'.ctx m' L := by
  intro x
  rw [htrace, h x]
  simp only [pageSlack_congr hpage]

/-- Outside the mapping of `b` the other mappings decide. -/
theorem elsewhere (h : PageShadow s.ctx m (b :: K))
    (hfits : b.size ≤ pageRound s.ctx b.size) {x : Nat}
    (hx : ¬ (pageMap s.ctx b).Contains x) :
    poisoned m.trace x = true <-> exists d, d ∈ K ∧ (pageSlack s.ctx d).Contains x := by
  have hb : ¬ (pageSlack s.ctx b).Contains x :=
    fun hin => hx ((pageSlack_inside hfits).contains hin)
  rw [h x]
  simp only [List.mem_cons, exists_eq_or_imp, hb, false_or]

/-- In the mapping of `b` its end is poisoned. -/
theorem inside (h : PageShadow s.ctx m (b :: K)) (hlive : PageLive base s (b :: K) es)
    {x : Nat} (hx : (pageMap s.ctx b).Contains x) :
    poisoned m.trace x = true <-> b.stop ≤ x := by
  have hslack : (pageSlack s.ctx b).Contains x <-> b.stop ≤ x := by
    simp only [pageMap, pageSlack, Block.Contains, Block.stop] at hx ⊢
    omega
  rw [h x]
  simp only [List.mem_cons, exists_eq_or_imp, hslack]
  exact ⟨fun h => h.resolve_right (hlive.no_slack hx), Or.inl⟩

/-- A mapping whose end is poisoned, among others. -/
theorem cons (hlive : PageLive base s (b :: K) es)
    (hin : forall x, (pageMap s.ctx b).Contains x ->
      (poisoned m.trace x = true <-> b.stop ≤ x))
    (hout : forall x, ¬ (pageMap s.ctx b).Contains x ->
      (poisoned m.trace x = true <-> exists d, d ∈ K ∧ (pageSlack s.ctx d).Contains x)) :
    PageShadow s.ctx m (b :: K) := by
  have hfits := (hlive.fits b List.mem_cons_self).right
  intro x
  simp only [List.mem_cons, exists_eq_or_imp]
  by_cases hx : (pageMap s.ctx b).Contains x
  · have hslack : (pageSlack s.ctx b).Contains x <-> b.stop ≤ x := by
      simp only [pageMap, pageSlack, Block.Contains, Block.stop] at hx ⊢
      omega
    rw [hin x hx, hslack]
    exact ⟨Or.inl, fun h => h.resolve_right (hlive.no_slack hx)⟩
  · have hb : ¬ (pageSlack s.ctx b).Contains x :=
      fun hslack => hx ((pageSlack_inside hfits).contains hslack)
    rw [hout x hx]
    simp only [hb, false_or]

/-- A new block. -/
theorem alloc (h : PageShadow s.ctx s.mem L) (hlive : PageLive base s' (⟨p, n⟩ :: L) es)
    (hpage : s'.ctx.pageSize = s.ctx.pageSize)
    (hcall : pageAllocFn os n s = (p, s')) (hne : p ≠ NULL) :
    PageShadow s'.ctx s'.mem (⟨p, n⟩ :: L) := by
  have hround := pageRound_congr hpage n
  apply cons hlive
  · intro x hx
    rw [poisoned_pageAllocFn hcall, if_neg hne, ← hround]
    simp only [pageMap] at hx
    rw [if_pos hx]
    by_cases hasked : Block.Contains ⟨p, n⟩ x
    · rw [if_pos hasked]
      exact iff_of_false Bool.noConfusion (Nat.not_le.mpr hasked.right)
    · rw [if_neg hasked]
      exact iff_of_true rfl (Nat.not_lt.mp fun hlt => hasked ⟨hx.left, hlt⟩)
  · intro x hx
    have hfits := (hlive.fits _ List.mem_cons_self).right
    have hsmall : ¬ Block.Contains ⟨p, n⟩ x := by
      simp only [pageMap, Block.Contains, Block.stop] at hx hfits ⊢
      omega
    simp only [pageMap] at hx
    rw [poisoned_pageAllocFn hcall, if_neg hne, if_neg hsmall, ← hround, if_neg hx, h x]
    simp only [pageSlack_congr hpage]

/-- A block that was given back leaves nothing. -/
theorem free (h : PageShadow s.ctx s.mem (b :: K)) (hlive : PageLive base s (b :: K) es)
    (hpage : (pageFreeFn b.ptr b.size s).ctx.pageSize = s.ctx.pageSize) :
    PageShadow (pageFreeFn b.ptr b.size s).ctx (pageFreeFn b.ptr b.size s).mem K := by
  have hptr : b.ptr ≠ NULL := Nat.ne_of_gt (hlive.wellFormed b List.mem_cons_self).left
  have hfits := (hlive.fits b List.mem_cons_self).right
  intro x
  simp only [poisoned_pageFreeFn hptr, pageSlack_congr hpage]
  split
  · rename_i hx
    exact iff_of_false Bool.noConfusion (hlive.no_slack hx)
  · rename_i hx
    exact h.elsewhere hfits hx

/-- A block that was resized in its mapping. -/
theorem stays (h : PageShadow s.ctx s.mem (b :: K)) (hlive : PageLive base s (b :: K) es)
    (hlive' : PageLive base s' (⟨b.ptr, n⟩ :: K) es')
    (hpage : s'.ctx.pageSize = s.ctx.pageSize)
    (hround : pageRound s.ctx b.size = pageRound s.ctx n)
    (hmarks : forall x, poisoned s'.mem.trace x =
      if n > b.size then
        if Block.Contains ⟨sizeAdd b.ptr b.size, n - b.size⟩ x then false
        else poisoned s.mem.trace x
      else if Block.Contains ⟨sizeAdd b.ptr n, b.size - n⟩ x then true
      else poisoned s.mem.trace x) :
    PageShadow s'.ctx s'.mem (⟨b.ptr, n⟩ :: K) := by
  have hfits := (hlive.fits b List.mem_cons_self).right
  have hfits' : n ≤ pageRound s.ctx b.size := by
    rw [hround, ← pageRound_congr hpage]
    exact (hlive'.fits _ List.mem_cons_self).right
  have hend : b.ptr + b.size < 2 ^ 64 := (hlive.wellFormed b List.mem_cons_self).right.right
  have hend' : b.ptr + n < 2 ^ 64 := (hlive'.wellFormed _ List.mem_cons_self).right.right
  have hsame : pageMap s'.ctx ⟨b.ptr, n⟩ = pageMap s.ctx b := by
    simp only [pageMap, pageRound_congr hpage, hround]
  have hmarks' : forall x, poisoned s'.mem.trace x = true <->
      ¬ (b.ptr + b.size ≤ x ∧ x < b.ptr + n) ∧
        (b.ptr + n ≤ x ∧ x < b.ptr + b.size ∨ poisoned s.mem.trace x = true) := by
    intro x
    rw [hmarks x, sizeAdd_eq hend, sizeAdd_eq hend']
    split
    · split
      · rename_i hin
        simp only [Block.Contains, Block.stop] at hin
        exact iff_of_false Bool.noConfusion (fun hno => hno.left (by omega))
      · rename_i hout
        simp only [Block.Contains, Block.stop] at hout
        constructor
        · exact fun hold => ⟨fun hno => hout (by omega), Or.inr hold⟩
        · exact fun hnew => hnew.right.resolve_left (by omega)
    · split
      · rename_i hin
        simp only [Block.Contains, Block.stop] at hin
        exact iff_of_true rfl ⟨fun hno => by omega, Or.inl (by omega)⟩
      · rename_i hout
        simp only [Block.Contains, Block.stop] at hout
        constructor
        · exact fun hold => ⟨fun hno => by omega, Or.inr hold⟩
        · exact fun hnew => hnew.right.resolve_left (fun hno => hout (by omega))
  apply cons hlive'
  · intro x hx
    rw [hsame] at hx
    rw [hmarks' x, h.inside hlive hx]
    simp only [pageMap, Block.Contains, Block.stop] at hx ⊢
    omega
  · intro x hx
    rw [hsame] at hx
    rw [hmarks' x, h.elsewhere hfits hx]
    simp only [pageSlack_congr hpage]
    simp only [pageMap, Block.Contains, Block.stop] at hx
    constructor
    · exact fun hnew => hnew.right.resolve_left (by omega)
    · exact fun hold => ⟨fun hno => by omega, Or.inr hold⟩

/-- A block whose mapping could not be resized. -/
theorem fails (h : PageShadow s.ctx s.mem (b :: K)) (hlive : PageLive base s (b :: K) es)
    (hpage : s'.ctx.pageSize = s.ctx.pageSize)
    (hmarks : forall x, poisoned s'.mem.trace x =
      if Block.Contains ⟨sizeAdd b.ptr b.size,
        sizeSub (pageRound s.ctx b.size) b.size⟩ x then true
      else if Block.Contains ⟨b.ptr, pageRound s.ctx b.size⟩ x then false
      else poisoned s.mem.trace x) :
    PageShadow s'.ctx s'.mem (b :: K) := by
  have hfits := (hlive.fits b List.mem_cons_self).right
  have hend : b.ptr + b.size < 2 ^ 64 := (hlive.wellFormed b List.mem_cons_self).right.right
  have hmap : b.ptr + pageRound s.ctx b.size < 2 ^ 64 :=
    (hlive.inv.holds.wellFormed _ (List.mem_cons_of_mem _
      (hlive.mem_map List.mem_cons_self))).right.right
  have hshadow : PageShadow s.ctx s'.mem (b :: K) := by
    apply cons hlive
    · intro x hx
      rw [hmarks x, sizeAdd_eq hend, sizeSub_eq hfits (by omega)]
      by_cases hslack : Block.Contains ⟨b.ptr + b.size, pageRound s.ctx b.size - b.size⟩ x
      · rw [if_pos hslack]
        exact iff_of_true rfl hslack.left
      · rw [if_neg hslack]
        rw [if_pos (show Block.Contains ⟨b.ptr, pageRound s.ctx b.size⟩ x from hx)]
        simp only [pageMap, Block.Contains, Block.stop] at hx hslack ⊢
        exact iff_of_false Bool.noConfusion (by omega)
    · intro x hx
      have hnot : ¬ Block.Contains ⟨b.ptr + b.size, pageRound s.ctx b.size - b.size⟩ x :=
        fun hin => hx ((pageSlack_inside hfits).contains hin)
      rw [hmarks x, sizeAdd_eq hend, sizeSub_eq hfits (by omega), if_neg hnot]
      rw [if_neg (show ¬ Block.Contains ⟨b.ptr, pageRound s.ctx b.size⟩ x from hx)]
      exact h.elsewhere hfits hx
  exact hshadow.congr hpage rfl

/-- A block whose mapping was resized or moved. -/
theorem moves (h : PageShadow s.ctx s.mem (b :: K)) (hlive : PageLive base s (b :: K) es)
    (hlive' : PageLive base s' (⟨p, n⟩ :: K) es')
    (hpage : s'.ctx.pageSize = s.ctx.pageSize)
    (hmarks : forall x, poisoned s'.mem.trace x =
      if Block.Contains ⟨p, n⟩ x then false
      else if Block.Contains ⟨p, pageRound s.ctx n⟩ x then true
      else if Block.Contains ⟨b.ptr, pageRound s.ctx b.size⟩ x then false
      else poisoned s.mem.trace x) :
    PageShadow s'.ctx s'.mem (⟨p, n⟩ :: K) := by
  have hfits := (hlive.fits b List.mem_cons_self).right
  have hfits' := (hlive'.fits _ List.mem_cons_self).right
  apply cons hlive'
  · intro x hx
    simp only [pageMap, pageRound_congr hpage] at hx
    rw [hmarks x, if_pos hx]
    by_cases hasked : Block.Contains ⟨p, n⟩ x
    · rw [if_pos hasked]
      exact iff_of_false Bool.noConfusion (Nat.not_le.mpr hasked.right)
    · rw [if_neg hasked]
      exact iff_of_true rfl (Nat.not_lt.mp fun hlt => hasked ⟨hx.left, hlt⟩)
  · intro x hx
    have hsmall : ¬ Block.Contains ⟨p, n⟩ x := by
      simp only [pageMap, Block.Contains, Block.stop] at hx hfits' ⊢
      omega
    simp only [pageMap, pageRound_congr hpage] at hx
    rw [hmarks x, if_neg hsmall, if_neg hx]
    simp only [pageSlack_congr hpage]
    by_cases hold : (pageMap s.ctx b).Contains x
    · rw [if_pos (show Block.Contains ⟨b.ptr, pageRound s.ctx b.size⟩ x from hold)]
      exact iff_of_false Bool.noConfusion (hlive.no_slack hold)
    · rw [if_neg (show ¬ Block.Contains ⟨b.ptr, pageRound s.ctx b.size⟩ x from hold)]
      exact h.elsewhere hfits hold

/-!
# The marks after an operation
-/

theorem allocated (h : PageShadow s.ctx s.mem L) (hlive : PageLive base s L es)
    (hn : n < 2 ^ 64) (hcall : pageAllocFn os n s = (p, s')) :
    PageShadow s'.ctx s'.mem (if p = NULL then L else ⟨p, n⟩ :: L) := by
  rcases hlive.alloc hn hcall with ⟨hstep, ⟨hnull, _⟩ | ⟨hne, hnew⟩⟩
  · rw [if_pos hnull]
    apply h.congr hstep.pageSize
    funext x
    rw [poisoned_pageAllocFn hcall, if_pos hnull]
  · rw [if_neg hne]
    exact h.alloc hnew hstep.pageSize hcall hne

theorem freed (h : PageShadow s.ctx s.mem L) (hlive : PageLive base s L es) (hb : b ∈ L) :
    PageShadow (pageFreeFn b.ptr b.size s).ctx (pageFreeFn b.ptr b.size s).mem
      (L.erase b) := by
  have hperm := List.perm_cons_erase hb
  exact (h.perm hperm).free (hlive.perm hperm) (hlive.free hb).left.pageSize

theorem reallocated (h : PageShadow s.ctx s.mem L) (hlive : PageLive base s L es)
    (hb : b ∈ L) (hpos : n ≠ 0) (hn : n < 2 ^ 64)
    (hcall : pageReallocFn os b.ptr b.size n s = (p, s')) :
    PageShadow s'.ctx s'.mem (if p = NULL then L else ⟨p, n⟩ :: L.erase b) := by
  have hptr : b.ptr ≠ NULL := Nat.ne_of_gt (hlive.wellFormed b hb).left
  have hperm := List.perm_cons_erase hb
  have hold := h.perm hperm
  have hbefore := hlive.perm hperm
  rcases hlive.realloc hb hpos hn hcall with ⟨hstep, _, hcase⟩
  have hnew : p ≠ NULL -> exists es', PageLive base s' (⟨p, n⟩ :: L.erase b) es' := by
    intro hne
    rcases hcase with ⟨hnull, _⟩ | ⟨_, _, hafter⟩
    · exact absurd hnull hne
    · exact hafter
  rcases poisoned_pageReallocFn hptr hcall with
    ⟨hround, rfl, hmarks⟩ | ⟨rfl, hmarks⟩ | ⟨hp, hmarks⟩
  · rcases hnew hptr with ⟨es', hafter⟩
    rw [if_neg hptr]
    exact hold.stays hbefore hafter hstep.pageSize hround hmarks
  · exact (hold.fails hbefore hstep.pageSize hmarks).perm hperm.symm
  · rcases hnew hp with ⟨es', hafter⟩
    rw [if_neg hp]
    exact hold.moves hbefore hafter hstep.pageSize hmarks

/-- What is apart from the mappings of the client is open. -/
theorem apart_open (h : PageShadow s.ctx m L) (hlive : PageLive base s L es) {R : Block}
    (hapart : forall b, b ∈ L -> R.Disjoint (pageMap s.ctx b)) : Unpoisoned m R := by
  intro x hx
  rw [Bool.eq_false_iff]
  intro hpoisoned
  rcases (h x).mp hpoisoned with ⟨b, hb, hin⟩
  have hmap := (pageSlack_inside (hlive.fits b hb).right).contains hin
  exact (hapart b hb).not_contains hx hmap

end PageShadow

end Exact

/-!
# Accesses to the registry

The allocator writes in its registry only, which is apart from all that it marks.
-/

section Registry

variable {base L es : List Block} {os : Os} {s s' : PageState} {R b : Block}
variable {m m' : Mem} {n p ptr : Nat}

/-- Nothing is read, and nothing in `R` is marked. -/
def OffRegistry (R : Block) (_ : List Event) : Event -> Prop
  | Event.read _ _ => False
  | Event.poison a n => R.Disjoint ⟨a, n⟩
  | _ => True

/-- While `R` is open and nothing in it is marked, writes in it are to open bytes. -/
theorem headerOpen_of_registry (hopen : Unpoisoned m R)
    (h : Traced (fun tr e => PageEvent R tr e ∧ OffRegistry R tr e) m m') :
    Traced HeaderOpen m m' := by
  rcases h with ⟨es, htrace, hjudged⟩
  have hboth : Judged HeaderOpen m.trace es ∧
      forall x, R.Contains x -> poisoned (es ++ m.trace) x = false := by
    clear htrace
    induction es with
    | nil => exact ⟨trivial, hopen⟩
    | cons e es ih =>
        rcases hjudged with ⟨hrest, hpage, hoff⟩
        rcases ih hrest with ⟨hdone, hstill⟩
        cases e with
        | write a n =>
            exact ⟨⟨hdone, fun x hx => hstill x (hpage.left.contains hx)⟩, hstill⟩
        | read a n => exact hoff.elim
        | poison a n =>
            refine ⟨⟨hdone, trivial⟩, fun x hx => ?_⟩
            exact (if_neg (hoff.not_contains hx)).trans (hstill x hx)
        | unpoison a n =>
            refine ⟨⟨hdone, trivial⟩, fun x hx => ?_⟩
            show poisoned (Event.unpoison a n :: (es ++ m.trace)) x = false
            rw [poisoned_unpoison, hstill x hx]
            exact ite_self _
        | _ => exact ⟨⟨hdone, trivial⟩, hstill⟩
  exact ⟨es, htrace, hboth.left⟩

theorem offRegistry_mmap (os : Os) (n : Nat) (m : Mem) :
    Traced (OffRegistry R) m (alloOsMmap os n m).2 := by
  rcases alloOsMmap_cases os n m with hrefused | ⟨a, m', hgranted, _, _, htrace, _⟩
  · rw [hrefused]
    exact Traced.event rfl trivial
  · rw [hgranted]
    exact Traced.event htrace trivial

theorem offRegistry_mremap (os : Os) (old n n' : Nat) (m : Mem) :
    Traced (OffRegistry R) m (alloOsMremap os old n n' m).2 := by
  rcases alloOsMremap_cases os old n n' m with hrefused | ⟨a, m', hgranted, _, _, htrace, _⟩
  · rw [hrefused]
    exact Traced.event rfl trivial
  · rw [hgranted]
    exact Traced.event htrace trivial

theorem offRegistry_touch (s : PageState) : Traced (OffRegistry R) s.mem s.touch.mem :=
  Traced.event rfl trivial

theorem offRegistry_setPageEntry (registry i addr size : Nat) (m : Mem) :
    Traced (OffRegistry R) m (setPageEntry registry i addr size m) :=
  ⟨[_, _], rfl, ⟨⟨trivial, trivial⟩, trivial⟩⟩

theorem offRegistry_ensureCapacity (os : Os) (s : PageState) :
    Traced (OffRegistry R) s.mem (registryEnsureCapacity os s).2.mem := by
  unfold registryEnsureCapacity
  dsimp only
  split
  · have hgrown := @offRegistry_mremap R os s.touch.ctx.registry
      (sizeMul s.touch.ctx.capacity sizeofPageEntry)
      (sizeAdd (sizeMul s.touch.ctx.capacity sizeofPageEntry) s.touch.ctx.pageSize)
      s.touch.mem
    split
    · exact (offRegistry_touch s).trans hgrown
    · exact ((offRegistry_touch s).trans hgrown).trans (offRegistry_touch _)
  · exact offRegistry_touch s

theorem offRegistry_update (addr a n : Nat) (s : PageState) :
    Traced (OffRegistry R) s.mem (registryUpdate addr a n s).mem := by
  unfold registryUpdate
  dsimp only
  split
  · exact offRegistry_touch s
  · exact (offRegistry_touch s).trans (offRegistry_setPageEntry _ _ _ _ _)

theorem offRegistry_remove (addr : Nat) (s : PageState) :
    Traced (OffRegistry R) s.mem (registryRemove addr s).mem := by
  unfold registryRemove
  dsimp only
  split
  · exact offRegistry_touch s
  · exact (offRegistry_touch s).trans (offRegistry_setPageEntry _ _ _ _ _)

theorem offRegistry_add (a n : Nat) (s : PageState) :
    Traced (OffRegistry R) s.mem (registryAdd a n s).mem :=
  (offRegistry_touch s).trans (offRegistry_setPageEntry _ _ _ _ _)

/-- The pair of marks that a mapping gets. -/
theorem offRegistry_remark {a a' k k' : Nat} (h : R.Disjoint ⟨a, k⟩) :
    Traced (OffRegistry R) m
      ((m.note (Event.poison a k)).note (Event.unpoison a' k')) :=
  ⟨[Event.unpoison a' k', Event.poison a k], rfl, ⟨⟨trivial, h⟩, trivial⟩⟩

theorem offRegistry_alloc (hcall : pageAllocFn os n s = (p, s'))
    (hnew : p ≠ NULL -> R.Disjoint ⟨p, pageRound s'.ctx n⟩) :
    Traced (OffRegistry R) s.mem s'.mem := by
  unfold pageAllocFn at hcall
  split at hcall
  · cases hcall
    exact Traced.refl _ _
  · dsimp only at hcall
    have hens := @offRegistry_ensureCapacity R os s
    generalize registryEnsureCapacity os s = grown at hcall hens
    have hmapped := hens.trans
      (@offRegistry_mmap R os (pageRound grown.2.ctx n) grown.2.mem)
    generalize alloOsMmap os (pageRound grown.2.ctx n) grown.2.mem = answer at hcall hmapped
    split at hcall
    · cases hcall
      exact hens
    · split at hcall
      · cases hcall
        exact hmapped
      · rename_i hne
        cases hcall
        have hadded := @offRegistry_add R answer.1 (pageRound grown.2.ctx n)
          { grown.2 with mem := answer.2 }
        exact (hmapped.trans hadded).trans (offRegistry_remark (hnew hne))

theorem offRegistry_free (ptr n : Nat) (s : PageState) :
    Traced (OffRegistry R) s.mem (pageFreeFn ptr n s).mem := by
  unfold pageFreeFn
  split
  · exact Traced.refl _ _
  · dsimp only
    have hremoved := (offRegistry_touch s).trans (@offRegistry_remove R ptr s.touch)
    apply hremoved.trans
    exact ⟨[Event.unmap ptr (pageRound s.ctx n), Event.unpoison ptr (pageRound s.ctx n)], rfl,
      ⟨⟨trivial, trivial⟩, trivial⟩⟩

theorem offRegistry_realloc (hptr : ptr ≠ NULL) {old : Nat}
    (hcall : pageReallocFn os ptr old n s = (p, s'))
    (hend : n ≤ old -> R.Disjoint ⟨sizeAdd ptr n, old - n⟩)
    (hold : R.Disjoint ⟨sizeAdd ptr old, sizeSub (pageRound s.ctx old) old⟩)
    (hnew : p ≠ NULL -> R.Disjoint ⟨p, pageRound s.ctx n⟩) :
    Traced (OffRegistry R) s.mem s'.mem := by
  unfold pageReallocFn at hcall
  rw [if_neg hptr] at hcall
  dsimp only at hcall
  split at hcall
  · cases hcall
    apply (offRegistry_touch s).trans
    apply Traced.event rfl
    split
    · trivial
    · rename_i hle
      exact hend (Nat.not_lt.mp hle)
  · have hopened : Traced (OffRegistry R) s.mem
        (s.touch.mem.note (Event.unpoison ptr (pageRound s.touch.ctx old))) :=
      (offRegistry_touch s).trans (Traced.event rfl trivial)
    have hmoved := hopened.trans (@offRegistry_mremap R os ptr (pageRound s.touch.ctx old)
      (pageRound s.touch.ctx n) _)
    generalize alloOsMremap os ptr (pageRound s.touch.ctx old) (pageRound s.touch.ctx n)
      (s.touch.mem.note (Event.unpoison ptr (pageRound s.touch.ctx old))) = answer
      at hcall hmoved
    split at hcall
    · cases hcall
      exact hmoved.trans (Traced.event rfl hold)
    · rename_i hne
      cases hcall
      have hupdated := @offRegistry_update R ptr answer.1 (pageRound s.touch.ctx n)
        { s.touch with mem := answer.2 }
      exact (hmoved.trans hupdated).trans (offRegistry_remark (hnew hne))

end Registry

/-!
# Every run
-/

section Runs

variable {os : Os} {base es es' : List Block} {s s' : Session PageState} {b : Block} {n : Nat}

theorem poisoned_makePageAllocator {out : Nat} {m : Mem} {st : PageState}
    (hmake : makePageAllocator os out m = Made.ok st) :
    poisoned st.mem.trace = poisoned m.trace := by
  unfold makePageAllocator at hmake
  split at hmake
  · cases hmake
  · dsimp only at hmake
    have hmapped := poisoned_alloOsMmap os (alloOsGetPageSize os)
      (m.note (Event.touch out sizeofAllo))
    split at hmake
    · cases hmake
    · cases hmake
      exact hmapped

/-- When nothing is poisoned, a page allocator that was just made has the right marks. -/
theorem pageShadow_of_make {out : Nat} {m : Mem} {st : PageState}
    (hclean : forall x, poisoned m.trace x = false)
    (hmake : makePageAllocator os out m = Made.ok st) : PageShadow st.ctx st.mem [] := by
  intro x
  refine iff_of_false ?_ ?_
  · rw [poisoned_makePageAllocator hmake, hclean x]
    exact Bool.noConfusion
  · rintro ⟨b, hb, _⟩
    exact List.not_mem_nil hb

theorem pageShadow_alloc (h : PageLive base s.state s.live es)
    (hshadow : PageShadow s.state.ctx s.state.mem s.live) (hn : n < 2 ^ 64)
    (hexec : Session.exec (pageAllo os) (Op.alloc n) s = some s') :
    PageShadow s'.state.ctx s'.state.mem s'.live := by
  rcases Session.exec_alloc hexec with ⟨p, st, hcall, rfl⟩
  have hdone := hshadow.allocated h hn (Option.some.inj hcall)
  by_cases hp : p = NULL
  · subst hp
    rw [Session.afterAlloc_null]
    exact hdone
  · rw [if_neg hp] at hdone
    rw [Session.afterAlloc_placed _ _ hp]
    exact hdone

theorem pageShadow_realloc (h : PageLive base s.state s.live es)
    (hshadow : PageShadow s.state.ctx s.state.mem s.live) (hb : b ∈ s.live) (hn : n < 2 ^ 64)
    (hexec : Session.exec (pageAllo os) (Op.realloc b n) s = some s') :
    PageShadow s'.state.ctx s'.state.mem s'.live := by
  have hptr : b.ptr ≠ NULL := Nat.ne_of_gt (h.wellFormed b hb).left
  rcases Session.exec_realloc hexec with ⟨p, st, hcall, rfl⟩
  rcases alloRealloc_cases hptr hcall with
    ⟨rfl, rfl, hfree⟩ | ⟨hzero, rfl, rfl, rfl⟩ | ⟨hzero, hne, hpass⟩
  · cases hfree
    rw [Session.afterRealloc_zero]
    exact hshadow.freed h hb
  · rw [Session.afterRealloc_placed _ _ _ hzero hptr]
    exact hshadow.perm (List.perm_cons_erase hb)
  · have hdone := hshadow.reallocated h hb hzero hn (Option.some.inj hpass)
    by_cases hp : p = NULL
    · subst hp
      rw [Session.afterRealloc_null _ _ _ hzero]
      exact hdone
    · rw [if_neg hp] at hdone
      rw [Session.afterRealloc_placed _ _ _ hzero hp]
      exact hdone

theorem pageShadow_step {op : Op} (h : PageLive base s.state s.live es)
    (hshadow : PageShadow s.state.ctx s.state.mem s.live) (hlegal : s.Legal op)
    (hexec : Session.exec (pageAllo os) op s = some s') :
    PageShadow s'.state.ctx s'.state.mem s'.live := by
  cases op with
  | alloc n => exact pageShadow_alloc h hshadow hlegal hexec
  | free b =>
      rcases Session.exec_free hexec with ⟨st, hcall, rfl⟩
      cases hcall
      exact hshadow.freed h hlegal
  | realloc b n => exact pageShadow_realloc h hshadow hlegal.left hlegal.right hexec
  | poke x v =>
      rw [Session.exec_poke hexec]
      exact hshadow.congr rfl rfl

/-- If nothing is poisoned when a page allocator is made, then in every state that a client
reaches exactly the ends of the mappings that the client did not ask for are poisoned.
In particular the registry never is, and nothing is once all blocks were given back. -/
theorem page_shadow_exact {out : Nat} {m : Mem} {st : PageState}
    (hpage : exists k, 4 ≤ k ∧ k < 64 ∧ os.pageSize = 2 ^ k)
    (hclean : forall x, poisoned m.trace x = false)
    (hmake : makePageAllocator os out m = Made.ok st)
    (hreach : (Session.client (pageAllo os)).Reaches (Session.start st) s) :
    (forall x, poisoned s.state.mem.trace x = true <->
      exists b, b ∈ s.live ∧ b.stop ≤ x ∧ x < b.ptr + pageRound s.state.ctx b.size) ∧
    forall x, s.state.ctx.registryMap.Contains x -> poisoned s.state.mem.trace x = false := by
  have hrun : exists es, PageLive (liveMaps m.trace) s.state s.live es ∧
      PageShadow s.state.ctx s.state.mem s.live := by
    refine hreach.invariant (fun s => exists es, PageLive (liveMaps m.trace) s.state s.live es ∧
      PageShadow s.state.ctx s.state.mem s.live) ?_ ?_
    · exact ⟨[], makePageAllocator_spec hpage hmake, pageShadow_of_make hclean hmake⟩
    · rintro s op s' ⟨es, h, hshadow⟩ hlegal hexec
      rcases page_step h hlegal.left with ⟨t, es', hexec', h', _⟩
      cases hexec.symm.trans hexec'
      exact ⟨es', h', pageShadow_step h hshadow hlegal.left hexec⟩
  rcases hrun with ⟨es, hlive, hshadow⟩
  have hexact : forall x, poisoned s.state.mem.trace x = true <->
      exists b, b ∈ s.live ∧ b.stop ≤ x ∧ x < b.ptr + pageRound s.state.ctx b.size := by
    intro x
    rw [hshadow x]
    apply exists_congr
    intro b
    apply and_congr_right
    intro hb
    have hfits := (hlive.fits b hb).right
    simp only [pageSlack, Block.Contains, Block.stop]
    omega
  exact ⟨hexact, hshadow.apart_open hlive
    (fun b hb => hlive.inv.entry_apart (hlive.mem_map hb))⟩

end Runs

/-- A client that asks for a hundred bytes of a page. -/
theorem page_shadow_exact_hundred : exists st s,
    makePageAllocator ⟨4096, fun i => if i = 0 then 65536 else 131072⟩ 8
      { bytes := fun _ => 0, trace := [] } = Made.ok st ∧
    Session.exec (pageAllo ⟨4096, fun i => if i = 0 then 65536 else 131072⟩) (Op.alloc 100)
      (Session.start st) = some s ∧
    forall x, poisoned s.state.mem.trace x = true <->
      exists b, b ∈ s.live ∧ b.stop ≤ x ∧ x < b.ptr + pageRound s.state.ctx b.size := by
  have hmake : makePageAllocator ⟨4096, fun i => if i = 0 then 65536 else 131072⟩ 8
      { bytes := fun _ => 0, trace := [] } = Made.ok _ := rfl
  have hpage : exists k, 4 ≤ k ∧ k < 64 ∧ 4096 = 2 ^ k :=
    ⟨12, by decide, by decide, rfl⟩
  have hsize : (100 : Nat) < 2 ^ 64 := by decide
  have hstart := makePageAllocator_spec hpage hmake
  rcases @page_step _ _ _ (Session.start _) (Op.alloc 100) hstart hsize with
    ⟨s, _, hexec, _⟩
  have hreach := @Machine.Reaches.step _ _
    (Session.client (pageAllo ⟨4096, fun i => if i = 0 then 65536 else 131072⟩)) _ _ _
    (Op.alloc 100) Machine.Reaches.start ⟨hsize, trivial⟩ hexec
  exact ⟨_, s, hmake, hexec, (page_shadow_exact hpage (fun _ => rfl) hmake hreach).left⟩

/-!
# The page allocator is sanitized
-/

section Sanitized

variable {base L es : List Block} {os : Os} {s s' : PageState} {b : Block} {n p : Nat}

theorem PageLive.registry_apart_map (h : PageLive base s L es) (hb : b ∈ L) :
    s.ctx.registryMap.Disjoint (pageMap s.ctx b) :=
  h.inv.entry_apart (h.mem_map hb)

namespace PageShadow

theorem alloc_opens (h : PageShadow s.ctx s.mem L) (hlive : PageLive base s L es)
    (hn : n < 2 ^ 64) (hcall : pageAllocFn os n s = (p, s')) :
    Traced HeaderOpen s.mem s'.mem := by
  rcases hlive.alloc hn hcall with ⟨hstep, hcase⟩
  have hmap := pageMap_congr hstep.pageSize
  have hapart : (forall d, d ∈ L -> s'.ctx.registryMap.Disjoint (pageMap s.ctx d)) ∧
      (p ≠ NULL -> s'.ctx.registryMap.Disjoint ⟨p, pageRound s'.ctx n⟩) := by
    rw [← hmap]
    rcases hcase with ⟨hnull, hsame⟩ | ⟨_, hnew⟩
    · exact ⟨fun d hd => hsame.registry_apart_map hd, fun hne => absurd hnull hne⟩
    · exact ⟨fun d hd => hnew.registry_apart_map (List.mem_cons_of_mem _ hd),
        fun _ => hnew.registry_apart_map List.mem_cons_self⟩
  exact headerOpen_of_registry (h.apart_open hlive hapart.left)
    (hstep.traced.and (offRegistry_alloc hcall hapart.right))

theorem free_opens (h : PageShadow s.ctx s.mem L) (hlive : PageLive base s L es)
    (hb : b ∈ L) : Traced HeaderOpen s.mem (pageFreeFn b.ptr b.size s).mem :=
  headerOpen_of_registry (h.apart_open hlive (fun _ hd => hlive.registry_apart_map hd))
    ((hlive.free hb).left.traced.and (offRegistry_free b.ptr b.size s))

theorem realloc_opens (h : PageShadow s.ctx s.mem L) (hlive : PageLive base s L es)
    (hb : b ∈ L) (hpos : n ≠ 0) (hn : n < 2 ^ 64)
    (hcall : pageReallocFn os b.ptr b.size n s = (p, s')) :
    Traced HeaderOpen s.mem s'.mem := by
  have hbw := hlive.wellFormed b hb
  have hptr : b.ptr ≠ NULL := Nat.ne_of_gt hbw.left
  have hfits := (hlive.fits b hb).right
  have hold := hlive.registry_apart_map hb
  have hmapEnd : b.ptr + pageRound s.ctx b.size < 2 ^ 64 :=
    (hlive.inv.holds.wellFormed _ (List.mem_cons_of_mem _ (hlive.mem_map hb))).right.right
  have hend : sizeAdd b.ptr b.size = b.ptr + b.size := sizeAdd_eq (by omega)
  have hslack : sizeSub (pageRound s.ctx b.size) b.size = pageRound s.ctx b.size - b.size :=
    sizeSub_eq hfits (by omega)
  rcases hlive.realloc hb hpos hn hcall with ⟨hstep, hregistry, hcase⟩
  refine headerOpen_of_registry
    (h.apart_open hlive (fun _ hd => hlive.registry_apart_map hd))
    (hstep.traced.and (offRegistry_realloc hptr hcall ?_ ?_ ?_))
  · -- A block that shrinks in its mapping gets a longer end.
    intro hle
    have hlast : sizeAdd b.ptr n = b.ptr + n := sizeAdd_eq (by omega)
    rw [hlast]
    have hinside : Block.Inside ⟨b.ptr + n, b.size - n⟩ (pageMap s.ctx b) := by
      simp only [Block.Inside, Block.stop, pageMap]
      omega
    exact (hinside.disjoint hold.symm).symm
  · rw [hend, hslack]
    have hinside : (pageSlack s.ctx b).Inside (pageMap s.ctx b) := pageSlack_inside hfits
    exact (hinside.disjoint hold.symm).symm
  · intro hne
    rcases hcase with ⟨hnull, _⟩ | ⟨_, _, es', hnew⟩
    · exact absurd hnull hne
    · have hmoved := hnew.registry_apart_map List.mem_cons_self
      rw [hregistry, pageMap_congr hstep.pageSize] at hmoved
      exact hmoved

end PageShadow

theorem pageSanitized (os : Os) (hos : Os.Aligned os) (base : List Block) :
    (pageLawful os hos base).service.Sanitized (fun s L => PageShadow s.ctx s.mem L) where
  opens := by
    intro s L hinv hshadow b hb
    rcases hinv.live with ⟨es, hlive⟩
    have hperm := List.perm_cons_erase hb
    intro x hx
    rw [Bool.eq_false_iff]
    intro hpoisoned
    have hmap := (hlive.inside_map hb).contains hx
    have hend := ((hshadow.perm hperm).inside (hlive.perm hperm) hmap).mp hpoisoned
    exact absurd hend (Nat.not_le.mpr hx.right)
  perm := fun hshadow hperm => hshadow.perm hperm
  alloc := by
    intro s s' L n p hinv hshadow hn hcall
    rcases hinv.live with ⟨es, hlive⟩
    have hanswer : pageAllocFn os n s = (p, s') := Option.some.inj hcall
    exact ⟨hshadow.alloc_opens hlive hn hanswer, hshadow.allocated hlive hn hanswer⟩
  free := by
    intro s s' L b hinv hshadow hb hcall
    rcases hinv.live with ⟨es, hlive⟩
    cases hcall
    exact ⟨hshadow.free_opens hlive hb, hshadow.freed hlive hb⟩
  freeNull := by
    intro s s' L n _ hshadow hcall
    cases hcall
    exact ⟨Traced.refl _ _, hshadow⟩
  realloc := by
    intro s s' L b n p hinv hshadow hb hpos hn hcall
    rcases hinv.live with ⟨es, hlive⟩
    have hanswer : pageReallocFn os b.ptr b.size n s = (p, s') := Option.some.inj hcall
    exact ⟨hshadow.realloc_opens hlive hb hpos hn hanswer,
      hshadow.reallocated hlive hb hpos hn hanswer⟩
  store := by
    intro s L P m _ hshadow _ _ heq
    exact hshadow.congr rfl heq

end Sanitized

end Liballo
