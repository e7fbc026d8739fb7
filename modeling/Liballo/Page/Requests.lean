import Liballo.Page.Ops

/-!
# The requests of the page allocator

The page allocator makes one request for each block, and one more for a larger registry
whenever the registry is full. When an allocation fails, one of these was refused.
-/

namespace Liballo

open Foundation

/-- The number of registry entries on a page. -/
def pageEntries (os : Os) : Nat :=
  os.pageSize / sizeofPageEntry

/-- After `n` blocks and `g` enlargements of the registry, with all requests from number
`lo` on granted. -/
structure PageAsked (os : Os) (lo n g : Nat) (s : PageState) : Prop where
  pageSize : s.ctx.pageSize = os.pageSize
  count : s.ctx.count = n
  capacity : s.ctx.capacity = pageEntries os * (g + 1)
  requests : requests s.mem.trace = lo + (n + g)
  answers : forall i, i < n + g -> os.answer (lo + i) ≠ 0

/-- One of the `k` requests from number `lo` on was to be refused. -/
def RefusedOne (os : Os) (lo k : Nat) (m : Mem) : Prop :=
  exists i, i < k ∧ (os.Answered m.trace -> os.answer (lo + i) = 0)

section Requests

variable {os : Os} {lo n g k : Nat} {s s' : PageState} {m m' : Mem}

theorem RefusedOne.mono {k' : Nat} (h : RefusedOne os lo k m) (hle : k ≤ k') :
    RefusedOne os lo k' m := by
  rcases h with ⟨i, hi, hwhy⟩
  exact ⟨i, Nat.lt_of_lt_of_le hi hle, hwhy⟩

theorem RefusedOne.earlier (h : RefusedOne os (lo + 1) k m) :
    RefusedOne os lo (k + 1) m := by
  rcases h with ⟨i, hi, hwhy⟩
  refine ⟨i + 1, Nat.succ_lt_succ hi, ?_⟩
  rw [Nat.add_comm i, ← Nat.add_assoc]
  exact hwhy

theorem RefusedOne.later {es : List Event} (h : RefusedOne os lo k m)
    (htrace : m'.trace = es ++ m.trace) : RefusedOne os lo k m' := by
  rcases h with ⟨i, hi, hwhy⟩
  refine ⟨i, hi, ?_⟩
  intro hanswered
  rw [htrace] at hanswered
  exact hwhy hanswered.of_append

namespace PageAsked

/-- Storing into memory asks for nothing. -/
theorem store {P : Nat -> Nat -> Prop} (h : PageAsked os lo n g s)
    (hw : Wrote P s.mem m') : PageAsked os lo n g { s with mem := m' } :=
  { h with requests := hw.requests_eq.trans h.requests }

theorem touch (h : PageAsked os lo n g s) : PageAsked os lo n g s.touch :=
  { h with requests := h.requests }

/-- One more answer. -/
theorem answers_succ {a : Nat} (h : PageAsked os lo n g s) (hasked : os.Asked s.mem a m')
    (hne : a ≠ NULL) : forall i, i < n + g + 1 -> os.answer (lo + i) ≠ 0 := by
  intro i hi
  rcases Nat.lt_or_eq_of_le (Nat.le_of_lt_succ hi) with hlt | heq
  · exact h.answers i hlt
  · rw [heq, ← h.requests]
    exact hasked.granted hne

theorem refusedOne {a : Nat} (h : PageAsked os lo n g s) (hasked : os.Asked s.mem a m')
    (hnull : a = NULL) : RefusedOne os lo (n + g + 1) m' := by
  refine ⟨n + g, Nat.lt_succ_self _, ?_⟩
  intro hanswered
  rw [← h.requests]
  exact hasked.refused hnull hanswered

end PageAsked

/-- The registry is enlarged when it is full. -/
theorem registryEnsureCapacity_asked (h : PageAsked os lo n g s)
    (hpage : sizeofPageEntry * pageEntries os = os.pageSize)
    (hsize : sizeofPageEntry * n + os.pageSize < 2 ^ 64) {ok : Bool}
    (hcall : registryEnsureCapacity os s = (ok, s')) :
    (n ≠ pageEntries os * (g + 1) ∧ ok = true ∧ PageAsked os lo n g s') ∨
      n = pageEntries os * (g + 1) ∧
        (ok = true ∧ PageAsked os lo n (g + 1) s' ∨
          ok = false ∧ RefusedOne os lo (n + g + 1) s'.mem) := by
  have htouch := h.touch
  unfold registryEnsureCapacity at hcall
  dsimp only at hcall
  by_cases hfull : s.touch.ctx.count = s.touch.ctx.capacity
  · have hn : n = pageEntries os * (g + 1) := by
      rw [← htouch.count, hfull, htouch.capacity]
    have hold : sizeMul s.touch.ctx.capacity sizeofPageEntry = sizeofPageEntry * n := by
      rw [← hfull, htouch.count, Nat.mul_comm]
      apply sizeMul_eq
      rw [Nat.mul_comm]
      omega
    rw [if_pos hfull, hold, htouch.pageSize, sizeAdd_eq hsize] at hcall
    have hasked := Os.remap_asked os s.touch.ctx.registry (sizeofPageEntry * n)
      (sizeofPageEntry * n + os.pageSize) s.touch.mem
    unfold alloOsMremap at hcall
    generalize Os.remap os s.touch.ctx.registry (sizeofPageEntry * n)
      (sizeofPageEntry * n + os.pageSize) s.touch.mem = answer at hcall hasked
    rcases answer with ⟨a, m⟩
    dsimp only at hcall hasked
    refine Or.inr ⟨hn, ?_⟩
    by_cases hnull : a = NULL
    · rw [if_pos hnull] at hcall
      cases hcall
      exact Or.inr ⟨rfl, htouch.refusedOne hasked hnull⟩
    · rw [if_neg hnull] at hcall
      cases hcall
      refine Or.inl ⟨rfl, ?_⟩
      constructor
      · rfl
      · exact h.count
      · show (sizeofPageEntry * n + os.pageSize) / sizeofPageEntry = _
        rw [← hpage, ← Nat.mul_add, Nat.mul_div_cancel_left _ (by decide), hn]
        exact (Nat.mul_succ _ _).symm
      · show Foundation.requests m.trace = _
        rw [hasked.requests, htouch.requests]
        rfl
      · exact htouch.answers_succ hasked hnull
  · rw [if_neg hfull] at hcall
    cases hcall
    refine Or.inl ⟨?_, rfl, htouch⟩
    intro hn
    exact hfull (by rw [htouch.count, htouch.capacity, ← hn])

/-- How often `n` blocks filled the registry. -/
theorem growths_eq {c : Nat} (hc : 0 < c) :
    n ≠ c * ((n - 1) / c + 1) ∧ n / c = (n - 1) / c ∨
      n = c * ((n - 1) / c + 1) ∧ n / c = (n - 1) / c + 1 := by
  by_cases hn : n = c * ((n - 1) / c + 1)
  · refine Or.inr ⟨hn, ?_⟩
    calc n / c = c * ((n - 1) / c + 1) / c := by rw [← hn]
      _ = (n - 1) / c + 1 := Nat.mul_div_cancel_left _ hc
  · refine Or.inl ⟨hn, ?_⟩
    have hmod : n - 1 < c * ((n - 1) / c + 1) := by
      rw [Nat.mul_succ]
      exact Nat.lt_mul_div_succ _ hc
    have hlt : n / c < (n - 1) / c + 1 := by
      apply Nat.div_lt_of_lt_mul
      omega
    have hle : (n - 1) / c ≤ n / c := Nat.div_le_div_right (Nat.sub_le n 1)
    omega

/-- An allocation asks for a block, after it made room for its entry. -/
theorem pageAllocFn_asked (h : PageAsked os lo n ((n - 1) / pageEntries os) s)
    (hpage : sizeofPageEntry * pageEntries os = os.pageSize)
    (hpos : 0 < pageEntries os)
    (hsize : sizeofPageEntry * n + os.pageSize < 2 ^ 64) {size p : Nat}
    (hne : size ≠ 0) (hcall : pageAllocFn os size s = (p, s')) :
    p ≠ NULL ∧ PageAsked os lo (n + 1) (n / pageEntries os) s' ∨
      p = NULL ∧ RefusedOne os lo (n + n / pageEntries os + 1) s'.mem := by
  unfold pageAllocFn at hcall
  rw [if_neg hne] at hcall
  rcases hens : registryEnsureCapacity os s with ⟨ok, s₁⟩
  have hroom : ok = true ∧ PageAsked os lo n (n / pageEntries os) s₁ ∨
      ok = false ∧ RefusedOne os lo (n + n / pageEntries os + 1) s₁.mem := by
    rcases registryEnsureCapacity_asked h hpage hsize hens with
      ⟨hne', hok, hasked⟩ | ⟨heq', hcase⟩
    · rcases growths_eq (n := n) hpos with ⟨_, hgrow⟩ | ⟨heq', _⟩
      · rw [hgrow]
        exact Or.inl ⟨hok, hasked⟩
      · exact absurd heq' hne'
    · rcases growths_eq (n := n) hpos with ⟨hne', _⟩ | ⟨_, hgrow⟩
      · exact absurd heq' hne'
      · rw [hgrow]
        rcases hcase with hgranted | ⟨hno, hrefused⟩
        · exact Or.inl hgranted
        · exact Or.inr ⟨hno, hrefused.mono (by omega)⟩
  rw [hens] at hcall
  dsimp only at hcall
  rcases hroom with ⟨rfl, hasked⟩ | ⟨rfl, hrefused⟩
  · rw [if_neg (by decide)] at hcall
    have hmap := Os.map_asked os (pageRound s₁.ctx size) s₁.mem
    unfold alloOsMmap at hcall
    generalize Os.map os (pageRound s₁.ctx size) s₁.mem = answer at hcall hmap
    rcases answer with ⟨a, m⟩
    dsimp only at hcall hmap
    by_cases hnull : a = NULL
    · rw [if_pos hnull] at hcall
      cases hcall
      exact Or.inr ⟨rfl, hasked.refusedOne hmap hnull⟩
    · rw [if_neg hnull] at hcall
      cases hcall
      refine Or.inl ⟨hnull, ?_⟩
      have hcount : sizeAdd s₁.ctx.count 1 = n + 1 := by
        rw [hasked.count]
        apply sizeAdd_eq
        unfold sizeofPageEntry at hsize
        have hposPage : 0 < os.pageSize := hpage ▸ Nat.mul_pos (by decide) hpos
        omega
      constructor
      · exact hasked.pageSize
      · exact hcount
      · exact hasked.capacity
      · show Foundation.requests m.trace = _
        rw [hmap.requests, hasked.requests, Nat.add_right_comm n 1]
        rfl
      · rw [Nat.add_right_comm n 1]
        exact hasked.answers_succ hmap hnull
  · rw [if_pos rfl] at hcall
    cases hcall
    exact Or.inr ⟨rfl, hrefused⟩

end Requests

end Liballo
