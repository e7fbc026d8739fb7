import Liballo.Page.Exactness
import Liballo.Service

/-!
# The page allocator as a service

The system hands out whole pages, so what it answers is aligned. When the allocator is
destroyed, the mappings of everybody else are what is left.
-/

namespace Liballo

open Foundation

/-- Every address that the system intends is aligned. -/
def Os.Aligned (os : Os) : Prop :=
  forall i, 8 ∣ os.answer i

/-- The client holds the blocks `L`, the mappings `base` are somebody else's. -/
structure PageServes (base : List Block) (s : PageState) (L : List Block) : Prop where
  live : exists es, PageLive base s L es
  aligned : forall b, b ∈ L -> 8 ∣ b.ptr

section Aligned

variable {os : Os} {s s' : PageState} {ptr n p : Nat}

theorem alloOsMmap_aligned (hos : Os.Aligned os) (m : Mem) :
    8 ∣ (alloOsMmap os n m).1 := by
  unfold alloOsMmap Os.map
  dsimp only
  split
  · exact hos _
  · exact Nat.dvd_zero 8

theorem alloOsMremap_aligned (hos : Os.Aligned os) (old n' : Nat) (m : Mem) :
    8 ∣ (alloOsMremap os old n n' m).1 := by
  unfold alloOsMremap Os.remap
  dsimp only
  split
  · exact hos _
  · exact Nat.dvd_zero 8

theorem pageAllocFn_aligned (hos : Os.Aligned os) (hcall : pageAllocFn os n s = (p, s')) :
    8 ∣ p := by
  have hans : 8 ∣ (pageAllocFn os n s).1 := by
    unfold pageAllocFn
    split
    · exact Nat.dvd_zero 8
    · dsimp only
      split
      · exact Nat.dvd_zero 8
      · split
        · exact Nat.dvd_zero 8
        · exact alloOsMmap_aligned hos _
  rw [hcall] at hans
  exact hans

theorem pageReallocFn_aligned (hos : Os.Aligned os) (hptr : 8 ∣ ptr) {old : Nat}
    (hcall : pageReallocFn os ptr old n s = (p, s')) : 8 ∣ p := by
  by_cases hnull : ptr = NULL
  · rw [pageReallocFn, if_pos hnull] at hcall
    exact pageAllocFn_aligned hos hcall
  · have hans : 8 ∣ (pageReallocFn os ptr old n s).1 := by
      unfold pageReallocFn
      rw [if_neg hnull]
      dsimp only
      split
      · exact hptr
      · split
        · exact Nat.dvd_zero 8
        · exact alloOsMremap_aligned hos _ _ _
    rw [hcall] at hans
    exact hans

end Aligned

namespace PageServes

variable {os : Os} {base L : List Block} {s : PageState} {b : Block} {n : Nat}

theorem erase (h : PageServes base s L) (b : Block) :
    forall c, c ∈ L.erase b -> 8 ∣ c.ptr :=
  fun c hc => h.aligned c (List.mem_of_mem_erase hc)

theorem aligned_cons {M : List Block} {p : Nat} (h : forall c, c ∈ M -> 8 ∣ c.ptr)
    (hp : 8 ∣ p) : forall c, c ∈ (⟨p, n⟩ :: M : List Block) -> 8 ∣ c.ptr := by
  intro c hc
  cases hc with
  | head => exact hp
  | tail _ hc => exact h c hc

theorem alloc (h : PageServes base s L) (hos : Os.Aligned os) (hn : n < 2 ^ 64) :
    exists p s', alloAlloc (pageAllo os) n s = some (p, s') ∧
      KeepsBytes L (mem s) (mem s') ∧
        (p = NULL ∧ PageServes base s' L ∨ p ≠ NULL ∧ PageServes base s' (⟨p, n⟩ :: L)) := by
  rcases h.live with ⟨es, hlive⟩
  rcases hcall : pageAllocFn os n s with ⟨p, s'⟩
  rcases hlive.alloc hn hcall with ⟨hstep, hcase⟩
  refine ⟨p, s', congrArg some hcall, hstep.keeps, ?_⟩
  rcases hcase with ⟨hnull, hlive'⟩ | ⟨hne, hlive'⟩
  · exact Or.inl ⟨hnull, ⟨es, hlive'⟩, h.aligned⟩
  · exact Or.inr ⟨hne, ⟨_, hlive'⟩, aligned_cons h.aligned (pageAllocFn_aligned hos hcall)⟩

theorem free (h : PageServes base s L) (hb : b ∈ L) :
    exists s', alloFree (pageAllo os) b.ptr b.size s = some s' ∧
      KeepsBytes (L.erase b) (mem s) (mem s') ∧ PageServes base s' (L.erase b) := by
  rcases h.live with ⟨es, hlive⟩
  rcases hlive.free hb with ⟨hstep, _, hlive'⟩
  exact ⟨_, rfl, hstep.keeps, hlive', h.erase b⟩

theorem realloc (h : PageServes base s L) (hos : Os.Aligned os) (hb : b ∈ L)
    (hpos : n ≠ 0) (hn : n < 2 ^ 64) :
    exists p s', (pageAllo os).realloc b.ptr b.size n s = some (p, s') ∧
      Reallocated (PageServes base) s L b n p s' := by
  rcases h.live with ⟨es, hlive⟩
  rcases hcall : pageReallocFn os b.ptr b.size n s with ⟨p, s'⟩
  refine ⟨p, s', congrArg some hcall, ?_⟩
  rcases hlive.realloc hb hpos hn hcall with ⟨hstep, _, hcase⟩
  rcases hcase with ⟨hnull, hlive', hbytes⟩ | ⟨hne, hmoved, hlive'⟩
  · exact Or.inl ⟨hnull, ⟨⟨es, hlive'⟩, h.aligned⟩, fun c _ x _ => congrFun hbytes x⟩
  · have hp := pageReallocFn_aligned hos (h.aligned b hb) hcall
    exact Or.inr ⟨hne, ⟨hlive', aligned_cons (h.erase b) hp⟩, hstep.keeps, hmoved⟩

end PageServes

/-!
# Refusals of the system
-/

section Refusals

variable {os : Os} {s s' : PageState} {n : Nat}

/-- The registry asks for no more room, or it asks once. -/
theorem registryEnsureCapacity_trace {ok : Bool}
    (hcall : registryEnsureCapacity os s = (ok, s')) :
    (exists es, s'.mem.trace = es ++ s.mem.trace) ∧
      (ok = false -> exists es, s'.mem.trace = Event.refuse :: (es ++ s.mem.trace)) := by
  unfold registryEnsureCapacity at hcall
  dsimp only at hcall
  split at hcall
  · rcases alloOsMremap_cases os s.touch.ctx.registry
      (sizeMul s.touch.ctx.capacity sizeofPageEntry)
      (sizeAdd (sizeMul s.touch.ctx.capacity sizeofPageEntry) s.touch.ctx.pageSize)
      s.touch.mem with hrefused | ⟨a, m, hgranted, hne, _, htrace, _⟩
    · rw [hrefused] at hcall
      dsimp only at hcall
      rw [if_pos rfl] at hcall
      cases hcall
      exact ⟨⟨[Event.refuse, Event.touch s.self sizeofAllo], rfl⟩,
        fun _ => ⟨[Event.touch s.self sizeofAllo], rfl⟩⟩
    · rw [hgranted] at hcall
      dsimp only at hcall
      rw [if_neg hne] at hcall
      cases hcall
      refine ⟨⟨[Event.touch s.self sizeofAllo, _, Event.touch s.self sizeofAllo],
        congrArg (Event.touch s.self sizeofAllo :: ·) htrace⟩, ?_⟩
      exact fun hno => Bool.noConfusion hno
  · cases hcall
    exact ⟨⟨[Event.touch s.self sizeofAllo], rfl⟩, fun hno => Bool.noConfusion hno⟩

/-- The page allocator refuses a request only when the system refuses one on the way. -/
theorem pageAllocFn_refuses (hpos : n ≠ 0) (hcall : pageAllocFn os n s = (NULL, s')) :
    exists es, s'.mem.trace = Event.refuse :: (es ++ s.mem.trace) := by
  unfold pageAllocFn at hcall
  rw [if_neg hpos] at hcall
  rcases hens : registryEnsureCapacity os s with ⟨ok, t⟩
  rcases registryEnsureCapacity_trace hens with ⟨⟨es, htrace⟩, hrefuses⟩
  rw [hens] at hcall
  dsimp only at hcall
  split at hcall
  · rename_i hfull
    cases hcall
    exact hrefuses hfull
  · rcases alloOsMmap_cases os (pageRound t.ctx n) t.mem with
      hrefused | ⟨a, m', hgranted, hne, _⟩
    · rw [hrefused] at hcall
      dsimp only at hcall
      rw [if_pos rfl] at hcall
      cases hcall
      exact ⟨es, congrArg (Event.refuse :: ·) htrace⟩
    · rw [hgranted] at hcall
      dsimp only at hcall
      rw [if_neg hne] at hcall
      exact absurd (congrArg Prod.fst hcall) hne

end Refusals

def pageLawful (os : Os) (hos : Os.Aligned os) (base : List Block) :
    Lawful (pageAllo os) where
  Inv := PageServes base
  own := fun s x => s.ctx.registryMap.Contains x
  wellFormed := fun h => h.live.choose_spec.wellFormed
  disjoint := fun h => h.live.choose_spec.disjoint
  own_apart := fun h hb hx => h.live.choose_spec.registry_apart hb hx
  alloc := fun h hn => h.alloc hos hn
  store := fun h hw hP => ⟨⟨⟨_, h.live.choose_spec.store hw hP⟩, h.aligned⟩, fun _ hy => hy⟩
  free := fun h hb => h.free hb
  Closed := fun s _ => (liveMaps s.mem.trace).Perm base
  aligned := fun h hb => h.aligned _ hb
  perm := fun h hperm => ⟨⟨_, h.live.choose_spec.perm hperm⟩,
    fun b hb => h.aligned b (hperm.mem_iff.mpr hb)⟩
  freeNull := fun _ h => ⟨_, rfl, KeepsBytes.refl _ _, h⟩
  realloc := fun h hb hpos _ hn => h.realloc hos hb hpos hn
  destroy := fun h => ⟨_, rfl, (pageDestroyFn_spec h.live.choose_spec.inv).left⟩

end Liballo
