import Liballo.Fallback.Defs
import Liballo.Service

/-!
# Spilling over

A client takes a block from an allocator, puts an allocator of its own into the block and
makes a fallback allocator of the two. Requests that do not fit in the block spill over.
The fallback allocator keeps the promises of both.
-/

namespace Liballo

open Foundation

/-!
# Allocators on a part of a state
-/

/-- Where a smaller state is in a larger one. -/
structure Part (σ τ : Type) where
  get : σ -> τ
  put : τ -> σ -> σ

namespace Part

variable {σ τ : Type} (v : Part σ τ) (c : Allo τ)

def allo : Allo σ where
  alloc := fun size s => do
    let (ptr, t) ← alloAlloc c size (v.get s)
    some (ptr, v.put t s)
  realloc := fun ptr oldSize newSize s => do
    let (newPtr, t) ← c.realloc ptr oldSize newSize (v.get s)
    some (newPtr, v.put t s)
  freeMem := fun ptr size s => do
    let t ← alloFree c ptr size (v.get s)
    some (v.put t s)
  destroy := c.destroy.map (fun destroy s => do
    let t ← destroy (v.get s)
    some (v.put t s))
  contains := c.contains.map (fun contains ptr s => contains ptr (v.get s))

variable {v c} {s : σ} {t : τ} {p n : Nat}

theorem alloc_eq (h : alloAlloc c n (v.get s) = some (p, t)) :
    alloAlloc (v.allo c) n s = some (p, v.put t s) :=
  Option.bind_eq_some_iff.mpr ⟨(p, t), h, rfl⟩

theorem free_eq (h : alloFree c p n (v.get s) = some t) :
    alloFree (v.allo c) p n s = some (v.put t s) :=
  Option.bind_eq_some_iff.mpr ⟨t, h, rfl⟩

theorem realloc_eq {ptr old : Nat} (h : c.realloc ptr old n (v.get s) = some (p, t)) :
    (v.allo c).realloc ptr old n s = some (p, v.put t s) :=
  Option.bind_eq_some_iff.mpr ⟨(p, t), h, rfl⟩

theorem contains_eq (x : Nat) : alloContains (v.allo c) x s = alloContains c x (v.get s) := by
  unfold alloContains allo
  cases c.contains with
  | none => rfl
  | some contains => rfl

end Part

/-!
# Residents of a block
-/

/-- The range lies in the block. -/
def WritesIn (region : Block) (x n : Nat) : Prop :=
  Block.Inside ⟨x, n⟩ region

/-- A resident is a service that has all its blocks and everything it stores in `region`,
answers exactly which pointers are in there, and minds no change elsewhere. -/
structure Resident {τ : Type} [HasMem τ] (c : Allo τ) (limit : Nat) (region : Block)
    extends Service c limit where
  inside : forall {t L b}, Inv t L -> b ∈ L -> b.Inside region
  contains : forall {t L} x, Inv t L ->
    alloContains c x t =
      some (if region.Contains x then AlloContains.yes else AlloContains.no)
  wrote_alloc : forall {t L n p t'}, Inv t L -> alloAlloc c n t = some (p, t') ->
    Wrote (WritesIn region) (mem t) (mem t')
  wrote_free : forall {t L b t'}, Inv t L -> b ∈ L -> alloFree c b.ptr b.size t = some t' ->
    Wrote (WritesIn region) (mem t) (mem t')
  wrote_realloc : forall {t L b n p t'}, Inv t L -> b ∈ L -> n ≠ 0 -> n < limit ->
    c.realloc b.ptr b.size n t = some (p, t') -> Wrote (WritesIn region) (mem t) (mem t')
  congr : forall {t L m}, Inv t L ->
    (forall x, region.Contains x -> m.bytes x = (mem t).bytes x) -> Inv (setMem m t) L

/-- The resident keeps its context in `near`; the memory is that of the allocator below. -/
structure SpillState (τ χ : Type) where
  near : τ
  child : χ

section Spill

variable {τ χ : Type} [HasMem τ] [HasMem χ]

instance : HasMem (SpillState τ χ) where
  mem := fun s => mem s.child
  setMem := fun m s => { s with child := setMem m s.child }
  mem_setMem := by simp
  setMem_mem := by simp
  setMem_setMem := by simp

/-- The resident's part. -/
def nearPart : Part (SpillState τ χ) τ where
  get := fun s => setMem (mem s.child) s.near
  put := fun t s => { near := t, child := setMem (mem t) s.child }

def farPart : Part (SpillState τ χ) χ where
  get := SpillState.child
  put := fun w s => { s with child := w }

theorem mem_get_near (s : SpillState τ χ) : mem (nearPart.get s) = mem s :=
  HasMem.mem_setMem _ _

theorem mem_put_near (t : τ) (s : SpillState τ χ) : mem (nearPart.put t s) = mem t :=
  HasMem.mem_setMem _ _

/-- The resident first, and then the allocator that its block came from. -/
def spillAllo (c : Allo τ) (a : Allo χ) : Allo (SpillState τ χ) :=
  fallbackAllo (nearPart.allo c) (farPart.allo a)

/-- The resident has handed out `near`, and the allocator below `far` besides the block of the
resident and the blocks `base` of others. -/
structure Spilt {c : Allo τ} {a : Allo χ} {limit : Nat} {region : Block}
    (R : Resident c limit region) (A : Lawful a) (base : List Block)
    (s : SpillState τ χ) (near far : List Block) : Prop where
  near : R.Inv (nearPart.get s) near
  far : A.Inv s.child (region :: (far ++ base))

namespace Spilt

variable {c : Allo τ} {a : Allo χ} {limit n : Nat} {region b d : Block}
variable {R : Resident c limit region} {A : Lawful a} {base near near' far far' : List Block}
variable {s : SpillState τ χ} {t : τ} {w : χ} {m : Mem}

theorem far_apart (h : Spilt R A base s near far) (hd : d ∈ far) : region.Disjoint d :=
  (List.pairwise_cons.mp (A.disjoint h.far)).left d (List.mem_append_left base hd)

theorem near_far_apart (h : Spilt R A base s near far) (hb : b ∈ near) (hd : d ∈ far) :
    b.Disjoint d :=
  (R.inside h.near hb).disjoint (h.far_apart hd)

theorem wellFormed (h : Spilt R A base s near far) : AllWellFormed (near ++ far) := by
  intro b hb
  rcases List.mem_append.mp hb with hnear | hfar
  · exact R.wellFormed h.near b hnear
  · exact A.wellFormed h.far b (List.mem_cons_of_mem region (List.mem_append_left base hfar))

theorem disjoint (h : Spilt R A base s near far) : AllDisjoint (near ++ far) := by
  apply List.pairwise_append.mpr
  refine ⟨R.disjoint h.near, ?_, fun b hb d hd => h.near_far_apart hb hd⟩
  exact (List.pairwise_append.mp (List.pairwise_cons.mp (A.disjoint h.far)).right).left

/-- The resident did something and kept the blocks `K`. -/
theorem near_step (h : Spilt R A base s near far) {K : List Block} (hinv : R.Inv t near')
    (hw : Wrote (WritesIn region) (mem (nearPart.get s)) (mem t))
    (hkeeps : KeepsBytes K (mem (nearPart.get s)) (mem t)) :
    Spilt R A base (nearPart.put t s) near' far ∧
      KeepsBytes (K ++ far) (mem s) (mem (nearPart.put t s)) := by
  rw [mem_get_near] at hw hkeeps
  rw [mem_put_near]
  constructor
  · constructor
    · have hget : nearPart.get (nearPart.put t s) = t := by
        simp [nearPart]
      rw [hget]
      exact hinv
    · exact (A.toContract.store_inside h.far hw
        (fun x k hxk => ⟨region, List.mem_cons_self, hxk⟩)).left
  · have hfar : KeepsBytes far (mem s) (mem t) := by
      apply KeepsBytes.of_wrote hw
      exact fun x k hxk d hd => (hxk.disjoint (h.far_apart hd)).symm
    intro b hb
    rcases List.mem_append.mp hb with hnb | hfb
    · exact hkeeps b hnb
    · exact hfar b hfb

/-- The allocator below did something and kept the blocks `K` and those of others. -/
theorem far_step (h : Spilt R A base s near far) {K : List Block}
    (hinv : A.Inv w (region :: (far' ++ base)))
    (hkeeps : KeepsBytes (region :: (K ++ base)) (mem s) (mem w)) :
    Spilt R A base (farPart.put w s) near far' ∧
      KeepsBytes (near ++ K) (mem s) (mem (farPart.put w s)) := by
  have hregion : forall x, region.Contains x -> (mem w).bytes x = (mem s).bytes x :=
    hkeeps region List.mem_cons_self
  constructor
  · constructor
    · have hget : nearPart.get (farPart.put w s) = setMem (mem w) (nearPart.get s) := by
        simp [nearPart, farPart]
      rw [hget]
      apply R.congr h.near
      intro x hx
      rw [hregion x hx, mem_get_near]
    · exact hinv
  · intro b hb
    rcases List.mem_append.mp hb with hnb | hkb
    · exact fun x hx => hregion x ((R.inside h.near hnb).contains hx)
    · exact hkeeps b (List.mem_cons_of_mem region (List.mem_append_left base hkb))

/-- A client of both stored something. -/
theorem store (h : Spilt R A base s near far) {P : Nat -> Nat -> Prop}
    (hw : Wrote P (mem s) m)
    (hP : forall x k, P x k -> exists b, b ∈ near ++ far ∧ Block.Inside ⟨x, k⟩ b) :
    Spilt R A base (setMem m s) near far := by
  constructor
  · -- What the resident sees of the store is what happened in its region.
    let seen : Mem :=
      { bytes := fun x => if region.Contains x then m.bytes x else (mem s).bytes x
        trace := (mem s).trace }
    have hseen : Wrote (fun x k => P x k ∧ exists b, b ∈ near ∧ Block.Inside ⟨x, k⟩ b)
        (mem (nearPart.get s)) seen := by
      rw [mem_get_near]
      refine ⟨⟨[], rfl, fun e he => absurd he List.not_mem_nil⟩, ?_⟩
      intro x hx
      by_cases hin : region.Contains x
      · simp only [seen, if_pos hin]
        apply hw.bytes
        intro y k hyk hxy
        rcases hP y k hyk with ⟨b, hb, hinside⟩
        rcases List.mem_append.mp hb with hnb | hfb
        · exact hx y k ⟨hyk, b, hnb, hinside⟩ hxy
        · exact (h.far_apart hfb).not_contains hin (hinside.contains hxy)
      · simp only [seen, if_neg hin]
    have hstored := R.congr (R.store h.near hseen (fun x k hxk => hxk.right)) (m := m)
    rw [HasMem.mem_setMem] at hstored
    have hget : nearPart.get (setMem m s) = setMem m (setMem seen (nearPart.get s)) := by
      simp [nearPart, HasMem.setMem]
    rw [hget]
    apply hstored
    intro x hx
    simp only [seen, if_pos hx]
  · refine (A.toContract.store_inside h.far hw ?_).left
    intro x k hxk
    rcases hP x k hxk with ⟨b, hb, hinside⟩
    rcases List.mem_append.mp hb with hnb | hfb
    · exact ⟨region, List.mem_cons_self, hinside.trans (R.inside h.near hnb)⟩
    · exact ⟨b, List.mem_cons_of_mem region (List.mem_append_left base hfb), hinside⟩

/-!
# Who has a block
-/

theorem contains_near (h : Spilt R A base s near far) (hb : b ∈ near) :
    alloContains (nearPart.allo c) b.ptr s = some AlloContains.yes := by
  have hpos := (R.wellFormed h.near b hb).right.left
  have hin : region.Contains b.ptr :=
    (R.inside h.near hb).contains ⟨Nat.le_refl _, Nat.lt_add_of_pos_right hpos⟩
  rw [Part.contains_eq, R.contains b.ptr h.near, if_pos hin]

theorem contains_far (h : Spilt R A base s near far) (hb : b ∈ far) :
    alloContains (nearPart.allo c) b.ptr s = some AlloContains.no := by
  have hpos := (h.wellFormed b (List.mem_append_right near hb)).right.left
  have hout : ¬ region.Contains b.ptr := fun hin =>
    (h.far_apart hb).not_contains hin ⟨Nat.le_refl _, Nat.lt_add_of_pos_right hpos⟩
  rw [Part.contains_eq, R.contains b.ptr h.near, if_neg hout]

theorem not_near (h : Spilt R A base s near far) (hb : b ∈ far) : b ∉ near := by
  intro hnear
  have hyes := h.contains_near hnear
  rw [h.contains_far hb] at hyes
  cases hyes

theorem erase_far (h : Spilt R A base s near far) (hb : b ∈ far) :
    (region :: (far ++ base)).erase b = region :: (far.erase b ++ base) := by
  have hne : region ≠ b := by
    rintro rfl
    have hpos := (h.wellFormed region (List.mem_append_right near hb)).right.left
    exact (h.far_apart hb).not_contains ⟨Nat.le_refl _, Nat.lt_add_of_pos_right hpos⟩
      ⟨Nat.le_refl _, Nat.lt_add_of_pos_right hpos⟩
  rw [List.erase_cons_tail (by simpa using hne), List.erase_append_left _ hb]

/-!
# Operations
-/

/-- The block `d` came from the allocator below. -/
theorem granted_far (h : A.Inv w (d :: region :: (far ++ base))) :
    A.Inv w (region :: (d :: far ++ base)) :=
  A.perm h (List.Perm.swap region d (far ++ base))

theorem alloc_far (h : Spilt R A base s near far) (hn : n < 2 ^ 64) :
    exists p s', alloAlloc (farPart.allo a) n s = some (p, s') ∧
      KeepsBytes (near ++ far) (mem s) (mem s') ∧
        (p = NULL ∧ Spilt R A base s' near far ∨
          p ≠ NULL ∧ Spilt R A base s' near (⟨p, n⟩ :: far)) := by
  rcases A.alloc h.far hn with ⟨p, w, hcall, hkeeps, hcase⟩
  refine ⟨p, farPart.put w s, Part.alloc_eq hcall, ?_⟩
  rcases hcase with ⟨hnull, hinv⟩ | ⟨hne, hinv⟩
  · rcases h.far_step hinv hkeeps with ⟨hspilt, hkept⟩
    exact ⟨hkept, Or.inl ⟨hnull, hspilt⟩⟩
  · rcases h.far_step (granted_far hinv) hkeeps with ⟨hspilt, hkept⟩
    exact ⟨hkept, Or.inr ⟨hne, hspilt⟩⟩

/-- A request goes to the resident first, and spills over if it is refused. -/
theorem alloc (h : Spilt R A base s near far) (hn : n < limit) :
    exists p s', alloAlloc (spillAllo c a) n s = some (p, s') ∧
      KeepsBytes (near ++ far) (mem s) (mem s') ∧
        (p = NULL ∧ Spilt R A base s' near far ∨
          p ≠ NULL ∧ (Spilt R A base s' (⟨p, n⟩ :: near) far ∨
            Spilt R A base s' near (⟨p, n⟩ :: far))) := by
  rcases R.alloc h.near hn with ⟨p, t, hcall, hkeeps, hcase⟩
  have hw := R.wrote_alloc h.near hcall
  have hfirst : alloAlloc (nearPart.allo c) n s = some (p, nearPart.put t s) :=
    Part.alloc_eq hcall
  have hgoes : alloAlloc (spillAllo c a) n s =
      if p = NULL then alloAlloc (farPart.allo a) n (nearPart.put t s)
      else some (p, nearPart.put t s) := by
    show fallbackAllocFn (nearPart.allo c) (farPart.allo a) n s = _
    simp only [fallbackAllocFn, hfirst, Option.bind_eq_bind, Option.bind_some]
  rcases hcase with ⟨hnull, hinv⟩ | ⟨hne, hinv⟩
  · rcases h.near_step hinv hw hkeeps with ⟨hspilt, hfirst⟩
    rcases hspilt.alloc_far (Nat.lt_of_lt_of_le hn R.limit_le) with
      ⟨q, s', hsecond, hkept, hcase⟩
    rw [if_pos hnull, hsecond] at hgoes
    refine ⟨q, s', hgoes, hfirst.trans hkept, ?_⟩
    exact hcase.imp_right (fun hgrant => ⟨hgrant.left, Or.inr hgrant.right⟩)
  · rcases h.near_step hinv hw hkeeps with ⟨hspilt, hkept⟩
    rw [if_neg hne] at hgoes
    exact ⟨p, _, hgoes, hkept, Or.inr ⟨hne, Or.inl hspilt⟩⟩

theorem free_near (h : Spilt R A base s near far) (hb : b ∈ near) :
    exists s', alloFree (nearPart.allo c) b.ptr b.size s = some s' ∧
      KeepsBytes (near.erase b ++ far) (mem s) (mem s') ∧
        Spilt R A base s' (near.erase b) far := by
  rcases R.free h.near hb with ⟨t, hcall, hkeeps, hinv⟩
  rcases h.near_step hinv (R.wrote_free h.near hb hcall) hkeeps with ⟨hspilt, hkept⟩
  exact ⟨_, Part.free_eq hcall, hkept, hspilt⟩

theorem free_far (h : Spilt R A base s near far) (hb : b ∈ far) :
    exists s', alloFree (farPart.allo a) b.ptr b.size s = some s' ∧
      KeepsBytes (near ++ far.erase b) (mem s) (mem s') ∧
        Spilt R A base s' near (far.erase b) := by
  have hmem : b ∈ region :: (far ++ base) :=
    List.mem_cons_of_mem region (List.mem_append_left base hb)
  rcases A.free h.far hmem with ⟨w, hcall, hkeeps, hinv⟩
  rw [h.erase_far hb] at hkeeps hinv
  rcases h.far_step hinv hkeeps with ⟨hspilt, hkept⟩
  exact ⟨_, Part.free_eq hcall, hkept, hspilt⟩

/-- A free goes to the side that has the block. -/
theorem free (h : Spilt R A base s near far) (hb : b ∈ near ++ far) :
    exists s', alloFree (spillAllo c a) b.ptr b.size s = some s' ∧
      KeepsBytes ((near ++ far).erase b) (mem s) (mem s') ∧
        exists near' far', (near' ++ far').Perm ((near ++ far).erase b) ∧
          Spilt R A base s' near' far' := by
  have hptr : b.ptr ≠ NULL := Nat.ne_of_gt (h.wellFormed b hb).left
  have hgoes : forall answer, alloContains (nearPart.allo c) b.ptr s = some answer ->
      alloFree (spillAllo c a) b.ptr b.size s =
        if answer = AlloContains.yes ∨ answer = AlloContains.unknown then
          alloFree (nearPart.allo c) b.ptr b.size s
        else alloFree (farPart.allo a) b.ptr b.size s := by
    intro answer hanswer
    show fallbackFreeFn (nearPart.allo c) (farPart.allo a) b.ptr b.size s = _
    simp only [fallbackFreeFn, if_neg hptr, hanswer, Option.bind_eq_bind, Option.bind_some]
  rcases List.mem_append.mp hb with hnear | hfar
  · rcases h.free_near hnear with ⟨s', hcall, hkeeps, hspilt⟩
    have heq := hgoes _ (h.contains_near hnear)
    rw [if_pos (Or.inl rfl), hcall] at heq
    rw [List.erase_append_left _ hnear]
    exact ⟨s', heq, hkeeps, _, _, List.Perm.refl _, hspilt⟩
  · rcases h.free_far hfar with ⟨s', hcall, hkeeps, hspilt⟩
    have heq := hgoes _ (h.contains_far hfar)
    rw [if_neg (by decide), hcall] at heq
    rw [List.erase_append_right _ (h.not_near hfar)]
    exact ⟨s', heq, hkeeps, _, _, List.Perm.refl _, hspilt⟩

/-!
# Reallocation
-/

/-- A reallocation within the allocator below. -/
theorem realloc_far (h : Spilt R A base s near far) (hb : b ∈ far) (hpos : n ≠ 0)
    (hne : b.size ≠ n) (hn : n < 2 ^ 64) :
    exists p s', alloRealloc (farPart.allo a) b.ptr b.size n s = some (p, s') ∧
      (p = NULL ∧ Spilt R A base s' near far ∧ KeepsBytes (near ++ far) (mem s) (mem s') ∨
        p ≠ NULL ∧ Spilt R A base s' near (⟨p, n⟩ :: far.erase b) ∧
          KeepsBytes (near ++ far.erase b) (mem s) (mem s') ∧
            KeepsPrefix b.ptr p (min b.size n) (mem s) (mem s')) := by
  have hptr : b.ptr ≠ NULL :=
    Nat.ne_of_gt (h.wellFormed b (List.mem_append_right near hb)).left
  have hmem : b ∈ region :: (far ++ base) :=
    List.mem_cons_of_mem region (List.mem_append_left base hb)
  rcases A.realloc h.far hmem hpos hne hn with ⟨p, w, hcall, hcase⟩
  refine ⟨p, farPart.put w s, ?_, ?_⟩
  · rw [alloRealloc_pass hpos hptr hne]
    exact Part.realloc_eq hcall
  · rcases hcase with ⟨hnull, hinv, hkeeps⟩ | ⟨hp, hinv, hkeeps, hprefix⟩
    · rcases h.far_step hinv hkeeps with ⟨hspilt, hkept⟩
      exact Or.inl ⟨hnull, hspilt, hkept⟩
    · rw [h.erase_far hb] at hinv hkeeps
      rcases h.far_step (granted_far hinv) hkeeps with ⟨hspilt, hkept⟩
      exact Or.inr ⟨hp, hspilt, hkept, hprefix⟩

/-- A block of the resident moves to the new block `d` of the allocator below. -/
theorem move (h : Spilt R A base s near (d :: far)) (hb : b ∈ near) :
    exists m s', alloMemcpy d.ptr b.ptr (min b.size d.size) (mem s) = some m ∧
      alloFree (nearPart.allo c) b.ptr b.size (setMem m s) = some s' ∧
        Spilt R A base s' (near.erase b) (d :: far) ∧
          KeepsBytes (near.erase b ++ far) (mem s) (mem s') ∧
            KeepsPrefix b.ptr d.ptr (min b.size d.size) (mem s) (mem s') := by
  have hbw := h.wellFormed b (List.mem_append_left (d :: far) hb)
  have hdw := h.wellFormed d (List.mem_append_right near List.mem_cons_self)
  have hcopy : alloMemcpy d.ptr b.ptr (min b.size d.size) (mem s) =
      some ((mem s).copy d.ptr b.ptr (min b.size d.size)) :=
    alloMemcpy_blocks hbw hdw (h.near_far_apart hb List.mem_cons_self) (Nat.min_le_left _ _)
      (Nat.min_le_right _ _)
  have hwrote : Wrote (fun x k => x = d.ptr ∧ k = min b.size d.size) (mem s)
      ((mem s).copy d.ptr b.ptr (min b.size d.size)) := Wrote.copy ⟨rfl, rfl⟩
  have hstored := h.store hwrote (by
    rintro x k ⟨rfl, rfl⟩
    exact ⟨d, List.mem_append_right near List.mem_cons_self, Nat.le_refl _,
      Nat.add_le_add_left (Nat.min_le_right b.size d.size) d.ptr⟩)
  rcases hstored.free_near hb with ⟨s', hfree, hkeeps, hspilt⟩
  rw [HasMem.mem_setMem] at hkeeps
  have hapart : forall e, e ∈ near.erase b ++ far -> e.Disjoint d := by
    intro e he
    rcases List.mem_append.mp he with hnear | hfar
    · exact h.near_far_apart (List.mem_of_mem_erase hnear) List.mem_cons_self
    · have hdisjoint := (List.pairwise_append.mp h.disjoint).right.left
      exact ((List.pairwise_cons.mp hdisjoint).left e hfar).symm
  have hcopied : KeepsBytes (near.erase b ++ far) (mem s)
      ((mem s).copy d.ptr b.ptr (min b.size d.size)) :=
    KeepsBytes.copy (Nat.min_le_right b.size d.size) hapart
  refine ⟨_, s', hcopy, hfree, hspilt, ?_, ?_⟩
  · apply hcopied.trans (hkeeps.subset _)
    intro e he
    rcases List.mem_append.mp he with hnear | hfar
    · exact List.mem_append_left (d :: far) hnear
    · exact List.mem_append_right _ (List.mem_cons_of_mem d hfar)
  · exact KeepsPrefix.of_copy (fun _ _ => rfl)
      (hkeeps d (List.mem_append_right _ List.mem_cons_self))

end Spilt

/-!
# The fallback allocator serves
-/

/-- The client holds the blocks `L`. -/
def SpillServes {c : Allo τ} {a : Allo χ} {limit : Nat} {region : Block}
    (R : Resident c limit region) (A : Lawful a) (base : List Block)
    (s : SpillState τ χ) (L : List Block) : Prop :=
  exists near far, (near ++ far).Perm L ∧ Spilt R A base s near far

variable {c : Allo τ} {a : Allo χ} {limit n : Nat} {region b : Block}
variable {R : Resident c limit region} {A : Lawful a} {base near far L : List Block}
variable {s : SpillState τ χ}

theorem SpillServes.perm {M : List Block} (h : SpillServes R A base s L) (hperm : L.Perm M) :
    SpillServes R A base s M := by
  rcases h with ⟨near, far, hparts, hspilt⟩
  exact ⟨near, far, hparts.trans hperm, hspilt⟩

/-- A block of the resident is resized, or moves when the resident has no room for it. -/
theorem Spilt.realloc_near (h : Spilt R A base s near far) (hb : b ∈ near) (hpos : n ≠ 0)
    (hne : b.size ≠ n) (hn : n < limit) :
    exists p s', (spillAllo c a).realloc b.ptr b.size n s = some (p, s') ∧
      Reallocated (SpillServes R A base) s (near ++ far) b n p s' := by
  have hptr : b.ptr ≠ NULL := Nat.ne_of_gt (R.wellFormed h.near b hb).left
  rcases R.realloc h.near hb hpos hne hn with ⟨p, t, hcall, hcase⟩
  have hw := R.wrote_realloc h.near hb hpos hn hcall
  have hfirst : alloRealloc (nearPart.allo c) b.ptr b.size n s =
      some (p, nearPart.put t s) := by
    rw [alloRealloc_pass hpos hptr hne]
    exact Part.realloc_eq hcall
  have hgoes : (spillAllo c a).realloc b.ptr b.size n s =
      fallbackReallocFn (nearPart.allo c) (farPart.allo a) b.ptr b.size n s := rfl
  simp only [fallbackReallocFn, if_neg hptr, h.contains_near hb, true_or, if_true, hfirst,
    Option.bind_eq_bind, Option.bind_some] at hgoes
  rcases hcase with ⟨hnull, hinv, hkeeps⟩ | ⟨hp, hinv, hkeeps, hprefix⟩
  · rcases h.near_step hinv hw hkeeps with ⟨hspilt, hkept⟩
    rcases hspilt.alloc_far (Nat.lt_of_lt_of_le hn R.limit_le) with
      ⟨q, s₂, hsecond, hkept₂, hcase⟩
    simp only [ne_eq, hnull, not_true_eq_false, if_false, hsecond, Option.bind_some] at hgoes
    rcases hcase with ⟨hq, hspilt₂⟩ | ⟨hq, hspilt₂⟩
    · rw [if_pos hq] at hgoes
      exact ⟨NULL, s₂, hgoes,
        Or.inl ⟨rfl, ⟨near, far, List.Perm.refl _, hspilt₂⟩, hkept.trans hkept₂⟩⟩
    · rcases hspilt₂.move hb with ⟨m, s₃, hcopy, hfree, hspilt₃, hkept₃, hmoved⟩
      simp only [if_neg hq, copySize_eq, hcopy, Option.bind_some, hfree] at hgoes
      have hbytes := hkept.trans hkept₂
      unfold Reallocated
      rw [List.erase_append_left _ hb]
      refine ⟨q, s₃, hgoes, Or.inr ⟨hq, ?_, ?_, ?_⟩⟩
      · exact ⟨near.erase b, ⟨q, n⟩ :: far, List.perm_middle, hspilt₃⟩
      · apply KeepsBytes.trans (hbytes.subset _) hkept₃
        intro d hd
        rcases List.mem_append.mp hd with hnear | hfar
        · exact List.mem_append_left far (List.mem_of_mem_erase hnear)
        · exact List.mem_append_right near hfar
      · intro i hi
        have hin : i < b.size := Nat.lt_of_lt_of_le hi (Nat.min_le_left _ _)
        rw [hmoved i hi]
        exact hbytes b (List.mem_append_left far hb) _
          ⟨Nat.le_add_right _ i, Nat.add_lt_add_left hin _⟩
  · rcases h.near_step hinv hw hkeeps with ⟨hspilt, hkept⟩
    simp only [ne_eq, hp, not_false_eq_true, if_true] at hgoes
    unfold Reallocated
    rw [List.erase_append_left _ hb]
    refine ⟨p, _, hgoes, Or.inr ⟨hp, ?_, hkept, ?_⟩⟩
    · exact ⟨⟨p, n⟩ :: near.erase b, far, List.Perm.refl _, hspilt⟩
    · rw [mem_get_near] at hprefix
      rw [mem_put_near]
      exact hprefix

namespace SpillServes

theorem wellFormed (h : SpillServes R A base s L) : AllWellFormed L := by
  rcases h with ⟨near, far, hparts, hspilt⟩
  exact fun b hb => hspilt.wellFormed b (hparts.mem_iff.mpr hb)

theorem disjoint (h : SpillServes R A base s L) : AllDisjoint L := by
  rcases h with ⟨near, far, hparts, hspilt⟩
  exact (allDisjoint_perm hparts).mp hspilt.disjoint

theorem alloc (h : SpillServes R A base s L) (hn : n < limit) :
    exists p s', alloAlloc (spillAllo c a) n s = some (p, s') ∧
      KeepsBytes L (mem s) (mem s') ∧
        (p = NULL ∧ SpillServes R A base s' L ∨
          p ≠ NULL ∧ SpillServes R A base s' (⟨p, n⟩ :: L)) := by
  rcases h with ⟨near, far, hparts, hspilt⟩
  rcases hspilt.alloc hn with ⟨p, s', hcall, hkeeps, hcase⟩
  refine ⟨p, s', hcall, hkeeps.subset (fun d hd => hparts.mem_iff.mpr hd), ?_⟩
  rcases hcase with ⟨hnull, hsame⟩ | ⟨hne, hnear | hfar⟩
  · exact Or.inl ⟨hnull, near, far, hparts, hsame⟩
  · exact Or.inr ⟨hne, ⟨p, n⟩ :: near, far, hparts.cons _, hnear⟩
  · exact Or.inr ⟨hne, near, ⟨p, n⟩ :: far, List.perm_middle.trans (hparts.cons _), hfar⟩

theorem free (h : SpillServes R A base s L) (hb : b ∈ L) :
    exists s', alloFree (spillAllo c a) b.ptr b.size s = some s' ∧
      KeepsBytes (L.erase b) (mem s) (mem s') ∧ SpillServes R A base s' (L.erase b) := by
  rcases h with ⟨near, far, hparts, hspilt⟩
  rcases hspilt.free (hparts.mem_iff.mpr hb) with
    ⟨s', hcall, hkeeps, near', far', hrest, hspilt'⟩
  have herase : ((near ++ far).erase b).Perm (L.erase b) := hparts.erase b
  exact ⟨s', hcall, hkeeps.subset (fun d hd => herase.mem_iff.mpr hd), near', far',
    hrest.trans herase, hspilt'⟩

theorem freeNull (n : Nat) (h : SpillServes R A base s L) :
    exists s', alloFree (spillAllo c a) NULL n s = some s' ∧
      KeepsBytes L (mem s) (mem s') ∧ SpillServes R A base s' L :=
  ⟨s, rfl, KeepsBytes.refl L _, h⟩

theorem realloc (h : SpillServes R A base s L) (hb : b ∈ L) (hpos : n ≠ 0)
    (hne : b.size ≠ n) (hn : n < limit) :
    exists p s', (spillAllo c a).realloc b.ptr b.size n s = some (p, s') ∧
      Reallocated (SpillServes R A base) s L b n p s' := by
  rcases h with ⟨near, far, hparts, hspilt⟩
  rcases List.mem_append.mp (hparts.mem_iff.mpr hb) with hnear | hfar
  · rcases hspilt.realloc_near hnear hpos hne hn with ⟨p, s', hcall, hdone⟩
    exact ⟨p, s', hcall, hdone.perm hparts SpillServes.perm⟩
  · have hptr : b.ptr ≠ NULL :=
      Nat.ne_of_gt (hspilt.wellFormed b (List.mem_append_right near hfar)).left
    rcases hspilt.realloc_far hfar hpos hne (Nat.lt_of_lt_of_le hn R.limit_le) with
      ⟨p, s', hsecond, hcase⟩
    have hcall : (spillAllo c a).realloc b.ptr b.size n s = some (p, s') := by
      show fallbackReallocFn (nearPart.allo c) (farPart.allo a) b.ptr b.size n s = _
      simp only [fallbackReallocFn, if_neg hptr, hspilt.contains_far hfar,
        Option.bind_eq_bind, Option.bind_some]
      rw [if_neg (by decide), hsecond]
    refine ⟨p, s', hcall, Reallocated.perm ?_ hparts SpillServes.perm⟩
    unfold Reallocated
    rw [List.erase_append_right _ (hspilt.not_near hfar)]
    rcases hcase with ⟨hnull, hsame, hkept⟩ | ⟨hp, hnew, hkept, hprefix⟩
    · exact Or.inl ⟨hnull, ⟨near, far, List.Perm.refl _, hsame⟩, hkept⟩
    · refine Or.inr ⟨hp, ⟨near, ⟨p, n⟩ :: far.erase b, List.perm_middle, hnew⟩, hkept, hprefix⟩

theorem store (h : SpillServes R A base s L) {P : Nat -> Nat -> Prop} {m : Mem}
    (hw : Wrote P (mem s) m)
    (hP : forall x k, P x k -> exists b, b ∈ L ∧ Block.Inside ⟨x, k⟩ b) :
    SpillServes R A base (setMem m s) L := by
  rcases h with ⟨near, far, hparts, hspilt⟩
  refine ⟨near, far, hparts, hspilt.store hw (fun x k hxk => ?_)⟩
  rcases hP x k hxk with ⟨b, hb, hinside⟩
  exact ⟨b, hparts.mem_iff.mpr hb, hinside⟩

end SpillServes

/-- The fallback allocator does not own the two allocators it stands on. -/
def spillService (R : Resident c limit region) (A : Lawful a) (base : List Block) :
    Service (spillAllo c a) limit where
  Inv := SpillServes R A base
  Closed := SpillServes R A base
  limit_le := R.limit_le
  wellFormed := SpillServes.wellFormed
  disjoint := SpillServes.disjoint
  perm := SpillServes.perm
  alloc := SpillServes.alloc
  free := SpillServes.free
  freeNull := SpillServes.freeNull
  realloc := SpillServes.realloc
  store := fun h hw hP => h.store hw hP
  destroy := fun h => ⟨_, rfl, h⟩

end Spill

end Liballo
