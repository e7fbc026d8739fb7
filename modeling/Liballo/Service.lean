import Liballo.Contract
import Liballo.Foundation.ObjectStore

/-!
# Allocators as object stores

A service is an allocator that keeps its promises to a client: every call of the
interface returns, blocks never overlap and nobody's bytes are lost. It implements the
object store, whatever the client does and in whatever order, and also after it is
destroyed there is something to say about what it took.
-/

namespace Liballo

open Foundation

/-!
# Services
-/

/-- What a reallocation of `b` to `n` bytes that was answered `p` did. -/
def Reallocated {σ : Type} [HasMem σ] (Inv : σ -> List Block -> Prop) (s : σ)
    (L : List Block) (b : Block) (n p : Nat) (s' : σ) : Prop :=
  p = NULL ∧ Inv s' L ∧ KeepsBytes L (mem s) (mem s') ∨
    p ≠ NULL ∧ Inv s' (⟨p, n⟩ :: L.erase b) ∧ KeepsBytes (L.erase b) (mem s) (mem s') ∧
      KeepsPrefix b.ptr p (min b.size n) (mem s) (mem s')

theorem Reallocated.perm {σ : Type} [HasMem σ] {Inv : σ -> List Block -> Prop} {s s' : σ}
    {L M : List Block} {b : Block} {n p : Nat} (h : Reallocated Inv s L b n p s')
    (hperm : L.Perm M) (hinv : forall {s L M}, Inv s L -> L.Perm M -> Inv s M) :
    Reallocated Inv s M b n p s' := by
  rcases h with ⟨hnull, hsame, hkeeps⟩ | ⟨hne, hnew, hkeeps, hprefix⟩
  · exact Or.inl ⟨hnull, hinv hsame hperm,
      hkeeps.subset (fun d hd => hperm.mem_iff.mpr hd)⟩
  · have herase : (L.erase b).Perm (M.erase b) := hperm.erase b
    exact Or.inr ⟨hne, hinv hnew (herase.cons _),
      hkeeps.subset (fun d hd => herase.mem_iff.mpr hd), hprefix⟩

/-- `Inv s L` says that in the state `s` exactly the blocks `L` are live, and
`Closed s L` that the allocator was destroyed while they were. Requests are for fewer
than `limit` bytes. -/
structure Service {σ : Type} [HasMem σ] (a : Allo σ) (limit : Nat) where
  Inv : σ -> List Block -> Prop
  Closed : σ -> List Block -> Prop
  limit_le : limit ≤ 2 ^ 64
  wellFormed : forall {s L}, Inv s L -> AllWellFormed L
  disjoint : forall {s L}, Inv s L -> AllDisjoint L
  perm : forall {s L M}, Inv s L -> L.Perm M -> Inv s M
  alloc : forall {s L n}, Inv s L -> n < limit ->
    exists p s', alloAlloc a n s = some (p, s') ∧ KeepsBytes L (mem s) (mem s') ∧
      (p = NULL ∧ Inv s' L ∨ p ≠ NULL ∧ Inv s' (⟨p, n⟩ :: L))
  free : forall {s L b}, Inv s L -> b ∈ L ->
    exists s', alloFree a b.ptr b.size s = some s' ∧
      KeepsBytes (L.erase b) (mem s) (mem s') ∧ Inv s' (L.erase b)
  freeNull : forall {s L} n, Inv s L ->
    exists s', alloFree a NULL n s = some s' ∧ KeepsBytes L (mem s) (mem s') ∧ Inv s' L
  realloc : forall {s L b n}, Inv s L -> b ∈ L -> n ≠ 0 -> b.size ≠ n -> n < limit ->
    exists p s', a.realloc b.ptr b.size n s = some (p, s') ∧
      Reallocated Inv s L b n p s'
  store : forall {s L P m}, Inv s L -> Wrote P (mem s) m ->
    (forall x n, P x n -> exists b, b ∈ L ∧ Block.Inside ⟨x, n⟩ b) ->
      Inv (setMem m s) L
  destroy : forall {s L}, Inv s L -> exists s', alloDestroy a s = some s' ∧ Closed s' L

/-- A lawful allocator is a contract for the allocators on top of it and a service for
its own clients, who may put any object of eight bytes at the start of a block. -/
structure Lawful {χ : Type} [HasMem χ] (a : Allo χ) extends Contract a where
  Closed : χ -> List Block -> Prop
  aligned : forall {w L b}, Inv w L -> b ∈ L -> 8 ∣ b.ptr
  perm : forall {w L M}, Inv w L -> L.Perm M -> Inv w M
  freeNull : forall {w L} n, Inv w L ->
    exists w', alloFree a NULL n w = some w' ∧ KeepsBytes L (mem w) (mem w') ∧ Inv w' L
  realloc : forall {w L b n}, Inv w L -> b ∈ L -> n ≠ 0 -> b.size ≠ n -> n < 2 ^ 64 ->
    exists p w', a.realloc b.ptr b.size n w = some (p, w') ∧
      Reallocated Inv w L b n p w'
  destroy : forall {w L}, Inv w L -> exists w', alloDestroy a w = some w' ∧ Closed w' L

theorem wholeLimit_le : 2 ^ 64 ≤ 2 ^ 64 :=
  Nat.le_refl _

def Lawful.service {χ : Type} [HasMem χ] {a : Allo χ} (A : Lawful a) :
    Service a (2 ^ 64) where
  Inv := A.Inv
  Closed := A.Closed
  limit_le := wholeLimit_le
  wellFormed := A.wellFormed
  disjoint := A.disjoint
  perm := A.perm
  alloc := A.alloc
  free := A.free
  freeNull := A.freeNull
  realloc := A.realloc
  store := fun h hw hP => (A.toContract.store_inside h hw hP).left
  destroy := A.destroy

/-!
# The calls of the interface
-/

/-- The wrapper that carries a call out, with the pointer it returns. -/
def perform {σ : Type} [HasMem σ] (a : Allo σ) : Server σ Request Nat
  | Request.alloc size, s => alloAlloc a size s
  | Request.calloc nmemb size, s => alloCalloc a nmemb size s
  | Request.free b, s => do
      let s ← alloFree a b.ptr b.size s
      some (NULL, s)
  | Request.freeNull size, s => do
      let s ← alloFree a NULL size s
      some (NULL, s)
  | Request.realloc b newSize, s => alloRealloc a b.ptr b.size newSize s
  | Request.reallocNull oldSize newSize, s => alloRealloc a NULL oldSize newSize s
  | Request.store x v, s => some (NULL, modifyMem (Mem.poke x v) s)

namespace Service

variable {σ : Type} [HasMem σ] {a : Allo σ} {limit : Nat} (S : Service a limit)
variable {s : σ} {L : List Block} {b : Block} {n : Nat}

/-- A granted block. -/
theorem granted {p : Nat} (h : S.Inv s (⟨p, n⟩ :: L)) : Granted ⟨p, n⟩ L :=
  ⟨S.wellFormed h _ List.mem_cons_self, (List.pairwise_cons.mp (S.disjoint h)).left⟩

theorem poke (h : S.Inv s L) {x : Nat} (hx : exists b, b ∈ L ∧ b.Contains x) (v : UInt8) :
    S.Inv (modifyMem (Mem.poke x v) s) L := by
  rcases hx with ⟨b, hb, hle, hlt⟩
  apply S.store h (Wrote.poke (P := fun y k => y = x ∧ k = 1) ⟨rfl, rfl⟩)
  rintro y k ⟨rfl, rfl⟩
  exact ⟨b, hb, hle, hlt⟩

/-- Filling a live block. -/
theorem fill (h : S.Inv s L) (hb : b ∈ L) (c : Nat) :
    S.Inv (modifyMem (alloMemset b.ptr c b.size) s) L := by
  have hset : Wrote (fun x k => x = b.ptr ∧ k = b.size) (mem s)
      (alloMemset b.ptr c b.size (mem s)) := wrote_alloMemset ⟨rfl, rfl⟩
  apply S.store h hset
  rintro x k ⟨rfl, rfl⟩
  exact ⟨b, hb, Nat.le_refl _, Nat.le_refl _⟩

/-- A new block that is filled. -/
theorem filled {p : Nat} (h : S.Inv s (⟨p, n⟩ :: L)) (c : Nat) :
    S.Inv (modifyMem (alloMemset p c n) s) (⟨p, n⟩ :: L) ∧
      KeepsBytes L (mem s) (mem (modifyMem (alloMemset p c n) s)) ∧
        forall i, i < n ->
          (mem (modifyMem (alloMemset p c n) s)).bytes (p + i) = UInt8.ofNat c := by
  have hset : Wrote (fun x k => x = p ∧ k = n) (mem s) (alloMemset p c n (mem s)) :=
    wrote_alloMemset ⟨rfl, rfl⟩
  rw [mem_modifyMem]
  refine ⟨S.fill h List.mem_cons_self c, ?_, ?_⟩
  · apply KeepsBytes.of_wrote hset
    rintro x k ⟨rfl, rfl⟩ d hd
    exact ((S.granted h).right d hd).symm
  · intro i hi
    simp [alloMemset, hi]

/-- A reallocation through the wrapper. -/
theorem wrapped_realloc (h : S.Inv s L) (hb : b ∈ L) (hpos : n ≠ 0) (hn : n < limit) :
    exists p s', alloRealloc a b.ptr b.size n s = some (p, s') ∧
      Reallocated S.Inv s L b n p s' := by
  have hptr : b.ptr ≠ NULL := Nat.ne_of_gt (S.wellFormed h b hb).left
  by_cases hsame : b.size = n
  · subst hsame
    refine ⟨b.ptr, s, alloRealloc_same hpos hptr, Or.inr ⟨hptr, ?_, ?_, ?_⟩⟩
    · exact S.perm h (List.perm_cons_erase hb)
    · exact KeepsBytes.refl _ _
    · exact fun _ _ => rfl
  · rcases S.realloc h hb hpos hsame hn with ⟨p, s', hcall, hdone⟩
    rw [← alloRealloc_pass hpos hptr hsame] at hcall
    exact ⟨p, s', hcall, hdone⟩

/-- A reallocation of the null pointer through the wrapper. -/
theorem wrapped_realloc_null (h : S.Inv s L) (oldSize : Nat) (hn : n < limit) :
    exists p s', alloRealloc a NULL oldSize n s = some (p, s') ∧
      KeepsBytes L (mem s) (mem s') ∧
        (p = NULL ∧ S.Inv s' L ∨ p ≠ NULL ∧ n ≠ 0 ∧ S.Inv s' (⟨p, n⟩ :: L)) := by
  by_cases hzero : n = 0
  · subst hzero
    rcases S.freeNull oldSize h with ⟨s', hcall, hkeeps, hinv⟩
    exact ⟨NULL, s', alloRealloc_zero hcall, hkeeps, Or.inl ⟨rfl, hinv⟩⟩
  · rcases S.alloc h hn with ⟨p, s', hcall, hkeeps, hcase⟩
    have hpass : alloRealloc a NULL oldSize n s = some (p, s') := by
      simpa [alloRealloc, hzero] using hcall
    refine ⟨p, s', hpass, hkeeps, hcase.imp_right ?_⟩
    exact fun hgrant => ⟨hgrant.left, hzero, hgrant.right⟩

end Service

/-!
# Zeroed arrays
-/

theorem sizeMul_overflows {nmemb size : Nat} :
    (size > 0 ∧ nmemb > (sizeMod - 1) / size) <-> 2 ^ 64 ≤ nmemb * size := by
  constructor
  · rintro ⟨hpos, hlarge⟩
    have hlt := Nat.lt_mul_of_div_lt hlarge hpos
    simp only [sizeMod] at hlt
    omega
  · intro hle
    have hpos : 0 < size := by
      rcases Nat.eq_zero_or_pos size with hzero | hpos
      · subst hzero
        omega
      · exact hpos
    refine ⟨hpos, (Nat.div_lt_iff_lt_mul hpos).mpr ?_⟩
    simp only [sizeMod]
    omega

section Calloc

variable {σ : Type} [HasMem σ] {a : Allo σ} {limit : Nat} (S : Service a limit)
variable {s : σ} {L : List Block} {nmemb size : Nat}

theorem alloCalloc_overflows (h : 2 ^ 64 ≤ nmemb * size) :
    alloCalloc a nmemb size s = some (NULL, s) := by
  unfold alloCalloc
  rw [if_pos (sizeMul_overflows.mpr h)]

/-- An array is refused, or all its bytes are zero. -/
theorem Service.calloc (h : S.Inv s L)
    (hsize : nmemb * size < limit ∨ 2 ^ 64 ≤ nmemb * size) :
    exists p s', alloCalloc a nmemb size s = some (p, s') ∧
      KeepsBytes L (mem s) (mem s') ∧
        (p = NULL ∧ S.Inv s' L ∨
          p ≠ NULL ∧ S.Inv s' (⟨p, nmemb * size⟩ :: L) ∧
            forall i, i < nmemb * size -> (mem s').bytes (p + i) = 0) := by
  by_cases hover : 2 ^ 64 ≤ nmemb * size
  · exact ⟨NULL, s, alloCalloc_overflows hover, KeepsBytes.refl L _,
      Or.inl ⟨rfl, h⟩⟩
  · have hlt : nmemb * size < limit := hsize.resolve_right hover
    have htotal : sizeMul nmemb size = nmemb * size :=
      sizeMul_eq (Nat.lt_of_lt_of_le hlt S.limit_le)
    unfold alloCalloc
    rw [if_neg (fun hcheck => hover (sizeMul_overflows.mp hcheck))]
    rcases S.alloc h hlt with ⟨p, s', hcall, hkeeps, hcase⟩
    simp only [htotal, hcall, Option.bind_eq_bind, Option.bind_some]
    rcases hcase with ⟨hnull, hinv⟩ | ⟨hne, hinv⟩
    · rw [if_pos hnull]
      exact ⟨p, s', rfl, hkeeps, Or.inl ⟨hnull, hinv⟩⟩
    · rw [if_neg hne]
      rcases S.filled hinv 0 with ⟨hfilled, hothers, hzero⟩
      exact ⟨p, _, rfl, hkeeps.trans hothers, Or.inr ⟨hne, hfilled, hzero⟩⟩

end Calloc

/-!
# Services implement the object store
-/

namespace Service

variable {σ : Type} [HasMem σ] {a : Allo σ} {limit : Nat} (S : Service a limit)

/-- The live blocks are the objects of the client, and the memory holds their bytes. -/
def Holds (s : σ) (L : Objects) : Prop :=
  S.Inv s L.blocks ∧ L.Agree (mem s)

/-- What a call did. -/
def Served (s : σ) (L : Objects) (c : Request) : Prop :=
  exists p s', perform a c s = some (p, s') ∧ L.AllowsAnswer c p ∧
    S.Holds s' (L.afterRequest c p)

variable {S} {s : σ} {L : Objects}

/-- A new object of unknown or known bytes. -/
theorem Holds.place (h : S.Holds s L) {s' : σ} {p : Nat} (data : List (Option UInt8))
    (hkeeps : KeepsBytes L.blocks (mem s) (mem s'))
    (hdata : p ≠ 0 -> Object.Agrees (mem s') ⟨p, data⟩)
    (hcase : p = NULL ∧ S.Inv s' L.blocks ∨
      p ≠ NULL ∧ S.Inv s' (⟨p, data.length⟩ :: L.blocks)) :
    Objects.Placed L.blocks data.length p ∧ S.Holds s' (L.place p data) := by
  have hagree : L.Agree (mem s') := h.right.congr hkeeps
  rcases hcase with ⟨hnull, hinv⟩ | ⟨hne, hinv⟩
  · refine ⟨Or.inl hnull, ?_⟩
    rw [Objects.place, if_pos (show p = 0 from hnull)]
    exact ⟨hinv, hagree⟩
  · refine ⟨Or.inr (S.granted hinv), ?_⟩
    rw [Objects.place, if_neg (show p ≠ 0 from hne)]
    exact ⟨hinv, hagree.place (hdata hne)⟩

theorem served_alloc (h : S.Holds s L) {n : Nat} (hn : n < limit) :
    S.Served s L (Request.alloc n) := by
  rcases S.alloc h.left hn with ⟨p, s', hcall, hkeeps, hcase⟩
  have hplaced := h.place (List.replicate n none) hkeeps
    (fun _ => Object.agrees_replicate_none _ p n) (by simpa using hcase)
  refine ⟨p, s', hcall, ?_, hplaced.right⟩
  simpa [Objects.AllowsAnswer] using hplaced.left

theorem served_calloc (h : S.Holds s L) {nmemb size : Nat}
    (hsize : nmemb * size < limit ∨ 2 ^ 64 ≤ nmemb * size) :
    S.Served s L (Request.calloc nmemb size) := by
  rcases S.calloc h.left hsize with ⟨p, s', hcall, hkeeps, hcase⟩
  have hzero : p ≠ NULL -> forall i, i < nmemb * size -> (mem s').bytes (p + i) = 0 := by
    intro hne
    rcases hcase with ⟨hnull, _⟩ | ⟨_, _, hzero⟩
    · exact absurd hnull hne
    · exact hzero
  have hbooks : p = NULL ∧ S.Inv s' L.blocks ∨
      p ≠ NULL ∧ S.Inv s' (⟨p, nmemb * size⟩ :: L.blocks) :=
    hcase.imp_right (fun hgrant => ⟨hgrant.left, hgrant.right.left⟩)
  have hplaced := h.place (List.replicate (nmemb * size) (some 0)) hkeeps
    (fun hne => Object.agrees_replicate_some (hzero hne)) (by simpa using hbooks)
  refine ⟨p, s', hcall, ?_, hplaced.right⟩
  simpa [Objects.AllowsAnswer] using hplaced.left

theorem served_free (h : S.Holds s L) {b : Block} (hb : b ∈ L.blocks) :
    S.Served s L (Request.free b) := by
  rcases S.free h.left hb with ⟨s', hcall, hkeeps, hinv⟩
  refine ⟨NULL, s', by simp [perform, hcall], rfl, ?_, ?_⟩
  · simp only [Objects.afterRequest, Objects.blocks_release]
    exact hinv
  · exact h.right.release hkeeps

theorem served_freeNull (h : S.Holds s L) (n : Nat) : S.Served s L (Request.freeNull n) := by
  rcases S.freeNull n h.left with ⟨s', hcall, hkeeps, hinv⟩
  exact ⟨NULL, s', by simp [perform, hcall], rfl, hinv, h.right.congr hkeeps⟩

theorem served_realloc (h : S.Holds s L) {b : Block} {n : Nat} (hb : b ∈ L.blocks)
    (hn : n < limit) : S.Served s L (Request.realloc b n) := by
  by_cases hzero : n = 0
  · subst hzero
    rcases S.free h.left hb with ⟨s', hcall, hkeeps, hinv⟩
    refine ⟨NULL, s', alloRealloc_zero hcall, ?_, ?_, ?_⟩
    · simp [Objects.AllowsAnswer, NULL]
    · simp only [Objects.afterRequest, if_true, Objects.blocks_release]
      exact hinv
    · exact h.right.release hkeeps
  · rcases S.wrapped_realloc h.left hb hzero hn with ⟨p, s', hcall, hcase⟩
    refine ⟨p, s', hcall, ?_⟩
    simp only [Objects.AllowsAnswer, Objects.afterRequest, if_neg hzero]
    rcases hcase with ⟨hnull, hinv, hkeeps⟩ | ⟨hne, hinv, hkeeps, hmoved⟩
    · rw [if_pos (show p = 0 from hnull)]
      exact ⟨Or.inl hnull, hinv, h.right.congr hkeeps⟩
    · rw [if_neg (show p ≠ 0 from hne)]
      refine ⟨Or.inr (S.granted hinv), ?_, h.right.resize hb hkeeps hmoved⟩
      rw [Objects.blocks_resize]
      exact hinv

/-- Reallocating the null pointer allocates. -/
theorem served_reallocNull (h : S.Holds s L) (oldSize : Nat) {n : Nat} (hn : n < limit) :
    S.Served s L (Request.reallocNull oldSize n) := by
  rcases S.wrapped_realloc_null h.left oldSize hn with ⟨p, s', hcall, hkeeps, hcase⟩
  have hbooks : p = NULL ∧ S.Inv s' L.blocks ∨ p ≠ NULL ∧ S.Inv s' (⟨p, n⟩ :: L.blocks) :=
    hcase.imp_right (fun hgrant => ⟨hgrant.left, hgrant.right.right⟩)
  have hplaced := h.place (List.replicate n none) hkeeps
    (fun _ => Object.agrees_replicate_none _ p n) (by simpa using hbooks)
  refine ⟨p, s', hcall, ?_⟩
  simp only [Objects.AllowsAnswer, Objects.afterRequest]
  by_cases hzero : n = 0
  · have hnull : p = NULL := by
      rcases hcase with ⟨hnull, _⟩ | ⟨_, hpos, _⟩
      · exact hnull
      · exact absurd hzero hpos
    rw [if_pos hzero, if_pos hzero]
    rw [Objects.place, if_pos (show p = 0 from hnull)] at hplaced
    exact ⟨hnull, hplaced.right⟩
  · rw [if_neg hzero, if_neg hzero]
    simpa using hplaced

theorem served_store (h : S.Holds s L) {x : Nat} (hx : exists b, b ∈ L.blocks ∧ b.Contains x)
    (v : UInt8) : S.Served s L (Request.store x v) := by
  refine ⟨NULL, _, rfl, rfl, ?_, ?_⟩
  · simp only [Objects.afterRequest, Objects.blocks_write]
    exact S.poke h.left hx v
  · rw [mem_modifyMem]
    exact h.right.write x v

/-- Every service implements the object store. -/
theorem implements (S : Service a limit) :
    Implements (objectStore limit) (perform a) S.Holds := by
  intro s L c h hlegal
  cases c with
  | alloc n => exact served_alloc h hlegal
  | calloc nmemb size => exact served_calloc h hlegal.right.right
  | free b => exact served_free h hlegal
  | freeNull n => exact served_freeNull h n
  | realloc b n => exact served_realloc h hlegal.left hlegal.right
  | reallocNull oldSize n => exact served_reallocNull h oldSize hlegal
  | store x v => exact served_store h hlegal v

end Service

/-!
# Whole dialogues
-/

/-- What a client may rely on after the exchanges `es`, which led to the state `s`. -/
structure KeepsObjects {σ : Type} [HasMem σ] (a : Allo σ) (limit : Nat)
    (es : List (Request × Nat)) (s : σ) : Prop where
  allowed : (objectStore limit).AllowsAll [] es
  agree : ((objectStore limit).replay [] es).Agree (mem s)
  apart : ((objectStore limit).replay [] es).Apart
  responds : forall c, (objectStore limit).Legal ((objectStore limit).replay [] es) c ->
    exists p s', perform a c s = some (p, s')

/-- A new service keeps the objects of its client. -/
theorem Service.dialogue {σ : Type} [HasMem σ] {a : Allo σ} {limit : Nat}
    (S : Service a limit) {st s : σ} {es : List (Request × Nat)} (hstart : S.Inv st [])
    (hlegal : (objectStore limit).LegalAll [] es) (hrun : Dialogue (perform a) st es s) :
    KeepsObjects a limit es s ∧ S.Inv s ((objectStore limit).replay [] es).blocks := by
  have hholds : S.Holds st [] := ⟨hstart, fun o ho => absurd ho List.not_mem_nil⟩
  rcases S.implements.dialogue hholds hlegal hrun with ⟨hallowed, hinv, hagree⟩
  refine ⟨⟨hallowed, hagree, ?_, ?_⟩, hinv⟩
  · exact ⟨S.wellFormed hinv, S.disjoint hinv⟩
  · intro c hc
    rcases S.implements.responsive hholds hlegal hrun hc with ⟨p, s', hserved, _⟩
    exact ⟨p, s', hserved⟩

end Liballo
