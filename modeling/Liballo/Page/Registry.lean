import Liballo.Page.Defs

/-!
# The registry of the page allocator

The registry lists the live user mappings in some order, which is kept as a ghost
list. The invariant says that the live mappings of the process are the registry's own
one, those listed, and the ones that were there before.
-/

namespace Liballo

open Foundation

/-!
# Answers of the operating system
-/

theorem alloOsMmap_cases (os : Os) (n : Nat) (m : Mem) :
    alloOsMmap os n m = (NULL, m.note Event.refuse) ∨
      exists a m', alloOsMmap os n m = (a, m') ∧ a ≠ NULL ∧
        Granted ⟨a, n⟩ (liveMaps m.trace) ∧ m'.trace = Event.map a n :: m.trace ∧
          (forall x, Block.Contains ⟨a, n⟩ x -> m'.bytes x = 0) ∧
            forall x, ¬ Block.Contains ⟨a, n⟩ x -> m'.bytes x = m.bytes x := by
  have hspec := os.map_spec n m
  unfold alloOsMmap
  generalize os.map n m = answer at hspec ⊢
  rcases answer with ⟨a, m'⟩
  cases hspec with
  | refused => exact Or.inl rfl
  | granted hgrant htrace hfill hkept =>
      have hne : a ≠ NULL := Nat.ne_of_gt hgrant.left.left
      exact Or.inr ⟨a, m', rfl, hne, hgrant, htrace, hfill, hkept⟩

theorem alloOsMremap_cases (os : Os) (old n n' : Nat) (m : Mem) :
    alloOsMremap os old n n' m = (NULL, m.note Event.refuse) ∨
      exists a m', alloOsMremap os old n n' m = (a, m') ∧ a ≠ NULL ∧
        Granted ⟨a, n'⟩ ((liveMaps m.trace).erase ⟨old, n⟩) ∧
          m'.trace = Event.remap old n a n' :: m.trace ∧
            (forall i, i < n -> i < n' -> m'.bytes (a + i) = m.bytes (old + i)) ∧
              forall x, ¬ Block.Contains ⟨a, n'⟩ x -> m'.bytes x = m.bytes x := by
  have hspec := os.remap_spec old n n' m
  unfold alloOsMremap
  generalize os.remap old n n' m = answer at hspec ⊢
  rcases answer with ⟨a, m'⟩
  cases hspec with
  | refused => exact Or.inl rfl
  | granted hgrant htrace hmoved hkept =>
      have hne : a ≠ NULL := Nat.ne_of_gt hgrant.left.left
      exact Or.inr ⟨a, m', rfl, hne, hgrant, htrace, hmoved, hkept⟩

/-!
# Rounding
-/

theorem pageRound_spec {c : PageContext} {k n : Nat} (hk : k < 64)
    (hpage : c.pageSize = 2 ^ k) (hn : n < 2 ^ 64) :
    pageRound c n = 0 ∨ n ≤ pageRound c n := by
  have hpow : 0 < 2 ^ k := Nat.two_pow_pos k
  have hle : 2 ^ k ≤ 2 ^ 63 := Nat.pow_le_pow_right (by omega) (by omega)
  unfold pageRound
  rw [hpage]
  by_cases hwrap : n + 2 ^ k - 1 < 2 ^ 64
  · right
    rw [alloAlignUp_two_pow (Nat.le_of_lt hk) hwrap]
    have hdiv := Nat.div_add_mod (n + 2 ^ k - 1) (2 ^ k)
    have hmod := Nat.mod_lt (n + 2 ^ k - 1) hpow
    rw [Nat.mul_comm] at hdiv
    omega
  · -- The sum wraps to less than a page, which rounds down to nothing.
    left
    have hsum : (n + 2 ^ k - 1) % 2 ^ 64 < 2 ^ k := by omega
    simp only [alloAlignUp, sizeMod]
    rw [and_mask_eq (Nat.mod_lt _ (by decide)) (Nat.le_of_lt hk),
      Nat.div_eq_of_lt hsum, Nat.zero_mul]

/-!
# Entries
-/

theorem pageEntry_set_same {m : Mem} {registry i addr size : Nat}
    (haddr : addr < 2 ^ 64) (hsize : size < 2 ^ 64) :
    pageEntryAddr (setPageEntry registry i addr size m) registry i = addr ∧
      pageEntrySize (setPageEntry registry i addr size m) registry i = size := by
  constructor
  · unfold pageEntryAddr setPageEntry
    rw [Mem.word_writeWord_disjoint (by omega), Mem.word_writeWord_same haddr]
  · exact Mem.word_writeWord_same hsize

theorem pageEntry_set_ne {m : Mem} {registry i j addr size : Nat} (hne : j ≠ i) :
    pageEntryAddr (setPageEntry registry i addr size m) registry j =
        pageEntryAddr m registry j ∧
      pageEntrySize (setPageEntry registry i addr size m) registry j =
        pageEntrySize m registry j := by
  have hfar : pageEntryAt registry j + 16 ≤ pageEntryAt registry i ∨
      pageEntryAt registry i + 16 ≤ pageEntryAt registry j := by
    simp only [pageEntryAt, sizeofPageEntry]
    omega
  constructor
  · unfold pageEntryAddr setPageEntry
    rw [Mem.word_writeWord_disjoint (by omega),
      Mem.word_writeWord_disjoint (by omega)]
  · unfold pageEntrySize setPageEntry
    rw [Mem.word_writeWord_disjoint (by omega),
      Mem.word_writeWord_disjoint (by omega)]

/-- The registry as a mapping. -/
def PageContext.registryMap (c : PageContext) : Block :=
  ⟨c.registry, c.capacity * sizeofPageEntry⟩

theorem pageEntry_inside {c : PageContext} {i : Nat} (hi : i < c.capacity) :
    Block.Inside ⟨pageEntryAt c.registry i, sizeofPageEntry⟩ c.registryMap := by
  simp only [Block.Inside, Block.stop, PageContext.registryMap, pageEntryAt,
    sizeofPageEntry]
  omega

theorem wrote_setPageEntry {c : PageContext} {i : Nat} (hi : i < c.capacity)
    (addr size : Nat) (m : Mem) :
    Wrote (fun x n => Block.Inside ⟨x, n⟩ c.registryMap) m
      (setPageEntry c.registry i addr size m) := by
  have hinside := pageEntry_inside hi
  apply (Wrote.writeWord _).trans (Wrote.writeWord _)
  · simp only [Block.Inside, Block.stop, sizeofPageEntry] at hinside ⊢
    omega
  · simp only [Block.Inside, Block.stop, sizeofPageEntry] at hinside ⊢
    omega

/-!
# The invariant
-/

structure PageInv (base : List Block) (c : PageContext) (m : Mem)
    (es : List Block) : Prop where
  pageSize : exists k, 4 ≤ k ∧ k < 64 ∧ c.pageSize = 2 ^ k
  count : c.count = es.length
  count_le : c.count ≤ c.capacity
  whole : c.pageSize ∣ c.capacity * sizeofPageEntry
  entries : forall i b, es[i]? = some b ->
    pageEntryAddr m c.registry i = b.ptr ∧ pageEntrySize m c.registry i = b.size
  holds : Holds base (c.registryMap :: es) (liveMaps m.trace)

namespace PageInv

variable {base es : List Block} {c : PageContext} {m m' : Mem}

theorem page_pos (h : PageInv base c m es) : 16 ∣ c.pageSize ∧ 0 < c.pageSize ∧
    c.pageSize < 2 ^ 64 := by
  rcases h.pageSize with ⟨k, hk, hk', hpage⟩
  rw [hpage]
  refine ⟨?_, Nat.two_pow_pos k, Nat.pow_lt_pow_right (by omega) hk'⟩
  have hdvd : 2 ^ 4 ∣ 2 ^ k := Nat.pow_dvd_pow 2 hk
  simpa using hdvd

theorem capacity_bound (h : PageInv base c m es) : 0 < c.capacity ∧
    c.registry + c.capacity * sizeofPageEntry < 2 ^ 64 ∧ 0 < c.registry := by
  have hwf := h.holds.wellFormed _ List.mem_cons_self
  rcases hwf with ⟨hptr, hsize, hstop⟩
  refine ⟨?_, hstop, hptr⟩
  exact Nat.pos_of_mul_pos_right hsize

theorem index_lt (h : PageInv base c m es) {i : Nat} {b : Block}
    (hb : es[i]? = some b) : i < c.count := by
  rw [h.count]
  exact (List.getElem?_eq_some_iff.mp hb).1

/-- The entries depend on the bytes of the registry. -/
theorem entries_congr (h : PageInv base c m es)
    (hbytes : forall x, c.registryMap.Contains x -> m'.bytes x = m.bytes x)
    {i : Nat} {b : Block} (hb : es[i]? = some b) :
    pageEntryAddr m' c.registry i = b.ptr ∧
      pageEntrySize m' c.registry i = b.size := by
  have hinside := pageEntry_inside
    (Nat.lt_of_lt_of_le (h.index_lt hb) h.count_le)
  have hword : forall k, k ≤ 8 ->
      m'.word (pageEntryAt c.registry i + k) =
        m.word (pageEntryAt c.registry i + k) := by
    intro k hk
    apply Mem.word_congr
    intro x hx hlt
    apply hbytes
    apply hinside.contains
    simp only [Block.Contains, Block.stop, sizeofPageEntry]
    omega
  have haddr : pageEntryAddr m' c.registry i = pageEntryAddr m c.registry i :=
    hword 0 (by omega)
  have hsize : pageEntrySize m' c.registry i = pageEntrySize m c.registry i :=
    hword 8 (by omega)
  rw [haddr, hsize]
  exact h.entries i b hb

theorem congr (h : PageInv base c m es)
    (hmaps : liveMaps m'.trace = liveMaps m.trace)
    (hbytes : forall x, c.registryMap.Contains x -> m'.bytes x = m.bytes x) :
    PageInv base c m' es :=
  { pageSize := h.pageSize
    count := h.count
    count_le := h.count_le
    whole := h.whole
    entries := fun _ _ hb => h.entries_congr hbytes hb
    holds := hmaps ▸ h.holds }

theorem note (h : PageInv base c m es) {e : Event}
    (he : liveMaps (e :: m.trace) = liveMaps m.trace) :
    PageInv base c (m.note e) es :=
  h.congr he (fun _ _ => rfl)

theorem entry_apart (h : PageInv base c m es) {b : Block} (hb : b ∈ es) :
    c.registryMap.Disjoint b :=
  (List.pairwise_cons.mp h.holds.disjoint).left b hb

theorem registry_ne (h : PageInv base c m es) {b : Block} (hb : b ∈ es) :
    c.registryMap ≠ b :=
  (h.entry_apart hb).ne (h.holds.wellFormed _ List.mem_cons_self).right.left

theorem nodup (h : PageInv base c m es) : es.Nodup := by
  have hpos : forall b, b ∈ c.registryMap :: es -> 0 < b.size :=
    fun b hb => (h.holds.wellFormed b hb).right.left
  exact (List.nodup_cons.mp (h.holds.disjoint.nodup hpos)).right

/-- Addresses identify entries. -/
theorem eq_of_ptr_eq (h : PageInv base c m es) {b d : Block} (hb : b ∈ es)
    (hd : d ∈ es) (hptr : b.ptr = d.ptr) : b = d :=
  h.holds.disjoint.eq_of_ptr_eq
    (fun e he => (h.holds.wellFormed e he).right.left)
    (List.mem_cons_of_mem _ hb) (List.mem_cons_of_mem _ hd) hptr

end PageInv

/-!
# Looking an entry up
-/

theorem registryFind_first {m : Mem} {registry addr j n : Nat}
    (hj : pageEntryAddr m registry j = addr) {i : Nat} (hij : i ≤ j)
    (hjn : j < i + n)
    (hbefore : forall k, i ≤ k -> k < j -> pageEntryAddr m registry k ≠ addr) :
    registryFind m registry addr i n = some j := by
  induction n generalizing i with
  | zero => omega
  | succ n ih =>
      unfold registryFind
      rcases Nat.lt_or_eq_of_le hij with hlt | heq
      · rw [if_neg (hbefore i (Nat.le_refl i) hlt)]
        exact ih hlt (by omega) (fun k hk hkj => hbefore k (by omega) hkj)
      · subst heq
        exact if_pos hj

theorem registryFind_mem {base es : List Block} {c : PageContext} {m m' : Mem}
    (h : PageInv base c m es)
    (hbytes : forall x, c.registryMap.Contains x -> m'.bytes x = m.bytes x)
    {b : Block} (hb : b ∈ es) :
    exists i, registryFind m' c.registry b.ptr 0 c.count = some i ∧
      es[i]? = some b := by
  rcases List.mem_iff_getElem?.mp hb with ⟨i, hi⟩
  have hlt := (List.getElem?_eq_some_iff.mp hi).1
  refine ⟨i, ?_, hi⟩
  apply registryFind_first (h.entries_congr hbytes hi).left (Nat.zero_le i)
  · rw [Nat.zero_add, h.count]
    exact hlt
  · intro k _ hki haddr
    have hklt : k < es.length := Nat.lt_trans hki hlt
    have hk : es[k]? = some es[k] := List.getElem?_eq_getElem hklt
    rw [(h.entries_congr hbytes hk).left] at haddr
    have hsame := h.eq_of_ptr_eq (List.mem_of_getElem? hk) hb haddr
    rw [hsame, ← hi] at hk
    have hik : k = i := (List.getElem?_inj hklt h.nodup).mp hk
    exact absurd hik (Nat.ne_of_lt hki)

/-!
# Growing the registry
-/

namespace PageInv

variable {base es : List Block} {c : PageContext} {m m' : Mem} {a n : Nat}

theorem old_size (h : PageInv base c m es) :
    sizeMul c.capacity sizeofPageEntry = c.capacity * sizeofPageEntry :=
  sizeMul_eq (by have hbound := h.capacity_bound; omega)

/-- A registry that would reach the end of the address space is asked to shrink to
nothing, which is refused. -/
theorem new_size (h : PageInv base c m es)
    (hpos : 0 < sizeAdd (c.capacity * sizeofPageEntry) c.pageSize) :
    sizeAdd (c.capacity * sizeofPageEntry) c.pageSize =
      c.capacity * sizeofPageEntry + c.pageSize := by
  rcases h.pageSize with ⟨k, _, hk, hpage⟩
  rcases h.whole with ⟨q, hq⟩
  have hbound : c.capacity * sizeofPageEntry < 2 ^ 64 := by
    have hcap := h.capacity_bound
    omega
  have hsplit : (2 : Nat) ^ 64 = 2 ^ k * 2 ^ (64 - k) := by
    rw [← Nat.pow_add]
    congr 1
    omega
  rw [hq, hpage, hsplit] at hbound
  have hle : 2 ^ k * (q + 1) ≤ 2 ^ k * 2 ^ (64 - k) :=
    Nat.mul_le_mul_left _ (Nat.lt_of_mul_lt_mul_left hbound)
  rw [← hsplit, Nat.mul_add, Nat.mul_one] at hle
  rcases Nat.lt_or_eq_of_le hle with hlt | heq
  · apply sizeAdd_eq
    rw [hq, hpage]
    exact hlt
  · rw [hq, hpage, sizeAdd, heq] at hpos
    exact absurd hpos (by decide)

theorem grow (h : PageInv base c m es) {c' : PageContext}
    (hpage : c'.pageSize = c.pageSize)
    (hcount : c'.count = c.count)
    (hsize : c'.capacity * sizeofPageEntry =
      c.capacity * sizeofPageEntry + c.pageSize)
    (hgrant : Granted c'.registryMap ((liveMaps m.trace).erase c.registryMap))
    (hmaps : liveMaps m'.trace =
      c'.registryMap :: (liveMaps m.trace).erase c.registryMap)
    (hmoved : forall i, i < c.capacity * sizeofPageEntry ->
      m'.bytes (c'.registry + i) = m.bytes (c.registry + i)) :
    PageInv base c' m' es := by
  have hle := h.count_le
  have hholds := h.holds.remap List.mem_cons_self hgrant
  rw [List.erase_cons_head, ← hmaps] at hholds
  refine
    { pageSize := hpage ▸ h.pageSize
      count := hcount.trans h.count
      count_le := ?_
      whole := ?_
      entries := ?_
      holds := hholds }
  · rw [hcount]
    simp only [sizeofPageEntry] at hsize
    omega
  · rw [hsize, hpage]
    exact Nat.dvd_add h.whole (Nat.dvd_refl _)
  · intro i b hb
    have hi : i < c.capacity := Nat.lt_of_lt_of_le (h.index_lt hb) hle
    have hword : forall k, k ≤ 8 -> m'.word (pageEntryAt c'.registry i + k) =
        m.word (pageEntryAt c.registry i + k) := by
      intro k hk
      apply loadLE_shift
      intro j hj
      have hmove := hmoved (sizeofPageEntry * i + k + j) (by
        simp only [sizeofPageEntry]
        omega)
      simp only [pageEntryAt, Nat.add_assoc] at hmove ⊢
      exact hmove
    have haddr : pageEntryAddr m' c'.registry i =
        pageEntryAddr m c.registry i := hword 0 (by omega)
    have hlen : pageEntrySize m' c'.registry i =
        pageEntrySize m c.registry i := hword 8 (by omega)
    rw [haddr, hlen]
    exact h.entries i b hb

/-!
# Adding, removing and rewriting an entry
-/

theorem add (h : PageInv base c m es) (hroom : c.count < c.capacity)
    (hgrant : Granted ⟨a, n⟩ (liveMaps m.trace))
    (hmaps : liveMaps m'.trace = ⟨a, n⟩ :: liveMaps m.trace)
    (hbytes : forall x, c.registryMap.Contains x -> m'.bytes x = m.bytes x) :
    PageInv base { c with count := c.count + 1 }
      (setPageEntry c.registry c.count a n m') (es ++ [⟨a, n⟩]) := by
  rcases hgrant.left with ⟨_, _, hstop⟩
  simp only [Block.stop] at hstop
  have hwrote := (wrote_setPageEntry hroom a n m').liveMaps_eq
  have hholds := h.holds.map hgrant
  rw [← hmaps, ← hwrote] at hholds
  refine
    { pageSize := h.pageSize
      count := by rw [List.length_append, ← h.count, List.length_singleton]
      count_le := hroom
      whole := h.whole
      entries := ?_
      holds := hholds.perm ?_ }
  · intro i b hb
    rcases Nat.lt_or_ge i c.count with hlt | hge
    · rw [List.getElem?_append_left (h.count ▸ hlt)] at hb
      rcases @pageEntry_set_ne m' c.registry c.count i a n
        (Nat.ne_of_lt hlt) with ⟨haddr, hsize⟩
      rw [haddr, hsize]
      exact h.entries_congr hbytes hb
    · rw [List.getElem?_append_right (h.count ▸ hge),
        List.getElem?_singleton] at hb
      have hi : i = c.count := by
        have hcount := h.count
        split at hb
        · omega
        · cases hb
      subst hi
      rw [← h.count, Nat.sub_self, if_pos rfl] at hb
      cases hb
      exact pageEntry_set_same (by omega) (by omega)
  · exact (List.Perm.swap _ _ _).trans
      ((List.perm_append_singleton _ _).symm.cons _)

/-- The entries after one was written over. -/
theorem set_entry (h : PageInv base c m es) {i : Nat} {d : Block}
    (hi : i < c.count) (hd : d.WellFormed)
    (hbytes : forall x, c.registryMap.Contains x -> m'.bytes x = m.bytes x)
    {j : Nat} {b : Block} (hb : (es.set i d)[j]? = some b) :
    pageEntryAddr (setPageEntry c.registry i d.ptr d.size m') c.registry j =
        b.ptr ∧
      pageEntrySize (setPageEntry c.registry i d.ptr d.size m') c.registry j =
        b.size := by
  rcases hd with ⟨_, _, hstop⟩
  simp only [Block.stop] at hstop
  by_cases hij : i = j
  · subst hij
    rw [List.getElem?_set_self (h.count ▸ hi)] at hb
    cases hb
    exact pageEntry_set_same (by omega) (by omega)
  · rw [List.getElem?_set_ne hij] at hb
    rcases @pageEntry_set_ne m' c.registry i j d.ptr d.size
      (Ne.symm hij) with ⟨haddr, hsize⟩
    rw [haddr, hsize]
    exact h.entries_congr hbytes hb

theorem update (h : PageInv base c m es) {i : Nat} {b : Block}
    (hb : es[i]? = some b) (hgrant : Granted ⟨a, n⟩ ((liveMaps m.trace).erase b))
    (hmaps : liveMaps m'.trace = ⟨a, n⟩ :: (liveMaps m.trace).erase b)
    (hbytes : forall x, c.registryMap.Contains x -> m'.bytes x = m.bytes x) :
    PageInv base c (setPageEntry c.registry i a n m') (es.set i ⟨a, n⟩) ∧
      (es.set i ⟨a, n⟩).Perm (⟨a, n⟩ :: es.erase b) := by
  have hi := h.index_lt hb
  have hmem : b ∈ es := List.mem_of_getElem? hb
  have hwrote := (wrote_setPageEntry
    (Nat.lt_of_lt_of_le hi h.count_le) a n m').liveMaps_eq
  have hperm : (es.set i ⟨a, n⟩).Perm (⟨a, n⟩ :: es.erase b) :=
    (List.set_perm_cons_eraseIdx (h.count ▸ hi) _).trans
      ((eraseIdx_perm hb).cons _)
  have hholds := h.holds.remap (List.mem_cons_of_mem _ hmem) hgrant
  rw [← hmaps, ← hwrote, List.erase_cons_tail (by simpa using h.registry_ne hmem)]
    at hholds
  refine ⟨?_, hperm⟩
  exact
    { pageSize := h.pageSize
      count := by rw [List.length_set, h.count]
      count_le := h.count_le
      whole := h.whole
      entries := fun j d hd => h.set_entry hi hgrant.left hbytes hd
      holds := hholds.perm
        ((List.Perm.swap _ _ _).trans (hperm.symm.cons _)) }

/-- The mapping of entry `i` goes away; the last entry takes its place. -/
theorem remove (h : PageInv base c m es) {i : Nat} {b : Block}
    (hb : es[i]? = some b)
    (hmaps : liveMaps m'.trace = (liveMaps m.trace).erase b)
    (hbytes : m'.bytes = (setPageEntry c.registry i
      (pageEntryAddr m c.registry (c.count - 1))
      (pageEntrySize m c.registry (c.count - 1)) m).bytes) :
    exists es', es'.Perm (es.erase b) ∧
      PageInv base { c with count := c.count - 1 } m' es' := by
  have hi := h.index_lt hb
  have hmem : b ∈ es := List.mem_of_getElem? hb
  rcases List.eq_nil_or_concat es with hnil | ⟨init, last, hsplit⟩
  · rw [hnil] at hmem
    cases hmem
  · rw [List.concat_eq_append] at hsplit
    have hlen : c.count = init.length + 1 := by
      rw [h.count, hsplit, List.length_append, List.length_singleton]
    have hlast : es[c.count - 1]? = some last := by
      rw [hlen, hsplit, Nat.add_sub_cancel]
      exact List.getElem?_concat_length
    rcases h.entries _ last hlast with ⟨haddr, hsize⟩
    rw [haddr, hsize] at hbytes
    have hperm : (es.set i last).dropLast.Perm (es.erase b) := by
      apply List.Perm.trans _ (eraseIdx_perm hb)
      rw [hsplit]
      exact set_dropLast_perm (by omega)
    have hholds := h.holds.unmap (List.mem_cons_of_mem _ hmem)
    rw [← hmaps, List.erase_cons_tail (by simpa using h.registry_ne hmem)] at hholds
    refine ⟨(es.set i last).dropLast, hperm, ?_⟩
    refine
      { pageSize := h.pageSize
        count := by rw [List.length_dropLast, List.length_set, h.count]
        count_le := Nat.le_trans (Nat.sub_le _ _) h.count_le
        whole := h.whole
        entries := ?_
        holds := hholds.perm (hperm.symm.cons _) }
    intro j d hd
    have hset : (es.set i last)[j]? = some d := by
      rw [List.getElem?_dropLast] at hd
      split at hd
      · exact hd
      · cases hd
    have hwf := h.holds.wellFormed last
      (List.mem_cons_of_mem _ (List.mem_of_getElem? hlast))
    have hentry := h.set_entry hi hwf (fun _ _ => rfl) hset
    unfold pageEntryAddr pageEntrySize Mem.word at hentry ⊢
    rw [hbytes]
    exact hentry

end PageInv

end Liballo
