import JoshOS.Paging.Space

/-!
Page-table updates in an arbitrary tree.

The tree of the kernel stands in managed frames, all of which the window reaches.
Here the tree is any tree of tables that the table code may be handed: its tables may
stand anywhere outside the free frames, and a table that the window does not reach ends
the walk through it.

* `WellFormed`: each table is found at one path and stands in no free frame;
  `TreeOk.wellFormed`: so it is with the kernel's tree.
* `page_update_exact`: an update changes the answers for its page and no others, or
  none; `page_update_stray_flags`: address bits among the flags end up in the address.
-/

namespace JoshOS

open Words Memory Radix Spans Hoare

namespace Paging

variable {boot : BootContext} {m : Memory} {s : Machine} {q : ℕ → Option PagingMapping}
  {root f g i k l n p v virt phys flags : ℕ}

/-! ### Well-formed trees -/

/-- Walks with the same answers are queries with the same answers. -/
lemma queryRoot_congr {m' : Memory}
    (h : answer virt (walkFrom boot m' virt 3 0 root) =
      answer virt (walkFrom boot m virt 3 0 root)) :
    queryRoot boot root m' virt = queryRoot boot root m virt := by
  by_cases hroot : root = 0
  · simp only [queryRoot, if_pos hroot]
  by_cases hptr : physPtr boot root = 0
  · simp only [queryRoot, if_neg hroot, if_pos hptr]
  · rw [queryRoot_eq hroot hptr, queryRoot_eq hroot hptr, h]

/-- A tree of tables below `root`: each table is found at one path, and none stands in
a frame that the allocator considers free.  A free frame has an address that an entry
can hold. -/
structure WellFormed (boot : BootContext) (root : ℕ) (s : Machine) : Prop where
  pmm : s.pmm.Inv
  physical : ∀ x ∈ cover s.pmm.freeRanges, x < 2 ^ 52
  root_pos : root ≠ 0
  root_aligned : pageSize ∣ root
  one : (reachShape boot).OneParent (entries boot s.mem) root
  taken : ∀ f ∈ (reachShape boot).tables (entries boot s.mem) root, f ∉ cover s.pmm.freeRanges

/-- The tree of the kernel is well formed. -/
lemma TreeOk.wellFormed {c : Surroundings} (h : TreeOk c root s) : WellFormed c.boot root s := by
  have hroot := h.tableFrame (Nat.zero_le 3) (by norm_num : 0 < 512 ^ 0) rfl
  refine ⟨h.inv, fun x hx => (c.window x (h.managed ▸ h.inv.free_sub hx)).2.1,
    (c.window root hroot.managed).1.ne', hroot.aligned, ?_, ?_⟩
  · intro l hl p hp l' hl' p' hp' f hf hf'
    exact h.one l hl p hp l' hl' p' hp' f (tableAt_of_stands hf) (tableAt_of_stands hf')
  · rintro f ⟨l, hl, p, hp, hf⟩
    exact (h.tableFrame hl hp (tableAt_of_stands hf)).taken

lemma WellFormed.aligned (h : WellFormed boot root s)
    (hf : f ∈ (reachShape boot).tables (entries boot s.mem) root) : pageSize ∣ f := by
  obtain ⟨l, -, p, -, hf⟩ := hf
  cases l with
  | zero =>
    rw [← Option.some.inj hf]
    exact h.root_aligned
  | succ l =>
    obtain ⟨f', -, hchild⟩ := Option.bind_eq_some_iff.mp hf
    have hif := (reachChild_eq_some_iff.mp hchild).1
    rw [pageShape, Option.ite_none_right_eq_some] at hif
    rw [← Option.some.inj hif.2]
    exact dvd_land_pageMask _

/-! ### A fresh table -/

/-- The memory after the frame `g` has been cleared and hung into entry `i` of `f`. -/
def hung (boot : BootContext) (m : Memory) (f i g : ℕ) : Memory :=
  write64 (zeroPage (boot.physicalMemoryOffset + g) m)
    (boot.physicalMemoryOffset + f + 8 * i) (g ||| pagePresent ||| pageRw)

lemma WellFormed.link (h : WellFormed boot root s) (hl : l < 3) (hp : p < 512 ^ l) (hi : i < 512)
    (hf : Stands boot root l p f s) (h0 : (entries boot s.mem f i).testBit 0 = false)
    (hg : pageSize ∣ g) (hfree : g ∈ cover s.pmm.freeRanges) (hptr : physPtr boot g ≠ 0) :
    Shape.Link (reachShape boot) (entries boot s.mem) (entries boot (hung boot s.mem f i g))
      root l p i f g ∧ ∀ j < 512, entries boot (hung boot s.mem f i g) g j = 0 := by
  have hfmem : f ∈ (reachShape boot).tables (entries boot s.mem) root :=
    Shape.mem_tables hl.le hp hf
  have hff := h.aligned hfmem
  have hfresh : ∀ f' ∈ (reachShape boot).tables (entries boot s.mem) root, f' ≠ g := by
    rintro f' hf' rfl
    exact h.taken f' hf' hfree
  obtain ⟨hlt, hbit0, hbit7, hmask⟩ := pointer_bits hg (h.physical g hfree)
  have hpointer : entries boot (hung boot s.mem f i g) f i = g ||| pagePresent ||| pageRw :=
    entries_write_self hlt
  have hzero : ∀ j < 512, entries boot (hung boot s.mem f i g) g j = 0 := by
    intro j hj
    rw [hung, entries_write_of_ne hff hg hi hj (Or.inl (hfresh f hfmem).symm), entries_zero_self hj]
  refine ⟨⟨hl, hp, hi, hf, fun f' hf' j hj hne => ?_, fun hmem => hfresh g hmem rfl,
    reachChild_eq_none (child_eq_none (Or.inl h0)), ?_, fun j hj => ?_⟩, hzero⟩
  · rw [hung, entries_write_of_ne hff (h.aligned hf') hi hj hne,
      entries_zero_of_ne hg (h.aligned hf') hj (hfresh f' hf')]
  · rw [hpointer, reachChild_eq_some_iff, child_eq_some hbit0 fun _ => hbit7, hmask]
    exact ⟨rfl, hptr⟩
  · rw [hzero j hj]
    exact reachChild_eq_none (child_eq_none (Or.inl (Nat.zero_testBit 0)))

/-- **A fresh table in the tree** keeps it well formed and every answer of
`query_root`. -/
lemma WellFormed.hang (h : WellFormed boot root s) (hl : l < 3) (hp : p < 512 ^ l) (hi : i < 512)
    (hf : Stands boot root l p f s) (h0 : (entries boot s.mem f i).testBit 0 = false)
    (hg : s.pmm.pmmAllocFrame.1 = some g) (hptr : physPtr boot g ≠ 0) :
    WellFormed boot root ⟨hung boot s.mem f i g, s.pmm.pmmAllocFrame.2⟩ ∧
      Stands boot root (l + 1) (512 * p + i) g ⟨hung boot s.mem f i g, s.pmm.pmmAllocFrame.2⟩ ∧
      ∀ w, queryRoot boot root (hung boot s.mem f i g) w = queryRoot boot root s.mem w := by
  obtain ⟨hinv, -, hdvd, hsub, hcov, -⟩ := pmmAllocFrame_some h.pmm hg
  have hsize : pageSize = 4096 := rfl
  obtain ⟨hlink, hzero⟩ := h.link hl hp hi hf h0 hdvd (hsub ⟨le_refl g, by omega⟩) hptr
  have hless : cover s.pmm.pmmAllocFrame.2.freeRanges ⊆ cover s.pmm.freeRanges := by
    rw [hcov]
    exact Set.sdiff_subset
  refine ⟨⟨hinv, fun x hx => h.physical x (hless hx), h.root_pos, h.root_aligned,
    h.one.link hlink, fun f' hf' hmem => ?_⟩, ?_, fun w => queryRoot_congr ?_⟩
  · rcases Set.mem_insert_iff.mp (Shape.tables_link h.one hlink hf') with rfl | hold
    · rw [hcov] at hmem
      exact hmem.2 ⟨le_refl f', by omega⟩
    · exact h.taken f' hold (hless hmem)
  · have := Shape.tableAt_link h.one hlink (l := l + 1) (p := 512 * p + i) (Nat.succ_le_of_lt hl)
      (Shape.append_lt (S := reachShape boot) hp hi)
    rwa [if_pos ⟨rfl, rfl⟩] at this
  · -- a walk that stopped at the absent entry now stops at an empty one
    have hn : pageNumber w < 512 ^ 4 := pageNumber_lt w
    rcases Shape.walk_link hlink h.one (by show l + (2 - l) + 1 = 3; omega) hn with
      ⟨hold, j, hj, hnew⟩ | hsame
    · have hold' : walkFrom boot s.mem w 3 0 root = _ := hold
      have hnew' : walkFrom boot (hung boot s.mem f i g) w 3 0 root = _ := hnew
      rw [hold', hnew', hzero j hj, answer, answer, if_pos (Nat.zero_testBit 0), if_pos h0]
    · exact congrArg (answer w) hsame

/-! ### An overwritten leaf -/

/-- **An entry that points nowhere, overwritten by one that points nowhere**: the walks
that come by stop at the new entry, the others where they did. -/
lemma WellFormed.write (h : WellFormed boot root s) (hk : l + k = 3) (hp : p < 512 ^ l)
    (hi : i < 512) (hf : Stands boot root l p f s) (hv : v < 2 ^ 64)
    (hchild : k = 0 ∨ (reachShape boot).child l (entries boot s.mem f i) = none ∧
      (reachShape boot).child l v = none) :
    WellFormed boot root
        { s with mem := write64 s.mem (boot.physicalMemoryOffset + f + 8 * i) v } ∧
      ∀ virt, walkFrom boot (write64 s.mem (boot.physicalMemoryOffset + f + 8 * i) v) virt 3 0
        root = if pageNumber virt / 512 ^ k = 512 * p + i then (l, v)
          else walkFrom boot s.mem virt 3 0 root := by
  have hl : l ≤ 3 := by omega
  have hff := h.aligned (Shape.mem_tables (S := reachShape boot) hl hp hf)
  have hself : entries boot (write64 s.mem (boot.physicalMemoryOffset + f + 8 * i) v) f i = v :=
    entries_write_self hv
  have hag : (reachShape boot).AgreeExcept (entries boot s.mem)
      (entries boot (write64 s.mem (boot.physicalMemoryOffset + f + 8 * i) v)) root f i :=
    fun g hg j hj hne => entries_write_of_ne hff (h.aligned hg) hi hj hne
  have htab := fun {l' p'} => Shape.tableAt_set (l := l') (p := p') h.one hag
    (by show l ≤ 3; omega) hp hf fun hlt => by
      have hlt' : l < 3 := hlt
      obtain ⟨hold, hnew⟩ := hchild.resolve_left (by omega)
      rw [hself, hold, hnew]
  obtain ⟨htables, hone⟩ := Shape.tables_congr htab
  refine ⟨⟨h.pmm, h.physical, h.root_pos, h.root_aligned, hone.mpr h.one, fun g hg => ?_⟩,
    fun virt => ?_⟩
  · exact h.taken g (htables ▸ hg)
  · have hn : pageNumber virt < 512 ^ 4 := pageNumber_lt virt
    have hwalk := Shape.walk_set h.one hag htab hk hp hf hi
      (hchild.imp_right fun hc => by rw [hself]; exact hc.2) hn
    rwa [hself] at hwalk

/-! ### The table code -/

/-- The tree is well formed and `query_root` answers `q`. -/
def Answers (boot : BootContext) (root : ℕ) (q : ℕ → Option PagingMapping) (s : Machine) : Prop :=
  WellFormed boot root s ∧ ∀ w, queryRoot boot root s.mem w = q w

/-- The frames that the allocator loses do not matter to the tree. -/
lemma Answers.alloc (h : Answers boot root q s) :
    Answers boot root q { s with pmm := s.pmm.pmmAllocFrame.2 } := by
  obtain ⟨hw, hq⟩ := h
  cases hg : s.pmm.pmmAllocFrame.1 with
  | none =>
    rw [(pmmAllocFrame_none hw.pmm hg).1]
    exact ⟨hw, hq⟩
  | some g =>
    obtain ⟨hinv, -, -, -, hcov, -⟩ := pmmAllocFrame_some hw.pmm hg
    have hless : cover s.pmm.pmmAllocFrame.2.freeRanges ⊆ cover s.pmm.freeRanges := by
      rw [hcov]
      exact Set.sdiff_subset
    exact ⟨⟨hinv, fun x hx => hw.physical x (hless hx), hw.root_pos, hw.root_aligned, hw.one,
      fun f hf hmem => hw.taken f hf (hless hmem)⟩, hq⟩

/-- The table code has come to frame `f` on level `l` and has changed no answer.  If the
window reaches the frame, the table of this level stands there. -/
structure OnWay (boot : BootContext) (root : ℕ) (q : ℕ → Option PagingMapping) (virt l f : ℕ)
    (s : Machine) : Prop where
  answers : Answers boot root q s
  stands : physPtr boot f ≠ 0 → physPtr boot root ≠ 0 ∧ Stands boot root l (way virt l) f s

lemma Answers.onWay (h : Answers boot root q s) (virt : ℕ) : OnWay boot root q virt 0 root s :=
  ⟨h, fun hroot => ⟨hroot, rfl⟩⟩

/-- **`ensure_table`** changes no answer, whether it finds the table, adds one or
fails. -/
lemma ensureTable_answers (hl : l < 3) :
    Triple (OnWay boot root q virt l f) (ensureTable boot f (tableIndex virt (39 - 9 * l)))
      (OnWay boot root q virt (l + 1)) (fun _ s => Answers boot root q s) := by
  refine Triple.iff_ends.mpr fun s ⟨h, hf⟩ => ?_
  have hi := tableIndex_lt virt (39 - 9 * l)
  have hout := ensureTable_ensured boot s f (tableIndex virt (39 - 9 * l))
  generalize outcome (ensureTable boot f _) s = r at hout ⊢
  cases hout with
  | unreached | conflict => exact h
  | found hptr h0 h7 =>
    refine ⟨h, fun hg => ⟨(hf hptr).1, ?_⟩⟩
    rw [Stands, ← way_succ virt hl.le, Shape.tableAt_succ]
    refine (congrArg (Option.bind · _) (Shape.entryAt_append (hf hptr).2 hi)).trans ?_
    exact reachChild_eq_some_iff.mpr ⟨child_eq_some h0 fun _ => h7, hg⟩
  | noMemory | lost => exact h.alloc
  | added hptr h0 hg hgptr =>
    obtain ⟨hw, hstands, hq⟩ := h.1.hang hl (way_lt virt (by omega)) hi (hf hptr).2 h0 hg hgptr
    rw [way_succ virt hl.le] at hstands
    exact ⟨⟨hw, fun w => (hq w).trans (h.2 w)⟩, fun _ => ⟨(hf hptr).1, hstands⟩⟩

/-- **`pte_for_virtual`** with `create` changes no answer; the entry it returns is the
one of the address in its page table. -/
lemma pteForVirtual_answers (virt : ℕ) :
    Triple (Answers boot root q) (pteForVirtual boot root virt true)
      (fun pte s => ∃ f, OnWay boot root q virt 3 f s ∧ physPtr boot f ≠ 0 ∧
        pte = boot.physicalMemoryOffset + f + 8 * tableIndex virt 12)
      (fun _ s => Answers boot root q s) := by
  refine (pteForVirtual_rule (A := OnWay boot root q virt) (fun l _ f s hs _ => hs.answers)
    (fun l hl f _ => ?_) (fun f s hs _ => hs.answers) fun f e _ => ?_).conseq
    (fun s hs => hs.onWay virt) (fun _ _ hs => hs) fun _ _ hs => hs
  · rw [nextTable, if_pos rfl]
    exact ensureTable_answers (by omega)
  · rw [lastTable, if_pos rfl]
    exact (ensureTable_answers (l := 2) (by omega)).conseq (fun _ hs => hs.1) (fun _ _ hs => hs)
      fun _ _ hs => hs

/-! ### The updates -/

/-- The mapping that an update asks for, `i` bytes into its page: the permissions are
those in `flags`, and the address is `phys` unless `flags` has address bits. -/
def asked (phys flags i : ℕ) (huge : Bool) : PagingMapping where
  physicalAddress := (phys ||| (flags &&& pageMask)) + i
  present := true
  writable := flags &&& pageRw ≠ 0
  executable := flags &&& pageNx = 0
  huge := huge
  cacheDisabled := flags &&& pagePcd ≠ 0

/-- The outcome of an update of the page of `size` bytes at `virt`: it changes the
answers for this page and no others, or none at all. -/
def Exact (boot : BootContext) (root : ℕ) (s : Machine) (virt phys flags size : ℕ) (huge : Bool) :
    Except PagingStatus Unit × Machine → Prop
  | (.ok _, s') => WellFormed boot root s' ∧
      (∀ i < size, queryRoot boot root s'.mem (virt + i) = some (asked phys flags i huge)) ∧
      ∀ w, w % 2 ^ 48 / size ≠ virt % 2 ^ 48 / size →
        queryRoot boot root s'.mem w = queryRoot boot root s.mem w
  | (.error _, s') => WellFormed boot root s' ∧
      ∀ w, queryRoot boot root s'.mem w = queryRoot boot root s.mem w

/-- The mapping of a leaf entry with the attribute bits `low`. -/
lemma leafMapping_asked {low size : ℕ} (hdvd : pageSize ∣ phys) (hphys : phys < 2 ^ 52)
    (hmask : low &&& pageMask = 0)
    (hlow : low.testBit 1 = false ∧ low.testBit 4 = false ∧ low.testBit 63 = false)
    (hvirt : size ∣ virt) (hi : i < size) (huge : Bool) :
    leafMapping (phys ||| low ||| flags) (virt + i) size huge = asked phys flags i huge := by
  obtain ⟨h1, h4, h63⟩ := hlow
  have hp63 : phys.testBit 63 = false :=
    Nat.testBit_eq_false_of_lt (lt_trans hphys (by norm_num))
  have haddr : (phys ||| low ||| flags) &&& pageMask = phys ||| (flags &&& pageMask) := by
    rw [Nat.and_or_distrib_right, land_pageMask_of_dvd hdvd hmask, Nat.mod_eq_of_lt hphys]
  have hoff : (virt + i) % size = i := by
    obtain ⟨c, rfl⟩ := hvirt
    rw [Nat.mul_add_mod, Nat.mod_eq_of_lt hi]
  simp only [leafMapping, asked, haddr, hoff, ne_eq, land_pageRw, land_pageNx, land_pagePcd,
    Nat.testBit_or, h1, h4, h63, hp63, testBit_of_dvd hdvd (by decide : 1 < 12),
    testBit_of_dvd hdvd (by decide : 4 < 12), Bool.or_false, Bool.false_or]

/-- The digits of an address above a page of `4096 * 512 ^ k` bytes. -/
lemma pageNumber_div (w k : ℕ) :
    pageNumber w / 512 ^ k = w % 2 ^ 48 / (pageSize * 512 ^ k) := by
  have hnum : pageNumber w = w % 2 ^ 48 / pageSize :=
    (Nat.mod_mul_right_div_self w 4096 (2 ^ 36)).symm
  rw [hnum, Nat.div_div_eq_div_mul]

/-- The addresses of a page agree above it. -/
lemma page_add {size j : ℕ} (hsize : size ∣ 2 ^ 48) (hvirt : size ∣ virt) (hj : j < size) :
    (virt + j) % 2 ^ 48 / size = virt % 2 ^ 48 / size := by
  obtain ⟨c, hc⟩ := hsize
  obtain ⟨d, rfl⟩ := hvirt
  have hpos : 0 < size := by omega
  rw [hc, Nat.mod_mul_right_div_self, Nat.mod_mul_right_div_self, Nat.mul_add_div hpos,
    Nat.div_eq_of_lt hj, Nat.mul_div_cancel_left d hpos, Nat.add_zero]

/-- **A leaf written where the walk for `virt` comes by** is an exact update. -/
lemma exact_of_write {s₀ : Machine} {huge : Bool}
    (h : Answers boot root (queryRoot boot root s₀.mem) s) (hroot : physPtr boot root ≠ 0)
    (hk : l + k = 3) (hp : p < 512 ^ l) (hi : i < 512) (hf : Stands boot root l p f s)
    (hpath : 512 * p + i = pageNumber virt / 512 ^ k) (hv : v < 2 ^ 64)
    (hchild : k = 0 ∨ (reachShape boot).child l (entries boot s.mem f i) = none ∧
      (reachShape boot).child l v = none) (hvirt : pageSize * 512 ^ k ∣ virt)
    (hanswer : ∀ j < pageSize * 512 ^ k,
      answer (virt + j) (l, v) = some (asked phys flags j huge)) :
    Exact boot root s₀ virt phys flags (pageSize * 512 ^ k) huge
      (.ok (), { s with mem := write64 s.mem (boot.physicalMemoryOffset + f + 8 * i) v }) := by
  have hspan : pageSize * 512 ^ k ∣ 2 ^ 48 := by
    refine ⟨512 ^ (4 - k), ?_⟩
    rw [Nat.mul_assoc, ← pow_add, Nat.add_sub_cancel' (by omega)]
    rfl
  obtain ⟨hw, hwalk⟩ := h.1.write hk hp hi hf hv hchild
  refine ⟨hw, fun j hj => ?_, fun w hne => ?_⟩
  · rw [queryRoot_eq h.1.root_pos hroot, hwalk, if_pos ?_, hanswer j hj]
    rw [hpath, pageNumber_div, pageNumber_div, page_add hspan hvirt hj]
  · rw [← h.2 w]
    refine queryRoot_congr ?_
    rw [hwalk, if_neg ?_]
    rwa [hpath, pageNumber_div, pageNumber_div]

/-- **`map_4k_flags` is an exact update** of any well-formed tree. -/
lemma map4kFlags_exact (h : WellFormed boot root s) (hphys : phys < 2 ^ 52)
    (hflags : flags < 2 ^ 64) (virt : ℕ) (replace : Bool) :
    Exact boot root s virt phys flags pageSize false
      (outcome (map4kFlags boot root virt phys flags replace) s) := by
  refine Triple.holds_outcome (P := Answers boot root (queryRoot boot root s.mem)) ?_
    ⟨h, fun _ => rfl⟩
  rw [map4kFlags]
  refine Triple.guard (fun _ t ht => ht) fun hok => ?_
  rw [not_or, not_not, not_not] at hok
  refine Triple.bind (pteForVirtual_answers virt) fun pte => ?_
  refine Triple.bind readEntry_triple fun e => ?_
  refine Triple.guard (fun _ t ht => ?_) fun _ => ?_
  · obtain ⟨⟨f, hf, -⟩, -⟩ := ht
    exact hf.answers
  refine writeEntry_triple fun t ht => ?_
  obtain ⟨⟨f, hf, hptr, hpte⟩, -⟩ := ht
  obtain ⟨hroot, hstands⟩ := hf.stands hptr
  rw [hpte, Nat.mul_zero, Nat.add_zero]
  refine exact_of_write (k := 0) hf.answers hroot rfl (way_lt virt (by omega))
    (tableIndex_lt virt 12) hstands (way_succ virt le_rfl)
    (smallEntry_lt (lt_trans hphys (by norm_num)) hflags) (Or.inl rfl)
    (Nat.dvd_of_mod_eq_zero hok.1) fun j hj => ?_
  refine (answer_small (smallEntry_present phys flags)).trans ?_
  exact congrArg some (leafMapping_asked (Nat.dvd_of_mod_eq_zero hok.2) hphys (by decide)
    (by decide) (Nat.dvd_of_mod_eq_zero hok.1) hj false)

/-- **`map_2m_flags` is an exact update** of any well-formed tree. -/
lemma map2mFlags_exact (h : WellFormed boot root s) (hphys : phys < 2 ^ 52)
    (hflags : flags < 2 ^ 64) (virt : ℕ) :
    Exact boot root s virt phys flags hugePageSize true
      (outcome (map2mFlags boot root virt phys flags) s) := by
  refine Triple.holds_outcome (P := Answers boot root (queryRoot boot root s.mem)) ?_
    ⟨h, fun _ => rfl⟩
  rw [map2mFlags]
  refine Triple.guard (fun _ t ht => ht) fun hok => ?_
  rw [not_or, not_not, not_not] at hok
  refine Triple.bind ((ensureTable_answers (l := 0) (by omega)).conseq
    (fun t ht => ht.onWay virt) (fun _ _ ht => ht) fun _ _ ht => ht) fun pdpt => ?_
  refine Triple.bind ((ensureTable_answers (l := 1) (by omega)).conseq
    (fun _ ht => ht) (fun _ _ ht => ht) fun _ _ ht => ht) fun pd => ?_
  refine Triple.guard (fun _ t ht => ht.answers) fun hpd => ?_
  refine Triple.bind readEntry_triple fun e => ?_
  refine Triple.guard (fun _ t ht => ht.1.answers) fun hgo => ?_
  refine writeEntry_triple fun t ht => ?_
  obtain ⟨hf, he⟩ := ht
  obtain ⟨hroot, hstands⟩ := hf.stands hpd
  rw [read_table hpd] at he
  have hwanted : (reachShape boot).child 2 (hugeEntry phys flags) = none :=
    reachChild_eq_none (child_eq_none (Or.inr ⟨rfl, (hugeEntry_bits phys flags).2⟩))
  -- the old entry is absent or already the wanted leaf
  have hold : (reachShape boot).child 2 e = none := by
    rw [ne_eq, land_pagePresent, Bool.not_eq_false, not_and, not_not] at hgo
    cases h0 : e.testBit 0 with
    | false => exact reachChild_eq_none (child_eq_none (Or.inl h0))
    | true =>
      rw [hgo h0]
      exact hwanted
  rw [physPtr_of_ne_zero hpd]
  refine exact_of_write (k := 1) hf.answers hroot rfl (way_lt virt (by omega))
    (tableIndex_lt virt 21) hstands (way_succ virt (by omega))
    (hugeEntry_lt (lt_trans hphys (by norm_num)) hflags) (Or.inr ⟨he ▸ hold, hwanted⟩)
    (Nat.dvd_of_mod_eq_zero hok.1) fun j hj => ?_
  refine (answer_huge (hugeEntry_bits phys flags)).trans ?_
  rw [hugeEntry, Nat.or_assoc phys]
  exact congrArg some (leafMapping_asked (dvd_trans (by decide) (Nat.dvd_of_mod_eq_zero hok.2))
    hphys (by decide) (by decide) (Nat.dvd_of_mod_eq_zero hok.1) hj true)

/-- **A page-table update changes one translation only.**  In every well-formed tree,
`map_4k_flags` either changes what `query_root` reports for its page, to the address and
the permissions asked for, and for no other page, or stops with an error and changes
nothing; the tree stays well formed.  The same holds for `map_2m_flags` and its page.
The address is `phys` when `flags` has no address bits. -/
theorem page_update_exact (boot : BootContext) (root : ℕ) (s : Machine)
    (h : WellFormed boot root s) (virt phys flags : ℕ) (hphys : phys < 2 ^ 52)
    (hflags : flags < 2 ^ 64) (replace : Bool) :
    Exact boot root s virt phys flags pageSize false
        (outcome (map4kFlags boot root virt phys flags replace) s) ∧
      Exact boot root s virt phys flags hugePageSize true
        (outcome (map2mFlags boot root virt phys flags) s) ∧
      (flags &&& pageMask = 0 →
        ∀ i huge, (asked phys flags i huge).physicalAddress = phys + i) := by
  refine ⟨map4kFlags_exact h hphys hflags virt replace, map2mFlags_exact h hphys hflags virt,
    fun hmask i huge => ?_⟩
  rw [asked, hmask, Nat.or_zero]

/-! ### A concrete tree -/

/-- An empty root on the concrete boot, below which a page can be mapped. -/
lemma eightMiB_empty_root : ∃ root s, WellFormed eightMiBBoot root s ∧
    ∀ virt phys flags, pageSize ∣ virt → pageSize ∣ phys → phys < 2 ^ 64 → flags < 2 ^ 64 →
      ∃ s', outcome (map4kFlags eightMiBBoot root virt phys flags false) s = (.ok (), s') := by
  have hkept := kept_of_reached (checkLayout_eq_ok eightMiB_checkLayout).2 eightMiB_pmmInit
    (s := eightMiBStart.machine) ⟨[], rfl⟩ (Set.empty_disjoint _)
  have hframes : eightMiBStart.machine.pmm.freeFrames = 1786 := by decide
  rcases allocTable_outcome hkept with ⟨-, hzero⟩ | ⟨root, s, -, ha⟩
  · omega
  have hmaps := (Maps.fresh hkept ha).mono (Set.empty_subset Set.univ)
  refine ⟨root, s, hmaps.toTreeOk.wellFormed, fun virt phys flags hv hp hphys hflags => ?_⟩
  obtain ⟨-, herr⟩ := map4kFlags_triple virt false hphys hflags (Set.mem_univ _) s
    ⟨hmaps, le_refl s.pmm.freeFrames⟩
  have hcount := ha.count
  cases hout : outcome (map4kFlags eightMiBBoot root virt phys flags false) s with
  | mk r s' =>
    cases r with
    | ok _ => exact ⟨s', rfl⟩
    | error status =>
      rcases (herr status s' hout).2 trivial hv hp with hfew | ⟨leaf, hleaf, -⟩
      · omega
      · exact hleaf.elim

/-- One page of a device mapped below an empty root. -/
theorem page_update_exact_eightMiB :
    ∃ root s s', WellFormed eightMiBBoot root s ∧
      outcome (map4kFlags eightMiBBoot root mmioBase 0xfee00000 (pageRw ||| pageNx) false) s =
        (.ok (), s') ∧
      queryRoot eightMiBBoot root s'.mem (mmioBase + 0x20) =
        some { physicalAddress := 0xfee00020, present := true, writable := true } ∧
      WellFormed eightMiBBoot root s' := by
  obtain ⟨root, s, h, hmap⟩ := eightMiB_empty_root
  obtain ⟨s', hout⟩ := hmap mmioBase 0xfee00000 (pageRw ||| pageNx) (by decide) (by decide)
    (by decide) (by decide)
  have hexact := (page_update_exact eightMiBBoot root s h mmioBase 0xfee00000 (pageRw ||| pageNx)
    (by decide) (by decide) false).1
  rw [hout] at hexact
  exact ⟨root, s, s', h, hout, (hexact.2.1 0x20 (by decide)).trans (by decide), hexact.1⟩

/-- Address bits among the flags are taken for a part of the address: the page asked for
at `0` is mapped to `0x1000`. -/
theorem page_update_stray_flags :
    ∃ root s s', WellFormed eightMiBBoot root s ∧
      outcome (map4kFlags eightMiBBoot root mmioBase 0 0x1000 false) s = (.ok (), s') ∧
      ∃ m, queryRoot eightMiBBoot root s'.mem mmioBase = some m ∧ m.physicalAddress = 0x1000 := by
  obtain ⟨root, s, h, hmap⟩ := eightMiB_empty_root
  obtain ⟨s', hout⟩ := hmap mmioBase 0 0x1000 (by decide) (by decide) (by decide) (by decide)
  have hexact := map4kFlags_exact h (by decide : 0 < 2 ^ 52) (by decide : 0x1000 < 2 ^ 64) mmioBase
    false
  rw [hout] at hexact
  exact ⟨root, s, s', h, hout, _, hexact.2.1 0 (by decide), by decide⟩

end Paging

end JoshOS
