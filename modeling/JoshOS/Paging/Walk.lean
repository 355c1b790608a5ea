import JoshOS.Paging.Tree
import JoshOS.Pmm.Runs

/-!
The table code of `paging.c` keeps the tree and changes one translation at a time.

* `TreeOk`: the tables are a tree in frames that the allocator does not consider
  free, and the rest of the system's memory is as it was.
* `Maps`: such a tree whose translations are a given relation.
-/

namespace JoshOS

open Words Memory Radix Spans Hoare

namespace Paging

/-! ### Tables in memory -/

/-- Entry `i` of the table in frame `f`. -/
def entries (boot : BootContext) (m : Memory) (f i : ℕ) : ℕ :=
  read64 m (boot.physicalMemoryOffset + f + 8 * i)

lemma zeroPage_eq (page : ℕ) (m : Memory) : zeroPage page m = fill m page pageSize 0 := by
  have words : ∀ n, zeroWords page m n = fill m page (8 * n) 0 := by
    intro n
    induction n with
    | zero =>
      funext x
      rw [zeroWords, fill_apply_of_notMem (by omega)]
    | succ n ih =>
      rw [zeroWords, ih, write64, writeLE_zero, fill_fill]
      rfl
  exact words _

section Entries

variable {boot : BootContext} {m : Memory} {f g i j v : ℕ}

/-- Two tables are the same or do not meet. -/
lemma page_disjoint (hf : pageSize ∣ f) (hg : pageSize ∣ g) (hne : g ≠ f) :
    f + pageSize ≤ g ∨ g + pageSize ≤ f := by
  rcases Nat.lt_or_gt_of_ne hne with h | h
  · exact Or.inr (add_le_of_dvd hg hf h)
  · exact Or.inl (add_le_of_dvd hf hg h)

lemma entries_write_self (hv : v < 2 ^ 64) :
    entries boot (write64 m (boot.physicalMemoryOffset + f + 8 * i) v) f i = v := by
  rw [entries, read64_write64, Nat.mod_eq_of_lt hv]

lemma entries_write_of_ne (hf : pageSize ∣ f) (hg : pageSize ∣ g) (hi : i < 512) (hj : j < 512)
    (hne : g ≠ f ∨ j ≠ i) :
    entries boot (write64 m (boot.physicalMemoryOffset + f + 8 * i) v) g j =
      entries boot m g j := by
  have hsize : pageSize = 4096 := rfl
  refine read64_write64_of_disjoint ?_
  by_cases hfg : g = f
  · omega
  · have := page_disjoint hf hg hfg
    omega

lemma entries_zero_self (hi : i < 512) :
    entries boot (zeroPage (boot.physicalMemoryOffset + g) m) g i = 0 := by
  have hsize : pageSize = 4096 := rfl
  rw [entries, zeroPage_eq]
  exact read64_fill_zero (by omega) (by omega)

lemma entries_zero_of_ne (hf : pageSize ∣ f) (hg : pageSize ∣ g) (hj : j < 512) (hne : g ≠ f) :
    entries boot (zeroPage (boot.physicalMemoryOffset + f) m) g j = entries boot m g j := by
  have hsize : pageSize = 4096 := rfl
  have := page_disjoint hf hg hne
  rw [entries, zeroPage_eq]
  exact read64_fill_of_disjoint (by omega)

end Entries

/-! ### The invariant -/

/-- What stays fixed while the table code runs: the boot context, the managed
ranges, the states that the allocator can be in, and the memory of the frames that
others hold, as an image to compare with.  The managed frames can be addressed
through the window and stored in an entry.  With `strict` the tree is also known to
hold no stray page-size bit. -/
structure Surroundings where
  boot : BootContext
  managed : List Span
  reached : Pmm → Prop
  others : Set ℕ
  image : Memory
  strict : Prop
  reached_alloc : ∀ p, reached p → reached p.pmmAllocFrame.2
  window : ∀ x ∈ cover managed,
    0 < x ∧ x < 2 ^ 52 ∧ boot.physicalMemoryOffset + x < 2 ^ 64

/-- The allocator is in order, and what others hold is neither free nor changed. -/
structure Kept (c : Surroundings) (s : Machine) : Prop where
  reached : c.reached s.pmm
  inv : s.pmm.Inv
  managed : s.pmm.managedRanges = c.managed
  others_held : Disjoint c.others (cover s.pmm.freeRanges)
  image : ∀ x ∈ c.others, s.mem (c.boot.physicalMemoryOffset + x) =
    c.image (c.boot.physicalMemoryOffset + x)

/-- A frame in which a table may stand. -/
structure TableFrame (c : Surroundings) (s : Machine) (f : ℕ) : Prop where
  aligned : pageSize ∣ f
  managed : f ∈ cover c.managed
  taken : f ∉ cover s.pmm.freeRanges
  apart : ∀ x ∈ c.others, x < f ∨ f + pageSize ≤ x

/-- The tables below `root` are a tree in frames of their own. -/
structure TreeOk (c : Surroundings) (root : ℕ) (s : Machine) : Prop extends Kept c s where
  one : pageShape.OneParent (entries c.boot s.mem) root
  frame : ∀ f ∈ pageShape.tables (entries c.boot s.mem) root, TableFrame c s f
  clean : c.strict → Clean (entries c.boot s.mem) root

/-- The tree is in order, its translations are `R`, and the page directory entries
that point to page tables are among `tabled`. -/
structure Maps (c : Surroundings) (root : ℕ) (R : ℕ → Leaf → Prop) (tabled : Set ℕ)
    (s : Machine) : Prop extends TreeOk c root s where
  leaf : ∀ n < 2 ^ 36, ∀ leaf, IsLeaf (entries c.boot s.mem) root n leaf ↔ R n leaf
  split : ∀ m < 512 ^ 3, ∀ f,
    pageShape.tableAt (entries c.boot s.mem) root 3 m = some f → m ∈ tabled

variable {c : Surroundings} {root f g i l p k : ℕ} {s s' : Machine} {R R' : ℕ → Leaf → Prop}
  {tabled tabled' : Set ℕ}

/-- The pointer to a managed address. -/
lemma physPtr_eq {x : ℕ} (h : x ∈ cover c.managed) :
    physPtr c.boot x = c.boot.physicalMemoryOffset + x ∧ c.boot.physicalMemoryOffset + x ≠ 0 := by
  obtain ⟨hpos, -, hlt⟩ := c.window x h
  have hmax : uint64Max = 2 ^ 64 - 1 := rfl
  rw [physPtr, if_neg (by omega)]
  exact ⟨rfl, by omega⟩

/-- An aligned managed address is the start of a managed page. -/
lemma page_subset_managed (h : s.pmm.Inv) (hm : s.pmm.managedRanges = c.managed)
    (hf : pageSize ∣ f) (hfm : f ∈ cover c.managed) {x : ℕ} (hx : f ≤ x) (hx' : x < f + pageSize) :
    x ∈ cover c.managed := by
  rw [← hm] at hfm ⊢
  rw [← Pmm.alignDown_mem_cover_iff h.managed_aligned]
  have : alignDown x pmmPageSize = f := by
    obtain ⟨j, rfl⟩ := hf
    have hsize : pageSize = 4096 := rfl
    have hpm : pmmPageSize = 4096 := rfl
    rw [hsize] at hx hx' ⊢
    rw [alignDown_eq_mul, hpm]
    omega
  rwa [this]

lemma Maps.mono (h : Maps c root R tabled s) (hsub : tabled ⊆ tabled') :
    Maps c root R tabled' s :=
  ⟨h.toTreeOk, h.leaf, fun m hm f hf => hsub (h.split m hm f hf)⟩

/-! ### Allocating a table -/

/-- The machine after `alloc_table` has returned `g`. -/
structure Allocated (c : Surroundings) (s s' : Machine) (g : ℕ) : Prop where
  pmm : s'.pmm = s.pmm.pmmAllocFrame.2
  inv : s'.pmm.Inv
  managed : s'.pmm.managedRanges = s.pmm.managedRanges
  aligned : pageSize ∣ g
  free : Set.Ico g (g + pageSize) ⊆ cover s.pmm.freeRanges
  left : cover s'.pmm.freeRanges = cover s.pmm.freeRanges \ Set.Ico g (g + pageSize)
  count : s'.pmm.freeFrames + 1 = s.pmm.freeFrames
  mem : s'.mem = zeroPage (c.boot.physicalMemoryOffset + g) s.mem

/-- The frame that the allocator hands out was free and is taken from the free ones. -/
lemma pmmAllocFrame_some {pmm : Pmm} (h : pmm.Inv) (hg : pmm.pmmAllocFrame.1 = some g) :
    pmm.pmmAllocFrame.2.Inv ∧ pmm.pmmAllocFrame.2.managedRanges = pmm.managedRanges ∧
      pageSize ∣ g ∧ Set.Ico g (g + pageSize) ⊆ cover pmm.freeRanges ∧
      cover pmm.pmmAllocFrame.2.freeRanges =
        cover pmm.freeRanges \ Set.Ico g (g + pageSize) ∧
      pmm.pmmAllocFrame.2.freeFrames + 1 = pmm.freeFrames := by
  rcases Pmm.pmmAllocFrames_spec h 1 with
    ⟨g', pmm', hrun, hinv, hman, -, hdvd, -, hsub, hcov, hcount⟩ | hnone
  · rw [Pmm.pmmAllocFrame, hrun] at hg
    obtain rfl := Option.some.inj hg
    rw [one_mul] at hsub hcov
    rw [Pmm.pmmAllocFrame, hrun]
    exact ⟨hinv, hman, hdvd, hsub, hcov, hcount⟩
  · rw [Pmm.pmmAllocFrame, hnone] at hg
    exact absurd hg (by simp)

/-- The frame that the allocator hands out, cleared. -/
lemma allocated_of_alloc (h : Kept c s) (hg : s.pmm.pmmAllocFrame.1 = some g) :
    Allocated c s ⟨zeroPage (c.boot.physicalMemoryOffset + g) s.mem, s.pmm.pmmAllocFrame.2⟩ g := by
  obtain ⟨hinv, hman, hdvd, hsub, hcov, hcount⟩ := pmmAllocFrame_some h.inv hg
  exact ⟨rfl, hinv, hman, hdvd, hsub, hcov, hcount, rfl⟩

lemma Allocated.mem_free (ha : Allocated c s s' g) : g ∈ cover s.pmm.freeRanges :=
  ha.free ⟨le_refl g, Nat.lt_add_of_pos_right (by decide)⟩

lemma Allocated.sub (ha : Allocated c s s' g) :
    cover s'.pmm.freeRanges ⊆ cover s.pmm.freeRanges := by
  rw [ha.left]
  exact Set.sdiff_subset

/-- A table may stand in a frame handed out. -/
lemma Allocated.tableFrame (h : Kept c s) (ha : Allocated c s s' g) : TableFrame c s' g := by
  refine ⟨ha.aligned, h.managed ▸ h.inv.free_sub ha.mem_free, fun hmem => ?_, fun x hx => ?_⟩
  · rw [ha.left] at hmem
    exact hmem.2 ⟨le_refl g, Nat.lt_add_of_pos_right (by decide)⟩
  · by_contra hin
    exact Set.disjoint_left.mp h.others_held hx (ha.free ⟨by omega, by omega⟩)

/-- Without a frame to hand out the allocator is empty and stays as it is. -/
lemma pmmAllocFrame_none {pmm : Pmm} (h : pmm.Inv) (hnone : pmm.pmmAllocFrame.1 = none) :
    pmm.pmmAllocFrame.2 = pmm ∧ pmm.freeFrames = 0 := by
  refine ⟨?_, Pmm.freeFrames_eq_zero h hnone⟩
  rcases Pmm.pmmAllocFrames_spec h 1 with ⟨g, pmm', hrun, -⟩ | hsame
  · rw [Pmm.pmmAllocFrame, hrun] at hnone
    exact absurd hnone (by simp)
  · rw [Pmm.pmmAllocFrame, hsame]

/-- **`alloc_table`** clears a frame that was free, or fails for want of one and
changes nothing. -/
lemma allocTable_outcome (h : Kept c s) :
    (outcome (allocTable c.boot) s = (.error .noMemory, s) ∧ s.pmm.freeFrames = 0) ∨
      ∃ g s', outcome (allocTable c.boot) s = (.ok g, s') ∧ Allocated c s s' g := by
  cases hg : s.pmm.pmmAllocFrame.1 with
  | none =>
    obtain ⟨hsame, hzero⟩ := pmmAllocFrame_none h.inv hg
    refine Or.inl ⟨?_, hzero⟩
    simp only [allocTable, outcome_bind, outcome_get, outcome_set, hg, hsame, outcome_throw]
  | some g =>
    have ha := allocated_of_alloc h hg
    obtain ⟨hptr, hnz⟩ := physPtr_eq (ha.tableFrame h).managed
    refine Or.inr ⟨g, _, ?_, ha⟩
    simp only [allocTable, outcome_bind, outcome_get, outcome_set, hg, hptr, if_neg hnz,
      outcome_modify, outcome_pure]

/-- The table at path `p` on level `l` stands in frame `f`. -/
def TableAt (c : Surroundings) (root l p f : ℕ) (s : Machine) : Prop :=
  pageShape.tableAt (entries c.boot s.mem) root l p = some f

/-- A frame whose table is found at a path. -/
lemma TreeOk.tableFrame (h : TreeOk c root s) (hl : l ≤ 3) (hp : p < 512 ^ l)
    (hf : TableAt c root l p f s) : TableFrame c s f := h.frame f (Shape.mem_tables hl hp hf)

/-- The pointer to a table of the tree. -/
lemma TreeOk.physPtr_eq (h : TreeOk c root s) (hl : l ≤ 3) (hp : p < 512 ^ l)
    (hf : TableAt c root l p f s) :
    physPtr c.boot f = c.boot.physicalMemoryOffset + f ∧ physPtr c.boot f ≠ 0 := by
  obtain ⟨hptr, hnz⟩ := Paging.physPtr_eq (h.tableFrame hl hp hf).managed
  exact ⟨hptr, by rwa [hptr]⟩

/-- The memory after a fresh table in frame `g` has been hung into entry `i` of `f`. -/
def linked (c : Surroundings) (s : Machine) (f i g : ℕ) : Memory :=
  write64 (zeroPage (c.boot.physicalMemoryOffset + g) s.mem)
    (c.boot.physicalMemoryOffset + f + 8 * i) (g ||| pagePresent ||| pageRw)

/-- The pointer to a table is present, has no page-size bit, and leads to the
table. -/
lemma pointer_bits (hg : pageSize ∣ g) (hlt : g < 2 ^ 52) :
    g ||| pagePresent ||| pageRw < 2 ^ 64 ∧
      (g ||| pagePresent ||| pageRw).testBit 0 = true ∧
      (g ||| pagePresent ||| pageRw).testBit 7 = false ∧
      (g ||| pagePresent ||| pageRw) &&& pageMask = g := by
  rw [Nat.or_assoc]
  have hflags : pagePresent ||| pageRw < 2 ^ 52 := by decide
  refine ⟨lt_trans (Nat.or_lt_two_pow hlt hflags) (by decide), ?_, ?_, ?_⟩
  · rw [Nat.testBit_or, show (pagePresent ||| pageRw).testBit 0 = true by decide, Bool.or_true]
  · rw [Nat.testBit_or, testBit_of_dvd hg (by decide)]
    decide
  · rw [land_pageMask_of_dvd hg (by decide), Nat.mod_eq_of_lt hlt]

/-- What hanging in a fresh table does to the tree. -/
lemma newTable_of_allocated (h : TreeOk c root s) (hl : l < 3) (hp : p < 512 ^ l) (hi : i < 512)
    (hf : TableAt c root l p f s) (habs : (entries c.boot s.mem f i).testBit 0 = false)
    (ha : Allocated c s s' g) :
    NewTable (entries c.boot s.mem) (entries c.boot (linked c s f i g)) root l p i f g := by
  have hff := h.tableFrame hl.le hp hf
  have hfresh : ∀ f' ∈ pageShape.tables (entries c.boot s.mem) root, f' ≠ g := by
    rintro f' hf' rfl
    exact (h.frame f' hf').taken ha.mem_free
  have hgf : g ≠ f := (hfresh f (Shape.mem_tables hl.le hp hf)).symm
  obtain ⟨hlt, h0, h7, hmask⟩ := pointer_bits ha.aligned
    (c.window g (ha.tableFrame h.toKept).managed).2.1
  have hptr : entries c.boot (linked c s f i g) f i = g ||| pagePresent ||| pageRw :=
    entries_write_self hlt
  have hzero : ∀ j < 512, entries c.boot (linked c s f i g) g j = 0 := by
    intro j hj
    rw [linked, entries_write_of_ne hff.aligned ha.aligned hi hj (Or.inl hgf),
      entries_zero_self hj]
  refine ⟨⟨hl, hp, hi, hf, fun f' hf' j hj hne => ?_, fun hmem => hfresh g hmem rfl,
    child_eq_none (Or.inl habs), ?_, fun j hj => ?_⟩, habs, ?_, hzero⟩
  · have halign := (h.frame f' hf').aligned
    rw [linked, entries_write_of_ne hff.aligned halign hi hj hne,
      entries_zero_of_ne ha.aligned halign hj (hfresh f' hf')]
  · rw [hptr, child_eq_some h0 fun _ => h7, hmask]
  · rw [hzero j hj]
    exact child_eq_none (Or.inl (Nat.zero_testBit 0))
  · rw [hptr]
    exact ⟨h0, h7⟩

/-- A fresh table keeps the tree in order and every translation. -/
lemma Maps.newTable (h : Maps c root R tabled s) (hl : l < 3) (hp : p < 512 ^ l) (hi : i < 512)
    (hf : TableAt c root l p f s) (habs : (entries c.boot s.mem f i).testBit 0 = false)
    (ha : Allocated c s s' g) (htab : l = 2 → 512 * p + i ∈ tabled) :
    Maps c root R tabled { s' with mem := linked c s f i g } ∧
      TableAt c root (l + 1) (512 * p + i) g { s' with mem := linked c s f i g } := by
  have hn := newTable_of_allocated h.toTreeOk hl hp hi hf habs ha
  have hff := h.tableFrame hl.le hp hf
  have hgf := ha.tableFrame h.toKept
  refine ⟨⟨⟨⟨ha.pmm ▸ c.reached_alloc _ h.reached, ha.inv, ha.managed.trans h.managed,
    h.others_held.mono_right ha.sub, fun x hx => ?_⟩, h.one.link hn.toLink, fun f' hf' => ?_,
    fun hs => (h.clean hs).link h.one hn⟩,
    fun n hnlt leaf => ?_, fun m hm f' hf' => ?_⟩, ?_⟩
  · -- the bytes of others lie in neither of the two frames written to
    have h1 := hff.apart x hx
    have h2 := hgf.apart x hx
    have hsize : pageSize = 4096 := rfl
    show linked c s f i g _ = _
    rw [linked, write64_apply_of_notMem (by omega), zeroPage_eq,
      fill_apply_of_notMem (by omega), h.image x hx]
  · rcases Set.mem_insert_iff.mp (Shape.tables_link h.one hn.toLink hf') with rfl | hold
    · exact ⟨hgf.aligned, hgf.managed, hgf.taken, hgf.apart⟩
    · have := h.frame f' hold
      exact ⟨this.aligned, this.managed, fun hmem => this.taken (ha.sub hmem), this.apart⟩
  · exact (isLeaf_link h.one hn hnlt).trans (h.leaf n hnlt leaf)
  · have hlink := Shape.tableAt_link h.one hn.toLink (le_refl 3) hm
    rw [hf'] at hlink
    split at hlink
    case isTrue heq =>
      rw [heq.2]
      exact htab (by omega)
    case isFalse => exact h.split m hm f' hlink.symm
  · have hlink := Shape.tableAt_link h.one hn.toLink (by omega : l + 1 ≤ 3)
      (Shape.append_lt (S := pageShape) hp hi)
    rw [if_pos ⟨rfl, rfl⟩] at hlink
    exact hlink

/-- A pointer that is not null is the address in the window. -/
lemma physPtr_of_ne_zero {boot : BootContext} {x : ℕ} (h : physPtr boot x ≠ 0) :
    physPtr boot x = boot.physicalMemoryOffset + x := by
  rw [physPtr] at h ⊢
  split at h
  case isTrue => exact absurd rfl h
  case isFalse hfits => rw [if_neg hfits]

lemma read_table {boot : BootContext} {m : Memory} (hptr : physPtr boot f ≠ 0) (i : ℕ) :
    read64 m (physPtr boot f + 8 * i) = entries boot m f i := by
  rw [physPtr_of_ne_zero hptr]
  rfl

/-- Everything that `ensure_table` can do with entry `i` of the table in frame `f`. -/
inductive Ensured (boot : BootContext) (s : Machine) (f i : ℕ) :
    Except PagingStatus ℕ × Machine → Prop where
  | unreached (hptr : physPtr boot f = 0) : Ensured boot s f i (.error .unsupportedLayout, s)
  | conflict (hptr : physPtr boot f ≠ 0) (h0 : (entries boot s.mem f i).testBit 0 = true)
      (h7 : (entries boot s.mem f i).testBit 7 = true) :
      Ensured boot s f i (.error .mappingConflict, s)
  | found (hptr : physPtr boot f ≠ 0) (h0 : (entries boot s.mem f i).testBit 0 = true)
      (h7 : (entries boot s.mem f i).testBit 7 = false) :
      Ensured boot s f i (.ok (entries boot s.mem f i &&& pageMask), s)
  | noMemory (hptr : physPtr boot f ≠ 0) (h0 : (entries boot s.mem f i).testBit 0 = false)
      (hg : s.pmm.pmmAllocFrame.1 = none) :
      Ensured boot s f i (.error .noMemory, { s with pmm := s.pmm.pmmAllocFrame.2 })
  | lost (hptr : physPtr boot f ≠ 0) (h0 : (entries boot s.mem f i).testBit 0 = false) {g : ℕ}
      (hg : s.pmm.pmmAllocFrame.1 = some g) (hgptr : physPtr boot g = 0) :
      Ensured boot s f i (.error .unsupportedLayout, { s with pmm := s.pmm.pmmAllocFrame.2 })
  | added (hptr : physPtr boot f ≠ 0) (h0 : (entries boot s.mem f i).testBit 0 = false) {g : ℕ}
      (hg : s.pmm.pmmAllocFrame.1 = some g) (hgptr : physPtr boot g ≠ 0) :
      Ensured boot s f i (.ok g,
        ⟨write64 (zeroPage (boot.physicalMemoryOffset + g) s.mem)
          (boot.physicalMemoryOffset + f + 8 * i) (g ||| pagePresent ||| pageRw),
        s.pmm.pmmAllocFrame.2⟩)

lemma ensureTable_ensured (boot : BootContext) (s : Machine) (f i : ℕ) :
    Ensured boot s f i (outcome (ensureTable boot f i) s) := by
  by_cases hptr : physPtr boot f = 0
  · simp only [ensureTable, hptr, if_true, outcome_throw]
    exact .unreached hptr
  simp only [ensureTable, if_neg hptr, readEntry, outcome_bind, outcome_get, outcome_pure,
    read_table hptr]
  cases h0 : (entries boot s.mem f i).testBit 0 with
  | true =>
    have hne : ¬ entries boot s.mem f i &&& pagePresent = 0 := by simp [land_pagePresent, h0]
    rw [if_pos hne]
    cases h7 : (entries boot s.mem f i).testBit 7 with
    | true =>
      have hps : ¬ entries boot s.mem f i &&& pagePs = 0 := by simp [land_pagePs, h7]
      rw [if_pos hps]
      exact .conflict hptr h0 h7
    | false =>
      rw [if_neg (not_not.mpr ((land_pagePs _).mpr h7))]
      exact .found hptr h0 h7
  | false =>
    rw [if_neg (not_not.mpr ((land_pagePresent _).mpr h0))]
    cases hg : s.pmm.pmmAllocFrame.1 with
    | none =>
      simp only [allocTable, outcome_bind, outcome_get, outcome_set, hg, outcome_throw]
      exact .noMemory hptr h0 hg
    | some g =>
      by_cases hgptr : physPtr boot g = 0
      · simp only [allocTable, outcome_bind, outcome_get, outcome_set, hg, hgptr, if_true,
          outcome_throw]
        exact .lost hptr h0 hg hgptr
      · simp only [allocTable, outcome_bind, outcome_get, outcome_set, hg, if_neg hgptr,
          outcome_modify, outcome_pure, writeEntry]
        rw [physPtr_of_ne_zero hptr, physPtr_of_ne_zero hgptr]
        exact .added hptr h0 hg hgptr

/-! ### The way to a page table -/

/-- The page number of a virtual address: the four indices that the tables see. -/
def pageNumber (virt : ℕ) : ℕ := virt / 4096 % 2 ^ 36

lemma pageNumber_lt (virt : ℕ) : pageNumber virt < 2 ^ 36 := Nat.mod_lt _ (by norm_num)

lemma tableIndex_eq (virt shift : ℕ) : tableIndex virt shift = virt / 2 ^ shift % 512 := by
  rw [tableIndex, Nat.shiftRight_eq_div_pow]
  exact Nat.and_two_pow_sub_one_eq_mod _ 9

lemma tableIndex_lt (virt shift : ℕ) : tableIndex virt shift < 512 := by
  rw [tableIndex_eq]
  exact Nat.mod_lt _ (by norm_num)

/-- The path of the table of level `l` on the way to an address. -/
def way (virt l : ℕ) : ℕ := pageNumber virt / 512 ^ (4 - l)

lemma way_three (virt : ℕ) : way virt 3 = pageNumber virt / 512 := rfl

lemma way_four (virt : ℕ) : way virt 4 = pageNumber virt := Nat.div_one _

lemma way_lt (virt : ℕ) (hl : l ≤ 4) : way virt l < 512 ^ l := by
  rw [way, Nat.div_lt_iff_lt_mul (by positivity), ← pow_add, Nat.add_sub_cancel' hl]
  exact pageNumber_lt virt

/-- The indices of an address spell its page number. -/
lemma way_succ (virt : ℕ) (hl : l ≤ 3) :
    512 * way virt l + tableIndex virt (39 - 9 * l) = way virt (l + 1) := by
  rw [tableIndex_eq]
  interval_cases l <;> simp only [way, pageNumber] <;> norm_num <;> omega

/-- The entry of the table on the way. -/
lemma entryAt_way {t : ℕ → ℕ → ℕ} {virt : ℕ} (hl : l ≤ 3)
    (hf : pageShape.tableAt t root l (way virt l) = some f) :
    pageShape.entryAt t root l (way virt (l + 1)) =
      some (t f (tableIndex virt (39 - 9 * l))) := by
  rw [← way_succ virt hl]
  exact Shape.entryAt_append (S := pageShape) hf (tableIndex_lt virt _)

/-- A pointer on the way leads to the next table. -/
lemma TableAt.next {virt : ℕ} (hf : TableAt c root l (way virt l) f s) (hl : l < 3)
    (h0 : (entries c.boot s.mem f (tableIndex virt (39 - 9 * l))).testBit 0 = true)
    (h7 : (entries c.boot s.mem f (tableIndex virt (39 - 9 * l))).testBit 7 = false) :
    TableAt c root (l + 1) (way virt (l + 1))
      (entries c.boot s.mem f (tableIndex virt (39 - 9 * l)) &&& pageMask) s := by
  rw [TableAt, Shape.tableAt_succ, entryAt_way hl.le hf]
  exact child_eq_some h0 fun _ => h7

/-- The table code has come to the table in frame `f` on level `l`, where it has added a
table on each level above. -/
structure Walked (c : Surroundings) (root : ℕ) (R : ℕ → Leaf → Prop) (tabled : Set ℕ)
    (virt k l f : ℕ) (s : Machine) : Prop extends Maps c root R tabled s where
  table : TableAt c root l (way virt l) f s
  frames : k - l ≤ s.pmm.freeFrames

lemma Maps.walked (h : Maps c root R tabled s) (virt : ℕ) (hk : k ≤ s.pmm.freeFrames) :
    Walked c root R tabled virt k 0 root s := ⟨h, rfl, by omega⟩

lemma Walked.physPtr_eq {virt : ℕ} (h : Walked c root R tabled virt k l f s) (hl : l ≤ 3) :
    physPtr c.boot f = c.boot.physicalMemoryOffset + f ∧ physPtr c.boot f ≠ 0 :=
  h.toTreeOk.physPtr_eq hl (way_lt virt (by omega)) h.table

/-- **`ensure_table`** finds or adds the table below an entry and changes no
translation.  It fails for want of a frame or at an entry with the page-size bit. -/
lemma ensureTable_triple {virt : ℕ} (hl : l < 3)
    (htab : l = 2 → pageNumber virt / 512 ∈ tabled) :
    Triple (Walked c root R tabled virt k l f)
      (ensureTable c.boot f (tableIndex virt (39 - 9 * l)))
      (fun g s => Walked c root R tabled virt k (l + 1) g s)
      (fun status s => Maps c root R tabled s ∧ ((status = .noMemory ∧ k ≤ l) ∨ ∃ e,
        pageShape.entryAt (entries c.boot s.mem) root l (way virt (l + 1)) = some e ∧
          e.testBit 0 = true ∧ e.testBit 7 = true)) := by
  refine Triple.iff_ends.mpr fun s hs => ?_
  obtain ⟨hm, hf, hk⟩ := hs
  have hentry := entryAt_way hl.le hf
  have hout := ensureTable_ensured c.boot s f (tableIndex virt (39 - 9 * l))
  generalize outcome (ensureTable c.boot f _) s = r at hout ⊢
  cases hout with
  | unreached hptr => exact absurd hptr (Walked.physPtr_eq ⟨hm, hf, hk⟩ hl.le).2
  | conflict hptr h0 h7 => exact ⟨hm, .inr ⟨_, hentry, h0, h7⟩⟩
  | found hptr h0 h7 => exact ⟨hm, hf.next hl h0 h7, by omega⟩
  | noMemory hptr h0 hg =>
    obtain ⟨hsame, hzero⟩ := pmmAllocFrame_none hm.inv hg
    rw [hsame]
    exact ⟨hm, .inl ⟨rfl, by omega⟩⟩
  | lost hptr h0 hg hgptr =>
    -- the allocator hands out addressable frames only
    obtain ⟨hgp, hgnz⟩ :=
      physPtr_eq ((allocated_of_alloc hm.toKept hg).tableFrame hm.toKept).managed
    exact absurd (hgp.symm.trans hgptr) hgnz
  | added hptr h0 hg hgptr =>
    have ha := allocated_of_alloc hm.toKept hg
    have hcount := ha.count
    have hway := way_succ virt hl.le
    obtain ⟨h1, h2⟩ := hm.newTable hl (way_lt virt (by omega)) (tableIndex_lt virt _) hf h0 ha
      fun h2 => by
        subst h2
        rw [hway]
        exact htab rfl
    rw [hway] at h2
    exact ⟨h1, h2, by simp only at hcount ⊢; omega⟩

lemma readEntry_triple {P : Machine → Prop} {E : PagingStatus → Machine → Prop} {table : ℕ} :
    Triple P (readEntry table i) (fun e s => P s ∧ e = read64 s.mem (table + 8 * i)) E := by
  refine .bind (Q := fun t s => P s ∧ t = s) (.get fun s hs => ⟨hs, rfl⟩) fun t => ?_
  refine .pure fun s hs => ?_
  rw [hs.2]
  exact ⟨hs.1, rfl⟩

/-- On the upper two levels a clean tree has nothing in the way of a table. -/
lemma ensureTable_triple_upper {virt : ℕ} (hl : l < 2) :
    Triple (Walked c root R tabled virt k l f)
      (ensureTable c.boot f (tableIndex virt (39 - 9 * l)))
      (fun g s => Walked c root R tabled virt k (l + 1) g s)
      (fun status s => Maps c root R tabled s ∧ (c.strict → status = .noMemory ∧ k ≤ l)) := by
  refine (ensureTable_triple (by omega) (by omega)).conseq (fun _ h => h) (fun _ _ h => h) ?_
  rintro _ s ⟨hm, hk | ⟨e, he, -, h7⟩⟩
  · exact ⟨hm, fun _ => hk⟩
  · refine ⟨hm, fun hs => ?_⟩
    have := (hm.clean hs l hl.le _ (way_lt virt (by omega)) e he h7).1
    omega

/-! ### Walking to a page table -/

/-- **The rule for `pte_for_virtual`.**  What every step down the tables keeps of the
table that it has come to, the walk keeps. -/
lemma pteForVirtual_rule {boot : BootContext} {virt : ℕ} {create : Bool}
    {A : ℕ → ℕ → Machine → Prop} {E : PagingStatus → Machine → Prop}
    (hnull : ∀ l ≤ 3, ∀ f s, A l f s → physPtr boot f = 0 → E .unsupportedLayout s)
    (hnext : ∀ l < 2, ∀ f, physPtr boot f ≠ 0 →
      Triple (A l f) (nextTable boot create f (tableIndex virt (39 - 9 * l))) (A (l + 1)) E)
    (hleaf : ∀ f s, A 2 f s → (entries boot s.mem f (tableIndex virt 21)).testBit 7 = true →
      E .mappingConflict s)
    (hlast : ∀ f e, e.testBit 7 = false →
      Triple (fun s => A 2 f s ∧ e = entries boot s.mem f (tableIndex virt 21))
        (lastTable boot create f (tableIndex virt 21) e) (A 3) E) :
    Triple (A 0 root) (pteForVirtual boot root virt create)
      (fun pte s => ∃ f, A 3 f s ∧ physPtr boot f ≠ 0 ∧
        pte = boot.physicalMemoryOffset + f + 8 * tableIndex virt 12) E := by
  rw [pteForVirtual]
  refine .guard (fun h0 s hs => hnull 0 (by omega) root s hs h0) fun hroot => ?_
  refine .bind (hnext 0 (by omega) root hroot) fun pdpt => ?_
  refine .guard (fun h0 s hs => hnull 1 (by omega) pdpt s hs h0) fun hpdpt => ?_
  refine .bind (hnext 1 (by omega) pdpt hpdpt) fun pd => ?_
  refine .guard (fun h0 s hs => hnull 2 (by omega) pd s hs h0) fun hpd => ?_
  refine .bind readEntry_triple fun e => ?_
  simp only [read_table hpd]
  refine .guard (fun hps s hs => hleaf pd s hs.1 ?_) fun hps => ?_
  · rw [← hs.2]
    simpa [land_pagePs] using hps
  refine .bind (hlast pd e ((land_pagePs e).mp (not_not.mp hps))) fun pt => ?_
  refine .guard (fun h0 s hs => hnull 3 le_rfl pt s hs h0) fun hpt => ?_
  refine .pure fun s hs => ⟨pt, hs, hpt, ?_⟩
  rw [physPtr_of_ne_zero hpt]

/-- A present page directory entry with the page-size bit is a translation. -/
lemma Maps.huge_leaf {n e : ℕ} (h : Maps c root R tabled s) (hn : n < 2 ^ 36)
    (he : pageShape.entryAt (entries c.boot s.mem) root 2 (n / 512) = some e)
    (h0 : e.testBit 0 = true) (h7 : e.testBit 7 = true) : R n ⟨e, true⟩ :=
  (h.leaf n hn _).mp ⟨h0, he, h7⟩

/-- **`pte_for_virtual`** with `create`: the page table of the address exists
afterwards, and no translation has changed. -/
lemma pteForVirtual_triple {virt : ℕ} (htab : pageNumber virt / 512 ∈ tabled) :
    Triple (fun s => Maps c root R tabled s ∧ k ≤ s.pmm.freeFrames)
      (pteForVirtual c.boot root virt true)
      (fun pte s => ∃ f, Walked c root R tabled virt k 3 f s ∧
        pte = c.boot.physicalMemoryOffset + f + 8 * tableIndex virt 12)
      (fun status s => Maps c root R tabled s ∧
        (c.strict → (status = .noMemory ∧ k < 3) ∨ ∃ e, R (pageNumber virt) ⟨e, true⟩)) := by
  have hn := pageNumber_lt virt
  refine (pteForVirtual_rule (A := Walked c root R tabled virt k) (fun l hl f s hs h0 => ?_)
    (fun l hl f _ => ?_) (fun f s hs h7 => ?_) fun f e _ => ?_).conseq
    (fun s hs => hs.1.walked virt hs.2) (fun _ s ⟨f, hf, _, hpte⟩ => ⟨f, hf, hpte⟩)
    fun _ _ hs => hs
  · exact absurd h0 (hs.physPtr_eq hl).2
  · rw [nextTable, if_pos rfl]
    refine (ensureTable_triple_upper hl).conseq (fun _ h => h) (fun _ _ h => h) ?_
    rintro _ s ⟨hm, hwhy⟩
    exact ⟨hm, fun hst => .inl ⟨(hwhy hst).1, by have := (hwhy hst).2; omega⟩⟩
  · -- a page-size bit in a clean page directory belongs to a huge leaf
    have hentry := entryAt_way (by omega) hs.table
    exact ⟨hs.toMaps, fun hst => .inr ⟨_, hs.huge_leaf hn hentry
      (hs.clean hst 2 (le_refl 2) _ (way_lt virt (by omega)) _ hentry h7).2 h7⟩⟩
  · rw [lastTable, if_pos rfl]
    refine (ensureTable_triple (l := 2) (by omega) fun _ => htab).conseq (fun _ h => h.1)
      (fun _ _ h => h) ?_
    rintro _ s ⟨hm, ⟨hstatus, hk⟩ | ⟨e, he, h0, h7⟩⟩
    · exact ⟨hm, fun _ => .inl ⟨hstatus, by omega⟩⟩
    · exact ⟨hm, fun _ => .inr ⟨e, hm.huge_leaf hn he h0 h7⟩⟩

/-- `pte_for_virtual` without `create` only reads. -/
lemma pteForVirtual_triple_lookup (virt : ℕ) :
    Triple (fun s => Maps c root R tabled s) (pteForVirtual c.boot root virt false)
      (fun pte s => ∃ f, Walked c root R tabled virt 0 3 f s ∧
        pte = c.boot.physicalMemoryOffset + f + 8 * tableIndex virt 12)
      (fun _ s => Maps c root R tabled s) := by
  refine (pteForVirtual_rule (A := Walked c root R tabled virt 0) (fun l hl f s hs _ => hs.toMaps)
    (fun l hl f hptr => ?_) (fun f s hs _ => hs.toMaps) fun f e h7 => ?_).conseq
    (fun s hs => hs.walked virt (Nat.zero_le _))
    (fun _ s ⟨f, hf, _, hpte⟩ => ⟨f, hf, hpte⟩) fun _ _ hs => hs
  · refine .bind readEntry_triple fun e => .guard (fun _ s hs => hs.1.toMaps) fun he =>
      .pure fun s hs => ?_
    rw [not_or, land_pagePresent, Bool.not_eq_false, not_not, land_pagePs] at he
    obtain ⟨hs, hread⟩ := hs
    rw [hread, read_table hptr] at he
    rw [hread, read_table hptr]
    exact ⟨hs.toMaps, hs.table.next (by omega) he.1 he.2, by omega⟩
  · refine .guard (fun _ s hs => hs.1.toMaps) fun hpr => .pure fun s hs => ?_
    rw [land_pagePresent, Bool.not_eq_false] at hpr
    obtain ⟨hs, hread⟩ := hs
    rw [hread] at hpr h7 ⊢
    exact ⟨hs.toMaps, hs.table.next (by omega) hpr h7, by omega⟩

/-! ### Writing a leaf -/

/-- The translations after the page-table entry of page `n` has become `e`. -/
def setLeaf (R : ℕ → Leaf → Prop) (n e : ℕ) : ℕ → Leaf → Prop := fun n' leaf =>
  if n' = n then leaf = ⟨e, false⟩ ∧ e.testBit 0 = true else R n' leaf

/-- The translations after the page-directory entry of the 512 pages of `m` has become
the leaf `e`. -/
def setHuge (R : ℕ → Leaf → Prop) (m e : ℕ) : ℕ → Leaf → Prop := fun n' leaf =>
  if n' / 512 = m then leaf = ⟨e, true⟩ else R n' leaf

/-- Writing an entry of a table leaves the other entries of the tree alone. -/
lemma TreeOk.agree (h : TreeOk c root s) (hl : l ≤ 3) (hp : p < 512 ^ l)
    (hf : TableAt c root l p f s) (hi : i < 512) (v : ℕ) :
    pageShape.AgreeExcept (entries c.boot s.mem)
      (entries c.boot (write64 s.mem (c.boot.physicalMemoryOffset + f + 8 * i) v)) root f i :=
  fun g hg _ hj hne =>
    entries_write_of_ne (h.tableFrame hl hp hf).aligned (h.frame g hg).aligned hi hj hne

/-- A written entry that keeps every table keeps the tree in order. -/
lemma TreeOk.write (h : TreeOk c root s) (hl : l ≤ 3) (hp : p < 512 ^ l)
    (hf : TableAt c root l p f s) (hi : i < 512) {v : ℕ}
    (htab : ∀ {l p}, l ≤ pageShape.depth → p < pageShape.fan ^ l →
      pageShape.tableAt (entries c.boot
        (write64 s.mem (c.boot.physicalMemoryOffset + f + 8 * i) v)) root l p =
      pageShape.tableAt (entries c.boot s.mem) root l p)
    (hclean : Clean (entries c.boot s.mem) root → Clean (entries c.boot
      (write64 s.mem (c.boot.physicalMemoryOffset + f + 8 * i) v)) root) :
    TreeOk c root { s with mem := write64 s.mem (c.boot.physicalMemoryOffset + f + 8 * i) v } := by
  obtain ⟨htables, hone⟩ := Shape.tables_congr htab
  refine ⟨⟨h.reached, h.inv, h.managed, h.others_held, fun x hx => ?_⟩, hone.mpr h.one,
    fun g hg => ?_, fun hs => hclean (h.clean hs)⟩
  · have hapart := (h.tableFrame hl hp hf).apart x hx
    have hsize : pageSize = 4096 := rfl
    exact (write64_apply_of_notMem (by omega)).trans (h.image x hx)
  · have := h.frame g (htables ▸ hg)
    exact ⟨this.aligned, this.managed, this.taken, this.apart⟩

/-- **A leaf written** over an entry that points nowhere: the walks that come by end
there, the others as before. -/
lemma Maps.set (h : Maps c root R tabled s) (hk : l + k = 3) (hk1 : k ≤ 1) (hp : p < 512 ^ l)
    (hi : i < 512) (hf : TableAt c root l p f s) {v : ℕ} (hv : v < 2 ^ 64)
    (hold : l < 3 → pageShape.child l (entries c.boot s.mem f i) = none)
    (hnew : l < 3 → v.testBit 0 = true ∧ v.testBit 7 = true)
    (hR : ∀ n leaf, R' n leaf ↔
      if n / 512 ^ k = 512 * p + i then leaf.Ends (l, v) else R n leaf) :
    Maps c root R' tabled
      { s with mem := write64 s.mem (c.boot.physicalMemoryOffset + f + 8 * i) v } := by
  have hag := h.agree (by omega) hp hf hi v
  have hself : entries c.boot (write64 s.mem (c.boot.physicalMemoryOffset + f + 8 * i) v) f i = v :=
    entries_write_self hv
  have hchild : l < 3 → pageShape.child l v = none := fun hl =>
    child_eq_none (.inr ⟨by omega, (hnew hl).2⟩)
  have htab := fun {l' p'} => Shape.tableAt_set (l := l') (p := p') h.one hag
    (by show l ≤ 3; omega) hp hf fun hl => by rw [hself, hchild hl, hold hl]
  refine ⟨h.write (by omega) hp hf hi htab fun hc => hc.set h.one hag htab (by omega) hp hf hi
    (by omega) (fun h2 => by rw [hself]; exact (hnew (by omega)).1), fun n hn leaf => ?_,
    fun m hm g hg => h.split m hm g ((htab (le_refl 3) hm).symm.trans hg)⟩
  have hstop : k = 0 ∨ pageShape.child l v = none :=
    (Nat.eq_zero_or_pos k).imp_right fun hpos => hchild (by omega)
  rw [isLeaf_iff_ends, Shape.walk_set h.one hag htab hk hp hf hi (by rwa [hself]) hn, hself, hR,
    ← h.leaf n hn leaf, isLeaf_iff_ends, pageShape_fan]
  split_ifs
  · rfl
  · rfl

/-- A page-table entry written. -/
lemma Walked.set4k {virt v : ℕ} (h : Walked c root R tabled virt k 3 f s) (hv : v < 2 ^ 64) :
    Maps c root (setLeaf R (pageNumber virt) v) tabled { s with
      mem := write64 s.mem (c.boot.physicalMemoryOffset + f + 8 * tableIndex virt 12) v } := by
  refine h.toMaps.set (k := 0) rfl (by omega) (way_lt virt (by omega)) (tableIndex_lt virt 12)
    h.table hv (by omega) (by omega) fun n leaf => ?_
  rw [setLeaf, pow_zero, Nat.div_one, Leaf.ends_small, way_succ virt le_rfl, way_four]

/-- A page-directory leaf written over an entry that points nowhere. -/
lemma Walked.set2m {virt v : ℕ} (h : Walked c root R tabled virt k 2 f s)
    (hold : pageShape.child 2 (entries c.boot s.mem f (tableIndex virt 21)) = none)
    (hv : v < 2 ^ 64) (hbits : v.testBit 0 = true ∧ v.testBit 7 = true) :
    Maps c root (setHuge R (pageNumber virt / 512) v) tabled { s with
      mem := write64 s.mem (c.boot.physicalMemoryOffset + f + 8 * tableIndex virt 21) v } := by
  refine h.toMaps.set (k := 1) rfl le_rfl (way_lt virt (by omega)) (tableIndex_lt virt 21) h.table
    hv (fun _ => hold) (fun _ => hbits) fun n leaf => ?_
  rw [setHuge, pow_one, Leaf.ends_huge, and_iff_left hbits, way_succ virt (by omega), way_three]

end Paging

end JoshOS
