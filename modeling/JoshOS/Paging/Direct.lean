import JoshOS.Paging.Space

/-!
The direct map is exact and covers everything the allocator can hand out.

* `directLeaf_mapping`: what it reports for an address of the direct map.
* `direct_map_exact`: the result for `paging_init` after `pmm_init`.
-/

namespace JoshOS

open Words Memory Radix Spans Hoare

namespace Paging

variable {c : Surroundings} {boot : BootContext} {sym : KernelSymbols} {limit : ℕ}
  {R : ℕ → Leaf → Prop} {s : Paging}

/-! ### Reading an entry back -/

/-- The frame that a small leaf points to. -/
lemma smallEntry_frame {a flags : ℕ} (ha : pageSize ∣ a) (hflags : flags &&& pageMask = 0) :
    smallEntry a flags &&& pageMask = a % 2 ^ 52 := by
  rw [smallEntry, Nat.or_assoc, land_pageMask_of_dvd ha]
  rw [Nat.and_or_distrib_right, hflags, Nat.or_zero]
  decide

/-- The flags of a small leaf. -/
lemma smallEntry_testBit {a flags j : ℕ} (ha : pageSize ∣ a) (hj : 0 < j) (hj' : j < 12) :
    (smallEntry a flags).testBit j = flags.testBit j := by
  have h1 : pagePresent.testBit j = false := by
    rw [show pagePresent = 2 ^ 0 from rfl, Nat.testBit_two_pow]
    simpa using hj.ne
  rw [smallEntry, Nat.testBit_or, Nat.testBit_or, testBit_of_dvd ha hj', h1]
  simp

/-- The no-execute bit of a small leaf. -/
lemma smallEntry_nx {a flags : ℕ} (h : flags.testBit 63 = true) :
    (smallEntry a flags).testBit 63 = true := by
  rw [smallEntry, Nat.testBit_or, h, Bool.or_true]

lemma writable_eq (e virt size : ℕ) (huge : Bool) :
    (leafMapping e virt size huge).writable = e.testBit 1 := by
  rw [Bool.eq_iff_iff]
  simp [leafMapping, land_pageRw]

lemma executable_eq (e virt size : ℕ) (huge : Bool) :
    (leafMapping e virt size huge).executable = !e.testBit 63 := by
  rw [Bool.eq_iff_iff]
  simp [leafMapping, land_pageNx]

lemma cacheDisabled_eq (e virt size : ℕ) (huge : Bool) :
    (leafMapping e virt size huge).cacheDisabled = e.testBit 4 := by
  rw [Bool.eq_iff_iff]
  simp [leafMapping, land_pagePcd]

/-! ### Queries -/

/-- `paging_query` reports a translation, or that there is none. -/
lemma Ready.pagingQuery (h : Ready c limit R s) (virt : ℕ) :
    (∃ leaf, R (pageNumber virt) leaf ∧
      pagingQuery s virt = some (leafMapping leaf.entry virt leaf.size leaf.huge)) ∨
    ((∀ leaf, ¬ R (pageNumber virt) leaf) ∧ Paging.pagingQuery s virt = some {}) := by
  have hn := pageNumber_lt virt
  have hq : Paging.pagingQuery s virt = queryRoot c.boot s.rootPhys s.machine.mem virt := by
    rw [Paging.pagingQuery, h.active]
  rw [hq]
  rcases queryRoot_spec h.maps.toTreeOk virt with ⟨leaf, hleaf, heq⟩ | ⟨hnone, heq⟩
  · exact .inl ⟨leaf, (h.maps.leaf _ hn leaf).mp hleaf, heq⟩
  · exact .inr ⟨fun leaf hR => hnone leaf ((h.maps.leaf _ hn leaf).mpr hR), heq⟩

lemma Ready.unique (h : Ready c limit R s) {n : ℕ} (hn : n < 2 ^ 36) {leaf leaf' : Leaf}
    (hR : R n leaf) (hR' : R n leaf') : leaf = leaf' :=
  ((h.maps.leaf n hn leaf).mpr hR).unique ((h.maps.leaf n hn leaf').mpr hR')

/-- **`paging_query` reports the leaf of a page.** -/
lemma pagingQuery_of_leaf (h : Ready c limit R s) {virt : ℕ} {leaf : Leaf}
    (hR : R (pageNumber virt) leaf) :
    pagingQuery s virt = some (leafMapping leaf.entry virt leaf.size leaf.huge) := by
  rcases h.pagingQuery virt with ⟨leaf', hR', heq⟩ | ⟨hnone, -⟩
  · rw [heq, h.unique (pageNumber_lt virt) hR hR']
  · exact absurd hR (hnone leaf)

/-! ### The image in memory -/

/-- The page of physical address `p` lies in the page-rounded physical range of the
section `[start, stop)`. -/
def InSection (boot : BootContext) (start stop p : ℕ) : Prop :=
  start < stop ∧ Pmm.pageMeets p (boot.kernelPhysStart + (start - boot.kernelVirtStart))
    (boot.kernelPhysStart + (stop - boot.kernelVirtStart))

/-- The physical range of a section inside the image. -/
lemma kernelSectionPhysRange_eq (hc : Checked boot limit) (hi : ImagePlaced boot sym)
    {start stop : ℕ} (hs : boot.kernelVirtStart ≤ start) (he : stop ≤ boot.kernelVirtEnd)
    (hlt : start < stop) :
    kernelSectionPhysRange boot start stop =
      some (boot.kernelPhysStart + (start - boot.kernelVirtStart),
        boot.kernelPhysStart + (stop - boot.kernelVirtStart)) := by
  have hmax : uint64Max = 2 ^ 64 - 1 := rfl
  have hmap : directMapMax = 2 ^ 40 := rfl
  have h1 := hc.kernelPhys
  have h2 := hc.kernelVirt
  have h3 := hi.extent
  have h4 := hc.kernel
  have h5 := hc.small
  rw [kernelSectionPhysRange, if_neg (by omega), hi.kernelPhysForVirtual hc hs (by omega),
    hi.kernelPhysForVirtual hc (by omega : _ ≤ stop - 1) (by omega)]
  simp only
  rw [if_neg (by omega)]
  congr 2
  omega

/-- The test of `direct_flags_for_page` on a section. -/
lemma sectionHasPage_iff (hc : Checked boot limit) (hi : ImagePlaced boot sym) {start stop a : ℕ}
    (hs : boot.kernelVirtStart ≤ start) (he : stop ≤ boot.kernelVirtEnd) (ha : pageSize ∣ a) :
    sectionHasPage boot start stop a = true ↔ InSection boot start stop a := by
  have hpm : pmmPageSize = pageSize := rfl
  have hpos : 0 < pageSize := by decide
  have hps : pageSize = 4096 := rfl
  by_cases hlt : start < stop
  · have hmap : directMapMax = 2 ^ 40 := rfl
    have h1 := hc.kernelPhys
    have h2 := hc.kernelVirt
    have h3 := hi.extent
    have h4 := hc.kernel
    have h5 := hc.small
    rw [sectionHasPage, kernelSectionPhysRange_eq hc hi hs he hlt]
    simp only [decide_eq_true_eq]
    rw [wrap64_of_lt (by omega), alignDown_le_iff hpos, lt_alignDown_iff hpos, InSection,
      Pmm.pageMeets, hpm, alignDown_of_dvd ha]
    omega
  · rw [sectionHasPage, kernelSectionPhysRange, if_pos (not_lt.mp hlt)]
    simp [InSection, hlt]

/-- A page of a section meets the image. -/
lemma InSection.meets (hc : Checked boot limit) {start stop p : ℕ}
    (he : stop ≤ boot.kernelVirtEnd) (hi : ImagePlaced boot sym)
    (h : InSection boot start stop p) :
    Pmm.pageMeets p boot.kernelPhysStart boot.kernelPhysEnd := by
  obtain ⟨hlt, h1, h2⟩ := h
  have := hc.kernelPhys
  have := hi.extent
  exact ⟨by omega, by omega⟩

/-! ### The leaves of the direct map -/

/-- The flags of a page of the direct map, bit by bit. -/
lemma directFlags_bits (boot : BootContext) (sym : KernelSymbols) (a : ℕ) :
    directFlagsForPage boot sym a &&& pageMask = 0 ∧
    (directFlagsForPage boot sym a).testBit 63 = true ∧
    ((directFlagsForPage boot sym a).testBit 1 = false ↔
      rangesOverlap a (wrap64 (a + pageSize)) boot.framebufferPhysStart
        boot.framebufferPhysEnd = false ∧
      (sectionHasPage boot sym.textStart sym.textEnd a = true ∨
        sectionHasPage boot sym.rodataStart sym.rodataEnd a = true)) ∧
    ((directFlagsForPage boot sym a).testBit 4 = true ↔
      rangesOverlap a (wrap64 (a + pageSize)) boot.framebufferPhysStart
        boot.framebufferPhysEnd = true) := by
  rw [directFlagsForPage]
  cases rangesOverlap a (wrap64 (a + pageSize)) boot.framebufferPhysStart
    boot.framebufferPhysEnd with
  | true =>
    simp only [if_true, Bool.true_eq_false, false_and]
    decide
  | false =>
    cases sectionHasPage boot sym.rodataStart sym.rodataEnd a with
    | true =>
      simp only [if_true, Bool.false_eq_true, if_false, or_true]
      decide
    | false =>
      cases sectionHasPage boot sym.textStart sym.textEnd a with
      | true =>
        simp only [if_true, Bool.false_eq_true, if_false]
        decide
      | false =>
        simp only [Bool.false_eq_true, if_false]
        decide

/-- The framebuffer test of `direct_flags_for_page` is about the page. -/
lemma overlap_iff_pageMeets {a : ℕ} (start stop : ℕ) (ha : pageSize ∣ a) (hlt : a < 2 ^ 40) :
    rangesOverlap a (wrap64 (a + pageSize)) start stop = true ↔ Pmm.pageMeets a start stop := by
  have hps : pageSize = 4096 := rfl
  have hpm : pmmPageSize = pageSize := rfl
  rw [wrap64_of_lt (by omega), rangesOverlap, Pmm.pageMeets, hpm, alignDown_of_dvd ha,
    decide_eq_true_eq]

/-- The page of an address and the page itself meet the same intervals. -/
lemma pageMeets_alignDown {p start stop : ℕ} :
    Pmm.pageMeets (alignDown p pageSize) start stop ↔ Pmm.pageMeets p start stop := by
  have hpm : pmmPageSize = pageSize := rfl
  rw [Pmm.pageMeets, Pmm.pageMeets, hpm, alignDown_of_dvd (dvd_alignDown p pageSize)]

/-- A page meets a nonempty interval in one of its addresses. -/
lemma pageMeets_iff_exists {p start stop : ℕ} (h : start < stop) :
    Pmm.pageMeets p start stop ↔
      ∃ x, start ≤ x ∧ x < stop ∧ alignDown x pageSize = alignDown p pageSize := by
  have hpm : pmmPageSize = pageSize := rfl
  have hpos : 0 < pageSize := by decide
  rw [Pmm.pageMeets, hpm]
  constructor
  · rintro ⟨hstop, hstart⟩
    refine ⟨max start (alignDown p pageSize), le_max_left _ _, by omega, ?_⟩
    exact alignDown_eq hpos (dvd_alignDown p pageSize) (le_max_right _ _) (by omega)
  · rintro ⟨x, hle, hlt, heq⟩
    have h1 := alignDown_le x pageSize
    have h2 := lt_alignDown_add hpos x
    omega

lemma inSection_alignDown {start stop p : ℕ} :
    InSection boot start stop (alignDown p pageSize) ↔ InSection boot start stop p :=
  and_congr_right fun _ => pageMeets_alignDown

/-- A page that meets an extent stands in a chunk that meets it. -/
lemma chunkNeeds4k_of_meets {p : ℕ} (hp : p < 2 ^ 40)
    (h : Pmm.pageMeets p boot.kernelPhysStart boot.kernelPhysEnd ∨
      Pmm.pageMeets p boot.framebufferPhysStart boot.framebufferPhysEnd) :
    chunkNeeds4kMapping boot (alignDown (alignDown p pageSize) hugePageSize) = true := by
  have hhs : hugePageSize = 2097152 := rfl
  have hps : pageSize = 4096 := rfl
  have hpm : pmmPageSize = pageSize := rfl
  have h1 := alignDown_le (alignDown p pageSize) hugePageSize
  have h2 := add_le_of_dvd (dvd_alignDown p pageSize) (dvd_trans pageSize_dvd_hugePageSize
    ((Nat.dvd_add_self_right).mpr (dvd_alignDown (alignDown p pageSize) hugePageSize)))
    (lt_alignDown_add (by decide : 0 < hugePageSize) (alignDown p pageSize))
  have h3 := alignDown_le p pageSize
  rw [chunkNeeds4kMapping]
  simp only [Pmm.pageMeets, hpm] at h
  simp only [rangesOverlap, Bool.or_eq_true, decide_eq_true_eq]
  rw [wrap64_of_lt (by omega)]
  omega

/-- The frame and the flags of a huge leaf. -/
lemma hugeEntry_direct {a : ℕ} (ha : pageSize ∣ a) (hlt : a < 2 ^ 52) :
    hugeEntry a (pageRw ||| pageNx) &&& pageMask = a ∧
      (hugeEntry a (pageRw ||| pageNx)).testBit 1 = true ∧
      (hugeEntry a (pageRw ||| pageNx)).testBit 4 = false ∧
      (hugeEntry a (pageRw ||| pageNx)).testBit 63 = true := by
  rw [hugeEntry, Nat.or_assoc, Nat.or_assoc]
  refine ⟨?_, ?_, ?_, ?_⟩
  · rw [land_pageMask_of_dvd ha (by decide), Nat.mod_eq_of_lt hlt]
  · rw [Nat.testBit_or, show (pagePresent ||| (pagePs ||| (pageRw ||| pageNx))).testBit 1 = true by
      decide, Bool.or_true]
  · rw [Nat.testBit_or, testBit_of_dvd ha (by decide)]
    decide
  · rw [Nat.testBit_or, show (pagePresent ||| (pagePs ||| (pageRw ||| pageNx))).testBit 63 = true by
      decide, Bool.or_true]

/-- The mapping that the direct map gives to physical address `p`. -/
def directMapping (boot : BootContext) (sym : KernelSymbols) (p : ℕ) : PagingMapping :=
  let leaf := directLeaf boot sym (alignDown p pageSize)
  leafMapping leaf.entry (boot.physicalMemoryOffset + p) leaf.size leaf.huge

/-- **The direct map leads to the physical address and never to executable
memory.** -/
lemma directMapping_address (sym : KernelSymbols) (hc : Checked boot limit) {p : ℕ}
    (hp : p < limit) :
    (directMapping boot sym p).present = true ∧ (directMapping boot sym p).physicalAddress = p ∧
      (directMapping boot sym p).executable = false := by
  have hmap : directMapMax = 2 ^ 40 := rfl
  have hps : pageSize = 4096 := rfl
  have hhs : hugePageSize = 2097152 := rfl
  have hsmall := hc.small
  have hle := alignDown_le p pageSize
  obtain ⟨o, ho⟩ := hc.offset_dvd
  refine ⟨rfl, ?_, ?_⟩
  · simp only [directMapping, leafMapping, directLeaf]
    split
    · have hle' := alignDown_le (alignDown p pageSize) hugePageSize
      obtain ⟨hframe, -⟩ := hugeEntry_direct (a := alignDown (alignDown p pageSize) hugePageSize)
        (dvd_trans pageSize_dvd_hugePageSize (dvd_alignDown _ _)) (by omega)
      simp only [hframe, Leaf.size, if_true]
      rw [ho, alignDown_eq_mul, alignDown_eq_mul, hps, hhs]
      omega
    · obtain ⟨hflags, -⟩ := directFlags_bits boot sym (alignDown p pageSize)
      simp only [smallEntry_frame (dvd_alignDown p pageSize) hflags, Leaf.size,
        Bool.false_eq_true, if_false]
      rw [ho, alignDown_eq_mul, hps, hhs]
      omega
  · simp only [directMapping, executable_eq, directLeaf]
    split
    · have hle' := alignDown_le (alignDown p pageSize) hugePageSize
      obtain ⟨-, -, -, hnx⟩ := hugeEntry_direct
        (a := alignDown (alignDown p pageSize) hugePageSize)
        (dvd_trans pageSize_dvd_hugePageSize (dvd_alignDown _ _)) (by omega)
      rw [hnx]
      rfl
    · rw [smallEntry_nx (directFlags_bits boot sym (alignDown p pageSize)).2.1]
      rfl

/-- **The direct map is read-only on `.text` and `.rodata` and uncached on the
framebuffer.** -/
lemma directMapping_flags (hc : Checked boot limit) (hi : ImagePlaced boot sym) {p : ℕ}
    (hp : p < limit) :
    ((directMapping boot sym p).writable = false ↔
      InSection boot sym.textStart sym.textEnd p ∨ InSection boot sym.rodataStart sym.rodataEnd p) ∧
    ((directMapping boot sym p).cacheDisabled = true ↔
      Pmm.pageMeets p boot.framebufferPhysStart boot.framebufferPhysEnd) := by
  have hmap : directMapMax = 2 ^ 40 := rfl
  have hsmall := hc.small
  have hle := alignDown_le p pageSize
  have hd := dvd_alignDown p pageSize
  have hmeets : InSection boot sym.textStart sym.textEnd p ∨
      InSection boot sym.rodataStart sym.rodataEnd p →
      Pmm.pageMeets p boot.kernelPhysStart boot.kernelPhysEnd := by
    rintro (h | h)
    · exact h.meets hc (hi.inside _ (by simp)).2 hi
    · exact h.meets hc (hi.inside _ (by simp)).2 hi
  simp only [directMapping, writable_eq, cacheDisabled_eq, directLeaf]
  split
  case isTrue h2m =>
    have hle' := alignDown_le (alignDown p pageSize) hugePageSize
    obtain ⟨-, hrw, hpcd, -⟩ := hugeEntry_direct
      (a := alignDown (alignDown p pageSize) hugePageSize)
      (dvd_trans pageSize_dvd_hugePageSize (dvd_alignDown _ _)) (by omega)
    have hnone : ¬ (Pmm.pageMeets p boot.kernelPhysStart boot.kernelPhysEnd ∨
        Pmm.pageMeets p boot.framebufferPhysStart boot.framebufferPhysEnd) := by
      intro h
      rw [chunkNeeds4k_of_meets (by omega) h] at h2m
      exact absurd h2m (by simp)
    rw [not_or] at hnone
    simp only [hrw, hpcd, Bool.true_eq_false, Bool.false_eq_true, false_iff]
    exact ⟨fun h => hnone.1 (hmeets h), hnone.2⟩
  case isFalse =>
    obtain ⟨-, -, hrw, hpcd⟩ := directFlags_bits boot sym (alignDown p pageSize)
    have hfb := overlap_iff_pageMeets boot.framebufferPhysStart boot.framebufferPhysEnd hd
      (by omega)
    rw [pageMeets_alignDown] at hfb
    simp only [smallEntry_testBit hd (by decide : 0 < 1) (by decide),
      smallEntry_testBit hd (by decide : 0 < 4) (by decide)]
    rw [hrw, hpcd, hfb, sectionHasPage_iff hc hi (hi.inside _ (by simp)).1
      (hi.inside _ (by simp)).2 hd, sectionHasPage_iff hc hi (hi.inside _ (by simp)).1
      (hi.inside _ (by simp)).2 hd, inSection_alignDown, inSection_alignDown]
    refine ⟨and_iff_right_of_imp fun h => ?_, Iff.rfl⟩
    rw [← Bool.not_eq_true, hfb]
    exact fun hmeet => hi.apart p ⟨hmeet, hmeets h⟩

/-! ### Everything the allocator hands out -/

/-- The direct map at physical address `p`. -/
lemma Ready.query_direct (h : Ready c limit (KernelMap c.boot sym limit) s) {p : ℕ}
    (hp : p < limit) :
    Paging.pagingQuery s (c.boot.physicalMemoryOffset + p) = some (directMapping c.boot sym p) := by
  refine pagingQuery_of_leaf h
    (.inl ⟨alignDown p pageSize, ?_, dvd_alignDown p pageSize, ?_, rfl⟩)
  · exact lt_of_le_of_lt (alignDown_le p pageSize) hp
  · obtain ⟨o, ho⟩ := h.checked.offset_dvd
    have hps : pageSize = 4096 := rfl
    have hhs : hugePageSize = 2097152 := rfl
    rw [pageNumber, pageNumber, ho, alignDown_eq_mul, hps, hhs]
    omega

/-- A frame that may be handed out does not meet the image. -/
lemma not_inSection_of_initiallyFree (hc : Checked boot limit) (hi : ImagePlaced boot sym)
    {start stop f : ℕ} (he : stop ≤ boot.kernelVirtEnd) (hf : f ∈ Pmm.InitiallyFree boot) :
    ¬ InSection boot start stop f :=
  fun h => hf.2.2.1 ⟨hc.kernelPhys, h.meets hc he hi⟩

/-- **The direct map is exact and covers everything the allocator can hand out.**
After `pmm_init` and `paging_init` on one boot context, every physical address below
the direct limit is mapped at its offset to itself, never executable, read-only
exactly on the pages of `.text` and `.rodata` and uncached exactly on the pages of the
framebuffer; and every frame that the allocator returns, at any time, lies below the
limit and is writable through its direct pointer. -/
theorem direct_map_exact {pmm₀ : Pmm} {s s' : Paging} {root : ℕ}
    (hp : Pmm.pmmInit (some boot) = (.ok, pmm₀)) (hs : PmmReached pmm₀ s.machine.pmm)
    (h : pagingInit sym (some boot) s = (.ok root, s')) (hi : ImagePlaced boot sym)
    (hfb : boot.framebufferPhysStart < boot.framebufferPhysEnd) :
    (∀ p < s'.directLimit, ∃ m, pagingQuery s' (boot.physicalMemoryOffset + p) = some m ∧
      m.present = true ∧ m.physicalAddress = p ∧ m.executable = false ∧
      (m.writable = false ↔ InSection boot sym.textStart sym.textEnd p ∨
        InSection boot sym.rodataStart sym.rodataEnd p) ∧
      (m.cacheDisabled = true ↔ ∃ x, boot.framebufferPhysStart ≤ x ∧
        x < boot.framebufferPhysEnd ∧ alignDown x pageSize = alignDown p pageSize)) ∧
    PmmReached pmm₀ s'.machine.pmm ∧
    ∀ pmm, PmmReached pmm₀ pmm → ∀ count f, (pmm.pmmAllocFrames count).1 = some f →
      ∀ g ∈ Pmm.framesFrom f count, g < s'.directLimit ∧ pagingDirectPointer s' g ≠ 0 ∧
        ∃ m, pagingQuery s' (pagingDirectPointer s' g) = some m ∧ m.present = true ∧
          m.physicalAddress = g ∧ m.writable = true := by
  obtain ⟨limit, hc, hr⟩ := pagingInit_ready hp hs (Set.empty_disjoint _) h
  have hlimit : s'.directLimit = limit := hr.limit_eq
  have hquery : ∀ p < limit, pagingQuery s' (boot.physicalMemoryOffset + p) =
      some (directMapping boot sym p) := fun p hlt => hr.query_direct hlt
  rw [hlimit]
  refine ⟨fun p hlt => ?_, hr.maps.reached, fun pmm hpmm count f hf g hg => ?_⟩
  · obtain ⟨hpres, haddr, hexec⟩ := directMapping_address sym hc hlt
    obtain ⟨hwrite, hcache⟩ := directMapping_flags hc hi hlt
    exact ⟨_, hquery p hlt, hpres, haddr, hexec, hwrite, hcache.trans (pageMeets_iff_exists hfb)⟩
  · obtain ⟨calls, rfl⟩ := hpmm
    obtain ⟨hinit, -, -, hcov, hw⟩ := Pmm.pmmInit_spec hp
    obtain ⟨hinv, hman⟩ := Pmm.final_inv hinit calls
    have hfree : g ∈ Pmm.InitiallyFree boot := by
      rcases Pmm.pmmAllocFrames_spec hinv count with
        ⟨f', q, hrun, -, -, -, hdvd, -, hsub, -⟩ | hnone
      · rw [hrun] at hf
        obtain rfl := Option.some.inj hf
        rw [← hcov, ← hman]
        exact hinv.free_sub (hsub ((Pmm.mem_framesFrom_iff hdvd).mp hg).2)
      · rw [hnone] at hf
        simp at hf
    obtain ⟨hmin, hlt⟩ := InitiallyFree.below_limit hc hw hfree
    have hpos : pmmMinPhysical = 2 ^ 20 := rfl
    have hfits := hc.fits
    have hmax : uint64Max = 2 ^ 64 - 1 := rfl
    have hptr : pagingDirectPointer s' g = boot.physicalMemoryOffset + g := by
      rw [pagingDirectPointer, hr.active, hlimit]
      exact if_neg (by
        rw [not_or]
        exact ⟨not_le.mpr hlt, by show ¬ uint64Max - boot.physicalMemoryOffset < g; omega⟩)
    obtain ⟨hpres, haddr, -⟩ := directMapping_address sym hc hlt
    refine ⟨hlt, by omega, _, by rw [hptr]; exact hquery g hlt, hpres, haddr, ?_⟩
    by_contra hro
    rcases (directMapping_flags hc hi hlt).1.mp (by simpa using hro) with hin | hin
    · exact not_inSection_of_initiallyFree hc hi (hi.inside _ (by simp)).2 hfree hin
    · exact not_inSection_of_initiallyFree hc hi (hi.inside _ (by simp)).2 hfree hin

/-- The direct map of the concrete boot: its first page, and the first frame that the
allocator hands out. -/
theorem direct_map_exact_eightMiB :
    ∃ root s, pagingInit eightMiBSymbols (some eightMiBBoot) eightMiBStart = (.ok root, s) ∧
      (0 < s.directLimit → ∃ m, pagingQuery s (eightMiBBoot.physicalMemoryOffset + 0) = some m ∧
        m.physicalAddress = 0 ∧ m.executable = false) ∧
      ∃ f, eightMiBStart.machine.pmm.pmmAllocFrame.1 = some f ∧ f < s.directLimit ∧
        pagingDirectPointer s f ≠ 0 := by
  obtain ⟨root, s, hrun⟩ := eightMiB_pagingInit
  obtain ⟨hmap, -, hframes⟩ := direct_map_exact eightMiB_pmmInit ⟨[], rfl⟩ hrun eightMiB_placed
    (by decide)
  refine ⟨root, s, hrun, fun hpos => ?_, 0x100000, by decide, ?_⟩
  · obtain ⟨m, hq, -, haddr, hexec, -⟩ := hmap 0 hpos
    exact ⟨m, hq, haddr, hexec⟩
  · obtain ⟨hlt, hptr, -⟩ := hframes eightMiBStart.machine.pmm ⟨[], rfl⟩ 1 0x100000 (by decide)
      0x100000 ⟨0, Nat.one_pos, by decide⟩
    exact ⟨hlt, hptr⟩

end Paging

end JoshOS
