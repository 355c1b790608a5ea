import JoshOS.Paging.Map

/-!
The address space that `paging_init` builds.

* `DirectMap`, `SectionMap`, `KernelMap`: the translations it is meant to have.
* `mapKernelSpace_triple`: after a success the translations are exactly `KernelMap`;
  with a sound layout and enough frames there is no failure.
-/

namespace JoshOS

open Words Memory Radix Spans Hoare

namespace Paging

/-! ### The intended translations -/

/-- The leaf of the direct map for the page at physical address `a`. -/
def directLeaf (boot : BootContext) (sym : KernelSymbols) (a : ℕ) : Leaf :=
  if chunkNeeds4kMapping boot (alignDown a hugePageSize) = false then
    ⟨hugeEntry (alignDown a hugePageSize) (pageRw ||| pageNx), true⟩
  else ⟨smallEntry a (directFlagsForPage boot sym a), false⟩

/-- The direct map of the physical pages below `limit`. -/
def DirectMap (boot : BootContext) (sym : KernelSymbols) (limit n : ℕ) (leaf : Leaf) : Prop :=
  ∃ a < limit, pageSize ∣ a ∧ n = pageNumber (boot.physicalMemoryOffset + a) ∧
    leaf = directLeaf boot sym a

/-- A range of kernel addresses with the flags of its pages. -/
structure Section where
  start : ℕ
  stop : ℕ
  flags : ℕ

/-- The pages of a range of kernel addresses. -/
def Section.pages (r : Section) : Set ℕ :=
  {v | r.start < r.stop ∧ pageSize ∣ v ∧ alignDown r.start pageSize ≤ v ∧ v < r.stop}

/-- The mapping of a range of kernel addresses to the kernel image. -/
def SectionMap (boot : BootContext) (r : Section) (n : ℕ) (leaf : Leaf) : Prop :=
  ∃ v ∈ r.pages, n = pageNumber v ∧ ∃ phys, kernelPhysForVirtual boot v = some phys ∧
    leaf = ⟨smallEntry (alignDown phys pageSize) r.flags, false⟩

/-- The ranges of kernel addresses that `paging_init` maps, in its order. -/
def sections (boot : BootContext) (sym : KernelSymbols) : List Section :=
  [⟨boot.kernelVirtStart, sym.textStart, pageNx⟩,
    ⟨sym.textStart, sym.textEnd, 0⟩,
    ⟨sym.rodataStart, sym.rodataEnd, pageNx⟩,
    ⟨sym.dataStart, sym.dataEnd, pageRw ||| pageNx⟩,
    ⟨sym.stackStart, sym.stackEnd, pageRw ||| pageNx⟩]

/-- The translations of the kernel address space. -/
def KernelMap (boot : BootContext) (sym : KernelSymbols) (limit n : ℕ) (leaf : Leaf) : Prop :=
  DirectMap boot sym limit n leaf ∨ ∃ r ∈ sections boot sym, SectionMap boot r n leaf

/-! ### Adding leaves -/

variable {c : Surroundings} {sym : KernelSymbols} {root limit k : ℕ} {s s' : Machine}
  {R R' : ℕ → Leaf → Prop} {tabled tabled' : Set ℕ}

lemma Maps.congr (h : Maps c root R tabled s) (hR : ∀ n < 2 ^ 36, ∀ leaf, R n leaf ↔ R' n leaf) :
    Maps c root R' tabled s :=
  ⟨h.toTreeOk, fun n hn leaf => (h.leaf n hn leaf).trans (hR n hn leaf), h.split⟩

/-- Writing a leaf where there was none, or the same, adds a translation. -/
lemma setLeaf_iff {n n₀ e : ℕ} {leaf : Leaf} (h0 : e.testBit 0 = true)
    (hold : ∀ leaf, R n₀ leaf → leaf = ⟨e, false⟩) :
    setLeaf R n₀ e n leaf ↔ R n leaf ∨ n = n₀ ∧ leaf = ⟨e, false⟩ := by
  rw [setLeaf]
  split
  case isTrue heq =>
    subst heq
    constructor
    · rintro ⟨rfl, -⟩
      exact .inr ⟨rfl, rfl⟩
    · rintro (h | ⟨-, rfl⟩)
      · exact ⟨hold leaf h, h0⟩
      · exact ⟨rfl, h0⟩
  case isFalse hne =>
    constructor
    · exact .inl
    · rintro (h | ⟨heq, -⟩)
      · exact h
      · exact absurd heq hne

lemma setHuge_iff {n m e : ℕ} {leaf : Leaf}
    (hold : n / 512 = m → ∀ leaf, R n leaf → leaf = ⟨e, true⟩) :
    setHuge R m e n leaf ↔ R n leaf ∨ n / 512 = m ∧ leaf = ⟨e, true⟩ := by
  rw [setHuge]
  split
  case isTrue heq =>
    constructor
    · rintro rfl
      exact .inr ⟨heq, rfl⟩
    · rintro (h | ⟨-, rfl⟩)
      · exact hold heq leaf h
      · rfl
  case isFalse hne =>
    constructor
    · exact .inl
    · rintro (h | ⟨heq, -⟩)
      · exact h
      · exact absurd heq hne

/-! ### The direct map -/

/-- The direct map fits below the top of the address space, in units of huge
pages. -/
structure DirectOk (boot : BootContext) (limit : ℕ) : Prop where
  offset_dvd : hugePageSize ∣ boot.physicalMemoryOffset
  limit_dvd : hugePageSize ∣ limit
  fits : boot.physicalMemoryOffset + limit ≤ 2 ^ 64
  small : limit ≤ directMapMax

lemma pageSize_dvd_hugePageSize : pageSize ∣ hugePageSize := ⟨512, rfl⟩

/-- The directory entries of the chunks below `i`. -/
def tabledBelow (boot : BootContext) (i : ℕ) : Set ℕ :=
  {m | ∃ j < i, hugePageSize ∣ j ∧ m = pageNumber (boot.physicalMemoryOffset + j) / 512}

/-- The frames that mapping a chunk takes at most: three tables for each of 512 small
pages, two for a huge page. -/
def chunkCost (boot : BootContext) (phys : ℕ) : ℕ :=
  if chunkNeeds4kMapping boot phys = false then 2 else 1536

/-- The frames that mapping the first `q` chunks takes at most. -/
def directCost (boot : BootContext) (q : ℕ) : ℕ :=
  ∑ j ∈ Finset.range q, chunkCost boot (j * hugePageSize)

section DirectArithmetic

variable {boot : BootContext} (h : DirectOk boot limit)
include h

/-- Two pages of the direct map have different page numbers. -/
lemma DirectOk.pageNumber_inj {a b : ℕ} (ha : a < limit) (hb : b < limit) (hda : pageSize ∣ a)
    (hdb : pageSize ∣ b)
    (heq : pageNumber (boot.physicalMemoryOffset + a) =
      pageNumber (boot.physicalMemoryOffset + b)) : a = b := by
  obtain ⟨o, ho⟩ := h.offset_dvd
  obtain ⟨x, rfl⟩ := hda
  obtain ⟨y, rfl⟩ := hdb
  have hsmall := h.small
  have h1 : pageSize = 4096 := rfl
  have h2 : hugePageSize = 2097152 := rfl
  have h3 : directMapMax = 1099511627776 := rfl
  rw [pageNumber, pageNumber, ho, h1, h2] at heq
  rw [h1] at ha hb ⊢
  omega

/-- The pages of a chunk are those of its directory entry. -/
lemma DirectOk.chunk_iff {i n : ℕ} (hi : i < limit) (hd : hugePageSize ∣ i) (hn : n < 2 ^ 36) :
    n / 512 = pageNumber (boot.physicalMemoryOffset + i) / 512 ↔
      ∃ a, i ≤ a ∧ a < i + hugePageSize ∧ pageSize ∣ a ∧
        n = pageNumber (boot.physicalMemoryOffset + a) := by
  obtain ⟨o, ho⟩ := h.offset_dvd
  obtain ⟨x, rfl⟩ := hd
  have h1 : pageSize = 4096 := rfl
  have h2 : hugePageSize = 2097152 := rfl
  simp only [pageNumber, ho, h1, h2]
  constructor
  · intro heq
    refine ⟨2097152 * x + 4096 * (n % 512), by omega, by omega, by omega, by omega⟩
  · rintro ⟨a, hle, hlt, ⟨y, rfl⟩, rfl⟩
    omega

/-- Two chunks have different directory entries. -/
lemma DirectOk.chunk_notMem {i : ℕ} (hi : i < limit) (hd : hugePageSize ∣ i) :
    pageNumber (boot.physicalMemoryOffset + i) / 512 ∉ tabledBelow boot i := by
  rintro ⟨j, hj, hdj, heq⟩
  obtain ⟨o, ho⟩ := h.offset_dvd
  obtain ⟨x, rfl⟩ := hd
  obtain ⟨y, rfl⟩ := hdj
  have hsmall := h.small
  have h2 : hugePageSize = 2097152 := rfl
  have h3 : directMapMax = 1099511627776 := rfl
  rw [pageNumber, pageNumber, ho, h2] at heq
  rw [h2] at hi hj
  omega

end DirectArithmetic

/-- One more page of a chunk of small pages. -/
lemma directMap_page {boot : BootContext} {a n : ℕ} {leaf : Leaf} (hd : pageSize ∣ a)
    (h4k : chunkNeeds4kMapping boot (alignDown a hugePageSize) = true) :
    DirectMap boot sym (a + pageSize) n leaf ↔ DirectMap boot sym a n leaf ∨
      n = pageNumber (boot.physicalMemoryOffset + a) ∧
        leaf = ⟨smallEntry a (directFlagsForPage boot sym a), false⟩ := by
  have hleaf : directLeaf boot sym a = ⟨smallEntry a (directFlagsForPage boot sym a), false⟩ := by
    rw [directLeaf, h4k, if_neg (by simp)]
  rw [← hleaf]
  exact exists_lt_add_iff (by decide) hd

/-- One more chunk mapped as a huge page. -/
lemma directMap_chunk {boot : BootContext} {i n : ℕ} {leaf : Leaf} (h : DirectOk boot limit)
    (hi : i < limit) (hd : hugePageSize ∣ i) (h2m : chunkNeeds4kMapping boot i = false)
    (hn : n < 2 ^ 36) :
    DirectMap boot sym (i + hugePageSize) n leaf ↔ DirectMap boot sym i n leaf ∨
      n / 512 = pageNumber (boot.physicalMemoryOffset + i) / 512 ∧
        leaf = ⟨hugeEntry i (pageRw ||| pageNx), true⟩ := by
  have hchunk : ∀ {a}, i ≤ a → a < i + hugePageSize → alignDown a hugePageSize = i := by
    intro a hle hlt
    exact alignDown_eq (by decide) hd hle hlt
  have hleaf : ∀ {a}, i ≤ a → a < i + hugePageSize →
      directLeaf boot sym a = ⟨hugeEntry i (pageRw ||| pageNx), true⟩ := by
    intro a hle hlt
    rw [directLeaf, hchunk hle hlt, if_pos h2m]
  rw [h.chunk_iff hi hd hn]
  constructor
  · rintro ⟨a, ha, hda, hna, hl⟩
    by_cases hlt : a < i
    · exact .inl ⟨a, hlt, hda, hna, hl⟩
    · exact .inr ⟨⟨a, by omega, ha, hda, hna⟩, hl.trans (hleaf (by omega) ha)⟩
  · rintro (⟨a, ha, hda, hna, hl⟩ | ⟨⟨a, hle, ha, hda, hna⟩, hl⟩)
    · exact ⟨a, by omega, hda, hna, hl⟩
    · exact ⟨a, ha, hda, hna, hl.trans (hleaf hle ha).symm⟩

lemma flags_lt {flags : ℕ} (h : flags = 0 ∨ flags = pageNx ∨ flags = pageRw ||| pageNx ∨
    flags = pageRw ||| pageNx ||| pagePcd ||| pagePwt) : flags < 2 ^ 64 := by
  rcases h with rfl | rfl | rfl | rfl <;> decide

/-- The flags of a page of the direct map. -/
lemma directFlags_cases (boot : BootContext) (sym : KernelSymbols) (a : ℕ) :
    directFlagsForPage boot sym a = pageNx ∨
      directFlagsForPage boot sym a = pageRw ||| pageNx ∨
      directFlagsForPage boot sym a = pageRw ||| pageNx ||| pagePcd ||| pagePwt := by
  simp only [directFlagsForPage]
  split
  · exact .inr (.inr rfl)
  · split
    · exact .inl rfl
    · split
      · exact .inl rfl
      · exact .inr (.inl rfl)

/-- The chunk loop maps 512 small pages. -/
lemma mapDirectChunk_triple {i : ℕ} (h : DirectOk c.boot limit) (hi : i < limit)
    (hd : hugePageSize ∣ i) (h4k : chunkNeeds4kMapping c.boot i = true) :
    Triple (fun s => Maps c root (DirectMap c.boot sym i) (tabledBelow c.boot i) s ∧
        k ≤ s.pmm.freeFrames)
      (forUp 0 hugePageSize pageSize fun offset =>
        if limit ≤ i + offset then pure ()
        else map4kFlags c.boot root (wrap64 (c.boot.physicalMemoryOffset + (i + offset)))
          (i + offset) (directFlagsForPage c.boot sym (i + offset)) false)
      (fun _ s => Maps c root (DirectMap c.boot sym (i + hugePageSize))
        (tabledBelow c.boot (i + hugePageSize)) s ∧ k - 1536 ≤ s.pmm.freeFrames)
      (fun _ _ => c.strict → k < 1536) := by
  have hps : pageSize = 4096 := rfl
  have hhs : hugePageSize = 2097152 := rfl
  have hroom : i + hugePageSize ≤ limit := add_le_of_dvd hd h.limit_dvd hi
  refine .conseq (.forUp
    (I := fun offset s => Maps c root (DirectMap c.boot sym (i + offset))
      (tabledBelow c.boot (i + hugePageSize)) s ∧ k - 3 * (offset / pageSize) ≤ s.pmm.freeFrames)
    (E := fun _ _ => c.strict → k < 1536) (by decide : 0 < pageSize) (Nat.zero_le hugePageSize)
    (by decide) ?_) (fun s hs => ⟨hs.1.mono ?_, by omega⟩) (fun _ s hs => ⟨hs.1, ?_⟩)
    fun _ _ he => he
  rotate_left
  · rintro m ⟨j, hj, hrest⟩
    exact ⟨j, by omega, hrest⟩
  · have := hs.2
    rw [hhs, hps] at this
    omega
  intro offset _ hoff hdo
  rw [Nat.sub_zero] at hdo
  have hda : pageSize ∣ i + offset := dvd_add (dvd_trans pageSize_dvd_hugePageSize hd) hdo
  have hchunk : alignDown (i + offset) hugePageSize = i :=
    alignDown_eq (by decide) hd (by omega) (by omega)
  have hword : wrap64 (c.boot.physicalMemoryOffset + (i + offset)) =
      c.boot.physicalMemoryOffset + (i + offset) := wrap64_of_lt (by have := h.fits; omega)
  have hfits := h.fits
  have htab : pageNumber (c.boot.physicalMemoryOffset + (i + offset)) / 512 ∈
      tabledBelow c.boot (i + hugePageSize) := by
    refine ⟨i, by omega, hd, ?_⟩
    rw [h.chunk_iff hi hd (pageNumber_lt _)]
    exact ⟨i + offset, by omega, by omega, hda, rfl⟩
  rw [if_neg (by omega), hword]
  refine (map4kFlags_triple (k := k - 3 * (offset / pageSize)) _ _ (by omega)
    (flags_lt (.inr (directFlags_cases c.boot sym (i + offset)))) htab).conseq
    (fun s hs => hs)
    (fun _ s hs => ⟨hs.1.congr fun n _ leaf => ?_, ?_⟩) fun _ s hs hst => ?_
  · rw [setLeaf_iff (smallEntry_present _ _) (hs.2.2.2.2 rfl),
      ← Nat.add_assoc i offset pageSize, directMap_page hda (by rw [hchunk]; exact h4k)]
  · have := hs.2.1
    rw [hps] at this ⊢
    omega
  · have hdv := dvd_add (dvd_trans pageSize_dvd_hugePageSize h.offset_dvd) hda
    rcases hs.2 hst hdv hda with ⟨-, hfew⟩ | ⟨leaf, ⟨b, hb, hdb, hn, -⟩, -⟩
    · rw [hps] at hfew
      omega
    · -- no earlier page of the direct map has this page number
      have := h.pageNumber_inj (by omega) (by omega) hda hdb hn
      omega

/-- **`map_direct_range`** adds the direct map below `limit`. -/
lemma mapDirectRange_triple (h : DirectOk c.boot limit) :
    Triple (fun s => Maps c root (DirectMap c.boot sym 0) ∅ s ∧ k ≤ s.pmm.freeFrames)
      (mapDirectRange c.boot sym root limit)
      (fun _ s => Maps c root (DirectMap c.boot sym limit) (tabledBelow c.boot limit) s ∧
        k - directCost c.boot (limit / hugePageSize) ≤ s.pmm.freeFrames)
      (fun _ _ => c.strict → k < directCost c.boot (limit / hugePageSize)) := by
  have hhs : hugePageSize = 2097152 := rfl
  refine .conseq (.forUp
    (I := fun i s => Maps c root (DirectMap c.boot sym i) (tabledBelow c.boot i) s ∧
      k - directCost c.boot (i / hugePageSize) ≤ s.pmm.freeFrames)
    (E := fun _ _ => c.strict → k < directCost c.boot (limit / hugePageSize))
    (by decide : 0 < hugePageSize) (Nat.zero_le limit) (by simpa using h.limit_dvd) ?_)
    (fun s hs => ⟨hs.1.mono (Set.empty_subset _), le_trans (Nat.sub_le _ _) hs.2⟩)
    (fun _ s hs => hs) fun _ _ he => he
  intro i _ hi hd
  rw [Nat.sub_zero] at hd
  have hfits := h.fits
  have hroom : i + hugePageSize ≤ limit := add_le_of_dvd hd h.limit_dvd hi
  -- what this chunk adds to the cost, and what is left of the total
  have hcost : directCost c.boot ((i + hugePageSize) / hugePageSize) =
      directCost c.boot (i / hugePageSize) + chunkCost c.boot i := by
    rw [Nat.add_div_right _ (by decide), directCost, directCost, Finset.sum_range_succ,
      Nat.div_mul_cancel hd]
  have htotal : directCost c.boot ((i + hugePageSize) / hugePageSize) ≤
      directCost c.boot (limit / hugePageSize) :=
    Finset.sum_le_sum_of_subset (Finset.range_mono (Nat.div_le_div_right hroom))
  rw [hcost] at htotal ⊢
  refine .ite (fun h2m => ?_) fun h4k => ?_
  · have hone : chunkCost c.boot i = 2 := if_pos h2m
    rw [hone] at htotal ⊢
    rw [wrap64_of_lt (by omega)]
    refine (map2mFlags_triple (k := k - directCost c.boot (i / hugePageSize)) _ (by omega)
      (flags_lt (.inr (.inr (.inl rfl))))).conseq (fun s hs => hs)
      (fun _ s hs => ⟨(hs.1.congr fun n hn leaf => ?_).mono ?_, ?_⟩) fun _ s hs hst => ?_
    · rw [setHuge_iff fun hdiv => hs.2.2.2.2 n hn hdiv, directMap_chunk h hi hd h2m hn]
    · rintro m ⟨j, hj, hrest⟩
      exact ⟨j, by omega, hrest⟩
    · have := hs.2.1
      omega
    · rcases hs.2 hst (dvd_add h.offset_dvd hd) hd with hfew | hmem | ⟨e, ⟨b, hb, hdb, hn, -⟩, -⟩
      · omega
      · exact absurd hmem (h.chunk_notMem hi hd)
      · have := h.pageNumber_inj hi (by omega) (dvd_trans pageSize_dvd_hugePageSize hd) hdb hn
        omega
  · have h512 : chunkCost c.boot i = 1536 := if_neg h4k
    rw [h512] at htotal ⊢
    refine (mapDirectChunk_triple (k := k - directCost c.boot (i / hugePageSize)) h hi hd
      (by simpa using h4k)).conseq (fun s hs => hs) (fun _ s hs => ⟨hs.1, ?_⟩) fun _ s hs hst => ?_
    · rw [← Nat.sub_sub]
      exact hs.2
    · have := hs hst
      omega

/-! ### The kernel image -/

/-- The frames that mapping a range of kernel addresses takes at most. -/
def Section.cost (r : Section) : ℕ :=
  3 * ((r.stop + (pageSize - 1) - alignDown r.start pageSize) / pageSize)

/-- The part of `SectionMap` below the address `stop`. -/
def SectionMapBelow (boot : BootContext) (r : Section) (stop n : ℕ) (leaf : Leaf) : Prop :=
  ∃ v ∈ r.pages, v < stop ∧ n = pageNumber v ∧ ∃ phys, kernelPhysForVirtual boot v = some phys ∧
    leaf = ⟨smallEntry (alignDown phys pageSize) r.flags, false⟩

/-- The conditions under which a range of kernel addresses can be mapped next to the
translations `R`. -/
structure SectionOk (boot : BootContext) (R : ℕ → Leaf → Prop) (r : Section) : Prop where
  rounds : r.start < r.stop → alignUp r.stop pageSize ≠ none
  inside : ∀ v ∈ r.pages, kernelPhysForVirtual boot v ≠ none
  consistent : ∀ n leaf leaf', R n leaf ∨ SectionMap boot r n leaf →
    R n leaf' ∨ SectionMap boot r n leaf' → leaf = leaf'

/-- One more page of a range of kernel addresses. -/
lemma sectionMapBelow_succ {boot : BootContext} {r : Section} {v phys n : ℕ} {leaf : Leaf}
    (hv : v ∈ r.pages) (hphys : kernelPhysForVirtual boot v = some phys) :
    SectionMapBelow boot r (v + pageSize) n leaf ↔ SectionMapBelow boot r v n leaf ∨
      n = pageNumber v ∧ leaf = ⟨smallEntry (alignDown phys pageSize) r.flags, false⟩ := by
  constructor
  · rintro ⟨w, hw, hlt, hn, phys', hphys', hleaf⟩
    rcases lt_or_eq_of_dvd hv.2.1 hw.2.1 hlt with hwv | rfl
    · exact .inl ⟨w, hw, hwv, hn, phys', hphys', hleaf⟩
    · rw [Option.some.inj (hphys.symm.trans hphys')]
      exact .inr ⟨hn, hleaf⟩
  · rintro (⟨w, hw, hlt, hrest⟩ | ⟨hn, hleaf⟩)
    · exact ⟨w, hw, Nat.lt_add_right _ hlt, hrest⟩
    · exact ⟨v, hv, Nat.lt_add_of_pos_right (by decide), hn, phys, hphys, hleaf⟩

lemma kernelPhysForVirtual_lt {boot : BootContext} {v phys : ℕ}
    (h : kernelPhysForVirtual boot v = some phys) : phys < 2 ^ 64 := by
  have hmax : uint64Max = 2 ^ 64 - 1 := rfl
  have := boot.words boot.kernelPhysStart (by simp)
  rw [kernelPhysForVirtual] at h
  split at h
  · simp at h
  · simp only at h
    split at h
    · simp at h
    · obtain rfl := Option.some.inj h
      omega

/-- **`map_kernel_virtual_range`** adds the pages of the range. -/
lemma mapKernelVirtualRange_triple {r : Section} (hflags : r.flags < 2 ^ 64)
    (htab : ∀ n leaf, SectionMap c.boot r n leaf → n / 512 ∈ tabled) :
    Triple (fun s => Maps c root R tabled s ∧ k ≤ s.pmm.freeFrames)
      (mapKernelVirtualRange c.boot root r.start r.stop r.flags)
      (fun _ s => Maps c root (fun n leaf => R n leaf ∨ SectionMap c.boot r n leaf) tabled s ∧
        k - r.cost ≤ s.pmm.freeFrames)
      (fun _ _ => c.strict → SectionOk c.boot R r → k < r.cost) := by
  have hps : pageSize = 4096 := rfl
  rw [mapKernelVirtualRange]
  refine .ite (fun hempty => ?_) fun hlt => ?_
  · refine .pure fun s hs => ⟨hs.1.congr fun n _ leaf => ?_, by omega⟩
    refine (or_iff_left ?_).symm
    rintro ⟨v, hv, -⟩
    exact absurd hv.1 (not_lt.mpr hempty)
  rw [not_le] at hlt
  split
  case h_1 hnone => exact .throw fun s hs _ hok => absurd hnone (hok.rounds hlt)
  case h_2 pageEnd hup =>
    obtain ⟨hde, hle, hlt'⟩ := alignUp_eq_some (by decide) hup
    have hds := dvd_alignDown r.start pageSize
    have hstart := alignDown_le r.start pageSize
    have hcost : r.cost = 3 * ((pageEnd - alignDown r.start pageSize) / pageSize) := by
      rw [Section.cost]
      obtain ⟨x, hx⟩ := hds
      obtain ⟨y, hy⟩ := hde
      rw [hps] at hx hy hlt' ⊢
      omega
    refine .conseq (.forUp
      (I := fun v s => Maps c root (fun n leaf => R n leaf ∨ SectionMapBelow c.boot r v n leaf)
        tabled s ∧ k - 3 * ((v - alignDown r.start pageSize) / pageSize) ≤ s.pmm.freeFrames)
      (E := fun _ _ => c.strict → SectionOk c.boot R r → k < r.cost)
      (by decide : 0 < pageSize) (by omega : alignDown r.start pageSize ≤ pageEnd)
      (Nat.dvd_sub hde hds) ?_) (fun s hs => ⟨hs.1.congr fun n _ leaf => ?_, by omega⟩)
      (fun _ s hs => ⟨hs.1.congr fun n _ leaf => or_congr_right ?_, by rw [hcost]; exact hs.2⟩)
      fun _ _ he => he
    rotate_left
    · refine (or_iff_left ?_).symm
      rintro ⟨v, hv, hv', -⟩
      exact absurd hv' (not_lt.mpr hv.2.2.1)
    · constructor
      · rintro ⟨v, hv, -, hrest⟩
        exact ⟨v, hv, hrest⟩
      · rintro ⟨v, hv, hrest⟩
        exact ⟨v, hv, lt_of_lt_of_le hv.2.2.2 hle, hrest⟩
    intro v hvs hve hdv
    have hd : pageSize ∣ v := (Nat.dvd_sub_iff_left hvs hds).mp hdv
    have hv : v ∈ r.pages := by
      refine ⟨hlt, hd, hvs, ?_⟩
      by_contra hcon
      have := (alignUp_le_iff (by decide) hup hd).mpr (not_lt.mp hcon)
      omega
    have hsub : v - alignDown r.start pageSize + pageSize ≤
        pageEnd - alignDown r.start pageSize := by
      have := add_le_of_dvd hd hde hve
      omega
    split
    case h_1 hnone => exact .throw fun s hs _ hok => absurd hnone (hok.inside v hv)
    case h_2 phys hphys =>
      have hphys_lt := kernelPhysForVirtual_lt hphys
      have hadl := alignDown_le phys pageSize
      have hmapped : SectionMap c.boot r (pageNumber v)
          ⟨smallEntry (alignDown phys pageSize) r.flags, false⟩ := ⟨v, hv, rfl, phys, hphys, rfl⟩
      refine (map4kFlags_triple (k := k - 3 * ((v - alignDown r.start pageSize) / pageSize)) _ _
        (by omega) hflags (htab _ _ hmapped)).conseq (fun s hs => hs)
        (fun _ s hs => ⟨hs.1.congr fun n _ leaf => ?_, ?_⟩) fun _ s hs hst hok => ?_
      · rw [setLeaf_iff (smallEntry_present _ _) (hs.2.2.2.2 rfl),
          sectionMapBelow_succ hv hphys, or_assoc]
      · have := hs.2.1
        rw [show v + pageSize - alignDown r.start pageSize =
          v - alignDown r.start pageSize + pageSize by omega, Nat.add_div_right _ (by decide)]
        omega
      · rcases hs.2 hst hd (dvd_alignDown phys pageSize) with ⟨-, hfew⟩ | ⟨leaf, hleaf, hconf⟩
        · have hmono := Nat.div_le_div_right (c := pageSize) hsub
          rw [Nat.add_div_right _ (by decide)] at hmono
          omega
        · -- the translation in the way is one of those that must agree with the wanted one
          have hin : R (pageNumber v) leaf ∨ SectionMap c.boot r (pageNumber v) leaf := by
            refine hleaf.imp_right ?_
            rintro ⟨w, hw, -, hrest⟩
            exact ⟨w, hw, hrest⟩
          have heq := hok.consistent _ leaf _ hin (.inr hmapped)
          rw [heq] at hconf
          simp at hconf

/-! ### The whole address space -/

/-- An empty root has no table below it. -/
lemma tableAt_of_zero {t : ℕ → ℕ → ℕ} (h : ∀ i < 512, t root i = 0) (l p : ℕ) :
    pageShape.tableAt t root (l + 1) p = none := by
  induction l generalizing p with
  | zero =>
    have hz : t root (p % pageShape.fan) = 0 := h _ (Nat.mod_lt p pageShape.fan_pos)
    rw [Shape.tableAt, Shape.tableAt_zero, Option.bind_some, hz]
    exact child_eq_none (.inl (Nat.zero_testBit 0))
  | succ l ih => exact Shape.tableAt_succ_eq_none (ih _)

/-- A freshly allocated root translates nothing. -/
lemma Maps.fresh {g : ℕ} (h : Kept c s) (ha : Allocated c s s' g) :
    Maps c g (fun _ _ => False) ∅ s' := by
  have hps : pageSize = 4096 := rfl
  have hzero : ∀ i < 512, entries c.boot s'.mem g i = 0 := by
    intro i hi
    rw [ha.mem]
    exact entries_zero_self hi
  have hnone := tableAt_of_zero hzero
  have htop : ∀ {l p f}, pageShape.tableAt (entries c.boot s'.mem) g l p = some f →
      l = 0 ∧ f = g := by
    intro l p f hf
    cases l with
    | zero => exact ⟨rfl, (Option.some.inj hf).symm⟩
    | succ l =>
      rw [hnone] at hf
      exact absurd hf (by simp)
  have hentry : ∀ {l p e}, pageShape.entryAt (entries c.boot s'.mem) g l p = some e → e = 0 := by
    intro l p e he
    obtain ⟨f, hf, rfl⟩ := Option.map_eq_some_iff.mp he
    obtain ⟨-, rfl⟩ := htop hf
    exact hzero _ (Nat.mod_lt p pageShape.fan_pos)
  refine ⟨⟨⟨ha.pmm ▸ c.reached_alloc _ h.reached, ha.inv, ha.managed.trans h.managed,
    h.others_held.mono_right ha.sub, fun x hx => ?_⟩, ?_, ?_, fun _ l _ p _ e he h7 => ?_⟩,
    fun n _ leaf => ?_, fun m _ f hf => ?_⟩
  · have := (ha.tableFrame h).apart x hx
    rw [ha.mem, zeroPage_eq, fill_apply_of_notMem (by omega)]
    exact h.image x hx
  · intro l _ p hp l' _ p' hp' f hf hf'
    obtain ⟨rfl, -⟩ := htop hf
    obtain ⟨rfl, -⟩ := htop hf'
    rw [pow_zero] at hp hp'
    omega
  · rintro f ⟨l, -, p, -, hf⟩
    obtain ⟨-, rfl⟩ := htop hf
    exact ha.tableFrame h
  · rw [hentry he] at h7
    simp at h7
  · refine iff_of_false ?_ id
    rintro ⟨h0, hrest⟩
    have hz : leaf.entry = 0 := by
      cases hh : leaf.huge with
      | true =>
        rw [hh, if_pos rfl] at hrest
        exact hentry hrest.1
      | false =>
        rw [hh, if_neg Bool.false_ne_true] at hrest
        exact hentry hrest
    rw [hz] at h0
    simp at h0
  · exact absurd (htop hf).1 (by omega)

/-- The translations once the direct map and the sections `done` are mapped. -/
def MapUpTo (boot : BootContext) (sym : KernelSymbols) (limit : ℕ) (done : List Section) (n : ℕ)
    (leaf : Leaf) : Prop :=
  DirectMap boot sym limit n leaf ∨ ∃ r ∈ done, SectionMap boot r n leaf

/-- The conditions under which the kernel image can be mapped next to the direct
map. -/
structure LayoutOk (boot : BootContext) (sym : KernelSymbols) (limit : ℕ) : Prop where
  rounds : ∀ r ∈ sections boot sym, r.start < r.stop → alignUp r.stop pageSize ≠ none
  inside : ∀ r ∈ sections boot sym, ∀ v ∈ r.pages, kernelPhysForVirtual boot v ≠ none
  consistent : ∀ n leaf leaf', KernelMap boot sym limit n leaf → KernelMap boot sym limit n leaf' →
    leaf = leaf'

/-- The frames that the direct map and the sections `done` take at most, with the
root. -/
def costUpTo (boot : BootContext) (limit : ℕ) (done : List Section) : ℕ :=
  1 + directCost boot (limit / hugePageSize) + (done.map Section.cost).sum

/-- The frames that the address space takes at most. -/
def spaceCost (boot : BootContext) (sym : KernelSymbols) (limit : ℕ) : ℕ :=
  costUpTo boot limit (sections boot sym)

/-- The flags of every section are a word. -/
lemma sections_flags {boot : BootContext} {r : Section} (h : r ∈ sections boot sym) :
    r.flags < 2 ^ 64 := by
  simp only [sections, List.mem_cons, List.not_mem_nil, or_false] at h
  rcases h with rfl | rfl | rfl | rfl | rfl
  · exact flags_lt (.inr (.inl rfl))
  · exact flags_lt (.inl rfl)
  · exact flags_lt (.inr (.inl rfl))
  · exact flags_lt (.inr (.inr (.inl rfl)))
  · exact flags_lt (.inr (.inr (.inl rfl)))

/-- The directory entries of the pages that a relation translates. -/
def tabledBy (R : ℕ → Leaf → Prop) : Set ℕ := {m | ∃ n leaf, R n leaf ∧ n / 512 = m}

/-- One section of the kernel image. -/
lemma mapSection_triple (done : List Section) (r : Section) {rest : List Section}
    (hsec : sections c.boot sym = done ++ r :: rest) :
    Triple (fun s => Maps c root (MapUpTo c.boot sym limit done)
          (tabledBy (KernelMap c.boot sym limit)) s ∧
        k - costUpTo c.boot limit done ≤ s.pmm.freeFrames)
      (mapKernelVirtualRange c.boot root r.start r.stop r.flags)
      (fun _ s => Maps c root (MapUpTo c.boot sym limit (done ++ [r]))
          (tabledBy (KernelMap c.boot sym limit)) s ∧
        k - costUpTo c.boot limit (done ++ [r]) ≤ s.pmm.freeFrames)
      (fun _ _ => c.strict → LayoutOk c.boot sym limit → k < spaceCost c.boot sym limit) := by
  have hr : r ∈ sections c.boot sym := by simp [hsec]
  have hcost : costUpTo c.boot limit (done ++ [r]) = costUpTo c.boot limit done + r.cost := by
    simp [costUpTo, Nat.add_assoc]
  have htotal : costUpTo c.boot limit done + r.cost ≤ spaceCost c.boot sym limit := by
    rw [spaceCost, hsec]
    simp only [costUpTo, List.map_append, List.map_cons, List.sum_append, List.sum_cons]
    omega
  have hmap : ∀ n leaf, MapUpTo c.boot sym limit (done ++ [r]) n leaf ↔
      MapUpTo c.boot sym limit done n leaf ∨ SectionMap c.boot r n leaf := by
    intro n leaf
    simp [MapUpTo, or_and_right, exists_or, or_assoc]
  have htab : ∀ n leaf, SectionMap c.boot r n leaf →
      n / 512 ∈ tabledBy (KernelMap c.boot sym limit) :=
    fun n leaf h => ⟨n, leaf, .inr ⟨r, hr, h⟩, rfl⟩
  refine (mapKernelVirtualRange_triple (sections_flags hr) htab).conseq (fun s hs => hs)
    (fun _ s hs => ⟨hs.1.congr fun n _ leaf => (hmap n leaf).symm, ?_⟩) fun _ s hs hst hok => ?_
  · rw [hcost, ← Nat.sub_sub]
    exact hs.2
  · have hwhole : ∀ {n leaf}, MapUpTo c.boot sym limit done n leaf ∨ SectionMap c.boot r n leaf →
        KernelMap c.boot sym limit n leaf := by
      rintro n leaf ((h | ⟨q, hq, h⟩) | h)
      · exact .inl h
      · exact .inr ⟨q, by simp [hsec, hq], h⟩
      · exact .inr ⟨r, hr, h⟩
    have := hs hst ⟨hok.rounds r hr, hok.inside r hr, fun n leaf leaf' h h' =>
      hok.consistent n leaf leaf' (hwhole h) (hwhole h')⟩
    omega

/-- **The address space of `paging_init`.**  After a success its translations are the
direct map and the sections of the kernel image, with page tables for these only, and its
tables took no more frames than they may cost; with a sound layout and enough frames there
is no failure. -/
theorem mapKernelSpace_triple (sym : KernelSymbols) (h : DirectOk c.boot limit) :
    Triple (fun s => Kept c s ∧ k ≤ s.pmm.freeFrames) (mapKernelSpace c.boot sym limit)
      (fun root s => Maps c root (KernelMap c.boot sym limit)
          (tabledBy (KernelMap c.boot sym limit)) s ∧
        k - spaceCost c.boot sym limit ≤ s.pmm.freeFrames)
      (fun _ _ => c.strict → LayoutOk c.boot sym limit → k < spaceCost c.boot sym limit) := by
  have hspace : 1 + directCost c.boot (limit / hugePageSize) ≤ spaceCost c.boot sym limit :=
    Nat.le_add_right _ _
  rw [mapKernelSpace]
  refine .bind (Q := fun root s => Maps c root (DirectMap c.boot sym 0) ∅ s ∧
    k - 1 ≤ s.pmm.freeFrames) ?_ fun root => ?_
  · rintro s ⟨hkept, hk⟩
    rcases allocTable_outcome hkept with ⟨hout, hzero⟩ | ⟨g, s', hout, ha⟩
    · rw [hout]
      refine ⟨fun a t ht => by simp at ht, fun e t _ _ _ => by omega⟩
    · rw [hout]
      refine ⟨fun a t ht => ?_, fun e t ht => by simp at ht⟩
      obtain ⟨rfl, rfl⟩ : g = a ∧ s' = t := by simpa using ht
      refine ⟨(Maps.fresh hkept ha).congr fun n _ leaf => iff_of_false id ?_, ?_⟩
      · rintro ⟨a, ha, -⟩
        omega
      · have := ha.count
        omega
  have hdirect : tabledBelow c.boot limit ⊆ tabledBy (KernelMap c.boot sym limit) := by
    rintro m ⟨j, hj, hd, rfl⟩
    exact ⟨_, _, .inl ⟨j, hj, dvd_trans pageSize_dvd_hugePageSize hd, rfl, rfl⟩, rfl⟩
  refine .bind (Q := fun _ s => Maps c root (MapUpTo c.boot sym limit [])
      (tabledBy (KernelMap c.boot sym limit)) s ∧
    k - costUpTo c.boot limit [] ≤ s.pmm.freeFrames)
    ((mapDirectRange_triple h).conseq (fun s hs => hs)
      (fun _ s hs => ⟨(hs.1.mono hdirect).congr fun n _ leaf => ?_, ?_⟩)
      fun _ s hs hst _ => by have := hs hst; omega) fun _ => ?_
  · simp [MapUpTo]
  · have := hs.2
    simp only [costUpTo, List.map_nil, List.sum_nil]
    omega
  refine .bind (mapSection_triple [] ⟨_, sym.textStart, pageNx⟩ rfl) fun _ => ?_
  refine .bind (mapSection_triple _ ⟨sym.textStart, sym.textEnd, 0⟩ rfl) fun _ => ?_
  refine .bind (mapSection_triple _ ⟨sym.rodataStart, sym.rodataEnd, pageNx⟩ rfl) fun _ => ?_
  refine .bind (mapSection_triple _ ⟨sym.dataStart, sym.dataEnd, pageRw ||| pageNx⟩ rfl)
    fun _ => ?_
  refine .bind (mapSection_triple _ ⟨sym.stackStart, sym.stackEnd, pageRw ||| pageNx⟩ rfl)
    fun _ => ?_
  exact .pure fun s hs => hs

end Paging

end JoshOS
