import JoshOS.Paging.Init

/-!
The kernel address space after `paging_init`.

* `Ready`: the interface's invariant, an address space with given translations.
* `pagingInit_ready`: a successful `paging_init` leaves `KernelMap`.
* `pagingInit_keeps`: what it does to the frame allocator.
* `pagingInit_ok`: it does succeed, given a sound layout and enough frames.
-/

namespace JoshOS

open Words Memory Radix Spans Hoare

namespace Paging

variable {boot : BootContext} {sym : KernelSymbols} {limit : ℕ}

/-! ### The checks -/

lemma le_foldl_raiseLimit (l : List BootMemoryRegion) (m : ℕ) : m ≤ l.foldl raiseLimit m := by
  induction l generalizing m with
  | nil => exact le_refl m
  | cons r l ih =>
    refine le_trans ?_ (ih (raiseLimit m r))
    rw [raiseLimit]
    split
    · exact le_refl m
    · split
      · omega
      · exact le_refl m

/-- Every usable entry that stays in the address space ends below the limit. -/
lemma stop_le_foldl_raiseLimit {l : List BootMemoryRegion} {r : BootMemoryRegion} (hr : r ∈ l)
    (hu : r.type = .usable) (hl : r.length ≠ 0) (hw : r.stop < 2 ^ 64) (m : ℕ) :
    r.stop ≤ l.foldl raiseLimit m := by
  induction l generalizing m with
  | nil => simp at hr
  | cons q l ih =>
    rcases List.mem_cons.mp hr with rfl | hr
    · refine le_trans ?_ (le_foldl_raiseLimit l _)
      have hstop : r.stop = r.base + r.length := rfl
      have hmax : uint64Max = 2 ^ 64 - 1 := rfl
      rw [raiseLimit, if_neg
        (by rw [hu]; simp only [ne_eq, not_true_eq_false, hl, false_or]; omega)]
      split <;> omega
    · exact ih hr _

/-- What a successful `physical_map_limit` returns. -/
lemma physicalMapLimit_eq_some (h : physicalMapLimit boot = some limit) :
    hugePageSize ∣ limit ∧ 0 < limit ∧ limit ≤ directMapMax ∧
      boot.memoryMap.foldl raiseLimit 0 ≤ limit ∧ boot.framebufferPhysEnd ≤ limit ∧
      boot.kernelPhysEnd ≤ limit := by
  rw [physicalMapLimit] at h
  generalize hm : boot.memoryMap.foldl raiseLimit 0 = m at h ⊢
  generalize hf : (if m < boot.framebufferPhysEnd then boot.framebufferPhysEnd else m) = m' at h
  generalize hk : (if m' < boot.kernelPhysEnd then boot.kernelPhysEnd else m') = m'' at h
  split at h
  · simp at h
  · have hpos : 0 < hugePageSize := by decide
    obtain ⟨hd, hle, -⟩ := alignUp_eq_some hpos h
    have hmax : limit ≤ directMapMax := (alignUp_le_iff hpos h (by decide)).mpr (by omega)
    have h1 : m ≤ m' ∧ boot.framebufferPhysEnd ≤ m' := by
      rw [← hf]
      split <;> omega
    have h2 : m' ≤ m'' ∧ boot.kernelPhysEnd ≤ m'' := by
      rw [← hk]
      split <;> omega
    refine ⟨hd, ?_, hmax, ?_, ?_, ?_⟩ <;> omega

/-- What the checks of `paging_init` establish. -/
structure Checked (boot : BootContext) (limit : ℕ) : Prop extends DirectOk boot limit where
  kernelPhys : boot.kernelPhysStart < boot.kernelPhysEnd
  kernelVirt : boot.kernelVirtStart < boot.kernelVirtEnd
  usable : boot.memoryMap.foldl raiseLimit 0 ≤ limit
  framebuffer : boot.framebufferPhysEnd ≤ limit
  kernel : boot.kernelPhysEnd ≤ limit

lemma checkLayout_eq_ok {b : Option BootContext} (h : checkLayout b = .ok (boot, limit)) :
    b = some boot ∧ Checked boot limit := by
  have hmax : uint64Max = 2 ^ 64 - 1 := rfl
  cases b with
  | none => simp [checkLayout] at h
  | some boot' =>
    rw [checkLayout] at h
    split at h
    case isTrue => simp at h
    case isFalse hext =>
      split at h
      case isTrue => simp at h
      case isFalse hoff =>
        split at h
        case h_1 => simp at h
        case h_2 newLimit hlimit =>
          split at h
          case isTrue => simp at h
          case isFalse hfit =>
            simp only [Except.ok.injEq, Prod.mk.injEq] at h
            obtain ⟨rfl, rfl⟩ := h
            obtain ⟨hd, hpos, hle, hu, hf, hk⟩ := physicalMapLimit_eq_some hlimit
            have hword := boot'.physicalMemoryOffset_lt
            refine ⟨rfl, ⟨Nat.dvd_of_mod_eq_zero (not_not.mp hoff), hd, ?_, hle⟩, ?_, ?_, hu, hf,
              hk⟩ <;> omega

/-- **The direct map covers what the allocator manages.** -/
lemma InitiallyFree.below_limit (h : Checked boot limit)
    (hw : ∀ r ∈ boot.memoryMap, r.length ≠ 0 → r.stop < 2 ^ 64) {x : ℕ}
    (hx : x ∈ Pmm.InitiallyFree boot) : pmmMinPhysical ≤ x ∧ x < limit := by
  obtain ⟨⟨r, hr, hu, hl, -, hmin, hstop, -⟩, -⟩ := hx
  have hlt := lt_alignDown_add Pmm.pmmPageSize_pos x
  have hle := alignDown_le x pmmPageSize
  have hlimit := (stop_le_foldl_raiseLimit hr hu hl (hw r hr hl) 0).trans h.usable
  omega

/-! ### A sound layout -/

/-- How a loader places the kernel: its physical and virtual extents are equal and
equally aligned, the section symbols lie inside, and no page meets both the image and
the framebuffer. -/
structure ImagePlaced (boot : BootContext) (sym : KernelSymbols) : Prop where
  extent : boot.kernelPhysEnd - boot.kernelPhysStart = boot.kernelVirtEnd - boot.kernelVirtStart
  offset : boot.kernelPhysStart % pageSize = boot.kernelVirtStart % pageSize
  inside : ∀ v ∈ [sym.textStart, sym.textEnd, sym.rodataStart, sym.rodataEnd, sym.dataStart,
    sym.dataEnd, sym.stackStart, sym.stackEnd], boot.kernelVirtStart ≤ v ∧ v ≤ boot.kernelVirtEnd
  apart : ∀ x, ¬ (Pmm.pageMeets x boot.framebufferPhysStart boot.framebufferPhysEnd ∧
    Pmm.pageMeets x boot.kernelPhysStart boot.kernelPhysEnd)

/-- The physical address behind an address of the image. -/
lemma ImagePlaced.kernelPhysForVirtual (hc : Checked boot limit) (hi : ImagePlaced boot sym)
    {v : ℕ} (hv : boot.kernelVirtStart ≤ v) (hv' : v < boot.kernelVirtEnd) :
    kernelPhysForVirtual boot v = some (boot.kernelPhysStart + (v - boot.kernelVirtStart)) := by
  have hmax : uint64Max = 2 ^ 64 - 1 := rfl
  have hmap : directMapMax = 2 ^ 40 := rfl
  have h1 := hc.kernelPhys
  have h2 := hc.kernelVirt
  have h3 := hi.extent
  have h4 := hc.kernel
  have h5 := hc.small
  rw [Paging.kernelPhysForVirtual, if_neg (by omega)]
  simp only
  rw [if_neg (by omega)]

/-- The bounds of every mapped range are the start of the image or section
symbols. -/
lemma sections_bounds {P : ℕ → Prop} (hk : P boot.kernelVirtStart)
    (hsym : ∀ v ∈ [sym.textStart, sym.textEnd, sym.rodataStart, sym.rodataEnd, sym.dataStart,
      sym.dataEnd, sym.stackStart, sym.stackEnd], P v) {r : Section}
    (hr : r ∈ sections boot sym) : P r.start ∧ P r.stop := by
  simp only [List.forall_mem_cons, List.not_mem_nil, false_imp_iff, implies_true, and_true] at hsym
  obtain ⟨h1, h2, h3, h4, h5, h6, h7, h8⟩ := hsym
  simp only [sections, List.mem_cons, List.not_mem_nil, or_false] at hr
  rcases hr with rfl | rfl | rfl | rfl | rfl
  · exact ⟨hk, h1⟩
  · exact ⟨h1, h2⟩
  · exact ⟨h3, h4⟩
  · exact ⟨h5, h6⟩
  · exact ⟨h7, h8⟩

/-- Two pages of the image have different page numbers. -/
lemma image_pageNumber_inj (hc : Checked boot limit) (hi : ImagePlaced boot sym) {v w : ℕ}
    (hv : boot.kernelVirtStart ≤ v) (hv' : v < boot.kernelVirtEnd)
    (hw : boot.kernelVirtStart ≤ w) (hw' : w < boot.kernelVirtEnd) (hdv : pageSize ∣ v)
    (hdw : pageSize ∣ w) (heq : pageNumber v = pageNumber w) : v = w := by
  have hmap : directMapMax = 2 ^ 40 := rfl
  have hps : pageSize = 4096 := rfl
  have h1 := hc.kernel
  have h2 := hc.small
  have h3 := hi.extent
  obtain ⟨x, rfl⟩ := hdv
  obtain ⟨y, rfl⟩ := hdw
  rw [pageNumber, pageNumber, hps] at heq
  rw [hps] at hv hv' hw hw' ⊢
  omega

/-- **An aligned image with sections apart from each other and from the direct map
is a sound layout.** -/
lemma layoutOk_of_placed (hc : Checked boot limit) (hi : ImagePlaced boot sym)
    (hk : pageSize ∣ boot.kernelVirtStart)
    (hsym : ∀ v ∈ [sym.textStart, sym.textEnd, sym.rodataStart, sym.rodataEnd, sym.dataStart,
      sym.dataEnd, sym.stackStart, sym.stackEnd], pageSize ∣ v)
    (hsep : ∀ r ∈ sections boot sym, ∀ r' ∈ sections boot sym, ∀ v, v ∈ r.pages → v ∈ r'.pages →
      r = r')
    (hwin : ∀ a < limit, ∀ v, boot.kernelVirtStart ≤ v → v < boot.kernelVirtEnd →
      pageNumber (boot.physicalMemoryOffset + a) ≠ pageNumber v) : LayoutOk boot sym limit := by
  have hin : ∀ r ∈ sections boot sym, ∀ v ∈ r.pages,
      boot.kernelVirtStart ≤ v ∧ v < boot.kernelVirtEnd := by
    intro r hr v hv
    obtain ⟨hstart, hstop⟩ := sections_bounds (P := fun v =>
      boot.kernelVirtStart ≤ v ∧ v ≤ boot.kernelVirtEnd) ⟨le_refl _, hc.kernelVirt.le⟩ hi.inside hr
    obtain ⟨-, -, hle, hlt⟩ := hv
    rw [alignDown_of_dvd (sections_bounds hk hsym hr).1] at hle
    omega
  refine ⟨fun r hr _ => ?_, fun r hr v hv => ?_, ?_⟩
  · rw [alignUp_of_dvd (sections_bounds hk hsym hr).2]
    simp
  · obtain ⟨h1, h2⟩ := hin r hr v hv
    rw [hi.kernelPhysForVirtual hc h1 h2]
    simp
  · rintro n leaf leaf' (⟨a, ha, hda, hn, hl⟩ | ⟨r, hr, v, hv, hn, phys, hphys, hl⟩)
      (⟨b, hb, hdb, hn', hl'⟩ | ⟨r', hr', v', hv', hn', phys', hphys', hl'⟩)
    · rw [hl, hl', hc.pageNumber_inj ha hb hda hdb (hn.symm.trans hn')]
    · obtain ⟨h1, h2⟩ := hin r' hr' v' hv'
      exact absurd (hn.symm.trans hn') (hwin a ha v' h1 h2)
    · obtain ⟨h1, h2⟩ := hin r hr v hv
      exact absurd (hn'.symm.trans hn) (hwin b hb v h1 h2)
    · obtain ⟨h1, h2⟩ := hin r hr v hv
      obtain ⟨h3, h4⟩ := hin r' hr' v' hv'
      obtain rfl := image_pageNumber_inj hc hi h1 h2 h3 h4 hv.2.1 hv'.2.1 (hn.symm.trans hn')
      obtain rfl := hsep r hr r' hr' v hv hv'
      rw [hl, hl', Option.some.inj (hphys.symm.trans hphys')]

/-! ### The invariant of the interface -/

/-- The allocator has been initialised from `boot` and called any number of times
since. -/
def PmmReached (pmm₀ : Pmm) (pmm : Pmm) : Prop := ∃ calls, pmm = Runs.final Pmm.step pmm₀ calls

lemma PmmReached.step {pmm₀ pmm : Pmm} (h : PmmReached pmm₀ pmm) (call : Pmm.Call) :
    PmmReached pmm₀ (pmm.step call).2 := by
  obtain ⟨calls, rfl⟩ := h
  exact ⟨calls ++ [call], by rw [Runs.final_append]; rfl⟩

/-- The surroundings of the address space of `boot`, with the frames `others` hold. -/
def surroundings (h : Checked boot limit) {pmm : Pmm} (hp : Pmm.pmmInit (some boot) = (.ok, pmm))
    (others : Set ℕ) (image : Memory) : Surroundings where
  boot := boot
  managed := pmm.managedRanges
  reached := PmmReached pmm
  others := others
  image := image
  strict := True
  reached_alloc := fun _ h => h.step .allocFrame
  window := by
    obtain ⟨-, -, -, hcov, hw⟩ := Pmm.pmmInit_spec hp
    intro x hx
    rw [hcov] at hx
    obtain ⟨hmin, hlt⟩ := InitiallyFree.below_limit h hw hx
    have h1 := h.small
    have h2 := h.fits
    have h3 : directMapMax = 2 ^ 40 := rfl
    have h4 : pmmMinPhysical = 2 ^ 20 := rfl
    exact ⟨by omega, by omega, by omega⟩

/-- The address space is set up, with the translations `R`. -/
structure Ready (c : Surroundings) (limit : ℕ) (R : ℕ → Leaf → Prop) (s : Paging) : Prop where
  active : s.activeBoot = some c.boot
  limit_eq : s.directLimit = limit
  checked : Checked c.boot limit
  maps : Maps c s.rootPhys R Set.univ s.machine
  next_dvd : pageSize ∣ s.mmioNext
  next_ge : mmioBase ≤ s.mmioNext
  next_le : s.mmioNext ≤ mmioLimit

/-- The MMIO window. -/
lemma mmioBase_bounds : pageSize ∣ mmioBase ∧ mmioBase ≤ mmioLimit := by
  norm_num [pageSize, mmioBase, mmioLimit]

/-- The allocator stays in order. -/
lemma PmmReached.inv {pmm₀ pmm : Pmm} (h : PmmReached pmm₀ pmm)
    (hp : Pmm.pmmInit (some boot) = (.ok, pmm₀)) :
    pmm.Inv ∧ pmm.managedRanges = pmm₀.managedRanges := by
  obtain ⟨calls, rfl⟩ := h
  exact Pmm.final_inv (Pmm.pmmInit_spec hp).1 calls

/-- What others hold before `paging_init` is any memory that is not free. -/
lemma kept_of_reached (h : Checked boot limit) {pmm : Pmm}
    (hp : Pmm.pmmInit (some boot) = (.ok, pmm)) {s : Machine} (hs : PmmReached pmm s.pmm)
    {others : Set ℕ} (hothers : Disjoint others (cover s.pmm.freeRanges)) :
    Kept (surroundings h hp others s.mem) s :=
  ⟨hs, (hs.inv hp).1, (hs.inv hp).2, hothers, fun _ _ => rfl⟩

/-- What a successful `paging_init` has done. -/
lemma pagingInit_cases {s s' : Paging} {root : ℕ}
    (h : pagingInit sym (some boot) s = (.ok root, s')) :
    ∃ limit machine, checkLayout (some boot) = .ok (boot, limit) ∧
      outcome (mapKernelSpace boot sym limit) s.machine = (.ok root, machine) ∧
      s' = { machine := machine, activeBoot := some boot, rootPhys := root, directLimit := limit,
             mmioNext := mmioBase, tempMapped := false } := by
  rw [pagingInit] at h
  split at h
  · simp at h
  rename_i boot' limit hcheck
  obtain rfl := Option.some.inj (checkLayout_eq_ok hcheck).1
  split at h
  · simp at h
  rename_i root' machine hrun
  simp only [Prod.mk.injEq, Except.ok.injEq] at h
  obtain ⟨rfl, rfl⟩ := h
  exact ⟨limit, machine, hcheck, hrun, rfl⟩

/-- The tree that a successful `paging_init` leaves: its page tables are those of
`KernelMap`. -/
lemma pagingInit_maps {pmm : Pmm} (hp : Pmm.pmmInit (some boot) = (.ok, pmm)) {s s' : Paging}
    {root : ℕ} (hs : PmmReached pmm s.machine.pmm) {others : Set ℕ}
    (hothers : Disjoint others (cover s.machine.pmm.freeRanges))
    (h : pagingInit sym (some boot) s = (.ok root, s')) :
    ∃ limit, ∃ hc : Checked boot limit, s'.activeBoot = some boot ∧ s'.directLimit = limit ∧
      s'.mmioNext = mmioBase ∧ Maps (surroundings hc hp others s.machine.mem) s'.rootPhys
        (KernelMap boot sym limit) (tabledBy (KernelMap boot sym limit)) s'.machine := by
  obtain ⟨limit, machine, hcheck, hrun, rfl⟩ := pagingInit_cases h
  have hc := (checkLayout_eq_ok hcheck).2
  obtain ⟨hok, -⟩ := mapKernelSpace_triple (k := 0) sym hc.toDirectOk s.machine
    ⟨kept_of_reached hc hp hs hothers, Nat.zero_le _⟩
  exact ⟨limit, hc, rfl, rfl, rfl, (hok _ _ hrun).1⟩

/-- **A successful `paging_init`** leaves the address space with the translations
`KernelMap`, and what others hold as it was. -/
theorem pagingInit_ready {pmm : Pmm} (hp : Pmm.pmmInit (some boot) = (.ok, pmm)) {s s' : Paging}
    {root : ℕ} (hs : PmmReached pmm s.machine.pmm) {others : Set ℕ}
    (hothers : Disjoint others (cover s.machine.pmm.freeRanges))
    (h : pagingInit sym (some boot) s = (.ok root, s')) :
    ∃ limit, ∃ hc : Checked boot limit,
      Ready (surroundings hc hp others s.machine.mem) limit (KernelMap boot sym limit) s' := by
  obtain ⟨limit, hc, hactive, hlimit, hnext, hmaps⟩ := pagingInit_maps hp hs hothers h
  exact ⟨limit, hc, hactive, hlimit, hc, hmaps.mono (Set.subset_univ _), hnext ▸ mmioBase_bounds.1,
    hnext.ge, hnext ▸ mmioBase_bounds.2⟩

/-- What `pmm_alloc_frame` keeps of the allocator, `paging_init` keeps; and it takes
no more frames than its tables may cost. -/
theorem pagingInit_keeps {pmm : Pmm} (hp : Pmm.pmmInit (some boot) = (.ok, pmm)) {s s' : Paging}
    {root : ℕ} (hs : PmmReached pmm s.machine.pmm) {P : Pmm → Prop}
    (hP : ∀ p, P p → P p.pmmAllocFrame.2) (hPs : P s.machine.pmm)
    (h : pagingInit sym (some boot) s = (.ok root, s')) :
    P s'.machine.pmm ∧ checkLayout (some boot) = .ok (boot, s'.directLimit) ∧
      s.machine.pmm.freeFrames ≤
        s'.machine.pmm.freeFrames + spaceCost boot sym s'.directLimit := by
  obtain ⟨limit, machine, hcheck, hrun, rfl⟩ := pagingInit_cases h
  have hc := (checkLayout_eq_ok hcheck).2
  let c : Surroundings := { surroundings hc hp ∅ s.machine.mem with
    reached := P, reached_alloc := hP }
  have hkept : Kept c s.machine :=
    { kept_of_reached hc hp hs (Set.empty_disjoint _) with reached := hPs }
  obtain ⟨hok, -⟩ := mapKernelSpace_triple (c := c) sym hc.toDirectOk s.machine
    ⟨hkept, le_refl s.machine.pmm.freeFrames⟩
  obtain ⟨hmaps, hcount⟩ := hok _ _ hrun
  exact ⟨hmaps.reached, hcheck, Nat.sub_le_iff_le_add.mp hcount⟩

/-- The direct limit that a successful `paging_init` sets. -/
lemma pagingInit_directLimit {s s' : Paging} {root : ℕ}
    (h : pagingInit sym (some boot) s = (.ok root, s'))
    (hcheck : checkLayout (some boot) = .ok (boot, limit)) : s'.directLimit = limit := by
  obtain ⟨limit', machine, hcheck', -, rfl⟩ := pagingInit_cases h
  have heq := hcheck'.symm.trans hcheck
  simp only [Except.ok.injEq, Prod.mk.injEq, true_and] at heq
  exact heq

/-- **`paging_init` succeeds** when the layout is sound and the allocator has the
frames. -/
theorem pagingInit_ok {pmm : Pmm} (hp : Pmm.pmmInit (some boot) = (.ok, pmm)) {s : Paging}
    (hs : PmmReached pmm s.machine.pmm)
    (hcheck : checkLayout (some boot) = .ok (boot, limit)) (hlayout : LayoutOk boot sym limit)
    (hfree : spaceCost boot sym limit ≤ s.machine.pmm.freeFrames) :
    ∃ root s', pagingInit sym (some boot) s = (.ok root, s') := by
  obtain ⟨-, hc⟩ := checkLayout_eq_ok hcheck
  have hkept := kept_of_reached hc hp hs (Set.empty_disjoint _)
  obtain ⟨-, herr⟩ := mapKernelSpace_triple sym hc.toDirectOk s.machine
    ⟨hkept, le_refl s.machine.pmm.freeFrames⟩
  rw [pagingInit, hcheck]
  simp only
  split
  case h_1 status machine hrun =>
    have hfew : s.machine.pmm.freeFrames < spaceCost boot sym limit :=
      herr status machine hrun trivial hlayout
    omega
  case h_2 root machine hrun => exact ⟨root, _, rfl⟩

/-! ### A concrete boot -/

/-- The sections of the image of `eightMiBBoot`: two pages of `.text`, one each of
`.rodata`, `.data` and stack. -/
def eightMiBSymbols : KernelSymbols where
  textStart := 0xffffffff80000000
  textEnd := 0xffffffff80002000
  rodataStart := 0xffffffff80002000
  rodataEnd := 0xffffffff80003000
  dataStart := 0xffffffff80003000
  dataEnd := 0xffffffff80004000
  stackStart := 0xffffffff80004000
  stackEnd := 0xffffffff80005000

/-- The statics of `paging.c` before `paging_init`, in a machine with cleared memory
whose allocator has just been initialised from `eightMiBBoot`. -/
def eightMiBStart : Paging where
  machine := ⟨fun _ => 0, (Pmm.pmmInit (some eightMiBBoot)).2⟩
  activeBoot := none
  rootPhys := 0
  directLimit := 0
  mmioNext := mmioBase
  tempMapped := false

lemma eightMiB_pmmInit :
    Pmm.pmmInit (some eightMiBBoot) = (.ok, eightMiBStart.machine.pmm) := Prod.ext (by decide) rfl

lemma eightMiB_placed : ImagePlaced eightMiBBoot eightMiBSymbols := by
  refine ⟨by decide, by decide, by decide, fun x => ?_⟩
  have hps : pmmPageSize = 4096 := rfl
  rw [Pmm.pageMeets, Pmm.pageMeets, hps]
  simp only [eightMiBBoot]
  omega

/-- It passes the checks. -/
lemma eightMiB_checkLayout :
    checkLayout (some eightMiBBoot) = .ok (eightMiBBoot, 0x800000) := by
  rw [checkLayout, if_neg (by decide), if_neg (by decide),
    show physicalMapLimit eightMiBBoot = some 0x800000 by decide]
  simp only
  rw [if_neg (by decide)]

/-- `paging_init` succeeds on it. -/
lemma eightMiB_pagingInit :
    ∃ root s, pagingInit eightMiBSymbols (some eightMiBBoot) eightMiBStart = (.ok root, s) := by
  have hcheck := eightMiB_checkLayout
  have hc := (checkLayout_eq_ok hcheck).2
  have hk : pageSize ∣ eightMiBBoot.kernelVirtStart := by decide
  have hsym : ∀ v ∈ [eightMiBSymbols.textStart, eightMiBSymbols.textEnd,
      eightMiBSymbols.rodataStart, eightMiBSymbols.rodataEnd, eightMiBSymbols.dataStart,
      eightMiBSymbols.dataEnd, eightMiBSymbols.stackStart, eightMiBSymbols.stackEnd],
      pageSize ∣ v := by decide
  refine pagingInit_ok eightMiB_pmmInit ⟨[], rfl⟩ hcheck
    (layoutOk_of_placed hc eightMiB_placed hk hsym ?_ ?_) (by decide)
  · intro r hr r' hr' v hv hv'
    obtain ⟨-, -, h1, h2⟩ := hv
    obtain ⟨-, -, h3, h4⟩ := hv'
    rw [alignDown_of_dvd (sections_bounds hk hsym hr).1] at h1
    rw [alignDown_of_dvd (sections_bounds hk hsym hr').1] at h3
    simp only [sections, eightMiBSymbols, eightMiBBoot, List.mem_cons, List.not_mem_nil,
      or_false] at hr hr'
    rcases hr with rfl | rfl | rfl | rfl | rfl <;>
      rcases hr' with rfl | rfl | rfl | rfl | rfl <;>
      first | rfl | (simp only at h1 h2 h3 h4; omega)
  · intro a ha v hv hv'
    simp only [eightMiBBoot, pageNumber] at hv hv' ⊢
    omega

end Paging

end JoshOS
