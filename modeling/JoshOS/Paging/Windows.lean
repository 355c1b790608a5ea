import JoshOS.Paging.Frames

/-!
Device memory stays where it was mapped.

A call of `paging_map_mmio` that returns an address gives out a window.  The bump pointer
only moves up, past the pages of the window, and no other call touches a page below it but
the one page of the temporary window, which lies elsewhere.

* `Window`, `noteWindow`: the windows given out along a run.
* `Window.Mapped`: the translations of a window; `mapped_of_outcome` for a new one.
* `Windowed`, `Windowed.step`: the invariant of the windows and one call.
* `mmio_windows_stay`: every window of a run lies in the device area, apart from the others,
  and leads to its physical addresses for good.
-/

namespace JoshOS

open Words Memory Radix Spans Hoare

namespace Paging

variable {c : Surroundings} {boot : BootContext} {sym : KernelSymbols} {limit : ℕ}
  {R R' : ℕ → Leaf → Prop} {s : Paging}

/-! ### Windows -/

/-- A window of device memory: the address returned for `size` bytes at `phys`. -/
structure Window where
  virt : ℕ
  phys : ℕ
  size : ℕ

/-- The windows given out, the newest first: a call that returns an address adds one. -/
def noteWindow (ws : List Window) : Call × ℕ → List Window
  | (.mapMmio phys size, virt) => if virt = 0 then ws else ⟨virt, phys.toNat, size.toNat⟩ :: ws
  | (.tempMap _, _) => ws
  | (.tempUnmap, _) => ws

/-- The windows given out along a run. -/
def windows (trace : List (Call × ℕ)) : List Window := trace.foldl noteWindow []

/-- Two windows have no page in common. -/
def Window.Apart (w w' : Window) : Prop :=
  ∀ i < w.size, ∀ j < w'.size, (w.virt + i) / pageSize ≠ (w'.virt + j) / pageSize

/-- The window lies between `mmioBase` and the bump pointer, and `R` translates its pages to
those of its physical addresses. -/
structure Window.Mapped (R : ℕ → Leaf → Prop) (next : ℕ) (w : Window) : Prop where
  base_le : mmioBase ≤ w.virt
  stop_le : w.virt + w.size ≤ next
  leaf : ∀ i < w.size, w.virt % pageSize = w.phys % pageSize ∧
    R (pageNumber (w.virt + i)) ⟨smallEntry (wrap64 (alignDown (w.phys + i) pageSize)) mmioFlags,
      false⟩

/-- A mapped window stays mapped when the translations of its pages stay and the bump pointer
moves up. -/
lemma Window.Mapped.mono {w : Window} {next next' : ℕ} (h : w.Mapped R next) (hle : next ≤ next')
    (hkeep : ∀ v, mmioBase ≤ v → v < next → ∀ leaf, R (pageNumber v) leaf →
      R' (pageNumber v) leaf) : w.Mapped R' next' where
  base_le := h.base_le
  stop_le := h.stop_le.trans hle
  leaf i hi := by
    have h1 := h.base_le
    have h2 := h.stop_le
    exact ⟨(h.leaf i hi).1, hkeep _ (by omega) (by omega) _ (h.leaf i hi).2⟩

/-- The window of a call that maps all of its pages. -/
lemma mapped_of_outcome (h : Ready c limit R s) {phys size span : ℕ}
    (hspan : alignUp (phys - alignDown phys pageSize + size) pageSize = some span) :
    Window.Mapped
      (fun n leaf => R n leaf ∨ MmioMap s.mmioNext (alignDown phys pageSize) span n leaf)
      (s.mmioNext + span) ⟨s.mmioNext + (phys - alignDown phys pageSize), phys, size⟩ := by
  have hps : pageSize = 4096 := rfl
  have hphys := alignDown_le phys pageSize
  obtain ⟨hdvd, hle, -⟩ := alignUp_eq_some (by decide) hspan
  obtain ⟨a, ha⟩ := dvd_alignDown phys pageSize
  obtain ⟨b, hb⟩ := h.next_dvd
  refine ⟨h.next_ge.trans (Nat.le_add_right _ _), ?_, fun i hi => ⟨?_, .inr ?_⟩⟩
  · dsimp only
    omega
  · rw [hps] at *
    dsimp only
    omega
  · -- the page of byte `i` is the one mapped in the round `done = d`
    dsimp only at hi ⊢
    have hoffset := alignDown_le (phys - alignDown phys pageSize + i) pageSize
    refine ⟨alignDown (phys - alignDown phys pageSize + i) pageSize, by omega,
      dvd_alignDown _ _, ?_, ?_⟩
    · simp only [pageNumber, alignDown, hb, hps]
      omega
    · have hround : alignDown (phys + i) pageSize =
          alignDown phys pageSize + alignDown (phys - alignDown phys pageSize + i) pageSize := by
        simp only [alignDown, hps]
        omega
      rw [hround]

/-- A mapped window below the physical address width is reported as it was asked for. -/
lemma Window.Mapped.query {w : Window} {next : ℕ} (hw : w.Mapped R next)
    (h : Ready c limit R s) (hwidth : w.phys + w.size ≤ 2 ^ 52) {i : ℕ} (hi : i < w.size) :
    ∃ m, pagingQuery s (w.virt + i) = some m ∧ m.physicalAddress = w.phys + i ∧
      m.present = true ∧ m.writable = true ∧ m.executable = false ∧ m.cacheDisabled = true := by
  have hps : pageSize = 4096 := rfl
  obtain ⟨hoffset, hleaf⟩ := hw.leaf i hi
  have hdvd := dvd_alignDown (w.phys + i) pageSize
  have hle := alignDown_le (w.phys + i) pageSize
  rw [wrap64_of_lt (by omega)] at hleaf
  refine ⟨_, pagingQuery_of_leaf h hleaf, ?_, rfl, ?_, ?_, ?_⟩
  · have hframe := smallEntry_frame hdvd (show mmioFlags &&& pageMask = 0 by decide)
    simp only [leafMapping, hframe, Leaf.size, Bool.false_eq_true, if_false]
    rw [Nat.mod_eq_of_lt (by omega), alignDown]
    rw [hps] at hoffset ⊢
    omega
  · rw [writable_eq, smallEntry_testBit hdvd (by decide) (by decide)]
    decide
  · rw [executable_eq, smallEntry_nx (by decide)]
    rfl
  · rw [cacheDisabled_eq, smallEntry_testBit hdvd (by decide) (by decide)]
    decide

/-! ### Runs -/

/-- The windows given out are mapped and apart. -/
def Windowed (c : Surroundings) (limit : ℕ) (s : Paging) (ws : List Window) : Prop :=
  ∃ R, Ready c limit R s ∧ (∀ w ∈ ws, w.Mapped R s.mmioNext) ∧ ws.Pairwise Window.Apart

/-- Windows stay as they are when the bump pointer does not move down and their translations
stay. -/
lemma Windowed.keep {t : Paging} {ws : List Window} (hws : ∀ w ∈ ws, w.Mapped R s.mmioNext)
    (hapart : ws.Pairwise Window.Apart) (hnext : s.mmioNext ≤ t.mmioNext)
    (hready : Ready c limit R' t)
    (hkeep : ∀ v, mmioBase ≤ v → v < s.mmioNext → ∀ leaf, R (pageNumber v) leaf →
      R' (pageNumber v) leaf) : Windowed c limit t ws :=
  ⟨R', hready, fun w hw => (hws w hw).mono hnext hkeep, hapart⟩

/-- The page of the temporary window is not one of the device area. -/
lemma setLeaf_tempMapBase {next e v : ℕ} (hnext : next ≤ mmioLimit) (hbase : mmioBase ≤ v)
    (hlt : v < next) {leaf : Leaf} (h : R (pageNumber v) leaf) :
    setLeaf R (pageNumber tempMapBase) e (pageNumber v) leaf := by
  have hne : pageNumber v ≠ pageNumber tempMapBase := by
    simp only [pageNumber, mmioBase, mmioLimit, tempMapBase] at *
    omega
  rw [setLeaf, if_neg hne]
  exact h

lemma pagingTempMap_mmioNext (s : Paging) (phys : ℕ) :
    (pagingTempMap s phys).2.mmioNext = s.mmioNext := by
  rw [pagingTempMap]
  split
  · rfl
  split
  · rfl
  dsimp only
  split <;> rfl

lemma pagingTempUnmap_mmioNext (s : Paging) : (pagingTempUnmap s).mmioNext = s.mmioNext := by
  rw [pagingTempUnmap]
  split
  · rfl
  split
  · rfl
  split <;> rfl

/-- The step lemma. -/
lemma Windowed.step {ws : List Window} (h : Windowed c limit s ws) (call : Call) :
    Windowed c limit (Paging.step s call).2 (noteWindow ws (call, (Paging.step s call).1)) := by
  obtain ⟨R, hr, hws, hapart⟩ := h
  cases call with
  | mapMmio phys size =>
    have houtcome := pagingMapMmio_outcome hr phys.toNat size.toNat
    rw [Paging.step]
    generalize pagingMapMmio s phys.toNat size.toNat = r at houtcome
    cases houtcome with
    | failed t done hnext hready =>
      rw [noteWindow, if_pos rfl]
      exact Windowed.keep hws hapart hnext.ge hready fun v _ _ leaf => .inl
    | mapped t span hsize hspan hnext hready =>
      have hbase := hr.next_ge
      have hpos : 0 < mmioBase := by decide
      rw [noteWindow, if_neg (by omega)]
      refine ⟨_, hready, ?_, List.pairwise_cons.mpr ⟨fun w hw i hi j hj => ?_, hapart⟩⟩
      · rw [hnext]
        refine List.forall_mem_cons.mpr ⟨mapped_of_outcome hr hspan, fun w hw => ?_⟩
        exact (hws w hw).mono (Nat.le_add_right _ _) fun v _ _ leaf => .inl
      · -- the older window ends below the page the new one begins on
        have hstop := (hws w hw).stop_le
        obtain ⟨b, hb⟩ := hr.next_dvd
        have hps : pageSize = 4096 := rfl
        rw [hps] at hb ⊢
        dsimp only
        omega
  | tempMap phys =>
    have hnext := pagingTempMap_mmioNext s phys.toNat
    rcases pagingTempMap_ready hr phys.toNat_lt with hr' | hr'
    · exact Windowed.keep hws hapart hnext.ge hr' fun v _ _ leaf => id
    · exact Windowed.keep hws hapart hnext.ge hr' fun v hbase hlt leaf =>
        setLeaf_tempMapBase hr.next_le hbase hlt
  | tempUnmap =>
    have hnext := pagingTempUnmap_mmioNext s
    rcases pagingTempUnmap_ready hr with hr' | hr'
    · exact Windowed.keep hws hapart hnext.ge hr' fun v _ _ leaf => id
    · exact Windowed.keep hws hapart hnext.ge hr' fun v hbase hlt leaf =>
        setLeaf_tempMapBase hr.next_le hbase hlt

/-- **Device memory stays put.**  After `paging_init`, along every sequence of mapping calls,
every window that `paging_map_mmio` gave out lies in the device area and shares no page with
another one; and a window below the physical address width is reported, whatever calls came
after it, with its own physical addresses, present, writable, not executable and with caching
disabled. -/
theorem mmio_windows_stay {pmm₀ : Pmm} {s s' : Paging} {root : ℕ}
    (hp : Pmm.pmmInit (some boot) = (.ok, pmm₀)) (hs : PmmReached pmm₀ s.machine.pmm)
    (h : pagingInit sym (some boot) s = (.ok root, s')) (calls : List Call) :
    (∀ w ∈ windows (Runs.trace step s' calls), mmioBase ≤ w.virt ∧
      w.virt + w.size ≤ mmioLimit) ∧
    (windows (Runs.trace step s' calls)).Pairwise Window.Apart ∧
    ∀ w ∈ windows (Runs.trace step s' calls), w.phys + w.size ≤ 2 ^ 52 → ∀ i < w.size,
      ∃ m, pagingQuery (Runs.final step s' calls) (w.virt + i) = some m ∧
        m.physicalAddress = w.phys + i ∧ m.present = true ∧ m.writable = true ∧
        m.executable = false ∧ m.cacheDisabled = true := by
  obtain ⟨limit, hc, hr⟩ := pagingInit_ready hp hs (Set.empty_disjoint _) h
  obtain ⟨R, hready, hws, hapart⟩ : Windowed _ limit (Runs.final step s' calls)
      (windows (Runs.trace step s' calls)) :=
    Runs.ghost_induction step (fun _ _ call ht => ht.step call)
      ⟨_, hr, by simp, List.Pairwise.nil⟩ calls
  refine ⟨fun w hw => ⟨(hws w hw).base_le, (hws w hw).stop_le.trans hready.next_le⟩, hapart,
    fun w hw hwidth i hi => (hws w hw).query hready hwidth hi⟩

/-! ### A concrete window -/

/-- Nothing is mapped in the device area of the concrete boot. -/
lemma eightMiB_device_area {d : ℕ} (hd : d < 0x40000000) (leaf : Leaf) :
    ¬ KernelMap eightMiBBoot eightMiBSymbols 0x800000 (pageNumber (mmioBase + d)) leaf := by
  rintro (⟨a, ha, -, hn, -⟩ | ⟨r, hr, v, ⟨-, -, hstart, hstop⟩, hn, -⟩)
  · simp only [pageNumber, eightMiBBoot, mmioBase] at hn
    omega
  · have hbounds : 0xffffffff80000000 ≤ alignDown r.start pageSize ∧
        r.stop ≤ 0xffffffff80005000 := by
      simp only [sections, List.mem_cons, List.not_mem_nil, or_false] at hr
      rcases hr with rfl | rfl | rfl | rfl | rfl <;> decide
    simp only [pageNumber, mmioBase] at hn
    omega

/-- The first window of the concrete boot. -/
lemma eightMiB_pagingMapMmio {root : ℕ}
    (h : pagingInit eightMiBSymbols (some eightMiBBoot) eightMiBStart = (.ok root, s)) :
    (pagingMapMmio s 0xfee00020 4).1 = mmioBase + 0x20 := by
  obtain ⟨-, hcheck, hcost⟩ := pagingInit_keeps eightMiB_pmmInit ⟨[], rfl⟩
    (P := fun _ => True) (fun _ _ => trivial) trivial h
  obtain ⟨limit, hc, hr⟩ := pagingInit_ready eightMiB_pmmInit ⟨[], rfl⟩ (Set.empty_disjoint _) h
  have hnext : s.mmioNext = mmioBase := by
    obtain ⟨_, _, _, _, rfl⟩ := pagingInit_cases h
    rfl
  rw [eightMiB_checkLayout] at hcheck
  simp only [Except.ok.injEq, Prod.mk.injEq, true_and] at hcheck
  obtain rfl : limit = 0x800000 := hr.limit_eq.symm.trans hcheck.symm
  have hframes : eightMiBStart.machine.pmm.freeFrames = 1786 := by decide
  have hspace : spaceCost eightMiBBoot eightMiBSymbols 0x800000 ≤ 1700 := by decide
  rw [hframes, ← hcheck] at hcost
  have hroot := hr.rootPhys_ne_zero
  have hspan : mmioSpan s 0xfee00020 4 = some pageSize := by
    rw [mmioSpan, hnext]
    simp only [hroot, false_or]
    decide
  have hfits : Fits s 0xfee00020 pageSize := by
    refine ⟨_, hr.active, fun d hd _ leaf hleaf => ?_, ?_⟩
    · rw [hnext] at hleaf
      exact absurd ((hr.maps.leaf _ (pageNumber_lt _) leaf).mp hleaf)
        (eightMiB_device_area (hd.trans (by decide)) leaf)
    · rw [windowPages_pageSize]
      have hthree : (missing eightMiBBoot s.rootPhys {s.mmioNext} s.machine.mem).card ≤ 3 :=
        card_missing_le
      exact hthree.trans (by omega)
  have hne := (pagingMapMmio_iff hr trivial hspan).mpr hfits
  have houtcome := pagingMapMmio_outcome hr 0xfee00020 4
  generalize pagingMapMmio s 0xfee00020 4 = r at houtcome hne
  cases houtcome with
  | failed t done => exact absurd rfl hne
  | mapped t span => rw [hnext]; rfl

/-- Four bytes of a device register on the concrete boot, read after the temporary window has
been moved. -/
theorem mmio_windows_stay_eightMiB :
    ∃ root s, pagingInit eightMiBSymbols (some eightMiBBoot) eightMiBStart = (.ok root, s) ∧
      (windows (Runs.trace step s [.mapMmio 0xfee00020 4, .tempMap 0x123456])) =
        [⟨mmioBase + 0x20, 0xfee00020, 4⟩] ∧
      ∃ m, pagingQuery (Runs.final step s [.mapMmio 0xfee00020 4, .tempMap 0x123456])
          (mmioBase + 0x20 + 3) = some m ∧ m.physicalAddress = 0xfee00020 + 3 ∧
        m.present = true ∧ m.writable = true ∧ m.executable = false ∧ m.cacheDisabled = true := by
  obtain ⟨root, s, hrun⟩ := eightMiB_pagingInit
  have hwindows : windows (Runs.trace step s [.mapMmio 0xfee00020 4, .tempMap 0x123456]) =
      [⟨mmioBase + 0x20, 0xfee00020, 4⟩] := by
    have hone : windows (Runs.trace step s [.mapMmio 0xfee00020 4, .tempMap 0x123456]) =
        noteWindow [] (.mapMmio 0xfee00020 4, (step s (.mapMmio 0xfee00020 4)).1) := rfl
    have hphys : (0xfee00020 : UInt64).toNat = 0xfee00020 := by decide
    have hvirt : (step s (.mapMmio 0xfee00020 4)).1 = mmioBase + 0x20 := by
      rw [step, hphys]
      exact eightMiB_pagingMapMmio hrun
    rw [hone, hvirt, noteWindow, if_neg (by decide), hphys]
    rfl
  have hstay := (mmio_windows_stay eightMiB_pmmInit ⟨[], rfl⟩ hrun
    [.mapMmio 0xfee00020 4, .tempMap 0x123456]).2.2
  rw [hwindows] at hstay
  have hquery := hstay ⟨mmioBase + 0x20, 0xfee00020, 4⟩ List.mem_cons_self (by decide) 3 (by decide)
  exact ⟨root, s, hrun, hwindows, hquery⟩

end Paging

end JoshOS
