import JoshOS.Heap.System
import JoshOS.Paging.Failure

/-!
Failed device mappings in the memory system.

* `Spotless`: the condition under which a mapping of device memory leaves no trace when it
  fails.
* `Reached`, `Reached.step`: along runs that obey it the rest of the device area is vacant.
* `failed_mmio_traces`: the condition is exact, and in such runs a mapping fails only for lack
  of room or of frames.
* `failed_mmio_blocks_window`: a mapping that fails for lack of a frame stays in the way of
  the next one.
-/

namespace JoshOS

open Paging Words Spans Heap

namespace Kernel

/-- The condition on a call, in the state before it: of the window of device memory that is to
be mapped, every page is mapped already before the first one that does not fit, because it
holds something else or because the tables missing up to it are more than the free frames. -/
def Spotless (k : Kernel) : Call → Prop
  | .paging (.mapMmio phys size) => ∀ done, k.heap.world.GivesUp phys.toNat size.toNat done →
      ∀ d < done, pageSize ∣ d → k.heap.world.Present (k.heap.world.mmioNext + d)
  | _ => True

section Run

variable {boot : BootContext} {pmm₀ : Pmm} {limit : ℕ} {k : Kernel}
  {hp : Pmm.pmmInit (some boot) = (.ok, pmm₀)} {hc : Checked boot limit}

/-- The kernel is in order, and the rest of the device area is vacant. -/
def Reached (hp : Pmm.pmmInit (some boot) = (.ok, pmm₀)) (hc : Checked boot limit)
    (k : Kernel) : Prop :=
  (∃ R bs regions, Good hp hc k R bs regions) ∧ k.heap.world.Vacant

/-- The step lemma. -/
lemma Reached.step (h : Reached hp hc k) {call : Call}
    (hrule : Legal boot k call ∧ Spotless k call) : Reached hp hc (k.step call).2 := by
  obtain ⟨⟨R, bs, regions, hgood⟩, hvacant⟩ := h
  refine ⟨hgood.step hrule.1, ?_⟩
  by_cases hcall : ∃ pagingCall, call = .paging pagingCall
  · obtain ⟨pagingCall, rfl⟩ := hcall
    refine hvacant.step hgood.fed.ready pagingCall ?_
    rintro phys size rfl
    exact (traceless_iff hgood.fed.ready trivial _ _).mpr hrule.2
  · obtain ⟨bs', regions', hgood', hnext⟩ := hgood.past_paging hrule.1 (not_exists.mp hcall)
    exact hvacant.congr hnext (hgood.fed.ready.pagingQuery_congr hgood'.fed.ready)

end Run

/-- **What a failed device mapping leaves behind.**  In every state that the kernel can reach
after `paging_init`, a `paging_map_mmio` that returns null leaves the bump pointer and the
answers of `paging_query` as they were if and only if every page of its window before the
first one that does not fit was mapped already.  If that was so for every call of the run, and
`paging_init` has mapped nothing in the device area, then a call whose window has room there
fails exactly if more tables are missing on the way to its pages than frames are free. -/
theorem failed_mmio_traces {boot : BootContext} {sym : KernelSymbols} {pmm₀ : Pmm}
    {s w : Paging} {root : ℕ} {heap₀ heap : Heap Paging}
    (hp : Pmm.pmmInit (some boot) = (.ok, pmm₀)) (hs : PmmReached pmm₀ s.machine.pmm)
    (hpaging : pagingInit sym (some boot) s = (.ok root, w))
    (hheap : heapKernelInit (some boot) { heap₀ with mem := w.machine.mem, world := w } =
      (.ok, heap))
    (calls : List Call) (hlegal : Runs.Legal step (Legal boot) (start pmm₀ s heap) calls) :
    let k := Runs.final step (start pmm₀ s heap) calls
    (∀ phys size : UInt64, k.heap.world.Traceless phys.toNat size.toNat ↔
      Spotless k (.paging (.mapMmio phys size))) ∧
    (w.Vacant → Runs.Legal step Spotless (start pmm₀ s heap) calls →
      ∀ (phys size : UInt64) (span : ℕ),
        k.heap.world.mmioSpan phys.toNat size.toNat = some span →
        ((k.heap.world.pagingMapMmio phys.toNat size.toNat).1 = 0 ↔
          k.heap.world.machine.pmm.freeFrames < (missing boot k.heap.world.rootPhys
            (windowPages k.heap.world.mmioNext span) k.heap.world.machine.mem).card)) := by
  obtain ⟨limit, hc, hgood⟩ := start_good hp hs hpaging hheap
  intro k
  refine ⟨fun phys size => ?_, fun hvacant hspotless phys size span hspan => ?_⟩
  · obtain ⟨R, bs, regions, hreached⟩ := hgood.run hlegal
    exact Paging.traceless_iff hreached.fed.ready trivial _ _
  · have hstart : Reached hp hc (start pmm₀ s heap) := by
      refine ⟨⟨_, _, _, hgood⟩, ?_⟩
      rw [start, heapKernelInit_eq_ok hheap]
      exact hvacant
    obtain ⟨⟨R, bs, regions, hreached⟩, hrest⟩ : Reached hp hc k :=
      Runs.legal_induction step (fun _ _ h hrule => h.step hrule) hstart
        (Runs.legal_and step _ hlegal hspotless)
    have hframes := hrest.mapMmio hreached.fed.ready trivial hspan
    exact hframes

/-! ### A window that is blocked -/

/-- Taking one frame. -/
lemma freeFrames_allocFrame {pmm : Pmm} (h : pmm.Inv) :
    (pmm.step .allocFrame).2.freeFrames = pmm.freeFrames - 1 := by
  change pmm.pmmAllocFrame.2.freeFrames = _
  cases hg : pmm.pmmAllocFrame.1 with
  | none =>
    obtain ⟨hsame, hzero⟩ := pmmAllocFrame_none h hg
    rw [hsame, hzero]
  | some g =>
    have hcount := (pmmAllocFrame_some h hg).2.2.2.2.2
    omega

section Drain

variable {boot : BootContext} {pmm₀ : Pmm} {limit : ℕ} {k : Kernel}
  {hp : Pmm.pmmInit (some boot) = (.ok, pmm₀)} {hc : Checked boot limit}
  {R : ℕ → Leaf → Prop} {bs : List Block} {regions : List Span}

/-- Clients that take `n` frames change nothing but the allocator. -/
lemma Good.drain (h : Good hp hc k R bs regions) (n : ℕ) :
    Runs.Legal Kernel.step (Legal boot) k (List.replicate n (.pmm .allocFrame)) ∧
      ∃ k', Runs.final Kernel.step k (List.replicate n (.pmm .allocFrame)) = k' ∧
        Good hp hc k' R bs regions ∧
        k'.heap.world.machine.mem = k.heap.world.machine.mem ∧
        k'.heap.world.rootPhys = k.heap.world.rootPhys ∧
        k'.heap.world.mmioNext = k.heap.world.mmioNext ∧
        k'.heap.world.machine.pmm.freeFrames = k.heap.world.machine.pmm.freeFrames - n := by
  induction n generalizing k with
  | zero => exact ⟨trivial, k, rfl, h, rfl, rfl, rfl, rfl⟩
  | succ n ih =>
    have hlegal : Legal boot k (.pmm .allocFrame) := Set.empty_subset _
    obtain ⟨hrest, k', hfinal, hgood, hmem, hroot, hnext, hfree⟩ := ih (h.pmmCall hlegal)
    refine ⟨⟨hlegal, hrest⟩, k', hfinal, hgood, hmem, hroot, hnext, hfree.trans ?_⟩
    have hone := freeFrames_allocFrame h.kept.inv
    change (k.heap.world.machine.pmm.step .allocFrame).2.freeFrames - n = _
    omega

end Drain

/-- The translations after one page at `mmioBase` has been mapped on the concrete boot. -/
def OnePage (n : ℕ) (leaf : Leaf) : Prop :=
  KernelMap eightMiBBoot eightMiBSymbols 0x800000 n leaf ∨
    MmioMap mmioBase 0xfee00000 pageSize n leaf

/-- Behind that page the device area is vacant. -/
lemma not_onePage {v : ℕ} (hle : mmioBase + pageSize ≤ v) (hlt : v < mmioLimit)
    (leaf : Leaf) : ¬ OnePage (pageNumber v) leaf := by
  rintro (hkernel | hpage)
  · obtain ⟨d, rfl⟩ := Nat.exists_eq_add_of_le ((Nat.le_add_right _ _).trans hle)
    have harea : mmioLimit = mmioBase + 0x40000000 := by decide
    exact eightMiB_device_area (by omega) leaf hkernel
  · exact not_mmioMap_above (le_refl _) (by decide) (dvd_refl _) hle hlt hpage

/-- The page directory entry behind that of the first page of the device area. -/
def secondTable : ℕ := pageNumber (mmioBase + 0x200000) / 512

/-- Mapping the first page on the concrete boot adds no page table at the next directory
entry. -/
lemma eightMiB_secondTable {root : ℕ} {w : Paging}
    (h : pagingInit eightMiBSymbols (some eightMiBBoot) eightMiBStart =
      (.ok root, w)) :
    Radix.Shape.tableAt pageShape
      (entries eightMiBBoot (w.pagingMapMmio 0xfee00020 4).2.machine.mem)
      (w.pagingMapMmio 0xfee00020 4).2.rootPhys 3 secondTable = none := by
  obtain ⟨limit, hc, hactive, hlimit, hnext, hmaps⟩ := pagingInit_maps
    eightMiB_pmmInit ⟨[], rfl⟩ (Set.empty_disjoint _) h
  obtain rfl : 0x800000 = limit :=
    (pagingInit_directLimit h eightMiB_checkLayout).symm.trans hlimit
  -- no page of the kernel lies below that entry
  have hclear : tabledBy (KernelMap eightMiBBoot eightMiBSymbols 0x800000) ⊆
      {secondTable}ᶜ := by
    rintro m ⟨n, leaf, hkernel, rfl⟩ hm
    have hn : n = pageNumber (mmioBase + (0x200000 + 4096 * (n % 512))) := by
      have hm' : n / 512 = secondTable := hm
      simp only [secondTable, pageNumber, mmioBase] at hm' ⊢
      omega
    rw [hn] at hkernel
    exact eightMiB_device_area (by omega) leaf hkernel
  have htab : ∀ d < pageSize, pageNumber (mmioBase + d) / 512 ∈ ({secondTable}ᶜ : Set ℕ) := by
    intro d hd hm
    have hm' : pageNumber (mmioBase + d) / 512 = secondTable := hm
    simp only [secondTable, pageNumber, mmioBase, pageSize] at hm' hd
    omega
  have hlt : secondTable < 512 ^ 3 := by decide
  have hstart := hmaps.mono hclear
  obtain ⟨hok, herr⟩ := mmioLoop_triple w.mmioNext (alignDown 0xfee00020 pageSize)
    (dvd_refl pageSize) (fun d hd => hnext ▸ htab d hd) w.machine hstart
  rw [pagingMapMmio_eq hactive]
  cases hspan : w.mmioSpan 0xfee00020 4 with
  | none =>
    dsimp only
    exact hstart.no_table hlt
  | some span =>
    obtain rfl : pageSize = span :=
      Option.some.inj ((by decide : _ = some pageSize).symm.trans (mmioSpan_eq_some hspan).2.1)
    dsimp only
    rcases hall : Hoare.outcome (w.mmioLoop eightMiBBoot 0xfee00020 pageSize) w.machine with
      ⟨status | _, machine⟩
    · obtain ⟨done, -, hm⟩ := herr status machine hall
      exact hm.no_table hlt
    · exact (hok () machine hall).1.no_table hlt

/-- One page of device memory is mapped, its page table is the only one there, and no frame is
free. -/
structure Dry (c : Surroundings) (v : Paging) : Prop where
  boot : c.boot = eightMiBBoot
  strict : c.strict
  ready : Ready c 0x800000 OnePage v
  next : v.mmioNext = mmioBase + pageSize
  frames : v.machine.pmm.freeFrames = 0
  table : Radix.Shape.tableAt pageShape (entries eightMiBBoot v.machine.mem) v.rootPhys 3
    secondTable = none

/-- The first page of device memory on the concrete boot. -/
lemma Good.firstPage {hc : Checked eightMiBBoot 0x800000} {k : Kernel}
    (h : Good eightMiB_pmmInit hc k (KernelMap eightMiBBoot eightMiBSymbols 0x800000) [] [])
    (hnext : k.heap.world.mmioNext = mmioBase)
    (hvirt : (k.heap.world.pagingMapMmio 0xfee00020 4).1 = mmioBase + 0x20) :
    Good eightMiB_pmmInit hc (k.step (.paging (.mapMmio 0xfee00020 4))).2 OnePage [] [] ∧
      (k.step (.paging (.mapMmio 0xfee00020 4))).2.heap.world.mmioNext = mmioBase + pageSize := by
  have houtcome := pagingMapMmio_outcome h.fed.ready 0xfee00020 4
  have hstep : k.heap.world.step (.mapMmio 0xfee00020 4) =
      k.heap.world.pagingMapMmio 0xfee00020 4 := rfl
  generalize k.heap.world.pagingMapMmio 0xfee00020 4 = r at houtcome hvirt hstep
  cases houtcome with
  | failed t done => exact absurd hvirt (show (0 : ℕ) ≠ mmioBase + 0x20 by decide)
  | mapped t span hsize hspan hmoved hready =>
    obtain rfl : pageSize = span :=
      Option.some.inj ((by decide : _ = some pageSize).symm.trans hspan)
    rw [hnext] at hmoved hready
    refine ⟨h.pagingCall (by rw [hstep]; exact hready), ?_⟩
    change (k.heap.world.step (.mapMmio 0xfee00020 4)).2.mmioNext = _
    rw [hstep]
    exact hmoved

/-- The concrete boot after a first page has been mapped and the frames have been taken. -/
lemma eightMiB_dry : ∃ root w heap n,
    pagingInit eightMiBSymbols (some eightMiBBoot) eightMiBStart =
      (.ok root, w) ∧
    heapKernelInit (some eightMiBBoot) { eightMiBHeap with mem := w.machine.mem, world := w } =
      (.ok, heap) ∧
    let k₀ := start eightMiBStart.machine.pmm eightMiBStart heap
    let calls := Call.paging (.mapMmio 0xfee00020 4) :: List.replicate n (.pmm .allocFrame)
    let v := (Runs.final step k₀ calls).heap.world
    Runs.Legal step (Legal eightMiBBoot) k₀ calls ∧ ∃ c, Dry c v := by
  obtain ⟨root, w, hpaging⟩ := eightMiB_pagingInit
  obtain ⟨heap, hheap⟩ :=
    heapKernelInit_ok eightMiB_pmmInit ⟨[], rfl⟩ hpaging eightMiBHeap
  obtain ⟨limit, hc, hgood⟩ := start_good eightMiB_pmmInit ⟨[], rfl⟩ hpaging hheap
  have hworld : heap.world = w := by rw [heapKernelInit_eq_ok hheap]
  have hnone := eightMiB_secondTable hpaging
  have hvirt := eightMiB_pagingMapMmio hpaging
  have hnext : w.mmioNext = mmioBase := by
    obtain ⟨_, _, _, _, rfl⟩ := pagingInit_cases hpaging
    rfl
  obtain rfl : 0x800000 = limit := by
    rw [← pagingInit_directLimit hpaging eightMiB_checkLayout, ← hworld]
    exact hgood.fed.ready.limit_eq
  set k₀ := start eightMiBStart.machine.pmm eightMiBStart heap
  have hone := hgood.firstPage (hworld ▸ hnext) (hworld ▸ hvirt)
  obtain ⟨hlegal, k, hfinal, hgood', hmem, hroot, hnext', hfree⟩ := hone.1.drain
    (k₀.step (.paging (.mapMmio 0xfee00020 4))).2.heap.world.machine.pmm.freeFrames
  refine ⟨root, w, heap, _, hpaging, hheap, ⟨trivial, hlegal⟩, ?_⟩
  rw [Runs.final_cons, hfinal]
  refine ⟨_, rfl, trivial, hgood'.fed.ready, hnext'.trans hone.2, by omega, ?_⟩
  rw [hmem, hroot]
  rw [← hworld] at hnone
  exact hnone

section Dry

variable {c : Surroundings} {v : Paging} (h : Dry c v)

include h

/-- There is room for a window that ends in the first page table, but not for one that takes
its last page from the next one. -/
lemma Dry.fits (phys : ℕ) : v.Fits phys 0x1ff000 ∧ ¬ v.Fits phys 0x200000 := by
  have harea : mmioLimit = mmioBase + 0x40000000 := by decide
  have hps : pageSize = 4096 := rfl
  have hnext := h.next
  constructor
  · refine ⟨_, h.ready.active, fun d hd _ leaf hleaf => ?_, ?_⟩
    · refine absurd ((h.ready.maps.leaf _ (pageNumber_lt _) leaf).mp hleaf)
        (not_onePage ?_ ?_ leaf)
      all_goals omega
    · rw [missing_eq_empty h.ready.maps fun u hu => ?_, Finset.card_empty]
      · exact Nat.zero_le _
      obtain ⟨d, hd, -, rfl⟩ := mem_windowPages.mp hu
      refine ⟨mmioBase, _, ?_, .inr ⟨0, by decide, dvd_zero _, rfl, rfl⟩⟩
      rw [hnext]
      simp only [pageNumber, mmioBase, pageSize] at *
      omega
  · rintro ⟨boot, hactive, -, hframes⟩
    obtain rfl : eightMiBBoot = boot :=
      h.boot.symm.trans (Option.some.inj (h.ready.active.symm.trans hactive))
    rw [h.frames, Nat.le_zero, Finset.card_eq_zero] at hframes
    refine Finset.notMem_empty (3, secondTable) (hframes ▸ mem_missing.mpr ⟨⟨_,
      mem_windowPages.mpr ⟨0x1ff000, by decide, by decide, rfl⟩, ?_⟩, by decide, h.table⟩)
    rw [hnext]
    rfl

omit h in
lemma mmioSpan_dry (hroot : v.rootPhys ≠ 0) (hnext : v.mmioNext = mmioBase + pageSize) :
    v.mmioSpan 0xfe000000 0x200000 = some 0x200000 ∧
      v.mmioSpan 0xfed00000 0x1000 = some pageSize := by
  rw [mmioSpan, mmioSpan, hnext]
  simp only [hroot, false_or]
  decide

lemma Dry.givesUp : v.GivesUp 0xfe000000 0x200000 0x1ff000 :=
  ⟨_, (mmioSpan_dry h.ready.rootPhys_ne_zero h.next).1, by decide, by decide, (h.fits _).1,
    (h.fits _).2⟩

/-- A window of 512 pages fails at its last page, its other pages stay mapped, and they are in
the way of a page that could have been mapped before. -/
lemma Dry.blocked :
    let r := v.pagingMapMmio 0xfe000000 0x200000
    r.1 = 0 ∧ ¬ v.Present (mmioBase + pageSize) ∧ r.2.Present (mmioBase + pageSize) ∧
      (v.pagingMapMmio 0xfed00000 0x1000).1 ≠ 0 ∧
      (r.2.pagingMapMmio 0xfed00000 0x1000).1 = 0 := by
  have hnext := h.next
  obtain ⟨t, heq, hnext', hready'⟩ := h.givesUp.outcome_eq h.ready h.strict
  have hpage := (mmioSpan_dry h.ready.rootPhys_ne_zero hnext).2
  have hpage' := (mmioSpan_dry hready'.rootPhys_ne_zero (hnext'.trans hnext)).2
  have hleaf : MmioMap v.mmioNext 0xfe000000 0x1ff000 (pageNumber (mmioBase + pageSize))
      ⟨smallEntry (wrap64 0xfe000000) mmioFlags, false⟩ :=
    ⟨0, by decide, dvd_zero _, by rw [hnext]; rfl, rfl⟩
  intro r
  have hr : r = (0, t) := heq
  rw [hr]
  refine ⟨rfl, ?_, ?_, ?_, ?_⟩
  · rw [h.ready.present_iff]
    rintro ⟨leaf, hold⟩
    exact not_onePage (le_refl _) (by decide) leaf hold
  · exact (hready'.present_iff _).mpr ⟨_, .inr hleaf⟩
  · -- the page would have gone into the page table that is there
    exact (pagingMapMmio_iff h.ready h.strict hpage).mpr ((h.fits _).1.mono (by decide))
  · by_contra hne
    obtain ⟨boot, hactive, hfree, -⟩ := (pagingMapMmio_iff hready' h.strict hpage').mp hne
    obtain rfl : c.boot = boot := Option.some.inj (hready'.active.symm.trans hactive)
    have hwanted := hfree 0 (by decide) (dvd_zero _) _
      ((hready'.maps.leaf _ (pageNumber_lt _) _).mpr (.inr (hnext'.trans hnext ▸ hleaf)))
    revert hwanted
    decide

end Dry

/-- On the concrete boot: the window of 512 pages leaves a trace when it fails, and the page
that is then in the way of the next device is why that one leaves none. -/
theorem failed_mmio_traces_eightMiB : ∃ root w heap n,
    pagingInit eightMiBSymbols (some eightMiBBoot) eightMiBStart = (.ok root, w) ∧
    heapKernelInit (some eightMiBBoot) { eightMiBHeap with mem := w.machine.mem, world := w } =
      (.ok, heap) ∧
    let k₀ := start eightMiBStart.machine.pmm eightMiBStart heap
    let calls := Call.paging (.mapMmio 0xfee00020 4) :: List.replicate n (.pmm .allocFrame)
    let v := (Runs.final step k₀ calls).heap.world
    let r := v.pagingMapMmio 0xfe000000 0x200000
    r.1 = 0 ∧ ¬ v.Traceless 0xfe000000 0x200000 ∧
      (r.2.pagingMapMmio 0xfed00000 0x1000).1 = 0 ∧ r.2.Traceless 0xfed00000 0x1000 := by
  obtain ⟨root, w, heap, n, hpaging, hheap, hlegal, c, hdry⟩ := eightMiB_dry
  refine ⟨root, w, heap, n, hpaging, hheap, ?_⟩
  intro k₀ calls v r
  obtain ⟨hnull, hfree, -, -, hblocked⟩ := hdry.blocked
  refine ⟨hnull, fun htrace => ?_, hblocked, ?_⟩
  · have hspotless := ((failed_mmio_traces eightMiB_pmmInit ⟨[], rfl⟩ hpaging hheap calls hlegal).1
      0xfe000000 0x200000).mp htrace
    have hpresent := hspotless _ hdry.givesUp 0 (by decide) (dvd_zero _)
    change v.Present (v.mmioNext + 0) at hpresent
    rw [hdry.next] at hpresent
    exact hfree hpresent
  · have hlegal' : Runs.Legal step (Legal eightMiBBoot) k₀
        (calls ++ [.paging (.mapMmio 0xfe000000 0x200000)]) :=
      (Runs.legal_append ..).mpr ⟨hlegal, trivial, trivial⟩
    have hiff := (failed_mmio_traces eightMiB_pmmInit ⟨[], rfl⟩ hpaging hheap _ hlegal').1
      0xfed00000 0x1000
    rw [Runs.final_append] at hiff
    refine hiff.mpr fun done hg d hd => ?_
    obtain ⟨span, hspan, hlt, hdvd, -⟩ := hg
    obtain rfl : pageSize = span :=
      Option.some.inj ((by decide : _ = some pageSize).symm.trans (mmioSpan_eq_some hspan).2.1)
    exact absurd (Nat.eq_zero_of_dvd_of_lt hdvd hlt ▸ hd) (Nat.not_lt_zero d)

/-- **A failed mapping in the way of the next one.**  One page of device memory is mapped and
clients take all frames.  A window of 512 pages then fails at its last page, the first one of
another page table, and its other pages stay mapped.  The next device, whose one page would
have been mapped without a frame before, cannot be mapped any more. -/
theorem failed_mmio_blocks_window : ∃ root w heap n,
    pagingInit eightMiBSymbols (some eightMiBBoot) eightMiBStart =
      (.ok root, w) ∧
    heapKernelInit (some eightMiBBoot) { eightMiBHeap with mem := w.machine.mem, world := w } =
      (.ok, heap) ∧
    let k₀ := start eightMiBStart.machine.pmm eightMiBStart heap
    let calls := Call.paging (.mapMmio 0xfee00020 4) :: List.replicate n (.pmm .allocFrame)
    let v := (Runs.final step k₀ calls).heap.world
    let r := v.pagingMapMmio 0xfe000000 0x200000
    Runs.Legal step (Legal eightMiBBoot) k₀ calls ∧
      r.1 = 0 ∧ ¬ v.Present (mmioBase + pageSize) ∧ r.2.Present (mmioBase + pageSize) ∧
      (v.pagingMapMmio 0xfed00000 0x1000).1 ≠ 0 ∧ (r.2.pagingMapMmio 0xfed00000 0x1000).1 = 0 := by
  obtain ⟨root, w, heap, n, hpaging, hheap, hlegal, c, hdry⟩ := eightMiB_dry
  exact ⟨root, w, heap, n, hpaging, hheap, hlegal, hdry.blocked⟩

end Kernel

end JoshOS
