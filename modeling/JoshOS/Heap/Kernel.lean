import JoshOS.Heap.Spec
import JoshOS.Paging.Owners

/-!
The kernel heap: `heap_kernel.c`, which feeds the heap with frames through the direct
map.

* `kernelHeapGrow`, `heapKernelInit`: the model.
* `kernelHeapGrow_cases`: null and nothing happens, or frames through the direct map.
-/

namespace JoshOS

open Words Spans

/-- `KHEAP_MIN_GROW_PAGES`. -/
def kheapMinGrowPages : ℕ := 16

namespace Heap

/-! ### The model -/

/-- The number of pages that `kernel_heap_grow` asks for.  The rounding is not guarded
against overflow. -/
def growPages (minimumBytes : ℕ) : ℕ :=
  let pages := wrap64 (minimumBytes + pmmPageSize - 1) / pmmPageSize
  if pages < kheapMinGrowPages then kheapMinGrowPages else pages

/-- `kernel_heap_grow`; the answer is the pointer and `*actual_bytes_out`. -/
def kernelHeapGrow : HeapGrowFn Paging := fun minimumBytes s =>
  if minimumBytes = 0 then ((0, 0), s)
  else
    let pages := growPages minimumBytes
    if uint32Max < pages then ((0, 0), s)
    else
      match s.machine.pmm.pmmAllocFrames pages with
      | (none, pmm) => ((0, 0), { s with machine := { s.machine with pmm := pmm } })
      | (some physical, pmm) =>
        let s := { s with machine := { s.machine with pmm := pmm } }
        let virtualAddress := s.pagingDirectPointer physical
        if virtualAddress = 0 then
          let pmm := (s.machine.pmm.pmmFreeFrames physical pages).2
          ((0, 0), { s with machine := { s.machine with pmm := pmm } })
        else ((virtualAddress, pages * pmmPageSize), s)

/-- `heap_kernel_init`. -/
def heapKernelInit (boot : Option BootContext) (s : Heap Paging) : HeapStatus × Heap Paging :=
  if boot.isNone ∨ s.world.pagingKernelAddressSpace.isNone then (.badArgument, s)
  else heapInit (some kernelHeapGrow) s

/-! ### Rounding to pages -/

/-- Without overflow the pages hold what was asked for. -/
lemma le_growPages {k : ℕ} (h : k + 4095 < 2 ^ 64) : k ≤ growPages k * pmmPageSize := by
  have hps : pmmPageSize = 4096 := rfl
  have hmin : kheapMinGrowPages = 16 := rfl
  rw [growPages, hps, show k + 4096 - 1 = k + 4095 by omega, wrap64_of_lt h]
  split <;> omega

/-- A request within a page of the largest word becomes the smallest one. -/
lemma growPages_of_wrap {k : ℕ} (h : 2 ^ 64 ≤ k + 4095) (hk : k < 2 ^ 64) :
    growPages k = kheapMinGrowPages := by
  have hps : pmmPageSize = 4096 := rfl
  have hmin : kheapMinGrowPages = 16 := rfl
  rw [growPages, hps, show k + 4096 - 1 = k + 4095 by omega, wrap64]
  exact if_pos (by omega)

lemma growPages_pos (k : ℕ) : 0 < growPages k := by
  have hmin : kheapMinGrowPages = 16 := rfl
  rw [growPages]
  split <;> omega

/-! ### The callback -/

variable {c : Paging.Surroundings} {limit : ℕ} {R : ℕ → Paging.Leaf → Prop} {w : Paging}

/-- The allocator `pmm'` after `count` frames from `f` on have left `pmm`. -/
structure Taken (pmm pmm' : Pmm) (f count : ℕ) : Prop where
  run : pmm.pmmAllocFrames count = (some f, pmm')
  inv : pmm'.Inv
  managed : pmm'.managedRanges = pmm.managedRanges
  aligned : pmmPageSize ∣ f
  pos : 0 < count
  free : Set.Ico f (f + count * pmmPageSize) ⊆ cover pmm.freeRanges
  left : cover pmm'.freeRanges = cover pmm.freeRanges \ Set.Ico f (f + count * pmmPageSize)
  count : pmm'.freeFrames + count = pmm.freeFrames

/-- The bytes that were taken are managed memory inside the window. -/
lemma Taken.window {pmm : Pmm} {f count x : ℕ} (h : Taken w.machine.pmm pmm f count)
    (hkept : Paging.Kept c w.machine) (hx : x ∈ Set.Ico f (f + count * pmmPageSize)) :
    x ∈ cover c.managed ∧ 0 < x ∧ x < 2 ^ 52 ∧ c.boot.physicalMemoryOffset + x < 2 ^ 64 := by
  have hmem : x ∈ cover c.managed := by
    rw [← hkept.managed]
    exact hkept.inv.free_sub (h.free hx)
  exact ⟨hmem, c.window x hmem⟩

lemma Taken.first_mem {pmm pmm' : Pmm} {f count : ℕ} (h : Taken pmm pmm' f count) :
    f ∈ Set.Ico f (f + count * pmmPageSize) ∧
      f + count * pmmPageSize - 1 ∈ Set.Ico f (f + count * pmmPageSize) := by
  have := Nat.mul_pos h.pos Pmm.pmmPageSize_pos
  exact ⟨⟨by omega, by omega⟩, by omega, by omega⟩

/-- **`kernel_heap_grow`.**  Either it answers null and changes nothing, or it takes
frames from the allocator and answers with them through the direct map. -/
theorem kernelHeapGrow_cases (h : Paging.Ready c limit R w)
    (hbelow : ∀ x ∈ cover c.managed, x < limit) {k : ℕ} (hk : k ≠ 0) :
    (kernelHeapGrow k w = ((0, 0), w) ∧ (uint32Max < growPages k ∨
      ∀ r ∈ w.machine.pmm.freeRanges, r.stop - r.start < growPages k * pmmPageSize)) ∨
    ∃ f pmm, growPages k ≤ uint32Max ∧ Taken w.machine.pmm pmm f (growPages k) ∧
      kernelHeapGrow k w = ((c.boot.physicalMemoryOffset + f, growPages k * pmmPageSize),
        { w with machine := { w.machine with pmm := pmm } }) := by
  have hkept := h.maps.toKept
  rw [kernelHeapGrow, if_neg hk]
  simp only
  split
  case isTrue hmany => exact .inl ⟨rfl, .inl hmany⟩
  case isFalse hfew =>
    rcases Pmm.pmmAllocFrames_spec hkept.inv (growPages k) with
      ⟨f, pmm, halloc, hinv, hman, -, hdvd, hpos, hsub, hleft, hcount⟩ | hnone
    · have htaken : Taken w.machine.pmm pmm f (growPages k) :=
        ⟨halloc, hinv, hman, hdvd, hpos, hsub, hleft, hcount⟩
      obtain ⟨hmem, hfpos, -, htop⟩ := htaken.window hkept htaken.first_mem.1
      have hptr : Paging.pagingDirectPointer
          { w with machine := { w.machine with pmm := pmm } } f =
            c.boot.physicalMemoryOffset + f := by
        have hlt := hbelow f hmem
        have hmax : uint64Max = 2 ^ 64 - 1 := rfl
        rw [Paging.pagingDirectPointer]
        simp only [h.active, h.limit_eq]
        exact if_neg (by omega)
      refine .inr ⟨f, pmm, not_lt.mp hfew, htaken, ?_⟩
      rw [halloc]
      simp only [hptr]
      rw [if_neg (by omega)]
    · refine .inl ⟨by rw [hnone], .inr ?_⟩
      exact (Pmm.pmmAllocFrames_eq_none hkept.inv (growPages_pos k)).mp (by rw [hnone])

/-! ### A heap fed with frames -/

/-- The heap `s` gets its memory from the kernel: its regions are managed memory that
it holds through the direct map. -/
structure Fed (c : Paging.Surroundings) (limit : ℕ) (R : ℕ → Paging.Leaf → Prop) (s : Heap Paging)
    (bs : List Block) (regions : List Span) : Prop where
  inv : Inv s bs regions
  callback : s.growCallback = some kernelHeapGrow
  ready : Paging.Ready c limit R s.world
  below : ∀ x ∈ cover c.managed, x < limit
  owns : ∀ y ∈ cover regions, ∃ x ∈ c.others, x ∈ cover c.managed ∧
    y = c.boot.physicalMemoryOffset + x

variable {s : Heap Paging} {bs : List Block} {regions : List Span} {n size : ℕ}

/-- The memory behind an answer of the callback is free until then. -/
lemma Fed.fresh (h : Fed c limit R s bs regions) (k : ℕ) :
    Fresh regions (kernelHeapGrow k s.world).1 := by
  by_cases hk : k = 0
  · rw [kernelHeapGrow, if_pos hk]
    exact .inl rfl
  rcases kernelHeapGrow_cases h.ready h.below hk with ⟨heq, -⟩ | ⟨f, pmm, -, htaken, heq⟩
  · rw [heq]
    exact .inl rfl
  · have hkept := h.ready.maps.toKept
    have htop := (htaken.window hkept htaken.first_mem.2).2.2.2
    rw [heq]
    refine .inr ⟨?_, Set.disjoint_left.mpr fun y hy hcover => ?_⟩
    · show c.boot.physicalMemoryOffset + f + growPages k * pmmPageSize ≤ 2 ^ 64
      omega
    obtain ⟨x, hx, -, rfl⟩ := h.owns y hcover
    simp only [Set.mem_Ico] at hy
    exact Set.disjoint_left.mp hkept.others_held hx (htaken.free ⟨by omega, by omega⟩)

lemma Fed.honest (h : Fed c limit R s bs regions) : Honest s regions := by
  intro grow hgrow k
  rw [h.callback] at hgrow
  obtain rfl := Option.some.inj hgrow
  exact h.fresh k

/-- A list of blocks inside the direct map has no block near the size of the address
space. -/
lemma capacity_lt (hinv : Inv s bs regions)
    (hsmall : ∀ y ∈ cover regions, c.boot.physicalMemoryOffset ≤ y ∧
      y < c.boot.physicalMemoryOffset + 2 ^ 52) {b : Block} (hb : b ∈ bs) :
    b.capacity < 2 ^ 52 := by
  have hmem : ∀ y, b.addr ≤ y → y < b.stop → y ∈ cover regions := by
    intro y hle hlt
    rw [← hinv.cover_eq]
    exact mem_cover_spans.mpr ⟨b, hb, hle, hlt⟩
  have hstop := b.stop_eq
  obtain ⟨hlow, -⟩ := hsmall _ (hmem b.addr (le_refl _) (by omega))
  obtain ⟨-, hhigh⟩ := hsmall _ (hmem (b.stop - 1) (by omega) (by omega))
  omega

lemma Fed.region_bounds (h : Fed c limit R s bs regions) {y : ℕ} (hy : y ∈ cover regions) :
    c.boot.physicalMemoryOffset ≤ y ∧ y < c.boot.physicalMemoryOffset + 2 ^ 52 := by
  obtain ⟨x, -, hx, rfl⟩ := h.owns y hy
  have := (c.window x hx).2.1
  omega

/-- Memory that is aligned already is accepted as it is. -/
lemma acceptedRegion_of_dvd {memory bytes : ℕ} (hne : memory ≠ 0) (hm : heapAlignment ∣ memory)
    (hb : heapAlignment ∣ bytes) (hlarge : 80 < bytes) :
    acceptedRegion memory bytes = some ⟨memory, memory + bytes⟩ := by
  have hmore : 96 ≤ bytes := by
    rw [heapAlignment] at hb
    omega
  rw [acceptedRegion_of_aligned hne hm, if_pos hmore, Nat.div_mul_cancel hb]

/-- Pages through the direct map are aligned. -/
lemma Taken.accepted {pmm : Pmm} {f count : ℕ} (h : Taken w.machine.pmm pmm f count)
    (hkept : Paging.Kept c w.machine) (hc : Paging.Checked c.boot limit) :
    acceptedRegion (c.boot.physicalMemoryOffset + f) (count * pmmPageSize) =
      some ⟨c.boot.physicalMemoryOffset + f,
        c.boot.physicalMemoryOffset + f + count * pmmPageSize⟩ := by
  have hps : heapAlignment ∣ pmmPageSize := by decide
  have hhs : heapAlignment ∣ hugePageSize := by decide
  have hpos := (h.window hkept h.first_mem.1).2.1
  have hcount := Nat.mul_le_mul_right pmmPageSize (Nat.succ_le_of_lt h.pos)
  have hsize : pmmPageSize = 4096 := rfl
  exact acceptedRegion_of_dvd (by omega) (dvd_add (hhs.trans hc.offset_dvd) (hps.trans h.aligned))
    (hps.trans (Dvd.intro_left _ rfl)) (by omega)

/-- The heap after `grow_heap` has got `pages` pages. -/
structure Grown (c : Paging.Surroundings) (s s' : Heap Paging) (pages : ℕ) : Prop where
  blocks : ∃ bs regions, Inv s' bs regions ∧
    (∃ b ∈ bs, b.fits (pages * pmmPageSize - heapBlock.size)) ∧
    ∀ y ∈ cover regions, c.boot.physicalMemoryOffset ≤ y ∧
      y < c.boot.physicalMemoryOffset + 2 ^ 52
  count : s'.world.machine.pmm.freeFrames + pages = s.world.machine.pmm.freeFrames
  range : ∃ r ∈ s.world.machine.pmm.freeRanges, pages * pmmPageSize ≤ r.stop - r.start

/-- **`grow_heap` in the kernel.**  Either nothing happens, or all the frames that the
callback took are a region of the heap. -/
theorem Fed.growHeap_cases (h : Fed c limit R s bs regions) (n : ℕ) :
    (growHeap n s = (false, s) ∧ (uint64Max - n < heapBlock.size + heapCanaryBytes ∨
      uint32Max < growPages (growRequest n) ∨ ∀ r ∈ s.world.machine.pmm.freeRanges,
        r.stop - r.start < growPages (growRequest n) * pmmPageSize)) ∨
    (heapBlock.size + heapCanaryBytes ≤ uint64Max - n ∧ (growHeap n s).1 = true ∧
      Grown c s (growHeap n s).2 (growPages (growRequest n))) := by
  have hkept := h.ready.maps.toKept
  rw [growHeap_eq h.callback]
  simp only
  split
  case isTrue hover => exact .inl ⟨rfl, .inl hover⟩
  case isFalse hroom =>
    have hrequest : growRequest n ≠ 0 := by
      rw [growRequest, Block.size_eq]
      omega
    rcases kernelHeapGrow_cases h.ready h.below hrequest with ⟨heq, hwhy⟩ |
      ⟨f, pmm, -, htaken, heq⟩
    · rw [growRequest] at heq
      rw [heq, if_pos rfl]
      exact .inl ⟨rfl, .inr hwhy⟩
    · have hfresh := h.fresh (growRequest n)
      have haccept := htaken.accepted hkept h.ready.checked
      rw [growRequest] at heq hfresh haccept
      rw [heq] at hfresh
      obtain ⟨hend, hdisj⟩ := hfresh.disjoint haccept
      obtain ⟨htrue, bs', hinv, -, hfits, -, -, hworld, -⟩ :=
        addRegion_inv (h.inv.with_world { s.world with machine := { s.world.machine with pmm } })
          hend haccept hdisj
      obtain ⟨hne, -⟩ := acceptedRegion_eq_some haccept
      simp only [heq]
      rw [if_neg hne]
      refine .inr ⟨not_lt.mp hroom, htrue, ⟨bs', _, hinv, ?_, fun y hy => ?_⟩, ?_, ?_⟩
      · simpa only [growRequest, Span.length, Nat.add_sub_cancel_left] using hfits
      · rw [cover_append] at hy
        rcases hy with hy | hy
        · exact h.region_bounds hy
        · simp only [cover_cons, cover_nil, Set.union_empty, Span.mem_points] at hy
          have := (htaken.window hkept (x := y - c.boot.physicalMemoryOffset)
            ⟨by omega, by rw [growRequest]; omega⟩).2.2.1
          omega
      · rw [hworld]
        exact htaken.count
      · by_contra hnone
        push Not at hnone
        have := (Pmm.pmmAllocFrames_eq_none hkept.inv htaken.pos).mpr hnone
        rw [htaken.run] at this
        simp at this

/-! ### Failed allocations -/

/-- The sizes for which the rounding of `kernel_heap_grow` overflows after every check
before it has passed. -/
def Overflows (size : ℕ) : Prop := 2 ^ 64 - 4167 ≤ size ∧ size ≤ 2 ^ 64 - 72

/-- The frames, the regions and the block list are the same before and after. -/
structure ConsumedNothing (s s' : Heap Paging) : Prop where
  freeFrames : s'.world.machine.pmm.pmmStats.freeFrames = s.world.machine.pmm.pmmStats.freeFrames
  regionCount : s'.heapStats.regionCount = s.heapStats.regionCount
  totalRegionBytes : s'.heapStats.totalRegionBytes = s.heapStats.totalRegionBytes
  blocks : s'.blocks = s.blocks
  mem : s'.mem = s.mem

lemma consumedNothing_failed (s : Heap Paging) : ConsumedNothing s (allocationFailed s).2 :=
  ⟨rfl, rfl, rfl, rfl, rfl⟩

/-- The request reaches the callback and overflows there. -/
lemma overflows_iff (h : neededCapacity size = some n) :
    Overflows size ↔ heapBlock.size + heapCanaryBytes ≤ uint64Max - n ∧
      2 ^ 64 ≤ growRequest n + 4095 := by
  obtain ⟨-, hle, hlt, ⟨i, rfl⟩, -⟩ := neededCapacity_eq_some h
  simp only [Overflows, growRequest, Block.size_eq, heapCanaryBytes, heapAlignment,
    uint64Max] at *
  omega

lemma Overflows.neededCapacity_ne_none (h : Overflows size) : neededCapacity size ≠ none := by
  obtain ⟨hlow, hhigh⟩ := h
  rw [neededCapacity, if_neg (by omega), if_neg (by simp only [uint64Max, heapCanaryBytes]; omega),
    alignUpSize]
  split
  · simp
  · simp only
    rw [if_neg (by simp only [uint64Max, heapCanaryBytes, heapAlignment]; omega)]
    simp

/-- In a heap inside the direct map no block is large enough for an overflowing
request. -/
lemma findBlock_of_overflow (hinv : Inv s bs regions)
    (hsmall : ∀ y ∈ cover regions, c.boot.physicalMemoryOffset ≤ y ∧
      y < c.boot.physicalMemoryOffset + 2 ^ 52) (hn : 2 ^ 52 ≤ n) : findBlock n s = 0 := by
  by_contra hne
  obtain ⟨b, hb, -, hle⟩ := hinv.findBlock_ne_zero_iff.mp hne
  have hlt := capacity_lt hinv hsmall hb
  omega

/-- **When a failed `kmalloc` consumes nothing.**  Exactly unless the request
overflows in the callback while sixteen frames in a row are free: then these become a
region that does not help. -/
theorem Fed.kmalloc_consumes_iff (h : Fed c limit R s bs regions) (size : ℕ) :
    ((kmalloc size s).1 = 0 → ConsumedNothing s (kmalloc size s).2) ↔
      ¬ (Overflows size ∧ ∃ r ∈ s.world.machine.pmm.freeRanges,
        kheapMinGrowPages * pmmPageSize ≤ r.stop - r.start) := by
  have hsize : heapBlock.size + heapCanaryBytes = 56 := rfl
  have hmin : kheapMinGrowPages = 16 := rfl
  rcases Option.eq_none_or_eq_some (neededCapacity size) with hnone | ⟨n, hneed⟩
  · rw [kmalloc_refused hnone]
    exact iff_of_true (fun _ => consumedNothing_failed s) fun hand =>
      hand.1.neededCapacity_ne_none hnone
  rw [kmalloc_eq h.inv.initialised hneed, overflows_iff hneed]
  by_cases hfound : findBlock n s ≠ 0
  · rw [if_pos hfound]
    refine iff_of_true (fun hnull => absurd hnull (by simp [takeBlock])) fun hand => hfound ?_
    refine findBlock_of_overflow h.inv (fun y hy => h.region_bounds hy) ?_
    have hover := hand.1.2
    rw [growRequest, Block.size_eq, heapCanaryBytes] at hover
    omega
  rw [if_neg hfound]
  rcases h.growHeap_cases n with ⟨heq, hwhy⟩ | ⟨hroom, htrue, hgrown⟩
  · rw [heq, if_pos rfl]
    refine iff_of_true (fun _ => consumedNothing_failed s) ?_
    rintro ⟨⟨hroom, hover⟩, r, hr, hlong⟩
    have hpages : growPages (growRequest n) = 16 := growPages_of_wrap hover (by
      rw [growRequest, Block.size_eq, heapCanaryBytes]
      simp only [uint64Max] at hroom
      omega)
    rw [hpages] at hwhy
    rcases hwhy with hwhy | hwhy | hwhy
    · omega
    · exact absurd hwhy (by decide)
    · exact absurd hlong (not_le.mpr (hwhy r hr))
  rw [if_neg (by simp [htrue])]
  obtain ⟨bs', regions', hinv, ⟨b, hb, hfits⟩, hsmall⟩ := hgrown.blocks
  by_cases hover : 2 ^ 64 ≤ growRequest n + 4095
  · have hpages : growPages (growRequest n) = kheapMinGrowPages := growPages_of_wrap hover (by
      rw [growRequest, Block.size_eq, heapCanaryBytes]
      simp only [uint64Max] at hroom
      omega)
    have hlost : findBlock n (growHeap n s).2 = 0 := findBlock_of_overflow hinv hsmall (by
      rw [growRequest, Block.size_eq, heapCanaryBytes] at hover
      omega)
    rw [if_pos hlost]
    refine iff_of_false (fun hnothing => ?_) fun hnot =>
      hnot ⟨⟨hroom, hover⟩, hpages ▸ hgrown.range⟩
    have hsame := (hnothing rfl).freeFrames
    have hcount := hgrown.count
    simp only [Pmm.pmmStats, allocationFailed] at hsame
    omega
  · have hle := le_growPages (not_le.mp hover)
    have hne : findBlock n (growHeap n s).2 ≠ 0 := by
      have hrequest : growRequest n = heapBlock.size + n + heapCanaryBytes := rfl
      obtain ⟨hfree, hcap⟩ := Block.fits_iff.mp hfits
      exact hinv.findBlock_ne_zero_iff.mpr ⟨b, hb, hfree, by omega⟩
    rw [if_neg hne]
    exact iff_of_true (fun hnull => absurd hnull (by simp [takeBlock])) fun hand => hover hand.1.2

end Heap

end JoshOS
