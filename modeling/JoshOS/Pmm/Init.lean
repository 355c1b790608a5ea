import JoshOS.Pmm.FreeList

/-!
What `pmm_init` computes.

* `Pmm.Inv`: the representation invariant of the frame allocator.
* `InitiallyFree`: the addresses that ought to be handed out, stated on the boot
  context alone: those in whole pages of a usable entry at or above 1 MiB and
  below the physical limit whose page meets no other entry, nor the kernel
  image, nor the framebuffer.
* `leaves_insertUsable`, `leaves_removeReserved`: the two loops over the map, with the length
  of the list they leave; the only error they can end in is the overflow of an entry.
* `pmmInit_spec`: a successful `pmm_init` establishes the invariant with exactly
  these addresses free and managed.
-/

namespace JoshOS

open List Words Spans

namespace Pmm

/-- The representation invariant: both lists are separated and page aligned, the
free addresses are managed, and the two counters are the numbers of frames. -/
structure Inv (s : Pmm) : Prop where
  initialised : s.initialised = true
  free_sep : Separated s.freeRanges
  managed_sep : Separated s.managedRanges
  free_aligned : BoundsIn (pmmPageSize ∣ ·) s.freeRanges
  managed_aligned : BoundsIn (pmmPageSize ∣ ·) s.managedRanges
  managed_word : ∀ r ∈ s.managedRanges, r.stop < 2 ^ 64
  free_sub : cover s.freeRanges ⊆ cover s.managedRanges
  free_count : s.freeFrames * pmmPageSize = total s.freeRanges
  total_count : s.totalFrames * pmmPageSize = total s.managedRanges

/-- The page of the address `x` meets the interval `[start, stop)`. -/
def pageMeets (x start stop : ℕ) : Prop :=
  alignDown x pmmPageSize < stop ∧ start < alignDown x pmmPageSize + pmmPageSize

/-- The page of `x` lies whole in the part of a usable entry that may be handed
out. -/
def usablePart (limit : ℕ) (r : BootMemoryRegion) (x : ℕ) : Prop :=
  r.type = .usable ∧ r.length ≠ 0 ∧
    r.base ≤ alignDown x pmmPageSize ∧ pmmMinPhysical ≤ alignDown x pmmPageSize ∧
    alignDown x pmmPageSize + pmmPageSize ≤ r.stop ∧
    alignDown x pmmPageSize + pmmPageSize ≤ limit

/-- The page of `x` meets an entry that is not usable. -/
def reservedPart (r : BootMemoryRegion) (x : ℕ) : Prop :=
  r.type ≠ .usable ∧ r.length ≠ 0 ∧ pageMeets x r.base r.stop

/-- The addresses that are free after `pmm_init`. -/
def InitiallyFree (boot : BootContext) : Set ℕ :=
  {x | (∃ r ∈ boot.memoryMap, usablePart boot.physicalMemoryLimit r x) ∧
    (∀ r ∈ boot.memoryMap, ¬ reservedPart r x) ∧
    ¬ (boot.kernelPhysStart < boot.kernelPhysEnd ∧
      pageMeets x boot.kernelPhysStart boot.kernelPhysEnd) ∧
    ¬ (boot.framebufferPhysStart < boot.framebufferPhysEnd ∧
      pageMeets x boot.framebufferPhysStart boot.framebufferPhysEnd)}

lemma pmmPageSize_pos : 0 < pmmPageSize := by decide

/-- The list built by `pmm_init` at any point: separated, page aligned and below
the top of the address space. -/
structure RangesOk (l : List Span) : Prop where
  sep : Separated l
  aligned : BoundsIn (pmmPageSize ∣ ·) l
  word : BoundsIn (· < 2 ^ 64) l

lemma rangesOk_nil : RangesOk [] := ⟨separated_nil, boundsIn_nil, boundsIn_nil⟩

/-! ### A step of `pmm_init` -/

/-- What a step of `pmm_init` comes to: it refuses exactly what is bad, and otherwise leaves
the addresses `after` in `n` ranges at most. -/
def Leaves (bad : Prop) (after : Set ℕ) (n : ℕ) (r : PmmStatus × List Span) : Prop :=
  (bad ∧ r.1 = .badArgument) ∨
    (¬ bad ∧ ∃ l, r = (.ok, l) ∧ RangesOk l ∧ cover l = after ∧ l.length ≤ n)

/-- Two steps that come to the same leave the same list, since a set of addresses has one
separated list. -/
lemma Leaves.eq {bad : Prop} {after : Set ℕ} {n n' : ℕ} {r r' : PmmStatus × List Span}
    (h : Leaves bad after n r) (h' : Leaves bad after n' r') :
    (r.1 = .badArgument ∧ r'.1 = .badArgument) ∨
      ∃ l, r = (.ok, l) ∧ r' = (.ok, l) ∧ RangesOk l ∧ l.length ≤ n := by
  rcases h with ⟨hbad, h⟩ | ⟨hgood, l, h, hok, hcover, hlen⟩
  · exact .inl ⟨h, (h'.resolve_right fun h' => h'.1 hbad).2⟩
  · obtain ⟨-, l', h', hok', hcover', -⟩ := h'.resolve_left fun h' => hgood h'.1
    obtain rfl := hok.sep.ext hok'.sep (hcover.trans hcover'.symm)
    exact .inr ⟨l, h, h', hok, hlen⟩

/-- A step of `pmm_init` and what follows it: an error is returned with the ranges built so
far. -/
def andThen (step : PmmStatus × List Span) (next : List Span → PmmStatus × Pmm) :
    PmmStatus × Pmm :=
  match step with
  | (.ok, ranges) => next ranges
  | (status, ranges) => (status, { empty with freeRanges := ranges })

@[simp] lemma andThen_ok (ranges : List Span) (next : List Span → PmmStatus × Pmm) :
    andThen (.ok, ranges) next = next ranges := rfl

lemma andThen_badArgument {step : PmmStatus × List Span} (h : step.1 = .badArgument)
    (next : List Span → PmmStatus × Pmm) : (andThen step next).1 = .badArgument := by
  obtain ⟨status, ranges⟩ := step
  cases h
  rfl

/-- A step that is followed by success was not refused. -/
lemma Leaves.of_andThen {bad : Prop} {after : Set ℕ} {n : ℕ} {r : PmmStatus × List Span}
    {next : List Span → PmmStatus × Pmm} {s : Pmm} (hr : Leaves bad after n r)
    (h : andThen r next = (.ok, s)) :
    ¬ bad ∧ ∃ l, RangesOk l ∧ cover l = after ∧ l.length ≤ n ∧ next l = (.ok, s) := by
  rcases hr with ⟨-, hstatus⟩ | ⟨hgood, l, rfl, hok, hcover, hlen⟩
  · have := andThen_badArgument hstatus next
    simp [h] at this
  · exact ⟨hgood, l, hok, hcover, hlen, h⟩

/-! ### A loop over the map -/

/-- The end of the entry is not a word. -/
def Overflows (region : BootMemoryRegion) : Prop :=
  region.length ≠ 0 ∧ uint64Max - region.base < region.length

lemma stop_lt_of_not_overflows {region : BootMemoryRegion} (h : ¬ Overflows region) :
    region.length ≠ 0 → region.stop < 2 ^ 64 := by
  have hmax : uint64Max = 2 ^ 64 - 1 := rfl
  have hbase := region.base_lt
  rw [Overflows] at h
  rw [BootMemoryRegion.stop]
  omega

section Loop

variable {loop : List BootMemoryRegion → List Span → PmmStatus × List Span}
  {Bad : BootMemoryRegion → Prop} {E : List BootMemoryRegion → Set ℕ → Set ℕ}
  (hnil : ∀ ranges, loop [] ranges = (.ok, ranges)) (hE : ∀ c, E [] c = c)
  (hround : ∀ region regions ranges, RangesOk ranges → ranges.length < pmmMaxRanges →
    (Bad region ∧ (loop (region :: regions) ranges).1 = .badArgument) ∨
    (¬ Bad region ∧ ∃ l, RangesOk l ∧ l.length ≤ ranges.length + 1 ∧
      E regions (cover l) = E (region :: regions) (cover ranges) ∧
      loop (region :: regions) ranges = loop regions l))

include hnil hE hround

/-- A loop over the map each round of which ends in the error of its entry or goes on with a
list longer by one range at most. -/
lemma leaves_loop {regions : List BootMemoryRegion} {ranges : List Span} (hok : RangesOk ranges)
    (hroom : ranges.length + regions.length ≤ pmmMaxRanges) :
    Leaves (∃ r ∈ regions, Bad r) (E regions (cover ranges))
      (ranges.length + regions.length) (loop regions ranges) := by
  induction regions generalizing ranges with
  | nil => exact .inr ⟨by simp, ranges, hnil ranges, hok, (hE _).symm, le_rfl⟩
  | cons region regions ih =>
    rw [length_cons] at hroom
    obtain ⟨hbad, hstatus⟩ | ⟨hgood, l, hok', hlength, hcover, hnext⟩ :=
      hround region regions ranges hok (by omega)
    · exact .inl ⟨⟨region, mem_cons_self, hbad⟩, hstatus⟩
    · rw [hnext, ← hcover]
      rcases ih hok' (by omega) with ⟨⟨r, hr, hbad⟩, hstatus⟩ | ⟨hall, l', hrun, hl', hc, hlen⟩
      · exact .inl ⟨⟨r, mem_cons_of_mem _ hr, hbad⟩, hstatus⟩
      · refine .inr ⟨?_, l', hrun, hl', hc, by rw [length_cons]; omega⟩
        simpa [hgood] using hall

end Loop

/-! ### The usable entries -/

/-- The rounded bounds of a usable entry decide about an address as the entry
itself decides about its page. -/
lemma mem_clipped_iff {limit start stop x : ℕ} {r : BootMemoryRegion}
    (hu : r.type = .usable) (hl : r.length ≠ 0)
    (hstart : start = if r.base < pmmMinPhysical then pmmMinPhysical else r.base)
    (hstop : stop = if limit < r.stop then limit else r.stop) :
    usablePart limit r x ↔
      start ≤ alignDown x pmmPageSize ∧ x < alignDown stop pmmPageSize := by
  rw [lt_alignDown_iff pmmPageSize_pos, usablePart]
  constructor
  · rintro ⟨-, -, h1, h2, h3, h4⟩
    rw [hstart, hstop]
    constructor <;> split <;> assumption
  · rintro ⟨h1, h2⟩
    rw [hstart] at h1
    rw [hstop] at h2
    refine ⟨hu, hl, ?_⟩
    split at h1 <;> split at h2 <;> omega

/-- **The first loop of `pmm_init`** adds the usable parts of the entries it visits. -/
theorem leaves_insertUsable {limit : ℕ} (hlimit : limit < 2 ^ 64)
    (regions : List BootMemoryRegion) {ranges : List Span} (hok : RangesOk ranges)
    (hroom : ranges.length + regions.length ≤ pmmMaxRanges) :
    Leaves (∃ r ∈ regions, r.type = .usable ∧ Overflows r)
      (cover ranges ∪ {x | ∃ r ∈ regions, usablePart limit r x})
      (ranges.length + regions.length) (insertUsable limit regions ranges) := by
  refine leaves_loop (E := fun regions c => c ∪ {x | ∃ r ∈ regions, usablePart limit r x})
    (fun _ => rfl) (by simp) (fun region regions ranges hok hroom => ?_) hok hroom
  -- the entry contributes nothing
  have skip : (∀ x, ¬ usablePart limit region x) →
      ∃ l, RangesOk l ∧ l.length ≤ ranges.length + 1 ∧
        cover l ∪ {x | ∃ r ∈ regions, usablePart limit r x} =
          cover ranges ∪ {x | ∃ r ∈ region :: regions, usablePart limit r x} ∧
        insertUsable limit regions ranges = insertUsable limit regions l :=
    fun hnone => ⟨ranges, hok, Nat.le_succ _, by simp [hnone], rfl⟩
  rw [insertUsable]
  by_cases hskip : region.type ≠ .usable ∨ region.length = 0
  · refine .inr ⟨fun hbad => hskip.elim (absurd hbad.1) hbad.2.1, ?_⟩
    rw [if_pos hskip]
    exact skip fun x hx => hskip.elim (absurd hx.1) hx.2.1
  rw [if_neg hskip]
  push Not at hskip
  by_cases hover : uint64Max - region.base < region.length
  · exact .inl ⟨⟨hskip.1, hskip.2, hover⟩, by rw [if_pos hover]⟩
  refine .inr ⟨fun hbad => hover hbad.2.2, ?_⟩
  rw [if_neg hover]
  have hword := stop_lt_of_not_overflows (fun hbad => hover hbad.2) hskip.2
  set start := if region.base < pmmMinPhysical then pmmMinPhysical else region.base with hstart
  set stop := if limit < region.stop then limit else region.stop with hstop
  have hmem := fun x => mem_clipped_iff (x := x) hskip.1 hskip.2 hstart hstop
  have hstop_lt : stop < 2 ^ 64 := by
    rw [hstop]; split <;> omega
  dsimp only
  rcases hup : alignUp start pmmPageSize with _ | start'
  · refine skip fun x hx => ?_
    have h1 := (hmem x).mp hx
    have h2 := lt_of_alignUp_eq_none hup
    have h3 := (lt_alignDown_iff pmmPageSize_pos).mp h1.2
    omega
  have hmem' : ∀ x, usablePart limit region x ↔ start' ≤ x ∧ x < alignDown stop pmmPageSize :=
    fun x => by rw [hmem x, alignUp_le_iff_unit pmmPageSize_pos hup]
  dsimp only
  split
  case isTrue hempty =>
    refine skip fun x hx => ?_
    have := (hmem' x).mp hx
    omega
  case isFalse hne =>
    push Not at hne
    obtain ⟨l, hins, hsep, hcov, hb⟩ := insertFreeRange_spec hok.sep hne hroom
    have hlength := length_insertFreeRange_le ranges start' (alignDown stop pmmPageSize)
    have hle := alignDown_le stop pmmPageSize
    rw [hins] at hlength ⊢
    refine ⟨l, ⟨hsep, hb _ (alignUp_eq_some pmmPageSize_pos hup).1 (dvd_alignDown _ _) hok.aligned,
      hb _ (by omega) (by omega) hok.word⟩, hlength, ?_, rfl⟩
    rw [hcov, Set.union_assoc]
    congr 1
    ext x
    simp only [Set.mem_union, Set.mem_Ico, Set.mem_ofPred_eq, mem_cons, exists_eq_or_imp,
      hmem' x]

/-! ### The reserved entries, the kernel image and the framebuffer -/

/-- Removing an interval rounded outwards to pages takes out the addresses whose
page meets it.  The upper end may also be cut off at the last page of the address
space, which no range reaches. -/
lemma removeHull_spec {ranges : List Span} {start stop stop' : ℕ} (h : RangesOk ranges)
    (hroom : ranges.length < pmmMaxRanges) (hlt : start < stop) (hword : stop < 2 ^ 64)
    (hstop : stop' = (alignUp stop pmmPageSize).getD (alignDown uint64Max pmmPageSize)) :
    ∃ l, removeInterval ranges (alignDown start pmmPageSize) stop' = (.ok, l) ∧ RangesOk l ∧
      cover l = cover ranges \ {x | pageMeets x start stop} ∧ l.length ≤ ranges.length + 1 := by
  obtain ⟨l, hrun, hsep, hcov, hlen, hb⟩ :=
    removeInterval_spec h.sep hroom (alignDown start pmmPageSize) stop'
  have hstop_dvd : pmmPageSize ∣ stop' ∧ stop' < 2 ^ 64 := by
    rw [hstop]
    rcases hup : alignUp stop pmmPageSize with _ | w
    · exact ⟨dvd_alignDown _ _, lt_of_le_of_lt (alignDown_le _ _) (by decide)⟩
    · exact ⟨(alignUp_eq_some pmmPageSize_pos hup).1, alignUp_lt hword hup⟩
  refine ⟨l, hrun, ⟨hsep, hb _ (dvd_alignDown _ _) hstop_dvd.1 h.aligned,
    hb _ (lt_of_le_of_lt (alignDown_le _ _) (hlt.trans hword)) hstop_dvd.2 h.word⟩, ?_, hlen⟩
  rw [hcov]
  ext x
  simp only [Set.mem_sdiff, Set.mem_Ico, Set.mem_ofPred_eq, pageMeets,
    alignDown_le_iff pmmPageSize_pos]
  refine and_congr_right fun hx => not_congr ?_
  rw [and_comm]
  refine and_congr_left fun _ => ?_
  rw [hstop]
  rcases hup : alignUp stop pmmPageSize with _ | w
  · -- both sides hold: the page of a free address is not the last one
    obtain ⟨r, hr, hxr⟩ := hx
    have hrd := (h.aligned r hr).2
    have hrw := (h.word r hr).2
    have hx64 := (lt_alignDown_iff (x := x) (v := r.stop) pmmPageSize_pos).mp
      (by rw [alignDown_of_dvd hrd]; exact hxr.2)
    have hfail := lt_of_alignUp_eq_none hup
    have hx_lt : x < alignDown uint64Max pmmPageSize :=
      (lt_alignDown_iff pmmPageSize_pos).mpr (by
        have hmax : uint64Max = 2 ^ 64 - 1 := rfl
        omega)
    simp only [Option.getD_none, hx_lt, true_iff]
    omega
  · simp only [Option.getD_some]
    rw [← not_le, ← not_le, alignUp_le_iff_unit pmmPageSize_pos hup]

/-- **The second loop of `pmm_init`** takes out the addresses whose page meets a reserved
entry. -/
theorem leaves_removeReserved (regions : List BootMemoryRegion) {ranges : List Span}
    (hok : RangesOk ranges) (hroom : ranges.length + regions.length ≤ pmmMaxRanges) :
    Leaves (∃ r ∈ regions, r.type ≠ .usable ∧ Overflows r)
      (cover ranges \ {x | ∃ r ∈ regions, reservedPart r x})
      (ranges.length + regions.length) (removeReserved regions ranges) := by
  refine leaves_loop (E := fun regions c => c \ {x | ∃ r ∈ regions, reservedPart r x})
    (fun _ => rfl) (by simp) (fun region regions ranges hok hroom => ?_) hok hroom
  rw [removeReserved]
  by_cases hskip : region.type = .usable ∨ region.length = 0
  · refine .inr ⟨fun hbad => hskip.elim hbad.1 hbad.2.1, ranges, hok, Nat.le_succ _, ?_, ?_⟩
    · have hnone : ∀ x, ¬ reservedPart region x := fun x hx => hskip.elim hx.1 hx.2.1
      simp [hnone]
    · rw [if_pos hskip]
  rw [if_neg hskip]
  push Not at hskip
  by_cases hover : uint64Max - region.base < region.length
  · exact .inl ⟨⟨hskip.1, hskip.2, hover⟩, by rw [if_pos hover]⟩
  refine .inr ⟨fun hbad => hover hbad.2.2, ?_⟩
  have hword := stop_lt_of_not_overflows (fun hbad => hover hbad.2) hskip.2
  have hlt : region.base < region.stop := by
    rw [BootMemoryRegion.stop]; omega
  obtain ⟨l, hrun, hl, hcover, hlen⟩ := removeHull_spec hok hroom hlt hword rfl
  refine ⟨l, hl, hlen, ?_, ?_⟩
  · rw [hcover]
    ext x
    simp only [Set.mem_sdiff, Set.mem_ofPred_eq, mem_cons, exists_eq_or_imp, not_or,
      reservedPart, ne_eq, hskip, not_false_eq_true, true_and, and_assoc]
  · rw [if_neg hover]
    dsimp only
    rw [hrun]

/-- The kernel image and the framebuffer are taken out with every page they meet, unless the
end has no rounding. -/
lemma leaves_removeExtent {ranges : List Span} (physStart : ℕ) {physEnd : ℕ}
    (h : RangesOk ranges) (hroom : ranges.length < pmmMaxRanges) (hword : physEnd < 2 ^ 64) :
    Leaves (physStart < physEnd ∧ alignUp physEnd pmmPageSize = none)
      (cover ranges \ {x | physStart < physEnd ∧ pageMeets x physStart physEnd})
      (ranges.length + 1) (removeExtent ranges physStart physEnd) := by
  rw [removeExtent]
  split
  case isTrue hlt =>
    rcases hup : alignUp physEnd pmmPageSize with _ | stop
    · exact .inl ⟨⟨hlt, rfl⟩, rfl⟩
    · refine .inr ⟨by simp, ?_⟩
      simpa [hlt] using removeHull_spec h hroom hlt hword (by rw [hup]; rfl)
  case isFalse hge => exact .inr ⟨by simp [hge], ranges, rfl, h, by simp [hge], Nat.le_succ _⟩

/-! ### The whole of `pmm_init` -/

/-- The frames of aligned ranges add up to their total length. -/
lemma countFrames_mul {l : List Span} (hsep : Separated l)
    (haligned : BoundsIn (pmmPageSize ∣ ·) l) : countFrames l * pmmPageSize = total l := by
  induction l with
  | nil => rfl
  | cons r l ih =>
    obtain ⟨hr, -, hl⟩ := separated_cons.mp hsep
    obtain ⟨⟨hs, he⟩, hrest⟩ := boundsIn_cons.mp haligned
    have hdiv : pmmPageSize ∣ r.stop - r.start := Nat.dvd_sub he hs
    have hrec := ih hl hrest
    rw [countFrames] at hrec
    rw [countFrames, map_cons, sum_cons, Nat.add_mul, hrec, total_cons,
      Nat.div_mul_cancel hdiv, Span.length]

/-- The end of `pmm_init`, behind the two loops over the map. -/
def finishInit (boot : BootContext) (ranges : List Span) : PmmStatus × Pmm :=
  andThen (removeExtent ranges boot.kernelPhysStart boot.kernelPhysEnd) fun ranges =>
    andThen (removeExtent ranges boot.framebufferPhysStart boot.framebufferPhysEnd) fun ranges =>
      if ranges.length = 0 then (.noMemory, empty)
      else (.ok, ⟨ranges, ranges, countFrames ranges, countFrames ranges, true⟩)

lemma pmmInit_eq (boot : BootContext) :
    pmmInit (some boot) =
      if boot.memoryMap.length = 0 ∨ bootMemoryMaxEntries < boot.memoryMap.length ∨
          boot.physicalMemoryLimit ≤ pmmMinPhysical then (.badArgument, empty)
      else
        andThen (insertUsable boot.physicalMemoryLimit boot.memoryMap []) fun ranges =>
          if ranges.length = 0 then (.noMemory, empty)
          else andThen (removeReserved boot.memoryMap ranges) (finishInit boot) := rfl

/-- What a successful `pmm_init` leaves: the addresses of `InitiallyFree`, in no more ranges
than the array has. -/
lemma pmmInit_ranges {boot : BootContext} {s : Pmm} (h : pmmInit (some boot) = (.ok, s)) :
    ∃ l, s = ⟨l, l, countFrames l, countFrames l, true⟩ ∧ RangesOk l ∧
      cover l = InitiallyFree boot ∧ l.length ≤ pmmMaxRanges ∧
      ∀ r ∈ boot.memoryMap, r.length ≠ 0 → r.stop < 2 ^ 64 := by
  have hmax : pmmMaxRanges = 4096 := rfl
  rw [pmmInit_eq] at h
  split at h
  case isTrue => simp at h
  case isFalse hargs =>
    push Not at hargs
    have hcount : boot.memoryMap.length ≤ 128 := hargs.2.1
    obtain ⟨hgood, l₁, hok₁, hc₁, hlen₁, h⟩ := (leaves_insertUsable boot.physicalMemoryLimit_lt
      _ rangesOk_nil (by simp only [length_nil]; omega)).of_andThen h
    rw [length_nil] at hlen₁
    split at h
    case isTrue => simp at h
    obtain ⟨hgood', l₂, hok₂, hc₂, hlen₂, h⟩ :=
      (leaves_removeReserved _ hok₁ (by omega)).of_andThen h
    rw [finishInit] at h
    obtain ⟨-, l₃, hok₃, hc₃, hlen₃, h⟩ :=
      (leaves_removeExtent _ hok₂ (by omega) boot.kernelPhysEnd_lt).of_andThen h
    obtain ⟨-, l₄, hok₄, hc₄, hlen₄, h⟩ :=
      (leaves_removeExtent _ hok₃ (by omega) boot.framebufferPhysEnd_lt).of_andThen h
    split at h
    case isTrue => simp at h
    simp only [Prod.mk.injEq, true_and] at h
    refine ⟨l₄, h.symm, hok₄, ?_, by omega, fun r hr => stop_lt_of_not_overflows fun hover => ?_⟩
    · rw [hc₄, hc₃, hc₂, hc₁, cover_nil, Set.empty_union]
      ext x
      simp only [Set.mem_sdiff, Set.mem_ofPred_eq, InitiallyFree, not_exists, not_and, and_assoc]
    · by_cases hu : r.type = .usable
      · exact hgood ⟨r, hr, hu, hover⟩
      · exact hgood' ⟨r, hr, hu, hover⟩

/-- **`pmm_init`**: when it succeeds, the invariant holds and the free and the
managed addresses are both exactly those of `InitiallyFree`. -/
theorem pmmInit_spec {boot : BootContext} {s : Pmm} (h : pmmInit (some boot) = (.ok, s)) :
    s.Inv ∧ s.freeRanges = s.managedRanges ∧ s.freeFrames = s.totalFrames ∧
      cover s.managedRanges = InitiallyFree boot ∧
      ∀ r ∈ boot.memoryMap, r.length ≠ 0 → r.stop < 2 ^ 64 := by
  obtain ⟨l, rfl, hok, hcover, -, hword⟩ := pmmInit_ranges h
  have hcount := countFrames_mul hok.sep hok.aligned
  exact ⟨⟨rfl, hok.sep, hok.sep, hok.aligned, hok.aligned, fun r hr => (hok.word r hr).2,
    subset_rfl, hcount, hcount⟩, rfl, rfl, hcover, hword⟩

end Pmm

end JoshOS
