import JoshOS.Pmm.Order
import JoshOS.Pmm.Runs

/-!
What the frame allocator grants.

The free list keeps the free frames as maximal runs of consecutive frames, in
order, so a request can be answered from the first frame of a run alone.

* `runStarts`: the first frames of the maximal runs of a set of frames;
  `mem_runStarts_iff` and `ncard_runStarts` read them off a free list.
* `pmm_alloc_first_fit`: an allocation takes the lowest run that is long enough,
  and fails only when no such run exists.
* `pmm_free_granted_iff`: a release is granted exactly when the table of ranges
  is not full, even if it needs no further range.
* `pmm_free_refused`: a frame between two free ones that cannot be given back.
-/

namespace JoshOS

open List Words Spans

namespace Pmm

/-! ### Maximal runs of frames -/

/-- The first frames of the maximal runs of consecutive frames of a set. -/
def runStarts (F : Set ℕ) : Set ℕ := {f ∈ F | ∀ g ∈ F, g + pmmPageSize ≠ f}

variable {l : List Span}

/-- The runs of a free list start where its ranges do. -/
lemma mem_runStarts_iff (hsep : Separated l) (haligned : BoundsIn (pmmPageSize ∣ ·) l) {f : ℕ} :
    f ∈ runStarts (frames l) ↔ ∃ r ∈ l, r.start = f := by
  have hpos := pmmPageSize_pos
  constructor
  · rintro ⟨⟨hf, r, hr, hstart, hstop⟩, hfirst⟩
    refine ⟨r, hr, le_antisymm hstart ?_⟩
    by_contra hlt
    push Not at hlt
    have hpage := add_le_of_dvd (haligned r hr).1 hf hlt
    refine hfirst (f - pmmPageSize) ⟨Nat.dvd_sub hf dvd_rfl, r, hr, ?_, ?_⟩ ?_ <;> omega
  · rintro ⟨r, hr, rfl⟩
    refine ⟨⟨(haligned r hr).1, r, hr, le_rfl,
      add_le_of_dvd (haligned r hr).1 (haligned r hr).2 (hsep.nonempty r hr)⟩, ?_⟩
    rintro g ⟨-, q, hq, hqs, hqe⟩ hnext
    -- the range of the page before would touch the range, and so be the same
    have hne := hsep.nonempty r hr
    obtain rfl : q = r := hsep.eq_of_touch hq hr (by omega) (by omega)
    omega

/-- A free list has one range for each maximal run. -/
lemma ncard_runStarts (hsep : Separated l) (haligned : BoundsIn (pmmPageSize ∣ ·) l) :
    (runStarts (frames l)).Finite ∧ (runStarts (frames l)).ncard = l.length := by
  have hset : runStarts (frames l) = ((l.map Span.start).toFinset : Set ℕ) := by
    ext f
    simp [mem_runStarts_iff hsep haligned]
  have hnodup : (l.map Span.start).Nodup := by
    rw [List.Nodup, pairwise_map]
    refine hsep.gap.imp_of_mem fun {a b} ha _ hab => ?_
    have := hsep.nonempty a ha
    omega
  rw [hset]
  refine ⟨Finset.finite_toSet _, ?_⟩
  rw [Set.ncard_coe_finset, toFinset_card_of_nodup hnodup, length_map]

/-- Consecutive frames of a free list lie in one of its ranges. -/
lemma framesFrom_subset_iff (hsep : Separated l) (haligned : BoundsIn (pmmPageSize ∣ ·) l)
    {f n : ℕ} (hf : pmmPageSize ∣ f) (hn : 0 < n) :
    framesFrom f n ⊆ frames l ↔ ∃ r ∈ l, r.start ≤ f ∧ f + n * pmmPageSize ≤ r.stop := by
  have hbytes : 0 < n * pmmPageSize := Nat.mul_pos hn pmmPageSize_pos
  constructor
  · intro hsub
    refine hsep.exists_of_Ico_subset (by omega) fun x hx => ?_
    rw [← alignDown_mem_cover_iff haligned]
    have hmem : alignDown x pmmPageSize ∈ framesFrom f n :=
      (mem_framesFrom_iff hf).mpr ⟨dvd_alignDown x pmmPageSize,
        (le_alignDown_iff pmmPageSize_pos hf).mpr hx.1, lt_of_le_of_lt (alignDown_le _ _) hx.2⟩
    exact ((mem_frames_iff haligned).mp (hsub hmem)).2
  · rintro ⟨r, hr, hs, he⟩ g hg
    obtain ⟨hgd, hgs, hge⟩ := (mem_framesFrom_iff hf).mp hg
    exact (mem_frames_iff haligned).mpr ⟨hgd, r, hr, hs.trans hgs, lt_of_lt_of_le hge he⟩

/-! ### Allocation -/

/-- The search takes the first range that is long enough. -/
lemma takeFront_le {bytes frame : ℕ} {ranges rest : List Span} (hsep : Separated ranges)
    (htake : takeFront bytes ranges = some (frame, rest)) {r : Span} (hr : r ∈ ranges)
    (hlong : bytes ≤ r.stop - r.start) : frame ≤ r.start := by
  induction ranges generalizing rest with
  | nil => simp at hr
  | cons q ranges ih =>
    obtain ⟨hq, hgap, hsep'⟩ := separated_cons.mp hsep
    rw [takeFront] at htake
    split at htake
    case isTrue hshort =>
      obtain ⟨⟨frame', rest'⟩, htake', heq⟩ := Option.map_eq_some_iff.mp htake
      obtain rfl : frame' = frame := congrArg Prod.fst heq
      cases hr with
      | head => omega
      | tail _ hr => exact ih hsep' htake' hr
    case isFalse hfits =>
      obtain rfl : q.start = frame := congrArg Prod.fst (Option.some.inj htake)
      cases hr with
      | head => exact le_rfl
      | tail _ hr => exact (hq.trans (hgap r hr)).le

/-- The first frames of the maximal runs of at least `n` frames. -/
def fits (F : Set ℕ) (n : ℕ) : Set ℕ := {f ∈ runStarts F | framesFrom f n ⊆ F}

lemma mem_fits_iff (hsep : Separated l) (haligned : BoundsIn (pmmPageSize ∣ ·) l) {f n : ℕ}
    (hn : 0 < n) :
    f ∈ fits (frames l) n ↔ ∃ r ∈ l, r.start = f ∧ n * pmmPageSize ≤ r.stop - r.start := by
  have hbytes : 0 < n * pmmPageSize := Nat.mul_pos hn pmmPageSize_pos
  constructor
  · rintro ⟨hstart, hsub⟩
    obtain ⟨r, hr, rfl⟩ := (mem_runStarts_iff hsep haligned).mp hstart
    obtain ⟨q, hq, hqs, hqe⟩ :=
      (framesFrom_subset_iff hsep haligned (haligned r hr).1 hn).mp hsub
    have hne := hsep.nonempty r hr
    obtain rfl : q = r := hsep.eq_of_touch hq hr (by omega) (by omega)
    exact ⟨q, hq, rfl, by omega⟩
  · rintro ⟨r, hr, rfl, hlong⟩
    refine ⟨(mem_runStarts_iff hsep haligned).mpr ⟨r, hr, rfl⟩, ?_⟩
    rw [framesFrom_subset_iff hsep haligned (haligned r hr).1 hn]
    exact ⟨r, hr, le_rfl, by omega⟩

/-- Consecutive free frames exist exactly when a maximal run is long enough. -/
lemma fits_nonempty_iff (hsep : Separated l) (haligned : BoundsIn (pmmPageSize ∣ ·) l) {n : ℕ}
    (hn : 0 < n) :
    (fits (frames l) n).Nonempty ↔ ∃ f, pmmPageSize ∣ f ∧ framesFrom f n ⊆ frames l := by
  constructor
  · rintro ⟨f, hstart, hsub⟩
    exact ⟨f, hstart.1.1, hsub⟩
  · rintro ⟨f, hf, hsub⟩
    obtain ⟨r, hr, hs, he⟩ := (framesFrom_subset_iff hsep haligned hf hn).mp hsub
    exact ⟨r.start, (mem_fits_iff hsep haligned hn).mpr ⟨r, hr, rfl, by omega⟩⟩

/-- An allocation that succeeds takes the lowest run that is long enough. -/
lemma pmmAllocFrames_isLeast {s : Pmm} (h : s.Inv) {n f : ℕ} (hn : 0 < n)
    (halloc : (s.pmmAllocFrames n).1 = some f) : IsLeast (fits (frames s.freeRanges) n) f := by
  have hbytes : 0 < n * pmmPageSize := Nat.mul_pos hn pmmPageSize_pos
  rw [pmmAllocFrames] at halloc
  split at halloc
  · simp at halloc
  cases htake : takeFront (n * pmmPageSize) s.freeRanges with
  | none => simp [htake] at halloc
  | some found =>
    obtain ⟨frame, rest⟩ := found
    obtain rfl : frame = f := by simpa [htake] using halloc
    obtain ⟨-, -, -, ⟨r, hr, hrf, hre⟩, -⟩ := takeFront_spec hbytes h.free_sep htake
    have hmem := mem_fits_iff (n := n) (f := frame) h.free_sep h.free_aligned hn
    refine ⟨hmem.mpr ⟨r, hr, hrf, by omega⟩, fun g hg => ?_⟩
    obtain ⟨q, hq, rfl, hlong⟩ := (mem_fits_iff h.free_sep h.free_aligned hn).mp hg
    exact takeFront_le h.free_sep htake hq hlong

/-- An allocation fails exactly when no run is long enough. -/
lemma pmmAllocFrames_eq_none_iff {s : Pmm} (h : s.Inv) {n : ℕ} (hn : 0 < n) :
    (s.pmmAllocFrames n).1 = none ↔ ¬ (fits (frames s.freeRanges) n).Nonempty := by
  rw [pmmAllocFrames_eq_none h hn]
  constructor
  · rintro hshort ⟨f, hf⟩
    obtain ⟨r, hr, -, hlong⟩ := (mem_fits_iff h.free_sep h.free_aligned hn).mp hf
    exact absurd (hshort r hr) (not_lt.mpr hlong)
  · intro hnone r hr
    by_contra hlong
    exact hnone ⟨r.start, (mem_fits_iff h.free_sep h.free_aligned hn).mpr
      ⟨r, hr, rfl, not_lt.mp hlong⟩⟩

/-- What an allocation takes out of the free frames. -/
lemma frames_pmmAllocFrames {s : Pmm} (h : s.Inv) {n f : ℕ}
    (halloc : (s.pmmAllocFrames n).1 = some f) :
    frames (s.pmmAllocFrames n).2.freeRanges = frames s.freeRanges \ framesFrom f n := by
  rcases pmmAllocFrames_spec h n with ⟨f', s', heq, hinv, -, -, hf, -, -, hcover, -⟩ | hnone
  · rw [heq] at halloc ⊢
    obtain rfl : f' = f := Option.some.inj halloc
    ext g
    rw [Set.mem_sdiff, mem_frames_iff hinv.free_aligned, mem_frames_iff h.free_aligned,
      mem_framesFrom_iff hf, hcover, Set.mem_sdiff]
    tauto
  · rw [hnone] at halloc
    exact absurd halloc (by simp)

/-- **Allocation is first fit and complete.**  After any run from `pmm_init` on, a
request for `n` frames is given the lowest first frame of a maximal free run of
at least `n` frames, and exactly those frames leave the free set.  It fails,
changing nothing, exactly when no `n` consecutive frames are free. -/
theorem pmm_alloc_first_fit {boot : BootContext} {s₀ : Pmm}
    (h : pmmInit (some boot) = (.ok, s₀)) (calls : List Call) {n : ℕ} (hn : 0 < n) :
    let s := Runs.final step s₀ calls
    (∀ f, (s.pmmAllocFrames n).1 = some f ↔
      IsLeast {f | f ∈ runStarts (frames s.freeRanges) ∧
        framesFrom f n ⊆ frames s.freeRanges} f) ∧
    (∀ f, (s.pmmAllocFrames n).1 = some f →
      frames (s.pmmAllocFrames n).2.freeRanges = frames s.freeRanges \ framesFrom f n) ∧
    ((s.pmmAllocFrames n).1 = none ↔
      ¬ ∃ f, pmmPageSize ∣ f ∧ framesFrom f n ⊆ frames s.freeRanges) ∧
    ((s.pmmAllocFrames n).1 = none → (s.pmmAllocFrames n).2 = s) := by
  intro s
  have hinv : s.Inv := (final_inv (pmmInit_spec h).1 calls).1
  have hnone := pmmAllocFrames_eq_none_iff hinv hn
  refine ⟨fun f => ⟨pmmAllocFrames_isLeast hinv hn, fun hleast => ?_⟩,
    fun f => frames_pmmAllocFrames hinv, ?_, fun hfail => ?_⟩
  · cases halloc : (s.pmmAllocFrames n).1 with
    | none => exact absurd ⟨f, hleast.1⟩ (hnone.mp halloc)
    | some g => rw [(pmmAllocFrames_isLeast hinv hn halloc).unique hleast]
  · rw [hnone, fits_nonempty_iff hinv.free_sep hinv.free_aligned hn]
  · rcases pmmAllocFrames_spec hinv n with ⟨f, s', heq, -⟩ | heq
    · simp [heq] at hfail
    · rw [heq]

/-- The theorem on one boot, after its first frame is handed out. -/
theorem pmm_alloc_first_fit_eightMiB :
    let s := Runs.final step (pmmInit (some eightMiBBoot)).2 [.allocFrame]
    (s.pmmAllocFrames 16).1 = some 0x101000 ∧
      IsLeast {f | f ∈ runStarts (frames s.freeRanges) ∧
        framesFrom f 16 ⊆ frames s.freeRanges} 0x101000 := by
  intro s
  have hinit : pmmInit (some eightMiBBoot) = (.ok, (pmmInit (some eightMiBBoot)).2) :=
    Prod.ext (by decide) rfl
  have halloc : (s.pmmAllocFrames 16).1 = some 0x101000 := by decide
  exact ⟨halloc, ((pmm_alloc_first_fit hinit [.allocFrame] (by decide)).1 0x101000).mp halloc⟩

/-! ### Release -/

/-- A release of managed frames that are not free only depends on the table. -/
lemma pmmFreeFrames_status {s : Pmm} (h : s.Inv) {f n : ℕ} (hf : pmmPageSize ∣ f) (hn : 0 < n)
    (hmanaged : framesFrom f n ⊆ frames s.managedRanges)
    (hheld : Disjoint (framesFrom f n) (frames s.freeRanges)) :
    (s.pmmFreeFrames f n).1 =
      if s.freeRanges.length < pmmMaxRanges then .ok else .rangeCapacity := by
  have hbytes : 0 < n * pmmPageSize := Nat.mul_pos hn pmmPageSize_pos
  have hmax : uint64Max = 2 ^ 64 - 1 := rfl
  have hargs : ¬ (s.initialised = false ∨ n = 0 ∨ f % pmmPageSize ≠ 0) := by
    simp [h.initialised, hn.ne', Nat.mod_eq_zero_of_dvd hf]
  have hword : ¬ uint64Max - f < n * pmmPageSize := by
    obtain ⟨r, hr, -, he⟩ :=
      (framesFrom_subset_iff h.managed_sep h.managed_aligned hf hn).mp hmanaged
    have := h.managed_word r hr
    omega
  have hcheck : s.checkRelease f n = none := by
    refine checkRelease_eq_none.mpr fun i hi => ?_
    have hmem : f + i * pmmPageSize ∈ framesFrom f n := ⟨i, hi, rfl⟩
    have hd : pmmPageSize ∣ f + i * pmmPageSize := dvd_add hf (Dvd.intro_left i rfl)
    constructor
    · exact (containsFrame_iff h.managed_aligned h.managed_word hd).mpr
        ((mem_frames_iff h.managed_aligned).mp (hmanaged hmem)).2
    · rw [frameIsFree, ← Bool.not_eq_true, containsFrame_iff h.free_aligned h.free_word hd]
      exact fun hfree => Set.disjoint_left.mp hheld hmem
        ((mem_frames_iff h.free_aligned).mpr ⟨hd, hfree⟩)
  simp only [pmmFreeFrames, if_neg hargs, if_neg hword, hcheck]
  by_cases hcap : s.freeRanges.length < pmmMaxRanges
  · obtain ⟨l, hins, -⟩ :=
      insertFreeRange_spec h.free_sep (by omega : f < f + n * pmmPageSize) hcap
    simp [hins, hcap]
  · simp [insertFreeRange_of_full (by omega : f < f + n * pmmPageSize) (not_lt.mp hcap), hcap]

/-- The table never holds more ranges than it has room for. -/
lemma length_insertFreeRange_le_max {ranges : List Span} (hlen : ranges.length ≤ pmmMaxRanges)
    (start stop : ℕ) : (insertFreeRange ranges start stop).2.length ≤ pmmMaxRanges := by
  by_cases hcap : ranges.length < pmmMaxRanges
  · exact (length_insertFreeRange_le ranges start stop).trans hcap
  · by_cases hlt : start < stop
    · rw [insertFreeRange_of_full hlt (not_lt.mp hcap)]
      exact hlen
    · simpa [insertFreeRange, not_lt.mp hlt] using hlen

/-- A release adds at most one range, and none to a full table. -/
lemma length_pmmFreeFrames {s : Pmm} (h : s.freeRanges.length ≤ pmmMaxRanges) (f n : ℕ) :
    (s.pmmFreeFrames f n).2.freeRanges.length ≤ pmmMaxRanges := by
  have hinsert := length_insertFreeRange_le_max h f (f + n * pmmPageSize)
  rw [pmmFreeFrames]
  dsimp only
  split
  · exact h
  split
  · exact h
  split
  · exact h
  · split
    next hins => rwa [hins] at hinsert
    · exact h

/-- The table never holds more ranges than it has room for. -/
lemma length_final {boot : BootContext} {s₀ : Pmm} (h : pmmInit (some boot) = (.ok, s₀))
    (calls : List Call) :
    (Runs.final step s₀ calls).freeRanges.length ≤ pmmMaxRanges := by
  obtain ⟨l, rfl, -, -, hlen, -⟩ := pmmInit_ranges h
  refine Runs.final_induction step (P := fun s => s.freeRanges.length ≤ pmmMaxRanges)
    (fun s c hs => ?_) hlen calls
  cases c with
  | allocFrame => exact (length_pmmAllocFrames s 1).trans hs
  | allocFrames n => exact (length_pmmAllocFrames s n.toNat).trans hs
  | freeFrame f => exact length_pmmFreeFrames hs f.toNat 1
  | freeFrames f n => exact length_pmmFreeFrames hs f.toNat n.toNat

/-- A run of frames that touches a set of others makes no new maximal run: it
goes on with the one before it, or the one after it now starts earlier. -/
lemma ncard_runStarts_union_le {F : Set ℕ} (hfin : (runStarts F).Finite) {f n : ℕ} (hn : 0 < n)
    (hheld : Disjoint (framesFrom f n) F)
    (htouch : (∃ g ∈ F, g + pmmPageSize = f) ∨ f + n * pmmPageSize ∈ F) :
    (runStarts (F ∪ framesFrom f n)).ncard ≤ (runStarts F).ncard := by
  have hsub : ∀ g ∈ runStarts (F ∪ framesFrom f n), g ∈ runStarts F ∨ g = f := by
    rintro g ⟨hg | ⟨i, hi, rfl⟩, hfirst⟩
    · exact .inl ⟨hg, fun k hk => hfirst k (.inl hk)⟩
    · cases i with
      | zero => exact .inr (by simp)
      | succ i =>
        refine absurd ?_ (hfirst (f + i * pmmPageSize) (.inr ⟨i, by omega, rfl⟩))
        ring
  rcases htouch with ⟨g, hg, hnext⟩ | hafter
  · refine Set.ncard_le_ncard (fun k hk => (hsub k hk).resolve_right ?_) hfin
    rintro rfl
    exact hk.2 g (.inl hg) hnext
  · -- the start of the run after it is exchanged for `f`
    have hlast : f + (n - 1) * pmmPageSize ∈ framesFrom f n := ⟨n - 1, by omega, rfl⟩
    have hpred : f + (n - 1) * pmmPageSize + pmmPageSize = f + n * pmmPageSize := by
      obtain ⟨m, rfl⟩ : ∃ m, n = m + 1 := ⟨n - 1, by omega⟩
      rw [Nat.add_sub_cancel]
      ring
    have hstart : f + n * pmmPageSize ∈ runStarts F := by
      refine ⟨hafter, fun g hg hnext => ?_⟩
      obtain rfl : g = f + (n - 1) * pmmPageSize := by omega
      exact Set.disjoint_left.mp hheld hlast hg
    have hexchange : runStarts (F ∪ framesFrom f n) ⊆
        insert f (runStarts F \ {f + n * pmmPageSize}) := by
      intro k hk
      rcases hsub k hk with hk' | rfl
      · refine .inr ⟨hk', ?_⟩
        rintro rfl
        exact hk.2 _ (.inr hlast) hpred
      · exact .inl rfl
    have hle := (Set.ncard_le_ncard hexchange (hfin.sdiff.insert f)).trans (Set.ncard_insert_le _ _)
    rw [Set.ncard_sdiff_singleton_of_mem hstart] at hle
    have hpos : 0 < (runStarts F).ncard := (Set.ncard_pos hfin).mpr ⟨_, hstart⟩
    omega

/-- **Giving frames back.**  After any run from `pmm_init` on, take a run of
managed frames none of which is free, such that the free frames with them are at
most `PMM_MAX_RANGES` maximal runs, for instance because the run touches a free
one.  Its release is granted exactly when the table of ranges is not full. -/
theorem pmm_free_granted_iff {boot : BootContext} {s₀ : Pmm}
    (h : pmmInit (some boot) = (.ok, s₀)) (calls : List Call) {f n : ℕ} (hf : pmmPageSize ∣ f)
    (hn : 0 < n)
    (hmanaged : framesFrom f n ⊆ frames (Runs.final step s₀ calls).managedRanges)
    (hheld : Disjoint (framesFrom f n) (frames (Runs.final step s₀ calls).freeRanges)) :
    let s := Runs.final step s₀ calls
    ((runStarts (frames s.freeRanges ∪ framesFrom f n)).ncard ≤ pmmMaxRanges →
      ((s.pmmFreeFrames f n).1 = .ok ↔ s.freeRanges.length < pmmMaxRanges)) ∧
    (((∃ g ∈ frames s.freeRanges, g + pmmPageSize = f) ∨
        f + n * pmmPageSize ∈ frames s.freeRanges) →
      (runStarts (frames s.freeRanges ∪ framesFrom f n)).ncard ≤ pmmMaxRanges) := by
  intro s
  have hinv : s.Inv := (final_inv (pmmInit_spec h).1 calls).1
  refine ⟨fun _ => ?_, fun htouch => ?_⟩
  · rw [pmmFreeFrames_status hinv hf hn hmanaged hheld]
    split_ifs with hcap <;> simp [hcap]
  obtain ⟨hfin, hcard⟩ := ncard_runStarts hinv.free_sep hinv.free_aligned
  exact (ncard_runStarts_union_le hfin hn hheld htouch).trans (hcard ▸ length_final h calls)

/-- The theorem on one boot, whose first 16 frames are given back. -/
theorem pmm_free_granted_iff_eightMiB :
    let s := Runs.final step (pmmInit (some eightMiBBoot)).2 [.allocFrames 16]
    (s.pmmFreeFrames 0x100000 16).1 = .ok ↔ s.freeRanges.length < pmmMaxRanges := by
  intro s
  have hinit : pmmInit (some eightMiBBoot) = (.ok, (pmmInit (some eightMiBBoot)).2) :=
    Prod.ext (by decide) rfl
  have hinv : s.Inv := (final_inv (pmmInit_spec hinit).1 [.allocFrames 16]).1
  have hf : pmmPageSize ∣ 0x100000 := by decide
  have hmanaged : framesFrom 0x100000 16 ⊆ frames s.managedRanges := by
    rw [framesFrom_subset_iff hinv.managed_sep hinv.managed_aligned hf (by decide)]
    decide
  have hfree : ∀ r ∈ s.freeRanges, 0x110000 ≤ r.start := by decide
  have hheld : Disjoint (framesFrom 0x100000 16) (frames s.freeRanges) := by
    refine Set.disjoint_left.mpr ?_
    rintro g ⟨i, hi, rfl⟩ ⟨-, r, hr, hs, -⟩
    have := hfree r hr
    have hps : pmmPageSize = 4096 := rfl
    rw [hps] at hs
    omega
  have hgranted := pmm_free_granted_iff hinit [.allocFrames 16] hf (by decide) hmanaged hheld
  refine hgranted.1 (hgranted.2 (Or.inr ?_))
  exact (mem_frames_iff hinv.free_aligned).mpr ⟨by decide, ⟨0x110000, 0x200000⟩, by decide,
    by decide, by decide⟩

/-! ### A full table -/

lemma plainRegion_start : 0x100000 < 2 ^ 64 := by decide

lemma plainRegion_length : 0x2000000 < 2 ^ 64 := by decide

/-- A machine with 8192 frames in one piece. -/
def plainBoot : BootContext where
  memoryMap := [⟨0x100000, 0x2000000, .usable, plainRegion_start, plainRegion_length⟩]
  physicalMemoryOffset := 0xffff800000000000
  physicalMemoryLimit := 0x2100000
  framebufferPhysStart := 0
  framebufferPhysEnd := 0
  kernelPhysStart := 0
  kernelPhysEnd := 0
  kernelVirtStart := 0
  kernelVirtEnd := 0

/-- Every other one of `2 * k` frames. -/
def alternate (k : ℕ) : List Span :=
  (List.range k).map fun i => ⟨0x100000 + i * 0x2000, 0x101000 + i * 0x2000⟩

/-- All frames are taken, and then every other one of `2 * k` is given back. -/
def fragment (k : ℕ) : List Call :=
  .allocFrames 8192 :: (List.range k).map fun i => .freeFrame (UInt64.ofNat (0x100000 + i * 0x2000))

lemma separated_alternate (k : ℕ) : Separated (alternate k) := by
  refine ⟨fun r hr => ?_, ?_⟩
  · obtain ⟨i, -, rfl⟩ := mem_map.mp hr
    exact Nat.add_lt_add_right (by decide) _
  · rw [alternate, pairwise_map]
    refine pairwise_lt_range.imp fun {a b} hab => ?_
    dsimp only
    omega

lemma length_alternate (k : ℕ) : (alternate k).length = k := by
  simp [alternate]

lemma frame_alternate_dvd (k : ℕ) : pmmPageSize ∣ 0x100000 + k * 0x2000 := by
  rw [pmmPageSize]
  omega

/-- The next frame to be given back is one of the machine's, -/
lemma framesFrom_alternate_subset {k : ℕ} (hk : k + 1 ≤ pmmMaxRanges) :
    framesFrom (0x100000 + k * 0x2000) 1 ⊆ frames [⟨0x100000, 0x2100000⟩] := by
  rintro g ⟨i, hi, rfl⟩
  obtain rfl : i = 0 := by omega
  have hmax : pmmMaxRanges = 4096 := rfl
  have hps : pmmPageSize = 0x1000 := rfl
  refine ⟨by simpa using frame_alternate_dvd k, _, mem_singleton_self _, ?_, ?_⟩
  · dsimp only
    omega
  · dsimp only
    rw [hps]
    omega

/-- and behind those given back before. -/
lemma framesFrom_alternate_disjoint (k : ℕ) :
    Disjoint (framesFrom (0x100000 + k * 0x2000) 1) (frames (alternate k)) := by
  refine Set.disjoint_left.mpr ?_
  rintro g ⟨i, hi, rfl⟩ ⟨-, r, hr, -, hstop⟩
  obtain ⟨j, hj, rfl⟩ := mem_map.mp hr
  have hlt := mem_range.mp hj
  have hps : pmmPageSize = 0x1000 := rfl
  rw [hps] at hstop
  dsimp only at hstop
  omega

lemma pmmInit_plainBoot : pmmInit (some plainBoot) = (.ok, (pmmInit (some plainBoot)).2) :=
  Prod.ext (by decide) rfl

/-- The free list grows by one range with each frame given back. -/
lemma final_fragment {k : ℕ} (hk : k ≤ pmmMaxRanges) :
    (Runs.final step (pmmInit (some plainBoot)).2 (fragment k)).freeRanges = alternate k := by
  have hmax : pmmMaxRanges = 4096 := rfl
  induction k with
  | zero => decide
  | succ k ih =>
    have ih := ih (by omega)
    have hfragment : fragment (k + 1) =
        fragment k ++ [.freeFrame (UInt64.ofNat (0x100000 + k * 0x2000))] := by
      simp [fragment, range_succ]
    rw [hfragment, Runs.final_append]
    obtain ⟨hinv, hman⟩ := final_inv (pmmInit_spec pmmInit_plainBoot).1 (fragment k)
    generalize Runs.final step (pmmInit (some plainBoot)).2 (fragment k) = s at ih hinv hman
    have hmanaged : s.managedRanges = [⟨0x100000, 0x2100000⟩] := hman.trans (by decide)
    have hword : (UInt64.ofNat (0x100000 + k * 0x2000)).toNat = 0x100000 + k * 0x2000 :=
      UInt64.toNat_ofNat_of_lt' (by rw [UInt64.size]; omega)
    have hok := pmmFreeFrames_status hinv (frame_alternate_dvd k) Nat.one_pos
      (hmanaged ▸ framesFrom_alternate_subset hk) (ih ▸ framesFrom_alternate_disjoint k)
    rw [if_pos (by rw [ih, length_alternate]; omega)] at hok
    simp only [Runs.final_cons, Runs.final_nil, step, hword, pmmFreeFrame]
    rcases pmmFreeFrames_spec hinv (0x100000 + k * 0x2000) 1 with
      ⟨s', heq, hinv', -, -, -, -, -, -, hcover, -⟩ | ⟨st, hst, heq⟩
    · rw [heq]
      refine hinv'.free_sep.ext (separated_alternate _) ?_
      rw [hcover, ih, alternate, alternate, range_succ, map_append, cover_append, map_singleton,
        cover_cons, cover_nil, Set.union_empty]
      congr 2
      have hps : pmmPageSize = 0x1000 := rfl
      rw [hps]
      dsimp only
      omega
    · rw [heq] at hok
      exact absurd hok hst

/-- The table is full, so the frame between the first two free ones cannot be
given back, although it would join them into one range. -/
theorem pmm_free_refused :
    let s := Runs.final step (pmmInit (some plainBoot)).2 (fragment 4096)
    (pmmInit (some plainBoot)).1 = .ok ∧
      framesFrom 0x101000 1 ⊆ frames s.managedRanges ∧
      Disjoint (framesFrom 0x101000 1) (frames s.freeRanges) ∧
      0x100000 ∈ frames s.freeRanges ∧ 0x102000 ∈ frames s.freeRanges ∧
      (s.pmmFreeFrames 0x101000 1).1 = .rangeCapacity := by
  obtain ⟨hinv, hman⟩ := final_inv (pmmInit_spec pmmInit_plainBoot).1 (fragment 4096)
  have hfree := final_fragment (le_refl pmmMaxRanges)
  rw [show pmmMaxRanges = 4096 from rfl] at hfree
  generalize Runs.final step (pmmInit (some plainBoot)).2 (fragment 4096) = s at hinv hman hfree
  have hmanaged : s.managedRanges = [⟨0x100000, 0x2100000⟩] := hman.trans (by decide)
  have hsub : framesFrom 0x101000 1 ⊆ frames s.managedRanges := by
    rw [framesFrom_subset_iff hinv.managed_sep hinv.managed_aligned (by decide) Nat.one_pos,
      hmanaged]
    decide
  have hheld : Disjoint (framesFrom 0x101000 1) (frames s.freeRanges) := by
    rw [hfree]
    refine Set.disjoint_left.mpr ?_
    rintro g ⟨i, hi, rfl⟩ ⟨-, r, hr, hstart, hstop⟩
    obtain ⟨j, -, rfl⟩ := List.mem_map.mp hr
    have hps : pmmPageSize = 0x1000 := rfl
    rw [hps] at hstart hstop
    dsimp only at hstart hstop
    omega
  have hmem : ∀ j < 4096, 0x100000 + j * 0x2000 ∈ frames s.freeRanges := by
    intro j hj
    rw [hfree]
    refine ⟨frame_alternate_dvd j, _, List.mem_map.mpr ⟨j, List.mem_range.mpr hj, rfl⟩, le_rfl, ?_⟩
    have hps : pmmPageSize = 0x1000 := rfl
    rw [hps]
    dsimp only
    omega
  refine ⟨by decide, hsub, hheld, hmem 0 (by decide), hmem 1 (by decide), ?_⟩
  rw [pmmFreeFrames_status hinv (by decide) Nat.one_pos hsub hheld, hfree, length_alternate]
  exact if_neg (lt_irrefl pmmMaxRanges)

end Pmm

end JoshOS
