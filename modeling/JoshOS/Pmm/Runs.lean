import JoshOS.Lib.Runs
import JoshOS.Pmm.Init

/-!
The frame allocator over whole runs.

After `pmm_init` the clients call `pmm_alloc_frame(s)` and `pmm_free_frame(s)` in
any order and with any arguments.  The frames a client holds are a ghost set,
folded over the trace of the run: a successful allocation adds the frames it
returns, a successful release removes the frames it covers.

* `pmmAllocFrames_spec`, `pmmFreeFrames_spec`: what one call does to the free
  addresses and to the invariant.
* `Accounted`: the invariant of the whole run, that the managed frames are the
  free frames and the held frames, and none is both.
* `pmm_run_accounts`: it holds at every step of every run.
-/

namespace JoshOS

open Set Words Spans

namespace Pmm

/-! ### Frames -/

/-- The frames of a list of ranges: the page-aligned addresses whose page lies in
one range. -/
def frames (l : List Span) : Set ℕ :=
  {f | pmmPageSize ∣ f ∧ ∃ r ∈ l, r.start ≤ f ∧ f + pmmPageSize ≤ r.stop}

/-- The `count` consecutive frames from `frame` on. -/
def framesFrom (frame count : ℕ) : Set ℕ := {f | ∃ i < count, f = frame + i * pmmPageSize}

/-- In aligned ranges the frames are the aligned covered addresses. -/
lemma mem_frames_iff {l : List Span} (h : BoundsIn (pmmPageSize ∣ ·) l) {f : ℕ} :
    f ∈ frames l ↔ pmmPageSize ∣ f ∧ f ∈ cover l := by
  refine and_congr_right fun hf => ⟨?_, ?_⟩
  · rintro ⟨r, hr, hs, he⟩
    have := pmmPageSize_pos
    exact ⟨r, hr, hs, by omega⟩
  · rintro ⟨r, hr, hs, he⟩
    exact ⟨r, hr, hs, add_le_of_dvd hf (h r hr).2 he⟩

/-- The frames of a run are the aligned addresses of its interval. -/
lemma mem_framesFrom_iff {frame count f : ℕ} (h : pmmPageSize ∣ frame) :
    f ∈ framesFrom frame count ↔
      pmmPageSize ∣ f ∧ f ∈ Set.Ico frame (frame + count * pmmPageSize) := by
  have hpos := pmmPageSize_pos
  constructor
  · rintro ⟨i, hi, rfl⟩
    refine ⟨dvd_add h (Dvd.intro_left i rfl), by omega, ?_⟩
    have := Nat.mul_lt_mul_of_pos_right hi hpos
    omega
  · rintro ⟨hf, hle, hlt⟩
    obtain ⟨i, hi⟩ := Nat.dvd_sub hf h
    rw [Nat.mul_comm] at hi
    refine ⟨i, ?_, by omega⟩
    exact lt_of_mul_lt_mul_right (by omega : i * pmmPageSize < count * pmmPageSize)
      (Nat.zero_le _)

/-- An address lies in aligned ranges exactly when its page does. -/
lemma alignDown_mem_cover_iff {l : List Span} (h : BoundsIn (pmmPageSize ∣ ·) l) {x : ℕ} :
    alignDown x pmmPageSize ∈ cover l ↔ x ∈ cover l := by
  constructor
  · rintro ⟨r, hr, hs, he⟩
    have hpage := add_le_of_dvd (dvd_alignDown x pmmPageSize) (h r hr).2 he
    have := lt_alignDown_add pmmPageSize_pos x
    exact ⟨r, hr, hs.trans (alignDown_le _ _), by omega⟩
  · rintro ⟨r, hr, hs, he⟩
    exact ⟨r, hr, (le_alignDown_iff pmmPageSize_pos (h r hr).1).mpr hs,
      lt_of_le_of_lt (alignDown_le _ _) he⟩

/-! ### One call -/

/-- **`pmm_alloc_frames`**: a success takes a run of free frames out of the free
addresses; a failure changes nothing. -/
theorem pmmAllocFrames_spec {s : Pmm} (h : s.Inv) (count : ℕ) :
    (∃ f s', s.pmmAllocFrames count = (some f, s') ∧ s'.Inv ∧
      s'.managedRanges = s.managedRanges ∧ s'.totalFrames = s.totalFrames ∧ pmmPageSize ∣ f ∧
      0 < count ∧ Set.Ico f (f + count * pmmPageSize) ⊆ cover s.freeRanges ∧
      cover s'.freeRanges = cover s.freeRanges \ Set.Ico f (f + count * pmmPageSize) ∧
      s'.freeFrames + count = s.freeFrames) ∨
    s.pmmAllocFrames count = (none, s) := by
  rw [pmmAllocFrames]
  split
  case isTrue => exact .inr rfl
  case isFalse hok =>
    push Not at hok
    obtain ⟨-, hcount, hfree⟩ := hok
    rcases htake : takeFront (count * pmmPageSize) s.freeRanges with _ | ⟨f, l⟩
    · exact .inr rfl
    · have hpos : 0 < count * pmmPageSize :=
        Nat.mul_pos (Nat.pos_of_ne_zero hcount) pmmPageSize_pos
      obtain ⟨hsep, hcov, hsub, ⟨r, hr, hrf, hrs⟩, hb⟩ := takeFront_spec hpos h.free_sep htake
      have hf : pmmPageSize ∣ f := hrf ▸ (h.free_aligned r hr).1
      refine .inl ⟨f, _, rfl, ⟨h.initialised, hsep, h.managed_sep, ?_, h.managed_aligned,
        h.managed_word, ?_, ?_, h.total_count⟩, rfl, rfl, hf, Nat.pos_of_ne_zero hcount, hsub,
        hcov, by simp only; omega⟩
      · exact hb _ (dvd_add hf (Dvd.intro_left _ rfl)) h.free_aligned
      · rw [hcov]
        exact sdiff_subset.trans h.free_sub
      · -- the lengths drop by the length of the interval that was taken
        obtain ⟨hfin, hncard⟩ := h.free_sep.ncard_cover
        have hdiff := ncard_sdiff_add_ncard_of_subset hsub hfin
        rw [← hcov, hsep.ncard_cover.2, hncard, ncard_Ico_add, ← h.free_count] at hdiff
        simp only
        rw [Nat.sub_mul]
        omega

/-- An allocation fails exactly when no free range is long enough. -/
lemma pmmAllocFrames_eq_none {s : Pmm} (h : s.Inv) {count : ℕ} (hcount : 0 < count) :
    (s.pmmAllocFrames count).1 = none ↔
      ∀ r ∈ s.freeRanges, r.stop - r.start < count * pmmPageSize := by
  rw [pmmAllocFrames, ← takeFront_eq_none]
  split
  case isTrue hfail =>
    have hfew : s.freeFrames < count := by
      rw [h.initialised] at hfail
      simpa [hcount.ne'] using hfail
    simp only [true_iff]
    refine takeFront_eq_none.mpr fun r hr => lt_of_le_of_lt (length_le_total hr) ?_
    rw [← h.free_count]
    exact Nat.mul_lt_mul_of_pos_right hfew pmmPageSize_pos
  case isFalse =>
    cases takeFront (count * pmmPageSize) s.freeRanges <;> simp

/-- Allocating never adds a range. -/
lemma length_pmmAllocFrames (s : Pmm) (count : ℕ) :
    (s.pmmAllocFrames count).2.freeRanges.length ≤ s.freeRanges.length := by
  rw [pmmAllocFrames]
  split
  · exact le_refl _
  · split
    · exact le_refl _
    · rename_i frame ranges htake
      exact takeFront_length htake

/-- With enough frames for the number of ranges, some range is long. -/
lemma exists_long_range {s : Pmm} (h : s.Inv) {count : ℕ}
    (hmany : s.freeRanges.length * count < s.freeFrames) :
    ∃ r ∈ s.freeRanges, count * pmmPageSize ≤ r.stop - r.start := by
  by_contra hnone
  push Not at hnone
  have hsum : total s.freeRanges ≤ s.freeRanges.length * (count * pmmPageSize) := by
    have hle := List.sum_le_card_nsmul (s.freeRanges.map Span.length) (count * pmmPageSize) (by
      intro n hn
      obtain ⟨r, hr, rfl⟩ := List.mem_map.mp hn
      exact (hnone r hr).le)
    rwa [List.length_map, smul_eq_mul] at hle
  rw [← h.free_count, ← Nat.mul_assoc] at hsum
  exact absurd (Nat.le_of_mul_le_mul_right hsum pmmPageSize_pos) (not_le.mpr hmany)

/-- One frame can be had as long as one is free. -/
lemma freeFrames_eq_zero {s : Pmm} (h : s.Inv) (hnone : s.pmmAllocFrame.1 = none) :
    s.freeFrames = 0 := by
  have hshort := (pmmAllocFrames_eq_none h Nat.one_pos).mp hnone
  have hnil : s.freeRanges = [] := by
    refine List.eq_nil_iff_forall_not_mem.mpr fun r hr => ?_
    have hlt := h.free_sep.nonempty r hr
    have hle := add_le_of_dvd (h.free_aligned r hr).1 (h.free_aligned r hr).2 hlt
    have := hshort r hr
    omega
  have hcount := h.free_count
  rw [hnil, total_nil] at hcount
  exact (Nat.mul_eq_zero.mp hcount).resolve_right pmmPageSize_pos.ne'

/-- The free ranges end below `2 ^ 64`, as the managed ones do. -/
lemma Inv.free_word {s : Pmm} (h : s.Inv) : ∀ r ∈ s.freeRanges, r.stop < 2 ^ 64 := by
  intro r hr
  have hne := h.free_sep.nonempty r hr
  have hlast : r.stop - 1 ∈ cover s.managedRanges :=
    h.free_sub ⟨r, hr, Nat.le_sub_one_of_lt hne, Nat.sub_lt (by omega) Nat.one_pos⟩
  obtain ⟨q, hq, hqs⟩ := hlast
  have := h.managed_word q hq
  simp only [Span.mem_points] at hqs
  omega

lemma containsFrame_iff {l : List Span} (haligned : BoundsIn (pmmPageSize ∣ ·) l)
    (hword : ∀ r ∈ l, r.stop < 2 ^ 64) {f : ℕ} (hf : pmmPageSize ∣ f) :
    l.any (containsFrame · f) = true ↔ f ∈ cover l := by
  have hmax : uint64Max = 2 ^ 64 - 1 := rfl
  simp only [List.any_eq_true, containsFrame, decide_eq_true_eq]
  constructor
  · rintro ⟨r, hr, hs, -, he⟩
    have := pmmPageSize_pos
    exact ⟨r, hr, hs, by omega⟩
  · rintro ⟨r, hr, hs, he⟩
    have h1 := add_le_of_dvd hf (haligned r hr).2 he
    have h2 := hword r hr
    have h3 : pmmPageSize ∣ 2 ^ 64 := by decide
    have h4 := add_le_of_dvd (haligned r hr).2 h3 h2
    exact ⟨r, hr, hs, by omega, h1⟩

/-- The checking loop of `pmm_free_frames` passes exactly when every frame of the
run is managed and not free. -/
lemma checkRelease_eq_none {s : Pmm} {count : ℕ} {f : ℕ} :
    s.checkRelease f count = none ↔
      ∀ i < count, s.frameIsManaged (f + i * pmmPageSize) = true ∧
        s.frameIsFree (f + i * pmmPageSize) = false := by
  induction count generalizing f with
  | zero => simp [checkRelease]
  | succ count ih =>
    rw [checkRelease]
    split
    case isTrue hm =>
      simp only [reduceCtorEq, false_iff]
      intro hall
      have := hall 0 (Nat.succ_pos _)
      simp [hm] at this
    case isFalse hm =>
      split
      case isTrue hf =>
        simp only [reduceCtorEq, false_iff]
        intro hall
        have := hall 0 (Nat.succ_pos _)
        simp [hf] at this
      case isFalse hf =>
        rw [ih]
        constructor
        · intro hall i hi
          cases i with
          | zero => simpa using And.intro hm hf
          | succ i =>
            have := hall i (by omega)
            rwa [show f + (i + 1) * pmmPageSize = f + pmmPageSize + i * pmmPageSize by ring]
        · intro hall i hi
          have := hall (i + 1) (by omega)
          rwa [show f + (i + 1) * pmmPageSize = f + pmmPageSize + i * pmmPageSize by ring] at this

/-- The checking loop only ever stops with an error. -/
lemma checkRelease_ne_ok {s : Pmm} {f count : ℕ} : s.checkRelease f count ≠ some .ok := by
  induction count generalizing f with
  | zero => simp [checkRelease]
  | succ count ih =>
    rw [checkRelease]
    split
    · simp
    · split
      · simp
      · exact ih

/-- **`pmm_free_frames`**: a success gives a run of managed frames, none of them
free, back to the free addresses; a failure changes nothing. -/
theorem pmmFreeFrames_spec {s : Pmm} (h : s.Inv) (f count : ℕ) :
    (∃ s', s.pmmFreeFrames f count = (.ok, s') ∧ s'.Inv ∧
      s'.managedRanges = s.managedRanges ∧ s'.totalFrames = s.totalFrames ∧ pmmPageSize ∣ f ∧
      0 < count ∧ Set.Ico f (f + count * pmmPageSize) ⊆ cover s.managedRanges ∧
      Disjoint (Set.Ico f (f + count * pmmPageSize)) (cover s.freeRanges) ∧
      cover s'.freeRanges = cover s.freeRanges ∪ Set.Ico f (f + count * pmmPageSize) ∧
      s'.freeFrames = s.freeFrames + count) ∨
    ∃ st, st ≠ .ok ∧ s.pmmFreeFrames f count = (st, s) := by
  rw [pmmFreeFrames]
  split
  case isTrue => exact .inr ⟨_, by decide, rfl⟩
  case isFalse hok =>
    push Not at hok
    obtain ⟨-, hcount, hmod⟩ := hok
    have hf : pmmPageSize ∣ f := Nat.dvd_of_mod_eq_zero hmod
    simp only
    split
    case isTrue => exact .inr ⟨_, by decide, rfl⟩
    case isFalse hfit =>
      rcases hcheck : s.checkRelease f count with _ | status
      · simp only
        have hpos : 0 < count * pmmPageSize :=
          Nat.mul_pos (Nat.pos_of_ne_zero hcount) pmmPageSize_pos
        have hall := checkRelease_eq_none.mp hcheck
        -- every page of the interval is one of the frames that were checked
        have hpage : ∀ x ∈ Set.Ico f (f + count * pmmPageSize),
            x ∈ cover s.managedRanges ∧ x ∉ cover s.freeRanges := by
          intro x hx
          have hxd := dvd_alignDown x pmmPageSize
          have hmem : alignDown x pmmPageSize ∈ framesFrom f count :=
            (mem_framesFrom_iff hf).mpr ⟨hxd, (le_alignDown_iff pmmPageSize_pos hf).mpr hx.1,
              lt_of_le_of_lt (alignDown_le _ _) hx.2⟩
          obtain ⟨i, hi, hxi⟩ := hmem
          obtain ⟨hm, hfr⟩ := hall i hi
          rw [← hxi] at hm hfr
          constructor
          · rw [← alignDown_mem_cover_iff h.managed_aligned]
            exact (containsFrame_iff h.managed_aligned h.managed_word hxd).mp hm
          · rw [← alignDown_mem_cover_iff h.free_aligned,
              ← containsFrame_iff h.free_aligned h.free_word hxd]
            rw [frameIsFree] at hfr
            simp [hfr]
        have hsub : Set.Ico f (f + count * pmmPageSize) ⊆ cover s.managedRanges :=
          fun x hx => (hpage x hx).1
        have hdisj : Disjoint (Set.Ico f (f + count * pmmPageSize)) (cover s.freeRanges) :=
          disjoint_left.mpr fun x hx => (hpage x hx).2
        by_cases hcap : s.freeRanges.length < pmmMaxRanges
        · obtain ⟨l, hins, hsep, hcov, hb⟩ :=
            insertFreeRange_spec h.free_sep (by omega : f < f + count * pmmPageSize) hcap
          rw [hins]
          refine .inl ⟨_, rfl, ⟨h.initialised, hsep, h.managed_sep, ?_, h.managed_aligned,
            h.managed_word, ?_, ?_, h.total_count⟩, rfl, rfl, hf, Nat.pos_of_ne_zero hcount, hsub,
            hdisj, hcov, rfl⟩
          · exact hb _ hf (dvd_add hf (Dvd.intro_left _ rfl)) h.free_aligned
          · rw [hcov]
            exact union_subset h.free_sub hsub
          · obtain ⟨hfin, hncard⟩ := h.free_sep.ncard_cover
            have hunion := ncard_union_eq hdisj.symm hfin (finite_Ico _ _)
            rw [← hcov, hsep.ncard_cover.2, hncard, ncard_Ico_add, ← h.free_count] at hunion
            simp only
            rw [Nat.add_mul, hunion]
        · rw [insertFreeRange_of_full (by omega) (not_lt.mp hcap)]
          exact .inr ⟨_, by decide, rfl⟩
      · refine .inr ⟨status, ?_, rfl⟩
        rintro rfl
        exact checkRelease_ne_ok hcheck

/-! ### Runs -/

/-- A call of the allocator's interface, with any arguments of the types of
`pmm.h`. -/
inductive Call where
  | allocFrame
  | allocFrames (frameCount : UInt32)
  | freeFrame (physicalAddress : UInt64)
  | freeFrames (physicalAddress : UInt64) (frameCount : UInt32)

/-- What a call returns: a frame or `PMM_INVALID_FRAME`, or a status. -/
inductive Reply where
  | frame (frame : Option ℕ)
  | status (status : PmmStatus)

/-- One call. -/
def step (s : Pmm) : Call → Reply × Pmm
  | .allocFrame => (.frame s.pmmAllocFrame.1, s.pmmAllocFrame.2)
  | .allocFrames n => (.frame (s.pmmAllocFrames n.toNat).1, (s.pmmAllocFrames n.toNat).2)
  | .freeFrame f => (.status (s.pmmFreeFrame f.toNat).1, (s.pmmFreeFrame f.toNat).2)
  | .freeFrames f n =>
    (.status (s.pmmFreeFrames f.toNat n.toNat).1, (s.pmmFreeFrames f.toNat n.toNat).2)

/-- A reply that reports failure. -/
def Reply.failed : Reply → Prop
  | .frame f => f = none
  | .status st => st ≠ .ok

/-- The frames an answered call has handed out. -/
def handedOut : Call × Reply → Set ℕ
  | (.allocFrame, .frame (some f)) => framesFrom f 1
  | (.allocFrames n, .frame (some f)) => framesFrom f n.toNat
  | _ => ∅

/-- The frames an answered call has taken back. -/
def takenBack : Call × Reply → Set ℕ
  | (.freeFrame f, .status .ok) => framesFrom f.toNat 1
  | (.freeFrames f n, .status .ok) => framesFrom f.toNat n.toNat
  | _ => ∅

/-- The frames held after one more answered call. -/
def updateHeld (held : Set ℕ) (e : Call × Reply) : Set ℕ := (held ∪ handedOut e) \ takenBack e

/-- The frames returned by an allocation and not since covered by a successful
release, along a trace. -/
def heldAfter (trace : List (Call × Reply)) : Set ℕ := trace.foldl updateHeld ∅

/-- The invariant of the whole run: the managed frames are the free frames and
the held frames, and no frame is both. -/
structure Accounted (s : Pmm) (held : Set ℕ) : Prop where
  inv : s.Inv
  managed : frames s.managedRanges = frames s.freeRanges ∪ held
  disjoint : Disjoint (frames s.freeRanges) held

/-- One call either fails and changes nothing, or hands out free frames, or takes
back managed frames that are not free. -/
lemma step_cases {s : Pmm} (h : s.Inv) (c : Call) :
    ((s.step c).1.failed ∧ (s.step c).2 = s ∧ handedOut (c, (s.step c).1) = ∅ ∧
      takenBack (c, (s.step c).1) = ∅) ∨
    (¬ (s.step c).1.failed ∧ (s.step c).2.Inv ∧
      (s.step c).2.managedRanges = s.managedRanges ∧ takenBack (c, (s.step c).1) = ∅ ∧
      handedOut (c, (s.step c).1) ⊆ frames s.freeRanges ∧
      frames (s.step c).2.freeRanges = frames s.freeRanges \ handedOut (c, (s.step c).1)) ∨
    (¬ (s.step c).1.failed ∧ (s.step c).2.Inv ∧
      (s.step c).2.managedRanges = s.managedRanges ∧ handedOut (c, (s.step c).1) = ∅ ∧
      takenBack (c, (s.step c).1) ⊆ frames s.managedRanges ∧
      Disjoint (takenBack (c, (s.step c).1)) (frames s.freeRanges) ∧
      frames (s.step c).2.freeRanges = frames s.freeRanges ∪ takenBack (c, (s.step c).1)) := by
  have alloc : ∀ n, s.pmmAllocFrames n = (none, s) ∨
      ∃ f s', s.pmmAllocFrames n = (some f, s') ∧ s'.Inv ∧
        s'.managedRanges = s.managedRanges ∧ framesFrom f n ⊆ frames s.freeRanges ∧
        frames s'.freeRanges = frames s.freeRanges \ framesFrom f n := by
    intro n
    rcases pmmAllocFrames_spec h n with ⟨f, s', heq, hinv, hman, -, hf, -, hsub, hcov, -⟩ | hnone
    · refine .inr ⟨f, s', heq, hinv, hman, fun x hx => ?_, ?_⟩
      · obtain ⟨hxd, hxi⟩ := (mem_framesFrom_iff hf).mp hx
        exact (mem_frames_iff h.free_aligned).mpr ⟨hxd, hsub hxi⟩
      · ext x
        rw [mem_sdiff, mem_frames_iff hinv.free_aligned, mem_frames_iff h.free_aligned,
          mem_framesFrom_iff hf, hcov, mem_sdiff]
        tauto
    · exact .inl hnone
  have release : ∀ f n, (∃ st, st ≠ .ok ∧ s.pmmFreeFrames f n = (st, s)) ∨
      ∃ s', s.pmmFreeFrames f n = (.ok, s') ∧ s'.Inv ∧
        s'.managedRanges = s.managedRanges ∧ framesFrom f n ⊆ frames s.managedRanges ∧
        Disjoint (framesFrom f n) (frames s.freeRanges) ∧
        frames s'.freeRanges = frames s.freeRanges ∪ framesFrom f n := by
    intro f n
    rcases pmmFreeFrames_spec h f n with
      ⟨s', heq, hinv, hman, -, hf, -, hsub, hdisj, hcov, -⟩ | hfail
    · refine .inr ⟨s', heq, hinv, hman, fun x hx => ?_, disjoint_left.mpr fun x hx hx' => ?_,
        ?_⟩
      · obtain ⟨hxd, hxi⟩ := (mem_framesFrom_iff hf).mp hx
        exact (mem_frames_iff h.managed_aligned).mpr ⟨hxd, hsub hxi⟩
      · obtain ⟨hxd, hxi⟩ := (mem_framesFrom_iff hf).mp hx
        exact disjoint_left.mp hdisj hxi ((mem_frames_iff h.free_aligned).mp hx').2
      · ext x
        rw [mem_union, mem_frames_iff hinv.free_aligned, mem_frames_iff h.free_aligned,
          mem_framesFrom_iff hf, hcov, mem_union]
        tauto
    · exact .inl hfail
  cases c with
  | allocFrame =>
    rcases alloc 1 with hnone | ⟨f, s', heq, hinv, hman, hsub, hfr⟩
    · exact .inl (by simp [step, pmmAllocFrame, hnone, Reply.failed, handedOut, takenBack])
    · refine .inr (.inl ?_)
      simp only [step, pmmAllocFrame, heq, Reply.failed, handedOut, takenBack]
      exact ⟨by simp, hinv, hman, trivial, hsub, hfr⟩
  | allocFrames n =>
    rcases alloc n.toNat with hnone | ⟨f, s', heq, hinv, hman, hsub, hfr⟩
    · exact .inl (by simp [step, hnone, Reply.failed, handedOut, takenBack])
    · refine .inr (.inl ?_)
      simp only [step, heq, Reply.failed, handedOut, takenBack]
      exact ⟨by simp, hinv, hman, trivial, hsub, hfr⟩
  | freeFrame f =>
    rcases release f.toNat 1 with ⟨st, hst, heq⟩ | ⟨s', heq, hinv, hman, hsub, hdisj, hfr⟩
    · exact .inl (by simp [step, pmmFreeFrame, heq, Reply.failed, handedOut, takenBack, hst])
    · refine .inr (.inr ?_)
      simp only [step, pmmFreeFrame, heq, Reply.failed, handedOut, takenBack]
      exact ⟨by simp, hinv, hman, trivial, hsub, hdisj, hfr⟩
  | freeFrames f n =>
    rcases release f.toNat n.toNat with ⟨st, hst, heq⟩ | ⟨s', heq, hinv, hman, hsub, hdisj, hfr⟩
    · exact .inl (by simp [step, heq, Reply.failed, handedOut, takenBack, hst])
    · refine .inr (.inr ?_)
      simp only [step, heq, Reply.failed, handedOut, takenBack]
      exact ⟨by simp, hinv, hman, trivial, hsub, hdisj, hfr⟩

/-- The step lemma of the run invariant. -/
lemma Accounted.step {s : Pmm} {held : Set ℕ} (h : Accounted s held) (c : Call) :
    Accounted (s.step c).2 (updateHeld held (c, (s.step c).1)) := by
  rcases step_cases h.inv c with ⟨-, hs, hout, hback⟩ | ⟨-, hinv, hman, hback, hsub, hfr⟩ |
    ⟨-, hinv, hman, hout, hsub, hdisj, hfr⟩
  · rw [updateHeld, hout, hback, hs]
    simpa using h
  · refine ⟨hinv, ?_, ?_⟩
    · rw [updateHeld, hback, hman, hfr, h.managed, sdiff_empty]
      ext x
      simp only [mem_union, mem_sdiff]
      have := @hsub x
      tauto
    · rw [updateHeld, hback, hfr, sdiff_empty]
      refine disjoint_left.mpr fun x hx hx' => ?_
      rcases hx' with hx' | hx'
      · exact disjoint_left.mp h.disjoint hx.1 hx'
      · exact hx.2 hx'
  · rw [h.managed] at hsub
    refine ⟨hinv, ?_, ?_⟩
    · rw [updateHeld, hout, hman, hfr, h.managed, union_empty]
      ext x
      simp only [mem_union, mem_sdiff]
      have := @hsub x
      simp only [mem_union] at this
      tauto
    · rw [updateHeld, hout, hfr, union_empty]
      refine disjoint_left.mpr fun x hx hx' => ?_
      rcases hx with hx | hx
      · exact disjoint_left.mp h.disjoint hx hx'.1
      · exact hx'.2 hx

/-- Every call keeps the invariant and the managed ranges, -/
lemma step_inv {s : Pmm} (h : s.Inv) (c : Call) :
    (s.step c).2.Inv ∧ (s.step c).2.managedRanges = s.managedRanges := by
  rcases step_cases h c with ⟨-, hs, -, -⟩ | ⟨-, hinv, hman, -⟩ | ⟨-, hinv, hman, -⟩
  · rw [hs]
    exact ⟨h, rfl⟩
  · exact ⟨hinv, hman⟩
  · exact ⟨hinv, hman⟩

/-- and so does every run. -/
lemma final_inv {s : Pmm} (h : s.Inv) (calls : List Call) :
    (Runs.final Pmm.step s calls).Inv ∧
      (Runs.final Pmm.step s calls).managedRanges = s.managedRanges := by
  refine Runs.final_induction Pmm.step
    (P := fun t => t.Inv ∧ t.managedRanges = s.managedRanges) (fun t c ht => ?_) ⟨h, rfl⟩ calls
  obtain ⟨hinv, hman⟩ := step_inv ht.1 c
  exact ⟨hinv, hman.trans ht.2⟩

/-- After `pmm_init` nothing is held. -/
lemma Accounted.init {boot : BootContext} {s : Pmm} (h : pmmInit (some boot) = (.ok, s)) :
    Accounted s ∅ := by
  obtain ⟨hinv, hfree, -, -, -⟩ := pmmInit_spec h
  exact ⟨hinv, by rw [hfree, union_empty], disjoint_empty _⟩

/-- The run lemma: the invariant holds after every run. -/
lemma Accounted.run {boot : BootContext} {s : Pmm} (h : pmmInit (some boot) = (.ok, s))
    (calls : List Call) :
    Accounted (Runs.final Pmm.step s calls) (heldAfter (Runs.trace Pmm.step s calls)) :=
  Runs.ghost_induction Pmm.step (fun _ _ c hP => hP.step c) (Accounted.init h) calls

/-- A held frame stays held until a successful release covers it. -/
lemma mem_held_of_not_takenBack {x : ℕ} {trace : List (Call × Reply)} {held : Set ℕ}
    (hx : x ∈ held) (hnot : ∀ e ∈ trace, x ∉ takenBack e) : x ∈ trace.foldl updateHeld held := by
  induction trace generalizing held with
  | nil => exact hx
  | cons e trace ih =>
    refine ih ⟨.inl hx, hnot e (by simp)⟩ fun e' he' => hnot e' (by simp [he'])

/-- A frame that two answered calls of a run hand out is taken back in between. -/
lemma exists_takenBack_between {boot : BootContext} {s : Pmm}
    (h : pmmInit (some boot) = (.ok, s)) {calls : List Call} {pre mid post : List (Call × Reply)}
    {e₁ e₂ : Call × Reply} {x : ℕ}
    (ht : Runs.trace step s calls = pre ++ e₁ :: (mid ++ e₂ :: post))
    (h₁ : x ∈ handedOut e₁) (h₂ : x ∈ handedOut e₂) : ∃ e ∈ mid, x ∈ takenBack e := by
  by_contra hnone
  push Not at hnone
  -- cut the run right before the second allocation
  have hcut : Runs.trace step s calls = (pre ++ e₁ :: mid) ++ e₂ :: post := by simp [ht]
  obtain ⟨js, ks, rfl, hjs, hks⟩ := Runs.trace_split step hcut
  have hacc := Accounted.run h js
  have hheld : x ∈ heldAfter (Runs.trace step s js) := by
    rw [heldAfter, hjs, List.foldl_append, List.foldl_cons]
    refine mem_held_of_not_takenBack ⟨.inr h₁, ?_⟩ hnone
    -- one answered call never both hands out and takes back
    rcases e₁ with ⟨c, r⟩
    cases c <;> simp [handedOut, takenBack] at h₁ ⊢
  cases ks with
  | nil => simp at hks
  | cons c ks =>
    simp only [Runs.trace_cons, List.cons.injEq] at hks
    obtain ⟨rfl, -⟩ := hks
    have hfree : x ∈ frames (Runs.final step s js).freeRanges := by
      rcases step_cases hacc.inv c with ⟨-, -, hout, -⟩ | ⟨-, -, -, -, hsub, -⟩ |
        ⟨-, -, -, hout, -⟩
      · rw [hout] at h₂
        exact absurd h₂ (notMem_empty x)
      · exact hsub h₂
      · rw [hout] at h₂
        exact absurd h₂ (notMem_empty x)
    exact disjoint_left.mp hacc.disjoint hfree hheld

/-- **The frame allocator over whole runs**: after every sequence of calls the
free list is sorted, page aligned, without empty, overlapping or touching ranges
and inside the managed ranges; `free_frames` is the number of free frames and at
most `total_frames`; the managed frames are the disjoint union of the free and the
held ones; a frame is handed out again only after it was taken back; and a call
that reports an error leaves the state alone. -/
theorem pmm_run_accounts {boot : BootContext} {s₀ : Pmm} (h : pmmInit (some boot) = (.ok, s₀))
    (calls : List Call) :
    let s := Runs.final step s₀ calls
    let trace := Runs.trace step s₀ calls
    (s.freeRanges.Pairwise fun a b => a.stop < b.start) ∧
    (∀ r ∈ s.freeRanges, r.start < r.stop ∧ pmmPageSize ∣ r.start ∧ pmmPageSize ∣ r.stop ∧
      ∃ m ∈ s.managedRanges, m.start ≤ r.start ∧ r.stop ≤ m.stop) ∧
    s.managedRanges = s₀.managedRanges ∧
    s.freeFrames = total s.freeRanges / pmmPageSize ∧ s.freeFrames ≤ s.totalFrames ∧
    frames s.managedRanges = frames s.freeRanges ∪ heldAfter trace ∧
    Disjoint (frames s.freeRanges) (heldAfter trace) ∧
    (∀ pre e₁ mid e₂ post x, trace = pre ++ e₁ :: (mid ++ e₂ :: post) →
      x ∈ handedOut e₁ → x ∈ handedOut e₂ → ∃ e ∈ mid, x ∈ takenBack e) ∧
    ∀ c, (s.step c).1.failed → (s.step c).2 = s := by
  intro s trace
  have hacc : Accounted s (heldAfter trace) := Accounted.run h calls
  have hinv := hacc.inv
  have hman : s.managedRanges = s₀.managedRanges := (final_inv (pmmInit_spec h).1 calls).2
  refine ⟨hinv.free_sep.gap, fun r hr => ⟨hinv.free_sep.nonempty r hr, (hinv.free_aligned r hr).1,
    (hinv.free_aligned r hr).2, ?_⟩, hman, ?_, ?_, hacc.managed, hacc.disjoint,
    fun pre e₁ mid e₂ post x ht => exists_takenBack_between h ht, fun c hfail => ?_⟩
  · exact hinv.managed_sep.exists_of_Ico_subset (hinv.free_sep.nonempty r hr)
      fun x hx => hinv.free_sub ⟨r, hr, hx⟩
  · rw [← hinv.free_count, Nat.mul_div_cancel _ pmmPageSize_pos]
  · obtain ⟨hfin, hcard⟩ := hinv.managed_sep.ncard_cover
    have hle := Set.ncard_le_ncard hinv.free_sub hfin
    rw [hcard, hinv.free_sep.ncard_cover.2, ← hinv.free_count, ← hinv.total_count] at hle
    exact Nat.le_of_mul_le_mul_right hle pmmPageSize_pos
  · rcases step_cases hinv c with ⟨-, hs, -⟩ | ⟨hok, -⟩ | ⟨hok, -⟩
    · exact hs
    · exact absurd hfail hok
    · exact absurd hfail hok

/-- The theorem on one boot and one run: two allocations, the release of the
first run of frames, and a double free. -/
theorem pmm_run_accounts_eightMiB :
    let calls : List Call :=
      [.allocFrames 16, .allocFrame, .freeFrames 0x100000 16, .freeFrame 0x100000]
    let s₀ := (pmmInit (some eightMiBBoot)).2
    (pmmInit (some eightMiBBoot)).1 = .ok ∧
      frames s₀.managedRanges = frames (Runs.final step s₀ calls).freeRanges ∪
        heldAfter (Runs.trace step s₀ calls) ∧
      (Runs.final step s₀ calls).freeFrames = 1785 := by
  intro calls s₀
  have hinit : pmmInit (some eightMiBBoot) = (.ok, s₀) := Prod.ext (by decide) rfl
  have hrun := pmm_run_accounts hinit calls
  exact ⟨by decide, hrun.2.2.1 ▸ hrun.2.2.2.2.2.1, by decide⟩

end Pmm

end JoshOS
