import JoshOS.Pmm.Model

/-!
What the array operations of `pmm.c` do to the set of free addresses.

The free list is a separated list of spans, and each operation acts on the set
`cover` of its addresses: `insert_free_range` adds an interval
(`insertFreeRange_spec`), `remove_interval` subtracts one
(`removeInterval_spec`), and the search of `pmm_alloc_frames` splits one off the
front of a range (`takeFront_spec`).  Each keeps the list separated and creates
no end point other than those it is given, so alignment is kept as well.
-/

namespace JoshOS

open List Words Spans

namespace Pmm

/-! ### Insertion -/

/-- Extending a range over an interval that starts inside it or at its end adds
exactly that interval. -/
lemma points_extendTo {r : Span} {start stop : ℕ} (hle : r.start ≤ start)
    (hreach : start ≤ r.stop) :
    (extendTo r stop).points = r.points ∪ Set.Ico start stop := by
  ext x
  simp only [extendTo, Span.mem_points, Set.mem_union, Set.mem_Ico]
  split <;> omega

/-- Extending a range creates no new end points. -/
lemma extendTo_bounds {P : ℕ → Prop} {r : Span} {stop : ℕ} (hr : P r.start ∧ P r.stop)
    (hstop : P stop) : P (extendTo r stop).start ∧ P (extendTo r stop).stop := by
  refine ⟨hr.1, ?_⟩
  simp only [extendTo]
  split
  · exact hstop
  · exact hr.2

lemma stop_le_extendTo (r : Span) (stop : ℕ) : r.stop ≤ (extendTo r stop).stop := by
  simp only [extendTo]
  split <;> omega

/-- The absorbing loop adds its range to the cover and nothing starts before it. -/
lemma absorbFollowing_spec (current : Span) {rest : List Span}
    (hcur : current.start < current.stop) (hrest : Separated rest)
    (hle : ∀ r ∈ rest, current.start ≤ r.start) :
    Separated (absorbFollowing current rest) ∧
      cover (absorbFollowing current rest) = current.points ∪ cover rest ∧
      ∀ c ∈ absorbFollowing current rest, current.start ≤ c.start := by
  induction rest generalizing current with
  | nil =>
    refine ⟨separated_cons.mpr ⟨hcur, by simp, separated_nil⟩, by simp [absorbFollowing], ?_⟩
    simp [absorbFollowing]
  | cons next rest ih =>
    obtain ⟨hnext, hgap, hsep⟩ := separated_cons.mp hrest
    have hcn := hle next (by simp)
    rw [absorbFollowing]
    split
    case isTrue htouch =>
      obtain ⟨hs, hc, hge⟩ := ih (extendTo current next.stop)
        (lt_of_lt_of_le hcur (stop_le_extendTo _ _)) hsep
        (fun r hr => hcn.trans (hnext.le.trans (hgap r hr).le))
      refine ⟨hs, ?_, hge⟩
      rw [hc, cover_cons, points_extendTo hcn htouch, Set.union_assoc]
      rfl
    case isFalse hapart =>
      refine ⟨separated_cons.mpr ⟨hcur, fun b hb => ?_, hrest⟩, by simp, fun c hc => ?_⟩
      · rcases mem_cons.mp hb with rfl | hb'
        · omega
        · have := hgap b hb'
          omega
      · rcases mem_cons.mp hc with rfl | hc'
        · exact le_refl _
        · exact hle c hc'

/-- The absorbing loop creates no new end points. -/
lemma boundsIn_absorbFollowing {P : ℕ → Prop} {current : Span} {rest : List Span}
    (hcur : P current.start ∧ P current.stop) (hrest : BoundsIn P rest) :
    BoundsIn P (absorbFollowing current rest) := by
  induction rest generalizing current with
  | nil => exact boundsIn_cons.mpr ⟨hcur, boundsIn_nil⟩
  | cons next rest ih =>
    obtain ⟨hn, hr⟩ := boundsIn_cons.mp hrest
    rw [absorbFollowing]
    split
    · exact ih (extendTo_bounds hcur hn.2) hr
    · exact boundsIn_cons.mpr ⟨hcur, hrest⟩

/-- Past the scan of `insert_free_range` every range starts at or after the new
one. -/
lemma le_start_of_mem_dropWhile {ranges : List Span} (h : Separated ranges) {start : ℕ} :
    ∀ r ∈ ranges.dropWhile (fun r => decide (r.start < start)), start ≤ r.start := by
  induction ranges with
  | nil => simp
  | cons r ranges ih =>
    obtain ⟨hr, hgap, hsep⟩ := separated_cons.mp h
    by_cases hlt : r.start < start
    · rw [dropWhile_cons_of_pos (by simpa using hlt)]
      exact ih hsep
    · rw [dropWhile_cons_of_neg (by simpa using hlt)]
      intro c hc
      rcases mem_cons.mp hc with rfl | hc'
      · omega
      · have := hgap c hc'
        omega

/-- **`insert_free_range`**: below capacity the interval joins the free addresses
and the list stays separated. -/
theorem insertFreeRange_spec {ranges : List Span} (h : Separated ranges) {start stop : ℕ}
    (hlt : start < stop) (hcap : ranges.length < pmmMaxRanges) :
    ∃ l, insertFreeRange ranges start stop = (.ok, l) ∧ Separated l ∧
      cover l = cover ranges ∪ Set.Ico start stop ∧
      ∀ P : ℕ → Prop, P start → P stop → BoundsIn P ranges → BoundsIn P l := by
  set before := ranges.takeWhile fun r => decide (r.start < start) with hbefore
  set after := ranges.dropWhile fun r => decide (r.start < start) with hafter
  have hsplit : before ++ after = ranges := takeWhile_append_dropWhile
  have hafter_le : ∀ r ∈ after, start ≤ r.start := le_start_of_mem_dropWhile h
  have hbefore_lt : ∀ r ∈ before, r.start < start := fun r hr => by
    simpa using mem_takeWhile_imp hr
  have hsep : Separated (before ++ after) := hsplit.symm ▸ h
  obtain ⟨hsb, hsa, hba⟩ := separated_append.mp hsep
  have hbnd : ∀ P : ℕ → Prop, BoundsIn P ranges → BoundsIn P before ∧ BoundsIn P after :=
    fun P hP => boundsIn_append.mp (hsplit.symm ▸ hP)
  obtain ⟨has, hac, hage⟩ := absorbFollowing_spec ⟨start, stop⟩ hlt hsa hafter_le
  simp only [insertFreeRange, if_neg (not_le.mpr hlt), if_neg (not_le.mpr hcap), ← hbefore,
    ← hafter]
  rcases hlast : before.getLast? with _ | previous
  · have hnil : before = [] := getLast?_eq_none_iff.mp hlast
    refine ⟨_, rfl, has, ?_, fun P hs he hP =>
      boundsIn_absorbFollowing ⟨hs, he⟩ (hbnd P hP).2⟩
    rw [hac, ← hsplit, hnil, nil_append, Set.union_comm]
    rfl
  · obtain ⟨init, hinit⟩ : ∃ init, before = init ++ [previous] :=
      ⟨before.dropLast, (dropLast_append_getLast? _ hlast).symm⟩
    have hprev_mem : previous ∈ before := by simp [hinit]
    have hprev := hbefore_lt previous hprev_mem
    have hpne := hsb.nonempty previous hprev_mem
    simp only
    split
    case isTrue htouch =>
      -- the new interval reaches its predecessor, which grows in its place
      have hsep' : Separated (init ++ (previous :: after)) := by
        have : init ++ (previous :: after) = before ++ after := by simp [hinit]
        rw [this]; exact hsep
      obtain ⟨hs, hc, hge⟩ := absorbFollowing_spec (extendTo previous stop)
        (lt_of_lt_of_le hpne (stop_le_extendTo _ _)) hsa
        (fun r hr => hprev.le.trans (hafter_le r hr))
      rw [hinit, dropLast_concat]
      refine ⟨_, rfl, ?_, ?_, fun P hs he hP => ?_⟩
      · exact hsep'.of_le_start hs fun c hc' => ⟨previous, by simp, hge c hc'⟩
      · rw [← hsplit, hinit, cover_append, hc, points_extendTo hprev.le htouch]
        simp only [cover_append, cover_cons, cover_nil, Set.union_empty]
        ac_rfl
      · obtain ⟨hPb, hPa⟩ := hbnd P hP
        have hPp := hPb previous hprev_mem
        rw [hinit] at hPb
        exact boundsIn_append.mpr ⟨(boundsIn_append.mp hPb).1,
          boundsIn_absorbFollowing (extendTo_bounds hPp he) hPa⟩
    case isFalse hapart =>
      refine ⟨_, rfl, ?_, ?_, fun P hs he hP => ?_⟩
      · refine separated_append.mpr ⟨hsb, has, fun a ha c hc => ?_⟩
        have hac' : start ≤ c.start := hage c hc
        rw [hinit, mem_append, mem_singleton] at ha
        rw [hinit] at hsb
        rcases ha with ha | rfl
        · have := (separated_append.mp hsb).2.2 a ha previous (by simp)
          omega
        · omega
      · rw [cover_append, hac, ← hsplit, cover_append, Set.union_assoc]
        congr 1
        exact Set.union_comm _ _
      · exact boundsIn_append.mpr
          ⟨(hbnd P hP).1, boundsIn_absorbFollowing ⟨hs, he⟩ (hbnd P hP).2⟩

/-- At capacity, or for an empty interval, `insert_free_range` changes nothing. -/
lemma insertFreeRange_of_full {ranges : List Span} {start stop : ℕ} (hlt : start < stop)
    (hcap : pmmMaxRanges ≤ ranges.length) :
    insertFreeRange ranges start stop = (.rangeCapacity, ranges) := by
  simp only [insertFreeRange, if_neg (not_le.mpr hlt), if_pos hcap]

lemma length_absorbFollowing_le (current : Span) (rest : List Span) :
    (absorbFollowing current rest).length ≤ rest.length + 1 := by
  induction rest generalizing current with
  | nil => rfl
  | cons next rest ih =>
    rw [absorbFollowing]
    split_ifs
    · exact (ih _).trans (Nat.le_succ _)
    · rfl

lemma length_insertFreeRange_le (ranges : List Span) (start stop : ℕ) :
    (insertFreeRange ranges start stop).2.length ≤ ranges.length + 1 := by
  have hsplit : (ranges.takeWhile fun r => decide (r.start < start)).length +
      (ranges.dropWhile fun r => decide (r.start < start)).length = ranges.length := by
    rw [← length_append, takeWhile_append_dropWhile]
  simp only [insertFreeRange]
  generalize ranges.takeWhile (fun r => decide (r.start < start)) = before at hsplit ⊢
  generalize ranges.dropWhile (fun r => decide (r.start < start)) = after at hsplit ⊢
  have habsorb := fun current => length_absorbFollowing_le current after
  split
  · exact Nat.le_succ _
  split
  · exact Nat.le_succ _
  cases before.getLast? with
  | none => exact (habsorb _).trans (by omega)
  | some previous =>
    have h₁ := habsorb (extendTo previous stop)
    have h₂ := habsorb ⟨start, stop⟩
    dsimp only
    split
    · simp only [length_append, length_dropLast]
      omega
    · simp only [length_append]
      omega

/-! ### Removal -/

/-- The loop of `remove_interval` cuts the interval out of the ranges it has still to visit.
It needs room for one more range, unless the ranges lie beyond the interval: it splits at
most one range, and those after that range lie beyond. -/
lemma removeIntervalFrom_eq {start stop : ℕ} (done : List Span)
    {rest : List Span} (hsep : Separated rest)
    (hroom : done.length + rest.length < pmmMaxRanges ∨ ∀ c ∈ rest, stop ≤ c.start) :
    removeIntervalFrom start stop done rest = (.ok, done ++ rest.flatMap (without start stop)) := by
  induction rest generalizing done with
  | nil => simp [removeIntervalFrom]
  | cons r rest ih =>
    obtain ⟨hr, hgap, hrest⟩ := separated_cons.mp hsep
    -- a round that leaves `pieces` of the range
    have hnext : ∀ pieces, without start stop r = pieces → pieces.length ≤ 1 →
        removeIntervalFrom start stop (done ++ pieces) rest =
          (.ok, done ++ (r :: rest).flatMap (without start stop)) := by
      intro pieces hpieces hone
      rw [flatMap_cons, hpieces, ← append_assoc]
      refine ih _ hrest (hroom.imp (fun h => ?_) fun h c hc => h c (mem_cons_of_mem _ hc))
      simp only [length_append, length_cons] at h ⊢
      omega
    rw [removeIntervalFrom]
    split_ifs with hout hall hfront hstop hback hfull
    · exact hnext [r] (if_pos hout) le_rfl
    · simpa using hnext [] (by rw [without, if_neg hout, if_neg (by omega), if_neg (by omega)]; rfl)
        (Nat.zero_le _)
    · exact hnext [_] (by rw [without, if_neg hout, if_neg (by omega), if_pos hstop]; rfl) le_rfl
    · omega
    · exact hnext [_] (by rw [without, if_neg hout, if_pos (by omega), if_neg (by omega)]; rfl)
        le_rfl
    · rcases hroom with h | h
      · rw [length_append] at hfull
        omega
      · exact absurd (.inl (h r mem_cons_self)) hout
    · rw [ih _ hrest (.inr fun c hc => by have := hgap c hc; omega), flatMap_cons, without,
        if_neg hout, if_pos (by omega), if_pos (by omega), append_assoc]
      rfl

/-- **`remove_interval`**: with room for one more range, the interval is gone from the free
addresses and the list stays separated. -/
theorem removeInterval_spec {ranges : List Span} (h : Separated ranges)
    (hroom : ranges.length < pmmMaxRanges) (start stop : ℕ) :
    ∃ l, removeInterval ranges start stop = (.ok, l) ∧ Separated l ∧
      cover l = cover ranges \ Set.Ico start stop ∧ l.length ≤ ranges.length + 1 ∧
      ∀ P : ℕ → Prop, P start → P stop → BoundsIn P ranges → BoundsIn P l := by
  rw [removeInterval]
  split
  case isTrue hle =>
    refine ⟨ranges, rfl, h, ?_, Nat.le_succ _, fun P _ _ hP => hP⟩
    rw [Set.Ico_eq_empty (not_lt.mpr hle), Set.sdiff_empty]
  case isFalse hgt =>
    have hlt := not_le.mp hgt
    refine ⟨_, removeIntervalFrom_eq [] h (.inl (by simpa using hroom)), h.without hlt,
      cover_flatMap_without hlt ranges, h.length_without_le hlt, fun P => boundsIn_without⟩

/-! ### Allocation -/

/-- The search of `pmm_alloc_frames` cuts the front off a range. -/
lemma takeFront_eq {bytes : ℕ} (hbytes : 0 < bytes) {ranges l : List Span} {frame : ℕ}
    (h : Separated ranges) (htake : takeFront bytes ranges = some (frame, l)) :
    (∃ r ∈ ranges, r.start = frame ∧ frame + bytes ≤ r.stop) ∧
      l = ranges.flatMap (without frame (frame + bytes)) := by
  induction ranges generalizing l with
  | nil => simp [takeFront] at htake
  | cons r rest ih =>
    obtain ⟨hr, hgap, hrest⟩ := separated_cons.mp h
    rw [takeFront] at htake
    split at htake
    case isTrue hsmall =>
      simp only [Option.map_eq_some_iff, Prod.mk.injEq, Prod.exists] at htake
      obtain ⟨f, l', htake', rfl, rfl⟩ := htake
      obtain ⟨⟨q, hq, hqf, hqe⟩, hl'⟩ := ih hrest htake'
      have := hgap q hq
      refine ⟨⟨q, mem_cons_of_mem _ hq, hqf, hqe⟩, ?_⟩
      rw [flatMap_cons, without, if_pos (by omega), singleton_append, ← hl']
    case isFalse hlarge =>
      simp only [Option.some.injEq, Prod.mk.injEq] at htake
      obtain ⟨rfl, rfl⟩ := htake
      have hend : r.start + bytes ≤ r.stop := by omega
      refine ⟨⟨r, mem_cons_self, rfl, hend⟩, ?_⟩
      rw [flatMap_cons, flatMap_without_of_le fun c hc => hend.trans (hgap c hc).le]
      unfold without
      split_ifs <;> first | rfl | omega

/-- **The search of `pmm_alloc_frames`**: what it takes is the front of a range,
and exactly that leaves the free addresses. -/
theorem takeFront_spec {bytes : ℕ} (hbytes : 0 < bytes) {ranges l : List Span} {frame : ℕ}
    (h : Separated ranges) (htake : takeFront bytes ranges = some (frame, l)) :
    Separated l ∧ cover l = cover ranges \ Set.Ico frame (frame + bytes) ∧
      Set.Ico frame (frame + bytes) ⊆ cover ranges ∧
      (∃ r ∈ ranges, r.start = frame ∧ frame + bytes ≤ r.stop) ∧
      ∀ P : ℕ → Prop, P (frame + bytes) → BoundsIn P ranges → BoundsIn P l := by
  obtain ⟨⟨r, hr, hrf, hre⟩, rfl⟩ := takeFront_eq hbytes h htake
  have hlt : frame < frame + bytes := by omega
  refine ⟨h.without hlt, cover_flatMap_without hlt ranges, fun x hx => ⟨r, hr, ?_⟩,
    ⟨r, hr, hrf, hre⟩, fun P hP hbnd => boundsIn_without (hrf ▸ (hbnd r hr).1) hP hbnd⟩
  simp only [Span.mem_points, Set.mem_Ico] at hx ⊢
  omega

/-- Taking from the front never adds a range. -/
lemma takeFront_length {bytes : ℕ} {ranges l : List Span} {frame : ℕ}
    (h : takeFront bytes ranges = some (frame, l)) : l.length ≤ ranges.length := by
  induction ranges generalizing l with
  | nil => simp [takeFront] at h
  | cons r ranges ih =>
    rw [takeFront] at h
    split at h
    · obtain ⟨⟨f, l'⟩, hl', heq⟩ := Option.map_eq_some_iff.mp h
      simp only [Prod.mk.injEq] at heq
      rw [← heq.2, length_cons, length_cons]
      exact Nat.succ_le_succ (ih (heq.1 ▸ hl'))
    · simp only [Option.some.injEq, Prod.mk.injEq] at h
      rw [← h.2, length_cons]
      split
      · exact Nat.le_succ _
      · rw [length_cons]

/-- The search fails only when every range is too short. -/
lemma takeFront_eq_none {bytes : ℕ} {ranges : List Span} :
    takeFront bytes ranges = none ↔ ∀ r ∈ ranges, r.stop - r.start < bytes := by
  induction ranges with
  | nil => simp [takeFront]
  | cons r rest ih =>
    rw [takeFront]
    split
    case isTrue hsmall => simp [ih, hsmall]
    case isFalse hlarge =>
      simp only [mem_cons, forall_eq_or_imp, reduceCtorEq, false_iff, not_and]
      exact fun h => absurd h hlarge

end Pmm

end JoshOS
