import Mathlib

/-!
Separated lists of half-open spans of natural numbers, the canonical form in
which an interval allocator keeps a set of addresses.

* `Span`, `cover`: a span `[start, stop)` and the set of points covered by a
  list of spans.
* `Separated`: every span is nonempty and each one ends strictly before the
  next begins, so that two neighbours neither overlap nor touch.
* `Separated.ncard_cover`: the number of covered points is the sum of the
  lengths, which turns every statement about set differences and disjoint
  unions of covers into one about sums of lengths.
* `Separated.exists_of_Ico_subset`: an interval inside the cover lies inside
  one single span, because separated spans leave a gap between each other.
* `Separated.ext`: a set of points has one separated list.
* `MaximalRun`, `Separated.mem_iff_maximalRun`: the spans of the separated list are
  the maximal runs of touching spans of any disjoint list with the same cover.
* `BoundsIn`: all end points satisfy a predicate, used for alignment.
* `without`: what is left of a span without an interval; `Separated.without`,
  `cover_flatMap_without`, `Separated.length_without_le`: of a list of spans.
-/

/-- A half-open span `[start, stop)`. -/
structure Span where
  start : ℕ
  stop : ℕ
  deriving DecidableEq, Repr

namespace Span

/-- The points of a span. -/
def points (r : Span) : Set ℕ := Set.Ico r.start r.stop

/-- The length of a span. -/
def length (r : Span) : ℕ := r.stop - r.start

@[simp] lemma mem_points {r : Span} {x : ℕ} : x ∈ r.points ↔ r.start ≤ x ∧ x < r.stop := Iff.rfl

end Span

namespace Spans

/-- The points covered by a list of spans. -/
def cover (l : List Span) : Set ℕ := {x | ∃ r ∈ l, x ∈ r.points}

/-- The sum of the lengths of a list of spans. -/
def total (l : List Span) : ℕ := (l.map Span.length).sum

/-- Every span is nonempty and ends strictly before the next one starts. -/
structure Separated (l : List Span) : Prop where
  nonempty : ∀ r ∈ l, r.start < r.stop
  gap : l.Pairwise fun a b => a.stop < b.start

/-- Both end points of every span satisfy `P`. -/
def BoundsIn (P : ℕ → Prop) (l : List Span) : Prop := ∀ r ∈ l, P r.start ∧ P r.stop

/-! ### The cover -/

lemma mem_cover {l : List Span} {x : ℕ} :
    x ∈ cover l ↔ ∃ r ∈ l, r.start ≤ x ∧ x < r.stop := Iff.rfl

@[simp] lemma cover_nil : cover [] = ∅ := by
  ext x; simp [mem_cover]

@[simp] lemma cover_cons (r : Span) (l : List Span) :
    cover (r :: l) = r.points ∪ cover l := by
  ext x; simp [mem_cover]

@[simp] lemma cover_append (l₁ l₂ : List Span) :
    cover (l₁ ++ l₂) = cover l₁ ∪ cover l₂ := by
  ext x
  simp only [mem_cover, List.mem_append, Set.mem_union]
  constructor
  · rintro ⟨r, hr | hr, hx⟩
    · exact Or.inl ⟨r, hr, hx⟩
    · exact Or.inr ⟨r, hr, hx⟩
  · rintro (⟨r, hr, hx⟩ | ⟨r, hr, hx⟩)
    · exact ⟨r, Or.inl hr, hx⟩
    · exact ⟨r, Or.inr hr, hx⟩

@[simp] lemma total_nil : total [] = 0 := rfl

@[simp] lemma total_cons (r : Span) (l : List Span) : total (r :: l) = r.length + total l := rfl

@[simp] lemma total_append (l₁ l₂ : List Span) : total (l₁ ++ l₂) = total l₁ + total l₂ := by
  simp [total]

lemma length_le_total {r : Span} {l : List Span} (h : r ∈ l) : r.length ≤ total l :=
  List.le_sum_of_mem (List.mem_map_of_mem h)

/-! ### Separated lists -/

lemma separated_nil : Separated [] := ⟨by simp, List.Pairwise.nil⟩

lemma separated_cons {r : Span} {l : List Span} :
    Separated (r :: l) ↔
      r.start < r.stop ∧ (∀ b ∈ l, r.stop < b.start) ∧ Separated l := by
  constructor
  · rintro ⟨hne, hgap⟩
    rw [List.pairwise_cons] at hgap
    exact ⟨hne r (by simp), hgap.1, fun b hb => hne b (by simp [hb]), hgap.2⟩
  · rintro ⟨hr, hlt, hl⟩
    refine ⟨fun b hb => ?_, List.pairwise_cons.mpr ⟨hlt, hl.gap⟩⟩
    rcases List.mem_cons.mp hb with rfl | hb'
    · exact hr
    · exact hl.nonempty b hb'

lemma separated_append {l₁ l₂ : List Span} :
    Separated (l₁ ++ l₂) ↔
      Separated l₁ ∧ Separated l₂ ∧ ∀ a ∈ l₁, ∀ b ∈ l₂, a.stop < b.start := by
  constructor
  · rintro ⟨hne, hgap⟩
    rw [List.pairwise_append] at hgap
    exact ⟨⟨fun r hr => hne r (by simp [hr]), hgap.1⟩,
      ⟨fun r hr => hne r (by simp [hr]), hgap.2.1⟩, hgap.2.2⟩
  · rintro ⟨h₁, h₂, hsep⟩
    refine ⟨fun r hr => ?_, List.pairwise_append.mpr ⟨h₁.gap, h₂.gap, hsep⟩⟩
    rcases List.mem_append.mp hr with hr' | hr'
    · exact h₁.nonempty r hr'
    · exact h₂.nonempty r hr'

/-- Replacing the tail of a separated list by another one whose spans all start
after the kept part keeps the list separated. -/
lemma Separated.of_le_start {l₁ l₂ l₃ : List Span} (h : Separated (l₁ ++ l₂))
    (h₃ : Separated l₃) (hstart : ∀ c ∈ l₃, ∃ b ∈ l₂, b.start ≤ c.start) :
    Separated (l₁ ++ l₃) := by
  obtain ⟨h₁, -, hsep⟩ := separated_append.mp h
  refine separated_append.mpr ⟨h₁, h₃, fun a ha c hc => ?_⟩
  obtain ⟨b, hb, hbc⟩ := hstart c hc
  exact lt_of_lt_of_le (hsep a ha b hb) hbc

/-- Two spans of a separated list that share a point, or that touch, are equal. -/
lemma Separated.eq_of_touch {l : List Span} (h : Separated l) {a b : Span} (ha : a ∈ l)
    (hb : b ∈ l) (hab : a.start ≤ b.stop) (hba : b.start ≤ a.stop) : a = b := by
  by_contra hne
  have : Std.Symm fun a b : Span => a.stop < b.start ∨ b.stop < a.start :=
    ⟨fun _ _ => Or.symm⟩
  have hpw : l.Pairwise fun a b => a.stop < b.start ∨ b.stop < a.start := h.gap.imp Or.inl
  have hcases := hpw.forall ha hb hne
  omega

/-- The number of points of an interval of length `n`. -/
lemma ncard_Ico_add (s n : ℕ) : (Set.Ico s (s + n)).ncard = n := by
  rw [← Finset.coe_Ico, Set.ncard_coe_finset, Nat.card_Ico]
  omega

/-- The covered points of a separated list are counted by its total length. -/
theorem Separated.ncard_cover {l : List Span} (h : Separated l) :
    (cover l).Finite ∧ (cover l).ncard = total l := by
  induction l with
  | nil => simp
  | cons r l ih =>
    obtain ⟨hr, hlt, hl⟩ := separated_cons.mp h
    obtain ⟨hfin, hcard⟩ := ih hl
    have hrfin : r.points.Finite := Set.finite_Ico _ _
    have hdisj : Disjoint r.points (cover l) := by
      rw [Set.disjoint_left]
      rintro x hx ⟨b, hb, hxb⟩
      have := hlt b hb
      simp only [Span.mem_points] at hx hxb
      omega
    have hrcard : r.points.ncard = r.length := by
      have hstop : r.stop = r.start + r.length := by
        rw [Span.length]; omega
      rw [Span.points, hstop, ncard_Ico_add]
    refine ⟨by simpa using hrfin.union hfin, ?_⟩
    rw [cover_cons, total_cons, Set.ncard_union_eq hdisj hrfin hfin, hcard, hrcard]

/-- An interval inside the cover of a separated list lies inside one span: no
interval can cross the gap between two spans. -/
theorem Separated.exists_of_Ico_subset {l : List Span} (h : Separated l) {s e : ℕ} (hse : s < e)
    (hsub : Set.Ico s e ⊆ cover l) : ∃ r ∈ l, r.start ≤ s ∧ e ≤ r.stop := by
  obtain ⟨r, hr, hrs⟩ := hsub (⟨le_refl s, hse⟩ : s ∈ Set.Ico s e)
  simp only [Span.mem_points] at hrs
  refine ⟨r, hr, hrs.1, ?_⟩
  by_contra hlt
  push Not at hlt
  -- the first point past `r` is covered by a span that touches `r`
  obtain ⟨b, hb, hbs⟩ := hsub (⟨by omega, hlt⟩ : r.stop ∈ Set.Ico s e)
  simp only [Span.mem_points] at hbs
  have hrb : r = b := h.eq_of_touch hr hb (by omega) (by omega)
  subst hrb
  omega

/-- A span of one separated list is a span of every other one with the same cover: the span
of the second list that contains it lies in a span of the first, which is it again. -/
lemma Separated.mem_of_cover_eq {l₁ l₂ : List Span} (h₁ : Separated l₁) (h₂ : Separated l₂)
    (hcover : cover l₁ = cover l₂) {r : Span} (hr : r ∈ l₁) : r ∈ l₂ := by
  have hne := h₁.nonempty r hr
  obtain ⟨q, hq, hqs, hqe⟩ := h₂.exists_of_Ico_subset hne
    fun x hx => hcover ▸ (⟨r, hr, hx⟩ : x ∈ cover l₁)
  obtain ⟨r', hr', hrs, hre⟩ := h₁.exists_of_Ico_subset (h₂.nonempty q hq)
    fun x hx => hcover ▸ (⟨q, hq, hx⟩ : x ∈ cover l₂)
  obtain rfl : r = r' := h₁.eq_of_touch hr hr' (by omega) (by omega)
  have hstart : r.start = q.start := by omega
  have hstop : r.stop = q.stop := by omega
  obtain ⟨start, stop⟩ := r
  obtain rfl := hstart
  obtain rfl := hstop
  exact hq

/-- **Separated lists are canonical**: two with the same cover are equal. -/
theorem Separated.ext {l₁ l₂ : List Span} (h₁ : Separated l₁) (h₂ : Separated l₂)
    (hcover : cover l₁ = cover l₂) : l₁ = l₂ := by
  have hnodup {l : List Span} (h : Separated l) : l.Nodup := by
    refine h.gap.imp_of_mem fun {a b} ha _ hab heq => ?_
    subst heq
    have := h.nonempty a ha
    omega
  have hperm : l₁.Perm l₂ := (List.perm_ext_iff_of_nodup (hnodup h₁) (hnodup h₂)).mpr fun r =>
    ⟨h₁.mem_of_cover_eq h₂ hcover, h₂.mem_of_cover_eq h₁ hcover.symm⟩
  refine hperm.eq_of_pairwise (fun a b ha hb hab hba => ?_) h₁.gap h₂.gap
  have := h₁.nonempty a ha
  have := h₂.nonempty b hb
  omega

/-! ### Runs of touching spans -/

/-- The spans follow one another without a gap from `a` to `b`. -/
def Joined : ℕ → List Span → ℕ → Prop
  | a, [], b => a = b
  | a, r :: l, b => r.start = a ∧ Joined r.stop l b

/-- The spans `run` of `l` touch one another, they reach from the start of `r` to its
end, and no span of `l` touches them there. -/
structure MaximalRun (l run : List Span) (r : Span) : Prop where
  nonempty : run ≠ []
  mem : ∀ q ∈ run, q ∈ l
  joined : Joined r.start run r.stop
  left : ∀ q ∈ l, q.stop ≠ r.start
  right : ∀ q ∈ l, q.start ≠ r.stop

/-- Spans without a gap are as long as what they reach over. -/
lemma Joined.add_total {a b : ℕ} {run : List Span} (h : Joined a run b)
    (hrun : ∀ q ∈ run, q.start < q.stop) : a + total run = b := by
  induction run generalizing a with
  | nil => exact h
  | cons q run ih =>
    obtain ⟨rfl, hrest⟩ := h
    have hq := hrun q (by simp)
    have htail := ih hrest fun q' hq' => hrun q' (by simp [hq'])
    rw [total_cons, Span.length]
    omega

lemma Joined.cover_eq {a b : ℕ} {run : List Span} (h : Joined a run b)
    (hrun : ∀ q ∈ run, q.start < q.stop) : cover run = Set.Ico a b := by
  induction run generalizing a with
  | nil =>
    obtain rfl : a = b := h
    simp
  | cons q run ih =>
    obtain ⟨rfl, hrest⟩ := h
    have hq := hrun q (by simp)
    have hrun' : ∀ q' ∈ run, q'.start < q'.stop := fun q' hq' => hrun q' (by simp [hq'])
    have hstop := hrest.add_total hrun'
    rw [cover_cons, ih hrest hrun', Span.points, Set.Ico_union_Ico_eq_Ico hq.le (by omega)]

lemma MaximalRun.start_lt_stop {l run : List Span} {r : Span} (h : MaximalRun l run r)
    (hl : ∀ q ∈ l, q.start < q.stop) : r.start < r.stop := by
  obtain ⟨q, run', rfl⟩ := List.exists_cons_of_ne_nil h.nonempty
  have hlen := h.joined.add_total fun q hq => hl q (h.mem q hq)
  have := hl q (h.mem q (by simp))
  rw [total_cons, Span.length] at hlen
  omega

section Runs

variable {c l : List Span} {r : Span}

/-- Disjoint spans with a common point are equal. -/
lemma eq_of_mem_points (hdisj : l.Pairwise fun a b => Disjoint a.points b.points) {a b : Span}
    (ha : a ∈ l) (hb : b ∈ l) {x : ℕ} (hxa : x ∈ a.points) (hxb : x ∈ b.points) : a = b := by
  by_contra hne
  have : Std.Symm fun a b : Span => Disjoint a.points b.points := ⟨fun _ _ h => h.symm⟩
  exact Set.disjoint_left.mp (hdisj.forall ha hb hne) hxa hxb

variable (hc : Separated c) (hl : ∀ q ∈ l, q.start < q.stop)
  (hdisj : l.Pairwise fun a b => Disjoint a.points b.points) (hcover : cover c = cover l)

include hc hl hcover

/-- A span that meets one of the separated spans lies inside it. -/
lemma Separated.subset_of_meets {q : Span} (hr : r ∈ c) (hq : q ∈ l) (hstart : q.start ≤ r.stop)
    (hstop : r.start ≤ q.stop) : r.start ≤ q.start ∧ q.stop ≤ r.stop := by
  obtain ⟨r', hr', hle, hge⟩ := hc.exists_of_Ico_subset (hl q hq)
    fun x hx => hcover ▸ (⟨q, hq, hx⟩ : x ∈ cover l)
  obtain rfl := hc.eq_of_touch hr hr' (by omega) (by omega)
  exact ⟨hle, hge⟩

include hdisj

/-- From the start of a span on, touching spans reach to the end of the separated span
around it. -/
lemma Separated.exists_joined (hr : r ∈ c) {q : Span} (hq : q ∈ l) (hle : r.start ≤ q.start)
    (hlt : q.start < r.stop) :
    ∃ run, run ≠ [] ∧ (∀ q' ∈ run, q' ∈ l) ∧ Joined q.start run r.stop := by
  have hne := hl q hq
  have hin := hc.subset_of_meets hl hcover hr hq (by omega) (by omega)
  rcases hin.2.eq_or_lt with hend | hmore
  · exact ⟨[q], by simp, by simpa using hq, rfl, hend⟩
  · -- the point after `q` belongs to a span that cannot start any earlier
    obtain ⟨q', hq', hx⟩ : q.stop ∈ cover l :=
      hcover ▸ (⟨r, hr, by simp; omega⟩ : q.stop ∈ cover c)
    have hnext : q'.start = q.stop := by
      by_contra hne'
      simp only [Span.mem_points] at hx
      have heq := eq_of_mem_points hdisj hq hq' (x := q.stop - 1)
        (by simp only [Span.mem_points]; omega) (by simp only [Span.mem_points]; omega)
      subst heq
      omega
    obtain ⟨run, -, hmem, hjoined⟩ := Separated.exists_joined hr hq' (by omega) (by omega)
    refine ⟨q :: run, by simp, by simpa using ⟨hq, hmem⟩, rfl, hnext ▸ hjoined⟩
termination_by r.stop - q.start

/-- A separated span is the hull of a maximal run. -/
lemma Separated.exists_maximalRun (hr : r ∈ c) : ∃ run, MaximalRun l run r := by
  have hne := hc.nonempty r hr
  have htouch : ∀ q ∈ l, q.start ≤ r.stop → r.start ≤ q.stop →
      r.start ≤ q.start ∧ q.stop ≤ r.stop := fun q hq => hc.subset_of_meets hl hcover hr hq
  obtain ⟨q, hq, hx⟩ : r.start ∈ cover l :=
    hcover ▸ (⟨r, hr, by simpa using hne⟩ : r.start ∈ cover c)
  simp only [Span.mem_points] at hx
  have hin := htouch q hq (by omega) (by omega)
  have hstart : q.start = r.start := by omega
  obtain ⟨run, hrun, hmem, hjoined⟩ := hc.exists_joined hl hdisj hcover hr hq hin.1 (by omega)
  refine ⟨run, hrun, hmem, hstart ▸ hjoined, fun q' hq' heq => ?_, fun q' hq' heq => ?_⟩
  · have := hl q' hq'
    have := htouch q' hq' (by omega) (by omega)
    omega
  · have := hl q' hq'
    have := htouch q' hq' (by omega) (by omega)
    omega

omit hc hcover

/-- No span covers the points next to a maximal run: it would touch the run, or be one of
its spans and lie inside. -/
lemma MaximalRun.notMem_cover {run : List Span} (h : MaximalRun l run r) :
    (0 < r.start → r.start - 1 ∉ cover l) ∧ r.stop ∉ cover l := by
  have hne := h.start_lt_stop hl
  have hhull := h.joined.cover_eq fun q hq => hl q (h.mem q hq)
  have hinside : ∀ q ∈ l, ∀ x ∈ q.points, x ∈ Set.Ico r.start r.stop →
      ∀ y ∈ q.points, y ∈ Set.Ico r.start r.stop := by
    intro q hq x hx hxr y hy
    rw [← hhull] at hxr ⊢
    obtain ⟨p, hp, hxp⟩ := hxr
    obtain rfl := eq_of_mem_points hdisj hq (h.mem p hp) hx hxp
    exact ⟨q, hp, hy⟩
  constructor
  · rintro hpos ⟨q, hq, hx⟩
    have hstop := h.left q hq
    simp only [Span.mem_points] at hx
    have := hinside q hq r.start (by simp only [Span.mem_points]; omega) ⟨le_refl _, hne⟩
      (r.start - 1) hx
    simp only [Set.mem_Ico] at this
    omega
  · rintro ⟨q, hq, hx⟩
    have hstart := h.right q hq
    simp only [Span.mem_points] at hx
    have := hinside q hq (r.stop - 1) (by simp only [Span.mem_points]; omega)
      ⟨by omega, by omega⟩ r.stop hx
    simp only [Set.mem_Ico] at this
    omega

include hc hcover

/-- **Maximal runs.**  The separated spans are the hulls of the maximal runs of touching
spans. -/
theorem Separated.mem_iff_maximalRun : r ∈ c ↔ ∃ run, MaximalRun l run r := by
  refine ⟨hc.exists_maximalRun hl hdisj hcover, ?_⟩
  rintro ⟨run, h⟩
  have hne := h.start_lt_stop hl
  obtain ⟨hleft, hright⟩ := h.notMem_cover hl hdisj
  have hsub : Set.Ico r.start r.stop ⊆ cover c := by
    rw [← h.joined.cover_eq fun q hq => hl q (h.mem q hq), hcover]
    rintro x ⟨q, hq, hx⟩
    exact ⟨q, h.mem q hq, hx⟩
  obtain ⟨r', hr', hle, hge⟩ := hc.exists_of_Ico_subset hne hsub
  have hin : ∀ x, r'.start ≤ x → x < r'.stop → x ∈ cover l := fun x h₁ h₂ =>
    hcover ▸ (⟨r', hr', h₁, h₂⟩ : x ∈ cover c)
  have hstart : r'.start = r.start := by
    by_contra hlt
    exact hleft (by omega) (hin _ (by omega) (by omega))
  have hstop : r'.stop = r.stop := by
    by_contra hlt
    exact hright (hin _ (by omega) (by omega))
  obtain ⟨start, stop⟩ := r
  obtain rfl := hstart
  obtain rfl := hstop
  exact hr'

end Runs

/-! ### End points -/

lemma boundsIn_nil {P : ℕ → Prop} : BoundsIn P [] := by
  simp [BoundsIn]

lemma boundsIn_cons {P : ℕ → Prop} {r : Span} {l : List Span} :
    BoundsIn P (r :: l) ↔ (P r.start ∧ P r.stop) ∧ BoundsIn P l := by
  simp [BoundsIn]

lemma boundsIn_append {P : ℕ → Prop} {l₁ l₂ : List Span} :
    BoundsIn P (l₁ ++ l₂) ↔ BoundsIn P l₁ ∧ BoundsIn P l₂ := by
  simp only [BoundsIn, List.mem_append]
  exact ⟨fun h => ⟨fun r hr => h r (Or.inl hr), fun r hr => h r (Or.inr hr)⟩,
    fun h r hr => hr.elim (h.1 r) (h.2 r)⟩

/-! ### Taking out an interval -/

/-- What is left of a span when an interval is taken out: all of it, or the parts before
and after the interval. -/
def without (start stop : ℕ) (r : Span) : List Span :=
  if stop ≤ r.start ∨ r.stop ≤ start then [r]
  else (if r.start < start then [⟨r.start, start⟩] else []) ++
    if stop < r.stop then [⟨stop, r.stop⟩] else []

section Without

variable {start stop : ℕ} {l : List Span} (hlt : start < stop)

/-- Spans beyond the interval stay. -/
lemma flatMap_without_of_le (h : ∀ c ∈ l, stop ≤ c.start) : l.flatMap (without start stop) = l := by
  induction l with
  | nil => rfl
  | cons r l ih =>
    rw [List.forall_mem_cons] at h
    rw [List.flatMap_cons, ih h.2, without, if_pos (Or.inl h.1), List.singleton_append]

lemma boundsIn_without {P : ℕ → Prop} (hstart : P start) (hstop : P stop) (h : BoundsIn P l) :
    BoundsIn P (l.flatMap (without start stop)) := by
  intro c hc
  obtain ⟨r, hr, hc⟩ := List.mem_flatMap.mp hc
  have hP := h r hr
  rw [without] at hc
  split_ifs at hc <;> simp at hc <;> aesop

include hlt

lemma cover_without (r : Span) : cover (without start stop r) = r.points \ Set.Ico start stop := by
  rw [without]
  ext x
  split_ifs <;> simp <;> omega

lemma cover_flatMap_without (l : List Span) :
    cover (l.flatMap (without start stop)) = cover l \ Set.Ico start stop := by
  induction l with
  | nil => simp
  | cons r l ih =>
    rw [List.flatMap_cons, cover_append, cover_without hlt, ih, cover_cons,
      Set.union_sdiff_distrib]

lemma Separated.without (h : Separated l) : Separated (l.flatMap (without start stop)) := by
  have hpiece : ∀ r ∈ l, ∀ c ∈ Spans.without start stop r,
      r.start ≤ c.start ∧ c.start < c.stop ∧ c.stop ≤ r.stop := by
    intro r hr c hc
    have := h.nonempty r hr
    rw [Spans.without] at hc
    split_ifs at hc <;> simp at hc <;> grind
  refine ⟨fun c hc => ?_, List.pairwise_flatMap.mpr ⟨fun r hr => ?_, ?_⟩⟩
  · obtain ⟨r, hr, hc⟩ := List.mem_flatMap.mp hc
    exact (hpiece r hr c hc).2.1
  · rw [Spans.without]
    split_ifs <;> simp [hlt]
  · refine h.gap.imp_of_mem fun {a b} ha hb hab x hx y hy => ?_
    have := hpiece a ha x hx
    have := hpiece b hb y hy
    omega

/-- At most one span has the interval inside, so at most one span is added. -/
lemma Separated.length_without_le (h : Separated l) :
    (l.flatMap (Spans.without start stop)).length ≤ l.length + 1 := by
  induction l with
  | nil => simp
  | cons r l ih =>
    obtain ⟨hr, hgap, hl⟩ := separated_cons.mp h
    rw [List.flatMap_cons, List.length_append, List.length_cons]
    by_cases hin : r.start < start ∧ stop < r.stop
    · rw [flatMap_without_of_le fun c hc => hin.2.le.trans (hgap c hc).le, Spans.without,
        if_neg (by omega), if_pos hin.1, if_pos hin.2]
      simp only [List.length_append, List.length_cons, List.length_nil]
      omega
    · have hone : (Spans.without start stop r).length ≤ 1 := by
        rw [Spans.without]
        split_ifs <;> simp
        omega
      have := ih hl
      omega

end Without

end Spans
