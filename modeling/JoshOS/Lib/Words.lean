import Mathlib

/-!
Arithmetic of 64-bit machine words carried by natural numbers.

An unsigned word is a natural number below `2 ^ 64`; an operation whose result
can leave that range is written with `wrap64`, one that the code guards is
written without.  Rounding to an alignment is `alignDown`, which never
overflows, and `alignUp`, which fails when the rounded value is not a word.  A
rational is rounded to a double by `toDouble`.

* `le_alignDown_iff`, `alignUp_le_iff`: the two roundings are the adjoints of
  the inclusion of the multiples of the alignment, the form in which every
  later proof uses them.
-/

namespace Words

/-- The largest 64-bit word, `UINT64_MAX`. -/
def uint64Max : ℕ := 2 ^ 64 - 1

/-- The largest 32-bit word, `UINT32_MAX`. -/
def uint32Max : ℕ := 2 ^ 32 - 1

/-- Reduction of the result of an unguarded operation to a 64-bit word. -/
def wrap64 (x : ℕ) : ℕ := x % 2 ^ 64

lemma wrap64_of_lt {x : ℕ} (h : x < 2 ^ 64) : wrap64 x = x := Nat.mod_eq_of_lt h

lemma wrap64_lt (x : ℕ) : wrap64 x < 2 ^ 64 := Nat.mod_lt _ (by norm_num)

/-- The nearest number of 53 binary digits, an even one if there are two. -/
def toDouble (q : ℚ) : ℚ :=
  let e : ℤ := Nat.log2 q.num.natAbs - Nat.log2 q.den
  let ulp : ℚ := 2 ^ ((if |q| < 2 ^ e then e - 1 else e) - 52)
  let n := ⌊q / ulp⌋
  let rest := q / ulp - n
  ulp * if rest < 1 / 2 ∨ rest = 1 / 2 ∧ n % 2 = 0 then n else n + 1

/-- Rounding down to a multiple of `alignment`: `value & ~(alignment - 1)` for a
power of two. -/
def alignDown (value alignment : ℕ) : ℕ := value - value % alignment

/-- Rounding up to a multiple of `alignment`, or `none` when the result is not a
64-bit word. -/
def alignUp (value alignment : ℕ) : Option ℕ :=
  if value % alignment = 0 then some value
  else
    let add := alignment - value % alignment
    if uint64Max - value < add then none else some (value + add)

variable {v w x a : ℕ}

lemma alignDown_le (v a : ℕ) : alignDown v a ≤ v := Nat.sub_le _ _

lemma alignDown_eq_mul (v a : ℕ) : alignDown v a = a * (v / a) := by
  have h := Nat.div_add_mod v a
  rw [alignDown]
  omega

lemma dvd_alignDown (v a : ℕ) : a ∣ alignDown v a := by
  rw [alignDown_eq_mul]
  exact Dvd.intro _ rfl

lemma alignDown_of_dvd (h : a ∣ v) : alignDown v a = v := by
  rw [alignDown, Nat.mod_eq_zero_of_dvd h, Nat.sub_zero]

lemma lt_alignDown_add (ha : 0 < a) (v : ℕ) : v < alignDown v a + a := by
  have := Nat.mod_lt v ha
  rw [alignDown]
  omega

/-- Distinct multiples of `a` are at least `a` apart. -/
lemma add_le_of_dvd (hv : a ∣ v) (hw : a ∣ w) (h : v < w) : v + a ≤ w := by
  obtain ⟨j, rfl⟩ := hv
  obtain ⟨k, rfl⟩ := hw
  have hjk : j < k := lt_of_mul_lt_mul_left h (Nat.zero_le a)
  rw [← Nat.mul_succ]
  exact Nat.mul_le_mul_left a hjk

lemma lt_or_eq_of_dvd (hv : a ∣ v) (hw : a ∣ w) (h : w < v + a) : w < v ∨ w = v := by
  by_contra hcon
  have := add_le_of_dvd hv hw (by omega)
  omega

/-- Below `v + a` there is one multiple of `a` more than below the multiple `v`. -/
lemma exists_lt_add_iff {Q : ℕ → Prop} (ha : 0 < a) (hv : a ∣ v) :
    (∃ w < v + a, a ∣ w ∧ Q w) ↔ (∃ w < v, a ∣ w ∧ Q w) ∨ Q v := by
  constructor
  · rintro ⟨w, hlt, hw, hq⟩
    rcases lt_or_eq_of_dvd hv hw hlt with hlt | rfl
    exacts [.inl ⟨w, hlt, hw, hq⟩, .inr hq]
  · rintro (⟨w, hlt, hrest⟩ | hq)
    exacts [⟨w, by omega, hrest⟩, ⟨v, by omega, hv, hq⟩]

/-- A multiple of the alignment is below the rounded value exactly when it is
below the value. -/
lemma le_alignDown_iff (ha : 0 < a) (hx : a ∣ x) : x ≤ alignDown v a ↔ x ≤ v := by
  refine ⟨fun h => h.trans (alignDown_le v a), fun h => ?_⟩
  obtain ⟨k, rfl⟩ := hx
  rw [alignDown_eq_mul]
  have : k ≤ v / a := (Nat.le_div_iff_mul_le ha).mpr (by rw [Nat.mul_comm]; exact h)
  exact Nat.mul_le_mul_left a this

/-- The multiple of `a` at or below `v`. -/
lemma alignDown_eq (ha : 0 < a) (hx : a ∣ x) (hle : x ≤ v) (hlt : v < x + a) :
    alignDown v a = x := by
  refine le_antisymm ?_ ((le_alignDown_iff ha hx).mpr hle)
  by_contra hcon
  have := add_le_of_dvd hx (dvd_alignDown v a) (not_le.mp hcon)
  have := alignDown_le v a
  omega

/-- What a successful rounding up returns. -/
lemma alignUp_eq_some (ha : 0 < a) (h : alignUp v a = some w) :
    a ∣ w ∧ v ≤ w ∧ w < v + a := by
  rw [alignUp] at h
  have hlt := Nat.mod_lt v ha
  split at h
  · obtain rfl : v = w := by simpa using h
    exact ⟨Nat.dvd_of_mod_eq_zero ‹_›, le_refl _, by omega⟩
  · simp only at h
    split at h
    · simp at h
    · obtain rfl : v + (a - v % a) = w := by simpa using h
      refine ⟨?_, by omega, by omega⟩
      have hdm := Nat.div_add_mod v a
      have : v + (a - v % a) = a * (v / a + 1) := by
        rw [Nat.mul_add, Nat.mul_one]; omega
      rw [this]
      exact Dvd.intro _ rfl

/-- A multiple of the alignment is above the rounded value exactly when it is
above the value. -/
lemma alignUp_le_iff (ha : 0 < a) (h : alignUp v a = some w) (hx : a ∣ x) :
    w ≤ x ↔ v ≤ x := by
  obtain ⟨hdvd, hle, hlt⟩ := alignUp_eq_some ha h
  refine ⟨fun hwx => hle.trans hwx, fun hvx => ?_⟩
  by_contra hcon
  push Not at hcon
  have := add_le_of_dvd hx hdvd hcon
  omega

/-- Rounding a word up yields a word. -/
lemma alignUp_lt (hv : v < 2 ^ 64) (h : alignUp v a = some w) : w < 2 ^ 64 := by
  rw [alignUp] at h
  split at h
  · obtain rfl : v = w := by simpa using h
    exact hv
  · simp only at h
    split at h
    · simp at h
    · obtain rfl : v + (a - v % a) = w := by simpa using h
      have hmax : uint64Max = 2 ^ 64 - 1 := rfl
      omega

/-! ### Rounding and units

The unit of `x` is the interval of length `a` that starts at `alignDown x a`; a
rounded bound decides about `x` exactly as the bound itself decides about the
unit of `x`. -/

lemma lt_alignDown_iff (ha : 0 < a) : x < alignDown v a ↔ alignDown x a + a ≤ v := by
  have hdvd : a ∣ alignDown x a + a := (Nat.dvd_add_self_right).mpr (dvd_alignDown x a)
  rw [← le_alignDown_iff ha hdvd]
  refine ⟨fun h => ?_, fun h => lt_of_lt_of_le (lt_alignDown_add ha x) h⟩
  exact add_le_of_dvd (dvd_alignDown x a) (dvd_alignDown v a)
    (lt_of_le_of_lt (alignDown_le x a) h)

lemma alignDown_le_iff (ha : 0 < a) : alignDown v a ≤ x ↔ v < alignDown x a + a := by
  have h := lt_alignDown_iff (x := x) (v := v) ha
  constructor
  · intro hle
    by_contra hcon
    push Not at hcon
    exact absurd (h.mpr hcon) (not_lt.mpr hle)
  · intro hlt
    by_contra hcon
    push Not at hcon
    have := h.mp hcon
    omega

lemma alignUp_le_iff_unit (ha : 0 < a) (h : alignUp v a = some w) :
    w ≤ x ↔ v ≤ alignDown x a := by
  rw [← le_alignDown_iff ha (alignUp_eq_some ha h).1, alignUp_le_iff ha h (dvd_alignDown x a)]

/-- Rounding up fails only within one unit of the top of the address space. -/
lemma lt_of_alignUp_eq_none (h : alignUp v a = none) : 2 ^ 64 < v + a := by
  rw [alignUp] at h
  split at h
  · simp at h
  · simp only at h
    split at h
    · have hmax : uint64Max = 2 ^ 64 - 1 := rfl
      omega
    · simp at h

lemma alignUp_of_dvd (h : a ∣ v) : alignUp v a = some v := by
  rw [alignUp, if_pos (Nat.mod_eq_zero_of_dvd h)]

end Words
