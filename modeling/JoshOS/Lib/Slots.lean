import Mathlib

/-!
Tables with a fixed number of slots, searched from the front.

* `firstSlot p`: the first slot that satisfies `p`.
* `firstSlot_eq_some`, `firstSlot_eq_none`: what a search finds.
* `filter_grows`: slots taken from the front are listed behind those taken before.
-/

namespace Slots

open List

variable {n : ℕ} {p q : Fin n → Bool} {i : Fin n}

/-- The first slot that satisfies `p`. -/
def firstSlot (p : Fin n → Bool) : Option (Fin n) := (List.finRange n).find? p

lemma firstSlot_eq_none : firstSlot p = none ↔ ∀ i, p i = false := by
  rw [firstSlot, find?_eq_none]
  simp

lemma firstSlot_some (h : firstSlot p = some i) : p i = true := find?_some h

/-- Earlier slots do not satisfy the predicate. -/
lemma firstSlot_min (h : firstSlot p = some i) {j : Fin n} (hj : j < i) : p j = false := by
  obtain ⟨-, l₁, l₂, hl, hnot⟩ := find?_eq_some_iff_append.mp h
  have hsorted : (l₁ ++ i :: l₂).Pairwise (· < ·) := hl ▸ pairwise_lt_finRange n
  have hmem : j ∈ l₁ ++ i :: l₂ := hl ▸ mem_finRange j
  rcases mem_append.mp hmem with hj' | hj'
  · simpa using hnot j hj'
  · have hle : i ≤ j := by
      rcases mem_cons.mp hj' with rfl | hj'
      · exact le_refl j
      · exact ((pairwise_cons.mp (pairwise_append.mp hsorted).2.1).1 j hj').le
    exact absurd hj (not_lt.mpr hle)

/-- A slot found is the only one, when no two slots satisfy the predicate. -/
lemma firstSlot_eq_some (huniq : ∀ j, p j = true → j = i) (h : p i = true) :
    firstSlot p = some i := by
  cases hs : firstSlot p with
  | none => exact absurd h (by simp [firstSlot_eq_none.mp hs i])
  | some j => rw [huniq j (firstSlot_some hs)]

/-- The first slot is found. -/
lemma firstSlot_eq_first (h : p i = true) (hmin : ∀ j < i, p j = false) :
    firstSlot p = some i := by
  cases hs : firstSlot p with
  | none => exact absurd h (by simp [firstSlot_eq_none.mp hs i])
  | some j =>
    rcases lt_trichotomy j i with hlt | rfl | hgt
    · exact absurd (firstSlot_some hs) (by simp [hmin j hlt])
    · rfl
    · exact absurd h (by simp [firstSlot_min hs hgt])

/-- A scan that starts behind the first slot. -/
lemma mem_tail_finRange {i : Fin (n + 1)} : i ∈ (finRange (n + 1)).tail ↔ i ≠ 0 := by
  rw [finRange_succ, tail_cons, mem_map]
  constructor
  · rintro ⟨j, -, rfl⟩
    exact Fin.succ_ne_zero j
  · intro hne
    obtain ⟨j, rfl⟩ := Fin.exists_succ_eq.mpr hne
    exact ⟨j, mem_finRange j, rfl⟩

/-- When whatever comes to satisfy the predicate is behind all that has satisfied it, the
list of what satisfies it only grows at its end. -/
lemma filter_grows {l : List (Fin n)} (hl : l.Pairwise (· < ·))
    (hkeep : ∀ i, p i = true → q i = true)
    (hnew : ∀ i j, p i = true → q j = true → p j = false → i < j) :
    l.filter p <+: l.filter q := by
  induction l with
  | nil => exact prefix_rfl
  | cons a l ih =>
    rw [pairwise_cons] at hl
    by_cases hp : p a = true
    · rw [filter_cons_of_pos hp, filter_cons_of_pos (hkeep a hp),
        prefix_cons_inj]
      exact ih hl.2
    rw [filter_cons_of_neg hp]
    by_cases hq : q a = true
    · -- Nothing behind `a` has satisfied the predicate before.
      have hnil : l.filter p = [] := by
        refine filter_eq_nil_iff.mpr fun i hi hpi => ?_
        exact absurd (hnew i a hpi hq (by simpa using hp)) (hl.1 i hi).asymm
      rw [hnil]
      exact nil_prefix
    · rw [filter_cons_of_neg hq]
      exact ih hl.2

end Slots
