import Mathlib

/-!
A file as the history of what was written to it.

An entry of a history is an offset with the elements written there; the newest comes
first.

* `latest`: what the newest write that covers a position put there.
* `extent`: the largest end of a write.
* `overlay`: elements put over others from an offset on.
* `Agrees`, `Agrees.write`: contents that carry the latest writes.
* `Padded`, `Padded.write`: contents that are blank where nothing was written.
-/

namespace Writes

variable {β : Type*} {log : List (ℕ × List β)} {data : ℕ → β} {offset p : ℕ} {bytes : List β}
  {blank b : β}

/-- What the newest write that covers position `p` put there. -/
def latest : List (ℕ × List β) → ℕ → Option β
  | [], _ => none
  | (offset, bytes) :: log, p =>
    if offset ≤ p then (bytes[p - offset]?).or (latest log p) else latest log p

/-- The largest end of a write. -/
def extent : List (ℕ × List β) → ℕ
  | [] => 0
  | (offset, bytes) :: log => max (extent log) (offset + bytes.length)

/-- The contents `data` with `bytes` put at `offset`. -/
def overlay (data : ℕ → β) (offset : ℕ) (bytes : List β) (p : ℕ) : β :=
  if offset ≤ p then (bytes[p - offset]?).getD (data p) else data p

@[simp] lemma latest_nil : latest ([] : List (ℕ × List β)) p = none := rfl

@[simp] lemma extent_nil : extent ([] : List (ℕ × List β)) = 0 := rfl

@[simp] lemma extent_cons :
    extent ((offset, bytes) :: log) = max (extent log) (offset + bytes.length) := rfl

lemma overlay_of_covered (hle : offset ≤ p) (hlt : p < offset + bytes.length) :
    some (overlay data offset bytes p) = bytes[p - offset]? := by
  rw [overlay, if_pos hle, List.getElem?_eq_getElem (by omega), Option.getD_some]

lemma overlay_of_not_covered (h : ¬ (offset ≤ p ∧ p < offset + bytes.length)) :
    overlay data offset bytes p = data p := by
  rw [overlay]
  split_ifs with hle
  · rw [List.getElem?_eq_none (by omega), Option.getD_none]
  · rfl

lemma latest_of_covered (hle : offset ≤ p) (hlt : p < offset + bytes.length) :
    latest ((offset, bytes) :: log) p = bytes[p - offset]? := by
  rw [latest, if_pos hle, List.getElem?_eq_getElem (by omega), Option.some_or]

lemma latest_of_not_covered (h : ¬ (offset ≤ p ∧ p < offset + bytes.length)) :
    latest ((offset, bytes) :: log) p = latest log p := by
  rw [latest]
  split_ifs with hle
  · rw [List.getElem?_eq_none (by omega), Option.none_or]
  · rfl

/-- The contents carry the latest write at every position. -/
def Agrees (data : ℕ → β) (log : List (ℕ × List β)) : Prop :=
  ∀ p b, latest log p = some b → data p = b

lemma agrees_nil : Agrees data [] := fun p b h => by cases h

lemma Agrees.write (h : Agrees data log) (offset : ℕ) (bytes : List β) :
    Agrees (overlay data offset bytes) ((offset, bytes) :: log) := by
  intro p b hp
  by_cases hcov : offset ≤ p ∧ p < offset + bytes.length
  · rw [latest_of_covered hcov.1 hcov.2, ← overlay_of_covered hcov.1 hcov.2] at hp
    exact Option.some.inj hp
  · rw [latest_of_not_covered hcov] at hp
    rw [overlay_of_not_covered hcov]
    exact h p b hp

/-- The contents are blank below the largest end wherever nothing was written. -/
def Padded (blank : β) (data : ℕ → β) (log : List (ℕ × List β)) : Prop :=
  ∀ p < extent log, latest log p = none → data p = blank

lemma padded_nil : Padded blank data [] := fun p hp => absurd hp (Nat.not_lt_zero p)

/-- A write keeps the contents padded if the gap it leaves behind the old end is blank. -/
lemma Padded.write (h : Padded blank data log)
    (hgap : ∀ p, extent log ≤ p → p < offset → data p = blank) :
    Padded blank (overlay data offset bytes) ((offset, bytes) :: log) := by
  intro p hp hnone
  rw [extent_cons] at hp
  by_cases hcov : offset ≤ p ∧ p < offset + bytes.length
  · rw [latest_of_covered hcov.1 hcov.2, List.getElem?_eq_getElem (by omega)] at hnone
    cases hnone
  · rw [latest_of_not_covered hcov] at hnone
    rw [overlay_of_not_covered hcov]
    rcases Nat.lt_or_ge p (extent log) with hlt | hge
    · exact h p hlt hnone
    · exact hgap p hge (by omega)

/-- Below the largest end, padded contents that carry the latest writes are determined by
the history. -/
lemma Padded.eq_latest (h : Padded blank data log) (ha : Agrees data log) (hp : p < extent log) :
    data p = (latest log p).getD blank := by
  cases hl : latest log p with
  | none => exact h p hp hl
  | some b => exact ha p b hl

end Writes
