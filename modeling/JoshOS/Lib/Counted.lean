import Mathlib

/-!
Arrays that are filled from the front.

* `Counted`: an array of fixed size with the number of its entries in use.
* `store_ofList`: storing behind the entries in use appends to their list.
* `All`: a property of the entries in use, kept by `store`.
-/

/-- An array of `n` entries and the number of them in use. -/
structure Counted (α : Type) (n : ℕ) where
  entries : Fin n → α
  count : ℕ

namespace Counted

variable {α : Type} {n : ℕ}

/-- The entry stored behind those in use, if there is a place for it in the array. -/
def store (table : Counted α n) (entry : α) : Option (Counted α n) :=
  if h : table.count < n then
    some ⟨Function.update table.entries ⟨table.count, h⟩ entry, table.count + 1⟩
  else none

/-- The array that starts with a list. -/
def ofList [Inhabited α] (l : List α) : Counted α n := ⟨fun i => l.getD i default, l.length⟩

/-- An entry more in an array with room for it. -/
lemma store_ofList [Inhabited α] {l : List α} (a : α) (h : l.length < n) :
    store (ofList l : Counted α n) a = some (ofList (l ++ [a])) := by
  have hentries : Function.update (fun i : Fin n => l.getD i default) ⟨l.length, h⟩ a =
      fun i : Fin n => (l ++ [a]).getD i default := by
    funext i
    by_cases hi : i = ⟨l.length, h⟩
    · subst hi
      simp
    · have hne : i.val ≠ l.length := fun heq => hi (Fin.ext heq)
      rw [Function.update_of_ne hi]
      simp only [List.getD_eq_getElem?_getD]
      rcases Nat.lt_or_gt_of_ne hne with hlt | hgt
      · rw [List.getElem?_append_left hlt]
      · rw [List.getElem?_eq_none hgt.le, List.getElem?_eq_none (by simpa using hgt)]
  have hcount : l.length + 1 = (l ++ [a]).length := by
    rw [List.length_append, List.length_singleton]
  have hlt : (ofList l : Counted α n).count < n := h
  rw [store, dif_pos hlt]
  exact congrArg some (congrArg₂ Counted.mk hentries hcount)

/-- The entries in use are inside of the array and have the property. -/
structure All (P : α → Prop) (table : Counted α n) : Prop where
  count_le : table.count ≤ n
  holds : ∀ i : Fin n, i.val < table.count → P (table.entries i)

lemma All.store {P : α → Prop} {table : Counted α n} {a : α} (h : table.All P) (ha : P a)
    (hroom : table.count < n) : ∃ table', table.store a = some table' ∧ table'.All P := by
  refine ⟨_, dif_pos hroom, hroom, fun i hi => ?_⟩
  dsimp only at hi ⊢
  by_cases heq : i = ⟨table.count, hroom⟩
  · rw [heq, Function.update_self]
    exact ha
  · have hne : i.val ≠ table.count := fun hval => heq (Fin.ext hval)
    rw [Function.update_of_ne heq]
    exact h.holds i (Nat.lt_of_le_of_ne (Nat.lt_succ_iff.mp hi) hne)

end Counted
