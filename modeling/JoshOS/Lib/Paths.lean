import Mathlib

/-!
Paths of a tree of directories.

A path is the list of the names on the way from the root.  A text names the path of the names
between its separators, where empty names do not count.

* `components_append_sep`: a separator splits a text into two paths.
* `apart_of_ne`: below different names of one directory nothing is shared.
* `Confined`: a change of the tree that stays on the way to a path and below it.
-/

namespace Paths

variable {ν β : Type*} {p q r s t : List ν} {x y : ν}

/-! ### Below and beside -/

/-- Neither of two paths is above the other or equal to it. -/
def Apart (p q : List ν) : Prop := ¬ p <+: q ∧ ¬ q <+: p

/-- Below different names of one directory the paths are apart. -/
lemma apart_of_ne (hne : x ≠ y) : Apart (p ++ x :: s) (p ++ y :: t) := by
  constructor
  · intro h
    exact hne (List.cons_prefix_cons.mp ((List.prefix_append_right_inj p).mp h)).1
  · intro h
    exact hne (List.cons_prefix_cons.mp ((List.prefix_append_right_inj p).mp h)).1.symm

/-! ### Texts as paths -/

variable {α : Type*} [DecidableEq α] {sep : α} {name : List α}

/-- The names between the separators of a text. -/
def components (sep : α) (text : List α) : List (List α) :=
  (text.splitOn sep).filter fun name => name ≠ []

lemma components_append_sep (sep : α) (l r : List α) :
    components sep (l ++ sep :: r) = components sep l ++ components sep r := by
  have hsep : (sep == sep) = true := beq_self_eq_true sep
  have hsplit : (l ++ sep :: r).splitOn sep = l.splitOn sep ++ r.splitOn sep :=
    List.splitOnP_append_cons (p := (· == sep)) l r hsep
  rw [components, hsplit, List.filter_append]
  rfl

/-- A name is a path of one step. -/
lemma components_name (hname : sep ∉ name) (hne : name ≠ []) : components sep name = [name] := by
  have hsplit : name.splitOn sep = [name] := by
    refine List.splitOnP_eq_singleton fun c hc => ?_
    rw [beq_eq_false_iff_ne]
    rintro rfl
    exact hname hc
  rw [components, hsplit, List.filter_cons_of_pos (by simpa using hne), List.filter_nil]

/-! ### Changes of a tree -/

/-- The change leaves alone what is apart from a path. -/
def Confined (p : List ν) (f : (List ν → β) → List ν → β) : Prop :=
  ∀ tree q, Apart p q → f tree q = tree q

end Paths
