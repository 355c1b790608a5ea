import Mathlib

/-!
Lists of records that are known by a key.

* `lookup_map`: a change of the records that keeps their keys, seen from one key.
* `lookup_modify_self`, `lookup_modify_of_ne`: the change of the record of one key.
* `lookup_eq_some_iff`: with different keys every record is found.
-/

namespace Keyed

variable {α κ : Type*} [DecidableEq κ] {key : α → κ} {k k' : κ} {f : α → α} {l : List α} {a : α}

/-- The first record of a key. -/
def lookup (key : α → κ) (k : κ) (l : List α) : Option α := l.find? fun a => key a = k

/-- The change of the records of a key. -/
def modify (key : α → κ) (k : κ) (f : α → α) (l : List α) : List α :=
  l.map fun a => if key a = k then f a else a

lemma mem_of_lookup (h : lookup key k l = some a) : a ∈ l := List.mem_of_find?_eq_some h

lemma key_of_lookup (h : lookup key k l = some a) : key a = k := by
  simpa using List.find?_some h

/-- With different keys every record is found by its own. -/
lemma lookup_eq_some_iff (hnodup : (l.map key).Nodup) :
    lookup key k l = some a ↔ a ∈ l ∧ key a = k := by
  constructor
  · exact fun h => ⟨mem_of_lookup h, key_of_lookup h⟩
  · rintro ⟨ha, rfl⟩
    have hsome : (lookup key (key a) l).isSome = true :=
      List.find?_isSome.mpr ⟨a, ha, by simp⟩
    obtain ⟨b, hb⟩ := Option.isSome_iff_exists.mp hsome
    rw [hb, List.inj_on_of_nodup_map hnodup (mem_of_lookup hb) ha (key_of_lookup hb)]

/-- A change of the records that keeps their keys. -/
lemma lookup_map (hf : ∀ a, key (f a) = key a) (k : κ) (l : List α) :
    lookup key k (l.map f) = (lookup key k l).map f := by
  rw [lookup, List.find?_map, lookup]
  refine congrArg (fun p => (l.find? p).map f) (funext fun a => ?_)
  simp [hf]

lemma key_modify (hf : ∀ a, key (f a) = key a) (k : κ) (a : α) :
    key (if key a = k then f a else a) = key a := by
  split_ifs
  · exact hf a
  · rfl

lemma lookup_modify_self (hf : ∀ a, key (f a) = key a) (k : κ) (l : List α) :
    lookup key k (modify key k f l) = (lookup key k l).map f := by
  rw [modify, lookup_map (key_modify hf k)]
  have hpos : ∀ a ∈ lookup key k l, (if key a = k then f a else a) = f a :=
    fun a ha => if_pos (key_of_lookup ha)
  rw [Option.map_congr hpos]

/-- The other records stay when those of a key are removed. -/
lemma lookup_filter_ne (hne : k' ≠ k) (l : List α) :
    lookup key k' (l.filter fun a => key a ≠ k) = lookup key k' l := by
  rw [lookup, List.find?_filter, lookup]
  refine congrArg (l.find? ·) (funext fun a => ?_)
  by_cases ha : key a = k'
  · simp [ha, hne]
  · simp [ha]

end Keyed
