import JoshOS.Lib.Memory

/-!
Records laid out in a byte-addressed memory.

A `RecordLayout` gives every field of a record type its offset and width and
carries the proof that fields stay inside the record and do not overlap.  A
record at an address is then the function `get L m a` from fields to values, and
storing a field is `Function.update` on that function: `get_set_self` at the
same record, `get_set_of_apart` at every record that does not overlap it.  `setAll` is a
series of stores, of which the last one to a field counts (`get_setAll`).
-/

/-- Offsets and widths of the fields of a record of `size` bytes. -/
structure RecordLayout (φ : Type*) where
  offset : φ → ℕ
  width : φ → ℕ
  size : ℕ
  fits : ∀ f, offset f + width f ≤ size
  disjoint : ∀ f g, f ≠ g → offset f + width f ≤ offset g ∨ offset g + width g ≤ offset f

namespace RecordLayout

variable {φ : Type*} (L : RecordLayout φ)

/-- The value of field `f` of the record at `a`. -/
def get (m : Memory) (a : ℕ) (f : φ) : ℕ := Memory.readLE m (a + L.offset f) (L.width f)

/-- Store `v` in field `f` of the record at `a`. -/
def set (m : Memory) (a : ℕ) (f : φ) (v : ℕ) : Memory :=
  Memory.writeLE m (a + L.offset f) (L.width f) v

/-- The records at `a` and `b` share no byte. -/
def Apart (a b : ℕ) : Prop := a + L.size ≤ b ∨ b + L.size ≤ a

variable {L} {m m' : Memory} {a b x v : ℕ} {f : φ}

/-- A record depends only on its own bytes. -/
lemma get_congr (h : ∀ x, a ≤ x → x < a + L.size → m x = m' x) : L.get m a = L.get m' a := by
  funext f
  have hfits := L.fits f
  exact Memory.readLE_congr fun x hx hx' => h x (by omega) (by omega)

/-- Storing a field touches no byte outside its record. -/
lemma set_apply_of_notMem (h : x < a ∨ a + L.size ≤ x) : L.set m a f v x = m x := by
  have hfits := L.fits f
  exact Memory.writeLE_apply_of_notMem (by omega)

/-- Storing a field updates its record at that field and nowhere else. -/
lemma get_set_self [DecidableEq φ] (hv : v < 256 ^ L.width f) :
    L.get (L.set m a f v) a = Function.update (L.get m a) f v := by
  funext g
  by_cases hg : g = f
  · subst hg
    rw [Function.update_self, get, set, Memory.readLE_writeLE, Nat.mod_eq_of_lt hv]
  · rw [Function.update_of_ne hg]
    have hdisj := L.disjoint g f hg
    exact Memory.readLE_writeLE_of_disjoint (by omega)

/-- Storing a field leaves the records apart from it alone. -/
lemma get_set_of_apart (h : L.Apart a b) : L.get (L.set m a f v) b = L.get m b :=
  get_congr fun x _ _ => set_apply_of_notMem (by unfold Apart at h; omega)

/-- Storing a field, seen from a record that is the same or apart. -/
lemma get_set [DecidableEq φ] {g : φ} (h : b = a ∨ L.Apart a b) (hv : v < 256 ^ L.width f) :
    L.get (L.set m a f v) b g = if b = a ∧ g = f then v else L.get m b g := by
  by_cases hab : b = a
  · subst hab
    rw [get_set_self hv]
    by_cases hg : g = f
    · simp [hg]
    · simp [hg]
  · rw [get_set_of_apart (h.resolve_left hab), if_neg fun hand => hab hand.1]

/-- The stores of a list of records, fields and values, in order.  A store through the null
pointer is left out. -/
def setAll (L : RecordLayout φ) (m : Memory) (es : List (ℕ × φ × ℕ)) : Memory :=
  es.foldl (fun m e => if e.1 = 0 then m else L.set m e.1 e.2.1 e.2.2) m

variable {es : List (ℕ × φ × ℕ)}

lemma setAll_cons (e : ℕ × φ × ℕ) :
    L.setAll m (e :: es) = L.setAll (if e.1 = 0 then m else L.set m e.1 e.2.1 e.2.2) es := rfl

/-- The last store to a field counts. -/
lemma get_setAll [DecidableEq φ] {g : φ} (hb : b ≠ 0)
    (h : ∀ e ∈ es, e.1 ≠ 0 → b = e.1 ∨ L.Apart e.1 b)
    (hv : ∀ e ∈ es, e.2.2 < 256 ^ L.width e.2.1) :
    L.get (L.setAll m es) b g =
      es.foldl (fun v e => if b = e.1 ∧ g = e.2.1 then e.2.2 else v) (L.get m b g) := by
  induction es generalizing m with
  | nil => rfl
  | cons e es ih =>
    rw [List.forall_mem_cons] at h hv
    rw [setAll_cons, List.foldl_cons, ih h.2 hv.2]
    by_cases he : e.1 = 0
    · rw [if_pos he, if_neg fun hand => hb (hand.1.trans he)]
    · rw [if_neg he, get_set (h.1 he) hv.1]

/-- Only the records that are stored to change. -/
lemma setAll_eqOn {S : Set ℕ} (h : ∀ e ∈ es, e.1 ≠ 0 → Set.Ico e.1 (e.1 + L.size) ⊆ S) :
    Set.EqOn (L.setAll m es) m Sᶜ := by
  induction es generalizing m with
  | nil => exact Set.eqOn_refl _ _
  | cons e es ih =>
    rw [List.forall_mem_cons] at h
    rw [setAll_cons]
    refine (ih h.2).trans fun x hx => ?_
    split_ifs with he
    · rfl
    · refine set_apply_of_notMem ?_
      by_contra hne
      push Not at hne
      exact hx (h.1 he ⟨hne.1, hne.2⟩)

-- records are only looked at through the lemmas above
attribute [irreducible] get set

end RecordLayout
