import JoshOS.Lib.Lines

/-!
Fields joined by a separator, with an escape character.

A field is written with every separator and every escape character in it behind an escape
character; the fields are joined by separators.  The reader takes one character after the
other, and knows whether the last one was an escape character.

* `foldl_step_escape`: the reader takes up an escaped field as it was.
* `split_join`: reading back what was joined.
* `length_split_le`: the lines of joined fields, where a field is broken by line ends, have
  fewer fields.
* `rdropWhile_escape`: trailing characters that are not escaped can be dropped before.
-/

namespace Escape

/-- An escape character and a separator. -/
structure Marks (α : Type*) where
  esc : α
  sep : α
  esc_ne_sep : esc ≠ sep

variable {α : Type*} [DecidableEq α] {m : Marks α} {c : α} {l l' field current : List α}
  {fields : List (List α)}

/-! ### Writing -/

/-- A character as it is written. -/
def escapeChar (m : Marks α) (c : α) : List α := if c = m.esc ∨ c = m.sep then [m.esc, c] else [c]

/-- A field as it is written. -/
def escape (m : Marks α) (field : List α) : List α := field.flatMap (escapeChar m)

/-- The fields as they are joined. -/
def join (m : Marks α) (fields : List (List α)) : List α :=
  [m.sep].intercalate (fields.map (escape m))

/-- Further fields, each behind a separator. -/
def tail (m : Marks α) (fields : List (List α)) : List α :=
  fields.flatMap fun field => m.sep :: escape m field

@[simp] lemma escape_nil : escape m [] = [] := rfl

lemma escape_cons (c : α) (l : List α) : escape m (c :: l) = escapeChar m c ++ escape m l := rfl

lemma escape_append (l l' : List α) : escape m (l ++ l') = escape m l ++ escape m l' :=
  List.flatMap_append

@[simp] lemma tail_nil : tail m [] = [] := rfl

lemma tail_cons (field : List α) (fields : List (List α)) :
    tail m (field :: fields) = m.sep :: escape m field ++ tail m fields := rfl

lemma join_cons (field : List α) (fields : List (List α)) :
    join m (field :: fields) = escape m field ++ tail m fields := by
  induction fields generalizing field with
  | nil => simp [join, List.intercalate]
  | cons next fields ih =>
    rw [tail_cons, List.cons_append, ← ih next]
    simp [join, List.intercalate]

lemma escapeChar_of_ne (hesc : c ≠ m.esc) (hsep : c ≠ m.sep) : escapeChar m c = [c] :=
  if_neg (not_or.mpr ⟨hesc, hsep⟩)

lemma mem_escapeChar {d : α} (h : d ∈ escapeChar m c) : d = m.esc ∨ d = c := by
  rw [escapeChar] at h
  split_ifs at h
  · simpa using h
  · exact Or.inr (List.mem_singleton.mp h)

/-- A written field has no other characters than the field and the escape character. -/
lemma mem_escape {d : α} (h : d ∈ escape m l) : d = m.esc ∨ d ∈ l := by
  obtain ⟨c, hc, hd⟩ := List.mem_flatMap.mp h
  rcases mem_escapeChar hd with hesc | rfl
  · exact .inl hesc
  · exact .inr hc

/-! ### Reading -/

/-- The state of the reader: the fields so far, the current one, and whether the last
character was an escape character. -/
structure Reader (α : Type*) where
  fields : List (List α)
  current : List α
  escaped : Bool

/-- One character. -/
def step (m : Marks α) (s : Reader α) (c : α) : Reader α :=
  if s.escaped then { s with current := s.current ++ [c], escaped := false }
  else if c = m.esc then { s with escaped := true }
  else if c = m.sep then { s with fields := s.fields ++ [s.current], current := [] }
  else { s with current := s.current ++ [c] }

/-- The fields when the line ends. -/
def Reader.result (s : Reader α) : List (List α) := s.fields ++ [s.current]

/-- The fields of a line. -/
def split (m : Marks α) (line : List α) : List (List α) :=
  (line.foldl (step m) ⟨[], [], false⟩).result

/-- An escaped character is taken up as it was. -/
lemma foldl_step_escapeChar (c : α) :
    (escapeChar m c).foldl (step m) ⟨fields, current, false⟩ = ⟨fields, current ++ [c], false⟩ := by
  rw [escapeChar]
  split_ifs with hmark
  · simp [step]
  · obtain ⟨hesc, hsep⟩ := not_or.mp hmark
    simp [step, hesc, hsep]

/-- **An escaped field** is taken up as it was. -/
lemma foldl_step_escape (field : List α) :
    (escape m field).foldl (step m) ⟨fields, current, false⟩ =
      ⟨fields, current ++ field, false⟩ := by
  induction field generalizing current with
  | nil => rw [escape_nil, List.foldl_nil, List.append_nil]
  | cons c field ih =>
    rw [escape_cons, List.foldl_append, foldl_step_escapeChar, ih, List.append_assoc,
      List.singleton_append]

lemma foldl_step_sep :
    step m ⟨fields, current, false⟩ m.sep = ⟨fields ++ [current], [], false⟩ := by
  simp [step, m.esc_ne_sep.symm]

/-- Further fields are read one after the other. -/
lemma foldl_step_tail (more : List (List α)) :
    ((tail m more).foldl (step m) ⟨fields, current, false⟩).result =
      fields ++ current :: more := by
  induction more generalizing fields current with
  | nil => rfl
  | cons field more ih =>
    rw [tail_cons, List.cons_append, List.foldl_cons, foldl_step_sep, List.foldl_append,
      foldl_step_escape, List.nil_append, ih, List.append_assoc, List.singleton_append]

/-- **What was joined is read back.** -/
theorem split_join (hne : fields ≠ []) : split m (join m fields) = fields := by
  cases fields with
  | nil => exact absurd rfl hne
  | cons field fields =>
    rw [join_cons, split, List.foldl_append, foldl_step_escape, List.nil_append, foldl_step_tail,
      List.nil_append]

/-! ### Lines of joined fields -/

section Breaks

open List Lines

variable {e : Ends α}

lemma oneLine_escape (hesc : e.isBreak m.esc = false) (hl : OneLine e l) :
    OneLine e (escape m l) := by
  intro d hd
  rcases mem_escape hd with rfl | hmem
  · exact hesc
  · exact hl d hmem

lemma escapeChar_ne_nil (c : α) : escapeChar m c ≠ [] := by
  rw [escapeChar]
  split_ifs <;> simp

/-- A line end is not escaped. -/
lemma escapeChar_of_break (hesc : e.isBreak m.esc = false) (hsep : e.isBreak m.sep = false)
    (hc : e.isBreak c = true) : escapeChar m c = [c] := by
  refine escapeChar_of_ne ?_ ?_
  · rintro rfl
    rw [hesc] at hc
    cases hc
  · rintro rfl
    rw [hsep] at hc
    cases hc

lemma split_escape (field : List α) : split m (escape m field) = [field] := by
  have hjoin : join m [field] = escape m field := by rw [join_cons, tail_nil, append_nil]
  rw [← hjoin, split_join (cons_ne_nil _ _)]

/-- **The lines of a field that may be broken and of further ones** have at most one field
more than the further ones. -/
lemma length_split_le (hesc : e.isBreak m.esc = false) (hsep : e.isBreak m.sep = false)
    {more : List (List α)} (hmore : OneLine e (tail m more)) {skip : Bool} {piece line : List α}
    (hline : line ∈ splitFrom e skip (escape m piece) (escape m field ++ tail m more)) :
    (split m line).length ≤ more.length + 1 := by
  induction field generalizing skip piece with
  | nil =>
    obtain rfl := eq_of_mem_splitFrom hmore hline
    rw [← join_cons, split_join (cons_ne_nil _ _), length_cons]
  | cons c field ih =>
    rw [escape_cons, append_assoc] at hline
    cases hc : e.isBreak c with
    | true =>
      rw [escapeChar_of_break hesc hsep hc, singleton_append, splitFrom] at hline
      split_ifs at hline
      · exact ih hline
      · rcases mem_cons.mp hline with rfl | hrest
        · rw [split_escape, length_singleton]
          omega
        · rw [← escape_nil (m := m)] at hrest
          exact ih hrest
    | false =>
      -- the character belongs to the current line
      have hone : OneLine e (escapeChar m c) := by
        intro d hd
        rcases mem_escapeChar hd with rfl | rfl
        · exact hesc
        · exact hc
      rw [splitFrom_append_of_ne hone (escapeChar_ne_nil c)] at hline
      have hpiece : escape m piece ++ escapeChar m c = escape m (piece ++ [c]) := by
        rw [escape_append, escape_cons, escape_nil, append_nil]
      rw [hpiece] at hline
      exact ih hline

end Breaks

/-! ### Trailing characters -/

/-- Characters that are not escaped can be dropped from the end of a field before it is
written. -/
lemma rdropWhile_escape {p : α → Bool} (hesc : p m.esc = false) (hsep : p m.sep = false)
    (l : List α) : (escape m l).rdropWhile p = escape m (l.rdropWhile p) := by
  induction l using List.reverseRecOn with
  | nil => rfl
  | append_singleton l c ih =>
    have hlast : ∃ pre, escapeChar m c = pre ++ [c] := by
      rw [escapeChar]
      split_ifs
      · exact ⟨[m.esc], rfl⟩
      · exact ⟨[], rfl⟩
    rw [escape_append, escape_cons, escape_nil, List.append_nil]
    by_cases hp : p c = true
    · have hchar : escapeChar m c = [c] := by
        refine escapeChar_of_ne ?_ ?_
        · rintro rfl
          simp [hesc] at hp
        · rintro rfl
          simp [hsep] at hp
      rw [hchar, List.rdropWhile_concat_pos _ _ _ hp, List.rdropWhile_concat_pos _ _ _ hp, ih]
    · obtain ⟨pre, hpre⟩ := hlast
      rw [hpre, ← List.append_assoc, List.rdropWhile_concat_neg _ _ _ hp,
        List.rdropWhile_concat_neg _ _ _ hp, escape_append, escape_cons, escape_nil,
        List.append_nil, hpre, List.append_assoc]

end Escape
