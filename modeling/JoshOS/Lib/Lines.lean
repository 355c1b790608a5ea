import Mathlib

/-!
Texts split into lines.

A line ends at any character of a given kind, and two such characters, a return and a feed,
end it together.  The split keeps no empty line behind the last end.

* `splitFrom_append_break`: a text without line ends in front of one is a line.
* `splitFrom_append_feed`: a feed behind a complete text splits it off.
* `exists_first_break`: the first line end of a text.
* `splitFrom_translateFrom`: feeds in place of returns leave the lines as they are.
-/

namespace Lines

open List

/-- The characters that end a line, and the pair of them that ends one line only. -/
structure Ends (α : Type*) where
  isBreak : α → Bool
  ret : α
  feed : α
  ret_isBreak : isBreak ret = true
  feed_isBreak : isBreak feed = true
  feed_ne_ret : feed ≠ ret

variable {α : Type*} {e : Ends α} {c : α} {l current text rest : List α} {skip : Bool}

/-! ### Texts without line ends -/

/-- The text has no line end. -/
def OneLine (e : Ends α) (text : List α) : Prop := ∀ c ∈ text, e.isBreak c = false

instance (e : Ends α) : DecidablePred (OneLine e) := fun text =>
  inferInstanceAs (Decidable (∀ c ∈ text, e.isBreak c = false))

@[simp] lemma oneLine_nil : OneLine e [] := by simp [OneLine]

lemma oneLine_append : OneLine e (l ++ text) ↔ OneLine e l ∧ OneLine e text := by
  simp only [OneLine, mem_append, or_imp, forall_and]

lemma oneLine_cons : OneLine e (c :: l) ↔ e.isBreak c = false ∧ OneLine e l := by
  simp only [OneLine, mem_cons, forall_eq_or_imp]

lemma ne_feed (hc : e.isBreak c = false) : c ≠ e.feed := by
  rintro rfl
  rw [e.feed_isBreak] at hc
  cases hc

/-- A text without line ends, or the first line of a text. -/
lemma exists_first_break (e : Ends α) (text : List α) :
    OneLine e text ∨
      ∃ l c rest, text = l ++ c :: rest ∧ OneLine e l ∧ e.isBreak c = true := by
  induction text with
  | nil => exact .inl oneLine_nil
  | cons d text ih =>
    cases hd : e.isBreak d with
    | true => exact .inr ⟨[], d, text, rfl, oneLine_nil, hd⟩
    | false =>
      rcases ih with hone | ⟨l, c, rest, rfl, hl, hc⟩
      · exact .inl (oneLine_cons.mpr ⟨hd, hone⟩)
      · exact .inr ⟨d :: l, c, rest, rfl, oneLine_cons.mpr ⟨hd, hl⟩, hc⟩

/-! ### The split -/

variable [DecidableEq α]

/-- The lines of a text behind `current`; with `skip` the text is behind a return. -/
def splitFrom (e : Ends α) (skip : Bool) (current : List α) : List α → List (List α)
  | [] => if current = [] then [] else [current]
  | c :: rest =>
    if skip = true ∧ c = e.feed then splitFrom e false current rest
    else if e.isBreak c then current :: splitFrom e (decide (c = e.ret)) [] rest
    else splitFrom e false (current ++ [c]) rest

/-- The lines of a text. -/
def split (e : Ends α) (text : List α) : List (List α) := splitFrom e false [] text

lemma splitFrom_cons_of_not_break (hc : e.isBreak c = false) :
    splitFrom e skip current (c :: rest) = splitFrom e false (current ++ [c]) rest := by
  rw [splitFrom, if_neg fun h => ne_feed hc h.2, if_neg (by simp [hc])]

/-- A text without line ends is taken to the current line. -/
lemma splitFrom_append (hl : OneLine e l) (rest : List α) :
    splitFrom e false current (l ++ rest) = splitFrom e false (current ++ l) rest := by
  induction l generalizing current with
  | nil => rw [nil_append, append_nil]
  | cons c l ih =>
    obtain ⟨hc, hl⟩ := oneLine_cons.mp hl
    rw [cons_append, splitFrom_cons_of_not_break hc, ih hl, append_assoc,
      singleton_append]

/-- The same behind a return, if there is something to take. -/
lemma splitFrom_append_of_ne (hl : OneLine e l) (hne : l ≠ []) (rest : List α) :
    splitFrom e skip current (l ++ rest) = splitFrom e false (current ++ l) rest := by
  cases l with
  | nil => exact absurd rfl hne
  | cons c l =>
    obtain ⟨hc, hl⟩ := oneLine_cons.mp hl
    rw [cons_append, splitFrom_cons_of_not_break hc, splitFrom_append hl, append_assoc,
      singleton_append]

/-- A line and its end. -/
lemma splitFrom_append_break (hl : OneLine e l) (hc : e.isBreak c = true) (rest : List α) :
    splitFrom e false current (l ++ c :: rest) =
      (current ++ l) :: splitFrom e (decide (c = e.ret)) [] rest := by
  rw [splitFrom_append hl, splitFrom, if_neg (by simp), if_pos hc]

/-- The last line. -/
lemma splitFrom_oneLine (hl : OneLine e l) (hne : l ≠ []) :
    splitFrom e skip current l = [current ++ l] := by
  have h : splitFrom e skip current (l ++ []) = splitFrom e false (current ++ l) [] :=
    splitFrom_append_of_ne hl hne []
  rw [append_nil] at h
  rw [h, splitFrom, if_neg (append_ne_nil_of_right_ne_nil _ hne)]

lemma split_oneLine (hl : OneLine e l) (hne : l ≠ []) : split e l = [l] :=
  splitFrom_oneLine hl hne

lemma eq_of_mem_splitFrom (hl : OneLine e l) {line : List α}
    (hline : line ∈ splitFrom e skip current l) : line = current ++ l := by
  by_cases hne : l = []
  · rw [hne, splitFrom] at hline
    rw [hne, append_nil]
    split_ifs at hline
    · simp at hline
    · exact mem_singleton.mp hline
  · rw [splitFrom_oneLine hl hne] at hline
    exact mem_singleton.mp hline

/-- A line and its feed. -/
lemma split_append_feed (hl : OneLine e l) (rest : List α) :
    split e (l ++ e.feed :: rest) = l :: split e rest := by
  rw [split, splitFrom_append_break hl e.feed_isBreak, decide_eq_false e.feed_ne_ret]
  rfl

/-- **A feed splits off what is in front of it**, if that is complete: it does not end in a
line end. -/
lemma splitFrom_append_feed (hc : e.isBreak c = false) (rest : List α) :
    splitFrom e skip current (l ++ [c] ++ e.feed :: rest) =
      splitFrom e skip current (l ++ [c]) ++ split e rest := by
  induction l generalizing skip current with
  | nil =>
    have hret : decide (e.feed = e.ret) = false := decide_eq_false e.feed_ne_ret
    have hlast : splitFrom e false (current ++ [c]) [] = [current ++ [c]] := if_neg (by simp)
    have hnext : splitFrom e false (current ++ [c]) (e.feed :: rest) =
        (current ++ [c] ++ []) :: splitFrom e (decide (e.feed = e.ret)) [] rest :=
      splitFrom_append_break oneLine_nil e.feed_isBreak rest
    rw [append_nil, hret] at hnext
    rw [nil_append, singleton_append, splitFrom_cons_of_not_break hc,
      splitFrom_cons_of_not_break hc, hlast, hnext]
    rfl
  | cons d l ih =>
    simp only [cons_append, splitFrom]
    split_ifs
    · exact ih
    · exact congrArg _ ih
    · exact ih

/-! ### Returns as feeds -/

/-- A feed for every return, and one for a return and a feed; with `skip` the text is behind
a return. -/
def translateFrom (e : Ends α) (skip : Bool) : List α → List α
  | [] => []
  | c :: rest =>
    if skip = true ∧ c = e.feed then translateFrom e false rest
    else if c = e.ret then e.feed :: translateFrom e true rest
    else c :: translateFrom e false rest

/-- The text with feeds in place of its returns. -/
def translate (e : Ends α) (text : List α) : List α := translateFrom e false text

/-- **The lines stay the same.** -/
lemma splitFrom_translateFrom :
    splitFrom e false current (translateFrom e skip text) = splitFrom e skip current text := by
  induction text generalizing skip current with
  | nil => rfl
  | cons c text ih =>
    have hfeed : decide (e.feed = e.ret) = false := decide_eq_false e.feed_ne_ret
    by_cases hskip : skip = true ∧ c = e.feed
    · rw [translateFrom, if_pos hskip, splitFrom, if_pos hskip, ih]
    · rw [translateFrom, if_neg hskip, splitFrom, if_neg hskip]
      by_cases hc : c = e.ret
      · rw [if_pos hc, hc, if_pos e.ret_isBreak, splitFrom, if_neg (by simp), if_pos e.feed_isBreak,
          hfeed, ih, decide_eq_true rfl]
      · rw [if_neg hc, splitFrom, if_neg (by simp), decide_eq_false hc, ih, ih]

variable {p : α → Bool}

lemma dropWhile_translateFrom (hret : p e.ret = true) (hfeed : p e.feed = true) :
    (translateFrom e skip text).dropWhile p = translate e (text.dropWhile p) := by
  induction text generalizing skip with
  | nil => rfl
  | cons c text ih =>
    by_cases hskip : skip = true ∧ c = e.feed
    · rw [translateFrom, if_pos hskip, ih, hskip.2, dropWhile_cons_of_pos hfeed]
    · rw [translateFrom, if_neg hskip]
      by_cases hc : c = e.ret
      · rw [if_pos hc, hc, dropWhile_cons_of_pos hfeed, dropWhile_cons_of_pos hret, ih]
      · rw [if_neg hc]
        by_cases hp : p c = true
        · rw [dropWhile_cons_of_pos hp, dropWhile_cons_of_pos hp, ih]
        · rw [dropWhile_cons_of_neg hp, dropWhile_cons_of_neg hp, translate,
            translateFrom, if_neg (by simp), if_neg hc]

lemma translateFrom_concat (e : Ends α) (skip : Bool) (l : List α) (c : α) :
    ∃ after, translateFrom e skip (l ++ [c]) =
      translateFrom e skip l ++ translateFrom e after [c] := by
  induction l generalizing skip with
  | nil => exact ⟨skip, rfl⟩
  | cons d l ih =>
    have hcons : ∀ rest, translateFrom e skip (d :: rest) =
        if skip = true ∧ d = e.feed then translateFrom e false rest
        else if d = e.ret then e.feed :: translateFrom e true rest
        else d :: translateFrom e false rest := fun _ => rfl
    rw [cons_append, hcons, hcons]
    split_ifs
    · exact ih false
    · exact (ih true).imp fun after h => by rw [h]; rfl
    · exact (ih false).imp fun after h => by rw [h]; rfl

lemma rdropWhile_translateFrom (hret : p e.ret = true) (hfeed : p e.feed = true) :
    (translateFrom e skip text).rdropWhile p = translateFrom e skip (text.rdropWhile p) := by
  induction text using reverseRecOn with
  | nil => rfl
  | append_singleton text c ih =>
    obtain ⟨after, hlast⟩ := translateFrom_concat e skip text c
    by_cases hp : p c = true
    · rw [hlast, rdropWhile_concat_pos _ _ _ hp, ← ih]
      simp only [translateFrom]
      split_ifs
      · rw [append_nil]
      · rw [rdropWhile_concat_pos _ _ _ hfeed]
      · rw [rdropWhile_concat_pos _ _ _ hp]
    · -- a character that stays is neither a return nor a feed
      have hcf : c ≠ e.feed := by
        rintro rfl
        exact hp hfeed
      have hcr : c ≠ e.ret := by
        rintro rfl
        exact hp hret
      have hone : translateFrom e after [c] = [c] := by
        rw [translateFrom, if_neg fun h => hcf h.2, if_neg hcr]
        rfl
      rw [hone] at hlast
      rw [hlast, rdropWhile_concat_neg _ _ _ hp, rdropWhile_concat_neg _ _ _ hp, hlast]

end Lines
