import JoshOS.Control.Model

/-!
Names that come back from NetworkManager.

The name of a connection passes through three things: the escaping of terse output, the
stripping of the whole output, and its split into lines.

* `networkStatus_connection_iff`: exactly when it is the name.
-/

open Escape Lines

namespace JoshOS.Control

variable {text name state : Text}

/-! ### Characters -/

lemma isSpace_esc : isSpace terse.esc = false := by decide

lemma isSpace_sep : isSpace terse.sep = false := by decide

lemma isBreak_esc : lineEnds.isBreak terse.esc = false := by decide

lemma isBreak_sep : lineEnds.isBreak terse.sep = false := by decide

lemma oneLine_tail {fields : List Text} (h : ∀ field ∈ fields, OneLine lineEnds field) :
    OneLine lineEnds (tail terse fields) := by
  induction fields with
  | nil => exact oneLine_nil
  | cons field fields ih =>
    obtain ⟨hfield, hfields⟩ := List.forall_mem_cons.mp h
    rw [tail_cons, oneLine_append, oneLine_cons]
    exact ⟨⟨isBreak_sep, oneLine_escape isBreak_esc hfield⟩, ih hfields⟩

lemma oneLine_join {fields : List Text} (h : ∀ field ∈ fields, OneLine lineEnds field) :
    OneLine lineEnds (join terse fields) := by
  cases fields with
  | nil => exact oneLine_nil
  | cons field fields =>
    obtain ⟨hfield, hfields⟩ := List.forall_mem_cons.mp h
    rw [join_cons, oneLine_append]
    exact ⟨oneLine_escape isBreak_esc hfield, oneLine_tail hfields⟩

/-- Characters are dropped from the end down to one that stays. -/
lemma rdropWhile_append_cons {α : Type*} {p : α → Bool} {z : α} (hz : p z = false)
    (u v : List α) : (u ++ z :: v).rdropWhile p = u ++ z :: v.rdropWhile p := by
  induction v using List.reverseRecOn with
  | nil =>
    rw [List.rdropWhile_concat_neg _ _ _ (by simp [hz])]
    rfl
  | append_singleton v c ih =>
    have hassoc : u ++ z :: (v ++ [c]) = (u ++ z :: v) ++ [c] := by simp
    rw [hassoc]
    by_cases hc : p c = true
    · rw [List.rdropWhile_concat_pos _ _ _ hc, List.rdropWhile_concat_pos _ _ _ hc, ih]
    · rw [List.rdropWhile_concat_neg _ _ _ hc, List.rdropWhile_concat_neg _ _ _ hc, hassoc]

/-- The lines of an output, which do not depend on how its returns are read. -/
lemma splitlines_run (env : Environment) (command : Command) :
    splitlines (run env command).2 = splitlines (strip (env command).2) := by
  have hret : isSpace lineEnds.ret = true := by decide
  have hfeed : isSpace lineEnds.feed = true := by decide
  rw [run, strip, Lines.translate, dropWhile_translateFrom hret hfeed, Lines.translate,
    rdropWhile_translateFrom hret hfeed, splitlines, Lines.split, splitFrom_translateFrom]
  rfl

/-! ### The name of a connection -/

/-- A line of `device show`. -/
lemma join_connection (name : Text) :
    join terse ["GENERAL.CONNECTION".toList, name] =
      "GENERAL.CONNECTION".toList ++ ':' :: escape terse name := by
  rw [join_cons, tail_cons, tail_nil, List.append_nil]
  rfl

/-- Stripping takes the feed, and white space in front of it, from the name. -/
lemma strip_shown (state name : Text) :
    strip (shown state name) = join terse ["GENERAL.STATE".toList, state] ++
      '\n' :: join terse ["GENERAL.CONNECTION".toList, name.rdropWhile isSpace] := by
  have hfirst : (shown state name).dropWhile isSpace = shown state name := rfl
  have hcut : shown state name = join terse ["GENERAL.STATE".toList, state] ++
      '\n' :: "GENERAL.CONNECTION".toList ++ ':' :: (escape terse name ++ ['\n']) := by
    rw [shown, join_connection]
    simp
  have hfeed : (escape terse name ++ ['\n']).rdropWhile isSpace =
      escape terse (name.rdropWhile isSpace) := by
    rw [List.rdropWhile_concat_pos _ _ _ (by decide), rdropWhile_escape isSpace_esc isSpace_sep]
  have hsep : isSpace ':' = false := isSpace_sep
  rw [strip, hfirst, hcut, rdropWhile_append_cons hsep, hfeed, join_connection,
    List.append_assoc, List.cons_append]

/-- Lines of one field say nothing. -/
lemma foldl_addDetail_of_length_le {lines : List Text}
    (h : ∀ line ∈ lines, (splitNmcli line).length ≤ 1) (values : Text → Option Text) :
    lines.foldl addDetail values = values := by
  induction lines with
  | nil => rfl
  | cons line lines ih =>
    obtain ⟨hline, hlines⟩ := List.forall_mem_cons.mp h
    have hkeep : addDetail values line = values := by
      rw [addDetail]
      split
      case h_1 heq =>
        rw [heq] at hline
        simp at hline
      case h_2 => rfl
    rw [List.foldl_cons, hkeep, ih hlines]

lemma addDetail_join (values : Text → Option Text) (key field : Text) :
    addDetail values (join terse [key, field]) = Function.update values key (some field) := by
  have hsplit : splitNmcli (join terse [key, field]) = [key, field] :=
    split_join (List.cons_ne_nil _ _)
  have hfield : [':'].intercalate [field] = field := by simp [List.intercalate]
  rw [addDetail, hsplit]
  dsimp only
  rw [hfield]

/-- The first line of a text. -/
def firstLine (text : Text) : Text := text.takeWhile fun c => !isLineBreak c

lemma firstLine_of_oneLine (h : OneLine lineEnds text) : firstLine text = text := by
  refine List.takeWhile_eq_self_iff.mpr fun c hc => ?_
  have hbreak : isLineBreak c = false := h c hc
  rw [hbreak]
  rfl

lemma firstLine_append {c : Char} (h : OneLine lineEnds text) (hc : lineEnds.isBreak c = true)
    (rest : Text) : firstLine (text ++ c :: rest) = text := by
  have hbreak : isLineBreak c = true := hc
  rw [firstLine, List.takeWhile_append_of_pos fun d hd => ?_, List.takeWhile_cons_of_neg ?_,
    List.append_nil]
  · simp [hbreak]
  · have hkeep : isLineBreak d = false := h d hd
    simp [hkeep]

/-- What is kept of the lines of a connection: the first line of its name. -/
lemma foldl_addDetail_connection (values : Text → Option Text) (name : Text) :
    (splitlines (join terse ["GENERAL.CONNECTION".toList, name])).foldl addDetail values =
      Function.update values "GENERAL.CONNECTION".toList (some (firstLine name)) := by
  have hpair : ∀ field : Text, OneLine lineEnds field →
      OneLine lineEnds (join terse ["GENERAL.CONNECTION".toList, field]) := by
    intro field hfield
    exact oneLine_join (List.forall_mem_cons.mpr ⟨by decide, by simpa using hfield⟩)
  rcases exists_first_break lineEnds name with hone | ⟨l, c, rest, rfl, hl, hc⟩
  · have hne : join terse ["GENERAL.CONNECTION".toList, name] ≠ [] := by
      rw [join_connection]
      exact List.cons_ne_nil _ _
    rw [splitlines, split_oneLine (hpair name hone) hne, List.foldl_cons, List.foldl_nil,
      addDetail_join, firstLine_of_oneLine hone]
  · have hcut : join terse ["GENERAL.CONNECTION".toList, l ++ c :: rest] =
        join terse ["GENERAL.CONNECTION".toList, l] ++ c :: escape terse rest := by
      rw [join_connection, join_connection, escape_append, escape_cons,
        escapeChar_of_break isBreak_esc isBreak_sep hc]
      simp
    rw [hcut, splitlines, Lines.split, splitFrom_append_break (hpair l hl) hc, List.nil_append,
      List.foldl_cons, addDetail_join, firstLine_append hl hc]
    refine foldl_addDetail_of_length_le (fun line hline => ?_) _
    have hrest : line ∈ splitFrom lineEnds (decide (c = lineEnds.ret)) (escape terse [])
        (escape terse rest ++ tail terse []) := by
      rwa [escape_nil, tail_nil, List.append_nil]
    exact length_split_le isBreak_esc isBreak_sep oneLine_nil hrest

/-- **What `network_status` makes of the name of a connection**: the first line of what is in
front of trailing white space, unless this is `--`. -/
lemma networkStatus_connection {env : Environment} {device : Text}
    (hdevice : wifiDevice env = some device) (hne : device ≠ [])
    (hstate : OneLine lineEnds state)
    (hshown : (env (.deviceShow device)).2 = shown state name) :
    (networkStatus env).connection =
      if firstLine (name.rdropWhile isSpace) ≠ "--".toList then
        firstLine (name.rdropWhile isSpace)
      else [] := by
  have hlines : splitlines (run env (.deviceShow device)).2 =
      join terse ["GENERAL.STATE".toList, state] ::
        splitlines (join terse ["GENERAL.CONNECTION".toList, name.rdropWhile isSpace]) := by
    rw [splitlines_run, hshown, strip_shown]
    exact split_append_feed (oneLine_join (by simpa using ⟨by decide, hstate⟩)) _
  cases device with
  | nil => exact absurd rfl hne
  | cons d ds =>
    simp only [networkStatus, hdevice, hlines, List.foldl_cons, foldl_addDetail_connection,
      Function.update_self, Option.getD_some]

/-- **Exactly which names of connections come back**: those of one line that do not end in
white space, and are not the mark for no connection. -/
lemma networkStatus_connection_iff {env : Environment} {device : Text}
    (hdevice : wifiDevice env = some device) (hne : device ≠ [])
    (hstate : OneLine lineEnds state)
    (hshown : (env (.deviceShow device)).2 = shown state name) :
    (networkStatus env).connection = name ↔
      OneLine lineEnds name ∧ (∀ h : name ≠ [], isSpace (name.getLast h) = false) ∧
        name ≠ "--".toList := by
  have hend : (∀ h : name ≠ [], isSpace (name.getLast h) = false) ↔
      name.rdropWhile isSpace = name := by
    simp only [List.rdropWhile_eq_self_iff, Bool.not_eq_true]
  rw [networkStatus_connection hdevice hne hstate hshown, hend]
  constructor
  · intro heq
    split_ifs at heq with hdash
    · rcases exists_first_break lineEnds (name.rdropWhile isSpace) with
        hone | ⟨l, c, rest, hcut, hl, hc⟩
      · rw [firstLine_of_oneLine hone] at heq hdash
        rw [heq] at hone hdash
        exact ⟨hone, heq, hdash⟩
      · -- a first line that is the name is longer than the text it starts
        rw [hcut, firstLine_append hl hc] at heq
        have hle := (List.rdropWhile_prefix isSpace name).length_le
        rw [hcut, heq, List.length_append, List.length_cons] at hle
        omega
    · rw [← heq] at hdash
      exact absurd (show firstLine [] ≠ "--".toList by decide) hdash
  · rintro ⟨hone, hspace, hdash⟩
    rw [hspace, firstLine_of_oneLine hone, if_pos hdash]

end JoshOS.Control
