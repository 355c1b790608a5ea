import JoshOS.Control.Nmcli

/-!
The list of networks in range.

`wifi_scan` reads one row a line and keeps the first row of every name.  A name that is broken
into lines is in none of the lines that have four fields, so its row is lost.

* `wifi_scan_active_iff`: when the entries are active that are in use, whatever the order of
  the rows (`wifi_scan_loses_active`).
* `nmcli_names_recovered_iff`: which names come back from NetworkManager
  (`connection_name_changed`).
-/

open Escape Lines

namespace JoshOS.Control

variable {py : Python} {env : Environment} {device : Text} {rescan : Bool} {r : Row}
  {rows rows' : List Row} {s : List Network × List Text}

/-! ### From lines to rows -/

/-- A row that NetworkManager prints: the mark is a star, blank or empty, the security is of
one line, and the signal is a number. -/
structure Row.WellFormed (r : Row) : Prop where
  mark : r.mark ∈ ["*".toList, " ".toList, []]
  security : OneLine lineEnds r.security
  signal : r.signal ≠ []
  digits : ∀ c ∈ r.signal, c.isDigit = true

/-- One row: its network is taken if it has a name that was not seen before. -/
def scanRow (py : Python) (s : List Network × List Text) (r : Row) : List Network × List Text :=
  if r.ssid = [] ∨ r.ssid ∈ s.2 then s
  else (s.1 ++ [network py r.mark r.ssid r.security r.signal], s.2 ++ [r.ssid])

lemma scanLine_line (py : Python) (s : List Network × List Text) (r : Row) :
    scanLine py s r.line = scanRow py s r := by
  have hsplit : splitNmcli r.line = [r.mark, r.ssid, r.security, r.signal] :=
    split_join (List.cons_ne_nil _ _)
  rw [scanLine, hsplit]
  rfl

/-- Lines of fewer fields are skipped. -/
lemma foldl_scanLine_of_length_lt {lines : List Text}
    (h : ∀ line ∈ lines, (splitNmcli line).length < 4) :
    lines.foldl (scanLine py) s = s := by
  induction lines with
  | nil => rfl
  | cons line lines ih =>
    obtain ⟨hline, hlines⟩ := List.forall_mem_cons.mp h
    have hskip : scanLine py s line = s := by
      rw [scanLine]
      split
      case h_1 heq =>
        rw [heq] at hline
        simp at hline
      case h_2 => rfl
    rw [List.foldl_cons, hskip, ih hlines]

lemma toNat_of_isDigit {c : Char} (h : c.isDigit = true) : 48 ≤ c.toNat ∧ c.toNat ≤ 57 := by
  simpa [Char.isDigit, UInt32.le_iff_toNat_le] using h

lemma not_break_of_isDigit {c : Char} (h : c.isDigit = true) : lineEnds.isBreak c = false := by
  obtain ⟨hlow, hhigh⟩ := toNat_of_isDigit h
  simp only [lineEnds, isLineBreak, Bool.or_eq_false_iff, Bool.and_eq_false_iff,
    decide_eq_false_iff_not, beq_eq_false_iff_ne]
  omega

lemma not_space_of_isDigit {c : Char} (h : c.isDigit = true) : isSpace c = false := by
  obtain ⟨hlow, hhigh⟩ := toNat_of_isDigit h
  simp only [isSpace, Bool.or_eq_false_iff, Bool.and_eq_false_iff, decide_eq_false_iff_not,
    beq_eq_false_iff_ne]
  omega

namespace Row.WellFormed

lemma signal_oneLine (h : r.WellFormed) : OneLine lineEnds r.signal :=
  fun c hc => not_break_of_isDigit (h.digits c hc)

lemma mark_oneLine (h : r.WellFormed) : OneLine lineEnds r.mark := by
  have hall : ∀ mark ∈ ["*".toList, " ".toList, []], OneLine lineEnds mark := by decide
  exact hall r.mark h.mark

/-- The line of a row ends in a digit. -/
lemma exists_line_eq (h : r.WellFormed) : ∃ l c, r.line = l ++ [c] ∧ c.isDigit = true := by
  obtain ⟨ds, c, hsignal⟩ := (List.eq_nil_or_concat r.signal).resolve_left h.signal
  have hc : c.isDigit = true := h.digits c (by rw [hsignal]; simp)
  have hchar : escapeChar terse c = [c] := by
    refine escapeChar_of_ne ?_ ?_
    · rintro rfl
      exact absurd hc (by decide)
    · rintro rfl
      exact absurd hc (by decide)
  have hend : escape terse r.signal = escape terse ds ++ [c] := by
    rw [hsignal, List.concat_eq_append, escape_append, escape_cons, hchar, escape_nil,
      List.append_nil]
  refine ⟨escape terse r.mark ++ tail terse [r.ssid, r.security] ++
    terse.sep :: escape terse ds, c, ?_, hc⟩
  rw [Row.line, join_cons]
  simp only [tail_cons, tail_nil, hend]
  simp

/-- **The lines of a row**: one that is read as the row, or none of four fields if the name
is broken. -/
lemma foldl_scanLine (h : r.WellFormed) :
    (splitlines r.line).foldl (scanLine py) s =
      if OneLine lineEnds r.ssid then scanRow py s r else s := by
  have hfields : ∀ field ∈ [r.security, r.signal], OneLine lineEnds field := by
    simpa using ⟨h.security, h.signal_oneLine⟩
  rcases exists_first_break lineEnds r.ssid with hone | ⟨l, c, rest, hcut, hl, hc⟩
  · have hline : OneLine lineEnds r.line :=
      oneLine_join (by simpa using ⟨h.mark_oneLine, hone, h.security, h.signal_oneLine⟩)
    obtain ⟨l, c, heq, -⟩ := h.exists_line_eq
    have hne : r.line ≠ [] := by
      rw [heq]
      simp
    rw [if_pos hone, splitlines, split_oneLine hline hne, List.foldl_cons, List.foldl_nil,
      scanLine_line]
  · have hbroken : ¬ OneLine lineEnds r.ssid := by
      intro hone
      rw [hcut] at hone
      have hbreak := hone c (by simp)
      rw [hc] at hbreak
      cases hbreak
    have hfirst : OneLine lineEnds (join terse [r.mark, l]) :=
      oneLine_join (by simpa using ⟨h.mark_oneLine, hl⟩)
    have heq : r.line = join terse [r.mark, l] ++
        c :: (escape terse rest ++ tail terse [r.security, r.signal]) := by
      rw [Row.line, hcut, join_cons, join_cons]
      simp only [tail_cons, tail_nil, escape_append, escape_cons,
        escapeChar_of_break isBreak_esc isBreak_sep hc]
      simp
    rw [if_neg hbroken, heq, splitlines, Lines.split, splitFrom_append_break hfirst hc,
      List.nil_append]
    refine foldl_scanLine_of_length_lt fun line hline => ?_
    rcases List.mem_cons.mp hline with rfl | hrest
    · rw [splitNmcli, split_join (List.cons_ne_nil _ _)]
      simp
    · have hmore : line ∈ splitFrom lineEnds (decide (c = lineEnds.ret)) (escape terse [])
          (escape terse rest ++ tail terse [r.security, r.signal]) := hrest
      have hle := length_split_le isBreak_esc isBreak_sep (oneLine_tail hfields) hmore
      exact Nat.lt_succ_of_le hle

end Row.WellFormed

/-! ### The whole output -/

/-- The rows without the feed at the end of the last. -/
def body : List Row → Text
  | [] => []
  | r :: rows => r.line ++ rows.flatMap fun r => '\n' :: r.line

lemma body_cons_cons (r r' : Row) (rows : List Row) :
    body (r :: r' :: rows) = r.line ++ '\n' :: body (r' :: rows) := by
  simp [body]

lemma listing_eq_body (r : Row) (rows : List Row) :
    listing (r :: rows) = body (r :: rows) ++ ['\n'] := by
  induction rows generalizing r with
  | nil => simp [listing, body]
  | cons r' rows ih =>
    rw [body_cons_cons, List.append_assoc, List.cons_append, ← ih r']
    simp [listing]

/-- The rows end in a digit. -/
lemma exists_body_eq (h : ∀ r ∈ rows, r.WellFormed) (hne : rows ≠ []) :
    ∃ l c, body rows = l ++ [c] ∧ c.isDigit = true := by
  induction rows with
  | nil => exact absurd rfl hne
  | cons r rows ih =>
    obtain ⟨hr, hrows⟩ := List.forall_mem_cons.mp h
    cases rows with
    | nil =>
      obtain ⟨l, c, heq, hc⟩ := hr.exists_line_eq
      exact ⟨l, c, by simpa [body] using heq, hc⟩
    | cons r' rows =>
      obtain ⟨l, c, heq, hc⟩ := ih hrows (List.cons_ne_nil _ _)
      exact ⟨r.line ++ '\n' :: l, c, by rw [body_cons_cons, heq]; simp, hc⟩

/-- **The lines of rows** are read as the rows whose names are not broken. -/
lemma foldl_scanLine_body (h : ∀ r ∈ rows, r.WellFormed) :
    (splitlines (body rows)).foldl (scanLine py) s =
      (rows.filter fun r => OneLine lineEnds r.ssid).foldl (scanRow py) s := by
  have hone : ∀ (s : List Network × List Text) (r : Row), r.WellFormed →
      (splitlines r.line).foldl (scanLine py) s =
        ([r].filter fun r => OneLine lineEnds r.ssid).foldl (scanRow py) s := by
    intro s r hr
    rw [hr.foldl_scanLine, List.filter_singleton]
    split_ifs <;> simp_all
  induction rows generalizing s with
  | nil => rfl
  | cons r rows ih =>
    obtain ⟨hr, hrows⟩ := List.forall_mem_cons.mp h
    cases rows with
    | nil =>
      have hbody : body [r] = r.line := by simp [body]
      rw [hbody, hone s r hr]
    | cons r' rows =>
      obtain ⟨l, c, heq, hc⟩ := hr.exists_line_eq
      have hlines : splitlines (body (r :: r' :: rows)) =
          splitlines r.line ++ splitlines (body (r' :: rows)) := by
        rw [body_cons_cons, heq]
        exact splitFrom_append_feed (not_break_of_isDigit hc) _
      rw [hlines, List.foldl_append, hone s r hr, ih hrows, ← List.foldl_append,
        ← List.filter_append, List.singleton_append]

/-- A row whose mark has been stripped. -/
def Row.trim (r : Row) : Row := { r with mark := r.mark.dropWhile isSpace }

lemma Row.WellFormed.trim (h : r.WellFormed) : r.trim.WellFormed := by
  have hall : ∀ mark ∈ ["*".toList, " ".toList, []],
      mark.dropWhile isSpace ∈ ["*".toList, " ".toList, []] := by decide
  exact ⟨hall r.mark h.mark, h.security, h.signal, h.digits⟩

/-- Stripping a mark does not change what it says. -/
lemma Row.WellFormed.scanRow_trim (h : r.WellFormed) : scanRow py s r.trim = scanRow py s r := by
  have hall : ∀ mark ∈ ["*".toList, " ".toList, []],
      decide (mark.dropWhile isSpace = "*".toList) = decide (mark = "*".toList) := by decide
  have hnetwork : network py r.trim.mark r.ssid r.security r.signal =
      network py r.mark r.ssid r.security r.signal :=
    congrArg (Network.mk _ _ _) (hall r.mark h.mark)
  rw [scanRow, scanRow, ← hnetwork]
  rfl

/-- Stripping the output takes its last feed and the blank mark of its first row. -/
lemma strip_listing (h : ∀ r' ∈ r :: rows, r'.WellFormed) :
    strip (listing (r :: rows)) = body (r.trim :: rows) := by
  obtain ⟨hr, hrows⟩ := List.forall_mem_cons.mp h
  have hbody : ∃ rest, ∀ mark, body ({ r with mark := mark } :: rows) =
      escape terse mark ++ terse.sep :: rest := by
    refine ⟨escape terse r.ssid ++ tail terse [r.security, r.signal] ++
      rows.flatMap fun r => '\n' :: r.line, fun mark => ?_⟩
    simp only [body, Row.line, join_cons, tail_cons, List.append_assoc, List.cons_append]
  have hmark : (listing (r :: rows)).dropWhile isSpace = body (r.trim :: rows) ++ ['\n'] := by
    obtain ⟨rest, hrest⟩ := hbody
    rw [listing_eq_body, hrest r.mark, Row.trim, hrest]
    have hcases := hr.mark
    simp only [List.mem_cons, List.not_mem_nil, or_false] at hcases
    rcases hcases with heq | heq | heq
    · rw [heq]
      rfl
    · rw [heq]
      rfl
    · rw [heq]
      rfl
  have htrim : ∀ r' ∈ r.trim :: rows, r'.WellFormed := List.forall_mem_cons.mpr ⟨hr.trim, hrows⟩
  obtain ⟨l, c, heq, hc⟩ := exists_body_eq htrim (List.cons_ne_nil _ _)
  rw [strip, hmark, List.rdropWhile_concat_pos _ _ _ (by decide), heq,
    List.rdropWhile_concat_neg _ _ _ (by simp [not_space_of_isDigit hc])]

/-- **`wifi_scan`** on a list of rows: the rows whose names are not broken are taken one after
the other, and what was taken is sorted. -/
lemma wifiScan_listing (h : ∀ r ∈ rows, r.WellFormed) (hdevice : wifiDevice env = some device)
    (hne : device ≠ []) (hout : env (.wifiList device rescan) = (0, listing rows)) :
    wifiScan py env rescan =
      ((rows.filter fun r => OneLine lineEnds r.ssid).foldl (scanRow py) ([], [])).1.insertionSort
        (Before py) := by
  have hscan : (splitlines (run env (.wifiList device rescan)).2).foldl (scanLine py) ([], []) =
      (rows.filter fun r => OneLine lineEnds r.ssid).foldl (scanRow py) ([], []) := by
    rw [splitlines_run, hout]
    cases rows with
    | nil => rfl
    | cons r rows =>
      obtain ⟨hr, hrows⟩ := List.forall_mem_cons.mp h
      have htrim : ∀ r' ∈ r.trim :: rows, r'.WellFormed :=
        List.forall_mem_cons.mpr ⟨hr.trim, hrows⟩
      rw [strip_listing h, foldl_scanLine_body htrim, List.filter_cons, List.filter_cons]
      change (if decide (OneLine lineEnds r.ssid) = true then _ else _ : List Row).foldl _ _ = _
      split_ifs
      · rw [List.foldl_cons, List.foldl_cons, hr.scanRow_trim]
      · rfl
  have hcode : (run env (.wifiList device rescan)).1 = 0 := by rw [run, hout]
  cases device with
  | nil => exact absurd rfl hne
  | cons d ds => simp only [wifiScan, hdevice, hcode, hscan, ne_eq, not_true_eq_false, if_false]

/-! ### The first row of every name -/

/-- The entry of a row. -/
def entry (py : Python) (r : Row) : Network := network py r.mark r.ssid r.security r.signal

/-- The row of a name that comes first. -/
def firstRow (rows : List Row) (x : Text) : Option Row := rows.find? fun r => r.ssid = x

/-- What has been taken of the rows so far: the names that were seen, each of them once, with
the entry of its first row. -/
structure Scanned (py : Python) (rows : List Row) (s : List Network × List Text) : Prop where
  seen : s.2 = s.1.map Network.ssid
  nodup : (s.1.map Network.ssid).Nodup
  named : ∀ n ∈ s.1, n.ssid ≠ []
  find : ∀ x, x ≠ [] → (s.1.find? fun n => n.ssid = x) = (firstRow rows x).map (entry py)

lemma Scanned.nil (py : Python) : Scanned py [] ([], []) :=
  ⟨rfl, List.nodup_nil, by simp, fun _ _ => rfl⟩

/-- **One row.** -/
lemma Scanned.scanRow (h : Scanned py rows s) (r : Row) :
    Scanned py (rows ++ [r]) (scanRow py s r) := by
  have hlast : ∀ x, firstRow (rows ++ [r]) x =
      (firstRow rows x).or (if r.ssid = x then some r else none) := by
    intro x
    rw [firstRow, List.find?_append, List.find?_singleton]
    simp [firstRow]
  by_cases hskip : r.ssid = [] ∨ r.ssid ∈ s.2
  · rw [Control.scanRow, if_pos hskip]
    refine ⟨h.seen, h.nodup, h.named, fun x hx => ?_⟩
    rw [h.find x hx, hlast]
    by_cases hname : r.ssid = x
    · -- the name was seen, so that it has a first row already
      subst hname
      have hmem := hskip.resolve_left hx
      rw [h.seen, List.mem_map] at hmem
      obtain ⟨n, hn, heq⟩ := hmem
      have hsome : (s.1.find? fun n => n.ssid = r.ssid).isSome = true :=
        List.find?_isSome.mpr ⟨n, hn, by simpa using heq⟩
      rw [h.find _ hx, Option.isSome_map] at hsome
      rw [Option.or_of_isSome hsome]
    · rw [if_neg hname, Option.or_none]
  · rw [Control.scanRow, if_neg hskip]
    obtain ⟨hne, hnew⟩ := not_or.mp hskip
    rw [h.seen] at hnew
    refine ⟨?_, ?_, ?_, fun x hx => ?_⟩
    · rw [h.seen, List.map_append]
      rfl
    · rw [List.map_append]
      exact h.nodup.append (List.nodup_singleton _) (by simpa [network] using hnew)
    · intro n hn
      rcases List.mem_append.mp hn with hold | hlast
      · exact h.named n hold
      · rw [List.mem_singleton.mp hlast]
        exact hne
    · rw [List.find?_append, h.find x hx, hlast, Option.map_or, List.find?_singleton]
      by_cases hname : r.ssid = x
      · simp [hname, network, entry]
      · simp [hname, network]

/-- **All rows.** -/
lemma scanned_foldl (py : Python) (rows : List Row) :
    Scanned py rows (rows.foldl (Control.scanRow py) ([], [])) := by
  induction rows using List.reverseRecOn with
  | nil => exact .nil py
  | append_singleton rows r ih =>
    rw [List.foldl_append, List.foldl_cons, List.foldl_nil]
    exact ih.scanRow r

/-! ### What is reported -/

/-- The list of networks is printed for these rows. -/
def Prints (env : Environment) (rescan : Bool) (rows : List Row) : Prop :=
  ∃ device, wifiDevice env = some device ∧ device ≠ [] ∧
    env (.wifiList device rescan) = (0, listing rows)

/-- Another list can be printed in its place. -/
lemma Prints.exists_prints (h : Prints env rescan rows) (rows' : List Row) :
    ∃ env', Prints env' rescan rows' := by
  obtain ⟨device, hdevice, hne, -⟩ := h
  have hstatus : Command.deviceStatus ≠ .wifiList device rescan := by simp
  refine ⟨Function.update env (.wifiList device rescan) (0, listing rows'), device, ?_, hne,
    Function.update_self ..⟩
  rw [← hdevice, wifiDevice, wifiDevice, run, run, Function.update_of_ne hstatus]

/-- A network of this name is in the answer, active or not. -/
def Reports (result : List Network) (x : Text) (active : Bool) : Prop :=
  ∃ n ∈ result, n.ssid = x ∧ n.active = active

/-- The first row of a name among the rows whose names are of one line. -/
lemma firstRow_filter (rows : List Row) (x : Text) :
    firstRow (rows.filter fun r => OneLine lineEnds r.ssid) x =
      if OneLine lineEnds x then firstRow rows x else none := by
  rw [firstRow, List.find?_filter]
  split_ifs with hx
  · refine congrArg (rows.find? ·) (funext fun r => ?_)
    by_cases hr : r.ssid = x
    · simp [hr, hx]
    · simp [hr]
  · refine List.find?_eq_none.mpr fun r _ hr => hx ?_
    simp only [decide_eq_true_eq] at hr
    exact hr.2 ▸ hr.1

lemma isSome_firstRow {x : Text} : (firstRow rows x).isSome = true ↔ x ∈ rows.map Row.ssid := by
  rw [firstRow, List.find?_isSome, List.mem_map]
  simp only [decide_eq_true_eq]

/-- The entry of a name is that of its first row. -/
lemma Scanned.reports_iff (h : Scanned py rows s) {x : Text} {active : Bool} :
    Reports s.1 x active ↔ x ≠ [] ∧ (firstRow rows x).map Row.inUse = some active := by
  constructor
  · rintro ⟨n, hn, rfl, rfl⟩
    have hne := h.named n hn
    have hsome : (s.1.find? fun m => m.ssid = n.ssid).isSome = true :=
      List.find?_isSome.mpr ⟨n, hn, by simp⟩
    obtain ⟨m, hm⟩ := Option.isSome_iff_exists.mp hsome
    have hname : m.ssid = n.ssid := by simpa using List.find?_some hm
    have hmn : m = n :=
      List.inj_on_of_nodup_map h.nodup (List.mem_of_find?_eq_some hm) hn hname
    rw [hmn, h.find _ hne] at hm
    obtain ⟨r, hr, rfl⟩ := Option.map_eq_some_iff.mp hm
    exact ⟨hne, by rw [hr]; rfl⟩
  · rintro ⟨hne, hfirst⟩
    obtain ⟨r, hr, rfl⟩ := Option.map_eq_some_iff.mp hfirst
    have hfind := h.find x hne
    rw [hr, Option.map_some] at hfind
    exact ⟨entry py r, List.mem_of_find?_eq_some hfind, by simpa using List.find?_some hfind, rfl⟩

/-- The answer in terms of what was taken of the rows. -/
lemma exists_scanned (py : Python) (h : ∀ r ∈ rows, r.WellFormed)
    (hprints : Prints env rescan rows) :
    ∃ s, Scanned py (rows.filter fun r => OneLine lineEnds r.ssid) s ∧
      (wifiScan py env rescan).Perm s.1 := by
  obtain ⟨device, hdevice, hne, hout⟩ := hprints
  refine ⟨_, scanned_foldl py _, ?_⟩
  rw [wifiScan_listing h hdevice hne hout]
  exact List.perm_insertionSort _ _

/-- **The entry of a name** of one line is that of its first row. -/
lemma reports_wifiScan (h : ∀ r ∈ rows, r.WellFormed) (hprints : Prints env rescan rows)
    {x : Text} {active : Bool} :
    Reports (wifiScan py env rescan) x active ↔
      x ≠ [] ∧ OneLine lineEnds x ∧ (firstRow rows x).map Row.inUse = some active := by
  obtain ⟨s, hs, hperm⟩ := exists_scanned py h hprints
  have hsame : Reports (wifiScan py env rescan) x active ↔ Reports s.1 x active :=
    exists_congr fun n => and_congr_left' hperm.mem_iff
  rw [hsame, hs.reports_iff, firstRow_filter]
  by_cases hx : OneLine lineEnds x
  · simp [hx]
  · simp [hx]

lemma mem_ssid_iff {result : List Network} {x : Text} :
    x ∈ result.map Network.ssid ↔ ∃ active, Reports result x active := by
  rw [List.mem_map]
  constructor
  · rintro ⟨n, hn, hname⟩
    exact ⟨n.active, n, hn, hname, rfl⟩
  · rintro ⟨active, n, hn, hname, -⟩
    exact ⟨n, hn, hname⟩

/-- **The names of the answer** are the names of the rows that are of one line. -/
lemma mem_ssid_wifiScan (h : ∀ r ∈ rows, r.WellFormed) (hprints : Prints env rescan rows)
    {x : Text} :
    x ∈ (wifiScan py env rescan).map Network.ssid ↔
      x ≠ [] ∧ OneLine lineEnds x ∧ x ∈ rows.map Row.ssid := by
  simp only [mem_ssid_iff, reports_wifiScan h hprints, ← isSome_firstRow,
    Option.isSome_iff_exists]
  constructor
  · rintro ⟨active, hne, hx, hfirst⟩
    obtain ⟨r, hr, -⟩ := Option.map_eq_some_iff.mp hfirst
    exact ⟨hne, hx, r, hr⟩
  · rintro ⟨hne, hx, r, hr⟩
    exact ⟨r.inUse, hne, hx, by rw [hr]; rfl⟩

/-! ### The connected network -/

/-- Rows from which the names can be read in any order: every name is of one line, and its rows
agree on whether it is in use. -/
def Settled (rows : List Row) : Prop :=
  ∀ r ∈ rows, r.ssid ≠ [] → OneLine lineEnds r.ssid ∧
    ∀ r' ∈ rows, r'.ssid = r.ssid → r'.inUse = r.inUse

lemma Settled.perm (h : Settled rows) (hperm : rows'.Perm rows) : Settled rows' := by
  intro r hr hne
  obtain ⟨hone, hagree⟩ := h r (hperm.mem_iff.mp hr) hne
  exact ⟨hone, fun r' hr' => hagree r' (hperm.mem_iff.mp hr')⟩

/-- Any row of a name says what is reported of it. -/
lemma Settled.reports_iff (hsettled : Settled rows) (h : ∀ r ∈ rows, r.WellFormed)
    (hprints : Prints env rescan rows) {x : Text} {active : Bool} :
    Reports (wifiScan py env rescan) x active ↔
      x ≠ [] ∧ ∃ r ∈ rows, r.ssid = x ∧ r.inUse = active := by
  rw [reports_wifiScan h hprints]
  constructor
  · rintro ⟨hne, -, hfirst⟩
    obtain ⟨r, hr, hactive⟩ := Option.map_eq_some_iff.mp hfirst
    exact ⟨hne, r, List.mem_of_find?_eq_some hr, by simpa using List.find?_some hr, hactive⟩
  · rintro ⟨hne, r, hr, rfl, rfl⟩
    obtain ⟨hone, hagree⟩ := hsettled r hr hne
    obtain ⟨f, hf⟩ := Option.isSome_iff_exists.mp
      (isSome_firstRow.mpr (List.mem_map_of_mem hr))
    have hname : f.ssid = r.ssid := by simpa using List.find?_some hf
    refine ⟨hne, hone, ?_⟩
    rw [hf, Option.map_some, hagree f (List.mem_of_find?_eq_some hf) hname]

/-- The first row of a list says what is reported of its name. -/
lemma reports_head (h : ∀ r' ∈ r :: rows, r'.WellFormed) (hprints : Prints env rescan (r :: rows))
    (hne : r.ssid ≠ []) (hone : OneLine lineEnds r.ssid) :
    Reports (wifiScan py env rescan) r.ssid r.inUse := by
  refine (reports_wifiScan h hprints).mpr ⟨hne, hone, ?_⟩
  rw [firstRow, List.find?_cons_of_pos (by simp)]
  rfl

/-- **When the connected network is reported as active.**  Every name is in the answer once, it
is active if and only if one of its rows is in use, and the order of the rows makes no
difference: all this holds exactly for rows that are settled.  As only the first row of a name
is read, it fails for a network with several access points of which one is in use. -/
theorem wifi_scan_active_iff (py : Python) (env : Environment) (rescan : Bool) (rows : List Row)
    (h : ∀ r ∈ rows, r.WellFormed) (hprints : Prints env rescan rows) :
    ((∀ x, ((wifiScan py env rescan).map Network.ssid).count x =
        if x ≠ [] ∧ x ∈ rows.map Row.ssid then 1 else 0) ∧
      (∀ x, x ≠ [] → (Reports (wifiScan py env rescan) x true ↔
        ∃ r ∈ rows, r.ssid = x ∧ r.inUse = true)) ∧
      ∀ rows' env', rows'.Perm rows → Prints env' rescan rows' → ∀ x active,
        (Reports (wifiScan py env' rescan) x active ↔
          Reports (wifiScan py env rescan) x active)) ↔
      Settled rows := by
  constructor
  · rintro ⟨honce, -, horder⟩ r hr hne
    have hone : OneLine lineEnds r.ssid := by
      have hcount := honce r.ssid
      rw [if_pos ⟨hne, List.mem_map_of_mem hr⟩] at hcount
      have hmem := List.count_pos_iff.mp (hcount ▸ Nat.one_pos)
      exact ((mem_ssid_wifiScan h hprints).mp hmem).2.1
    -- each row of the name can be printed first
    have hany : ∀ r' ∈ rows, r'.ssid = r.ssid →
        Reports (wifiScan py env rescan) r.ssid r'.inUse := by
      intro r' hr' hname
      have hperm := (List.perm_cons_erase hr').symm
      obtain ⟨env', hprints'⟩ := hprints.exists_prints (r' :: rows.erase r')
      rw [← horder _ env' hperm hprints', ← hname]
      rw [← hname] at hne hone
      exact reports_head (fun q hq => h q (hperm.mem_iff.mp hq)) hprints' hne hone
    refine ⟨hone, fun r' hr' hname => ?_⟩
    have hfirst := ((reports_wifiScan h hprints).mp (hany r hr rfl)).2.2
    rw [((reports_wifiScan h hprints).mp (hany r' hr' hname)).2.2] at hfirst
    exact Option.some_inj.mp hfirst
  · intro hsettled
    refine ⟨fun x => ?_, fun x hne => ?_, fun rows' env' hperm hprints' x active => ?_⟩
    · obtain ⟨s, hs, hsorted⟩ := exists_scanned py h hprints
      rw [((hsorted.map _).nodup_iff.mpr hs.nodup).count,
        if_congr (mem_ssid_wifiScan h hprints) rfl rfl]
      refine if_congr ⟨fun hx => ⟨hx.1, hx.2.2⟩, fun hx => ⟨hx.1, ?_, hx.2⟩⟩ rfl rfl
      obtain ⟨r, hr, rfl⟩ := List.mem_map.mp hx.2
      exact (hsettled r hr hx.1).1
    · rw [hsettled.reports_iff h hprints]
      exact and_iff_right hne
    · have h' : ∀ r ∈ rows', r.WellFormed := fun r hr => h r (hperm.mem_iff.mp hr)
      rw [(hsettled.perm hperm).reports_iff h' hprints', hsettled.reports_iff h hprints]
      simp only [hperm.mem_iff]

/-- A machine with one adapter, a list of networks and a connection. -/
def oneAdapter (rows : List Row) (connection : Text) : Environment
  | .deviceStatus => (0, "wlan0:wifi\n".toList)
  | .wifiList _ _ => (0, listing rows)
  | .deviceShow _ => (0, shown "100 (connected)".toList connection)
  | _ => (0, [])

lemma wifiDevice_oneAdapter (rows : List Row) (connection : Text) :
    wifiDevice (oneAdapter rows connection) = some "wlan0".toList := rfl

lemma prints_oneAdapter (rows : List Row) (connection : Text) (rescan : Bool) :
    Prints (oneAdapter rows connection) rescan rows :=
  ⟨_, wifiDevice_oneAdapter rows connection, by simp, rfl⟩

/-- An access point of one network. -/
def accessPoint (mark signal : Text) : Row := ⟨mark, "Home".toList, "WPA2".toList, signal⟩

lemma wellFormed_accessPoint {mark signal : Text} (hmark : mark ∈ ["*".toList, " ".toList, []])
    (hsignal : signal ≠ []) (hdigits : signal.all Char.isDigit = true) :
    (accessPoint mark signal).WellFormed :=
  ⟨hmark, show OneLine lineEnds "WPA2".toList by decide, hsignal, List.all_eq_true.mp hdigits⟩

/-- Two networks, of which the one with two access points is in use. -/
theorem wifi_scan_active_iff_two :
    let cafe := { accessPoint [' '] ['6', '0'] with ssid := "Cafe".toList }
    let scan := wifiScan .ascii
      (oneAdapter [cafe, accessPoint ['*'] ['8', '0'], accessPoint ['*'] ['4', '0']] []) true
    Reports scan "Home".toList true ∧ ¬ Reports scan "Cafe".toList true := by
  intro cafe scan
  have hform : ∀ r ∈ [cafe, accessPoint ['*'] ['8', '0'], accessPoint ['*'] ['4', '0']],
      r.WellFormed := by
    simp only [List.forall_mem_cons, List.not_mem_nil, false_implies, implies_true, and_true]
    exact ⟨⟨by decide, show OneLine lineEnds "WPA2".toList by decide, by decide,
        List.all_eq_true.mp (by decide)⟩,
      wellFormed_accessPoint (by decide) (by decide) (by decide),
      wellFormed_accessPoint (by decide) (by decide) (by decide)⟩
  have hsettled : Settled [cafe, accessPoint ['*'] ['8', '0'], accessPoint ['*'] ['4', '0']] := by
    unfold Settled
    decide
  have hactive := ((wifi_scan_active_iff .ascii _ true _ hform (prints_oneAdapter _ [] true)).mpr
    hsettled).2.1
  exact ⟨(hactive _ (by decide)).mpr ⟨_, List.mem_cons_of_mem _ List.mem_cons_self, rfl, rfl⟩,
    (hactive _ (by decide)).not.mpr (by decide)⟩

/-- **A connected network that is reported as not in use**: its stronger access point is listed
first.  In the other order it is active. -/
theorem wifi_scan_loses_active :
    (∀ r ∈ [accessPoint [' '] ['8', '0'], accessPoint ['*'] ['4', '0']], r.WellFormed) ∧
      wifiScan .ascii
          (oneAdapter [accessPoint [' '] ['8', '0'], accessPoint ['*'] ['4', '0']] []) true =
        [⟨"Home".toList, "WPA2".toList, 80, false⟩] ∧
      wifiScan .ascii
          (oneAdapter [accessPoint ['*'] ['4', '0'], accessPoint [' '] ['8', '0']] []) true =
        [⟨"Home".toList, "WPA2".toList, 40, true⟩] := by
  refine ⟨?_, by decide +kernel, by decide +kernel⟩
  rw [List.forall_mem_cons, List.forall_mem_singleton]
  exact ⟨wellFormed_accessPoint (by decide) (by decide) (by decide),
    wellFormed_accessPoint (by decide) (by decide) (by decide)⟩

/-! ### Names -/

/-- **Which names come back from NetworkManager.**  The fields of terse output are always
recovered.  Of the rows of a list of networks this gives the names that are of one line, and of
the connection of an adapter those names that are of one line, do not end in white space and
are not the mark for no connection. -/
theorem nmcli_names_recovered_iff (py : Python) :
    (∀ fields : List Text, fields ≠ [] → splitNmcli (join terse fields) = fields) ∧
      (∀ env rescan rows, (∀ r ∈ rows, r.WellFormed) → Prints env rescan rows →
        ∀ r ∈ rows, r.ssid ≠ [] →
          (r.ssid ∈ (wifiScan py env rescan).map Network.ssid ↔ OneLine lineEnds r.ssid)) ∧
      ∀ env device state name, wifiDevice env = some device → device ≠ [] →
        OneLine lineEnds state → (env (.deviceShow device)).2 = shown state name →
          ((networkStatus env).connection = name ↔
            OneLine lineEnds name ∧ (∀ h : name ≠ [], isSpace (name.getLast h) = false) ∧
              name ≠ "--".toList) := by
  refine ⟨fun fields hne => split_join hne, fun env rescan rows h hprints r hr hne => ?_,
    fun env device state name hdevice hne hstate hshown =>
      networkStatus_connection_iff hdevice hne hstate hshown⟩
  rw [mem_ssid_wifiScan h hprints]
  exact ⟨fun hx => hx.2.1, fun hone => ⟨hne, hone, List.mem_map_of_mem hr⟩⟩

theorem nmcli_names_recovered_iff_home :
    splitNmcli (join terse ["a:b".toList, []]) = ["a:b".toList, []] ∧
      "Home".toList ∈ (wifiScan .ascii (oneAdapter [accessPoint ['*'] ['8', '0']] []) true).map
        Network.ssid ∧
      (networkStatus (oneAdapter [] "Home".toList)).connection = "Home".toList := by
  obtain ⟨hfields, hscan, hstatus⟩ := nmcli_names_recovered_iff .ascii
  have hform : ∀ r ∈ [accessPoint ['*'] ['8', '0']], r.WellFormed :=
    List.forall_mem_singleton.mpr (wellFormed_accessPoint (by decide) (by decide) (by decide))
  refine ⟨hfields _ (by decide), ?_, ?_⟩
  · exact (hscan _ true _ hform (prints_oneAdapter _ [] true) _ (List.mem_singleton_self _)
      (by decide)).mpr (by decide)
  · exact (hstatus _ "wlan0".toList "100 (connected)".toList _
      (wifiDevice_oneAdapter [] "Home".toList) (by decide) (by decide) rfl).mpr
        ⟨by decide, by decide, by decide⟩

/-- **A name with a colon that does not come back**: as the whole output is stripped, the blank
at its end is lost. -/
theorem connection_name_changed :
    (networkStatus (oneAdapter [] "Home:Lab ".toList)).connection = "Home:Lab".toList := by
  rw [networkStatus_connection (wifiDevice_oneAdapter [] _) (by decide) (by decide) rfl]
  decide

end JoshOS.Control
