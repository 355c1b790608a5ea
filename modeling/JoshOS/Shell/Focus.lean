import JoshOS.Shell.Windows

/-!
The focused window of the shell.

Some calls give the focus to a window as it is, whether it is shown or not: `closeWindow` to
the last of the others, and `openApp` and `cycleFocus` to a window that is hidden although it
is not minimised, since `toggleMaximise` changes the state of a minimised window but does not
show it.  All other actions keep the focus on a window that is shown.

* `Desktop.successor`: the window that a call gives the focus to as it is.
* `focus_never_hidden_iff`: so it is in every state of a run exactly when no call gives the
  focus to a hidden window (`focus_falls_on_minimised`).
-/

open Runs

namespace JoshOS.Shell

variable {apps : Registry} {s s' : Desktop} {win : Win} {f : Win → Win} {c : Cause}

/-- The focus is on no window, or on one of the list that is shown: it is not minimised, and
its element is not hidden. -/
def FocusShown (s : Desktop) : Prop :=
  ∀ id, s.focused = some id →
    ∃ win ∈ s.windows, win.id = id ∧ win.state ≠ .minimised ∧ win.hidden = false

/-- The window that a call gives the focus to as it is: that of the app, if it is not
minimised; the last of the others, if the focused window is closed; and of those that are not
minimised the next one behind the focused one, or the first. -/
def Desktop.successor (s : Desktop) : Call → Option Win
  | .openApp appId =>
    (s.windows.find? fun win => win.appId = appId).filter fun win => win.state ≠ .minimised
  | .closeWindow id =>
    if s.focused = some id then (s.windows.filter fun win => win.id ≠ id).getLast? else none
  | .cycleFocus =>
    let visible := s.windows.filter fun win => win.state ≠ .minimised
    match s.focused with
    | none => visible.head?
    | some id => ((visible.dropWhile fun win => win.id ≠ id).tail ++ visible).head?
  | _ => none

/-- A window that a call gives the focus to as it is is not hidden. -/
def LeavesShown (s : Desktop) (a : Action) : Prop :=
  ∀ call, s.calls a = some call → ∀ win, s.successor call = some win → win.hidden = false

/-- The element of the focused window is not hidden. -/
def FocusSeen (s : Desktop) : Prop :=
  ∀ id, s.focused = some id → ∃ win ∈ s.windows, win.id = id ∧ win.hidden = false

/-- What is not hidden is not minimised. -/
lemma Win.Sound.not_minimised (h : win.Sound) (hhidden : win.hidden = false) :
    win.state ≠ .minimised := fun hstate => by cases hhidden.symm.trans (h.hidden hstate)

lemma focusShown_iff (hc : Consistent apps s) : FocusShown s ↔ FocusSeen s := by
  refine forall₂_congr fun id _ => exists_congr fun win => and_congr_right fun hwin =>
    and_congr_right fun _ => and_iff_right_of_imp (hc.sound win hwin).not_minimised

/-- The focus falls on a window as it is, or on none. -/
lemma focusSeen_iff {next : Option Win} (hids : (s'.windows.map Win.id).Nodup)
    (hnext : ∀ win, next = some win → win ∈ s'.windows)
    (hfocused : s'.focused = next.map Win.id) :
    FocusSeen s' ↔ ∀ win, next = some win → win.hidden = false := by
  constructor
  · rintro h win rfl
    obtain ⟨win', hwin', hid, hhidden⟩ := h win.id hfocused
    rwa [← List.inj_on_of_nodup_map hids hwin' (hnext win rfl) hid]
  · intro h id hid
    obtain ⟨win, rfl, rfl⟩ := Option.map_eq_some_iff.mp (hfocused.symm.trans hid)
    exact ⟨win, hnext win rfl, rfl, h win rfl⟩

lemma focusSeen_of_focused (hwin : win ∈ s.windows) (hhidden : win.hidden = false)
    (hfocused : s.focused = some win.id) : FocusSeen s := by
  intro id hid
  rw [hfocused] at hid
  exact ⟨win, hwin, Option.some_inj.mp hid, hhidden⟩

/-- The focus stays on its window while the windows change. -/
lemma FocusSeen.changed (h : FocusSeen s) (hf : ∀ win, Changed c win (f win)) (hc : c ≠ .hide)
    (hwindows : s'.windows = s.windows.map f) (hfocused : s'.focused = s.focused) :
    FocusSeen s' := by
  intro id hid
  obtain ⟨win, hwin, rfl, hhidden⟩ := h id (hfocused ▸ hid)
  exact ⟨f win, hwindows ▸ List.mem_map_of_mem hwin, (hf win).id, (hf win).shown hc hhidden⟩

/-- The focus falls on a window that is shown. -/
lemma focusSeen_of_changed (hwin : win ∈ s.windows) (hf : ∀ win, Changed c win (f win))
    (hwindows : s'.windows = s.windows.map f) (hhidden : (f win).hidden = false)
    (hfocused : s'.focused = some win.id) : FocusSeen s' :=
  focusSeen_of_focused (hwindows ▸ List.mem_map_of_mem hwin) hhidden
    (by rw [hfocused, (hf win).id])

/-! ### Calls -/

lemma focusSeen_openApp_iff (hc : Consistent apps s) (h : FocusSeen s) (appId : String) :
    FocusSeen (s.openApp apps appId) ↔
      ∀ win, s.successor (.openApp appId) = some win → win.hidden = false := by
  simp only [Desktop.successor, Option.filter_eq_some_iff]
  unfold Desktop.openApp
  split
  case h_1 hnone =>
    refine iff_of_true h ?_
    rintro win ⟨hfind, -⟩
    have happ : win.appId = appId := by simpa using List.find?_some hfind
    exact absurd (happ ▸ hnone) (hc.registered win (List.mem_of_find?_eq_some hfind))
  case h_2 app _ =>
    split
    case h_1 hfind =>
      rw [hfind]
      have hnew : s.newWindow appId app ∈ (s.createWindow appId app).windows :=
        List.mem_append_right _ (List.mem_singleton_self _)
      exact iff_of_true (focusSeen_of_focused hnew rfl rfl) (by simp)
    case h_2 win hfind =>
      have hwin := List.mem_of_find?_eq_some hfind
      rw [hfind]
      split_ifs with hstate
      · refine iff_of_true (focusSeen_of_changed hwin
          (fun win => (Changed.restore .other win).ite) rfl ?_ rfl) ?_
        · rw [if_pos rfl]
          rfl
        · rintro _ ⟨⟨⟩, hshown⟩
          exact absurd hstate (of_decide_eq_true hshown)
      · have hseen : FocusSeen (s.focus win.id) ↔
            ∀ win', some win = some win' → win'.hidden = false :=
          focusSeen_iff hc.ids (by rintro _ ⟨⟩; exact hwin) rfl
        exact hseen.trans (forall_congr' fun win' => imp_congr_left
          (and_iff_left_of_imp fun heq => by cases heq; exact decide_eq_true hstate).symm)

lemma focusSeen_minimise (h : FocusSeen s) (id : ℕ) : FocusSeen (s.minimise id) := by
  intro id' hid'
  have hne : id' ≠ id ∧ s.focused = some id' := by
    simp only [Desktop.minimise] at hid'
    split_ifs at hid' with hfocused
    refine ⟨?_, hid'⟩
    rintro rfl
    exact hfocused hid'
  obtain ⟨win, hwin, rfl, hhidden⟩ := h id' hne.2
  refine ⟨win, ?_, rfl, hhidden⟩
  have hmem := List.mem_map_of_mem (f := fun win => if win.id = id then win.minimise else win) hwin
  rwa [if_neg hne.1] at hmem

/-- The next place of a list, around its end. -/
lemma getElem?_next {α : Type} (l₁ : List α) (a : α) (l₂ : List α) :
    (l₁ ++ a :: l₂)[(l₁.length + 1) % (l₁ ++ a :: l₂).length]? = (l₂ ++ (l₁ ++ a :: l₂)).head? := by
  cases l₂ with
  | nil => simp [List.head?_eq_getElem?]
  | cons b l₂ =>
    rw [Nat.mod_eq_of_lt (by simp), List.getElem?_append_right (by simp)]
    simp

/-- `cycleFocus` goes on to the next window. -/
lemma cycleFocus_focused (hc : Consistent apps s) (h : FocusSeen s) :
    s.cycleFocus.focused = (s.successor .cycleFocus).map Win.id := by
  simp only [Desktop.cycleFocus, Desktop.successor]
  set visible := s.windows.filter fun win => win.state ≠ .minimised with hvisible
  cases hfocused : s.focused with
  | none =>
    clear_value visible
    cases visible with
    | nil => exact hfocused
    | cons win visible => simp [Desktop.focus]
  | some id =>
    obtain ⟨win, hwin, rfl, hhidden⟩ := h id hfocused
    have hmem : win ∈ visible := List.mem_filter.mpr
      ⟨hwin, decide_eq_true ((hc.sound win hwin).not_minimised hhidden)⟩
    have hids : (visible.map Win.id).Nodup := hc.ids.sublist (List.filter_sublist.map _)
    clear_value visible
    obtain ⟨l₁, l₂, rfl⟩ := List.append_of_mem hmem
    have hbefore : ∀ w ∈ l₁, w.id ≠ win.id := by
      intro w hw heq
      rw [List.map_append, List.nodup_append] at hids
      exact hids.2.2 w.id (List.mem_map_of_mem hw) win.id (by simp) heq
    have hidx : ((l₁ ++ win :: l₂).map Win.id).idxOf win.id = l₁.length := by
      rw [List.map_append, List.idxOf_append_of_notMem (by simpa using hbefore)]
      simp
    have hdrop : (l₁ ++ win :: l₂).dropWhile (fun w => w.id ≠ win.id) = win :: l₂ := by
      rw [List.dropWhile_append_of_pos (by simpa using hbefore)]
      simp
    simp only [List.mem_map_of_mem hmem, if_true, hidx, List.length_map, List.getElem?_map,
      getElem?_next, hdrop, List.tail_cons]
    cases hnext : (l₂ ++ (l₁ ++ win :: l₂)).head? with
    | none => simp at hnext
    | some w => rfl

/-- **Closing a window**: the focus falls on the last of the others. -/
lemma focusSeen_closeWindow_iff (hc : Consistent apps s) (h : FocusSeen s) (id : ℕ) :
    FocusSeen (s.closeWindow id) ↔
      ∀ win, s.successor (.closeWindow id) = some win → win.hidden = false := by
  have hclosed : Effect apps s .other (s.closeWindow id) := .closed id rfl rfl
  rw [Desktop.successor]
  split_ifs with hfocused
  · exact focusSeen_iff (hc.effect hclosed).ids (fun win => List.mem_of_getLast?) (if_pos hfocused)
  · refine iff_of_true (fun id' hid' => ?_) (by simp)
    have hsame : (s.closeWindow id).focused = s.focused := if_neg hfocused
    rw [hsame] at hid'
    obtain ⟨win, hwin, rfl, hhidden⟩ := h id' hid'
    refine ⟨win, List.mem_filter.mpr ⟨hwin, decide_eq_true ?_⟩, rfl, hhidden⟩
    rintro rfl
    exact hfocused hid'

lemma focusSeen_call_iff (hc : Consistent apps s) (h : FocusSeen s) (call : Call) :
    FocusSeen (s.call apps call) ↔ ∀ win, s.successor call = some win → win.hidden = false := by
  cases call with
  | openApp appId => exact focusSeen_openApp_iff hc h appId
  | closeWindow id => exact focusSeen_closeWindow_iff hc h id
  | minimise id => exact iff_of_true (focusSeen_minimise h id) (by simp [Desktop.successor])
  | toggleMaximise id =>
    exact iff_of_true (h.changed (fun win => (Changed.toggleMaximise s.bounds win).ite) (by simp)
      rfl rfl) (by simp [Desktop.successor])
  | cycleFocus =>
    have hcycled : Effect apps s .other s.cycleFocus := .cycleFocus .other s
    refine focusSeen_iff (hc.effect hcycled).ids (fun win hwin => ?_) (cycleFocus_focused hc h)
    have hvisible : win ∈ s.windows.filter fun win => win.state ≠ .minimised := by
      rw [Desktop.successor] at hwin
      split at hwin
      · exact List.mem_of_head? hwin
      · rcases List.mem_append.mp (List.mem_of_head? hwin) with hmem | hmem
        · exact (List.dropWhile_sublist _).subset (List.mem_of_mem_tail hmem)
        · exact hmem
    have hsame : s.cycleFocus.windows = s.windows := by
      unfold Desktop.cycleFocus
      dsimp only
      split <;> rfl
    rw [Desktop.call, hsame]
    exact (List.mem_filter.mp hvisible).1

/-! ### The mouse -/

lemma focusSeen_mouseDown (h : FocusSeen s) (id : ℕ) (part : Part) (x y : ℚ) :
    FocusSeen (s.mouseDown id part x y) := by
  unfold Desktop.mouseDown
  cases hlookup : s.window id with
  | none => exact h
  | some win =>
    have hwin : win ∈ s.windows := Keyed.mem_of_lookup hlookup
    obtain rfl : win.id = id := Keyed.key_of_lookup hlookup
    dsimp only
    split_ifs with hhidden
    · exact h
    · rw [Bool.not_eq_true] at hhidden
      cases part with
      | bar =>
        simp only [Desktop.beginDrag, hlookup]
        split_ifs
        · exact focusSeen_of_focused (s := s.focus win.id) hwin hhidden rfl
        · refine focusSeen_of_changed hwin (fun win => (Changed.grab x y win).ite) rfl ?_ rfl
          rw [if_pos rfl]
          exact (Changed.grab x y win).shown (by simp) hhidden
      | grip =>
        simp only [Desktop.beginResize, hlookup]
        exact h
      | other => exact focusSeen_of_focused (s := s.focus win.id) hwin hhidden rfl

/-- **Which actions keep the focus on a window that is shown.** -/
lemma focusSeen_act_iff (hc : Consistent apps s) (h : FocusSeen s) (a : Action) :
    FocusSeen (act apps s a) ↔ LeavesShown s a := by
  have hkeeps (hcalls : s.calls a = none) (h' : FocusSeen (act apps s a)) :
      FocusSeen (act apps s a) ↔ LeavesShown s a :=
    iff_of_true h' fun call hcall => by simp [hcalls] at hcall
  have hother : Cause.other ≠ .hide := by simp
  cases a with
  | call call => simpa [act, LeavesShown, Desktop.calls] using focusSeen_call_iff hc h call
  | key stroke =>
    cases hcall : s.keyCall stroke with
    | none => exact hkeeps hcall (by simpa [act, hcall] using h)
    | some call =>
      simpa [act, LeavesShown, Desktop.calls, hcall] using focusSeen_call_iff hc h call
  | mouseDown id part x y => exact hkeeps rfl (focusSeen_mouseDown h id part x y)
  | mouseMove x y =>
    refine hkeeps rfl ?_
    rw [act, mouseMove_eq]
    exact h.changed (Changed.moved .other x y s.gestures) hother rfl rfl
  | mouseUp =>
    refine hkeeps rfl ?_
    rw [act, mouseUp_eq]
    exact h.changed (fun win => (released_listened s.gestures win).changed) (by simp) rfl rfl
  | viewport bounds =>
    exact hkeeps rfl (h.changed (fun win => (Changed.place .other win _).ite) hother rfl rfl)

/-! ### Runs -/

/-- **When the focus stays on windows that are shown.**  In every state of a run the focus is
on no window or on one of the list that is neither minimised nor hidden, exactly when each
window that a call gives the focus to as it is is not hidden.  So `Escape` closes a window
that is shown in just these runs. -/
theorem focus_never_hidden_iff (apps : Registry) (bounds : Rect) (acts : List Action) :
    (∀ js, js <+: acts → FocusShown (final (step apps) (boot apps bounds) js)) ↔
      Legal (step apps) LeavesShown (boot apps bounds) acts := by
  have hstep : ∀ s a, Consistent apps s ∧ FocusSeen s →
      (Consistent apps (act apps s a) ∧ FocusSeen (act apps s a) ↔ LeavesShown s a) := by
    rintro s a ⟨hc, h⟩
    rw [← focusSeen_act_iff hc h a]
    exact and_iff_right (hc.effect (act_effect apps s a))
  have hboot : FocusSeen (boot apps bounds) :=
    (focusSeen_openApp_iff (consistent_initial apps bounds) nofun "about").mpr
      (by simp [Desktop.successor, initial])
  rw [← forall_final_iff_legal (step apps) hstep ⟨consistent_boot apps bounds, hboot⟩ acts]
  refine forall₂_congr fun js _ => ?_
  have hc := consistent_final apps bounds js
  rw [focusShown_iff hc]
  exact (and_iff_right hc).symm

/-- **The focus falls on a minimised window**, which the next `Escape` closes: `about` is open
from the start, `files` is opened, `about` is minimised, and `files` is closed. -/
theorem focus_falls_on_minimised :
    let s := final (step twoApps) (boot twoApps desktop700)
      [.call (.openApp "files"), .call (.minimise 1), .call (.closeWindow 2)]
    s.focused = some 1 ∧ s.windows.map (fun win => (win.id, win.state)) = [(1, .minimised)] ∧
      (act twoApps s (.key ⟨false, false, false, false, false, .escape⟩)).windows = [] := by
  decide +kernel

-- `cycleFocus` takes a minimised window that has been maximised, but is still hidden
example :
    let s := final (step twoApps) (boot twoApps desktop700)
      [.call (.minimise 1), .call (.toggleMaximise 1), .call .cycleFocus]
    s.focused = some 1 ∧ s.windows.map Win.hidden = [true] := by
  decide +kernel

end JoshOS.Shell
