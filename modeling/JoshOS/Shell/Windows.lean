import JoshOS.Shell.Model

/-!
What an action does to the windows of the shell.

* `Changed`: what may happen to the record of a window that stays open.
* `Consistent`, `consistent_final`: the invariant of the list of windows: ids and apps are
  different, minimised windows are hidden, and maximised ones have a saved rectangle.
-/

namespace JoshOS.Shell

open Desktop List

variable {apps : Registry} {s s' : Desktop} {win win' : Win} {f : Win → Win}

/-! ### One window -/

/-- A minimised window is hidden, and a maximised one has a saved rectangle. -/
structure Win.Sound (win : Win) : Prop where
  hidden : win.state = .minimised → win.hidden = true
  saved : win.state = .maximised → win.prev ≠ none

/-- Why a window changes: the button of the mouse is released, it is minimised, or something
else. -/
inductive Cause where
  | release
  | hide
  | other
  deriving DecidableEq

/-- What may happen to a window.  While it stays maximised its saved rectangle stays as well.
When it becomes maximised, the rectangle is saved that it has then, unless the button of the
mouse was released and there is a saved one already. -/
structure Changed (cause : Cause) (win win' : Win) : Prop where
  id : win'.id = win.id
  appId : win'.appId = win.appId
  sound : win.Sound → win'.Sound
  shown : cause ≠ .hide → win.hidden = false → win'.hidden = false
  stays : win.Sound → win.state = .maximised → win'.state = .maximised → win'.prev = win.prev
  enters : win.state ≠ .maximised → win'.state = .maximised →
    win'.prev = some (if cause = .release then win.prev.getD win.rect else win.rect)

variable {c : Cause}

namespace Changed

/-- A change of the rectangle alone. -/
lemma place (c : Cause) (win : Win) (r : Rect) : Changed c win { win with rect := r } :=
  ⟨rfl, rfl, fun h => ⟨h.hidden, h.saved⟩, fun _ h => h, fun _ _ _ => rfl,
    fun h h' => absurd h' h⟩

lemma refl (c : Cause) (win : Win) : Changed c win win := place c win win.rect

/-- A change behind which the window is not maximised. -/
lemma of_not_maximised (hid : win'.id = win.id) (happ : win'.appId = win.appId)
    (hsound : win.Sound → win'.Sound)
    (hshown : c ≠ .hide → win.hidden = false → win'.hidden = false)
    (hstate : win'.state ≠ .maximised) : Changed c win win' :=
  ⟨hid, happ, hsound, hshown, fun _ _ h => absurd h hstate, fun _ h => absurd h hstate⟩

lemma ite {p : Prop} [Decidable p] (h : Changed c win win') :
    Changed c win (if p then win' else win) := by
  split_ifs
  · exact h
  · exact refl c win

lemma minimise (win : Win) : Changed .hide win win.minimise :=
  of_not_maximised rfl rfl (fun _ => ⟨fun _ => rfl, nofun⟩) (fun h => absurd rfl h) nofun

lemma restore (c : Cause) (win : Win) : Changed c win win.restore :=
  of_not_maximised rfl rfl (fun _ => ⟨nofun, nofun⟩) (fun _ _ => rfl) nofun

lemma toggleMaximise (bounds : Rect) (win : Win) :
    Changed .other win (win.toggleMaximise bounds) := by
  unfold Win.toggleMaximise
  split_ifs
  · split
    · exact refl .other win
    · exact of_not_maximised rfl rfl (fun _ => ⟨nofun, nofun⟩) (fun _ h => h) nofun
  · exact ⟨rfl, rfl, fun _ => ⟨nofun, nofun⟩, fun _ h => h,
      fun _ h => absurd h ‹_›, fun _ _ => rfl⟩

lemma grab (x y : ℚ) (win : Win) : Changed .other win (win.grab x y) := by
  unfold Win.grab
  split
  · exact of_not_maximised rfl rfl (fun _ => ⟨nofun, nofun⟩) (fun _ h => h) nofun
  · exact refl .other win

end Changed

/-! ### All gestures -/

/-- The window behind the listeners of all its gestures. -/
def listened (g : Gesture → Win → Win) (gestures : List Gesture) (win : Win) : Win :=
  gestures.foldl (fun win a => if win.id = a.id then g a win else win) win

/-- The listeners of all gestures change every window on its own. -/
lemma foldl_modify (g : Gesture → Win → Win) (gestures : List Gesture) (s : Desktop) :
    gestures.foldl (fun s a => s.modify a.id (g a)) s =
      { s with windows := s.windows.map (listened g gestures) } := by
  induction gestures generalizing s with
  | nil =>
    have hid : listened g [] = id := rfl
    rw [hid, map_id]
    rfl
  | cons a gestures ih =>
    rw [foldl_cons, ih]
    simp only [Desktop.modify, Keyed.modify, map_map]
    rfl

lemma mouseMove_eq (s : Desktop) (x y : ℚ) :
    s.mouseMove x y = { s with
      windows := s.windows.map (listened (fun a win => a.move x y win) s.gestures)
      gestures := s.gestures.map (Gesture.track s.bounds x y) } := by
  rw [mouseMove, foldl_modify]

lemma mouseUp_eq (s : Desktop) :
    s.mouseUp = { s with
      windows := s.windows.map (listened (fun a win => a.up win) s.gestures)
      gestures := [] } := by
  rw [mouseUp, foldl_modify]

/-- Moves change the rectangle alone. -/
lemma Changed.moved (c : Cause) (x y : ℚ) (gestures : List Gesture) (win : Win) :
    Changed c win (listened (fun a win => a.move x y win) gestures win) := by
  have hrect : ∃ r, listened (fun a win => a.move x y win) gestures win =
      { win with rect := r } := by
    induction gestures using reverseRecOn with
    | nil => exact ⟨win.rect, rfl⟩
    | append_singleton gestures a ih =>
      obtain ⟨r, hr⟩ := ih
      rw [listened] at hr
      rw [listened, foldl_append, hr, foldl_cons, foldl_nil]
      split_ifs
      · cases a with
        | drag | resize => exact ⟨_, rfl⟩
      · exact ⟨r, rfl⟩
  obtain ⟨r, hr⟩ := hrect
  rw [hr]
  exact .place c win r

/-- What the release of the button leaves of a window: it is as before, or its first rectangle
has been saved unless there was one. -/
def Released (win win' : Win) : Prop :=
  win' = win ∨ win'.id = win.id ∧ win'.appId = win.appId ∧
    win'.prev = some (win.prev.getD win.rect) ∧ win'.state ≠ .minimised ∧ win'.hidden = win.hidden

lemma released_listened (gestures : List Gesture) (win : Win) :
    Released win (listened (fun a win => a.up win) gestures win) := by
  induction gestures using reverseRecOn with
  | nil => exact .inl rfl
  | append_singleton gestures a ih =>
    rw [listened] at ih
    rw [listened, foldl_append, foldl_cons, foldl_nil]
    generalize gestures.foldl _ win = win' at ih ⊢
    split_ifs
    · cases a with
      | resize => exact ih
      | drag id startX startY zone =>
        cases zone with
        | none => exact ih
        | some zone =>
          have hstate : (win'.drop zone).state ≠ .minimised := by
            simp only [Win.drop]
            split_ifs
            · nofun
            · nofun
          rcases ih with rfl | ⟨hid, happ, hprev, -, hhidden⟩
          · exact .inr ⟨rfl, rfl, rfl, hstate, rfl⟩
          · refine .inr ⟨hid, happ, ?_, hstate, hhidden⟩
            change some (win'.prev.getD win'.rect) = _
            rw [hprev, Option.getD_some]
    · exact ih

lemma Released.changed (h : Released win win') : Changed .release win win' := by
  rcases h with rfl | ⟨hid, happ, hprev, hstate, hhidden⟩
  · exact .refl .release win'
  · refine ⟨hid, happ, fun _ => ⟨fun h => absurd h hstate, fun _ => ?_⟩, fun _ => hhidden.trans,
      fun hsound hmax _ => ?_, fun _ _ => hprev⟩
    · rw [hprev]
      nofun
    · obtain ⟨prev, hsome⟩ := Option.ne_none_iff_exists'.mp (hsound.saved hmax)
      rw [hprev, hsome, Option.getD_some]

/-! ### All windows -/

/-- The call that an action makes. -/
def Desktop.calls (s : Desktop) : Action → Option Call
  | .call call => some call
  | .key stroke => s.keyCall stroke
  | _ => none

def Call.cause : Call → Cause
  | .minimise _ => .hide
  | _ => .other

/-- Why the windows change. -/
def Desktop.cause (s : Desktop) (a : Action) : Cause :=
  if a = .mouseUp then .release else ((s.calls a).map Call.cause).getD .other

/-- What an action does to the windows: it changes them, closes one, or opens one for an app
that has none. -/
inductive Effect (apps : Registry) (s : Desktop) (c : Cause) (s' : Desktop) : Prop where
  | changed (f : Win → Win) (hf : ∀ win, Changed c win (f win))
      (hwindows : s'.windows = s.windows.map f) (hseq : s'.seq = s.seq)
  | closed (id : ℕ) (hwindows : s'.windows = s.windows.filter fun win => win.id ≠ id)
      (hseq : s'.seq = s.seq)
  | opened (appId : String) (app : AppEntry) (happ : apps appId = some app)
      (hnew : ∀ win ∈ s.windows, win.appId ≠ appId) (heq : s' = s.createWindow appId app)

namespace Effect

/-- Nothing happens to the windows. -/
lemma same (hwindows : s'.windows = s.windows) (hseq : s'.seq = s.seq) :
    Effect apps s c s' :=
  .changed id (Changed.refl c) (hwindows.trans (map_id _).symm) hseq

/-- One window changes. -/
lemma modify (hf : ∀ win, Changed c win (f win)) (id : ℕ)
    (hwindows : s'.windows = (s.modify id f).windows) (hseq : s'.seq = s.seq) :
    Effect apps s c s' :=
  .changed _ (fun win => (hf win).ite) hwindows hseq

lemma cycleFocus (c : Cause) (s : Desktop) : Effect apps s c s.cycleFocus := by
  unfold Desktop.cycleFocus
  dsimp only
  split
  · exact same rfl rfl
  · exact same rfl rfl

lemma openApp (c : Cause) (s : Desktop) (appId : String) :
    Effect apps s c (s.openApp apps appId) := by
  unfold Desktop.openApp
  split
  case h_1 => exact same rfl rfl
  case h_2 app happ =>
    split
    case h_1 hnone =>
      refine .opened appId app happ (fun win hwin => ?_) rfl
      simpa using find?_eq_none.mp hnone win hwin
    case h_2 win _ =>
      split_ifs
      · exact modify (Changed.restore c) win.id rfl rfl
      · exact same rfl rfl

lemma mouseDown (s : Desktop) (id : ℕ) (part : Part) (x y : ℚ) :
    Effect apps s .other (s.mouseDown id part x y) := by
  unfold Desktop.mouseDown
  cases hwin : s.window id with
  | none => exact same rfl rfl
  | some win =>
    dsimp only
    split_ifs
    · exact same rfl rfl
    · cases part with
      | bar =>
        simp only [beginDrag, hwin]
        split_ifs
        · exact same rfl rfl
        · exact modify (Changed.grab x y) id rfl rfl
      | grip =>
        simp only [beginResize, hwin]
        exact same rfl rfl
      | other => exact same rfl rfl

end Effect

lemma call_effect (apps : Registry) (s : Desktop) (call : Call) :
    Effect apps s call.cause (s.call apps call) := by
  cases call with
  | openApp appId => exact .openApp _ s appId
  | closeWindow id => exact .closed id rfl rfl
  | minimise id => exact .modify Changed.minimise id rfl rfl
  | toggleMaximise id => exact .modify (Changed.toggleMaximise s.bounds) id rfl rfl
  | cycleFocus => exact .cycleFocus _ s

/-- **What an action does to the windows.** -/
lemma act_effect (apps : Registry) (s : Desktop) (a : Action) :
    Effect apps s (s.cause a) (act apps s a) := by
  cases a with
  | call call => exact call_effect apps s call
  | key stroke =>
    simp only [act, cause, reduceCtorEq, if_false, calls]
    cases s.keyCall stroke with
    | none => exact .same rfl rfl
    | some call => exact call_effect apps s call
  | mouseDown id part x y => exact .mouseDown s id part x y
  | mouseMove x y =>
    rw [act, mouseMove_eq]
    exact .changed _ (Changed.moved _ x y s.gestures) rfl rfl
  | mouseUp =>
    rw [act, mouseUp_eq]
    exact .changed _ (fun win => (released_listened s.gestures win).changed) rfl rfl
  | viewport bounds =>
    exact .changed _ (fun win => (Changed.place _ win _).ite) rfl rfl

/-! ### The invariant -/

/-- The windows have different ids and apps, which are registered, and each of them is sound. -/
structure Consistent (apps : Registry) (s : Desktop) : Prop where
  ids : (s.windows.map Win.id).Nodup
  appIds : (s.windows.map Win.appId).Nodup
  fresh : ∀ win ∈ s.windows, win.id ≤ s.seq
  registered : ∀ win ∈ s.windows, apps win.appId ≠ none
  sound : ∀ win ∈ s.windows, win.Sound

lemma Consistent.effect (h : Consistent apps s) (heffect : Effect apps s c s') :
    Consistent apps s' := by
  cases heffect with
  | changed f hf hwindows hseq =>
    have hids : (s.windows.map f).map Win.id = s.windows.map Win.id := by
      rw [map_map]
      exact map_congr_left fun win _ => (hf win).id
    have happs : (s.windows.map f).map Win.appId = s.windows.map Win.appId := by
      rw [map_map]
      exact map_congr_left fun win _ => (hf win).appId
    refine ⟨?_, ?_, ?_, ?_, ?_⟩
    · rw [hwindows, hids]
      exact h.ids
    · rw [hwindows, happs]
      exact h.appIds
    all_goals
      rw [hwindows, forall_mem_map]
      intro win hwin
    · rw [(hf win).id, hseq]
      exact h.fresh win hwin
    · rw [(hf win).appId]
      exact h.registered win hwin
    · exact (hf win).sound (h.sound win hwin)
  | closed id hwindows hseq =>
    have hsub : s'.windows.Sublist s.windows := hwindows ▸ filter_sublist
    exact ⟨h.ids.sublist (hsub.map _), h.appIds.sublist (hsub.map _),
      fun win hwin => hseq ▸ h.fresh win (hsub.subset hwin),
      fun win hwin => h.registered win (hsub.subset hwin),
      fun win hwin => h.sound win (hsub.subset hwin)⟩
  | opened appId app happ hnew heq =>
    subst heq
    have hids : ∀ win ∈ s.windows, win.id ≠ s.seq + 1 := fun win hwin =>
      (Nat.lt_succ_of_le (h.fresh win hwin)).ne
    simp only [createWindow]
    refine ⟨?_, ?_, ?_, ?_, ?_⟩
    · rw [map_append, map_singleton, ← concat_eq_append, nodup_concat]
      exact ⟨by simpa [newWindow] using hids, h.ids⟩
    · rw [map_append, map_singleton, ← concat_eq_append, nodup_concat]
      exact ⟨by simpa [newWindow] using hnew, h.appIds⟩
    all_goals
      rw [forall_mem_append, forall_mem_singleton]
    · exact ⟨fun win hwin => (h.fresh win hwin).trans (Nat.le_succ _), le_rfl⟩
    · exact ⟨h.registered, by simp [newWindow, happ]⟩
    · exact ⟨h.sound, nofun, nofun⟩

lemma consistent_initial (apps : Registry) (bounds : Rect) : Consistent apps (initial bounds) :=
  ⟨nodup_nil, nodup_nil, forall_mem_nil _, forall_mem_nil _, forall_mem_nil _⟩

lemma consistent_boot (apps : Registry) (bounds : Rect) : Consistent apps (boot apps bounds) :=
  (consistent_initial apps bounds).effect (.openApp .other _ "about")

/-- **The invariant holds behind every run.** -/
lemma consistent_final (apps : Registry) (bounds : Rect) (acts : List Action) :
    Consistent apps (Runs.final (step apps) (boot apps bounds) acts) :=
  Runs.final_induction _ (fun s a h => h.effect (act_effect apps s a))
    (consistent_boot apps bounds) acts

/-- Two apps. -/
def twoApps : Registry := fun appId =>
  if appId = "about" ∨ appId = "files" then some ⟨none, none⟩ else none

/-- The desktop of a viewport. -/
def desktop700 : Rect := ⟨0, 28, 1280, 700⟩

end JoshOS.Shell
