import JoshOS.Shell.Windows

/-!
Windows that are minimised and maximised, and come back.

One field says whether a window is minimised or maximised, so that a maximised window that was
minimised comes back as a normal one, with the rectangle of the desktop.  The rectangle for the
way back from the maximised state is saved by the call that maximises, but a window that is
dropped at the top keeps a rectangle that was saved before.

* `window_comes_back_iff`: which windows come back as they were (`window_comes_back_changed`).
-/

open Runs

namespace JoshOS.Shell

variable {apps : Registry} {bounds : Rect} {s s' : Desktop} {win win' : Win} {c : Cause} {id : ℕ}

/-! ### The record of one window -/

/-- An action changes the record of a window that stays open. -/
lemma Effect.changed_window (h : Effect apps s c s') (hwin : s.window id = some win)
    (hwin' : s'.window id = some win') : Changed c win win' := by
  rw [Desktop.window] at hwin hwin'
  cases h with
  | changed f hf hwindows hseq =>
    rw [hwindows, Keyed.lookup_map fun win => (hf win).id, hwin] at hwin'
    obtain rfl := Option.some_inj.mp hwin'
    exact hf win
  | closed k hwindows hseq =>
    rw [hwindows] at hwin'
    have hne : id ≠ k := by
      rw [← Keyed.key_of_lookup hwin']
      exact of_decide_eq_true (List.mem_filter.mp (Keyed.mem_of_lookup hwin')).2
    rw [Keyed.lookup_filter_ne hne, hwin] at hwin'
    obtain rfl := Option.some_inj.mp hwin'
    exact .refl c win
  | opened appId app happ hnew heq =>
    subst heq
    have hold : Keyed.lookup Win.id id (s.createWindow appId app).windows = some win := by
      rw [Keyed.lookup, Desktop.createWindow, List.find?_append]
      exact congrArg (Option.or · _) hwin
    rw [hold] at hwin'
    obtain rfl := Option.some_inj.mp hwin'
    exact .refl c win

lemma sound_of_window {acts : List Action}
    (hwin : (final (step apps) (boot apps bounds) acts).window id = some win) : win.Sound :=
  (consistent_final apps bounds acts).sound win (Keyed.mem_of_lookup hwin)

lemma cause_eq_release {a : Action} : s.cause a = .release ↔ a = .mouseUp := by
  unfold Desktop.cause
  split_ifs with h
  · exact iff_of_true rfl h
  · refine iff_of_false (fun heq => ?_) h
    cases hcall : s.calls a with
    | none =>
      rw [hcall] at heq
      cases heq
    | some call =>
      rw [hcall] at heq
      cases call <;> cases heq

/-! ### Minimised and opened again -/

/-- **A window that is minimised and whose app is opened again** is a normal one, with its
rectangle and the saved one. -/
lemma window_reopened (h : Consistent apps s) (hwin : s.window id = some win) :
    ((s.minimise id).openApp apps win.appId).window id =
      some { win with state := .normal, hidden := false } := by
  have hmodify : ∀ a : Win, a.minimise.id = a.id := fun _ => rfl
  have hmin : (s.minimise id).window id = some win.minimise := by
    rw [Desktop.window] at hwin
    refine (Keyed.lookup_modify_self hmodify id s.windows).trans ?_
    rw [hwin]
    rfl
  have hc : Consistent apps (s.minimise id) := h.effect (call_effect apps s (.minimise id))
  have hmem : win.minimise ∈ (s.minimise id).windows := Keyed.mem_of_lookup hmin
  obtain ⟨app, happ⟩ := Option.ne_none_iff_exists'.mp (hc.registered _ hmem)
  have hfind : ((s.minimise id).windows.find? fun a => a.appId = win.appId) =
      some win.minimise := (Keyed.lookup_eq_some_iff hc.appIds).mpr ⟨hmem, rfl⟩
  have hid : win.minimise.id = id := Keyed.key_of_lookup hmin
  have happ' : apps win.appId = some app := happ
  simp only [Desktop.openApp, happ', hfind]
  rw [if_pos (show win.minimise.state = .minimised from rfl), hid]
  refine (Keyed.lookup_modify_self (f := Win.restore) (fun _ => rfl) id _).trans ?_
  rw [Desktop.window] at hmin
  rw [hmin]
  rfl

/-! ### Maximised and back -/

lemma jsRound_intCast (n : ℤ) : jsRound n = n := by
  rw [jsRound, Int.floor_eq_iff]
  constructor
  · linarith
  · linarith

lemma round_area (r : Rect) : r.area.round = r := by
  simp only [Rect.area, Area.round, jsRound_intCast]

/-- A maximised window goes back to the saved rectangle. -/
lemma window_toggleMaximise {prev : Rect} (hwin : s.window id = some win)
    (hstate : win.state = .maximised) (hprev : win.prev = some prev) :
    (s.toggleMaximise id).window id = some { win with rect := prev, state := .normal } := by
  rw [Desktop.window] at hwin
  refine (Keyed.lookup_modify_self (fun a => (Changed.toggleMaximise s.bounds a).id) id
    s.windows).trans ?_
  rw [hwin, Option.map_some, Win.toggleMaximise, if_pos hstate]
  simp only [hprev, Win.place, round_area]

/-- **What is saved while a window is maximised**: the rectangle that it had when it became
maximised, or an older one if the mouse dropped it. -/
lemma prev_of_maximised {acts post : List Action} {a : Action}
    (hwin : (final (step apps) (boot apps bounds) acts).window id = some win)
    (hstate : win.state ≠ .maximised)
    (hmax : ∀ js, js <+: post → ∃ win',
      (final (step apps) (boot apps bounds) (acts ++ a :: js)).window id = some win' ∧
        win'.state = .maximised) :
    ∃ win', (final (step apps) (boot apps bounds) (acts ++ a :: post)).window id = some win' ∧
      win'.state = .maximised ∧
      win'.prev = some (if a = .mouseUp then win.prev.getD win.rect else win.rect) := by
  induction post using List.reverseRecOn with
  | nil =>
    obtain ⟨win', hwin', hstate'⟩ := hmax [] (List.prefix_refl _)
    refine ⟨win', hwin', hstate', ?_⟩
    rw [final_append] at hwin'
    have hchanged := (act_effect apps _ a).changed_window hwin hwin'
    simpa only [cause_eq_release] using hchanged.enters hstate hstate'
  | append_singleton post b ih =>
    obtain ⟨win₁, hwin₁, hstate₁, hprev₁⟩ := ih fun js hjs =>
      hmax js (hjs.trans (List.prefix_append _ _))
    obtain ⟨win', hwin', hstate'⟩ := hmax (post ++ [b]) (List.prefix_refl _)
    refine ⟨win', hwin', hstate', ?_⟩
    rw [← List.cons_append, ← List.append_assoc, final_append] at hwin'
    have hchanged := (act_effect apps _ b).changed_window hwin₁ hwin'
    rw [hchanged.stays (sound_of_window hwin₁) hstate₁ hstate', hprev₁]

/-- **Which windows come back as they were.**  A window that is minimised and whose app is
opened again has its state, its rectangle and the saved one back exactly when it was not
maximised.  A maximised window always has a saved rectangle; when it has been maximised all the
time since an action `a`, it goes back to the rectangle in front of `a` exactly when `a` is not
the release of the mouse, or there was no other saved rectangle before. -/
theorem window_comes_back_iff (apps : Registry) (bounds : Rect) (acts : List Action) (id : ℕ)
    (win : Win) (hwin : (final (step apps) (boot apps bounds) acts).window id = some win) :
    (win.state ≠ .minimised → ∃ win',
      (final (step apps) (boot apps bounds)
        (acts ++ [.call (.minimise id), .call (.openApp win.appId)])).window id = some win' ∧
      ((win'.state, win'.rect, win'.prev) = (win.state, win.rect, win.prev) ↔
        win.state ≠ .maximised)) ∧
    (win.state = .maximised → win.prev ≠ none) ∧
    ∀ (a : Action) (post : List Action), win.state ≠ .maximised →
      (∀ js, js <+: post → ∃ win',
        (final (step apps) (boot apps bounds) (acts ++ a :: js)).window id = some win' ∧
          win'.state = .maximised) →
      ((∃ win', (final (step apps) (boot apps bounds)
          (acts ++ a :: post ++ [.call (.toggleMaximise id)])).window id = some win' ∧
        win'.state = .normal ∧ win'.rect = win.rect) ↔
      a ≠ .mouseUp ∨ win.prev = none ∨ win.prev = some win.rect) := by
  refine ⟨fun hstate => ?_, (sound_of_window hwin).saved, fun a post hstate hmax => ?_⟩
  · refine ⟨{ win with state := .normal, hidden := false }, ?_, ?_⟩
    · rw [final_append]
      exact window_reopened (consistent_final apps bounds acts) hwin
    · cases hcases : win.state with
      | normal => simp
      | minimised => exact absurd hcases hstate
      | maximised => simp
  · obtain ⟨win₁, hwin₁, hstate₁, hprev₁⟩ := prev_of_maximised hwin hstate hmax
    have hback := window_toggleMaximise hwin₁ hstate₁ hprev₁
    have hsaved : (if a = .mouseUp then win.prev.getD win.rect else win.rect) = win.rect ↔
        a ≠ .mouseUp ∨ win.prev = none ∨ win.prev = some win.rect := by
      by_cases ha : a = .mouseUp
      · cases win.prev with
        | none => simp
        | some prev => simp [ha]
      · simp [ha]
    rw [final_append, ← hsaved]
    constructor
    · rintro ⟨win', hwin', -, hrect⟩
      obtain rfl := Option.some_inj.mp (hback.symm.trans hwin')
      exact hrect
    · intro hrect
      exact ⟨_, hback, rfl, hrect⟩

/-- The window of `about` behind its start. -/
def aboutWin : Win := ⟨1, "about", ⟨320, 52, 520, 360⟩, .normal, none, false⟩

theorem window_comes_back_iff_about :
    (∃ win', (final (step twoApps) (boot twoApps desktop700)
        [.call (.minimise 1), .call (.openApp "about")]).window 1 = some win' ∧
      (win'.state, win'.rect, win'.prev) = (.normal, ⟨320, 52, 520, 360⟩, none)) ∧
    ∃ win', (final (step twoApps) (boot twoApps desktop700)
        [.call (.toggleMaximise 1), .call (.toggleMaximise 1)]).window 1 = some win' ∧
      win'.state = .normal ∧ win'.rect = ⟨320, 52, 520, 360⟩ := by
  have hwin : (final (step twoApps) (boot twoApps desktop700) []).window 1 = some aboutWin := by
    decide +kernel
  obtain ⟨hopen, -, htoggle⟩ := window_comes_back_iff twoApps desktop700 [] 1 aboutWin hwin
  obtain ⟨win', hwin', hiff⟩ := hopen nofun
  refine ⟨⟨win', hwin', hiff.mpr nofun⟩, ?_⟩
  refine (htoggle (.call (.toggleMaximise 1)) [] nofun fun js hjs => ?_).mpr (.inl nofun)
  obtain rfl := List.prefix_nil.mp hjs
  exact ⟨{ aboutWin with rect := desktop700, state := .maximised, prev := some aboutWin.rect },
    by decide +kernel, rfl⟩

/-- **Windows that come back changed.**  A maximised window that is minimised and opened again
is a normal one of the size of the desktop.  A window that was maximised once, was moved, and is
dropped at the top goes back to where it was before the move. -/
theorem window_comes_back_changed :
    (final (step twoApps) (boot twoApps desktop700) [.call (.toggleMaximise 1),
      .call (.minimise 1), .call (.openApp "about")]).windows =
        [⟨1, "about", desktop700, .normal, some ⟨320, 52, 520, 360⟩, false⟩] ∧
    (final (step twoApps) (boot twoApps desktop700) [.call (.toggleMaximise 1),
      .call (.toggleMaximise 1), .mouseDown 1 .bar 400 60, .mouseMove 500 260, .mouseUp,
      .mouseDown 1 .bar 500 260, .mouseMove 500 30]).windows =
        [⟨1, "about", ⟨420, 22, 520, 360⟩, .normal, some ⟨320, 52, 520, 360⟩, false⟩] ∧
    (final (step twoApps) (boot twoApps desktop700) [.call (.toggleMaximise 1),
      .call (.toggleMaximise 1), .mouseDown 1 .bar 400 60, .mouseMove 500 260, .mouseUp,
      .mouseDown 1 .bar 500 260, .mouseMove 500 30, .mouseUp, .call (.toggleMaximise 1)]).windows =
        [⟨1, "about", ⟨320, 52, 520, 360⟩, .normal, some ⟨320, 52, 520, 360⟩, false⟩] := by
  decide +kernel

end JoshOS.Shell
