import JoshOS.Compositor.Model

/-!
Which geometry a window returns to.

A window has one slot for the geometry to return to.  `toggle_maximise` fills it
whenever the window becomes maximised, `apply_snap` only if it was empty or the window
is maximised, and the fullscreen mode of a view fills it again.

* `Tracks`, `Tracks.step`: the two modes of a view and what its slot holds.
* `modes_compose_iff`: the view returns to its floating geometry if it was never in
  both modes at once; otherwise it returns to the desktop (`nested_modes_lose_geometry`).
* `dragOps`, `drag_run`: a move is a run of window operations.
* `unmaximise_restores_iff`: a window that an operation has maximised returns to the
  geometry it had, unless the operation was a snap that found an older geometry in the
  slot (`snap_maximise_stale`).
-/

namespace JoshOS

open List Runs Words

namespace Compositor

variable {box desktop restored : JoshRect} {view : JoshView} {window : JoshWindowState}

/-- The bounds of the desktop are normalised. -/
lemma joshSnapGeometry_bounds (box : JoshRect) :
    joshSnapGeometry (serverDesktopBounds box) .maximise = serverDesktopBounds box := by
  have hnorm : ¬ (serverDesktopBounds box).width < 1 ∧ ¬ (serverDesktopBounds box).height < 1 := by
    rw [serverDesktopBounds]
    split
    case isTrue => decide
    case isFalse h => exact not_or.mp h
  simp only [joshSnapGeometry, normalisedDesktop, if_neg hnorm.1, if_neg hnorm.2]

/-! ### Maximised and fullscreen -/

/-- The modes, maximised and fullscreen, that a request leads to. -/
def Request.apply (modes : Bool × Bool) : Request → Bool × Bool
  | .maximize requested => (requested, modes.2)
  | .fullscreen requested => (modes.1, requested)

/-- The modes that a list of requests asks for, from a floating view on. -/
def modes (requests : List Request) : Bool × Bool := requests.foldl Request.apply (false, false)

/-- At some point of the requests both modes are asked for. -/
def Nested (requests : List Request) : Prop := ∃ js, js <+: requests ∧ modes js = (true, true)

lemma modes_concat (js : List Request) (r : Request) : modes (js ++ [r]) = r.apply (modes js) := by
  rw [modes, foldl_append]
  rfl

lemma nested_concat_iff (js : List Request) (r : Request) :
    Nested (js ++ [r]) ↔ modes (js ++ [r]) = (true, true) ∨ Nested js := by
  constructor
  · rintro ⟨ks, hks, hboth⟩
    rcases prefix_concat_iff.mp hks with rfl | hpre
    · exact .inl hboth
    · exact .inr ⟨ks, hpre, hboth⟩
  · rintro (hboth | ⟨ks, hks, hboth⟩)
    · exact ⟨_, prefix_refl _, hboth⟩
    · exact ⟨ks, hks.trans (prefix_append js [r]), hboth⟩

/-- The view is in the given modes, floats at `restored`, or covers the desktop with
`restored` in its slot. -/
structure Tracks (desktop restored : JoshRect) (modes : Bool × Bool) (view : JoshView) :
    Prop where
  maximised : view.state.maximised = modes.1
  fullscreen : view.fullscreen = modes.2
  floating : modes = (false, false) → view.state.geometry = restored
  saved : modes ≠ (false, false) → view.state.geometry = desktop ∧
    view.state.hasPreviousGeometry = true ∧ view.state.previousGeometry = restored
  both : modes = (true, true) → restored = desktop

/-- Entering a mode saves the geometry, which is the desktop if the other mode is on. -/
lemma Tracks.enter {m m' : Bool × Bool} {view' : JoshView} (h : Tracks desktop restored m view)
    (hm' : m' ≠ (false, false)) (hboth : m' = (true, true) ↔ m ≠ (false, false))
    (hmax : view'.state.maximised = m'.1) (hfull : view'.fullscreen = m'.2)
    (hgeom : view'.state.geometry = desktop) (hhas : view'.state.hasPreviousGeometry = true)
    (hprev : view'.state.previousGeometry = view.state.geometry) :
    Tracks desktop (if m' = (true, true) then desktop else restored) m' view' := by
  refine ⟨hmax, hfull, fun hoff => absurd hoff hm', fun _ => ⟨hgeom, hhas, ?_⟩, fun h2 => if_pos h2⟩
  rw [hprev]
  split
  case isTrue h2 => exact (h.saved (hboth.mp h2)).1
  case isFalse h1 => exact h.floating (not_not.mp fun hne => h1 (hboth.mpr hne))

/-- Leaving a mode brings the saved geometry back and keeps it in the slot. -/
lemma Tracks.leave {m m' : Bool × Bool} {view' : JoshView} (h : Tracks desktop restored m view)
    (hm : m ≠ (false, false)) (hm' : m' ≠ (true, true))
    (hboth : m' ≠ (false, false) → m = (true, true))
    (hmax : view'.state.maximised = m'.1) (hfull : view'.fullscreen = m'.2)
    (hgeom : view'.state.geometry = view.state.previousGeometry)
    (hhas : view'.state.hasPreviousGeometry = view.state.hasPreviousGeometry)
    (hprev : view'.state.previousGeometry = view.state.previousGeometry) :
    Tracks desktop (if m' = (true, true) then desktop else restored) m' view' := by
  obtain ⟨-, hold, hsaved⟩ := h.saved hm
  rw [if_neg hm']
  refine ⟨hmax, hfull, fun _ => hgeom.trans hsaved, fun hon => ⟨?_, hhas.trans hold, ?_⟩,
    fun h2 => absurd h2 hm'⟩
  · rw [hgeom, hsaved, h.both (hboth hon)]
  · rw [hprev, hsaved]

/-- A request for the modes that the view is in changes nothing. -/
lemma Tracks.same {m : Bool × Bool} (h : Tracks desktop restored m view) :
    Tracks desktop (if m = (true, true) then desktop else restored) m view := by
  split
  case isTrue h2 =>
    obtain rfl := h.both h2
    exact h
  case isFalse => exact h

/-- **One request.**  Entering the second mode puts the desktop into the slot. -/
lemma Tracks.step {m : Bool × Bool} (h : Tracks (serverDesktopBounds box) restored m view)
    (r : Request) :
    Tracks (serverDesktopBounds box)
      (if r.apply m = (true, true) then serverDesktopBounds box else restored) (r.apply m)
      (stepView box view r).2 := by
  obtain ⟨max, full⟩ := m
  have hmax : view.state.maximised = max := h.maximised
  have hfull : view.fullscreen = full := h.fullscreen
  cases r with
  | maximize requested =>
    simp only [stepView, handleRequestMaximize, joshWindowToggleMaximise, hmax,
      joshSnapGeometry_bounds]
    cases max with
    | false =>
      cases requested with
      | false => exact h.same
      | true =>
        exact h.enter (by simp [Request.apply]) (by simp [Request.apply]) rfl hfull rfl rfl rfl
    | true =>
      cases requested with
      | false =>
        refine h.leave (by simp) (by simp [Request.apply]) (by simp [Request.apply]) rfl hfull
          ?_ rfl rfl
        exact if_pos (h.saved (by simp)).2.1
      | true => exact h.same
  | fullscreen requested =>
    simp only [stepView, handleRequestFullscreen, hfull]
    cases full with
    | false =>
      cases requested with
      | false => exact h.same
      | true =>
        exact h.enter (by simp [Request.apply]) (by simp [Request.apply]) hmax rfl rfl rfl rfl
    | true =>
      cases requested with
      | false =>
        refine h.leave (by simp) (by simp [Request.apply]) (by simp [Request.apply]) hmax rfl
          ?_ rfl rfl
        exact if_pos (h.saved (by simp)).2.1
      | true => exact h.same

open Classical in
/-- **Any requests**: the view returns to its geometry, or to the desktop once the
requests have been nested. -/
lemma tracks_final (box : JoshRect) (view : JoshView) (hmax : view.state.maximised = false)
    (hfull : view.fullscreen = false) (js : List Request) :
    Tracks (serverDesktopBounds box)
      (if Nested js then serverDesktopBounds box else view.state.geometry) (modes js)
      (final (stepView box) view js) := by
  induction js using reverseRecOn with
  | nil =>
    have hnot : ¬ Nested [] := by
      rintro ⟨ks, hks, hboth⟩
      rw [prefix_nil.mp hks] at hboth
      exact absurd hboth (by decide)
    rw [if_neg hnot]
    exact ⟨hmax, hfull, fun _ => rfl, fun h => absurd rfl h, fun h => absurd h (by decide)⟩
  | append_singleton js r ih =>
    have hstep := ih.step r
    rw [← modes_concat] at hstep
    rw [final_append, final_cons, final_nil]
    convert hstep using 1
    by_cases hboth : modes (js ++ [r]) = (true, true)
    · rw [if_pos ((nested_concat_iff js r).mpr (.inl hboth)), if_pos hboth]
    · rw [if_neg hboth, nested_concat_iff, or_iff_right hboth]

/-- **Maximise and fullscreen compose exactly as long as they are not nested.**  From a
floating view on a fixed output layout, whatever the client requests: the view has its
first geometry in every state in which it floats again, if and only if this geometry is
the whole desktop, or the view never floats after requests for both modes at once. -/
theorem modes_compose_iff (box : JoshRect) (view : JoshView)
    (hmax : view.state.maximised = false) (hfull : view.fullscreen = false)
    (requests : List Request) :
    (∀ js, js <+: requests →
      (Runs.final (stepView box) view js).state.maximised = false →
      (Runs.final (stepView box) view js).fullscreen = false →
      (Runs.final (stepView box) view js).state.geometry = view.state.geometry) ↔
    view.state.geometry = serverDesktopBounds box ∨
      ∀ js, js <+: requests → modes js = (false, false) → ¬ Nested js := by
  have htracks := tracks_final box view hmax hfull
  have hoff : ∀ js, modes js = (false, false) ↔
      (Runs.final (stepView box) view js).state.maximised = false ∧
        (Runs.final (stepView box) view js).fullscreen = false := by
    intro js
    rw [(htracks js).maximised, (htracks js).fullscreen, Prod.ext_iff]
  constructor
  · intro hall
    rw [or_iff_not_imp_left]
    intro hne js hjs hfloat hnested
    have hgeom := (htracks js).floating hfloat
    rw [if_pos hnested] at hgeom
    exact hne ((hall js hjs ((hoff js).mp hfloat).1 ((hoff js).mp hfloat).2).symm.trans hgeom)
  · rintro h js hjs hm hf
    have hfloat := (hoff js).mpr ⟨hm, hf⟩
    rw [(htracks js).floating hfloat]
    split
    case isTrue hnested =>
      rcases h with heq | hnot
      · exact heq.symm
      · exact absurd hnested (hnot js hjs hfloat)
    case isFalse => rfl

/-- A view of a client, floating on a screen, whose maximised state is left again. -/
theorem modes_compose_iff_maximise :
    (Runs.final (stepView ⟨0, 0, 1920, 1080⟩) ⟨freshWindow ⟨48, 48, 900, 650⟩, false⟩
      [.maximize true, .maximize false]).state.geometry = ⟨48, 48, 900, 650⟩ := by
  refine (modes_compose_iff ⟨0, 0, 1920, 1080⟩ ⟨freshWindow ⟨48, 48, 900, 650⟩, false⟩ rfl rfl
    [.maximize true, .maximize false]).mpr (Or.inr ?_) _ (List.prefix_refl _) rfl rfl
  rintro js hjs - ⟨ks, hks, hboth⟩
  have hnever : ∀ ks ∈ [Request.maximize true, .maximize false].inits, modes ks ≠ (true, true) := by
    decide
  exact hnever ks ((List.mem_inits ks _).mpr (hks.trans hjs)) hboth

/-- Fullscreen inside maximised: the view floats again with the geometry of the
desktop. -/
theorem nested_modes_lose_geometry :
    Runs.final (stepView ⟨0, 0, 1920, 1080⟩) ⟨freshWindow ⟨48, 48, 900, 650⟩, false⟩
        [.maximize true, .fullscreen true, .fullscreen false, .maximize false] =
      ⟨⟨⟨0, 0, 1920, 1080⟩, ⟨0, 0, 1920, 1080⟩, true, false, false⟩, false⟩ := by
  decide

/-! ### Moves -/

/-- The operations of a move: a maximised window is toggled, every motion places the window,
with the size it then has, where the cursor is at the distance of the press, and the zone of
the release snaps it. -/
def dragOps (box : JoshRect) (window : JoshWindowState) (press : ℚ × ℚ)
    (motions : List (ℚ × ℚ)) : List WindowOp :=
  let desktop := serverDesktopBounds box
  let floating :=
    if window.maximised && window.hasPreviousGeometry then window.previousGeometry
    else window.geometry
  let release := motions.getLastD press
  let zone := joshSnapZoneFor desktop release.1 release.2 24
  (if window.maximised then [.toggleMaximise desktop] else []) ++
    motions.map (fun cursor => .place { floating with
      x := truncate (toDouble (cursor.1 - toDouble (press.1 - floating.x)))
      y := truncate (toDouble (cursor.2 - toDouble (press.2 - floating.y))) }) ++
    if zone = .none then [] else [.applySnap desktop zone]

/-- The start of a move. -/
lemma beginInteractive_run (box : JoshRect) (window : JoshWindowState) (press : ℚ × ℚ) :
    (beginInteractive box window press).1.maximised = false ∧
      (beginInteractive box window press).1.geometry =
        (if window.maximised && window.hasPreviousGeometry then window.previousGeometry
        else window.geometry) ∧
      (beginInteractive box window press).1 = final step window
        (if window.maximised then [.toggleMaximise (serverDesktopBounds box)] else []) := by
  cases hmax : window.maximised with
  | false => simp [beginInteractive, hmax]
  | true => simp [beginInteractive, hmax, joshWindowToggleMaximise, step]

/-- The motions of a move are placings. -/
lemma moves_run (grab : ℚ × ℚ) (floating : JoshRect) (motions : List (ℚ × ℚ)) :
    ∀ {window : JoshWindowState}, window.maximised = false →
    window.geometry.width = floating.width ∧ window.geometry.height = floating.height →
    motions.foldl (moveTo grab) window =
      final step window (motions.map fun cursor => .place { floating with
        x := truncate (toDouble (cursor.1 - grab.1))
        y := truncate (toDouble (cursor.2 - grab.2)) }) := by
  induction motions with
  | nil => exact fun _ _ => rfl
  | cons cursor motions ih =>
    intro window hmax hsize
    have hplace : (step window (.place { floating with
        x := truncate (toDouble (cursor.1 - grab.1))
        y := truncate (toDouble (cursor.2 - grab.2)) })).2 = moveTo grab window cursor := by
      rw [step, if_neg (by simp [hmax]), ← hsize.1, ← hsize.2]
      rfl
    rw [foldl_cons, map_cons, final_cons, hplace]
    exact ih hmax hsize

/-- **A move** from the press of the button to its release is the run of its operations. -/
theorem drag_run (box : JoshRect) (window : JoshWindowState) (press : ℚ × ℚ)
    (motions : List (ℚ × ℚ)) :
    drag box window press motions = final step window (dragOps box window press motions) := by
  obtain ⟨hmax, hgeometry, hstart⟩ := beginInteractive_run box window press
  have hgrab : (beginInteractive box window press).2 =
      (toDouble (press.1 - (beginInteractive box window press).1.geometry.x),
        toDouble (press.2 - (beginInteractive box window press).1.geometry.y)) := rfl
  rw [hgeometry] at hgrab
  rw [drag, dragOps, final_append, final_append, ← hstart]
  dsimp only
  generalize (if window.maximised && _ then _ else _ : JoshRect) = floating at hgeometry hgrab ⊢
  rw [hgrab, moves_run _ floating motions hmax (by simp [hgeometry]), endInteractive]
  by_cases hzone : joshSnapZoneFor (serverDesktopBounds box) (motions.getLastD press).1
      (motions.getLastD press).2 24 = .none
  · rw [if_neg (not_not.mpr hzone), if_pos hzone]
    rfl
  · rw [if_pos hzone, if_neg hzone]
    rfl

/-! ### Leaving the maximised state -/

/-- The operations that leave a geometry in the slot. -/
def WindowOp.Saves : WindowOp → Prop
  | .toggleMaximise _ => True
  | .applySnap _ zone => zone ≠ .none
  | .place _ => False

/-- What a snap leaves in the slot. -/
lemma joshWindowApplySnap_eq {zone : JoshSnapZone} (hzone : zone ≠ .none) :
    joshWindowApplySnap window desktop zone =
      { geometry := joshSnapGeometry desktop zone
        previousGeometry :=
          if window.hasPreviousGeometry = false ∨ window.maximised = true then window.geometry
          else window.previousGeometry
        hasPreviousGeometry := true
        maximised := zone = .maximise
        minimised := false } := by
  rw [joshWindowApplySnap, if_neg hzone]
  split
  case isTrue => rfl
  case isFalse hkeep =>
    rw [not_or, Bool.not_eq_false] at hkeep
    simp only [hkeep.1]

/-- A maximised window has a saved geometry, and an operation that saves leaves one. -/
lemma hasPreviousGeometry_step (h : window.maximised = true → window.hasPreviousGeometry = true)
    (op : WindowOp) :
    ((step window op).2.maximised = true → (step window op).2.hasPreviousGeometry = true) ∧
      ((step window op).2.hasPreviousGeometry = true ↔
        window.hasPreviousGeometry = true ∨ op.Saves) := by
  cases op with
  | toggleMaximise desktop =>
    cases hmax : window.maximised with
    | false => simp [step, joshWindowToggleMaximise, hmax, WindowOp.Saves]
    | true => simp [step, joshWindowToggleMaximise, hmax, h hmax, WindowOp.Saves]
  | applySnap desktop zone =>
    by_cases hzone : zone = .none
    · simp only [step, joshWindowApplySnap, if_pos hzone, WindowOp.Saves]
      exact ⟨h, (or_iff_left (not_not.mpr hzone)).symm⟩
    · simp only [step, joshWindowApplySnap_eq hzone]
      exact ⟨fun _ => trivial, fun _ => .inr hzone, fun _ => trivial⟩
  | place geometry =>
    cases hmax : window.maximised with
    | false => simp [step, hmax, WindowOp.Saves]
    | true => simpa [step, hmax, WindowOp.Saves] using h hmax

/-- The slot of a window is filled once an operation has saved a geometry. -/
lemma hasPreviousGeometry_final (g : JoshRect) (ops : List WindowOp) :
    ((final step (freshWindow g) ops).maximised = true →
      (final step (freshWindow g) ops).hasPreviousGeometry = true) ∧
      ((final step (freshWindow g) ops).hasPreviousGeometry = true ↔
        ∃ op ∈ ops, op.Saves) := by
  induction ops using reverseRecOn with
  | nil => simp [freshWindow]
  | append_singleton ops op ih =>
    obtain ⟨hsaved, hhas⟩ := ih
    obtain ⟨hsaved', hhas'⟩ := hasPreviousGeometry_step hsaved op
    rw [final_append, final_cons, final_nil]
    refine ⟨hsaved', hhas'.trans ?_⟩
    rw [hhas]
    simp only [mem_append, mem_singleton, or_and_right, exists_or, exists_eq_left]

/-- **When leaving the maximised state restores the geometry.**  After any run on a fresh
window, let an operation take it from not maximised to maximised.  Toggling it right
after gives the geometry back if and only if the operation was a toggle itself, or no
operation before has saved a geometry, or the saved geometry is the current one. -/
theorem unmaximise_restores_iff (g : JoshRect) (ops : List WindowOp) (op : WindowOp)
    (hfrom : (Runs.final step (freshWindow g) ops).maximised = false)
    (hto : (step (Runs.final step (freshWindow g) ops) op).2.maximised = true)
    (desktop : JoshRect) :
    (joshWindowToggleMaximise (step (Runs.final step (freshWindow g) ops) op).2 desktop).geometry =
        (Runs.final step (freshWindow g) ops).geometry ↔
      (∃ d, op = .toggleMaximise d) ∨ (∀ o ∈ ops, ¬ o.Saves) ∨
        (Runs.final step (freshWindow g) ops).previousGeometry =
          (Runs.final step (freshWindow g) ops).geometry := by
  have hhas := (hasPreviousGeometry_final g ops).2
  generalize Runs.final step (freshWindow g) ops = window at hfrom hto hhas ⊢
  cases op with
  | toggleMaximise d =>
    refine iff_of_true ?_ (Or.inl ⟨d, rfl⟩)
    simp [step, joshWindowToggleMaximise, hfrom]
  | applySnap d zone =>
    have hzone : zone ≠ .none := by
      rintro rfl
      rw [step, joshWindowApplySnap, if_pos rfl, hfrom] at hto
      exact Bool.false_ne_true hto
    simp only [step, joshWindowApplySnap_eq hzone] at hto ⊢
    have hempty : (∀ o ∈ ops, ¬ o.Saves) ↔ window.hasPreviousGeometry = false := by
      rw [← Bool.not_eq_true, hhas]
      push Not
      rfl
    rw [joshWindowToggleMaximise, if_pos hto, if_pos rfl, hempty, hfrom]
    simp only [reduceCtorEq, exists_false, false_or, Bool.false_eq_true, or_false]
    split
    case isTrue hslot => exact iff_of_true rfl (Or.inl hslot)
    case isFalse hslot => exact (or_iff_right hslot).symm
  | place geometry =>
    rw [step, hfrom] at hto
    exact absurd hto (by simp)

/-- A window dropped at the upper edge for the first time. -/
theorem unmaximise_restores_iff_first_snap :
    (joshWindowToggleMaximise (joshWindowApplySnap
      (Runs.final step (freshWindow ⟨240, 180, 900, 650⟩) [.place ⟨600, 8, 900, 650⟩])
      ⟨0, 32, 1920, 1048⟩ .maximise) ⟨0, 32, 1920, 1048⟩).geometry = ⟨600, 8, 900, 650⟩ :=
  (unmaximise_restores_iff ⟨240, 180, 900, 650⟩ [.place ⟨600, 8, 900, 650⟩]
    (.applySnap ⟨0, 32, 1920, 1048⟩ .maximise) (by decide) (by decide) ⟨0, 32, 1920, 1048⟩).mpr
    (Or.inr (Or.inl (by simp [WindowOp.Saves])))

/-- A window that has been maximised before, moved, and dropped at the upper edge:
leaving the maximised state takes it to where it was the first time. -/
theorem snap_maximise_stale :
    let desktop : JoshRect := ⟨0, 32, 1920, 1048⟩
    let window := Runs.final step (freshWindow ⟨240, 180, 900, 650⟩)
      [.toggleMaximise desktop, .toggleMaximise desktop, .place ⟨600, 300, 900, 650⟩]
    window.maximised = false ∧ window.geometry = ⟨600, 300, 900, 650⟩ ∧
      (joshWindowApplySnap window desktop .maximise).maximised = true ∧
      (joshWindowToggleMaximise (joshWindowApplySnap window desktop .maximise) desktop).geometry =
        ⟨240, 180, 900, 650⟩ := by
  decide

end Compositor

end JoshOS
