import JoshOS.Lib.Keyed
import JoshOS.Lib.Runs
import JoshOS.Lib.Words

/-!
The windows of the desktop shell (`shell.js`).

The state of the shell is its list of windows, the focused window, and the mouse gestures whose
listeners are installed.  Numbers of the browser are rationals here, and whole numbers where the
code has rounded them; the position under the pointer, which takes a quotient, is computed in
doubles.  An exception leaves what was changed before it.

* `Win.place`, `Win.toggleMaximise`, `Win.grab`, `Win.drop`: what happens to one window.
* `openApp`, `focus`, `closeWindow`, `minimise`, `toggleMaximise`, `cycleFocus`: the functions of
  the shell.
* `Call`, `Action`, `act`: all that can happen: calls, strokes of keys, the mouse, and changes
  of the viewport.
* `boot`: the shell after its start.
-/

namespace JoshOS.Shell

/-! ### Rectangles -/

/-- `Math.round`. -/
def jsRound (q : ℚ) : ℤ := ⌊q + 1 / 2⌋

/-- A rectangle of whole numbers. -/
structure Rect where
  x : ℤ
  y : ℤ
  w : ℤ
  h : ℤ
  deriving DecidableEq, Repr

/-- A rectangle that has not been rounded. -/
structure Area where
  x : ℚ
  y : ℚ
  w : ℚ
  h : ℚ
  deriving DecidableEq, Repr

def Rect.area (r : Rect) : Area := ⟨r.x, r.y, r.w, r.h⟩

def Area.round (a : Area) : Rect := ⟨jsRound a.x, jsRound a.y, jsRound a.w, jsRound a.h⟩

/-! ### Windows -/

/-- The values of `state` of a window. -/
inductive WinState where
  | normal
  | minimised
  | maximised
  deriving DecidableEq, Repr

/-- The record of a window; it is hidden while its element is marked as minimised. -/
structure Win where
  id : ℕ
  appId : String
  rect : Rect
  state : WinState
  prev : Option Rect
  hidden : Bool
  deriving DecidableEq, Repr

namespace Win

def place (win : Win) (a : Area) : Win := { win with rect := a.round }

def minimise (win : Win) : Win := { win with state := .minimised, hidden := true }

def restore (win : Win) : Win := { win with state := .normal, hidden := false }

/-- `toggleMaximise`; without a saved rectangle it raises an exception. -/
def toggleMaximise (bounds : Rect) (win : Win) : Win :=
  if win.state = .maximised then
    match win.prev with
    | none => win
    | some prev => { win.place prev.area with state := .normal }
  else { win.place bounds.area with prev := some win.rect, state := .maximised }

/-- The start of a drag: a maximised window gets its saved size back under the pointer. -/
def grab (x y : ℚ) (win : Win) : Win :=
  match win.state, win.prev with
  | .maximised, some prev =>
    let ratio := Words.toDouble (Words.toDouble (x - win.rect.x) / win.rect.w)
    { win.place ⟨Words.toDouble (x - Words.toDouble (prev.w * ratio)), y - 16, prev.w, prev.h⟩ with
      state := .normal }
  | _, _ => win

end Win

/-- The names of the zones to which a window snaps. -/
inductive ZoneName where
  | max
  | left
  | right
  deriving DecidableEq, Repr

structure Zone where
  area : Area
  name : ZoneName
  deriving DecidableEq, Repr

def snapZoneFor (b : Rect) (mx my : ℚ) : Option Zone :=
  let edge := 24
  if my ≤ b.y + edge then some ⟨b.area, .max⟩
  else if mx ≤ b.x + edge then some ⟨⟨b.x, b.y, b.w / 2, b.h⟩, .left⟩
  else if mx ≥ b.x + b.w - edge then some ⟨⟨b.x + b.w / 2, b.y, b.w / 2, b.h⟩, .right⟩
  else none

/-- The end of a drag in a zone. -/
def Win.drop (zone : Zone) (win : Win) : Win :=
  { win.place zone.area with
    prev := some (win.prev.getD win.rect)
    state := if zone.name = .max then .maximised else .normal }

/-! ### Gestures -/

/-- A gesture of the mouse on a window, with the variables that its listeners keep. -/
inductive Gesture where
  | drag (id : ℕ) (startX startY : ℚ) (zone : Option Zone)
  | resize (id : ℕ) (startW startH : ℤ) (startX startY : ℚ)
  deriving DecidableEq, Repr

namespace Gesture

def id : Gesture → ℕ
  | .drag id _ _ _ => id
  | .resize id _ _ _ _ => id

/-- The window while the mouse moves. -/
def move (x y : ℚ) (win : Win) : Gesture → Win
  | .drag _ startX startY _ => win.place ⟨x - startX, y - startY, win.rect.w, win.rect.h⟩
  | .resize _ startW startH startX startY =>
    win.place ⟨win.rect.x, win.rect.y, max 260 (startW + x - startX),
      max 160 (startH + y - startY)⟩

/-- The variables of the listeners behind a move. -/
def track (bounds : Rect) (x y : ℚ) : Gesture → Gesture
  | .drag id startX startY _ => .drag id startX startY (snapZoneFor bounds x y)
  | .resize id startW startH startX startY => .resize id startW startH startX startY

/-- The window when the button is released. -/
def up (win : Win) : Gesture → Win
  | .drag _ _ _ (some zone) => win.drop zone
  | _ => win

end Gesture

/-! ### The shell -/

/-- The size that an app asks for. -/
structure AppEntry where
  width : Option ℤ
  height : Option ℤ
  deriving DecidableEq, Repr

/-- The registered apps. -/
abbrev Registry := String → Option AppEntry

structure Desktop where
  windows : List Win
  seq : ℕ
  focused : Option ℕ
  bounds : Rect
  gestures : List Gesture
  deriving DecidableEq, Repr

/-- A number, or another one in place of none or zero. -/
def orNumber (n : Option ℤ) (other : ℤ) : ℤ := if n.getD 0 = 0 then other else n.getD 0

namespace Desktop

/-- The record of a window. -/
def window (s : Desktop) (id : ℕ) : Option Win := Keyed.lookup Win.id id s.windows

/-- The change of a window. -/
def modify (s : Desktop) (id : ℕ) (f : Win → Win) : Desktop :=
  { s with windows := Keyed.modify Win.id id f s.windows }

def focus (s : Desktop) (id : ℕ) : Desktop := { s with focused := some id }

/-- The record of a new window. -/
def newWindow (s : Desktop) (appId : String) (app : AppEntry) : Win :=
  let b := s.bounds
  let w := min (orNumber app.width 520) (b.w - 40)
  let h := min (orNumber app.height 360) (b.h - 40)
  let offset : ℤ := (s.seq % 6 : ℕ) * 26
  { id := s.seq + 1
    appId := appId
    rect := ⟨jsRound (b.x + (b.w - w) / 2 + offset - 60), jsRound (b.y + 24 + offset), w, h⟩
    state := .normal
    prev := none
    hidden := false }

def createWindow (s : Desktop) (appId : String) (app : AppEntry) : Desktop :=
  { s with
    windows := s.windows ++ [s.newWindow appId app]
    seq := s.seq + 1
    focused := some (s.seq + 1) }

def openApp (apps : Registry) (s : Desktop) (appId : String) : Desktop :=
  match apps appId with
  | none => s
  | some app =>
    match s.windows.find? fun win => win.appId = appId with
    | none => s.createWindow appId app
    | some win =>
      (if win.state = .minimised then s.modify win.id Win.restore else s).focus win.id

def closeWindow (s : Desktop) (id : ℕ) : Desktop :=
  let windows := s.windows.filter fun win => win.id ≠ id
  { s with
    windows := windows
    focused := if s.focused = some id then windows.getLast?.map Win.id else s.focused }

def minimise (s : Desktop) (id : ℕ) : Desktop :=
  { s.modify id Win.minimise with
    focused := if s.focused = some id then none else s.focused }

def toggleMaximise (s : Desktop) (id : ℕ) : Desktop := s.modify id (Win.toggleMaximise s.bounds)

def cycleFocus (s : Desktop) : Desktop :=
  let visible := (s.windows.filter fun win => win.state ≠ .minimised).map Win.id
  let next :=
    match s.focused with
    | some id => if id ∈ visible then visible.idxOf id + 1 else 0
    | none => 0
  match visible[next % visible.length]? with
  | some id => s.focus id
  | none => s

/-- `beginDrag`, unless it raises an exception. -/
def beginDrag (s : Desktop) (id : ℕ) (x y : ℚ) : Desktop :=
  match s.window id with
  | none => s
  | some win =>
    if win.state = .maximised ∧ win.prev = none then s
    else
      let grabbed := win.grab x y
      { s.modify id (Win.grab x y) with
        gestures := s.gestures ++
          [.drag id (x - grabbed.rect.x) (y - grabbed.rect.y) none] }

def beginResize (s : Desktop) (id : ℕ) (x y : ℚ) : Desktop :=
  match s.window id with
  | none => s
  | some win =>
    { s with gestures := s.gestures ++ [.resize id win.rect.w win.rect.h x y] }

/-- The listeners of all gestures are called for a move. -/
def mouseMove (s : Desktop) (x y : ℚ) : Desktop :=
  { s.gestures.foldl (fun s g => s.modify g.id fun win => g.move x y win) s with
    gestures := s.gestures.map (Gesture.track s.bounds x y) }

/-- The listeners of all gestures are called for the release of the button, and removed. -/
def mouseUp (s : Desktop) : Desktop :=
  { s.gestures.foldl (fun s g => s.modify g.id fun win => g.up win) s with gestures := [] }

/-- The viewport has changed: maximised windows follow it. -/
def viewport (s : Desktop) (bounds : Rect) : Desktop :=
  { s with
    bounds := bounds
    windows := s.windows.map fun win =>
      if win.state = .maximised then win.place bounds.area else win }

end Desktop

/-! ### What can happen -/

/-- The keys that the shell knows. -/
inductive Key where
  | tab
  | w
  | m
  | f
  | escape
  | other
  deriving DecidableEq, Repr

/-- A stroke of a key; `space` is the space bar, whatever it types. -/
structure Stroke where
  ctrlKey : Bool
  metaKey : Bool
  altKey : Bool
  shiftKey : Bool
  space : Bool
  key : Key
  deriving DecidableEq, Repr

/-- What a stroke asks for. -/
inductive Shortcut where
  | launcher
  | cycle
  | close
  | minimise
  | toggle
  deriving DecidableEq, Repr

/-- The shortcuts, in the order of the listener. -/
def Stroke.shortcut (e : Stroke) : Option Shortcut :=
  if (e.ctrlKey || e.metaKey) && e.space then some .launcher
  else if (e.altKey || e.metaKey) && e.key = .tab then some .cycle
  else if (e.ctrlKey || e.metaKey) && e.key = .w then some .close
  else if (e.ctrlKey || e.metaKey) && e.key = .m then some .minimise
  else if (e.ctrlKey || e.metaKey) && e.shiftKey && e.key = .f then some .toggle
  else if e.key = .escape then some .close
  else none

/-- The parts of a window that the mouse can be pressed on. -/
inductive Part where
  | bar
  | grip
  | other
  deriving DecidableEq, Repr

/-- A call of a function of the shell. -/
inductive Call where
  | openApp (appId : String)
  | closeWindow (id : ℕ)
  | minimise (id : ℕ)
  | toggleMaximise (id : ℕ)
  | cycleFocus
  deriving DecidableEq, Repr

inductive Action where
  | call (call : Call)
  | key (stroke : Stroke)
  | mouseDown (id : ℕ) (part : Part) (x y : ℚ)
  | mouseMove (x y : ℚ)
  | mouseUp
  | viewport (bounds : Rect)
  deriving DecidableEq, Repr

namespace Desktop

def call (apps : Registry) (s : Desktop) : Call → Desktop
  | .openApp appId => s.openApp apps appId
  | .closeWindow id => s.closeWindow id
  | .minimise id => s.minimise id
  | .toggleMaximise id => s.toggleMaximise id
  | .cycleFocus => s.cycleFocus

/-- The call that the listener for strokes of keys makes; the launcher is not part of the
state. -/
def keyCall (s : Desktop) (stroke : Stroke) : Option Call :=
  match stroke.shortcut, s.focused with
  | some .cycle, _ => some .cycleFocus
  | some .close, some id => some (.closeWindow id)
  | some .minimise, some id => some (.minimise id)
  | some .toggle, some id => some (.toggleMaximise id)
  | _, _ => none

/-- The button goes down on a window, which takes one that is shown.  The grip keeps the event
from the listener that focuses. -/
def mouseDown (s : Desktop) (id : ℕ) (part : Part) (x y : ℚ) : Desktop :=
  match s.window id with
  | none => s
  | some win =>
    if win.hidden then s
    else
      match part with
      | .bar => (s.beginDrag id x y).focus id
      | .grip => s.beginResize id x y
      | .other => s.focus id

end Desktop

/-- What happens to the shell. -/
def act (apps : Registry) (s : Desktop) : Action → Desktop
  | .call call => s.call apps call
  | .key stroke => (s.keyCall stroke).elim s (s.call apps)
  | .mouseDown id part x y => s.mouseDown id part x y
  | .mouseMove x y => s.mouseMove x y
  | .mouseUp => s.mouseUp
  | .viewport bounds => s.viewport bounds

def step (apps : Registry) (s : Desktop) (a : Action) : Unit × Desktop := ((), act apps s a)

/-- The shell before its start. -/
def initial (bounds : Rect) : Desktop := ⟨[], 0, none, bounds, []⟩

def boot (apps : Registry) (bounds : Rect) : Desktop := (initial bounds).openApp apps "about"

end JoshOS.Shell
