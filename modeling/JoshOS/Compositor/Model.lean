import JoshOS.Lib.Runs
import JoshOS.Lib.Words

/-!
The windows of the compositor: `window_model.c`, and the handlers of
`josh_compositor.c` that change the geometry of a view.

Lengths and positions are `int`s, here integers: a desktop that an output can have
stays far from the ends of the type.  The pointer position is a `double`, here a
rational, and differences are rounded to one.  What the handlers send to the client
(`wlr_xdg_toplevel_set_maximized` and its like) follows from the state and is left out.

* `joshWindowToggleMaximise`, `joshWindowApplySnap`: the two operations of the window
  model that save or restore a geometry.
* `WindowOp`, `step`: these, and the placing of a window by its user, as a machine.
* `handleRequestMaximize`, `handleRequestFullscreen`: the requests of a client, with
  `Request` and `stepView` for runs of them.
* `beginInteractive`, `moveTo`, `endInteractive`: a window moved by the pointer.
* `resizedGeometry`: a window drawn out by its edges.
-/

namespace JoshOS

open Words

/-! ### The window model -/

/-- `struct josh_rect`, and `struct wlr_box`, which has the same fields. -/
structure JoshRect where
  x : ℤ
  y : ℤ
  width : ℤ
  height : ℤ
  deriving DecidableEq, Repr

/-- `enum josh_snap_zone`. -/
inductive JoshSnapZone where
  | none | maximise | left | right
  deriving DecidableEq, Repr

/-- `struct josh_window_state`. -/
structure JoshWindowState where
  geometry : JoshRect
  previousGeometry : JoshRect
  hasPreviousGeometry : Bool
  maximised : Bool
  minimised : Bool
  deriving DecidableEq, Repr

namespace Compositor

/-- `normalised_desktop`. -/
def normalisedDesktop (desktop : JoshRect) : JoshRect :=
  let out := desktop
  let out := if out.width < 1 then { out with width := 1 } else out
  if out.height < 1 then { out with height := 1 } else out

/-- `josh_snap_zone_for`. -/
def joshSnapZoneFor (desktop : JoshRect) (pointerX pointerY : ℚ) (edgeThreshold : ℤ) :
    JoshSnapZone :=
  let b := normalisedDesktop desktop
  let edgeThreshold := if edgeThreshold < 0 then 0 else edgeThreshold
  if pointerY ≤ ((b.y + edgeThreshold : ℤ) : ℚ) then .maximise
  else if pointerX ≤ ((b.x + edgeThreshold : ℤ) : ℚ) then .left
  else if ((b.x + b.width - edgeThreshold : ℤ) : ℚ) ≤ pointerX then .right
  else .none

/-- `josh_snap_geometry`. -/
def joshSnapGeometry (desktop : JoshRect) (zone : JoshSnapZone) : JoshRect :=
  let b := normalisedDesktop desktop
  match zone with
  | .left =>
    let width := b.width.tdiv 2
    { b with width := if width < 1 then 1 else width }
  | .right =>
    let leftWidth := b.width.tdiv 2
    let width := b.width - leftWidth
    { b with x := b.x + leftWidth, width := if width < 1 then 1 else width }
  | .maximise => b
  | .none => { b with width := 0, height := 0 }

/-- `josh_window_toggle_maximise`. -/
def joshWindowToggleMaximise (window : JoshWindowState) (desktop : JoshRect) : JoshWindowState :=
  if window.maximised then
    { window with
      geometry := if window.hasPreviousGeometry then window.previousGeometry else window.geometry
      maximised := false
      minimised := false }
  else
    { geometry := joshSnapGeometry desktop .maximise
      previousGeometry := window.geometry
      hasPreviousGeometry := true
      maximised := true
      minimised := false }

/-- `josh_window_apply_snap`. -/
def joshWindowApplySnap (window : JoshWindowState) (desktop : JoshRect) (zone : JoshSnapZone) :
    JoshWindowState :=
  if zone = .none then window
  else
    let window :=
      if window.hasPreviousGeometry = false ∨ window.maximised then
        { window with previousGeometry := window.geometry, hasPreviousGeometry := true }
      else window
    { window with
      geometry := joshSnapGeometry desktop zone
      maximised := zone = .maximise
      minimised := false }

/-- A window as `handle_new_toplevel` makes it: cleared but for its geometry. -/
def freshWindow (geometry : JoshRect) : JoshWindowState where
  geometry := geometry
  previousGeometry := ⟨0, 0, 0, 0⟩
  hasPreviousGeometry := false
  maximised := false
  minimised := false

/-- What may happen to a window; its user moves and resizes it by `place`. -/
inductive WindowOp where
  | toggleMaximise (desktop : JoshRect)
  | applySnap (desktop : JoshRect) (zone : JoshSnapZone)
  | place (geometry : JoshRect)
  deriving DecidableEq, Repr

/-- One operation on a window.  A maximised window is not placed. -/
def step (window : JoshWindowState) : WindowOp → Unit × JoshWindowState
  | .toggleMaximise desktop => ((), joshWindowToggleMaximise window desktop)
  | .applySnap desktop zone => ((), joshWindowApplySnap window desktop zone)
  | .place geometry =>
    ((), if window.maximised then window else { window with geometry := geometry })

/-! ### The requests of a client -/

/-- `server_desktop_bounds`, from the box of the output layout. -/
def serverDesktopBounds (box : JoshRect) : JoshRect :=
  if box.width < 1 ∨ box.height < 1 then ⟨0, 0, 1280, 720⟩ else box

/-- The fields of `struct josh_view` that its geometry depends on. -/
structure JoshView where
  state : JoshWindowState
  fullscreen : Bool
  deriving DecidableEq, Repr

/-- `handle_request_maximize`. -/
def handleRequestMaximize (box : JoshRect) (view : JoshView) (requested : Bool) : JoshView :=
  if requested ≠ view.state.maximised then
    { view with state := joshWindowToggleMaximise view.state (serverDesktopBounds box) }
  else view

/-- `handle_request_fullscreen`. -/
def handleRequestFullscreen (box : JoshRect) (view : JoshView) (requested : Bool) : JoshView :=
  if requested && !view.fullscreen then
    { state := { view.state with
        previousGeometry := view.state.geometry
        hasPreviousGeometry := true
        geometry := serverDesktopBounds box }
      fullscreen := true }
  else if !requested && view.fullscreen then
    { state := { view.state with
        geometry :=
          if view.state.hasPreviousGeometry then view.state.previousGeometry
          else view.state.geometry }
      fullscreen := false }
  else view

/-- A request of the client, with the value it asks for. -/
inductive Request where
  | maximize (requested : Bool)
  | fullscreen (requested : Bool)
  deriving DecidableEq, Repr

/-- One request on a fixed output layout. -/
def stepView (box : JoshRect) (view : JoshView) : Request → Unit × JoshView
  | .maximize requested => ((), handleRequestMaximize box view requested)
  | .fullscreen requested => ((), handleRequestFullscreen box view requested)

/-! ### A move -/

/-- The conversion of a `double` to an `int`, towards zero. -/
def truncate (q : ℚ) : ℤ := q.num.tdiv q.den

/-- `begin_interactive` for a move, with the position of the cursor: a maximised window is
taken out of that state, and the distance of the cursor from the window is kept. -/
def beginInteractive (box : JoshRect) (window : JoshWindowState) (cursor : ℚ × ℚ) :
    JoshWindowState × ℚ × ℚ :=
  let window :=
    if window.maximised then joshWindowToggleMaximise window (serverDesktopBounds box) else window
  (window, toDouble (cursor.1 - window.geometry.x), toDouble (cursor.2 - window.geometry.y))

/-- The branch `JOSH_CURSOR_MOVE` of `process_cursor_motion`. -/
def moveTo (grab : ℚ × ℚ) (window : JoshWindowState) (cursor : ℚ × ℚ) : JoshWindowState :=
  { window with
    geometry := { window.geometry with
      x := truncate (toDouble (cursor.1 - grab.1))
      y := truncate (toDouble (cursor.2 - grab.2)) } }

/-- `end_interactive` for a move: a window dropped at an edge snaps. -/
def endInteractive (box : JoshRect) (window : JoshWindowState) (cursor : ℚ × ℚ) :
    JoshWindowState :=
  let desktop := serverDesktopBounds box
  let zone := joshSnapZoneFor desktop cursor.1 cursor.2 24
  if zone ≠ .none then joshWindowApplySnap window desktop zone else window

/-- A move from the press of the button to its release, with the position of the cursor at the
press and after each motion. -/
def drag (box : JoshRect) (window : JoshWindowState) (press : ℚ × ℚ) (motions : List (ℚ × ℚ)) :
    JoshWindowState :=
  let (window, grab) := beginInteractive box window press
  endInteractive box (motions.foldl (moveTo grab) window) (motions.getLastD press)

/-! ### A resize -/

/-- The bits of `enum wlr_edges`. -/
def wlrEdgeTop : UInt32 := 1

def wlrEdgeBottom : UInt32 := 2

def wlrEdgeLeft : UInt32 := 4

def wlrEdgeRight : UInt32 := 8

/-- The least size, to which `process_cursor_motion` holds a window. -/
def holdSize (next : JoshRect) : JoshRect :=
  let next := if next.width < 100 then { next with width := 100 } else next
  if next.height < 80 then { next with height := 80 } else next

/-- The geometry that the branch `JOSH_CURSOR_RESIZE` of `process_cursor_motion` computes
from a displacement of the pointer. -/
def resizedGeometry (grabGeometry : JoshRect) (resizeEdges : UInt32) (dx dy : ℤ) : JoshRect :=
  let next := grabGeometry
  let next :=
    if resizeEdges &&& wlrEdgeLeft ≠ 0 then
      { next with x := next.x + dx, width := next.width - dx }
    else if resizeEdges &&& wlrEdgeRight ≠ 0 then { next with width := next.width + dx }
    else next
  let next :=
    if resizeEdges &&& wlrEdgeTop ≠ 0 then
      { next with y := next.y + dy, height := next.height - dy }
    else if resizeEdges &&& wlrEdgeBottom ≠ 0 then { next with height := next.height + dy }
    else next
  holdSize next

end Compositor

end JoshOS
