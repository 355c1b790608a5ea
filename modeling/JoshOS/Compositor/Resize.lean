import JoshOS.Compositor.Model

/-!
Drawing a window out by its edges.

Each motion of the pointer computes the geometry afresh from the one at the start.  On
either axis one end of the window may be dragged, and the other end is its anchor.  The
size has a least value, and the position of a dragged left or upper edge is moved before
the size is held to it.

* `dragAxis`, `resizedGeometry_eq`: a resize is a drag on each of the two axes.
* `resize_keeps_anchor_iff`: a resize moves the dragged edges only, exactly if it does not
  push the left or the upper edge beyond the least size (`resize_pushes_window`).
-/

namespace JoshOS

namespace Compositor

/-! ### One axis -/

/-- The end of an axis that is dragged. -/
inductive Drag where
  | low | high | none
  deriving DecidableEq, Repr

/-- A position and a size after a drag by `d`, with the size held to `least`. -/
def dragAxis (least : ℤ) (drag : Drag) (pos size d : ℤ) : ℤ × ℤ :=
  match drag with
  | .low => (pos + d, max least (size - d))
  | .high => (pos, max least (size + d))
  | .none => (pos, max least size)

/-- The axis has at least the least size, and only the dragged end has moved. -/
structure Anchored (least : ℤ) (drag : Drag) (pos size : ℤ) (next : ℤ × ℤ) : Prop where
  least_le : least ≤ next.2
  low : drag = .low → next.1 + next.2 = pos + size
  high : drag = .high → next.1 = pos
  none : drag = .none → next = (pos, size)

/-- **The drag of an axis keeps its anchor** unless it pushes the low end beyond the least
size. -/
lemma anchored_dragAxis_iff {least size : ℤ} (hsize : least ≤ size) (drag : Drag) (pos d : ℤ) :
    Anchored least drag pos size (dragAxis least drag pos size d) ↔
      (drag = .low → d ≤ size - least) := by
  cases drag with
  | low =>
    constructor
    · intro h _
      have hanchor : pos + d + max least (size - d) = pos + size := h.low rfl
      have hleast : least ≤ max least (size - d) := h.least_le
      omega
    · intro h
      have hd : max least (size - d) = size - d := max_eq_right (by linarith [h rfl])
      refine ⟨le_max_left _ _, fun _ => ?_, nofun, nofun⟩
      simp only [dragAxis, hd]
      ring
  | high => exact iff_of_true ⟨le_max_left _ _, nofun, fun _ => rfl, nofun⟩ nofun
  | none =>
    refine iff_of_true ⟨le_max_left _ _, nofun, nofun, fun _ => ?_⟩ nofun
    rw [dragAxis, max_eq_right hsize]

/-- The end that the bits of the two edges of an axis ask for. -/
def dragOf (low high : UInt32) : Drag :=
  if low ≠ 0 then .low else if high ≠ 0 then .high else .none

lemma dragOf_eq_low_iff {low high : UInt32} : dragOf low high = .low ↔ low ≠ 0 := by
  rw [dragOf]
  split_ifs with hlow hhigh
  · exact iff_of_true rfl hlow
  · exact iff_of_false nofun hlow
  · exact iff_of_false nofun hlow

lemma dragOf_eq_high_iff {low high : UInt32} (hone : ¬ (low ≠ 0 ∧ high ≠ 0)) :
    dragOf low high = .high ↔ high ≠ 0 := by
  rw [dragOf]
  split_ifs with hlow hhigh
  · exact iff_of_false nofun fun hhigh => hone ⟨hlow, hhigh⟩
  · exact iff_of_true rfl hhigh
  · exact iff_of_false nofun hhigh

lemma dragOf_eq_none_iff {low high : UInt32} :
    dragOf low high = .none ↔ low = 0 ∧ high = 0 := by
  rw [dragOf]
  split_ifs with hlow hhigh
  · exact iff_of_false nofun fun h => hlow h.1
  · exact iff_of_false nofun fun h => hhigh h.2
  · exact iff_of_true rfl ⟨not_not.mp hlow, not_not.mp hhigh⟩

/-! ### Both axes -/

lemma holdSize_eq (next : JoshRect) :
    holdSize next = { next with width := max 100 next.width, height := max 80 next.height } := by
  have hmax : ∀ least size : ℤ, max least size = if size < least then least else size := by
    intro least size
    split
    case isTrue h => exact max_eq_left h.le
    case isFalse h => exact max_eq_right (not_lt.mp h)
  rw [hmax, hmax, holdSize]
  split_ifs <;> rfl

/-- **A resize is a drag on each axis.** -/
lemma resizedGeometry_eq (grab : JoshRect) (edges : UInt32) (dx dy : ℤ) :
    let h := dragAxis 100 (dragOf (edges &&& wlrEdgeLeft) (edges &&& wlrEdgeRight))
      grab.x grab.width dx
    let v := dragAxis 80 (dragOf (edges &&& wlrEdgeTop) (edges &&& wlrEdgeBottom))
      grab.y grab.height dy
    resizedGeometry grab edges dx dy = ⟨h.1, v.1, h.2, v.2⟩ := by
  rw [resizedGeometry, holdSize_eq, dragOf, dragOf]
  split_ifs <;> rfl

/-- The geometry has at least the least size, an edge opposite to a dragged one is where it
was, and so is an axis without a dragged edge. -/
structure MovesDragged (edges : UInt32) (grab next : JoshRect) : Prop where
  width : 100 ≤ next.width
  height : 80 ≤ next.height
  left : edges &&& wlrEdgeLeft ≠ 0 → next.x + next.width = grab.x + grab.width
  right : edges &&& wlrEdgeRight ≠ 0 → next.x = grab.x
  top : edges &&& wlrEdgeTop ≠ 0 → next.y + next.height = grab.y + grab.height
  bottom : edges &&& wlrEdgeBottom ≠ 0 → next.y = grab.y
  horizontal : edges &&& wlrEdgeLeft = 0 ∧ edges &&& wlrEdgeRight = 0 →
    (next.x, next.width) = (grab.x, grab.width)
  vertical : edges &&& wlrEdgeTop = 0 ∧ edges &&& wlrEdgeBottom = 0 →
    (next.y, next.height) = (grab.y, grab.height)

/-- The edges of a window move as they are dragged if the ends of both axes do. -/
lemma movesDragged_iff_anchored {edges : UInt32}
    (hhor : ¬ (edges &&& wlrEdgeLeft ≠ 0 ∧ edges &&& wlrEdgeRight ≠ 0))
    (hver : ¬ (edges &&& wlrEdgeTop ≠ 0 ∧ edges &&& wlrEdgeBottom ≠ 0)) (grab next : JoshRect) :
    MovesDragged edges grab next ↔
      Anchored 100 (dragOf (edges &&& wlrEdgeLeft) (edges &&& wlrEdgeRight)) grab.x grab.width
        (next.x, next.width) ∧
      Anchored 80 (dragOf (edges &&& wlrEdgeTop) (edges &&& wlrEdgeBottom)) grab.y grab.height
        (next.y, next.height) := by
  constructor
  · intro h
    refine ⟨⟨h.width, ?_, ?_, ?_⟩, ⟨h.height, ?_, ?_, ?_⟩⟩
    · exact fun hd => h.left (dragOf_eq_low_iff.mp hd)
    · exact fun hd => h.right ((dragOf_eq_high_iff hhor).mp hd)
    · exact fun hd => h.horizontal (dragOf_eq_none_iff.mp hd)
    · exact fun hd => h.top (dragOf_eq_low_iff.mp hd)
    · exact fun hd => h.bottom ((dragOf_eq_high_iff hver).mp hd)
    · exact fun hd => h.vertical (dragOf_eq_none_iff.mp hd)
  · rintro ⟨h, v⟩
    refine ⟨h.least_le, v.least_le, ?_, ?_, ?_, ?_, ?_, ?_⟩
    · exact fun hd => h.low (dragOf_eq_low_iff.mpr hd)
    · exact fun hd => h.high ((dragOf_eq_high_iff hhor).mpr hd)
    · exact fun hd => v.low (dragOf_eq_low_iff.mpr hd)
    · exact fun hd => v.high ((dragOf_eq_high_iff hver).mpr hd)
    · exact fun hd => h.none (dragOf_eq_none_iff.mpr hd)
    · exact fun hd => v.none (dragOf_eq_none_iff.mpr hd)

/-- **When a resize moves the dragged edges only.**  For every geometry of at least the
least size, every mask with at most one edge of each axis and every displacement of the
pointer: exactly if a dragged left edge goes no further than where the width is 100, and a
dragged upper edge no further than where the height is 80. -/
theorem resize_keeps_anchor_iff (grab : JoshRect) (edges : UInt32) (dx dy : ℤ)
    (hwidth : 100 ≤ grab.width) (hheight : 80 ≤ grab.height)
    (hhor : ¬ (edges &&& wlrEdgeLeft ≠ 0 ∧ edges &&& wlrEdgeRight ≠ 0))
    (hver : ¬ (edges &&& wlrEdgeTop ≠ 0 ∧ edges &&& wlrEdgeBottom ≠ 0)) :
    MovesDragged edges grab (resizedGeometry grab edges dx dy) ↔
      (edges &&& wlrEdgeLeft ≠ 0 → dx ≤ grab.width - 100) ∧
      (edges &&& wlrEdgeTop ≠ 0 → dy ≤ grab.height - 80) := by
  rw [movesDragged_iff_anchored hhor hver, resizedGeometry_eq, anchored_dragAxis_iff hwidth,
    anchored_dragAxis_iff hheight, dragOf_eq_low_iff, dragOf_eq_low_iff]

/-- A window drawn out by its lower right corner. -/
theorem resize_keeps_anchor_iff_corner :
    MovesDragged 10 ⟨48, 48, 900, 650⟩ (resizedGeometry ⟨48, 48, 900, 650⟩ 10 60 40) :=
  (resize_keeps_anchor_iff ⟨48, 48, 900, 650⟩ 10 60 40 (by decide) (by decide) (by decide)
    (by decide)).mpr ⟨by decide, by decide⟩

/-- The left edge of a window of width 300, dragged to the right by 250: the window has its
least width, and its right edge has moved from 400 to 450. -/
theorem resize_pushes_window :
    let grab : JoshRect := ⟨100, 100, 300, 200⟩
    let next := resizedGeometry grab wlrEdgeLeft 250 0
    next = ⟨350, 100, 100, 200⟩ ∧ grab.x + grab.width = 400 ∧ next.x + next.width = 450 ∧
      ¬ MovesDragged wlrEdgeLeft grab next := by
  refine ⟨by decide, by decide, by decide, fun h => ?_⟩
  exact absurd (h.left (by decide)) (by decide)

end Compositor

end JoshOS
