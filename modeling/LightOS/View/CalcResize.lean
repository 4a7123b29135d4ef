import LightOS.View.ViewLockBasic

/-!
# Resizing with the mouse

`view_calc_resize` of `drivers/view/core/env.c` and `view_set_size_min` of
`drivers/view/core/view.c`.  The mouse drags one or two edges of the view, and the smallest size is
applied to the result.

`view_set_size_min` stores the smallest width as the smallest height too, and `view_calc_resize`
applies it to the width and height alone, so a dragged left or top edge stays where the mouse is
and the edge across from it moves.

* `viewCalcResize_eq` — the four states, by the edges that are dragged.
* `resize_keeps_iff` — when the other edges stay, and the sizes are those that were set.
-/

namespace LightOS
namespace View

open ViewLock

/-- `VIEW_RESIZE_SIZE_MIN`. -/
abbrev viewResizeSizeMin : ℤ := 16

/-- The geometry of a `view_t`. -/
structure Geometry where
  x : ℤ
  y : ℤ
  width : ℤ
  height : ℤ
  widthMin : ℤ
  heightMin : ℤ
  deriving DecidableEq

/-- What `view_calc_resize` reads of `view_mouse`. -/
structure Mouse where
  clickX : ℤ
  clickY : ℤ
  state : MouseState

/-- `view_rect_t`, with the signed sizes. -/
structure SignedRect where
  x : ℤ
  y : ℤ
  w : ℤ
  h : ℤ
  deriving DecidableEq

/-- `view_max_size_repair` of one size. -/
def maxSizeRepair (bound size : ℤ) : ℤ := if bound < size then bound else size

/-- `view_set_size_min`. -/
def viewSetSizeMin (view : Geometry) (width height : ℤ) : Geometry :=
  let width := maxSizeRepair viewMaxSizeWidth width
  let _height := maxSizeRepair viewMaxSizeHeight height
  { view with
    widthMin := if width < viewResizeSizeMin then viewResizeSizeMin else width
    heightMin := if width < viewResizeSizeMin then viewResizeSizeMin else width }

/-- The `switch` of `view_calc_resize`. -/
def dragRect (view : Geometry) (mouse : Mouse) (sx sy : ℤ) : Option SignedRect :=
  let cx := view.width.tdiv 2 + view.x
  let cy := view.height.tdiv 2 + view.y
  match mouse.state with
  | .vresize =>
      if mouse.clickY < cy then some ⟨view.x, view.y + sy, view.width, view.height + -sy⟩
      else some ⟨view.x, view.y, view.width, view.height + sy⟩
  | .hresize =>
      if mouse.clickX < cx then some ⟨view.x + sx, view.y, view.width + -sx, view.height⟩
      else some ⟨view.x, view.y, view.width + sx, view.height⟩
  | .dresize1 =>
      if mouse.clickX < cx then some ⟨view.x + sx, view.y, view.width + -sx, view.height + sy⟩
      else some ⟨view.x, view.y + sy, view.width + sx, view.height + -sy⟩
  | .dresize2 =>
      if mouse.clickX < cx then some ⟨view.x + sx, view.y + sy, view.width + -sx, view.height + -sy⟩
      else some ⟨view.x, view.y, view.width + sx, view.height + sy⟩
  | _ => none

/-- `view_calc_resize`; `none` is −1. -/
def viewCalcResize (view : Geometry) (mouse : Mouse) (mx my : ℤ) : Option SignedRect :=
  let sx := mx - mouse.clickX
  let sy := my - mouse.clickY
  if sx = 0 ∧ sy = 0 then none
  else
    match dragRect view mouse sx sy with
    | none => none
    | some rect =>
        if rect.w ≤ 0 ∨ rect.h ≤ 0 then none
        else
          let rect := if rect.w < view.widthMin then { rect with w := view.widthMin } else rect
          some (if rect.h < view.heightMin then { rect with h := view.heightMin } else rect)

/-! ## Edges -/

/-- The edges that the mouse moves. -/
structure Dragged where
  left : Bool
  right : Bool
  top : Bool
  bottom : Bool

/-- Which edges they are says the half of the view in which the button was pressed. -/
def dragged (view : Geometry) (mouse : Mouse) : Option Dragged :=
  let west := decide (mouse.clickX < view.width.tdiv 2 + view.x)
  let north := decide (mouse.clickY < view.height.tdiv 2 + view.y)
  match mouse.state with
  | .vresize => some ⟨false, false, north, !north⟩
  | .hresize => some ⟨west, !west, false, false⟩
  | .dresize1 => some ⟨west, !west, !west, west⟩
  | .dresize2 => some ⟨west, !west, west, !west⟩
  | _ => none

/-- A size after one of its two edges has been moved by `s`. -/
def draggedSize (low high : Bool) (size s : ℤ) : ℤ :=
  if low then size - s else if high then size + s else size

/-- The rectangle is large enough, and the edges that are not dragged are where they were. -/
structure KeepsEdges (view : Geometry) (d : Dragged) (w h : ℤ) (rect : SignedRect) : Prop where
  width_ge : max (min w viewMaxSizeWidth) viewResizeSizeMin ≤ rect.w
  height_ge : max (min h viewMaxSizeHeight) viewResizeSizeMin ≤ rect.h
  left : d.left = false → rect.x = view.x
  right : d.right = false → rect.x + rect.w = view.x + view.width
  top : d.top = false → rect.y = view.y
  bottom : d.bottom = false → rect.y + rect.h = view.y + view.height

/-- What resizing promises: whatever rectangle is returned. -/
def ResizeKeeps (view : Geometry) (w h : ℤ) (mouse : Mouse) (mx my : ℤ) : Prop :=
  ∀ rect, viewCalcResize (viewSetSizeMin view w h) mouse mx my = some rect →
    ∃ d, dragged view mouse = some d ∧ KeepsEdges view d w h rect

/-- The smallest size that is stored, for the width and for the height. -/
def storedMin (w : ℤ) : ℤ := max (min w viewMaxSizeWidth) viewResizeSizeMin

/-- An edge stays if the one across from it is not moved so far that the smallest size is applied.
-/
def FarEnough (high : Bool) (size sizeMin : ℤ) : Prop := high = true ∨ sizeMin ≤ size

/-- No edge is pushed, and the height is not the smallest width. -/
structure Roomy (d : Dragged) (w h width height : ℤ) : Prop where
  horizontal : FarEnough d.right width (storedMin w)
  vertical : FarEnough d.bottom height (storedMin w)
  height : max (min h viewMaxSizeHeight) viewResizeSizeMin ≤ max height (storedMin w)

variable {view : Geometry} {mouse : Mouse} {d : Dragged} {mx my w h : ℤ}

theorem viewSetSizeMin_eq (view : Geometry) (w h : ℤ) :
    viewSetSizeMin view w h = { view with widthMin := storedMin w, heightMin := storedMin w } := by
  have hmin : (if maxSizeRepair viewMaxSizeWidth w < viewResizeSizeMin then viewResizeSizeMin
      else maxSizeRepair viewMaxSizeWidth w) = storedMin w := by
    simp only [maxSizeRepair, storedMin]
    split_ifs <;> omega
  rw [viewSetSizeMin, hmin]

/-- No edge but one of each direction is dragged. -/
theorem dragged_opposite (hd : dragged view mouse = some d) :
    (d.left = true → d.right = false) ∧ (d.top = true → d.bottom = false) := by
  unfold dragged at hd
  split at hd <;> cases hd <;> simp

/-- **The four states**, by the edges that are dragged. -/
theorem dragRect_eq (view : Geometry) (mouse : Mouse) (sx sy : ℤ) :
    dragRect view mouse sx sy = (dragged view mouse).map fun d =>
      ⟨if d.left then view.x + sx else view.x, if d.top then view.y + sy else view.y,
        draggedSize d.left d.right view.width sx, draggedSize d.top d.bottom view.height sy⟩ := by
  unfold dragRect dragged
  by_cases hx : mouse.clickX < view.width.tdiv 2 + view.x <;>
    by_cases hy : mouse.clickY < view.height.tdiv 2 + view.y <;> cases mouse.state <;>
    simp [draggedSize, hx, hy, sub_eq_add_neg]

/-- What is returned: the edges that were dragged have moved, and the sizes are not too small. -/
theorem viewCalcResize_eq (hd : dragged view mouse = some d)
    (hmoved : mx ≠ mouse.clickX ∨ my ≠ mouse.clickY)
    (hw : 0 < draggedSize d.left d.right view.width (mx - mouse.clickX))
    (hh : 0 < draggedSize d.top d.bottom view.height (my - mouse.clickY)) :
    viewCalcResize view mouse mx my = some
      ⟨if d.left then view.x + (mx - mouse.clickX) else view.x, if d.top then
        view.y + (my - mouse.clickY) else view.y,
        max (draggedSize d.left d.right view.width (mx - mouse.clickX)) view.widthMin,
        max (draggedSize d.top d.bottom view.height (my - mouse.clickY)) view.heightMin⟩ := by
  have hsame : ¬ (mx - mouse.clickX = 0 ∧ my - mouse.clickY = 0) := by omega
  simp only [viewCalcResize, if_neg hsame, dragRect_eq, hd, Option.map_some]
  rw [if_neg (by omega)]
  generalize draggedSize d.left d.right view.width (mx - mouse.clickX) = width
  generalize draggedSize d.top d.bottom view.height (my - mouse.clickY) = height
  have hlarger : ∀ size least : ℤ, max size least = if size < least then least else size := by
    intro size least
    split_ifs <;> omega
  rw [hlarger width, hlarger height]
  by_cases hwidth : width < view.widthMin <;> simp only [hwidth, if_true, if_false] <;>
    split_ifs <;> rfl

/-- A rectangle is returned only then. -/
theorem viewCalcResize_some {rect : SignedRect} (h : viewCalcResize view mouse mx my = some rect) :
    ∃ d, dragged view mouse = some d ∧ (mx ≠ mouse.clickX ∨ my ≠ mouse.clickY) ∧
      0 < draggedSize d.left d.right view.width (mx - mouse.clickX) ∧
      0 < draggedSize d.top d.bottom view.height (my - mouse.clickY) := by
  by_cases hsame : mx - mouse.clickX = 0 ∧ my - mouse.clickY = 0
  · simp only [viewCalcResize, if_pos hsame] at h
    cases h
  cases hd : dragged view mouse with
  | none =>
      simp only [viewCalcResize, if_neg hsame, dragRect_eq, hd, Option.map_none] at h
      cases h
  | some d =>
      simp only [viewCalcResize, if_neg hsame, dragRect_eq, hd, Option.map_some] at h
      by_cases hbad : draggedSize d.left d.right view.width (mx - mouse.clickX) ≤ 0 ∨
          draggedSize d.top d.bottom view.height (my - mouse.clickY) ≤ 0
      · rw [if_pos hbad] at h
        cases h
      · exact ⟨d, rfl, by omega, by omega, by omega⟩

/-! ## What stays -/

/-- A size whose edges have moved by `s` reaches from one edge to the other if it is not enlarged.
-/
theorem high_edge_iff {low high : Bool} (hopp : low = true → high = false)
    (at_ size s sizeMin : ℤ) :
    (high = false → (if low then at_ + s else at_) + max (draggedSize low high size s) sizeMin =
      at_ + size) ↔
      FarEnough high (draggedSize low high size s) sizeMin := by
  unfold FarEnough draggedSize
  cases low <;> cases high <;> simp at hopp ⊢
  omega

/-- **When the other edges stay.** -/
theorem resize_keeps_iff (view : Geometry) (w h : ℤ) (mouse : Mouse) (mx my : ℤ) :
    ResizeKeeps view w h mouse mx my ↔
      ∀ d, dragged view mouse = some d → mx ≠ mouse.clickX ∨ my ≠ mouse.clickY →
        0 < draggedSize d.left d.right view.width (mx - mouse.clickX) →
        0 < draggedSize d.top d.bottom view.height (my - mouse.clickY) →
        Roomy d w h (draggedSize d.left d.right view.width (mx - mouse.clickX))
          (draggedSize d.top d.bottom view.height (my - mouse.clickY)) := by
  have hstored := viewSetSizeMin_eq view w h
  have hdragged : dragged (viewSetSizeMin view w h) mouse = dragged view mouse := by
    rw [hstored]
    rfl
  constructor
  · intro hkeeps d hd hmoved hw hh
    have hrun : viewCalcResize (viewSetSizeMin view w h) mouse mx my = _ :=
      viewCalcResize_eq (hdragged.trans hd) hmoved (by rwa [hstored]) (by rwa [hstored])
    obtain ⟨d', hd', hedges⟩ := hkeeps _ hrun
    obtain rfl : d' = d := Option.some.inj (hd'.symm.trans hd)
    obtain ⟨hleft, htop⟩ := dragged_opposite hd
    simp only [hstored] at hedges
    exact ⟨(high_edge_iff hleft _ _ _ _).1 hedges.right,
      (high_edge_iff htop _ _ _ _).1 hedges.bottom, hedges.height_ge⟩
  · intro hroomy rect hrun
    obtain ⟨d, hd, hmoved, hw, hh⟩ := viewCalcResize_some hrun
    rw [viewCalcResize_eq hd hmoved hw hh, Option.some.injEq] at hrun
    rw [hdragged] at hd
    rw [hstored] at hw hh hrun
    obtain ⟨hhorizontal, hvertical, hheight⟩ := hroomy d hd hmoved hw hh
    obtain ⟨hleft, htop⟩ := dragged_opposite hd
    subst hrun
    refine ⟨d, hd, le_max_right _ _, hheight, fun hl => ?_,
      (high_edge_iff hleft _ _ _ _).2 hhorizontal,
      fun ht => ?_, (high_edge_iff htop _ _ _ _).2 hvertical⟩
    · simp [hl]
    · simp [ht]

/-- The left edge is dragged to the right over a width of 100 with the smallest width 80: the right
edge moves from 150 to 170.  With the smallest size 16 × 64 a height of 100 can be made 20. -/
theorem resize_pushes :
    viewCalcResize (viewSetSizeMin ⟨50, 50, 100, 100, 16, 16⟩ 80 80) ⟨52, 100, .hresize⟩ 92 100 =
        some ⟨90, 50, 80, 100⟩ ∧
      ¬ ResizeKeeps ⟨50, 50, 100, 100, 16, 16⟩ 80 80 ⟨52, 100, .hresize⟩ 92 100 ∧
      viewCalcResize (viewSetSizeMin ⟨50, 50, 100, 100, 16, 16⟩ 16 64) ⟨100, 148, .vresize⟩ 100 68 =
        some ⟨50, 50, 100, 20⟩ ∧
      ¬ ResizeKeeps ⟨50, 50, 100, 100, 16, 16⟩ 16 64 ⟨100, 148, .vresize⟩ 100 68 := by
  have hwide : viewCalcResize (viewSetSizeMin ⟨50, 50, 100, 100, 16, 16⟩ 80 80)
    ⟨52, 100, .hresize⟩ 92 100 =
      some ⟨90, 50, 80, 100⟩ := by decide
  have hhigh : viewCalcResize (viewSetSizeMin ⟨50, 50, 100, 100, 16, 16⟩ 16 64)
    ⟨100, 148, .vresize⟩ 100 68 =
      some ⟨50, 50, 100, 20⟩ := by decide
  refine ⟨hwide, fun hkeeps => ?_, hhigh, fun hkeeps => ?_⟩
  · obtain ⟨d, hd, hedges⟩ := hkeeps _ hwide
    cases hd
    exact absurd (hedges.right rfl) (by decide)
  · obtain ⟨d, hd, hedges⟩ := hkeeps _ hhigh
    exact absurd hedges.height_ge (by decide)

end View
end LightOS
