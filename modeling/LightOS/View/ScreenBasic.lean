import LightOS.View.ZOrderBasic
import Mathlib.Data.Int.Range

/-!
# What the views draw: the model

`view_refresh_map`, `view_refresh_block32` and `view_refresh_by_z` of
`drivers/view/core/refresh.c`, and `view_set_z` and `view_set_xy` with what they draw, at 32 bits
per pixel and without `CONFIG_VIEW_ALPAH`.

`view_id_map` and the memory of the screen are addressed by one index, as in the source: the row
times the width of the screen, and the column.  An entry of the map has 16 bits.
-/

namespace LightOS
namespace View

open ZOrder

/-- What does not change: the size of the screen, the sizes of the views and their pixels. -/
structure Screen (V : Type) where
  width : ℤ
  height : ℤ
  viewWidth : V → ℤ
  viewHeight : V → ℤ
  /-- `section->addr` -/
  addr : V → ℤ → BitVec 32

/-- The show list, where the views are, the map, and what is on the screen. -/
structure Display (V : Type) where
  stack : ZStack V
  x : V → ℤ
  y : V → ℤ
  idMap : ℤ → BitVec 16
  vram : ℤ → BitVec 32

/-- The bounds of a loop over rows and columns. -/
structure Block where
  left : ℤ
  top : ℤ
  right : ℤ
  bottom : ℤ

/-- The rows and columns of a block, row by row. -/
def Block.cells (b : Block) : List (ℤ × ℤ) := Int.range b.top b.bottom ×ˢ Int.range b.left b.right

section Refresh

variable {V : Type} [DecidableEq V] (g : Screen V) (s : Display V)

/-- The part of a rectangle that is on the screen. -/
def clipScreen (r : Block) : Block :=
  ⟨max r.left 0, max r.top 0, min r.right g.width, min r.bottom g.height⟩

/-- The part of a rectangle that is in a view, in its coordinates. -/
def viewBlock (r : Block) (v : V) : Block :=
  ⟨max (r.left - s.x v) 0, max (r.top - s.y v) 0, min (r.right - s.x v) (g.viewWidth v),
    min (r.bottom - s.y v) (g.viewHeight v)⟩

/-- The index of a pixel of a view, on the screen and in the map. -/
def screenIndex (v : V) (cell : ℤ × ℤ) : ℤ := (s.y v + cell.1) * g.width + s.x v + cell.2

/-- A pixel of a view. -/
def src (v : V) (cell : ℤ × ℤ) : BitVec 32 := g.addr v (cell.1 * g.viewWidth v + cell.2)

/-- The adjustments of `view_refresh_map` before its loop; `none` is a `continue`. -/
def mapBlock (v : V) (b : Block) : Option Block :=
  if g.height ≤ s.y v + b.top ∨ g.width ≤ s.x v + b.left then none
  else
    some
      { left := if s.x v + b.left < 0 then b.left + -(s.x v + b.left) else b.left
        top := if s.y v + b.top < 0 then b.top + -(s.y v + b.top) else b.top
        right := if s.x v + b.right < 0 then b.right - (s.x v + b.right - g.width) else b.right
        bottom := if g.height ≤ s.y v + b.bottom then b.bottom - (s.y v + b.bottom - g.height)
          else b.bottom }

/-- The loop of `view_refresh_map` over the pixels of one view. -/
def mapView (v : V) (b : Block) (idMap : ℤ → BitVec 16) : ℤ → BitVec 16 :=
  b.cells.foldl (fun idMap cell =>
    if (src g v cell >>> 24) &&& 0xff ≠ 0 then
      Function.update idMap (screenIndex g s v cell) (BitVec.ofInt 16 (s.stack.z v))
    else idMap) idMap

/-- `view_refresh_map`. -/
def viewRefreshMap (r : Block) (z0 : ℤ) : Display V :=
  { s with
    idMap := s.stack.list.foldl (fun idMap v =>
      if z0 ≤ s.stack.z v then
        match mapBlock g s v (viewBlock g s (clipScreen g r) v) with
        | none => idMap
        | some b => mapView g s v b idMap
      else idMap) s.idMap }

/-- `view_refresh_block32`. -/
def viewRefreshBlock32 (v : V) (b : Block) (vram : ℤ → BitVec 32) : ℤ → BitVec 32 :=
  b.cells.foldl (fun vram cell =>
    if ((s.idMap (screenIndex g s v cell)).toNat : ℤ) = s.stack.z v then
      Function.update vram (screenIndex g s v cell) (src g v cell)
    else vram) vram

/-- `view_refresh_by_z`. -/
def viewRefreshByZ (r : Block) (z0 z1 : ℤ) : Display V :=
  { s with
    vram := s.stack.list.foldl (fun vram v =>
      if z0 ≤ s.stack.z v ∧ s.stack.z v ≤ z1 then
        viewRefreshBlock32 g s v (viewBlock g s (clipScreen g r) v) vram
      else vram) s.vram }

/-- `view_refresh_map` from `z0` on, then `view_refresh_by_z` from `z0` to `z1`, with one
rectangle. -/
def viewRefresh (r : Block) (z0 z1 : ℤ) : Display V :=
  viewRefreshByZ g (viewRefreshMap g s r z0) r z0 z1

/-- The rectangle of a view. -/
def viewRect (v : V) : Block := ⟨s.x v, s.y v, s.x v + g.viewWidth v, s.y v + g.viewHeight v⟩

/-! ## The calls -/

/-- `view_set_z`. -/
def displaySetZ (v : V) (z : ℤ) : Option (Display V) :=
  (setZ s.stack v z).map fun t =>
    match t.2 with
    | none => { s with stack := t.1 }
    | some f => viewRefresh g { s with stack := t.1 } (viewRect g s v) f.z0 f.z1

/-- The rectangle that `view_set_xy` draws: from where the view was to where it is. -/
def moveRect (v : V) (x y : ℤ) : Block :=
  ⟨min (s.x v) x, min (s.y v) y, max (s.x v + g.viewWidth v) (x + g.viewWidth v),
    max (s.y v + g.viewHeight v) (y + g.viewHeight v)⟩

/-- `view_set_xy`. -/
def viewSetXy (v : V) (x y : ℤ) : Display V :=
  let s' := { s with x := Function.update s.x v x, y := Function.update s.y v y }
  if 0 ≤ s.stack.z v then viewRefresh g s' (moveRect g s v x y) 0 (s.stack.z v) else s'

/-- A call. -/
inductive DisplayCall (V : Type) where
  | setZ (v : V) (z : ℤ)
  | setXy (v : V) (x y : ℤ)

/-- One call. -/
def displayStep (s : Display V) : DisplayCall V → Option (Display V)
  | .setZ v z => displaySetZ g s v z
  | .setXy v x y => some (viewSetXy g s v x y)

end Refresh

/-! ## What is to be seen -/

section Seen

variable {V : Type} (g : Screen V) (s : Display V)

/-- A pixel of the screen. -/
def OnScreen (sx sy : ℤ) : Prop := (0 ≤ sx ∧ sx < g.width) ∧ 0 ≤ sy ∧ sy < g.height

/-- A view covers a pixel. -/
def Covers (sx sy : ℤ) (v : V) : Prop :=
  (s.x v ≤ sx ∧ sx < s.x v + g.viewWidth v) ∧ s.y v ≤ sy ∧ sy < s.y v + g.viewHeight v

/-- The colour of a view at a pixel of the screen. -/
def colour (sx sy : ℤ) (v : V) : BitVec 32 := src g v (sy - s.y v, sx - s.x v)

/-- A view that is shown covers a pixel, and no other one that does has a greater number. -/
def Topmost (sx sy : ℤ) (v : V) : Prop :=
  v ∈ s.stack.list ∧ Covers g s sx sy v ∧ ∀ w ∈ s.stack.list, Covers g s sx sy w →
    s.stack.z w ≤ s.stack.z v

/-- All pixels of the views are opaque. -/
def Solid : Prop :=
  ∀ v vx vy, 0 ≤ vx → vx < g.viewWidth v → 0 ≤ vy → vy < g.viewHeight v →
    (src g v (vy, vx) >>> 24) &&& 0xff ≠ 0

/-- A call leaves a part of the view to the right of the left border. -/
def DisplayCall.Fits : DisplayCall V → Prop
  | .setZ _ _ => True
  | .setXy v x _ => 0 < x + g.viewWidth v

end Seen

end View
end LightOS
