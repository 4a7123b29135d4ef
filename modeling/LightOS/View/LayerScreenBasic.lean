import LightOS.View.ScreenBasic

/-!
# What the layers of a workstation draw: the model

`flush_map`, `flush_bits32` and `flush_by_z` of `dwin/objects/workstation_flush.c`, and
`dwin_layer_zorder`, `dwin_layer_move` and `dwin_layer_change_priority` of
`dwin/objects/layer_action.c` with what they flush, at 32 bits per pixel.

The code is that of the views with three differences.  There is a list for each priority; the map
holds the ids of the layers; and the size of a workstation is unsigned, so that a negative number
is greater than the width and the height where it is compared with them.
-/

namespace LightOS
namespace Dwin

open ZOrder View

/-- What does not change: the size of the workstation, and the sizes, the pixels and the ids of the
layers. -/
structure Screen (L : Type) where
  width : ℤ
  height : ℤ
  layerWidth : L → ℤ
  layerHeight : L → ℤ
  /-- The memory from `layer->buffer` on, the buffer and what lies behind it. -/
  buffer : L → ℤ → BitVec 32
  id : L → ℕ
  id_le : ∀ layer, id layer ≤ dwinLayerNr
  id_inj : Function.Injective id

/-- The workstation, where the layers are, the map, and what is on the screen. -/
structure Display (L : Type) where
  station : Workstation L
  x : L → ℤ
  y : L → ℤ
  idMap : ℤ → BitVec 16
  vram : ℤ → BitVec 32

/-- An `int` that is compared with a `uint32_t`. -/
def asUnsigned (n : ℤ) : ℤ := if n < 0 then n + 2 ^ 32 else n

section Flush

variable {L : Type} [DecidableEq L] (g : Screen L) (s : Display L)

/-- The part of a rectangle that is on the screen, unless it ends above or to the left of it. -/
def clipScreen (r : Block) : Block :=
  ⟨max r.left 0, max r.top 0, if g.width < asUnsigned r.right then g.width else r.right,
    if g.height < asUnsigned r.bottom then g.height else r.bottom⟩

/-- The part of a rectangle that is in a layer, in its coordinates. -/
def layerBlock (r : Block) (layer : L) : Block :=
  ⟨max (r.left - s.x layer) 0, max (r.top - s.y layer) 0,
    min (r.right - s.x layer) (g.layerWidth layer),
    min (r.bottom - s.y layer) (g.layerHeight layer)⟩

/-- The index of a pixel of a layer, on the screen and in the map. -/
def screenIndex (layer : L) (cell : ℤ × ℤ) : ℤ :=
  (s.y layer + cell.1) * g.width + s.x layer + cell.2

/-- A pixel of a layer. -/
def src (layer : L) (cell : ℤ × ℤ) : BitVec 32 :=
  g.buffer layer (cell.1 * g.layerWidth layer + cell.2)

/-- The adjustments of `flush_map` before its loop; `none` is a `continue`. -/
def mapBlock (layer : L) (b : Block) : Option Block :=
  if g.height ≤ asUnsigned (s.y layer + b.top) ∨ g.width ≤ asUnsigned (s.x layer + b.left) then none
  else
    some
      { left := if s.x layer + b.left < 0 then b.left + -(s.x layer + b.left) else b.left
        top := if s.y layer + b.top < 0 then b.top + -(s.y layer + b.top) else b.top
        right := if s.x layer + b.right < 0 then b.right - (s.x layer + b.right - g.width)
          else b.right
        bottom :=
          if g.height ≤ asUnsigned (s.y layer + b.bottom) then
            b.bottom - (s.y layer + b.bottom - g.height)
          else b.bottom }

/-- The loop of `flush_map` over the pixels of one layer. -/
def mapLayer (layer : L) (b : Block) (idMap : ℤ → BitVec 16) : ℤ → BitVec 16 :=
  b.cells.foldl (fun idMap cell =>
    if (src g layer cell >>> 24) &&& 0xff ≠ 0 then
      Function.update idMap (screenIndex g s layer cell) (BitVec.ofNat 16 (g.id layer))
    else idMap) idMap

/-- `flush_map`. -/
def flushMap (r : Block) (z0 : ℤ) (priority : Fin dwinLayerPrioNr) : Display L :=
  { s with
    idMap := (List.finRange dwinLayerPrioNr).foldl (fun idMap lv =>
      (s.station.priorityList lv).foldl (fun idMap layer =>
        if (lv = priority ∧ z0 ≤ s.station.z layer) ∨ lv ≠ priority then
          match mapBlock g s layer (layerBlock g s (clipScreen g r) layer) with
          | none => idMap
          | some b => mapLayer g s layer b idMap
        else idMap) idMap) s.idMap }

/-- `flush_bits32`. -/
def flushBits32 (layer : L) (b : Block) (vram : ℤ → BitVec 32) : ℤ → BitVec 32 :=
  b.cells.foldl (fun vram cell =>
    if (s.idMap (screenIndex g s layer cell)).toNat = g.id layer then
      Function.update vram (screenIndex g s layer cell) (src g layer cell)
    else vram) vram

/-- `flush_by_z`. -/
def flushByZ (r : Block) (z0 z1 : ℤ) (priority : Fin dwinLayerPrioNr) : Display L :=
  { s with
    vram := ((List.finRange dwinLayerPrioNr).filter fun lv => lv ≤ priority).foldl (fun vram lv =>
      (s.station.priorityList lv).foldl (fun vram layer =>
        if (priority = lv ∧ z0 ≤ s.station.z layer ∧ s.station.z layer ≤ z1) ∨ priority ≠ lv then
          flushBits32 g s layer (layerBlock g s (clipScreen g r) layer) vram
        else vram) vram) s.vram }

/-- `flush_map` from `z0` on, then `flush_by_z` from `z0` to `z1`, with one rectangle. -/
def flush (r : Block) (z0 z1 : ℤ) (priority : Fin dwinLayerPrioNr) : Display L :=
  flushByZ g (flushMap g s r z0 priority) r z0 z1 priority

/-- The rectangle of a layer. -/
def layerRect (layer : L) : Block :=
  ⟨s.x layer, s.y layer, s.x layer + g.layerWidth layer, s.y layer + g.layerHeight layer⟩

/-! ## The calls -/

/-- `dwin_layer_zorder`. -/
def displayZorder (layer : L) (z : ℤ) : Option (Display L) :=
  (zorderRefresh s.station layer z).map fun t =>
    match t.2 with
    | none => { s with station := t.1 }
    | some f => flush g { s with station := t.1 }
        (layerRect g s layer) f.z0 f.z1 (s.station.priority layer)

/-- The rectangle that `dwin_layer_move` flushes: from where the layer was to where it is. -/
def moveRect (layer : L) (x y : ℤ) : Block :=
  ⟨min (s.x layer) x, min (s.y layer) y, max (s.x layer + g.layerWidth layer)
    (x + g.layerWidth layer), max (s.y layer + g.layerHeight layer) (y + g.layerHeight layer)⟩

/-- `dwin_layer_move`. -/
def dwinLayerMove (layer : L) (x y : ℤ) : Display L :=
  let s' := { s with x := Function.update s.x layer x, y := Function.update s.y layer y }
  if 0 ≤ s.station.z layer then
    flush g s' (moveRect g s layer x y) 0 (s.station.z layer) (s.station.priority layer)
  else s'

/-- `dwin_layer_change_priority`. -/
def displayChangePriority (layer : L) (priority : ℕ) : Option (Display L) :=
  if h : priority < dwinLayerPrioNr then
    let oldZ := s.station.z layer
    (displayZorder g s layer (-1)).bind fun s =>
      displayZorder g
        { s with
          station := { s.station with
            priority := Function.update s.station.priority layer ⟨priority, h⟩ } } layer oldZ
  else some s

/-- A call. -/
inductive DisplayCall (L : Type) where
  | zorder (layer : L) (z : ℤ)
  | move (layer : L) (x y : ℤ)
  | changePriority (layer : L) (priority : ℕ)

/-- One call. -/
def displayStep (s : Display L) : DisplayCall L → Option (Display L)
  | .zorder layer z => displayZorder g s layer z
  | .move layer x y => some (dwinLayerMove g s layer x y)
  | .changePriority layer priority => displayChangePriority g s layer priority

end Flush

/-! ## What is to be seen -/

section Seen

variable {L : Type} [DecidableEq L] (g : Screen L) (s : Display L)

/-- A pixel of the screen. -/
def OnScreen (sx sy : ℤ) : Prop := (0 ≤ sx ∧ sx < g.width) ∧ 0 ≤ sy ∧ sy < g.height

/-- A layer covers a pixel. -/
def Covers (sx sy : ℤ) (layer : L) : Prop :=
  (s.x layer ≤ sx ∧ sx < s.x layer + g.layerWidth layer) ∧
    s.y layer ≤ sy ∧ sy < s.y layer + g.layerHeight layer

/-- A layer that is shown covers a pixel. -/
def ShownAt (sx sy : ℤ) (layer : L) : Prop :=
  isLayerShown s.station layer = true ∧ Covers g s sx sy layer

/-- The colour of a layer at a pixel of the screen. -/
def colour (sx sy : ℤ) (layer : L) : BitVec 32 := src g layer (sy - s.y layer, sx - s.x layer)

/-- The order of the layers, by priority and then by number. -/
def Below (s : Workstation L) (v w : L) : Prop :=
  s.priority v < s.priority w ∨ s.priority v = s.priority w ∧ s.z v < s.z w

/-- Of the shown layers that cover a pixel this one is the greatest. -/
def Topmost (sx sy : ℤ) (layer : L) : Prop :=
  ShownAt g s sx sy layer ∧ ∀ w, ShownAt g s sx sy w → w ≠ layer → Below s.station w layer

/-- **The topmost layer is shown**: wherever there is one, the map has its id and the screen its
colour. -/
def ShowsTopmost : Prop :=
  ∀ sx sy, OnScreen g sx sy → (∃ w, ShownAt g s sx sy w) →
    ∃ layer, Topmost g s sx sy layer ∧ (s.idMap (sy * g.width + sx)).toNat = g.id layer ∧
      s.vram (sy * g.width + sx) = colour g s sx sy layer

/-- All pixels of the layers are opaque. -/
def Solid : Prop :=
  ∀ layer lx ly, 0 ≤ lx → lx < g.layerWidth layer → 0 ≤ ly → ly < g.layerHeight layer →
    (src g layer (ly, lx) >>> 24) &&& 0xff ≠ 0

/-- A call leaves a part of the layer to the right of the left border. -/
def DisplayCall.Fits : DisplayCall L → Prop
  | .move layer x _ => 0 < x + g.layerWidth layer
  | _ => True

/-- Nothing of a layer at this place is at the height of the screen or below it, and some of it is
left of the right border. -/
def OffTop (layer : L) (x y : ℤ) : Prop := y + g.layerHeight layer < 0 ∧ x < g.width

/-- A layer that goes down to `z` does not stay topmost over a layer of a lower priority. -/
def LowersClear (layer : L) (z : ℤ) : Prop :=
  ∀ sx sy, OnScreen g sx sy → Covers g s sx sy layer →
    (∃ w, ShownAt g s sx sy w ∧ (s.station.priority layer < s.station.priority w ∨
      s.station.priority layer = s.station.priority w ∧ w ≠ layer ∧ z ≤ s.station.z w)) ∨
    ∀ w, ShownAt g s sx sy w → ¬s.station.priority w < s.station.priority layer

/-- What a call must not do. -/
def DisplayCall.Clear : DisplayCall L → Prop
  | .zorder layer z =>
      (0 ≤ z → ¬OffTop g layer (s.x layer) (s.y layer)) ∧
        (isLayerShown s.station layer = true → 0 ≤ z → z < s.station.z layer →
          LowersClear g s layer z)
  | .move layer x y => isLayerShown s.station layer = true → ¬OffTop g layer x y
  | .changePriority _ _ => True

end Seen

end Dwin
end LightOS
