import LightOS.View.RenderBasic
import LightOS.View.ViewLockBasic

/-!
# Copying a part of a bitmap: the model

`view_render_bitblt` of `drivers/view/core/render.c`, `dwin_layer_bitblt` of
`dwin/objects/layer_action.c` and `view_bitmap_blit` of `drivers/view/core/bitmap.c`.  What a call
does is the list of the pixels it goes through, in order: for each of them the point that is read,
and those that are written to if its colour is not transparent.

The size of a bitmap is unsigned, that of a view, of a layer and of a `dwin_buffer` is `int`.  As
before, an `int` expression that overflows is undefined and gives `none`, and the null checks are
left out.
-/

namespace LightOS
namespace Render

open CInt

/-! ## Buffers -/

/-- The place of a point in the buffer. -/
def place (w : ℤ) (p : Point) : ℤ := p.2 * w + p.1

/-- The buffer `m` after the points are written in colour `c`. -/
def drawn (w : ℤ) (pts : List Point) (c : BitVec 32) (m : ℤ → BitVec 32) : ℤ → BitVec 32 :=
  pts.foldl (fun m p => Function.update m (place w p) c) m

/-- Two pixels have different places. -/
theorem place_injective {w h : ℤ} {p q : Point} (hp : InBounds w h p) (hq : InBounds w h q)
    (hpq : place w p = place w q) : p = q := by
  obtain ⟨⟨hp0, hp1⟩, -, -⟩ := hp
  obtain ⟨⟨hq0, hq1⟩, -, -⟩ := hq
  have hw : w ≠ 0 := by omega
  unfold place at hpq
  have hdiv : ∀ y x : ℤ, 0 ≤ x → x < w → (y * w + x) / w = y := by
    intro y x h0 h1
    rw [add_comm, Int.add_mul_ediv_right _ _ hw, Int.ediv_eq_zero_of_lt h0 h1, zero_add]
  have hrow : p.2 = q.2 := by rw [← hdiv p.2 p.1 hp0 hp1, hpq, hdiv q.2 q.1 hq0 hq1]
  rw [hrow] at hpq
  exact Prod.ext (by linarith) hrow

/-- The buffer has a last pixel. -/
def HasLast (w h : ℤ) : Prop := 0 < w ∧ 0 < h

/-- The sizes a bitmap can have: its pixels fit into the memory. -/
structure Bits (w h : ℤ) : Prop where
  width_nonneg : 0 ≤ w
  width_lt : w < 4294967296
  height_nonneg : 0 ≤ h
  height_lt : h < 4294967296
  pixels : w * h * 4 < 4294967296

theorem Bits.bounds {w h : ℤ} (hb : Bits w h) (hl : HasLast w h) :
    w ≤ 1073741824 ∧ h ≤ 1073741824 ∧ w * h < 1073741824 := by
  obtain ⟨hw, hh⟩ := hl
  have hpix := hb.pixels
  have h1 : w * 1 ≤ w * h := mul_le_mul_of_nonneg_left hh hw.le
  have h2 : 1 * h ≤ w * h := mul_le_mul_of_nonneg_right hw hh.le
  omega

/-! ## Calls -/

/-- The place that is copied to, the place in the bitmap that is copied from, and the size. -/
structure Request where
  x : ℤ
  y : ℤ
  bx : ℤ
  by' : ℤ
  width : ℤ
  height : ℤ

/-- The arguments are of type `int`. -/
structure Request.Ints (q : Request) : Prop where
  x : InRange q.x
  y : InRange q.y
  bx : InRange q.bx
  by' : InRange q.by'
  width : InRange q.width
  height : InRange q.height

/-- A pixel that a call goes through. -/
structure Move where
  src : Point
  dst : List Point
  deriving DecidableEq

/-- `min` of an `int` and an unsigned number, taken for an `int`. -/
def uMin (a b : ℤ) : ℤ := wrap (min (u32 a) (u32 b))

/-! ## `view_render_bitblt` and `dwin_layer_bitblt` -/

/-- The inner loop from column `vx` on, with `n` columns to go. -/
def bitbltRow (vy by2 : ℤ) : ℕ → ℤ → ℤ → Option (List Move)
  | 0, _, _ => some []
  | n + 1, vx, bx2 => do
      let next ← int32 (bx2 + 1)
      let rest ← bitbltRow vy by2 n (vx + 1) next
      some (⟨(bx2, by2), [(vx, vy)]⟩ :: rest)

/-- The outer loop from row `vy` on, with `n` rows to go and `cols` columns in each. -/
def bitbltRows (x bx : ℤ) (cols : ℕ) : ℕ → ℤ → ℤ → Option (List Move)
  | 0, _, _ => some []
  | n + 1, vy, by2 => do
      let row ← bitbltRow vy by2 cols x bx
      let next ← int32 (by2 + 1)
      let rest ← bitbltRows x bx cols n (vy + 1) next
      some (row ++ rest)

/-- `view_render_bitblt`; the comparisons with the size of the bitmap are unsigned. -/
def viewRenderBitblt (w h bw bh : ℤ) (q : Request) : Option (List Move) := do
  let width := if bw < u32 q.width then wrap bw else q.width
  let height := if bh < u32 q.height then wrap bh else q.height
  let w' := uMin width (bw - q.bx)
  let h' := uMin height (bh - q.by')
  if w' ≤ 0 ∨ h' ≤ 0 then some []
  else
    let bottom ← int32 (q.y + h')
    let right ← int32 (q.x + w')
    bitbltRows q.x q.bx (min right w - q.x).toNat (min bottom h - q.y).toNat q.y q.by'

/-- A `view_rect_t` or a `dwin_rect_t`. -/
structure Rect where
  x : ℤ
  y : ℤ
  w : ℤ
  h : ℤ

/-- `dwin_layer_bitblt`; for the whole buffer the height is set to its width. -/
def dwinLayerBitblt (w h bw bh x y : ℤ) (rect : Option Rect) : Option (List Move) := do
  let r : Rect :=
    match rect with
    | none => ⟨0, 0, bw, bw⟩
    | some rect => rect
  let width := if bw < r.w then bw else r.w
  let height := if bh < r.h then bh else r.h
  let dx ← int32 (bw - r.x)
  let dy ← int32 (bh - r.y)
  if min width dx ≤ 0 ∨ min height dy ≤ 0 then some []
  else
    let bottom ← int32 (y + min height dy)
    let right ← int32 (x + min width dx)
    bitbltRows x r.x (min right w - x).toNat (min bottom h - y).toNat y r.y

/-! ## `view_bitmap_blit` -/

/-- `view_bitmap_getpixel` at `(sx, sy)`, and `view_bitmap_putpixel` at `(dx, dy)` if the pixel is
there. -/
def blitPixel (sw sh dw dh sx sy dx dy : ℤ) : List Move :=
  if sx < 0 ∨ sy < 0 ∨ sw ≤ u32 sx ∨ sh ≤ u32 sy then []
  else [⟨(sx, sy), viewBitmapPutpixel dw dh dx dy⟩]

/-- The inner loop, until one of the two counters is zero. -/
def blitRow (sw sh dw dh sy dy : ℤ) : ℕ → ℕ → ℤ → ℤ → Option (List Move)
  | m + 1, n + 1, sx, dx => do
      let nextSrc ← int32 (sx + 1)
      let nextDst ← int32 (dx + 1)
      let rest ← blitRow sw sh dw dh sy dy m n nextSrc nextDst
      some (blitPixel sw sh dw dh sx sy dx dy ++ rest)
  | _, _, _, _ => some []

/-- The outer loop, until one of the two counters is zero. -/
def blitRows (sw sh dw dh : ℤ) (src dst : Rect) : ℕ → ℕ → ℤ → ℤ → Option (List Move)
  | m + 1, n + 1, sy, dy => do
      let row ← blitRow sw sh dw dh sy dy src.w.toNat dst.w.toNat src.x dst.x
      let nextSrc ← int32 (sy + 1)
      let nextDst ← int32 (dy + 1)
      let rest ← blitRows sw sh dw dh src dst m n nextSrc nextDst
      some (row ++ rest)
  | _, _, _, _ => some []

/-- The rectangle that is gone through: as it is given but not larger than the bitmap, or all of
the bitmap. -/
def blitRect (w h : ℤ) : Option Rect → Rect
  | none => ⟨0, 0, wrap w, wrap h⟩
  | some r => ⟨r.x, r.y, uMin r.w w, uMin r.h h⟩

/-- `view_bitmap_blit` from a bitmap of `sw` times `sh` to one of `dw` times `dh`. -/
def viewBitmapBlit (sw sh dw dh : ℤ) (srcrect dstrect : Option Rect) : Option (List Move) :=
  let src := blitRect sw sh srcrect
  let dst := blitRect dw dh dstrect
  blitRows sw sh dw dh src dst src.h.toNat dst.h.toNat src.y dst.y

/-! ## Right transfers -/

/-- A pixel that is not transparent. -/
def Opaque (c : BitVec 32) : Prop := (c >>> 24) &&& 0xff ≠ 0

instance : DecidablePred Opaque := fun _ => inferInstanceAs (Decidable (_ ≠ _))

/-- The buffer `m` after a pixel with the colour that is read for it from the bitmap `bits`. -/
def Move.run (w bw : ℤ) (bits : ℤ → BitVec 32) (m : ℤ → BitVec 32) (move : Move) : ℤ → BitVec 32 :=
  if Opaque (bits (place bw move.src)) then drawn w move.dst (bits (place bw move.src)) m else m

/-- The buffer after a call. -/
def transferred (w bw : ℤ) (bits : ℤ → BitVec 32) (moves : List Move) (m : ℤ → BitVec 32) :
    ℤ → BitVec 32 :=
  moves.foldl (Move.run w bw bits) m

/-- The point `(x + i, y + j)` is to get the pixel `(bx + i, by' + j)`. -/
def Wanted (w h bw bh : ℤ) (bits : ℤ → BitVec 32) (q : Request) (i j : ℤ) : Prop :=
  ((0 ≤ i ∧ i < q.width) ∧ 0 ≤ j ∧ j < q.height) ∧ InBounds w h (q.x + i, q.y + j) ∧
    InBounds bw bh (q.bx + i, q.by' + j) ∧ Opaque (bits (place bw (q.bx + i, q.by' + j)))

/-- A call copies exactly the clipped rectangle, and accesses only pixels. -/
structure Transfers (w h bw bh : ℤ) (bits : ℤ → BitVec 32) (q : Request) (moves : List Move) :
    Prop where
  read : ∀ move ∈ moves, InBounds bw bh move.src
  written : ∀ move ∈ moves, Opaque (bits (place bw move.src)) → ∀ p ∈ move.dst, InBounds w h p
  copied : ∀ m i j, Wanted w h bw bh bits q i j →
    transferred w bw bits moves m (place w (q.x + i, q.y + j)) =
      bits (place bw (q.bx + i, q.by' + j))
  others : ∀ m a, (∀ i j, Wanted w h bw bh bits q i j → place w (q.x + i, q.y + j) ≠ a) →
    transferred w bw bits moves m a = m a

/-- The call is defined and right. -/
def TransfersExactly (w h bw bh : ℤ) (bits : ℤ → BitVec 32) (q : Request)
    (r : Option (List Move)) : Prop :=
  ∃ moves, r = some moves ∧ Transfers w h bw bh bits q moves

end Render
end LightOS
