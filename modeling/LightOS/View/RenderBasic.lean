import LightOS.Lib.CInt

/-!
# Drawing on a view and on a bitmap

The primitives of `drivers/view/core/render.c` and their twins of `drivers/view/core/bitmap.c`.
What a call draws is the list of the points it writes to, in order; a point `(x, y)` is the place
`y * width + x` of the buffer.  The fields of a view are `int`, those of a bitmap are unsigned, so
the comparisons of the twins with a negative coordinate come out differently.  An `int` expression
that overflows is undefined and gives `none`.

The null checks are left out, and the colour, which every write of a call has in common.
-/

namespace LightOS
namespace Render

abbrev Point := ℤ × ℤ

/-- An expression of type `int` with the value `v`. -/
def int32 (v : ℤ) : Option ℤ := if CInt.InRange v then some v else none

theorem int32_of_inRange {v : ℤ} (h : CInt.InRange v) : int32 v = some v := if_pos h

/-- A pixel of a buffer of `w` times `h`. -/
def InBounds (w h : ℤ) (p : Point) : Prop := (0 ≤ p.1 ∧ p.1 < w) ∧ 0 ≤ p.2 ∧ p.2 < h

instance (w h : ℤ) : DecidablePred (InBounds w h) := fun _ => inferInstanceAs (Decidable (_ ∧ _))

theorem inBounds_mk {w h x y : ℤ} : InBounds w h (x, y) ↔ (0 ≤ x ∧ x < w) ∧ 0 ≤ y ∧ y < h := Iff.rfl

/-! ## Single pixels -/

/-- `view_render_putpixel`. -/
def viewRenderPutpixel (w h x y : ℤ) : List Point :=
  if x < 0 ∨ w ≤ x ∨ y < 0 ∨ h ≤ y then [] else [(x, y)]

/-- The conversion of an `int` to `unsigned int`. -/
def u32 (v : ℤ) : ℤ := v % 4294967296

/-- `view_bitmap_putpixel`; the last two comparisons are unsigned. -/
def viewBitmapPutpixel (w h x y : ℤ) : List Point :=
  if x < 0 ∨ y < 0 ∨ w ≤ u32 x ∨ h ≤ u32 y then [] else [(x, y)]

/-! ## Lines along an axis -/

/-- The loop of `view_render_vline` from round `i` on, with `n` rounds to go. -/
def viewVlineLoop (w h x y1 : ℤ) : ℕ → ℤ → Option (List Point)
  | 0, _ => some []
  | n + 1, i => do
      let row ← int32 (y1 + i)
      let product ← int32 (w * row)
      let offset ← int32 (product + x)
      if w * h - 1 ≤ offset then some []
      else
        let next ← int32 (i + 1)
        let rest ← viewVlineLoop w h x y1 n next
        some ((x, row) :: rest)

/-- `view_render_vline`. -/
def viewRenderVline (w h x y1 y2 : ℤ) : Option (List Point) :=
  if x < 0 then some []
  else if w - 1 < x then some []
  else do
    let d ← int32 (y2 - y1)
    viewVlineLoop w h x y1 (d + 1).toNat 0

/-- The loop of the horizontal lines: no test at all. -/
def hlineLoop (x1 y : ℤ) : ℕ → ℤ → Option (List Point)
  | 0, _ => some []
  | n + 1, i => do
      let next ← int32 (i + 1)
      let rest ← hlineLoop x1 y n next
      some ((x1 + i, y) :: rest)

/-- `view_render_hline`. -/
def viewRenderHline (w h x1 y x2 : ℤ) : Option (List Point) :=
  if y < 0 then some []
  else if h - 1 < y then some []
  else do
    let product ← int32 (w * y)
    let offset ← int32 (product + x1)
    if w * h - 1 ≤ offset then some []
    else
      let d ← int32 (x2 - x1)
      hlineLoop x1 y (d + 1).toNat 0

/-- The loop of `view_bitmap_vline`. -/
def bitmapVlineLoop (w h x y1 : ℤ) : ℕ → ℤ → Option (List Point)
  | 0, _ => some []
  | n + 1, i => do
      let row ← int32 (y1 + i)
      let offset := CInt.wrap (w * row + x)
      if u32 (w * h - 1) ≤ u32 offset then some []
      else
        let next ← int32 (i + 1)
        let rest ← bitmapVlineLoop w h x y1 n next
        some ((x, row) :: rest)

/-- `view_bitmap_vline`. -/
def viewBitmapVline (w h x y1 y2 : ℤ) : Option (List Point) :=
  if u32 (w - 1) < u32 x then some []
  else if u32 (h - 1) < u32 y1 then some []
  else if u32 (h - 1) < u32 y2 then some []
  else do
    let d ← int32 (y2 - y1)
    bitmapVlineLoop w h x y1 (d + 1).toNat 0

/-- `view_bitmap_hline`. -/
def viewBitmapHline (w h x1 y x2 : ℤ) : Option (List Point) :=
  if u32 (w - 1) < u32 x1 then some []
  else if u32 (w - 1) < u32 x2 then some []
  else if u32 (h - 1) < u32 y then some []
  else
    let offset := CInt.wrap (w * y + x1)
    if u32 (w * h - 1) ≤ u32 offset then some []
    else do
      let d ← int32 (x2 - x1)
      hlineLoop x1 y (d + 1).toNat 0

/-! ## Lines with a slope -/

/-- The last loop of `view_render_line` and `view_bitmap_line`, with `n` rounds to go. -/
def lineLoop (putpixel : ℤ → ℤ → List Point) : ℕ → ℤ → ℤ → ℤ → ℤ → Option (List Point)
  | 0, _, _, _, _ => some []
  | n + 1, x, y, dx, dy => do
      let x' ← int32 (x + dx)
      let y' ← int32 (y + dy)
      let rest ← lineLoop putpixel n x' y' dx dy
      some (putpixel (x >>> (10 : ℕ)) (y >>> (10 : ℕ)) ++ rest)

/-- The slope of the shorter axis, of which the ends are `d` apart: `((d + 1) << 10)/len`, and `((d
- 1) << 10)/len` if it falls. -/
def lineSlope (d len : ℤ) : Option ℤ := do
  let n ← int32 (if 0 ≤ d then d + 1 else d - 1)
  let s ← int32 (n * 1024)
  some (s.tdiv len)

/-- What `view_render_line` and `view_bitmap_line` do with a line that is neither vertical nor
horizontal. -/
def slopedLine (putpixel : ℤ → ℤ → List Point) (x1 y1 x2 y2 : ℤ) : Option (List Point) := do
  let dx ← int32 (x2 - x1)
  let dy ← int32 (y2 - y1)
  let x ← int32 (x1 * 1024)
  let y ← int32 (y1 * 1024)
  let lenX ← int32 |dx|
  let lenY ← int32 |dy|
  if lenY ≤ lenX then
    let len ← int32 (lenX + 1)
    let slope ← lineSlope dy len
    lineLoop putpixel len.toNat x y (if x2 < x1 then -1024 else 1024) slope
  else
    let len ← int32 (lenY + 1)
    let slope ← lineSlope dx len
    lineLoop putpixel len.toNat x y slope (if y2 < y1 then -1024 else 1024)

/-- `view_render_line`. -/
def viewRenderLine (w h x1 y1 x2 y2 : ℤ) : Option (List Point) :=
  if x1 = x2 then
    if y1 < y2 then viewRenderVline w h x1 y1 y2 else viewRenderVline w h x1 y2 y1
  else if y1 = y2 then
    if x1 < x2 then viewRenderHline w h x1 x2 y1 else viewRenderHline w h x2 x1 y1
  else slopedLine (viewRenderPutpixel w h) x1 y1 x2 y2

/-- `view_bitmap_line`. -/
def viewBitmapLine (w h x1 y1 x2 y2 : ℤ) : Option (List Point) :=
  if x1 = x2 then
    if y1 < y2 then viewBitmapVline w h x1 y1 y2 else viewBitmapVline w h x1 y2 y1
  else if y1 = y2 then
    if x1 < x2 then viewBitmapHline w h x1 x2 y1 else viewBitmapHline w h x2 x1 y1
  else slopedLine (viewBitmapPutpixel w h) x1 y1 x2 y2

end Render
end LightOS
