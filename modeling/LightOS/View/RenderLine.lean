import LightOS.Lib.FixedPoint
import LightOS.View.RenderBasic
import LightOS.View.ViewLockBasic

/-!
# Lines with a slope

The general part of `view_render_line`, which `view_bitmap_line` repeats.  The line goes along its
longer axis pixel by pixel; the other coordinate moves by a quotient of ten fractional bits, which
is made too large by one pixel in the numerator and too small by the truncation, and which is
rounded down also where it is negative.

* `slopedLine_eq` — the points of a line of up to the size of a view: nothing overflows.
* `spans_track_iff` — what such a row of points keeps of a line.
* `line_right_iff` — the line is right exactly when its ends are pixels and the arithmetic of the
  slope arrives.
-/

namespace LightOS
namespace Render

open FixedPoint CInt

/-! ## What a line should be -/

/-- The points of a line from `(u1, v1)` to `(u2, v2)`, of which the first axis is the longer one.
-/
structure Spans (u1 v1 u2 v2 : ℤ) (pts : List Point) : Prop where
  count : (pts.length : ℤ) = |u2 - u1| + 1
  columns : ∀ u, min u1 u2 ≤ u → u ≤ max u1 u2 → ∃! v, (u, v) ∈ pts
  connected : pts.IsChain fun p q => |q.1 - p.1| ≤ 1 ∧ |q.2 - p.2| ≤ 1
  first : (u1, v1) ∈ pts
  last : (u2, v2) ∈ pts
  box : ∀ p ∈ pts, (min u1 u2 ≤ p.1 ∧ p.1 ≤ max u1 u2) ∧ min v1 v2 ≤ p.2 ∧ p.2 ≤ max v1 v2

/-- A call paints a line between two points. -/
def LineRight (x1 y1 x2 y2 : ℤ) (r : Option (List Point)) : Prop :=
  ∃ pts, r = some pts ∧
    if |y2 - y1| ≤ |x2 - x1| then Spans x1 y1 x2 y2 pts else Spans y1 x1 y2 x2 (pts.map Prod.swap)

/-- `D` steps of the truncated slope of a line that goes up or down by `d` in them come to `d`:
rising they do not stay behind, falling they neither stay behind nor go beyond. -/
def Arrives (D d : ℤ) : Prop :=
  (0 ≤ d → d * 1024 ≤ D * ((d + 1) * 1024 / (D + 1))) ∧
    (d < 0 → (-d - 1) * 1024 < D * ((-d + 1) * 1024 / (D + 1)) ∧
      D * ((-d + 1) * 1024 / (D + 1)) ≤ -d * 1024)

instance (D d : ℤ) : Decidable (Arrives D d) := inferInstanceAs (Decidable ((_ → _) ∧ (_ → _ ∧ _)))

/-! ## A row of points -/

/-- The first `n` points from `(u1, v1)` on, `s` to the side and `f / 1024` up at each step. -/
def track (u1 v1 s f : ℤ) (n : ℕ) : List Point :=
  (List.range n).map fun i : ℕ => (u1 + i * s, v1 + walk 1024 f i)

section Track

variable {w h u1 v1 u2 v2 s f : ℤ} {D : ℕ}

theorem mem_track {n : ℕ} {p : Point} :
    p ∈ track u1 v1 s f n ↔ ∃ i < n, (u1 + (i : ℤ) * s, v1 + walk 1024 f i) = p := by
  simp [track]

theorem track_connected (hs : s = 1 ∨ s = -1) (hf : |f| ≤ 1024) (n : ℕ) :
    (track u1 v1 s f n).IsChain fun p q => |q.1 - p.1| ≤ 1 ∧ |q.2 - p.2| ≤ 1 := by
  rw [track, List.isChain_map]
  refine List.isChain_iff_getElem.2 fun i hi => ?_
  simp only [List.getElem_range]
  have hstep := walk_step (by decide : (0 : ℤ) < 1024) hf i
  push_cast
  constructor
  · rcases hs with rfl | rfl <;> simp
  · rwa [add_sub_add_left_eq_sub]

/-- A row of points between two pixels stays between them. -/
theorem track_box (hs : s = 1 ∨ s = -1) (hu : u2 = u1 + D * s) (hv : v2 = v1 + walk 1024 f D)
    {i : ℕ} (hi : i ≤ D) :
    (min u1 u2 ≤ u1 + i * s ∧ u1 + i * s ≤ max u1 u2) ∧
      min v1 v2 ≤ v1 + walk 1024 f i ∧ v1 + walk 1024 f i ≤ max v1 v2 := by
  have hiD : (i : ℤ) ≤ D := by exact_mod_cast hi
  have hi0 : (0 : ℤ) ≤ i := Int.natCast_nonneg i
  subst hu hv
  constructor
  · rcases hs with rfl | rfl <;> omega
  · have hq : (0 : ℤ) < 1024 := by decide
    rcases le_total 0 f with hf | hf
    · have hlow := walk_mono hq hf hi0
      have hhigh := walk_mono hq hf hiD
      rw [walk_zero] at hlow
      omega
    · have hhigh := walk_anti hq hf hi0
      have hlow := walk_anti hq hf hiD
      rw [walk_zero] at hhigh
      omega

/-- Points of a row in the same column are the same. -/
theorem track_column (hs : s = 1 ∨ s = -1) {i j : ℕ} (hij : u1 + (i : ℤ) * s = u1 + j * s) :
    i = j := by
  rcases hs with rfl | rfl <;> omega

/-- A row of points, drawn in a buffer, is a line exactly when both ends are pixels and the last
point is the second end. -/
theorem spans_track_iff (hs : s = 1 ∨ s = -1) (hf : |f| ≤ 1024) (hu : u2 = u1 + D * s) :
    Spans u1 v1 u2 v2 ((track u1 v1 s f (D + 1)).filter (InBounds w h ·)) ↔
      InBounds w h (u1, v1) ∧ InBounds w h (u2, v2) ∧ v1 + walk 1024 f D = v2 := by
  constructor
  · intro hspans
    have hfirst := (List.mem_filter.1 hspans.first).2
    obtain ⟨hmem, hlast⟩ := List.mem_filter.1 hspans.last
    refine ⟨of_decide_eq_true hfirst, of_decide_eq_true hlast, ?_⟩
    obtain ⟨i, -, hi⟩ := mem_track.1 hmem
    obtain ⟨hcol, hval⟩ := Prod.mk.inj hi
    rw [hu] at hcol
    rw [← hval, track_column hs hcol]
  · rintro ⟨hin1, hin2, hv⟩
    have hall : (track u1 v1 s f (D + 1)).filter (InBounds w h ·) = track u1 v1 s f (D + 1) := by
      refine List.filter_eq_self.2 fun p hp => decide_eq_true ?_
      obtain ⟨i, hi, rfl⟩ := mem_track.1 hp
      have hbox := track_box hs hu hv.symm (Nat.le_of_lt_succ hi)
      unfold InBounds at hin1 hin2 ⊢
      simp only at hin1 hin2 ⊢
      omega
    rw [hall]
    refine ⟨?_, fun u hlow hhigh => ?_, track_connected hs hf _, ?_, ?_, fun p hp => ?_⟩
    · rw [track, List.length_map, List.length_range, hu]
      rcases hs with rfl | rfl
      · simp
      · simp
    · obtain ⟨i, hi, rfl⟩ : ∃ i ≤ D, u1 + (i : ℤ) * s = u := by
        rcases hs with rfl | rfl
        · exact ⟨(u - u1).toNat, by omega, by omega⟩
        · exact ⟨(u1 - u).toNat, by omega, by omega⟩
      refine ⟨v1 + walk 1024 f i, mem_track.2 ⟨i, by omega, rfl⟩, fun v hmem => ?_⟩
      obtain ⟨j, -, hj⟩ := mem_track.1 hmem
      obtain ⟨hcol, hval⟩ := Prod.mk.inj hj
      rw [← hval, track_column hs hcol]
    · exact mem_track.2 ⟨0, by omega, by simp⟩
    · exact mem_track.2 ⟨D, by omega, by rw [hu, hv]⟩
    · obtain ⟨i, hi, rfl⟩ := mem_track.1 hp
      exact track_box hs hu hv.symm (Nat.le_of_lt_succ hi)

end Track

/-! ## The points of the code -/

theorem lineLoop_eq (putpixel : ℤ → ℤ → List Point) (dx dy : ℤ) (n : ℕ) {x y : ℤ}
    (h : ∀ i ≤ n, InRange (x + (i : ℕ) * dx) ∧ InRange (y + (i : ℕ) * dy)) :
    lineLoop putpixel n x y dx dy =
      some ((List.range n).flatMap fun i : ℕ => putpixel ((x + i * dx) >>> (10 : ℕ))
        ((y + i * dy) >>> (10 : ℕ))) := by
  induction n generalizing x y with
  | zero => rfl
  | succ n ih =>
    have hshift : ∀ (z d : ℤ) (i : ℕ), z + d + i * d = z + (i + 1 : ℕ) * d := by
      intro z d i
      push_cast
      ring
    have hone := h 1 (by omega)
    rw [Nat.cast_one, one_mul, one_mul] at hone
    have hrest : ∀ i ≤ n, InRange (x + dx + (i : ℕ) * dx) ∧ InRange (y + dy + (i : ℕ) * dy) := by
      intro i hi
      rw [hshift, hshift]
      exact h (i + 1) (by omega)
    rw [lineLoop, int32_of_inRange hone.1, int32_of_inRange hone.2, Option.bind_eq_bind,
      Option.bind_some, Option.bind_eq_bind, Option.bind_some, ih hrest, List.range_succ_eq_map]
    simp [List.flatMap_map, hshift]

/-- The truncated slope. -/
def slopeOf (D d : ℤ) : ℤ :=
  if 0 ≤ d then (d + 1) * 1024 / (D + 1) else -((-d + 1) * 1024 / (D + 1))

theorem lineSlope_eq {D d : ℤ} (hD : |d| ≤ D) (hmax : D ≤ 2000) :
    lineSlope d (D + 1) = some (slopeOf D d) := by
  obtain ⟨hlow, hhigh⟩ := abs_le.1 hD
  unfold lineSlope slopeOf
  split_ifs with hd
  · rw [int32_of_inRange (by unfold InRange; omega)]
    simp only [Option.bind_eq_bind, Option.bind_some]
    rw [int32_of_inRange (by unfold InRange; omega)]
    simp only [Option.bind_some]
    rw [Int.tdiv_eq_ediv_of_nonneg (by omega)]
  · rw [int32_of_inRange (by unfold InRange; omega)]
    simp only [Option.bind_eq_bind, Option.bind_some]
    rw [int32_of_inRange (by unfold InRange; omega)]
    simp only [Option.bind_some]
    rw [show (d - 1) * 1024 = -((-d + 1) * 1024)
      by ring, Int.neg_tdiv, Int.tdiv_eq_ediv_of_nonneg (by omega)]

theorem abs_slopeOf_le {D d : ℤ} (hD : |d| ≤ D) : |slopeOf D d| ≤ 1024 := by
  obtain ⟨hlow, hhigh⟩ := abs_le.1 hD
  have hpos : 0 < D + 1 := by omega
  have hquot : ∀ m : ℤ, 0 ≤ m → m ≤ D → 0 ≤ (m + 1) * 1024 / (D + 1) ∧
      (m + 1) * 1024 / (D + 1) ≤ 1024 := by
    intro m hm hmD
    refine ⟨Int.ediv_nonneg (by omega) hpos.le, ?_⟩
    refine Int.ediv_le_of_le_mul hpos ?_
    omega
  unfold slopeOf
  split_ifs with hd
  · obtain ⟨h0, h1⟩ := hquot d hd hhigh
    rw [abs_of_nonneg h0]
    exact h1
  · obtain ⟨h0, h1⟩ := hquot (-d) (by omega) (by omega)
    rw [abs_neg, abs_of_nonneg h0]
    exact h1

/-- The walk along the truncated slope comes to `d` under the condition on the quotient. -/
theorem walk_slopeOf_iff {D d : ℤ} (hD : |d| ≤ D) (hd0 : d ≠ 0) :
    walk 1024 (slopeOf D d) D = d ↔ Arrives D d := by
  obtain ⟨hlow, hhigh⟩ := abs_le.1 hD
  rw [walk_eq_iff (by decide)]
  unfold slopeOf Arrives
  split_ifs with hd
  · -- rising, the quotient is too small to go beyond
    have hmul : D * ((d + 1) * 1024 / (D + 1)) < (d + 1) * 1024 := by
      have hdiv : (D + 1) * ((d + 1) * 1024 / (D + 1)) ≤ (d + 1) * 1024 :=
        Int.mul_ediv_self_le (by omega)
      have hpos : 0 ≤ (d + 1) * 1024 / (D + 1) := Int.ediv_nonneg (by omega) (by omega)
      have hD0 : 0 < D := by omega
      rcases hpos.eq_or_lt with hzero | hpos
      · rw [← hzero, mul_zero]
        omega
      · linarith
    exact ⟨fun h => ⟨fun _ => h.1, fun hneg => absurd hneg (by omega)⟩, fun h => ⟨h.1 hd, hmul⟩⟩
  · rw [mul_neg]
    constructor
    · rintro ⟨h1, h2⟩
      exact ⟨fun h => absurd h hd, fun _ => ⟨by linarith, by linarith⟩⟩
    · rintro ⟨-, h⟩
      obtain ⟨h1, h2⟩ := h (by omega)
      exact ⟨by linarith, by linarith⟩

section Line

variable {w h x1 y1 x2 y2 : ℤ} {putpixel : ℤ → ℤ → List Point}

/-- One step along the longer axis. -/
def unit (a b : ℤ) : ℤ := if b < a then -1 else 1

theorem shift_whole (u s i : ℤ) : (u * 1024 + i * (s * 1024)) >>> (10 : ℕ) = u + i * s := by
  rw [Int.shiftRight_eq_div_pow, show u * 1024 + i * (s * 1024) = (u + i * s) * 1024 by ring]
  omega

theorem shift_walk (v f i : ℤ) : (v * 1024 + i * f) >>> (10 : ℕ) = v + walk 1024 f i := by
  rw [Int.shiftRight_eq_div_pow, walk]
  omega

theorem step_eq_unit (a b : ℤ) : (if b < a then (-1024 : ℤ) else 1024) = unit a b * 1024 := by
  unfold unit
  split_ifs <;> rfl

/-- The coordinates of a view of the greatest size. -/
def Coord (a : ℤ) : Prop := 0 ≤ a ∧ a ≤ ViewLock.viewMaxSizeWidth

/-- Nothing overflows on the way along a line of up to the size of a view. -/
theorem inRange_of_coord {a f : ℤ} (ha : Coord a) (hf : |f| ≤ 1024) {i : ℕ} (hi : i ≤ 1921) :
    InRange (a * 1024 + i * f) := by
  obtain ⟨ha0, ha1⟩ := ha
  obtain ⟨hlow, hhigh⟩ := abs_le.1 hf
  have hi0 : (0 : ℤ) ≤ i := Int.natCast_nonneg i
  have hi1 : (i : ℤ) ≤ 1921 := by exact_mod_cast hi
  have hup : (i : ℤ) * f ≤ 1921 * 1024 := by nlinarith
  have hdown : -(1921 * 1024) ≤ (i : ℤ) * f := by nlinarith
  unfold ViewLock.viewMaxSizeWidth at ha1
  unfold InRange
  constructor <;> linarith

theorem abs_unit_mul (a b : ℤ) : |unit a b * 1024| ≤ 1024 := by
  unfold unit
  split_ifs <;> simp

theorem abs_sub_le_of_coord {a b : ℤ} (ha : Coord a) (hb : Coord b) : |b - a| ≤ 1920 := by
  unfold Coord ViewLock.viewMaxSizeWidth at ha hb
  rw [abs_le]
  omega

theorem int32_of_abs_le {v : ℤ} (h : |v| ≤ 2000000000) : int32 v = some v := by
  obtain ⟨hlow, hhigh⟩ := abs_le.1 h
  exact int32_of_inRange ⟨by omega, by omega⟩

theorem int32_mul_of_coord {a : ℤ} (ha : Coord a) : int32 (a * 1024) = some (a * 1024) := by
  unfold Coord ViewLock.viewMaxSizeWidth at ha
  refine int32_of_inRange ⟨?_, ?_⟩ <;> omega

/-- The points of a line that goes farther to the side than up or down. -/
theorem slopedLine_wide (hx1 : Coord x1) (hy1 : Coord y1) (hx2 : Coord x2)
    (hwide : |y2 - y1| ≤ |x2 - x1|) :
    slopedLine putpixel x1 y1 x2 y2 =
      some ((track x1 y1 (unit x1 x2) (slopeOf |x2 - x1| (y2 - y1)) (|x2 - x1|.toNat + 1)).flatMap
        fun p => putpixel p.1 p.2) := by
  have hdx := abs_sub_le_of_coord hx1 hx2
  have hdx0 := abs_nonneg (x2 - x1)
  have hdy0 := abs_nonneg (y2 - y1)
  have hrange : ∀ i ≤ |x2 - x1|.toNat + 1,
      InRange (x1 * 1024 + (i : ℕ) * (unit x1 x2 * 1024)) ∧
        InRange (y1 * 1024 + (i : ℕ) * slopeOf |x2 - x1| (y2 - y1)) := fun i hi =>
    ⟨inRange_of_coord hx1 (abs_unit_mul _ _) (by omega),
      inRange_of_coord hy1 (abs_slopeOf_le hwide) (by omega)⟩
  have hlen : (|x2 - x1| + 1).toNat = |x2 - x1|.toNat + 1 := by omega
  rw [slopedLine, int32_of_abs_le (by omega), int32_of_abs_le (v := y2 - y1) (by omega),
    int32_mul_of_coord hx1, int32_mul_of_coord hy1]
  simp only [Option.bind_eq_bind, Option.bind_some]
  rw [int32_of_abs_le (by rw [abs_abs]; omega),
    int32_of_abs_le (v := |y2 - y1|) (by rw [abs_abs]; omega)]
  simp only [Option.bind_some, if_pos hwide]
  rw [int32_of_inRange (v := |x2 - x1| + 1) ⟨by omega, by omega⟩, Option.bind_some,
    lineSlope_eq hwide (by omega),
    Option.bind_some, step_eq_unit, hlen, lineLoop_eq _ _ _ _ hrange, track, List.flatMap_map]
  simp only [shift_whole]
  simp only [shift_walk]

/-- The points of a line that goes farther up or down than to the side. -/
theorem slopedLine_tall (hx1 : Coord x1) (hy1 : Coord y1) (hy2 : Coord y2)
    (htall : |x2 - x1| < |y2 - y1|) :
    slopedLine putpixel x1 y1 x2 y2 =
      some ((track y1 x1 (unit y1 y2) (slopeOf |y2 - y1| (x2 - x1)) (|y2 - y1|.toNat + 1)).flatMap
        fun p => putpixel p.2 p.1) := by
  have hdy := abs_sub_le_of_coord hy1 hy2
  have hdx0 := abs_nonneg (x2 - x1)
  have hdy0 := abs_nonneg (y2 - y1)
  have hrange : ∀ i ≤ |y2 - y1|.toNat + 1,
      InRange (x1 * 1024 + (i : ℕ) * slopeOf |y2 - y1| (x2 - x1)) ∧
        InRange (y1 * 1024 + (i : ℕ) * (unit y1 y2 * 1024)) := fun i hi =>
    ⟨inRange_of_coord hx1 (abs_slopeOf_le htall.le) (by omega),
      inRange_of_coord hy1 (abs_unit_mul _ _) (by omega)⟩
  have hlen : (|y2 - y1| + 1).toNat = |y2 - y1|.toNat + 1 := by omega
  rw [slopedLine, int32_of_abs_le (by omega), int32_of_abs_le (v := y2 - y1) (by omega),
    int32_mul_of_coord hx1, int32_mul_of_coord hy1]
  simp only [Option.bind_eq_bind, Option.bind_some]
  rw [int32_of_abs_le (by rw [abs_abs]; omega),
    int32_of_abs_le (v := |y2 - y1|) (by rw [abs_abs]; omega)]
  simp only [Option.bind_some, if_neg htall.not_ge]
  rw [int32_of_inRange (v := |y2 - y1| + 1) ⟨by omega, by omega⟩, Option.bind_some,
    lineSlope_eq htall.le (by omega),
    Option.bind_some, step_eq_unit, hlen, lineLoop_eq _ _ _ _ hrange, track, List.flatMap_map]
  simp only [shift_whole]
  simp only [shift_walk]

/-- Drawing the points one by one leaves those that are pixels. -/
theorem flatMap_putpixel {α : Type} (f : α → Point) (l : List α)
    (hput : ∀ a ∈ l, putpixel (f a).1 (f a).2 = if InBounds w h (f a) then [f a] else []) :
    (l.flatMap fun a => putpixel (f a).1 (f a).2) = (l.map f).filter (InBounds w h ·) := by
  induction l with
  | nil => rfl
  | cons a l ih =>
    obtain ⟨ha, hl⟩ := List.forall_mem_cons.1 hput
    rw [List.flatMap_cons, ih hl, ha, List.map_cons, List.filter_cons]
    by_cases hin : InBounds w h (f a)
    · simp [hin]
    · simp [hin]

/-- The points of a row are numbers of type `int`. -/
theorem inRange_of_mem_track {u v s f : ℤ} {n : ℕ} {p : Point} (hu : Coord u) (hv : Coord v)
    (hs : |s * 1024| ≤ 1024)
    (hf : |f| ≤ 1024) (hn : n ≤ 1921) (hp : p ∈ track u v s f n) : InRange p.1 ∧ InRange p.2 := by
  obtain ⟨i, hi, rfl⟩ := mem_track.1 hp
  have hfst := inRange_of_coord hu hs (show i ≤ 1921 by omega)
  have hsnd := inRange_of_coord hv hf (show i ≤ 1921 by omega)
  rw [← shift_whole, ← shift_walk, Int.shiftRight_eq_div_pow, Int.shiftRight_eq_div_pow]
  unfold InRange at hfst hsnd ⊢
  omega

/-- A routine that draws a point exactly if it is a pixel. -/
def Draws (w h : ℤ) (putpixel : ℤ → ℤ → List Point) : Prop :=
  ∀ x y, InRange x → InRange y → putpixel x y = if InBounds w h (x, y) then [(x, y)] else []

theorem viewRenderPutpixel_draws (w h : ℤ) : Draws w h (viewRenderPutpixel w h) := by
  intro x y _ _
  unfold viewRenderPutpixel
  by_cases hin : InBounds w h (x, y)
  · rw [if_pos hin, if_neg]
    rw [inBounds_mk] at hin
    omega
  · rw [if_neg hin, if_pos]
    rw [inBounds_mk] at hin
    omega

theorem viewBitmapPutpixel_draws (w h : ℤ) : Draws w h (viewBitmapPutpixel w h) := by
  intro x y hx hy
  unfold InRange at hx hy
  unfold viewBitmapPutpixel u32
  by_cases hin : InBounds w h (x, y)
  · rw [if_pos hin, if_neg]
    rw [inBounds_mk] at hin
    omega
  · rw [if_neg hin, if_pos]
    rw [inBounds_mk] at hin
    omega

/-- The slope arrives along the longer axis. -/
def SlopeArrives (x1 y1 x2 y2 : ℤ) : Prop :=
  if |y2 - y1| ≤ |x2 - x1| then Arrives |x2 - x1| (y2 - y1) else Arrives |y2 - y1| (x2 - x1)

instance (x1 y1 x2 y2 : ℤ) : Decidable (SlopeArrives x1 y1 x2 y2) :=
  inferInstanceAs (Decidable (if |y2 - y1| ≤ |x2 - x1| then Arrives _ _ else Arrives _ _))

theorem unit_cases (a b : ℤ) : unit a b = 1 ∨ unit a b = -1 := by
  unfold unit
  split_ifs
  · exact Or.inr rfl
  · exact Or.inl rfl

theorem eq_add_abs_mul_unit (a b : ℤ) : b = a + (|b - a|.toNat : ℤ) * unit a b := by
  rw [Int.toNat_of_nonneg (abs_nonneg _)]
  unfold unit
  split_ifs with hlt
  · rw [abs_of_neg (by omega)]
    ring
  · rw [abs_of_nonneg (by omega)]
    ring

/-- The rest of the loop on a row of points, seen along the longer axis. -/
theorem spans_longer_iff {u1 v1 u2 v2 : ℤ} (hle : |v2 - v1| ≤ |u2 - u1|) (hne : v1 ≠ v2) :
    Spans u1 v1 u2 v2 ((track u1 v1 (unit u1 u2) (slopeOf |u2 - u1| (v2 - v1))
      (|u2 - u1|.toNat + 1)).filter
        (InBounds w h ·)) ↔
      InBounds w h (u1, v1) ∧ InBounds w h (u2, v2) ∧ Arrives |u2 - u1| (v2 - v1) := by
  rw [spans_track_iff (unit_cases _ _) (abs_slopeOf_le hle) (eq_add_abs_mul_unit _ _),
    Int.toNat_of_nonneg (abs_nonneg _), ← walk_slopeOf_iff hle (by omega)]
  refine and_congr_right fun _ => and_congr_right fun _ => ?_
  constructor <;> intro <;> linarith

theorem slopedLine_right_iff (hput : Draws w h putpixel) (hx1 : Coord x1) (hy1 : Coord y1)
    (hx2 : Coord x2) (hy2 : Coord y2) (hx : x1 ≠ x2) (hy : y1 ≠ y2) :
    LineRight x1 y1 x2 y2 (slopedLine putpixel x1 y1 x2 y2) ↔
      InBounds w h (x1, y1) ∧ InBounds w h (x2, y2) ∧ SlopeArrives x1 y1 x2 y2 := by
  unfold LineRight SlopeArrives
  split_ifs with hwide
  · have hlen := abs_sub_le_of_coord hx1 hx2
    rw [slopedLine_wide hx1 hy1 hx2 hwide, flatMap_putpixel (fun p => p) (w := w) (h := h),
      List.map_id']
    · simp only [Option.some.injEq, exists_eq_left']
      exact spans_longer_iff hwide hy
    · intro p hp
      obtain ⟨h1, h2⟩ := inRange_of_mem_track hx1 hy1 (abs_unit_mul _ _) (abs_slopeOf_le hwide)
        (by omega) hp
      exact hput _ _ h1 h2
  · have hlen := abs_sub_le_of_coord hy1 hy2
    have htall := not_le.1 hwide
    have hflat : ((track y1 x1 (unit y1 y2) (slopeOf |y2 - y1| (x2 - x1))
      (|y2 - y1|.toNat + 1)).flatMap
        fun p => putpixel p.2 p.1) = ((track y1 x1 (unit y1 y2) (slopeOf |y2 - y1| (x2 - x1))
          (|y2 - y1|.toNat + 1)).map Prod.swap).filter (InBounds w h ·) := by
      refine flatMap_putpixel Prod.swap _ fun p hp => ?_
      obtain ⟨h1, h2⟩ := inRange_of_mem_track hy1 hx1 (abs_unit_mul _ _) (abs_slopeOf_le htall.le)
        (by omega) hp
      exact hput _ _ h2 h1
    have hswap : ((fun p => decide (InBounds w h p)) ∘ Prod.swap) =
        fun p => decide (InBounds h w p) := by
      funext p
      exact decide_eq_decide.2 and_comm
    rw [slopedLine_tall hx1 hy1 hy2 htall, hflat]
    simp only [Option.some.injEq, exists_eq_left']
    rw [List.filter_map, List.map_map, Prod.swap_swap_eq, List.map_id, hswap,
      spans_longer_iff htall.le hx]
    unfold InBounds
    simp only [and_comm]

end Line

/-! ## The two functions -/

/-- Between two points of a view of any size, in different columns and rows, the line of both
functions is right exactly when both points are pixels and the slope arrives. -/
theorem line_right_iff {w h x1 y1 x2 y2 : ℤ} (hw : w ≤ ViewLock.viewMaxSizeWidth)
    (hh : h ≤ ViewLock.viewMaxSizeHeight)
    (hx1 : 0 ≤ x1 ∧ x1 ≤ w) (hy1 : 0 ≤ y1 ∧ y1 ≤ h) (hx2 : 0 ≤ x2 ∧ x2 ≤ w) (hy2 : 0 ≤ y2 ∧ y2 ≤ h)
    (hx : x1 ≠ x2) (hy : y1 ≠ y2) :
    (LineRight x1 y1 x2 y2 (viewRenderLine w h x1 y1 x2 y2) ↔
      InBounds w h (x1, y1) ∧ InBounds w h (x2, y2) ∧ SlopeArrives x1 y1 x2 y2) ∧
    (LineRight x1 y1 x2 y2 (viewBitmapLine w h x1 y1 x2 y2) ↔
      InBounds w h (x1, y1) ∧ InBounds w h (x2, y2) ∧ SlopeArrives x1 y1 x2 y2) := by
  have hcoordX : ∀ a, 0 ≤ a ∧ a ≤ w → Coord a := fun a ha => ⟨ha.1, ha.2.trans hw⟩
  have hcoordY : ∀ a, 0 ≤ a ∧ a ≤ h → Coord a :=
    fun a ha => ⟨ha.1, (ha.2.trans hh).trans (by decide)⟩
  rw [viewRenderLine, viewBitmapLine, if_neg hx, if_neg hy, if_neg hx, if_neg hy]
  exact ⟨slopedLine_right_iff (viewRenderPutpixel_draws w h) (hcoordX _ hx1) (hcoordY _ hy1)
    (hcoordX _ hx2)
      (hcoordY _ hy2) hx hy,
    slopedLine_right_iff (viewBitmapPutpixel_draws w h) (hcoordX _ hx1) (hcoordY _ hy1)
    (hcoordX _ hx2)
      (hcoordY _ hy2) hx hy⟩

/-- Four to the side and two down. -/
theorem line_right_down :
    LineRight 0 0 4 2 (viewRenderLine 10 10 0 0 4 2) ∧
      LineRight 0 0 4 2 (viewBitmapLine 10 10 0 0 4 2) := by
  have hiff : (LineRight 0 0 4 2 (viewRenderLine 10 10 0 0 4 2) ↔ _) ∧
      (LineRight 0 0 4 2 (viewBitmapLine 10 10 0 0 4 2) ↔ _) :=
        line_right_iff (by decide) (by decide)
    (by decide) (by decide) (by decide) (by decide) (by decide) (by decide)
  exact ⟨hiff.1.2 (by decide), hiff.2.2 (by decide)⟩

/-- Four to the side and two up, the line goes up by three, and its second end is not painted. -/
theorem line_overshoots :
    viewRenderLine 10 10 0 5 4 3 = some [(0, 5), (1, 4), (2, 3), (3, 3), (4, 2)] ∧
      ¬ LineRight 0 5 4 3 (viewRenderLine 10 10 0 5 4 3) := by
  have hrun : viewRenderLine 10 10 0 5 4 3 = some [(0, 5), (1, 4), (2, 3), (3, 3), (4, 2)] := by
    decide
  refine ⟨hrun, ?_⟩
  rintro ⟨pts, hpts, hspans⟩
  rw [hrun] at hpts
  cases hpts
  rw [if_pos (by decide)] at hspans
  exact absurd hspans.last (by decide)

end Render
end LightOS
