import LightOS.Lib.Painting
import LightOS.View.BitbltBasic

/-!
# Copying a part of a bitmap

When the three routines copy exactly the clipped rectangle, for given pixels of the bitmap.

`view_render_bitblt` and `dwin_layer_bitblt` clip at the right and at the lower edge only.  To the
left of the view and above it they do not, nor to the left of the bitmap and above it, and beyond
the other edges of the bitmap the unsigned comparison of the former lets the whole width through.

* `transfers_moves_iff` — when the pixels of a rectangle are the right ones.
* `bitbltRows_eq_some_iff` — the loops go through a rectangle.
* `viewRenderBitblt_right_iff`, `dwinLayerBitblt_right_iff`, `dwinLayerBitblt_whole_iff` — the two
  routines.
* `viewBitmapBlit_eq` — a rectangle that needs no clipping.
-/

namespace LightOS
namespace Render

open CInt Painting

/-! ## The pixels of a rectangle -/

/-- The pixel at `(i, j)` in the rectangle. -/
def Request.move (q : Request) (i j : ℤ) : Move := ⟨(q.bx + i, q.by' + j), [(q.x + i, q.y + j)]⟩

/-- The pixels of a rectangle, row by row. -/
def moves (q : Request) (cols rows : ℕ) : List Move :=
  (List.range rows).flatMap fun j : ℕ => (List.range cols).map fun i : ℕ => q.move i j

/-- `(i, j)` is in the rectangle. -/
def Cell (cols rows : ℕ) (i j : ℤ) : Prop := (0 ≤ i ∧ i < cols) ∧ 0 ≤ j ∧ j < rows

section Moves

variable {w h bw bh : ℤ} {bits : ℤ → BitVec 32} {q : Request} {cols rows : ℕ} {move : Move}
  {i j : ℤ}

theorem mem_moves : move ∈ moves q cols rows ↔ ∃ i j, Cell cols rows i j ∧ q.move i j = move := by
  unfold moves Cell
  simp only [List.mem_flatMap, List.mem_map, List.mem_range]
  constructor
  · rintro ⟨j, hj, i, hi, rfl⟩
    exact ⟨i, j, ⟨⟨by omega, by omega⟩, by omega, by omega⟩, rfl⟩
  · rintro ⟨i, j, ⟨⟨hi0, hi⟩, hj0, hj⟩, rfl⟩
    refine ⟨j.toNat, by omega, i.toNat, by omega, ?_⟩
    rw [Int.toNat_of_nonneg hi0, Int.toNat_of_nonneg hj0]

/-- The colour that is read for a pixel. -/
def colour (bw : ℤ) (bits : ℤ → BitVec 32) (q : Request) (i j : ℤ) : BitVec 32 :=
  bits (place bw (q.bx + i, q.by' + j))

/-- One write for each pixel that is not transparent. -/
theorem transferred_moves (m : ℤ → BitVec 32) : transferred w bw bits (moves q cols rows) m =
    (moves q cols rows).foldl (fun m move => if Opaque (bits (place bw move.src)) then
      Function.update m (place w (move.dst.headD 0)) (bits (place bw move.src)) else m) m := by
  refine List.foldl_ext _ _ _ fun m move hmove => ?_
  obtain ⟨i, j, -, rfl⟩ := mem_moves.1 hmove
  rfl

/-- A pixel that no other one is written over. -/
theorem transferred_at (hin : ∀ i j, Cell cols rows i j → Opaque (colour bw bits q i j) →
      InBounds w h (q.x + i, q.y + j)) (hcell : Cell cols rows i j)
        (hsolid : Opaque (colour bw bits q i j))
    (m : ℤ → BitVec 32) :
    transferred w bw bits (moves q cols rows) m (place w (q.x + i, q.y + j)) =
      colour bw bits q i j := by
  classical
  rw [transferred_moves, foldl_update (b := colour bw bits q i j), if_pos]
  · exact ⟨q.move i j, mem_moves.2 ⟨i, j, hcell, rfl⟩, hsolid, rfl⟩
  · intro move hmove hmoveOpaque hplace
    obtain ⟨i', j', hcell', rfl⟩ := mem_moves.1 hmove
    have heq := place_injective (hin i' j' hcell' hmoveOpaque) (hin i j hcell hsolid) hplace
    obtain ⟨hi, hj⟩ := Prod.mk.injEq .. ▸ heq
    have hi' : i' = i := by omega
    have hj' : j' = j := by omega
    rw [hi', hj']
    rfl

/-- A place that no pixel is written to. -/
theorem transferred_other {a : ℤ}
    (hne : ∀ i j, Cell cols rows i j → Opaque (colour bw bits q i j) →
      place w (q.x + i, q.y + j) ≠ a)
    (m : ℤ → BitVec 32) : transferred w bw bits (moves q cols rows) m a = m a := by
  classical
  rw [transferred_moves, foldl_update (b := m a), ite_self]
  intro move hmove hsolid hplace
  obtain ⟨i, j, hcell, rfl⟩ := mem_moves.1 hmove
  exact absurd hplace (hne i j hcell hsolid)

/-- **The pixels of a rectangle are the right ones** if all are in the bitmap, and those that are
not transparent are the wanted ones. -/
theorem transfers_moves_iff : Transfers w h bw bh bits q (moves q cols rows) ↔
    (∀ i j, Cell cols rows i j → InBounds bw bh (q.bx + i, q.by' + j)) ∧
      (∀ i j, Cell cols rows i j → Opaque (colour bw bits q i j) → Wanted w h bw bh bits q i j) ∧
        ∀ i j, Wanted w h bw bh bits q i j → Cell cols rows i j := by
  constructor
  · intro hright
    have hread : ∀ i j, Cell cols rows i j → InBounds bw bh (q.bx + i, q.by' + j) :=
      fun i j hcell =>
      hright.read _ (mem_moves.2 ⟨i, j, hcell, rfl⟩)
    have hwritten : ∀ i j, Cell cols rows i j → Opaque (colour bw bits q i j) →
      InBounds w h (q.x + i, q.y + j) :=
      fun i j hcell hsolid => hright.written _ (mem_moves.2 ⟨i, j, hcell, rfl⟩) hsolid _
        (List.mem_singleton_self _)
    refine ⟨hread, fun i j hcell hsolid => ?_, fun i j hwanted => ?_⟩
    · by_contra hnot
      -- a buffer that has another colour in this place
      have hkept := hright.others (fun _ => colour bw bits q i j + 1) (place w (q.x + i, q.y + j))
        fun i' j' hwanted hplace => ?_
      · rw [transferred_at hwritten hcell hsolid] at hkept
        exact absurd hkept (by simp)
      · have heq := place_injective hwanted.2.1 (hwritten i j hcell hsolid) hplace
        obtain ⟨hi, hj⟩ := Prod.mk.injEq .. ▸ heq
        have hi' : i' = i := by omega
        have hj' : j' = j := by omega
        exact hnot (hi' ▸ hj' ▸ hwanted)
    · by_contra hnot
      have hcopied := hright.copied (fun _ => colour bw bits q i j + 1) i j hwanted
      rw [transferred_other] at hcopied
      · exact absurd hcopied (by simp [colour])
      · intro i' j' hcell hsolid hplace
        have heq := place_injective (hwritten i' j' hcell hsolid) hwanted.2.1 hplace
        obtain ⟨hi, hj⟩ := Prod.mk.injEq .. ▸ heq
        have hi' : i' = i := by omega
        have hj' : j' = j := by omega
        exact hnot (hi' ▸ hj' ▸ hcell)
  · rintro ⟨hread, hsolid, hwanted⟩
    have hwritten : ∀ i j, Cell cols rows i j → Opaque (colour bw bits q i j) →
      InBounds w h (q.x + i, q.y + j) :=
      fun i j hcell hop => (hsolid i j hcell hop).2.1
    refine ⟨fun move hmove => ?_, fun move hmove hop p hp => ?_, fun m i j hw => ?_,
      fun m a hne => ?_⟩
    · obtain ⟨i, j, hcell, rfl⟩ := mem_moves.1 hmove
      exact hread i j hcell
    · obtain ⟨i, j, hcell, rfl⟩ := mem_moves.1 hmove
      rw [List.mem_singleton.1 hp]
      exact hwritten i j hcell hop
    · exact transferred_at hwritten (hwanted i j hw) hw.2.2.2 m
    · exact transferred_other (fun i j hcell hop => hne i j (hsolid i j hcell hop)) m

end Moves

/-! ## The loops -/

/-- `n` steps from `a` on do not leave the range of an `int`. -/
def CountsTo (a : ℤ) (n : ℕ) : Prop := n = 0 ∨ a + n < 2147483648

instance (a : ℤ) (n : ℕ) : Decidable (CountsTo a n) := inferInstanceAs (Decidable (_ ∨ _))

theorem countsTo_succ {a : ℤ} {n : ℕ} (ha : InRange a) :
    CountsTo a (n + 1) ↔ InRange (a + 1) ∧ CountsTo (a + 1) n := by
  unfold InRange at ha ⊢
  unfold CountsTo
  omega

theorem bitbltRow_eq (vy by2 : ℤ) (n : ℕ) {vx bx2 : ℤ} (hbx : InRange bx2) :
    bitbltRow vy by2 n vx bx2 =
    if CountsTo bx2 n then
      some ((List.range n).map fun i : ℕ => (⟨(bx2 + i, by2), [(vx + i, vy)]⟩ : Move))
    else none := by
  induction n generalizing vx bx2 with
  | zero => rfl
  | succ n ih =>
    unfold bitbltRow
    by_cases hnext : InRange (bx2 + 1)
    · rw [int32_of_inRange hnext]
      simp only [Option.bind_eq_bind, Option.bind_some, ih hnext, countsTo_succ hbx, hnext,
        true_and]
      split_ifs
      · rw [Option.bind_some, List.range_succ_eq_map, List.map_cons, List.map_map]
        simp [Function.comp_def, add_assoc, add_comm (1 : ℤ)]
      · rfl
    · rw [int32, if_neg hnext, if_neg fun hcounts => hnext ((countsTo_succ hbx).1 hcounts).1]
      rfl

/-- The loops count no further than an `int` can. -/
def Counts (bx by2 : ℤ) (cols rows : ℕ) : Prop := rows = 0 ∨ CountsTo by2 rows ∧ CountsTo bx cols

instance (bx by2 : ℤ) (cols rows : ℕ) : Decidable (Counts bx by2 cols rows) :=
  inferInstanceAs (Decidable (_ ∨ _))

theorem counts_succ {bx by2 : ℤ} {cols n : ℕ} (hby : InRange by2) :
    Counts bx by2 cols (n + 1) ↔ CountsTo bx cols ∧ InRange (by2 + 1) ∧
      Counts bx (by2 + 1) cols n := by
  unfold Counts
  rw [countsTo_succ hby]
  unfold CountsTo
  have hne : n + 1 ≠ 0 := Nat.succ_ne_zero n
  tauto

theorem bitbltRows_eq (x : ℤ) {bx : ℤ} (cols n : ℕ) {vy by2 : ℤ} (hbx : InRange bx)
    (hby : InRange by2) :
    bitbltRows x bx cols n vy by2 =
      if Counts bx by2 cols n then
        some ((List.range n).flatMap fun j : ℕ => (List.range cols).map fun i : ℕ =>
          (⟨(bx + i, by2 + j), [(x + i, vy + j)]⟩ : Move))
      else none := by
  induction n generalizing vy by2 with
  | zero => rfl
  | succ n ih =>
    unfold bitbltRows
    rw [bitbltRow_eq vy by2 cols hbx]
    by_cases hcols : CountsTo bx cols
    · rw [if_pos hcols]
      by_cases hnext : InRange (by2 + 1)
      · rw [int32_of_inRange hnext]
        simp only [Option.bind_eq_bind, Option.bind_some, ih hnext, counts_succ hby, hcols, hnext,
          true_and]
        split_ifs
        · rw [Option.bind_some, List.range_succ_eq_map, List.flatMap_cons, List.flatMap_map]
          simp [add_assoc, add_comm (1 : ℤ)]
        · rfl
      · rw [int32, if_neg hnext, if_neg fun hcounts => hnext ((counts_succ hby).1 hcounts).2.1]
        rfl
    · rw [if_neg hcols, if_neg fun hcounts => hcols ((counts_succ hby).1 hcounts).1]
      rfl

/-- The loops go through a rectangle. -/
theorem bitbltRows_moves {q : Request} (hq : q.Ints) (cols rows : ℕ) :
    bitbltRows q.x q.bx cols rows q.y q.by' =
      if Counts q.bx q.by' cols rows then some (moves q cols rows) else none :=
  bitbltRows_eq q.x cols rows hq.bx hq.by'

/-! ## When a transfer is right -/

/-- What the clipping to a bitmap may make of a length: right from a start in the bitmap, and
nothing only if there is nothing to copy. -/
structure Clipped (size start len part : ℤ) : Prop where
  fits : 0 ≤ start → start < size → part ≤ size - start
  full : 0 ≤ start → start < size → 0 ≤ len → part = min len (size - start)
  nothing : part ≤ 0 → ∀ i, 0 ≤ i → i < len → 0 ≤ start + i → size ≤ start + i

/-- `(i, j)` is in the part that is gone through. -/
def Reached (w h : ℤ) (q : Request) (w' h' i j : ℤ) : Prop :=
  ((0 ≤ i ∧ i < w') ∧ q.x + i < w) ∧ (0 ≤ j ∧ j < h') ∧ q.y + j < h

/-- A transfer of `w'` times `h'` pixels is right: there is nothing to copy, or the rectangle
begins beyond the right or the lower edge of the view; or it begins in the bitmap, and what is not
transparent in it is neither to the left of the view nor above it, and was not asked for with a
negative size. -/
def BitbltRight (w h bw bh : ℤ) (bits : ℤ → BitVec 32) (q : Request) (w' h' : ℤ) : Prop :=
  (w' ≤ 0 ∨ h' ≤ 0) ∨
    (q.x + w' < 2147483648 ∧ q.y + h' < 2147483648) ∧
      (h ≤ q.y ∨ (w ≤ q.x ∧ q.by' + min h' (h - q.y) < 2147483648) ∨
        ((0 ≤ q.bx ∧ q.bx < bw) ∧ 0 ≤ q.by' ∧ q.by' < bh) ∧
          ∀ i j, Reached w h q w' h' i j → Opaque (colour bw bits q i j) →
            (0 ≤ q.x + i ∧ 0 ≤ q.y + j) ∧ 0 ≤ q.width ∧ 0 ≤ q.height)

/-- The part of the two routines after the clipping to the bitmap. -/
def bitbltPart (w h : ℤ) (q : Request) (w' h' : ℤ) : Option (List Move) :=
  if w' ≤ 0 ∨ h' ≤ 0 then some []
  else (int32 (q.y + h')).bind fun bottom => (int32 (q.x + w')).bind fun right =>
    bitbltRows q.x q.bx (min right w - q.x).toNat (min bottom h - q.y).toNat q.y q.by'

section Right

variable {w h bw bh w' h' : ℤ} {bits : ℤ → BitVec 32} {q : Request}

theorem transfersExactly_some {l : List Move} :
    TransfersExactly w h bw bh bits q (some l) ↔ Transfers w h bw bh bits q l := by
  unfold TransfersExactly
  simp

theorem not_transfersExactly_none : ¬TransfersExactly w h bw bh bits q none := by
  rintro ⟨l, hl, -⟩
  cases hl

theorem transfersExactly_ite {c : Prop} [Decidable c] {l : List Move} :
    TransfersExactly w h bw bh bits q (if c then some l else none) ↔
      c ∧ Transfers w h bw bh bits q l := by
  split_ifs with hc
  · rw [transfersExactly_some, and_iff_right hc]
  · exact iff_of_false not_transfersExactly_none fun hboth => hc hboth.1

/-- The loops of the part, where the sums are defined. -/
theorem bitbltPart_eq (hq : q.Ints) (hw : 0 < w') (hh : 0 < h') : bitbltPart w h q w' h' =
    if (q.x + w' < 2147483648 ∧ q.y + h' < 2147483648) ∧
        Counts q.bx q.by' (min w' (w - q.x)).toNat (min h' (h - q.y)).toNat then
      some (moves q (min w' (w - q.x)).toNat (min h' (h - q.y)).toNat)
    else none := by
  have hx := hq.x
  have hy := hq.y
  unfold InRange at hx hy
  unfold bitbltPart
  rw [if_neg (by omega)]
  by_cases hbottom : q.y + h' < 2147483648
  · rw [int32_of_inRange (⟨by omega, hbottom⟩ : InRange (q.y + h')), Option.bind_some]
    by_cases hright : q.x + w' < 2147483648
    · rw [int32_of_inRange (⟨by omega, hright⟩ : InRange (q.x + w')), Option.bind_some,
        bitbltRows_moves hq]
      have hcols : (min (q.x + w') w - q.x).toNat = (min w' (w - q.x)).toNat := by omega
      have hrows : (min (q.y + h') h - q.y).toNat = (min h' (h - q.y)).toNat := by omega
      rw [hcols, hrows]
      exact if_congr ⟨fun hcounts => ⟨⟨hright, hbottom⟩, hcounts⟩, fun hboth => hboth.2⟩ rfl rfl
    · rw [int32, if_neg (fun hrange => hright hrange.2), if_neg (fun hboth => hright hboth.1.1)]
      rfl
  · rw [int32, if_neg (fun hrange => hbottom hrange.2), if_neg (fun hboth => hbottom hboth.1.2)]
    rfl

/-- Nothing is copied where nothing is wanted. -/
theorem transfers_nil_iff :
    Transfers w h bw bh bits q [] ↔ ∀ i j, ¬Wanted w h bw bh bits q i j := by
  have hmoves : Transfers w h bw bh bits q [] ↔ Transfers w h bw bh bits q (moves q 0 0) := Iff.rfl
  rw [hmoves, transfers_moves_iff]
  unfold Cell
  constructor
  · rintro ⟨-, -, hwanted⟩ i j hij
    have hcell := (hwanted i j hij).1
    omega
  · intro hnone
    refine ⟨fun i j hcell => ?_, fun i j hcell => ?_, fun i j hij => (hnone i j hij).elim⟩
    · omega
    · omega

theorem cell_iff_reached {i j : ℤ} :
    Cell (min w' (w - q.x)).toNat (min h' (h - q.y)).toNat i j ↔ Reached w h q w' h' i j := by
  unfold Cell Reached
  omega

/-- A rectangle that begins beyond the right or the lower edge of the view. -/
theorem transfers_of_beyond (hbeyond : h ≤ q.y ∨ w ≤ q.x) :
    Transfers w h bw bh bits q (moves q (min w' (w - q.x)).toNat (min h' (h - q.y)).toNat) := by
  rw [transfers_moves_iff]
  refine ⟨fun i j hcell => ?_, fun i j hcell => ?_, fun i j hwanted => ?_⟩
  · rw [cell_iff_reached] at hcell
    unfold Reached at hcell
    omega
  · rw [cell_iff_reached] at hcell
    unfold Reached at hcell
    omega
  · obtain ⟨⟨hi, hj⟩, hin, -⟩ := hwanted
    rw [inBounds_mk] at hin
    omega

/-- A rectangle that begins to the left of both edges or above them. -/
theorem transfers_part_iff (hw : 0 < w') (hh : 0 < h') (hx : q.x < w) (hy : q.y < h)
    (hcw : Clipped bw q.bx q.width w') (hch : Clipped bh q.by' q.height h') :
    Transfers w h bw bh bits q (moves q (min w' (w - q.x)).toNat (min h' (h - q.y)).toNat) ↔
      ((0 ≤ q.bx ∧ q.bx < bw) ∧ 0 ≤ q.by' ∧ q.by' < bh) ∧
        ∀ i j, Reached w h q w' h' i j → Opaque (colour bw bits q i j) →
          (0 ≤ q.x + i ∧ 0 ≤ q.y + j) ∧ 0 ≤ q.width ∧ 0 ≤ q.height := by
  rw [transfers_moves_iff]
  simp only [cell_iff_reached]
  constructor
  · rintro ⟨hread, hsolid, -⟩
    have hfirst := hread 0 0 ⟨⟨⟨le_rfl, hw⟩, by omega⟩, ⟨le_rfl, hh⟩, by omega⟩
    rw [add_zero, add_zero] at hfirst
    refine ⟨hfirst, fun i j hreached hop => ?_⟩
    obtain ⟨⟨hi, hj⟩, hin, -⟩ := hsolid i j hreached hop
    rw [inBounds_mk] at hin
    omega
  · rintro ⟨⟨⟨hbx0, hbx⟩, hby0, hby⟩, hsolid⟩
    have hfitw := hcw.fits hbx0 hbx
    have hfith := hch.fits hby0 hby
    have hread : ∀ i j, Reached w h q w' h' i j → InBounds bw bh (q.bx + i, q.by' + j) := by
      intro i j hreached
      unfold Reached at hreached
      rw [inBounds_mk]
      omega
    refine ⟨hread, fun i j hreached hop => ?_, fun i j hwanted => ?_⟩
    · obtain ⟨hleft, hwidth, hheight⟩ := hsolid i j hreached hop
      have hfullw := hcw.full hbx0 hbx hwidth
      have hfullh := hch.full hby0 hby hheight
      refine ⟨?_, ?_, hread i j hreached, hop⟩
      · unfold Reached at hreached
        omega
      · unfold Reached at hreached
        rw [inBounds_mk]
        omega
    · obtain ⟨⟨hi, hj⟩, hin, hsrc, -⟩ := hwanted
      rw [inBounds_mk] at hin hsrc
      have hfullw := hcw.full hbx0 hbx (by omega)
      have hfullh := hch.full hby0 hby (by omega)
      unfold Reached
      omega

/-- **When a transfer is right**, after any clipping. -/
theorem bitbltPart_right_iff (hb : Bits bw bh) (hq : q.Ints) (hcw : Clipped bw q.bx q.width w')
    (hch : Clipped bh q.by' q.height h') :
    TransfersExactly w h bw bh bits q (bitbltPart w h q w' h') ↔
      BitbltRight w h bw bh bits q w' h' := by
  unfold BitbltRight
  by_cases hnothing : w' ≤ 0 ∨ h' ≤ 0
  · unfold bitbltPart
    rw [if_pos hnothing, transfersExactly_some, transfers_nil_iff]
    refine iff_of_true (fun i j hwanted => ?_) (Or.inl hnothing)
    obtain ⟨⟨⟨hi0, hi⟩, hj0, hj⟩, -, ⟨⟨hbx0, hbx⟩, hby0, hby⟩, -⟩ := hwanted
    rcases hnothing with hw | hh
    · have hout := hcw.nothing hw i hi0 hi hbx0
      exact absurd hbx (not_lt.2 hout)
    · have hout := hch.nothing hh j hj0 hj hby0
      exact absurd hby (not_lt.2 hout)
  · rw [not_or, not_le, not_le] at hnothing
    obtain ⟨hw, hh⟩ := hnothing
    rw [bitbltPart_eq hq hw hh]
    have hne : ¬(w' ≤ 0 ∨ h' ≤ 0) := by omega
    rw [or_iff_right hne]
    rw [transfersExactly_ite, and_assoc]
    refine and_congr_right fun hsums => ?_
    constructor
    · rintro ⟨hcounts, hright⟩
      by_cases hy : h ≤ q.y
      · exact Or.inl hy
      · by_cases hx : w ≤ q.x
        · refine Or.inr (Or.inl ⟨hx, ?_⟩)
          unfold Counts CountsTo at hcounts
          omega
        · exact Or.inr (Or.inr ((transfers_part_iff hw hh (not_le.1 hx) (not_le.1 hy) hcw hch).1
            hright))
    · rintro (hy | ⟨hx, hcount⟩ | ⟨⟨⟨hbx0, hbx⟩, hby0, hby⟩, hsolid⟩)
      · exact ⟨Or.inl (by omega), transfers_of_beyond (Or.inl hy)⟩
      · refine ⟨?_, transfers_of_beyond (Or.inr hx)⟩
        unfold Counts CountsTo
        omega
      · have hfitw := hcw.fits hbx0 hbx
        have hfith := hch.fits hby0 hby
        obtain ⟨hbw, hbh, -⟩ := hb.bounds ⟨by omega, by omega⟩
        refine ⟨?_, ?_⟩
        · unfold Counts CountsTo
          omega
        · by_cases hbeyond : h ≤ q.y ∨ w ≤ q.x
          · exact transfers_of_beyond hbeyond
          · rw [not_or, not_le, not_le] at hbeyond
            exact (transfers_part_iff hw hh hbeyond.2 hbeyond.1 hcw hch).2
              ⟨⟨⟨hbx0, hbx⟩, hby0, hby⟩, hsolid⟩

/-! ## The two routines -/

/-- What `view_render_bitblt` makes of a length: a negative one is greater than the size of the
bitmap, and so is the difference if the start is beyond the bitmap. -/
def unsignedPart (size start len : ℤ) : ℤ :=
  if 0 ≤ start ∧ start ≤ size then min (if len < 0 then size else min len size) (size - start)
  else if len < 0 then size else min len size

/-- What `dwin_layer_bitblt` makes of a length. -/
def signedPart (size start len : ℤ) : ℤ := min (min len size) (size - start)

theorem clipped_unsignedPart {size start len : ℤ} (hsize : 0 ≤ size) :
    Clipped size start len (unsignedPart size start len) := by
  unfold unsignedPart
  refine ⟨fun h0 h1 => ?_, fun h0 h1 hlen => ?_, fun hpart i hi0 hi hstart => ?_⟩
  · split_ifs <;> omega
  · split_ifs <;> omega
  · split_ifs at hpart <;> omega

theorem clipped_signedPart (size start len : ℤ) :
    Clipped size start len (signedPart size start len) := by
  unfold signedPart
  refine ⟨fun h0 h1 => ?_, fun h0 h1 hlen => ?_, fun hpart i hi0 hi hstart => ?_⟩ <;> omega

/-- The clipping of `view_render_bitblt` to a bitmap that has pixels. -/
theorem uMin_eq {size start len : ℤ} (hsize : 0 ≤ size ∧ size ≤ 1073741824) (hstart : InRange start)
    (hlen : InRange len) :
    uMin (if size < u32 len then wrap size else len) (size - start) =
      unsignedPart size start len := by
  unfold InRange at hstart hlen
  unfold uMin unsignedPart u32 wrap
  split_ifs <;> omega

/-- The clipping to a bitmap that has none. -/
theorem uMin_void (start : ℤ) {len : ℤ} (hlen : InRange len) :
    uMin (if (0 : ℤ) < u32 len then wrap 0 else len) (0 - start) ≤ 0 ∧
      unsignedPart 0 start len ≤ 0 := by
  unfold InRange at hlen
  unfold uMin unsignedPart u32 wrap
  constructor
  · split_ifs <;> omega
  · split_ifs <;> omega

theorem viewRenderBitblt_eq (hb : Bits bw bh) (hq : q.Ints) : viewRenderBitblt w h bw bh q =
    bitbltPart w h q (unsignedPart bw q.bx q.width) (unsignedPart bh q.by' q.height) := by
  change bitbltPart w h q (uMin (if bw < u32 q.width then wrap bw else q.width) (bw - q.bx))
    (uMin (if bh < u32 q.height then wrap bh else q.height) (bh - q.by')) = _
  by_cases hlast : HasLast bw bh
  · obtain ⟨hbw, hbh, -⟩ := hb.bounds hlast
    rw [uMin_eq ⟨hb.width_nonneg, hbw⟩ hq.bx hq.width,
      uMin_eq ⟨hb.height_nonneg, hbh⟩ hq.by' hq.height]
  · have hw := hb.width_nonneg
    have hh := hb.height_nonneg
    unfold HasLast at hlast
    unfold bitbltPart
    rcases (by omega : bw = 0 ∨ bh = 0) with rfl | rfl
    · obtain ⟨hcode, hpart⟩ := uMin_void q.bx hq.width
      rw [if_pos (Or.inl hcode), if_pos (Or.inl hpart)]
    · obtain ⟨hcode, hpart⟩ := uMin_void q.by' hq.height
      rw [if_pos (Or.inr hcode), if_pos (Or.inr hpart)]

theorem viewRenderBitblt_right_iff (hb : Bits bw bh) (hq : q.Ints) :
    TransfersExactly w h bw bh bits q (viewRenderBitblt w h bw bh q) ↔
      BitbltRight w h bw bh bits q (unsignedPart bw q.bx q.width)
      (unsignedPart bh q.by' q.height) := by
  rw [viewRenderBitblt_eq hb hq]
  exact bitbltPart_right_iff hb hq (clipped_unsignedPart hb.width_nonneg)
    (clipped_unsignedPart hb.height_nonneg)

/-- The arguments of `dwin_layer_bitblt` with a rectangle. -/
def Request.rect (q : Request) : Rect := ⟨q.bx, q.by', q.width, q.height⟩

theorem dwinLayerBitblt_eq (hbw : 0 ≤ bw ∧ bw < 2147483648) (hbh : 0 ≤ bh ∧ bh < 2147483648)
    (hq : q.Ints) :
    dwinLayerBitblt w h bw bh q.x q.y (some q.rect) =
      if bw - q.bx < 2147483648 ∧ bh - q.by' < 2147483648 then
        bitbltPart w h q (signedPart bw q.bx q.width) (signedPart bh q.by' q.height)
      else none := by
  have hbx := hq.bx
  have hby := hq.by'
  unfold InRange at hbx hby
  have hwidth : min (if bw < q.width then bw else q.width) (bw - q.bx) =
      signedPart bw q.bx q.width := by
    unfold signedPart
    split_ifs <;> omega
  have hheight : min (if bh < q.height then bh else q.height) (bh - q.by') =
      signedPart bh q.by' q.height := by
    unfold signedPart
    split_ifs <;> omega
  unfold dwinLayerBitblt Request.rect
  by_cases hdx : bw - q.bx < 2147483648
  · by_cases hdy : bh - q.by' < 2147483648
    · rw [if_pos ⟨hdx, hdy⟩]
      simp only [int32_of_inRange (⟨by omega, hdx⟩ : InRange (bw - q.bx)),
        int32_of_inRange (⟨by omega, hdy⟩ : InRange (bh - q.by')), Option.bind_eq_bind,
        Option.bind_some, hwidth, hheight]
      rfl
    · rw [if_neg fun hboth => hdy hboth.2]
      have hdy' : int32 (bh - q.by') = none := if_neg fun hrange => hdy hrange.2
      simp only [hdy', Option.bind_eq_bind, Option.bind_none, Option.bind_fun_none]
  · rw [if_neg fun hboth => hdx hboth.1]
    have hdx' : int32 (bw - q.bx) = none := if_neg fun hrange => hdx hrange.2
    simp only [hdx', Option.bind_eq_bind, Option.bind_none]

theorem dwinLayerBitblt_right_iff (hb : Bits bw bh) (hbw : bw < 2147483648) (hbh : bh < 2147483648)
    (hq : q.Ints) :
    TransfersExactly w h bw bh bits q (dwinLayerBitblt w h bw bh q.x q.y (some q.rect)) ↔
      (bw - q.bx < 2147483648 ∧ bh - q.by' < 2147483648) ∧
        BitbltRight w h bw bh bits q (signedPart bw q.bx q.width)
        (signedPart bh q.by' q.height) := by
  rw [dwinLayerBitblt_eq ⟨hb.width_nonneg, hbw⟩ ⟨hb.height_nonneg, hbh⟩ hq]
  split_ifs with hdefined
  · rw [and_iff_right hdefined]
    exact bitbltPart_right_iff hb hq (clipped_signedPart bw q.bx q.width)
      (clipped_signedPart bh q.by' q.height)
  · exact iff_of_false not_transfersExactly_none fun hboth => hdefined hboth.1

/-- A buffer of `bw` times `bh` as a whole. -/
def wholeRequest (bw bh x y : ℤ) : Request := ⟨x, y, 0, 0, bw, bh⟩

theorem bitbltPart_cases (w' h' : ℤ) (hq : q.Ints) : bitbltPart w h q w' h' = none ∨
    ∃ cols rows : ℕ, rows ≤ h'.toNat ∧ bitbltPart w h q w' h' = some (moves q cols rows) := by
  by_cases hnothing : w' ≤ 0 ∨ h' ≤ 0
  · exact Or.inr ⟨0, 0, Nat.zero_le _, if_pos hnothing⟩
  · rw [not_or, not_le, not_le] at hnothing
    rw [bitbltPart_eq hq hnothing.1 hnothing.2]
    split_ifs
    · exact Or.inr ⟨_, _, by omega, rfl⟩
    · exact Or.inl rfl

/-- The part of a buffer that has as many rows as columns is right for the whole if no other row is
to be seen. -/
theorem whole_right_iff {x y : ℤ} (hq : (wholeRequest bw bw x y).Ints) :
    TransfersExactly w h bw bh bits (wholeRequest bw bh x y)
    (bitbltPart w h (wholeRequest bw bw x y) bw (min bw bh)) ↔
      TransfersExactly w h bw bh bits (wholeRequest bw bw x y)
          (bitbltPart w h (wholeRequest bw bw x y) bw (min bw bh)) ∧
        ∀ i j, Wanted w h bw bh bits (wholeRequest bw bh x y) i j → j < bw := by
  have hsquare : ∀ i j, Wanted w h bw bh bits (wholeRequest bw bw x y) i j ↔
      Wanted w h bw bh bits (wholeRequest bw bh x y) i j ∧ j < bw := by
    intro i j
    unfold Wanted wholeRequest InBounds
    simp only [zero_add]
    tauto
  rcases bitbltPart_cases bw (min bw bh) hq with hnone | ⟨cols, rows, hrows, hsome⟩
  · rw [hnone]
    exact iff_of_false not_transfersExactly_none fun hboth => not_transfersExactly_none hboth.1
  · have hmoves : moves (wholeRequest bw bw x y) cols rows =
      moves (wholeRequest bw bh x y) cols rows := rfl
    have hlow : ∀ i j, Cell cols rows i j → j < bw := by
      intro i j hcell
      unfold Cell at hcell
      omega
    rw [hsome, transfersExactly_some, transfersExactly_some, transfers_moves_iff, hmoves,
      transfers_moves_iff]
    simp only [hsquare]
    constructor
    · rintro ⟨hread, hsolid, hwanted⟩
      exact ⟨⟨hread, fun i j hcell hop => ⟨hsolid i j hcell hop, hlow i j hcell⟩,
        fun i j hboth => hwanted i j hboth.1⟩, fun i j hw => hlow i j (hwanted i j hw)⟩
    · rintro ⟨⟨hread, hsolid, hwanted⟩, hseen⟩
      exact ⟨hread, fun i j hcell hop => (hsolid i j hcell hop).1,
        fun i j hw => hwanted i j ⟨hw, hseen i j hw⟩⟩

/-- **The whole of a buffer**: it is right as one with as many rows as columns, and if the rows
that are left out have nothing to show. -/
theorem dwinLayerBitblt_whole_iff {x y : ℤ} (hb : Bits bw bh) (hbw : bw < 2147483648)
    (hbh : bh < 2147483648) (hx : InRange x) (hy : InRange y) :
    TransfersExactly w h bw bh bits (wholeRequest bw bh x y) (dwinLayerBitblt w h bw bh x y none) ↔
      BitbltRight w h bw bh bits (wholeRequest bw bw x y) bw (min bw bh) ∧
        ∀ i j, Wanted w h bw bh bits (wholeRequest bw bh x y) i j → j < bw := by
  have hw0 := hb.width_nonneg
  have hh0 := hb.height_nonneg
  have hq : (wholeRequest bw bw x y).Ints := by
    refine ⟨hx, hy, (by decide : InRange 0), (by decide : InRange 0), ?_, ?_⟩ <;>
      exact ⟨by change -2147483648 ≤ bw; omega, hbw⟩
  have heq : dwinLayerBitblt w h bw bh x y none =
      bitbltPart w h (wholeRequest bw bw x y) bw (min bw bh) := by
    have hrect := dwinLayerBitblt_eq (w := w) (h := h) ⟨hw0, hbw⟩ ⟨hh0, hbh⟩ hq
    have hwidth : signedPart bw 0 bw = bw := by
      unfold signedPart
      omega
    have hheight : signedPart bh 0 bw = min bw bh := by
      unfold signedPart
      omega
    unfold wholeRequest at hrect ⊢
    simp only [sub_zero, hbw, hbh, and_self, if_true, hwidth, hheight] at hrect
    exact hrect
  rw [heq, whole_right_iff hq]
  refine and_congr_left fun _ => bitbltPart_right_iff hb hq ⟨?_, ?_, ?_⟩ ⟨?_, ?_, ?_⟩
  all_goals
    unfold wholeRequest
    simp only
    intros
    omega

end Right

/-! ## Rectangles that need no clipping -/

section Unclipped

variable {w h bw bh : ℤ} {bits : ℤ → BitVec 32} {q : Request}

/-- A rectangle that is in the bitmap and in the view. -/
structure Unclipped (w h bw bh : ℤ) (q : Request) : Prop where
  columns : 0 ≤ q.x ∧ q.x + q.width ≤ w
  rows : 0 ≤ q.y ∧ q.y + q.height ≤ h
  srcColumns : 0 ≤ q.bx ∧ q.bx + q.width ≤ bw
  srcRows : 0 ≤ q.by' ∧ q.by' + q.height ≤ bh
  width : 0 ≤ q.width
  height : 0 ≤ q.height

theorem Unclipped.transfers (hu : Unclipped w h bw bh q) :
    Transfers w h bw bh bits q (moves q q.width.toNat q.height.toNat) := by
  obtain ⟨hcolumns, hrows, hsrcColumns, hsrcRows, hwidth, hheight⟩ := hu
  have hread : ∀ i j, Cell q.width.toNat q.height.toNat i j →
      InBounds bw bh (q.bx + i, q.by' + j) := by
    intro i j hcell
    unfold Cell at hcell
    rw [inBounds_mk]
    omega
  refine transfers_moves_iff.2 ⟨hread, fun i j hcell hop => ?_, fun i j hwanted => ?_⟩
  · refine ⟨?_, ?_, hread i j hcell, hop⟩
    · unfold Cell at hcell
      omega
    · unfold Cell at hcell
      rw [inBounds_mk]
      omega
  · have hsize := hwanted.1
    unfold Cell
    omega

theorem moves_of_empty {cols rows : ℕ} (hempty : cols = 0 ∨ rows = 0) : moves q cols rows = [] := by
  unfold moves
  rcases hempty with rfl | rfl
  · simp
  · rfl

/-- The two routines go through the rectangle. -/
theorem Unclipped.bitbltPart_eq (hu : Unclipped w h bw bh q) (hw : w < 2147483648)
    (hh : h < 2147483648) (hbw : bw < 2147483648) (hbh : bh < 2147483648) (hq : q.Ints) :
    bitbltPart w h q q.width q.height = some (moves q q.width.toNat q.height.toNat) := by
  obtain ⟨hcolumns, hrows, hsrcColumns, hsrcRows, hwidth, hheight⟩ := hu
  by_cases hempty : q.width ≤ 0 ∨ q.height ≤ 0
  · rw [moves_of_empty (by omega), bitbltPart, if_pos hempty]
  · rw [not_or, not_le, not_le] at hempty
    have hcols : min q.width (w - q.x) = q.width := by omega
    have hlines : min q.height (h - q.y) = q.height := by omega
    rw [Render.bitbltPart_eq hq hempty.1 hempty.2, hcols, hlines, if_pos]
    unfold Counts CountsTo
    omega

/-- The inner loop of `view_bitmap_blit` inside of both bitmaps. -/
theorem blitRow_eq {sw sh dw dh sy dy : ℤ} (hsy : 0 ≤ sy ∧ sy < sh) (hdy : 0 ≤ dy ∧ dy < dh)
    (hsw : sw < 2147483648) (hdw : dw < 2147483648) (n : ℕ) {sx dx : ℤ}
    (hsx : 0 ≤ sx ∧ sx + n ≤ sw) (hdx : 0 ≤ dx ∧ dx + n ≤ dw) : blitRow sw sh dw dh sy dy n n sx
    dx =
      some ((List.range n).map fun i : ℕ => (⟨(sx + i, sy), [(dx + i, dy)]⟩ : Move)) := by
  induction n generalizing sx dx with
  | zero => rfl
  | succ n ih =>
    push_cast at hsx hdx
    have hpixel : blitPixel sw sh dw dh sx sy dx dy = [⟨(sx, sy), [(dx, dy)]⟩] := by
      unfold blitPixel viewBitmapPutpixel u32
      rw [if_neg (by omega), if_neg (by omega)]
    unfold blitRow
    rw [int32_of_inRange (⟨by omega, by omega⟩ : InRange (sx + 1)),
      int32_of_inRange (⟨by omega, by omega⟩ : InRange (dx + 1))]
    simp only [Option.bind_eq_bind, Option.bind_some]
    rw [ih ⟨by omega, by omega⟩ ⟨by omega, by omega⟩, Option.bind_some, hpixel,
      List.range_succ_eq_map, List.map_cons, List.map_map]
    simp [Function.comp_def, add_assoc, add_comm (1 : ℤ)]

theorem blitRows_eq {sw sh dw dh : ℤ} {src dst : Rect} (hsw : sw < 2147483648)
    (hsh : sh < 2147483648) (hdw : dw < 2147483648) (hdh : dh < 2147483648) (hsize : src.w = dst.w)
    (hsx : 0 ≤ src.x ∧ src.x + src.w ≤ sw)
    (hdx : 0 ≤ dst.x ∧ dst.x + dst.w ≤ dw) (hwidth : 0 ≤ src.w) (n : ℕ) {sy dy : ℤ}
    (hsy : 0 ≤ sy ∧ sy + n ≤ sh)
    (hdy : 0 ≤ dy ∧ dy + n ≤ dh) : blitRows sw sh dw dh src dst n n sy dy =
      some ((List.range n).flatMap fun j : ℕ => (List.range src.w.toNat).map fun i : ℕ =>
        (⟨(src.x + i, sy + j), [(dst.x + i, dy + j)]⟩ : Move)) := by
  induction n generalizing sy dy with
  | zero => rfl
  | succ n ih =>
    push_cast at hsy hdy
    unfold blitRows
    rw [← hsize, blitRow_eq ⟨hsy.1, by omega⟩
      ⟨hdy.1, by omega⟩ hsw hdw src.w.toNat ⟨hsx.1, by omega⟩
      ⟨hdx.1, by omega⟩, int32_of_inRange (⟨by omega, by omega⟩ : InRange (sy + 1)),
      int32_of_inRange (⟨by omega, by omega⟩ : InRange (dy + 1))]
    simp only [Option.bind_eq_bind, Option.bind_some]
    rw [ih ⟨by omega, by omega⟩ ⟨by omega, by omega⟩, Option.bind_some, List.range_succ_eq_map,
      List.flatMap_cons, List.flatMap_map]
    simp [add_assoc, add_comm (1 : ℤ)]

/-- A rectangle that is in the bitmap is gone through as it is. -/
theorem blitRect_eq {bw bh : ℤ} {r : Option Rect} (hbw : bw < 2147483648) (hbh : bh < 2147483648)
    {rect : Rect} (hrect : r.getD ⟨0, 0, bw, bh⟩ = rect) (hw : 0 ≤ rect.w ∧ rect.w ≤ bw)
    (hh : 0 ≤ rect.h ∧ rect.h ≤ bh) :
    blitRect bw bh r = rect := by
  cases r with
  | none =>
    subst hrect
    simp only [Option.getD_none] at hw hh ⊢
    unfold blitRect
    rw [wrap_of_inRange ⟨by omega, hbw⟩, wrap_of_inRange ⟨by omega, hbh⟩]
  | some r =>
    subst hrect
    simp only [Option.getD_some] at hw hh ⊢
    have hwidth : uMin r.w bw = r.w := by
      unfold uMin u32 wrap
      omega
    have hheight : uMin r.h bh = r.h := by
      unfold uMin u32 wrap
      omega
    change (⟨r.x, r.y, uMin r.w bw, uMin r.h bh⟩ : Rect) = r
    rw [hwidth, hheight]

/-- `view_bitmap_blit` goes through the rectangle. -/
theorem viewBitmapBlit_eq (hu : Unclipped w h bw bh q) (hw : w < 2147483648) (hh : h < 2147483648)
    (hbw : bw < 2147483648) (hbh : bh < 2147483648) {srcrect dstrect : Option Rect}
    (hsrc : srcrect.getD ⟨0, 0, bw, bh⟩ = q.rect)
    (hdst : dstrect.getD ⟨0, 0, w, h⟩ = ⟨q.x, q.y, q.width, q.height⟩) :
    viewBitmapBlit bw bh w h srcrect dstrect = some (moves q q.width.toNat q.height.toNat) := by
  obtain ⟨hcolumns, hrows, hsrcColumns, hsrcRows, hwidth, hheight⟩ := hu
  unfold viewBitmapBlit
  rw [blitRect_eq hbw hbh hsrc (by unfold Request.rect; simp only; omega)
    (by unfold Request.rect; simp only; omega),
    blitRect_eq hw hh hdst (by simp only; omega) (by simp only; omega)]
  exact @blitRows_eq bw bh w h q.rect ⟨q.x, q.y, q.width, q.height⟩ hbw hbh hw hh rfl hsrcColumns
    hcolumns hwidth
    q.height.toNat q.by' q.y ⟨hsrcRows.1, by omega⟩ ⟨hrows.1, by omega⟩

/-- The three routines do the same. -/
theorem Unclipped.agree (hu : Unclipped w h bw bh q) (hb : Bits bw bh) (hw : w < 2147483648)
    (hh : h < 2147483648)
    (hbw : bw < 2147483648) (hbh : bh < 2147483648) (hq : q.Ints) {srcrect dstrect : Option Rect}
    (hsrc : srcrect.getD ⟨0, 0, bw, bh⟩ = q.rect)
    (hdst : dstrect.getD ⟨0, 0, w, h⟩ = ⟨q.x, q.y, q.width, q.height⟩) :
    viewBitmapBlit bw bh w h srcrect dstrect = viewRenderBitblt w h bw bh q ∧
      viewBitmapBlit bw bh w h srcrect dstrect = dwinLayerBitblt w h bw bh q.x q.y (some q.rect) ∧
        TransfersExactly w h bw bh bits q (viewBitmapBlit bw bh w h srcrect dstrect) := by
  have hcode := hu.bitbltPart_eq hw hh hbw hbh hq
  have hsigned : signedPart bw q.bx q.width = q.width ∧
      signedPart bh q.by' q.height = q.height := by
    obtain ⟨-, -, hsrcColumns, hsrcRows, hwidth, hheight⟩ := hu
    unfold signedPart
    omega
  have hunsigned : unsignedPart bw q.bx q.width = q.width ∧
      unsignedPart bh q.by' q.height = q.height := by
    obtain ⟨-, -, hsrcColumns, hsrcRows, hwidth, hheight⟩ := hu
    unfold unsignedPart
    constructor
    · split_ifs <;> omega
    · split_ifs <;> omega
  rw [viewBitmapBlit_eq hu hw hh hbw hbh hsrc hdst, viewRenderBitblt_eq hb hq, hunsigned.1,
    hunsigned.2, hcode,
    dwinLayerBitblt_eq ⟨hb.width_nonneg, hbw⟩ ⟨hb.height_nonneg, hbh⟩ hq, hsigned.1, hsigned.2,
    hcode, if_pos]
  · exact ⟨rfl, rfl, transfersExactly_some.2 hu.transfers⟩
  · obtain ⟨-, -, hsrcColumns, hsrcRows, hwidth, hheight⟩ := hu
    omega

end Unclipped

/-! ## The three routines -/

/-- **Copying a part of a bitmap.**  For given pixels of the bitmap, when the routines copy exactly
the clipped rectangle; and where nothing is to be clipped, `view_bitmap_blit` does the same. -/
theorem bitblt_right {w h bw bh : ℤ} (bits : ℤ → BitVec 32) {q : Request} (hw : w < 2147483648)
    (hh : h < 2147483648)
    (hb : Bits bw bh) (hbw : bw < 2147483648) (hbh : bh < 2147483648) (hq : q.Ints) :
    (TransfersExactly w h bw bh bits q (viewRenderBitblt w h bw bh q) ↔
        BitbltRight w h bw bh bits q (unsignedPart bw q.bx q.width)
        (unsignedPart bh q.by' q.height)) ∧
      (TransfersExactly w h bw bh bits q (dwinLayerBitblt w h bw bh q.x q.y (some q.rect)) ↔
        (bw - q.bx < 2147483648 ∧ bh - q.by' < 2147483648) ∧
          BitbltRight w h bw bh bits q (signedPart bw q.bx q.width)
          (signedPart bh q.by' q.height)) ∧
      (TransfersExactly w h bw bh bits (wholeRequest bw bh q.x q.y)
        (dwinLayerBitblt w h bw bh q.x q.y none) ↔
        BitbltRight w h bw bh bits (wholeRequest bw bw q.x q.y) bw (min bw bh) ∧
          ∀ i j, Wanted w h bw bh bits (wholeRequest bw bh q.x q.y) i j → j < bw) ∧
      ∀ srcrect dstrect : Option Rect, srcrect.getD ⟨0, 0, bw, bh⟩ = q.rect →
        dstrect.getD ⟨0, 0, w, h⟩ = ⟨q.x, q.y, q.width, q.height⟩ → Unclipped w h bw bh q →
          viewBitmapBlit bw bh w h srcrect dstrect = viewRenderBitblt w h bw bh q ∧
            viewBitmapBlit bw bh w h srcrect dstrect =
              dwinLayerBitblt w h bw bh q.x q.y (some q.rect) ∧
              TransfersExactly w h bw bh bits q (viewBitmapBlit bw bh w h srcrect dstrect) :=
  ⟨viewRenderBitblt_right_iff hb hq, dwinLayerBitblt_right_iff hb hbw hbh hq,
    dwinLayerBitblt_whole_iff hb hbw hbh hq.x hq.y,
    fun _ _ hsrc hdst hu => hu.agree hb hw hh hbw hbh hq hsrc hdst⟩

/-- The lower right four pixels of a bitmap, to the upper left corner of a view. -/
theorem bitblt_right_corner : TransfersExactly 4 4 3 3 (fun _ => 0xffffffff) ⟨0, 0, 1, 1, 2, 2⟩
    (viewRenderBitblt 4 4 3 3 ⟨0, 0, 1, 1, 2, 2⟩) := by
  refine (bitblt_right (w := 4) (h := 4) (fun _ => 0xffffffff) (by decide) (by decide)
    (⟨by decide, by decide, by decide, by decide, by decide⟩ : Bits 3 3) (by decide) (by decide)
    (⟨by decide, by decide, by decide, by decide, by decide, by decide⟩ : Request.Ints
      ⟨0, 0, 1, 1, 2, 2⟩)).1.2 ?_
  refine Or.inr ⟨by decide, Or.inr (Or.inr ⟨by decide, fun i j hreached _ => ?_⟩)⟩
  unfold Reached at hreached
  refine ⟨?_, by decide⟩
  simp only
  omega

/-- One pixel is taken from beyond the right edge of a bitmap, as the difference is unsigned; one
is written to the left of a view, and one to the left of a layer; and of a buffer with two rows of
one pixel only the first is copied. -/
theorem bitblt_wrong :
    (viewRenderBitblt 4 4 3 3 ⟨0, 0, 5, 0, 1, 1⟩ = some [⟨(5, 0), [(0, 0)]⟩] ∧
      ¬TransfersExactly 4 4 3 3 (fun _ => 0xffffffff) ⟨0, 0, 5, 0, 1, 1⟩
      (viewRenderBitblt 4 4 3 3 ⟨0, 0, 5, 0, 1, 1⟩)) ∧
    (viewRenderBitblt 4 4 3 3 ⟨-1, 0, 0, 0, 1, 1⟩ = some [⟨(0, 0), [(-1, 0)]⟩] ∧
      ¬TransfersExactly 4 4 3 3 (fun _ => 0xffffffff) ⟨-1, 0, 0, 0, 1, 1⟩
        (viewRenderBitblt 4 4 3 3 ⟨-1, 0, 0, 0, 1, 1⟩)) ∧
    (dwinLayerBitblt 4 4 3 3 (-1) 0 (some ⟨0, 0, 1, 1⟩) = some [⟨(0, 0), [(-1, 0)]⟩] ∧
      ¬TransfersExactly 4 4 3 3 (fun _ => 0xffffffff) ⟨-1, 0, 0, 0, 1, 1⟩
        (dwinLayerBitblt 4 4 3 3 (-1) 0 (some ⟨0, 0, 1, 1⟩))) ∧
    dwinLayerBitblt 4 4 1 2 0 0 none = some [⟨(0, 0), [(0, 0)]⟩] ∧
      ¬TransfersExactly 4 4 1 2 (fun _ => 0xffffffff) (wholeRequest 1 2 0 0)
      (dwinLayerBitblt 4 4 1 2 0 0 none) := by
  have hbeyond : viewRenderBitblt 4 4 3 3 ⟨0, 0, 5, 0, 1, 1⟩ = some [⟨(5, 0), [(0, 0)]⟩] := by
    decide
  have hleft : viewRenderBitblt 4 4 3 3 ⟨-1, 0, 0, 0, 1, 1⟩ = some [⟨(0, 0), [(-1, 0)]⟩] := by
    decide
  have hlayer : dwinLayerBitblt 4 4 3 3 (-1) 0 (some ⟨0, 0, 1, 1⟩) =
    some [⟨(0, 0), [(-1, 0)]⟩] := by decide
  have hwhole : dwinLayerBitblt 4 4 1 2 0 0 none = some [⟨(0, 0), [(0, 0)]⟩] := by decide
  refine ⟨⟨hbeyond, fun hright => ?_⟩, ⟨hleft, fun hright => ?_⟩, ⟨hlayer, fun hright => ?_⟩,
    hwhole, fun hright => ?_⟩
  · rw [hbeyond, transfersExactly_some] at hright
    exact absurd (hright.read ⟨(5, 0), [(0, 0)]⟩ (by decide)) (by decide)
  · rw [hleft, transfersExactly_some] at hright
    exact absurd (hright.written ⟨(0, 0), [(-1, 0)]⟩ (by decide) (by decide) (-1, 0) (by decide))
      (by decide)
  · rw [hlayer, transfersExactly_some] at hright
    exact absurd (hright.written ⟨(0, 0), [(-1, 0)]⟩ (by decide) (by decide) (-1, 0) (by decide))
      (by decide)
  · rw [hwhole, transfersExactly_some] at hright
    -- the pixel of the second row is wanted
    have hwanted : Wanted 4 4 1 2 (fun _ => 0xffffffff) (wholeRequest 1 2 0 0) 0 1 := by
      refine ⟨by decide, by decide, by decide, by decide⟩
    exact absurd (hright.copied (fun _ => 0) 0 1 hwanted) (by decide)

end Render
end LightOS
