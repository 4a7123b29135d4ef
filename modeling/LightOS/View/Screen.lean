import LightOS.Lib.Painting
import LightOS.View.ScreenBasic
import LightOS.View.ZOrder

/-!
# The screen shows the topmost view

Entries of the map may be stale anywhere.  A call renews those of the pixels it draws, as far as a
view with one of the numbers in question covers them; everywhere else the topmost view is what it
was.

* `viewRefreshMap_apply`, `viewRefreshByZ_apply` — what the loops leave at one pixel.
* `viewRefresh_spec` — after both, a pixel shows its topmost view if this is one of those that are
  drawn.
* `rank`, `Highest.of_placed` — what `view_set_z` does to the numbers, and what need not be drawn.
* `screen_shows_topmost` — the runs.
-/

namespace LightOS
namespace View

open ZOrder Stacking Painting

variable {V : Type} {g : Screen V} {s : Display V} {v w : V} {r : Block} {sx sy z0 z1 : ℤ}

/-! ## Pixels -/

instance (sx sy : ℤ) (v : V) : Decidable (Covers g s sx sy v) := inferInstanceAs (Decidable (_ ∧ _))

/-- A pixel is in a rectangle. -/
def InRect (r : Block) (sx sy : ℤ) : Prop :=
  (r.left ≤ sx ∧ sx < r.right) ∧ r.top ≤ sy ∧ sy < r.bottom

instance (r : Block) (sx sy : ℤ) : Decidable (InRect r sx sy) := inferInstanceAs (Decidable (_ ∧ _))

theorem mem_cells {b : Block} {cell : ℤ × ℤ} :
    cell ∈ b.cells ↔ (b.top ≤ cell.1 ∧ cell.1 < b.bottom) ∧ b.left ≤ cell.2 ∧ cell.2 < b.right := by
  obtain ⟨vy, vx⟩ := cell
  rw [Block.cells, List.mem_product, Int.mem_range_iff, Int.mem_range_iff]

/-- Two pixels with one index are one pixel. -/
theorem index_inj {width sx' sy' : ℤ} (hx : 0 ≤ sx ∧ sx < width) (hx' : 0 ≤ sx' ∧ sx' < width)
    (h : sy * width + sx = sy' * width + sx') : sy = sy' ∧ sx = sx' := by
  have hrow : sx = sx' := by
    have hmod := congrArg (· % width) h
    simpa only [Int.add_comm (_ * width), Int.add_mul_emod_self_right, Int.emod_eq_of_lt hx.1 hx.2,
      Int.emod_eq_of_lt hx'.1 hx'.2] using hmod
  subst hrow
  have hwidth : width ≠ 0 := by omega
  exact ⟨mul_right_cancel₀ hwidth (by omega), rfl⟩

/-- **The cells of a rectangle at `x` and `y`** that are in another one are its pixels there, and
they have the index of the pixel. -/
theorem clip_cell_iff {x y w h width height : ℤ} (hx : 0 ≤ sx ∧ sx < width)
    (hy : 0 ≤ sy ∧ sy < height) (r : Block) (cell : ℤ × ℤ) :
    cell ∈ (Block.mk (max (max r.left 0 - x) 0) (max (max r.top 0 - y) 0)
      (min (min r.right width - x) w)
        (min (min r.bottom height - y) h)).cells ∧
          (y + cell.1) * width + x + cell.2 = sy * width + sx ↔
      cell = (sy - y, sx - x) ∧ InRect r sx sy ∧ (x ≤ sx ∧ sx < x + w) ∧ y ≤ sy ∧ sy < y + h := by
  obtain ⟨hx0, hx1⟩ := hx
  obtain ⟨hy0, hy1⟩ := hy
  obtain ⟨vy, vx⟩ := cell
  simp only [mem_cells, InRect, Prod.mk.injEq]
  constructor
  · rintro ⟨⟨⟨htop, hbottom⟩, hleft, hright⟩, hindex⟩
    have hcolumn : 0 ≤ x + vx ∧ x + vx < width := ⟨by omega, by omega⟩
    have hpixel : (y + vy) * width + (x + vx) = sy * width + sx := by
      rw [← hindex]
      ring
    obtain ⟨hsy, hsx⟩ := index_inj hcolumn ⟨hx0, hx1⟩ hpixel
    refine ⟨⟨by omega, by omega⟩, ⟨⟨by omega, by omega⟩, by omega, by omega⟩, ⟨by omega, by omega⟩,
      by omega, by omega⟩
  · rintro ⟨⟨rfl, rfl⟩, ⟨⟨hl, hr⟩, ht, hb⟩, ⟨hcl, hcr⟩, hct, hcb⟩
    refine ⟨⟨⟨by omega, by omega⟩, by omega, by omega⟩, ?_⟩
    ring

/-- The cells of a view in a rectangle. -/
theorem cell_iff (hon : OnScreen g sx sy) (v : V) (r : Block) (cell : ℤ × ℤ) :
    cell ∈ (viewBlock g s (clipScreen g r) v).cells ∧ screenIndex g s v cell = sy * g.width + sx ↔
      cell = (sy - s.y v, sx - s.x v) ∧ InRect r sx sy ∧ Covers g s sx sy v :=
  clip_cell_iff hon.1 hon.2 r cell

/-! ## The map -/

/-- The adjustments change nothing: the block is on the screen already.  The last one would go
beyond the view, but its case does not arise. -/
theorem mapBlock_eq (hfits : 0 < s.x v + g.viewWidth v) (hr : 0 < r.right) (hwidth : 0 < g.width) :
    mapBlock g s v (viewBlock g s (clipScreen g r) v) = some (viewBlock g s (clipScreen g r) v) ∨
      mapBlock g s v (viewBlock g s (clipScreen g r) v) = none ∧
        (viewBlock g s (clipScreen g r) v).cells = [] := by
  unfold mapBlock
  by_cases hskip : g.height ≤ s.y v + (viewBlock g s (clipScreen g r) v).top ∨
      g.width ≤ s.x v + (viewBlock g s (clipScreen g r) v).left
  · refine Or.inr ⟨if_pos hskip, List.eq_nil_iff_forall_not_mem.2 fun cell hcell => ?_⟩
    obtain ⟨⟨htop, hbottom⟩, hleft, hright⟩ := mem_cells.1 hcell
    simp only [viewBlock, clipScreen] at hskip htop hbottom hleft hright
    omega
  · rw [if_neg hskip]
    refine Or.inl (congrArg some ?_)
    simp only [viewBlock, clipScreen, Block.mk.injEq]
    refine ⟨?_, ?_, ?_, ?_⟩ <;> split_ifs <;> omega

/-- The loop over one view writes its number where it is. -/
theorem mapView_apply (hsolid : Solid g) (hon : OnScreen g sx sy) (v : V) (r : Block)
    (m : ℤ → BitVec 16) :
    mapView g s v (viewBlock g s (clipScreen g r) v) m (sy * g.width + sx) =
      if InRect r sx sy ∧ Covers g s sx sy v then BitVec.ofInt 16 (s.stack.z v)
      else m (sy * g.width + sx) := by
  classical
  have hcells := cell_iff (s := s) hon v r
  rw [mapView, foldl_update (b := BitVec.ofInt 16 (s.stack.z v)) fun _ _ _ _ => rfl]
  refine if_congr ?_ rfl rfl
  constructor
  · rintro ⟨cell, hcell, -, hindex⟩
    exact ((hcells cell).1 ⟨hcell, hindex⟩).2
  · rintro ⟨hin, hcovers⟩
    obtain ⟨hcell, hindex⟩ := (hcells _).2 ⟨rfl, hin, hcovers⟩
    obtain ⟨⟨hl, hr⟩, ht, hb⟩ := hcovers
    exact ⟨_, hcell, hsolid v _ _ (by omega) (by omega) (by omega) (by omega), hindex⟩

/-- **The map at one pixel** has the number of the last view that covers it, of those that are
mapped. -/
theorem viewRefreshMap_apply (hsolid : Solid g) (hfits : ∀ v, 0 < s.x v + g.viewWidth v)
    (hr : 0 < r.right) (hon : OnScreen g sx sy) :
    (viewRefreshMap g s r z0).idMap (sy * g.width + sx) =
      ((topmost (fun v => z0 ≤ s.stack.z v ∧ InRect r sx sy ∧ Covers g s sx sy v) s.stack.list).map
        fun v => BitVec.ofInt 16 (s.stack.z v)).getD (s.idMap (sy * g.width + sx)) := by
  unfold viewRefreshMap
  refine foldl_paint _ (fun v _ m => ?_) s.idMap
  have hwidth : 0 < g.width := by
    obtain ⟨⟨h0, h1⟩, -⟩ := hon
    omega
  by_cases hz : z0 ≤ s.stack.z v
  · have hcell := mapView_apply (s := s) hsolid hon v r m
    rw [if_pos hz]
    rcases mapBlock_eq (s := s) (hfits v) hr hwidth with hblock | ⟨hblock, hempty⟩
    · rw [hblock]
      simp only [hz, true_and]
      exact hcell
    · rw [hblock]
      rw [mapView, hempty, List.foldl_nil] at hcell
      simp only [hz, true_and]
      exact hcell
  · rw [if_neg hz, if_neg fun h => hz h.1]

/-! ## The screen -/

/-- The loop over one view draws it where the map has its number. -/
theorem viewRefreshBlock32_apply (hon : OnScreen g sx sy) (v : V) (r : Block) (m : ℤ → BitVec 32) :
    viewRefreshBlock32 g s v (viewBlock g s (clipScreen g r) v) m (sy * g.width + sx) =
      if (InRect r sx sy ∧ Covers g s sx sy v) ∧
          ((s.idMap (sy * g.width + sx)).toNat : ℤ) = s.stack.z v then colour g s sx sy v
      else m (sy * g.width + sx) := by
  classical
  have hcells := cell_iff (s := s) hon v r
  rw [viewRefreshBlock32, foldl_update (b := colour g s sx sy v)]
  · refine if_congr ?_ rfl rfl
    constructor
    · rintro ⟨cell, hcell, hmap, hindex⟩
      rw [hindex] at hmap
      exact ⟨((hcells cell).1 ⟨hcell, hindex⟩).2, hmap⟩
    · rintro ⟨⟨hin, hcovers⟩, hmap⟩
      obtain ⟨hcell, hindex⟩ := (hcells _).2 ⟨rfl, hin, hcovers⟩
      exact ⟨_, hcell, by rw [hindex]; exact hmap, hindex⟩
  · intro cell hcell _ hindex
    rw [((hcells cell).1 ⟨hcell, hindex⟩).1]
    rfl

/-- **The screen at one pixel** has the colour of the last view that covers it and has the number
of the map, of those that are drawn. -/
theorem viewRefreshByZ_apply (hon : OnScreen g sx sy) :
    (viewRefreshByZ g s r z0 z1).vram (sy * g.width + sx) =
      ((topmost (fun v => (z0 ≤ s.stack.z v ∧ s.stack.z v ≤ z1) ∧
        (InRect r sx sy ∧ Covers g s sx sy v) ∧
        ((s.idMap (sy * g.width + sx)).toNat : ℤ) = s.stack.z v) s.stack.list).map
          (colour g s sx sy)).getD (s.vram (sy * g.width + sx)) := by
  refine foldl_paint (fun v vram =>
    if z0 ≤ s.stack.z v ∧ s.stack.z v ≤ z1 then
      viewRefreshBlock32 g s v (viewBlock g s (clipScreen g r) v) vram
    else vram) (fun v _ m => ?_) s.vram
  by_cases hz : z0 ≤ s.stack.z v ∧ s.stack.z v ≤ z1
  · rw [if_pos hz, viewRefreshBlock32_apply hon]
    simp only [hz, true_and]
  · rw [if_neg hz, if_neg fun h => hz h.1]

/-- The view with the greatest number is the last. -/
theorem topmost_of_max {stack : ZStack V} (h : Ordered stack) {P : V → Prop} [DecidablePred P]
    (hv : v ∈ stack.list) (hP : P v) (hmax : ∀ w ∈ stack.list, P w → stack.z w ≤ stack.z v) :
    topmost P stack.list = some v :=
  topmost_of_pairwise h.numbered.pairwise hv hP fun w hw hPw => not_lt.2 (hmax w hw hPw)

/-- Sixteen bits are enough for a number. -/
theorem toNat_ofInt_z {stack : ZStack V} (h : Ordered stack) (hcount : stack.list.length ≤ 2 ^ 16)
    (hv : v ∈ stack.list) : ((BitVec.ofInt 16 (stack.z v)).toNat : ℤ) = stack.z v := by
  obtain ⟨hlow, hhigh⟩ := h.numbered.mem hv
  have hmod : stack.z v % ((2 ^ 16 : ℕ) : ℤ) = stack.z v := Int.emod_eq_of_lt hlow (by omega)
  rw [BitVec.toNat_ofInt, hmod]
  omega

/-- **A pixel after drawing**: it has the colour of its topmost view, if that is one of those that
are drawn, and is as it was otherwise.  What the map had there before does not matter. -/
theorem viewRefresh_spec [DecidableEq V] (h : Ordered s.stack)
    (hcount : s.stack.list.length ≤ 2 ^ 16)
    (hsolid : Solid g) (hfits : ∀ v, 0 < s.x v + g.viewWidth v) (hr : 0 < r.right)
    (hon : OnScreen g sx sy) (htop : Topmost g s sx sy v) :
    (viewRefresh g s r z0 z1).vram (sy * g.width + sx) =
      if InRect r sx sy ∧ z0 ≤ s.stack.z v ∧ s.stack.z v ≤ z1 then colour g s sx sy v
      else s.vram (sy * g.width + sx) := by
  obtain ⟨hv, hcovers, hmax⟩ := htop
  -- where the topmost view is mapped, the map has its number
  have hmap : InRect r sx sy → z0 ≤ s.stack.z v →
      (((viewRefreshMap g s r z0).idMap (sy * g.width + sx)).toNat : ℤ) = s.stack.z v := by
    intro hin hz
    have hlast : topmost (fun v => z0 ≤ s.stack.z v ∧ InRect r sx sy ∧ Covers g s sx sy v)
      s.stack.list = some v :=
      topmost_of_max h hv ⟨hz, hin, hcovers⟩ fun w hw hboth => hmax w hw hboth.2.2
    rw [viewRefreshMap_apply hsolid hfits hr hon, hlast, Option.map_some, Option.getD_some,
      toNat_ofInt_z h hcount hv]
  rw [viewRefresh, viewRefreshByZ_apply (s := viewRefreshMap g s r z0) hon]
  by_cases hdrawn : InRect r sx sy ∧ z0 ≤ s.stack.z v ∧ s.stack.z v ≤ z1
  · obtain ⟨hin, hlow, hhigh⟩ := hdrawn
    have hentry := hmap hin hlow
    have hlast := topmost_of_max (P := fun w => (z0 ≤ s.stack.z w ∧ s.stack.z w ≤ z1) ∧
      (InRect r sx sy ∧ Covers g s sx sy w) ∧
        (((viewRefreshMap g s r z0).idMap (sy * g.width + sx)).toNat : ℤ) = s.stack.z w) h hv
      ⟨⟨hlow, hhigh⟩, ⟨hin, hcovers⟩, hentry⟩ fun w _ hboth => by rw [← hboth.2.2, hentry]
    rw [if_pos ⟨hin, hlow, hhigh⟩]
    exact congrArg (fun o => (Option.map (colour g s sx sy) o).getD (s.vram (sy * g.width + sx)))
      hlast
  · -- a view that is drawn here has the number of the map, and that is the topmost view's
    have hnone : topmost (fun w => (z0 ≤ s.stack.z w ∧ s.stack.z w ≤ z1) ∧
        (InRect r sx sy ∧ Covers g s sx sy w) ∧
          (((viewRefreshMap g s r z0).idMap (sy * g.width + sx)).toNat : ℤ) = s.stack.z w)
            s.stack.list = none := by
      refine topmost_eq_none.2 fun w hw hdraw => hdrawn ?_
      obtain ⟨⟨hlow, hhigh⟩, ⟨hin, hcoversw⟩, hentry⟩ := hdraw
      have hz := hlow.trans (hmax w hw hcoversw)
      rw [hmap hin hz] at hentry
      exact ⟨hin, hz, hentry ▸ hhigh⟩
    rw [if_neg hdrawn]
    exact congrArg (fun o => (Option.map (colour g s sx sy) o).getD (s.vram (sy * g.width + sx)))
      hnone

/-! ## The numbers -/

variable [DecidableEq V]

/-- **The number of a view**, from its place among the others and the number of one other view. -/
theorem rank {stack : ZStack V} (h : Ordered stack) (hhidden : v ∉ stack.list → stack.z v = -1)
    (hw : w ∈ stack.list) (hne : w ≠ v) :
    stack.z w = (stack.list.erase v).idxOf w +
      if 0 ≤ stack.z v ∧ stack.z v ≤ (stack.list.erase v).idxOf w then 1 else 0 := by
  by_cases hv : v ∈ stack.list
  · obtain ⟨a, b, hcut⟩ := h.cut hv
    have hat := hcut.at_
    rw [hcut.list, List.mem_append, List.mem_cons, or_iff_right hne] at hw
    rw [hcut.rest]
    rcases hw with hwa | hwb
    · have hz := hcut.below.idxOf hwa
      have hlt := List.idxOf_lt_length_of_mem hwa
      rw [List.idxOf_append_of_mem hwa, if_neg (by omega)]
      omega
    · have hwa : w ∉ a := fun hwa => not_mem_of_nodup hcut.nodup w hwa hwb
      have hz := hcut.above.idxOf hwb
      rw [List.idxOf_append_of_notMem hwa, if_pos (by omega)]
      push_cast
      omega
  · have hz := h.numbered.idxOf hw
    rw [List.erase_of_not_mem hv, if_neg (by rw [hhidden hv]; omega)]
    omega

/-- A view on a list has a property, and none with it has a greater number. -/
def Highest (stack : ZStack V) (C : V → Prop) (v : V) : Prop :=
  v ∈ stack.list ∧ C v ∧ ∀ w ∈ stack.list, C w → stack.z w ≤ stack.z v

/-- **What need not be drawn.**  A view that is the highest with a property after a view is placed,
and is not among those that are drawn for it, was the highest before. -/
theorem Highest.of_placed {stack t : ZStack V} {C : V → Prop} {n : ℤ} {f : Option Refresh}
    (h : Ordered stack) (hhidden : v ∉ stack.list → stack.z v = -1)
    (hplaced : Placed stack t v n f) (htop : Highest t C w)
    (hnot : ¬(C v ∧ (refreshOf (stack.z v) (t.z v)).z0 ≤ t.z w ∧
      t.z w ≤ (refreshOf (stack.z v) (t.z v)).z1)) : Highest stack C w := by
  obtain ⟨hw, hC, hmax⟩ := htop
  have hrest : t.list.erase v = stack.list.erase v := by rw [hplaced.list, place_erase h.nodup]
  have hmem : ∀ u, u ≠ v → (u ∈ t.list ↔ u ∈ stack.list) := fun u hu => hplaced.mem_iff h hu
  have hrank : ∀ u ∈ stack.list, u ≠ v →
      t.z u = (stack.list.erase v).idxOf u + if 0 ≤ t.z v ∧
        t.z v ≤ (stack.list.erase v).idxOf u then 1 else 0 := by
    intro u hu huv
    have hz := rank hplaced.ordered hplaced.hidden ((hmem u huv).2 hu) huv
    rwa [hrest] at hz
  have hpos : v ∈ t.list → 0 ≤ t.z v := fun hv => (hplaced.ordered.numbered.mem hv).1
  by_cases hwv : w = v
  · -- it is the view itself: it went down, or it would be drawn
    subst hwv
    have hk := hpos hw
    have hdown : t.z w < stack.z w := by
      by_contra hup
      refine hnot ⟨hC, ?_⟩
      rw [refreshOf, if_neg (by omega), if_pos (by omega)]
      exact ⟨le_rfl, le_rfl⟩
    have hold : w ∈ stack.list := by
      by_contra hout
      have hz := hhidden hout
      omega
    refine ⟨hold, hC, fun u hu hCu => ?_⟩
    by_cases huw : u = w
    · rw [huw]
    · have hbelow := hmax u ((hmem u huw).2 hu) hCu
      change t.z u ≤ t.z w at hbelow
      rw [hrank u hu huw] at hbelow
      rw [rank h hhidden hu huw]
      split_ifs at hbelow ⊢ <;> omega
  · have hold : w ∈ stack.list := (hmem w hwv).1 hw
    have hzw := hrank w hold hwv
    refine ⟨hold, hC, fun u hu hCu => ?_⟩
    rw [rank h hhidden hold hwv]
    by_cases huv : u = v
    · -- the view itself covers the pixel: it was below, or the topmost view would be drawn
      subst huv
      have hnot' : ¬((refreshOf (stack.z u) (t.z u)).z0 ≤ t.z w ∧
        t.z w ≤ (refreshOf (stack.z u) (t.z u)).z1) :=
        fun hdrawn => hnot ⟨hCu, hdrawn⟩
      rw [refreshOf] at hnot'
      by_cases hut : u ∈ t.list
      · have hk := hpos hut
        have hbelow := hmax u hut hCu
        change t.z u ≤ t.z w at hbelow
        rw [if_neg (by omega)] at hnot'
        split_ifs at hnot' hzw ⊢ <;> simp only [not_and] at hnot' <;> omega
      · have hk := hplaced.hidden hut
        rw [if_pos (by omega)] at hnot'
        simp only [not_and] at hnot'
        split_ifs at hzw ⊢ <;> omega
    · have hbelow := hmax u ((hmem u huv).2 hu) hCu
      change t.z u ≤ t.z w at hbelow
      rw [hrank u hu huv, hzw] at hbelow
      rw [rank h hhidden hu huv]
      split_ifs at hbelow ⊢ <;> omega

/-! ## The calls -/

/-- **The display is in order**: so is the show list, a part of every view is right of the left
border, and every pixel that is covered has the colour of its topmost view. -/
structure DisplayOk (g : Screen V) (s : Display V) : Prop where
  shown : ShowOk s.stack
  fits : ∀ v, 0 < s.x v + g.viewWidth v
  seen : ∀ sx sy, OnScreen g sx sy → ∀ v, Topmost g s sx sy v →
    s.vram (sy * g.width + sx) = colour g s sx sy v

variable [Fintype V] (hcard : Fintype.card V ≤ 2 ^ 16) (hsolid : Solid g)

include hcard hsolid

/-- What is drawn puts the display in order, if it was so at all other pixels. -/
theorem displayOk_refresh (hshown : ShowOk s.stack) (hfits : ∀ v, 0 < s.x v + g.viewWidth v)
    (hr : 0 < r.right)
    (hseen : ∀ sx sy, OnScreen g sx sy → ∀ v, Topmost g s sx sy v →
      ¬(InRect r sx sy ∧ z0 ≤ s.stack.z v ∧ s.stack.z v ≤ z1) →
        s.vram (sy * g.width + sx) = colour g s sx sy v) :
    DisplayOk g (viewRefresh g s r z0 z1) := by
  refine ⟨hshown, hfits, fun sx sy hon v htop => ?_⟩
  have hcount : s.stack.list.length ≤ 2 ^ 16 := hshown.ordered.nodup.length_le_card.trans hcard
  rw [(viewRefresh_spec hshown.ordered hcount hsolid hfits hr hon htop :
    (viewRefresh g s r z0 z1).vram (sy * g.width + sx) = _)]
  split_ifs with hdrawn
  · rfl
  · exact hseen sx sy hon v htop hdrawn

/-- `view_set_z`. -/
theorem displaySetZ_spec (h : DisplayOk g s) (v : V) (z : ℤ) :
    ∃ s', displaySetZ g s v z = some s' ∧ DisplayOk g s' := by
  obtain ⟨t, f, hres, hcases⟩ := setZ_spec h.shown.ordered (h.shown.out v) z
  rw [displaySetZ, hres, Option.map_some]
  refine ⟨_, rfl, ?_⟩
  rcases hcases with ⟨rfl, rfl, -⟩ | hplaced
  · exact h
  · rw [hplaced.refresh]
    refine displayOk_refresh (s := { s with stack := t }) hcard hsolid (h.shown.placed hplaced)
      h.fits (h.fits v)
      fun sx sy hon w htop hnot => ?_
    exact h.seen sx sy hon w (Highest.of_placed h.shown.ordered (h.shown.out v) hplaced htop hnot)

/-- `view_set_xy`. -/
theorem viewSetXy_spec (h : DisplayOk g s) {x : ℤ} (hx : 0 < x + g.viewWidth v) (y : ℤ) :
    DisplayOk g (viewSetXy g s v x y) := by
  have hfits : ∀ u, 0 < Function.update s.x v x u + g.viewWidth u := by
    intro u
    by_cases huv : u = v
    · subst huv
      rwa [Function.update_self]
    · rw [Function.update_of_ne huv]
      exact h.fits u
  -- the other views are where they were
  have hother : ∀ sx sy u, u ≠ v →
      (Covers g { s with x := Function.update s.x v x, y := Function.update s.y v y } sx sy u ↔
        Covers g s sx sy u) := by
    intro sx sy u huv
    simp only [Covers, Function.update_of_ne huv]
  -- a view that is topmost now, and is not drawn, was topmost before
  have hkeep : ∀ sx sy, OnScreen g sx sy → ∀ w, w ≠ v →
      Topmost g { s with x := Function.update s.x v x, y := Function.update s.y v y } sx sy w →
        (v ∈ s.stack.list → Covers g s sx sy v → s.stack.z v ≤ s.stack.z w) →
          s.vram (sy * g.width + sx) =
            colour g { s with x := Function.update s.x v x, y := Function.update s.y v y } sx sy
            w := by
    intro sx sy hon w hwv htop hbelow
    obtain ⟨hw, hcovers, hmax⟩ := htop
    have hold : Topmost g s sx sy w := by
      refine ⟨hw, (hother sx sy w hwv).1 hcovers, fun u hu hcoversu => ?_⟩
      by_cases huv : u = v
      · subst huv
        exact hbelow hu hcoversu
      · exact hmax u hu ((hother sx sy u huv).2 hcoversu)
    rw [h.seen sx sy hon w hold]
    simp only [colour, Function.update_of_ne hwv]
  unfold viewSetXy
  dsimp only
  split_ifs with hshown
  · refine displayOk_refresh hcard hsolid h.shown hfits (lt_max_of_lt_left (h.fits v))
      fun sx sy hon w htop hnot => ?_
    have hw := (h.shown.ordered.numbered.mem htop.1).1
    have hwv : w ≠ v := by
      rintro rfl
      obtain ⟨⟨hl, hr⟩, ht, hb⟩ := htop.2.1
      simp only [Function.update_self] at hl hr ht hb
      refine hnot ⟨?_, hshown, le_rfl⟩
      simp only [InRect, moveRect]
      omega
    refine hkeep sx sy hon w hwv htop fun _ hcoversv => ?_
    obtain ⟨⟨hl, hr⟩, ht, hb⟩ := hcoversv
    by_contra hlow
    refine hnot ⟨?_, hw, le_of_lt (not_le.1 hlow)⟩
    simp only [InRect, moveRect]
    omega
  · have hout : v ∉ s.stack.list := fun hv => hshown (h.shown.ordered.numbered.mem hv).1
    refine ⟨h.shown, hfits, fun sx sy hon w htop => ?_⟩
    have hwv : w ≠ v := fun heq => hout (heq ▸ htop.1)
    exact hkeep sx sy hon w hwv htop fun hv => absurd hv hout

/-- **Every call keeps the display in order.** -/
theorem displayStep_spec (h : DisplayOk g s) {call : DisplayCall V} (hcall : call.Fits g) :
    ∃ s', displayStep g s call = some s' ∧ DisplayOk g s' := by
  cases call with
  | setZ v z => exact displaySetZ_spec hcard hsolid h v z
  | setXy v x y => exact ⟨_, rfl, viewSetXy_spec hcard hsolid h hcall y⟩

/-- **The screen shows the topmost view.**  In every run from an empty show list, with any map and
anything on the screen, every pixel that a view covers has the colour of the topmost one.  The
driver has far fewer views than the entries of its map can tell apart. -/
theorem screen_shows_topmost (s₀ : Display V) (hempty : s₀.stack = emptyStack)
    (hfits : ∀ v, 0 < s₀.x v + g.viewWidth v) (calls : List (DisplayCall V))
    (hcalls : ∀ call ∈ calls, call.Fits g) :
    ∃ s, Run.exec (displayStep g) s₀ calls = some s ∧ Ordered s.stack ∧
      ∀ sx sy, OnScreen g sx sy → ∀ v, Topmost g s sx sy v →
        s.vram (sy * g.width + sx) = colour g s sx sy v := by
  have hstart : DisplayOk g s₀ := by
    refine ⟨hempty ▸ showOk_empty, hfits, fun sx sy _ v htop => ?_⟩
    have hv := htop.1
    rw [hempty] at hv
    cases hv
  obtain ⟨s, hrun, hs⟩ := Run.exec_total (P := fun _ call => call.Fits g) (I := DisplayOk g)
    (fun s call h hcall => displayStep_spec hcard hsolid h hcall) calls s₀ hstart
    (Run.along_of_mem (Q := fun call => call.Fits g) calls s₀ hcalls)
  exact ⟨s, hrun, hs.shown.ordered, hs.seen⟩

omit hcard hsolid

/-- A screen of two pixels, and two views of one row. -/
def twoViews : Screen Bool where
  width := 2
  height := 1
  viewWidth _ := 2
  viewHeight _ := 1
  addr v _ := if v then 0xff0000ff else 0xff00ff00

/-- Nothing is shown, and one column of each view is off the screen. -/
def twoStart : Display Bool := ⟨emptyStack, fun _ => -1, fun _ => 0, fun _ => 7, fun _ => 0⟩

/-- The second view is shown below the first, which is moved and taken under it. -/
theorem screen_shows_topmost_two :
    ∃ s, Run.exec (displayStep twoViews) twoStart
        [.setZ false 0, .setZ true 0, .setXy false 1 (-1), .setXy true 0 0, .setZ true 5] = some s ∧
      Ordered s.stack ∧ ∀ sx sy, OnScreen twoViews sx sy → ∀ v, Topmost twoViews s sx sy v →
        s.vram (sy * twoViews.width + sx) = colour twoViews s sx sy v := by
  refine screen_shows_topmost (by decide) ?_ twoStart rfl (by decide) _ ?_
  · intro v vx vy _ _ _ _
    cases v with
    | false => exact (by decide : ((0xff00ff00 : BitVec 32) >>> 24) &&& 0xff ≠ 0)
    | true => exact (by decide : ((0xff0000ff : BitVec 32) >>> 24) &&& 0xff ≠ 0)
  · simp [DisplayCall.Fits, twoViews]

end View
end LightOS
