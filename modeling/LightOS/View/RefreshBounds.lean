import LightOS.View.LayerScreen

/-!
# What the refresh of the screen touches

The accesses of `view_refresh_map` and `view_refresh_by_z`, and of `flush_map` and `flush_by_z` of
dwin: for each of them a view and a cell of it, a row and a column.  The refresh reads the pixel of
the view there and reads or writes the map and the memory of the screen where the pixel is shown.
The routines for the other depths run over the same cells.

* `viewRefreshMap_eq`, `viewRefreshByZ_eq` — the refresh is a loop over its accesses.
* `mapCells_legal_iff` — the map is only touched where it should be, unless a view or the rectangle
  ends to the left of the screen and what is left is not clipped.
* `refresh_in_bounds_iff` — the four routines.
-/

namespace LightOS
namespace View

open ZOrder

/-- A cell of a view at `(x, y)` of `w` times `h` pixels is in the view, on the screen of `width`
times `height` and in the rectangle; so the pixel is in the section, and its place in the map and
on the screen. -/
structure Legal (x y w h width height : ℤ) (r : Block) (cell : ℤ × ℤ) : Prop where
  row : 0 ≤ cell.1 ∧ cell.1 < h
  column : 0 ≤ cell.2 ∧ cell.2 < w
  onScreen : (0 ≤ x + cell.2 ∧ x + cell.2 < width) ∧ 0 ≤ y + cell.1 ∧ y + cell.1 < height
  inRect : InRect r (x + cell.2) (y + cell.1)
  pixel : 0 ≤ cell.1 * w + cell.2 ∧ cell.1 * w + cell.2 < w * h
  place : 0 ≤ (y + cell.1) * width + x + cell.2 ∧ (y + cell.1) * width + x + cell.2 < width * height

/-- An index of a row and a column is in the array. -/
theorem index_bounds {row column w h : ℤ} (hrow : 0 ≤ row ∧ row < h)
    (hcolumn : 0 ≤ column ∧ column < w) :
    0 ≤ row * w + column ∧ row * w + column < w * h := by
  have hlow : 0 ≤ row * w := mul_nonneg hrow.1 (by omega)
  have hhigh : (row + 1) * w ≤ h * w := mul_le_mul_of_nonneg_right (by omega) (by omega)
  have hstep : (row + 1) * w = row * w + w := by ring
  have hcomm : h * w = w * h := mul_comm h w
  omega

/-- Where a part of a view that begins at `near` begins on the screen. -/
theorem add_start (x near : ℤ) : x + max (near - x) 0 = max near x := by
  omega

/-- Where a part of a view of size `n` that ends at `far` ends on the screen. -/
theorem add_end (x far n : ℤ) : x + min (far - x) n = min far (x + n) := by
  omega

/-- The rows or columns of a part. -/
theorem part_iff (x near far n c : ℤ) : max (near - x) 0 ≤ c ∧ c < min (far - x) n ↔
    (near ≤ x + c ∧ x + c < far) ∧ 0 ≤ c ∧ c < n := by
  rw [max_le_iff, lt_min_iff, sub_le_iff_le_add', lt_sub_iff_add_lt']
  exact and_and_and_comm

/-- The end is clipped once more to what it is clipped to already. -/
theorem clip_end {x b size : ℤ} (h : x + b ≤ size) :
    (if size ≤ x + b then b - (x + b - size) else b) = b := by
  split_ifs <;> omega

theorem Legal.of {x y w h width height : ℤ} {r : Block} {cell : ℤ × ℤ}
    (hrow : 0 ≤ cell.1 ∧ cell.1 < h) (hcolumn : 0 ≤ cell.2 ∧ cell.2 < w)
    (hon : (0 ≤ x + cell.2 ∧ x + cell.2 < width) ∧ 0 ≤ y + cell.1 ∧ y + cell.1 < height)
    (hrect : InRect r (x + cell.2) (y + cell.1)) : Legal x y w h width height r cell := by
  refine ⟨hrow, hcolumn, hon, hrect, index_bounds hrow hcolumn, ?_⟩
  rw [add_assoc]
  exact index_bounds hon.2 hon.1

/-- What holds of the accesses of a loop holds of the cells of all that it goes through. -/
theorem forall_accesses_iff {V : Type} {l : List V} {p : V → Prop} [DecidablePred p]
    {cells : V → List (ℤ × ℤ)} {q : V × ℤ × ℤ → Prop} :
    (∀ a ∈ l.flatMap fun v => if p v then (cells v).map (Prod.mk v) else [], q a) ↔
      ∀ v ∈ l, p v → ∀ cell ∈ cells v, q (v, cell) := by
  constructor
  · intro hall v hv hp cell hcell
    refine hall _ (List.mem_flatMap.2 ⟨v, hv, ?_⟩)
    rw [if_pos hp]
    exact List.mem_map_of_mem hcell
  · intro hall a ha
    obtain ⟨v, hv, ha⟩ := List.mem_flatMap.1 ha
    split_ifs at ha with hp
    · obtain ⟨cell, hcell, rfl⟩ := List.mem_map.1 ha
      exact hall v hv hp cell hcell
    · cases ha

section Views

variable {V : Type} (g : Screen V) (s : Display V)

/-- The cells of one view that `view_refresh_map` goes through. -/
def mapCells (r : Block) (v : V) : List (ℤ × ℤ) :=
  match mapBlock g s v (viewBlock g s (clipScreen g r) v) with
  | none => []
  | some b => b.cells

/-- The accesses of `view_refresh_map`. -/
def mapAccesses (r : Block) (z0 : ℤ) : List (V × ℤ × ℤ) :=
  s.stack.list.flatMap fun v => if z0 ≤ s.stack.z v then (mapCells g s r v).map (Prod.mk v) else []

/-- The accesses of `view_refresh_by_z`. -/
def zAccesses (r : Block) (z0 z1 : ℤ) : List (V × ℤ × ℤ) :=
  s.stack.list.flatMap fun v =>
    if z0 ≤ s.stack.z v ∧ s.stack.z v ≤ z1 then
      (viewBlock g s (clipScreen g r) v).cells.map (Prod.mk v) else []

/-- The map is written by a loop over the accesses. -/
theorem viewRefreshMap_eq (r : Block) (z0 : ℤ) :
    (viewRefreshMap g s r z0).idMap = (mapAccesses g s r z0).foldl (fun idMap a =>
      if (src g a.1 a.2 >>> 24) &&& 0xff ≠ 0 then
        Function.update idMap (screenIndex g s a.1 a.2) (BitVec.ofInt 16 (s.stack.z a.1))
      else idMap) s.idMap := by
  rw [mapAccesses, List.foldl_flatMap]
  refine congrArg (fun f => s.stack.list.foldl f s.idMap) ?_
  funext idMap v
  split_ifs with hz
  · unfold mapCells
    cases mapBlock g s v (viewBlock g s (clipScreen g r) v) with
    | none => rfl
    | some b => rw [List.foldl_map]; rfl
  · rfl

/-- And the screen. -/
theorem viewRefreshByZ_eq (r : Block) (z0 z1 : ℤ) :
    (viewRefreshByZ g s r z0 z1).vram = (zAccesses g s r z0 z1).foldl (fun vram a =>
      if ((s.idMap (screenIndex g s a.1 a.2)).toNat : ℤ) = s.stack.z a.1 then
        Function.update vram (screenIndex g s a.1 a.2) (src g a.1 a.2)
      else vram) s.vram := by
  rw [zAccesses, List.foldl_flatMap]
  refine congrArg (fun f => s.stack.list.foldl f s.vram) ?_
  funext vram v
  split_ifs with hz
  · rw [List.foldl_map]
    rfl
  · rfl

/-- The access is to a pixel of the view that is on the screen and in the rectangle. -/
def AccessLegal (r : Block) (a : V × ℤ × ℤ) : Prop :=
  Legal (s.x a.1) (s.y a.1) (g.viewWidth a.1) (g.viewHeight a.1) g.width g.height r a.2

/-- What keeps the map of one view in order: neither the rectangle nor the view ends to the left of
the screen, or the view begins to the right of the screen or shares no row with the rectangle on
it. -/
def ViewClear (r : Block) (v : V) : Prop :=
  (0 ≤ r.right ∧ 0 ≤ s.x v + g.viewWidth v) ∨ g.width ≤ max (max r.left 0) (s.x v) ∨
    min (min r.bottom g.height) (s.y v + g.viewHeight v) ≤ max (max r.top 0) (s.y v)

variable {g s}

/-- The part of a view in a rectangle. -/
theorem mem_viewBlock {r : Block} {v : V} {cell : ℤ × ℤ} :
    cell ∈ (viewBlock g s (clipScreen g r) v).cells ↔
    (((r.top ≤ s.y v + cell.1 ∧ 0 ≤ s.y v + cell.1) ∧ s.y v + cell.1 < r.bottom ∧
      s.y v + cell.1 < g.height) ∧
      0 ≤ cell.1 ∧ cell.1 < g.viewHeight v) ∧
    ((r.left ≤ s.x v + cell.2 ∧ 0 ≤ s.x v + cell.2) ∧ s.x v + cell.2 < r.right ∧
      s.x v + cell.2 < g.width) ∧
      0 ≤ cell.2 ∧ cell.2 < g.viewWidth v := by
  rw [mem_cells]
  simp only [viewBlock, clipScreen, part_iff]
  simp only [max_le_iff, lt_min_iff]

/-- It is in order. -/
theorem viewBlock_legal {r : Block} {v : V} {cell : ℤ × ℤ}
    (h : cell ∈ (viewBlock g s (clipScreen g r) v).cells) :
    AccessLegal g s r (v, cell) := by
  obtain ⟨⟨⟨⟨htop, hy0⟩, hbottom, hy1⟩, hrow⟩, ⟨⟨hleft, hx0⟩, hright, hx1⟩, hcolumn⟩ :=
    mem_viewBlock.1 h
  exact Legal.of hrow hcolumn ⟨⟨hx0, hx1⟩, hy0, hy1⟩ ⟨⟨hleft, hright⟩, htop, hbottom⟩

/-- The block of the map, where it is not skipped: only its right end can be off. -/
theorem mem_mapCells {r : Block} {v : V} {cell : ℤ × ℤ} (hwidth : 0 ≤ g.width) :
    cell ∈ mapCells g s r v ↔
    (((r.top ≤ s.y v + cell.1 ∧ 0 ≤ s.y v + cell.1) ∧ s.y v + cell.1 < r.bottom ∧
      s.y v + cell.1 < g.height) ∧
      0 ≤ cell.1 ∧ cell.1 < g.viewHeight v) ∧
    ((r.left ≤ s.x v + cell.2 ∧ 0 ≤ s.x v + cell.2) ∧ 0 ≤ cell.2) ∧ s.x v + cell.2 < g.width ∧
      ((r.right < 0 ∨ s.x v + g.viewWidth v < 0) ∨
        s.x v + cell.2 < r.right ∧ cell.2 < g.viewWidth v) := by
  unfold mapCells mapBlock
  have htop : ¬max (max r.top 0) (s.y v) < 0 := by simp
  have hleft : ¬max (max r.left 0) (s.x v) < 0 := by simp
  simp only [viewBlock, clipScreen, add_start, add_end, if_neg htop, if_neg hleft]
  by_cases hskip : g.height ≤ max (max r.top 0) (s.y v) ∨ g.width ≤ max (max r.left 0) (s.x v)
  · rw [if_pos hskip]
    simp only [le_max_iff] at hskip
    simp only [List.not_mem_nil, false_iff]
    omega
  · have hbottom : s.y v + min (min r.bottom g.height - s.y v) (g.viewHeight v) ≤ g.height := by
      rw [add_end]
      exact (min_le_left _ _).trans (min_le_right _ _)
    have hclip := clip_end hbottom
    rw [add_end] at hclip
    rw [if_neg hskip]
    simp only [mem_cells, hclip]
    rw [part_iff]
    simp only [max_le_iff, lt_min_iff, sub_le_iff_le_add', min_lt_iff]
    refine and_congr_right fun _ => and_congr_right fun _ => ?_
    split_ifs with hout
    · omega
    · rw [lt_min_iff, lt_sub_iff_add_lt', lt_min_iff]
      omega

theorem mapCells_legal_iff (hwidth : 0 ≤ g.width) (r : Block) (v : V) :
    (∀ cell ∈ mapCells g s r v, AccessLegal g s r (v, cell)) ↔ ViewClear g s r v := by
  constructor
  · intro hall
    by_contra hnot
    simp only [ViewClear, not_or, not_and_or, not_le, max_lt_iff, lt_min_iff] at hnot
    obtain ⟨hout, hcolumns, hrows⟩ := hnot
    -- the upper left cell is touched
    obtain ⟨row, hrow⟩ : ∃ row, s.y v + row = max (max r.top 0) (s.y v) := ⟨_, add_sub_cancel _ _⟩
    obtain ⟨column, hcolumn⟩ : ∃ column, s.x v + column = max (max r.left 0) (s.x v) :=
      ⟨_, add_sub_cancel _ _⟩
    have hmem : (row, column) ∈ mapCells g s r v := by
      rw [mem_mapCells hwidth]
      simp only [hrow, hcolumn, le_max_iff, max_lt_iff, le_refl, true_or, or_true, true_and]
      omega
    obtain ⟨-, hwide, -, ⟨⟨-, hright⟩, -, -⟩, -, -⟩ := hall _ hmem
    simp only at hwide hright
    omega
  · intro hclear cell hmem
    obtain ⟨hrows, ⟨hleft, hcolumn⟩, hwide, hright⟩ := (mem_mapCells hwidth).1 hmem
    refine viewBlock_legal (mem_viewBlock.2 ⟨hrows, ?_⟩)
    simp only [ViewClear, le_max_iff, min_le_iff] at hclear
    omega

end Views

end View

namespace Dwin

open View

section Layers

variable {L : Type} (g : Screen L) (s : Display L)

/-- The cells of one layer that `flush_map` goes through. -/
def mapCells (r : Block) (layer : L) : List (ℤ × ℤ) :=
  match mapBlock g s layer (layerBlock g s (clipScreen g r) layer) with
  | none => []
  | some b => b.cells

/-- The accesses of `flush_map`. -/
def mapAccesses (r : Block) (z0 : ℤ) (priority : Fin dwinLayerPrioNr) : List (L × ℤ × ℤ) :=
  (List.finRange dwinLayerPrioNr).flatMap fun lv => (s.station.priorityList lv).flatMap fun layer =>
    if (lv = priority ∧ z0 ≤ s.station.z layer) ∨
      lv ≠ priority then (mapCells g s r layer).map (Prod.mk layer) else []

/-- The accesses of `flush_by_z`. -/
def zAccesses (r : Block) (z0 z1 : ℤ) (priority : Fin dwinLayerPrioNr) : List (L × ℤ × ℤ) :=
  ((List.finRange dwinLayerPrioNr).filter fun lv => lv ≤ priority).flatMap fun lv =>
    (s.station.priorityList lv).flatMap fun layer =>
      if (priority = lv ∧ z0 ≤ s.station.z layer ∧ s.station.z layer ≤ z1) ∨ priority ≠ lv then
        (layerBlock g s (clipScreen g r) layer).cells.map (Prod.mk layer)
      else []

/-- The map is written by a loop over the accesses. -/
theorem flushMap_eq (r : Block) (z0 : ℤ) (priority : Fin dwinLayerPrioNr) :
    (flushMap g s r z0 priority).idMap = (mapAccesses g s r z0 priority).foldl (fun idMap a =>
      if (src g a.1 a.2 >>> 24) &&& 0xff ≠ 0 then
        Function.update idMap (screenIndex g s a.1 a.2) (BitVec.ofNat 16 (g.id a.1))
      else idMap) s.idMap := by
  rw [mapAccesses, List.foldl_flatMap]
  refine List.foldl_ext _ _ _ fun idMap lv _ => ?_
  rw [List.foldl_flatMap]
  refine List.foldl_ext _ _ _ fun idMap layer _ => ?_
  split_ifs with hz
  · unfold mapCells
    cases mapBlock g s layer (layerBlock g s (clipScreen g r) layer) with
    | none => rfl
    | some b => rw [List.foldl_map]; rfl
  · rfl

/-- And the screen. -/
theorem flushByZ_eq (r : Block) (z0 z1 : ℤ) (priority : Fin dwinLayerPrioNr) :
    (flushByZ g s r z0 z1 priority).vram = (zAccesses g s r z0 z1 priority).foldl (fun vram a =>
      if (s.idMap (screenIndex g s a.1 a.2)).toNat = g.id a.1 then
        Function.update vram (screenIndex g s a.1 a.2) (src g a.1 a.2)
      else vram) s.vram := by
  rw [zAccesses, List.foldl_flatMap]
  refine List.foldl_ext _ _ _ fun vram lv _ => ?_
  rw [List.foldl_flatMap]
  refine List.foldl_ext _ _ _ fun vram layer _ => ?_
  split_ifs with hz
  · rw [List.foldl_map]
    rfl
  · rfl

/-- The access is to a pixel of the layer that is on the screen and in the rectangle. -/
def AccessLegal (r : Block) (a : L × ℤ × ℤ) : Prop :=
  Legal (s.x a.1) (s.y a.1) (g.layerWidth a.1) (g.layerHeight a.1) g.width g.height r a.2

/-- The size of the screen is one of an `int`, and so are the far edges of the rectangle and the
lower edge of a layer. -/
structure Fits32 (r : Block) (layer : L) : Prop where
  width : 0 ≤ g.width ∧ g.width < 2147483648
  height : 0 ≤ g.height ∧ g.height < 2147483648
  right : -2147483648 ≤ r.right
  bottom : -2147483648 ≤ r.bottom
  layer : -2147483648 ≤ s.y layer + g.layerHeight layer

/-- Where the rectangle ends after the clipping to `size`: a negative end is taken for one beyond
the screen. -/
def farEdge (size edge : ℤ) : ℤ := if edge < 0 then size else min edge size

/-- What keeps the map of one layer in order: the rectangle and the layer do not end above or to
the left of the screen, or the layer begins beyond the screen, or it shares no row or no column
with the rectangle as it is clipped. -/
def LayerClear (r : Block) (layer : L) : Prop :=
  ((0 ≤ r.right ∧ 0 ≤ r.bottom) ∧ 0 ≤ s.x layer + g.layerWidth layer ∧
    0 ≤ s.y layer + g.layerHeight layer) ∨
    (g.width ≤ max (max r.left 0) (s.x layer) ∨ g.height ≤ max (max r.top 0) (s.y layer)) ∨
    (0 ≤ s.y layer + g.layerHeight layer ∧
      min (farEdge g.height r.bottom) (s.y layer + g.layerHeight layer) ≤
        max (max r.top 0) (s.y layer)) ∨
    (0 ≤ s.x layer + g.layerWidth layer ∧
      min (farEdge g.width r.right) (s.x layer + g.layerWidth layer) ≤
        max (max r.left 0) (s.x layer))

/-- What keeps the drawing of one layer in order: the rectangle does not end above or to the left
of the screen, or it shares no row or no column with the layer. -/
def LayerDrawnClear (r : Block) (layer : L) : Prop :=
  (0 ≤ r.right ∧ 0 ≤ r.bottom) ∨
    min (farEdge g.height r.bottom) (s.y layer + g.layerHeight layer) ≤
      max (max r.top 0) (s.y layer) ∨
    min (farEdge g.width r.right) (s.x layer + g.layerWidth layer) ≤ max (max r.left 0) (s.x layer)

variable {g s}

/-- A negative number is beyond every size. -/
theorem le_asUnsigned {size n : ℤ} (hsize : size < 2147483648) (hn : -2147483648 ≤ n) :
    size ≤ asUnsigned n ↔ n < 0 ∨ size ≤ n := by
  unfold asUnsigned
  split_ifs with hneg <;> omega

theorem clipScreen_edges {r : Block} {layer : L} (hfits : Fits32 g s r layer) :
    clipScreen g r = ⟨max r.left 0, max r.top 0, farEdge g.width r.right,
      farEdge g.height r.bottom⟩ := by
  obtain ⟨hwidth, hheight, hright, hbottom, -⟩ := hfits
  unfold clipScreen farEdge asUnsigned
  refine congrArg₂ (Block.mk _ _) ?_ ?_ <;> split_ifs <;> omega

theorem farEdge_bounds {size : ℤ} (edge : ℤ) (hsize : 0 ≤ size) :
    (0 ≤ farEdge size edge ∧ farEdge size edge ≤ size) ∧ (0 ≤ edge → farEdge size edge ≤ edge) := by
  unfold farEdge
  split_ifs <;> omega

/-- The cells that `flush_by_z` goes through. -/
theorem mem_layerCells {r : Block} {layer : L} {cell : ℤ × ℤ} (hfits : Fits32 g s r layer) :
    cell ∈ (layerBlock g s (clipScreen g r) layer).cells ↔
      (((r.top ≤ s.y layer + cell.1 ∧ 0 ≤ s.y layer + cell.1) ∧
        s.y layer + cell.1 < farEdge g.height r.bottom) ∧
        0 ≤ cell.1 ∧ cell.1 < g.layerHeight layer) ∧
      ((r.left ≤ s.x layer + cell.2 ∧ 0 ≤ s.x layer + cell.2) ∧
        s.x layer + cell.2 < farEdge g.width r.right) ∧
        0 ≤ cell.2 ∧ cell.2 < g.layerWidth layer := by
  rw [mem_cells, clipScreen_edges hfits]
  simp only [layerBlock, part_iff]
  simp only [max_le_iff]

/-- The cells that `flush_map` goes through. -/
theorem mem_mapCells {r : Block} {layer : L} {cell : ℤ × ℤ} (hfits : Fits32 g s r layer) :
    cell ∈ mapCells g s r layer ↔
    (((r.top ≤ s.y layer + cell.1 ∧ 0 ≤ s.y layer + cell.1) ∧ 0 ≤ cell.1) ∧
      s.y layer + cell.1 < g.height ∧
      (s.y layer + g.layerHeight layer < 0 ∨
        s.y layer + cell.1 < farEdge g.height r.bottom ∧ cell.1 < g.layerHeight layer)) ∧
    ((r.left ≤ s.x layer + cell.2 ∧ 0 ≤ s.x layer + cell.2) ∧ 0 ≤ cell.2) ∧
      s.x layer + cell.2 < g.width ∧
      (s.x layer + g.layerWidth layer < 0 ∨
        s.x layer + cell.2 < farEdge g.width r.right ∧ cell.2 < g.layerWidth layer) := by
  obtain ⟨⟨hright0, hright1⟩, -⟩ := farEdge_bounds r.right hfits.width.1
  obtain ⟨⟨hbottom0, hbottom1⟩, -⟩ := farEdge_bounds r.bottom hfits.height.1
  have hblock : layerBlock g s (clipScreen g r) layer =
      ⟨max (max r.left 0 - s.x layer) 0, max (max r.top 0 - s.y layer) 0,
        min (farEdge g.width r.right - s.x layer) (g.layerWidth layer),
        min (farEdge g.height r.bottom - s.y layer) (g.layerHeight layer)⟩ := by
    rw [clipScreen_edges hfits]
    rfl
  have htop : 0 ≤ max (max r.top 0) (s.y layer) := by simp
  have hleft : 0 ≤ max (max r.left 0) (s.x layer) := by simp
  unfold mapCells
  simp only [hblock, mapBlock, add_start, add_end, asUnsigned_of_nonneg htop,
    asUnsigned_of_nonneg hleft, if_neg (not_lt.2 htop), if_neg (not_lt.2 hleft)]
  by_cases hskip : g.height ≤ max (max r.top 0) (s.y layer) ∨
    g.width ≤ max (max r.left 0) (s.x layer)
  · rw [if_pos hskip]
    simp only [le_max_iff] at hskip
    simp only [List.not_mem_nil, false_iff]
    omega
  · rw [if_neg hskip]
    simp only [mem_cells, max_le_iff, sub_le_iff_le_add']
    refine and_congr (and_congr_right fun _ => ?_) (and_congr_right fun _ => ?_)
    · -- the end, on the screen
      have hend : min (farEdge g.height r.bottom) (s.y layer + g.layerHeight layer) ≤ g.height :=
        (min_le_left _ _).trans hbottom1
      have hlow : -2147483648 ≤ min (farEdge g.height r.bottom) (s.y layer + g.layerHeight layer) :=
        le_min (by omega) hfits.layer
      simp only [le_asUnsigned hfits.height.2 hlow, min_lt_iff]
      split_ifs with hbeyond
      · have hsub := add_end (s.y layer) (farEdge g.height r.bottom) (g.layerHeight layer)
        simp only [le_min_iff] at hbeyond
        omega
      · rw [lt_min_iff, lt_sub_iff_add_lt']
        omega
    · simp only [min_lt_iff]
      split_ifs with hbeside
      · have hsub := add_end (s.x layer) (farEdge g.width r.right) (g.layerWidth layer)
        omega
      · rw [lt_min_iff, lt_sub_iff_add_lt']
        omega

theorem layerCells_legal {r : Block} {layer : L} {cell : ℤ × ℤ} (hfits : Fits32 g s r layer)
    (hright : 0 ≤ r.right)
    (hbottom : 0 ≤ r.bottom) (h : cell ∈ (layerBlock g s (clipScreen g r) layer).cells) :
    AccessLegal g s r (layer, cell) := by
  obtain ⟨⟨-, hright1⟩, hright2⟩ := farEdge_bounds r.right hfits.width.1
  obtain ⟨⟨-, hbottom1⟩, hbottom2⟩ := farEdge_bounds r.bottom hfits.height.1
  obtain ⟨⟨⟨⟨htop, hy0⟩, hy⟩, hrow⟩, ⟨⟨hleft, hx0⟩, hx⟩, hcolumn⟩ := (mem_layerCells hfits).1 h
  exact Legal.of hrow hcolumn ⟨⟨hx0, hx.trans_le hright1⟩, hy0, hy.trans_le hbottom1⟩
    ⟨⟨hleft, hx.trans_le (hright2 hright)⟩, htop, hy.trans_le (hbottom2 hbottom)⟩

theorem mapCells_legal_iff {r : Block} {layer : L} (hfits : Fits32 g s r layer) :
    (∀ cell ∈ mapCells g s r layer, AccessLegal g s r (layer, cell)) ↔ LayerClear g s r layer := by
  constructor
  · intro hall
    by_contra hnot
    simp only [LayerClear, not_or, not_and_or, not_le, max_lt_iff, lt_min_iff] at hnot
    obtain ⟨hends, ⟨hcolumns, hrows⟩, hrow', hcolumn'⟩ := hnot
    -- the upper left cell is touched
    obtain ⟨row, hrow⟩ : ∃ row, s.y layer + row = max (max r.top 0) (s.y layer) :=
      ⟨_, add_sub_cancel _ _⟩
    obtain ⟨column, hcolumn⟩ : ∃ column, s.x layer + column = max (max r.left 0) (s.x layer) :=
      ⟨_, add_sub_cancel _ _⟩
    have hmem : (row, column) ∈ mapCells g s r layer := by
      rw [mem_mapCells hfits]
      simp only [hrow, hcolumn, le_max_iff, max_lt_iff, le_refl, true_or, or_true, true_and]
      omega
    obtain ⟨hhigh, hwide, -, ⟨⟨-, hright⟩, -, hbottom⟩, -, -⟩ := hall _ hmem
    simp only at hhigh hwide hright hbottom
    omega
  · intro hclear cell hmem
    obtain ⟨⟨⟨⟨htop, hy0⟩, hrow⟩, hy, hlow⟩, ⟨⟨hleft, hx0⟩, hcolumn⟩, hx, hfar⟩ :=
      (mem_mapCells hfits).1 hmem
    simp only [LayerClear, le_max_iff, min_le_iff] at hclear
    refine layerCells_legal hfits ?_ ?_ ((mem_layerCells hfits).2 ?_)
    · omega
    · omega
    · omega

theorem layerCells_legal_iff {r : Block} {layer : L} (hfits : Fits32 g s r layer) :
    (∀ cell ∈ (layerBlock g s (clipScreen g r) layer).cells, AccessLegal g s r (layer, cell)) ↔
      LayerDrawnClear g s r layer := by
  constructor
  · intro hall
    by_contra hnot
    simp only [LayerDrawnClear, not_or, not_and_or, not_le, max_lt_iff, lt_min_iff] at hnot
    obtain ⟨hends, hrows, hcolumns⟩ := hnot
    obtain ⟨row, hrow⟩ : ∃ row, s.y layer + row = max (max r.top 0) (s.y layer) :=
      ⟨_, add_sub_cancel _ _⟩
    obtain ⟨column, hcolumn⟩ : ∃ column, s.x layer + column = max (max r.left 0) (s.x layer) :=
      ⟨_, add_sub_cancel _ _⟩
    have hmem : (row, column) ∈ (layerBlock g s (clipScreen g r) layer).cells := by
      rw [mem_layerCells hfits]
      simp only [hrow, hcolumn, le_max_iff, max_lt_iff, le_refl, true_or, or_true, true_and]
      omega
    obtain ⟨-, -, -, ⟨⟨-, hright⟩, -, hbottom⟩, -, -⟩ := hall _ hmem
    simp only at hright hbottom
    omega
  · intro hclear cell hmem
    obtain ⟨⟨⟨⟨htop, hy0⟩, hy⟩, hrow⟩, ⟨⟨hleft, hx0⟩, hx⟩, hcolumn⟩ := (mem_layerCells hfits).1 hmem
    simp only [LayerDrawnClear, le_max_iff, min_le_iff] at hclear
    exact layerCells_legal hfits (by omega) (by omega) hmem

/-- What holds of the accesses of `flush_map` holds of the cells of all layers it goes through. -/
theorem forall_mapAccesses_iff {r : Block} {z0 : ℤ} {priority : Fin dwinLayerPrioNr}
    {q : L × ℤ × ℤ → Prop} :
    (∀ a ∈ mapAccesses g s r z0 priority, q a) ↔ ∀ lv, ∀ layer ∈ s.station.priorityList lv,
      (lv = priority → z0 ≤ s.station.z layer) →
        ∀ cell ∈ mapCells g s r layer, q (layer, cell) := by
  unfold mapAccesses
  rw [List.forall_mem_flatMap]
  refine ⟨fun hall lv layer hlayer hz => ?_, fun hall lv _ =>
    forall_accesses_iff.2 fun layer hlayer hz => ?_⟩
  · refine forall_accesses_iff.1 (hall lv (List.mem_finRange lv)) layer hlayer ?_
    by_cases heq : lv = priority
    · exact Or.inl ⟨heq, hz heq⟩
    · exact Or.inr heq
  · refine hall lv layer hlayer fun heq => ?_
    rcases hz with ⟨-, hz⟩ | hne
    · exact hz
    · exact absurd heq hne

/-- And so for `flush_by_z`. -/
theorem forall_zAccesses_iff {r : Block} {z0 z1 : ℤ} {priority : Fin dwinLayerPrioNr}
    {q : L × ℤ × ℤ → Prop} :
    (∀ a ∈ zAccesses g s r z0 z1 priority, q a) ↔
      ∀ lv ≤ priority, ∀ layer ∈ s.station.priorityList lv,
      (lv = priority → z0 ≤ s.station.z layer ∧ s.station.z layer ≤ z1) →
        ∀ cell ∈ (layerBlock g s (clipScreen g r) layer).cells, q (layer, cell) := by
  unfold zAccesses
  rw [List.forall_mem_flatMap]
  refine ⟨fun hall lv hlv layer hlayer hz => ?_,
    fun hall lv hlv => forall_accesses_iff.2 fun layer hlayer hz => ?_⟩
  · refine forall_accesses_iff.1
      (hall lv (List.mem_filter.2 ⟨List.mem_finRange lv, decide_eq_true hlv⟩)) layer
      hlayer ?_
    by_cases heq : lv = priority
    · exact Or.inl ⟨heq.symm, hz heq⟩
    · exact Or.inr (Ne.symm heq)
  · refine hall lv (of_decide_eq_true (List.mem_filter.1 hlv).2) layer hlayer fun heq => ?_
    rcases hz with ⟨-, hz⟩ | hne
    · exact hz
    · exact absurd heq.symm hne

end Layers

end Dwin

/-- **The refresh stays in bounds** exactly where it is clear: the drawing of the views always
does, their map where each view it goes through is clear, and so do the map and the drawing of the
layers. -/
theorem refresh_in_bounds_iff {V L : Type} (g : View.Screen V) (s : View.Display V)
    (g' : Dwin.Screen L)
    (s' : Dwin.Display L) (r : View.Block) (z0 z1 : ℤ) (priority : Fin Dwin.dwinLayerPrioNr)
    (hwidth : 0 ≤ g.width) (hfits : ∀ layer, Dwin.Fits32 g' s' r layer) :
    ((∀ a ∈ View.mapAccesses g s r z0, View.AccessLegal g s r a) ↔
        ∀ v ∈ s.stack.list, z0 ≤ s.stack.z v → View.ViewClear g s r v) ∧
      (∀ a ∈ View.zAccesses g s r z0 z1, View.AccessLegal g s r a) ∧
      ((∀ a ∈ Dwin.mapAccesses g' s' r z0 priority, Dwin.AccessLegal g' s' r a) ↔
        ∀ lv, ∀ layer ∈ s'.station.priorityList lv, (lv = priority → z0 ≤ s'.station.z layer) →
          Dwin.LayerClear g' s' r layer) ∧
      ((∀ a ∈ Dwin.zAccesses g' s' r z0 z1 priority, Dwin.AccessLegal g' s' r a) ↔
        ∀ lv ≤ priority, ∀ layer ∈ s'.station.priorityList lv,
          (lv = priority → z0 ≤ s'.station.z layer ∧ s'.station.z layer ≤ z1) →
            Dwin.LayerDrawnClear g' s' r layer) := by
  refine ⟨?_, ?_, ?_, ?_⟩
  · refine View.forall_accesses_iff.trans (forall₃_congr fun v _ _ => ?_)
    exact View.mapCells_legal_iff hwidth r v
  · exact View.forall_accesses_iff.2 fun v _ _ cell hcell => View.viewBlock_legal hcell
  · refine Dwin.forall_mapAccesses_iff.trans (forall_congr' fun lv =>
      forall₃_congr fun layer _ _ => ?_)
    exact Dwin.mapCells_legal_iff (hfits layer)
  · refine Dwin.forall_zAccesses_iff.trans (forall₂_congr fun lv _ =>
      forall₃_congr fun layer _ _ => ?_)
    exact Dwin.layerCells_legal_iff (hfits layer)

/-! ## To the left of the screen and above it -/

/-- A screen of four columns and two rows, and a view of two pixels. -/
def narrowScreen : View.Screen Unit := ⟨4, 2, fun _ => 2, fun _ => 1, fun _ _ => 0xff0000ff⟩

/-- The view is shown from column `x` on. -/
def narrowDisplay (x : ℤ) : View.Display Unit :=
  ⟨⟨[()], fun _ => 0, 0⟩, fun _ => x, fun _ => 0, fun _ => 0, fun _ => 0⟩

/-- The same for a layer, of one column and two rows. -/
def narrowLayers : Dwin.Screen (Fin 1) :=
  ⟨4, 2, fun _ => 1, fun _ => 2, fun _ _ => 0xff0000ff, fun layer => layer, by decide,
    Function.injective_of_subsingleton _⟩

/-- The layer is shown from row `y` on. -/
def narrowStation (y : ℤ) : Dwin.Display (Fin 1) :=
  ⟨⟨fun lv => if lv.val = 0 then [0] else [], fun _ => 0, fun _ => 0, fun _ => ⟨0, by decide⟩⟩,
    fun _ => 0, fun _ => y, fun _ => 0, fun _ => 0⟩

/-- A view that begins to the left of the screen and a layer that begins above it, and both end on
it. -/
theorem refresh_in_bounds_narrow :
    (∀ a ∈ View.mapAccesses narrowScreen (narrowDisplay (-1)) ⟨0, 0, 4, 2⟩ 0,
        View.AccessLegal narrowScreen (narrowDisplay (-1)) ⟨0, 0, 4, 2⟩ a) ∧
      ∀ a ∈ Dwin.mapAccesses narrowLayers (narrowStation (-1)) ⟨0, 0, 4, 2⟩ 0 0,
        Dwin.AccessLegal narrowLayers (narrowStation (-1)) ⟨0, 0, 4, 2⟩ a := by
  obtain ⟨hviews, -, hlayers, -⟩ :=
    refresh_in_bounds_iff narrowScreen (narrowDisplay (-1)) narrowLayers
    (narrowStation (-1)) ⟨0, 0, 4, 2⟩ 0 0 0 (by decide)
    (fun _ => ⟨by decide, by decide, by decide, by decide,
      show (-2147483648 : ℤ) ≤ -1 + 2 by decide⟩)
  refine ⟨hviews.2 fun _ _ _ => Or.inl ⟨by decide, show (0 : ℤ) ≤ -1 + 2 by decide⟩,
    hlayers.2 fun _ _ _ _ =>
      Or.inl ⟨by decide, show (0 : ℤ) ≤ 0 + 1 by decide, show (0 : ℤ) ≤ -1 + 2 by decide⟩⟩

/-- **The rest of the screen is taken for the view.**  The whole screen is drawn anew, with the
view to the left of it and the layer above it, as both are: pixels beyond the two of the view and
the two of the layer are read. -/
theorem refresh_leaves_the_view :
    (((), 0, 6) ∈ View.mapAccesses narrowScreen (narrowDisplay (-3)) ⟨0, 0, 4, 2⟩ 0 ∧
        ¬View.AccessLegal narrowScreen (narrowDisplay (-3)) ⟨0, 0, 4, 2⟩ ((), 0, 6)) ∧
      (0, 4, 0) ∈ Dwin.mapAccesses narrowLayers (narrowStation (-3)) ⟨0, 0, 4, 2⟩ 0 0 ∧
        ¬Dwin.AccessLegal narrowLayers (narrowStation (-3)) ⟨0, 0, 4, 2⟩ (0, 4, 0) :=
  ⟨⟨by decide, fun hlegal => absurd hlegal.pixel.2 (by decide)⟩, by decide,
    fun hlegal => absurd hlegal.pixel.2 (by decide)⟩

end LightOS
