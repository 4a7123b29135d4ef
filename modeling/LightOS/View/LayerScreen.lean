import LightOS.View.DwinLayer
import LightOS.View.LayerScreenBasic
import LightOS.View.Screen

/-!
# The workstation shows the topmost layer

A call flushes the map for all other priorities, whatever the number it starts from.  Where the
layer of the call is not among those that are mapped, a layer of a lower priority is, and comes
before it.

* `cell_iff`, `mapBlock_eq` — the cells of a layer, if none is above the screen.
* `flushMap_apply`, `flushByZ_apply` — what the loops leave at one pixel.
* `flush_spec` — a pixel after both.
* `topmost_of_placed`, `mapped_of_placed` — what need not be flushed after `dwin_layer_zorder`.
* `displayStep_spec`, `layers_show_topmost` — the calls and the runs.
-/

namespace LightOS
namespace Dwin

open ZOrder Stacking Painting View

variable {L : Type} {g : Screen L} {s : Display L} {v w layer : L} {r : Block}
  {sx sy z z0 z1 : ℤ} {priority : Fin dwinLayerPrioNr}

/-! ## Pixels -/

instance (sx sy : ℤ) (layer : L) : Decidable (Covers g s sx sy layer) :=
  inferInstanceAs (Decidable (_ ∧ _))

/-- A rectangle ends on the screen or below it, or begins to the right of it. -/
structure Reaches (g : Screen L) (r : Block) : Prop where
  right : 0 < r.right
  bottom : 0 ≤ r.bottom ∨ g.width ≤ r.left

theorem asUnsigned_of_nonneg {n : ℤ} (h : 0 ≤ n) : asUnsigned n = n := if_neg (by omega)

/-- A rectangle that ends on the screen is clipped to it. -/
theorem clipScreen_eq (hright : 0 < r.right) (hbottom : 0 ≤ r.bottom) :
    clipScreen g r = ⟨max r.left 0, max r.top 0, min r.right g.width, min r.bottom g.height⟩ := by
  rw [clipScreen, asUnsigned_of_nonneg (le_of_lt hright), asUnsigned_of_nonneg hbottom]
  refine congrArg₂ (Block.mk _ _) ?_ ?_ <;> split_ifs <;> omega

/-- **The cells of a layer in a rectangle** are its pixels there. -/
theorem cell_iff (hr : Reaches g r) (hon : OnScreen g sx sy) (layer : L) (cell : ℤ × ℤ) :
    cell ∈ (layerBlock g s (clipScreen g r) layer).cells ∧
      screenIndex g s layer cell = sy * g.width + sx ↔
      cell = (sy - s.y layer, sx - s.x layer) ∧ InRect r sx sy ∧ Covers g s sx sy layer := by
  rcases hr.bottom with hbottom | hleft
  · rw [clipScreen_eq hr.right hbottom]
    exact clip_cell_iff hon.1 hon.2 r cell
  · -- nothing of the rectangle is on the screen
    obtain ⟨⟨hx0, hx1⟩, -⟩ := hon
    refine iff_of_false (fun hcell => ?_) fun hin => ?_
    · obtain ⟨-, hl, hr'⟩ := mem_cells.1 hcell.1
      simp only [layerBlock, clipScreen, asUnsigned_of_nonneg (le_of_lt hr.right)] at hl hr'
      split_ifs at hr' <;> omega
    · have hin' := hin.2.1.1.1
      omega

/-! ## The map -/

theorem clipScreen_right_le (hright : 0 < r.right) : (clipScreen g r).right ≤ g.width := by
  simp only [clipScreen, asUnsigned_of_nonneg (le_of_lt hright)]
  split_ifs <;> omega

theorem clipScreen_bottom_le (g : Screen L) (r : Block) : (clipScreen g r).bottom ≤ g.height := by
  simp only [clipScreen, asUnsigned]
  split_ifs <;> omega

/-- A part that begins below the screen or to the right of it has no cells. -/
theorem layerBlock_cells_eq_nil {c : Block} (hright : c.right ≤ g.width)
    (hbottom : c.bottom ≤ g.height)
    (h : g.height ≤ s.y layer + (layerBlock g s c layer).top ∨
      g.width ≤ s.x layer + (layerBlock g s c layer).left) :
    (layerBlock g s c layer).cells = [] := by
  refine List.eq_nil_iff_forall_not_mem.2 fun cell hcell => ?_
  obtain ⟨⟨htop, hlow⟩, hleft, hfar⟩ := mem_cells.1 hcell
  have hend : (layerBlock g s c layer).bottom ≤ c.bottom - s.y layer := min_le_left _ _
  have hside : (layerBlock g s c layer).right ≤ c.right - s.x layer := min_le_left _ _
  omega

/-- The adjustments change nothing in a block that is on the screen. -/
theorem mapBlock_of_inside {b : Block} (htop : 0 ≤ s.y layer + b.top ∧ s.y layer + b.top < g.height)
    (hleft : 0 ≤ s.x layer + b.left ∧ s.x layer + b.left < g.width)
    (hright : 0 ≤ s.x layer + b.right)
    (hbottom : 0 ≤ s.y layer + b.bottom ∧ s.y layer + b.bottom ≤ g.height) :
    mapBlock g s layer b = some b := by
  have hlow : (if g.height ≤ asUnsigned (s.y layer + b.bottom) then
    b.bottom - (s.y layer + b.bottom - g.height)
      else b.bottom) = b.bottom := by
    rw [asUnsigned_of_nonneg hbottom.1]
    split_ifs <;> omega
  unfold mapBlock
  rw [asUnsigned_of_nonneg htop.1, asUnsigned_of_nonneg hleft.1, if_neg (by omega),
    if_neg (by omega), if_neg (by omega), if_neg (by omega), hlow]

/-- The adjustments change nothing, if the layer is not above the screen. -/
theorem mapBlock_eq (hr : Reaches g r) (hfits : 0 < s.x layer + g.layerWidth layer)
    (hoff : ¬OffTop g layer (s.x layer) (s.y layer)) (hon : OnScreen g sx sy) :
    mapBlock g s layer (layerBlock g s (clipScreen g r) layer) =
      some (layerBlock g s (clipScreen g r) layer) ∨
      mapBlock g s layer (layerBlock g s (clipScreen g r) layer) = none ∧
        (layerBlock g s (clipScreen g r) layer).cells = [] := by
  obtain ⟨⟨hx0, hx1⟩, hy0, hy1⟩ := hon
  have htop : 0 ≤ s.y layer + (layerBlock g s (clipScreen g r) layer).top := by
    simp only [layerBlock, clipScreen]
    omega
  have hleft : 0 ≤ s.x layer + (layerBlock g s (clipScreen g r) layer).left := by
    simp only [layerBlock, clipScreen]
    omega
  by_cases hskip : g.height ≤ s.y layer + (layerBlock g s (clipScreen g r) layer).top ∨
      g.width ≤ s.x layer + (layerBlock g s (clipScreen g r) layer).left
  · refine Or.inr ⟨?_, layerBlock_cells_eq_nil (clipScreen_right_le hr.right)
      (clipScreen_bottom_le g r) hskip⟩
    rw [mapBlock, asUnsigned_of_nonneg htop, asUnsigned_of_nonneg hleft, if_pos hskip]
  · obtain ⟨hlow, hfar⟩ := not_or.1 hskip
    rw [not_le] at hlow hfar
    -- neither the rectangle nor the layer is above the screen, as their part begins on it
    have hbottom : 0 ≤ r.bottom := by
      rcases hr.bottom with hb | hl
      · exact hb
      · simp only [layerBlock, clipScreen] at hfar
        omega
    have hlayer : 0 ≤ s.y layer + g.layerHeight layer := by
      simp only [layerBlock, clipScreen] at hfar
      simp only [OffTop, not_and, not_lt] at hoff
      by_contra hneg
      have hbeside := hoff (not_le.1 hneg)
      omega
    have hright := hr.right
    refine Or.inl (mapBlock_of_inside ⟨htop, hlow⟩ ⟨hleft, hfar⟩ ?_ ⟨?_, ?_⟩)
    · rw [clipScreen_eq hright hbottom]
      simp only [layerBlock]
      omega
    · rw [clipScreen_eq hright hbottom]
      simp only [layerBlock]
      omega
    · rw [clipScreen_eq hright hbottom]
      simp only [layerBlock]
      omega

/-- The loop over one layer writes its id where it is. -/
theorem mapLayer_apply (hr : Reaches g r) (hsolid : Solid g) (hon : OnScreen g sx sy) (layer : L)
    (m : ℤ → BitVec 16) :
    mapLayer g s layer (layerBlock g s (clipScreen g r) layer) m (sy * g.width + sx) =
      if InRect r sx sy ∧ Covers g s sx sy layer then BitVec.ofNat 16 (g.id layer)
      else m (sy * g.width + sx) := by
  classical
  have hcells := cell_iff (s := s) hr hon layer
  rw [mapLayer, foldl_update (b := BitVec.ofNat 16 (g.id layer)) fun _ _ _ _ => rfl]
  refine if_congr ?_ rfl rfl
  constructor
  · rintro ⟨cell, hcell, -, hindex⟩
    exact ((hcells cell).1 ⟨hcell, hindex⟩).2
  · rintro ⟨hin, hcovers⟩
    obtain ⟨hcell, hindex⟩ := (hcells _).2 ⟨rfl, hin, hcovers⟩
    obtain ⟨⟨hl, hr⟩, ht, hb⟩ := hcovers
    exact ⟨_, hcell, hsolid layer _ _ (by omega) (by omega) (by omega) (by omega), hindex⟩

/-- The layers of a workstation in the order in which they are drawn, by priority. -/
def painted (s : Workstation L) (lvs : List (Fin dwinLayerPrioNr)) : List L :=
  lvs.flatMap s.priorityList

/-- **What is drawn later is above.** -/
theorem painted_pairwise {s : Workstation L} (h : WorkstationOk s)
    {lvs : List (Fin dwinLayerPrioNr)}
    (hlvs : lvs.Pairwise (· < ·)) : (painted s lvs).Pairwise (Below s) := by
  refine List.pairwise_flatMap.2 ⟨fun lv _ => ?_, hlvs.imp fun {lv lv'} hlt v hv w hw => ?_⟩
  · refine (h.ordered lv).numbered.pairwise.imp_of_mem fun {v w} hv hw hlt => Or.inr ⟨?_, hlt⟩
    rw [h.own lv v hv, h.own lv w hw]
  · refine Or.inl ?_
    rwa [h.own lv v hv, h.own lv' w hw]

variable [DecidableEq L]

theorem mem_painted {s : Workstation L} (h : WorkstationOk s) {lvs : List (Fin dwinLayerPrioNr)} :
    w ∈ painted s lvs ↔ isLayerShown s w = true ∧ s.priority w ∈ lvs := by
  rw [painted, List.mem_flatMap, isLayerShown_iff h]
  constructor
  · rintro ⟨lv, hlv, hw⟩
    rw [h.own lv w hw]
    exact ⟨hw, hlv⟩
  · rintro ⟨hw, hlv⟩
    exact ⟨_, hlv, hw⟩

/-- The layers that `flush_map` maps. -/
def Mapped (s : Workstation L) (priority : Fin dwinLayerPrioNr) (z0 : ℤ) (layer : L) : Prop :=
  s.priority layer = priority → z0 ≤ s.z layer

/-- The layers that `flush_by_z` draws. -/
def Drawn (s : Workstation L) (priority : Fin dwinLayerPrioNr) (z0 z1 : ℤ) (layer : L) : Prop :=
  s.priority layer ≤ priority ∧ (s.priority layer = priority → z0 ≤ s.z layer ∧ s.z layer ≤ z1)

instance (s : Workstation L) : Decidable (Mapped s priority z0 layer) :=
  inferInstanceAs (Decidable (_ → _))

instance (s : Workstation L) : Decidable (Drawn s priority z0 z1 layer) :=
  inferInstanceAs (Decidable (_ ∧ _))

/-- **The map at one pixel** has the id of the topmost layer that covers it, of those that are
mapped. -/
theorem flushMap_apply (hok : WorkstationOk s.station) (hsolid : Solid g)
    (hfits : ∀ layer, 0 < s.x layer + g.layerWidth layer)
    (hoff : ∀ layer, isLayerShown s.station layer = true → ¬OffTop g layer (s.x layer) (s.y layer))
    (hr : Reaches g r) (hon : OnScreen g sx sy) :
    (flushMap g s r z0 priority).idMap (sy * g.width + sx) =
      ((topmost (fun w => Mapped s.station priority z0 w ∧ InRect r sx sy ∧ Covers g s sx sy w)
        (painted s.station (List.finRange dwinLayerPrioNr))).map
          fun w => BitVec.ofNat 16 (g.id w)).getD (s.idMap (sy * g.width + sx)) := by
  unfold flushMap
  refine foldl_paint_groups s.station.priorityList _ _ (fun lv _ layer hlayer m => ?_) s.idMap
  have hown := hok.own lv layer hlayer
  have hshown : isLayerShown s.station layer = true := (isLayerShown_iff hok).2 (hown ▸ hlayer)
  have hmapped : ((lv = priority ∧ z0 ≤ s.station.z layer) ∨ lv ≠ priority) ↔
      Mapped s.station priority z0 layer := by
    rw [Mapped, hown]
    tauto
  by_cases hz : Mapped s.station priority z0 layer
  · have hcell := mapLayer_apply (s := s) hr hsolid hon layer m
    rw [if_pos (hmapped.2 hz)]
    simp only [hz, true_and]
    rcases mapBlock_eq (s := s) hr (hfits layer)
      (hoff layer hshown) hon with hblock | ⟨hblock, hempty⟩
    · rw [hblock]
      exact hcell
    · rw [hblock]
      rwa [mapLayer, hempty, List.foldl_nil] at hcell
  · rw [if_neg fun hcond => hz (hmapped.1 hcond), if_neg fun h => hz h.1]

/-! ## The screen -/

omit [DecidableEq L] in
/-- The loop over one layer draws it where the map has its id. -/
theorem flushBits32_apply (hr : Reaches g r) (hon : OnScreen g sx sy) (layer : L)
    (m : ℤ → BitVec 32) :
    flushBits32 g s layer (layerBlock g s (clipScreen g r) layer) m (sy * g.width + sx) =
      if (InRect r sx sy ∧ Covers g s sx sy layer) ∧
        (s.idMap (sy * g.width + sx)).toNat = g.id layer then
        colour g s sx sy layer
      else m (sy * g.width + sx) := by
  classical
  have hcells := cell_iff (s := s) hr hon layer
  rw [flushBits32, foldl_update (b := colour g s sx sy layer)]
  · refine if_congr ?_ rfl rfl
    constructor
    · rintro ⟨cell, hcell, hmap, hindex⟩
      rw [hindex] at hmap
      exact ⟨((hcells cell).1 ⟨hcell, hindex⟩).2, hmap⟩
    · rintro ⟨⟨hin, hcovers⟩, hmap⟩
      obtain ⟨hcell, hindex⟩ := (hcells _).2 ⟨rfl, hin, hcovers⟩
      exact ⟨_, hcell, by rw [hindex]; exact hmap, hindex⟩
  · intro cell hcell _ hindex
    rw [((hcells cell).1 ⟨hcell, hindex⟩).1]
    rfl

omit [DecidableEq L] in
/-- **The screen at one pixel** has the colour of the topmost layer that covers it and has the id
of the map, of those that are drawn. -/
theorem flushByZ_apply (hok : WorkstationOk s.station) (hr : Reaches g r) (hon : OnScreen g sx sy) :
    (flushByZ g s r z0 z1 priority).vram (sy * g.width + sx) =
      ((topmost (fun w => Drawn s.station priority z0 z1 w ∧ (InRect r sx sy ∧ Covers g s sx sy w) ∧
        (s.idMap (sy * g.width + sx)).toNat = g.id w)
          (painted s.station ((List.finRange dwinLayerPrioNr).filter fun lv => lv ≤ priority))).map
            (colour g s sx sy)).getD (s.vram (sy * g.width + sx)) := by
  refine foldl_paint_groups s.station.priorityList (fun lv layer vram =>
    if (priority = lv ∧ z0 ≤ s.station.z layer ∧ s.station.z layer ≤ z1) ∨ priority ≠ lv then
      flushBits32 g s layer (layerBlock g s (clipScreen g r) layer) vram
    else vram) _ (fun lv hlv layer hlayer m => ?_) s.vram
  have hown := hok.own lv layer hlayer
  have hle : lv ≤ priority := by simpa using (List.mem_filter.1 hlv).2
  have hdrawn : ((priority = lv ∧ z0 ≤ s.station.z layer ∧ s.station.z layer ≤ z1) ∨
    priority ≠ lv) ↔
      Drawn s.station priority z0 z1 layer := by
    rw [Drawn, hown, eq_comm]
    tauto
  by_cases hz : Drawn s.station priority z0 z1 layer
  · rw [if_pos (hdrawn.2 hz), flushBits32_apply hr hon]
    simp only [hz, true_and]
  · rw [if_neg fun hcond => hz (hdrawn.1 hcond), if_neg fun h => hz h.1]

/-- Nothing that is shown at the pixel is above the topmost layer. -/
theorem Topmost.not_below (htop : Topmost g s sx sy v) (hw : ShownAt g s sx sy w) :
    ¬Below s.station v w := by
  intro hvw
  by_cases hwv : w = v
  · rw [hwv] at hvw
    rcases hvw with hlt | ⟨-, hlt⟩ <;> exact absurd hlt (lt_irrefl _)
  · rcases htop.2 w hw hwv with hlt | ⟨heq, hlt⟩ <;> rcases hvw with hlt' | ⟨heq', hlt'⟩ <;> omega

/-- **A pixel of the map.**  If the topmost layer there is mapped, or none that covers the pixel
is, the map has its id where it is renewed. -/
theorem flushMap_spec (hok : WorkstationOk s.station) (hsolid : Solid g)
    (hfits : ∀ layer, 0 < s.x layer + g.layerWidth layer)
    (hoff : ∀ layer, isLayerShown s.station layer = true → ¬OffTop g layer (s.x layer) (s.y layer))
    (hr : Reaches g r) (hon : OnScreen g sx sy) (htop : Topmost g s sx sy v)
    (hmapped : InRect r sx sy → Mapped s.station priority z0 v ∨
      ∀ w, ShownAt g s sx sy w → ¬Mapped s.station priority z0 w) :
    (flushMap g s r z0 priority).idMap (sy * g.width + sx) =
      if InRect r sx sy ∧ Mapped s.station priority z0 v then BitVec.ofNat 16 (g.id v)
      else s.idMap (sy * g.width + sx) := by
  have hmem : ∀ w, w ∈ painted s.station (List.finRange dwinLayerPrioNr) ↔
    isLayerShown s.station w = true :=
    fun w => by simp only [mem_painted hok, List.mem_finRange, and_true]
  rw [flushMap_apply hok hsolid hfits hoff hr hon]
  by_cases hboth : InRect r sx sy ∧ Mapped s.station priority z0 v
  · rw [if_pos hboth, topmost_of_pairwise (painted_pairwise hok (List.pairwise_lt_finRange _))
      ((hmem v).2 htop.1.1) ⟨hboth.2, hboth.1, htop.1.2⟩ fun w hw hPw =>
        htop.not_below ⟨(hmem w).1 hw, hPw.2.2⟩]
    rfl
  · rw [if_neg hboth, topmost_eq_none.2]
    · rfl
    · rintro w hw ⟨hz, hin, hcoversw⟩
      rcases hmapped hin with hv | hnone
      · exact hboth ⟨hin, hv⟩
      · exact hnone w ⟨(hmem w).1 hw, hcoversw⟩ hz

/-- **A pixel after both.**  If the topmost layer there is mapped, or none that covers the pixel
is, the map has its id and the screen its colour where they are renewed, and both are as they were
otherwise. -/
theorem flush_spec (z1 : ℤ) (hok : WorkstationOk s.station) (hsolid : Solid g)
    (hfits : ∀ layer, 0 < s.x layer + g.layerWidth layer)
    (hoff : ∀ layer, isLayerShown s.station layer = true → ¬OffTop g layer (s.x layer) (s.y layer))
    (hr : Reaches g r) (hon : OnScreen g sx sy) (htop : Topmost g s sx sy v)
    (hmapped : InRect r sx sy → Mapped s.station priority z0 v ∨
      ∀ w, ShownAt g s sx sy w → ¬Mapped s.station priority z0 w) :
    (flush g s r z0 z1 priority).idMap (sy * g.width + sx) =
        (if InRect r sx sy ∧ Mapped s.station priority z0 v then BitVec.ofNat 16 (g.id v)
        else s.idMap (sy * g.width + sx)) ∧
      (flush g s r z0 z1 priority).vram (sy * g.width + sx) =
        if InRect r sx sy ∧ Drawn s.station priority z0 z1 v then colour g s sx sy v
        else s.vram (sy * g.width + sx) := by
  have hid : ∀ w, (BitVec.ofNat 16 (g.id w)).toNat = g.id w := by
    intro w
    have hle : g.id w ≤ 128 := g.id_le w
    rw [BitVec.toNat_ofNat]
    exact Nat.mod_eq_of_lt (by omega)
  have hmap := flushMap_spec hok hsolid hfits hoff hr hon htop hmapped
  refine ⟨hmap, ?_⟩
  have hto : ((List.finRange dwinLayerPrioNr).filter fun lv => lv ≤ priority).Pairwise (· < ·) :=
    (List.pairwise_lt_finRange _).filter _
  have hmemto : ∀ w, w ∈ painted s.station ((List.finRange dwinLayerPrioNr).filter fun lv => lv ≤
    priority) ↔
      isLayerShown s.station w = true ∧ s.station.priority w ≤ priority :=
    fun w => by
      simp only [mem_painted hok, List.mem_filter, List.mem_finRange, true_and, decide_eq_true_eq]
  rw [flush, flushByZ_apply (s := flushMap g s r z0 priority) hok hr hon, hmap]
  by_cases hboth : InRect r sx sy ∧ Drawn s.station priority z0 z1 v
  · have hv : Mapped s.station priority z0 v := fun hp => (hboth.2.2 hp).1
    rw [if_pos hboth, if_pos ⟨hboth.1, hv⟩]
    have hlast := topmost_of_pairwise (P := fun w => Drawn s.station priority z0 z1 w ∧
      (InRect r sx sy ∧ Covers g s sx sy w) ∧ (BitVec.ofNat 16 (g.id v)).toNat = g.id w)
      (painted_pairwise hok hto) ((hmemto v).2 ⟨htop.1.1, hboth.2.1⟩)
      ⟨hboth.2, ⟨hboth.1, htop.1.2⟩, hid v⟩
      fun w hw hPw => htop.not_below ⟨((hmemto w).1 hw).1, hPw.2.1.2⟩
    exact congrArg (fun o => (Option.map (colour g s sx sy) o).getD (s.vram (sy * g.width + sx)))
      hlast
  · -- a layer that is drawn here is mapped, so the topmost one is, and the map has its id
    have hnone : topmost (fun w => Drawn s.station priority z0 z1 w ∧
      (InRect r sx sy ∧ Covers g s sx sy w) ∧
        (if InRect r sx sy ∧ Mapped s.station priority z0 v then BitVec.ofNat 16 (g.id v)
          else s.idMap (sy * g.width + sx)).toNat = g.id w)
        (painted s.station ((List.finRange dwinLayerPrioNr).filter fun lv => lv ≤ priority)) =
          none := by
      refine topmost_eq_none.2 fun w hw hPw => hboth ?_
      obtain ⟨hdrawn, ⟨hin, hcoversw⟩, hentry⟩ := hPw
      rcases hmapped hin with hv | hnone
      · rw [if_pos ⟨hin, hv⟩, hid] at hentry
        rw [g.id_inj hentry]
        exact ⟨hin, hdrawn⟩
      · exact absurd (fun hp => (hdrawn.2 hp).1) (hnone w ⟨((hmemto w).1 hw).1, hcoversw⟩)
    rw [if_neg hboth]
    exact congrArg (fun o => (Option.map (colour g s sx sy) o).getD (s.vram (sy * g.width + sx)))
      hnone

/-! ## What need not be flushed -/

section Placed

variable {t : ZStack L} {n : ℤ} {f : Option Refresh}

/-- The other layers are shown as before. -/
theorem isLayerShown_put (h : WorkstationOk s.station)
    (hplaced : Placed (s.station.stack (s.station.priority layer)) t layer n f) (hw : w ≠ layer) :
    isLayerShown (s.station.putStack (s.station.priority layer) t) w =
      isLayerShown s.station w := by
  rw [Bool.eq_iff_iff, isLayerShown_iff (h.put hplaced), isLayerShown_iff h]
  change w ∈ Function.update s.station.priorityList (s.station.priority layer) t.list
    (s.station.priority w) ↔ _
  by_cases hlv : s.station.priority w = s.station.priority layer
  · rw [hlv, Function.update_self]
    exact hplaced.mem_iff (h.ordered _) hw
  · rw [Function.update_of_ne hlv]

/-- The list that has changed. -/
theorem mem_put (h : WorkstationOk s.station)
    (hplaced : Placed (s.station.stack (s.station.priority layer)) t layer n f) :
    w ∈ t.list ↔ isLayerShown (s.station.putStack (s.station.priority layer) t) w = true ∧
      s.station.priority w = s.station.priority layer := by
  have hput := h.put hplaced
  have hlist : (s.station.putStack (s.station.priority layer) t).priorityList
    (s.station.priority layer) =
      t.list := Function.update_self _ _ _
  rw [isLayerShown_iff hput, ← hlist]
  constructor
  · intro hw
    have hlv : s.station.priority w = s.station.priority layer := hput.own _ w hw
    exact ⟨hlv ▸ hw, hlv⟩
  · rintro ⟨hw, hlv⟩
    exact hlv ▸ hw

/-- The numbers on the other lists stay. -/
theorem z_put (h : WorkstationOk s.station)
    (hplaced : Placed (s.station.stack (s.station.priority layer)) t layer n f)
    (hlv : s.station.priority w ≠ s.station.priority layer) : t.z w = s.station.z w :=
  hplaced.frame w (fun heq => hlv (congrArg s.station.priority heq)) fun hmem =>
    hlv (h.own _ w hmem)

/-- A layer that is topmost after `dwin_layer_zorder`, and is not among those that are drawn, was
topmost before. -/
theorem topmost_of_placed (h : WorkstationOk s.station)
    (hplaced : Placed (s.station.stack (s.station.priority layer)) t layer n f)
    (htop : Topmost g { s with station := s.station.putStack (s.station.priority layer) t } sx sy v)
    (hnot : ¬(Covers g s sx sy layer ∧ Drawn (s.station.putStack (s.station.priority layer) t)
      (s.station.priority layer) (refreshOf (s.station.z layer) (t.z layer)).z0
        (refreshOf (s.station.z layer) (t.z layer)).z1 v)) : Topmost g s sx sy v := by
  obtain ⟨⟨hshown, hcovers⟩, hmax⟩ := htop
  -- another layer is below the topmost one as before, if the list of one of them has not changed
  have hother : ∀ w, ShownAt g s sx sy w → w ≠ v → w ≠ layer →
      s.station.priority v ≠ s.station.priority layer ∨
        s.station.priority w ≠ s.station.priority layer →
        Below s.station w v := by
    intro w hw hwv hwl hlist
    rcases hmax w ⟨(isLayerShown_put h hplaced hwl).trans hw.1, hw.2⟩ hwv with hlt | ⟨heq, hlt⟩
    · exact Or.inl hlt
    · change s.station.priority w = s.station.priority v at heq
      change t.z w < t.z v at hlt
      have hlists : s.station.priority w ≠ s.station.priority layer ∧
          s.station.priority v ≠ s.station.priority layer := by
        rcases hlist with hlist | hlist <;> exact ⟨by omega, by omega⟩
      rw [z_put h hplaced hlists.1, z_put h hplaced hlists.2] at hlt
      exact Or.inr ⟨heq, hlt⟩
  by_cases hlv : s.station.priority v = s.station.priority layer
  · -- on the list that has changed it was the highest
    have hnew : Highest t (Covers g s sx sy) v := by
      refine ⟨(mem_put h hplaced).2 ⟨hshown, hlv⟩, hcovers, fun w hw hcoversw => ?_⟩
      obtain ⟨hw', hwlv⟩ := (mem_put h hplaced).1 hw
      by_cases hwv : w = v
      · rw [hwv]
      · rcases hmax w ⟨hw', hcoversw⟩ hwv with hlt | ⟨-, hlt⟩
        · change s.station.priority w < s.station.priority v at hlt
          omega
        · exact le_of_lt hlt
    obtain ⟨hold, -, hhigh⟩ : Highest (s.station.stack (s.station.priority layer))
      (Covers g s sx sy) v :=
      Highest.of_placed (h.ordered _) (h.out layer) hplaced hnew fun hdrawn =>
        hnot ⟨hdrawn.1, le_of_eq hlv, fun _ => hdrawn.2⟩
    have hshown' : isLayerShown s.station v = true := (isLayerShown_iff h).2 (by rwa [hlv])
    refine ⟨⟨hshown', hcovers⟩, fun w hw hwv => ?_⟩
    by_cases hwlv : s.station.priority w = s.station.priority layer
    · have hwold : w ∈ s.station.priorityList (s.station.priority layer) := by
        rw [← hwlv]
        exact (isLayerShown_iff h).1 hw.1
      have hle := hhigh w hwold hw.2
      have hne : s.station.z w ≠ s.station.z v := fun heq =>
        hwv ((h.ordered _).numbered.inj hwold hold heq)
      exact Or.inr ⟨hwlv.trans hlv.symm, lt_of_le_of_ne hle hne⟩
    · exact hother w hw hwv (fun heq => hwlv (congrArg s.station.priority heq)) (Or.inr hwlv)
  · have hvl : v ≠ layer := fun heq => hlv (congrArg s.station.priority heq)
    refine ⟨⟨(isLayerShown_put h hplaced hvl).symm.trans hshown, hcovers⟩, fun w hw hwv => ?_⟩
    by_cases hwl : w = layer
    · -- the layer itself is below, or what is topmost would be drawn
      subst hwl
      refine Or.inl (lt_of_le_of_ne (not_lt.1 fun hlt => ?_) (Ne.symm hlv))
      exact hnot ⟨hw.2, le_of_lt hlt, fun heq => absurd heq hlv⟩
    · exact hother w hw hwv hwl (Or.inl hlv)

/-- **Where the topmost layer is not mapped**, it is the layer of the call, and that went down. -/
theorem lowered_of_not_mapped (h : WorkstationOk s.station)
    (hplaced : Placed (s.station.stack (s.station.priority layer)) t layer z f)
    (htop : Topmost g { s with station := s.station.putStack (s.station.priority layer) t } sx sy v)
    (hcoversl : Covers g s sx sy layer)
    (hv : ¬Mapped (s.station.putStack (s.station.priority layer) t) (s.station.priority layer)
      (refreshOf (s.station.z layer) (t.z layer)).z0 v) :
    v = layer ∧ layer ∈ t.list ∧ t.z layer < s.station.z layer ∧
      (refreshOf (s.station.z layer) (t.z layer)).z0 = t.z layer + 1 := by
  have hv' : ¬(s.station.priority v = s.station.priority layer →
    (refreshOf (s.station.z layer) (t.z layer)).z0 ≤ t.z v) := hv
  rw [Classical.not_imp, not_le] at hv'
  obtain ⟨hlv, hlow⟩ := hv'
  have hpos := (hplaced.ordered.numbered.mem ((mem_put h hplaced).2 ⟨htop.1.1, hlv⟩)).1
  have hin : layer ∈ t.list := by
    by_contra hout
    rw [refreshOf, if_pos (by rw [hplaced.hidden hout]; norm_num)] at hlow
    change t.z v < 0 at hlow
    omega
  have hposl := (hplaced.ordered.numbered.mem hin).1
  -- nothing that covers the pixel is above the topmost layer
  have hle : v ≠ layer → t.z layer < t.z v := by
    intro hvl
    rcases htop.2 layer ⟨((mem_put h hplaced).1 hin).1, hcoversl⟩ (Ne.symm hvl) with hlt | ⟨-, hlt⟩
    · change s.station.priority layer < s.station.priority v at hlt
      omega
    · exact hlt
  rw [refreshOf, if_neg (by omega)] at hlow ⊢
  split_ifs at hlow ⊢ with hup
  · change t.z v < t.z layer at hlow
    by_cases hvl : v = layer
    · rw [hvl] at hlow
      exact absurd hlow (lt_irrefl _)
    · have hgt := hle hvl
      omega
  · change t.z v < t.z layer + 1 at hlow
    refine ⟨?_, hin, by omega, rfl⟩
    by_contra hvl
    have hgt := hle hvl
    omega

/-- A layer that went down and is still on the list has the number it was to have. -/
theorem number_of_lowered (h : WorkstationOk s.station)
    (hplaced : Placed (s.station.stack (s.station.priority layer)) t layer z f)
    (hin : layer ∈ t.list) (hold : layer ∈ s.station.priorityList (s.station.priority layer))
    (hdown : t.z layer < s.station.z layer) :
    0 ≤ z ∧ t.z layer = z := by
  have hn : 0 ≤ z := by
    by_contra hneg
    rw [hplaced.list, place_neg (by omega)] at hin
    exact (h.ordered _).nodup.not_mem_erase hin
  have hnum := hplaced.number hn
  have hlen := (h.ordered (s.station.priority layer)).numbered.mem hold
  change t.z layer = min z ((s.station.priorityList (s.station.priority layer)).erase layer).length
    at hnum
  change 0 ≤ s.station.z layer ∧
    s.station.z layer < 0 + (s.station.priorityList (s.station.priority layer)).length at hlen
  rw [List.length_erase_of_mem hold] at hnum
  exact ⟨hn, by omega⟩

/-- What was at least as high as the place the layer went down to is above it. -/
theorem above_lowered (h : WorkstationOk s.station)
    (hplaced : Placed (s.station.stack (s.station.priority layer)) t layer z f) (hwl : w ≠ layer)
    (hw : w ∈ s.station.priorityList (s.station.priority layer)) (hz : t.z layer = z)
    (hdown : t.z layer < s.station.z layer) (hle : z ≤ s.station.z w) : t.z layer < t.z w := by
  have hbefore := rank (h.ordered _) (h.out layer) hw hwl
  have hafter := rank hplaced.ordered hplaced.hidden ((hplaced.mem_iff (h.ordered _) hwl).2 hw) hwl
  rw [hplaced.list, place_erase (h.ordered _).nodup] at hafter
  change s.station.z w = _ at hbefore
  change t.z w = _ at hafter
  change _ = _ + (if 0 ≤ s.station.z layer ∧ s.station.z layer ≤ _ then (1 : ℤ) else 0) at hbefore
  split_ifs at hbefore hafter <;> omega

/-- **What is mapped**: the topmost layer, or none that covers the pixel. -/
theorem mapped_of_placed (h : WorkstationOk s.station)
    (hplaced : Placed (s.station.stack (s.station.priority layer)) t layer z f)
    (htop : Topmost g { s with station := s.station.putStack (s.station.priority layer) t } sx sy v)
    (hon : OnScreen g sx sy) (hcoversl : Covers g s sx sy layer)
    (hclear : isLayerShown s.station layer = true → 0 ≤ z → z < s.station.z layer →
      LowersClear g s layer z) :
    Mapped (s.station.putStack (s.station.priority layer) t) (s.station.priority layer)
        (refreshOf (s.station.z layer) (t.z layer)).z0 v ∨
      ∀ w, ShownAt g { s with station := s.station.putStack (s.station.priority layer) t } sx sy w →
        ¬Mapped (s.station.putStack (s.station.priority layer) t) (s.station.priority layer)
          (refreshOf (s.station.z layer) (t.z layer)).z0 w := by
  by_cases hv : Mapped (s.station.putStack (s.station.priority layer) t) (s.station.priority layer)
      (refreshOf (s.station.z layer) (t.z layer)).z0 v
  · exact Or.inl hv
  obtain ⟨rfl, hin, hdown, hz0⟩ := lowered_of_not_mapped h hplaced htop hcoversl hv
  have hposl := (hplaced.ordered.numbered.mem hin).1
  have hold : v ∈ s.station.priorityList (s.station.priority v) := by
    by_contra hout
    have hz := h.out v hout
    omega
  have hshown : isLayerShown s.station v = true := (isLayerShown_iff h).2 hold
  have hz := number_of_lowered h hplaced hin hold hdown
  rcases hclear hshown hz.1 (by omega) sx sy hon hcoversl with ⟨u, hu, habove⟩ | hlower
  · -- what was above it still is
    exfalso
    have huv : u ≠ v := by
      rintro rfl
      rcases habove with hlt | ⟨-, hne, -⟩
      · exact lt_irrefl _ hlt
      · exact hne rfl
    rcases htop.2 u ⟨(isLayerShown_put h hplaced huv).trans hu.1, hu.2⟩ huv with hlt | ⟨heq, hlt⟩
    · change s.station.priority u < s.station.priority v at hlt
      rcases habove with hgt | ⟨heq, -⟩ <;> omega
    · change s.station.priority u = s.station.priority v at heq
      change t.z u < t.z v at hlt
      rcases habove with hgt | ⟨-, -, hle⟩
      · omega
      · have huold : u ∈ s.station.priorityList (s.station.priority v) := by
          rw [← heq]
          exact (isLayerShown_iff h).1 hu.1
        exact absurd hlt (not_lt.2 (above_lowered h hplaced huv huold hz.2 hdown hle).le)
  · refine Or.inr fun w hw hmapped => ?_
    by_cases hwv : w = v
    · have hmine : (refreshOf (s.station.z v) (t.z v)).z0 ≤ t.z v := by
        rw [hwv] at hmapped
        exact hmapped rfl
      omega
    · rcases htop.2 w hw hwv with hlt | ⟨heq, hlt⟩
      · exact hlower w ⟨(isLayerShown_put h hplaced hwv).symm.trans hw.1, hw.2⟩ hlt
      · have hmine : (refreshOf (s.station.z v) (t.z v)).z0 ≤ t.z w := hmapped heq
        change t.z w < t.z v at hlt
        omega

end Placed

/-! ## The calls -/

/-- **The display is in order**: so is the workstation, a part of every layer is right of the left
border, no layer that is shown is above the screen, and the map and the screen have what belongs to
the topmost layer. -/
structure DisplayOk (g : Screen L) (s : Display L) : Prop where
  station : WorkstationOk s.station
  fits : ∀ layer, 0 < s.x layer + g.layerWidth layer
  off : ∀ layer, isLayerShown s.station layer = true → ¬OffTop g layer (s.x layer) (s.y layer)
  seen : ∀ sx sy, OnScreen g sx sy → ∀ v, Topmost g s sx sy v →
    s.idMap (sy * g.width + sx) = BitVec.ofNat 16 (g.id v) ∧
      s.vram (sy * g.width + sx) = colour g s sx sy v

variable (hsolid : Solid g)

/-- The calls on the lists are those of the model of the lists. -/
theorem displayZorder_station {s' : Display L} (h : displayZorder g s layer z = some s') :
    dwinLayerZorder s.station layer z = some s'.station ∧ s'.x = s.x ∧ s'.y = s.y := by
  obtain ⟨⟨t, f⟩, hres, rfl⟩ := Option.map_eq_some_iff.1 h
  rw [dwinLayerZorder_refresh, hres]
  cases f <;> exact ⟨rfl, rfl, rfl⟩

include hsolid

/-- What is flushed puts the display in order, if it was so at all other pixels. -/
theorem displayOk_flush (hstation : WorkstationOk s.station)
    (hfits : ∀ layer, 0 < s.x layer + g.layerWidth layer)
    (hoff : ∀ layer, isLayerShown s.station layer = true → ¬OffTop g layer (s.x layer) (s.y layer))
    (hr : Reaches g r)
    (hmapped : ∀ sx sy, OnScreen g sx sy → ∀ v, Topmost g s sx sy v → InRect r sx sy →
      Mapped s.station priority z0 v ∨ ∀ w, ShownAt g s sx sy w → ¬Mapped s.station priority z0 w)
    (hseen : ∀ sx sy, OnScreen g sx sy → ∀ v, Topmost g s sx sy v →
      ¬(InRect r sx sy ∧ Drawn s.station priority z0 z1 v) →
        s.idMap (sy * g.width + sx) = BitVec.ofNat 16 (g.id v) ∧
          s.vram (sy * g.width + sx) = colour g s sx sy v) :
    DisplayOk g (flush g s r z0 z1 priority) := by
  refine ⟨hstation, hfits, hoff, fun sx sy hon v htop => ?_⟩
  obtain ⟨hmap, hvram⟩ :=
    flush_spec z1 hstation hsolid hfits hoff hr hon htop (hmapped sx sy hon v htop)
  rw [hmap, hvram]
  by_cases hdrawn : InRect r sx sy ∧ Drawn s.station priority z0 z1 v
  · rw [if_pos hdrawn, if_pos ⟨hdrawn.1, fun hp => (hdrawn.2.2 hp).1⟩]
    exact ⟨rfl, rfl⟩
  · obtain ⟨hmapold, hvramold⟩ := hseen sx sy hon v htop hdrawn
    rw [if_neg hdrawn, hmapold, ite_self]
    exact ⟨rfl, hvramold⟩

omit hsolid in
/-- A layer that is not shown is not hidden. -/
theorem displayZorder_out (hout : ¬isLayerShown s.station layer = true) (hz : ¬0 ≤ z) :
    displayZorder g s layer z = some s := by
  have hres : zorderRefresh s.station layer z = some (s.station, none) := by
    unfold zorderRefresh
    dsimp only
    rw [if_neg hout, if_neg hz, ite_self]
  rw [displayZorder, hres]
  rfl

/-- `dwin_layer_zorder`. -/
theorem displayZorder_spec (h : DisplayOk g s)
    (hoff : 0 ≤ z → ¬OffTop g layer (s.x layer) (s.y layer))
    (hclear : isLayerShown s.station layer = true → 0 ≤ z → z < s.station.z layer →
      LowersClear g s layer z) :
    ∃ s', displayZorder g s layer z = some s' ∧ DisplayOk g s' := by
  by_cases hact : isLayerShown s.station layer = true ∨ 0 ≤ z
  swap
  · rw [not_or] at hact
    exact ⟨s, displayZorder_out hact.1 hact.2, h⟩
  have hoffl : ¬OffTop g layer (s.x layer) (s.y layer) := hact.elim (h.off layer) hoff
  have hreaches : Reaches g (layerRect g s layer) := by
    refine ⟨h.fits layer, ?_⟩
    rw [OffTop, not_and_or, not_lt, not_lt] at hoffl
    exact hoffl
  obtain ⟨t, f, hres, hcases⟩ :=
    setZ_spec (h.station.ordered (s.station.priority layer)) (h.station.out layer) z
  rw [displayZorder, zorderRefresh_eq h.station, hres, Option.map_some, Option.map_some]
  refine ⟨_, rfl, ?_⟩
  rcases hcases with ⟨rfl, rfl, -⟩ | hplaced
  · change DisplayOk g { s with station := s.station.putStack _ (s.station.stack _) }
    rw [putStack_self]
    exact h
  · have hoffs : ∀ w, isLayerShown (s.station.putStack (s.station.priority layer) t) w = true →
        ¬OffTop g w (s.x w) (s.y w) := by
      intro w hw
      by_cases hwl : w = layer
      · rwa [hwl]
      · exact h.off w ((isLayerShown_put h.station hplaced hwl).symm.trans hw)
    rw [hplaced.refresh]
    exact displayOk_flush
      (s := { s with station := s.station.putStack (s.station.priority layer) t }) hsolid
      (h.station.put hplaced) h.fits hoffs hreaches
      (fun sx sy hon v htop hin => mapped_of_placed h.station hplaced htop hon hin hclear)
      fun sx sy hon v htop hnot => h.seen sx sy hon v
      (topmost_of_placed h.station hplaced htop hnot)

omit hsolid in
/-- A layer that is topmost after another has moved, and before was not below that one, is shown as
it was. -/
theorem seen_moved (h : DisplayOk g s) {x y : ℤ} (hon : OnScreen g sx sy) (hwl : w ≠ layer)
    (htop : Topmost g { s with x := Function.update s.x layer x, y := Function.update s.y layer y }
      sx sy w)
    (hbelow : ShownAt g s sx sy layer → Below s.station layer w) :
    s.idMap (sy * g.width + sx) = BitVec.ofNat 16 (g.id w) ∧
      s.vram (sy * g.width + sx) =
        colour g { s with x := Function.update s.x layer x, y := Function.update s.y layer y } sx
        sy w := by
  -- the other layers are where they were
  have hother : ∀ u, u ≠ layer →
      (ShownAt g { s with x := Function.update s.x layer x, y := Function.update s.y layer y } sx
        sy u ↔
        ShownAt g s sx sy u) := by
    intro u hu
    simp only [ShownAt, Covers, Function.update_of_ne hu]
  obtain ⟨hw, hmax⟩ := htop
  have hold : Topmost g s sx sy w := by
    refine ⟨(hother w hwl).1 hw, fun u hu huw => ?_⟩
    by_cases hul : u = layer
    · subst hul
      exact hbelow hu
    · exact hmax u ((hother u hul).2 hu) huw
  obtain ⟨hmap, hvram⟩ := h.seen sx sy hon w hold
  refine ⟨hmap, hvram.trans ?_⟩
  simp only [colour, Function.update_of_ne hwl]

/-- `dwin_layer_move`. -/
theorem dwinLayerMove_spec (h : DisplayOk g s) {x y : ℤ} (hx : 0 < x + g.layerWidth layer)
    (hoff : isLayerShown s.station layer = true → ¬OffTop g layer x y) :
    DisplayOk g (dwinLayerMove g s layer x y) := by
  have hfits : ∀ u, 0 < Function.update s.x layer x u + g.layerWidth u := by
    intro u
    by_cases hu : u = layer
    · subst hu
      rwa [Function.update_self]
    · rw [Function.update_of_ne hu]
      exact h.fits u
  have hoffs : ∀ u, isLayerShown s.station u = true →
      ¬OffTop g u (Function.update s.x layer x u) (Function.update s.y layer y u) := by
    intro u hu
    by_cases hul : u = layer
    · subst hul
      rw [Function.update_self, Function.update_self]
      exact hoff hu
    · rw [Function.update_of_ne hul, Function.update_of_ne hul]
      exact h.off u hu
  unfold dwinLayerMove
  dsimp only
  split_ifs with hshown
  · have hin : isLayerShown s.station layer = true := by
      by_contra hout
      have hz := h.station.out layer fun hmem => hout ((isLayerShown_iff h.station).2 hmem)
      omega
    have hpos : ∀ w, isLayerShown s.station w = true → 0 ≤ s.station.z w := fun w hw =>
      ((h.station.ordered _).numbered.mem ((isLayerShown_iff h.station).1 hw)).1
    refine displayOk_flush
      (s := { s with x := Function.update s.x layer x, y := Function.update s.y layer y })
      hsolid h.station hfits hoffs ⟨lt_max_of_lt_left (h.fits layer), ?_⟩
      (fun sx sy _ v htop _ => Or.inl fun _ => hpos v htop.1.1) fun sx sy hon w htop hnot => ?_
    · have hnew := hoff hin
      have hold := h.off layer hin
      simp only [OffTop, moveRect] at hnew hold ⊢
      omega
    have hrect : Covers g s sx sy layer ∨
        Covers g { s with x := Function.update s.x layer x, y := Function.update s.y layer y } sx
        sy layer →
          InRect (moveRect g s layer x y) sx sy := by
      simp only [Covers, Function.update_self, InRect, moveRect]
      omega
    have hwl : w ≠ layer := by
      rintro rfl
      exact hnot ⟨hrect (Or.inr htop.1.2), le_rfl, fun _ => ⟨hshown, le_rfl⟩⟩
    refine seen_moved h hon hwl htop fun hlayer => ?_
    have hnotdrawn : ¬Drawn s.station (s.station.priority layer) 0 (s.station.z layer) w :=
      fun hdrawn =>
      hnot ⟨hrect (Or.inl hlayer.2), hdrawn⟩
    by_contra habove
    refine hnotdrawn ⟨not_lt.1 fun hlt => habove (Or.inl hlt), fun heq => ⟨hpos w htop.1.1, ?_⟩⟩
    exact not_lt.1 fun hlt => habove (Or.inr ⟨heq.symm, hlt⟩)
  · have hout : ¬isLayerShown s.station layer = true := fun hin =>
      hshown ((h.station.ordered _).numbered.mem ((isLayerShown_iff h.station).1 hin)).1
    refine ⟨h.station, hfits, hoffs, fun sx sy hon w htop => ?_⟩
    have hwl : w ≠ layer := fun heq => hout (heq ▸ htop.1.1)
    exact seen_moved h hon hwl htop fun hlayer => absurd hlayer.1 hout

/-- `dwin_layer_change_priority`. -/
theorem displayChangePriority_spec (h : DisplayOk g s) (layer : L) (priority : ℕ) :
    ∃ s', displayChangePriority g s layer priority = some s' ∧ DisplayOk g s' := by
  unfold displayChangePriority
  split_ifs with hprio
  · obtain ⟨s₁, hhide, hok₁⟩ : ∃ s', displayZorder g s layer (-1) = some s' ∧ DisplayOk g s' :=
      displayZorder_spec hsolid h (by norm_num) (by norm_num)
    obtain ⟨hzorder, hx, hy⟩ := displayZorder_station hhide
    obtain ⟨t, ht, -, -, -, hgone⟩ := hide_spec h.station layer
    obtain rfl : t = s₁.station := Option.some.inj (ht.symm.trans hzorder)
    have hhidden : ¬isLayerShown s₁.station layer = true := fun hin =>
      hgone _ ((isLayerShown_iff hok₁.station).1 hin)
    have hok₂ : DisplayOk g { s₁ with station := { s₁.station with
        priority := Function.update s₁.station.priority layer ⟨priority, hprio⟩ } } := by
      refine ⟨hok₁.station.setPriority hgone _, hok₁.fits, hok₁.off, fun sx sy hon v htop => ?_⟩
      obtain ⟨hv, hmax⟩ := htop
      refine hok₁.seen sx sy hon v ⟨hv, fun w hw hwv => ?_⟩
      have hne : ∀ u, isLayerShown s₁.station u = true → u ≠ layer :=
        fun u hu heq => hhidden (heq ▸ hu)
      have hbelow := hmax w hw hwv
      simpa only [Below, Function.update_of_ne (hne w hw.1), Function.update_of_ne (hne v hv.1)]
        using hbelow
    obtain ⟨s₃, hshow, hok₃⟩ := displayZorder_spec (z := s.station.z layer) hsolid hok₂
      (fun hz => by
        have hin : isLayerShown s.station layer = true := by
          by_contra hnot
          have hneg := h.station.out layer fun hmem => hnot ((isLayerShown_iff h.station).2 hmem)
          omega
        change ¬OffTop g layer (s₁.x layer) (s₁.y layer)
        rw [hx, hy]
        exact h.off layer hin)
      (fun hin => absurd hin hhidden)
    exact ⟨s₃, by simp only [hhide, Option.bind_some, hshow], hok₃⟩
  · exact ⟨s, rfl, h⟩

/-- **Every call that is clear keeps the display in order.** -/
theorem displayStep_spec (h : DisplayOk g s) {call : DisplayCall L} (hfits : call.Fits g)
    (hclear : call.Clear g s) : ∃ s', displayStep g s call = some s' ∧ DisplayOk g s' := by
  cases call with
  | zorder layer z => exact displayZorder_spec hsolid h hclear.1 hclear.2
  | move layer x y => exact ⟨_, rfl, dwinLayerMove_spec hsolid h hfits hclear⟩
  | changePriority layer priority => exact displayChangePriority_spec hsolid h layer priority

omit hsolid

/-- Of the shown layers that cover a pixel, one is the greatest. -/
theorem exists_topmost {s : Display L} (h : WorkstationOk s.station) (hw : ShownAt g s sx sy w) :
    ∃ v, Topmost g s sx sy v := by
  have hmem : ∀ u, u ∈ painted s.station (List.finRange dwinLayerPrioNr) ↔
    isLayerShown s.station u = true :=
    fun u => by simp only [mem_painted h, List.mem_finRange, and_true]
  cases htop : topmost (Covers g s sx sy) (painted s.station (List.finRange dwinLayerPrioNr)) with
  | none => exact absurd hw.2 (topmost_eq_none.1 htop w ((hmem w).2 hw.1))
  | some v =>
      obtain ⟨hv, hcovers⟩ := topmost_some htop
      refine ⟨v, ⟨(hmem v).1 hv, hcovers⟩, fun u hu huv => ?_⟩
      have habove := topmost_above (painted_pairwise h (List.pairwise_lt_finRange _)) htop u
        ((hmem u).2 hu.1) hu.2
      exact habove.resolve_left huv

/-- **The workstation shows the topmost layer.**  In every run from an empty workstation whose
calls are clear, with any map and anything on the screen, every pixel that a shown layer covers has
the id and the colour of the topmost one. -/
theorem layers_show_topmost (hsolid : Solid g) (priority : L → Fin dwinLayerPrioNr) (s₀ : Display L)
    (hempty : s₀.station = emptyWorkstation priority)
    (hfits : ∀ layer, 0 < s₀.x layer + g.layerWidth layer)
    (calls : List (DisplayCall L)) (hcalls : ∀ call ∈ calls, call.Fits g)
    (hclear : Run.Along (displayStep g) (fun s call => call.Clear g s) s₀ calls) :
    ∃ s, Run.exec (displayStep g) s₀ calls = some s ∧ ShowsTopmost g s := by
  have hstation : WorkstationOk s₀.station := hempty ▸ workstationOk_empty priority
  have hnone : ∀ layer, ¬isLayerShown s₀.station layer = true := by
    intro layer hin
    have hmem := (isLayerShown_iff hstation).1 hin
    rw [hempty] at hmem
    cases hmem
  have hstart : DisplayOk g s₀ :=
    ⟨hstation, hfits, fun layer hin => absurd hin (hnone layer), fun sx sy _ v htop =>
      absurd htop.1.1 (hnone v)⟩
  have hfit : Run.Along (displayStep g) (fun _ call => call.Fits g) s₀ calls :=
    Run.along_of_mem (Q := fun call => call.Fits g) calls s₀ hcalls
  have hboth := Run.along_and calls s₀ hfit hclear
  obtain ⟨s, hrun, hs⟩ :=
    Run.exec_total (P := fun s call => call.Fits g ∧ call.Clear g s) (I := DisplayOk g)
    (fun s call h hcall => displayStep_spec hsolid h hcall.1 hcall.2) calls s₀ hstart
    hboth
  refine ⟨s, hrun, fun sx sy hon hcovered => ?_⟩
  obtain ⟨w, hw⟩ := hcovered
  obtain ⟨v, htop⟩ := exists_topmost hs.station hw
  obtain ⟨hmap, hvram⟩ := hs.seen sx sy hon v htop
  refine ⟨v, htop, ?_, hvram⟩
  have hle : g.id v ≤ 128 := g.id_le v
  rw [hmap, BitVec.toNat_ofNat]
  exact Nat.mod_eq_of_lt (by omega)

/-! ## A desktop and two windows -/

/-- A screen of three pixels, a desktop as wide as it and two windows of two pixels. -/
def threeLayers : Screen (Fin 3) where
  width := 3
  height := 1
  layerWidth layer := if layer = 0 then 3 else 2
  layerHeight _ := 1
  buffer layer _ := if layer = 0 then 0xff000000 else if layer = 1 then 0xffff0000 else 0xff00ff00
  id layer := layer + 1
  id_le := by decide
  id_inj := by decide

/-- Nothing is shown, and the layers are where `dwin_layer_create` leaves them. -/
def threeStart : Display (Fin 3) :=
  ⟨emptyWorkstation fun layer => ⟨if layer = 0 then 0 else 1, by split <;> decide⟩,
    fun _ => -1, fun _ => -1, fun _ => 0, fun _ => 0⟩

/-- The desktop is shown, the first window on its left and the second one above both on its right.
-/
def threeCalls : List (DisplayCall (Fin 3)) :=
  [.move 0 0 0, .move 1 0 0, .move 2 1 0, .zorder 0 0, .zorder 1 0, .zorder 2 1]

omit [DecidableEq L] in
theorem threeLayers_solid : Solid threeLayers := by
  intro layer lx ly _ _ _ _
  fin_cases layer
  · exact (by decide : ((0xff000000 : BitVec 32) >>> 24) &&& 0xff ≠ 0)
  · exact (by decide : ((0xffff0000 : BitVec 32) >>> 24) &&& 0xff ≠ 0)
  · exact (by decide : ((0xff00ff00 : BitVec 32) >>> 24) &&& 0xff ≠ 0)

/-- **A window goes below the other** and the desktop comes to the fore: at the right pixel the
second window is still the topmost layer, and the map has the id of the desktop. -/
theorem lowered_below_desktop :
    Solid threeLayers ∧ (∀ layer, 0 < threeStart.x layer + threeLayers.layerWidth layer) ∧
      (∀ call ∈ threeCalls ++ [.zorder 2 0], call.Fits threeLayers) ∧
      ∃ s, Run.exec (displayStep threeLayers) threeStart (threeCalls ++ [.zorder 2 0]) = some s ∧
        ¬ShowsTopmost threeLayers s := by
  refine ⟨threeLayers_solid, by decide, ?_, ?_⟩
  · simp [threeCalls, DisplayCall.Fits, threeLayers]
  have hrun : (Run.exec (displayStep threeLayers) threeStart (threeCalls ++ [.zorder 2 0])).any
    (fun s =>
      isLayerShown s.station 2 && decide (Covers threeLayers s 2 0 2) && decide (s.idMap 2 = 1) &&
        decide (s.station.priority 0 < s.station.priority 2)) = true := by decide +kernel
  obtain ⟨s, hs, hwrong⟩ := (Option.any_eq_true _ _).1 hrun
  simp only [Bool.and_eq_true, decide_eq_true_eq] at hwrong
  obtain ⟨⟨⟨hshown, hcovers⟩, hmap⟩, hlow⟩ := hwrong
  refine ⟨s, hs, fun hshows => ?_⟩
  obtain ⟨layer, htop, hid, -⟩ := hshows 2 0 ⟨by decide, by decide⟩ ⟨2, hshown, hcovers⟩
  change (s.idMap 2).toNat = layer + 1 at hid
  rw [hmap] at hid
  have hzero : layer = 0 := by
    change 1 = (layer : ℕ) + 1 at hid
    omega
  subst hzero
  rcases htop.2 2 ⟨hshown, hcovers⟩ (by decide) with hlt | ⟨heq, -⟩
  · exact absurd hlow (not_lt.2 (le_of_lt hlt))
  · exact absurd heq (ne_of_gt hlow)

/-- A call that leaves no layer above the screen and lowers none. -/
def raises (s : Display (Fin 3)) : DisplayCall (Fin 3) → Bool
  | .zorder layer z => decide (0 ≤ s.y layer + threeLayers.layerHeight layer) &&
      decide (z < 0 ∨ s.station.z layer ≤ z)
  | .move layer _ y => decide (0 ≤ y + threeLayers.layerHeight layer)
  | .changePriority _ _ => true

/-- One window is taken to the panels, the other one is moved over it, and the first is hidden and
shown again. -/
theorem layers_show_topmost_three :
    ∃ s, Run.exec (displayStep threeLayers) threeStart
        (threeCalls ++ [.changePriority 1 2, .move 2 0 0, .zorder 1 (-1), .zorder 1 0]) = some s ∧
      ShowsTopmost threeLayers s := by
  refine layers_show_topmost threeLayers_solid _ threeStart rfl (by decide) _ ?_ ?_
  · simp [threeCalls, DisplayCall.Fits, threeLayers]
  · refine Run.along_mono (P := fun s call => raises s call = true)
      (fun s call hcall => ?_) _ _ (by decide +kernel)
    cases call with
    | zorder layer z =>
        simp only [raises, Bool.and_eq_true, decide_eq_true_eq] at hcall
        refine ⟨fun _ hoff => ?_, fun _ _ _ => ?_⟩
        · have hneg := hoff.1
          omega
        · omega
    | move layer x y =>
        simp only [raises, decide_eq_true_eq] at hcall
        intro _ hoff
        have hneg := hoff.1
        omega
    | changePriority layer priority => trivial

end Dwin
end LightOS
