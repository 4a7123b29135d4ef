import LightOS.View.LayerLifeBasic

/-!
# The life of layers

A run whose calls keep to the conditions of `Lifecycle.Allows` unlinks no node whose links are null,
and the lists and the ids are what `Lifecycle` says.

* `IdsOk.alloc`, `IdsOk.free` — the map of ids has the ids of the layers that live.
* `layerZorder_run` — with a layer of the workstation, the order is that of the lists alone.
* `lifeStep_spec` — every call is what `Lifecycle.step` says.
* `layers_live` — the runs.
-/

namespace LightOS
namespace Dwin

open ZOrder Stacking View

variable {L : Type}

/-! ## Ids -/

/-- **The map has the ids of the layers that live**, and each of them has its own. -/
structure IdsOk (live : List L) (id : L → ℤ) (layerId : Bitmap) (named : L → ℕ) : Prop where
  nodup : live.Nodup
  id : ∀ v ∈ live, id v = named v
  length : layerId.byteLength * 8 = dwinLayerNr
  bits : ∀ i < dwinLayerNr, layerId.bit i = true ↔ ∃ v ∈ live, named v = i + 1
  distinct : ∀ v ∈ live, ∀ w ∈ live, named v = named w → v = w
  range : ∀ v ∈ live, 1 ≤ named v ∧ named v ≤ dwinLayerNr

section Ids

variable {live : List L} {id : L → ℤ} {layerId : Bitmap} {named : L → ℕ}

theorem idsOk_init (id : L → ℤ) (bits : ℕ → BitVec 8) (named : L → ℕ) :
    IdsOk [] id (dwinLayerIdInit bits) named := by
  refine ⟨List.nodup_nil, nofun, rfl, fun i hi => ?_, nofun, nofun⟩
  have hclear : (dwinLayerIdInit bits).bit i = false := bitmapInit_bit (by exact hi)
  simp [hclear]

/-- An id that no layer has is given out as soon as all lower ones are in use. -/
theorem IdsOk.again (h : IdsOk live id layerId named) {n : ℕ} (hn : 1 ≤ n) (hnr : n ≤ dwinLayerNr)
    (hfree : ∀ v ∈ live, named v ≠ n) (hbelow : ∀ m, 1 ≤ m → m < n → ∃ v ∈ live, named v = m) :
    (dwinLayerAllocId layerId).map Prod.fst = some n := by
  have hclear : layerId.bit (n - 1) = false := by
    refine Bool.eq_false_iff.2 fun hset => ?_
    obtain ⟨v, hv, hvn⟩ := (h.bits (n - 1) (by omega)).1 hset
    exact hfree v hv (by omega)
  rcases bitmapScan_one layerId with ⟨-, hfull⟩ | ⟨i, hscan, hi, hiclear, hilow⟩
  · rw [hfull (n - 1) (by rw [h.length]; omega)] at hclear
    cases hclear
  · have hle : i ≤ n - 1 := by
      refine Nat.le_of_not_lt fun hlt => ?_
      rw [hilow (n - 1) hlt] at hclear
      cases hclear
    have hge : n - 1 ≤ i := by
      refine Nat.le_of_not_lt fun hlt => ?_
      obtain ⟨v, hv, hvi⟩ := hbelow (i + 1) (by omega) (by omega)
      rw [(h.bits i (by rw [← h.length]; exact hi)).2 ⟨v, hv, hvi⟩] at hiclear
      cases hiclear
    rw [dwinLayerAllocId, hscan]
    change some (i + 1) = some n
    rw [show i + 1 = n by omega]

/-- `bitmap_scan` finds the least id that is free. -/
theorem IdsOk.freeId {a : Lifecycle L} (h : IdsOk a.live id layerId a.id) :
    bitmapScan layerId 1 = none ∧ a.freeId = none ∨
      ∃ i, bitmapScan layerId 1 = some i ∧ a.freeId = some (i + 1) ∧ i < dwinLayerNr ∧
        layerId.bit i = false := by
  have hused : ∀ i < dwinLayerNr, (i + 1 ∉ a.live.map a.id ↔ layerId.bit i = false) := by
    intro i hi
    rw [List.mem_map, ← h.bits i hi, Bool.not_eq_true]
  rw [Lifecycle.freeId]
  rcases bitmapScan_one layerId with ⟨hscan, hfull⟩ | ⟨i, hscan, hi, hclear, hlow⟩
  · rw [h.length] at hfull
    refine Or.inl ⟨hscan, ?_⟩
    rw [List.find?_range_eq_none.2 fun i hi => ?_, Option.map_none]
    rw [Bool.not_eq_true', decide_eq_false_iff_not, hused i hi, hfull i hi]
    exact nofun
  · rw [h.length] at hi
    refine Or.inr ⟨i, hscan, ?_, hi, hclear⟩
    rw [List.find?_range_eq_some.2 ⟨decide_eq_true ((hused i hi).2 hclear), List.mem_range.2 hi,
      fun j hj => ?_⟩, Option.map_some]
    rw [Bool.not_eq_true', decide_eq_false_iff_not, hused j (by omega), hlow j hj]
    exact nofun

variable [DecidableEq L]

/-- A new layer takes the least id that is free. -/
theorem IdsOk.alloc (h : IdsOk live id layerId named) {i : ℕ} (hi : i < dwinLayerNr)
    (hclear : layerId.bit i = false) {v : L} (hfresh : v ∉ live) :
    IdsOk (v :: live) (Function.update id v (i + dwinLayerIdOff : ℕ)) (bitmapSet layerId i true)
      (Function.update named v (i + 1)) := by
  have hother : ∀ w ∈ live, Function.update named v (i + 1) w = named w := fun w hw =>
    Function.update_of_ne (ne_of_mem_of_not_mem hw hfresh) _ _
  have hunused : ∀ w ∈ live, named w ≠ i + 1 := by
    intro w hw heq
    rw [(h.bits i hi).2 ⟨w, hw, heq⟩] at hclear
    cases hclear
  refine ⟨List.nodup_cons.2 ⟨hfresh, h.nodup⟩, ?_, h.length, fun j hj => ?_, ?_, ?_⟩
  · refine List.forall_mem_cons.2 ⟨?_, fun w hw => ?_⟩
    · rw [Function.update_self, Function.update_self]
      rfl
    · rw [hother w hw, Function.update_of_ne (ne_of_mem_of_not_mem hw hfresh), h.id w hw]
  · rw [bitmapSet_bit, List.exists_mem_cons_iff, Function.update_self]
    split_ifs with hji
    · simp [hji]
    · rw [h.bits j hj]
      constructor
      · rintro ⟨w, hw, hwj⟩
        exact Or.inr ⟨w, hw, by rw [hother w hw, hwj]⟩
      · rintro (heq | ⟨w, hw, hwj⟩)
        · omega
        · exact ⟨w, hw, by rw [← hother w hw, hwj]⟩
  · refine List.forall_mem_cons.2 ⟨List.forall_mem_cons.2 ⟨fun _ => rfl, fun w hw heq => ?_⟩,
      fun w hw =>
      List.forall_mem_cons.2 ⟨fun heq => ?_, fun u hu heq => ?_⟩⟩
    · rw [Function.update_self, hother w hw] at heq
      exact absurd heq.symm (hunused w hw)
    · rw [Function.update_self, hother w hw] at heq
      exact absurd heq (hunused w hw)
    · rw [hother w hw, hother u hu] at heq
      exact h.distinct w hw u hu heq
  · refine List.forall_mem_cons.2 ⟨?_, fun w hw => ?_⟩
    · rw [Function.update_self]
      omega
    · rw [hother w hw]
      exact h.range w hw

/-- A layer that dies leaves its id. -/
theorem IdsOk.free (h : IdsOk live id layerId named) {v : L} (hv : v ∈ live) :
    IdsOk (live.erase v) (Function.update id v (-1)) (dwinLayerFreeId layerId (id v)) named := by
  have hmem : ∀ w, w ∈ live.erase v ↔ w ≠ v ∧ w ∈ live := fun w => h.nodup.mem_erase_iff
  obtain ⟨hlow, hhigh⟩ := h.range v hv
  have hfree : dwinLayerFreeId layerId (id v) = bitmapSet layerId (named v - 1) false := by
    have hoff : id v - (dwinLayerIdOff : ℤ) = ((named v - 1 : ℕ) : ℤ) := by
      rw [h.id v hv, dwinLayerIdOff]
      omega
    rw [dwinLayerFreeId, hoff, if_neg (by rw [h.length]; omega), Int.toNat_natCast]
  rw [hfree]
  refine ⟨h.nodup.erase v, fun w hw => ?_, h.length, fun j hj => ?_, fun w hw u hu heq => ?_,
    fun w hw => ?_⟩
  · obtain ⟨hne, hlive⟩ := (hmem w).1 hw
    rw [Function.update_of_ne hne, h.id w hlive]
  · rw [bitmapSet_bit]
    split_ifs with hj'
    · simp only [false_iff]
      rintro ⟨w, hw, hwj⟩
      obtain ⟨hne, hlive⟩ := (hmem w).1 hw
      exact hne (h.distinct w hlive v hv (by omega))
    · rw [h.bits j hj]
      constructor
      · rintro ⟨w, hw, hwj⟩
        exact ⟨w, (hmem w).2 ⟨fun heq => hj' (by rw [← heq, hwj]; rfl), hw⟩, hwj⟩
      · rintro ⟨w, hw, hwj⟩
        exact ⟨w, ((hmem w).1 hw).2, hwj⟩
  · exact h.distinct w ((hmem w).1 hw).2 u ((hmem u).1 hu).2 heq
  · exact h.range w ((hmem w).1 hw).2

end Ids

/-! ## The lists -/

variable [DecidableEq L] {s : Layers L} {a : Lifecycle L} {v : L}

/-- **The layers are what the lifecycle says.** -/
structure LifeOk (s : Layers L) (a : Lifecycle L) : Prop where
  live : s.live = a.live
  ids : IdsOk a.live s.id s.layerId a.id
  /-- the global list has the layers that are added -/
  added : s.globalList = a.added
  exist : ∀ v ∈ a.added, v ∈ a.live
  addedNodup : a.added.Nodup
  onStation : ∀ v ∈ a.live, s.onStation v = decide (v ∈ a.added)
  /-- `priority_topz` is the index of the last layer, among others -/
  station : WorkstationOk s.station
  /-- the lists of the priorities have the layers that are shown -/
  shown : s.station.shown = a.shown
  shownAdded : ∀ lv, ∀ v ∈ a.shown.lists lv, v ∈ a.added
  listNull : ∀ v ∈ a.live, s.listNull v = a.bare v
  globalNull : ∀ v ∈ a.live, s.globalNull v = (a.taken v && decide (v ∉ a.added))
  linked : ∀ lv, ∀ v ∈ a.shown.lists lv, a.bare v = false
  bareTaken : ∀ v ∈ a.live, a.bare v = true → a.taken v = true

theorem lifeOk_init (priority : L → Fin dwinLayerPrioNr) (id : L → ℤ) (bits : ℕ → BitVec 8) :
    LifeOk (noLayers priority id bits) (noLife priority) where
  live := rfl
  ids := idsOk_init id bits _
  added := rfl
  exist := nofun
  addedNodup := List.nodup_nil
  onStation := nofun
  station := workstationOk_empty priority
  shown := rfl
  shownAdded := nofun
  listNull := nofun
  globalNull := nofun
  linked := nofun
  bareTaken := nofun

theorem LifeOk.lists (h : LifeOk s a) : s.station.priorityList = a.shown.lists :=
  congrArg LayerStacks.lists h.shown

theorem LifeOk.priority (h : LifeOk s a) : s.station.priority = a.shown.priority :=
  congrArg LayerStacks.priority h.shown

/-- A layer that is not on the list of its priority is on none. -/
theorem LifeOk.hidden (h : LifeOk s a) (hv : v ∉ a.shown.lists (a.shown.priority v))
    (lv : Fin dwinLayerPrioNr) :
    v ∉ a.shown.lists lv := by
  rw [← h.lists, ← h.priority] at hv
  rw [← h.lists]
  intro hmem
  rw [h.station.own lv v hmem] at hv
  exact hv hmem

theorem LifeOk.shown_iff (h : LifeOk s a) :
    isLayerShown s.station v = true ↔ ∃ lv, v ∈ a.shown.lists lv := by
  rw [isLayerShown_iff h.station, h.lists, h.priority]
  constructor
  · exact fun hmem => ⟨_, hmem⟩
  · rintro ⟨lv, hmem⟩
    by_contra hv
    exact h.hidden hv lv hmem

/-! ## The order -/

/-- Placing a layer brings no other one to the lists, -/
theorem mem_of_mem_zorder {b : LayerStacks L} {w : L} {z : ℤ} {lv : Fin dwinLayerPrioNr}
    (hw : w ∈ (b.zorder v z).lists lv) : w = v ∨ w ∈ b.lists lv := by
  change w ∈ Function.update b.lists (b.priority v) (place (b.lists (b.priority v)) v z) lv at hw
  by_cases hlv : lv = b.priority v
  · rw [hlv] at hw ⊢
    rw [Function.update_self] at hw
    exact mem_of_mem_place hw
  · rw [Function.update_of_ne hlv] at hw
    exact Or.inr hw

/-- and hiding it none at all. -/
theorem mem_of_mem_hide {b : LayerStacks L} {w : L} {z : ℤ} (hz : z < 0) {lv : Fin dwinLayerPrioNr}
    (hw : w ∈ (b.zorder v z).lists lv) : w ∈ b.lists lv := by
  change w ∈ Function.update b.lists (b.priority v) (place (b.lists (b.priority v)) v z) lv at hw
  rw [place_neg hz] at hw
  by_cases hlv : lv = b.priority v
  · rw [hlv] at hw ⊢
    rw [Function.update_self] at hw
    exact List.mem_of_mem_erase hw
  · rwa [Function.update_of_ne hlv] at hw

/-- A change of priority brings a layer to a list only if it is shown. -/
theorem mem_of_mem_changePriority {b : LayerStacks L} {w : L} {priority : ℕ}
    {lv : Fin dwinLayerPrioNr}
    (hw : w ∈ (b.changePriority v priority).lists lv) : ∃ lv, w ∈ b.lists lv := by
  rw [LayerStacks.changePriority] at hw
  split_ifs at hw with hprio
  · simp only at hw
    split_ifs at hw with hmem
    · have hrest : ∀ lv, w ∈ Function.update b.lists (b.priority v)
        ((b.lists (b.priority v)).erase v) lv →
          ∃ lv, w ∈ b.lists lv := by
        intro lv hw
        by_cases hlv : lv = b.priority v
        · rw [hlv, Function.update_self] at hw
          exact ⟨_, List.mem_of_mem_erase hw⟩
        · rw [Function.update_of_ne hlv] at hw
          exact ⟨lv, hw⟩
      by_cases hlv : lv = ⟨priority, hprio⟩
      · rw [hlv, Function.update_self] at hw
        rcases List.eq_or_mem_of_mem_insertIdx hw with rfl | hw
        · exact ⟨_, hmem⟩
        · exact hrest _ hw
      · rw [Function.update_of_ne hlv] at hw
        exact hrest lv hw
    · exact ⟨lv, hw⟩
  · exact ⟨lv, hw⟩

/-- **With a layer of the workstation the order is that of the lists alone**, and a layer that is
shown has links. -/
theorem layerZorder_run (hon : s.onStation v = true)
    (hlinked : isLayerShown s.station v = true → s.listNull v = false)
    {z : ℤ} (hsame : s.station.z v = z → 0 ≤ z → s.listNull v = false) :
    layerZorder s v z = (dwinLayerZorder s.station v z).map fun station =>
      { s with
        station
        listNull := if 0 ≤ z then Function.update s.listNull v false else s.listNull } := by
  have hkept : s.listNull v = false → Function.update s.listNull v false = s.listNull :=
    fun hnull => by
    rw [← hnull, Function.update_eq_self]
  unfold layerZorder dwinLayerZorder
  by_cases hat : s.station.z v = z
  · rw [if_pos hat, if_pos hat, Option.map_some]
    split_ifs with hz
    · rw [hkept (hsame hat hz)]
    · rfl
  · rw [if_neg hat, if_neg hat, if_neg (by rw [hon]; exact nofun)]
    by_cases hshown : isLayerShown s.station v = true
    · rw [if_pos hshown, if_pos hshown, if_neg (by rw [hlinked hshown]; exact Bool.false_ne_true)]
      by_cases hz : 0 ≤ z
      · simp only [if_pos hz, hkept (hlinked hshown)]
      · simp only [if_neg hz, Option.map_some]
    · rw [if_neg hshown, if_neg hshown]
      by_cases hz : 0 ≤ z
      · simp only [if_pos hz]
      · simp only [if_neg hz, Option.map_some]

/-- A layer that has a number is shown. -/
theorem LifeOk.linked_of_number (h : LifeOk s a) (hv : v ∈ a.live) (hz : 0 ≤ s.station.z v) :
    s.listNull v = false := by
  have hmem : v ∈ s.station.priorityList (s.station.priority v) := by
    by_contra hout
    have hnone := h.station.out v hout
    omega
  rw [h.listNull v hv]
  rw [h.lists] at hmem
  exact h.linked _ v hmem

theorem LifeOk.linked_of_shown (h : LifeOk s a) (hv : v ∈ a.live)
    (hshown : isLayerShown s.station v = true) :
    s.listNull v = false := by
  obtain ⟨lv, hmem⟩ := h.shown_iff.1 hshown
  rw [h.listNull v hv]
  exact h.linked lv v hmem

/-- The lists change, and have no layers that they may not have. -/
theorem LifeOk.reorder (h : LifeOk s a) {station : Workstation L} (hok : WorkstationOk station)
    {b : LayerStacks L}
    (hshown : station.shown = b) (hmem : ∀ lv, ∀ w ∈ b.lists lv, w ∈ a.added ∧ a.bare w = false) :
    LifeOk { s with station } { a with shown := b } :=
  { h with
    station := hok
    shown := hshown
    shownAdded := fun lv w hw => (hmem lv w hw).1
    linked := fun lv w hw => (hmem lv w hw).2 }

/-- The links of a layer are no longer null. -/
theorem LifeOk.link (h : LifeOk s a) (v : L) :
    LifeOk { s with listNull := Function.update s.listNull v false }
      { a with bare := Function.update a.bare v false } := by
  have hbare : ∀ w, a.bare w = false → Function.update a.bare v false w = false := fun w hw => by
    by_cases hwv : w = v
    · rw [hwv, Function.update_self]
    · rw [Function.update_of_ne hwv, hw]
  refine { h with
    listNull := fun w hw => ?_
    linked := fun lv w hw => hbare w (h.linked lv w hw)
    bareTaken := ?_ }
  · change Function.update s.listNull v false w = Function.update a.bare v false w
    by_cases hwv : w = v
    · rw [hwv, Function.update_self, Function.update_self]
    · rw [Function.update_of_ne hwv, Function.update_of_ne hwv, h.listNull w hw]
  · intro w hw hset
    refine h.bareTaken w hw (eq_true_of_ne_false fun hclear => ?_)
    exact Bool.false_ne_true ((hbare w hclear).symm.trans hset)

theorem LifeOk.zorder (h : LifeOk s a) (hv : v ∈ a.live) (z : ℤ) :
    ∃ t, layerZorder s v z = some t ∧ LifeOk t (a.op v (.zorder z)) := by
  rw [Lifecycle.op]
  by_cases hadded : v ∈ a.added
  · rw [if_pos hadded]
    have hon : s.onStation v = true := (h.onStation v hv).trans (decide_eq_true hadded)
    obtain ⟨station, hres, hok, hshown⟩ := dwinLayerZorder_spec h.station v z
    rw [h.shown] at hshown
    rw [layerZorder_run hon (h.linked_of_shown hv) fun hat hz => h.linked_of_number hv (hat ▸ hz),
      hres]
    refine ⟨_, rfl, ?_⟩
    by_cases hz : 0 ≤ z
    · simp only [if_pos hz]
      refine (h.link v).reorder hok hshown fun lv w hw => ?_
      rcases mem_of_mem_zorder hw with rfl | hw
      · exact ⟨hadded, Function.update_self _ _ _⟩
      · exact ⟨h.shownAdded lv w hw, (h.link v).linked lv w hw⟩
    · simp only [if_neg hz]
      refine h.reorder hok hshown fun lv w hw => ?_
      have hold := mem_of_mem_hide (by omega) hw
      exact ⟨h.shownAdded lv w hold, h.linked lv w hold⟩
  · rw [if_neg hadded]
    refine ⟨s, ?_, h⟩
    rw [layerZorder, if_pos ((h.onStation v hv).trans (decide_eq_false hadded)), ite_self]

/-- `dwin_layer_change_priority` with a layer of the workstation. -/
theorem layerChangePriority_run (hok : WorkstationOk s.station) (hon : s.onStation v = true)
    (hlinked : isLayerShown s.station v = true → s.listNull v = false)
    (hnumber : 0 ≤ s.station.z v → s.listNull v = false) (priority : ℕ) :
    (layerChangePriority s v priority).map Prod.fst =
      (dwinLayerChangePriority s.station v priority).map fun station => { s with station } := by
  unfold layerChangePriority dwinLayerChangePriority
  by_cases hprio : priority < dwinLayerPrioNr
  · obtain ⟨station, hhide, hok', -, -, hgone⟩ := hide_spec hok v
    have hhidden : isLayerShown station v ≠ true := fun hshown =>
      hgone _ ((isLayerShown_iff hok').1 hshown)
    have hz : station.z v = -1 := hok'.out v (hgone _)
    rw [dif_pos hprio, dif_pos hprio]
    dsimp only
    rw [if_pos hon, layerZorder_run hon hlinked (by omega), hhide, Option.map_some,
      Option.bind_some,
      Option.bind_some, layerZorder_run (by exact hon)
      (by exact fun hshown => absurd hshown hhidden)
        (by exact fun (hat : station.z v = s.station.z v) hold => by omega)]
    have hkept : (if 0 ≤ s.station.z v then Function.update s.listNull v false else s.listNull) =
        s.listNull := by
      split_ifs with hold
      · rw [← hnumber hold, Function.update_eq_self]
      · rfl
    simp only [if_neg (show ¬(0 : ℤ) ≤ -1 by norm_num), hkept, Option.map_map]
    rfl
  · rw [dif_neg hprio, dif_neg hprio]
    rfl

theorem LifeOk.changePriority (h : LifeOk s a) (hv : v ∈ a.live) (priority : ℕ) :
    ∃ t, (layerChangePriority s v priority).map Prod.fst = some t ∧
      LifeOk t (a.op v (.changePriority priority)) := by
  have hlists : ∀ lv, ∀ w ∈ (a.shown.changePriority v priority).lists lv, w ∈ a.added ∧
      a.bare w = false := by
    intro lv w hw
    obtain ⟨lv', hold⟩ := mem_of_mem_changePriority hw
    exact ⟨h.shownAdded lv' w hold, h.linked lv' w hold⟩
  obtain ⟨station, hres, hok, hshown⟩ := dwinLayerChangePriority_spec h.station v priority
  rw [h.shown] at hshown
  by_cases hadded : v ∈ a.added
  · have hon : s.onStation v = true := (h.onStation v hv).trans (decide_eq_true hadded)
    rw [layerChangePriority_run h.station hon (h.linked_of_shown hv) (h.linked_of_number hv), hres]
    exact ⟨_, rfl, h.reorder hok hshown hlists⟩
  · have hon : s.onStation v = false := (h.onStation v hv).trans (decide_eq_false hadded)
    have hgone : ∀ lv, v ∉ a.shown.lists lv := fun lv hmem => hadded (h.shownAdded lv v hmem)
    have hgone' : ∀ lv, v ∉ s.station.priorityList lv := by
      rw [h.lists]
      exact hgone
    unfold layerChangePriority
    by_cases hprio : priority < dwinLayerPrioNr
    · rw [dif_pos hprio]
      dsimp only
      rw [if_neg (by rw [hon]; exact Bool.false_ne_true)]
      refine ⟨_, rfl, h.reorder (h.station.setPriority hgone' ⟨priority, hprio⟩) ?_ hlists⟩
      rw [LayerStacks.changePriority, dif_pos hprio]
      dsimp only
      rw [if_neg (hgone _), ← h.lists, ← h.priority]
      rfl
    · rw [dif_neg hprio]
      have hsame : a.shown.changePriority v priority = a.shown := by
        rw [LayerStacks.changePriority, dif_neg hprio]
      refine ⟨s, rfl, ?_⟩
      rw [Lifecycle.op, hsame]
      exact h

/-! ## The workstation -/

theorem LifeOk.add (h : LifeOk s a) (hv : v ∈ a.live) :
    LifeOk (dwinWorkstationAddLayer s v).1 (a.op v .add) := by
  rw [dwinWorkstationAddLayer, dwinWorkstationHasLayer, h.added, Lifecycle.op]
  by_cases hadded : v ∈ a.added
  · rw [if_pos (decide_eq_true hadded), if_pos hadded]
    exact h
  · rw [if_neg (by simpa using hadded), if_neg hadded]
    refine { h with
      added := rfl
      exist := List.forall_mem_cons.2 ⟨hv, h.exist⟩
      addedNodup := List.nodup_cons.2 ⟨hadded, h.addedNodup⟩
      shownAdded := fun lv w hw => List.mem_cons_of_mem v (h.shownAdded lv w hw)
      onStation := fun w hw => ?_
      globalNull := fun w hw => ?_ }
    · change Function.update s.onStation v true w = decide (w ∈ v :: a.added)
      by_cases hwv : w = v
      · rw [hwv, Function.update_self, decide_eq_true List.mem_cons_self]
      · rw [Function.update_of_ne hwv, h.onStation w hw]
        simp [hwv]
    · change Function.update s.globalNull v false w = (a.taken w && decide (w ∉ v :: a.added))
      by_cases hwv : w = v
      · simp [hwv]
      · rw [Function.update_of_ne hwv, h.globalNull w hw]
        simp [hwv]

/-- The node of a layer that is on no list is unlinked. -/
theorem unlinkList_run (hnull : s.listNull v = false) (hgone : ∀ lv, v ∉ s.station.priorityList lv)
    (init : Bool) :
    unlinkList s v init = some { s with listNull := Function.update s.listNull v (!init) } := by
  have hlists : (fun lv => (s.station.priorityList lv).erase v) = s.station.priorityList :=
    funext fun lv => List.erase_of_not_mem (hgone lv)
  rw [unlinkList, if_neg (by rw [hnull]; exact Bool.false_ne_true), hlists]

theorem unlinkGlobal_run (hnull : s.globalNull v = false) (init : Bool) :
    unlinkGlobal s v init = some { s with
      globalList := s.globalList.erase v
      globalNull := Function.update s.globalNull v (!init) } := by
  rw [unlinkGlobal, if_neg (by rw [hnull]; exact Bool.false_ne_true)]

theorem LifeOk.del (h : LifeOk s a) (hv : v ∈ a.live) (hallows : a.Allows v .del) :
    ∃ t, (dwinWorkstationDelLayer s v).map Prod.fst = some t ∧ LifeOk t (a.op v .del) := by
  rw [dwinWorkstationDelLayer, dwinWorkstationHasLayer, h.added, Lifecycle.op]
  by_cases hadded : v ∈ a.added
  · obtain ⟨hhidden, hbare⟩ := hallows hadded
    have hgone := h.hidden hhidden
    have hnull : s.globalNull v = false := by
      rw [h.globalNull v hv]
      simp [hadded]
    have hmem : ∀ w, w ∈ a.added.erase v ↔ w ≠ v ∧ w ∈ a.added :=
      fun w => h.addedNodup.mem_erase_iff
    have hother : ∀ lv, ∀ w ∈ a.shown.lists lv, w ≠ v := fun lv w hw heq => hgone lv (heq ▸ hw)
    rw [if_pos (decide_eq_true hadded), if_pos hadded, unlinkGlobal_run hnull, Option.bind_some,
      unlinkList_run (by exact (h.listNull v hv).trans hbare) (by exact h.lists ▸ hgone)]
    refine ⟨_, rfl, { h with
      added := congrArg (List.erase · v) h.added
      exist := fun w hw => h.exist w ((hmem w).1 hw).2
      addedNodup := h.addedNodup.erase v
      shownAdded := fun lv w hw => (hmem w).2 ⟨hother lv w hw, h.shownAdded lv w hw⟩
      linked := fun lv w hw => (Function.update_of_ne (hother lv w hw) _ _).trans (h.linked lv w hw)
      onStation := fun w hw => ?_
      listNull := fun w hw => ?_
      globalNull := fun w hw => ?_
      bareTaken := fun w hw hset => ?_ }⟩
    · change Function.update s.onStation v false w = decide (w ∈ a.added.erase v)
      by_cases hwv : w = v
      · rw [hwv, Function.update_self, decide_eq_false fun hmem' => ((hmem v).1 hmem').1 rfl]
      · rw [Function.update_of_ne hwv, h.onStation w hw]
        simp [hmem, hwv]
    · change Function.update s.listNull v true w = Function.update a.bare v true w
      by_cases hwv : w = v
      · rw [hwv, Function.update_self, Function.update_self]
      · rw [Function.update_of_ne hwv, Function.update_of_ne hwv, h.listNull w hw]
    · change Function.update s.globalNull v true w =
        (Function.update a.taken v true w && decide (w ∉ a.added.erase v))
      by_cases hwv : w = v
      · simp [hwv, hmem]
      · rw [Function.update_of_ne hwv, Function.update_of_ne hwv, h.globalNull w hw]
        simp [hmem, hwv]
    · change Function.update a.taken v true w = true
      by_cases hwv : w = v
      · rw [hwv, Function.update_self]
      · have hset' : Function.update a.bare v true w = true := hset
        rw [Function.update_of_ne hwv] at hset' ⊢
        exact h.bareTaken w hw hset'
  · rw [if_neg (by simpa using hadded), if_neg hadded]
    exact ⟨s, rfl, h⟩

/-! ## Birth and death -/

theorem LifeOk.destroy (h : LifeOk s a) (hv : v ∈ a.live) (hallows : a.Allows v .destroy) :
    ∃ t, (dwinLayerDestroy s v).map Prod.fst = some t ∧ LifeOk t (a.op v .destroy) := by
  obtain ⟨hout, htaken⟩ := hallows
  have hbare : a.bare v = false := Bool.eq_false_iff.2 fun hset =>
    Bool.false_ne_true (htaken.symm.trans (h.bareTaken v hv hset))
  have hgone : ∀ lv, v ∉ s.station.priorityList lv := fun lv hmem =>
    hout (h.shownAdded lv v (h.lists ▸ hmem))
  have hnull : s.globalNull v = false := by
    rw [h.globalNull v hv, htaken, Bool.false_and]
  have hmem : ∀ w, w ∈ a.live.erase v → w ≠ v ∧ w ∈ a.live := fun w => h.ids.nodup.mem_erase_iff.1
  have hsame : s.globalList.erase v = s.globalList := by
    rw [h.added]
    exact List.erase_of_not_mem hout
  rw [dwinLayerDestroy, unlinkList_run ((h.listNull v hv).trans hbare) hgone, Option.bind_some,
    unlinkGlobal_run (by exact hnull), hsame]
  refine ⟨_, rfl, { h with
    live := congrArg (List.erase · v) h.live
    ids := h.ids.free hv
    exist := fun w hw => (List.mem_erase_of_ne (ne_of_mem_of_not_mem hw hout)).2 (h.exist w hw)
    onStation := fun w hw => h.onStation w (hmem w hw).2
    listNull := fun w hw => ?_
    globalNull := fun w hw => ?_
    bareTaken := fun w hw => h.bareTaken w (hmem w hw).2 }⟩
  · exact (Function.update_of_ne (hmem w hw).1 _ _).trans (h.listNull w (hmem w hw).2)
  · exact (Function.update_of_ne (hmem w hw).1 _ _).trans (h.globalNull w (hmem w hw).2)

/-- A new layer. -/
theorem LifeOk.born (h : LifeOk s a) (hfresh : v ∉ a.live) {i : ℕ} (hi : i < dwinLayerNr)
    (hclear : s.layerId.bit i = false) :
    LifeOk { s with
      station := { s.station with
        z := Function.update s.station.z v (-1)
        priority := Function.update s.station.priority v 0 }
      live := v :: s.live
      id := Function.update s.id v (i + dwinLayerIdOff : ℕ)
      onStation := Function.update s.onStation v false
      listNull := Function.update s.listNull v false
      globalNull := Function.update s.globalNull v false
      layerId := bitmapSet s.layerId i true } (a.born v (i + 1)) := by
  have hout : v ∉ a.added := fun hmem => hfresh (h.exist v hmem)
  have hgone : ∀ lv, v ∉ a.shown.lists lv := fun lv hmem => hout (h.shownAdded lv v hmem)
  have hgone' : ∀ lv, v ∉ s.station.priorityList lv := by
    rw [h.lists]
    exact hgone
  have hz : Function.update s.station.z v (-1) = s.station.z := by
    rw [← h.station.out v (hgone' _), Function.update_eq_self]
  have hother : ∀ lv, ∀ w ∈ a.shown.lists lv, w ≠ v := fun lv w hw heq => hgone lv (heq ▸ hw)
  rw [hz]
  refine
    { live := congrArg (v :: ·) h.live
      ids := h.ids.alloc hi hclear hfresh
      added := h.added
      exist := fun w hw => List.mem_cons_of_mem v (h.exist w hw)
      addedNodup := h.addedNodup
      onStation := List.forall_mem_cons.2 ⟨?_, fun w hw => ?_⟩
      station := h.station.setPriority hgone' 0
      shown := LayerStacks.ext h.lists (congrArg (Function.update · v 0) h.priority)
      shownAdded := h.shownAdded
      listNull := List.forall_mem_cons.2 ⟨?_, fun w hw => ?_⟩
      globalNull := List.forall_mem_cons.2 ⟨?_, fun w hw => ?_⟩
      linked := fun lv w hw => (Function.update_of_ne (hother lv w hw) _ _).trans (h.linked lv w hw)
      bareTaken := List.forall_mem_cons.2 ⟨fun hset => ?_, fun w hw hset => ?_⟩ }
  · exact (Function.update_self _ _ _).trans (decide_eq_false hout).symm
  · exact (Function.update_of_ne (ne_of_mem_of_not_mem hw hfresh) _ _).trans (h.onStation w hw)
  · change Function.update s.listNull v false v = Function.update a.bare v false v
    rw [Function.update_self, Function.update_self]
  · change Function.update s.listNull v false w = Function.update a.bare v false w
    have hwv := ne_of_mem_of_not_mem hw hfresh
    rw [Function.update_of_ne hwv, Function.update_of_ne hwv, h.listNull w hw]
  · change Function.update s.globalNull v false v = (Function.update a.taken v false v && _)
    rw [Function.update_self, Function.update_self, Bool.false_and]
  · change Function.update s.globalNull v false w =
      (Function.update a.taken v false w && decide (w ∉ a.added))
    have hwv := ne_of_mem_of_not_mem hw hfresh
    rw [Function.update_of_ne hwv, Function.update_of_ne hwv, h.globalNull w hw]
  · have hclear' : Function.update a.bare v false v = false := Function.update_self _ _ _
    exact absurd (hclear'.symm.trans hset) Bool.false_ne_true
  · have hwv := ne_of_mem_of_not_mem hw hfresh
    have hset' : Function.update a.bare v false w = true := hset
    rw [Function.update_of_ne hwv] at hset'
    exact (Function.update_of_ne hwv _ _).trans (h.bareTaken w hw hset')

theorem LifeOk.create (h : LifeOk s a) (memory : Alloc L) (built : Bool) :
    LifeOk (dwinLayerCreate s memory built).1 (a.step (.create memory built)) := by
  rw [dwinLayerCreate, Lifecycle.step, h.live]
  cases hblock : (if built then memory.answer a.live else none) with
  | none => exact h
  | some v =>
      have hfresh : v ∉ a.live := by
        cases built with
        | false => cases hblock
        | true => exact memory.fresh _ _ hblock
      dsimp only
      rcases h.ids.freeId with ⟨hscan, hfree⟩ | ⟨i, hscan, hfree, hi, hclear⟩
      · rw [dwinLayerAllocId, hscan, hfree]
        exact h
      · rw [dwinLayerAllocId, hscan, hfree]
        have hborn := h.born hfresh hi hclear
        rw [h.live] at hborn
        exact hborn

/-! ## Calls -/

/-- **Every call is what the lifecycle says**, and unlinks no node whose links are null. -/
theorem lifeStep_spec (h : LifeOk s a) {call : LifeCall L} (hcall : call.Fits a) :
    ∃ t, lifeStep s call = some t ∧ LifeOk t (a.step call) := by
  cases call with
  | create memory built => exact ⟨_, rfl, h.create memory built⟩
  | on layer op =>
      cases layer with
      | none => exact ⟨s, rfl, h⟩
      | some v =>
          obtain ⟨hv, hallows⟩ := hcall
          cases op with
          | add => exact ⟨_, rfl, h.add hv⟩
          | zorder z => exact h.zorder hv z
          | changePriority priority => exact h.changePriority hv priority
          | del => exact h.del hv hallows
          | destroy => exact h.destroy hv hallows
          | delete =>
              have hon : s.onStation v = false := (h.onStation v hv).trans (decide_eq_false hallows)
              refine ⟨s, ?_, h⟩
              rw [lifeStep, layerOp, dwinLayerDelete, if_pos hon]
              rfl

/-- One call of the lifecycle. -/
def lifecycleStep (a : Lifecycle L) (call : LifeCall L) : Option (Lifecycle L) := some (a.step call)

/-- **The life of layers**: a run whose calls keep to the conditions unlinks no node whose links
are null, the lists have the layers that are added and shown, the ids are distinct, and an id that
no layer has is given out again as soon as all lower ones are in use. -/
theorem layers_live (L : Type) [DecidableEq L] (priority : L → Fin dwinLayerPrioNr) (id : L → ℤ)
    (bits : ℕ → BitVec 8) (calls : List (LifeCall L))
    (hcalls : Run.Along lifecycleStep (fun a call => call.Fits a) (noLife priority) calls) :
    ∃ s, Run.exec lifeStep (noLayers priority id bits) calls = some s ∧
      LifeOk s (calls.foldl Lifecycle.step (noLife priority)) ∧
      ∀ n : ℕ, 1 ≤ n → n ≤ dwinLayerNr → (∀ v ∈ s.live, s.id v ≠ n) →
        (∀ m : ℕ, 1 ≤ m → m < n → ∃ v ∈ s.live, s.id v = m) →
          (dwinLayerAllocId s.layerId).map Prod.fst = some n := by
  suffices hrun : ∀ (calls : List (LifeCall L)) (s : Layers L) (a : Lifecycle L), LifeOk s a →
      Run.Along lifecycleStep (fun a call => call.Fits a) a calls →
      ∃ t, Run.exec lifeStep s calls = some t ∧ LifeOk t (calls.foldl Lifecycle.step a) by
    obtain ⟨s, hs, hok⟩ := hrun calls _ _ (lifeOk_init priority id bits) hcalls
    refine ⟨s, hs, hok, fun n hn hnr hfree hbelow => ?_⟩
    rw [hok.live] at hfree hbelow
    refine hok.ids.again hn hnr (fun v hv heq => hfree v hv ?_) fun m hm hmn => ?_
    · rw [hok.ids.id v hv, heq]
    · obtain ⟨v, hv, hvm⟩ := hbelow m hm hmn
      rw [hok.ids.id v hv] at hvm
      exact ⟨v, hv, by exact_mod_cast hvm⟩
  intro calls
  induction calls with
  | nil => exact fun s a h _ => ⟨s, rfl, h⟩
  | cons call calls ih =>
      intro s a h hcalls
      obtain ⟨t, ht, hok⟩ := lifeStep_spec h hcalls.1
      obtain ⟨u, hu, hok'⟩ := ih t _ hok (hcalls.2 _ rfl)
      exact ⟨u, Run.exec_cons_eq_some.2 ⟨t, ht, hu⟩, hok'⟩

/-- What is done with a layer that is not null. -/
abbrev onLayer (layer : ℕ) (op : LayerOp) : LifeCall ℕ := .on (some layer) op

/-- Three layers come and go; the first is taken off twice, and the id of the second is used again.
-/
def lifeRun : List (LifeCall ℕ) :=
  [.create (.only 0) true, .create (.only 1) true, onLayer 0 .add, onLayer 0 .add,
    onLayer 0 (.zorder 4),
    onLayer 0 (.changePriority 2), onLayer 0 (.zorder (-1)), onLayer 0 .del, onLayer 0 .add,
    onLayer 0 (.zorder 0),
    onLayer 0 (.zorder (-3)), onLayer 0 .del, onLayer 1 .delete, onLayer 1 .destroy,
    .create (.only 2) true, onLayer 2 .add, onLayer 2 (.zorder 1), .on none .delete]

theorem layers_live_three :
    ∃ s, Run.exec lifeStep (noLayers (fun _ => 0) (fun _ => 0) fun _ => 0#8) lifeRun = some s ∧
      LifeOk s (lifeRun.foldl Lifecycle.step (noLife fun _ => 0)) ∧
      ∀ n : ℕ, 1 ≤ n → n ≤ dwinLayerNr → (∀ v ∈ s.live, s.id v ≠ n) →
        (∀ m : ℕ, 1 ≤ m → m < n → ∃ v ∈ s.live, s.id v = m) →
          (dwinLayerAllocId s.layerId).map Prod.fst = some n :=
  layers_live ℕ (fun _ => 0) (fun _ => 0) (fun _ => 0#8) lifeRun (by decide +kernel)

/-- **A layer of the workstation is deleted**, and a node whose links are null is unlinked; so it
is if a layer that was taken off is destroyed, or taken off again. -/
theorem delete_unlinks_null :
    (∃ s, Run.exec lifeStep (noLayers (fun _ => 0) (fun _ => 0) fun _ => 0#8)
      [.create (.only 0) true, onLayer 0 .add] = some s ∧ dwinLayerDelete s 0 = none) ∧
    (∃ s, Run.exec lifeStep (noLayers (fun _ => 0) (fun _ => 0) fun _ => 0#8)
      [.create (.only 0) true, onLayer 0 .add, onLayer 0 .del] = some s ∧
        dwinLayerDestroy s 0 = none) ∧
    ∃ s, Run.exec lifeStep (noLayers (fun _ => 0) (fun _ => 0) fun _ => 0#8)
      [.create (.only 0) true, onLayer 0 .add, onLayer 0 .del, onLayer 0 .add] = some s ∧
        dwinWorkstationDelLayer s 0 = none := by
  have hruns : (Run.exec lifeStep (noLayers (fun _ => 0) (fun _ => 0) fun _ => 0#8)
        [.create (.only 0) true, onLayer 0 .add]).any (fun s => (dwinLayerDelete s 0).isNone) ∧
      (Run.exec lifeStep (noLayers (fun _ => 0) (fun _ => 0) fun _ => 0#8)
        [.create (.only 0) true, onLayer 0 .add, onLayer 0 .del]).any
          (fun s => (dwinLayerDestroy s 0).isNone) ∧
      (Run.exec lifeStep (noLayers (fun _ => 0) (fun _ => 0) fun _ => 0#8)
        [.create (.only 0) true, onLayer 0 .add, onLayer 0 .del, onLayer 0 .add]).any
          (fun s => (dwinWorkstationDelLayer s 0).isNone) := by
    decide +kernel
  have hstop : ∀ (o : Option (Layers ℕ)) (f : Layers ℕ → Option (Layers ℕ × ℤ)),
      o.any (fun s => (f s).isNone) = true → ∃ s, o = some s ∧ f s = none := by
    intro o f h
    obtain ⟨s, hs, hnone⟩ := (Option.any_eq_true _ _).1 h
    exact ⟨s, hs, Option.isNone_iff_eq_none.1 hnone⟩
  exact ⟨hstop _ _ hruns.1, hstop _ _ hruns.2.1, hstop _ _ hruns.2.2⟩

end Dwin
end LightOS
