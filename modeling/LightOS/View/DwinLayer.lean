import LightOS.View.ZOrder

/-!
# The z-order of the layers of a workstation

The layers of each priority are a list of their own.  `dwin_layer_zorder` places a layer on the list
of its priority, and `dwin_layer_change_priority` takes it from one list to another.

* `dwinLayerZorder_eq` — `dwin_layer_zorder` is `view_set_z` on the list of the priority.
* `WorkstationOk.put` — what a call does to one list leaves the others as they are.
* `layerStep_spec` — every call is the operation on the lists.
* `zorder_realises_place` — the runs of views and of layers.
-/

namespace LightOS
namespace Dwin

open ZOrder Stacking View

variable {L : Type}

/-- The lists of the priorities, and the priority of every layer. -/
@[ext] structure LayerStacks (L : Type) where
  lists : Fin dwinLayerPrioNr → List L
  priority : L → Fin dwinLayerPrioNr

/-- What a workstation shows. -/
def Workstation.shown (s : Workstation L) : LayerStacks L := ⟨s.priorityList, s.priority⟩

/-- **The workstation is in order**: each list is, a layer is on the list of its priority, and what
is on no list has −1. -/
structure WorkstationOk (s : Workstation L) : Prop where
  ordered : ∀ lv, Ordered (s.stack lv)
  own : ∀ lv, ∀ layer ∈ s.priorityList lv, s.priority layer = lv
  out : ∀ layer, layer ∉ s.priorityList (s.priority layer) → s.z layer = -1

theorem workstationOk_empty (priority : L → Fin dwinLayerPrioNr) :
    WorkstationOk (emptyWorkstation priority) :=
  ⟨fun _ => ⟨nofun, rfl⟩, nofun, fun _ _ => rfl⟩

variable [DecidableEq L] {s s' : Workstation L} {layer w : L} {z : ℤ} {lv : Fin dwinLayerPrioNr}

/-! ## The operation -/

/-- A layer is placed on the list of its priority. -/
def LayerStacks.zorder (a : LayerStacks L) (layer : L) (z : ℤ) : LayerStacks L :=
  { a with
    lists := Function.update a.lists (a.priority layer)
      (place (a.lists (a.priority layer)) layer z) }

/-- A layer gets another priority; one that is shown keeps its place, or is on top of fewer layers.
-/
def LayerStacks.changePriority (a : LayerStacks L) (layer : L) (priority : ℕ) : LayerStacks L :=
  if h : priority < dwinLayerPrioNr then
    let old := a.lists (a.priority layer)
    let rest := Function.update a.lists (a.priority layer) (old.erase layer)
    let new := rest ⟨priority, h⟩
    ⟨if layer ∈ old then
        Function.update rest ⟨priority, h⟩ (new.insertIdx (min (old.idxOf layer) new.length) layer)
      else a.lists,
      Function.update a.priority layer ⟨priority, h⟩⟩
  else a

/-- One call on the lists. -/
def LayerStacks.step (a : LayerStacks L) : LayerCall L → LayerStacks L
  | .zorder layer z => a.zorder layer z
  | .changePriority layer priority => a.changePriority layer priority

/-! ## One list -/

omit [DecidableEq L] in
theorem putStack_self (s : Workstation L) (lv : Fin dwinLayerPrioNr) :
    s.putStack lv (s.stack lv) = s := by
  simp only [Workstation.putStack, Workstation.stack, Function.update_eq_self]

omit [DecidableEq L] in
@[simp] theorem putStack_stack_self (s : Workstation L) (lv : Fin dwinLayerPrioNr) (t : ZStack L) :
    (s.putStack lv t).stack lv = t := by
  simp only [Workstation.putStack, Workstation.stack, Function.update_self]

theorem isLayerShown_iff (h : WorkstationOk s) :
    isLayerShown s layer = true ↔ layer ∈ s.priorityList (s.priority layer) := by
  simp only [isLayerShown, List.any_eq_true, List.mem_finRange, true_and, decide_eq_true_eq]
  constructor
  · rintro ⟨lv, hmem⟩
    rwa [h.own lv layer hmem]
  · exact fun hmem => ⟨_, hmem⟩

/-- What `dwin_layer_zorder` does is `view_set_z` on the list of the priority. -/
theorem zorderRefresh_eq (h : WorkstationOk s) (layer : L) (z : ℤ) :
    zorderRefresh s layer z =
      (setZ (s.stack (s.priority layer)) layer z).map fun t =>
        (s.putStack (s.priority layer) t.1, t.2) := by
  have hsame : (some (s.stack (s.priority layer), (none : Option Refresh))).map
      (fun t => (s.putStack (s.priority layer) t.1, t.2)) = some (s, none) := by
    rw [Option.map_some, putStack_self]
  have hz : (s.stack (s.priority layer)).z layer = s.z layer := rfl
  have hlist : (s.stack (s.priority layer)).list = s.priorityList (s.priority layer) := rfl
  unfold zorderRefresh setZ
  rw [hz, hlist]
  by_cases hat : s.z layer = z
  · rw [if_pos hat, if_pos hat, hsame]
  · rw [if_neg hat, if_neg hat]
    by_cases hmem : layer ∈ s.priorityList (s.priority layer)
    · rw [if_pos ((isLayerShown_iff h).2 hmem), if_pos hmem]
      split_ifs <;> rfl
    · rw [if_neg fun hshown => hmem ((isLayerShown_iff h).1 hshown), if_neg hmem]
      split_ifs
      · rfl
      · rw [hsame]

/-- The workstation after a call does not depend on what is flushed. -/
theorem dwinLayerZorder_refresh (s : Workstation L) (layer : L) (z : ℤ) :
    dwinLayerZorder s layer z = (zorderRefresh s layer z).map Prod.fst := by
  unfold dwinLayerZorder zorderRefresh adjustByZ hidenByZ showByZ
  split_ifs <;> simp only [Option.map_some, Option.map_map, Function.comp_def]

/-- **`dwin_layer_zorder` is `view_set_z`** on the list of the priority. -/
theorem dwinLayerZorder_eq (h : WorkstationOk s) (layer : L) (z : ℤ) :
    dwinLayerZorder s layer z =
      (setZ (s.stack (s.priority layer)) layer z).map fun t =>
        s.putStack (s.priority layer) t.1 := by
  rw [dwinLayerZorder_refresh, zorderRefresh_eq h, Option.map_map, Function.comp_def]

/-- **One list changes and the others stay as they are.** -/
theorem WorkstationOk.put {t : ZStack L} {r : Option Refresh} (h : WorkstationOk s)
    (hplaced : Placed (s.stack (s.priority layer)) t layer z r) :
    WorkstationOk (s.putStack (s.priority layer) t) := by
  have hordered := h.ordered (s.priority layer)
  have hlists : ∀ lv, lv ≠ s.priority layer →
      (s.putStack (s.priority layer) t).priorityList lv = s.priorityList lv :=
    fun lv hlv => Function.update_of_ne hlv _ _
  have hmine : (s.putStack (s.priority layer) t).priorityList (s.priority layer) = t.list :=
    Function.update_self _ _ _
  refine ⟨fun lv => ?_, fun lv w hw => ?_, fun w hw => ?_⟩
  · by_cases hlv : lv = s.priority layer
    · subst hlv
      rw [putStack_stack_self]
      exact hplaced.ordered
    · -- the numbers on another list are not touched
      have hold := h.ordered lv
      refine ⟨fun i hi => ?_, ?_⟩
      · have hi' : i < (s.priorityList lv).length := by
          rw [← hlists lv hlv]
          exact hi
        have hget : ((s.putStack (s.priority layer) t).stack lv).list[i] =
            (s.priorityList lv)[i] := by
          simp only [Workstation.stack, hlists lv hlv]
        have hmem : (s.priorityList lv)[i] ∈ s.priorityList lv := List.getElem_mem hi'
        have hne : (s.priorityList lv)[i] ≠ layer := by
          intro heq
          exact hlv ((h.own lv _ hmem).symm.trans (congrArg s.priority heq))
        have hout : (s.priorityList lv)[i] ∉ s.priorityList (s.priority layer) := fun hmem' =>
          hlv ((h.own lv _ hmem).symm.trans (h.own _ _ hmem'))
        rw [hget]
        exact (hplaced.frame _ hne hout).trans (hold.index i hi')
      · have htop : (s.putStack (s.priority layer) t).priorityTopz lv = s.priorityTopz lv :=
          Function.update_of_ne hlv _ _
        show (s.putStack (s.priority layer) t).priorityTopz lv =
          (((s.putStack (s.priority layer) t).priorityList lv).length : ℤ) - 1
        rw [htop, hlists lv hlv]
        exact hold.top
  · by_cases hlv : lv = s.priority layer
    · rw [hlv, hmine] at hw
      rw [hlv]
      by_cases hwl : w = layer
      · rw [hwl]
        rfl
      · exact h.own _ w ((hplaced.mem_iff hordered hwl).1 hw)
    · rw [hlists lv hlv] at hw
      exact h.own lv w hw
  · change w ∉ (s.putStack (s.priority layer) t).priorityList (s.priority w) at hw
    by_cases hlv : s.priority w = s.priority layer
    · rw [hlv, hmine] at hw
      by_cases hwl : w = layer
      · rw [hwl] at hw ⊢
        exact hplaced.hidden hw
      · have hout : w ∉ s.priorityList (s.priority layer) := fun hmem =>
          hw ((hplaced.mem_iff hordered hwl).2 hmem)
        refine (hplaced.frame w hwl hout).trans (h.out w ?_)
        rwa [hlv]
    · rw [hlists _ hlv] at hw
      have hwl : w ≠ layer := fun heq => hlv (congrArg s.priority heq)
      have hout : w ∉ s.priorityList (s.priority layer) := fun hmem => hlv (h.own _ w hmem)
      exact (hplaced.frame w hwl hout).trans (h.out w hw)

/-! ## The calls -/

/-- `dwin_layer_zorder`. -/
theorem dwinLayerZorder_spec (h : WorkstationOk s) (layer : L) (z : ℤ) :
    ∃ s', dwinLayerZorder s layer z = some s' ∧ WorkstationOk s' ∧
      s'.shown = s.shown.zorder layer z := by
  obtain ⟨t, r, hres, hcases⟩ := setZ_spec (h.ordered (s.priority layer)) (h.out layer) z
  refine ⟨s.putStack (s.priority layer) t, by rw [dwinLayerZorder_eq h, hres]; rfl, ?_⟩
  rcases hcases with ⟨rfl, -, hself⟩ | hplaced
  · rw [putStack_self]
    refine ⟨h, LayerStacks.ext ?_ rfl⟩
    have hlist : place (s.priorityList (s.priority layer)) layer z =
      s.priorityList (s.priority layer) :=
      hself
    simp only [Workstation.shown, LayerStacks.zorder, hlist, Function.update_eq_self]
  · refine ⟨h.put hplaced, LayerStacks.ext ?_ rfl⟩
    simp only [Workstation.shown, LayerStacks.zorder, Workstation.putStack, hplaced.list]
    rfl

/-- After it is hidden a layer is on no list. -/
theorem hide_spec (h : WorkstationOk s) (layer : L) :
    ∃ s', dwinLayerZorder s layer (-1) = some s' ∧ WorkstationOk s' ∧ s'.priority = s.priority ∧
      s'.priorityList = Function.update s.priorityList (s.priority layer)
        ((s.priorityList (s.priority layer)).erase layer) ∧
      ∀ lv, layer ∉ s'.priorityList lv := by
  obtain ⟨s₁, hhide, hok₁, hshown₁⟩ := dwinLayerZorder_spec h layer (-1)
  have hprio₁ : s₁.priority = s.priority := congrArg LayerStacks.priority hshown₁
  have hlists₁ : s₁.priorityList = Function.update s.priorityList (s.priority layer)
      ((s.priorityList (s.priority layer)).erase layer) := by
    have hstacks := congrArg LayerStacks.lists hshown₁
    rwa [LayerStacks.zorder, place_neg (by norm_num)] at hstacks
  refine ⟨s₁, hhide, hok₁, hprio₁, hlists₁, fun lv hmem => ?_⟩
  have hown := hok₁.own lv layer hmem
  rw [hprio₁] at hown
  rw [← hown, hlists₁, Function.update_self] at hmem
  exact (h.ordered (s.priority layer)).nodup.not_mem_erase hmem

/-- A layer that is on no list may get any priority. -/
theorem WorkstationOk.setPriority (h : WorkstationOk s) (hgone : ∀ lv, layer ∉ s.priorityList lv)
    (priority : Fin dwinLayerPrioNr) :
    WorkstationOk { s with priority := Function.update s.priority layer priority } := by
  refine ⟨h.ordered, fun lv w hw => ?_, fun w hw => ?_⟩
  · have hwl : w ≠ layer := fun heq => hgone lv (heq ▸ hw)
    exact (Function.update_of_ne hwl _ _).trans (h.own lv w hw)
  · by_cases hwl : w = layer
    · rw [hwl]
      exact h.out layer (hgone _)
    · refine h.out w ?_
      simpa only [Function.update_of_ne hwl] using hw

/-- `dwin_layer_change_priority`. -/
theorem dwinLayerChangePriority_spec (h : WorkstationOk s) (layer : L) (priority : ℕ) :
    ∃ s', dwinLayerChangePriority s layer priority = some s' ∧ WorkstationOk s' ∧
      s'.shown = s.shown.changePriority layer priority := by
  unfold dwinLayerChangePriority LayerStacks.changePriority
  split_ifs with hprio
  · obtain ⟨s₁, hhide, hok₁, hprio₁, hlists₁, hgone⟩ := hide_spec h layer
    obtain ⟨s₃, hshow, hok₃, hshown₃⟩ :=
      dwinLayerZorder_spec (hok₁.setPriority hgone ⟨priority, hprio⟩) layer (s.z layer)
    refine ⟨s₃, by simp only [hhide, Option.bind_some, hshow], hok₃, ?_⟩
    rw [hshown₃]
    refine LayerStacks.ext ?_ ?_
    · simp only [LayerStacks.zorder, Workstation.shown, Function.update_self, hlists₁]
      have hnew : layer ∉ Function.update s.priorityList (s.priority layer)
          ((s.priorityList (s.priority layer)).erase layer) ⟨priority, hprio⟩ := by
        rw [← hlists₁]
        exact hgone _
      split_ifs with hmem
      · have hidx : s.z layer = (s.priorityList (s.priority layer)).idxOf layer :=
          ((h.ordered (s.priority layer)).numbered.idxOf hmem).trans (Int.zero_add _)
        rw [hidx, place, if_neg (by omega), if_neg hnew, Int.toNat_natCast]
        exact (if_pos hmem).symm
      · have hz : s.z layer = -1 := h.out layer hmem
        rw [hz, place_neg (by norm_num), List.erase_of_not_mem hnew, List.erase_of_not_mem hmem,
          Function.update_eq_self, Function.update_eq_self]
        exact (if_neg hmem).symm
    · simp only [LayerStacks.zorder, Workstation.shown, hprio₁]
  · exact ⟨s, rfl, h, rfl⟩

/-- **Every call is the operation on the lists.** -/
theorem layerStep_spec (h : WorkstationOk s) (call : LayerCall L) :
    ∃ s', layerStep s call = some s' ∧ WorkstationOk s' ∧ s'.shown = s.shown.step call := by
  cases call with
  | zorder layer z => exact dwinLayerZorder_spec h layer z
  | changePriority layer priority => exact dwinLayerChangePriority_spec h layer priority

/-- A run of calls is a run of the operation. -/
theorem layerStep_run (calls : List (LayerCall L)) (h : WorkstationOk s) :
    ∃ s', Run.exec layerStep s calls = some s' ∧ WorkstationOk s' ∧
      s'.shown = calls.foldl LayerStacks.step s.shown := by
  induction calls generalizing s with
  | nil => exact ⟨s, rfl, h, rfl⟩
  | cons call calls ih =>
      obtain ⟨t, hstep, ht, hshown⟩ := layerStep_spec h call
      obtain ⟨u, hrun, hu, hushown⟩ := ih ht
      refine ⟨u, Run.exec_cons_eq_some.2 ⟨t, hstep, hrun⟩, hu, ?_⟩
      rw [hushown, hshown, List.foldl_cons]

/-- **The z-order operations are one operation on lists**, for views and for layers: no run stops
at an assertion, the lists are what the operation makes of them, in order, and what is placed
leaves the order of the others alone. -/
theorem zorder_realises_place :
    (∀ (V : Type) [DecidableEq V] (calls : List (V × ℤ)),
      ∃ s, Run.exec viewSetZ emptyStack calls = some s ∧ ShowOk s ∧
        s.list = calls.foldl (fun l call => place l call.1 call.2) []) ∧
    (∀ (L : Type) [DecidableEq L] (priority : L → Fin dwinLayerPrioNr) (calls : List (LayerCall L)),
      ∃ s, Run.exec layerStep (emptyWorkstation priority) calls = some s ∧ WorkstationOk s ∧
        s.shown = calls.foldl LayerStacks.step ⟨fun _ => [], priority⟩) ∧
    ∀ (V : Type) [DecidableEq V] (l : List V) (v : V) (z : ℤ), l.Nodup →
      (place l v z).erase v = l.erase v :=
  ⟨fun _ _ calls => viewSetZ_run calls showOk_empty,
    fun _ _ priority calls => layerStep_run calls (workstationOk_empty priority),
    fun _ _ _ v z hl => place_erase hl v z⟩

end Dwin
end LightOS
