import LightOS.Lib.Run
import LightOS.Lib.Stacking

/-!
# The z-order of views and layers: the model

`__view_adjust_by_z`, `__view_hiden_by_z`, `__view_show_by_z` and `view_set_z` of
`drivers/view/core/view.c`, and their counterparts of `dwin/objects/layer_action.c`, which are
the same code on the list of one priority.

The list is the show list, its first node first; `z` is the field of the views, and a loop over
the list changes it node by node.  After its work on the list each function redraws the
rectangle of the view from one number to another; these are part of what it returns.  `none` is
an assertion that fails.
-/

namespace LightOS
namespace ZOrder

variable {V : Type} [DecidableEq V]

/-- A show list, the field `z` of every view, and `view_top_z`. -/
structure ZStack (V : Type) where
  list : List V
  z : V → ℤ
  topZ : ℤ

/-- The numbers from `z0` on are mapped anew, and those from `z0` to `z1` drawn. -/
structure Refresh where
  z0 : ℤ
  z1 : ℤ
  deriving DecidableEq

/-! ## Lists -/

/-- `list_add_before`. -/
def listAddBefore (v old : V) : List V → List V
  | [] => []
  | w :: l => if w = old then v :: w :: l else w :: listAddBefore v old l

/-- `list_add_after`. -/
def listAddAfter (v old : V) : List V → List V
  | [] => []
  | w :: l => if w = old then w :: v :: l else w :: listAddAfter v old l

/-- A loop that changes the numbers that meet a condition by `step`; `old_view` is the last of them
with the number `target`. -/
def renumber (cond : ℤ → Bool) (target step : ℤ) :
    List V → (V → ℤ) × Option V → (V → ℤ) × Option V
  | [], r => r
  | tmp :: l, (z, old) =>
      if cond (z tmp) then
        renumber cond target step l
          (Function.update z tmp (z tmp + step), if z tmp = target then some tmp else old)
      else renumber cond target step l (z, old)

/-- The second loop of `__view_show_by_z`, which compares with `old_view->z` as it is by then. -/
def raiseFrom (old : V) : List V → (V → ℤ) → V → ℤ
  | [], z => z
  | tmp :: l, z =>
      if z old ≤ z tmp then raiseFrom old l (Function.update z tmp (z tmp + 1))
      else raiseFrom old l z

/-! ## The functions -/

/-- `__view_adjust_by_z`. -/
def adjustByZ (s : ZStack V) (v : V) (z : ℤ) : Option (ZStack V × Option Refresh) :=
  let oldZ := s.z v
  let z := if s.topZ < z then s.topZ else z
  let l := s.list.erase v
  if z = s.topZ then
    -- the other views go down
    let zs := (renumber (fun w => decide (oldZ < w)) z (-1) l (s.z, none)).1
    some (⟨l ++ [v], Function.update zs v z, s.topZ⟩, some ⟨z, z⟩)
  else if oldZ < z then
    let r := renumber (fun w => decide (oldZ < w) && decide (w ≤ z)) z (-1) l (s.z, none)
    r.2.map fun old =>
      (⟨listAddAfter v old l, Function.update r.1 v z, s.topZ⟩, some ⟨z, z⟩)
  else if z < oldZ then
    let r := renumber (fun w => decide (w < oldZ) && decide (z ≤ w)) z 1 l (s.z, none)
    r.2.map fun old =>
      (⟨listAddBefore v old l, Function.update r.1 v z, s.topZ⟩, some ⟨z + 1, oldZ⟩)
  else some (⟨l, s.z, s.topZ⟩, none)

/-- `__view_hiden_by_z`. -/
def hidenByZ (s : ZStack V) (v : V) : ZStack V × Option Refresh :=
  let oldZ := s.z v
  let l := s.list.erase v
  let zs := if oldZ < s.topZ then (renumber (fun w => decide (oldZ < w)) oldZ (-1) l (s.z, none)).1
    else s.z
  (⟨l, Function.update zs v (-1), s.topZ - 1⟩, some ⟨0, oldZ - 1⟩)

/-- `__view_show_by_z`. -/
def showByZ (s : ZStack V) (v : V) (z : ℤ) : Option (ZStack V × Option Refresh) :=
  let topZ := s.topZ + 1
  let z := if s.topZ < z then topZ else z
  if z = topZ then
    some (⟨s.list ++ [v], Function.update s.z v z, topZ⟩, some ⟨z, z⟩)
  else
    (s.list.find? fun tmp => s.z tmp = z).map fun old =>
      (⟨listAddBefore v old s.list, Function.update (raiseFrom old s.list s.z) v z, topZ⟩,
        some ⟨z, z⟩)

/-- `view_set_z`. -/
def setZ (s : ZStack V) (v : V) (z : ℤ) : Option (ZStack V × Option Refresh) :=
  if s.z v = z then some (s, none)
  else if v ∈ s.list then
    if 0 ≤ z then adjustByZ s v z else some (hidenByZ s v)
  else if 0 ≤ z then showByZ s v z
  else some (s, none)

/-- Nothing is shown. -/
def emptyStack : ZStack V := ⟨[], fun _ => -1, -1⟩

end ZOrder

namespace View

open ZOrder

variable {V : Type} [DecidableEq V]

/-- `view_set_z`, as far as the list goes. -/
def viewSetZ (s : ZStack V) (call : V × ℤ) : Option (ZStack V) :=
  (setZ s call.1 call.2).map Prod.fst

end View

/-! ## Layers -/

namespace Dwin

open ZOrder

variable {L : Type} [DecidableEq L]

/-- `DWIN_LAYER_PRIO_NR`. -/
abbrev dwinLayerPrioNr : ℕ := 6

/-- `DWIN_LAYER_NR`. -/
abbrev dwinLayerNr : ℕ := 128

/-- `dwin_workstation_t` with its layers: the list and the top of each priority, and the fields `z`
and `priority` of the layers. -/
structure Workstation (L : Type) where
  priorityList : Fin dwinLayerPrioNr → List L
  priorityTopz : Fin dwinLayerPrioNr → ℤ
  z : L → ℤ
  priority : L → Fin dwinLayerPrioNr

/-- The list of one priority. -/
def Workstation.stack (s : Workstation L) (lv : Fin dwinLayerPrioNr) : ZStack L :=
  ⟨s.priorityList lv, s.z, s.priorityTopz lv⟩

/-- The list of one priority has changed. -/
def Workstation.putStack (s : Workstation L) (lv : Fin dwinLayerPrioNr) (t : ZStack L) :
    Workstation L :=
  { s with
    priorityList := Function.update s.priorityList lv t.list
    priorityTopz := Function.update s.priorityTopz lv t.topZ
    z := t.z }

/-- `adjust_by_z`. -/
def adjustByZ (s : Workstation L) (layer : L) (z : ℤ) : Option (Workstation L) :=
  (ZOrder.adjustByZ (s.stack (s.priority layer)) layer z).map fun t =>
    s.putStack (s.priority layer) t.1

/-- `hiden_by_z`. -/
def hidenByZ (s : Workstation L) (layer : L) : Workstation L :=
  s.putStack (s.priority layer) (ZOrder.hidenByZ (s.stack (s.priority layer)) layer).1

/-- `show_by_z`. -/
def showByZ (s : Workstation L) (layer : L) (z : ℤ) : Option (Workstation L) :=
  (ZOrder.showByZ (s.stack (s.priority layer)) layer z).map fun t =>
    s.putStack (s.priority layer) t.1

/-- `dwin_workstation_is_layer_shown`. -/
def isLayerShown (s : Workstation L) (layer : L) : Bool :=
  (List.finRange dwinLayerPrioNr).any fun lv => decide (layer ∈ s.priorityList lv)

/-- `dwin_layer_zorder`, of a layer of the workstation. -/
def dwinLayerZorder (s : Workstation L) (layer : L) (z : ℤ) : Option (Workstation L) :=
  if s.z layer = z then some s
  else if isLayerShown s layer then
    if 0 ≤ z then adjustByZ s layer z else some (hidenByZ s layer)
  else if 0 ≤ z then showByZ s layer z
  else some s

/-- `dwin_layer_zorder`, with what it flushes. -/
def zorderRefresh (s : Workstation L) (layer : L) (z : ℤ) :
    Option (Workstation L × Option Refresh) :=
  let put := fun t : ZStack L × Option Refresh => (s.putStack (s.priority layer) t.1, t.2)
  if s.z layer = z then some (s, none)
  else if isLayerShown s layer then
    if 0 ≤ z then (ZOrder.adjustByZ (s.stack (s.priority layer)) layer z).map put
    else some (put (ZOrder.hidenByZ (s.stack (s.priority layer)) layer))
  else if 0 ≤ z then (ZOrder.showByZ (s.stack (s.priority layer)) layer z).map put
  else some (s, none)

/-- `dwin_layer_change_priority`, of a layer of the workstation. -/
def dwinLayerChangePriority (s : Workstation L) (layer : L) (priority : ℕ) :
    Option (Workstation L) :=
  if h : priority < dwinLayerPrioNr then
    let oldZ := s.z layer
    (dwinLayerZorder s layer (-1)).bind fun s =>
      dwinLayerZorder { s with priority := Function.update s.priority layer ⟨priority, h⟩ } layer
        oldZ
  else some s

/-- A call. -/
inductive LayerCall (L : Type) where
  | zorder (layer : L) (z : ℤ)
  | changePriority (layer : L) (priority : ℕ)

/-- One call. -/
def layerStep (s : Workstation L) : LayerCall L → Option (Workstation L)
  | .zorder layer z => dwinLayerZorder s layer z
  | .changePriority layer priority => dwinLayerChangePriority s layer priority

/-- `dwin_workstation_init`, with layers that are not shown. -/
def emptyWorkstation (priority : L → Fin dwinLayerPrioNr) : Workstation L :=
  ⟨fun _ => [], fun _ => -1, fun _ => -1, priority⟩

end Dwin
end LightOS
