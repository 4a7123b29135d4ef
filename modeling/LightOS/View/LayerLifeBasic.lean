import LightOS.Kern.Bitmap
import LightOS.View.DwinLayer
import LightOS.View.PointerBasic

/-!
# The life of layers: the model

`objects/layer.c`, `objects/layer_id.c` and the layers of `objects/workstation.c`, over the lists
of the priorities.  A layer has a node on the list of all layers and one on the list of its
priority.  The links of a node lead to a list, or to the node itself, or are null; `list_del` makes
them null.

`none` is an unlinking of a node whose links are null, or an assertion that fails.  How layers come
into and leave the lists is told once more without nodes, as `Lifecycle`.
-/

namespace LightOS
namespace Dwin

open ZOrder View

/-- A workstation, the layers, and their ids. -/
structure Layers (L : Type) where
  station : Workstation L
  /-- `global_list_head` -/
  globalList : List L
  /-- the layers that have been created and not been freed -/
  live : List L
  id : L → ℤ
  /-- `layer->workstation` is not null -/
  onStation : L → Bool
  /-- the links of `layer->list` are null -/
  listNull : L → Bool
  /-- the links of `layer->global_list` are null -/
  globalNull : L → Bool
  /-- `dwin_layer_id` -/
  layerId : Bitmap

/-! ## Ids -/

/-- `DWIN_LAYER_ID_OFF`. -/
def dwinLayerIdOff : ℕ := 1

/-- `dwin_layer_alloc_id`. -/
def dwinLayerAllocId (layerId : Bitmap) : Option (ℕ × Bitmap) :=
  (bitmapScan layerId 1).map fun id => (id + dwinLayerIdOff, bitmapSet layerId id true)

/-- `dwin_layer_free_id`. -/
def dwinLayerFreeId (layerId : Bitmap) (id : ℤ) : Bitmap :=
  let id := id - dwinLayerIdOff
  if id < 0 ∨ (layerId.byteLength * 8 : ℕ) ≤ id then layerId else bitmapSet layerId id.toNat false

/-- `dwin_layer_id_init`; the bits are those behind the map as well. -/
def dwinLayerIdInit (bits : ℕ → BitVec 8) : Bitmap := bitmapInit ⟨dwinLayerNr / 8, bits⟩

section Functions

variable {L : Type} [DecidableEq L] (s : Layers L)

/-! ## Nodes -/

/-- `layer->list` is unlinked, by `list_del` or by `list_del_init`. -/
def unlinkList (layer : L) (init : Bool) : Option (Layers L) :=
  if s.listNull layer then none
  else
    some { s with
      station := { s.station with priorityList := fun lv =>
        (s.station.priorityList lv).erase layer }
      listNull := Function.update s.listNull layer (!init) }

/-- `layer->global_list` is unlinked, by `list_del` or by `list_del_init`. -/
def unlinkGlobal (layer : L) (init : Bool) : Option (Layers L) :=
  if s.globalNull layer then none
  else
    some { s with
      globalList := s.globalList.erase layer
      globalNull := Function.update s.globalNull layer (!init) }

/-! ## Layers -/

/-- `dwin_layer_create`; `built` is whether the buffer and the message pool can be created. -/
def dwinLayerCreate (memory : Alloc L) (built : Bool) : Layers L × Option L :=
  match if built then memory.answer s.live else none with
  | none => (s, none)
  | some layer =>
      match dwinLayerAllocId s.layerId with
      | none => (s, none)
      | some (id, layerId) =>
          ({ s with
              station := { s.station with
                z := Function.update s.station.z layer (-1)
                priority := Function.update s.station.priority layer 0 }
              live := layer :: s.live
              id := Function.update s.id layer id
              onStation := Function.update s.onStation layer false
              listNull := Function.update s.listNull layer false
              globalNull := Function.update s.globalNull layer false
              layerId }, some layer)

/-- `dwin_workstation_has_layer`. -/
def dwinWorkstationHasLayer (layer : L) : Bool := decide (layer ∈ s.globalList)

/-- `dwin_workstation_add_layer`. -/
def dwinWorkstationAddLayer (layer : L) : Layers L × ℤ :=
  if dwinWorkstationHasLayer s layer then (s, -1)
  else
    ({ s with
        globalList := layer :: s.globalList
        globalNull := Function.update s.globalNull layer false
        onStation := Function.update s.onStation layer true }, 0)

/-- `dwin_workstation_del_layer`. -/
def dwinWorkstationDelLayer (layer : L) : Option (Layers L × ℤ) :=
  if dwinWorkstationHasLayer s layer then
    (unlinkGlobal s layer false).bind fun s =>
      (unlinkList s layer false).map fun s =>
        ({ s with onStation := Function.update s.onStation layer false }, 0)
  else some (s, -1)

/-- `dwin_layer_zorder`. -/
def layerZorder (layer : L) (z : ℤ) : Option (Layers L) :=
  if s.station.z layer = z then some s
  else if s.onStation layer = false then some s
  else if isLayerShown s.station layer then
    -- both begin with `list_del_init`
    if s.listNull layer then none
    else if 0 ≤ z then (adjustByZ s.station layer z).map fun station => { s with station }
    else some { s with station := hidenByZ s.station layer }
  else if 0 ≤ z then
    (showByZ s.station layer z).map fun station =>
      { s with station, listNull := Function.update s.listNull layer false }
  else some s

/-- `dwin_layer_change_priority`. -/
def layerChangePriority (layer : L) (priority : ℕ) : Option (Layers L × ℤ) :=
  if h : priority < dwinLayerPrioNr then
    let oldZ := s.station.z layer
    let set := fun s : Layers L =>
      { s with
        station := { s.station with
          priority := Function.update s.station.priority layer ⟨priority, h⟩ } }
    if s.onStation layer then
      (layerZorder s layer (-1)).bind fun s => (layerZorder (set s) layer oldZ).map fun s => (s, 0)
    else some (set s, 0)
  else some (s, -1)

/-- `dwin_layer_destroy`. -/
def dwinLayerDestroy (layer : L) : Option (Layers L × ℤ) :=
  (unlinkList s layer true).bind fun s =>
    (unlinkGlobal s layer true).map fun s =>
      ({ s with
          layerId := dwinLayerFreeId s.layerId (s.id layer)
          id := Function.update s.id layer (-1)
          live := s.live.erase layer }, 0)

/-- `dwin_layer_delete`. -/
def dwinLayerDelete (layer : L) : Option (Layers L × ℤ) :=
  if s.onStation layer = false then some (s, -1)
  else
    (layerZorder s layer (-1)).bind fun s =>
      (dwinWorkstationDelLayer s layer).bind fun t =>
        if t.2 < 0 then some (t.1, -1) else dwinLayerDestroy t.1 layer

end Functions

/-! ## Calls -/

/-- What is done with a layer. -/
inductive LayerOp where
  | add
  | zorder (z : ℤ)
  | changePriority (priority : ℕ)
  | del
  | destroy
  | delete

/-- A call. -/
inductive LifeCall (L : Type) where
  | create (memory : Alloc L) (built : Bool)
  | on (layer : Option L) (op : LayerOp)

section Calls

variable {L : Type} [DecidableEq L]

/-- What is done with a layer that is not null. -/
def layerOp (s : Layers L) (layer : L) : LayerOp → Option (Layers L)
  | .add => some (dwinWorkstationAddLayer s layer).1
  | .zorder z => layerZorder s layer z
  | .changePriority priority => (layerChangePriority s layer priority).map Prod.fst
  | .del => (dwinWorkstationDelLayer s layer).map Prod.fst
  | .destroy => (dwinLayerDestroy s layer).map Prod.fst
  | .delete => (dwinLayerDelete s layer).map Prod.fst

/-- One call; with a null pointer nothing is done. -/
def lifeStep (s : Layers L) : LifeCall L → Option (Layers L)
  | .create memory built => some (dwinLayerCreate s memory built).1
  | .on none _ => some s
  | .on (some layer) op => layerOp s layer op

/-- `dwin_workstation_init` and `dwin_layer_id_init`; there are no layers. -/
def noLayers (priority : L → Fin dwinLayerPrioNr) (id : L → ℤ) (bits : ℕ → BitVec 8) :
    Layers L where
  station := emptyWorkstation priority
  globalList := []
  live := []
  id
  onStation := fun _ => false
  listNull := fun _ => false
  globalNull := fun _ => false
  layerId := dwinLayerIdInit bits

end Calls

/-! ## What layers are for -/

/-- The layers that live, those of the workstation, and the lists of what is shown. -/
structure Lifecycle (L : Type) where
  live : List L
  id : L → ℕ
  added : List L
  shown : LayerStacks L
  /-- it has been taken off the workstation -/
  taken : L → Bool
  /-- it has not been shown since -/
  bare : L → Bool

section Lifecycle

variable {L : Type} [DecidableEq L] (a : Lifecycle L)

/-- The least id that no layer has. -/
def Lifecycle.freeId : Option ℕ :=
  ((List.range dwinLayerNr).find? fun i => decide (i + 1 ∉ a.live.map a.id)).map (· + 1)

/-- A new layer. -/
def Lifecycle.born (layer : L) (id : ℕ) : Lifecycle L :=
  { a with
    live := layer :: a.live
    id := Function.update a.id layer id
    shown := { a.shown with priority := Function.update a.shown.priority layer 0 }
    taken := Function.update a.taken layer false
    bare := Function.update a.bare layer false }

/-- What is done with a layer; `delete` is what it is for a layer that is not on the workstation. -/
def Lifecycle.op (layer : L) : LayerOp → Lifecycle L
  | .add => if layer ∈ a.added then a else { a with added := layer :: a.added }
  | .zorder z =>
      if layer ∈ a.added then
        { a with
          shown := a.shown.zorder layer z
          bare := if 0 ≤ z then Function.update a.bare layer false else a.bare }
      else a
  | .changePriority priority => { a with shown := a.shown.changePriority layer priority }
  | .del =>
      if layer ∈ a.added then
        { a with
          added := a.added.erase layer
          taken := Function.update a.taken layer true
          bare := Function.update a.bare layer true }
      else a
  | .destroy => { a with live := a.live.erase layer }
  | .delete => a

/-- One call. -/
def Lifecycle.step : LifeCall L → Lifecycle L
  | .create memory built =>
      match if built then memory.answer a.live else none with
      | none => a
      | some layer =>
          match a.freeId with
          | none => a
          | some id => a.born layer id
  | .on none _ => a
  | .on (some layer) op => a.op layer op

/-- What may be done with a layer: it is not on the workstation if it is deleted or destroyed; one
that is destroyed has never been taken off it; and one that is taken off is hidden, and has been
shown since it was last taken off. -/
def Lifecycle.Allows (layer : L) : LayerOp → Prop
  | .del => layer ∈ a.added → layer ∉ a.shown.lists (a.shown.priority layer) ∧ a.bare layer = false
  | .destroy => layer ∉ a.added ∧ a.taken layer = false
  | .delete => layer ∉ a.added
  | _ => True

instance (layer : L) : (op : LayerOp) → Decidable (a.Allows layer op)
  | .del => inferInstanceAs (Decidable (_ → _ ∧ _))
  | .destroy => inferInstanceAs (Decidable (_ ∧ _))
  | .delete => inferInstanceAs (Decidable (_ ∉ _))
  | .add => isTrue trivial
  | .zorder _ => isTrue trivial
  | .changePriority _ => isTrue trivial

/-- What a call must meet: its layer lives. -/
def LifeCall.Fits : LifeCall L → Prop
  | .on (some layer) op => layer ∈ a.live ∧ a.Allows layer op
  | _ => True

instance : (call : LifeCall L) → Decidable (call.Fits a)
  | .on (some _) _ => inferInstanceAs (Decidable (_ ∧ _))
  | .on none _ => isTrue trivial
  | .create _ _ => isTrue trivial

end Lifecycle

/-- There are no layers. -/
def noLife {L : Type} (priority : L → Fin dwinLayerPrioNr) : Lifecycle L :=
  ⟨[], fun _ => 0, [], ⟨fun _ => [], priority⟩, fun _ => false, fun _ => false⟩

end Dwin
end LightOS
