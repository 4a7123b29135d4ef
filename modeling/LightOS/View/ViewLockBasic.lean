import LightOS.Lib.SpinLock
import LightOS.View.PointerBasic
import LightOS.View.ScreenBasic

/-!
# The locks of the views: the model

The functions of `core/view.c` and `core/refresh.c` that take `view->lock`, `view_list_spin_lock`
and `view_global_lock`, with each lock taken and given back where the source does it.  What is
between is the work on the show list, the map and the screen that is modelled without locks
elsewhere.
-/

namespace LightOS
namespace ViewLock

open SpinLock View ZOrder

/-- A lock. -/
inductive Lock (V : Type) where
  /-- `view->lock` -/
  | view (v : V)
  /-- `view_list_spin_lock` -/
  | list
  /-- `view_global_lock` -/
  | global
  deriving DecidableEq

/-- The views. -/
structure Views (V : Type) where
  screen : Screen V
  display : Display V
  /-- `view_global_list_head` -/
  views : List V
  id : V → ℤ
  nextId : ℤ
  /-- `view->section` is not null -/
  hasSection : V → Bool
  lastX : ℤ
  lastY : ℤ

/-- A program on the views. -/
abbrev ViewProg (V : Type) : Type → Type := Prog (Lock V) (Views V)

/-- The show list, the numbers and `view_top_z` change. -/
def Views.setStack {V : Type} (s : Views V) (stack : ZStack V) : Views V :=
  { s with display := { s.display with stack := stack } }

/-- `VIEW_MAX_SIZE_WIDTH`. -/
def viewMaxSizeWidth : ℤ := 1920

/-- `VIEW_MAX_SIZE_HEIGHT`. -/
def viewMaxSizeHeight : ℤ := 1080

/-- `VIEW_WHITE`. -/
def viewWhite : BitVec 32 := 0xffffffff

section Functions

variable {V : Type} [DecidableEq V]

/-! ## Refreshing -/

/-- `view_refresh_map`. -/
def viewRefreshMap (r : Block) (z0 : ℤ) : ViewProg V Unit := do
  spinLock .list
  change fun s => { s with display := View.viewRefreshMap s.screen s.display r z0 }
  spinUnlock .list

/-- `view_refresh_by_z`. -/
def viewRefreshByZ (r : Block) (z0 z1 : ℤ) : ViewProg V Unit := do
  spinLock .list
  change fun s => { s with display := View.viewRefreshByZ s.screen s.display r z0 z1 }
  spinUnlock .list

/-- The rectangle of a block of a view on the screen. -/
def onScreen (s : Views V) (v : V) (b : Block) : Block :=
  ⟨s.display.x v + b.left, s.display.y v + b.top, s.display.x v + b.right, s.display.y v + b.bottom⟩

/-- `view_refresh`. -/
def viewRefresh (v : V) (b : Block) : ViewProg V Unit := do
  let s ← look
  if 0 ≤ s.display.stack.z v then do
    viewRefreshMap (onScreen s v b) (s.display.stack.z v)
    viewRefreshByZ (onScreen s v b) (s.display.stack.z v) (s.display.stack.z v)
  else pure ()

/-- What `view_refresh_from_bottom` does with the lock of the view. -/
def refreshLocked (v : V) (b : Block) : ViewProg V Unit := do
  let s ← look
  if 0 ≤ s.display.stack.z v then do
    viewRefreshMap (onScreen s v b) 0
    viewRefreshByZ (onScreen s v b) 0 (s.display.stack.z v)
  else pure ()

/-- `view_refresh_from_bottom`. -/
def viewRefreshFromBottom (v : V) (b : Block) : ViewProg V Unit := do
  spinLock (.view v)
  refreshLocked v b
  spinUnlock (.view v)

/-! ## Order -/

/-- The rectangle of a view is refreshed. -/
def refreshView (v : V) (z0 z1 : ℤ) : ViewProg V Unit := do
  let s ← look
  viewRefreshMap (viewRect s.screen s.display v) z0
  viewRefreshByZ (viewRect s.screen s.display v) z0 z1

/-- The view is linked in at its place, the list is free again, and the view is refreshed. -/
def linkAndRefresh (v : V) (stack : ZStack V) (z0 z1 : ℤ) : ViewProg V Unit := do
  change fun s => s.setStack stack
  spinUnlock .list
  refreshView v z0 z1

/-- `__view_adjust_by_z`. -/
def viewAdjustByZ (v : V) (z : ℤ) : ViewProg V Unit := do
  let s ← look
  let stack := s.display.stack
  let oldZ := stack.z v
  spinLock .global
  let z := if stack.topZ < z then stack.topZ else z
  spinLock .list
  let l := stack.list.erase v
  change fun s => s.setStack { stack with list := l }
  if z = stack.topZ then do
    spinUnlock .global
    -- the other views go down
    let zs := (renumber (fun w => decide (oldZ < w)) z (-1) l (stack.z, none)).1
    linkAndRefresh v ⟨l ++ [v], Function.update zs v z, stack.topZ⟩ z z
  else do
    spinUnlock .global
    if oldZ < z then do
      let r := renumber (fun w => decide (oldZ < w) && decide (w ≤ z)) z (-1) l (stack.z, none)
      let old ← expect r.2
      linkAndRefresh v ⟨listAddAfter v old l, Function.update r.1 v z, stack.topZ⟩ z z
    else if z < oldZ then do
      let r := renumber (fun w => decide (w < oldZ) && decide (z ≤ w)) z 1 l (stack.z, none)
      let old ← expect r.2
      linkAndRefresh v ⟨listAddBefore v old l, Function.update r.1 v z, stack.topZ⟩ (z + 1) oldZ
    -- `view_list_spin_lock` is kept
    else pure ()

/-- `__view_hiden_by_z`. -/
def viewHidenByZ (v : V) : ViewProg V Unit := do
  let s ← look
  let oldZ := s.display.stack.z v
  spinLock .list
  linkAndRefresh v (ZOrder.hidenByZ s.display.stack v).1 0 (oldZ - 1)

/-- `__view_show_by_z`. -/
def viewShowByZ (v : V) (z : ℤ) : ViewProg V Unit := do
  spinLock .global
  let s ← look
  let stack := s.display.stack
  let topZ := stack.topZ + 1
  let z := if stack.topZ < z then topZ else z
  change fun s => s.setStack { stack with topZ := topZ }
  spinLock .list
  if z = topZ then do
    spinUnlock .global
    linkAndRefresh v ⟨stack.list ++ [v], Function.update stack.z v z, topZ⟩ z z
  else do
    spinUnlock .global
    let old ← expect (stack.list.find? fun tmp => stack.z tmp = z)
    linkAndRefresh v
      ⟨listAddBefore v old stack.list, Function.update (raiseFrom old stack.list stack.z) v z,
        topZ⟩ z z

/-- What `view_set_z` does with the lock of the view. -/
def setZLocked (v : V) (z : ℤ) : ViewProg V Unit := do
  spinLock .list
  let s ← look
  if v ∈ s.display.stack.list then do
    spinUnlock .list
    -- below 0 the view is to be hidden
    if 0 ≤ z then viewAdjustByZ v z else viewHidenByZ v
  else do
    spinUnlock .list
    if 0 ≤ z then viewShowByZ v z else pure ()

/-- `view_set_z`. -/
def viewSetZ (v : V) (z : ℤ) : ViewProg V Unit := do
  let s ← look
  if s.display.stack.z v = z then pure ()
  else do
    spinLock (.view v)
    setZLocked v z
    spinUnlock (.view v)

/-! ## Place and size -/

/-- What `view_set_xy` does with the lock of the view. -/
def setXyLocked (v : V) (x y : ℤ) : ViewProg V Unit := do
  let s ← look
  change fun s => { s with
    display := { s.display with
      x := Function.update s.display.x v x
      y := Function.update s.display.y v y } }
  if 0 ≤ s.display.stack.z v then do
    viewRefreshMap (moveRect s.screen s.display v x y) 0
    viewRefreshByZ (moveRect s.screen s.display v x y) 0 (s.display.stack.z v)
  else pure ()

/-- `view_set_xy`. -/
def viewSetXy (view : Option V) (x y : ℤ) : ViewProg V ℤ :=
  match view with
  | none => pure (-1)
  | some v => do
      spinLock (.view v)
      setXyLocked v x y
      spinUnlock (.view v)
      pure 0

/-- `view_max_size_repair`. -/
def viewMaxSizeRepair (width height : ℤ) : ℤ × ℤ :=
  (if viewMaxSizeWidth < width then viewMaxSizeWidth else width,
    if viewMaxSizeHeight < height then viewMaxSizeHeight else height)

/-- `view_section_clear`. -/
def viewSectionClear (v : V) (s : Views V) : Views V :=
  if s.hasSection v then
    { s with screen := { s.screen with addr := Function.update s.screen.addr v fun _ => 0 } }
  else s

/-- A view has a new section. -/
def bindSection (v : V) (size : ℤ × ℤ) (s : Views V) : Views V :=
  { s with
    hasSection := Function.update s.hasSection v true
    screen := { s.screen with
      viewWidth := Function.update s.screen.viewWidth v size.1
      viewHeight := Function.update s.screen.viewHeight v size.2
      addr := Function.update s.screen.addr v fun _ => 0 } }

/-- `view_resize`; `created` is whether `view_section_create` succeeds. -/
def viewResize (view : Option V) (x y : ℤ) (width height : BitVec 32) (created : Bool) :
    ViewProg V ℤ :=
  match view with
  | none => pure (-1)
  | some v => do
      let s ← look
      if width = 0 ∨ height = 0 then pure (-1)
      else if s.hasSection v = false then pure (-1)
      else if created = false then pure (-1)
      else do
        spinLock (.view v)
        change (viewSectionClear v)
        let _ ← viewSetXy (some v) x y
        change (bindSection v (viewMaxSizeRepair width.toInt height.toInt))
        spinUnlock (.view v)
        pure 0

/-! ## Views come, go and are looked for -/

/-- The fields of a new view before it has an id. -/
def placeView (v : V) (x y : ℤ) (s : Views V) : Views V :=
  { s with
    hasSection := Function.update s.hasSection v true
    display := { s.display with
      x := Function.update s.display.x v x
      y := Function.update s.display.y v y } }

/-- The fields of a new view after it has an id. -/
def sizeView (v : V) (size : ℤ × ℤ) (s : Views V) : Views V :=
  { s with
    screen := { s.screen with
      viewWidth := Function.update s.screen.viewWidth v size.1
      viewHeight := Function.update s.screen.viewHeight v size.2 }
    display := { s.display with
      stack := { s.display.stack with z := Function.update s.display.stack.z v (-1) } } }

/-- `view_render_rectfill` with the rectangle of the view; the rest of the section is clear. -/
def fillView (v : V) (size : ℤ × ℤ) (colour : BitVec 32) (s : Views V) : Views V :=
  { s with
    screen := { s.screen with
      addr := Function.update s.screen.addr v fun i => if 0 ≤ i ∧ i < size.1 * size.2 then colour
        else 0 } }

/-- `view_create`; `built` is whether the section and the message pool can be created. -/
def viewCreate (x y width height : ℤ) (memory : Alloc V) (built : Bool) : ViewProg V (Option V) :=
  do
  let s ← look
  match if built then memory.answer s.views else none with
  | none => pure none
  | some v => do
      change (placeView v x y)
      spinLock .global
      change fun s => { s with id := Function.update s.id v s.nextId, nextId := s.nextId + 1 }
      spinUnlock .global
      change (sizeView v (viewMaxSizeRepair width height))
      spinLock .global
      change fun s => { s with views := v :: s.views }
      spinUnlock .global
      -- `spinlock_init`
      spinUnlock (.view v)
      change (fillView v (viewMaxSizeRepair width height) viewWhite)
      pure (some v)

/-- The loop of `view_find_by_id`, and what comes after it. -/
def findLoop (s : Views V) (id : ℤ) : List V → ViewProg V (Option V)
  | [] => do
      spinUnlock .global
      pure none
  | view :: l =>
      if s.id view = id then do
        spinUnlock .global
        pure (some view)
      else findLoop s id l

/-- `view_find_by_id`. -/
def viewFindById (id : ℤ) : ViewProg V (Option V) := do
  spinLock .global
  let s ← look
  findLoop s id s.views

/-- `view_get_top`. -/
def viewGetTop : ViewProg V (Option V) := do
  spinLock .list
  let s ← look
  let view := s.display.stack.list.getLast?
  spinUnlock .list
  pure view

/-- `view_destroy`; `emptied` and `closed` are whether `msgpool_destroy` and `view_section_close`
succeed. -/
def viewDestroy (view : Option V) (emptied closed : Bool) : ViewProg V ℤ :=
  match view with
  | none => pure (-1)
  | some v => do
      let s ← look
      change fun s => { s with lastX := s.display.x v, lastY := s.display.y v }
      if emptied = false then pure (-1)
      else if (s.hasSection v && closed) = false then pure (-1)
      else do
        spinLock .list
        change fun s => s.setStack { s.display.stack with list := s.display.stack.list.erase v }
        spinUnlock .list
        spinLock .global
        change fun s => { s with views := s.views.erase v }
        spinUnlock .global
        pure 0

end Functions

/-! ## Runs -/

/-- A call. -/
inductive ViewsCall (V : Type) where
  | create (x y width height : ℤ) (memory : Alloc V) (built : Bool)
  | setZ (v : V) (z : ℤ)
  | setXy (view : Option V) (x y : ℤ)
  | resize (view : Option V) (x y : ℤ) (width height : BitVec 32) (created : Bool)
  | refresh (v : V) (b : Block)
  | refreshFromBottom (v : V) (b : Block)
  | findById (id : ℤ)
  | getTop
  | destroy (view : Option V) (emptied closed : Bool)

section Runs

variable {V : Type} [DecidableEq V]

/-- What a call runs; what it returns is not needed. -/
def ViewsCall.prog : ViewsCall V → ViewProg V Unit
  | .create x y width height memory built =>
      do let _ ← viewCreate x y width height memory built; pure ()
  | .setZ v z => viewSetZ v z
  | .setXy view x y => do let _ ← viewSetXy view x y; pure ()
  | .resize view x y width height created =>
      do let _ ← viewResize view x y width height created; pure ()
  | .refresh v b => viewRefresh v b
  | .refreshFromBottom v b => viewRefreshFromBottom v b
  | .findById id => do let _ ← viewFindById id; pure ()
  | .getTop => do let _ ← viewGetTop; pure ()
  | .destroy view emptied closed => do let _ ← viewDestroy view emptied closed; pure ()

/-- One call; without a next state it does not return. -/
def viewsStep (m : Machine (Lock V) (Views V)) (call : ViewsCall V) :
    Option (Machine (Lock V) (Views V)) :=
  match call.prog m with
  | .ok (_, m') => some m'
  | .error _ => none

/-- There are no views, and no lock is taken. -/
def noViews (screen : Screen V) (x y : V → ℤ) (idMap : ℤ → BitVec 16) (vram : ℤ → BitVec 32)
    (id : V → ℤ) :
    Machine (Lock V) (Views V) where
  store :=
    { screen
      display := ⟨emptyStack, x, y, idMap, vram⟩
      views := []
      id
      nextId := 0
      hasSection := fun _ => false
      lastX := 0
      lastY := 0 }
  held := fun _ => false

/-- `view_resize` gets past its checks. -/
def ViewsCall.Resizes (s : Views V) : ViewsCall V → Prop
  | .resize (some v) _ _ width height created =>
      (width ≠ 0 ∧ height ≠ 0) ∧ s.hasSection v = true ∧ created = true
  | _ => False

end Runs

end ViewLock
end LightOS
