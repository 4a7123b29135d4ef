import LightOS.View.ZOrderBasic

/-!
# The view driver: the model

`drivers/view/driver.c` with what it calls of `core/view.c`, `core/env.c`, `core/msg.c` and
`core/mouse.c`, as far as it decides which view is where on the show list.

A view is known by its address, which can be given out again once the view is destroyed.  The
pointers of the environment may stand for a view that is gone.

What depends on positions on the screen comes with the call: which views are under the pointer,
what border of a view it is on, and so on, as they are at that moment.
-/

namespace LightOS
namespace View

open ZOrder

/-! ## The core -/

/-- `VIEW_TYPE_FIXED`. -/
def viewTypeFixed : ℕ := 0

/-- `VIEW_TYPE_WINDOW`. -/
def viewTypeWindow : ℕ := 1

/-- `VIEW_TYPE_FLOAT`. -/
def viewTypeFloat : ℕ := 2

/-- `view_mouse_state_t`. -/
inductive MouseState where
  | normal
  | hold
  | help
  | pen
  | busy
  | accurate
  | text
  | unusable
  | vresize
  | hresize
  | dresize1
  | dresize2
  | resizeall
  | hand
  | invisible
  deriving DecidableEq

/-- The variables of `view.c`, `env.c` and `mouse.c` while the driver is in use. -/
structure Core (V : Type) where
  stack : ZStack V
  /-- `view_global_list_head` -/
  views : List V
  type : V → ℕ
  /-- `VIEW_ATTR_RESIZABLE` -/
  resizable : V → Bool
  /-- `VIEW_ATTR_MOVEABLE` -/
  moveable : V → Bool
  mouse : V
  shade : V
  middle : V
  activity : Option V
  hover : Option V
  resize : Option V
  drag : Option V
  mouseState : MouseState
  /-- `VIEW_MOUSE_FLAG_RESIZE_READY` -/
  resizeReady : Bool

/-- Where the pointer is, in the coordinates of a view. -/
inductive Border where
  /-- the view has no resize region -/
  | invalid
  /-- inside of the resize region -/
  | within
  /-- on an edge, or a corner, and the pointer for it -/
  | edge (state : MouseState)

/-- The messages of the mouse; the other buttons and the wheel are told apart nowhere. -/
inductive MouseMsgId where
  | motion
  | lbtnDown
  | lbtnUp
  | other
  deriving DecidableEq

/-- A mouse message, with what the positions say. -/
structure MouseMsg (V : Type) where
  id : MouseMsgId
  /-- the point is in the rectangle of the view -/
  under : V → Bool
  border : V → Border
  /-- `view_drag_rect_check` -/
  dragRect : V → Bool
  /-- `view_calc_resize` succeeds -/
  resizes : Bool

/-- An allocator: it never gives out what is in use. -/
structure Alloc (V : Type) where
  answer : List V → Option V
  fresh : ∀ inUse v, answer inUse = some v → v ∉ inUse

/-- An allocator with one block. -/
def Alloc.only {V : Type} [DecidableEq V] (v : V) : Alloc V where
  answer inUse := if v ∈ inUse then none else some v
  fresh inUse w hw := by
    split_ifs at hw with hmem
    cases hw
    exact hmem

/-! ## Views -/

section Views

variable {V : Type} [DecidableEq V]

/-- `view_set_z`. -/
def setViewZ (c : Core V) (v : V) (z : ℤ) : Option (Core V) :=
  (viewSetZ c.stack (v, z)).map fun stack => { c with stack }

/-- `view_set_type`. -/
def viewSetType (c : Core V) (v : V) (type : ℕ) : Core V :=
  { c with
    type := Function.update c.type v type
    resizable := Function.update c.resizable v (c.resizable v || type == viewTypeWindow)
    moveable := Function.update c.moveable v (c.moveable v || type == viewTypeWindow) }

/-- `view_create` at an address. -/
def viewCreate (c : Core V) (v : V) (type : ℕ) : Core V :=
  viewSetType { c with
    stack := { c.stack with z := Function.update c.stack.z v (-1) }
    views := v :: c.views
    resizable := Function.update c.resizable v false
    moveable := Function.update c.moveable v false } v type

/-- `view_destroy`. -/
def viewDestroy (c : Core V) (v : V) : Core V :=
  { c with stack := { c.stack with list := c.stack.list.erase v }, views := c.views.erase v }

/-- `view_find_by_z`. -/
def viewFindByZ (c : Core V) (z : ℤ) : Option V := c.views.find? fun v => decide (c.stack.z v = z)

/-- `view_move_under_view`. -/
def viewMoveUnderView (c : Core V) (v target : V) : Option (Core V) :=
  setViewZ c v (c.stack.z target - 1)

/-- `view_hide`. -/
def viewHide (c : Core V) (v : V) : Option (Core V) := setViewZ c v (-1)

/-- `view_show`, with `view_move_to_top` and `view_move_under_top`. -/
def viewShow (c : Core V) (v : V) : Option (Core V) :=
  if c.stack.z v < 0 then setViewZ c v c.stack.topZ else setViewZ c v (c.stack.topZ - 1)

/-! ## The environment -/

/-- `view_env_try_activate`. -/
def viewEnvTryActivate (c : Core V) (view : Option V) : Option (Core V) :=
  if c.activity = view then some c
  else
    match view with
    | none => some { c with activity := none }
    | some v =>
        if c.type v = viewTypeWindow then viewMoveUnderView { c with activity := some v } v c.middle
        else some { c with activity := some v }

/-- Hides the shade. -/
def hideShade (c : Core V) : Option (Core V) := setViewZ c c.shade (-1)

/-- Shows the shade, if it is hidden. -/
def showShade (c : Core V) : Option (Core V) :=
  if c.stack.z c.shade < 0 then setViewZ c c.shade (c.stack.z c.middle) else some c

/-- `view_env_do_mouse_hover`. -/
def viewEnvDoMouseHover (c : Core V) (v : V) : Option (Core V) :=
  if c.hover = some v then some c
  else if c.mouseState = .normal then some { c with hover := some v }
  else
    (if 0 < c.stack.z c.shade then hideShade { c with mouseState := .normal }
      else some { c with mouseState := .normal }).map fun c => { c with hover := some v }

/-- The topmost view at the point, the pointer left out: `view_env_find_hover_view`, and the loop of
`view_dispatch_mouse_msg`. -/
def viewEnvFindHoverView (c : Core V) (under : V → Bool) : Option V :=
  c.stack.list.reverse.find? fun v => decide (v ≠ c.mouse) && under v

/-- `view_env_reset_hover_and_activity`. -/
def viewEnvResetHoverAndActivity (c : Core V) (under : V → Bool) : Option (Core V) :=
  (viewEnvTryActivate c (viewFindByZ c (c.stack.z c.middle - 1))).bind fun c =>
    match viewEnvFindHoverView c under with
    | none => some { c with hover := none }
    | some v => viewEnvDoMouseHover { c with hover := none } v

/-- `view_env_do_resize`, and whether it returns 0. -/
def viewEnvDoResize (c : Core V) (v : V) (msg : MouseMsg V) : Core V × Bool :=
  if c.type v = viewTypeFixed ∨ c.resizable v = false then (c, false)
  else
    match msg.border v with
    | .invalid => (c, false)
    | .within =>
        -- the pointer becomes normal again when it first comes in from a border
        (if c.resizeReady then { c with resizeReady := false, mouseState := .normal } else c, false)
    | .edge state =>
        ({ c with
            resizeReady := true
            resize := if msg.id = .lbtnDown then some v else c.resize
            mouseState := state }, true)

/-- `view_env_do_drag`. -/
def viewEnvDoDrag (c : Core V) (v : V) (msg : MouseMsg V) : Core V :=
  if c.type v = viewTypeFixed ∨ c.moveable v = false then c
  else if msg.dragRect v = false then c
  else if msg.id = .lbtnDown then { c with drag := some v }
  else c

/-- The end of a resize or a drag. -/
def releaseView (c : Core V) (msg : MouseMsg V) : Option (Core V × Bool) :=
  if c.resize.isSome then
    (if msg.resizes then hideShade c else some c).map fun c =>
      ({ c with resize := none, mouseState := .normal }, true)
  else if c.drag.isSome then
    (if c.mouseState = .hold then hideShade c else some c).map fun c =>
      ({ c with drag := none, mouseState := .normal }, false)
  else some (c, false)

/-- A move during a resize or a drag. -/
def moveView (c : Core V) (msg : MouseMsg V) : Option (Core V × Bool) :=
  if c.resize.isSome && msg.resizes then (showShade c).map fun c => (c, true)
  else if c.drag.isSome then (showShade c).map fun c => ({ c with mouseState := .hold }, true)
  else some (c, false)

/-- `view_env_filter_mouse_msg`, and whether it returns 0. -/
def viewEnvFilterMouseMsg (c : Core V) (msg : MouseMsg V) : Option (Core V × Bool) :=
  match msg.id with
  | .lbtnDown => some (c, c.resize.isSome || c.drag.isSome)
  | .lbtnUp => releaseView c msg
  | .motion => moveView c msg
  | .other => some (c, false)

/-- `view_dispatch_mouse_msg`. -/
def viewDispatchMouseMsg (c : Core V) (msg : MouseMsg V) : Option (Core V) :=
  (viewEnvFilterMouseMsg c msg).bind fun r =>
    if r.2 then some r.1
    else
      match viewEnvFindHoverView r.1 msg.under with
      | none => some r.1
      | some v =>
          (if msg.id = .lbtnDown then viewEnvTryActivate r.1 (some v) else some r.1).bind fun c =>
            (viewEnvDoMouseHover c v).map fun c =>
              let r := viewEnvDoResize c v msg
              if r.2 then r.1 else viewEnvDoDrag r.1 v msg

/-! ## Starting -/

/-- The views that `view_core_init` creates. -/
structure Boot (V : Type) where
  mouse : V
  shade : V
  ne : shade ≠ mouse

/-- The variables before anything is created. -/
def coreStart (boot : Boot V) : Core V where
  stack := emptyStack
  views := []
  type := fun _ => viewTypeFixed
  resizable := fun _ => false
  moveable := fun _ => false
  mouse := boot.mouse
  shade := boot.shade
  middle := boot.mouse
  activity := none
  hover := none
  resize := none
  drag := none
  mouseState := .normal
  resizeReady := false

/-- `view_mouse_init` and `view_env_init`. -/
def viewCoreInit (boot : Boot V) : Option (Core V) :=
  (setViewZ (viewCreate (coreStart boot) boot.mouse viewTypeFixed) boot.mouse 0).bind fun c =>
    setViewZ (viewSetType (viewCreate c boot.shade 0) boot.shade viewTypeFloat) boot.shade (-1)

end Views

/-! ## The driver -/

/-- `VIEW_MAX_NR`. -/
abbrev viewMaxNr : ℕ := 32

/-- The devices: how often each is open, and the view of its extension. -/
structure Driver (V : Type) where
  reference : Fin viewMaxNr → ℕ
  view : Fin viewMaxNr → Option V
  openCount : ℕ
  core : Option (Core V)

/-- What a client asks for, or a mouse message that is dispatched. -/
inductive ViewCall (V : Type) where
  /-- `boot` is what `view_core_init` creates if it is run, and succeeds -/
  | open_ (d : Fin viewMaxNr) (type : ℕ) (boot : Option (Boot V)) (memory : Alloc V)
  /-- `destroyed` is whether `view_destroy` succeeds -/
  | close (d : Fin viewMaxNr) (destroyed : Bool) (under : V → Bool)
  | show_ (d : Fin viewMaxNr)
  | hide (d : Fin viewMaxNr) (under : V → Bool)
  | mouse (msg : MouseMsg V)

section Calls

variable {V : Type} [DecidableEq V]

/-- The core that `view_open` finds, or starts. -/
def coreForOpen (s : Driver V) (boot : Option (Boot V)) : Option (Core V) :=
  if s.openCount = 0 then boot.bind viewCoreInit else s.core

/-- `view_open`, as `device_open` calls it when the device is opened for the first time. -/
def viewOpen (s : Driver V) (d : Fin viewMaxNr) (type : ℕ) (boot : Option (Boot V))
    (memory : Alloc V) :
    Driver V :=
  match coreForOpen s boot with
  | none => s
  | some c =>
      match s.view d with
      | some _ =>
          { s with
            reference := Function.update s.reference d 1
            openCount := s.openCount + 1
            core := some c }
      | none =>
          match memory.answer c.views with
          -- the count stays
          | none => { s with openCount := s.openCount + 1, core := some c }
          | some v =>
              { reference := Function.update s.reference d 1
                view := Function.update s.view d (some v)
                openCount := s.openCount + 1
                core := some (viewCreate c v type) }

/-- The last part of `view_close`; `view_core_exit` leaves nothing of the core. -/
def viewCloseCount (s : Driver V) (d : Fin viewMaxNr) (c : Core V) : Driver V where
  reference := Function.update s.reference d 0
  view := Function.update s.view d none
  openCount := s.openCount - 1
  core := if s.openCount - 1 = 0 then none else some c

/-- `view_close`, as `device_close` calls it when the device is closed for the last time. -/
def viewClose (s : Driver V) (d : Fin viewMaxNr) (c : Core V) (destroyed : Bool)
    (under : V → Bool) :
    Option (Driver V) :=
  match s.view d with
  | none => some (viewCloseCount s d c)
  | some v =>
      let z := c.stack.z v
      (viewHide c v).bind fun c =>
        if destroyed then
          (if 0 ≤ z then viewEnvResetHoverAndActivity (viewDestroy c v) under
            else some (viewDestroy c v)).map fun c => viewCloseCount s d c
        else (setViewZ c v z).map fun c => { s with core := some c }

/-- One call. -/
def viewStep (s : Driver V) : ViewCall V → Option (Driver V)
  | .open_ d type boot memory =>
      if s.reference d = 0 then some (viewOpen s d type boot memory)
      else some { s with reference := Function.update s.reference d (s.reference d + 1) }
  | .close d destroyed under =>
      if s.reference d = 1 then
        match s.core with
        | none => some s
        | some c => viewClose s d c destroyed under
      else some { s with reference := Function.update s.reference d (s.reference d - 1) }
  | .show_ d =>
      match s.core, s.view d with
      | some c, some v =>
          ((viewShow c v).bind fun c => viewEnvTryActivate c (some v)).map fun c =>
            { s with core := some c }
      | _, _ => some s
  | .hide d under =>
      match s.core, s.view d with
      | some c, some v =>
          ((viewHide c v).bind fun c => viewEnvResetHoverAndActivity c under).map fun c =>
            { s with core := some c }
      | _, _ => some s
  | .mouse msg =>
      match s.core with
      | none => some s
      | some c => (viewDispatchMouseMsg c msg).map fun c => { s with core := some c }

/-- `view_driver_enter`. -/
def viewDriverEnter : Driver V := ⟨fun _ => 0, fun _ => none, 0, none⟩

/-- `view_show_list_head`. -/
def Driver.showList (s : Driver V) : List V :=
  match s.core with
  | none => []
  | some c => c.stack.list

end Calls

end View
end LightOS
