import LightOS.View.ViewLockBasic
import LightOS.View.ZOrder

/-!
# The locks of the views

A function that takes the locks free gives them back free, and does the work of the function without
locks: `View.displaySetZ`, `View.viewSetXy`.  The exception is `view_resize`, which calls
`view_set_xy` with the lock of the view.
-/

namespace LightOS
namespace ViewLock

open SpinLock View ZOrder

variable {V : Type}

theorem list_ne_global : (Lock.list : Lock V) ≠ .global := nofun

theorem view_ne_list (v : V) : Lock.view v ≠ .list := nofun

theorem view_ne_global (v : V) : Lock.view v ≠ .global := nofun

variable {m : Machine (Lock V) (Views V)} {v : V}

/-- The show list or the screen has changed. -/
def Views.show_ (s : Views V) (d : Display V) : Views V := { s with display := d }

/-- What a program returns that has drawn, or whose assertion has failed. -/
def shown (m : Machine (Lock V) (Views V)) :
    Option (Display V) → Except (Halt (Lock V)) (Unit × Machine (Lock V) (Views V))
  | none => .error .assertion
  | some d => .ok ((), m.put (m.store.show_ d))

/-- A view has come to its place and is drawn. -/
def drawPlaced (g : Screen V) (d : Display V) (v : V) (t : ZStack V × Option Refresh) : Display V :=
  match t.2 with
  | none => { d with stack := t.1 }
  | some f => View.viewRefresh g { d with stack := t.1 } (viewRect g d v) f.z0 f.z1

/-- What is on the show list when the view is linked in does not matter. -/
theorem shown_setStack (stack : ZStack V) (v : V) (t : Option (ZStack V × Option Refresh)) :
    shown (m.put (m.store.setStack stack))
    (t.map (drawPlaced m.store.screen (m.store.setStack stack).display v)) =
      shown m (t.map (drawPlaced m.store.screen m.store.display v)) := by
  cases t with
  | none => rfl
  | some t =>
      obtain ⟨stack', r⟩ := t
      cases r <;> rfl

/-- What a call returns that leaves the locks as they were. -/
def outcome (m : Machine (Lock V) (Views V)) :
    Option (Views V) → Except (Halt (Lock V)) (Unit × Machine (Lock V) (Views V))
  | none => .error .assertion
  | some s => .ok ((), m.put s)

theorem shown_eq (d : Option (Display V)) : shown m d = outcome m (d.map m.store.show_) := by
  cases d <;> rfl

/-- The show list is in order, and its views exist. -/
structure ViewsOk (s : Views V) : Prop where
  shown : ShowOk s.display.stack
  exist : ∀ v ∈ s.display.stack.list, v ∈ s.views

/-- What is drawn changes no order. -/
theorem ViewsOk.show_ {s : Views V} (h : ViewsOk s) {d : Display V}
    (hd : d.stack = s.display.stack) :
    ViewsOk (s.show_ d) := by
  refine ⟨?_, fun v hv => h.exist v ?_⟩
  · change ShowOk d.stack
    rw [hd]
    exact h.shown
  · rw [← hd]
    exact hv

theorem drawPlaced_stack (g : Screen V) (d : Display V) (v : V) (t : ZStack V × Option Refresh) :
    (drawPlaced g d v t).stack = t.1 := by
  obtain ⟨stack, r⟩ := t
  cases r <;> rfl

/-- What `view_refresh_from_bottom` and `view_refresh` do without locks: from `z0` on, if the view
is shown. -/
def refreshed (s : Views V) (v : V) (b : Block) (z0 : ℤ) : Display V :=
  if 0 ≤ s.display.stack.z v then
    View.viewRefresh s.screen s.display (onScreen s v b) z0 (s.display.stack.z v)
  else s.display

theorem refreshed_stack (s : Views V) (v : V) (b : Block) (z0 : ℤ) :
    (refreshed s v b z0).stack = s.display.stack := by
  rw [refreshed]
  split_ifs <;> rfl

variable [DecidableEq V]

theorem displaySetZ_eq (g : Screen V) (d : Display V) (v : V) (z : ℤ) :
    displaySetZ g d v z = (setZ d.stack v z).map (drawPlaced g d v) := rfl

/-! ## Refreshing -/

theorem viewRefreshMap_run (hlist : m.held .list = false) (r : Block) (z0 : ℤ) :
    viewRefreshMap r z0 m =
      .ok ((), m.put
        (m.store.show_ (View.viewRefreshMap m.store.screen m.store.display r z0))) := by
  rw [viewRefreshMap, spinLock_bind hlist, change_bind]
  change Except.ok ((), Machine.give _ _) = _
  rw [take_put, give_take (by exact hlist)]
  rfl

theorem viewRefreshByZ_run (hlist : m.held .list = false) (r : Block) (z0 z1 : ℤ) :
    viewRefreshByZ r z0 z1 m =
      .ok ((), m.put
        (m.store.show_ (View.viewRefreshByZ m.store.screen m.store.display r z0 z1))) := by
  rw [viewRefreshByZ, spinLock_bind hlist, change_bind]
  change Except.ok ((), Machine.give _ _) = _
  rw [take_put, give_take (by exact hlist)]
  rfl

/-- The two of them, as they always come. -/
theorem refresh_run (hlist : m.held .list = false) (r : Block) (z0 z1 : ℤ) :
    (do viewRefreshMap r z0; viewRefreshByZ r z0 z1 : ViewProg V Unit) m =
      .ok ((), m.put
        (m.store.show_ (View.viewRefresh m.store.screen m.store.display r z0 z1))) := by
  rw [bind_run (viewRefreshMap_run hlist r z0), viewRefreshByZ_run (by exact hlist)]
  rfl

theorem refreshView_run (hlist : m.held .list = false) (v : V) (z0 z1 : ℤ) :
    refreshView v z0 z1 m = .ok ((), m.put (m.store.show_
      (View.viewRefresh m.store.screen m.store.display (viewRect m.store.screen m.store.display v)
        z0 z1))) := by
  rw [refreshView, look_bind, refresh_run hlist]

/-! ## Order -/

/-- A program with the lock of the list links the view in, gives the lock back and refreshes. -/
theorem linkAndRefresh_run (hlist : m.held .list = false) (v : V) (stack : ZStack V) (z0 z1 : ℤ) :
    linkAndRefresh v stack z0 z1 (m.take .list) =
      shown m (some (drawPlaced m.store.screen m.store.display v (stack, some ⟨z0, z1⟩))) := by
  rw [linkAndRefresh, change_bind, spinUnlock_bind, take_put, give_take (by exact hlist),
    refreshView_run (by exact hlist)]
  rfl

/-- The view is linked in after the lock of all views has been given back. -/
theorem linkAndRefresh_unlock (hlist : m.held .list = false) (hglobal : m.held .global = false)
    (v : V) (stack stack' : ZStack V) (z0 z1 : ℤ) :
    linkAndRefresh v stack' z0 z1
    (((((m.take .global).take .list).put (m.store.setStack stack))).give .global) =
      shown m (some (drawPlaced m.store.screen m.store.display v (stack', some ⟨z0, z1⟩))) := by
  rw [← give_put, give_take_swap list_ne_global.symm hglobal, take_put,
    linkAndRefresh_run (by exact hlist)]
  exact shown_setStack stack v (some (stack', some ⟨z0, z1⟩))

theorem viewAdjustByZ_run (hlist : m.held .list = false) (hglobal : m.held .global = false) {z : ℤ}
    (hne : m.store.display.stack.z v ≠ z) :
    viewAdjustByZ v z m = shown m ((ZOrder.adjustByZ m.store.display.stack v z).map
      (drawPlaced m.store.screen m.store.display v)) := by
  have hlist' : (m.take .global).held .list = false := by
    rw [held_take_of_ne m list_ne_global]
    exact hlist
  unfold viewAdjustByZ ZOrder.adjustByZ
  rw [look_bind]
  generalize m.store.display.stack = stack at hne ⊢
  obtain ⟨z', hz'⟩ : ∃ z', z' = if stack.topZ < z then stack.topZ else z := ⟨_, rfl⟩
  simp only [← hz']
  rw [spinLock_bind hglobal, spinLock_bind hlist', change_bind]
  by_cases htop : z' = stack.topZ
  · rw [if_pos htop, if_pos htop, spinUnlock_bind]
    exact linkAndRefresh_unlock hlist hglobal v _ _ z' z'
  · rw [if_neg htop, if_neg htop, spinUnlock_bind]
    by_cases hup : stack.z v < z'
    · rw [if_pos hup, if_pos hup]
      cases (renumber (fun w => decide (stack.z v < w) && decide (w ≤ z')) z' (-1)
        (stack.list.erase v)
        (stack.z, none)).2 with
      | none => exact expect_bind_none _
      | some old =>
          rw [expect_bind_some]
          exact linkAndRefresh_unlock hlist hglobal v _ _ z' z'
    · rw [if_neg hup, if_neg hup]
      have hdown : z' < stack.z v := by
        split_ifs at hz' <;> omega
      rw [if_pos hdown, if_pos hdown]
      cases (renumber (fun w => decide (w < stack.z v) && decide (z' ≤ w)) z' 1 (stack.list.erase v)
        (stack.z, none)).2 with
      | none => exact expect_bind_none _
      | some old =>
          rw [expect_bind_some]
          exact linkAndRefresh_unlock hlist hglobal v _ _ (z' + 1) (stack.z v)

theorem viewHidenByZ_run (hlist : m.held .list = false) (v : V) :
    viewHidenByZ v m = shown m (some (drawPlaced m.store.screen m.store.display v
      (ZOrder.hidenByZ m.store.display.stack v))) := by
  rw [viewHidenByZ, look_bind, spinLock_bind hlist]
  exact linkAndRefresh_run hlist v _ 0 _

theorem viewShowByZ_run (hlist : m.held .list = false) (hglobal : m.held .global = false) (v : V)
    (z : ℤ) :
    viewShowByZ v z m = shown m ((ZOrder.showByZ m.store.display.stack v z).map
      (drawPlaced m.store.screen m.store.display v)) := by
  have hlist' : (m.take .global).held .list = false := by
    rw [held_take_of_ne m list_ne_global]
    exact hlist
  unfold viewShowByZ ZOrder.showByZ
  rw [spinLock_bind hglobal, look_bind, store_take]
  generalize m.store.display.stack = stack
  obtain ⟨z', hz'⟩ : ∃ z', z' = if stack.topZ < z then stack.topZ + 1 else z := ⟨_, rfl⟩
  simp only [← hz']
  rw [change_bind, take_put, spinLock_bind (by exact hlist')]
  by_cases htop : z' = stack.topZ + 1
  · rw [if_pos htop, if_pos htop, spinUnlock_bind]
    exact linkAndRefresh_unlock hlist hglobal v _ _ z' z'
  · rw [if_neg htop, if_neg htop, spinUnlock_bind]
    cases stack.list.find? fun tmp => decide (stack.z tmp = z') with
    | none => exact expect_bind_none _
    | some old =>
        rw [expect_bind_some]
        exact linkAndRefresh_unlock hlist hglobal v _ _ z' z'

theorem setZLocked_run (hlist : m.held .list = false) (hglobal : m.held .global = false) {z : ℤ}
    (hne : m.store.display.stack.z v ≠ z) :
    setZLocked v z m = shown m (displaySetZ m.store.screen m.store.display v z) := by
  rw [setZLocked, spinLock_bind hlist, look_bind, store_take, displaySetZ_eq, setZ, if_neg hne]
  by_cases hmem : v ∈ m.store.display.stack.list
  · rw [if_pos hmem, if_pos hmem, spinUnlock_bind, give_take hlist]
    by_cases hz : 0 ≤ z
    · rw [if_pos hz, if_pos hz, viewAdjustByZ_run hlist hglobal hne]
    · rw [if_neg hz, if_neg hz, viewHidenByZ_run hlist]
      rfl
  · rw [if_neg hmem, if_neg hmem, spinUnlock_bind, give_take hlist]
    by_cases hz : 0 ≤ z
    · rw [if_pos hz, if_pos hz, viewShowByZ_run hlist hglobal]
    · rw [if_neg hz, if_neg hz]
      rfl

/-- A program runs with a lock that is taken before and given back after it. -/
theorem locked_run {l : Lock V} (hfree : m.held l = false) {p : ViewProg V Unit}
    {d : Option (Display V)} (hp : p (m.take l) = shown (m.take l) d) :
    (do spinLock l; p; spinUnlock l : ViewProg V Unit) m = shown m d := by
  rw [spinLock_bind hfree]
  cases d with
  | none => exact bind_halt hp _
  | some d =>
      rw [bind_run hp]
      change Except.ok ((), Machine.give _ _) = _
      rw [take_put, give_take (by exact hfree)]
      rfl

/-- A view's lock is none of the others. -/
theorem free_of_clear (hclear : m.Clear) (v : V) :
    (m.take (.view v)).held .list = false ∧ (m.take (.view v)).held .global = false := by
  rw [held_take_of_ne m (view_ne_list v).symm, held_take_of_ne m (view_ne_global v).symm]
  exact ⟨hclear _, hclear _⟩

/-- **`view_set_z` is what it is without locks**, and gives all locks back. -/
theorem viewSetZ_run (hclear : m.Clear) (v : V) (z : ℤ) :
    viewSetZ v z m = shown m (displaySetZ m.store.screen m.store.display v z) := by
  rw [viewSetZ, look_bind]
  by_cases hz : m.store.display.stack.z v = z
  · rw [if_pos hz, displaySetZ_eq, setZ, if_pos hz]
    rfl
  · obtain ⟨hlist, hglobal⟩ := free_of_clear hclear v
    rw [if_neg hz, locked_run (hclear _) (setZLocked_run hlist hglobal hz)]
    rfl

/-! ## Place, size and contents -/

theorem setXyLocked_run (hlist : m.held .list = false) (v : V) (x y : ℤ) :
    setXyLocked v x y m = shown m (some (View.viewSetXy m.store.screen m.store.display v x y)) := by
  rw [setXyLocked, look_bind, change_bind, View.viewSetXy]
  by_cases hz : 0 ≤ m.store.display.stack.z v
  · rw [if_pos hz, if_pos hz, refresh_run (by exact hlist)]
    rfl
  · rw [if_neg hz, if_neg hz]
    rfl

theorem viewSetXy_run (hclear : m.Clear) (v : V) (x y : ℤ) :
    viewSetXy (some v) x y m =
      .ok (0, m.put (m.store.show_ (View.viewSetXy m.store.screen m.store.display v x y))) := by
  rw [viewSetXy, spinLock_bind (hclear _), bind_run
    (setXyLocked_run (free_of_clear hclear v).1 v x y),
    spinUnlock_bind, take_put, give_take (by exact hclear _)]
  rfl

/-- A view whose lock is taken cannot be moved. -/
theorem viewSetXy_deadlock (hheld : m.held (.view v) = true) (x y : ℤ) :
    viewSetXy (some v) x y m = .error (.deadlock (.view v)) := by
  rw [viewSetXy, bind_halt (spinLock_deadlock hheld)]

/-- **`view_resize` waits for the lock that it has taken.** -/
theorem viewResize_deadlock (hclear : m.Clear) {x y : ℤ} {width height : BitVec 32} {created : Bool}
    (h : (ViewsCall.resize (some v) x y width height created).Resizes m.store) :
    viewResize (some v) x y width height created m = .error (.deadlock (.view v)) := by
  obtain ⟨⟨hwidth, hheight⟩, hsection, rfl⟩ := h
  rw [viewResize, look_bind, if_neg (not_or.2 ⟨hwidth, hheight⟩), if_neg (by simp [hsection]),
    if_neg nofun, spinLock_bind (hclear _), change_bind, take_put]
  exact bind_halt (viewSetXy_deadlock (held_take_self _ _) x y) _

theorem viewResize_refused {view : Option V} {x y : ℤ} {width height : BitVec 32} {created : Bool}
    (h : ¬(ViewsCall.resize view x y width height created).Resizes m.store) :
    viewResize view x y width height created m = .ok (-1, m) := by
  cases view with
  | none => rfl
  | some v =>
      rw [viewResize, look_bind]
      by_cases hsize : width = 0 ∨ height = 0
      · rw [if_pos hsize]
        rfl
      · rw [if_neg hsize]
        by_cases hsection : m.store.hasSection v = false
        · rw [if_pos hsection]
          rfl
        · rw [if_neg hsection]
          cases created with
          | false => rfl
          | true => exact absurd ⟨not_or.1 hsize, eq_true_of_ne_false hsection, rfl⟩ h

theorem viewRefresh_run (hlist : m.held .list = false) (v : V) (b : Block) :
    viewRefresh v b m = shown m (some (refreshed m.store v b (m.store.display.stack.z v))) := by
  rw [viewRefresh, look_bind, refreshed]
  by_cases hz : 0 ≤ m.store.display.stack.z v
  · rw [if_pos hz, if_pos hz, refresh_run hlist]
    rfl
  · rw [if_neg hz, if_neg hz]
    rfl

theorem refreshLocked_run (hlist : m.held .list = false) (v : V) (b : Block) :
    refreshLocked v b m = shown m (some (refreshed m.store v b 0)) := by
  rw [refreshLocked, look_bind, refreshed]
  by_cases hz : 0 ≤ m.store.display.stack.z v
  · rw [if_pos hz, if_pos hz, refresh_run hlist]
    rfl
  · rw [if_neg hz, if_neg hz]
    rfl

/-! ## Views come, go and are looked for -/

/-- The new view, and what it changes. -/
def created (s : Views V) (v : V) (x y width height : ℤ) : Views V :=
  let size := viewMaxSizeRepair width height
  let s := placeView v x y s
  let s := sizeView v size { s with id := Function.update s.id v s.nextId, nextId := s.nextId + 1 }
  fillView v size viewWhite { s with views := v :: s.views }

theorem viewCreate_run (hclear : m.Clear) (x y width height : ℤ) (memory : Alloc V) (built : Bool) :
    viewCreate x y width height memory built m =
      match if built then memory.answer m.store.views else none with
      | none => .ok (none, m)
      | some v => .ok (some v, m.put (created m.store v x y width height)) := by
  rw [viewCreate, look_bind]
  cases (if built then memory.answer m.store.views else none) with
  | none => rfl
  | some v =>
      simp only
      rw [change_bind, lock_change_bind (by exact hclear _), change_bind,
        lock_change_bind (by exact hclear _),
        spinUnlock_bind, give_free (by exact hclear _), change_bind]
      rfl

theorem findLoop_run (hglobal : m.held .global = false) (s : Views V) (id : ℤ) (l : List V) :
    findLoop s id l (m.take .global) = .ok (l.find? fun view => s.id view = id, m) := by
  induction l with
  | nil =>
      rw [findLoop, spinUnlock_bind, give_take hglobal]
      rfl
  | cons view l ih =>
      by_cases hid : s.id view = id
      · rw [findLoop, if_pos hid, spinUnlock_bind, give_take hglobal,
          List.find?_cons_of_pos (by simpa using hid)]
        rfl
      · rw [findLoop, if_neg hid, ih, List.find?_cons_of_neg (by simpa using hid)]

theorem viewFindById_run (hclear : m.Clear) (id : ℤ) :
    viewFindById id m = .ok (m.store.views.find? fun view => m.store.id view = id, m) := by
  rw [viewFindById, spinLock_bind (hclear _), look_bind]
  exact findLoop_run (hclear _) m.store id m.store.views

theorem viewGetTop_run (hclear : m.Clear) :
    viewGetTop m = .ok (m.store.display.stack.list.getLast?, m) := by
  rw [viewGetTop, spinLock_bind (hclear _), look_bind, spinUnlock_bind, give_take (hclear _)]
  rfl

/-- What `view_destroy` leaves. -/
def destroyed (s : Views V) (v : V) (emptied closed : Bool) : Views V :=
  let s := { s with lastX := s.display.x v, lastY := s.display.y v }
  if emptied = false then s
  else if (s.hasSection v && closed) = false then s
  else
    { s.setStack { s.display.stack with list := s.display.stack.list.erase v } with
      views := s.views.erase v }

theorem viewDestroy_run (hclear : m.Clear) (v : V) (emptied closed : Bool) :
    ∃ r, viewDestroy (some v) emptied closed m =
      .ok (r, m.put (destroyed m.store v emptied closed)) := by
  rw [viewDestroy, look_bind, change_bind, destroyed]
  cases emptied with
  | false => exact ⟨-1, rfl⟩
  | true =>
      rw [if_neg (Bool.false_ne_true ∘ Eq.symm), if_neg (Bool.false_ne_true ∘ Eq.symm)]
      by_cases hclosed : (m.store.hasSection v && closed) = false
      · refine ⟨-1, ?_⟩
        rw [if_pos hclosed, if_pos (by exact hclosed)]
        rfl
      · refine ⟨0, ?_⟩
        rw [if_neg hclosed, if_neg (by exact hclosed), lock_change_bind (by exact hclear _),
          lock_change_bind (by exact hclear _)]
        rfl

/-! ## Calls -/

/-- What a call does without locks; `none` is an assertion that fails. -/
def ViewsCall.effect (s : Views V) : ViewsCall V → Option (Views V)
  | .create x y width height memory built =>
      match if built then memory.answer s.views else none with
      | none => some s
      | some v => some (created s v x y width height)
  | .setZ v z => (displaySetZ s.screen s.display v z).map s.show_
  | .setXy none _ _ => some s
  | .setXy (some v) x y => some (s.show_ (View.viewSetXy s.screen s.display v x y))
  | .resize .. => some s
  | .refresh v b => some (s.show_ (refreshed s v b (s.display.stack.z v)))
  | .refreshFromBottom v b => some (s.show_ (refreshed s v b 0))
  | .findById _ => some s
  | .getTop => some s
  | .destroy none _ _ => some s
  | .destroy (some v) emptied closed => some (destroyed s v emptied closed)

/-- **A call with all locks free is the call without locks**, unless it is a resize that gets past
its checks. -/
theorem call_run (hclear : m.Clear) {call : ViewsCall V} (hcall : ¬call.Resizes m.store) :
    call.prog m = outcome m (call.effect m.store) := by
  cases call with
  | create x y width height memory built =>
      have hrun := viewCreate_run hclear x y width height memory built
      rw [ViewsCall.effect]
      cases hblock : (if built then memory.answer m.store.views else none) with
      | none =>
          rw [hblock] at hrun
          exact bind_run hrun _
      | some v =>
          rw [hblock] at hrun
          exact bind_run hrun _
  | setZ v z =>
      rw [ViewsCall.effect, ← shown_eq]
      exact viewSetZ_run hclear v z
  | setXy view x y =>
      cases view with
      | none => rfl
      | some v => exact bind_run (viewSetXy_run hclear v x y) _
  | resize view x y width height created => exact bind_run (viewResize_refused hcall) _
  | refresh v b => exact viewRefresh_run (hclear _) v b
  | refreshFromBottom v b =>
      exact locked_run (hclear _) (refreshLocked_run (free_of_clear hclear v).1 v b)
  | findById id => exact bind_run (viewFindById_run hclear id) _
  | getTop => exact bind_run (viewGetTop_run hclear) _
  | destroy view emptied closed =>
      cases view with
      | none => rfl
      | some v =>
          obtain ⟨r, hr⟩ := viewDestroy_run hclear v emptied closed
          exact bind_run hr _

/-- A resize that gets past its checks never returns. -/
theorem call_deadlock (hclear : m.Clear) {call : ViewsCall V} (hcall : call.Resizes m.store) :
    ∃ v, call.prog m = .error (.deadlock (.view v)) := by
  cases call with
  | resize view x y width height created =>
      cases view with
      | none => exact hcall.elim
      | some v => exact ⟨v, bind_halt (viewResize_deadlock hclear hcall) _⟩
  | create | setZ | setXy | refresh | refreshFromBottom | findById | getTop | destroy =>
      exact hcall.elim

/-- A call returns with all locks free. -/
theorem clear_step (m : Machine (Lock V) (Views V)) (call : ViewsCall V)
    (m' : Machine (Lock V) (Views V))
    (hclear : m.Clear) (hstep : viewsStep m call = some m') : m'.Clear := by
  rw [viewsStep] at hstep
  by_cases hcall : call.Resizes m.store
  · obtain ⟨v, hv⟩ := call_deadlock hclear hcall
    rw [hv] at hstep
    cases hstep
  · rw [call_run hclear hcall] at hstep
    cases heffect : call.effect m.store with
    | none =>
        rw [heffect] at hstep
        cases hstep
    | some s =>
        rw [heffect] at hstep
        cases hstep
        exact hclear

/-- **No lock is taken twice, and all are given back**, in whatever state a run of calls has come
to and whatever the call, but for a resize that gets past its checks. -/
theorem views_lock_once (screen : Screen V) (x y : V → ℤ) (idMap : ℤ → BitVec 16)
    (vram : ℤ → BitVec 32)
    (id : V → ℤ) (calls : List (ViewsCall V)) (m : Machine (Lock V) (Views V))
    (hrun : Run.exec viewsStep (noViews screen x y idMap vram id) calls = some m)
    (call : ViewsCall V) :
    m.Clear ∧ (NoDeadlock (call.prog m) ∧ ReturnsClear (call.prog m) ↔ ¬call.Resizes m.store) := by
  have hclear : m.Clear := Run.exec_keeps clear_step calls _ m (fun _ => rfl) hrun
  refine ⟨hclear, fun h hcall => ?_, fun hcall => ?_⟩
  · obtain ⟨v, hv⟩ := call_deadlock hclear hcall
    rw [hv] at h
    exact h.1
  · rw [call_run hclear hcall]
    cases call.effect m.store with
    | none => exact ⟨trivial, trivial⟩
    | some s => exact ⟨trivial, hclear⟩

/-! ## Calls return -/

/-- A view that is placed exists, and one that is destroyed is hidden. -/
def ViewsCall.OnLive (s : Views V) : ViewsCall V → Prop
  | .setZ v _ => v ∈ s.views
  | .destroy (some v) _ _ => v ∉ s.display.stack.list
  | _ => True

theorem ViewsOk.setZ {s : Views V} (h : ViewsOk s) {v : V} (hv : v ∈ s.views) (z : ℤ) :
    ∃ d, displaySetZ s.screen s.display v z = some d ∧ ViewsOk (s.show_ d) := by
  obtain ⟨t, r, hres, hcases⟩ := setZ_spec h.shown.ordered (h.shown.out v) z
  refine ⟨drawPlaced s.screen s.display v (t, r), by rw [displaySetZ_eq, hres]; rfl, ?_⟩
  have hstack := drawPlaced_stack s.screen s.display v (t, r)
  rcases hcases with ⟨rfl, -, -⟩ | hplaced
  · exact h.show_ hstack
  · refine ⟨?_, fun w hw => ?_⟩
    · change ShowOk (drawPlaced s.screen s.display v (t, r)).stack
      rw [hstack]
      exact h.shown.placed hplaced
    · change w ∈ (drawPlaced s.screen s.display v (t, r)).stack.list at hw
      rw [hstack] at hw
      by_cases hwv : w = v
      · exact hwv ▸ hv
      · exact h.exist w ((hplaced.mem_iff h.shown.ordered hwv).1 hw)

theorem ViewsOk.created {s : Views V} (h : ViewsOk s) {v : V} (hfresh : v ∉ s.views)
    (x y width height : ℤ) :
    ViewsOk (created s v x y width height) := by
  have hout : v ∉ s.display.stack.list := fun hmem => hfresh (h.exist v hmem)
  have hsame : ∀ w ∈ s.display.stack.list, Function.update s.display.stack.z v (-1) w =
    s.display.stack.z w :=
    fun w hw => Function.update_of_ne (ne_of_mem_of_not_mem hw hout) _ _
  refine ⟨⟨⟨fun i hi => ?_, h.shown.ordered.top⟩, fun w hw => ?_⟩,
    fun w hw => List.mem_cons_of_mem v (h.exist w hw)⟩
  · exact (hsame _ (List.getElem_mem _)).trans (h.shown.ordered.index i hi)
  · change Function.update s.display.stack.z v (-1) w = -1
    by_cases hwv : w = v
    · rw [hwv, Function.update_self]
    · rw [Function.update_of_ne hwv, h.shown.out w hw]

theorem ViewsOk.destroyed {s : Views V} (h : ViewsOk s) {v : V} (hout : v ∉ s.display.stack.list)
    (emptied closed : Bool) : ViewsOk (destroyed s v emptied closed) := by
  rw [ViewLock.destroyed]
  by_cases hemptied : emptied = false
  · rw [if_pos hemptied]
    exact ⟨h.shown, h.exist⟩
  · rw [if_neg hemptied]
    by_cases hclosed : (s.hasSection v && closed) = false
    · rw [if_pos (by exact hclosed)]
      exact ⟨h.shown, h.exist⟩
    · rw [if_neg (by exact hclosed)]
      have hsame : s.display.stack.list.erase v = s.display.stack.list := List.erase_of_not_mem hout
      refine ⟨?_, fun w hw => ?_⟩
      · change ShowOk { s.display.stack with list := s.display.stack.list.erase v }
        rw [hsame]
        exact h.shown
      · have hmem : w ∈ s.display.stack.list := List.mem_of_mem_erase hw
        exact (List.mem_erase_of_ne (ne_of_mem_of_not_mem hmem hout)).2 (h.exist w hmem)

theorem viewSetXy_stack (g : Screen V) (d : Display V) (v : V) (x y : ℤ) :
    (View.viewSetXy g d v x y).stack = d.stack := by
  rw [View.viewSetXy]
  split_ifs <;> rfl

theorem ViewsOk.effect {s : Views V} (h : ViewsOk s) {call : ViewsCall V} (hlive : call.OnLive s) :
    ∃ t, call.effect s = some t ∧ ViewsOk t := by
  cases call with
  | create x y width height memory built =>
      rw [ViewsCall.effect]
      cases hblock : (if built then memory.answer s.views else none) with
      | none => exact ⟨s, rfl, h⟩
      | some v =>
          have hanswer : memory.answer s.views = some v := by
            cases built with
            | false => cases hblock
            | true => exact hblock
          exact ⟨_, rfl, h.created (memory.fresh _ _ hanswer) x y width height⟩
  | setZ v z =>
      obtain ⟨d, hd, hok⟩ := h.setZ hlive z
      exact ⟨s.show_ d, by rw [ViewsCall.effect, hd]; rfl, hok⟩
  | setXy view x y =>
      cases view with
      | none => exact ⟨s, rfl, h⟩
      | some v => exact ⟨_, rfl, h.show_ (viewSetXy_stack _ _ v x y)⟩
  | resize view x y width height created => exact ⟨s, rfl, h⟩
  | refresh v b => exact ⟨_, rfl, h.show_ (refreshed_stack s v b _)⟩
  | refreshFromBottom v b => exact ⟨_, rfl, h.show_ (refreshed_stack s v b 0)⟩
  | findById id => exact ⟨s, rfl, h⟩
  | getTop => exact ⟨s, rfl, h⟩
  | destroy view emptied closed =>
      cases view with
      | none => exact ⟨s, rfl, h⟩
      | some v => exact ⟨_, rfl, h.destroyed hlive emptied closed⟩

/-- **Every call returns**, in every run in which no view is resized and only views that are hidden
are destroyed. -/
theorem views_return (screen : Screen V) (x y : V → ℤ) (idMap : ℤ → BitVec 16)
    (vram : ℤ → BitVec 32) (id : V → ℤ) (calls : List (ViewsCall V))
    (hcalls : Run.Along viewsStep (fun m call => call.OnLive m.store ∧ ¬call.Resizes m.store)
      (noViews screen x y idMap vram id) calls) :
    ∃ m, Run.exec viewsStep (noViews screen x y idMap vram id) calls = some m ∧ m.Clear ∧
      ViewsOk m.store := by
  refine Run.exec_total 
    (P := fun (m : Machine (Lock V) (Views V)) (call : ViewsCall V) =>
      call.OnLive m.store ∧ ¬call.Resizes m.store)
    (I := fun m => m.Clear ∧ ViewsOk m.store) (fun m call h hcall => ?_) calls _
    ⟨fun _ => rfl, ⟨showOk_empty, fun v hv => nomatch (hv : v ∈ ([] : List V))⟩⟩ hcalls
  obtain ⟨s, hs, hok⟩ := h.2.effect hcall.1
  refine ⟨m.put s, ?_, h.1, hok⟩
  rw [viewsStep, call_run h.1 hcall.2, hs]
  rfl

/-! ## Two views -/

/-- A screen of three pixels. -/
def threePixels : Machine (Lock ℕ) (Views ℕ) :=
  noViews ⟨3, 1, fun _ => 0, fun _ => 0, fun _ _ => 0⟩ (fun _ => 0) (fun _ => 0) (fun _ => 0)
    (fun _ => 0) fun _ => 0

theorem views_return_created :
    ∃ m, Run.exec viewsStep threePixels [.create 0 0 2 1 (.only 0) true] = some m ∧ m.Clear ∧
      ViewsOk m.store :=
  views_return _ _ _ _ _ _ _ ⟨⟨trivial, id⟩, fun _ _ => trivial⟩

/-- Two views are shown, moved below one another, looked for and refreshed, and one is destroyed. -/
def twoViewsRun : List (ViewsCall ℕ) :=
  [.create 0 0 2 1 (.only 0) true, .create 1 0 2 1 (.only 1) true, .setZ 0 0, .setZ 1 7, .setZ 0 5,
    .setZ 0 0,
    .setXy (some 1) 0 0, .resize (some 1) 0 0 0 1 true, .findById 1, .getTop,
    .refreshFromBottom 1 ⟨0, 0, 2, 1⟩,
    .refresh 0 ⟨0, 0, 1, 1⟩, .setZ 1 (-1), .destroy (some 1) true true]

theorem views_lock_once_two :
    ∃ m, Run.exec viewsStep threePixels twoViewsRun = some m ∧ m.Clear ∧
      (NoDeadlock ((ViewsCall.setZ 0 0).prog m) ∧ ReturnsClear ((ViewsCall.setZ 0 0).prog m) ↔
        ¬(ViewsCall.setZ 0 0).Resizes m.store) := by
  have hsome : (Run.exec viewsStep threePixels twoViewsRun).isSome = true := by decide +kernel
  obtain ⟨m, hm⟩ := Option.isSome_iff_exists.1 hsome
  exact ⟨m, hm, views_lock_once _ _ _ _ _ _ twoViewsRun m hm (.setZ 0 0)⟩

/-- **A view that has just been created is resized**, and the call waits for the lock it has taken.
-/
theorem resize_takes_twice :
    ∃ m, Run.exec viewsStep threePixels [.create 0 0 2 1 (.only 0) true] = some m ∧
      ¬NoDeadlock ((ViewsCall.resize (some 0) 0 0 3 1 true).prog m) := by
  have hwrong : (Run.exec viewsStep threePixels [.create 0 0 2 1 (.only 0) true]).any (fun m =>
      decide ¬NoDeadlock ((ViewsCall.resize (some 0) 0 0 3 1 true).prog m)) = true := by
    decide +kernel
  obtain ⟨m, hm, hdeadlock⟩ := (Option.any_eq_true _ _).1 hwrong
  exact ⟨m, hm, of_decide_eq_true hdeadlock⟩

end ViewLock
end LightOS
