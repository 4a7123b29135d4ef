import LightOS.View.PointerBasic
import LightOS.View.ZOrder

/-!
# The pointer stays on top

No function of the driver asks where the pointer is, apart from `view_env_try_activate` and the
shade.  Each gives a number that is at most the number of the pointer, to a view that is not the
pointer.

* `setViewZ_keeps` — the rule for `view_set_z`.
* `viewShow_spec` — a view that is shown comes right below the pointer.
* `viewEnvTryActivate_keeps` … `viewDispatchMouseMsg_keeps` — the environment.
* `viewStep_spec` — every call of the driver; while no device is open there is no core.
* `pointer_on_top` — the runs.
-/

namespace LightOS
namespace View

open ZOrder Stacking

variable {V : Type}

/-! ## The invariant -/

/-- The pointer is on top, what is shown exists, and the shade is another view. -/
structure PointerOk (stack : ZStack V) (views : List V) (type : V → ℕ) (mouse shade middle : V) :
    Prop where
  shown : ShowOk stack
  last : ∃ l, stack.list = l ++ [mouse]
  created : ∀ v ∈ stack.list, v ∈ views
  fixed : type mouse = viewTypeFixed
  shade : shade ∈ views ∧ shade ≠ mouse
  middle : middle = mouse

/-- **The core is in order.**  The pointers to active and hovered views do not matter. -/
def CoreOk (c : Core V) : Prop := PointerOk c.stack c.views c.type c.mouse c.shade c.middle

variable {c c' : Core V} {v : V} {z : ℤ} {r : Option (Core V)} {f : Core V → Option (Core V)}

/-- The views are the same. -/
def Same (c c' : Core V) : Prop := c'.mouse = c.mouse ∧ c'.shade = c.shade ∧ c'.views = c.views

theorem Same.rfl : Same c c := ⟨.refl _, .refl _, .refl _⟩

theorem Same.trans {c'' : Core V} (h : Same c c') (h' : Same c' c'') : Same c c'' :=
  ⟨h'.1.trans h.1, h'.2.1.trans h.2.1, h'.2.2.trans h.2.2⟩

/-- A function that succeeds and leaves the core in order, with the same views. -/
def Keeps (c : Core V) (r : Option (Core V)) : Prop := ∃ c', r = some c' ∧ CoreOk c' ∧ Same c c'

theorem Keeps.bind (h : Keeps c r) (hf : ∀ c', CoreOk c' → Same c c' → Keeps c' (f c')) :
    Keeps c (r.bind f) := by
  obtain ⟨c₁, rfl, hc₁, hsame₁⟩ := h
  obtain ⟨c₂, hres, hc₂, hsame₂⟩ := hf c₁ hc₁ hsame₁
  exact ⟨c₂, hres, hc₂, hsame₁.trans hsame₂⟩

/-- A view of a client. -/
structure Client (c : Core V) (v : V) : Prop where
  created : v ∈ c.views
  ne_mouse : v ≠ c.mouse
  ne_shade : v ≠ c.shade

theorem Client.same (h : Client c v) (hsame : Same c c') : Client c' v :=
  by
  obtain ⟨hmouse, hshade, hviews⟩ := hsame
  exact ⟨hviews ▸ h.created, hmouse ▸ h.ne_mouse, hshade ▸ h.ne_shade⟩

/-- The top is the number of the pointer. -/
theorem CoreOk.top (h : CoreOk c) {l : List V} (hl : c.stack.list = l ++ [c.mouse]) :
    c.stack.z c.mouse = l.length ∧ c.stack.topZ = l.length := by
  refine ⟨h.shown.ordered.z_eq hl, ?_⟩
  rw [h.shown.ordered.top, hl, List.length_append, List.length_singleton]
  push_cast
  ring

theorem CoreOk.top_eq (h : CoreOk c) : c.stack.z c.mouse = c.stack.topZ := by
  obtain ⟨l, hl⟩ := h.last
  obtain ⟨hz, htop⟩ := h.top hl
  rw [hz, htop]

theorem CoreOk.z_lt (h : CoreOk c) (hv : v ≠ c.mouse) : c.stack.z v < c.stack.topZ := by
  obtain ⟨l, hl⟩ := h.last
  have htop := (h.top hl).2
  by_cases hmem : v ∈ c.stack.list
  · rw [hl, List.mem_append, List.mem_singleton, or_iff_left hv] at hmem
    obtain ⟨hbelow, -⟩ := numbered_append.1 (hl ▸ h.shown.ordered.numbered)
    have hlt := (hbelow.mem hmem).2
    omega
  · rw [h.shown.out v hmem]
    omega

variable [DecidableEq V]

/-! ## Moving a view -/

/-- What is above the other views and below the pointer. -/
theorem CoreOk.length_erase (h : CoreOk c) (hv : v ≠ c.mouse) {l : List V}
    (hl : c.stack.list = l ++ [c.mouse]) :
    ((l.erase v).length : ℤ) = if c.stack.z v < 0 then c.stack.topZ else c.stack.topZ - 1 := by
  have htop := (h.top hl).2
  have hnum := h.shown.ordered.numbered
  rw [hl] at hnum
  by_cases hmem : v ∈ l
  · have hpos := ((numbered_append.1 hnum).1.mem hmem).1
    have hlen := List.length_pos_of_mem hmem
    rw [if_neg (by omega), List.length_erase_of_mem hmem, htop]
    omega
  · have hout : v ∉ c.stack.list := by
      rw [hl, List.mem_append, List.mem_singleton, not_or]
      exact ⟨hmem, hv⟩
    rw [List.erase_of_not_mem hmem, h.shown.out v hout, if_pos (by norm_num), htop]

/-- **The rule for `view_set_z`.**  A view that is not the pointer stays below it, and with the
greatest number it can get it is right below it. -/
theorem setViewZ_spec (h : CoreOk c) (hmem : v ∈ c.views) (hv : v ≠ c.mouse)
    (hz : z ≤ if c.stack.z v < 0 then c.stack.topZ else c.stack.topZ - 1) :
    ∃ t, setViewZ c v z = some { c with stack := t } ∧ CoreOk { c with stack := t } ∧
      t.list = place c.stack.list v z ∧
      ((z = if c.stack.z v < 0 then c.stack.topZ else c.stack.topZ - 1) →
        ∃ l, t.list = l ++ [v, c.mouse]) := by
  obtain ⟨t, hres, ht, hlist⟩ := viewSetZ_spec h.shown (v, z)
  obtain ⟨l, hl⟩ := h.last
  rw [← h.length_erase hv hl] at hz ⊢
  obtain ⟨l', hl', htop⟩ := place_concat hv hz
  have hnew : t.list = l' ++ [c.mouse] := by rw [hlist, hl, hl']
  have hcreated : ∀ w ∈ t.list, w ∈ c.views := by
    intro w hw
    rw [hlist] at hw
    rcases mem_of_mem_place hw with rfl | hw
    · exact hmem
    · exact h.created w hw
  refine ⟨t, by rw [setViewZ, hres, Option.map_some],
    ⟨ht, ⟨l', hnew⟩, hcreated, h.fixed, h.shade, h.middle⟩, hlist, fun hat => ⟨l.erase v, ?_⟩⟩
  rw [hnew, htop hat, List.append_assoc, List.singleton_append]

/-- `view_hide`: the view is not shown. -/
theorem viewHide_spec (h : CoreOk c) (hmem : v ∈ c.views) (hv : v ≠ c.mouse) :
    ∃ t, viewHide c v = some { c with stack := t } ∧ CoreOk { c with stack := t } ∧
      t.list = c.stack.list.erase v := by
  have hlow : (-1 : ℤ) < c.stack.topZ := by
    obtain ⟨l, hl⟩ := h.last
    have htop := (h.top hl).2
    omega
  obtain ⟨t, hres, ht, hlist, -⟩ := setViewZ_spec (z := -1) h hmem hv (by split_ifs <;> omega)
  rw [place_neg (by norm_num)] at hlist
  exact ⟨t, hres, ht, hlist⟩

/-- **`view_show`**: the view is right below the pointer. -/
theorem viewShow_spec (h : CoreOk c) (hmem : v ∈ c.views) (hv : v ≠ c.mouse) :
    ∃ t l, viewShow c v = some { c with stack := t } ∧ CoreOk { c with stack := t } ∧
      t.list = l ++ [v, c.mouse] := by
  obtain ⟨t, hres, ht, -, htop⟩ := setViewZ_spec h hmem hv le_rfl
  obtain ⟨l, hl⟩ := htop rfl
  refine ⟨t, l, ?_, ht, hl⟩
  rw [← hres, viewShow]
  split_ifs <;> rfl

/-! ## The environment -/

/-- `view_env_try_activate`. -/
theorem viewEnvTryActivate_keeps (h : CoreOk c) {view : Option V}
    (hview : ∀ v ∈ view, v ∈ c.views) :
    Keeps c (viewEnvTryActivate c view) := by
  unfold viewEnvTryActivate
  split_ifs with hsame
  · exact ⟨c, rfl, h, .rfl⟩
  · cases view with
    | none => exact ⟨{ c with activity := none }, rfl, h, .rfl⟩
    | some v =>
        dsimp only
        have hc : CoreOk { c with activity := some v } := h
        by_cases htype : c.type v = viewTypeWindow
        · have hv : v ≠ c.mouse := by
            rintro rfl
            rw [h.fixed] at htype
            cases htype
          have htop := h.top_eq
          obtain ⟨t, hres, ht, -⟩ :=
            setViewZ_spec (z := c.stack.z c.middle - 1) hc (hview v rfl) hv (by
            rw [h.middle, htop]
            dsimp only
            split_ifs <;> omega)
          rw [if_pos htype]
          exact ⟨_, hres, ht, .rfl⟩
        · rw [if_neg htype]
          exact ⟨{ c with activity := some v }, rfl, h, .rfl⟩

omit [DecidableEq V] in
/-- The number of the view right below the pointer. -/
theorem CoreOk.below_pointer (h : CoreOk c) {l : List V} (hl : c.stack.list = l ++ [v, c.mouse]) :
    c.stack.z v = c.stack.z c.middle - 1 := by
  have hlast : c.stack.list = (l ++ [v]) ++ [c.mouse] := by
    rw [hl, List.append_assoc, List.singleton_append]
  rw [h.middle, h.shown.ordered.z_eq hl, h.shown.ordered.z_eq hlast, List.length_append,
    List.length_singleton]
  push_cast
  ring

/-- A view right below the pointer is not moved when it becomes active. -/
theorem viewEnvTryActivate_top (h : CoreOk c) {l : List V} (hl : c.stack.list = l ++ [v, c.mouse]) :
    ∃ c', viewEnvTryActivate c (some v) = some c' ∧ CoreOk c' ∧ Same c c' ∧ c'.stack = c.stack := by
  have hnot : viewSetZ c.stack (v, c.stack.z c.middle - 1) = some c.stack := by
    rw [viewSetZ, setZ, if_pos (h.below_pointer hl), Option.map_some]
  rw [viewEnvTryActivate]
  split_ifs
  · exact ⟨c, rfl, h, .rfl, rfl⟩
  · refine ⟨{ c with activity := some v }, ?_, h, .rfl, rfl⟩
    simp only [viewMoveUnderView, setViewZ, hnot, Option.map_some]
  · exact ⟨{ c with activity := some v }, rfl, h, .rfl, rfl⟩

/-- The shade is hidden. -/
theorem hideShade_keeps (h : CoreOk c) : Keeps c (hideShade c) := by
  obtain ⟨t, hres, ht, -⟩ := viewHide_spec h h.shade.1 h.shade.2
  exact ⟨_, hres, ht, .rfl⟩

/-- The shade is shown right below the pointer. -/
theorem showShade_keeps (h : CoreOk c) : Keeps c (showShade c) := by
  unfold showShade
  split_ifs with hhidden
  · obtain ⟨t, hres, ht, -⟩ := setViewZ_spec (z := c.stack.z c.middle) h h.shade.1 h.shade.2
      (by rw [if_pos hhidden, h.middle, h.top_eq])
    exact ⟨_, hres, ht, .rfl⟩
  · exact ⟨c, rfl, h, .rfl⟩

/-- `view_env_do_mouse_hover`. -/
theorem viewEnvDoMouseHover_keeps (h : CoreOk c) (v : V) : Keeps c (viewEnvDoMouseHover c v) := by
  unfold viewEnvDoMouseHover
  split_ifs
  · exact ⟨c, rfl, h, .rfl⟩
  · exact ⟨{ c with hover := some v }, rfl, h, .rfl⟩
  · have hc : CoreOk { c with mouseState := .normal } := h
    obtain ⟨c', hres, hc', hsame⟩ := hideShade_keeps hc
    rw [hres]
    exact ⟨{ c' with hover := some v }, rfl, hc', hsame⟩
  · exact ⟨{ c with mouseState := .normal, hover := some v }, rfl, h, .rfl⟩

omit [DecidableEq V] in
/-- The view with a number exists. -/
theorem mem_of_viewFindByZ (hv : v ∈ viewFindByZ c z) : v ∈ c.views := List.mem_of_find?_eq_some hv

/-- The view under the pointer is shown. -/
theorem mem_of_viewEnvFindHoverView {under : V → Bool}
    (hv : viewEnvFindHoverView c under = some v) :
    v ∈ c.stack.list :=
  List.mem_reverse.1 (List.mem_of_find?_eq_some hv)

/-- `view_env_reset_hover_and_activity`. -/
theorem viewEnvResetHoverAndActivity_keeps (h : CoreOk c) (under : V → Bool) :
    Keeps c (viewEnvResetHoverAndActivity c under) := by
  refine (viewEnvTryActivate_keeps h fun v hv => mem_of_viewFindByZ hv).bind fun c' hc' _ => ?_
  cases viewEnvFindHoverView c' under with
  | none => exact ⟨{ c' with hover := none }, rfl, hc', .rfl⟩
  | some v =>
      have hnone : CoreOk { c' with hover := none } := hc'
      exact viewEnvDoMouseHover_keeps hnone v

/-- `view_env_filter_mouse_msg`. -/
theorem viewEnvFilterMouseMsg_keeps (h : CoreOk c) (msg : MouseMsg V) :
    ∃ r, viewEnvFilterMouseMsg c msg = some r ∧ CoreOk r.1 ∧ Same c r.1 := by
  obtain ⟨c₁, hhide, hc₁, hsame₁⟩ := hideShade_keeps h
  obtain ⟨c₂, hshow, hc₂, hsame₂⟩ := showShade_keeps h
  unfold viewEnvFilterMouseMsg
  cases msg.id with
  | lbtnDown => exact ⟨_, rfl, h, .rfl⟩
  | other => exact ⟨_, rfl, h, .rfl⟩
  | lbtnUp =>
      simp only [releaseView, hhide]
      split_ifs
      · exact ⟨_, rfl, hc₁, hsame₁⟩
      · exact ⟨_, rfl, h, .rfl⟩
      · exact ⟨_, rfl, hc₁, hsame₁⟩
      · exact ⟨_, rfl, h, .rfl⟩
      · exact ⟨_, rfl, h, .rfl⟩
  | motion =>
      simp only [moveView, hshow]
      split_ifs
      · exact ⟨_, rfl, hc₂, hsame₂⟩
      · exact ⟨_, rfl, hc₂, hsame₂⟩
      · exact ⟨_, rfl, h, .rfl⟩

omit [DecidableEq V] in
/-- `view_env_do_resize` and `view_env_do_drag` change nothing on the list. -/
theorem viewEnvDoResize_ok (h : CoreOk c) (v : V) (msg : MouseMsg V) :
    CoreOk (viewEnvDoResize c v msg).1 ∧ Same c (viewEnvDoResize c v msg).1 := by
  unfold viewEnvDoResize
  by_cases hskip : c.type v = viewTypeFixed ∨ c.resizable v = false
  · rw [if_pos hskip]
    exact ⟨h, .rfl⟩
  · rw [if_neg hskip]
    cases msg.border v with
    | invalid => exact ⟨h, .rfl⟩
    | within =>
        dsimp only
        split_ifs
        · exact ⟨h, .rfl⟩
        · exact ⟨h, .rfl⟩
    | edge state => exact ⟨h, .rfl⟩

omit [DecidableEq V] in
theorem viewEnvDoDrag_ok (h : CoreOk c) (v : V) (msg : MouseMsg V) :
    CoreOk (viewEnvDoDrag c v msg) ∧ Same c (viewEnvDoDrag c v msg) := by
  unfold viewEnvDoDrag
  split_ifs <;> exact ⟨h, .rfl⟩

/-- `view_dispatch_mouse_msg`. -/
theorem viewDispatchMouseMsg_keeps (h : CoreOk c) (msg : MouseMsg V) :
    Keeps c (viewDispatchMouseMsg c msg) := by
  obtain ⟨r, hres, hr, hsame⟩ := viewEnvFilterMouseMsg_keeps h msg
  rw [viewDispatchMouseMsg, hres, Option.bind_some]
  by_cases hfiltered : r.2 = true
  · rw [if_pos hfiltered]
    exact ⟨_, rfl, hr, hsame⟩
  · rw [if_neg hfiltered]
    cases hunder : viewEnvFindHoverView r.1 msg.under with
    | none => exact ⟨_, rfl, hr, hsame⟩
    | some v =>
        have hactive : Keeps c
            (if msg.id = .lbtnDown then viewEnvTryActivate r.1 (some v) else some r.1) := by
          split_ifs
          · have hmem : ∀ w ∈ some v, w ∈ r.1.views := by
              rintro w ⟨⟩
              exact hr.created v (mem_of_viewEnvFindHoverView hunder)
            obtain ⟨c', hc', hok, hsame'⟩ := viewEnvTryActivate_keeps hr hmem
            exact ⟨c', hc', hok, hsame.trans hsame'⟩
          · exact ⟨_, rfl, hr, hsame⟩
        refine hactive.bind fun c' hc' _ => ?_
        obtain ⟨c₂, hhover, hc₂, hsame₂⟩ := viewEnvDoMouseHover_keeps hc' v
        obtain ⟨hc₃, hsame₃⟩ := viewEnvDoResize_ok hc₂ v msg
        obtain ⟨hc₄, hsame₄⟩ := viewEnvDoDrag_ok hc₃ v msg
        rw [hhover, Option.map_some]
        dsimp only
        split_ifs
        · exact ⟨_, rfl, hc₃, hsame₂.trans hsame₃⟩
        · exact ⟨_, rfl, hc₄, (hsame₂.trans hsame₃).trans hsame₄⟩

/-! ## The driver -/

/-- The devices that have a view. -/
def viewed (view : Fin viewMaxNr → Option V) : Finset (Fin viewMaxNr) :=
  Finset.univ.filter fun d => (view d).isSome

omit [DecidableEq V] in
theorem card_viewed_insert (view : Fin viewMaxNr → Option V) (d : Fin viewMaxNr) (v : V) :
    (viewed (Function.update view d (some v))).card ≤ (viewed view).card + 1 := by
  refine le_trans (Finset.card_le_card (t := insert d (viewed view)) fun e he => ?_)
    (Finset.card_insert_le _ _)
  rw [Finset.mem_insert]
  by_cases hed : e = d
  · exact Or.inl hed
  · refine Or.inr ?_
    simpa only [viewed, Finset.mem_filter, Function.update_of_ne hed] using he

omit [DecidableEq V] in
theorem card_viewed_erase {view : Fin viewMaxNr → Option V} {d : Fin viewMaxNr}
    (hd : (view d).isSome) :
    (viewed (Function.update view d none)).card + 1 ≤ (viewed view).card := by
  have hmem : d ∈ viewed view := Finset.mem_filter.2 ⟨Finset.mem_univ d, hd⟩
  rw [← Finset.card_erase_add_one hmem]
  refine Nat.add_le_add_right (Finset.card_le_card fun e he => ?_) 1
  have hed : e ≠ d := by
    rintro rfl
    simp [viewed] at he
  refine Finset.mem_erase.2 ⟨hed, ?_⟩
  simpa only [viewed, Finset.mem_filter, Function.update_of_ne hed] using he

/-- **The driver is in order**: there is a core while something is open, a device is open if it has
a view, and the views of the devices are different views of clients. -/
structure DriverOk (s : Driver V) : Prop where
  core : ∀ c, s.core = some c → CoreOk c ∧ ∀ d v, s.view d = some v → Client c v
  up : s.core.isSome = true ↔ 0 < s.openCount
  opened : ∀ d, (s.view d).isSome = true ↔ 0 < s.reference d
  inj : ∀ d e v, s.view d = some v → s.view e = some v → d = e
  count : (viewed s.view).card ≤ s.openCount

variable {s s' : Driver V} {d : Fin viewMaxNr}

omit [DecidableEq V] in
theorem driverOk_enter : DriverOk (viewDriverEnter : Driver V) :=
  ⟨nofun, by simp [viewDriverEnter], fun d => by simp [viewDriverEnter], nofun,
    by simp [viewDriverEnter, viewed]⟩

omit [DecidableEq V] in
/-- A device with a view keeps the core up. -/
theorem DriverOk.core_of_view (h : DriverOk s) (hd : s.view d = some v) :
    ∃ c, s.core = some c ∧ CoreOk c ∧ Client c v := by
  have hmem : d ∈ viewed s.view := Finset.mem_filter.2 ⟨Finset.mem_univ d, by rw [hd]; rfl⟩
  have hpos : 0 < s.openCount := lt_of_lt_of_le (Finset.card_pos.2 ⟨d, hmem⟩) h.count
  obtain ⟨c, hc⟩ := Option.isSome_iff_exists.1 (h.up.2 hpos)
  obtain ⟨hok, hviews⟩ := h.core c hc
  exact ⟨c, hc, hok, hviews d v hd⟩

omit [DecidableEq V] in
/-- The core has changed, and its views have not. -/
theorem DriverOk.put (h : DriverOk s) (hc : s.core = some c) (hok : CoreOk c') (hsame : Same c c') :
    DriverOk { s with core := some c' } := by
  refine ⟨fun c₁ hc₁ => ?_, ?_, h.opened, h.inj, h.count⟩
  · cases hc₁
    exact ⟨hok, fun d v hd => ((h.core c hc).2 d v hd).same hsame⟩
  · rw [← h.up, hc]
    rfl

omit [DecidableEq V] in
/-- A device is opened, or closed, without a call of the driver. -/
theorem DriverOk.reference (h : DriverOk s) {n : ℕ} (hn : 0 < n ↔ 0 < s.reference d) :
    DriverOk { s with reference := Function.update s.reference d n } := by
  refine ⟨h.core, h.up, fun e => ?_, h.inj, h.count⟩
  rw [h.opened e]
  by_cases hed : e = d
  · subst hed
    simp only [Function.update_self, hn]
  · simp only [Function.update_of_ne hed]

/-- A view that is created is not shown. -/
theorem viewCreate_stack (hz : c.stack.z v = -1) (type : ℕ) :
    (viewCreate c v type).stack = c.stack := by
  have hsame : Function.update c.stack.z v (-1) = c.stack.z := by rw [← hz, Function.update_eq_self]
  simp only [viewCreate, viewSetType, hsame]

/-- **A new view** is none of those that exist. -/
theorem CoreOk.create (h : CoreOk c) (hv : v ∉ c.views) (type : ℕ) :
    CoreOk (viewCreate c v type) ∧ Client (viewCreate c v type) v := by
  have hout : v ∉ c.stack.list := fun hmem => hv (h.created v hmem)
  have hvm : v ≠ c.mouse := by
    rintro rfl
    obtain ⟨l, hl⟩ := h.last
    exact hout (by rw [hl]; exact List.mem_append_right l (List.mem_singleton_self _))
  have hvs : v ≠ c.shade := fun heq => hv (heq ▸ h.shade.1)
  have hstack := viewCreate_stack (h.shown.out v hout) type
  refine ⟨⟨?_, h.last, fun w hw => List.mem_cons_of_mem v (h.created w hw), ?_,
    ⟨List.mem_cons_of_mem v h.shade.1, h.shade.2⟩, h.middle⟩, List.mem_cons_self, hvm, hvs⟩
  · rw [hstack]
    exact h.shown
  · exact (Function.update_of_ne (Ne.symm hvm) _ _).trans h.fixed

/-- **What the driver starts with**: the pointer alone. -/
theorem viewCoreInit_spec (boot : Boot V) : ∃ c, viewCoreInit boot = some c ∧ CoreOk c := by
  obtain ⟨t, hres, ht, hlist⟩ := viewSetZ_spec showOk_empty (boot.mouse, 0)
  have hmouse : t.list = [boot.mouse] := by
    rw [hlist]
    exact place_eq (a := []) (b := []) le_rfl rfl rfl
  have hz : t.z boot.shade = -1 := by
    refine ht.out _ ?_
    rw [hmouse, List.mem_singleton]
    exact boot.ne
  have hhidden : viewSetZ t (boot.shade, -1) = some t := by
    rw [viewSetZ, setZ, if_pos hz, Option.map_some]
  let c₁ := { viewCreate (coreStart boot) boot.mouse viewTypeFixed with stack := t }
  have hfirst : setViewZ (viewCreate (coreStart boot) boot.mouse viewTypeFixed) boot.mouse 0 =
      some c₁ := by
    rw [setViewZ, viewCreate_stack rfl]
    exact congrArg (Option.map _) hres
  let c₂ := viewSetType (viewCreate c₁ boot.shade 0) boot.shade viewTypeFloat
  have hstack : c₂.stack = t := viewCreate_stack (c := c₁) hz 0
  have hsecond : setViewZ c₂ boot.shade (-1) = some { c₂ with stack := t } := by
    rw [setViewZ, hstack, hhidden, Option.map_some]
  refine ⟨{ c₂ with stack := t }, ?_, ⟨ht, ⟨[], hmouse⟩, fun v hv => ?_, ?_, ⟨?_, boot.ne⟩, rfl⟩⟩
  · rw [viewCoreInit, hfirst]
    exact hsecond
  · change v ∈ t.list at hv
    rw [hmouse, List.mem_singleton] at hv
    subst hv
    exact List.mem_cons_of_mem _ List.mem_cons_self
  · have hne : boot.mouse ≠ boot.shade := Ne.symm boot.ne
    simp [c₂, c₁, viewSetType, viewCreate, coreStart, hne, viewTypeFixed]
  · exact List.mem_cons_self

/-! ## The calls -/

/-- The core that `view_open` works with. -/
theorem coreForOpen_ok (h : DriverOk s) {boot : Option (Boot V)}
    (hcore : coreForOpen s boot = some c) :
    CoreOk c ∧ ∀ e v, s.view e = some v → Client c v := by
  unfold coreForOpen at hcore
  split_ifs at hcore with hzero
  · -- a new core: no device has a view yet
    cases boot with
    | none => cases hcore
    | some boot =>
        obtain ⟨c₁, hinit, hok⟩ := viewCoreInit_spec boot
        rw [Option.bind_some, hinit] at hcore
        cases hcore
        refine ⟨hok, fun e v he => ?_⟩
        obtain ⟨c₂, hc₂, -⟩ := h.core_of_view he
        have hup := h.up.1 (by rw [hc₂]; rfl)
        omega
  · exact h.core c hcore

/-- A device gets a view. -/
theorem DriverOk.add (h : DriverOk s) (hok : CoreOk c)
    (hviews : ∀ e w, s.view e = some w → Client c w)
    (hv : v ∉ c.views) (d : Fin viewMaxNr) (type : ℕ) :
    DriverOk
      { reference := Function.update s.reference d 1
        view := Function.update s.view d (some v)
        openCount := s.openCount + 1
        core := some (viewCreate c v type) } := by
  obtain ⟨hnew, hclient⟩ := hok.create hv type
  have hview : ∀ e w, Function.update s.view d (some v) e = some w →
      e = d ∧ w = v ∨ e ≠ d ∧ s.view e = some w := by
    intro e w he
    by_cases hed : e = d
    · subst hed
      rw [Function.update_self] at he
      cases he
      exact Or.inl ⟨rfl, rfl⟩
    · rw [Function.update_of_ne hed] at he
      exact Or.inr ⟨hed, he⟩
  have hother : ∀ e, s.view e ≠ some v := fun e he => hv (hviews e v he).created
  refine ⟨fun c₁ hc₁ => ?_, by simp, fun e => ?_, fun e₁ e₂ w he₁ he₂ => ?_, ?_⟩
  · cases hc₁
    refine ⟨hnew, fun e w he => ?_⟩
    rcases hview e w he with ⟨-, rfl⟩ | ⟨-, he⟩
    · exact hclient
    · obtain ⟨hcreated, hmouse, hshade⟩ := hviews e w he
      exact ⟨List.mem_cons_of_mem v hcreated, hmouse, hshade⟩
  · by_cases hed : e = d
    · subst hed
      simp
    · simpa only [Function.update_of_ne hed] using h.opened e
  · rcases hview e₁ w he₁ with ⟨rfl, rfl⟩ | ⟨-, hold₁⟩
    · rcases hview e₂ w he₂ with ⟨rfl, -⟩ | ⟨-, hold₂⟩
      · rfl
      · exact absurd hold₂ (hother e₂)
    · rcases hview e₂ w he₂ with ⟨-, rfl⟩ | ⟨-, hold₂⟩
      · exact absurd hold₁ (hother e₁)
      · exact h.inj e₁ e₂ w hold₁ hold₂
  · exact le_trans (card_viewed_insert s.view d v) (Nat.add_le_add_right h.count 1)

/-- `view_open` of a device that is not open. -/
theorem viewOpen_ok (h : DriverOk s) (hd : s.reference d = 0) (type : ℕ) (boot : Option (Boot V))
    (memory : Alloc V) : DriverOk (viewOpen s d type boot memory) := by
  have hview : s.view d = none := by
    have hnot := (h.opened d).not.2 (by omega)
    simpa using hnot
  unfold viewOpen
  cases hcore : coreForOpen s boot with
  | none => exact h
  | some c =>
      obtain ⟨hok, hviews⟩ := coreForOpen_ok h hcore
      dsimp only
      rw [hview]
      dsimp only
      cases hmem : memory.answer c.views with
      | none =>
          refine ⟨fun c₁ hc₁ => ?_, by simp, h.opened, h.inj, le_trans h.count (Nat.le_succ _)⟩
          cases hc₁
          exact ⟨hok, hviews⟩
      | some v => exact h.add hok hviews (memory.fresh _ _ hmem) d type

omit [DecidableEq V] in
/-- The last part of `view_close`. -/
theorem viewCloseCount_ok (h : DriverOk s) (hd : (s.view d).isSome) (hok : CoreOk c')
    (hviews : ∀ e w, e ≠ d → s.view e = some w → Client c' w) :
    DriverOk (viewCloseCount s d c') := by
  have hcard := card_viewed_erase hd
  have hcount := h.count
  have hpos : 0 < s.openCount := by omega
  have hkeep : ∀ e w, Function.update s.view d none e = some w → e ≠ d ∧ s.view e = some w := by
    intro e w he
    by_cases hed : e = d
    · subst hed
      rw [Function.update_self] at he
      cases he
    · rw [Function.update_of_ne hed] at he
      exact ⟨hed, he⟩
  refine ⟨fun c₁ hc₁ => ?_, ?_, fun e => ?_, fun e₁ e₂ w he₁ he₂ => ?_, ?_⟩
  · simp only [viewCloseCount] at hc₁
    split_ifs at hc₁
    cases hc₁
    exact ⟨hok, fun e w he => hviews e w (hkeep e w he).1 (hkeep e w he).2⟩
  · simp only [viewCloseCount]
    split_ifs with hzero
    · simp [hzero]
    · simpa using Nat.pos_of_ne_zero hzero
  · by_cases hed : e = d
    · subst hed
      simp [viewCloseCount]
    · simpa only [viewCloseCount, Function.update_of_ne hed] using h.opened e
  · exact h.inj e₁ e₂ w (hkeep e₁ w he₁).2 (hkeep e₂ w he₂).2
  · simp only [viewCloseCount]
    omega

/-- A view that is not shown is destroyed. -/
theorem CoreOk.destroy (h : CoreOk c) (hout : v ∉ c.stack.list) (hv : v ≠ c.shade) :
    CoreOk (viewDestroy c v) := by
  have hlist : c.stack.list.erase v = c.stack.list := List.erase_of_not_mem hout
  refine ⟨?_, ?_, fun w hw => ?_, h.fixed, ⟨?_, h.shade.2⟩, h.middle⟩
  · simp only [viewDestroy, hlist]
    exact h.shown
  · simp only [viewDestroy, hlist]
    exact h.last
  · simp only [viewDestroy, hlist] at hw ⊢
    have hwv : w ≠ v := fun heq => hout (heq ▸ hw)
    exact (List.mem_erase_of_ne hwv).2 (h.created w hw)
  · exact (List.mem_erase_of_ne (Ne.symm hv)).2 h.shade.1

/-- `view_close` of a device that is open once. -/
theorem viewClose_ok (h : DriverOk s) (hc : s.core = some c) (hd : s.reference d = 1)
    (destroyed : Bool)
    (under : V → Bool) : ∃ s', viewClose s d c destroyed under = some s' ∧ DriverOk s' := by
  have hsome : (s.view d).isSome := (h.opened d).2 (by omega)
  obtain ⟨v, hv⟩ := Option.isSome_iff_exists.1 hsome
  obtain ⟨hok, hviews⟩ := h.core c hc
  have hclient := hviews d v hv
  obtain ⟨t, hhide, ht, hlist⟩ := viewHide_spec hok hclient.created hclient.ne_mouse
  have hout : v ∉ t.list := hlist ▸ hok.shown.ordered.nodup.not_mem_erase
  unfold viewClose
  rw [hv]
  dsimp only
  rw [hhide, Option.bind_some]
  cases destroyed with
  | true =>
      have hdestroy : CoreOk (viewDestroy { c with stack := t } v) :=
        ht.destroy hout hclient.ne_shade
      have hreset : Keeps (viewDestroy { c with stack := t } v)
          (if 0 ≤ c.stack.z v then
            viewEnvResetHoverAndActivity (viewDestroy { c with stack := t } v) under
            else some (viewDestroy { c with stack := t } v)) := by
        split_ifs
        · exact viewEnvResetHoverAndActivity_keeps hdestroy under
        · exact ⟨_, rfl, hdestroy, .rfl⟩
      obtain ⟨c', hres, hc', hsame⟩ := hreset
      refine ⟨viewCloseCount s d c', by rw [if_pos rfl, hres, Option.map_some], ?_⟩
      refine viewCloseCount_ok h hsome hc' fun e w hed he => ?_
      obtain ⟨hcreated, hmouse, hshade⟩ := hviews e w he
      have hwv : w ≠ v := by
        rintro rfl
        exact hed (h.inj e d w he hv)
      have hother : Client (viewDestroy { c with stack := t } v) w :=
        ⟨(List.mem_erase_of_ne hwv).2 hcreated, hmouse, hshade⟩
      exact hother.same hsame
  | false =>
      -- the view goes back to where it was
      have hlow := hok.z_lt hclient.ne_mouse
      have hhidden : t.z v = -1 := ht.shown.out v hout
      have htop : c.stack.topZ - 1 ≤ t.topZ := by
        have hlen := List.le_length_erase (a := v) (l := c.stack.list)
        rw [ht.shown.ordered.top, hok.shown.ordered.top, hlist]
        omega
      obtain ⟨t', hres, ht', -⟩ :=
        setViewZ_spec (z := c.stack.z v) ht hclient.created hclient.ne_mouse (by
        dsimp only
        rw [hhidden, if_pos (by norm_num)]
        omega)
      refine ⟨_, by rw [if_neg Bool.false_ne_true, hres, Option.map_some], ?_⟩
      exact h.put hc ht' .rfl

/-- **`VIEWIO_SHOW`**: the view is right below the pointer. -/
theorem viewStep_show (h : DriverOk s) (hd : s.view d = some v) :
    ∃ s' c l, viewStep s (.show_ d) = some s' ∧ DriverOk s' ∧ s'.core = some c ∧
      c.stack.list = l ++ [v, c.mouse] := by
  obtain ⟨c, hc, hok, hclient⟩ := h.core_of_view hd
  obtain ⟨t, l, hshow, ht, hl⟩ := viewShow_spec hok hclient.created hclient.ne_mouse
  obtain ⟨c', hactive, hc', hsame, hstack⟩ := viewEnvTryActivate_top ht hl
  refine ⟨{ s with core := some c' }, c', l, ?_, h.put hc hc' hsame, rfl, ?_⟩
  · simp only [viewStep, hc, hd, hshow, Option.bind_some, hactive, Option.map_some]
  · rw [hstack, hsame.1]
    exact hl

/-- **Every call keeps the driver in order.** -/
theorem viewStep_spec (h : DriverOk s) (call : ViewCall V) :
    ∃ s', viewStep s call = some s' ∧ DriverOk s' := by
  cases call with
  | open_ d type boot memory =>
      simp only [viewStep]
      split_ifs with hd
      · exact ⟨_, rfl, viewOpen_ok h hd type boot memory⟩
      · exact ⟨_, rfl, h.reference (by omega)⟩
  | close d destroyed under =>
      simp only [viewStep]
      split_ifs with hd
      · cases hc : s.core with
        | none => exact ⟨s, rfl, h⟩
        | some c => exact viewClose_ok h hc hd destroyed under
      · exact ⟨_, rfl, h.reference (by omega)⟩
  | show_ d =>
      cases hd : s.view d with
      | none => exact ⟨s, by cases hc : s.core <;> simp only [viewStep, hc, hd], h⟩
      | some v =>
          obtain ⟨s', -, -, hres, hs', -⟩ := viewStep_show h hd
          exact ⟨s', hres, hs'⟩
  | hide d under =>
      cases hd : s.view d with
      | none => exact ⟨s, by cases hc : s.core <;> simp only [viewStep, hc, hd], h⟩
      | some v =>
          obtain ⟨c, hc, hok, hclient⟩ := h.core_of_view hd
          obtain ⟨t, hhide, ht, -⟩ := viewHide_spec hok hclient.created hclient.ne_mouse
          obtain ⟨c', hreset, hc', hsame⟩ := viewEnvResetHoverAndActivity_keeps ht under
          refine ⟨{ s with core := some c' }, ?_, h.put hc hc' hsame⟩
          simp only [viewStep, hc, hd, hhide, Option.bind_some, hreset, Option.map_some]
  | mouse msg =>
      cases hc : s.core with
      | none => exact ⟨s, by simp only [viewStep, hc], h⟩
      | some c =>
          obtain ⟨c', hres, hc', hsame⟩ := viewDispatchMouseMsg_keeps (h.core c hc).1 msg
          exact ⟨{ s with core := some c' }, by simp only [viewStep, hc, hres, Option.map_some],
            h.put hc hc' hsame⟩

/-- **The pointer stays on top** in every run from the start of the driver, as long as it is in
use: no assertion fails, the pointer is the last on the show list with the greatest number, and a
view that is shown comes right below it. -/
theorem pointer_on_top (V : Type) [DecidableEq V] (calls : List (ViewCall V)) :
    ∃ s, Run.exec viewStep viewDriverEnter calls = some s ∧
      (s.core.isSome = true ↔ 0 < s.openCount) ∧
      (∀ c, s.core = some c →
        (∃ l, c.stack.list = l ++ [c.mouse]) ∧ c.stack.z c.mouse = c.stack.topZ) ∧
      ∀ d v, s.view d = some v → ∃ s' c l, viewStep s (.show_ d) = some s' ∧ s'.core = some c ∧
        c.stack.list = l ++ [v, c.mouse] := by
  obtain ⟨s, hrun, hs⟩ := Run.exec_total (P := fun _ _ => True) (I := DriverOk)
    (fun s call h _ => viewStep_spec h call) calls viewDriverEnter driverOk_enter
    (Run.along_of_forall (fun _ _ => trivial) calls _)
  refine ⟨s, hrun, hs.up, fun c hc => ?_, fun d v hd => ?_⟩
  · exact ⟨(hs.core c hc).1.last, (hs.core c hc).1.top_eq⟩
  · obtain ⟨s', c, l, hres, -, hc, hl⟩ := viewStep_show hs hd
    exact ⟨s', c, l, hres, hc, hl⟩

/-- An allocator with one block. -/
def oneBlock : Alloc ℕ where
  answer inUse := if 2 ∈ inUse then none else some 2
  fresh inUse v hv := by
    split_ifs at hv with hmem
    cases hv
    exact hmem

/-- A client has opened the first device; the pointer is view 0. -/
def openedOnce : Driver ℕ :=
  viewOpen viewDriverEnter ⟨0, by decide⟩ viewTypeWindow (some ⟨0, 1, by decide⟩) oneBlock

/-- The close of the last client ends the core, and its pointer with it. -/
theorem pointer_gone :
    openedOnce.showList = [0] ∧
      ¬∀ (calls : List (ViewCall ℕ)) (s : Driver ℕ), Run.exec viewStep openedOnce calls = some s →
        s.showList.getLast? = some 0 := by
  have hlast : (Run.exec viewStep openedOnce [.close 0 true fun _ => false]).map Driver.showList =
      some [] := by
    decide
  refine ⟨by decide, fun h => ?_⟩
  obtain ⟨s, hs, hempty⟩ := Option.map_eq_some_iff.1 hlast
  have hpointer := h _ s hs
  rw [hempty] at hpointer
  cases hpointer

end View
end LightOS
