import LightOS.View.EnvBasic
import LightOS.View.Pointer

/-!
# What the view driver remembers

The variables of the environment are set to views that are shown.  What can go wrong is that such a
view is hidden or closed later: a client's view by the client, and the shade by the driver.

* `EnvOk` — the invariant on the core; it asks in addition that the shade is never dragged or
  resized.
* `viewEnvTryActivate_env` … `viewDispatchMouseMsg_env` — the environment.
* `viewStep_env` — the calls of the driver.
* `envStep_spec`, `refers_to_shown` — all calls and the runs.
-/

namespace LightOS
namespace View

open ZOrder Stacking

variable {V : Type} {c c' : Core V} {v w : V} {z : ℤ}

/-! ## The invariant -/

/-- **What the environment refers to is shown**, and the shade is neither dragged nor resized. -/
structure EnvOk (c : Core V) : Prop where
  activity : ∀ v, c.activity = some v → v ∈ c.stack.list
  hover : ∀ v, c.hover = some v → v ∈ c.stack.list
  drag : ∀ v, c.drag = some v → v ∈ c.stack.list ∧ v ≠ c.shade
  resize : ∀ v, c.resize = some v → v ∈ c.stack.list ∧ v ≠ c.shade
  shade : c.type c.shade ≠ viewTypeWindow ∧ c.resizable c.shade = false ∧ c.moveable c.shade = false

/-- More is shown. -/
theorem EnvOk.more (h : EnvOk c) {t : ZStack V} (hmore : ∀ w ∈ c.stack.list, w ∈ t.list) :
    EnvOk { c with stack := t } :=
  ⟨fun v hv => hmore v (h.activity v hv), fun v hv => hmore v (h.hover v hv),
    fun v hv => ⟨hmore v (h.drag v hv).1, (h.drag v hv).2⟩,
    fun v hv => ⟨hmore v (h.resize v hv).1, (h.resize v hv).2⟩, h.shade⟩

theorem EnvOk.clearHover (h : EnvOk c) : EnvOk { c with hover := none } :=
  ⟨h.activity, nofun, h.drag, h.resize, h.shade⟩

theorem EnvOk.setHover (h : EnvOk { c with hover := none })
    (hhover : ∀ v, c.hover = some v → v ∈ c.stack.list) :
    EnvOk c :=
  ⟨h.activity, hhover, h.drag, h.resize, h.shade⟩

variable [DecidableEq V]

/-- A view is hidden to which nothing refers. -/
theorem EnvOk.less (h : EnvOk c) {t : ZStack V} (hlist : t.list = c.stack.list.erase v)
    (hactivity : c.activity ≠ some v) (hhover : c.hover ≠ some v) (hdrag : c.drag ≠ some v)
    (hresize : c.resize ≠ some v) : EnvOk { c with stack := t } := by
  have hkeep : ∀ {o : Option V} {w : V}, o ≠ some v → o = some w → w ∈ c.stack.list →
      w ∈ t.list := by
    intro o w ho hw hmem
    have hwv : w ≠ v := fun heq => ho (heq ▸ hw)
    rw [hlist]
    exact (List.mem_erase_of_ne hwv).2 hmem
  exact ⟨fun w hw => hkeep hactivity hw (h.activity w hw),
    fun w hw => hkeep hhover hw (h.hover w hw),
    fun w hw => ⟨hkeep hdrag hw (h.drag w hw).1, (h.drag w hw).2⟩,
    fun w hw => ⟨hkeep hresize hw (h.resize w hw).1, (h.resize w hw).2⟩, h.shade⟩

/-! ## The environment -/

/-- A view that is shown becomes active; only a window is moved, if it is not right below the
pointer. -/
theorem viewEnvTryActivate_env (h : CoreOk c) (hv : v ∈ c.stack.list) :
    ∃ t, viewEnvTryActivate c (some v) = some { c with stack := t, activity := some v } ∧
      CoreOk { c with stack := t, activity := some v } ∧ (∀ w, w ∈ t.list ↔ w ∈ c.stack.list) ∧
      (c.type v ≠ viewTypeWindow ∨ c.stack.z v = c.stack.z c.middle - 1 → t = c.stack) := by
  have hstay : CoreOk { c with activity := some v } := h
  unfold viewEnvTryActivate
  split_ifs with hsame
  · refine ⟨c.stack, ?_, h, fun _ => Iff.rfl, fun _ => rfl⟩
    rw [← hsame]
  · dsimp only
    by_cases htype : c.type v = viewTypeWindow
    · rw [if_pos htype]
      by_cases hat : c.stack.z v = c.stack.z c.middle - 1
      · refine ⟨c.stack, ?_, hstay, fun _ => Iff.rfl, fun _ => rfl⟩
        rw [viewMoveUnderView, setViewZ, viewSetZ, setZ, if_pos hat]
        rfl
      · have hvm : v ≠ c.mouse := by
          rintro rfl
          rw [h.fixed] at htype
          cases htype
        have htop := h.top_eq
        have hlow := h.z_lt hvm
        have hpos := (h.shown.ordered.numbered.mem hv).1
        obtain ⟨t, hres, ht, hlist, -⟩ :=
          setViewZ_spec (z := c.stack.z c.middle - 1) hstay (h.created v hv) hvm (by
          rw [h.middle, htop]
          dsimp only
          split_ifs <;> omega)
        refine ⟨t, hres, ht, fun w => ?_, fun hnot => absurd hnot (not_or.2 ⟨not_not.2 htype, hat⟩)⟩
        rw [hlist, mem_place (by rw [h.middle, htop]; omega)]
        exact or_iff_right_of_imp fun heq => heq ▸ hv
    · rw [if_neg htype]
      exact ⟨c.stack, rfl, hstay, fun _ => Iff.rfl, fun _ => rfl⟩

/-- The shade is hidden; what `mouse_hover_view` is does not matter here. -/
theorem hideShade_env (h : CoreOk c) (he : EnvOk { c with hover := none })
    (hfree : c.shade ∈ c.stack.list → c.activity ≠ some c.shade) :
    ∃ t, hideShade c = some { c with stack := t } ∧ CoreOk { c with stack := t } ∧
      EnvOk { c with stack := t, hover := none } ∧ t.list = c.stack.list.erase c.shade := by
  obtain ⟨t, hres, ht, hlist⟩ := viewHide_spec h h.shade.1 h.shade.2
  refine ⟨t, hres, ht, ?_, hlist⟩
  by_cases hin : c.shade ∈ c.stack.list
  · exact he.less hlist (hfree hin) nofun (fun heq => (he.drag _ heq).2 rfl) fun heq =>
      (he.resize _ heq).2 rfl
  · refine he.more fun w hw => ?_
    rwa [hlist, List.erase_of_not_mem hin]

/-- The shade is shown. -/
theorem showShade_env (h : CoreOk c) (he : EnvOk c) :
    ∃ t, showShade c = some { c with stack := t } ∧ EnvOk { c with stack := t } := by
  unfold showShade
  split_ifs with hhidden
  · obtain ⟨t, hres, -, hlist, -⟩ := setViewZ_spec (z := c.stack.z c.middle) h h.shade.1 h.shade.2
      (by rw [if_pos hhidden, h.middle, h.top_eq])
    refine ⟨t, hres, he.more fun w hw => ?_⟩
    have hpos : 0 ≤ c.stack.z c.middle := by
      obtain ⟨l, hl⟩ := h.last
      rw [h.middle, (h.top hl).1]
      omega
    rw [hlist, mem_place hpos]
    exact Or.inr hw
  · exact ⟨c.stack, rfl, he⟩

/-- `view_env_do_mouse_hover`; the view it comes from does not matter. -/
theorem viewEnvDoMouseHover_env (h : CoreOk c) (he : EnvOk { c with hover := none })
    (hv : v ∈ c.stack.list)
    (hclear : c.hover ≠ some v → c.mouseState ≠ .normal → 0 < c.stack.z c.shade →
      v ≠ c.shade ∧ c.activity ≠ some c.shade) :
    ∃ c', viewEnvDoMouseHover c v = some c' ∧ EnvOk c' ∧ v ∈ c'.stack.list := by
  have hset : ∀ {c : Core V}, EnvOk { c with hover := none } → v ∈ c.stack.list →
      EnvOk { c with hover := some v } := by
    intro c he hv
    refine EnvOk.setHover (c := { c with hover := some v }) he fun w hw => ?_
    cases hw
    exact hv
  unfold viewEnvDoMouseHover
  split_ifs with hsame hnormal hshade
  · have hok := hset he hv
    rw [← hsame] at hok
    exact ⟨c, rfl, hok, hv⟩
  · exact ⟨_, rfl, hset he hv, hv⟩
  · obtain ⟨hvs, hactivity⟩ := hclear hsame hnormal hshade
    obtain ⟨t, hres, ht, he', hlist⟩ := hideShade_env (c := { c with mouseState := .normal }) h
      ⟨he.activity, nofun, he.drag, he.resize, he.shade⟩ fun _ => hactivity
    have hvt : v ∈ t.list := by
      rw [hlist]
      exact (List.mem_erase_of_ne hvs).2 hv
    refine ⟨{ c with mouseState := .normal, stack := t, hover := some v },
      by rw [hres]; rfl, ?_, hvt⟩
    exact hset (c := { c with mouseState := .normal, stack := t }) he' hvt
  · exact ⟨_, rfl, hset ⟨he.activity, nofun, he.drag, he.resize, he.shade⟩ hv, hv⟩

omit [DecidableEq V] in
/-- `view_env_do_resize` and `view_env_do_drag`, of a view that is shown. -/
theorem viewEnvDoResize_env (he : EnvOk c) (hv : v ∈ c.stack.list) (msg : MouseMsg V) :
    EnvOk (viewEnvDoResize c v msg).1 ∧ v ∈ (viewEnvDoResize c v msg).1.stack.list := by
  unfold viewEnvDoResize
  by_cases hskip : c.type v = viewTypeFixed ∨ c.resizable v = false
  · rw [if_pos hskip]
    exact ⟨he, hv⟩
  · rw [if_neg hskip]
    cases msg.border v with
    | invalid => exact ⟨he, hv⟩
    | within =>
        dsimp only
        split_ifs
        · exact ⟨⟨he.activity, he.hover, he.drag, he.resize, he.shade⟩, hv⟩
        · exact ⟨he, hv⟩
    | edge state =>
        refine ⟨⟨he.activity, he.hover, he.drag, fun w hw => ?_, he.shade⟩, hv⟩
        dsimp only at hw
        split_ifs at hw
        · cases hw
          refine ⟨hv, fun heq => hskip (Or.inr ?_)⟩
          rw [heq]
          exact he.shade.2.1
        · exact he.resize w hw

omit [DecidableEq V] in
theorem viewEnvDoDrag_env (he : EnvOk c) (hv : v ∈ c.stack.list) (msg : MouseMsg V) :
    EnvOk (viewEnvDoDrag c v msg) := by
  unfold viewEnvDoDrag
  split_ifs with hskip
  · exact he
  · exact he
  · refine ⟨he.activity, he.hover, fun w hw => ?_, he.resize, he.shade⟩
    cases hw
    refine ⟨hv, fun heq => hskip (Or.inr ?_)⟩
    rw [heq]
    exact he.shade.2.2
  · exact he

/-- The part of `view_dispatch_mouse_msg` after the filter. -/
def deliverMsg (c : Core V) (msg : MouseMsg V) : Option (Core V) :=
  match viewEnvFindHoverView c msg.under with
  | none => some c
  | some v =>
      (if msg.id = .lbtnDown then viewEnvTryActivate c (some v) else some c).bind fun c =>
        (viewEnvDoMouseHover c v).map fun c =>
          let r := viewEnvDoResize c v msg
          if r.2 then r.1 else viewEnvDoDrag r.1 v msg

theorem viewDispatchMouseMsg_eq (c : Core V) (msg : MouseMsg V) :
    viewDispatchMouseMsg c msg =
      (viewEnvFilterMouseMsg c msg).bind fun r => if r.2 then some r.1 else deliverMsg r.1 msg :=
        rfl

/-- **The view under the pointer gets the message.** -/
theorem deliverMsg_env (h : CoreOk c) (he : EnvOk { c with hover := none }) (msg : MouseMsg V)
    (hnone : viewEnvFindHoverView c msg.under = none → EnvOk c)
    (hclear : c.mouseState ≠ .normal → 0 < c.stack.z c.shade →
      ∀ w, viewEnvFindHoverView c msg.under = some w → c.hover ≠ some w →
        w ≠ c.shade ∧ (msg.id = .lbtnDown ∨ c.activity ≠ some c.shade)) :
    ∃ c', deliverMsg c msg = some c' ∧ EnvOk c' := by
  unfold deliverMsg
  cases hunder : viewEnvFindHoverView c msg.under with
  | none => exact ⟨c, rfl, hnone hunder⟩
  | some v =>
      have hv := mem_of_viewEnvFindHoverView hunder
      have hactive : ∃ c₁, (if msg.id = .lbtnDown then viewEnvTryActivate c (some v) else some c) =
        some c₁ ∧
          CoreOk c₁ ∧ EnvOk { c₁ with hover := none } ∧ v ∈ c₁.stack.list ∧
          (c₁.hover ≠ some v → c₁.mouseState ≠ .normal → 0 < c₁.stack.z c₁.shade →
            v ≠ c₁.shade ∧ c₁.activity ≠ some c₁.shade) := by
        by_cases hdown : msg.id = .lbtnDown
        · obtain ⟨t, hres, ht, hlist, hstay⟩ := viewEnvTryActivate_env h hv
          rw [if_pos hdown]
          refine ⟨_, hres, ht, ⟨fun w hw => ?_, nofun, fun w hw => ?_, fun w hw => ?_, he.shade⟩,
            (hlist v).2 hv, fun hhover hstate hz => ?_⟩
          · cases hw
            exact (hlist v).2 hv
          · exact ⟨(hlist w).2 (he.drag w hw).1, (he.drag w hw).2⟩
          · exact ⟨(hlist w).2 (he.resize w hw).1, (he.resize w hw).2⟩
          · -- the shade would not have been moved
            have hvs : v ≠ c.shade := by
              rintro rfl
              rw [hstay (Or.inl he.shade.1)] at hz
              exact (hclear hstate hz _ hunder hhover).1 rfl
            refine ⟨hvs, fun heq => hvs ?_⟩
            exact Option.some.inj heq
        · rw [if_neg hdown]
          refine ⟨c, rfl, h, he, hv, fun hhover hstate hz => ?_⟩
          obtain ⟨hvs, hactivity⟩ := hclear hstate hz v hunder hhover
          exact ⟨hvs, hactivity.resolve_left hdown⟩
      obtain ⟨c₁, hres₁, hc₁, he₁, hv₁, hclear₁⟩ := hactive
      obtain ⟨c₂, hres₂, he₂, hv₂⟩ := viewEnvDoMouseHover_env hc₁ he₁ hv₁ hclear₁
      obtain ⟨he₃, hv₃⟩ := viewEnvDoResize_env he₂ hv₂ msg
      simp only [hres₁, Option.bind_some, hres₂, Option.map_some]
      refine ⟨_, rfl, ?_⟩
      split_ifs
      · exact he₃
      · exact viewEnvDoDrag_env he₃ hv₃ msg

/-- The end of a drag; a view that the shade has covered may be under the pointer now. -/
theorem endDrag_env (h : CoreOk c) (he : EnvOk c) (msg : MouseMsg V)
    (hfree : c.mouseState = .hold → c.shade ∈ c.stack.list → c.activity ≠ some c.shade ∧
      (c.hover = some c.shade → ∃ w ∈ c.stack.list, w ≠ c.mouse ∧ w ≠ c.shade ∧
        msg.under w = true)) :
    ∃ t, (if c.mouseState = .hold then hideShade c else some c) = some { c with stack := t } ∧
      CoreOk { c with stack := t } ∧ EnvOk { c with stack := t, hover := none } ∧
      (viewEnvFindHoverView { c with stack := t } msg.under = none →
        EnvOk { c with stack := t }) := by
  by_cases hhold : c.mouseState = .hold
  · obtain ⟨t, hres, ht, he', hlist⟩ := hideShade_env h he.clearHover fun hin => (hfree hhold hin).1
    refine ⟨t, by rw [if_pos hhold, hres], ht, he', fun hunder => he'.setHover fun v hv => ?_⟩
    have hmem : v ∈ c.stack.list := he.hover v hv
    change v ∈ t.list
    rw [hlist]
    refine (List.mem_erase_of_ne fun hvs => ?_).2 hmem
    -- the view under the pointer would be found
    subst hvs
    obtain ⟨w, hw, hwm, hws, hwu⟩ := (hfree hhold hmem).2 hv
    have hwt : w ∈ t.list := by
      rw [hlist]
      exact (List.mem_erase_of_ne hws).2 hw
    have hnot := List.find?_eq_none.1 hunder w (List.mem_reverse.2 hwt)
    simp [hwm, hwu] at hnot
  · exact ⟨c.stack, by rw [if_neg hhold], h, he.clearHover, fun _ => he⟩

/-- The end of a resize. -/
theorem endResize_env (h : CoreOk c) (he : EnvOk c) (msg : MouseMsg V)
    (hfree : msg.resizes = true → c.shade ∈ c.stack.list →
      c.activity ≠ some c.shade ∧ c.hover ≠ some c.shade) :
    ∃ t, (if msg.resizes then hideShade c else some c) = some { c with stack := t } ∧
      EnvOk { c with stack := t } := by
  by_cases hmoved : msg.resizes = true
  · obtain ⟨t, hres, -, he', hlist⟩ := hideShade_env h he.clearHover fun hin => (hfree hmoved hin).1
    refine ⟨t, by rw [if_pos hmoved, hres], he'.setHover fun v hv => ?_⟩
    have hmem : v ∈ c.stack.list := he.hover v hv
    change v ∈ t.list
    rw [hlist]
    refine (List.mem_erase_of_ne fun hvs => ?_).2 hmem
    subst hvs
    exact (hfree hmoved hmem).2 hv
  · exact ⟨c.stack, by rw [if_neg hmoved], he⟩

/-- **A mouse message** that is clear. -/
theorem viewDispatchMouseMsg_env (h : CoreOk c) (he : EnvOk c) {msg : MouseMsg V}
    (hclear : MsgClear c msg) :
    ∃ c', viewDispatchMouseMsg c msg = some c' ∧ EnvOk c' := by
  -- a message that comes through changes nothing before it is delivered
  have hplain : viewEnvFilterMouseMsg c msg = some (c, false) → msg.passes c →
      ∃ c', viewDispatchMouseMsg c msg = some c' ∧ EnvOk c' := by
    intro hfilter hpasses
    rw [viewDispatchMouseMsg_eq, hfilter]
    exact deliverMsg_env h he.clearHover msg (fun _ => he) (hclear.passes hpasses)
  have hfiltered : ∀ c', viewEnvFilterMouseMsg c msg = some (c', true) → EnvOk c' →
      ∃ c', viewDispatchMouseMsg c msg = some c' ∧ EnvOk c' := by
    intro c' hfilter he'
    exact ⟨c', by rw [viewDispatchMouseMsg_eq, hfilter]; rfl, he'⟩
  cases hid : msg.id with
  | other =>
      exact hplain (by simp only [viewEnvFilterMouseMsg, hid]) (by simp only [MouseMsg.passes, hid])
  | lbtnDown =>
      by_cases hbusy : c.resize = none ∧ c.drag = none
      · exact hplain
          (by simp only [viewEnvFilterMouseMsg, hid, hbusy.1, hbusy.2, Option.isSome_none,
            Bool.or_self])
          (by simpa only [MouseMsg.passes, hid] using hbusy)
      · rw [not_and_or, ← ne_eq, ← ne_eq, Option.ne_none_iff_isSome, Option.ne_none_iff_isSome,
          ← Bool.or_eq_true] at hbusy
        exact hfiltered c (by simp only [viewEnvFilterMouseMsg, hid, hbusy]) he
  | lbtnUp =>
      by_cases hresize : c.resize = none
      · by_cases hdrag : c.drag = none
        · exact hplain (by simp [viewEnvFilterMouseMsg, hid, releaseView, hresize, hdrag])
            (by simpa only [MouseMsg.passes, hid] using ⟨hresize, hdrag⟩)
        · -- the pointer is normal when the message is delivered
          have hdragged : c.drag.isSome = true := Option.ne_none_iff_isSome.1 hdrag
          obtain ⟨t, hres, ht, he', hnone⟩ := endDrag_env h he msg fun hhold =>
            hclear.endsDrag ⟨hid, hresize, hdrag, hhold⟩
          rw [viewDispatchMouseMsg_eq]
          simp only [viewEnvFilterMouseMsg, hid, releaseView, hresize, hdragged, Option.isSome_none,
            Bool.false_eq_true, if_false, if_true, hres, Option.map_some, Option.bind_some]
          refine deliverMsg_env
            (c := { c with stack := t, resize := none, drag := none, mouseState := .normal }) ht
            ⟨he'.activity, (fun _ hv => by cases hv), (fun _ hv => by cases hv),
              (fun _ hv => by cases hv),
              he'.shade⟩ msg (fun hunder => ?_) fun hstate => absurd rfl hstate
          have hok := hnone hunder
          exact ⟨hok.activity, hok.hover, (fun _ hv => by cases hv), (fun _ hv => by cases hv),
            hok.shade⟩
      · have hresized : c.resize.isSome = true := Option.ne_none_iff_isSome.1 hresize
        obtain ⟨t, hres, he'⟩ :=
          endResize_env h he msg fun hmoved => hclear.endsResize ⟨hid, hresize, hmoved⟩
        refine hfiltered { c with stack := t, resize := none, mouseState := .normal } ?_
          ⟨he'.activity, he'.hover, he'.drag, (fun _ hv => by cases hv), he'.shade⟩
        simp only [viewEnvFilterMouseMsg, hid, releaseView, hresized, if_true, hres,
          Option.map_some]
  | motion =>
      obtain ⟨t, hshow, he'⟩ := showShade_env h he
      by_cases hresize : c.resize.isSome = true ∧ msg.resizes = true
      · exact hfiltered _ (by
          simp only [viewEnvFilterMouseMsg, hid, moveView, hresize.1, hresize.2, Bool.and_self,
            if_true, hshow, Option.map_some]) he'
      · have hresize' : ¬(c.resize.isSome && msg.resizes) = true := by rwa [Bool.and_eq_true]
        by_cases hdrag : c.drag = none
        · refine hplain (by simp [viewEnvFilterMouseMsg, hid, moveView, hresize', hdrag]) ?_
          simp only [MouseMsg.passes, hid]
          rw [Option.ne_none_iff_isSome]
          exact ⟨hresize, hdrag⟩
        · have hdragged : c.drag.isSome = true := Option.ne_none_iff_isSome.1 hdrag
          refine hfiltered { c with stack := t, mouseState := .hold } ?_
            ⟨he'.activity, he'.hover, he'.drag, he'.resize, he'.shade⟩
          simp only [viewEnvFilterMouseMsg, hid, moveView, if_neg hresize', hdragged, if_true,
            hshow, Option.map_some]

/-! ## Hiding and closing -/

/-- The topmost view but the pointer is right below it. -/
theorem top_below_pointer (h : CoreOk c) (ha : viewEnvFindHoverView c (fun _ => true) = some v) :
    ∃ l, c.stack.list = l ++ [v, c.mouse] := by
  obtain ⟨l, hl⟩ := h.last
  have hnodup := h.shown.ordered.nodup
  rw [hl] at hnodup
  rw [viewEnvFindHoverView, hl, List.reverse_append, List.reverse_singleton, List.singleton_append,
    List.find?_cons_of_neg (by simp)] at ha
  have hmem := List.mem_of_find?_eq_some ha
  rcases List.eq_nil_or_concat' l with rfl | ⟨l', b, rfl⟩
  · cases hmem
  · have hb : b ≠ c.mouse := by
      rintro rfl
      exact (List.disjoint_of_nodup_append hnodup)
        (List.mem_append_right l' (List.mem_singleton_self _))
        (List.mem_singleton_self _)
    rw [List.reverse_append, List.reverse_singleton, List.singleton_append,
      List.find?_cons_of_pos (by simpa using hb)] at ha
    cases ha
    refine ⟨l', ?_⟩
    rw [hl, List.append_assoc, List.singleton_append]

/-- **The hover and the active view after a view has gone.** -/
theorem viewEnvResetHoverAndActivity_env (h : CoreOk c)
    (he : EnvOk { c with activity := none, hover := none })
    (hv : viewEnvFindHoverView c (fun _ => true) = some v) {under : V → Bool}
    (hclear : ∀ w, viewEnvFindHoverView c under = some w → c.mouseState ≠ .normal →
      0 < c.stack.z c.shade →
      v ≠ c.shade ∧ w ≠ c.shade) :
    ∃ c', viewEnvResetHoverAndActivity c under = some c' ∧ EnvOk c' := by
  obtain ⟨l, hl⟩ := top_below_pointer h hv
  have hin : v ∈ c.stack.list := by
    rw [hl]
    exact List.mem_append_right l List.mem_cons_self
  have hat : c.stack.z v = c.stack.z c.middle - 1 := h.below_pointer hl
  have hfind : viewFindByZ c (c.stack.z c.middle - 1) = some v := by
    have hfound : (viewFindByZ c (c.stack.z c.middle - 1)).isSome := by
      rw [viewFindByZ, List.find?_isSome]
      exact ⟨v, h.created v hin, by simpa using hat⟩
    obtain ⟨u, hu⟩ := Option.isSome_iff_exists.1 hfound
    have huz : c.stack.z u = c.stack.z v := by
      rw [hat]
      simpa using List.find?_some hu
    have hpos := (h.shown.ordered.numbered.mem hin).1
    have huin : u ∈ c.stack.list := by
      by_contra hout
      rw [h.shown.out u hout] at huz
      omega
    rw [hu, h.shown.ordered.numbered.inj huin hin huz]
  obtain ⟨t, hactive, ht, -, hstay⟩ := viewEnvTryActivate_env h hin
  obtain rfl := hstay (Or.inr hat)
  rw [viewEnvResetHoverAndActivity, hfind, hactive, Option.bind_some]
  have he' : EnvOk { c with activity := some v, hover := none } := by
    refine ⟨fun w hw => ?_, nofun, he.drag, he.resize, he.shade⟩
    cases hw
    exact hin
  cases hunder : viewEnvFindHoverView { c with activity := some v } under with
  | none => exact ⟨_, rfl, he'⟩
  | some w =>
      obtain ⟨c', hres, hc', -⟩ :=
        viewEnvDoMouseHover_env (c := { c with activity := some v, hover := none }) ht he'
        (mem_of_viewEnvFindHoverView hunder) fun _ hstate hz => by
          obtain ⟨hvs, hws⟩ := hclear w hunder hstate hz
          exact ⟨hws, fun heq => hvs (Option.some.inj heq)⟩
      exact ⟨c', hres, hc'⟩

/-- What is under the pointer when one view is left out. -/
theorem find_erase (hnodup : c.stack.list.Nodup) {t : ZStack V}
    (hlist : t.list = c.stack.list.erase v) (views : List V) (under : V → Bool) :
    viewEnvFindHoverView { c with stack := t, views := views } under =
      viewEnvFindHoverView c fun w => decide (w ≠ v) && under w := by
  simp only [viewEnvFindHoverView]
  rw [hlist, hnodup.erase_eq_filter, ← List.filter_reverse, List.find?_filter]
  congr 1
  funext w
  by_cases hwv : w = v <;> simp [hwv]

/-- The shade is not the lowest view. -/
theorem not_lowest {t : ZStack V} (ht : ShowOk t) (hz : 0 < t.z w) :
    w ∈ t.list ∧ t.list.head? ≠ some w := by
  have hin : w ∈ t.list := by
    by_contra hout
    rw [ht.out w hout] at hz
    omega
  refine ⟨hin, fun hhead => ?_⟩
  obtain ⟨l, hl⟩ := List.head?_eq_some_iff.1 hhead
  have hat := ht.ordered.z_eq (a := []) hl
  rw [hat] at hz
  exact lt_irrefl _ hz

/-- **A view is hidden or closed**, and what is remembered is set anew. -/
theorem reset_env (h : CoreOk c) (he : EnvOk c) {under : V → Bool} (hclear : ResetClear c v under)
    (t : ZStack V) (views : List V) (hc' : CoreOk { c with stack := t, views := views })
    (hlist : t.list = c.stack.list.erase v) :
    ∃ c', viewEnvResetHoverAndActivity { c with stack := t, views := views } under = some c' ∧
      EnvOk c' := by
  obtain ⟨a, ha, hshade⟩ := hclear.other
  have hfind := find_erase (c := c) h.shown.ordered.nodup hlist views
  refine viewEnvResetHoverAndActivity_env (v := a) hc' ?_ ?_ fun w hw hstate hz => ?_
  · have hnone : EnvOk { c with views := views, activity := none, hover := none } :=
      ⟨nofun, nofun, he.drag, he.resize, he.shade⟩
    exact hnone.less hlist nofun nofun hclear.drag hclear.resize
  · rw [hfind, ← ha]
    simp only [Bool.and_true]
  · obtain ⟨hin, hhead⟩ := not_lowest hc'.shown hz
    change c.shade ∈ t.list at hin
    change t.list.head? ≠ some c.shade at hhead
    rw [hlist] at hin hhead
    rw [hfind] at hw
    exact hshade w hw hstate (List.mem_of_mem_erase hin) hhead

/-! ## The calls of the driver -/

variable {s s' : Driver V} {d : Fin viewMaxNr}

omit [DecidableEq V] in
/-- What `view_core_init` leaves. -/
theorem envOk_plain (hactivity : c.activity = none) (hhover : c.hover = none)
    (hdrag : c.drag = none) (hresize : c.resize = none)
    (hshade : c.type c.shade ≠ viewTypeWindow ∧ c.resizable c.shade = false ∧
      c.moveable c.shade = false) :
    EnvOk c := by
  refine ⟨fun v hv => ?_, fun v hv => ?_, fun v hv => ?_, fun v hv => ?_, hshade⟩
  · rw [hactivity] at hv
    cases hv
  · rw [hhover] at hv
    cases hv
  · rw [hdrag] at hv
    cases hv
  · rw [hresize] at hv
    cases hv

theorem viewCoreInit_env {boot : Boot V} (h : viewCoreInit boot = some c) : EnvOk c := by
  obtain ⟨c₁, h₁, h₂⟩ := Option.bind_eq_some_iff.1 h
  obtain ⟨t₁, -, rfl⟩ := Option.map_eq_some_iff.1 h₁
  obtain ⟨t₂, -, rfl⟩ := Option.map_eq_some_iff.1 h₂
  refine envOk_plain rfl rfl rfl rfl ?_
  simp [viewSetType, viewCreate, coreStart, viewTypeFloat, viewTypeWindow]

/-- A view is created. -/
theorem EnvOk.create (he : EnvOk c) (hvs : v ≠ c.shade) (type : ℕ) :
    EnvOk (viewCreate c v type) := by
  refine ⟨he.activity, he.hover, he.drag, he.resize, ?_⟩
  simpa only [viewCreate, viewSetType, Function.update_of_ne (Ne.symm hvs)] using he.shade

/-- `VIEWIO_SHOW`. -/
theorem viewShow_env (h : CoreOk c) (he : EnvOk c) (hclient : Client c v) :
    ∃ c', ((viewShow c v).bind fun c => viewEnvTryActivate c (some v)) = some c' ∧ EnvOk c' := by
  obtain ⟨t, hres, ht, hlist, htop⟩ := setViewZ_spec h hclient.created hclient.ne_mouse le_rfl
  have hshow : viewShow c v = some { c with stack := t } := by
    rw [← hres, viewShow]
    split_ifs <;> rfl
  obtain ⟨l, hl⟩ := htop rfl
  have hin : v ∈ t.list := by
    rw [hl]
    exact List.mem_append_right l List.mem_cons_self
  have hmore : ∀ w ∈ c.stack.list, w ∈ t.list := by
    intro w hw
    by_cases hwv : w = v
    · rwa [hwv]
    · rw [hlist]
      exact (mem_place_of_ne h.shown.ordered.nodup hwv _).2 hw
  obtain ⟨t', hactive, -, hlist', -⟩ := viewEnvTryActivate_env ht hin
  refine ⟨{ c with stack := t', activity := some v }, ?_,
    ⟨fun w hw => ?_, fun w hw => ?_, fun w hw => ?_, fun w hw => ?_, he.shade⟩⟩
  · rw [hshow, Option.bind_some]
    exact hactive
  · cases hw
    exact (hlist' v).2 hin
  · exact (hlist' w).2 (hmore w (he.hover w hw))
  · exact ⟨(hlist' w).2 (hmore w (he.drag w hw).1), (he.drag w hw).2⟩
  · exact ⟨(hlist' w).2 (hmore w (he.resize w hw).1), (he.resize w hw).2⟩

/-- `view_close` of a view that is open once. -/
theorem viewClose_env (h : DriverOk s) (hc : s.core = some c) (hd : s.view d = some v)
    (he : EnvOk c) {destroyed : Bool} {under : V → Bool}
    (hclear : destroyed = true → s.openCount ≠ 1 → 0 ≤ c.stack.z v → ResetClear c v under)
    (hres : viewClose s d c destroyed under = some s') (hc' : s'.core = some c') : EnvOk c' := by
  obtain ⟨hok, hviews⟩ := h.core c hc
  have hclient := hviews d v hd
  obtain ⟨t, hhide, ht, hlist⟩ := viewHide_spec hok hclient.created hclient.ne_mouse
  have hout : v ∉ t.list := hlist ▸ hok.shown.ordered.nodup.not_mem_erase
  simp only [viewClose, hd, hhide, Option.bind_some] at hres
  cases destroyed with
  | true =>
      rw [if_pos rfl] at hres
      obtain ⟨c₂, hc₂, rfl⟩ := Option.map_eq_some_iff.1 hres
      simp only [viewCloseCount] at hc'
      split_ifs at hc' with hlast
      cases hc'
      have hone : s.openCount ≠ 1 := fun heq => hlast (by rw [heq])
      split_ifs at hc₂ with hz
      · have hdestroy : CoreOk (viewDestroy { c with stack := t } v) :=
          ht.destroy hout hclient.ne_shade
        have hlist' : t.list.erase v = c.stack.list.erase v := by
          rw [List.erase_of_not_mem hout, hlist]
        obtain ⟨c₃, hc₃, he₃⟩ := reset_env hok he (hclear rfl hone hz)
          { t with list := t.list.erase v } (c.views.erase v) hdestroy hlist'
        cases hc₂.symm.trans hc₃
        exact he₃
      · cases hc₂
        have hgone : v ∉ c.stack.list := fun hmem => hz (hok.shown.ordered.numbered.mem hmem).1
        have hsame : (t.list.erase v) = c.stack.list := by
          rw [List.erase_of_not_mem hout, hlist, List.erase_of_not_mem hgone]
        have hmore := he.more (t := { t with list := t.list.erase v }) fun w hw => by rwa [hsame]
        exact ⟨hmore.activity, hmore.hover, hmore.drag, hmore.resize, hmore.shade⟩
  | false =>
      -- the view goes back to where it was
      rw [if_neg Bool.false_ne_true] at hres
      obtain ⟨c₂, hc₂, rfl⟩ := Option.map_eq_some_iff.1 hres
      cases hc'
      obtain ⟨t', ht', rfl⟩ := Option.map_eq_some_iff.1 hc₂
      obtain ⟨t₁, hres₁, -, hlist₁⟩ := viewSetZ_spec ht.shown (v, c.stack.z v)
      cases ht'.symm.trans hres₁
      refine EnvOk.more (c := c) he fun w hw => ?_
      change t'.list = place t.list v (c.stack.z v) at hlist₁
      rw [hlist₁]
      by_cases hwv : w = v
      · subst hwv
        exact (mem_place (hok.shown.ordered.numbered.mem hw).1).2 (Or.inl rfl)
      · have hwt : w ∈ t.list := by
          rw [hlist]
          exact (List.mem_erase_of_ne hwv).2 hw
        exact (mem_place_of_ne ht.shown.ordered.nodup hwv _).2 hwt

/-- Opening a device leaves the views of the others. -/
theorem viewOpen_view {e : Fin viewMaxNr} (hne : d ≠ e) (type : ℕ) (boot : Option (Boot V))
    (memory : Alloc V) :
    (viewOpen s e type boot memory).view d = s.view d := by
  unfold viewOpen
  split
  · rfl
  · split
    · rfl
    · split
      · rfl
      · exact Function.update_of_ne hne _ _

/-- Closing a device leaves the views of the others, and its own if `view_destroy` fails. -/
theorem viewClose_view {e : Fin viewMaxNr} {destroyed : Bool} {under : V → Bool}
    (hres : viewClose s e c destroyed under = some s') (hd : s.view d = some v)
    (hkeep : d ≠ e ∨ destroyed = false) : s'.view d = some v := by
  unfold viewClose at hres
  split at hres
  · next hnone =>
      cases hres
      have hne : d ≠ e := by
        rintro rfl
        rw [hd] at hnone
        cases hnone
      exact (Function.update_of_ne hne _ _).trans hd
  · obtain ⟨c₁, -, hres⟩ := Option.bind_eq_some_iff.1 hres
    cases destroyed with
    | true =>
        rw [if_pos rfl] at hres
        obtain ⟨c₂, -, rfl⟩ := Option.map_eq_some_iff.1 hres
        exact (Function.update_of_ne (hkeep.resolve_right nofun) _ _).trans hd
    | false =>
        rw [if_neg Bool.false_ne_true] at hres
        obtain ⟨c₂, -, rfl⟩ := Option.map_eq_some_iff.1 hres
        exact hd

omit [DecidableEq V] in
/-- Showing, hiding and the mouse change the core alone. -/
theorem map_core_view {o : Option (Core V)} (hres : (o.map fun c => { s with core := some c }) =
    some s') :
    s'.view = s.view := by
  obtain ⟨c₂, -, rfl⟩ := Option.map_eq_some_iff.1 hres
  rfl

/-- A device keeps its view, unless the call destroys it. -/
theorem viewStep_view {call : ViewCall V} (h : DriverOk s) (hres : viewStep s call = some s')
    (hd : s.view d = some v) : s'.view d = some v ∨ destroyedView s call = some v := by
  cases call with
  | open_ e type boot memory =>
      left
      simp only [viewStep] at hres
      split_ifs at hres with he
      · have hne : d ≠ e := by
          rintro rfl
          have hopen := (h.opened d).1 (by rw [hd]; rfl)
          omega
        cases hres
        rw [viewOpen_view hne, hd]
      · cases hres
        exact hd
  | close e destroyed under =>
      simp only [viewStep] at hres
      split_ifs at hres with he
      · cases hc : s.core with
        | none =>
            simp only [hc] at hres
            cases hres
            exact Or.inl hd
        | some c =>
            simp only [hc] at hres
            by_cases hkeep : d ≠ e ∨ destroyed = false
            · exact Or.inl (viewClose_view hres hd hkeep)
            · rw [not_or, not_ne_iff, Bool.not_eq_false] at hkeep
              obtain ⟨rfl, rfl⟩ := hkeep
              right
              simp only [destroyedView, he, hc, Option.isSome_some, and_self, if_true, hd]
      · cases hres
        exact Or.inl hd
  | show_ e =>
      left
      simp only [viewStep] at hres
      split at hres
      · rw [map_core_view hres, hd]
      · cases hres
        exact hd
  | hide e under =>
      left
      simp only [viewStep] at hres
      split at hres
      · rw [map_core_view hres, hd]
      · cases hres
        exact hd
  | mouse msg =>
      left
      simp only [viewStep] at hres
      split at hres
      · cases hres
        exact hd
      · rw [map_core_view hres, hd]

/-! ## All calls -/

/-- **The environment is in order**: so is the core, and the monitor and the timers have views of
devices. -/
structure EnvInv (s : Env V) : Prop where
  driver : DriverOk s.driver
  core : ∀ c, s.driver.core = some c → EnvOk c
  monitor : ∀ v, s.monitor = some v → ∃ d, s.driver.view d = some v
  timers : ∀ timer ∈ s.timers, ∀ v, timer.view = some v → ∃ d, s.driver.view d = some v

omit [DecidableEq V] in
/-- The invariant is more than what is asked for. -/
theorem EnvInv.refersOk {s : Env V} (h : EnvInv s) : RefersOk s := by
  have hshown : ∀ {c : Core V} {o : Option V}, s.driver.core = some c →
    (∀ v, o = some v → v ∈ c.stack.list) →
      RefersShown c o := fun hc ho v hv => ⟨(h.driver.core _ hc).1.created v (ho v hv), ho v hv⟩
  have hexists : ∀ {o : Option V}, (∀ v, o = some v → ∃ d, s.driver.view d = some v) →
      RefersExisting s.driver o := by
    intro o ho v hv
    obtain ⟨d, hd⟩ := ho v hv
    obtain ⟨c, hc, -, hclient⟩ := h.driver.core_of_view hd
    exact ⟨c, hc, hclient.created⟩
  exact ⟨fun c hc => hshown hc (h.core c hc).activity, fun c hc => hshown hc (h.core c hc).hover,
    fun c hc => hshown hc fun v hv => ((h.core c hc).drag v hv).1,
    fun c hc => hshown hc fun v hv => ((h.core c hc).resize v hv).1, hexists h.monitor,
    fun timer htimer => hexists (h.timers timer htimer)⟩

/-- `view_open` of a device that is not open. -/
theorem viewOpen_env (h : DriverOk s) (hcore : ∀ c, s.core = some c → EnvOk c) {type : ℕ}
    {boot : Option (Boot V)} {memory : Alloc V}
    (hc' : (viewOpen s d type boot memory).core = some c') :
    EnvOk c' := by
  unfold viewOpen at hc'
  cases hopen : coreForOpen s boot with
  | none =>
      rw [hopen] at hc'
      exact hcore c' hc'
  | some c =>
      have he : EnvOk c := by
        unfold coreForOpen at hopen
        split_ifs at hopen
        · obtain ⟨boot', -, hinit⟩ := Option.bind_eq_some_iff.1 hopen
          exact viewCoreInit_env hinit
        · exact hcore c hopen
      simp only [hopen] at hc'
      split at hc'
      · cases hc'
        exact he
      · split at hc'
        · cases hc'
          exact he
        · next v hmem =>
            cases hc'
            refine he.create (fun heq => memory.fresh _ _ hmem ?_) type
            rw [heq]
            exact (coreForOpen_ok h hopen).1.shade.1

/-- The core after a call of the driver. -/
theorem viewStep_env {s : Env V} (h : EnvInv s) {call : ViewCall V}
    (hclear : EnvCall.Clear s (.view call))
    (hres : viewStep s.driver call = some s') (hc' : s'.core = some c') : EnvOk c' := by
  cases call with
  | open_ d type boot memory =>
      simp only [viewStep] at hres
      split_ifs at hres with hd
      · cases hres
        exact viewOpen_env h.driver h.core hc'
      · cases hres
        exact h.core c' hc'
  | close d destroyed under =>
      simp only [viewStep] at hres
      split_ifs at hres with hd
      · cases hc : s.driver.core with
        | none =>
            simp only [hc] at hres
            cases hres
            rw [hc] at hc'
            cases hc'
        | some c =>
            simp only [hc] at hres
            obtain ⟨v, hv⟩ := Option.isSome_iff_exists.1 ((h.driver.opened d).2 (by omega))
            refine viewClose_env h.driver hc hv (h.core c hc) (fun hdestroyed => ?_) hres hc'
            subst hdestroyed
            exact (hclear hd c v hc hv).2
      · cases hres
        exact h.core c' hc'
  | show_ d =>
      cases hd : s.driver.view d with
      | none =>
          have hsame : s' = s.driver := by cases hc : s.driver.core <;> simp_all [viewStep]
          exact h.core c' (hsame ▸ hc')
      | some v =>
          obtain ⟨c, hc, hok, hclient⟩ := h.driver.core_of_view hd
          obtain ⟨c₁, hshow, he₁⟩ := viewShow_env hok (h.core c hc) hclient
          simp only [viewStep, hc, hd, hshow, Option.map_some] at hres
          cases hres
          cases hc'
          exact he₁
  | hide d under =>
      cases hd : s.driver.view d with
      | none =>
          have hsame : s' = s.driver := by cases hc : s.driver.core <;> simp_all [viewStep]
          exact h.core c' (hsame ▸ hc')
      | some v =>
          obtain ⟨c, hc, hok, hclient⟩ := h.driver.core_of_view hd
          obtain ⟨t, hhide, ht, hlist⟩ := viewHide_spec hok hclient.created hclient.ne_mouse
          obtain ⟨c₁, hreset, he₁⟩ := reset_env hok (h.core c hc) (hclear c v hc hd) _ _ ht hlist
          simp only [viewStep, hc, hd, hhide, Option.bind_some] at hres
          rw [show viewEnvResetHoverAndActivity { c with stack := t } under = some c₁ from hreset]
            at hres
          cases hres
          cases hc'
          exact he₁
  | mouse msg =>
      cases hc : s.driver.core with
      | none =>
          simp only [viewStep, hc] at hres
          cases hres
          rw [hc] at hc'
          cases hc'
      | some c =>
          obtain ⟨c₁, hmsg, he₁⟩ :=
            viewDispatchMouseMsg_env (h.driver.core c hc).1 (h.core c hc) (hclear c hc)
          simp only [viewStep, hc, hmsg, Option.map_some] at hres
          cases hres
          cases hc'
          exact he₁

omit [DecidableEq V] in
/-- A timer is added. -/
theorem mem_timerAdd {s : Env V} {timer t : PendingTimer V} {earliest : Bool}
    (ht : t ∈ (timerAdd s timer earliest).timers) : t ∈ s.timers ∨ t.view = timer.view := by
  unfold timerAdd at ht
  obtain ⟨new, hid⟩ : ∃ new, new = if timer.id = 0 then
    { timer with id := s.timerIdNext } else timer := ⟨_, rfl⟩
  have hnew : new.view = timer.view := by
    rw [hid]
    split_ifs <;> rfl
  simp only [← hid] at ht
  have hcases : t = new ∨ t ∈ s.timers := by
    cases hs : s.timers with
    | nil =>
        rw [hs] at ht
        exact Or.inl (List.mem_singleton.1 ht)
    | cons first rest =>
        rw [hs] at ht
        cases earliest with
        | true => exact List.mem_cons.1 ht
        | false =>
            rcases List.mem_cons.1 ht with rfl | ht
            · exact Or.inr List.mem_cons_self
            · exact (List.mem_cons.1 ht).imp_right (List.mem_cons_of_mem first)
  rcases hcases with rfl | hmem
  · exact Or.inr hnew
  · exact Or.inl hmem

omit [DecidableEq V] in
/-- The timers have changed, and the new ones are for views of devices. -/
theorem EnvInv.timers_mk {s : Env V} (h : EnvInv s) {timers : List (PendingTimer V)}
    {timerIdNext : ℕ}
    (htimers : ∀ t ∈ timers, t ∈ s.timers ∨ ∀ v, t.view = some v → ∃ d, s.driver.view d = some v) :
    EnvInv { s with timers := timers, timerIdNext := timerIdNext } :=
  ⟨h.driver, h.core, h.monitor, fun t ht => (htimers t ht).elim (h.timers t) id⟩

omit [DecidableEq V] in
theorem EnvInv.addTimer {s : Env V} (h : EnvInv s) {view : Option V}
    (hview : ∀ v, view = some v → ∃ d, s.driver.view d = some v) (id : ℕ) (earliest : Bool) :
    EnvInv (timerAdd { s with timerIdNext := s.timerIdNext + 1 } ⟨id, view⟩ earliest) := by
  refine h.timers_mk fun t ht => (mem_timerAdd ht).imp_right fun heq v hv => hview v ?_
  rw [← hv, heq]

/-- A view that is destroyed has no timer, if the call is clear. -/
theorem destroyedView_timers {s : Env V} {call : ViewCall V} (hclear : EnvCall.Clear s (.view call))
    (hgone : destroyedView s.driver call = some v) : ∀ t ∈ s.timers, t.view ≠ some v := by
  unfold destroyedView at hgone
  split at hgone
  · next d under =>
      split_ifs at hgone with hopen
      obtain ⟨c, hc⟩ := Option.isSome_iff_exists.1 hopen.2
      exact (hclear hopen.1 c v hc hgone).1
  · cases hgone

/-- A call of the driver. -/
theorem viewCall_env {s : Env V} (h : EnvInv s) {call : ViewCall V}
    (hclear : EnvCall.Clear s (.view call)) :
    ∃ s', envStep s (.view call) = some s' ∧ EnvInv s' := by
  obtain ⟨driver, hres, hdriver⟩ := viewStep_spec h.driver call
  have hcore : ∀ c, driver.core = some c → EnvOk c := fun c hc => viewStep_env h hclear hres hc
  have hview : ∀ {v}, destroyedView s.driver call ≠ some v → (∃ d, s.driver.view d = some v) →
      ∃ d, driver.view d = some v := fun hnot ⟨d, hd⟩ =>
    ⟨d, (viewStep_view h.driver hres hd).resolve_right hnot⟩
  simp only [envStep, hres, Option.map_some]
  refine ⟨_, rfl, ?_⟩
  cases hgone : destroyedView s.driver call with
  | none =>
      have hkeep : ∀ {v}, (∃ d, s.driver.view d = some v) → ∃ d, driver.view d = some v :=
        hview (by rw [hgone]; nofun)
      exact ⟨hdriver, hcore, fun v hv => hkeep (h.monitor v hv),
        fun t ht v hv => hkeep (h.timers t ht v hv)⟩
  | some u =>
      have hkeep : ∀ {v}, v ≠ u → (∃ d, s.driver.view d = some v) → ∃ d, driver.view d = some v :=
        fun hvu =>
        hview (by rw [hgone]; exact fun heq => hvu (Option.some.inj heq).symm)
      have hkept : ∀ t ∈ s.timers, ∀ v, t.view = some v → ∃ d, driver.view d = some v :=
        fun t ht v hv =>
        hkeep (fun heq => destroyedView_timers hclear hgone t ht (heq ▸ hv)) (h.timers t ht v hv)
      dsimp only
      unfold viewEnvCheckMonitorExit
      split_ifs with hmonitor
      · exact ⟨hdriver, hcore, nofun, hkept⟩
      · refine ⟨hdriver, hcore, fun v hv => hkeep (fun heq => hmonitor ?_) (h.monitor v hv), hkept⟩
        rw [← heq]
        exact hv

/-- **Every call that is clear keeps the environment in order.** -/
theorem envStep_spec {s : Env V} (h : EnvInv s) {call : EnvCall V} (hclear : call.Clear s) :
    ∃ s', envStep s call = some s' ∧ EnvInv s' := by
  cases call with
  | view call => exact viewCall_env h hclear
  | addTimer d memory earliest =>
      simp only [envStep]
      cases hd : s.driver.view d with
      | none => exact ⟨s, rfl, h⟩
      | some v =>
          refine ⟨_, rfl, ?_⟩
          unfold viewEnvAddTimer
          split_ifs
          · refine h.addTimer (fun w hw => ?_) _ earliest
            cases hw
            exact ⟨d, hd⟩
          · exact h
  | delTimer d id =>
      simp only [envStep]
      cases hd : s.driver.view d with
      | none => exact ⟨s, rfl, h⟩
      | some v => exact ⟨_, rfl, h.timers_mk fun t ht => Or.inl (List.mem_of_mem_eraseP ht)⟩
  | restartTimer d id memory earliest =>
      simp only [envStep]
      cases hd : s.driver.view d with
      | none => exact ⟨s, rfl, h⟩
      | some v =>
          refine ⟨_, rfl, ?_⟩
          unfold viewEnvRestartTimer
          cases timerFind s id with
          | some t => exact h
          | none =>
              dsimp only
              split_ifs
              · refine h.addTimer (fun w hw => ?_) _ earliest
                cases hw
                exact ⟨d, hd⟩
              · exact h
  | setMonitor d isMonitor =>
      simp only [envStep]
      cases hd : s.driver.view d with
      | none => exact ⟨s, rfl, h⟩
      | some v =>
          refine ⟨_, rfl, ?_⟩
          unfold viewEnvSetMonitor
          split_ifs
          · refine ⟨h.driver, h.core, fun w hw => ?_, h.timers⟩
            cases hw
            exact ⟨d, hd⟩
          · exact ⟨h.driver, h.core, nofun, h.timers⟩
          · exact h
  | expire i => exact ⟨_, rfl, h.timers_mk fun t ht => Or.inl (List.mem_of_mem_eraseIdx ht)⟩
  | kernelTimer earliest =>
      exact ⟨_, rfl, h.addTimer (fun v hv => nomatch (hv : (none : Option V) = some v)) _ earliest⟩
  | key => exact ⟨s, rfl, h⟩

/-- **Nothing refers to a view that is gone or hidden**, in every run from the start of the driver
whose calls are clear. -/
theorem refers_to_shown (V : Type) [DecidableEq V] (timers : List (PendingTimer V))
    (htimers : ∀ t ∈ timers, t.view = none) (timerIdNext : ℕ) (calls : List (EnvCall V))
    (hclear : Run.Along envStep (fun s call => call.Clear s) (envStart timers timerIdNext) calls) :
    ∃ s, Run.exec envStep (envStart timers timerIdNext) calls = some s ∧ RefersOk s := by
  have hstart : EnvInv (envStart timers timerIdNext) := by
    refine ⟨driverOk_enter, fun c hc => ?_, fun v hv => ?_, fun t ht v hv => ?_⟩
    · cases hc
    · cases hv
    · rw [htimers t ht] at hv
      cases hv
  obtain ⟨s, hrun, hs⟩ := Run.exec_total (P := fun s call => EnvCall.Clear s call) (I := EnvInv)
    (fun s call h hcall => envStep_spec h hcall) calls _ hstart hclear
  exact ⟨s, hrun, hs.refersOk⟩

/-! ## Two clients -/

/-- An allocator with two blocks. -/
def twoBlocks : Alloc ℕ where
  answer inUse := if 2 ∈ inUse then (if 3 ∈ inUse then none else some 3) else some 2
  fresh inUse v hv := by
    split_ifs at hv with htwo hthree
    · cases hv
      exact hthree
    · cases hv
      exact htwo

/-- A client opens a device; the pointer is view 0 and the shade view 1. -/
def clientOpen (d : Fin viewMaxNr) : EnvCall ℕ :=
  .view (.open_ d viewTypeWindow (some ⟨0, 1, Nat.one_ne_zero⟩) twoBlocks)

/-- The pressing of the left button over a view. -/
def pressOver (v : ℕ) : EnvCall ℕ :=
  .view (.mouse ⟨.lbtnDown, fun w => w == v, fun _ => .within, fun _ => false, false⟩)

/-- **The only view is hidden and stays active**; and a view is closed while a timer for it is
running. -/
theorem refers_to_hidden :
    (∃ s, Run.exec envStep (envStart [] 1) [clientOpen 0, .view (.show_ 0),
      .view (.hide 0 fun _ => false)] = some s ∧
      ¬RefersOk s) ∧
    ∃ s, Run.exec envStep (envStart [] 1)
      [clientOpen 0, clientOpen 1, .addTimer 0 true true, .view (.close 0 true fun _ => false)] =
        some s ∧
        ¬RefersOk s := by
  constructor
  · have hrun : (Run.exec envStep (envStart [] 1)
        [clientOpen 0, .view (.show_ 0), .view (.hide 0 fun _ => false)]).any (fun s =>
          s.driver.core.any fun c => decide (c.activity = some 2) && decide (2 ∉ c.stack.list)) =
            true := by
      decide +kernel
    obtain ⟨s, hs, hwrong⟩ := (Option.any_eq_true _ _).1 hrun
    obtain ⟨c, hc, hactive⟩ := (Option.any_eq_true _ _).1 hwrong
    simp only [Bool.and_eq_true, decide_eq_true_eq] at hactive
    exact ⟨s, hs, fun h => hactive.2 (h.activity c hc 2 hactive.1).2⟩
  · have hrun : (Run.exec envStep (envStart [] 1)
        [clientOpen 0, clientOpen 1, .addTimer 0 true true,
          .view (.close 0 true fun _ => false)]).any (fun s =>
          decide (s.timers.map PendingTimer.view = [some 2]) &&
            s.driver.core.all fun c => decide (2 ∉ c.views)) = true := by
      decide +kernel
    obtain ⟨s, hs, hwrong⟩ := (Option.any_eq_true _ _).1 hrun
    simp only [Bool.and_eq_true, decide_eq_true_eq] at hwrong
    obtain ⟨htimers, hviews⟩ := hwrong
    refine ⟨s, hs, fun h => ?_⟩
    obtain ⟨t, ht, hview⟩ : ∃ t ∈ s.timers, t.view = some 2 := by
      have hmem : some 2 ∈ s.timers.map PendingTimer.view := by
        rw [htimers]
        exact List.mem_singleton_self _
      exact List.mem_map.1 hmem
    obtain ⟨c, hc, hexists⟩ := h.timers t ht 2 hview
    rw [hc] at hviews
    exact of_decide_eq_true hviews hexists

/-- Nothing is dragged or resized. -/
def Core.isIdle (c : Core ℕ) : Bool :=
  decide (c.drag = none ∧ c.resize = none ∧ c.mouseState = .normal)

/-- Calls that are clear since nothing is dragged or resized. -/
def plainCall (s : Env ℕ) : EnvCall ℕ → Bool
  | .view (.close d _ _) =>
      s.driver.core.all fun c => (s.driver.view d).all fun v =>
        c.isIdle && (viewEnvFindHoverView c fun w => decide (w ≠ v)).isSome &&
          s.timers.all fun timer => decide (timer.view ≠ some v)
  | .view (.hide d _) =>
      s.driver.core.all fun c => (s.driver.view d).all fun v =>
        c.isIdle && (viewEnvFindHoverView c fun w => decide (w ≠ v)).isSome
  | .view (.mouse _) => s.driver.core.all Core.isIdle
  | _ => true

theorem Core.isIdle.resetClear {c : Core ℕ} (h : c.isIdle = true) {v : ℕ}
    (hother : (viewEnvFindHoverView c fun w => decide (w ≠ v)).isSome = true) (under : ℕ → Bool) :
    ResetClear c v under := by
  obtain ⟨hdrag, hresize, hnormal⟩ := of_decide_eq_true h
  obtain ⟨a, ha⟩ := Option.isSome_iff_exists.1 hother
  exact ⟨by simp [hdrag], by simp [hresize], a, ha, fun w _ hstate => absurd hnormal hstate⟩

theorem plainCall.clear {s : Env ℕ} {call : EnvCall ℕ} (h : plainCall s call = true) :
    call.Clear s := by
  cases call with
  | view call =>
      cases call with
      | close d destroyed under =>
          cases destroyed with
          | false => trivial
          | true =>
              intro _ c v hc hv
              rw [plainCall, hc, hv] at h
              simp only [Option.all_some, Bool.and_eq_true] at h
              obtain ⟨⟨hidle, hother⟩, htimers⟩ := h
              exact ⟨fun timer ht => of_decide_eq_true (List.all_eq_true.1 htimers timer ht),
                fun _ _ => Core.isIdle.resetClear hidle hother under⟩
      | hide d under =>
          intro c v hc hv
          rw [plainCall, hc, hv] at h
          simp only [Option.all_some, Bool.and_eq_true] at h
          exact Core.isIdle.resetClear h.1 h.2 under
      | mouse msg =>
          intro c hc
          rw [plainCall, hc] at h
          obtain ⟨hdrag, hresize, hnormal⟩ := of_decide_eq_true (h : c.isIdle = true)
          exact ⟨fun hends => absurd hresize hends.2.1, fun hends => absurd hdrag hends.2.2.1,
            fun _ hstate => absurd hnormal hstate⟩
      | open_ d type boot memory => trivial
      | show_ d => trivial
  | addTimer d memory earliest => trivial
  | delTimer d id => trivial
  | restartTimer d id memory earliest => trivial
  | setMonitor d isMonitor => trivial
  | expire i => trivial
  | kernelTimer earliest => trivial
  | key => trivial

/-- Two clients show their windows and start timers; one is clicked on, hides and closes when its
timer is off. -/
theorem refers_to_shown_two :
    ∃ s, Run.exec envStep (envStart [] 1)
        [clientOpen 0, clientOpen 1, .view (.show_ 0), .view (.show_ 1), .addTimer 0 true true,
          .addTimer 1 true true,
          .setMonitor 1 true, pressOver 3, .restartTimer 0 1 true false, .delTimer 1 2,
          .view (.hide 1 fun _ => true), .view (.show_ 1), .key,
          .view (.close 1 true fun _ => true)] = some s ∧
      RefersOk s := by
  refine refers_to_shown ℕ [] nofun 1 _ ?_
  exact Run.along_mono (P := fun s call => plainCall s call = true)
    (fun s call hcall => plainCall.clear hcall) _ _
    (by decide +kernel)

end View
end LightOS
