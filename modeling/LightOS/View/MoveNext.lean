import LightOS.View.ZOrder

/-!
# Moves next to another view

`view_move_under_view` and `view_move_upper_view` of `drivers/view/core/view.c`.  They set the
number of the view to the one before or after that of the target; `view_set_z` counts the place
among the other views, which a view below the target changes.

* `z_target` — the number of the target and its place among the others.
* `moves_land_iff` — when the view is next to its target.
-/

namespace LightOS
namespace View

open ZOrder Stacking

variable {V : Type} [DecidableEq V]

/-- `view_move_under_view`. -/
def ZStack.viewMoveUnderView (s : ZStack V) (view target : V) : Option (ZStack V) :=
  viewSetZ s (view, s.z target - 1)

/-- `view_move_upper_view`. -/
def ZStack.viewMoveUpperView (s : ZStack V) (view target : V) : Option (ZStack V) :=
  viewSetZ s (view, s.z target + 1)

/-- The view is shown right below the target, and the others keep their order. -/
def LandsUnder (s : ZStack V) (view target : V) : Prop :=
  ∃ t, ZStack.viewMoveUnderView s view target = some t ∧
    (∃ a b, t.list = a ++ view :: target :: b) ∧
    t.list.erase view = s.list.erase view

/-- The view is shown right above the target, and the others keep their order. -/
def LandsUpper (s : ZStack V) (view target : V) : Prop :=
  ∃ t, ZStack.viewMoveUpperView s view target = some t ∧
    (∃ a b, t.list = a ++ target :: view :: b) ∧
    t.list.erase view = s.list.erase view

/-- The view is shown below the target. -/
def ShownBelow (s : ZStack V) (view target : V) : Prop := view ∈ s.list ∧ s.z view < s.z target

variable {s : ZStack V} {v t : V} {a b : List V}

/-- A view below the target is counted in its number. -/
theorem z_target (h : ShowOk s) (ht : t ∈ s.list) (hne : v ≠ t) :
    ∃ a b, s.list.erase v = a ++ t :: b ∧
      (ShownBelow s v t ∧ s.z t = a.length + 1 ∧ s.topZ = a.length + b.length + 1 ∨
        ¬ ShownBelow s v t ∧ s.z t = a.length) := by
  by_cases hv : v ∈ s.list
  · obtain ⟨p, q, hcut⟩ := h.ordered.cut hv
    have hmem : t ∈ p ++ v :: q := hcut.list ▸ ht
    rcases List.mem_append.1 hmem with htp | htq
    · obtain ⟨p₁, p₂, rfl⟩ := List.append_of_mem htp
      have hz : s.z t = p₁.length := by
        refine h.ordered.z_eq (b := p₂ ++ v :: q) ?_
        rw [hcut.list]
        simp
      refine ⟨p₁, p₂ ++ q, by rw [hcut.rest]; simp, Or.inr ⟨fun hbelow => ?_, hz⟩⟩
      have hlt := hbelow.2
      rw [hz, hcut.at_, List.length_append] at hlt
      omega
    · obtain ⟨q₁, q₂, rfl⟩ := List.append_of_mem ((List.mem_cons.1 htq).resolve_left hne.symm)
      have hz : s.z t = (p ++ v :: q₁).length := by
        refine h.ordered.z_eq (b := q₂) ?_
        rw [hcut.list]
        simp
      have hv := hcut.at_
      have htop := hcut.top
      simp only [List.length_append, List.length_cons] at hz htop
      push_cast at hz htop
      refine ⟨p ++ q₁, q₂, by rw [hcut.rest]; simp, Or.inl ⟨⟨‹_›, by omega⟩, ?_, ?_⟩⟩
      · rw [List.length_append]
        push_cast
        omega
      · rw [List.length_append]
        push_cast
        omega
  · obtain ⟨p, q, hlist⟩ := List.append_of_mem ht
    exact ⟨p, q, by rw [List.erase_of_not_mem hv, hlist],
      Or.inr ⟨fun hbelow => hv hbelow.1, h.ordered.z_eq hlist⟩⟩

/-- The call places the view, and the others keep their order. -/
theorem viewSetZ_next_iff (h : ShowOk s) (n : ℤ) (P : List V → Prop) :
    (∃ t, viewSetZ s (v, n) = some t ∧ P t.list ∧ t.list.erase v = s.list.erase v) ↔
      P (place s.list v n) := by
  obtain ⟨t, hres, -, hlist⟩ := viewSetZ_spec h (v, n)
  constructor
  · rintro ⟨t', ht', hP, -⟩
    rw [hres, Option.some.injEq] at ht'
    rwa [← hlist, ht']
  · intro hP
    refine ⟨t, hres, hlist ▸ hP, ?_⟩
    rw [hlist]
    exact place_erase h.ordered.nodup v n

theorem landsUnder_iff (h : ShowOk s) (ht : t ∈ s.list) (hne : v ≠ t) :
    LandsUnder s v t ↔ ShownBelow s v t := by
  obtain ⟨a, b, hrest, hz⟩ := z_target h ht hne
  refine (viewSetZ_next_iff h _ fun l => ∃ a b, l = a ++ v :: t :: b).trans ?_
  rw [place_below_iff h.ordered.nodup hrest]
  rcases hz with ⟨hbelow, hz, -⟩ | ⟨hbelow, hz⟩
  · exact iff_of_true (by omega) hbelow
  · exact iff_of_false (by omega) hbelow

theorem landsUpper_iff (h : ShowOk s) (ht : t ∈ s.list) (hne : v ≠ t) :
    LandsUpper s v t ↔ (ShownBelow s v t → s.z t = s.topZ) := by
  obtain ⟨a, b, hrest, hz⟩ := z_target h ht hne
  refine (viewSetZ_next_iff h _ fun l => ∃ a b, l = a ++ t :: v :: b).trans ?_
  rw [place_above_iff h.ordered.nodup hrest]
  rcases hz with ⟨hbelow, hz, htop⟩ | ⟨hbelow, hz⟩
  · have hb : b = [] ↔ s.z t = s.topZ := by
      rw [← List.length_eq_zero_iff]
      omega
    rw [← hb]
    exact ⟨fun hn _ => hn.elim (fun heq => by omega) And.left,
      fun hlast => Or.inr ⟨hlast hbelow, by omega⟩⟩
  · exact iff_of_true (Or.inl (by omega)) fun hshown => absurd hshown hbelow

/-- **When the view is next to its target.** -/
theorem moves_land_iff (h : ShowOk s) (ht : t ∈ s.list) (hne : v ≠ t) :
    (LandsUnder s v t ↔ ShownBelow s v t) ∧ (LandsUpper s v t ↔
      (ShownBelow s v t → s.z t = s.topZ)) :=
  ⟨landsUnder_iff h ht hne, landsUpper_iff h ht hne⟩

/-- Three views, the third on top. -/
def threeViews : ZStack ℕ := ⟨[0, 1, 2], fun v => if v < 3 then v else -1, 2⟩

theorem showOk_threeViews : ShowOk threeViews where
  ordered := ⟨by decide, by decide⟩
  out := by
    intro v hv
    simp only [threeViews, List.mem_cons, List.not_mem_nil, or_false, not_or] at hv
    exact if_neg (by omega)

theorem moves_land_three : (LandsUnder threeViews 0 2 ↔ ShownBelow threeViews 0 2) ∧
    (LandsUpper threeViews 0 2 ↔ (ShownBelow threeViews 0 2 → threeViews.z 2 = threeViews.topZ)) :=
  moves_land_iff showOk_threeViews (by decide) (by decide)

/-- The top view goes under the middle one and comes one too low, or is hidden under the bottom
one; the bottom view goes above the middle one and comes one too high. -/
theorem moves_miss_three : ShowOk threeViews ∧
    (ZStack.viewMoveUnderView threeViews 2 1).map ZStack.list = some [2, 0, 1] ∧
      ¬ LandsUnder threeViews 2 1 ∧
    (ZStack.viewMoveUnderView threeViews 2 0).map ZStack.list = some [0, 1] ∧
      ¬ LandsUnder threeViews 2 0 ∧
    (ZStack.viewMoveUpperView threeViews 0 1).map ZStack.list = some [1, 2, 0] ∧
      ¬ LandsUpper threeViews 0 1 := by
  have hunder : ∀ t ∈ threeViews.list, t ≠ 2 →
    (LandsUnder threeViews 2 t ↔ ShownBelow threeViews 2 t) :=
    fun t ht hne => landsUnder_iff showOk_threeViews ht hne.symm
  have hupper := landsUpper_iff showOk_threeViews (v := 0) (t := 1) (by decide) (by decide)
  refine ⟨showOk_threeViews, by decide, ?_, by decide, ?_, by decide, ?_⟩
  · rw [hunder 1 (by decide) (by decide)]
    exact fun h => absurd h.2 (by decide)
  · rw [hunder 0 (by decide) (by decide)]
    exact fun h => absurd h.2 (by decide)
  · rw [hupper]
    exact fun h => absurd (h ⟨by decide, by decide⟩) (by decide)

end View
end LightOS
