import LightOS.View.ZOrderBasic

/-!
# The z-order of one list

Every function on a show list is one operation on stacks: the view is taken out, and put back where
its new number says.  The loops move one part of the list up or down by one.

* `renumber_part`, `renumber_window`, `raiseFrom_eq` — what the loops do to a part of the list.
* `adjustByZ_spec`, `hidenByZ_spec`, `showByZ_spec`, `setZ_spec` — each function is `place`, and no
  assertion fails.
* `viewSetZ_run` — a run of calls is a run of the operation.
-/

namespace LightOS
namespace ZOrder

open Stacking

variable {V : Type}

/-- **A show list is in order**: an element has its index, and the top is the index of the last
one. -/
structure Ordered (s : ZStack V) : Prop where
  index : ∀ i (h : i < s.list.length), s.z s.list[i] = i
  top : s.topZ = s.list.length - 1

variable {s t : ZStack V} {l a b m : List V} {zs : V → ℤ} {v w old : V} {z n target step : ℤ}
  {cond : ℤ → Bool}

theorem Ordered.numbered (h : Ordered s) : Numbered s.z 0 s.list :=
  numbered_iff.2 fun i hi => by rw [h.index i hi, Int.zero_add]

theorem Ordered.nodup (h : Ordered s) : s.list.Nodup := h.numbered.nodup

/-- An element has the number of those below it. -/
theorem Ordered.z_eq (h : Ordered s) (hlist : s.list = a ++ v :: b) : s.z v = a.length := by
  obtain ⟨-, hat, -⟩ := numbered_append.1 (hlist ▸ h.numbered)
  rw [hat, Int.zero_add]

theorem ordered_of_numbered (h : Numbered s.z 0 s.list) (htop : s.topZ = s.list.length - 1) :
    Ordered s :=
  ⟨fun i hi => by rw [numbered_iff.1 h i hi, Int.zero_add], htop⟩

variable [DecidableEq V]

/-! ## The loops -/

/-- **A renumbering loop** changes each number that meets the condition once. -/
theorem renumber_apply (hl : l.Nodup) (o : Option V) (w : V) :
    (renumber cond target step l (zs, o)).1 w = if w ∈ l ∧
      cond (zs w) = true then zs w + step else zs w := by
  induction l generalizing zs o with
  | nil => simp [renumber]
  | cons x l ih =>
      obtain ⟨hx, hl⟩ := List.nodup_cons.1 hl
      rw [renumber]
      by_cases hcond : cond (zs x) = true
      · rw [if_pos hcond, ih hl]
        by_cases hwx : w = x
        · subst hwx
          rw [Function.update_self, if_neg fun h => hx h.1, if_pos ⟨List.mem_cons_self, hcond⟩]
        · simp [hwx]
      · rw [if_neg hcond, ih hl]
        by_cases hwx : w = x
        · subst hwx
          rw [if_neg fun h => hx h.1, if_neg fun h => hcond h.2]
        · simp [hwx]

/-- The loop finds the view with the number it looks for. -/
theorem renumber_old (hl : l.Nodup) (o : Option V) (hold : old ∈ l ∨ o = some old)
    (hcond : cond target = true) (hat : zs old = target ∨ old ∉ l)
    (honly : ∀ w ∈ l, zs w = target → w = old) :
    (renumber cond target step l (zs, o)).2 = some old := by
  induction l generalizing zs o with
  | nil => exact hold.resolve_left List.not_mem_nil
  | cons x l ih =>
      obtain ⟨hx, hl⟩ := List.nodup_cons.1 hl
      have hkeep : ∀ w ∈ l, Function.update zs x (zs x + step) w = zs w := by
        intro w hw
        have hwx : w ≠ x := fun heq => hx (heq ▸ hw)
        exact Function.update_of_ne hwx _ _
      have hrest : ∀ w ∈ l, zs w = target → w = old :=
        fun w hw => honly w (List.mem_cons_of_mem x hw)
      by_cases hxo : x = old
      · subst hxo
        have hxt : zs x = target := hat.resolve_right fun hout => hout List.mem_cons_self
        rw [renumber, if_pos (by rw [hxt]; exact hcond), if_pos hxt]
        refine ih hl _ (Or.inr rfl) (Or.inr hx) fun w hw heq => ?_
        rw [hkeep w hw] at heq
        exact hrest w hw heq
      · have hxt : zs x ≠ target := fun heq => hxo (honly x List.mem_cons_self heq)
        have hold' : old ∈ l ∨ o = some old := by
          rcases hold with hmem | ho
          · exact Or.inl ((List.mem_cons.1 hmem).resolve_left (Ne.symm hxo))
          · exact Or.inr ho
        have hat' : zs old = target ∨ old ∉ l :=
          hat.imp_right fun hout hmem => hout (List.mem_cons_of_mem x hmem)
        rw [renumber]
        split_ifs
        · refine ih hl _ hold' ?_ fun w hw heq => ?_
          · by_cases hmem : old ∈ l
            · rw [hkeep old hmem]
              exact hat'
            · exact Or.inr hmem
          · rw [hkeep w hw] at heq
            exact hrest w hw heq
        · exact ih hl _ hold' hat' hrest

/-- **One part of the list is renumbered.** -/
theorem renumber_part (cond : ℤ → Bool) (zs : V → ℤ) (target step : ℤ) (hl : (a ++ m ++ b).Nodup)
    (ha : ∀ w ∈ a, cond (zs w) = false) (hm : ∀ w ∈ m, cond (zs w) = true)
    (hb : ∀ w ∈ b, cond (zs w) = false) (o : Option V) :
    (∀ w ∈ m, (renumber cond target step (a ++ m ++ b) (zs, o)).1 w = zs w + step) ∧
      ∀ w, w ∉ m → (renumber cond target step (a ++ m ++ b) (zs, o)).1 w = zs w := by
  refine ⟨fun w hw => ?_, fun w hw => ?_⟩
  · have hmem : w ∈ a ++ m ++ b := List.mem_append_left b (List.mem_append_right a hw)
    rw [renumber_apply hl, if_pos ⟨hmem, hm w hw⟩]
  · rw [renumber_apply hl, if_neg]
    rintro ⟨hmem, hcond⟩
    rcases List.mem_append.1 hmem with hmem | hmem
    · rcases List.mem_append.1 hmem with hmem | hmem
      · rw [ha w hmem] at hcond
        cases hcond
      · exact hw hmem
    · rw [hb w hmem] at hcond
      cases hcond

/-- **A part of the list is renumbered, and the view at the target is found** in it. -/
theorem renumber_window (cond : ℤ → Bool) (zs : V → ℤ) (step : ℤ) (hl : (a ++ m ++ b).Nodup)
    (ha : ∀ w ∈ a, cond (zs w) = false) (hm : ∀ w ∈ m, cond (zs w) = true)
    (hb : ∀ w ∈ b, cond (zs w) = false)
    (hold : old ∈ m) (hat : zs old = target) (hinj : ∀ w ∈ m, zs w = target → w = old) :
    ∃ zs', renumber cond target step (a ++ m ++ b) (zs, none) = (zs', some old) ∧
      (∀ w ∈ m, zs' w = zs w + step) ∧ ∀ w, w ∉ m → zs' w = zs w := by
  obtain ⟨hmoved, hsame⟩ := renumber_part cond zs target step hl ha hm hb none
  have hcond : cond target = true := hat ▸ hm old hold
  have hfound : (renumber cond target step (a ++ m ++ b) (zs, none)).2 = some old := by
    refine renumber_old hl none (Or.inl ?_) hcond (Or.inl hat) fun w hw hwt => ?_
    · exact List.mem_append_left b (List.mem_append_right a hold)
    · -- outside of the part no number meets the condition
      have hcondw : cond (zs w) = true := by rw [hwt, hcond]
      rcases List.mem_append.1 hw with hw | hw
      · rcases List.mem_append.1 hw with hw | hw
        · rw [ha w hw] at hcondw
          cases hcondw
        · exact hinj w hw hwt
      · rw [hb w hw] at hcondw
        cases hcondw
  exact ⟨_, Prod.ext rfl hfound, hmoved, hsame⟩

/-- From `old` on everything goes up, although the number it is compared with goes up as well. -/
theorem raiseFrom_above (hl : l.Nodup) (hold : old ∉ l) (hle : ∀ w ∈ l, zs old ≤ zs w) (w : V) :
    raiseFrom old l zs w = if w ∈ l then zs w + 1 else zs w := by
  induction l generalizing zs with
  | nil => simp [raiseFrom]
  | cons x l ih =>
      obtain ⟨hx, hl⟩ := List.nodup_cons.1 hl
      have hxo : old ≠ x := fun heq => hold (by rw [heq]; exact List.mem_cons_self)
      rw [raiseFrom, if_pos (hle x List.mem_cons_self),
        ih hl (fun hmem => hold (List.mem_cons_of_mem x hmem))]
      · by_cases hwx : w = x
        · subst hwx
          simp [hx]
        · simp [hwx]
      · intro u hu
        have hux : u ≠ x := fun heq => hx (heq ▸ hu)
        rw [Function.update_of_ne hxo, Function.update_of_ne hux]
        exact hle u (List.mem_cons_of_mem x hu)

/-- **The second loop of showing**: `old` and everything above it goes up by one. -/
theorem raiseFrom_eq (zs : V → ℤ) (hl : (a ++ old :: b).Nodup) (ha : ∀ w ∈ a, zs w < zs old)
    (hb : ∀ w ∈ b, zs old < zs w) :
    (∀ w ∈ old :: b, raiseFrom old (a ++ old :: b) zs w = zs w + 1) ∧
      ∀ w, w ∉ old :: b → raiseFrom old (a ++ old :: b) zs w = zs w := by
  have hskip : raiseFrom old (a ++ old :: b) zs = raiseFrom old (old :: b) zs := by
    clear hl
    induction a with
    | nil => rfl
    | cons x a ih =>
        have hx := ha x List.mem_cons_self
        rw [List.cons_append, raiseFrom, if_neg (by omega)]
        exact ih fun w hw => ha w (List.mem_cons_of_mem x hw)
  obtain ⟨hold, hbn⟩ := List.nodup_cons.1 (List.nodup_append.1 hl).2.1
  have hne : ∀ w ∈ b, w ≠ old := fun w hw heq => hold (heq ▸ hw)
  have habove : ∀ w, raiseFrom old (old :: b) zs w =
      if w ∈ b then Function.update zs old (zs old + 1) w + 1
      else Function.update zs old (zs old + 1) w := by
    intro w
    rw [raiseFrom, if_pos le_rfl, raiseFrom_above hbn hold]
    intro u hu
    rw [Function.update_self, Function.update_of_ne (hne u hu)]
    exact hb u hu
  rw [hskip]
  refine ⟨fun w hw => ?_, fun w hw => ?_⟩
  · rw [habove]
    rcases List.mem_cons.1 hw with rfl | hw
    · rw [if_neg hold, Function.update_self]
    · rw [if_pos hw, Function.update_of_ne (hne w hw)]
  · rw [List.mem_cons, not_or] at hw
    rw [habove, if_neg hw.2, Function.update_of_ne hw.1]

theorem listAddBefore_eq (ha : old ∉ a) :
    listAddBefore v old (a ++ old :: b) = a ++ v :: old :: b := by
  induction a with
  | nil => exact if_pos rfl
  | cons x a ih =>
      have hx : x ≠ old := fun heq => ha (by rw [heq]; exact List.mem_cons_self)
      rw [List.cons_append, listAddBefore, if_neg hx,
        ih fun hmem => ha (List.mem_cons_of_mem x hmem), List.cons_append]

theorem listAddAfter_eq (ha : old ∉ a) :
    listAddAfter v old (a ++ old :: b) = a ++ old :: v :: b := by
  induction a with
  | nil => exact if_pos rfl
  | cons x a ih =>
      have hx : x ≠ old := fun heq => ha (by rw [heq]; exact List.mem_cons_self)
      rw [List.cons_append, listAddAfter, if_neg hx,
        ih fun hmem => ha (List.mem_cons_of_mem x hmem), List.cons_append]

/-! ## The functions -/

/-- What is drawn again when a view goes from one number to another. -/
def refreshOf (old new : ℤ) : Refresh :=
  if new < 0 then ⟨0, old - 1⟩ else if old ≤ new then ⟨new, new⟩ else ⟨new + 1, old⟩

/-- **A function on a show list does its part**: the view is placed, the list is in order, what is
not shown keeps its number, and what has to be is drawn. -/
structure Placed (s t : ZStack V) (v : V) (n : ℤ) (r : Option Refresh) : Prop where
  ordered : Ordered t
  list : t.list = place s.list v n
  hidden : v ∉ t.list → t.z v = -1
  frame : ∀ w, w ≠ v → w ∉ s.list → t.z w = s.z w
  refresh : r = some (refreshOf (s.z v) (t.z v))

/-- A view on the list, what is below it and what is above it. -/
structure Cut (s : ZStack V) (v : V) (a b : List V) : Prop where
  list : s.list = a ++ v :: b
  at_ : s.z v = a.length
  below : Numbered s.z 0 a
  above : Numbered s.z (a.length + 1) b
  nodup : (a ++ b).Nodup
  notMem : v ∉ a ++ b
  rest : s.list.erase v = a ++ b
  top : s.topZ = a.length + b.length

theorem Ordered.cut (h : Ordered s) (hv : v ∈ s.list) : ∃ a b, Cut s v a b := by
  obtain ⟨a, b, hlist, hat, hva, hvb⟩ := h.numbered.split hv
  have hrest : s.list.erase v = a ++ b := by rw [hlist, erase_split hva]
  obtain ⟨hbelow, -, habove⟩ := numbered_append.1 (hlist ▸ h.numbered)
  rw [Int.zero_add] at habove
  refine ⟨a, b, hlist, hat, hbelow, habove, hrest ▸ h.nodup.erase v, ?_, hrest, ?_⟩
  · rw [List.mem_append, not_or]
    exact ⟨hva, hvb⟩
  · rw [h.top, hlist, List.length_append, List.length_cons]
    push_cast
    ring

omit [DecidableEq V] in
/-- Two parts of a list share nothing. -/
theorem not_mem_of_nodup (h : (a ++ b).Nodup) : ∀ w ∈ a, w ∉ b :=
  fun w hw hwb => (List.nodup_append.1 h).2.2 w hw w hwb rfl

/-- **A view is put between two parts** of the other views. -/
theorem placed_insert {topZ k : ℤ} {r : Option Refresh} (hrest : s.list.erase v = a ++ b)
    (ha : Numbered zs 0 a) (hb : Numbered zs (a.length + 1) b) (hv : v ∉ a ++ b)
    (hframe : ∀ w, w ∉ a ++ b → zs w = s.z w) (htop : topZ = a.length + b.length) (hn : 0 ≤ n)
    (hk : k = a.length) (hmin : k = min n (a.length + b.length))
    (hr : r = some (refreshOf (s.z v) k)) :
    Placed s ⟨a ++ v :: b, Function.update zs v k, topZ⟩ v n r := by
  subst hk
  refine ⟨ordered_of_numbered (numbered_insert ha hb hv) ?_, ?_, fun hout => ?_,
    fun w hwv hw => ?_, ?_⟩
  · show topZ = ((a ++ v :: b).length : ℤ) - 1
    rw [htop, List.length_append, List.length_cons]
    push_cast
    ring
  · exact (place_eq hn hrest hmin).symm
  · exact absurd (List.mem_append_right a List.mem_cons_self) hout
  · have hout : w ∉ a ++ b := fun hmem => hw (List.mem_of_mem_erase (hrest ▸ hmem))
    exact (Function.update_of_ne hwv _ _).trans (hframe w hout)
  · have hnew : Function.update zs v (a.length : ℤ) v = a.length := Function.update_self _ _ _
    show r = some (refreshOf (s.z v) (Function.update zs v (a.length : ℤ) v))
    rw [hnew]
    exact hr

/-- What is above a view moves down: from `k` on, the loop takes everything. -/
theorem Cut.lower (h : Cut s v a b) (target : ℤ) :
    (∀ w ∈ b, (renumber (fun w => decide (s.z v < w)) target (-1) (a ++ b) (s.z, none)).1 w =
      s.z w + -1) ∧
      ∀ w, w ∉ b → (renumber (fun w => decide (s.z v < w)) target (-1) (a ++ b) (s.z, none)).1 w =
        s.z w := by
  have hat := h.at_
  have hpart := renumber_part (fun w => decide (s.z v < w)) s.z target (-1) (a := a) (m := b)
    (b := []) (by simpa using h.nodup)
    (fun w hw => by
      have hlt := (h.below.mem hw).2
      exact decide_eq_false (by omega))
    (fun w hw => by
      have hlt := (h.above.mem hw).1
      exact decide_eq_true (by omega))
    (fun w hw => by cases hw) none
  rwa [List.append_nil] at hpart

/-- `__view_hiden_by_z`. -/
theorem hidenByZ_spec (h : Ordered s) (hv : v ∈ s.list) (hn : n < 0) :
    Placed s (hidenByZ s v).1 v n (hidenByZ s v).2 := by
  obtain ⟨a, b, hcut⟩ := h.cut hv
  have hat := hcut.at_
  have htop := hcut.top
  -- below the view nothing changes, above it everything goes down
  have hzs : ∃ zs : V → ℤ, hidenByZ s v =
      (⟨a ++ b, Function.update zs v (-1), s.topZ - 1⟩, some ⟨0, s.z v - 1⟩) ∧
      (∀ w ∈ b, zs w = s.z w + -1) ∧ ∀ w, w ∉ b → zs w = s.z w := by
    by_cases hbelow : s.z v < s.topZ
    · exact ⟨_, by rw [hidenByZ, if_pos hbelow, hcut.rest], hcut.lower (s.z v)⟩
    · have hnil : b = [] := List.length_eq_zero_iff.1 (by omega)
      subst hnil
      refine ⟨s.z, by rw [hidenByZ, if_neg hbelow, hcut.rest], fun w hw => ?_, fun _ _ => rfl⟩
      cases hw
  obtain ⟨zs, hres, hdown, hsame⟩ := hzs
  have hdisjoint := not_mem_of_nodup hcut.nodup
  have hnumbered : Numbered zs 0 (a ++ b) := by
    refine numbered_append.2 ⟨hcut.below.congr fun w hw => hsame w (hdisjoint w hw), ?_⟩
    have hshift := hcut.above.shift hdown
    rwa [add_neg_cancel_right, ← Int.zero_add (a.length : ℤ)] at hshift
  rw [hres]
  refine ⟨ordered_of_numbered (hnumbered.update hcut.notMem _) ?_, ?_,
    fun _ => Function.update_self _ _ _, fun w hwv hw => ?_, ?_⟩
  · show s.topZ - 1 = ((a ++ b).length : ℤ) - 1
    rw [htop, List.length_append]
    push_cast
    ring
  · rw [place_neg hn, hcut.rest]
  · have hwb : w ∉ b := by
      rw [hcut.list, List.mem_append, List.mem_cons, not_or, not_or] at hw
      exact hw.2.2
    exact (Function.update_of_ne hwv _ _).trans (hsame w hwb)
  · have hnew : Function.update zs v (-1) v = -1 := Function.update_self _ _ _
    show some (⟨0, s.z v - 1⟩ : Refresh) = some (refreshOf (s.z v) (Function.update zs v (-1) v))
    rw [hnew]
    rfl

theorem refreshOf_up {old new : ℤ} (h0 : 0 ≤ new) (hle : old ≤ new) :
    refreshOf old new = ⟨new, new⟩ := by
  rw [refreshOf, if_neg (by omega), if_pos hle]

theorem refreshOf_down {old new : ℤ} (h0 : 0 ≤ new) (hlt : new < old) :
    refreshOf old new = ⟨new + 1, old⟩ := by
  rw [refreshOf, if_neg (by omega), if_neg (by omega)]

/-- `__view_show_by_z`. -/
theorem showByZ_spec (h : Ordered s) (hv : v ∉ s.list) (hhidden : s.z v = -1) (hn : 0 ≤ n) :
    ∃ t r, showByZ s v n = some (t, r) ∧ Placed s t v n r := by
  have herase : s.list.erase v = s.list := List.erase_of_not_mem hv
  have htop := h.top
  by_cases habove : s.topZ < n
  · -- on top
    refine ⟨_, _, by rw [showByZ, if_pos habove, if_pos rfl], ?_⟩
    refine placed_insert (b := []) (by rw [herase, List.append_nil]) h.numbered trivial
      (by rwa [List.append_nil]) (fun _ _ => rfl) ?_ hn ?_ ?_ ?_
    · simp only [List.length_nil]
      omega
    · omega
    · simp only [List.length_nil]
      omega
    · rw [refreshOf_up (by omega) (by omega)]
  · -- below the view that has the number now
    obtain ⟨a, b, hlist, hlen⟩ := exists_split s.list hn (by omega)
    have hb : b ≠ [] := by
      rintro rfl
      rw [hlist, List.append_nil] at htop
      omega
    obtain ⟨old, b, rfl⟩ := List.exists_cons_of_ne_nil hb
    have hnum := h.numbered
    have hnodup := h.nodup
    rw [hlist] at hnum hnodup hv
    obtain ⟨hna, hno⟩ := numbered_append.1 hnum
    have holdz : s.z old = n := by rw [hno.1, hlen, Int.zero_add]
    have hfind : (s.list.find? fun tmp => s.z tmp = n) = some old := by
      rw [hlist, List.find?_append, List.find?_eq_none.2, Option.none_or, List.find?_cons_of_pos]
      · simpa using holdz
      · intro w hw hwn
        have hlt := (hna.mem hw).2
        simp only [decide_eq_true_eq] at hwn
        omega
    have hdisjoint := not_mem_of_nodup hnodup
    have hao : old ∉ a := fun hmem => hdisjoint old hmem List.mem_cons_self
    obtain ⟨hup, hsame⟩ := raiseFrom_eq s.z hnodup
      (fun w hw => by have := (hna.mem hw).2; omega)
      (fun w hw => by have := (hno.2.mem hw).1; omega)
    refine ⟨⟨a ++ v :: old :: b, Function.update (raiseFrom old (a ++ old :: b) s.z) v n,
      s.topZ + 1⟩,
      some ⟨n, n⟩, ?_, placed_insert (by rw [herase, hlist]) ?_ ?_ hv (fun w hw => ?_) ?_ hn
      hlen.symm
        ?_ ?_⟩
    · rw [showByZ, if_neg habove, if_neg (by omega), hfind, hlist, Option.map_some,
        listAddBefore_eq hao]
    · exact hna.congr fun w hw => hsame w (hdisjoint w hw)
    · have hshift := hno.shift hup
      rwa [Int.zero_add] at hshift
    · rw [List.mem_append, not_or] at hw
      exact hsame w hw.2
    · rw [htop, hlist, List.length_append]
      push_cast
      ring
    · simp only [List.length_cons]
      omega
    · rw [refreshOf_up hn (by omega)]

/-- The view goes to the top. -/
theorem adjustByZ_top (hcut : Cut s v a b) (hn : 0 ≤ n) (htop : s.topZ ≤ n) :
    ∃ t r, adjustByZ s v n = some (t, r) ∧ Placed s t v n r := by
  have hat := hcut.at_
  have hlen := hcut.top
  have hz : (if s.topZ < n then s.topZ else n) = s.topZ := by
    split_ifs <;> omega
  obtain ⟨hdown, hsame⟩ := hcut.lower s.topZ
  have hdisjoint := not_mem_of_nodup hcut.nodup
  refine ⟨_, _, by rw [adjustByZ, hz, if_pos rfl, hcut.rest], ?_⟩
  refine placed_insert (b := []) (by rw [hcut.rest, List.append_nil]) ?_ trivial
    (by rw [List.append_nil]; exact hcut.notMem) (fun w hw => ?_) ?_ hn ?_ ?_ ?_
  · refine numbered_append.2 ⟨hcut.below.congr fun w hw => hsame w (hdisjoint w hw), ?_⟩
    have hshift := hcut.above.shift hdown
    rwa [add_neg_cancel_right, ← Int.zero_add (a.length : ℤ)] at hshift
  · rw [List.append_nil] at hw
    exact hsame w fun hwb => hw (List.mem_append_right a hwb)
  · simp only [List.length_append, List.length_nil]
    push_cast
    omega
  · rw [List.length_append]
    push_cast
    omega
  · simp only [List.length_append, List.length_nil]
    push_cast
    omega
  · rw [refreshOf_up (by omega) (by omega)]

/-- The view goes up; the last of those that go down is the one it comes after. -/
theorem adjustByZ_up (hcut : Cut s v a b) (hn : 0 ≤ n) (htop : n < s.topZ) (hup : s.z v < n) :
    ∃ t r, adjustByZ s v n = some (t, r) ∧ Placed s t v n r := by
  have hat := hcut.at_
  have hlen := hcut.top
  obtain ⟨m, c, rfl, hmlen⟩ := exists_split b (n := n - s.z v) (by omega) (by omega)
  have hm : m ≠ [] := by
    rintro rfl
    simp only [List.length_nil] at hmlen
    omega
  obtain ⟨hnm, hnc⟩ := numbered_append.1 hcut.above
  have hnodup := hcut.nodup
  rw [← List.append_assoc] at hnodup
  obtain ⟨m', old, hm'⟩ := (List.eq_nil_or_concat m).resolve_left hm
  rw [List.concat_eq_append] at hm'
  have holdm : old ∈ m := by
    rw [hm']
    exact List.mem_append_right m' (List.mem_singleton_self old)
  have holdz : s.z old = n := by
    have hnum := hnm
    rw [hm'] at hnum
    have hlast := (numbered_append.1 hnum).2.1
    have hcount : m.length = m'.length + 1 := by rw [hm', List.length_append, List.length_singleton]
    omega
  obtain ⟨zs, hrun, hdown, hsame⟩ :=
    renumber_window (fun w => decide (s.z v < w) && decide (w ≤ n)) s.z (-1)
    hnodup
    (fun w hw => by
      have hlt := (hcut.below.mem hw).2
      rw [Bool.and_eq_false_iff]
      exact Or.inl (decide_eq_false (by omega)))
    (fun w hw => by
      have hbounds := hnm.mem hw
      rw [Bool.and_eq_true]
      exact ⟨decide_eq_true (by omega), decide_eq_true (by omega)⟩)
    (fun w hw => by
      have hlt := (hnc.mem hw).1
      rw [Bool.and_eq_false_iff]
      exact Or.inr (decide_eq_false (by omega)))
    holdm holdz fun w hw hwn => hnm.inj hw holdm (hwn.trans holdz.symm)
  have hdisjoint : ∀ w ∈ a, w ∉ m := not_mem_of_nodup (List.nodup_append.1 hnodup).1
  have hdisjoint' : ∀ w ∈ c, w ∉ m := fun w hw hwm =>
    not_mem_of_nodup hnodup w (List.mem_append_right a hwm) hw
  have holda : old ∉ a ++ m' := by
    have hfront := (List.nodup_append.1 hnodup).1
    rw [hm', ← List.append_assoc] at hfront
    exact fun hmem => not_mem_of_nodup hfront old hmem (List.mem_singleton_self old)
  have hlist : listAddAfter v old (a ++ m ++ c) = a ++ m ++ v :: c := by
    have hcut' : a ++ m ++ c = (a ++ m') ++ old :: c := by simp [hm']
    have hres : a ++ m ++ v :: c = (a ++ m') ++ old :: v :: c := by simp [hm']
    rw [hcut', hres, listAddAfter_eq holda]
  have hz : (if s.topZ < n then s.topZ else n) = n := if_neg (by omega)
  have hres : adjustByZ s v n = some (⟨a ++ m ++ v :: c, Function.update zs v n, s.topZ⟩,
      some ⟨n, n⟩) := by
    rw [adjustByZ, hz, if_neg (by omega), if_pos hup, hcut.rest, ← List.append_assoc]
    dsimp only
    rw [hrun, Option.map_some, hlist]
  refine ⟨_, _, hres, ?_⟩
  refine placed_insert (by rw [hcut.rest, List.append_assoc]) ?_ ?_
    (by rw [List.append_assoc]; exact hcut.notMem) (fun w hw => ?_) ?_ hn ?_ ?_ ?_
  · refine numbered_append.2 ⟨hcut.below.congr fun w hw => hsame w (hdisjoint w hw), ?_⟩
    have hshift := hnm.shift hdown
    rwa [add_neg_cancel_right, ← Int.zero_add (a.length : ℤ)] at hshift
  · have hstart : ((a ++ m).length : ℤ) + 1 = a.length + 1 + m.length := by
      rw [List.length_append]
      push_cast
      ring
    rw [hstart]
    exact hnc.congr fun w hw => hsame w (hdisjoint' w hw)
  · exact hsame w fun hwm => hw (List.mem_append_left c (List.mem_append_right a hwm))
  · rw [List.length_append] at hlen ⊢
    push_cast at hlen ⊢
    omega
  · rw [List.length_append]
    push_cast
    omega
  · rw [List.length_append]
    push_cast
    omega
  · rw [refreshOf_up hn (by omega)]

/-- The view goes down; the first of those that go up is the one it comes before. -/
theorem adjustByZ_down (hcut : Cut s v a b) (hn : 0 ≤ n) (hdown : n < s.z v) :
    ∃ t r, adjustByZ s v n = some (t, r) ∧ Placed s t v n r := by
  have hat := hcut.at_
  have hlen := hcut.top
  obtain ⟨c, m, rfl, hclen⟩ := exists_split a hn (by omega)
  rw [List.length_append] at hat hlen
  push_cast at hat hlen
  obtain ⟨hnc, hnm⟩ := numbered_append.1 hcut.below
  rw [Int.zero_add] at hnm
  have hm : m ≠ [] := by
    rintro rfl
    simp only [List.length_nil] at hat
    omega
  have hnodup := hcut.nodup
  obtain ⟨old, m', hm'⟩ := List.exists_cons_of_ne_nil hm
  have holdm : old ∈ m := by
    rw [hm']
    exact List.mem_cons_self
  have holdz : s.z old = n := by
    have hfirst := (hm' ▸ hnm).1
    omega
  obtain ⟨zs, hrun, hup, hsame⟩ :=
    renumber_window (fun w => decide (w < s.z v) && decide (n ≤ w)) s.z 1
    hnodup
    (fun w hw => by
      have hlt := (hnc.mem hw).2
      rw [Bool.and_eq_false_iff]
      exact Or.inr (decide_eq_false (by omega)))
    (fun w hw => by
      have hbounds := hnm.mem hw
      rw [Bool.and_eq_true]
      exact ⟨decide_eq_true (by omega), decide_eq_true (by omega)⟩)
    (fun w hw => by
      have hlt := (hcut.above.mem hw).1
      rw [List.length_append] at hlt
      push_cast at hlt
      rw [Bool.and_eq_false_iff]
      exact Or.inl (decide_eq_false (by omega)))
    holdm holdz fun w hw hwn => hnm.inj hw holdm (hwn.trans holdz.symm)
  have hdisjoint : ∀ w ∈ c, w ∉ m := not_mem_of_nodup (List.nodup_append.1 hnodup).1
  have hdisjoint' : ∀ w ∈ b, w ∉ m := fun w hw hwm =>
    not_mem_of_nodup hnodup w (List.mem_append_right c hwm) hw
  have hlist : listAddBefore v old (c ++ m ++ b) = c ++ v :: (m ++ b) := by
    have hcut' : c ++ m ++ b = c ++ old :: (m' ++ b) := by simp [hm']
    rw [hcut', listAddBefore_eq fun hmem => hdisjoint old hmem holdm]
    simp [hm']
  have hz : (if s.topZ < n then s.topZ else n) = n := if_neg (by omega)
  have hres : adjustByZ s v n = some (⟨c ++ v :: (m ++ b), Function.update zs v n, s.topZ⟩,
      some ⟨n + 1, s.z v⟩) := by
    rw [adjustByZ, hz, if_neg (by omega), if_neg (by omega), if_pos hdown, hcut.rest]
    dsimp only
    rw [hrun, Option.map_some, hlist]
  refine ⟨_, _, hres, ?_⟩
  refine placed_insert (by rw [hcut.rest, List.append_assoc]) ?_ ?_
    (by rw [← List.append_assoc]; exact hcut.notMem) (fun w hw => ?_) ?_ hn hclen.symm ?_ ?_
  · exact hnc.congr fun w hw => hsame w (hdisjoint w hw)
  · refine numbered_append.2 ⟨hnm.shift hup, ?_⟩
    have hstart : (c.length : ℤ) + 1 + m.length = ((c ++ m).length : ℤ) + 1 := by
      rw [List.length_append]
      push_cast
      ring
    rw [hstart]
    exact hcut.above.congr fun w hw => hsame w (hdisjoint' w hw)
  · rw [← List.append_assoc] at hw
    exact hsame w fun hwm => hw (List.mem_append_left b (List.mem_append_right c hwm))
  · rw [List.length_append]
    push_cast
    omega
  · rw [List.length_append]
    push_cast
    omega
  · rw [refreshOf_down hn hdown]

/-- `__view_adjust_by_z`. -/
theorem adjustByZ_spec (h : Ordered s) (hv : v ∈ s.list) (hn : 0 ≤ n) (hne : s.z v ≠ n) :
    ∃ t r, adjustByZ s v n = some (t, r) ∧ Placed s t v n r := by
  obtain ⟨a, b, hcut⟩ := h.cut hv
  by_cases htop : s.topZ ≤ n
  · exact adjustByZ_top hcut hn htop
  · rcases lt_or_gt_of_ne hne with hup | hdown
    · exact adjustByZ_up hcut hn (by omega) hup
    · exact adjustByZ_down hcut hn hdown

/-- Placing a view where it is, or hiding a hidden view, changes nothing. -/
theorem place_self (h : Ordered s) (hhidden : v ∉ s.list → s.z v = -1)
    (hv : s.z v = n ∨ v ∉ s.list ∧ n < 0) : place s.list v n = s.list := by
  rcases hv with hat | ⟨hv, hn⟩
  · by_cases hmem : v ∈ s.list
    · obtain ⟨a, b, hcut⟩ := h.cut hmem
      have hlen := hcut.at_
      rw [hcut.list]
      refine place_eq (by omega) (by rw [← hcut.list, hcut.rest]) ?_
      omega
    · have hneg : n < 0 := by
        have hout := hhidden hmem
        omega
      rw [place_neg hneg, List.erase_of_not_mem hmem]
  · rw [place_neg hn, List.erase_of_not_mem hv]

/-- **`view_set_z` is the operation on stacks.** -/
theorem setZ_spec (h : Ordered s) (hhidden : v ∉ s.list → s.z v = -1) (n : ℤ) :
    ∃ t r, setZ s v n = some (t, r) ∧ (t = s ∧ r = none ∧ place s.list v n = s.list ∨
      Placed s t v n r) := by
  by_cases hat : s.z v = n
  · exact ⟨s, none, if_pos hat, Or.inl ⟨rfl, rfl, place_self h hhidden (Or.inl hat)⟩⟩
  · by_cases hv : v ∈ s.list
    · by_cases hn : 0 ≤ n
      · obtain ⟨t, r, hres, hplaced⟩ := adjustByZ_spec h hv hn hat
        exact ⟨t, r, by rw [setZ, if_neg hat, if_pos hv, if_pos hn, hres], Or.inr hplaced⟩
      · exact ⟨_, _, by rw [setZ, if_neg hat, if_pos hv, if_neg hn],
          Or.inr (hidenByZ_spec h hv (by omega))⟩
    · by_cases hn : 0 ≤ n
      · obtain ⟨t, r, hres, hplaced⟩ := showByZ_spec h hv (hhidden hv) hn
        exact ⟨t, r, by rw [setZ, if_neg hat, if_neg hv, if_pos hn, hres], Or.inr hplaced⟩
      · exact ⟨s, none, by rw [setZ, if_neg hat, if_neg hv, if_neg hn],
          Or.inl ⟨rfl, rfl, place_self h hhidden (Or.inr ⟨hv, by omega⟩)⟩⟩

/-- The number of a view that is placed. -/
theorem Placed.number {r : Option Refresh} (hplaced : Placed s t v n r) (hn : 0 ≤ n) :
    t.z v = min n (s.list.erase v).length := by
  obtain ⟨a, b, hrest, hplace, ha⟩ := place_split s.list v hn
  rw [hplaced.ordered.z_eq (hplaced.list.trans hplace), hrest, List.length_append]
  push_cast
  exact ha

/-- The others are shown as before. -/
theorem Placed.mem_iff {r : Option Refresh} (h : Ordered s) (hplaced : Placed s t v n r)
    (hw : w ≠ v) :
    w ∈ t.list ↔ w ∈ s.list := by
  rw [hplaced.list, mem_place_of_ne h.nodup hw]

end ZOrder

namespace View

open ZOrder Stacking

variable {V : Type} {s : ZStack V}

/-- **The show list of the views**: it is in order, and what is not shown has −1. -/
structure ShowOk (s : ZStack V) : Prop where
  ordered : Ordered s
  out : ∀ v, v ∉ s.list → s.z v = -1

theorem showOk_empty : ShowOk (emptyStack : ZStack V) := ⟨⟨nofun, rfl⟩, fun _ _ => rfl⟩

variable [DecidableEq V]

theorem ShowOk.placed {t : ZStack V} {v : V} {n : ℤ} {r : Option Refresh} (h : ShowOk s)
    (hplaced : Placed s t v n r) : ShowOk t := by
  refine ⟨hplaced.ordered, fun w hw => ?_⟩
  by_cases hwv : w = v
  · rw [hwv] at hw ⊢
    exact hplaced.hidden hw
  · have hout : w ∉ s.list := fun hmem => hw ((hplaced.mem_iff h.ordered hwv).2 hmem)
    rw [hplaced.frame w hwv hout, h.out w hout]

/-- A call does what the operation does. -/
theorem viewSetZ_spec (h : ShowOk s) (call : V × ℤ) :
    ∃ t, viewSetZ s call = some t ∧ ShowOk t ∧ t.list = place s.list call.1 call.2 := by
  obtain ⟨t, r, hres, hcases⟩ := setZ_spec h.ordered (h.out call.1) call.2
  refine ⟨t, by rw [viewSetZ, hres]; rfl, ?_⟩
  rcases hcases with ⟨rfl, -, hself⟩ | hplaced
  · exact ⟨h, hself.symm⟩
  · exact ⟨h.placed hplaced, hplaced.list⟩

/-- **A run of calls** is a run of the operation. -/
theorem viewSetZ_run (calls : List (V × ℤ)) (h : ShowOk s) :
    ∃ t, Run.exec viewSetZ s calls = some t ∧ ShowOk t ∧
      t.list = calls.foldl (fun l call => place l call.1 call.2) s.list := by
  induction calls generalizing s with
  | nil => exact ⟨s, rfl, h, rfl⟩
  | cons call calls ih =>
      obtain ⟨t, hstep, ht, hlist⟩ := viewSetZ_spec h call
      obtain ⟨u, hrun, hu, hulist⟩ := ih ht
      refine ⟨u, Run.exec_cons_eq_some.2 ⟨t, hstep, hrun⟩, hu, ?_⟩
      rw [hulist, hlist, List.foldl_cons]

end View
end LightOS
