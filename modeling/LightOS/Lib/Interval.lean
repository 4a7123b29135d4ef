import Mathlib

/-!
# Sorted lists of intervals

A partial map from addresses to attributes, kept as a list of half-open
intervals each with its attribute.

* `Sorted` — intervals are non-empty and in ascending order.
* `attrAt` — the map the list stands for.
* `sorted_append`, `attrAt_append` — both are computed part by part, so a change
  in the middle of a list is a change of one part.
* `Inserted`, `Cut` — putting an interval in, and cutting one out.
* `cut_exact_iff` — when the map loses exactly what was cut out.
-/

namespace Interval

variable {α : Type}

/-- A half-open interval with an attribute. -/
structure Span (α : Type) where
  start : ℕ
  end_ : ℕ
  attr : α
  deriving DecidableEq

/-- The interval contains the address. -/
def Span.Has (s : Span α) (a : ℕ) : Prop := s.start ≤ a ∧ a < s.end_

instance (s : Span α) (a : ℕ) : Decidable (s.Has a) := inferInstanceAs (Decidable (_ ∧ _))

/-- Non-empty intervals in ascending order, each ending where the next one starts
or before. -/
def Sorted (l : List (Span α)) : Prop :=
  l.Pairwise (fun s t => s.end_ ≤ t.start) ∧ ∀ s ∈ l, s.start < s.end_

/-- The attribute of an address. -/
def attrAt (l : List (Span α)) (a : ℕ) : Option α :=
  (l.find? fun s => decide (s.Has a)).map Span.attr

theorem sorted_nil : Sorted ([] : List (Span α)) := by simp [Sorted]

theorem sorted_singleton {s : Span α} : Sorted [s] ↔ s.start < s.end_ := by simp [Sorted]

theorem sorted_append {l₁ l₂ : List (Span α)} :
    Sorted (l₁ ++ l₂) ↔ Sorted l₁ ∧ Sorted l₂ ∧ ∀ s ∈ l₁, ∀ t ∈ l₂, s.end_ ≤ t.start := by
  simp only [Sorted, List.pairwise_append, List.forall_mem_append]
  tauto

theorem sorted_cons {s : Span α} {l : List (Span α)} :
    Sorted (s :: l) ↔ s.start < s.end_ ∧ Sorted l ∧ ∀ t ∈ l, s.end_ ≤ t.start := by
  rw [← List.singleton_append, sorted_append, sorted_singleton]
  simp

/-- What the last interval of a sorted list says about all of them. -/
theorem Sorted.end_le_of_concat {l : List (Span α)} {s : Span α} (h : Sorted (l ++ [s])) :
    ∀ t ∈ l ++ [s], t.end_ ≤ s.end_ := by
  intro t ht
  rcases List.mem_append.1 ht with ht | ht
  · have h₁ := (sorted_append.1 h).2.2 t ht s (by simp)
    have h₂ := h.2 s (by simp)
    omega
  · rw [List.mem_singleton.1 ht]

/-- What the first interval of a sorted list says about all of them. -/
theorem Sorted.start_le_of_cons {l : List (Span α)} {s : Span α} (h : Sorted (s :: l)) :
    ∀ t ∈ s :: l, s.start ≤ t.start := by
  intro t ht
  rcases List.mem_cons.1 ht with rfl | ht
  · exact le_rfl
  · have h₁ := (sorted_cons.1 h).2.2 t ht
    have h₂ := (sorted_cons.1 h).1
    omega

/-! ## The map -/

theorem attrAt_append (l₁ l₂ : List (Span α)) (a : ℕ) :
    attrAt (l₁ ++ l₂) a = (attrAt l₁ a).or (attrAt l₂ a) := by
  rw [attrAt, List.find?_append, attrAt, attrAt]
  cases l₁.find? fun s => decide (s.Has a) <;> rfl

theorem attrAt_cons (s : Span α) (l : List (Span α)) (a : ℕ) :
    attrAt (s :: l) a = if s.Has a then some s.attr else attrAt l a := by
  unfold attrAt
  by_cases h : s.Has a
  · simp [h]
  · simp [h]

theorem attrAt_eq_none {l : List (Span α)} {a : ℕ} (h : ∀ s ∈ l, ¬ s.Has a) :
    attrAt l a = none := by
  rw [attrAt, List.find?_eq_none.2, Option.map_none]
  intro s hs
  simpa using h s hs

theorem attrAt_ne_none {l : List (Span α)} {a : ℕ} {s : Span α} (hs : s ∈ l) (h : s.Has a) :
    attrAt l a ≠ none := by
  rw [attrAt, ne_eq, Option.map_eq_none_iff, List.find?_eq_none]
  intro hnone
  exact hnone s hs (by simpa using h)

/-- In a sorted list an address has the attribute of the interval it lies in. -/
theorem Sorted.attrAt_eq {l : List (Span α)} (h : Sorted l) {s : Span α} (hs : s ∈ l) {a : ℕ}
    (ha : s.Has a) : attrAt l a = some s.attr := by
  obtain ⟨l₁, l₂, rfl⟩ := List.append_of_mem hs
  have hbefore : attrAt l₁ a = none := by
    apply attrAt_eq_none
    intro t ht hta
    have h₁ := (sorted_append.1 h).2.2 t ht s (by simp)
    have h₂ := ha.1
    have h₃ := hta.2
    omega
  rw [attrAt_append, hbefore, Option.none_or, attrAt_cons, if_pos ha]

/-! ## Putting an interval in -/

/-- `l'` is `l` with `s` put in before the first interval above it, joined to the
interval it follows when the two touch and `join` allows it. -/
inductive Inserted (join : α → α → Prop) (s : Span α) : List (Span α) → List (Span α) → Prop
  | insert (l₁ l₂ : List (Span α)) (below : ∀ t ∈ l₁, ¬ s.end_ ≤ t.start)
      (above : ∀ t ∈ l₂.head?, s.end_ ≤ t.start) : Inserted join s (l₁ ++ l₂) (l₁ ++ s :: l₂)
  | extend (l₁ : List (Span α)) (t : Span α) (l₂ : List (Span α))
      (below : ∀ u ∈ l₁ ++ [t], ¬ s.end_ ≤ u.start) (above : ∀ u ∈ l₂.head?, s.end_ ≤ u.start)
      (touch : t.end_ = s.start) (joins : join t.attr s.attr) :
      Inserted join s (l₁ ++ t :: l₂) (l₁ ++ ⟨t.start, s.end_, t.attr⟩ :: l₂)

section Inserted

variable {join : α → α → Prop} {s : Span α} {l l' : List (Span α)}

/-- In a sorted list everything from the first interval above `s` on is above `s`. -/
theorem above_of_head {l₂ : List (Span α)} (hl : Sorted l₂) {e : ℕ}
    (h : ∀ t ∈ l₂.head?, e ≤ t.start) : ∀ t ∈ l₂, e ≤ t.start := by
  cases l₂ with
  | nil => simp
  | cons u l₂ => exact fun t ht => (h u rfl).trans (hl.start_le_of_cons t ht)

/-- **Putting an interval into a gap keeps the order.** -/
theorem Inserted.sorted (h : Inserted join s l l') (hl : Sorted l) (hs : s.start < s.end_)
    (hgap : ∀ t ∈ l, t.end_ ≤ s.start ∨ s.end_ ≤ t.start) : Sorted l' := by
  cases h with
  | insert l₁ l₂ below above =>
      obtain ⟨hl₁, hl₂, hcross⟩ := sorted_append.1 hl
      have hafter := above_of_head hl₂ above
      have hbefore : ∀ t ∈ l₁, t.end_ ≤ s.start := fun t ht =>
        (hgap t (List.mem_append_left _ ht)).resolve_right (below t ht)
      refine sorted_append.2 ⟨hl₁, sorted_cons.2 ⟨hs, hl₂, hafter⟩, ?_⟩
      intro t ht u hu
      rcases List.mem_cons.1 hu with rfl | hu
      · exact hbefore t ht
      · exact hcross t ht u hu
  | extend l₁ t l₂ below above touch joins =>
      obtain ⟨hl₁, htl₂, hcross⟩ := sorted_append.1 hl
      obtain ⟨ht, hl₂, -⟩ := sorted_cons.1 htl₂
      have hafter := above_of_head hl₂ above
      have hgrow : t.start < s.end_ := by omega
      refine sorted_append.2 ⟨hl₁, sorted_cons.2 ⟨hgrow, hl₂, hafter⟩, ?_⟩
      intro u hu v hv
      rcases List.mem_cons.1 hv with rfl | hv
      · exact hcross u hu t (by simp)
      · exact hcross u hu v (List.mem_cons_of_mem _ hv)

/-- No new end point but those of the interval. -/
theorem Inserted.forall_ends (h : Inserted join s l l') {P : ℕ → Prop}
    (hl : ∀ t ∈ l, P t.start ∧ P t.end_) (hstart : P s.start) (hend : P s.end_) :
    ∀ t ∈ l', P t.start ∧ P t.end_ := by
  intro t ht
  cases h with
  | insert l₁ l₂ below above =>
      simp only [List.mem_append, List.mem_cons] at ht
      rcases ht with ht | rfl | ht
      · exact hl t (by simp [ht])
      · exact ⟨hstart, hend⟩
      · exact hl t (by simp [ht])
  | extend l₁ u l₂ below above touch joins =>
      simp only [List.mem_append, List.mem_cons] at ht
      rcases ht with ht | rfl | ht
      · exact hl t (by simp [ht])
      · exact ⟨(hl u (by simp)).1, hend⟩
      · exact hl t (by simp [ht])

/-- Where an address of the new list comes from: the old list, with the same
attribute, or the interval, with its attribute or one joined to it. -/
theorem Inserted.mem_cases (h : Inserted join s l l') {t : Span α} (ht : t ∈ l') {a : ℕ}
    (ha : t.Has a) :
    (∃ u ∈ l, u.Has a ∧ u.attr = t.attr) ∨ s.Has a ∧ (t.attr = s.attr ∨ join t.attr s.attr) := by
  cases h with
  | insert l₁ l₂ below above =>
      simp only [List.mem_append, List.mem_cons] at ht
      rcases ht with ht | rfl | ht
      · exact Or.inl ⟨t, by simp [ht], ha, rfl⟩
      · exact Or.inr ⟨ha, Or.inl rfl⟩
      · exact Or.inl ⟨t, by simp [ht], ha, rfl⟩
  | extend l₁ u l₂ below above touch joins =>
      simp only [List.mem_append, List.mem_cons] at ht
      rcases ht with ht | rfl | ht
      · exact Or.inl ⟨t, by simp [ht], ha, rfl⟩
      · by_cases hold : a < u.end_
        · exact Or.inl ⟨u, by simp, ⟨ha.1, hold⟩, rfl⟩
        · refine Or.inr ⟨⟨?_, ha.2⟩, Or.inr joins⟩
          omega
      · exact Or.inl ⟨t, by simp [ht], ha, rfl⟩

end Inserted

/-! ## Cutting an interval out -/

/-- What is left of `t` below `a`. -/
def Span.below (t : Span α) (a : ℕ) : List (Span α) :=
  if t.start = a then [] else [⟨t.start, a, t.attr⟩]

/-- What is left of `t` from `e` on, under the attribute `attr`. -/
def Span.above (t : Span α) (e : ℕ) (attr : α) : List (Span α) :=
  if e = t.end_ then [] else [⟨e, t.end_, attr⟩]

/-- `l'` is `l` with `[a, e)` cut out of the interval that contains `a`, what was
above getting the attribute `attr`. -/
inductive Cut (a e : ℕ) (attr : α) : List (Span α) → List (Span α) → Prop
  | cut (l₁ : List (Span α)) (t : Span α) (l₂ : List (Span α)) (before : ∀ u ∈ l₁, u.end_ ≤ a)
      (inside : t.Has a) (within : e ≤ t.end_) :
      Cut a e attr (l₁ ++ t :: l₂) (l₁ ++ (t.below a ++ t.above e attr) ++ l₂)

section Cut

variable {a e : ℕ} {attr : α} {l l' : List (Span α)}

theorem mem_below {t u : Span α} (h : u ∈ t.below a) : u = ⟨t.start, a, t.attr⟩ ∧ t.start ≠ a := by
  unfold Span.below at h
  split_ifs at h with hta
  · simp at h
  · exact ⟨List.mem_singleton.1 h, hta⟩

theorem mem_above {t u : Span α} (h : u ∈ t.above e attr) : u = ⟨e, t.end_, attr⟩ ∧ e ≠ t.end_ := by
  unfold Span.above at h
  split_ifs at h with hte
  · simp at h
  · exact ⟨List.mem_singleton.1 h, hte⟩

theorem sorted_below {t : Span α} (h : t.start ≤ a) : Sorted (t.below a) := by
  unfold Span.below
  split_ifs with hta
  · exact sorted_nil
  · exact sorted_singleton.2 (lt_of_le_of_ne h hta)

theorem sorted_above {t : Span α} (h : e ≤ t.end_) : Sorted (t.above e attr) := by
  unfold Span.above
  split_ifs with hte
  · exact sorted_nil
  · exact sorted_singleton.2 (lt_of_le_of_ne h hte)

/-- **Cutting keeps the order.** -/
theorem Cut.sorted (h : Cut a e attr l l') (hl : Sorted l) (hae : a ≤ e) : Sorted l' := by
  obtain ⟨l₁, t, l₂, before, inside, within⟩ := h
  obtain ⟨hl₁, htl₂, hcross⟩ := sorted_append.1 hl
  obtain ⟨ht, hl₂, hafter⟩ := sorted_cons.1 htl₂
  have hpieces : Sorted (t.below a ++ t.above e attr) := by
    refine sorted_append.2 ⟨sorted_below inside.1, sorted_above within, ?_⟩
    intro u hu v hv
    rw [(mem_below hu).1, (mem_above hv).1]
    exact hae
  -- both pieces lie inside the interval that is cut
  have hbounds : ∀ u ∈ t.below a ++ t.above e attr, t.start ≤ u.start ∧ u.end_ ≤ t.end_ := by
    intro u hu
    rcases List.mem_append.1 hu with hu | hu
    · rw [(mem_below hu).1]
      exact ⟨le_rfl, le_of_lt inside.2⟩
    · rw [(mem_above hu).1]
      exact ⟨inside.1.trans hae, le_rfl⟩
  refine sorted_append.2 ⟨sorted_append.2 ⟨hl₁, hpieces, ?_⟩, hl₂, ?_⟩
  · intro u hu v hv
    exact (hcross u hu t (by simp)).trans (hbounds v hv).1
  · intro u hu v hv
    rcases List.mem_append.1 hu with hu | hu
    · exact hcross u hu v (List.mem_cons_of_mem _ hv)
    · exact (hbounds u hu).2.trans (hafter v hv)

/-- No new end point but those of the cut. -/
theorem Cut.forall_ends (h : Cut a e attr l l') {P : ℕ → Prop}
    (hl : ∀ t ∈ l, P t.start ∧ P t.end_) (ha : P a) (he : P e) :
    ∀ t ∈ l', P t.start ∧ P t.end_ := by
  obtain ⟨l₁, t, l₂, before, inside, within⟩ := h
  have ht := hl t (by simp)
  intro u hu
  simp only [List.mem_append] at hu
  rcases hu with (hu | hu | hu) | hu
  · exact hl u (by simp [hu])
  · rw [(mem_below hu).1]
    exact ⟨ht.1, ha⟩
  · rw [(mem_above hu).1]
    exact ⟨he, ht.2⟩
  · exact hl u (by simp [hu])

variable {l₁ l₂ : List (Span α)} {t : Span α} {addr : ℕ}

/-- Outside one interval of a sorted list the map does not depend on what stands
in the place of the interval. -/
theorem attrAt_replace {m : List (Span α)} (hm : ∀ u ∈ m, ¬ u.Has a) (ht : ¬ t.Has a) :
    attrAt (l₁ ++ m ++ l₂) a = attrAt (l₁ ++ t :: l₂) a := by
  rw [attrAt_append, attrAt_append, attrAt_append, attrAt_eq_none hm, attrAt_cons, if_neg ht,
    Option.or_none]

/-- Nothing but the interval itself covers its addresses. -/
theorem attrAt_inside {m : List (Span α)} (hl : Sorted (l₁ ++ t :: l₂)) (ht : t.Has a) :
    attrAt (l₁ ++ m ++ l₂) a = attrAt m a := by
  obtain ⟨-, htl, hcross⟩ := sorted_append.1 hl
  have h₁ : attrAt l₁ a = none := attrAt_eq_none fun u hu hua => by
    have := hcross u hu t (by simp)
    have := ht.1
    have := hua.2
    omega
  have h₂ : attrAt l₂ a = none := attrAt_eq_none fun u hu hua => by
    have := (sorted_cons.1 htl).2.2 u hu
    have := ht.2
    have := hua.1
    omega
  rw [attrAt_append, attrAt_append, h₁, h₂, Option.none_or, Option.or_none]

/-- The pieces that are left of an interval, address by address. -/
theorem attrAt_pieces (addr e : ℕ) (attr : α) (hta : t.Has a) :
    attrAt (t.below addr ++ t.above e attr) a =
      if addr ≤ a ∧ a < e then none else if a < addr then some t.attr else some attr := by
  have hbelow : attrAt (t.below addr) a = if a < addr then some t.attr else none := by
    unfold Span.below
    split_ifs with hempty hlt hlt
    · have := hta.1
      omega
    · rfl
    · rw [attrAt_cons, if_pos ⟨hta.1, hlt⟩]
    · rw [attrAt_cons, if_neg fun h => hlt h.2]
      rfl
  have habove : attrAt (t.above e attr) a = if e ≤ a then some attr else none := by
    unfold Span.above
    split_ifs with hempty hle hle
    · have := hta.2
      omega
    · rfl
    · rw [attrAt_cons, if_pos ⟨hle, hta.2⟩]
    · rw [attrAt_cons, if_neg fun h => hle h.1]
      rfl
  rw [attrAt_append, hbelow, habove]
  split_ifs <;> first | rfl | omega

/-- **Cutting out exactly a range**: what is above the range, if anything, keeps its
attribute. -/
theorem cut_exact_iff (attr : α) (hl : Sorted (l₁ ++ t :: l₂)) (ht : t.Has addr) (hae : addr ≤ e)
    (he : e ≤ t.end_) :
    (∀ a, attrAt (l₁ ++ (t.below addr ++ t.above e attr) ++ l₂) a =
        if addr ≤ a ∧ a < e then none else attrAt (l₁ ++ t :: l₂) a) ↔
      e = t.end_ ∨ attr = t.attr := by
  have hold : ∀ a, t.Has a → attrAt (l₁ ++ t :: l₂) a = some t.attr := fun a ha =>
    hl.attrAt_eq (by simp) ha
  constructor
  · intro h
    by_contra hne
    rw [not_or] at hne
    have hlast : t.Has e := ⟨ht.1.trans hae, lt_of_le_of_ne he hne.1⟩
    have := h e
    rw [attrAt_inside hl hlast, attrAt_pieces addr e attr hlast, hold e hlast, if_neg (by omega),
      if_neg (by omega), if_neg (by omega), Option.some.injEq] at this
    exact hne.2 this
  · intro h a
    by_cases hta : t.Has a
    · rw [attrAt_inside hl hta, attrAt_pieces addr e attr hta, hold a hta]
      rcases h with rfl | rfl
      · have := hta.2
        split_ifs <;> first | rfl | omega
      · split_ifs <;> rfl
    · rw [attrAt_replace _ hta]
      · refine (if_neg fun hin => hta ⟨ht.1.trans hin.1, by omega⟩).symm
      · intro u hu hua
        rcases List.mem_append.1 hu with hu | hu
        · rw [(mem_below hu).1] at hua
          exact hta ⟨hua.1, lt_trans hua.2 ht.2⟩
        · rw [(mem_above hu).1] at hua
          exact hta ⟨(ht.1.trans hae).trans hua.1, hua.2⟩

/-- An end below the start cuts nothing out: what is above it covers the start. -/
theorem attrAt_cut_of_lt (attr : α) (ht : t.Has addr) (he : e < addr) :
    attrAt (l₁ ++ (t.below addr ++ t.above e attr) ++ l₂) addr ≠ none := by
  have hne : e ≠ t.end_ := by
    have := ht.2
    omega
  have habove : t.above e attr = [⟨e, t.end_, attr⟩] := if_neg hne
  have hmem : (⟨e, t.end_, attr⟩ : Span α) ∈ l₁ ++ (t.below addr ++ t.above e attr) ++ l₂ := by
    simp [habove]
  exact attrAt_ne_none hmem ⟨le_of_lt he, ht.2⟩

end Cut

end Interval
