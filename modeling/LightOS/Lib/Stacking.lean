import Mathlib

/-!
# Stacks that are numbered

A stack is a list without repetition, the bottom first.  Its elements carry numbers, and the
programs about it renumber one part of the list at a time.

* `Numbered` — the numbers go up by one along the list.
* `numbered_append`, `Numbered.shift` — a part of the list moves up or down as a whole.
* `numbered_iff` — the numbers from zero on are the indices.
* `numbered_insert` — an element is put in.
* `place` — the operation on stacks: take an element out, or put it where a number says;
  `place_eq`, `place_concat`, `place_erase` are its rules.
-/

namespace Stacking

variable {V : Type} {z z' : V → ℤ} {k c : ℤ} {l a b : List V} {v : V}

/-- The elements have the numbers from `k` on. -/
def Numbered (z : V → ℤ) : ℤ → List V → Prop
  | _, [] => True
  | k, v :: l => z v = k ∧ Numbered z (k + 1) l

@[simp] theorem numbered_nil : Numbered z k [] := trivial

@[simp] theorem numbered_cons : Numbered z k (v :: l) ↔ z v = k ∧ Numbered z (k + 1) l := Iff.rfl

theorem numbered_append : Numbered z k (a ++ b) ↔ Numbered z k a ∧ Numbered z (k + a.length) b := by
  induction a generalizing k with
  | nil => simp
  | cons v a ih =>
      rw [List.cons_append, numbered_cons, ih, numbered_cons, and_assoc, List.length_cons]
      have hsum : k + 1 + (a.length : ℤ) = k + ((a.length + 1 : ℕ) : ℤ) := by push_cast; ring
      rw [hsum]

/-- **A part of the list moves as a whole.** -/
theorem Numbered.shift (h : Numbered z k l) (hz : ∀ v ∈ l, z' v = z v + c) :
    Numbered z' (k + c) l := by
  induction l generalizing k with
  | nil => trivial
  | cons v l ih =>
      obtain ⟨hv, hl⟩ := h
      refine ⟨by rw [hz v List.mem_cons_self, hv], ?_⟩
      have hsum : k + c + 1 = k + 1 + c := by ring
      rw [hsum]
      exact ih hl fun w hw => hz w (List.mem_cons_of_mem v hw)

theorem Numbered.congr (h : Numbered z k l) (hz : ∀ v ∈ l, z' v = z v) : Numbered z' k l := by
  have hshift := h.shift (c := 0) fun v hv => (hz v hv).trans (Int.add_zero _).symm
  rwa [Int.add_zero] at hshift

/-- The numbers of a list are an interval. -/
theorem Numbered.mem (h : Numbered z k l) (hv : v ∈ l) : k ≤ z v ∧ z v < k + l.length := by
  induction l generalizing k with
  | nil => cases hv
  | cons w l ih =>
      obtain ⟨hw, hl⟩ := h
      rw [List.length_cons]
      rcases List.mem_cons.1 hv with rfl | hv
      · push_cast
        omega
      · have hrest := ih hl hv
        push_cast
        omega

/-- The numbers grow along the list. -/
theorem Numbered.pairwise (h : Numbered z k l) : l.Pairwise fun v w => z v < z w := by
  induction l generalizing k with
  | nil => exact List.Pairwise.nil
  | cons v l ih =>
      obtain ⟨hv, hl⟩ := h
      refine List.pairwise_cons.2 ⟨fun w hw => ?_, ih hl⟩
      have hlow := (hl.mem hw).1
      omega

theorem Numbered.nodup (h : Numbered z k l) : l.Nodup := by
  refine h.pairwise.imp fun hlt heq => ?_
  subst heq
  exact lt_irrefl _ hlt

/-- Numbers are indices. -/
theorem numbered_iff : Numbered z k l ↔ ∀ i (h : i < l.length), z l[i] = k + i := by
  induction l generalizing k with
  | nil => simp
  | cons v l ih =>
      rw [numbered_cons, ih]
      constructor
      · rintro ⟨hv, hl⟩ i hi
        cases i with
        | zero => simpa using hv
        | succ i =>
            have hstep := hl i (by simpa using hi)
            rw [List.getElem_cons_succ, hstep]
            push_cast
            ring
      · intro h
        have hfirst := h 0 (by simp)
        rw [List.getElem_cons_zero] at hfirst
        refine ⟨by simpa using hfirst, fun i hi => ?_⟩
        have hstep := h (i + 1) (by simpa using hi)
        rw [List.getElem_cons_succ] at hstep
        rw [hstep]
        push_cast
        ring

/-- Two elements with one number are one element. -/
theorem Numbered.inj (h : Numbered z k l) {w : V} (hv : v ∈ l) (hw : w ∈ l) (heq : z v = z w) :
    v = w := by
  obtain ⟨i, hi, rfl⟩ := List.mem_iff_getElem.1 hv
  obtain ⟨j, hj, rfl⟩ := List.mem_iff_getElem.1 hw
  have hnum := numbered_iff.1 h
  rw [hnum i hi, hnum j hj] at heq
  have hij : i = j := by omega
  subst hij
  rfl

/-- A list is cut where a number says. -/
theorem exists_split (l : List V) {n : ℤ} (h0 : 0 ≤ n) (hn : n ≤ l.length) :
    ∃ a b, l = a ++ b ∧ (a.length : ℤ) = n := by
  refine ⟨l.take n.toNat, l.drop n.toNat, (List.take_append_drop _ _).symm, ?_⟩
  rw [List.length_take]
  omega

/-- **An element cuts the list at its number.** -/
theorem Numbered.split (h : Numbered z 0 l) (hv : v ∈ l) :
    ∃ a b, l = a ++ v :: b ∧ z v = a.length ∧ v ∉ a ∧ v ∉ b := by
  obtain ⟨a, b, rfl⟩ := List.append_of_mem hv
  have hnodup := h.nodup
  have hat := (numbered_append.1 h).2.1
  rw [List.nodup_append, List.nodup_cons] at hnodup
  refine ⟨a, b, rfl, by omega, fun ha => ?_, hnodup.2.1.1⟩
  exact hnodup.2.2 v ha v List.mem_cons_self rfl

/-- The number of an element is its index. -/
theorem Numbered.idxOf [DecidableEq V] (h : Numbered z k l) (hv : v ∈ l) : z v = k + l.idxOf v := by
  have hi := List.idxOf_lt_length_of_mem hv
  have hnum := numbered_iff.1 h _ hi
  rwa [List.getElem_idxOf hi] at hnum

/-- A number that is given to something else. -/
theorem Numbered.update [DecidableEq V] (h : Numbered z k l) (hv : v ∉ l) (n : ℤ) :
    Numbered (Function.update z v n) k l := by
  refine h.congr fun w hw => ?_
  have hne : w ≠ v := fun heq => hv (heq ▸ hw)
  exact Function.update_of_ne hne _ _

/-- **An element is put in**: what is above it has moved up. -/
theorem numbered_insert [DecidableEq V] (ha : Numbered z 0 a) (hb : Numbered z (a.length + 1) b)
    (hv : v ∉ a ++ b) : Numbered (Function.update z v a.length) 0 (a ++ v :: b) := by
  rw [List.mem_append, not_or] at hv
  refine numbered_append.2 ⟨ha.update hv.1 _, ?_, ?_⟩
  · rw [Function.update_self, Int.zero_add]
  · rw [Int.zero_add]
    exact hb.update hv.2 _

theorem not_mem_of_nodup_middle (h : (a ++ v :: b).Nodup) : v ∉ a ∧ v ∉ b := by
  rw [List.nodup_middle, List.nodup_cons, List.mem_append, not_or] at h
  exact h.1

/-! ## Placing -/

theorem insertIdx_append (a b : List V) (v : V) : (a ++ b).insertIdx a.length v = a ++ v :: b := by
  induction a with
  | nil => rfl
  | cons w a ih =>
      rw [List.cons_append, List.length_cons, List.insertIdx_succ_cons, ih, List.cons_append]

variable [DecidableEq V]

/-- **The operation on stacks.**  A number below zero takes the element out; otherwise it is put at
the place with this number, or on top if there are not that many. -/
def place (l : List V) (v : V) (n : ℤ) : List V :=
  if n < 0 then l.erase v
  else if v ∈ l then (l.erase v).insertIdx (min n.toNat (l.length - 1)) v
  else l.insertIdx (min n.toNat l.length) v

theorem place_neg {n : ℤ} (hn : n < 0) : place l v n = l.erase v := if_pos hn

/-- **Placing**, by what is below and what is above. -/
theorem place_eq {n : ℤ} (hn : 0 ≤ n) (hrest : l.erase v = a ++ b)
    (ha : (a.length : ℤ) = min n (a.length + b.length)) : place l v n = a ++ v :: b := by
  have hlen : (l.erase v).length = a.length + b.length := by rw [hrest, List.length_append]
  rw [place, if_neg (by omega)]
  by_cases hv : v ∈ l
  · rw [List.length_erase_of_mem hv] at hlen
    have hat : min n.toNat (l.length - 1) = a.length := by omega
    rw [if_pos hv, hat, hrest, insertIdx_append]
  · rw [List.erase_of_not_mem hv] at hlen hrest
    have hat : min n.toNat l.length = a.length := by omega
    rw [if_neg hv, hat, hrest, insertIdx_append]

theorem erase_split (hv : v ∉ a) : (a ++ v :: b).erase v = a ++ b := by
  rw [List.erase_append_right _ hv, List.erase_cons_head]

/-- What is placed is somewhere among the others. -/
theorem place_split (l : List V) (v : V) {n : ℤ} (hn : 0 ≤ n) :
    ∃ a b, l.erase v = a ++ b ∧ place l v n = a ++ v :: b ∧
      (a.length : ℤ) = min n (a.length + b.length) := by
  obtain ⟨a, b, hab, hlen⟩ :=
    exists_split (l.erase v) (n := min n (l.erase v).length) (by omega) (by omega)
  have hsum : (l.erase v).length = a.length + b.length := by rw [hab, List.length_append]
  have ha : (a.length : ℤ) = min n (a.length + b.length) := by omega
  exact ⟨a, b, hab, place_eq hn hab ha, ha⟩

/-- What is on the stack after placing. -/
theorem mem_place {w : V} {n : ℤ} (hn : 0 ≤ n) : w ∈ place l v n ↔ w = v ∨ w ∈ l := by
  obtain ⟨a, b, hab, hplace, -⟩ := place_split l v hn
  have hrest : w ∈ place l v n ↔ w = v ∨ w ∈ l.erase v := by
    rw [hplace, hab, List.mem_append, List.mem_append, List.mem_cons]
    tauto
  rw [hrest]
  by_cases hwv : w = v
  · simp only [hwv, true_or]
  · rw [List.mem_erase_of_ne hwv]

theorem mem_of_mem_place {w : V} {n : ℤ} (hw : w ∈ place l v n) : w = v ∨ w ∈ l := by
  by_cases hn : n < 0
  · rw [place_neg hn] at hw
    exact Or.inr (List.mem_of_mem_erase hw)
  · exact (mem_place (not_lt.1 hn)).1 hw

/-- **Under the last element** there is as much room as there are other elements. -/
theorem place_concat {m : V} {n : ℤ} (hv : v ≠ m) (hn : n ≤ (l.erase v).length) :
    ∃ l', place (l ++ [m]) v n = l' ++ [m] ∧ (n = (l.erase v).length → l' = l.erase v ++ [v]) := by
  have hrest : (l ++ [m]).erase v = l.erase v ++ [m] := by
    by_cases hmem : v ∈ l
    · rw [List.erase_append_left _ hmem]
    · rw [List.erase_append_right _ hmem, List.erase_of_not_mem hmem, List.erase_of_not_mem]
      rwa [List.mem_singleton]
  by_cases h0 : n < 0
  · refine ⟨l.erase v, by rw [place_neg h0, hrest], fun htop => ?_⟩
    omega
  · obtain ⟨a, b, hab, ha⟩ := exists_split (l.erase v) (n := n) (by omega) hn
    have hsplit : (l ++ [m]).erase v = a ++ (b ++ [m]) := by rw [hrest, hab, List.append_assoc]
    refine ⟨a ++ v :: b, ?_, fun htop => ?_⟩
    · rw [place_eq (by omega) hsplit, List.append_assoc, List.cons_append]
      rw [List.length_append]
      push_cast
      omega
    · -- there is nothing between it and the last element
      rw [hab, List.length_append] at htop
      have hb : b = [] := List.eq_nil_of_length_eq_zero (by push_cast at htop; omega)
      rw [hab, hb, List.append_nil]

/-- **The others keep their order.** -/
theorem place_erase (hl : l.Nodup) (v : V) (n : ℤ) : (place l v n).erase v = l.erase v := by
  have hout : v ∉ l.erase v := hl.not_mem_erase
  by_cases hn : n < 0
  · rw [place_neg hn, List.erase_of_not_mem hout]
  · obtain ⟨a, b, hab, hplace, -⟩ := place_split l v (n := n) (by omega)
    have hva : v ∉ a := fun ha => hout (by rw [hab]; exact List.mem_append_left b ha)
    rw [hplace, erase_split hva, hab]

/-- The others stay. -/
theorem mem_place_of_ne (hl : l.Nodup) {w : V} (hw : w ≠ v) (n : ℤ) : w ∈ place l v n ↔ w ∈ l := by
  rw [← List.mem_erase_of_ne hw, place_erase hl, List.mem_erase_of_ne hw]

/-! ## Next to an element -/

/-- **Right below an element**: only the number it has among the others puts it there. -/
theorem place_below_iff {t : V} {n : ℤ} (hl : l.Nodup) (hrest : l.erase v = a ++ t :: b) :
    (∃ x y, place l v n = x ++ v :: t :: y) ↔ n = a.length := by
  have hout : v ∉ l.erase v := hl.not_mem_erase
  have hnodup : (a ++ t :: b).Nodup := hrest ▸ hl.erase v
  obtain ⟨hta, htb⟩ := not_mem_of_nodup_middle hnodup
  constructor
  · rintro ⟨x, y, hxy⟩
    obtain hn | hn := lt_or_ge n 0
    · rw [place_neg hn] at hxy
      exact absurd (by rw [hxy]; simp) hout
    · obtain ⟨x', y', hsplit, hplace, hlen⟩ := place_split l v hn
      rw [hsplit, List.mem_append, not_or] at hout
      obtain ⟨rfl, -, rfl⟩ :=
        (List.append_cons_inj_of_notMem hout.1 hout.2).1 (hplace.symm.trans hxy)
      obtain ⟨rfl, -, rfl⟩ := (List.append_cons_inj_of_notMem hta htb).1 (hrest.symm.trans hsplit)
      rw [List.length_cons] at hlen
      push_cast at hlen
      omega
  · intro hn
    refine ⟨a, b, place_eq (by omega) hrest ?_⟩
    rw [List.length_cons]
    push_cast
    omega

/-- **Right above an element**: on top there is no other number to tell apart. -/
theorem place_above_iff {t : V} {n : ℤ} (hl : l.Nodup) (hrest : l.erase v = a ++ t :: b) :
    (∃ x y, place l v n = x ++ t :: v :: y) ↔ n = a.length + 1 ∨ b = [] ∧ a.length < n := by
  have hout : v ∉ l.erase v := hl.not_mem_erase
  have hnodup : (a ++ t :: b).Nodup := hrest ▸ hl.erase v
  obtain ⟨hta, htb⟩ := not_mem_of_nodup_middle hnodup
  constructor
  · rintro ⟨x, y, hxy⟩
    obtain hn | hn := lt_or_ge n 0
    · rw [place_neg hn] at hxy
      exact absurd (by rw [hxy]; simp) hout
    · obtain ⟨x', y', hsplit, hplace, hlen⟩ := place_split l v hn
      rw [hsplit, List.mem_append, not_or] at hout
      have hcut : x ++ t :: v :: y = (x ++ [t]) ++ v :: y := by simp
      obtain ⟨rfl, -, rfl⟩ :=
        (List.append_cons_inj_of_notMem hout.1 hout.2).1 (hplace.symm.trans (hxy.trans hcut))
      rw [List.append_assoc, List.singleton_append] at hsplit
      obtain ⟨rfl, -, rfl⟩ := (List.append_cons_inj_of_notMem hta htb).1 (hrest.symm.trans hsplit)
      rw [List.length_append, List.length_singleton] at hlen
      push_cast at hlen
      cases b with
      | nil => simp at hlen ⊢; omega
      | cons w b => simp at hlen ⊢; omega
  · intro hn
    have hcut : l.erase v = (a ++ [t]) ++ b := by rw [hrest]; simp
    refine ⟨a, b, ?_⟩
    rw [place_eq (a := a ++ [t]) (by rcases hn with hn | ⟨-, hn⟩ <;> omega) hcut ?_]
    · simp
    · rw [List.length_append, List.length_singleton]
      rcases hn with rfl | ⟨rfl, hn⟩
      · push_cast
        omega
      · simp
        omega

end Stacking
