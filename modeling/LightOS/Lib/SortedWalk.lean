import Mathlib

/-!
# Walks of a sorted list

A list is kept in the order of a key, and is walked from its head up to the first element whose
key has not come.  The walk has read the next element before it deals with the one it is at;
what it deals with is taken off the list, or stays where it is with a later key.  In between the
list may grow and shrink.

* `insertNear` — a new element is put at the head or behind the first element, and nowhere else;
  `sorted_insertNear`: where that is the right place the order is kept.
* `Walking` — the invariant of a walk: what has been passed has not come and is in order, and
  so is what is ahead.
* `Walking.insertNear`, `Walking.remove`, `Walking.take`, `Walking.rearm` — the invariant is
  kept; `Walking.stop`: when the walk stops, the list is in order and nothing on it has come.
-/

namespace SortedWalk

variable {ι : Type} [DecidableEq ι]

/-- In the order of the key. -/
def Sorted (key : ι → ℕ) (l : List ι) : Prop := l.Pairwise fun i j => key i ≤ key j

/-- At the head, or behind the first element. -/
def insertNear (key : ι → ℕ) (i : ι) : List ι → List ι
  | [] => [i]
  | a :: l => if key i < key a then i :: a :: l else a :: i :: l

/-- That place is the right one. -/
def InOrder (key : ι → ℕ) (i : ι) : List ι → Prop
  | [] => True
  | a :: l => key i < key a ∨ ∀ j ∈ l, key i ≤ key j

instance (key : ι → ℕ) (i : ι) : ∀ l : List ι, Decidable (InOrder key i l)
  | [] => inferInstanceAs (Decidable True)
  | a :: l => inferInstanceAs (Decidable (key i < key a ∨ ∀ j ∈ l, key i ≤ key j))

/-- The element behind `i`. -/
def after (l : List ι) (i : ι) : Option ι := (l.dropWhile fun j => j ≠ i).tail.head?

/-- The list without `i`. -/
def without (l : List ι) (i : ι) : List ι := l.filter fun j => j ≠ i

variable {key key' : ι → ℕ} {now now' : ℕ} {i : ι} {l pre post : List ι} {next : Option ι}

/-! ## Lists -/

omit [DecidableEq ι] in
theorem insertNear_perm (key : ι → ℕ) (i : ι) (l : List ι) :
    (insertNear key i l).Perm (i :: l) := by
  cases l with
  | nil => exact List.Perm.refl _
  | cons a l =>
    simp only [insertNear]
    split_ifs
    · exact List.Perm.refl _
    · exact List.Perm.swap i a l

omit [DecidableEq ι] in
theorem insertNear_of_lt {a : ι} (h : key i < key a) : insertNear key i (a :: l) = i :: a :: l :=
  if_pos h

omit [DecidableEq ι] in
theorem insertNear_of_le {a : ι} (h : key a ≤ key i) : insertNear key i (a :: l) = a :: i :: l :=
  if_neg (by omega)

omit [DecidableEq ι] in
theorem sorted_insertNear (hl : Sorted key l) (hi : InOrder key i l) :
    Sorted key (insertNear key i l) := by
  cases l with
  | nil => exact List.pairwise_singleton _ i
  | cons a l =>
    obtain ⟨ha, hl'⟩ := List.pairwise_cons.1 hl
    by_cases hia : key i < key a
    · rw [insertNear_of_lt hia]
      refine List.pairwise_cons.2 ⟨fun j hj => ?_, hl⟩
      obtain rfl | hj := List.mem_cons.1 hj
      · exact hia.le
      · exact hia.le.trans (ha j hj)
    · have hai : key a ≤ key i := by omega
      have hrest : ∀ j ∈ l, key i ≤ key j := hi.resolve_left hia
      rw [insertNear_of_le hai]
      refine List.pairwise_cons.2 ⟨fun j hj => ?_, List.pairwise_cons.2 ⟨hrest, hl'⟩⟩
      obtain rfl | hj := List.mem_cons.1 hj
      · exact hai
      · exact ha j hj

omit [DecidableEq ι] in
/-- A place depends on the keys of the list and of the new element. -/
theorem InOrder.congr (h : InOrder key i l) (hi : key' i = key i) (hl : ∀ j ∈ l, key' j = key j) :
    InOrder key' i l := by
  cases l with
  | nil => trivial
  | cons a l =>
    simp only [InOrder] at h ⊢
    rw [hi, hl a List.mem_cons_self]
    apply h.imp_right
    intro hall j hj
    rw [hl j (List.mem_cons_of_mem a hj)]
    exact hall j hj

theorem without_append (l l' : List ι) (i : ι) :
    without (l ++ l') i = without l i ++ without l' i := List.filter_append _ _

theorem without_of_notMem (h : i ∉ l) : without l i = l :=
  List.filter_eq_self.2 fun j hj => decide_eq_true fun (hji : j = i) => h (hji ▸ hj)

theorem without_cons_self (l : List ι) (i : ι) : without (i :: l) i = without l i :=
  List.filter_cons_of_neg (by simp)

theorem without_sublist (l : List ι) (i : ι) : (without l i).Sublist l := List.filter_sublist

theorem mem_without {j : ι} : j ∈ without l i ↔ j ∈ l ∧ j ≠ i := by
  simp [without]

/-- What is taken off a list was on it once. -/
theorem cons_without_perm (hl : l.Nodup) (hi : i ∈ l) : (i :: without l i).Perm l := by
  have hfilter : without l i = l.erase i := by
    rw [hl.erase_eq_filter]
    exact List.filter_congr fun j _ => by simp [bne, Bool.beq_eq_decide_eq]
  rw [hfilter]
  exact (List.perm_cons_erase hi).symm

theorem after_append (hi : i ∉ pre) (rest : List ι) : after (pre ++ i :: rest) i = rest.head? := by
  have hpre : ∀ j ∈ pre, decide (j ≠ i) = true :=
    fun j hj => decide_eq_true fun (hji : j = i) => hi (hji ▸ hj)
  simp only [after, List.dropWhile_append_of_pos hpre, List.dropWhile_cons, ne_eq,
    not_true_eq_false, decide_false, Bool.false_eq_true, if_false, List.tail_cons]

/-! ## The invariant -/

/-- A list that is walked: `pre` has been passed, `next` is read next. -/
structure Split (key : ι → ℕ) (now : ℕ) (pre post : List ι) (next : Option ι) : Prop where
  passed : ∀ j ∈ pre, now < key j
  front : Sorted key pre
  back : Sorted key post
  /-- What has not come of both is in order. -/
  cross : ∀ j ∈ pre, ∀ k ∈ post, now < key k → key j ≤ key k
  /-- The head of what is ahead; or nothing is, and the walk will stop. -/
  cursor : next = post.head? ∨ post = [] ∧ ∃ n, next = some n ∧ now < key n

/-- The invariant of a walk that reads `next` next. -/
def Walking (key : ι → ℕ) (now : ℕ) (l : List ι) (next : Option ι) : Prop :=
  ∃ pre post, l = pre ++ post ∧ Split key now pre post next

omit [DecidableEq ι] in
/-- A walk starts at the head. -/
theorem walking_start (hl : Sorted key l) : Walking key now l l.head? :=
  ⟨[], l, rfl, by simp, List.Pairwise.nil, hl, by simp, Or.inl rfl⟩

omit [DecidableEq ι] in
/-- What has not come is in order. -/
theorem Split.pending (h : Split key now pre post next) (hpost : ∀ j ∈ post, now < key j) :
    Sorted key (pre ++ post) :=
  List.pairwise_append.2 ⟨h.front, h.back, fun j hj k hk => h.cross j hj k hk (hpost k hk)⟩

omit [DecidableEq ι] in
/-- Nothing that has come is behind something that has not. -/
theorem Split.ahead (h : Split key now pre post next) {n : ι} {rest : List ι}
    (hpost : post = n :: rest) (hn : now < key n) : ∀ j ∈ post, now < key j := by
  have hback := h.back
  rw [hpost] at hback ⊢
  intro j hj
  obtain rfl | hj := List.mem_cons.1 hj
  · exact hn
  · exact hn.trans_le ((List.pairwise_cons.1 hback).1 j hj)

omit [DecidableEq ι] in
/-- **Where the walk stops**, the list is in order and nothing on it has come. -/
theorem Walking.stop (h : Walking key now l next) (hnext : ∀ n, next = some n → now < key n) :
    Sorted key l ∧ ∀ j ∈ l, now < key j := by
  obtain ⟨pre, post, rfl, hs⟩ := h
  have hpost : ∀ j ∈ post, now < key j := by
    cases hp : post with
    | nil => simp
    | cons n rest =>
      have hn : now < key n := by
        apply hnext n
        obtain hcur | ⟨hnil, -⟩ := hs.cursor
        · rw [hcur, hp]
          rfl
        · rw [hp] at hnil
          cases hnil
      rw [← hp]
      exact hs.ahead hp hn
  refine ⟨hs.pending hpost, fun j hj => ?_⟩
  obtain hj | hj := List.mem_append.1 hj
  · exact hs.passed j hj
  · exact hpost j hj

omit [DecidableEq ι] in
/-- The invariant depends on the keys up to a shift of all of them, and of the time. -/
theorem Walking.shift (h : Walking key now l next) (d : ℕ) (hnow : now' + d = now)
    (hkey : ∀ j, j ∈ l ∨ next = some j → key' j + d = key j) : Walking key' now' l next := by
  obtain ⟨pre, post, rfl, hs⟩ := h
  have hpre : ∀ j ∈ pre, key' j + d = key j :=
    fun j hj => hkey j (Or.inl (List.mem_append_left _ hj))
  have hpost : ∀ j ∈ post, key' j + d = key j :=
    fun j hj => hkey j (Or.inl (List.mem_append_right _ hj))
  refine ⟨pre, post, rfl, fun j hj => ?_, ?_, ?_, fun j hj k hk hlt => ?_, ?_⟩
  · have := hs.passed j hj
    have := hpre j hj
    omega
  · refine hs.front.imp_of_mem fun {j k} hj hk hle => ?_
    have := hpre j hj
    have := hpre k hk
    omega
  · refine hs.back.imp_of_mem fun {j k} hj hk hle => ?_
    have := hpost j hj
    have := hpost k hk
    omega
  · have := hpre j hj
    have := hpost k hk
    have := hs.cross j hj k hk (by omega)
    omega
  · obtain hcur | ⟨hnil, n, hn, hlt⟩ := hs.cursor
    · exact Or.inl hcur
    · have := hkey n (Or.inr hn)
      exact Or.inr ⟨hnil, n, hn, by omega⟩

/-! ## Changes of the list -/

omit [DecidableEq ι] in
/-- The list grows by an element that has not come. -/
theorem Walking.insertNear (h : Walking key now l next) (hnow : now < key i)
    (hi : InOrder key i l) : Walking key now (insertNear key i l) next := by
  obtain ⟨pre, post, rfl, hs⟩ := h
  cases pre with
  | cons p pre =>
    -- something has been passed: the new element is among that
    have hfront := sorted_insertNear hs.front (i := i) (by
      obtain hlt | hall := hi
      · exact Or.inl hlt
      · exact Or.inr fun j hj => hall j (List.mem_append_left _ hj))
    have hmem : ∀ j ∈ SortedWalk.insertNear key i (p :: pre), j = i ∨ j ∈ p :: pre :=
      fun j hj => List.mem_cons.1 ((insertNear_perm key i (p :: pre)).mem_iff.1 hj)
    refine ⟨SortedWalk.insertNear key i (p :: pre), post, ?_, ?_, hfront, hs.back, ?_, hs.cursor⟩
    · by_cases hip : key i < key p
      · rw [List.cons_append, insertNear_of_lt hip, insertNear_of_lt hip]
        rfl
      · have hpi : key p ≤ key i := by omega
        rw [List.cons_append, insertNear_of_le hpi, insertNear_of_le hpi]
        rfl
    · intro j hj
      obtain rfl | hj := hmem j hj
      · exact hnow
      · exact hs.passed j hj
    · intro j hj k hk hlt
      obtain rfl | hj := hmem j hj
      · obtain hip | hall := hi
        · exact hip.le.trans (hs.cross p List.mem_cons_self k hk hlt)
        · exact hall k (List.mem_append_right _ hk)
      · exact hs.cross j hj k hk hlt
  | nil =>
    cases post with
    | nil =>
      exact ⟨[i], [], rfl, by simpa using hnow, List.pairwise_singleton _ i, hs.back, by simp,
        hs.cursor⟩
    | cons n rest =>
      have hcur : next = some n := by
        obtain hcur | ⟨hnil, -⟩ := hs.cursor
        · exact hcur
        · cases hnil
      by_cases hin : key i < key n
      · -- the walk is at the head and will stop there
        rw [List.nil_append, insertNear_of_lt hin]
        refine ⟨[i], n :: rest, rfl, by simpa using hnow, List.pairwise_singleton _ i, hs.back, ?_,
          Or.inl hcur⟩
        intro j hj k hk _
        obtain rfl := List.mem_singleton.1 hj
        obtain rfl | hk := List.mem_cons.1 hk
        · exact hin.le
        · exact hin.le.trans ((List.pairwise_cons.1 hs.back).1 k hk)
      · have hni : key n ≤ key i := by omega
        have hback := sorted_insertNear hs.back hi
        rw [insertNear_of_le hni] at hback
        rw [List.nil_append, insertNear_of_le hni]
        exact ⟨[], n :: i :: rest, rfl, by simp, List.Pairwise.nil, hback, by simp, Or.inl hcur⟩

/-- An element is taken off the list; if it is the one that is read next, it has not come. -/
theorem Walking.remove (h : Walking key now l next) (hl : l.Nodup)
    (hi : next = some i → now < key i) : Walking key now (without l i) next := by
  obtain ⟨pre, post, rfl, hs⟩ := h
  by_cases hnext : next = some i
  · -- nothing that has come is left
    have hstop : Sorted key (pre ++ post) ∧ ∀ j ∈ pre ++ post, now < key j := by
      apply Walking.stop ⟨pre, post, rfl, hs⟩
      intro n hn
      obtain rfl : n = i := by
        rw [hn] at hnext
        exact Option.some.inj hnext
      exact hi hn
    refine ⟨without (pre ++ post) i, [], (List.append_nil _).symm, ?_, ?_, List.Pairwise.nil,
      by simp, Or.inr ⟨rfl, i, hnext, hi hnext⟩⟩
    · exact fun j hj => hstop.2 j ((without_sublist _ i).subset hj)
    · exact hstop.1.sublist (without_sublist _ i)
  · refine ⟨without pre i, without post i, without_append pre post i, ?_, ?_, ?_, ?_, ?_⟩
    · exact fun j hj => hs.passed j ((without_sublist _ i).subset hj)
    · exact hs.front.sublist (without_sublist _ i)
    · exact hs.back.sublist (without_sublist _ i)
    · exact fun j hj k hk =>
        hs.cross j ((without_sublist _ i).subset hj) k ((without_sublist _ i).subset hk)
    · obtain hcur | ⟨rfl, hn⟩ := hs.cursor
      · left
        cases post with
        | nil => simpa [without] using hcur
        | cons n rest =>
          have hni : n ≠ i := fun e => hnext (by rw [hcur, e]; rfl)
          rw [hcur]
          simp [without, hni]
      · exact Or.inr ⟨rfl, hn⟩

/-- What has come and is read next is on the list. -/
theorem Walking.split_at (h : Walking key now l (some i)) (hl : l.Nodup) (hi : key i ≤ now) :
    ∃ pre rest, l = pre ++ i :: rest ∧ i ∉ pre ∧ i ∉ rest ∧ after l i = rest.head? ∧
      Split key now pre (i :: rest) (some i) := by
  obtain ⟨pre, post, rfl, hs⟩ := h
  have hpost : some i = post.head? := by
    obtain hcur | ⟨-, n, hn, hlt⟩ := hs.cursor
    · exact hcur
    · obtain rfl := Option.some.inj hn
      omega
  cases post with
  | nil => cases hpost
  | cons n rest =>
    obtain rfl : i = n := Option.some.inj hpost
    obtain ⟨-, hrest, hdisj⟩ := List.nodup_append.1 hl
    have hpre : i ∉ pre := fun hmem => hdisj i hmem i List.mem_cons_self rfl
    exact ⟨pre, rest, rfl, hpre, (List.nodup_cons.1 hrest).1, after_append hpre rest, hs⟩

theorem Walking.mem (h : Walking key now l (some i)) (hl : l.Nodup) (hi : key i ≤ now) : i ∈ l := by
  obtain ⟨pre, rest, rfl, -⟩ := h.split_at hl hi
  exact List.mem_append_right _ List.mem_cons_self

/-- Nothing on the list has come before what is read next. -/
theorem Walking.least (h : Walking key now l (some i)) (hl : l.Nodup) (hi : key i ≤ now) :
    ∀ j ∈ l, key i ≤ key j := by
  obtain ⟨pre, rest, rfl, -, -, -, hs⟩ := h.split_at hl hi
  intro j hj
  obtain hj | hj := List.mem_append.1 hj
  · exact hi.trans (hs.passed j hj).le
  · obtain rfl | hj := List.mem_cons.1 hj
    · exact le_rfl
    · exact (List.pairwise_cons.1 hs.back).1 j hj

/-- What has come is taken off the list. -/
theorem Walking.take (h : Walking key now l (some i)) (hl : l.Nodup) (hi : key i ≤ now) :
    Walking key now (without l i) (after l i) := by
  obtain ⟨pre, rest, rfl, hpre, hrest, hafter, hs⟩ := h.split_at hl hi
  have hlist : without (pre ++ i :: rest) i = pre ++ rest := by
    rw [without_append, without_cons_self, without_of_notMem hpre, without_of_notMem hrest]
  rw [hlist, hafter]
  refine ⟨pre, rest, rfl, hs.passed, hs.front, (List.pairwise_cons.1 hs.back).2, ?_, Or.inl rfl⟩
  exact fun j hj k hk => hs.cross j hj k (List.mem_cons_of_mem i hk)

/-- The new key of what stays on the list is in order. -/
def RearmOk (key : ι → ℕ) (now : ℕ) (l : List ι) (i : ι) (v : ℕ) : Prop :=
  now < v ∧ (∀ j ∈ l.takeWhile fun j => j ≠ i, key j ≤ v) ∧
    ∀ j ∈ l.dropWhile fun j => j ≠ i, now < key j → v ≤ key j

instance (key : ι → ℕ) (now : ℕ) (l : List ι) (i : ι) (v : ℕ) :
    Decidable (RearmOk key now l i v) := by
  unfold RearmOk
  infer_instance

/-- What has come stays on the list, with a later key. -/
theorem Walking.rearm (h : Walking key now l (some i)) (hl : l.Nodup) (hi : key i ≤ now) {v : ℕ}
    (hv : RearmOk key now l i v) : Walking (Function.update key i v) now l (after l i) := by
  obtain ⟨pre, rest, rfl, hpre, hrest, hafter, hs⟩ := h.split_at hl hi
  obtain ⟨hlt, hbefore, hbehind⟩ := hv
  have hall : ∀ j ∈ pre, decide (j ≠ i) = true :=
    fun j hj => decide_eq_true fun (hji : j = i) => hpre (hji ▸ hj)
  have hfront : ∀ j ∈ pre, key j ≤ v := by
    intro j hj
    apply hbefore j
    rw [List.takeWhile_append_of_pos hall]
    exact List.mem_append_left _ hj
  have hback : ∀ j ∈ rest, now < key j → v ≤ key j := by
    intro j hj
    apply hbehind j
    rw [List.dropWhile_append_of_pos hall]
    simp [hj]
  have hsame : ∀ j, j ≠ i → Function.update key i v j = key j :=
    fun j hj => Function.update_of_ne hj v key
  have hself : Function.update key i v i = v := Function.update_self i v key
  have hpreKey : ∀ j ∈ pre, Function.update key i v j = key j :=
    fun j hj => hsame j fun e => hpre (e ▸ hj)
  have hrestKey : ∀ j ∈ rest, Function.update key i v j = key j :=
    fun j hj => hsame j fun e => hrest (e ▸ hj)
  rw [hafter]
  refine ⟨pre ++ [i], rest, by simp, ?_, ?_, ?_, ?_, Or.inl rfl⟩
  · intro j hj
    obtain hj | hj := List.mem_append.1 hj
    · rw [hpreKey j hj]
      exact hs.passed j hj
    · rw [List.mem_singleton.1 hj, hself]
      exact hlt
  · refine List.pairwise_append.2 ⟨?_, List.pairwise_singleton _ i, ?_⟩
    · refine hs.front.imp_of_mem fun {j k} hj hk hle => ?_
      rw [hpreKey j hj, hpreKey k hk]
      exact hle
    · intro j hj k hk
      rw [List.mem_singleton.1 hk, hpreKey j hj, hself]
      exact hfront j hj
  · refine (List.pairwise_cons.1 hs.back).2.imp_of_mem fun {j k} hj hk hle => ?_
    rw [hrestKey j hj, hrestKey k hk]
    exact hle
  · intro j hj k hk hltk
    rw [hrestKey k hk] at hltk ⊢
    obtain hj | hj := List.mem_append.1 hj
    · rw [hpreKey j hj]
      exact hs.cross j hj k (List.mem_cons_of_mem i hk) hltk
    · rw [List.mem_singleton.1 hj, hself]
      exact hback k hk hltk

end SortedWalk
