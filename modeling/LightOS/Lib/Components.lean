import Mathlib

/-!
# Strings of components

A string over an alphabet with a separator is read as the list of its *components*, the
non-empty runs between separators, and a list of components is written as a string with a
separator in front of each.  On lists of components there is a stack machine with two special
components: one that stands for nothing and one that takes the component before it away.

* `comps_join` — what is written is read back.
* `resolve_eq_self_iff` — the lists the stack machine leaves alone are those without special
  components.
-/

namespace LightOS
namespace Components

variable {α : Type*}

/-! ## Writing -/

/-- A component: not empty, without separators. -/
def IsComp (sep : α) (c : List α) : Prop := c ≠ [] ∧ sep ∉ c

/-- The string of a list of components. -/
def join (sep : α) (cs : List (List α)) : List α := cs.flatMap fun c => sep :: c

variable {sep : α}

@[simp] theorem join_nil : join sep [] = [] := rfl

@[simp] theorem join_cons (c : List α) (cs : List (List α)) :
    join sep (c :: cs) = sep :: (c ++ join sep cs) := rfl

theorem join_append (cs ds : List (List α)) : join sep (cs ++ ds) = join sep cs ++ join sep ds :=
  List.flatMap_append

/-- The string of a list of components; the empty list is a single separator. -/
def path (sep : α) (cs : List (List α)) : List α := if cs = [] then [sep] else join sep cs

@[simp] theorem path_nil : path sep [] = [sep] := rfl

@[simp] theorem path_cons (c : List α) (cs : List (List α)) :
    path sep (c :: cs) = sep :: (c ++ join sep cs) := rfl

theorem path_of_ne_nil {cs : List (List α)} (h : cs ≠ []) : path sep cs = join sep cs := if_neg h

theorem path_append_singleton (cs : List (List α)) (c : List α) :
    path sep (cs ++ [c]) = join sep cs ++ sep :: c := by
  rw [path_of_ne_nil (by simp), join_append, join_cons, join_nil, List.append_nil]

/-- What is written does not end with a separator. -/
theorem getLast?_join_ne {cs : List (List α)} (h : ∀ c ∈ cs, IsComp sep c) :
    (join sep cs).getLast? ≠ some sep := by
  rcases List.eq_nil_or_concat cs with rfl | ⟨cs', c, rfl⟩
  · simp
  · obtain ⟨hne, hsep⟩ := h c (by simp)
    rw [List.concat_eq_append, join_append, join_cons, join_nil, List.append_nil,
      List.getLast?_append_of_ne_nil _ (List.cons_ne_nil sep c), List.getLast?_cons_of_ne_nil hne]
    intro hlast
    exact hsep (List.mem_of_mem_getLast? hlast)

/-! ## Reading -/

variable [DecidableEq α]

/-- The components of a string. -/
def comps (sep : α) (s : List α) : List (List α) := (s.splitOn sep).filter fun c => !c.isEmpty

@[simp] theorem comps_nil : comps sep [] = [] := by
  rw [comps, List.splitOn_nil]
  rfl

/-- A string is cut at any of its separators. -/
theorem comps_append_cons (s t : List α) :
    comps sep (s ++ sep :: t) = comps sep s ++ comps sep t := by
  rw [comps, List.splitOn_append_cons_self, List.filter_append]
  rfl

@[simp] theorem comps_cons_sep (s : List α) : comps sep (sep :: s) = comps sep s :=
  comps_append_cons [] s

theorem comps_eq_singleton {c : List α} (hc : IsComp sep c) : comps sep c = [c] := by
  rw [comps, List.splitOn_eq_singleton hc.2, List.filter_singleton]
  cases c with
  | nil => exact absurd rfl hc.1
  | cons x c => rfl

theorem comps_comp_append {c : List α} (hc : IsComp sep c) (s : List α) :
    comps sep (c ++ sep :: s) = c :: comps sep s := by
  rw [comps_append_cons, comps_eq_singleton hc]
  rfl

/-- **What is written is read back.** -/
theorem comps_join {cs : List (List α)} (h : ∀ c ∈ cs, IsComp sep c) :
    comps sep (join sep cs) = cs := by
  induction cs with
  | nil => exact comps_nil
  | cons c cs ih =>
      have hc := h c (List.mem_cons_self ..)
      have hcs := ih fun d hd => h d (List.mem_cons_of_mem _ hd)
      rw [join_cons, comps_cons_sep]
      cases cs with
      | nil =>
          rw [join_nil, List.append_nil]
          exact comps_eq_singleton hc
      | cons d cs =>
          rw [join_cons, comps_cons_sep] at hcs
          rw [join_cons, comps_comp_append hc, hcs]

/-- The components of a string are components. -/
theorem isComp_of_mem_comps (s : List α) : ∀ c ∈ comps sep s, IsComp sep c := by
  induction hn : s.length using Nat.strong_induction_on generalizing s with
  | _ n ih =>
      intro c hc
      by_cases hsep : sep ∈ s
      · obtain ⟨u, v, rfl⟩ := List.append_of_mem hsep
        rw [List.length_append, List.length_cons] at hn
        rw [comps_append_cons, List.mem_append] at hc
        rcases hc with hc | hc
        · exact ih u.length (by omega) u rfl c hc
        · exact ih v.length (by omega) v rfl c hc
      · rw [comps, List.splitOn_eq_singleton hsep, List.mem_filter] at hc
        obtain ⟨hmem, hne⟩ := hc
        rw [List.mem_singleton.1 hmem] at hne ⊢
        exact ⟨by simpa using hne, hsep⟩

/-- Reading a string and writing it again needs one letter more, at most. -/
theorem length_join_comps_le (s : List α) : (join sep (comps sep s)).length ≤ s.length + 1 := by
  induction hn : s.length using Nat.strong_induction_on generalizing s with
  | _ n ih =>
      by_cases hsep : sep ∈ s
      · obtain ⟨u, v, rfl⟩ := List.append_of_mem hsep
        rw [List.length_append, List.length_cons] at hn
        have hu := ih u.length (by omega) u rfl
        have hv := ih v.length (by omega) v rfl
        rw [comps_append_cons, join_append, List.length_append]
        omega
      · by_cases hs : s = []
        · subst hs
          simp
        · rw [comps_eq_singleton ⟨hs, hsep⟩]
          simp [hn]

theorem comps_path {cs : List (List α)} (h : ∀ c ∈ cs, IsComp sep c) :
    comps sep (path sep cs) = cs := by
  cases cs with
  | nil => exact (comps_cons_sep []).trans comps_nil
  | cons c cs => exact comps_join h

/-- What is written between separators is read back, empty runs too. -/
theorem splitOn_drop_join_of_not_mem {cs : List (List α)} (hne : cs ≠ []) (h : ∀ c ∈ cs, sep ∉ c) :
    ((join sep cs).drop 1).splitOn sep = cs := by
  induction cs with
  | nil => exact absurd rfl hne
  | cons c cs ih =>
      obtain ⟨hc, hcs⟩ := List.forall_mem_cons.1 h
      rw [join_cons, List.drop_one, List.tail_cons]
      cases cs with
      | nil => rw [join_nil, List.append_nil, List.splitOn_eq_singleton hc]
      | cons d cs =>
          have hrest := ih (List.cons_ne_nil d cs) hcs
          rw [join_cons, List.drop_one, List.tail_cons] at hrest
          rw [join_cons, List.splitOn_append_cons_self, List.splitOn_eq_singleton hc, hrest]
          rfl

/-- What is written has no empty runs between its separators. -/
theorem splitOn_drop_join {cs : List (List α)} (hne : cs ≠ []) (h : ∀ c ∈ cs, IsComp sep c) :
    ((join sep cs).drop 1).splitOn sep = cs :=
  splitOn_drop_join_of_not_mem hne fun c hc => (h c hc).2

/-- The letters of the components are letters of the string. -/
theorem mem_of_mem_comps {s c : List α} (hc : c ∈ comps sep s) {x : α} (hx : x ∈ c) : x ∈ s := by
  induction hn : s.length using Nat.strong_induction_on generalizing s with
  | _ n ih =>
      by_cases hsep : sep ∈ s
      · obtain ⟨u, v, rfl⟩ := List.append_of_mem hsep
        rw [List.length_append, List.length_cons] at hn
        rw [comps_append_cons, List.mem_append] at hc
        rcases hc with hc | hc
        · exact List.mem_append_left _ (ih u.length (by omega) hc rfl)
        · exact List.mem_append_right _ (List.mem_cons_of_mem _ (ih v.length (by omega) hc rfl))
      · rw [comps, List.splitOn_eq_singleton hsep, List.mem_filter, List.mem_singleton] at hc
        rwa [← hc.1]

/-! ## The last separator -/

/-- The place of the last occurrence of a letter. -/
def lastIdx (x : α) : List α → Option ℕ
  | [] => none
  | y :: s =>
      match lastIdx x s with
      | some i => some (i + 1)
      | none => if y = x then some 0 else none

theorem lastIdx_of_not_mem {x : α} {s : List α} (h : x ∉ s) : lastIdx x s = none := by
  induction s with
  | nil => rfl
  | cons y s ih =>
      rw [List.mem_cons, not_or] at h
      rw [lastIdx, ih h.2]
      exact if_neg (Ne.symm h.1)

theorem lastIdx_append_cons {x : α} (s : List α) {t : List α} (h : x ∉ t) :
    lastIdx x (s ++ x :: t) = some s.length := by
  induction s with
  | nil =>
      rw [List.nil_append, lastIdx, lastIdx_of_not_mem h]
      exact if_pos rfl
  | cons y s ih =>
      rw [List.cons_append, lastIdx, ih]
      rfl

/-! ## The stack machine -/

/-- One step: `up` takes the last component away, `here` stands for nothing. -/
def push (here up : List α) (st : List (List α)) (c : List α) : List (List α) :=
  if c = up then st.dropLast else if c = here then st else st ++ [c]

/-- The machine on a list of components. -/
def resolve (here up : List α) (cs : List (List α)) : List (List α) := cs.foldl (push here up) []

variable {here up : List α}

/-- A property of components that are not special is kept by a step. -/
theorem forall_push {P : List α → Prop} {st : List (List α)} {c : List α} (hst : ∀ d ∈ st, P d)
    (hc : c ≠ here → c ≠ up → P c) : ∀ d ∈ push here up st c, P d := by
  intro d hd
  unfold push at hd
  split_ifs at hd with hup hhere
  · exact hst d (List.mem_of_mem_dropLast hd)
  · exact hst d hd
  · rcases List.mem_append.1 hd with hd | hd
    · exact hst d hd
    · rw [List.mem_singleton.1 hd]
      exact hc hhere hup

theorem forall_foldl_push {P : List α → Prop} (cs : List (List α)) :
    ∀ {st : List (List α)}, (∀ d ∈ st, P d) → (∀ c ∈ cs, c ≠ here → c ≠ up → P c) →
      ∀ d ∈ cs.foldl (push here up) st, P d := by
  induction cs with
  | nil => intro st hst _; exact hst
  | cons c cs ih =>
      intro st hst hcs
      exact ih (forall_push hst (hcs c (List.mem_cons_self ..)))
        fun d hd => hcs d (List.mem_cons_of_mem _ hd)

theorem forall_resolve {P : List α → Prop} {cs : List (List α)}
    (h : ∀ c ∈ cs, c ≠ here → c ≠ up → P c) : ∀ d ∈ resolve here up cs, P d :=
  forall_foldl_push cs (by simp) h

theorem length_join_push_le (sep : α) (st : List (List α)) (c : List α) :
    (join sep (push here up st c)).length ≤ (join sep st).length + (c.length + 1) := by
  unfold push
  split_ifs
  · rcases List.eq_nil_or_concat st with rfl | ⟨st', d, rfl⟩
    · simp
    · rw [List.concat_eq_append, List.dropLast_concat, join_append, List.length_append]
      omega
  · omega
  · rw [join_append, List.length_append]
    simp

theorem length_join_foldl_push_le (sep : α) (cs : List (List α)) :
    ∀ st : List (List α), (join sep (cs.foldl (push here up) st)).length ≤
      (join sep st).length + (join sep cs).length := by
  induction cs with
  | nil => intro st; simp
  | cons c cs ih =>
      intro st
      have hstep : (join sep (push here up st c)).length ≤ (join sep st).length + (c.length + 1) :=
        length_join_push_le sep st c
      have hrest := ih (push here up st c)
      rw [List.foldl_cons, join_cons, List.length_cons, List.length_append]
      omega

/-- The machine makes strings no longer. -/
theorem length_join_resolve_le (sep : α) (cs : List (List α)) :
    (join sep (resolve here up cs)).length ≤ (join sep cs).length := by
  have h : (join sep (resolve here up cs)).length ≤ (join sep []).length + (join sep cs).length :=
    length_join_foldl_push_le sep cs []
  rw [join_nil, List.length_nil, Nat.zero_add] at h
  exact h

/-- Components that are not special are pushed one after the other. -/
theorem foldl_push_of_plain (cs : List (List α)) :
    ∀ st : List (List α), (∀ c ∈ cs, c ≠ here ∧ c ≠ up) →
      cs.foldl (push here up) st = st ++ cs := by
  induction cs with
  | nil => intro st _; simp
  | cons c cs ih =>
      intro st h
      obtain ⟨hhere, hup⟩ := h c (List.mem_cons_self ..)
      rw [List.foldl_cons, push, if_neg hup, if_neg hhere,
        ih _ fun d hd => h d (List.mem_cons_of_mem _ hd), List.append_assoc]
      rfl

/-- **The machine leaves a list alone exactly when nothing in it is special.** -/
theorem resolve_eq_self_iff {cs : List (List α)} :
    resolve here up cs = cs ↔ ∀ c ∈ cs, c ≠ here ∧ c ≠ up := by
  constructor
  · intro h
    have hplain : ∀ d ∈ resolve here up cs, d ≠ here ∧ d ≠ up :=
      forall_resolve fun c _ hhere hup => ⟨hhere, hup⟩
    rwa [h] at hplain
  · intro h
    exact foldl_push_of_plain cs [] h

end Components
end LightOS
