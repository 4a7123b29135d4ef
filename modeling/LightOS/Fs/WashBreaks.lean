import LightOS.Fs.WashPath

/-!
# Line breaks at the end of a washed path

`wash_path` cuts `\n` and `\r` off the path it has washed, after its walk over the components.  A
component `..\n` is no special name to the walk, and the cut turns it into `..`.

* `dropLineBreaks_path` — only the last component is cut.
* `clean_dropLineBreaks_iff` — when what is left has no special and no empty component.
* `washPath_clean_iff` — for which paths `wash_path` ends with such a path.
-/

namespace LightOS
namespace WashPath

open Components FsPath

/-- The path has no component `..`, `.` or without a name, or it is the root. -/
def Clean (w : List Char) : Prop :=
  w ≠ ['/'] → ∀ c ∈ (w.drop 1).splitOn '/', c ≠ [] ∧ c ≠ here ∧ c ≠ up

instance (w : List Char) : Decidable (Clean w) := inferInstanceAs (Decidable (_ → _))

/-- Of the last component the cut leaves a name, or the path was this component alone and is the
root. -/
def LastStays (st : List (List Char)) : Prop :=
  ∀ c ∈ st.getLast?, dropLineBreaks c ≠ here ∧ dropLineBreaks c ≠ up ∧
    (dropLineBreaks c = [] → st = [c])

instance (st : List (List Char)) : Decidable (LastStays st) :=
  inferInstanceAs (Decidable (∀ c ∈ st.getLast?, _))

theorem lastStays_append_singleton (st : List (List Char)) (c : List Char) :
    LastStays (st ++ [c]) ↔
      dropLineBreaks c ≠ here ∧ dropLineBreaks c ≠ up ∧ (dropLineBreaks c = [] → st = []) := by
  simp [LastStays]

/-! ## The cut -/

section Cut

variable {st : List (List Char)} {c : List Char}

/-- What is dropped at the end is behind the last letter that stays. -/
theorem rdropWhile_append_cons {q : Char → Bool} {x : Char} (hx : ¬ q x) (p s : List Char) :
    (p ++ x :: s).rdropWhile q = p ++ x :: s.rdropWhile q := by
  induction s using List.reverseRecOn with
  | nil => exact List.rdropWhile_concat_neg q p x hx
  | append_singleton s y ih =>
      rw [← List.cons_append, ← List.append_assoc]
      by_cases hy : q y
      · rw [List.rdropWhile_concat_pos q _ y hy, List.rdropWhile_concat_pos q _ y hy, ih]
      · rw [List.rdropWhile_concat_neg q _ y hy, List.rdropWhile_concat_neg q _ y hy,
          List.append_assoc, List.cons_append]

/-- **Only the last component is cut.** -/
theorem dropLineBreaks_path (st : List (List Char)) (c : List Char) :
    dropLineBreaks (path '/' (st ++ [c])) = join '/' (st ++ [dropLineBreaks c]) := by
  rw [path_append_singleton, dropLineBreaks, rdropWhile_append_cons (by decide), join_append,
    join_cons, join_nil, List.append_nil]
  rfl

theorem dropLineBreaks_dropLineBreaks (p : List Char) :
    dropLineBreaks (dropLineBreaks p) = dropLineBreaks p :=
  List.rdropWhile_idempotent _ _

/-- What is left of a component has no separator. -/
theorem not_mem_dropLineBreaks (h : IsComp '/' c) : '/' ∉ dropLineBreaks c := fun hmem =>
  h.2 ((List.rdropWhile_prefix _ _).subset hmem)

/-- A path is the root only if nothing is written. -/
theorem join_append_singleton_eq_root_iff (hst : ∀ d ∈ st, IsComp '/' d) :
    join '/' (st ++ [c]) = ['/'] ↔ st = [] ∧ c = [] := by
  cases st with
  | nil => simp
  | cons d st =>
      have hne := (hst d (List.mem_cons_self ..)).1
      simp [hne]

/-- A path of names is clean. -/
theorem clean_path (h : ∀ d ∈ st, IsComp '/' d ∧ d ≠ here ∧ d ≠ up) : Clean (path '/' st) := by
  intro hroot
  have hne : st ≠ [] := by
    rintro rfl
    exact hroot rfl
  rw [path_of_ne_nil hne, splitOn_drop_join hne fun d hd => (h d hd).1]
  exact fun d hd => ⟨(h d hd).1.1, (h d hd).2⟩

/-- **When the cut leaves a clean path**, the components of which were names. -/
theorem clean_dropLineBreaks_iff (h : ∀ d ∈ st, IsComp '/' d ∧ d ≠ here ∧ d ≠ up) :
    Clean (dropLineBreaks (path '/' st)) ↔ LastStays st := by
  rcases List.eq_nil_or_concat st with rfl | ⟨init, c, rfl⟩
  · simp [Clean, LastStays, dropLineBreaks]
  · rw [List.concat_eq_append] at h ⊢
    have hinit : ∀ d ∈ init, IsComp '/' d ∧ d ≠ here ∧ d ≠ up :=
      fun d hd => h d (List.mem_append_left _ hd)
    have hcomp : ∀ d ∈ init, IsComp '/' d := fun d hd => (hinit d hd).1
    have hsep : ∀ d ∈ init ++ [dropLineBreaks c], '/' ∉ d := by
      intro d hd
      rcases List.mem_append.1 hd with hd | hd
      · exact (hcomp d hd).2
      · rw [List.mem_singleton.1 hd]
        exact not_mem_dropLineBreaks (h c (by simp)).1
    rw [dropLineBreaks_path, lastStays_append_singleton, Clean, Ne,
      join_append_singleton_eq_root_iff hcomp, splitOn_drop_join_of_not_mem (by simp) hsep]
    constructor
    · intro hclean
      by_cases hroot : init = [] ∧ dropLineBreaks c = []
      · simp [hroot]
      · obtain ⟨hnil, hhere, hup⟩ := hclean hroot (dropLineBreaks c) (by simp)
        exact ⟨hhere, hup, fun hc => absurd hc hnil⟩
    · rintro ⟨hhere, hup, hnil⟩ hroot d hd
      rcases List.mem_append.1 hd with hd | hd
      · exact ⟨(hcomp d hd).1, (hinit d hd).2⟩
      · rw [List.mem_singleton.1 hd]
        exact ⟨fun hc => hroot ⟨hnil hc, hc⟩, hhere, hup⟩

end Cut

/-! ## `wash_path` -/

theorem stack_names (p : List Char) :
    ∀ c ∈ resolved (comps '/' p), IsComp '/' c ∧ c ≠ here ∧ c ≠ up :=
  fun c hc => ⟨isComp_stack p c hc, stack_plain p c hc⟩

/-- With rounds enough a call gives one path. -/
theorem gives_washPath_iff {p w : List Char} (hhead : p.head? = some '/') :
    Gives washPath p w ↔ Fits maxPath [] (comps '/' p) ∧ dropLineBreaks (canonical p) = w := by
  have hsize : 1 < maxPath := by decide
  constructor
  · rintro ⟨n, hn⟩
    exact (wash_eq_some_iff hsize hhead (Nat.le_max_right n _)).1 (hn _ (Nat.le_max_left _ _))
  · exact fun h => ⟨p.length + 2, fun rounds hrounds => (wash_eq_some_iff hsize hhead hrounds).2 h⟩

/-- **`wash_path` ends with a clean path** just for those absolute paths that fit into its buffers
and whose last component stays a name when the line breaks are cut off. -/
theorem washPath_clean_iff {p : List Char} (hhead : p.head? = some '/') :
    (∃ w, Gives washPath p w ∧ Clean w) ↔
      Fits maxPath [] (comps '/' p) ∧ LastStays (resolved (comps '/' p)) := by
  rw [← clean_dropLineBreaks_iff (stack_names p)]
  constructor
  · rintro ⟨w, hgives, hclean⟩
    obtain ⟨hfits, rfl⟩ := (gives_washPath_iff hhead).1 hgives
    exact ⟨hfits, hclean⟩
  · rintro ⟨hfits, hclean⟩
    exact ⟨_, (gives_washPath_iff hhead).2 ⟨hfits, rfl⟩, hclean⟩

/-- `/a/b\r\n` is washed to `/a/b`. -/
theorem washPath_clean_line : ∃ w, Gives washPath "/a/b\r\n".toList w ∧ Clean w :=
  (washPath_clean_iff (by decide)).2 ⟨fits_of_lt (by decide) (by decide) (by decide), by decide⟩

/-- `/..\n` is washed to `/..`, and `/a/\n` to `/a/`. -/
theorem washPath_line_up :
    (Gives washPath "/..\n".toList "/..".toList ∧ ¬ Clean "/..".toList) ∧
      Gives washPath "/a/\n".toList "/a/".toList ∧ ¬ Clean "/a/".toList := by
  have hfits : ∀ p : List Char, p.head? = some '/' → p.length < maxPath →
    Fits maxPath [] (comps '/' p) :=
    fun _ => fits_of_lt (by decide)
  refine ⟨⟨?_, by decide⟩, ?_, by decide⟩
  · exact (gives_washPath_iff (by decide)).2 ⟨hfits _ (by decide) (by decide), by decide⟩
  · exact (gives_washPath_iff (by decide)).2 ⟨hfits _ (by decide) (by decide), by decide⟩

end WashPath
end LightOS
