import LightOS.Lib.Components

/-!
# Path strings

`fs/fsal/path.c` turns the path of a system call into an absolute path without `.`, `..`
and repeated separators: `make_abs_path` puts the working directory in front of a relative
path and `wash_path` walks over the components.  A C string is the list of its characters up
to the terminating zero.

* `buildPath_eq` — what `build_path` computes, on components.
* `normalForm_eq_self_iff` — the paths it leaves alone.
-/

namespace LightOS
namespace FsPath

open Components

/-- `MAX_PATH`. -/
abbrev maxPath : ℕ := 256

/-! ## The model -/

/-- `parse_path_afterward`: the name found and what follows it, `none` for the null pointer. -/
def parsePathAfterward (path : List Char) : List Char × Option (List Char) :=
  -- leading separators are skipped; without one in front there is nothing to skip
  let path := path.dropWhile (· = '/')
  let rest := path.dropWhile (· ≠ '/')
  (path.takeWhile (· ≠ '/'), if rest = [] then none else some rest)

/-- One round of the loop of `wash_path`: what a name does to `new_path`. -/
def washName (newPath name : List Char) : List Char :=
  if name = ['.', '.'] then
    match lastIdx '/' newPath with
    | some slash => if slash ≠ 0 then newPath.take slash else newPath.take (slash + 1)
    | none => newPath  -- `new_path` starts with a separator (`washName_path`)
  else if name ≠ ['.'] then
    (if newPath ≠ ['/'] then newPath ++ ['/'] else newPath) ++ name
  else newPath

/-- The loop of `wash_path`.  The first argument bounds the rounds; `washLoop_eq` says that the
length of the path is bound enough. -/
def washLoop : ℕ → List Char → List Char → Option (List Char) → List Char
  | 0, newPath, _, _ => newPath
  | fuel + 1, newPath, name, subPath =>
      if name = [] then newPath
      else
        match subPath with
        | none => washName newPath name
        | some sub =>
            let (name', sub') := parsePathAfterward sub
            washLoop fuel (washName newPath name) name' sub'

/-- The end of `wash_path`: line breaks at the end are cut off. -/
def dropLineBreaks (path : List Char) : List Char := path.rdropWhile fun c => c = '\n' ∨ c = '\r'

/-- `wash_path`, of a path that starts with a separator. -/
def washPath (oldPath : List Char) : List Char :=
  let (name, sub) := parsePathAfterward oldPath
  if name = [] then ['/'] else dropLineBreaks (washLoop (oldPath.length + 1) ['/'] name sub)

/-- What `make_abs_path` has in its buffer before it appends the path: nothing for an absolute
path, the working directory for a relative one.  There is no working directory when the
task has no file manager. -/
def absBase (cwd : Option (List Char)) (path : List Char) : List Char :=
  if path.head? = some '/' then []
  else
    match cwd with
    | none => []
    | some cwd =>
        let p := cwd.dropWhile (· ≠ '/')
        if p ≠ [] ∧ p ≠ ['/'] then cwd ++ ['/'] else cwd

/-- `make_abs_path`; `none` if the result does not fit into the buffer. -/
def makeAbsPath (cwd : Option (List Char)) (path : List Char) : Option (List Char) :=
  if path = ['/'] then some ['/']
  else
    let abs := absBase cwd path ++ '/' :: path
    if abs.length < maxPath then some abs else none

/-- `build_path`; `none` if the path does not fit into the buffer. -/
def buildPath (cwd : Option (List Char)) (path : List Char) : Option (List Char) :=
  (makeAbsPath cwd path).map fun abs => washPath (abs.dropWhile (· ≠ '/'))

/-! ## Reading a name -/

/-- The components that are left after a name. -/
def subComps : Option (List Char) → List (List Char)
  | none => []
  | some sub => comps '/' sub

theorem comps_dropWhile_sep (s : List Char) : comps '/' (s.dropWhile (· = '/')) = comps '/' s := by
  induction s with
  | nil => rfl
  | cons c s ih =>
      by_cases hc : c = '/'
      · subst hc
        rw [List.dropWhile_cons_of_pos (by simp), comps_cons_sep, ih]
      · rw [List.dropWhile_cons_of_neg (by simpa using hc)]

/-- What `parse_path_afterward` reads off a path. -/
theorem parsePathAfterward_spec (s : List Char) :
    (comps '/' s = [] ∧ parsePathAfterward s = ([], none)) ∨
      ∃ name sub, parsePathAfterward s = (name, sub) ∧ IsComp '/' name ∧
        comps '/' s = name :: subComps sub ∧ ∀ r, sub = some r → r.length < s.length := by
  obtain ⟨t, ht⟩ : ∃ t, s.dropWhile (· = '/') = t := ⟨_, rfl⟩
  have hcomps : comps '/' t = comps '/' s := ht ▸ comps_dropWhile_sep s
  have hlen : t.length ≤ s.length := ht ▸ (List.dropWhile_suffix _).length_le
  have hsplit : t.takeWhile (· ≠ '/') ++ t.dropWhile (· ≠ '/') = t :=
    List.takeWhile_append_dropWhile
  have hname : '/' ∉ t.takeWhile (· ≠ '/') := by
    intro hmem
    have := List.mem_takeWhile_imp hmem
    simp at this
  unfold parsePathAfterward
  simp only [ht]
  rcases eq_or_ne t [] with hnil | hne
  · left
    rw [← hcomps, hnil]
    exact ⟨comps_nil, rfl⟩
  · right
    obtain ⟨x, t', rfl⟩ := List.exists_cons_of_ne_nil hne
    have hx : x ≠ '/' := by
      have hhead := List.head_dropWhile_not (fun c => decide (c = '/')) (l := s)
        (by rw [ht]; exact hne)
      simp only [ht, List.head_cons] at hhead
      exact of_decide_eq_false hhead
    have hcons : (x :: t').takeWhile (· ≠ '/') ≠ [] := by
      rw [List.takeWhile_cons_of_pos (by simpa using hx)]
      exact List.cons_ne_nil _ _
    refine ⟨_, _, rfl, ⟨hcons, hname⟩, ?_, ?_⟩
    · rw [← hcomps]
      split_ifs with hrest
      · rw [hrest, List.append_nil] at hsplit
        rw [hsplit] at hname ⊢
        exact comps_eq_singleton ⟨hne, hname⟩
      · obtain ⟨y, r, hr⟩ := List.exists_cons_of_ne_nil hrest
        have hy : y = '/' := by
          have hhead := List.head_dropWhile_not (fun c => decide (c ≠ '/')) (l := x :: t')
            (by rw [hr]; exact List.cons_ne_nil _ _)
          simp only [hr, List.head_cons] at hhead
          exact not_not.1 (of_decide_eq_false hhead)
        subst hy
        rw [hr] at hsplit ⊢
        rw [subComps, comps_cons_sep, ← comps_comp_append ⟨hcons, hname⟩, hsplit]
    · intro r hr
      have hlt : ((x :: t').dropWhile (· ≠ '/')).length < (x :: t').length := by
        have hadd := congrArg List.length hsplit
        rw [List.length_append] at hadd
        have := List.length_pos_of_ne_nil hcons
        omega
      split_ifs at hr
      cases hr
      omega

/-! ## Washing -/

/-- Names of this directory and of the one above it. -/
abbrev here : List Char := ['.']

@[inherit_doc here]
abbrev up : List Char := ['.', '.']

/-- The components a path resolves to. -/
def resolved (cs : List (List Char)) : List (List Char) := resolve here up cs

theorem join_ne_sep {c : List Char} (cs : List (List Char)) (hc : IsComp '/' c) :
    join '/' (c :: cs) ≠ ['/'] := by
  rw [join_cons]
  intro h
  rw [List.cons.injEq, List.append_eq_nil_iff] at h
  exact hc.1 h.2.1

/-- **One round of the loop is one step of the stack machine.** -/
theorem washName_path {st : List (List Char)} {name : List Char} (hst : ∀ c ∈ st, IsComp '/' c) :
    washName (path '/' st) name = path '/' (push here up st name) := by
  unfold washName push
  by_cases hup : name = up
  · rw [if_pos hup, if_pos hup]
    rcases List.eq_nil_or_concat st with rfl | ⟨st', c, rfl⟩
    · rfl
    · have hc := hst c (by simp)
      rw [List.concat_eq_append, path_append_singleton, lastIdx_append_cons _ hc.2,
        List.dropLast_concat]
      cases st' with
      | nil => rfl
      | cons d st' =>
          have hlen : (join '/' (d :: st')).length ≠ 0 := by simp
          simp only [if_pos hlen, List.take_left']
          rw [path_of_ne_nil (List.cons_ne_nil _ _)]
  · rw [if_neg hup, if_neg hup]
    by_cases hhere : name = here
    · rw [if_neg (not_not.2 hhere), if_pos hhere]
    · rw [if_pos hhere, if_neg hhere, path_append_singleton]
      cases st with
      | nil => rfl
      | cons c st =>
          have hne := join_ne_sep st (hst c (List.mem_cons_self ..))
          rw [path_of_ne_nil (List.cons_ne_nil _ _), if_pos hne, List.append_assoc]
          rfl

/-- The loop runs the stack machine over the names that are left. -/
theorem washLoop_eq (fuel : ℕ) :
    ∀ (st : List (List Char)) {name : List Char} {sub : Option (List Char)},
      (∀ c ∈ st, IsComp '/' c) → IsComp '/' name → (∀ r, sub = some r → r.length < fuel) →
      washLoop (fuel + 1) (path '/' st) name sub =
        path '/' ((name :: subComps sub).foldl (push here up) st) := by
  induction fuel with
  | zero =>
      intro st name sub hst hname hfuel
      cases sub with
      | none =>
          unfold washLoop
          rw [if_neg hname.1, washName_path hst]
          rfl
      | some r => exact absurd (hfuel r rfl) (Nat.not_lt_zero _)
  | succ fuel ih =>
      intro st name sub hst hname hfuel
      have hpush : ∀ c ∈ push here up st name, IsComp '/' c := forall_push hst fun _ _ => hname
      unfold washLoop
      rw [if_neg hname.1, washName_path hst, List.foldl_cons]
      cases sub with
      | none => rfl
      | some r =>
          have hr := hfuel r rfl
          rcases parsePathAfterward_spec r with
            ⟨hcomps, hparse⟩ | ⟨name', sub', hparse, hname', hcomps, hlt⟩
          · simp only [hparse, subComps, hcomps]
            rfl
          · simp only [hparse, subComps, hcomps]
            apply ih _ hpush hname'
            intro r' hr'
            have := hlt r' hr'
            omega

/-- **What `wash_path` computes**, up to the line breaks at the end. -/
theorem washPath_eq (s : List Char) :
    washPath s = dropLineBreaks (path '/' (resolved (comps '/' s))) := by
  unfold washPath
  rcases parsePathAfterward_spec s with ⟨hcomps, hparse⟩ | ⟨name, sub, hparse, hname, hcomps, hlt⟩
  · simp only [hparse, hcomps]
    rfl
  · have hloop := washLoop_eq s.length [] (by simp) hname hlt
    simp only [hparse, if_neg hname.1]
    rw [hcomps]
    exact congrArg dropLineBreaks hloop

/-! ## Building -/

/-- The components of the directory a path starts from. -/
def startComps (cwd : Option (List Char)) (path : List Char) : List (List Char) :=
  if path.head? = some '/' then []
  else
    match cwd with
    | none => []
    | some cwd => comps '/' (cwd.dropWhile (· ≠ '/'))

/-- **The normal form of a path**: the components of the starting directory and of the path,
resolved, and written as an absolute path. -/
def normalForm (cwd : Option (List Char)) (p : List Char) : List Char :=
  dropLineBreaks (path '/' (resolved (startComps cwd p ++ comps '/' p)))

/-- The path and the directory it starts from fit into the buffer. -/
def HasRoom (cwd : Option (List Char)) (p : List Char) : Prop :=
  p = ['/'] ∨ (absBase cwd p ++ '/' :: p).length < maxPath

instance (cwd : Option (List Char)) (p : List Char) : Decidable (HasRoom cwd p) :=
  inferInstanceAs (Decidable (_ ∨ _))

theorem makeAbsPath_isSome_iff (cwd : Option (List Char)) (p : List Char) :
    (makeAbsPath cwd p).isSome ↔ HasRoom cwd p := by
  unfold makeAbsPath HasRoom
  by_cases hroot : p = ['/']
  · simp [hroot]
  · simp [hroot]

theorem dropWhile_sep_cons (s : List Char) : ('/' :: s).dropWhile (· ≠ '/') = '/' :: s :=
  List.dropWhile_cons_of_neg (by simp)

/-- The components of what `make_abs_path` builds. -/
theorem comps_abs (cwd : Option (List Char)) (p : List Char) :
    comps '/' ((absBase cwd p ++ '/' :: p).dropWhile (· ≠ '/')) =
      startComps cwd p ++ comps '/' p := by
  unfold absBase startComps
  by_cases habs : p.head? = some '/'
  · rw [if_pos habs, if_pos habs, List.nil_append, dropWhile_sep_cons, comps_cons_sep]
    rfl
  · rw [if_neg habs, if_neg habs]
    cases cwd with
    | none =>
        rw [List.nil_append, dropWhile_sep_cons, comps_cons_sep]
        rfl
    | some cwd =>
        obtain ⟨d, hd⟩ : ∃ d, cwd.dropWhile (· ≠ '/') = d := ⟨_, rfl⟩
        simp only [hd]
        by_cases hnil : d = []
        · subst hnil
          rw [if_neg (by simp), List.dropWhile_append, hd, List.isEmpty_nil, if_pos rfl,
            dropWhile_sep_cons, comps_cons_sep, comps_nil, List.nil_append]
        · have hne : d.isEmpty = false := by
            rw [List.isEmpty_eq_false_iff]
            exact hnil
          by_cases hroot : d = ['/']
          · rw [if_neg (by simp [hroot]), List.dropWhile_append, hd, hne, if_neg (by decide),
              comps_append_cons]
          · rw [if_pos ⟨hnil, hroot⟩, List.append_assoc, List.dropWhile_append, hd, hne,
              if_neg (by decide), List.singleton_append, comps_append_cons, comps_cons_sep]

/-- **What `build_path` computes.** -/
theorem buildPath_eq {cwd : Option (List Char)} {p : List Char} (hroom : HasRoom cwd p) :
    buildPath cwd p = some (normalForm cwd p) := by
  unfold buildPath makeAbsPath
  by_cases hroot : p = ['/']
  · subst hroot
    rfl
  · have hlen := hroom.resolve_left hroot
    rw [if_neg hroot]
    simp only [if_pos hlen, Option.map_some, washPath_eq, comps_abs]
    rfl

theorem buildPath_eq_none {cwd : Option (List Char)} {p : List Char} (hroom : ¬ HasRoom cwd p) :
    buildPath cwd p = none := by
  rw [← makeAbsPath_isSome_iff, Option.not_isSome_iff_eq_none] at hroom
  rw [buildPath, hroom]
  rfl

/-! ## The paths in normal form -/

/-- A path in normal form: absolute, of components without special names, and not ending in a
line break. -/
def Canonical (p : List Char) : Prop :=
  (∃ cs : List (List Char), (∀ c ∈ cs, IsComp '/' c ∧ c ≠ here ∧ c ≠ up) ∧ p = path '/' cs) ∧
    dropLineBreaks p = p

theorem isComp_resolved {cs : List (List Char)} (h : ∀ c ∈ cs, IsComp '/' c) :
    ∀ c ∈ resolved cs, IsComp '/' c := forall_resolve fun c hc _ _ => h c hc

theorem head?_path (cs : List (List Char)) : (path '/' cs).head? = some '/' := by
  cases cs with
  | nil => rfl
  | cons c cs => rfl

/-- A normal form is absolute. -/
theorem head?_normalForm (cwd : Option (List Char)) (p : List Char) :
    (normalForm cwd p).head? = some '/' := by
  obtain ⟨w, hw⟩ : ∃ w, path '/' (resolved (startComps cwd p ++ comps '/' p)) = w := ⟨_, rfl⟩
  have hhead : w.head? = some '/' := hw ▸ head?_path _
  obtain ⟨t, rfl⟩ := List.head?_eq_some_iff.1 hhead
  have hne : dropLineBreaks ('/' :: t) ≠ [] := by
    unfold dropLineBreaks
    rw [Ne, List.rdropWhile_eq_nil_iff]
    intro hall
    exact absurd (hall '/' (List.mem_cons_self ..)) (by decide)
  obtain ⟨u, hu⟩ := List.rdropWhile_prefix (fun c => decide (c = '\n' ∨ c = '\r')) (l := '/' :: t)
  unfold normalForm
  rw [hw]
  cases hd : dropLineBreaks ('/' :: t) with
  | nil => exact absurd hd hne
  | cons c r =>
      unfold dropLineBreaks at hd
      rw [hd, List.cons_append, List.cons.injEq] at hu
      rw [hu.1]
      rfl

/-- A normal form is no longer than the absolute path it is made of. -/
theorem length_path_resolved_le (s : List Char) :
    (path '/' (resolved (comps '/' ('/' :: s)))).length ≤ ('/' :: s).length := by
  have h1 : (join '/' (resolved (comps '/' s))).length ≤ (join '/' (comps '/' s)).length :=
    length_join_resolve_le '/' (comps '/' s)
  have h2 : (join '/' (comps '/' s)).length ≤ s.length + 1 := length_join_comps_le s
  rw [comps_cons_sep]
  by_cases hnil : resolved (comps '/' s) = []
  · rw [hnil]
    simp
  · rw [path_of_ne_nil hnil, List.length_cons]
    exact h1.trans h2

/-- The normal form of an absolute path is no longer than the path. -/
theorem length_normalForm_le {cwd : Option (List Char)} {p : List Char}
    (hhead : p.head? = some '/') :
    (normalForm cwd p).length ≤ p.length := by
  obtain ⟨t, rfl⟩ := List.head?_eq_some_iff.1 hhead
  have hstart : startComps cwd ('/' :: t) = [] := if_pos hhead
  have hcut : (normalForm cwd ('/' :: t)).length ≤
      (path '/' (resolved (comps '/' ('/' :: t)))).length := by
    rw [normalForm, hstart, List.nil_append]
    exact (List.rdropWhile_prefix _ _).length_le
  exact hcut.trans (length_path_resolved_le t)

/-- **The paths `build_path` leaves alone are those in normal form.** -/
theorem normalForm_eq_self_iff (cwd : Option (List Char)) (p : List Char) :
    normalForm cwd p = p ↔ Canonical p := by
  constructor
  · intro h
    have hhead := head?_normalForm cwd p
    rw [h] at hhead
    have hstart : startComps cwd p = [] := if_pos hhead
    obtain ⟨t, rfl⟩ := List.head?_eq_some_iff.1 hhead
    rw [normalForm, hstart, List.nil_append] at h
    -- nothing can have been cut off, since the washed path is no longer than the path
    obtain ⟨w, hw⟩ : ∃ w, path '/' (resolved (comps '/' ('/' :: t))) = w := ⟨_, rfl⟩
    have hlen : w.length ≤ ('/' :: t).length := hw ▸ length_path_resolved_le t
    have hprefix : '/' :: t <+: w := by
      rw [hw] at h
      rw [← h]
      exact List.rdropWhile_prefix _ _
    have heq : '/' :: t = w := hprefix.eq_of_length_le hlen
    refine ⟨⟨resolved (comps '/' ('/' :: t)), fun c hc => ⟨?_, ?_⟩, heq.trans hw.symm⟩, ?_⟩
    · exact isComp_resolved (isComp_of_mem_comps _) c hc
    · exact forall_resolve (P := fun c => c ≠ here ∧ c ≠ up) (fun c _ h1 h2 => ⟨h1, h2⟩) c hc
    · rw [hw, ← heq] at h
      exact h
  · rintro ⟨⟨cs, hcs, rfl⟩, hbreaks⟩
    have hstart : startComps cwd (path '/' cs) = [] := if_pos (head?_path cs)
    have hself : resolved cs = cs := resolve_eq_self_iff.2 fun c hc => (hcs c hc).2
    rw [normalForm, hstart, List.nil_append, comps_path fun c hc => (hcs c hc).1, hself, hbreaks]

end FsPath
end LightOS
