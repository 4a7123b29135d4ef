import LightOS.Fs.WashBreaks

/-!
# Building an absolute path, with its buffers

`build_path` of `fs/fsal/path.c` puts the working directory, separators and the path together in a
buffer of `MAX_PATH` bytes and washes what it has put together.  The separators are not counted
before.

* `buildPath_eq` — with rounds enough the call ends with what `PathBasic` computes.
* `canonical_normalForm_iff` — which normal forms are built again as they are.
* `buildPath_builds_iff` — for which paths and directories the call keeps what is promised.
-/

namespace LightOS
namespace BuildPath

open Components FsPath WashPath

/-- `build_path`; `rounds` bounds the loop of `wash_path`. -/
def buildPath (cwd : List Char) (rounds : ℕ) (path : List Char) : Option (List Char) :=
  (makeAbsPath (some cwd) path).bind fun abs => WashPath.washPath rounds (abs.dropWhile (· ≠ '/'))

/-! ## What is promised -/

/-- The path that is meant: the path itself, or behind the working directory. -/
def target (cwd p : List Char) : List Char := if p.head? = some '/' then p else cwd ++ '/' :: p

/-- The normal form of a path: canonical, without the line breaks at its end. -/
def normal (p : List Char) : List Char := dropLineBreaks (canonical p)

/-- What is promised of a call.  It ends without writing outside of a buffer. -/
structure Builds (cwd p : List Char) : Prop where
  gives : Gives (buildPath cwd) p (normal (target cwd p))
  again : Gives (buildPath cwd) (normal (target cwd p)) (normal (target cwd p))

/-- The path is put behind one separator, and a directory other than the root is put in front with
one more. -/
def Room (cwd p : List Char) : Prop :=
  p = ['/'] ∨ (if p.head? = some '/' then 0 else if cwd = ['/'] then 1 else cwd.length + 1) + 1 +
    p.length < maxPath

instance (cwd p : List Char) : Decidable (Room cwd p) := inferInstanceAs (Decidable (_ ∨ _))

/-! ## What is built -/

section Build

variable {cwd p w : List Char}

theorem dropWhile_of_head (h : cwd.head? = some '/') : cwd.dropWhile (· ≠ '/') = cwd := by
  obtain ⟨t, rfl⟩ := List.head?_eq_some_iff.1 h
  exact dropWhile_sep_cons t

/-- What stands in front of the path in the buffer. -/
theorem length_absBase (hcwd : cwd.head? = some '/') :
    (absBase (some cwd) p).length =
      if p.head? = some '/' then 0 else if cwd = ['/'] then 1 else cwd.length + 1 := by
  have hne : cwd ≠ [] := by
    rintro rfl
    exact absurd hcwd (by simp)
  unfold absBase
  by_cases habs : p.head? = some '/'
  · simp [habs]
  · by_cases hroot : cwd = ['/']
    · simp [habs, hroot]
    · simp only [if_neg habs, dropWhile_of_head hcwd, if_pos (And.intro hne hroot), if_neg hroot,
        List.length_append, List.length_singleton]

theorem hasRoom_iff (hcwd : cwd.head? = some '/') : HasRoom (some cwd) p ↔ Room cwd p := by
  unfold HasRoom Room
  rw [List.length_append, List.length_cons, length_absBase hcwd]
  exact or_congr_right (by rw [Nat.add_right_comm, ← Nat.add_assoc])

/-- A directory in front of the path, or none, is the start of what is meant. -/
theorem normalForm_eq (hcwd : cwd.head? = some '/') :
    normalForm (some cwd) p = normal (target cwd p) := by
  unfold normalForm normal canonical target startComps
  by_cases habs : p.head? = some '/'
  · rw [if_pos habs, if_pos habs, List.nil_append]
  · simp only [if_neg habs, dropWhile_of_head hcwd, comps_append_cons]

/-- What is put together is absolute from its first separator on. -/
theorem head?_dropWhile_append (s t : List Char) :
    ((s ++ '/' :: t).dropWhile (· ≠ '/')).head? = some '/' := by
  induction s with
  | nil => rw [List.nil_append, dropWhile_sep_cons, List.head?_cons]
  | cons x s ih =>
      rw [List.cons_append]
      by_cases hx : x = '/'
      · rw [hx, dropWhile_sep_cons, List.head?_cons]
      · rw [List.dropWhile_cons_of_pos (by simpa using hx), ih]

/-- **With rounds enough the call ends with what `PathBasic` computes.** -/
theorem buildPath_eq {rounds : ℕ} (hrounds : maxPath + 2 ≤ rounds) :
    buildPath cwd rounds p = FsPath.buildPath (some cwd) p := by
  unfold buildPath FsPath.buildPath makeAbsPath
  have hwash : ∀ s : List Char, s.head? = some '/' → s.length < maxPath →
      WashPath.washPath rounds s = some (FsPath.washPath s) := fun s hhead hlen =>
    wash_eq_washPath (by decide) hhead hlen (by omega)
  by_cases hroot : p = ['/']
  · rw [if_pos hroot]
    exact hwash _ (by decide) (by decide)
  · rw [if_neg hroot]
    dsimp only
    split_ifs with hlen
    · exact hwash _ (head?_dropWhile_append _ _)
        (lt_of_le_of_lt (List.dropWhile_suffix _).length_le hlen)
    · rfl

theorem gives_buildPath_iff (hcwd : cwd.head? = some '/') :
    Gives (buildPath cwd) p w ↔ Room cwd p ∧ normal (target cwd p) = w := by
  have hval : FsPath.buildPath (some cwd) p = some w ↔ Room cwd p ∧ normal (target cwd p) = w := by
    rw [← hasRoom_iff hcwd, ← normalForm_eq hcwd]
    by_cases hroom : HasRoom (some cwd) p
    · rw [FsPath.buildPath_eq hroom, Option.some.injEq]
      simp only [hroom, true_and]
    · rw [buildPath_eq_none hroom]
      simp [hroom]
  rw [← hval]
  constructor
  · rintro ⟨n, hn⟩
    rw [← hn _ (Nat.le_max_left n (maxPath + 2)), buildPath_eq (Nat.le_max_right _ _)]
  · intro h
    exact ⟨maxPath + 2, fun rounds hrounds => (buildPath_eq hrounds).trans h⟩

end Build

/-! ## Building again -/

section Again

variable {cwd p : List Char}

theorem head?_target (hcwd : cwd.head? = some '/') : (target cwd p).head? = some '/' := by
  unfold target
  split_ifs with habs
  · exact habs
  · obtain ⟨t, rfl⟩ := List.head?_eq_some_iff.1 hcwd
    rfl

theorem head?_normal (p : List Char) : (normal p).head? = some '/' := by
  have hhead := head?_normalForm none p
  unfold normalForm startComps at hhead
  simpa [normal, canonical] using hhead

theorem target_normal (cwd p : List Char) : target cwd (normal p) = normal p :=
  if_pos (head?_normal p)

/-- The special names a cut exposes are what keeps a normal form from being canonical. -/
theorem canonical_normalForm_iff (p : List Char) :
    Canonical (normal p) ↔ LastStays (resolved (comps '/' p)) := by
  rw [← clean_dropLineBreaks_iff (stack_names p)]
  constructor
  · rintro ⟨⟨cs, hcs, hpath⟩, -⟩
    have hclean := clean_path hcs
    rwa [← hpath] at hclean
  · intro hclean
    refine ⟨?_, dropLineBreaks_dropLineBreaks _⟩
    unfold normal canonical
    by_cases hroot : dropLineBreaks (path '/' (resolved (comps '/' p))) = ['/']
    · exact ⟨[], fun _ hc => absurd hc List.not_mem_nil, hroot⟩
    · rcases List.eq_nil_or_concat (resolved (comps '/' p)) with hst | ⟨init, c, hst⟩
      · exact absurd (by rw [hst]; decide) hroot
      · rw [List.concat_eq_append] at hst
        have hnames := stack_names p
        rw [hst] at hclean hroot hnames ⊢
        have hsep : ∀ d ∈ init ++ [dropLineBreaks c], '/' ∉ d := by
          intro d hd
          rcases List.mem_append.1 hd with hd | hd
          · exact (hnames d (List.mem_append_left _ hd)).1.2
          · rw [List.mem_singleton.1 hd]
            exact not_mem_dropLineBreaks (hnames c (by simp)).1
        have hplain := hclean hroot
        rw [dropLineBreaks_path, splitOn_drop_join_of_not_mem (by simp) hsep] at hplain
        refine ⟨init ++ [dropLineBreaks c], fun d hd => ?_, ?_⟩
        · exact ⟨⟨(hplain d hd).1, hsep d hd⟩, (hplain d hd).2⟩
        · rw [dropLineBreaks_path, path_of_ne_nil (by simp)]

theorem normal_normal_iff (p : List Char) :
    normal (normal p) = normal p ↔ LastStays (resolved (comps '/' p)) := by
  have hself := normalForm_eq_self_iff (some ['/']) (normal p)
  rwa [normalForm_eq rfl, target_normal, canonical_normalForm_iff] at hself

theorem length_normal_le (hhead : p.head? = some '/') : (normal p).length ≤ p.length :=
  (List.rdropWhile_prefix _ _).length_le.trans (length_canonical_le hhead)

/-- **What was built fits again**: it has lost a separator at least. -/
theorem Room.normal (hcwd : cwd.head? = some '/') (h : Room cwd p) :
    Room cwd (normal (target cwd p)) := by
  rcases h with rfl | hlen
  · exact Or.inl (by rw [target, if_pos (by decide)]; decide)
  · have hsize : (BuildPath.normal (target cwd p)).length + 1 < maxPath := by
      by_cases habs : p.head? = some '/'
      · have hle := length_normal_le habs
        rw [if_pos habs] at hlen
        rw [target, if_pos habs]
        omega
      · rw [if_neg habs] at hlen
        by_cases hroot : cwd = ['/']
        · -- the separator of the root is one of the two
          have hle : (canonical ('/' :: p)).length ≤ ('/' :: p).length := length_canonical_le rfl
          have hsame : canonical (target cwd p) = canonical ('/' :: p) := by
            rw [target, if_neg habs, hroot, List.singleton_append, canonical, canonical,
              comps_cons_sep]
          have hcut : (BuildPath.normal (target cwd p)).length ≤
            (canonical (target cwd p)).length :=
            (List.rdropWhile_prefix _ _).length_le
          rw [hsame] at hcut
          rw [if_pos hroot] at hlen
          rw [List.length_cons] at hle
          omega
        · have hle := length_normal_le (head?_target (p := p) hcwd)
          rw [if_neg hroot] at hlen
          rw [target, if_neg habs, List.length_append, List.length_cons] at hle
          rw [target, if_neg habs]
          omega
    refine Or.inr ?_
    rw [if_pos (head?_normal _)]
    omega

end Again

/-- **`build_path` keeps what is promised** just where the path and its separators fit into the
buffer and the last component stays a name when the line breaks are cut off. -/
theorem buildPath_builds_iff {cwd p : List Char} (hcwd : cwd.head? = some '/') :
    Builds cwd p ↔ Room cwd p ∧ LastStays (resolved (comps '/' (target cwd p))) := by
  rw [← normal_normal_iff]
  constructor
  · rintro ⟨hgives, hagain⟩
    have hself := ((gives_buildPath_iff hcwd).1 hagain).2
    rw [target_normal] at hself
    exact ⟨((gives_buildPath_iff hcwd).1 hgives).1, hself⟩
  · rintro ⟨hroom, hself⟩
    refine ⟨(gives_buildPath_iff hcwd).2 ⟨hroom, rfl⟩,
      (gives_buildPath_iff hcwd).2 ⟨hroom.normal hcwd, ?_⟩⟩
    rw [target_normal, hself]

/-- `b/../c` in `/home`. -/
theorem buildPath_builds_home : normal (target "/home".toList "b/../c".toList) = "/home/c".toList ∧
    Builds "/home".toList "b/../c".toList :=
  ⟨by decide, (buildPath_builds_iff (by decide)).2 ⟨by decide, by decide⟩⟩

/-- A path of 255 letters is within `MAX_PATH`, but not with the separator put in front of it; and
what is built of `/..\n` is not built again. -/
theorem buildPath_overrun :
    (('/' :: List.replicate 254 'a').length < maxPath ∧
      ¬ Builds ['/'] ('/' :: List.replicate 254 'a')) ∧
      ¬ Builds ['/'] "/..\n".toList := by
  have hlong : ('/' :: List.replicate 254 'a').length = 255 := by
    rw [List.length_cons, List.length_replicate]
  refine ⟨⟨by rw [hlong]; decide, fun h => ?_⟩, fun h => ?_⟩
  · rcases ((gives_buildPath_iff rfl).1 h.gives).1 with hroot | hlen
    · rw [hroot] at hlong
      exact absurd hlong (by decide)
    · rw [if_pos (List.head?_cons ..), hlong] at hlen
      exact absurd hlen (by decide)
  · have hself := ((gives_buildPath_iff rfl).1 h.again).2
    exact absurd hself (by decide)

end BuildPath
end LightOS
