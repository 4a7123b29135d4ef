import LightOS.Fs.PathBasic

/-!
# Washing a path, with its buffers and rounds

`wash_path` of `fs/fsal/path.c` and its copy in the `unistd/dir.c` of the C library, with what the
walk over components of `PathBasic` leaves out: names and the new path are put into buffers of
`MAX_PATH` bytes, and the loop runs until a name is empty.  A call that writes outside of a buffer,
fails its assertion or has used up its rounds returns `none`.

* `washRounds_eq_some_iff` — the rounds end with the path of the stack if they stay within the
  buffers.
* `wash_eq_some_iff`, `wash_eq_washPath` — what the calls end with.
* `canonical_canonical` — a canonical path is its own.
* `washPath_normalises` — both functions, on every absolute path that fits and has no line breaks.
-/

namespace LightOS
namespace WashPath

open Components FsPath

/-! ## The model -/

/-- A string that is put into a buffer, with its zero. -/
def inBuffer (size : ℕ) (s : List Char) : Option (List Char) :=
  if s.length < size then some s else none

/-- The loop of `wash_path`, which ends when the name is empty.  Names are read into a cleared
buffer. -/
def washRounds (size : ℕ) : ℕ → List Char → List Char → Option (List Char) → Option (List Char)
  | 0, _, _, _ => none
  | rounds + 1, newPath, name, subPath =>
      if name = [] then some newPath
      else
        (inBuffer size (washName newPath name)).bind fun newPath =>
          match subPath with
          | none => washRounds size rounds newPath [] none
          | some sub =>
              let r := parsePathAfterward sub
              (inBuffer size r.1).bind fun name => washRounds size rounds newPath name r.2

/-- The two functions; `rounds` bounds the loop. -/
def wash (size rounds : ℕ) (oldPath : List Char) : Option (List Char) :=
  if oldPath.head? = some '/' then
    let r := parsePathAfterward oldPath
    (inBuffer size r.1).bind fun name =>
      if name = [] then some ['/'] else (washRounds size rounds ['/'] name r.2).map dropLineBreaks
  else none

/-- `wash_path` of the kernel. -/
def washPath (rounds : ℕ) (oldPath : List Char) : Option (List Char) := wash maxPath rounds oldPath

/-- `MAX_PATH` of the C library. -/
abbrev xlibcMaxPath : ℕ := 256

/-- `__wash_path` of the C library. -/
def xlibcWashPath (rounds : ℕ) (oldPath : List Char) : Option (List Char) :=
  wash xlibcMaxPath rounds oldPath

/-! ## What is promised -/

/-- The canonical path: the components are folded over a stack, and the stack is joined. -/
def canonical (p : List Char) : List Char := path '/' (resolved (comps '/' p))

/-- The call ends and gives the path. -/
def Gives (f : ℕ → List Char → Option (List Char)) (p w : List Char) : Prop :=
  ∃ n, ∀ rounds, n ≤ rounds → f rounds p = some w

/-- What is promised of washing a path. -/
structure Normalises (f : ℕ → List Char → Option (List Char)) (p : List Char) : Prop where
  gives : Gives f p (canonical p)
  head : (canonical p).head? = some '/'
  components : canonical p ≠ ['/'] →
    ∀ c ∈ ((canonical p).drop 1).splitOn '/', c ≠ [] ∧ c ≠ ['.'] ∧ c ≠ ['.', '.']
  trailing : canonical p ≠ ['/'] → (canonical p).getLast? ≠ some '/'
  length : (canonical p).length ≤ p.length
  again : Gives f (canonical p) (canonical p)

/-- The path has no line breaks. -/
def NoBreaks (p : List Char) : Prop := ∀ c ∈ p, c ≠ '\r' ∧ c ≠ '\n'

/-! ## The rounds -/

/-- The names that are left, and the paths they are appended to, fit into their buffers. -/
def Fits (size : ℕ) : List (List Char) → List (List Char) → Prop
  | _, [] => True
  | st, c :: cs =>
      c.length < size ∧ (path '/' (push here up st c)).length < size ∧
        Fits size (push here up st c) cs

section Rounds

variable {size : ℕ} {st : List (List Char)} {name s w : List Char} {sub : Option (List Char)}

theorem inBuffer_bind_eq_some_iff {f : List Char → Option (List Char)} :
    (inBuffer size s).bind f = some w ↔ s.length < size ∧ f s = some w := by
  unfold inBuffer
  split_ifs with h
  · simp [h]
  · simp [h]

/-- A path is in its buffer if its components are. -/
theorem length_path_lt (hsize : 1 < size) (h : (join '/' st).length < size) :
    (path '/' st).length < size := by
  unfold path
  split_ifs
  · exact hsize
  · exact h

/-- What the stack and the names that are left take together does not grow. -/
theorem length_push_add_le (c : List Char) (st cs : List (List Char)) :
    (join '/' (push here up st c)).length + (join '/' cs).length ≤
      (join '/' st).length + (join '/' (c :: cs)).length := by
  have hpush : (join '/' (push here up st c)).length ≤ (join '/' st).length + (c.length + 1) :=
    length_join_push_le '/' st c
  rw [join_cons, List.length_cons, List.length_append]
  omega

/-- What fits as a whole fits in every round. -/
theorem fits_of_length_lt (hsize : 1 < size) {cs : List (List Char)}
    (hroom : (join '/' st).length + (join '/' cs).length < size) : Fits size st cs := by
  induction cs generalizing st with
  | nil => exact trivial
  | cons c cs ih =>
      have hle := length_push_add_le c st cs
      have hname : c.length < size := by
        rw [join_cons, List.length_cons, List.length_append] at hroom
        omega
      exact ⟨hname, length_path_lt hsize (by omega), ih (by omega)⟩

/-- **The rounds end with the path of the stack** if nothing is written outside of a buffer. -/
theorem washRounds_eq_some_iff (hsize : 0 < size) (rounds : ℕ) (hst : ∀ c ∈ st, IsComp '/' c)
    (hname : IsComp '/' name) (hrounds : ∀ r, sub = some r → r.length < rounds) :
    washRounds size (rounds + 2) (path '/' st) name sub = some w ↔
      ((path '/' (push here up st name)).length < size ∧
        Fits size (push here up st name) (subComps sub)) ∧
        path '/' ((name :: subComps sub).foldl (push here up) st) = w := by
  induction rounds generalizing st name sub with
  | zero =>
      cases sub with
      | none =>
          rw [washRounds, if_neg hname.1, washName_path hst, inBuffer_bind_eq_some_iff]
          simp [washRounds, subComps, Fits]
      | some r => exact absurd (hrounds r rfl) (Nat.not_lt_zero _)
  | succ rounds ih =>
      have hpush : ∀ c ∈ push here up st name, IsComp '/' c := forall_push hst fun _ _ => hname
      rw [washRounds, if_neg hname.1, washName_path hst, inBuffer_bind_eq_some_iff, List.foldl_cons]
      cases sub with
      | none => simp [washRounds, subComps, Fits]
      | some r =>
          have hr := hrounds r rfl
          rcases parsePathAfterward_spec r with
            ⟨hcomps, hparse⟩ | ⟨name', sub', hparse, hname', hcomps, hlt⟩
          · -- only separators follow
            simp [hparse, subComps, hcomps, inBuffer_bind_eq_some_iff, washRounds, Fits, hsize]
          · have hrest : ∀ r', sub' = some r' → r'.length < rounds := by
              intro r' hr'
              have := hlt r' hr'
              omega
            simp only [hparse, subComps, hcomps, Fits, inBuffer_bind_eq_some_iff,
              ih hpush hname' hrest, and_assoc]

end Rounds

/-! ## Canonical paths -/

section Canonical

variable {p : List Char}

theorem isComp_stack (p : List Char) : ∀ c ∈ resolved (comps '/' p), IsComp '/' c :=
  isComp_resolved (isComp_of_mem_comps p)

/-- The names on the stack are not special. -/
theorem stack_plain (p : List Char) : ∀ c ∈ resolved (comps '/' p), c ≠ here ∧ c ≠ up :=
  forall_resolve (P := fun c => c ≠ here ∧ c ≠ up) fun _ _ h1 h2 => ⟨h1, h2⟩

/-- **A canonical path is its own.** -/
theorem canonical_canonical (p : List Char) : canonical (canonical p) = canonical p := by
  have hself : resolved (resolved (comps '/' p)) = resolved (comps '/' p) :=
    resolve_eq_self_iff.2 (stack_plain p)
  unfold canonical
  rw [comps_path (isComp_stack p), hself]

theorem head?_canonical (p : List Char) : (canonical p).head? = some '/' := head?_path _

/-- Only the root is a separator alone. -/
theorem canonical_of_ne_root (h : canonical p ≠ ['/']) :
    resolved (comps '/' p) ≠ [] ∧ canonical p = join '/' (resolved (comps '/' p)) := by
  have hne : resolved (comps '/' p) ≠ [] := by
    intro hnil
    apply h
    unfold canonical
    rw [hnil]
    rfl
  exact ⟨hne, path_of_ne_nil hne⟩

theorem components_canonical (h : canonical p ≠ ['/']) :
    ∀ c ∈ ((canonical p).drop 1).splitOn '/', c ≠ [] ∧ c ≠ ['.'] ∧ c ≠ ['.', '.'] := by
  obtain ⟨hne, hjoin⟩ := canonical_of_ne_root h
  rw [hjoin, splitOn_drop_join hne (isComp_stack p)]
  intro c hc
  exact ⟨(isComp_stack p c hc).1, stack_plain p c hc⟩

theorem trailing_canonical (h : canonical p ≠ ['/']) : (canonical p).getLast? ≠ some '/' := by
  rw [(canonical_of_ne_root h).2]
  exact getLast?_join_ne (isComp_stack p)

theorem length_canonical_le (hhead : p.head? = some '/') : (canonical p).length ≤ p.length := by
  obtain ⟨t, rfl⟩ := List.head?_eq_some_iff.1 hhead
  exact length_path_resolved_le t

/-- The letters of a canonical path are separators and letters of the path. -/
theorem mem_canonical {x : Char} (h : x ∈ canonical p) : x = '/' ∨ x ∈ p := by
  by_cases hroot : canonical p = ['/']
  · rw [hroot, List.mem_singleton] at h
    exact Or.inl h
  · rw [(canonical_of_ne_root hroot).2, join, List.mem_flatMap] at h
    obtain ⟨c, hc, hx⟩ := h
    rcases List.mem_cons.1 hx with rfl | hx
    · exact Or.inl rfl
    · have hmem : c ∈ comps '/' p :=
        forall_resolve (P := fun c => c ∈ comps '/' p) (fun c hc _ _ => hc) c hc
      exact Or.inr (mem_of_mem_comps hmem hx)

theorem NoBreaks.canonical (h : NoBreaks p) : NoBreaks (canonical p) := by
  intro x hx
  rcases mem_canonical hx with rfl | hmem
  · decide
  · exact h x hmem

/-- Without line breaks nothing is cut off. -/
theorem NoBreaks.dropLineBreaks (h : NoBreaks p) : dropLineBreaks p = p := by
  unfold FsPath.dropLineBreaks
  rw [List.rdropWhile_eq_self_iff]
  intro hne
  obtain ⟨hr, hn⟩ := h _ (List.getLast_mem hne)
  simp [hr, hn]

end Canonical

/-! ## Washing -/

section Wash

variable {size : ℕ} {p : List Char}

/-- **What a call ends with**: it is the path of the stack without the line breaks at its end. -/
theorem wash_eq_some_iff (hsize : 1 < size) (hhead : p.head? = some '/') {rounds : ℕ}
    (hrounds : p.length + 2 ≤ rounds) {w : List Char} :
    wash size rounds p = some w ↔ Fits size [] (comps '/' p) ∧
      dropLineBreaks (canonical p) = w := by
  obtain ⟨k, rfl⟩ : ∃ k, rounds = k + 2 := ⟨rounds - 2, by omega⟩
  unfold wash canonical
  rw [if_pos hhead]
  rcases parsePathAfterward_spec p with ⟨hcomps, hparse⟩ | ⟨name, sub, hparse, hname, hcomps, hlt⟩
  · have hroot : dropLineBreaks (path '/' (resolved [])) = ['/'] := by decide
    have hempty : ([] : List Char).length < size := Nat.lt_of_succ_lt hsize
    simp only [hparse, hcomps, Fits, inBuffer_bind_eq_some_iff, hempty, hroot, if_true, true_and,
      Option.some.injEq]
  · have hrest : ∀ r, sub = some r → r.length < k := by
      intro r hr
      have := hlt r hr
      omega
    have hnil : ∀ c ∈ ([] : List (List Char)), IsComp '/' c :=
      fun _ hc => absurd hc List.not_mem_nil
    have hloop : ∀ w, washRounds size (k + 2) ['/'] name sub = some w ↔ _ := fun _ =>
      washRounds_eq_some_iff (Nat.lt_of_succ_lt hsize) k hnil hname hrest
    simp only [hparse, hcomps, Fits, inBuffer_bind_eq_some_iff, if_neg hname.1,
      Option.map_eq_some_iff, hloop]
    constructor
    · rintro ⟨hlen, w', ⟨hfits, rfl⟩, hw⟩
      exact ⟨⟨hlen, hfits⟩, hw⟩
    · rintro ⟨⟨hlen, hfits⟩, hw⟩
      exact ⟨hlen, _, ⟨hfits, rfl⟩, hw⟩

theorem fits_of_lt (hsize : 1 < size) (hhead : p.head? = some '/') (hlen : p.length < size) :
    Fits size [] (comps '/' p) := by
  apply fits_of_length_lt hsize
  obtain ⟨t, rfl⟩ := List.head?_eq_some_iff.1 hhead
  have hle : (join '/' (comps '/' t)).length ≤ t.length + 1 := length_join_comps_le t
  rw [comps_cons_sep, join_nil, List.length_nil, Nat.zero_add]
  exact lt_of_le_of_lt hle hlen

/-- **A call on a path that fits ends**, with the path of `PathBasic`. -/
theorem wash_eq_washPath (hsize : 1 < size) (hhead : p.head? = some '/') (hlen : p.length < size)
    {rounds : ℕ}
    (hrounds : p.length + 2 ≤ rounds) : wash size rounds p = some (FsPath.washPath p) := by
  rw [wash_eq_some_iff hsize hhead hrounds, washPath_eq]
  exact ⟨fits_of_lt hsize hhead hlen, rfl⟩

/-- **What washing gives** without line breaks. -/
theorem wash_eq (hsize : 1 < size) (hhead : p.head? = some '/') (hbreaks : NoBreaks p)
    (hlen : p.length < size)
    {rounds : ℕ} (hrounds : p.length + 2 ≤ rounds) : wash size rounds p = some (canonical p) := by
  rw [wash_eq_washPath hsize hhead hlen hrounds, washPath_eq]
  exact congrArg some hbreaks.canonical.dropLineBreaks

theorem wash_normalises (hsize : 1 < size) (hhead : p.head? = some '/') (hbreaks : NoBreaks p)
    (hlen : p.length < size) : Normalises (wash size) p where
  gives := ⟨p.length + 2, fun _ => wash_eq hsize hhead hbreaks hlen⟩
  head := head?_canonical p
  components := components_canonical
  trailing := trailing_canonical
  length := length_canonical_le hhead
  again := by
    have hshort := lt_of_le_of_lt (length_canonical_le hhead) hlen
    refine ⟨(canonical p).length + 2, fun rounds hrounds => ?_⟩
    rw [wash_eq hsize (head?_canonical p) hbreaks.canonical hshort hrounds, canonical_canonical]

end Wash

/-- **Washing an absolute path** that fits into a buffer and has no line breaks ends with its
canonical path, in the kernel and in the C library. -/
theorem washPath_normalises {p : List Char} (hhead : p.head? = some '/') (hbreaks : NoBreaks p)
    (hlen : p.length < maxPath) : Normalises washPath p ∧ Normalises xlibcWashPath p :=
  ⟨wash_normalises (by decide) hhead hbreaks hlen, wash_normalises (by decide) hhead hbreaks hlen⟩

/-- `//a/./../b/` is washed to `/b`. -/
theorem washPath_normalises_b : canonical "//a/./../b/".toList = "/b".toList ∧
    Normalises washPath "//a/./../b/".toList ∧ Normalises xlibcWashPath "//a/./../b/".toList :=
  ⟨by decide, washPath_normalises (by decide) (by simp [NoBreaks]) (by decide)⟩

end WashPath
end LightOS
