import Mathlib

/-!
# Comma separated lines

`lib/sconf.c` reads lines and fields into buffers that were cleared before.  Both readers count
the room that is *left* in the buffer down while they copy, and afterwards put a zero at the
last place of that many: a line or field that fills more than half of the buffer is cut, and
one that fills it is not terminated, with the zero in front of the buffer.  Here a buffer is the
list of its bytes, a call that writes outside of one returns `none`.

The account file and the permission file are read by the same loop, `loadLoop`.  The file is
followed in memory by whatever comes after the buffer it was read into.

* `cstr_bufferOf` — the string that is left of a field.
* `loadLoop_inspected` — the loop looks at a byte behind what it is given.
* `loadLoop_lines` — the loop on a file of lines, when a zero follows.
-/

namespace LightOS
namespace Sconf

/-- The byte that ends a string. -/
abbrev nul : Char := '\x00'

/-- The string a buffer holds. -/
def cstr (buf : List Char) : List Char := buf.takeWhile (· ≠ nul)

/-- `isspace`. -/
def isspace (c : Char) : Bool :=
  c ∈ [' ', '\t', '\n', '\r', Char.ofNat 11, Char.ofNat 12]

/-- A cleared buffer of `len` bytes into which `s` was copied with the room counted down, and
the zero that is put at the end of the room that is left. -/
def bufferOf (s : List Char) (len : ℕ) : Option (List Char) :=
  if s.length < len then
    some ((s ++ List.replicate (len - s.length) nul).set (len - s.length - 1) nul)
  else none

/-- The character ends a line. -/
def isBreak (c : Char) : Bool := c = '\r' || c = '\n'

/-- What follows a line. -/
def afterBreak : List Char → List Char
  | '\r' :: '\n' :: rest => rest
  | _ :: rest => rest
  | [] => []

/-- `sconf_readline`, of memory that does not start with a zero: the buffer and the rest. -/
def sconfReadline (mem : List Char) (len : ℕ) : Option (List Char) × List Char :=
  (bufferOf (mem.takeWhile fun c => !isBreak c) len, afterBreak (mem.dropWhile fun c => !isBreak c))

/-- `sconf_read`, of a line that is not empty: the buffer and the rest of the line. -/
def sconfRead (line : List Char) (len : ℕ) : Option (List Char) × List Char :=
  (bufferOf (line.takeWhile (· ≠ ',')) len, (line.dropWhile (· ≠ ',')).drop 1)

/-- `sconf_trim`.  The search for the last character that is no blank runs over the first byte
of the buffer when there is none; `blank` says whether it finds a blank there, which it would
clear. -/
def sconfTrim (blank : Bool) (buf : List Char) : Option (List Char) :=
  let s := cstr buf
  let body := s.rdropWhile isspace
  let start := (s.takeWhile isspace).length
  if body = [] ∧ blank = true then none
  else
    let cleared := body ++ List.replicate (s.length - body.length) nul ++ buf.drop s.length
    let moved := body.drop start
    some (moved ++ nul :: cleared.drop (moved.length + 1))

/-- `sconf_write`. -/
def sconfWrite (line str : List Char) : List Char := line ++ str ++ [',']

/-- `sconf_writeline`. -/
def sconfWriteline (line : List Char) : List Char := line ++ ['\n']

/-- `sconf_read` and `sconf_trim` of a field, as the scanners call them. -/
def readField (blank : Bool) (line : List Char) (len : ℕ) : Option (List Char × List Char) :=
  ((sconfRead line len).1.bind (sconfTrim blank)).map fun buf => (buf, (sconfRead line len).2)

/-- The size of the line buffers. -/
abbrev lineLen : ℕ := 128

/-- The loop over the lines of a file in memory, up to the first zero.  `scan` takes a line and
returns `none` if it writes outside of a buffer.  The second result is the number of bytes looked
at.  The first argument bounds the lines. -/
def loadLoop {σ : Type} (scan : σ → List Char → Option σ) : ℕ → List Char → σ → Option (σ × ℕ)
  | 0, _, s => some (s, 1)
  | fuel + 1, mem, s =>
      if mem = [] then some (s, 1)
      else
        (sconfReadline mem lineLen).1.bind fun line =>
          (scan s (cstr line)).bind fun s' =>
            (loadLoop scan fuel (sconfReadline mem lineLen).2 s').map fun r =>
              (r.1, r.2 + (mem.length - (sconfReadline mem lineLen).2.length))

/-- The field buffers of a scanner. -/
inductive FieldBuf where
  | attr
  | str
  | password
  deriving DecidableEq

/-- What surrounds the buffers of a loader in memory: the bytes after the file up to the first
zero, and whether the byte in front of each field buffer is a blank. -/
structure Surroundings where
  after : List Char
  after_nul : nul ∉ after
  blank : FieldBuf → Bool

/-- Nothing is in the way: a zero follows the file. -/
def quiet : Surroundings := ⟨[], by simp, fun _ => false⟩

/-! ## Buffers -/

theorem cstr_append_nul {s : List Char} (h : nul ∉ s) (t : List Char) :
    cstr (s ++ nul :: t) = s := by
  unfold cstr
  rw [List.takeWhile_append_of_pos, List.takeWhile_cons_of_neg (by simp), List.append_nil]
  intro c hc
  rw [decide_eq_true_eq]
  rintro rfl
  exact h hc

/-- **The string that is left of a field.** -/
theorem cstr_bufferOf {s : List Char} (len : ℕ) (h : nul ∉ s) (hlen : s.length < len) :
    ∃ buf, bufferOf s len = some buf ∧ cstr buf = s.take (len - s.length - 1) := by
  obtain ⟨k, hk⟩ : ∃ k, len - s.length - 1 = k := ⟨_, rfl⟩
  refine ⟨_, if_pos hlen, ?_⟩
  rw [hk, List.set_eq_take_append_cons_drop]
  have hlt : k < (s ++ List.replicate (len - s.length) nul).length := by
    rw [List.length_append, List.length_replicate]
    omega
  rw [if_pos hlt, List.take_append, List.take_replicate]
  have hnot : nul ∉ s.take k := fun hmem => h (List.mem_of_mem_take hmem)
  -- behind the part of `s` that is left stand zeros only
  cases hz : min (k - s.length) (len - s.length) with
  | zero =>
      rw [List.replicate_zero, List.append_nil]
      exact cstr_append_nul hnot _
  | succ m =>
      rw [List.replicate_succ, List.append_assoc]
      exact cstr_append_nul hnot _

theorem bufferOf_eq_none {s : List Char} {len : ℕ} (hlen : len ≤ s.length) :
    bufferOf s len = none :=
  if_neg (not_lt.2 hlen)

theorem nul_not_mem_cstr (buf : List Char) : nul ∉ cstr buf := by
  intro hmem
  have := List.mem_takeWhile_imp hmem
  simp at this

/-- A trimmed string is no longer than it was. -/
theorem length_cstr_sconfTrim_le {blank : Bool} {buf buf' : List Char}
    (h : sconfTrim blank buf = some buf') :
    (cstr buf').length ≤ (cstr buf).length := by
  unfold sconfTrim at h
  simp only at h
  split_ifs at h
  cases h
  have hsub : ∀ c ∈ ((cstr buf).rdropWhile isspace).drop ((cstr buf).takeWhile isspace).length,
      c ∈ cstr buf := by
    intro c hc
    exact (List.rdropWhile_prefix _ _).subset (List.mem_of_mem_drop hc)
  rw [cstr_append_nul fun hmem => nul_not_mem_cstr buf (hsub _ hmem), List.length_drop]
  have := (List.rdropWhile_prefix isspace (cstr buf)).length_le
  omega

/-- A string without blanks at its ends is left alone. -/
theorem sconfTrim_self {blank : Bool} {s t : List Char} (hnul : nul ∉ s)
    (hfirst : ∀ c ∈ s.head?, isspace c = false) (hlast : ∀ c ∈ s.getLast?, isspace c = false)
    (hblank : s = [] → blank = false) : sconfTrim blank (s ++ nul :: t) = some (s ++ nul :: t) := by
  have hcstr := cstr_append_nul hnul t
  have hbody : s.rdropWhile isspace = s := by
    rw [List.rdropWhile_eq_self_iff]
    intro hne
    rw [hlast _ (List.getLast?_eq_some_getLast hne)]
    decide
  have hstart : s.takeWhile isspace = [] := by
    cases s with
    | nil => rfl
    | cons c s => exact List.takeWhile_cons_of_neg (by rw [hfirst c rfl]; decide)
  unfold sconfTrim
  simp only [hcstr, hbody, hstart]
  rw [if_neg]
  · simp
  · rintro ⟨hnil, hb⟩
    rw [hblank hnil] at hb
    cases hb

/-! ## Fields -/

theorem takeWhile_field {f r : List Char} (h : ',' ∉ f) :
    (f ++ ',' :: r).takeWhile (· ≠ ',') = f := by
  rw [List.takeWhile_append_of_pos, List.takeWhile_cons_of_neg (by simp), List.append_nil]
  intro c hc
  rw [decide_eq_true_eq]
  rintro rfl
  exact h hc

theorem dropWhile_field {f r : List Char} (h : ',' ∉ f) :
    (f ++ ',' :: r).dropWhile (· ≠ ',') = ',' :: r := by
  rw [List.dropWhile_append_of_pos, List.dropWhile_cons_of_neg (by simp)]
  intro c hc
  rw [decide_eq_true_eq]
  rintro rfl
  exact h hc

/-- **A field that is not cut** is read as it is. -/
theorem readField_self (blank : Bool) {f : List Char} (hsep : ',' ∉ f) (hnul : nul ∉ f)
    (hfirst : ∀ c ∈ f.head?, isspace c = false) (hlast : ∀ c ∈ f.getLast?, isspace c = false)
    (hblank : f = [] → blank = false) (hlen : f.length ≤ 15) (r : List Char) :
    ∃ t, readField blank (f ++ ',' :: r) 32 = some (f ++ nul :: t, r) := by
  have hset : bufferOf f 32 = some (f ++ nul :: List.replicate (31 - f.length) nul) := by
    unfold bufferOf
    rw [if_pos (by omega)]
    have hrep : List.replicate (32 - f.length) nul = nul :: List.replicate (31 - f.length) nul := by
      rw [← List.replicate_succ]
      congr 1
      omega
    rw [List.set_append_right _ _ (by omega), hrep]
    congr 2
    apply List.ext_getElem
    · simp
    · intro i h1 h2
      rw [List.getElem_set]
      split_ifs with hi
      · simp [← List.replicate_succ]
      · rfl
  refine ⟨List.replicate (31 - f.length) nul, ?_⟩
  unfold readField sconfRead
  rw [takeWhile_field hsep, dropWhile_field hsep]
  simp only [hset, Option.bind_some]
  rw [sconfTrim_self hnul hfirst hlast hblank]
  rfl

/-- The character has no meaning in a file. -/
def Plain (c : Char) : Prop := c ≠ ',' ∧ c ≠ nul ∧ isspace c = false ∧ isBreak c = false

instance (c : Char) : Decidable (Plain c) := inferInstanceAs (Decidable (_ ∧ _))

section Plain

variable {f : List Char}

theorem sep_not_mem (h : ∀ c ∈ f, Plain c) : ',' ∉ f := fun hmem => (h _ hmem).1 rfl

theorem nul_not_mem (h : ∀ c ∈ f, Plain c) : nul ∉ f := fun hmem => (h _ hmem).2.1 rfl

/-- A field of plain characters that is not cut is read as it is. -/
theorem readField_plain (blank : Bool) (h : ∀ c ∈ f, Plain c) (hlen : f.length ≤ 15)
    (hblank : f = [] → blank = false) (r : List Char) :
    ∃ t, readField blank (f ++ ',' :: r) 32 = some (f ++ nul :: t, r) := by
  apply readField_self blank (sep_not_mem h) (nul_not_mem h) _ _ hblank hlen
  · intro c hc
    exact (h c (List.mem_of_mem_head? hc)).2.2.1
  · intro c hc
    exact (h c (List.mem_of_mem_getLast? hc)).2.2.1

end Plain

/-- A line that may have been cut: what is read of its first field is no longer than the field,
and as long only if the field is short. -/
theorem readField_prefix {blank : Bool} {t f r buf q : List Char} (hsep : ',' ∉ f) (hnul : nul ∉ f)
    (ht : t <+: f ++ ',' :: r) (h : readField blank t 32 = some (buf, q)) :
    q <+: r ∧ (cstr buf).length ≤ f.length ∧ ((cstr buf).length = f.length → f.length ≤ 15) := by
  obtain ⟨g, hg⟩ : ∃ g, t.takeWhile (· ≠ ',') = g := ⟨_, rfl⟩
  have hsplit : g <+: f ∧ (t.dropWhile (· ≠ ',')).drop 1 <+: r := by
    rcases List.prefix_or_prefix_of_prefix ht (List.prefix_append f (',' :: r)) with hpre | ⟨u, rfl⟩
    · -- the line ends inside of the field
      have hall : ∀ c ∈ t, decide (c ≠ ',') = true := by
        intro c hc
        rw [decide_eq_true_eq]
        rintro rfl
        exact hsep (hpre.subset hc)
      rw [← hg, List.takeWhile_eq_self_iff.2 hall, List.dropWhile_eq_nil_iff.2 hall]
      exact ⟨hpre, List.nil_prefix⟩
    · rw [List.prefix_append_right_inj] at ht
      cases u with
      | nil =>
          rw [List.append_nil] at hg ⊢
          have hall : ∀ c ∈ f, decide (c ≠ ',') = true := by
            intro c hc
            rw [decide_eq_true_eq]
            rintro rfl
            exact hsep hc
          rw [← hg, List.takeWhile_eq_self_iff.2 hall, List.dropWhile_eq_nil_iff.2 hall]
          exact ⟨List.prefix_refl _, List.nil_prefix⟩
      | cons c u =>
          rw [List.cons_prefix_cons] at ht
          obtain ⟨rfl, hu⟩ := ht
          rw [← hg, takeWhile_field hsep, dropWhile_field hsep]
          exact ⟨List.prefix_refl _, hu⟩
  unfold readField sconfRead at h
  simp only [hg] at h
  obtain ⟨buf', hbuf', heq⟩ := Option.map_eq_some_iff.1 h
  obtain ⟨raw, hraw, htrim⟩ := Option.bind_eq_some_iff.1 hbuf'
  rw [Prod.mk.injEq] at heq
  obtain ⟨rfl, rfl⟩ := heq
  have hlen : g.length < 32 := by
    by_contra hge
    rw [bufferOf_eq_none (not_lt.1 hge)] at hraw
    cases hraw
  have hgnul : nul ∉ g := fun hmem => hnul (hsplit.1.subset hmem)
  obtain ⟨raw', hraw', hcstr⟩ := cstr_bufferOf _ hgnul hlen
  rw [hraw, Option.some.injEq] at hraw'
  subst hraw'
  have htrimmed := length_cstr_sconfTrim_le htrim
  have hle := hsplit.1.length_le
  rw [hcstr, List.length_take] at htrimmed
  exact ⟨hsplit.2, by omega, fun heq => by omega⟩

/-! ## Lines -/

theorem afterBreak_length (s : List Char) : (afterBreak s).length ≤ s.length - 1 := by
  unfold afterBreak
  split
  · simp
  · simp
  · simp

/-- Reading a line takes a byte at least. -/
theorem sconfReadline_rest_lt {mem : List Char} (hne : mem ≠ []) (len : ℕ) :
    (sconfReadline mem len).2.length < mem.length := by
  have hsplit := congrArg List.length
    (List.takeWhile_append_dropWhile (p := fun c => !isBreak c) (l := mem))
  rw [List.length_append] at hsplit
  have hpos := List.length_pos_of_ne_nil hne
  have hafter := afterBreak_length (mem.dropWhile fun c => !isBreak c)
  unfold sconfReadline
  simp only
  omega

/-- **The loop looks at a byte behind what it is given**: all of it, and the zero. -/
theorem loadLoop_inspected {σ : Type} {scan : σ → List Char → Option σ} (fuel : ℕ) :
    ∀ {mem : List Char} {s : σ} {r : σ × ℕ}, mem.length < fuel →
      loadLoop scan fuel mem s = some r → r.2 = mem.length + 1 := by
  induction fuel with
  | zero => intro mem s r hlt; omega
  | succ fuel ih =>
      intro mem s r hlt h
      unfold loadLoop at h
      split_ifs at h with hnil
      · cases h
        rw [hnil]
        rfl
      · obtain ⟨line, -, h⟩ := Option.bind_eq_some_iff.1 h
        obtain ⟨s', -, h⟩ := Option.bind_eq_some_iff.1 h
        obtain ⟨r', hr', rfl⟩ := Option.map_eq_some_iff.1 h
        have hrest := sconfReadline_rest_lt hnil lineLen
        have := ih (by omega) hr'
        simp only
        omega

/-- The file of a list of lines. -/
def fileOf (ls : List (List Char)) : List Char := ls.flatMap sconfWriteline

/-- A line of a file: no breaks. -/
def IsLine (l : List Char) : Prop := ∀ c ∈ l, isBreak c = false

/-- What the loop does with one line. -/
def scanLine {σ : Type} (scan : σ → List Char → Option σ) (s : σ) (l : List Char) : Option σ :=
  (bufferOf l lineLen).bind fun line => scan s (cstr line)

theorem sconfReadline_line {l : List Char} (h : IsLine l) (rest : List Char) (len : ℕ) :
    sconfReadline (l ++ '\n' :: rest) len = (bufferOf l len, rest) := by
  have hall : ∀ c ∈ l, (fun c => !isBreak c) c = true := by
    intro c hc
    simp only [h c hc, Bool.not_false]
  unfold sconfReadline
  rw [List.takeWhile_append_of_pos hall, List.dropWhile_append_of_pos hall,
    List.takeWhile_cons_of_neg (by decide), List.dropWhile_cons_of_neg (by decide), List.append_nil]
  rfl

/-- A line that is shorter than half of the buffer is scanned as it is. -/
theorem scanLine_short {σ : Type} (scan : σ → List Char → Option σ) (s : σ) {l : List Char}
    (hnul : nul ∉ l) (hlen : 2 * l.length < lineLen) : scanLine scan s l = scan s l := by
  obtain ⟨buf, hbuf, hcstr⟩ := cstr_bufferOf lineLen hnul (by omega)
  rw [List.take_of_length_le (by omega)] at hcstr
  unfold scanLine
  rw [hbuf, Option.bind_some, hcstr]

/-- **The loop on a file of lines** scans one line after the other and goes on with what follows
the file. -/
theorem loadLoop_append {σ : Type} (scan : σ → List Char → Option σ) (ls : List (List Char))
    (rest : List Char) : ∀ (fuel : ℕ) (s : σ), (∀ l ∈ ls, IsLine l) → ls.length ≤ fuel →
      loadLoop scan fuel (fileOf ls ++ rest) s =
        (ls.foldlM (scanLine scan) s).bind fun t =>
          (loadLoop scan (fuel - ls.length) rest t).map fun r =>
            (r.1, r.2 + (fileOf ls).length) := by
  induction ls with
  | nil =>
      intro fuel s _ _
      exact (Option.map_id' (x := loadLoop scan fuel rest s)).symm
  | cons l ls ih =>
      intro fuel s hls hfuel
      rw [List.length_cons] at hfuel
      obtain ⟨fuel, rfl⟩ : ∃ k, fuel = k + 1 := ⟨fuel - 1, by omega⟩
      have hfile : fileOf (l :: ls) = l ++ '\n' :: fileOf ls := by
        unfold fileOf sconfWriteline
        rw [List.flatMap_cons, List.append_assoc]
        rfl
      have hmem : fileOf (l :: ls) ++ rest = l ++ '\n' :: (fileOf ls ++ rest) := by
        rw [hfile, List.append_assoc]
        rfl
      have hline := sconfReadline_line (hls l (List.mem_cons_self ..)) (fileOf ls ++ rest) lineLen
      rw [hmem, loadLoop, if_neg (by simp), hline, List.foldlM_cons]
      simp only [scanLine, Option.bind_eq_bind]
      cases hbuf : bufferOf l lineLen with
      | none => rfl
      | some line =>
          simp only [Option.bind_some]
          cases hscan : scan s (cstr line) with
          | none => rfl
          | some s' =>
              simp only [Option.bind_some]
              rw [ih fuel s' (fun l' hl' => hls l' (List.mem_cons_of_mem _ hl')) (by omega),
                Option.map_bind, List.length_cons, Nat.add_sub_add_right]
              congr 1
              funext t
              simp only [Function.comp_apply, Option.map_map]
              congr 1
              funext r
              have hcount : (l ++ '\n' :: (fileOf ls ++ rest)).length - (fileOf ls ++ rest).length +
                  (fileOf ls).length = (fileOf (l :: ls)).length := by
                rw [hfile]
                simp only [List.length_append, List.length_cons]
                omega
              simp only [Function.comp_apply, Prod.mk.injEq, true_and]
              omega

/-- Every line has a byte at least. -/
theorem length_le_fileOf (ls : List (List Char)) : ls.length ≤ (fileOf ls).length := by
  unfold fileOf sconfWriteline
  induction ls with
  | nil => exact Nat.zero_le _
  | cons l ls ih =>
      rw [List.flatMap_cons, List.length_append, List.length_append, List.length_cons,
        List.length_singleton]
      omega

/-- When nothing follows, the loop looks at the file and the zero. -/
theorem loadLoop_lines {σ : Type} (scan : σ → List Char → Option σ) (ls : List (List Char))
    (fuel : ℕ) (s : σ) (hls : ∀ l ∈ ls, IsLine l) (hfuel : (fileOf ls).length < fuel) :
    loadLoop scan fuel (fileOf ls) s =
      (ls.foldlM (scanLine scan) s).map fun t => (t, (fileOf ls).length + 1) := by
  have hlen := length_le_fileOf ls
  have happend := loadLoop_append scan ls [] fuel s hls (by omega)
  rw [List.append_nil] at happend
  obtain ⟨k, hk⟩ : ∃ k, fuel - ls.length = k + 1 := ⟨fuel - ls.length - 1, by omega⟩
  rw [happend, hk]
  cases ls.foldlM (scanLine scan) s with
  | none => rfl
  | some t => exact congrArg (fun n => some (t, n)) (Nat.add_comm 1 _)

/-- A line that fills its buffer is not terminated. -/
theorem loadLoop_long {σ : Type} {scan : σ → List Char → Option σ} {l : List Char} (h : IsLine l)
    (hlen : lineLen ≤ l.length) (fuel : ℕ) (s : σ) : loadLoop scan (fuel + 1) l s = none := by
  have hne : l ≠ [] := by
    rintro rfl
    exact absurd hlen (by decide)
  have hall : ∀ c ∈ l, (fun c => !isBreak c) c = true := by
    intro c hc
    simp only [h c hc, Bool.not_false]
  unfold loadLoop sconfReadline
  rw [if_neg hne, List.takeWhile_eq_self_iff.2 hall, bufferOf_eq_none hlen]
  rfl

/-- Without a blank in front of the buffer a field that fits is read. -/
theorem readField_false {f : List Char} (hsep : ',' ∉ f) (hlen : f.length < 32) (r : List Char) :
    ∃ buf, readField false (f ++ ',' :: r) 32 = some (buf, r) := by
  unfold readField sconfRead
  rw [takeWhile_field hsep, dropWhile_field hsep]
  obtain ⟨raw, hraw⟩ : ∃ raw, bufferOf f 32 = some raw := ⟨_, if_pos hlen⟩
  obtain ⟨buf, hbuf⟩ : ∃ buf, sconfTrim false raw = some buf := by
    unfold sconfTrim
    exact ⟨_, if_neg (by simp)⟩
  refine ⟨buf, ?_⟩
  simp only [hraw, Option.bind_some, hbuf]
  rfl

end Sconf
end LightOS
