import LightOS.Acct.Sconf
import LightOS.Lib.Writes

/-!
# Lines and fields in any buffer

`sconf_readline` and `sconf_read` of `lib/sconf.c`, with the bytes that the buffer held before and
the places that are written.  The room that is left is counted down while a text is copied, and the
zero is put at the last place of the room that is *left*: only a text of one length ends there, a
shorter one ends at a zero of the old contents, and a longer one is cut, or gets its zero in front
of the buffer.

* `readText_exact_iff` — when a reader leaves the text in the buffer.
* `readsAll_iff` — when reading again and again gives one string after the other.
* `sconf_exact_iff` — both for the two readers.
* `sconfRead_cleared`, `sconfReadline_cleared` — on a cleared buffer these are the readers of the
  account file and the permission file.
-/

namespace LightOS
namespace SconfRead

open Sconf (nul isBreak afterBreak)
open Writes (store)

/-- Where a reader stands: the place of the next byte, the room that is left, what has been
written. -/
structure Copy where
  q : ℤ
  len : ℤ
  written : List (ℤ × Char)

/-- A byte is copied while there is room. -/
def Copy.put (st : Copy) (c : Char) : Copy :=
  if 0 < st.len then ⟨st.q + 1, st.len - 1, st.written ++ [(st.q, c)]⟩ else st

/-- The loop of a reader, up to a character that ends the text; `skip` moves the pointer behind it.
-/
def copyLoop (isEnd : Char → Bool) (skip : List Char → List Char) :
    List Char → Copy → List Char × Copy
  | [], st => ([], st)
  | c :: p, st => if isEnd c then (skip (c :: p), st) else copyLoop isEnd skip p (st.put c)

/-- What a reader returns, and what it has written; places count from the start of the buffer. -/
structure Read where
  rest : List Char
  written : List (ℤ × Char)

/-- The common part of the readers; the string is what stands before the zero. -/
def readText (isEnd : Char → Bool) (skip : List Char → List Char) (p : List Char) (len : ℤ) :
    Option Read :=
  if p = [] then none
  else
    let r := copyLoop isEnd skip p ⟨0, len, []⟩
    some ⟨r.1, r.2.written ++ [(r.2.len - 1, nul)]⟩

/-- `sconf_readline`. -/
def sconfReadline (buf : List Char) (len : ℤ) : Option Read :=
  if len ≤ 0 then none else readText isBreak afterBreak buf len

/-- `sconf_read`. -/
def sconfRead (separator : Char) (line : List Char) (len : ℤ) : Option Read :=
  readText (fun c => c = separator) (List.drop 1) line len

/-- `sconf_write`: the separator is added as a string, and a zero is none. -/
def sconfWrite (separator : Char) (line str : List Char) : List Char :=
  line ++ str ++ if separator = nul then [] else [separator]

/-- The line terminators. -/
inductive Terminator
  | lf
  | cr
  | crlf
  deriving DecidableEq

/-- The characters of a terminator. -/
def Terminator.chars : Terminator → List Char
  | lf => ['\n']
  | cr => ['\r']
  | crlf => ['\r', '\n']

/-- Lines, each with its terminator. -/
def linesOf (ls : List (List Char × Terminator)) : List Char := ls.flatMap fun l => l.1 ++ l.2.chars

/-! ## What is promised -/

/-- A string with its zero lies at the start of the buffer. -/
def StringAt (mem : ℤ → Char) (s : List Char) : Prop :=
  (∀ i (hi : i < s.length), mem i = s[i]) ∧ mem s.length = nul

/-- The text before the first separator, or all of the line. -/
def fieldOf (separator : Char) (line : List Char) : List Char := line.takeWhile (· ≠ separator)

/-- What stands behind the first separator. -/
def afterField (separator : Char) (line : List Char) : List Char :=
  (line.dropWhile (· ≠ separator)).drop 1

/-- The text before the first line terminator. -/
def lineOf (buf : List Char) : List Char := buf.takeWhile fun c => !isBreak c

/-- What stands behind the first line terminator. -/
def afterLine (buf : List Char) : List Char := afterBreak (buf.dropWhile fun c => !isBreak c)

/-- What is promised of a call that reads a text: only the buffer is written, it holds the text, or
as much of it as fits, and the pointer stands behind the text. -/
structure Exact (mem : ℤ → Char) (len : ℤ) (text rest : List Char) (r : Read) : Prop where
  inside : ∀ w ∈ r.written, 0 ≤ w.1 ∧ w.1 < len
  string : StringAt (store mem r.written) (text.take (len - 1).toNat)
  rest : r.rest = rest

/-- The call does not fail, and keeps the promise. -/
def ReadsExactly (mem : ℤ → Char) (len : ℤ) (text rest : List Char) (o : Option Read) : Prop :=
  ∃ r, o = some r ∧ Exact mem len text rest r

/-- Calls one after the other give the strings, and then there are no more; `touch` is what the
caller does to the memory before a call. -/
def ReadsAll (reader : List Char → Option Read) (touch : (ℤ → Char) → ℤ → Char) :
    (ℤ → Char) → List Char → List (List Char) → Prop
  | _, line, [] => reader line = none
  | mem, line, s :: ss => ∃ r, reader line = some r ∧ StringAt (store (touch mem) r.written) s ∧
      ReadsAll reader touch (store (touch mem) r.written) r.rest ss

/-- A text of `k` bytes leaves more than half of the buffer, and a zero is at its end: the one that
is put, or one that was there before. -/
def Fits (mem : ℤ → Char) (len : ℤ) (k : ℕ) : Prop := 2 * k < len ∧ (2 * k + 1 = len ∨ mem k = nul)

/-- The cells that are written for a text that fits. -/
def textCells (len : ℤ) (s : List Char) : List (ℤ × Char) :=
  s.mapIdx (fun i c => ((i : ℤ), c)) ++ [(len - s.length - 1, nul)]

/-- Each text fits when its turn has come. -/
def AllFit (touch : (ℤ → Char) → ℤ → Char) (len : ℤ) : (ℤ → Char) → List (List Char) → Prop
  | _, [] => True
  | mem, s :: ss => Fits (touch mem) len s.length ∧
      AllFit touch len (store (touch mem) (textCells len s)) ss

/-! ## One call -/

section Call

variable {isEnd : Char → Bool} {skip : List Char → List Char} {mem : ℤ → Char} {len : ℤ}
  {s p : List Char}

theorem copyLoop_eq (hskip : skip [] = []) (p : List Char) (st : Copy) :
    copyLoop isEnd skip p st =
      (skip (p.dropWhile fun c => !isEnd c), (p.takeWhile fun c => !isEnd c).foldl Copy.put
        st) := by
  induction p generalizing st with
  | nil => rw [copyLoop, List.dropWhile_nil, hskip, List.takeWhile_nil, List.foldl_nil]
  | cons c p ih =>
      rw [copyLoop]
      cases hc : isEnd c with
      | true =>
          rw [if_pos rfl, List.dropWhile_cons_of_neg (by simp [hc]),
            List.takeWhile_cons_of_neg (by simp [hc]), List.foldl_nil]
      | false =>
          rw [if_neg (by simp), ih, List.dropWhile_cons_of_pos (by simp [hc]),
            List.takeWhile_cons_of_pos (by simp [hc]), List.foldl_cons]

/-- The copy of a text: as many bytes as there is room for. -/
theorem foldl_put (hlen : 0 ≤ len) (q : ℤ) (w : List (ℤ × Char)) (s : List Char) :
    s.foldl Copy.put ⟨q, len, w⟩ =
      ⟨q + min (s.length : ℤ) len, len - min (s.length : ℤ) len,
        w ++ (s.take len.toNat).mapIdx fun i c => (q + (i : ℤ), c)⟩ := by
  induction s generalizing q len w with
  | nil => simp [hlen]
  | cons c s ih =>
      rw [List.foldl_cons]
      by_cases hroom : 0 < len
      · obtain ⟨n, hn⟩ : ∃ n : ℕ, len.toNat = n + 1 := ⟨len.toNat - 1, by omega⟩
        have hpred : (len - 1).toNat = n := by omega
        have hput : Copy.put ⟨q, len, w⟩ c = ⟨q + 1, len - 1, w ++ [(q, c)]⟩ := if_pos hroom
        rw [hput, ih (by omega), hn, hpred, List.take_succ_cons, List.mapIdx_cons, List.length_cons]
        congr 1
        · push_cast
          omega
        · push_cast
          omega
        · rw [List.append_assoc, List.singleton_append]
          simp only [Nat.cast_zero, add_zero, Nat.cast_add, Nat.cast_one, add_comm, add_left_comm]
      · obtain rfl : len = 0 := by omega
        have hput : Copy.put ⟨q, 0, w⟩ c = ⟨q, 0, w⟩ := if_neg hroom
        rw [hput, ih le_rfl, min_eq_right (by omega), min_eq_right (by omega)]
        rfl

/-- **What a reader does** with memory that does not start with a zero. -/
theorem readText_eq (hskip : skip [] = []) (hp : p ≠ []) (hlen : 0 ≤ len)
    (hs : (p.takeWhile fun c => !isEnd c) = s) :
    readText isEnd skip p len = some ⟨skip (p.dropWhile fun c => !isEnd c),
      (s.take len.toNat).mapIdx (fun i c => ((i : ℤ), c)) ++
        [(len - min (s.length : ℤ) len - 1, nul)]⟩ := by
  rw [readText, if_neg hp, copyLoop_eq hskip, hs, foldl_put hlen]
  simp only [List.nil_append, zero_add]

/-- A text that is shorter than the buffer. -/
theorem readText_short (hskip : skip [] = []) (hp : p ≠ [])
    (hs : (p.takeWhile fun c => !isEnd c) = s) (hlt : (s.length : ℤ) < len) :
    readText isEnd skip p len = some ⟨skip (p.dropWhile fun c => !isEnd c), textCells len s⟩ := by
  rw [readText_eq hskip hp (by omega) hs, List.take_of_length_le (by omega),
    min_eq_left (by omega), textCells]

theorem mem_mapIdx {w : ℤ × Char} (h : w ∈ s.mapIdx fun i c => ((i : ℤ), c)) :
    ∃ i, ∃ hi : i < s.length, w = ((i : ℤ), s[i]) := by
  obtain ⟨i, hi, rfl⟩ := List.mem_mapIdx.1 h
  exact ⟨i, hi, rfl⟩

theorem nodup_mapIdx (s : List Char) : ((s.mapIdx fun i c => ((i : ℤ), c)).map Prod.fst).Nodup := by
  rw [List.nodup_iff_injective_getElem]
  intro i j hij
  simp only [List.getElem_map, List.getElem_mapIdx, Nat.cast_inj] at hij
  exact Fin.ext hij

theorem store_mapIdx (mem : ℤ → Char) {i : ℕ} (hi : i < s.length) :
    store mem (s.mapIdx fun i c => ((i : ℤ), c)) i = s[i] :=
  Writes.store_of_mem (nodup_mapIdx s) (List.mem_mapIdx.2 ⟨i, hi, rfl⟩)

theorem store_mapIdx_of_le (mem : ℤ → Char) {a : ℤ} (ha : (s.length : ℤ) ≤ a) :
    store mem (s.mapIdx fun i c => ((i : ℤ), c)) a = mem a := by
  apply Writes.store_of_not_mem
  intro hmem
  obtain ⟨w, hw, rfl⟩ := List.mem_map.1 hmem
  obtain ⟨i, hi, rfl⟩ := mem_mapIdx hw
  simp only at ha
  omega

theorem store_textCells (mem : ℤ → Char) (len : ℤ) (s : List Char) :
    store mem (textCells len s) =
      Function.update (store mem (s.mapIdx fun i c => ((i : ℤ), c))) (len - s.length - 1) nul := by
  unfold textCells store
  rw [List.foldl_append, List.foldl_cons, List.foldl_nil]

/-- **The buffer holds the text exactly if it fits**: otherwise the zero that is put cuts the text,
or none follows it. -/
theorem stringAt_textCells_iff (hnul : nul ∉ s) (hlt : (s.length : ℤ) < len) :
    StringAt (store mem (textCells len s)) s ↔ Fits mem len s.length := by
  rw [store_textCells]
  constructor
  · rintro ⟨hchars, hend⟩
    have hhalf : 2 * (s.length : ℤ) < len := by
      by_contra hge
      obtain ⟨j, hj⟩ : ∃ j : ℕ, len - s.length - 1 = j := ⟨(len - s.length - 1).toNat, by omega⟩
      have hcut := hchars j (by omega)
      rw [hj, Function.update_self] at hcut
      exact hnul (hcut ▸ List.getElem_mem _)
    refine ⟨hhalf, ?_⟩
    by_cases hplace : 2 * (s.length : ℤ) + 1 = len
    · exact Or.inl hplace
    · rw [Function.update_of_ne (by omega), store_mapIdx_of_le mem le_rfl] at hend
      exact Or.inr hend
  · rintro ⟨hhalf, hzero⟩
    refine ⟨fun i hi => ?_, ?_⟩
    · rw [Function.update_of_ne (by omega), store_mapIdx mem hi]
    · by_cases hplace : 2 * (s.length : ℤ) + 1 = len
      · have hat : (s.length : ℤ) = len - s.length - 1 := by omega
        rw [← hat, Function.update_self]
      · rw [Function.update_of_ne (by omega), store_mapIdx_of_le mem le_rfl]
        exact hzero.resolve_left hplace

theorem textCells_inside (hlt : (s.length : ℤ) < len) :
    ∀ w ∈ textCells len s, 0 ≤ w.1 ∧ w.1 < len := by
  intro w hw
  rcases List.mem_append.1 hw with hchar | hzero
  · obtain ⟨i, hi, rfl⟩ := mem_mapIdx hchar
    simp only
    omega
  · rw [List.mem_singleton] at hzero
    subst hzero
    simp only
    omega

/-- **When a call reads exactly.** -/
theorem readText_exact_iff (hskip : skip [] = []) (hlen : 1 ≤ len) (hnul : nul ∉ p) :
    ReadsExactly mem len (p.takeWhile fun c => !isEnd c) (skip (p.dropWhile fun c => !isEnd c))
        (readText isEnd skip p len) ↔
      p ≠ [] ∧ Fits mem len (p.takeWhile fun c => !isEnd c).length := by
  obtain ⟨s, hs⟩ : ∃ s, (p.takeWhile fun c => !isEnd c) = s := ⟨_, rfl⟩
  have hsnul : nul ∉ s := by
    intro hmem
    rw [← hs] at hmem
    exact hnul ((List.takeWhile_prefix _).subset hmem)
  rw [hs]
  constructor
  · rintro ⟨r, hr, hexact⟩
    have hp : p ≠ [] := by
      rintro rfl
      cases hr
    rcases lt_or_ge (s.length : ℤ) len with hlt | hge
    · rw [readText_short hskip hp hs hlt, Option.some.injEq] at hr
      subst hr
      have hstring := hexact.string
      rw [List.take_of_length_le (by omega)] at hstring
      exact ⟨hp, (stringAt_textCells_iff hsnul hlt).1 hstring⟩
    · -- the zero is put in front of the buffer
      rw [readText_eq hskip hp (by omega) hs, Option.some.injEq] at hr
      subst hr
      have hinside := hexact.inside _ (List.mem_append_right _ (List.mem_singleton_self _))
      simp only at hinside
      omega
  · rintro ⟨hp, hfits⟩
    have hlt : (s.length : ℤ) < len := by
      have := hfits.1
      omega
    refine ⟨_, readText_short hskip hp hs hlt, textCells_inside hlt, ?_, rfl⟩
    rw [List.take_of_length_le (by omega)]
    exact (stringAt_textCells_iff hsnul hlt).2 hfits

end Call

/-! ## Calls one after the other -/

/-- The texts that a reader finds, whatever becomes of them. -/
inductive Parsed (isEnd : Char → Bool) (skip : List Char → List Char) :
    List Char → List (List Char) → Prop
  | nil : Parsed isEnd skip [] []
  | cons {p : List Char} {ss : List (List Char)} (hp : p ≠ [])
      (h : Parsed isEnd skip (skip (p.dropWhile fun c => !isEnd c)) ss) :
      Parsed isEnd skip p ((p.takeWhile fun c => !isEnd c) :: ss)

section Calls

variable {isEnd : Char → Bool} {skip : List Char → List Char} {touch : (ℤ → Char) → ℤ → Char}
  {mem : ℤ → Char}
  {len : ℤ} {s p : List Char} {ss ts : List (List Char)}

/-- A text, and what follows its end. -/
theorem Parsed.append {e rest : List Char} (hs : ∀ c ∈ s, isEnd c = false)
    (he : ∀ c ∈ e.head?, isEnd c = true)
    (hne : s ++ e ≠ []) (hskip : skip (e ++ rest) = rest) (hrest : e = [] → rest = [])
    (h : Parsed isEnd skip rest ss) : Parsed isEnd skip (s ++ e ++ rest) (s :: ss) := by
  have hall : ∀ c ∈ s, (!isEnd c) = true := by
    intro c hc
    rw [hs c hc, Bool.not_false]
  have htext : ((s ++ e ++ rest).takeWhile fun c => !isEnd c) = s ∧
      ((s ++ e ++ rest).dropWhile fun c => !isEnd c) = e ++ rest := by
    rw [List.append_assoc, List.takeWhile_append_of_pos hall, List.dropWhile_append_of_pos hall]
    cases e with
    | nil =>
        rw [hrest rfl]
        exact ⟨List.append_nil s, rfl⟩
    | cons c e =>
        have hc := he c rfl
        rw [List.cons_append, List.takeWhile_cons_of_neg (by simp [hc]),
          List.dropWhile_cons_of_neg (by simp [hc]), List.append_nil]
        exact ⟨rfl, rfl⟩
  have hcons : Parsed isEnd skip (s ++ e ++ rest)
      (((s ++ e ++ rest).takeWhile fun c => !isEnd c) :: ss) := by
    apply Parsed.cons
    · intro hnil
      exact hne (List.append_eq_nil_iff.1 hnil).1
    · rw [htext.2, hskip]
      exact h
  rwa [htext.1] at hcons

/-- A reader finds the same texts whenever it is asked. -/
theorem Parsed.unique (hs : Parsed isEnd skip p ss) (ht : Parsed isEnd skip p ts) : ss = ts := by
  induction hs generalizing ts with
  | nil =>
      cases ht with
      | nil => rfl
      | cons hp _ => exact absurd rfl hp
  | cons hp _ ih =>
      cases ht with
      | nil => exact absurd rfl hp
      | cons _ h => rw [ih h]

theorem readText_eq_none_iff : readText isEnd skip p len = none ↔ p = [] := by
  unfold readText
  split_ifs with hp
  · simp [hp]
  · simp [hp]

/-- There are as many calls as texts. -/
theorem ReadsAll.parsed (hskip : skip [] = []) (hlen : 0 ≤ len)
    (h : ReadsAll (fun p => readText isEnd skip p len) touch mem p ss) :
    ∃ ts, Parsed isEnd skip p ts ∧ ts.length = ss.length := by
  induction ss generalizing mem p with
  | nil =>
      obtain rfl := readText_eq_none_iff.1 h
      exact ⟨[], .nil, rfl⟩
  | cons s ss ih =>
      obtain ⟨r, hread, -, hrest⟩ := h
      have hr : readText isEnd skip p len = some r := hread
      have hp : p ≠ [] := by
        rintro rfl
        cases hr
      rw [readText_eq hskip hp hlen rfl, Option.some.injEq] at hr
      subst hr
      obtain ⟨ts, hts, hlength⟩ := ih hrest
      exact ⟨_, .cons hp hts, congrArg Nat.succ hlength⟩

/-- **When every call leaves its text.** -/
theorem readsAll_iff (hskip : skip [] = []) (h : Parsed isEnd skip p ss)
    (hss : ∀ s ∈ ss, nul ∉ s ∧ (s.length : ℤ) < len) :
    ReadsAll (fun p => readText isEnd skip p len) touch mem p ss ↔ AllFit touch len mem ss := by
  induction h generalizing mem with
  | nil => exact iff_of_true rfl trivial
  | cons hp _ ih =>
      obtain ⟨⟨hnul, hlt⟩, htail⟩ := List.forall_mem_cons.1 hss
      have hshort := readText_short hskip hp rfl hlt
      rw [ReadsAll, AllFit]
      constructor
      · rintro ⟨r, hr, hstring, hrest⟩
        rw [hshort, Option.some.injEq] at hr
        subst hr
        exact ⟨(stringAt_textCells_iff hnul hlt).1 hstring, (ih htail).1 hrest⟩
      · rintro ⟨hfits, hrest⟩
        exact ⟨_, hshort, (stringAt_textCells_iff hnul hlt).2 hfits, (ih htail).2 hrest⟩

end Calls

/-! ## Fields -/

/-- The separator separates: it is no zero, or there is nothing to separate. -/
def Separated (separator : Char) (ss : List (List Char)) : Prop :=
  separator = nul → ss = [] ∨ ∃ s, s ≠ [] ∧ ss = [s]

theorem foldl_sconfWrite (separator : Char) (ss : List (List Char)) (line : List Char) :
    ss.foldl (sconfWrite separator) line =
      line ++ ss.flatMap fun s => s ++ if separator = nul then [] else [separator] := by
  induction ss generalizing line with
  | nil => exact (List.append_nil line).symm
  | cons s ss ih =>
      rw [List.foldl_cons, ih, List.flatMap_cons, sconfWrite]
      simp only [List.append_assoc]

section Fields

variable {separator : Char} {ss ts : List (List Char)}

/-- The fields of a line that `sconf_write` has made. -/
theorem parsed_fields (hsep : separator ≠ nul) (hss : ∀ s ∈ ss, separator ∉ s) :
    Parsed (fun c => c = separator) (List.drop 1) (ss.foldl (sconfWrite separator) []) ss := by
  rw [foldl_sconfWrite, if_neg hsep, List.nil_append]
  induction ss with
  | nil => exact .nil
  | cons s ss ih =>
      obtain ⟨hs, htail⟩ := List.forall_mem_cons.1 hss
      rw [List.flatMap_cons]
      apply Parsed.append _ _ _ rfl _ (ih htail)
      · intro c hc
        rw [decide_eq_false_iff_not]
        rintro rfl
        exact hs hc
      · intro c hc
        rw [List.head?_cons, Option.mem_some_iff] at hc
        rw [hc, decide_eq_true_eq]
      · simp
      · intro hnil
        cases hnil

/-- Without a separator the line is one field. -/
theorem parsed_one {s : List Char} (hnul : nul ∉ s) (hne : s ≠ []) :
    Parsed (fun c => c = nul) (List.drop 1) s [s] := by
  have hone : Parsed (fun c => c = nul) (List.drop 1) (s ++ [] ++ []) [s] := by
    apply Parsed.append _ _ _ rfl (fun _ => rfl) .nil
    · intro c hc
      rw [decide_eq_false_iff_not]
      rintro rfl
      exact hnul hc
    · intro c hc
      cases hc
    · rwa [List.append_nil]
  rwa [List.append_nil, List.append_nil] at hone

theorem flatMap_eq_flatten (ss : List (List Char)) :
    (ss.flatMap fun s => s ++ []) = ss.flatten := by
  simp [List.flatMap_def]

/-- As many fields as strings are found only if the separator separates. -/
theorem separated_of_parsed (hss : ∀ s ∈ ss, nul ∉ s)
    (h : Parsed (fun c => c = separator) (List.drop 1) (ss.foldl (sconfWrite separator) []) ts)
    (hlength : ts.length = ss.length) : Separated separator ss := by
  rintro rfl
  rw [foldl_sconfWrite, if_pos rfl, List.nil_append, flatMap_eq_flatten] at h
  by_cases hnil : ss.flatten = []
  · rw [hnil] at h
    rw [h.unique .nil, List.length_nil] at hlength
    exact Or.inl (List.eq_nil_of_length_eq_zero hlength.symm)
  · have hnul : nul ∉ ss.flatten := by
      intro hmem
      obtain ⟨s, hs, hc⟩ := List.mem_flatten.1 hmem
      exact hss s hs hc
    rw [h.unique (parsed_one hnul hnil), List.length_singleton] at hlength
    obtain ⟨s, rfl⟩ := List.length_eq_one_iff.1 hlength.symm
    refine Or.inr ⟨s, ?_, rfl⟩
    rintro rfl
    exact hnil rfl

theorem parsed_of_separated (hss : ∀ s ∈ ss, separator ∉ s) (h : Separated separator ss) :
    Parsed (fun c => c = separator) (List.drop 1) (ss.foldl (sconfWrite separator) []) ss := by
  by_cases hsep : separator = nul
  · subst hsep
    rw [foldl_sconfWrite, if_pos rfl, List.nil_append]
    rcases h rfl with rfl | ⟨s, hne, rfl⟩
    · exact .nil
    · rw [List.flatMap_singleton, List.append_nil]
      exact parsed_one (hss s (List.mem_singleton_self s)) hne
  · exact parsed_fields hsep hss

end Fields

/-! ## Lines -/

/-- No line that ends with a carriage return is followed by an empty one that ends with a line
feed: the two would be one terminator. -/
def Unmerged (ls : List (List Char × Terminator)) : Prop :=
  ls.IsChain fun a b => ¬(a.2 = .cr ∧ b = ([], .lf))

section Lines

variable {l : List Char × Terminator} {ls : List (List Char × Terminator)}
  {ss ts : List (List Char)}

theorem linesOf_cons (l : List Char × Terminator) (ls : List (List Char × Terminator)) :
    linesOf (l :: ls) = l.1 ++ l.2.chars ++ linesOf ls := List.flatMap_cons

theorem afterBreak_cr {rest : List Char} (h : rest.head? ≠ some '\n') :
    afterBreak ('\r' :: rest) = rest := by
  unfold afterBreak
  split
  · next heq =>
      cases heq
      exact absurd rfl h
  · next heq =>
      cases heq
      rfl
  · next heq => cases heq

/-- Lines start with a line feed only if the first is empty. -/
theorem head?_linesOf (hls : ∀ l ∈ ls, Sconf.IsLine l.1) (h : (linesOf ls).head? = some '\n') :
    ls.head? = some ([], .lf) := by
  cases ls with
  | nil => cases h
  | cons l ls =>
      obtain ⟨s, t⟩ := l
      rw [linesOf_cons] at h
      cases s with
      | nil =>
          cases t with
          | lf => rfl
          | cr => cases h
          | crlf => cases h
      | cons c s =>
          rw [List.cons_append, List.cons_append, List.head?_cons, Option.some.injEq] at h
          have hbreak := hls _ (List.mem_cons_self ..) c (List.mem_cons_self ..)
          rw [h] at hbreak
          cases hbreak

/-- The terminator of a line is skipped. -/
theorem afterBreak_chars (hls : ∀ l ∈ ls, Sconf.IsLine l.1)
    (h : ∀ b ∈ ls.head?, ¬(l.2 = .cr ∧ b = ([], .lf))) :
    afterBreak (l.2.chars ++ linesOf ls) = linesOf ls := by
  obtain ⟨s, t⟩ := l
  cases t with
  | lf => rfl
  | cr =>
      apply afterBreak_cr
      intro hhead
      exact h _ (head?_linesOf hls hhead) ⟨rfl, rfl⟩
  | crlf => rfl

theorem isBreak_of_mem_chars {t : Terminator} {c : Char} (h : c ∈ t.chars.head?) :
    isBreak c = true := by
  cases t <;> cases h <;> rfl

/-- One line more. -/
theorem parsed_cons (hl : Sconf.IsLine l.1) (hls : ∀ l ∈ ls, Sconf.IsLine l.1)
    (hhead : ∀ b ∈ ls.head?, ¬(l.2 = .cr ∧ b = ([], .lf)))
    (h : Parsed isBreak afterBreak (linesOf ls) ss) :
    Parsed isBreak afterBreak (linesOf (l :: ls)) (l.1 :: ss) := by
  rw [linesOf_cons]
  have hchars : l.2.chars ≠ [] := by cases l.2 <;> simp [Terminator.chars]
  apply Parsed.append hl (fun c => isBreak_of_mem_chars) _ (afterBreak_chars hls hhead) _ h
  · intro hnil
    exact hchars (List.append_eq_nil_iff.1 hnil).2
  · intro hnil
    exact absurd hnil hchars

/-- Lines whose terminators stay apart are found. -/
theorem parsed_lines (hls : ∀ l ∈ ls, Sconf.IsLine l.1) (h : Unmerged ls) :
    Parsed isBreak afterBreak (linesOf ls) (ls.map Prod.fst) := by
  induction ls with
  | nil => exact .nil
  | cons l ls ih =>
      obtain ⟨hl, htail⟩ := List.forall_mem_cons.1 hls
      obtain ⟨hhead, hchain⟩ := List.isChain_cons.1 h
      exact parsed_cons hl htail hhead (ih htail hchain)

/-- A carriage return and a line feed are read as one terminator. -/
theorem parsed_merged {s : List Char} (hs : Sconf.IsLine s)
    (h : Parsed isBreak afterBreak (linesOf ls) ss) :
    Parsed isBreak afterBreak (linesOf ((s, .cr) :: ([], .lf) :: ls)) (s :: ss) := by
  have hmerged : linesOf ((s, .cr) :: ([], .lf) :: ls) = s ++ ['\r', '\n'] ++ linesOf ls := by
    rw [linesOf_cons, linesOf_cons]
    simp [Terminator.chars]
  rw [hmerged]
  apply Parsed.append hs _ _ rfl _ h
  · intro c hc
    cases hc
    rfl
  · simp
  · intro hnil
    cases hnil

/-- There are no more lines than were written, and as many only if the terminators stay apart. -/
theorem exists_parsed (hls : ∀ l ∈ ls, Sconf.IsLine l.1) :
    ∃ ts, Parsed isBreak afterBreak (linesOf ls) ts ∧ ts.length ≤ ls.length ∧
      (ts.length = ls.length → Unmerged ls) := by
  induction ls using List.twoStepInduction with
  | nil => exact ⟨[], .nil, le_rfl, fun _ => List.isChain_nil⟩
  | singleton l =>
      exact ⟨_, parsed_lines hls (List.isChain_singleton l), le_of_eq rfl,
        fun _ => List.isChain_singleton l⟩
  | cons_cons l m ls ihrest ih =>
      obtain ⟨hl, htail⟩ := List.forall_mem_cons.1 hls
      by_cases hmerge : l.2 = .cr ∧ m = ([], .lf)
      · obtain ⟨s, t⟩ := l
        obtain ⟨rfl, rfl⟩ := hmerge
        obtain ⟨ts, hts, hle, -⟩ := ihrest (List.forall_mem_cons.1 htail).2
        refine ⟨s :: ts, parsed_merged hl hts, ?_, fun hlength => ?_⟩
        · simp only [List.length_cons]
          omega
        · simp only [List.length_cons] at hlength
          omega
      · have hhead : ∀ b ∈ (m :: ls).head?, ¬(l.2 = .cr ∧ b = ([], .lf)) := by
          intro b hb
          cases hb
          exact hmerge
        obtain ⟨ts, hts, hle, hchain⟩ := ih m htail
        refine ⟨l.1 :: ts, parsed_cons hl htail hhead hts, Nat.succ_le_succ hle, fun hlength => ?_⟩
        exact List.isChain_cons.2 ⟨hhead, hchain (Nat.succ.inj hlength)⟩

end Lines

/-! ## The readers -/

section Readers

variable {mem : ℤ → Char} {touch : (ℤ → Char) → ℤ → Char} {len : ℤ}

theorem fieldOf_eq (separator : Char) (line : List Char) :
    fieldOf separator line = line.takeWhile fun c => !decide (c = separator) := by
  simp only [fieldOf, ne_eq, decide_not]

theorem afterField_eq (separator : Char) (line : List Char) :
    afterField separator line = (line.dropWhile fun c => !decide (c = separator)).drop 1 := by
  simp only [afterField, ne_eq, decide_not]

theorem sconfReadline_eq (hlen : 1 ≤ len) (buf : List Char) :
    sconfReadline buf len = readText isBreak afterBreak buf len := if_neg (by omega)

/-- When a call of `sconf_read` reads its field. -/
theorem sconfRead_field_iff (hlen : 1 ≤ len) (separator : Char) {line : List Char}
    (hnul : nul ∉ line) :
    ReadsExactly mem len (fieldOf separator line) (afterField separator line)
    (sconfRead separator line len) ↔
      line ≠ [] ∧ Fits mem len (fieldOf separator line).length := by
  rw [fieldOf_eq, afterField_eq]
  exact readText_exact_iff rfl hlen hnul

/-- When a call of `sconf_readline` reads its line. -/
theorem sconfReadline_line_iff (hlen : 1 ≤ len) {buf : List Char} (hnul : nul ∉ buf) :
    ReadsExactly mem len (lineOf buf) (afterLine buf) (sconfReadline buf len) ↔
      buf ≠ [] ∧ Fits mem len (lineOf buf).length := by
  rw [sconfReadline_eq hlen]
  exact readText_exact_iff rfl hlen hnul

/-- When the fields of a line that `sconf_write` has made are read. -/
theorem readsAll_fields_iff (hlen : 1 ≤ len) {separator : Char} {ss : List (List Char)}
    (hss : ∀ s ∈ ss, separator ∉ s ∧ nul ∉ s ∧ (s.length : ℤ) < len) :
    ReadsAll (fun p => sconfRead separator p len) touch mem (ss.foldl (sconfWrite separator) [])
    ss ↔
      Separated separator ss ∧ AllFit touch len mem ss := by
  constructor
  · intro h
    obtain ⟨ts, hts, hlength⟩ := ReadsAll.parsed rfl (by omega) h
    have hsep := separated_of_parsed (fun s hs => (hss s hs).2.1) hts hlength
    have hparsed := parsed_of_separated (fun s hs => (hss s hs).1) hsep
    exact ⟨hsep, (readsAll_iff rfl hparsed fun s hs => (hss s hs).2).1 h⟩
  · rintro ⟨hsep, hfit⟩
    have hparsed := parsed_of_separated (fun s hs => (hss s hs).1) hsep
    exact (readsAll_iff rfl hparsed fun s hs => (hss s hs).2).2 hfit

/-- When the lines of a file are read. -/
theorem readsAll_lines_iff (hlen : 1 ≤ len) {ls : List (List Char × Terminator)}
    (hls : ∀ l ∈ ls, Sconf.IsLine l.1 ∧ nul ∉ l.1 ∧ (l.1.length : ℤ) < len) :
    ReadsAll (fun p => sconfReadline p len) touch mem (linesOf ls) (ls.map Prod.fst) ↔
      Unmerged ls ∧ AllFit touch len mem (ls.map Prod.fst) := by
  have hlines : ∀ l ∈ ls, Sconf.IsLine l.1 := fun l hl => (hls l hl).1
  have hshort : ∀ s ∈ ls.map Prod.fst, nul ∉ s ∧ (s.length : ℤ) < len := by
    intro s hs
    obtain ⟨l, hl, rfl⟩ := List.mem_map.1 hs
    exact (hls l hl).2
  rw [funext fun p => sconfReadline_eq hlen p]
  constructor
  · intro h
    obtain ⟨us, hus, hlength⟩ := ReadsAll.parsed rfl (by omega) h
    obtain ⟨ts, hts, -, hchain⟩ := exists_parsed hlines
    rw [hus.unique hts, List.length_map] at hlength
    have hapart := hchain hlength
    exact ⟨hapart, (readsAll_iff rfl (parsed_lines hlines hapart) hshort).1 h⟩
  · rintro ⟨hapart, hfit⟩
    exact (readsAll_iff rfl (parsed_lines hlines hapart) hshort).2 hfit

/-- A caller that clears the buffer before each call needs room for twice the text. -/
theorem allFit_cleared (htouch : ∀ (mem : ℤ → Char) (i : ℤ), 0 ≤ i → i < len → touch mem i = nul)
    (ss : List (List Char)) : AllFit touch len mem ss ↔ ∀ s ∈ ss, 2 * (s.length : ℤ) < len := by
  induction ss generalizing mem with
  | nil => exact iff_of_true trivial fun s hs => absurd hs List.not_mem_nil
  | cons s ss ih =>
      rw [AllFit, ih, List.forall_mem_cons]
      refine and_congr_left fun _ => ⟨fun h => h.1, fun h => ⟨h, Or.inr ?_⟩⟩
      exact htouch _ _ (by omega) (by omega)

end Readers

/-- **When the readers of `sconf.c` read exactly**: a call on a line that is not empty if the text
fits, and calls one after the other if every text fits when its turn has come and the terminators
can be told apart. -/
theorem sconf_exact_iff {len : ℤ} (hlen : 1 ≤ len) (mem : ℤ → Char)
    (touch : (ℤ → Char) → ℤ → Char) :
    (∀ separator line, nul ∉ line →
      (ReadsExactly mem len (fieldOf separator line) (afterField separator line)
        (sconfRead separator line len) ↔
        line ≠ [] ∧ Fits mem len (fieldOf separator line).length)) ∧
    (∀ buf, nul ∉ buf →
      (ReadsExactly mem len (lineOf buf) (afterLine buf) (sconfReadline buf len) ↔
        buf ≠ [] ∧ Fits mem len (lineOf buf).length)) ∧
    (∀ separator ss, (∀ s ∈ ss, separator ∉ s ∧ nul ∉ s ∧ (s.length : ℤ) < len) →
      (ReadsAll (fun p => sconfRead separator p len) touch mem (ss.foldl (sconfWrite separator) [])
        ss ↔
        Separated separator ss ∧ AllFit touch len mem ss)) ∧
    (∀ ls, (∀ l ∈ ls, Sconf.IsLine l.1 ∧ nul ∉ l.1 ∧ (l.1.length : ℤ) < len) →
      (ReadsAll (fun p => sconfReadline p len) touch mem (linesOf ls) (ls.map Prod.fst) ↔
        Unmerged ls ∧ AllFit touch len mem (ls.map Prod.fst))) := by
  refine ⟨fun separator line hnul => ?_, fun buf hnul => ?_, fun separator ss hss => ?_,
    fun ls hls => ?_⟩
  · exact sconfRead_field_iff hlen separator hnul
  · exact sconfReadline_line_iff hlen hnul
  · exact readsAll_fields_iff hlen hss
  · exact readsAll_lines_iff hlen hls

/-- `root,x` in a cleared buffer of sixteen bytes; and line by line, each time in a cleared one. -/
theorem sconf_exact_root :
    ReadsExactly (fun _ => nul) 16 ['r', 'o', 'o', 't'] ['x']
        (sconfRead ',' ['r', 'o', 'o', 't', ',', 'x'] 16) ∧
      ReadsAll (fun p => sconfRead ',' p 16) (fun _ _ => nul) (fun _ => nul)
      ['r', 'o', 'o', 't', ',', 'x', ',']
        [['r', 'o', 'o', 't'], ['x']] ∧
      ReadsAll (fun p => sconfReadline p 16) (fun _ _ => nul) (fun _ => nul)
      ['a', '\r', '\n', 'b', '\n']
        [['a'], ['b']] := by
  have hlen : (1 : ℤ) ≤ 16 := by decide
  have h := sconf_exact_iff hlen (fun _ => nul) (fun _ _ => nul)
  refine ⟨?_, ?_, ?_⟩
  · exact (h.1 ',' ['r', 'o', 'o', 't', ',', 'x'] (by decide)).2 ⟨by decide, by decide, Or.inr rfl⟩
  · refine (h.2.2.1 ',' [['r', 'o', 'o', 't'], ['x']] (by decide)).2
      ⟨fun hnul => absurd hnul (by decide), ?_⟩
    exact (allFit_cleared (fun _ _ _ _ => rfl) _).2 (by decide)
  · have hlines : ∀ l ∈ [(['a'], Terminator.crlf), (['b'], Terminator.lf)],
        Sconf.IsLine l.1 ∧ nul ∉ l.1 ∧ (l.1.length : ℤ) < 16 := by
      intro l hl
      unfold Sconf.IsLine
      fin_cases hl
      · exact ⟨by simp [isBreak], by decide, by decide⟩
      · exact ⟨by simp [isBreak], by decide, by decide⟩
    refine (h.2.2.2 _ hlines).2 ⟨?_, ?_⟩
    · exact List.isChain_cons.2 ⟨by decide, List.isChain_singleton _⟩
    · exact (allFit_cleared (fun _ _ _ _ => rfl) _).2 (by decide)

/-- `abc` in a cleared buffer of four bytes: the zero is put at its start. -/
theorem sconf_not_exact : ¬∀ (separator : Char) (line : List Char) (len : ℤ) (mem : ℤ → Char),
    nul ∉ line → 1 ≤ len →
      ReadsExactly mem len (fieldOf separator line) (afterField separator line)
        (sconfRead separator line len) := by
  intro h
  have habc := h ',' ['a', 'b', 'c'] 4 (fun _ => nul) (by decide) (by decide)
  have hfits := ((sconfRead_field_iff (by decide) ',' (by decide)).1 habc).2
  exact absurd hfits.1 (by decide)

/-! ## Cleared buffers -/

section Cleared

variable {s : List Char} {len : ℕ}

/-- What is in a cleared buffer after a call, unless it has written outside of it. -/
def bytes (len : ℕ) (r : Read) : Option (List Char) :=
  if ∀ w ∈ r.written, 0 ≤ w.1 ∧ w.1 < (len : ℤ) then
    some ((List.range len).map fun i : ℕ => store (fun _ => nul) r.written i)
  else none

theorem bytes_textCells (rest : List Char) (hlt : s.length < len) :
    bytes len ⟨rest, textCells len s⟩ = Sconf.bufferOf s len := by
  rw [bytes, if_pos (textCells_inside (by omega)), Sconf.bufferOf, if_pos hlt, Option.some.injEq,
    store_textCells]
  apply List.ext_getElem
  · rw [List.length_map, List.length_range, List.length_set, List.length_append,
      List.length_replicate]
    omega
  · intro i h1 h2
    rw [List.getElem_map, List.getElem_range, List.getElem_set]
    rw [List.length_map, List.length_range] at h1
    by_cases hzero : len - s.length - 1 = i
    · have hat : (i : ℤ) = len - s.length - 1 := by omega
      rw [if_pos hzero, hat, Function.update_self]
    · rw [if_neg hzero, Function.update_of_ne (by omega), List.getElem_append]
      split_ifs with hi
      · exact store_mapIdx _ hi
      · rw [store_mapIdx_of_le _ (by omega), List.getElem_replicate]

/-- A reader on a cleared buffer. -/
theorem readText_cleared {isEnd : Char → Bool} {skip : List Char → List Char} {p : List Char}
    (hskip : skip [] = []) (hp : p ≠ []) (len : ℕ) :
    (readText isEnd skip p len).map (fun r => (bytes len r, r.rest)) =
      some (Sconf.bufferOf (p.takeWhile fun c => !isEnd c) len,
        skip (p.dropWhile fun c => !isEnd c)) := by
  obtain ⟨s, hs⟩ : ∃ s, (p.takeWhile fun c => !isEnd c) = s := ⟨_, rfl⟩
  rw [hs]
  rcases lt_or_ge s.length len with hlt | hge
  · rw [readText_short hskip hp hs (by omega), Option.map_some, bytes_textCells _ hlt]
  · rw [readText_eq hskip hp (by omega) hs, Option.map_some, Sconf.bufferOf_eq_none hge, bytes,
      if_neg]
    intro hinside
    have hzero := hinside _ (List.mem_append_right _ (List.mem_singleton_self _))
    simp only at hzero
    omega

/-- **On a cleared buffer `sconf_read` is the reader of the account file.** -/
theorem sconfRead_cleared {line : List Char} (hline : line ≠ []) (len : ℕ) :
    (sconfRead ',' line len).map (fun r => (bytes len r, r.rest)) =
      some (Sconf.sconfRead line len) := by
  rw [sconfRead, readText_cleared rfl hline, ← fieldOf_eq, ← afterField_eq]
  rfl

/-- **On a cleared buffer `sconf_readline` is the reader of the account file.** -/
theorem sconfReadline_cleared {buf : List Char} (hbuf : buf ≠ []) (hlen : 0 < len) :
    (sconfReadline buf len).map (fun r => (bytes len r, r.rest)) =
      some (Sconf.sconfReadline buf len) := by
  rw [sconfReadline_eq (by omega), readText_cleared rfl hbuf]
  rfl

end Cleared

theorem sconfRead_cleared_field : (sconfRead ',' ['a', ','] 2).map (fun r => (bytes 2 r, r.rest)) =
    some (Sconf.sconfRead ['a', ','] 2) := sconfRead_cleared (by decide) 2

theorem sconfReadline_cleared_line :
    (sconfReadline ['a', '\n'] 2).map (fun r => (bytes 2 r, r.rest)) =
    some (Sconf.sconfReadline ['a', '\n'] 2) := sconfReadline_cleared (by decide) (by decide)

end SconfRead
end LightOS
