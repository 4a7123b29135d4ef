import LightOS.Kern.VsprintfBasic

/-!
# The bound of `vsnprintf`

`vsnprintf` counts its bound down once a round, while a round writes as many characters as the
conversion asks for, and the zero byte comes on top.

* `number_length`, `emit_length` — how many characters a conversion writes.
* `formatLoop_eq`, `rounds_take`, `rounds_stable` — the rounds of `vsnprintf` are the first rounds
  of `vsprintf`.
* `vsnprintf_right_iff` — when the bound holds and the string is the right part of the other.
-/

namespace LightOS
namespace Vsprintf

/-! ## The size of a conversion -/

/-- The number of digits of a number that is divided as an `unsigned long`. -/
def digitCount (base : ℕ) (num : ℤ) : ℕ :=
  if num = 0 then 1 else (Nat.digits base (num % 4294967296).toNat).length

/-- What a number takes at least: the sign, the mark of the base, and the digits or the precision.
-/
def numberSize (num : ℤ) (base : ℕ) (precision : ℤ) (flags : Flags) : ℤ :=
  (if flags.sign ∧ num < 0 ∨ flags.plus ∨ flags.space then 1 else 0) +
    (if flags.special ∧ base = 8 then 1 else if flags.special ∧ base = 16 then 2 else 0) +
      max (digitCount base (if flags.sign ∧ num < 0 then -num else num) : ℤ) precision

/-- The number of characters that a directive asks for. -/
def Directive.size (d : Directive) : ℕ :=
  match d.conv with
  | .char _ => (max d.width 1).toNat
  | .string s =>
      (max d.width (if d.precision < 0 then s.length else min (s.length : ℤ) d.precision)).toNat
  | .number num base => (max d.width (numberSize num base d.precision d.flags)).toNat
  | .count _ => 0
  | .text s => s.length

theorem signed_eq_some {v w : ℤ} (h : signed v = some w) : w = v := by
  unfold signed at h
  split_ifs at h
  exact (Option.some.inj h).symm

theorem pad_eq_some {c : Char} {size size' : ℤ} {l : List Char} (h : pad c size = some (l, size')) :
    l.length = size.toNat ∧ size' = min size 0 - 1 := by
  unfold pad at h
  obtain ⟨v, hv, heq⟩ := Option.map_eq_some_iff.1 h
  rw [signed_eq_some hv] at heq
  obtain ⟨rfl, rfl⟩ := Prod.mk.injEq .. ▸ heq
  exact ⟨List.length_replicate, rfl⟩

theorem padIf_eq_some {b : Bool} {c : Char} {size size' : ℤ} {l : List Char}
    (h : padIf b c size = some (l, size')) :
    (l.length : ℤ) = (if b then max size 0 else 0) ∧
      size' = (if b then min size 0 - 1 else size) := by
  unfold padIf at h
  split_ifs at h ⊢ with hb
  · obtain ⟨hlen, hsize⟩ := pad_eq_some h
    omega
  · obtain ⟨rfl, rfl⟩ := Prod.mk.injEq .. ▸ Option.some.inj h
    exact ⟨rfl, rfl⟩

theorem absNum_eq_some {type : Flags} {num num' : ℤ} (h : absNum type num = some num') :
    num' = if type.sign ∧ num < 0 then -num else num := by
  unfold absNum at h
  split_ifs at h ⊢
  · exact signed_eq_some h
  · exact (Option.some.inj h).symm

theorem signChars_length (type : Flags) (num : ℤ) :
    (signChars type num).length = if type.sign ∧ num < 0 ∨ type.plus ∨
      type.space then 1 else 0 := by
  unfold signChars
  by_cases hneg : type.sign ∧ num < 0
  · simp [hneg]
  · cases type.plus <;> cases type.space <;> simp [hneg]

theorem specialChars_length (type : Flags) (base : ℕ) : (specialChars type base).length =
    if type.special ∧ base = 8 then 1 else if type.special ∧ base = 16 then 2 else 0 := by
  unfold specialChars
  cases type.special
  · simp
  · by_cases h8 : base = 8
    · simp [h8]
    · by_cases h16 : base = 16 <;> simp [h8, h16]

theorem tmpDigits_length (small : Bool) (base : ℕ) (num : ℤ) :
    (tmpDigits small base num).length = digitCount base num := by
  unfold tmpDigits digitCount
  split_ifs
  · rfl
  · exact List.length_map _

/-- **The length of a number** is the field width, or what it takes if that is more. -/
theorem number_length {num : ℤ} {base : ℕ} {size precision : ℤ} {type : Flags} {l : List Char}
    (h : number num base size precision type = some l) :
    (l.length : ℤ) = max size (numberSize num base precision type) := by
  unfold number at h
  simp only [Option.bind_eq_bind, Option.bind_eq_some_iff] at h
  obtain ⟨num', hnum, size1, h1, size2, h2, size3, h3, ⟨before, size4⟩, hbefore, ⟨fill, size5⟩,
    hfill, ⟨behind, size6⟩, hbehind, hl⟩ := h
  have hsize1 := signed_eq_some h1
  have hsize2 := signed_eq_some h2
  have hsize3 := signed_eq_some h3
  obtain ⟨hbefore, hsize4⟩ := padIf_eq_some hbefore
  obtain ⟨hfill, hsize5⟩ := padIf_eq_some hfill
  obtain ⟨hbehind, -⟩ := pad_eq_some hbehind
  have hneed : numberSize num base precision type = (signChars (clearZeropad type) num).length +
      (specialChars (clearZeropad type) base).length +
        max ((tmpDigits (clearZeropad type).small base num').length : ℤ) precision := by
    rw [signChars_length, specialChars_length, tmpDigits_length, absNum_eq_some hnum]
    unfold numberSize clearZeropad
    push_cast
    rfl
  have hlen := congrArg List.length (Option.some.inj hl)
  simp only [List.length_append, List.length_replicate, List.length_reverse] at hlen
  rw [hneed, ← hlen]
  push_cast
  simp only [hbefore, hfill, hbehind]
  -- exactly one of the three loops comes to a positive size
  have hleft : (clearZeropad type).left = type.left := rfl
  simp only [hleft] at hsize4 hsize5 ⊢
  generalize type.left = left at hsize4 hsize5 ⊢
  generalize (clearZeropad type).zeropad = zeropad at hsize4 ⊢
  cases left <;> cases zeropad <;>
    simp only [Bool.not_true, Bool.not_false, Bool.and_true, Bool.and_false, Bool.false_eq_true,
      if_true, if_false]
      at hsize4 hsize5 ⊢ <;> omega

theorem padded_length (d : Directive) (text : List Char) :
    ((padded d text).length : ℤ) = max d.width text.length := by
  unfold padded
  split_ifs <;> simp only [List.length_append, List.length_replicate] <;> omega

/-- **The length of what a directive writes** is what it asks for. -/
theorem emit_length {d : Directive} {piece : List Char} (h : emit d = some piece) :
    piece.length = d.size := by
  unfold emit at h
  unfold Directive.size
  cases hconv : d.conv with
  | char c =>
    rw [hconv] at h
    cases h
    have hlen := padded_length d [c]
    simp only [List.length_singleton] at hlen ⊢
    omega
  | string s =>
    rw [hconv] at h
    obtain ⟨len, hlen, rfl⟩ := Option.map_eq_some_iff.1 h
    rw [signed_eq_some hlen]
    have hpadded :=
      padded_length d (s.take (if d.precision < 0 then
        (s.length : ℤ) else min s.length d.precision).toNat)
    rw [List.length_take] at hpadded
    simp only
    split_ifs at hpadded ⊢ <;> omega
  | number num base =>
    rw [hconv] at h
    have hlen := number_length h
    simp only
    omega
  | count ip =>
    rw [hconv] at h
    cases h
    rfl
  | text s =>
    rw [hconv] at h
    cases h
    rfl

/-! ## A round takes characters of the format -/

theorem skipAtoi_length :
    ∀ (rest : List Char) (i : ℤ) {p : ℤ × List Char}, skipAtoi i rest = some p →
    p.2.length ≤ rest.length
  | [], i, p, h => by
      cases h
      exact le_rfl
  | c :: rest, i, p, h => by
      unfold skipAtoi at h
      split_ifs at h
      · simp only [Option.bind_eq_bind, Option.bind_eq_some_iff] at h
        obtain ⟨tens, -, sum, -, i', -, h⟩ := h
        exact (skipAtoi_length rest i' h).trans (Nat.le_succ _)
      · cases h
        exact le_rfl

theorem readFlags_length (rest : List Char) (flags : Flags) :
    (readFlags rest flags).2.length ≤ rest.length := by
  fun_induction readFlags rest flags with
  | case1 rest flags ih => exact ih.trans (Nat.le_succ _)
  | case2 rest flags ih => exact ih.trans (Nat.le_succ _)
  | case3 rest flags ih => exact ih.trans (Nat.le_succ _)
  | case4 rest flags ih => exact ih.trans (Nat.le_succ _)
  | case5 rest flags ih => exact ih.trans (Nat.le_succ _)
  | case6 => exact le_rfl

theorem readWidth_length {args : ℕ → Word} {flags flags' : Flags} {k k' : ℕ}
    {rest rest' : List Char} {width : ℤ}
    (h : readWidth args flags k rest = some (width, flags', rest', k')) :
    rest'.length ≤ rest.length := by
  unfold readWidth at h
  split at h
  · simp only at h
    split_ifs at h
    · obtain ⟨v, -, heq⟩ := Option.map_eq_some_iff.1 h
      cases heq
      exact Nat.le_succ _
    · cases h
      exact Nat.le_succ _
  · split_ifs at h
    · obtain ⟨p, hp, heq⟩ := Option.map_eq_some_iff.1 h
      cases heq
      exact skipAtoi_length _ _ hp
    · cases h
      exact le_rfl
  · cases h
    exact le_rfl

theorem readPrecision_length {args : ℕ → Word} {k k' : ℕ} {rest rest' : List Char} {precision : ℤ}
    (h : readPrecision args k rest = some (precision, rest', k')) : rest'.length ≤ rest.length := by
  unfold readPrecision at h
  split at h
  · cases h
    exact (Nat.le_succ _).trans (Nat.le_succ _)
  · split_ifs at h
    · obtain ⟨p, hp, heq⟩ := Option.map_eq_some_iff.1 h
      cases heq
      exact (skipAtoi_length _ _ hp).trans (Nat.le_succ _)
    · cases h
      exact Nat.le_succ _
  · cases h
    exact Nat.zero_le _
  · cases h
    exact le_rfl

theorem skipQualifier_length (rest : List Char) : (skipQualifier rest).length ≤ rest.length := by
  unfold skipQualifier
  split <;> first | exact Nat.le_succ _ | exact le_rfl

theorem readConv_length {str : Word → Option (List Char)} {args : ℕ → Word} {flags : Flags}
    {width precision : ℤ} {k k' : ℕ} {rest rest' : List Char} {d : Directive}
    (h : readConv str args flags width precision k rest = some (d, rest', k')) :
    rest'.length ≤ rest.length := by
  unfold readConv at h
  split at h
  case h_2 =>
    obtain ⟨s, -, heq⟩ := Option.map_eq_some_iff.1 h
    cases heq
    exact Nat.le_succ _
  case h_4 =>
    split_ifs at h
    · cases h
      exact Nat.le_succ _
    · cases h
      exact Nat.le_succ _
  case h_13 =>
    cases h
    exact le_rfl
  all_goals
    cases h
    exact Nat.le_succ _

theorem readDirective_length {str : Word → Option (List Char)} {args : ℕ → Word} {k k' : ℕ}
    {c : Char}
    {rest rest' : List Char} {d : Directive} (h : readDirective str args k c rest =
      some (d, rest', k')) :
    rest'.length ≤ rest.length := by
  unfold readDirective at h
  split_ifs at h
  · cases h
    exact le_rfl
  · simp only [Option.bind_eq_bind, Option.bind_eq_some_iff] at h
    obtain ⟨⟨width, flags, rest1, k1⟩, hwidth, ⟨precision, rest2, k2⟩, hprecision, hconv⟩ := h
    calc rest'.length ≤ (skipQualifier rest2).length := readConv_length hconv
      _ ≤ rest2.length := skipQualifier_length rest2
      _ ≤ rest1.length := readPrecision_length hprecision
      _ ≤ (readFlags rest noFlags).2.length := readWidth_length hwidth
      _ ≤ rest.length := readFlags_length rest noFlags

/-! ## The rounds -/

section Rounds

variable (str : Word → Option (List Char)) (args : ℕ → Word)

/-- The rounds of the loop, `n` at most: what each is to write, and what it writes. -/
def rounds : ℕ → List Char → ℕ → Option (List (Directive × List Char))
  | 0, _, _ => some []
  | _ + 1, [], _ => some []
  | n + 1, c :: fmt, k => do
      let (d, rest, k) ← readDirective str args k c fmt
      let piece ← emit d
      let l ← rounds n rest k
      some ((d, piece) :: l)

/-- The directives of a format, read without anything being written. -/
def readAll : ℕ → List Char → ℕ → Option (List Directive)
  | 0, _, _ => some []
  | _ + 1, [], _ => some []
  | n + 1, c :: fmt, k => do
      let (d, rest, k) ← readDirective str args k c fmt
      let l ← readAll n rest k
      some (d :: l)

/-- The directives of a format. -/
def directives (fmt : List Char) : Option (List Directive) := readAll str args fmt.length fmt 0

/-- The output after some rounds. -/
def Output.putAll (out : Output) (l : List (Directive × List Char)) : Output :=
  l.foldl (fun out p => out.put p.1 p.2) out

/-- What some rounds write to the buffer. -/
def written (l : List (Directive × List Char)) : List Char := (l.map Prod.snd).flatten

theorem putAll_text (l : List (Directive × List Char)) (out : Output) :
    (out.putAll l).text = out.text ++ written l := by
  induction l generalizing out with
  | nil => exact (List.append_nil _).symm
  | cons p l ih =>
    change ((out.put p.1 p.2).putAll l).text = _
    rw [ih]
    simp [written, Output.put]

variable {str args}

theorem formatLoop_eq (n : ℕ) (fmt : List Char) (k : ℕ) (out : Output) :
    formatLoop str args n fmt k out = (rounds str args n fmt k).map out.putAll := by
  induction n generalizing fmt k out with
  | zero => rfl
  | succ n ih =>
    cases fmt with
    | nil => rfl
    | cons c fmt =>
      unfold formatLoop rounds
      cases hread : readDirective str args k c fmt with
      | none => rfl
      | some r =>
        obtain ⟨d, rest, k'⟩ := r
        simp only [Option.bind_eq_bind, Option.bind_some]
        cases hemit : emit d with
        | none => rfl
        | some piece =>
          simp only [Option.bind_some, ih]
          cases hrounds : rounds str args n rest k' with
          | none => rfl
          | some l => rfl

/-- One more round. -/
theorem rounds_succ {n : ℕ} {c : Char} {fmt : List Char} {k : ℕ} {l : List (Directive × List Char)}
    (h : rounds str args (n + 1) (c :: fmt) k = some l) : ∃ d rest k' piece l',
      readDirective str args k c fmt = some (d, rest, k') ∧ emit d = some piece ∧
        rounds str args n rest k' = some l' ∧ l = (d, piece) :: l' := by
  unfold rounds at h
  simp only [Option.bind_eq_bind, Option.bind_eq_some_iff] at h
  obtain ⟨⟨d, rest, k'⟩, hread, piece, hemit, l', hrounds, heq⟩ := h
  exact ⟨d, rest, k', piece, l', hread, hemit, hrounds, (Option.some.inj heq).symm⟩

theorem rounds_of {n : ℕ} {c : Char} {fmt rest : List Char} {k k' : ℕ} {d : Directive}
    {piece : List Char}
    {l : List (Directive × List Char)} (hread : readDirective str args k c fmt = some (d, rest, k'))
    (hemit : emit d = some piece) (hrounds : rounds str args n rest k' = some l) :
    rounds str args (n + 1) (c :: fmt) k = some ((d, piece) :: l) := by
  unfold rounds
  simp only [hread, hemit, hrounds, Option.bind_eq_bind, Option.bind_some]

/-- **Fewer rounds are the first rounds.** -/
theorem rounds_take {n m : ℕ} (hnm : n ≤ m) {fmt : List Char} {k : ℕ}
    {l : List (Directive × List Char)}
    (h : rounds str args m fmt k = some l) : rounds str args n fmt k = some (l.take n) := by
  induction m generalizing n fmt k l with
  | zero =>
    obtain rfl := Nat.le_zero.1 hnm
    rfl
  | succ m ih =>
    cases n with
    | zero => rfl
    | succ n =>
      cases fmt with
      | nil =>
        cases h
        rfl
      | cons c fmt =>
        obtain ⟨d, rest, k', piece, l', hread, hemit, hrounds, rfl⟩ := rounds_succ h
        exact rounds_of hread hemit (ih (Nat.le_of_succ_le_succ hnm) hrounds)

theorem rounds_length {n : ℕ} {fmt : List Char} {k : ℕ} {l : List (Directive × List Char)}
    (h : rounds str args n fmt k = some l) : l.length ≤ n := by
  have htake := rounds_take le_rfl h
  rw [h] at htake
  have hlen := congrArg List.length (Option.some.inj htake)
  rw [List.length_take] at hlen
  omega

/-- **As many rounds as there are characters are enough.** -/
theorem rounds_stable {n m : ℕ} {fmt : List Char} {k : ℕ} {l : List (Directive × List Char)}
    (hlen : fmt.length ≤ m) (h : rounds str args n fmt k = some l) (hn : fmt.length ≤ n) :
    rounds str args m fmt k = some l := by
  induction n generalizing m fmt k l with
  | zero =>
    obtain rfl := List.length_eq_zero_iff.1 (Nat.le_zero.1 hn)
    cases h
    cases m <;> rfl
  | succ n ih =>
    cases fmt with
    | nil =>
      cases h
      cases m <;> rfl
    | cons c fmt =>
      obtain ⟨d, rest, k', piece, l', hread, hemit, hrounds, rfl⟩ := rounds_succ h
      rw [List.length_cons] at hlen hn
      obtain ⟨m, rfl⟩ : ∃ m', m = m' + 1 := ⟨m - 1, by omega⟩
      have hrest := readDirective_length hread
      exact rounds_of hread hemit (ih (by omega) hrounds (by omega))

theorem readAll_of_rounds {n : ℕ} {fmt : List Char} {k : ℕ} {l : List (Directive × List Char)}
    (h : rounds str args n fmt k = some l) : readAll str args n fmt k = some (l.map Prod.fst) := by
  induction n generalizing fmt k l with
  | zero =>
    cases h
    rfl
  | succ n ih =>
    cases fmt with
    | nil =>
      cases h
      rfl
    | cons c fmt =>
      obtain ⟨d, rest, k', piece, l', hread, hemit, hrounds, rfl⟩ := rounds_succ h
      unfold readAll
      simp only [hread, ih hrounds, Option.bind_eq_bind, Option.bind_some]
      rfl

/-- Some rounds write as much as their directives ask for. -/
theorem written_length {n : ℕ} {fmt : List Char} {k : ℕ} {l : List (Directive × List Char)}
    (h : rounds str args n fmt k = some l) (i : ℕ) :
    (written (l.take i)).length = (((l.map Prod.fst).map Directive.size).take i).sum := by
  induction n generalizing fmt k l i with
  | zero =>
    cases h
    simp [written]
  | succ n ih =>
    cases fmt with
    | nil =>
      cases h
      simp [written]
    | cons c fmt =>
      obtain ⟨d, rest, k', piece, l', hread, hemit, hrounds, rfl⟩ := rounds_succ h
      cases i with
      | zero => rfl
      | succ i =>
        have hrest := ih hrounds i
        simp only [List.take_succ_cons, List.map_cons, List.sum_cons, ← hrest, ← emit_length hemit]
        simp [written]

theorem written_append (l l' : List (Directive × List Char)) :
    written (l ++ l') = written l ++ written l' := by
  unfold written
  rw [List.map_append, List.flatten_append]

/-! ## The two formatters -/

/-- The rounds of `vsnprintf`, where `vsprintf` is defined. -/
theorem vsnprintf_rounds {fmt : List Char} {l : List (Directive × List Char)}
    (h : rounds str args fmt.length fmt 0 = some l) (buflen : ℕ) :
    rounds str args buflen fmt 0 = some (l.take buflen) := by
  rcases Nat.le_total buflen fmt.length with hle | hle
  · exact rounds_take hle h
  · have hlen := rounds_length h
    rw [List.take_of_length_le (hlen.trans hle)]
    exact rounds_stable hle h le_rfl

end Rounds

/-- `vsnprintf` has left `w` where `vsprintf` leaves `v`: it has written `buflen` bytes at most,
with the zero byte, and they are the first characters of the other string. -/
def Agrees (buflen : ℕ) (v w : Output) : Prop :=
  w.text.length + 1 ≤ buflen ∧ w.text = v.text.take (min v.text.length (buflen - 1))

/-- The first `buflen` directives of the format ask for less than `buflen` characters, and either
for all that there is room for, or the others ask for none. -/
def Fits (str : Word → Option (List Char)) (args : ℕ → Word) (buflen : ℕ) (fmt : List Char) :
    Prop :=
  ∃ ds, directives str args fmt = some ds ∧ ((ds.map Directive.size).take buflen).sum < buflen ∧
    (((ds.map Directive.size).take buflen).sum = buflen - 1 ∨
      ((ds.map Directive.size).drop buflen).sum = 0)

/-- A first part of a text is the right one. -/
theorem take_eq_first_iff (w r : List Char) (n : ℕ) :
    w.length + 1 ≤ n ∧ w = (w ++ r).take (min (w ++ r).length (n - 1)) ↔
      w.length < n ∧ (w.length = n - 1 ∨ r.length = 0) := by
  refine and_congr_right fun hlt => ?_
  rw [List.length_append]
  constructor
  · intro heq
    have hlen := congrArg List.length heq
    rw [List.length_take, List.length_append] at hlen
    omega
  · rintro (hfull | hnone)
    · rw [min_eq_right (by omega), ← hfull, List.take_left]
    · rw [List.length_eq_zero_iff.1 hnone, List.append_nil, List.take_of_length_le]
      rw [List.length_nil]
      omega

/-- **When `vsnprintf` is right.**  For every format, all arguments and every bound, where
`vsprintf` is defined: so is `vsnprintf`, and it keeps to its bound and agrees with `vsprintf`
exactly if the directives fit. -/
theorem vsnprintf_right_iff {str : Word → Option (List Char)} {fmt : List Char} {args : ℕ → Word}
    {v : Output} (hv : vsprintf str fmt args = some v) (buflen : ℕ) :
    ∃ w, vsnprintf str buflen fmt args = some w ∧
      (Agrees buflen v w ↔ Fits str args buflen fmt) := by
  unfold vsprintf at hv
  rw [formatLoop_eq] at hv
  obtain ⟨l, hl, rfl⟩ := Option.map_eq_some_iff.1 hv
  refine ⟨Output.putAll ⟨[], []⟩ (l.take buflen), ?_, ?_⟩
  · unfold vsnprintf
    rw [formatLoop_eq, vsnprintf_rounds hl buflen, Option.map_some]
  · have hall := written_append (l.take buflen) (l.drop buflen)
    rw [List.take_append_drop] at hall
    unfold Agrees
    rw [putAll_text, putAll_text, List.nil_append, List.nil_append, hall, take_eq_first_iff]
    have htake := written_length hl buflen
    have hsum := written_length hl l.length
    have hfull : ((l.map Prod.fst).map Directive.size).take l.length =
      (l.map Prod.fst).map Directive.size :=
      List.take_of_length_le (by simp)
    rw [List.take_length, hall, List.length_append, hfull] at hsum
    have hsplit := List.sum_take_add_sum_drop ((l.map Prod.fst).map Directive.size) buflen
    have hread : directives str args fmt = some (l.map Prod.fst) := readAll_of_rounds hl
    unfold Fits
    rw [hread]
    simp only [Option.some.injEq, exists_eq_left']
    omega

/-- No strings. -/
def noStrings : Word → Option (List Char) := fun _ => none

/-- A character in a field of three, and room for it. -/
theorem vsnprintf_right_field :
    ∃ w, vsnprintf noStrings 4 ['%', '3', 'c'] (fun _ => 65) = some w ∧
      (Agrees 4 ⟨[' ', ' ', 'A'], []⟩ w ↔ Fits noStrings (fun _ => 65) 4 ['%', '3', 'c']) :=
  vsnprintf_right_iff (v := ⟨[' ', ' ', 'A'], []⟩) (by decide) 4

/-- **The bound is passed** by the zero byte of a plain text of four characters, and by a field of
three characters that is written in one round. -/
theorem vsnprintf_passes_bound :
    (vsnprintf noStrings 4 ['a', 'b', 'c', 'd'] (fun _ => 65) = some ⟨['a', 'b', 'c', 'd'], []⟩ ∧
      ¬Agrees 4 ⟨['a', 'b', 'c', 'd'], []⟩ ⟨['a', 'b', 'c', 'd'], []⟩) ∧
    vsprintf noStrings ['%', '3', 'c'] (fun _ => 65) = some ⟨[' ', ' ', 'A'], []⟩ ∧
      vsnprintf noStrings 1 ['%', '3', 'c'] (fun _ => 65) = some ⟨[' ', ' ', 'A'], []⟩ ∧
      ¬Agrees 1 ⟨[' ', ' ', 'A'], []⟩ ⟨[' ', ' ', 'A'], []⟩ := by
  refine ⟨⟨by decide, fun hagrees => absurd hagrees.1 (by decide)⟩, by decide, by decide,
    fun hagrees => absurd hagrees.1 (by decide)⟩

end Vsprintf
end LightOS
