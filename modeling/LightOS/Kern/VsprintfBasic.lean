import LightOS.Lib.CInt

/-!
# Formatted output: the model

`number`, `vsprintf` and `vsnprintf` of `lib/vsprintf.c`.

The loops of the two formatters have the same body, and `long`, `int` and pointers have 32 bits, so
that the branches on the qualifier are one.  A format is a list of characters that ends before its
zero byte.  The arguments are the words on the stack, and `str` is the string that is at an
address, or `none` if there is none.  An `int` expression that overflows is undefined and gives
`none`.
-/

namespace LightOS
namespace Vsprintf

abbrev Word := BitVec 32

/-- An expression of type `int` or `long` with the value `v`. -/
def signed (v : ℤ) : Option ℤ := if CInt.InRange v then some v else none

/-- The flags of a conversion, `type` in `number`. -/
structure Flags where
  zeropad : Bool
  sign : Bool
  plus : Bool
  space : Bool
  left : Bool
  special : Bool
  small : Bool
  deriving DecidableEq

/-- `flags = 0` -/
def noFlags : Flags := ⟨false, false, false, false, false, false, false⟩

/-! ## `number` -/

/-- `digits[i]` -/
def digit (small : Bool) (i : ℕ) : Char :=
  (if small then
    "0123456789abcdefghijklmnopqrstuvwxyz" else "0123456789ABCDEFGHIJKLMNOPQRSTUVWXYZ").toList.getD
      i '0'

/-- `while(size-- > 0) *str++ = c;`: what is written, and `size` after it. -/
def pad (c : Char) (size : ℤ) : Option (List Char × ℤ) :=
  (signed (min size 0 - 1)).map fun size' => (List.replicate size.toNat c, size')

/-- The digits of a number as they are in `tmp`, the last one first; `num` is divided as an
`unsigned long`. -/
def tmpDigits (small : Bool) (base : ℕ) (num : ℤ) : List Char :=
  if num = 0 then ['0'] else (Nat.digits base (num % 4294967296).toNat).map (digit small)

/-- The sign that is written before a number. -/
def signChars (type : Flags) (num : ℤ) : List Char :=
  if type.sign ∧ num < 0 then ['-'] else if type.plus then ['+'] else if type.space then [' ']
  else []

/-- What `SPECIAL` puts before a number. -/
def specialChars (type : Flags) (base : ℕ) : List Char :=
  if type.special then if base = 8 then ['0'] else if base = 16 then ['0', digit type.small 33]
  else [] else []

/-- `if (type&LEFT) type &= ~ZEROPAD;` -/
def clearZeropad (type : Flags) : Flags := { type with zeropad := type.zeropad && !type.left }

/-- `num = -num` for a negative number. -/
def absNum (type : Flags) (num : ℤ) : Option ℤ :=
  if type.sign ∧ num < 0 then signed (-num) else some num

/-- One of the loops over `size`, where it is under a condition. -/
def padIf (b : Bool) (c : Char) (size : ℤ) : Option (List Char × ℤ) :=
  if b then pad c size else some ([], size)

/-- `number`, for one of the bases that the formatters use. -/
def number (num : ℤ) (base : ℕ) (size precision : ℤ) (type : Flags) : Option (List Char) := do
  let type := clearZeropad type
  let c := if type.zeropad then '0' else ' '
  let sign := signChars type num
  let num ← absNum type num
  let special := specialChars type base
  let size ← signed (size - sign.length)
  let size ← signed (size - special.length)
  let tmp := tmpDigits type.small base num
  let precision := max (tmp.length : ℤ) precision
  let size ← signed (size - precision)
  let (before, size) ← padIf (!type.zeropad && !type.left) ' ' size
  let (fill, size) ← padIf (!type.left) c size
  let zeros := List.replicate (precision - tmp.length).toNat '0'
  let (behind, _) ← pad ' ' size
  some (before ++ sign ++ special ++ fill ++ zeros ++ tmp.reverse ++ behind)

/-! ## A conversion is read -/

/-- `skip_atoi`, with `i` read so far. -/
def skipAtoi : ℤ → List Char → Option (ℤ × List Char)
  | i, [] => some (i, [])
  | i, c :: rest =>
      if c.isDigit then do
        let tens ← signed (i * 10)
        let sum ← signed (tens + c.toNat)
        let i ← signed (sum - 48)
        skipAtoi i rest
      else some (i, c :: rest)

/-- The flags, at `repeat`. -/
def readFlags : List Char → Flags → Flags × List Char
  | '-' :: rest, flags => readFlags rest { flags with left := true }
  | '+' :: rest, flags => readFlags rest { flags with plus := true }
  | ' ' :: rest, flags => readFlags rest { flags with space := true }
  | '#' :: rest, flags => readFlags rest { flags with special := true }
  | '0' :: rest, flags => readFlags rest { flags with zeropad := true }
  | rest, flags => (flags, rest)

/-- The field width; `k` is the index of the next argument. -/
def readWidth (args : ℕ → Word) (flags : Flags) (k : ℕ) :
    List Char → Option (ℤ × Flags × List Char × ℕ)
  | '*' :: rest =>
      let width := (args k).toInt
      if width < 0 then (signed (-width)).map fun width =>
        (width, { flags with left := true }, rest, k + 1)
      else some (width, flags, rest, k + 1)
  | c :: rest =>
      if c.isDigit then (skipAtoi 0 (c :: rest)).map fun p => (p.1, flags, p.2, k)
      else some (-1, flags, c :: rest, k)
  | [] => some (-1, flags, [], k)

/-- The precision. -/
def readPrecision (args : ℕ → Word) (k : ℕ) : List Char → Option (ℤ × List Char × ℕ)
  | '.' :: '*' :: rest => some (max (args k).toInt 0, rest, k + 1)
  | '.' :: c :: rest =>
      if c.isDigit then (skipAtoi 0 (c :: rest)).map fun p => (max p.1 0, p.2, k)
      else some (0, c :: rest, k)
  | ['.'] => some (0, [], k)
  | rest => some (-1, rest, k)

/-- The qualifier is skipped. -/
def skipQualifier : List Char → List Char
  | 'h' :: rest => rest
  | 'l' :: rest => rest
  | 'L' :: rest => rest
  | 'Z' :: rest => rest
  | rest => rest

/-- What is converted.  Characters that stand for themselves are a `text`. -/
inductive Conv where
  | char (c : Char)
  | string (s : List Char)
  | number (num : ℤ) (base : ℕ)
  | count (ip : Word)
  | text (s : List Char)

/-- What one round of the loop is to write. -/
structure Directive where
  flags : Flags
  width : ℤ
  precision : ℤ
  conv : Conv

/-- The `switch` over the conversion character. -/
def readConv (str : Word → Option (List Char)) (args : ℕ → Word) (flags : Flags)
    (width precision : ℤ) (k : ℕ) :
    List Char → Option (Directive × List Char × ℕ)
  | 'c' :: rest => some (⟨flags, width, precision, .char (Char.ofNat ((args k).toNat % 256))⟩,
      rest, k + 1)
  | 's' :: rest => (str (args k)).map fun s => (⟨flags, width, precision, .string s⟩, rest, k + 1)
  | 'o' :: rest => some (⟨flags, width, precision, .number (args k).toInt 8⟩, rest, k + 1)
  | 'p' :: rest =>
      if width = -1 then
        some (⟨{ flags with zeropad := true }, 8, precision, .number (args k).toInt 16⟩, rest,
          k + 1)
      else some (⟨flags, width, precision, .number (args k).toInt 16⟩, rest, k + 1)
  | 'x' :: rest =>
      some (⟨{ flags with small := true }, width, precision, .number (args k).toInt 16⟩, rest,
        k + 1)
  | 'X' :: rest => some (⟨flags, width, precision, .number (args k).toInt 16⟩, rest, k + 1)
  | 'd' :: rest =>
      some (⟨{ flags with sign := true }, width, precision, .number (args k).toInt 10⟩, rest, k + 1)
  | 'i' :: rest =>
      some (⟨{ flags with sign := true }, width, precision, .number (args k).toInt 10⟩, rest, k + 1)
  | 'u' :: rest => some (⟨flags, width, precision, .number (args k).toInt 10⟩, rest, k + 1)
  | 'n' :: rest => some (⟨flags, width, precision, .count (args k)⟩, rest, k + 1)
  | '%' :: rest => some (⟨flags, width, precision, .text ['%']⟩, rest, k)
  | c :: rest => some (⟨flags, width, precision, .text ['%', c]⟩, rest, k)
  | [] => some (⟨flags, width, precision, .text ['%']⟩, [], k)

/-- One round of the loop, as far as it reads: at `c`, with `rest` behind it. -/
def readDirective (str : Word → Option (List Char)) (args : ℕ → Word) (k : ℕ) (c : Char)
    (rest : List Char) :
    Option (Directive × List Char × ℕ) :=
  if c ≠ '%' then some (⟨noFlags, -1, -1, .text [c]⟩, rest, k)
  else do
    let (flags, rest) := readFlags rest noFlags
    let (width, flags, rest, k) ← readWidth args flags k rest
    let (precision, rest, k) ← readPrecision args k rest
    readConv str args flags width precision k (skipQualifier rest)

/-! ## And written -/

/-- The loop over the spaces on the one side or on the other. -/
def padded (d : Directive) (text : List Char) : List Char :=
  let spaces := List.replicate (d.width - text.length).toNat ' '
  if d.flags.left then text ++ spaces else spaces ++ text

/-- One round of the loop, as far as it writes to the buffer. -/
def emit (d : Directive) : Option (List Char) :=
  match d.conv with
  | .char c => some (padded d [c])
  | .string s => (signed s.length).map fun len =>
      padded d (s.take (if d.precision < 0 then len else min len d.precision).toNat)
  | .number num base => number num base d.width d.precision d.flags
  | .count _ => some []
  | .text s => some s

/-- What has been written to the buffer, and to the places that `%n` is given. -/
structure Output where
  text : List Char
  counts : List (Word × ℕ)
  deriving DecidableEq

/-- The output after one more round. -/
def Output.put (out : Output) (d : Directive) (piece : List Char) : Output :=
  ⟨out.text ++ piece,
    match d.conv with
    | .count ip => out.counts ++ [(ip, out.text.length)]
    | _ => out.counts⟩

/-- The loop of the formatters, for `n` rounds at most. -/
def formatLoop (str : Word → Option (List Char)) (args : ℕ → Word) :
    ℕ → List Char → ℕ → Output → Option Output
  | 0, _, _, out => some out
  | _ + 1, [], _, out => some out
  | n + 1, c :: fmt, k, out => do
      let (d, rest, k) ← readDirective str args k c fmt
      let piece ← emit d
      formatLoop str args n rest k (out.put d piece)

/-- `vsprintf`; every round takes a character of the format at least, so that the loop ends with
it. -/
def vsprintf (str : Word → Option (List Char)) (fmt : List Char) (args : ℕ → Word) :
    Option Output :=
  formatLoop str args fmt.length fmt 0 ⟨[], []⟩

/-- `vsnprintf`; `buflen` is counted down once a round. -/
def vsnprintf (str : Word → Option (List Char)) (buflen : ℕ) (fmt : List Char) (args : ℕ → Word) :
    Option Output :=
  formatLoop str args buflen fmt 0 ⟨[], []⟩

end Vsprintf
end LightOS
