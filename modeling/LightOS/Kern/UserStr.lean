import LightOS.Kern.ExceptionBasic

/-!
# Copying a string from the user

`mem_copy_from_user_str` of `kernel/safety.c` and `strncpy` of `lib/string.c`.

`strncpy` moves a byte before it looks at its counter, and the counter is an `int`
made from an `unsigned long`; it never writes a terminator that is not in the source.
The function around it has a variable for what it returns, and nothing sets it.

* `strncpy_eq` — the bytes that `strncpy` moves.
* `bytesRight_iff` — what it leaves in the buffer is right exactly when the string is
  shorter than the limit.
* `userStr_never` — the promise with the returned length is never kept.
-/

namespace LightOS

/-! ## The model -/

/-- The loop of `strncpy` at index `i`: the bytes it moves, each read at `src` and
written at `dst` with one and the same index. -/
def strncpyFrom (src : ℕ → BitVec 8) : ℕ → ℕ → List (BitVec 8)
  | 0, i => [src i]
  | n + 1, i => if src i ≠ 0 then src i :: strncpyFrom src n (i + 1) else [src i]

/-- `strncpy`; a counter that is not positive stops it after one byte. -/
def strncpy (src : ℕ → BitVec 8) (n : ℤ) : List (BitVec 8) := strncpyFrom src n.toNat 0

/-- `mem_copy_from_user_str`: the bytes moved and what is returned.  `text` is what is
at `src`, byte by byte, and the parameter `n` of `strncpy` is an `int`. -/
def memCopyFromUserStr (m : Mm) (vmm : Bool) (text : ℕ → BitVec 8) (dest src maxn : ℕ) :
    Option (List (BitVec 8) × ℤ) :=
  if safetyCheckRange vmm src maxn < 0 then some ([], -1)
  else
    match pageReadable m src maxn with
    | none => none
    | some false => some ([], -1)
    | some true =>
        some (if dest ≠ 0 ∧ src ≠ 0 then strncpy text ((maxn : ℤ).bmod (2 ^ 32)) else [], -1)

/-- The buffer at `dest` once the bytes are moved. -/
def bufferAfter (room : ℕ → BitVec 8) (moved : List (BitVec 8)) (i : ℕ) : BitVec 8 :=
  moved.getD i (room i)

/-! ## What the copy should do -/

/-- There is a string of length `len` from index `i` on. -/
def StringAt (src : ℕ → BitVec 8) (i len : ℕ) : Prop :=
  (∀ k < len, src (i + k) ≠ 0) ∧ src (i + len) = 0

/-- At most `maxn` bytes are moved, and the buffer holds the first characters of the
string and a terminator. -/
structure BytesRight (text room : ℕ → BitVec 8) (len maxn : ℕ) (moved : List (BitVec 8)) :
    Prop where
  within : moved.length ≤ maxn
  chars : ∀ i < min len (maxn - 1), bufferAfter room moved i = text i
  ends : bufferAfter room moved (min len (maxn - 1)) = 0

/-- And the number of these characters is returned. -/
structure StrPromise (text room : ℕ → BitVec 8) (len maxn : ℕ) (r : List (BitVec 8) × ℤ) :
    Prop where
  bytes : BytesRight text room len maxn r.1
  returned : r.2 = min len (maxn - 1)

/-- The range check and the page check pass. -/
def ChecksPass (m : Mm) (vmm : Bool) (src maxn : ℕ) : Prop :=
  ¬ safetyCheckRange vmm src maxn < 0 ∧ pageReadable m src maxn = some true

instance (m : Mm) (vmm : Bool) (src maxn : ℕ) : Decidable (ChecksPass m vmm src maxn) :=
  inferInstanceAs (Decidable (_ ∧ _))

/-! ## The bytes that are moved -/

/-- One byte more than the counter says, if the string does not end before. -/
theorem strncpyFrom_eq {src : ℕ → BitVec 8} (n : ℕ) {i len : ℕ} (h : StringAt src i len) :
    strncpyFrom src n i = (List.range (min len n + 1)).map fun k => src (i + k) := by
  induction n generalizing i len with
  | zero => simp [strncpyFrom]
  | succ n ih =>
    obtain ⟨hchars, hend⟩ := h
    cases len with
    | zero => simp_all [strncpyFrom]
    | succ len =>
      have hfirst : src i ≠ 0 := hchars 0 (by omega)
      have hrest : StringAt src (i + 1) len := by
        refine ⟨fun k hk => ?_, ?_⟩
        · rw [show i + 1 + k = i + (k + 1) by omega]
          exact hchars (k + 1) (by omega)
        · rw [show i + 1 + len = i + (len + 1) by omega]
          exact hend
      rw [strncpyFrom, if_pos hfirst, ih hrest, Nat.add_min_add_right,
        List.range_succ_eq_map (n := min len n + 1)]
      simp [Function.comp_def, Nat.add_assoc, Nat.add_comm 1]

theorem strncpy_eq {src : ℕ → BitVec 8} {len : ℕ} (n : ℤ) (h : StringAt src 0 len) :
    strncpy src n = (List.range (min len n.toNat + 1)).map src := by
  rw [strncpy, strncpyFrom_eq _ h]
  simp

/-- What is in the buffer after the copy: the bytes of the source up to the last one moved. -/
theorem bufferAfter_range (room text : ℕ → BitVec 8) (n i : ℕ) :
    bufferAfter room ((List.range n).map text) i = if i < n then text i else room i := by
  by_cases hi : i < n <;> simp [bufferAfter, List.getD, hi]

/-- The limit, as long as it is an `int`. -/
theorem bmod_of_lt {maxn : ℕ} (h : maxn < 2 ^ 31) : ((maxn : ℤ).bmod (2 ^ 32)).toNat = maxn := by
  rw [Int.bmod_eq_of_le (by omega) (by omega), Int.toNat_natCast]

/-- A greater limit is negative as an `int`. -/
theorem bmod_of_ge {maxn : ℕ} (hlow : 2 ^ 31 ≤ maxn) (hhigh : maxn < 2 ^ 32) :
    ((maxn : ℤ).bmod (2 ^ 32)).toNat = 0 := by
  rw [Int.bmod_def, Int.emod_eq_of_lt (by omega) (by omega), if_neg (by omega)]
  omega

/-- The bytes in the buffer are right exactly when the terminator comes before the limit. -/
theorem bytesRight_iff {text room : ℕ → BitVec 8} {len maxn : ℕ} (htext : StringAt text 0 len)
    (hmaxn : 1 ≤ maxn) (hint : maxn < 2 ^ 31) :
    BytesRight text room len maxn (strncpy text ((maxn : ℤ).bmod (2 ^ 32))) ↔ len < maxn := by
  rw [strncpy_eq _ htext, bmod_of_lt hint]
  constructor
  · intro h
    have hlen := h.within
    rw [List.length_map, List.length_range] at hlen
    omega
  · intro hlen
    have hend : text len = 0 := by
      have := htext.2
      rwa [Nat.zero_add] at this
    have hmin : min len (maxn - 1) = len := by omega
    refine ⟨?_, fun i hi => ?_, ?_⟩
    · rw [List.length_map, List.length_range]
      omega
    · rw [bufferAfter_range, if_pos (by omega)]
    · rw [hmin, bufferAfter_range, if_pos (by omega), hend]

/-! ## The function -/

/-- When both checks pass the promise is not kept, since the value returned is -1.  Of the
rest of it the bytes are right exactly for the strings that are shorter than the limit: any
other string writes and reads one byte past it.  A limit that is no positive `int` moves
one byte. -/
theorem userStr_never {m : Mm} {vmm : Bool} {src maxn : ℕ} (text room : ℕ → BitVec 8) {len : ℕ}
    (dest : ℕ)
    (htext : StringAt text 0 len) (hmaxn : 1 ≤ maxn) (hpass : ChecksPass m vmm src maxn) :
    ∃ r, memCopyFromUserStr m vmm text dest src maxn = some r ∧ ¬ StrPromise text room len maxn r ∧
      (dest ≠ 0 → src ≠ 0 →
        (maxn < 2 ^ 31 → (BytesRight text room len maxn r.1 ↔ len < maxn)) ∧
        (2 ^ 31 ≤ maxn → maxn < 2 ^ 32 → r.1 = [text 0])) := by
  obtain ⟨hcheck, hpages⟩ := hpass
  refine ⟨(if dest ≠ 0 ∧ src ≠ 0 then strncpy text ((maxn : ℤ).bmod (2 ^ 32)) else [], -1), ?_, ?_,
    ?_⟩
  · rw [memCopyFromUserStr, if_neg hcheck, hpages]
  · rintro ⟨-, hret⟩
    have : (0 : ℤ) ≤ (min len (maxn - 1) : ℕ) := Int.natCast_nonneg _
    push_cast at hret this
    omega
  · intro hd hs
    rw [if_pos ⟨hd, hs⟩]
    dsimp only
    refine ⟨bytesRight_iff htext hmaxn, fun hlow hhigh => ?_⟩
    rw [strncpy, bmod_of_ge hlow hhigh, strncpyFrom]

/-- Two characters, and a limit of two. -/
def twoChars (i : ℕ) : BitVec 8 := if i < 2 then 97 else 0

theorem twoChars_string : StringAt twoChars 0 2 := by
  refine ⟨fun k hk => ?_, rfl⟩
  rw [twoChars, if_pos (by omega)]
  decide

theorem userStr_never_twoChars :
    ∃ r, memCopyFromUserStr onePage true twoChars 2147500000 4100 2 = some r ∧
      ¬ StrPromise twoChars (fun _ => 0) 2 2 r ∧
        (BytesRight twoChars (fun _ => 0) 2 2 r.1 ↔ 2 < 2) := by
  obtain ⟨r, hr, hnot, hbytes⟩ :=
    userStr_never twoChars (fun _ => 0) 2147500000 twoChars_string (by decide)
      (by decide : ChecksPass onePage true 4100 2)
  exact ⟨r, hr, hnot, (hbytes (by decide) (by decide)).1 (by decide)⟩

/-- The two characters and the terminator are three bytes, and -1 is returned. -/
theorem userStr_fails :
    memCopyFromUserStr onePage true twoChars 2147500000 4100 2 = some ([97, 97, 0], -1) ∧
      ¬ StrPromise twoChars (fun _ => 0) 2 2 ([97, 97, 0], -1) :=
  ⟨by decide, fun h => absurd h.bytes.within (by decide)⟩

end LightOS
