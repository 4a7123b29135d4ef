import LightOS.Vmm.MemSpaceOrder

/-!
# Memory spaces of a process: the place of a mapping

`mem_space_get_unmaped` looks for room for a mapping from `map_start` on: below the first space
that ends above it, then from the end of each space up to the next one.  What bounds the search
from above is tested in the loop, so before each space and not after the last one; and the sums
in the tests are of 32 bits.

* `memSpaceGetUnmaped_eq` — the loop is a scan of the intervals.
* `scan_cases` — it stops before a space or falls off the end.
* `memSpaceGetUnmaped_placed_iff` — the place that is returned is free and inside the bounds
  exactly when the scan neither falls off the end above `map_end` nor stops because a sum ran
  over.
-/

namespace LightOS
namespace Vm

open LinkedList Interval

/-! ## The scan -/

section Scan

variable {α : Type}

/-- The tests of the loop that end the search without a result. -/
def GivesUp (mapEnd len addr : ℕ) : Prop :=
  sub32 userVmmSize len < add32 addr userVmmBaseAddr ∨ mapEnd ≤ add32 addr len

/-- The test of the loop for room below the next space. -/
def FitsBelow (len addr : ℕ) (t : Span α) : Prop := add32 addr len ≤ t.start

instance (mapEnd len addr : ℕ) : Decidable (GivesUp mapEnd len addr) :=
  inferInstanceAs (Decidable (_ ∨ _))

instance (len addr : ℕ) (t : Span α) : Decidable (FitsBelow len addr t) :=
  inferInstanceAs (Decidable (_ ≤ _))

/-- The loop of `mem_space_get_unmaped` over the intervals themselves. -/
def scan (mapEnd len : ℕ) : ℕ → List (Span α) → ℕ
  | addr, [] => addr
  | addr, t :: k =>
      if GivesUp mapEnd len addr then minusOne
      else if FitsBelow len addr t then addr
      else scan mapEnd len t.end_ k

/-- Where the search goes on after the intervals of a list. -/
def lastEnd : ℕ → List (Span α) → ℕ
  | addr, [] => addr
  | _, t :: k => lastEnd t.end_ k

/-- The search passes all intervals of the list: it gives up before none and finds room before
none. -/
def NoRoom (mapEnd len : ℕ) : ℕ → List (Span α) → Prop
  | _, [] => True
  | addr, t :: k => ¬ GivesUp mapEnd len addr ∧ ¬ FitsBelow len addr t ∧ NoRoom mapEnd len t.end_ k

variable {mapEnd len addr : ℕ} {t : Span α} {k k₁ k₂ : List (Span α)}

theorem scan_of_noRoom (h : NoRoom mapEnd len addr k) :
    scan mapEnd len addr k = lastEnd addr k := by
  induction k generalizing addr with
  | nil => rfl
  | cons t k ih =>
      obtain ⟨hgo, hfull, hrest⟩ := h
      rw [scan, if_neg hgo, if_neg hfull, lastEnd]
      exact ih hrest

theorem scan_of_fits (h : NoRoom mapEnd len addr k₁) (hgo : ¬ GivesUp mapEnd len (lastEnd addr k₁))
    (hfits : FitsBelow len (lastEnd addr k₁) t) :
    scan mapEnd len addr (k₁ ++ t :: k₂) = lastEnd addr k₁ := by
  induction k₁ generalizing addr with
  | nil =>
      rw [List.nil_append, scan]
      exact (if_neg hgo).trans (if_pos hfits)
  | cons u k ih =>
      obtain ⟨hgo', hfull, hrest⟩ := h
      rw [List.cons_append, scan, if_neg hgo', if_neg hfull, lastEnd]
      exact ih hrest hgo hfits

/-- **How the search ends**: it falls off the list, gives up, or finds room before a space. -/
theorem scan_cases (mapEnd len addr : ℕ) (k : List (Span α)) :
    NoRoom mapEnd len addr k ∨ scan mapEnd len addr k = minusOne ∨
      ∃ k₁ t k₂, k = k₁ ++ t :: k₂ ∧ NoRoom mapEnd len addr k₁ ∧
        ¬ GivesUp mapEnd len (lastEnd addr k₁) ∧ FitsBelow len (lastEnd addr k₁) t := by
  induction k generalizing addr with
  | nil => exact Or.inl trivial
  | cons t k ih =>
      by_cases hgive : GivesUp mapEnd len addr
      · exact Or.inr (Or.inl (if_pos hgive))
      · by_cases hfits : FitsBelow len addr t
        · exact Or.inr (Or.inr ⟨[], t, k, rfl, trivial, hgive, hfits⟩)
        · have hscan : scan mapEnd len addr (t :: k) = scan mapEnd len t.end_ k := by
            rw [scan, if_neg hgive, if_neg hfits]
          rw [hscan]
          rcases ih t.end_ with hroom | hfail | ⟨k₁, u, k₂, rfl, hroom, hgo, hfits'⟩
          · exact Or.inl ⟨hgive, hfits, hroom⟩
          · exact Or.inr (Or.inl hfail)
          · exact Or.inr (Or.inr ⟨t :: k₁, u, k₂, rfl, ⟨hgive, hfits, hroom⟩, hgo, hfits'⟩)

/-- The search goes on at the address it began with or at the end of an interval. -/
theorem lastEnd_mem (addr : ℕ) (k : List (Span α)) :
    lastEnd addr k = addr ∨ ∃ t ∈ k, lastEnd addr k = t.end_ := by
  induction k generalizing addr with
  | nil => exact Or.inl rfl
  | cons t k ih =>
      rcases ih t.end_ with heq | ⟨u, hu, heq⟩
      · exact Or.inr ⟨t, List.mem_cons_self .., heq⟩
      · exact Or.inr ⟨u, List.mem_cons_of_mem _ hu, heq⟩

/-- Nothing of a sorted list reaches above where the search goes on after it. -/
theorem end_le_lastEnd (hsorted : Sorted k) (addr : ℕ) : ∀ t ∈ k, t.end_ ≤ lastEnd addr k := by
  induction k generalizing addr with
  | nil => simp
  | cons u k ih =>
      obtain ⟨-, hk, hcross⟩ := sorted_cons.1 hsorted
      have hle : u.end_ ≤ lastEnd u.end_ k := by
        rcases lastEnd_mem u.end_ k with heq | ⟨t, ht, heq⟩
        · exact heq.ge
        · have h₁ := hcross t ht
          have h₂ := hk.2 t ht
          omega
      intro t ht
      rcases List.mem_cons.1 ht with rfl | ht
      · exact hle
      · exact ih hk u.end_ t ht

/-- The search only goes up from where it began, if all intervals end above that. -/
theorem le_lastEnd (habove : ∀ t ∈ k, addr ≤ t.end_) :
    addr ≤ lastEnd addr k := by
  rcases lastEnd_mem addr k with heq | ⟨t, ht, heq⟩
  · exact heq.ge
  · rw [heq]
    exact habove t ht

end Scan

/-! ## The loop is a scan -/

section Loop

variable {s : AddrSpace} {l : List RecPtr}

theorem getUnmapedLoop_eq (len : ℕ) {k : List RecPtr} :
    ∀ {p : Option RecPtr} {addr rounds : ℕ}, Seg s.next p k none → k.length < rounds →
      getUnmapedLoop s len rounds addr p = some (scan s.vmm.mapEnd len addr (s.spans k)) := by
  induction k with
  | nil =>
      intro p addr rounds hseg hrounds
      cases hseg
      obtain ⟨n, rfl⟩ : ∃ n, rounds = n + 1 := ⟨rounds - 1, by simp at hrounds; omega⟩
      rfl
  | cons q k ih =>
      intro p addr rounds hseg hrounds
      obtain ⟨rfl, hseg⟩ := hseg
      obtain ⟨n, rfl⟩ : ∃ n, rounds = n + 1 := ⟨rounds - 1, by simp at hrounds; omega⟩
      have hscan : s.spans (q :: k) = s.span q :: s.spans k := rfl
      rw [getUnmapedLoop, hscan, scan]
      by_cases hgive : GivesUp s.vmm.mapEnd len addr
      · rw [if_pos hgive]
        rcases hgive with htop | hmap
        · rw [if_pos htop]
        · rw [if_pos hmap]
          exact ite_self _
      · rw [if_neg hgive]
        obtain ⟨htop, hmap⟩ := not_or.1 hgive
        rw [if_neg htop, if_neg hmap]
        by_cases hfits : FitsBelow len addr (s.span q)
        · rw [if_pos hfits]
          exact if_pos hfits
        · rw [if_neg hfits]
          exact (if_neg hfits).trans (ih hseg (by simpa using hrounds))

/-- The spaces the search looks at: from the first one that ends above `map_start` on. -/
def AddrSpace.searched (s : AddrSpace) (l : List RecPtr) : List (Span Attrs) :=
  (s.spans l).dropWhile fun t => decide (t.end_ ≤ s.vmm.mapStart)

/-- The list is what ends below `map_start` and what is searched. -/
theorem searched_split (h : s.Listed l) :
    ∃ l₁ l₂, l = l₁ ++ l₂ ∧ (∀ q ∈ l₁, (s.recs q).end_ ≤ s.vmm.mapStart) ∧
      (∀ q ∈ l₂.head?, s.vmm.mapStart < (s.recs q).end_) ∧ s.searched l = s.spans l₂ ∧
      memSpaceFind s s.vmm.mapStart = some l₂.head? := by
  obtain ⟨l₁, l₂, rfl, hbelow, habove, hfind⟩ := memSpaceFindPrev_spec h s.vmm.mapStart
  refine ⟨l₁, l₂, rfl, hbelow, habove, ?_, by rw [memSpaceFind, hfind, Option.map_some]⟩
  have hall : ∀ t ∈ s.spans l₁, decide (t.end_ ≤ s.vmm.mapStart) = true := by
    intro t ht
    obtain ⟨q, hq, rfl⟩ := List.mem_map.1 ht
    exact decide_eq_true (hbelow q hq)
  rw [AddrSpace.searched, spans_append, List.dropWhile_append_of_pos hall]
  cases l₂ with
  | nil => rfl
  | cons q l₂ =>
      refine List.dropWhile_cons_of_neg ?_
      rw [decide_eq_true_eq]
      exact not_le.2 (habove q rfl)

/-- **The search is a scan of the spaces**, and it comes to an end. -/
theorem memSpaceGetUnmaped_eq (h : s.Listed l) (len : ℕ) : memSpaceGetUnmaped s len =
    some (scan s.vmm.mapEnd len s.vmm.mapStart (s.searched l)) := by
  obtain ⟨l₁, l₂, rfl, -, -, hsearched, hfind⟩ := searched_split h
  obtain ⟨m, -, hseg⟩ := seg_append.1 h
  rw [hseg.head_eq] at hseg
  have hcard := h.nodup.length_le_card
  rw [Fintype.card_fin, List.length_append] at hcard
  have hrounds : l₂.length < walkRounds := by
    unfold recSlots at hcard
    unfold walkRounds
    omega
  rw [memSpaceGetUnmaped, hfind, Option.bind_some, hsearched]
  exact getUnmapedLoop_eq len hseg hrounds

end Loop

/-! ## When the place is right -/

/-- The place the search returns, if it returns one, lies inside the bounds and meets no
space. -/
def Placed (s : AddrSpace) (l : List RecPtr) (len : ℕ) : Prop :=
  ∃ addr, memSpaceGetUnmaped s len = some addr ∧ (addr ≠ minusOne →
    s.vmm.mapStart ≤ addr ∧ addr + len ≤ s.vmm.mapEnd ∧
      ∀ t ∈ s.spans l, t.end_ ≤ addr ∨ addr + len ≤ t.start)

/-- The search passes all spaces, and behind the last one the mapping ends above `map_end`. -/
def FallsOff (s : AddrSpace) (l : List RecPtr) (len : ℕ) : Prop :=
  NoRoom s.vmm.mapEnd len s.vmm.mapStart (s.searched l) ∧
    s.vmm.mapEnd < lastEnd s.vmm.mapStart (s.searched l) + len

/-- The search finds room before a space because the sum ran over. -/
def RunsOver (s : AddrSpace) (l : List RecPtr) (len : ℕ) : Prop :=
  ∃ k₁ t k₂, s.searched l = k₁ ++ t :: k₂ ∧ NoRoom s.vmm.mapEnd len s.vmm.mapStart k₁ ∧
    ¬ GivesUp s.vmm.mapEnd len (lastEnd s.vmm.mapStart k₁) ∧
    FitsBelow len (lastEnd s.vmm.mapStart k₁) t ∧ wordSize ≤ lastEnd s.vmm.mapStart k₁ + len

section Place

variable {s : AddrSpace} {l : List RecPtr} {len : ℕ}

/-- What is known about the spaces that are searched. -/
structure Searched (s : AddrSpace) (l : List RecPtr) : Prop where
  sorted : Sorted (s.searched l)
  above : ∀ t ∈ s.searched l, s.vmm.mapStart ≤ t.end_
  page : ∀ t ∈ s.searched l, PageAddr t.end_
  cases : ∀ t ∈ s.spans l, t.end_ ≤ s.vmm.mapStart ∨ t ∈ s.searched l

theorem searched_spec (h : s.Listed l) (hok : SpansOk (s.spans l)) : Searched s l := by
  obtain ⟨l₁, l₂, rfl, hbelow, habove, hsearched, -⟩ := searched_split h
  have hsorted := hok.1
  rw [spans_append] at hsorted
  obtain ⟨-, hsorted₂, -⟩ := sorted_append.1 hsorted
  refine ⟨?_, ?_, ?_, ?_⟩
  · rw [hsearched]
    exact hsorted₂
  · rw [hsearched]
    cases l₂ with
    | nil => exact fun t ht => absurd ht List.not_mem_nil
    | cons q l₂ =>
        intro t ht
        have hq := habove q rfl
        obtain ⟨-, -, hcross⟩ := sorted_cons.1 hsorted₂
        rcases List.mem_cons.1 ht with rfl | ht
        · exact hq.le
        · have h₁ := hcross t ht
          have h₂ := hsorted₂.2 t (List.mem_cons_of_mem _ ht)
          simp only [span_end] at h₁
          omega
  · rw [hsearched]
    intro t ht
    exact (hok.2 t (by rw [spans_append]; exact List.mem_append_right _ ht)).2
  · rw [hsearched, spans_append]
    intro t ht
    rcases List.mem_append.1 ht with ht | ht
    · obtain ⟨q, hq, rfl⟩ := List.mem_map.1 ht
      exact Or.inl (hbelow q hq)
    · exact Or.inr ht

/-- Where the search goes on is never the value that stands for failure. -/
theorem lastEnd_ne (hs : Searched s l) (hmap : s.vmm.mapStart < minusOne) {k : List (Span Attrs)}
    (hk : ∀ t ∈ k, t ∈ s.searched l) : lastEnd s.vmm.mapStart k ≠ minusOne := by
  rcases lastEnd_mem s.vmm.mapStart k with heq | ⟨t, ht, heq⟩
  · rw [heq]
    exact hmap.ne
  · rw [heq]
    have haligned := (hs.page t (hk t ht)).1
    unfold PageAligned at haligned
    unfold minusOne
    omega

/-- The search has fallen off the list. -/
theorem placed_of_end (hs : Searched s l) (hlisted : s.Listed l)
    (hroom : NoRoom s.vmm.mapEnd len s.vmm.mapStart (s.searched l))
    (hfits : lastEnd s.vmm.mapStart (s.searched l) + len ≤ s.vmm.mapEnd) : Placed s l len := by
  have hlow := le_lastEnd hs.above
  refine ⟨_, memSpaceGetUnmaped_eq hlisted len, fun _ => ?_⟩
  rw [scan_of_noRoom hroom]
  refine ⟨hlow, hfits, fun t ht => Or.inl ?_⟩
  rcases hs.cases t ht with hbelow | hin
  · exact hbelow.trans hlow
  · exact end_le_lastEnd hs.sorted _ t hin

/-- The search has found room before a space, and the sum did not run over. -/
theorem placed_of_fits (hs : Searched s l) (hlisted : s.Listed l) {k₁ k₂ : List (Span Attrs)}
    {t : Span Attrs} (hsplit : s.searched l = k₁ ++ t :: k₂)
    (hroom : NoRoom s.vmm.mapEnd len s.vmm.mapStart k₁)
    (hgo : ¬ GivesUp s.vmm.mapEnd len (lastEnd s.vmm.mapStart k₁))
    (hfits : FitsBelow len (lastEnd s.vmm.mapStart k₁) t)
    (hsum : lastEnd s.vmm.mapStart k₁ + len < wordSize) : Placed s l len := by
  have hsorted := hs.sorted
  rw [hsplit] at hsorted
  obtain ⟨hsorted₁, hsorted₂, -⟩ := sorted_append.1 hsorted
  have hlow : s.vmm.mapStart ≤ lastEnd s.vmm.mapStart k₁ :=
    le_lastEnd fun u hu => hs.above u (by rw [hsplit]; simp [hu])
  rw [FitsBelow, add32_of_lt hsum] at hfits
  rw [GivesUp, add32_of_lt hsum, not_or, not_le] at hgo
  refine ⟨_, memSpaceGetUnmaped_eq hlisted len, fun _ => ?_⟩
  rw [hsplit, scan_of_fits hroom (by rw [GivesUp, add32_of_lt hsum, not_or, not_le]; exact hgo)
    (by rw [FitsBelow, add32_of_lt hsum]; exact hfits)]
  refine ⟨hlow, hgo.2.le, fun u hu => ?_⟩
  rcases hs.cases u hu with hbelow | hin
  · exact Or.inl (hbelow.trans hlow)
  · rw [hsplit] at hin
    rcases List.mem_append.1 hin with hin | hin
    · exact Or.inl (end_le_lastEnd hsorted₁ _ u hin)
    · exact Or.inr (hfits.trans (hsorted₂.start_le_of_cons u hin))

end Place

/-- **When the place of a mapping is right.**  On a well-formed list, for every size: the place
`mem_space_get_unmaped` returns lies between `map_start` and `map_end` and meets no space if and
only if the search does not fall off the end of the list above `map_end`, and does not take a
sum that ran over for room. -/
theorem memSpaceGetUnmaped_placed_iff (s : AddrSpace) (l : List RecPtr) (hlisted : s.Listed l)
    (hok : SpansOk (s.spans l)) (hmap : s.vmm.mapStart < s.vmm.mapEnd)
    (hword : s.vmm.mapEnd < wordSize) (len : ℕ) :
    Placed s l len ↔ ¬ FallsOff s l len ∧ ¬ RunsOver s l len := by
  have hs := searched_spec hlisted hok
  have hstart : s.vmm.mapStart < minusOne := by
    unfold wordSize at hword
    unfold minusOne
    omega
  constructor
  · rintro ⟨addr, hrun, hplaced⟩
    rw [memSpaceGetUnmaped_eq hlisted, Option.some.injEq] at hrun
    constructor
    · rintro ⟨hroom, hover⟩
      rw [scan_of_noRoom hroom] at hrun
      obtain ⟨-, hfits, -⟩ := hplaced (hrun ▸ lastEnd_ne hs hstart fun t ht => ht)
      omega
    · rintro ⟨k₁, t, k₂, hsplit, hroom, hgo, hfits, hover⟩
      rw [hsplit, scan_of_fits hroom hgo hfits] at hrun
      have hne := lastEnd_ne hs hstart (k := k₁) fun u hu => by rw [hsplit]; simp [hu]
      obtain ⟨-, hend, -⟩ := hplaced (hrun ▸ hne)
      omega
  · rintro ⟨hend, hsum⟩
    rcases scan_cases s.vmm.mapEnd len s.vmm.mapStart (s.searched l) with
      hroom | hfail | ⟨k₁, t, k₂, hsplit, hroom, hgo, hfits⟩
    · exact placed_of_end hs hlisted hroom (not_lt.1 fun hover => hend ⟨hroom, hover⟩)
    · exact ⟨_, memSpaceGetUnmaped_eq hlisted len, fun hne => absurd hfail hne⟩
    · exact placed_of_fits hs hlisted hsplit hroom hgo hfits
        (not_le.1 fun hover => hsum ⟨k₁, t, k₂, hsplit, hroom, hgo, hfits, hover⟩)

/-- A private mapping that begins one page above `map_start`. -/
def lowSpace : AddrSpace :=
  { singleSpace with vmm := { singleSpace.vmm with mapStart := 61440 } }

/-- Two pages do not fit below the mapping, so they are placed behind it. -/
theorem memSpaceGetUnmaped_placed_lowSpace : Placed lowSpace [0] 8192 := by
  have hspans : lowSpace.spans [0] = [⟨65536, 77824, ⟨22, 16, 2160000000⟩⟩] := by decide +kernel
  have hsearched : lowSpace.searched [0] = [⟨65536, 77824, ⟨22, 16, 2160000000⟩⟩] := by
    decide +kernel
  have hok : SpansOk (lowSpace.spans [0]) := by
    rw [hspans]
    exact ⟨sorted_singleton.2 (by decide), fun t ht => by
      rw [List.mem_singleton.1 ht]
      exact ⟨⟨by decide, by decide⟩, by decide, by decide⟩⟩
  refine (memSpaceGetUnmaped_placed_iff lowSpace [0] ⟨rfl, rfl⟩ hok (by decide) (by decide) 8192).2
    ⟨fun hoff => ?_, ?_⟩
  · have hover := hoff.2
    rw [hsearched] at hover
    exact absurd hover (by decide)
  · rintro ⟨k₁, t, k₂, hsplit, -, -, -, hover⟩
    rw [hsearched] at hsplit
    have hlength := congrArg List.length hsplit
    simp only [List.length_append, List.length_cons, List.length_nil] at hlength
    obtain rfl : k₁ = [] := List.length_eq_zero_iff.1 (by omega)
    exact absurd hover (by decide)

/-- In an address space with nothing in it the search never looks at `map_end`. -/
theorem memSpaceGetUnmaped_too_long :
    ¬ ∀ (s : AddrSpace) (l : List RecPtr), s.Listed l → SpansOk (s.spans l) →
      s.vmm.mapStart < s.vmm.mapEnd → s.vmm.mapEnd < wordSize → ∀ len, PageAligned len → 0 < len →
        Placed s l len := by
  intro hall
  obtain ⟨addr, hrun, hplaced⟩ :=
    hall (emptySpace []) [] rfl ⟨sorted_nil, by simp [AddrSpace.spans]⟩
    (by decide) (by decide) 536870912 (by decide) (by decide)
  have haddr : memSpaceGetUnmaped (emptySpace []) 536870912 = some 1610612736 := by decide +kernel
  rw [haddr, Option.some.injEq] at hrun
  obtain ⟨-, hend, -⟩ := hplaced (by rw [← hrun]; decide)
  rw [← hrun] at hend
  exact absurd hend (by decide)

end Vm
end LightOS
