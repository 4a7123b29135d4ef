import LightOS.Task.ArgBlockBasic

/-!
# The argument buffer of a new process

* `procBuildArg_eq` — the two branches of `proc_build_arg` build the same kind of block at
  different places.
* `blockStores_inside_iff` — a block stays in the buffer if and only if it finds room below its top.
* `blockAt_holds` — a block that has been stored, and of which nothing has been overwritten, can be
  read.
* `argLayout_iff` — the buffer holds what it is to hold if and only if all of it finds room.
-/

namespace LightOS
namespace ArgBlock

open Elf (wordBytes)

/-! ## Stores -/

section Stores

variable {st u w : Store} {buf a i : ℕ} {b : UInt8}

theorem mem_cells : (a, b) ∈ st.cells ↔ ∃ i, ∃ h : i < st.bytes.length, add32 st.addr i = a ∧
    st.bytes[i] = b := by
  simp only [Store.cells, List.mem_mapIdx, Prod.mk.injEq]

theorem cells_length (st : Store) : st.cells.length = st.bytes.length := List.length_mapIdx

/-- A store that does not run past the end of the addresses. -/
def Store.Linear (st : Store) : Prop := st.addr + st.bytes.length ≤ wordSize

theorem Store.Linear.cell (h : st.Linear) (hi : i < st.bytes.length) :
    add32 st.addr i = st.addr + i :=
  add32_of_lt (lt_of_lt_of_le (Nat.add_lt_add_left hi _) h)

theorem Store.Linear.nodup (h : st.Linear) : (st.cells.map Prod.fst).Nodup := by
  refine List.pairwise_iff_getElem.2 fun i j hi hj hij => ?_
  rw [List.length_map, cells_length] at hi hj
  simp only [Store.cells, List.getElem_map, List.getElem_mapIdx, h.cell hi, h.cell hj]
  omega

/-- One store ends where the other starts, or before. -/
def Store.Clear (u w : Store) : Prop :=
  u.addr + u.bytes.length ≤ w.addr ∨ w.addr + w.bytes.length ≤ u.addr

theorem Store.Clear.apart (h : u.Clear w) (hu : u.Linear) (hw : w.Linear) :
    Writes.Apart u.cells w.cells := by
  rintro ⟨a, b⟩ hc ⟨a', b'⟩ hd heq
  obtain ⟨i, hi, rfl, -⟩ := mem_cells.1 hc
  obtain ⟨j, hj, rfl, -⟩ := mem_cells.1 hd
  simp only [hu.cell hi, hw.cell hj] at heq
  unfold Store.Clear at h
  omega

theorem inside_of_bounds (hbuf : buf + pageSize < wordSize) (hlow : buf ≤ st.addr)
    (hhigh : st.addr + st.bytes.length ≤ buf + pageSize) : st.Inside buf := by
  rintro ⟨a, b⟩ hc
  obtain ⟨i, hi, rfl, -⟩ := mem_cells.1 hc
  rw [add32_of_lt (by unfold wordSize at hbuf; omega)]
  omega

/-- A store of something lies in the buffer as an interval does. -/
theorem inside_iff (hbuf : buf + pageSize < wordSize) (haddr : st.addr < wordSize)
    (hpos : 0 < st.bytes.length) :
    st.Inside buf ↔ buf ≤ st.addr ∧ st.addr + st.bytes.length ≤ buf + pageSize := by
  have hcell : ∀ i < st.bytes.length, st.Inside buf →
    buf ≤ add32 st.addr i ∧ add32 st.addr i < buf + pageSize :=
    fun i hi h => h (add32 st.addr i, st.bytes[i]) (mem_cells.2 ⟨i, hi, rfl, rfl⟩)
  constructor
  · intro h
    have hfirst := hcell 0 hpos h
    rw [add32_of_lt haddr] at hfirst
    refine ⟨hfirst.1, ?_⟩
    by_contra hout
    -- the cell right behind the buffer
    have hlast := hcell (buf + pageSize - st.addr) (by omega) h
    rw [add32_of_lt (by unfold wordSize at hbuf; omega)] at hlast
    omega
  · exact fun h => inside_of_bounds hbuf h.1 h.2

theorem wordBytes_length (v : ℕ) : (wordBytes v).length = 4 := rfl

theorem string_length (s : CStr) : (s.bytes ++ [0]).length = s.size := by
  rw [List.length_append, List.length_singleton, CStr.size]

theorem stringBytes_cons (s : CStr) (strs : List CStr) :
    stringBytes (s :: strs) = s.size + stringBytes strs := by
  rw [stringBytes, List.map_cons, List.sum_cons, stringBytes]

end Stores

/-! ## The strings of a block -/

section Strings

variable {buf : ℕ}

/-- Strings that are copied inside the buffer find room there, and so do their pointers: by
induction on the strings. -/
theorem copyStrings_bounds (hbuf : buf + pageSize < wordSize) :
    ∀ (strs : List CStr) (slot p : ℕ), strs ≠ [] → slot < wordSize → p < wordSize →
      (∀ st ∈ copyStrings slot p strs, st.Inside buf) →
      buf ≤ slot ∧ slot + 4 * strs.length ≤ buf + pageSize ∧ buf ≤ p ∧
        p + stringBytes strs ≤ buf + pageSize := by
  intro strs
  induction strs with
  | nil => exact fun _ _ hne => absurd rfl hne
  | cons s strs ih =>
      intro slot p _ hslot hp hinside
      rw [copyStrings, List.forall_mem_cons, List.forall_mem_cons] at hinside
      obtain ⟨hpointer, hstring, hrest⟩ := hinside
      rw [inside_iff hbuf hslot (by rw [wordBytes_length]; norm_num), wordBytes_length] at hpointer
      rw [inside_iff hbuf hp (by rw [string_length]; exact Nat.succ_pos _), string_length]
        at hstring
      simp only at hpointer hstring
      rw [stringBytes_cons, List.length_cons]
      cases strs with
      | nil =>
          rw [stringBytes, List.map_nil, List.sum_nil, List.length_nil]
          omega
      | cons s' strs =>
          have hslot' : add32 slot 4 = slot + 4 := add32_of_lt (by unfold wordSize at hbuf; omega)
          have hp' : add32 p s.size = p + s.size := add32_of_lt (by unfold wordSize at hbuf; omega)
          rw [hslot', hp'] at hrest
          have hlater := ih (slot + 4) (p + s.size) (List.cons_ne_nil _ _)
            (by unfold wordSize at *; omega)
            (by unfold wordSize at *; omega) hrest
          omega

/-- Where the stores of the strings are. -/
theorem copyStrings_place :
    ∀ (strs : List CStr) (slot p : ℕ), slot + 4 * strs.length < wordSize →
      p + stringBytes strs < wordSize →
      ∀ st ∈ copyStrings slot p strs,
        slot ≤ st.addr ∧ st.addr + st.bytes.length ≤ slot + 4 * strs.length ∨
          p ≤ st.addr ∧ st.addr + st.bytes.length ≤ p + stringBytes strs := by
  intro strs
  induction strs with
  | nil => simp [copyStrings]
  | cons s strs ih =>
      intro slot p hslot hp
      rw [List.length_cons] at hslot ⊢
      rw [stringBytes_cons] at hp ⊢
      have hslot' : add32 slot 4 = slot + 4 := add32_of_lt (by unfold wordSize at hslot; omega)
      have hp' : add32 p s.size = p + s.size := add32_of_lt (by unfold wordSize at hp; omega)
      rw [copyStrings, List.forall_mem_cons, List.forall_mem_cons, hslot', hp', wordBytes_length,
        string_length]
      refine ⟨Or.inl ⟨le_rfl, ?_⟩, Or.inr ⟨le_rfl, ?_⟩, fun st hst => ?_⟩
      · simp only
        omega
      · simp only
        omega
      · have hlater := ih (slot + 4) (p + s.size) (by omega) (by omega) st hst
        omega

/-- No two of them overlap. -/
theorem copyStrings_clear :
    ∀ (strs : List CStr) (slot p : ℕ), slot + 4 * strs.length ≤ p →
      p + stringBytes strs < wordSize →
      (copyStrings slot p strs).Pairwise Store.Clear := by
  intro strs
  induction strs with
  | nil => exact fun _ _ _ _ => List.Pairwise.nil
  | cons s strs ih =>
      intro slot p hslot hp
      rw [List.length_cons] at hslot
      rw [stringBytes_cons] at hp
      have hslot' : add32 slot 4 = slot + 4 := add32_of_lt (by unfold wordSize at hp; omega)
      have hp' : add32 p s.size = p + s.size := add32_of_lt (by unfold wordSize at hp; omega)
      have hplace := copyStrings_place strs (slot + 4) (p + s.size) (by omega) (by omega)
      rw [copyStrings, List.pairwise_cons, List.pairwise_cons, List.forall_mem_cons, hslot', hp']
      refine ⟨⟨Or.inl (by rw [wordBytes_length]; simp only; omega), fun st hst => ?_⟩,
        fun st hst => ?_, ih (slot + 4) (p + s.size) (by omega) (by omega)⟩
      · have hst := hplace st hst
        unfold Store.Clear
        rw [wordBytes_length]
        simp only
        omega
      · have hst := hplace st hst
        unfold Store.Clear
        rw [string_length]
        simp only
        omega

/-- Every string is copied, and its pointer names the copy. -/
theorem copyStrings_mem :
    ∀ (strs : List CStr) (slot p : ℕ), slot + 4 * strs.length < wordSize →
      p + stringBytes strs < wordSize →
      ∀ i (hi : i < strs.length), ∃ q, ⟨slot + 4 * i, wordBytes q⟩ ∈ copyStrings slot p strs ∧
        ⟨q, strs[i].bytes ++ [0]⟩ ∈ copyStrings slot p strs := by
  intro strs
  induction strs with
  | nil => exact fun _ _ _ _ i hi => absurd hi (Nat.not_lt_zero i)
  | cons s strs ih =>
      intro slot p hslot hp i hi
      rw [List.length_cons] at hslot hi
      rw [stringBytes_cons] at hp
      have hslot' : add32 slot 4 = slot + 4 := add32_of_lt (by unfold wordSize at hslot; omega)
      have hp' : add32 p s.size = p + s.size := add32_of_lt (by unfold wordSize at hp; omega)
      rw [copyStrings, hslot', hp']
      cases i with
      | zero => exact ⟨p, List.mem_cons_self, List.mem_cons_of_mem _ List.mem_cons_self⟩
      | succ i =>
          obtain ⟨q, hpointer, hcopy⟩ :=
            ih (slot + 4) (p + s.size) (by omega) (by omega) i (by omega)
          refine ⟨q, List.mem_cons_of_mem _ (List.mem_cons_of_mem _ ?_),
            List.mem_cons_of_mem _ (List.mem_cons_of_mem _ hcopy)⟩
          rw [show slot + 4 * (i + 1) = slot + 4 + 4 * i by omega]
          exact hpointer

end Strings

/-! ## A block -/

/-- The lowest address of a block below a top. -/
def blockStart (top : ℕ) (strs : List CStr) : ℕ :=
  if strs = [] then sub32 (sub32 (sub32 top 4) 4) 4
  else
    let last := strs.foldl (fun pos s => sub32 pos s.size) top
    sub32 (sub32 (sub32 (sub32 last (last % 4)) ((strs.length + 1) * 4 % wordSize)) 4) 4

/-- The stores of a block at an address. -/
def blockStores (pos : ℕ) (strs : List CStr) : List Store :=
  [⟨pos, wordBytes strs.length⟩, ⟨add32 pos 4, wordBytes (add32 (add32 pos 4) 4)⟩] ++
    copyStrings (add32 (add32 pos 4) 4) (add32 (add32 (add32 pos 4) 4)
      (4 * (strs.length + 1) % wordSize)) strs ++
    [⟨add32 (add32 (add32 pos 4) 4) (4 * strs.length % wordSize), wordBytes 0⟩]

/-- A block at an address. -/
def blockAt (pos : ℕ) (strs : List CStr) : Block where
  argc := strs.length
  argBottom := sub32 pos 4
  destArgv := add32 (add32 pos 4) 4
  stores := blockStores pos strs

section Block

variable {buf top pos : ℕ} {strs : List CStr}

theorem add32_add32_zero (a b : ℕ) : add32 (add32 a b) 0 = add32 a b := by
  rw [add32_of_lt, Nat.add_zero]
  rw [Nat.add_zero]
  exact add32_lt a b

theorem procBuildArg_cons (top : ℕ) (s : CStr) (strs : List CStr) :
    procBuildArg top (some (s :: strs)) = blockAt (blockStart top (s :: strs)) (s :: strs) := by
  rw [blockStart, if_neg (List.cons_ne_nil s strs)]
  rfl

theorem blockAt_nil (top : ℕ) : procBuildArg top none = blockAt (blockStart top []) [] := by
  rw [blockStart, if_pos rfl]
  simp only [blockAt, blockStores, copyStrings, List.length_nil, Nat.mul_zero, Nat.zero_mod,
    add32_add32_zero, List.append_nil, List.cons_append, List.nil_append, procBuildArg]

/-- **The two branches of `proc_build_arg`** build the same kind of block. -/
theorem procBuildArg_eq (top : ℕ) (argv : Option (List CStr)) :
    procBuildArg top argv = blockAt (blockStart top (argv.getD [])) (argv.getD []) := by
  rcases argv with - | - | ⟨s, strs⟩
  · exact blockAt_nil top
  · exact blockAt_nil top
  · exact procBuildArg_cons top s strs

/-- The bytes of the strings are taken off one after the other. -/
theorem foldl_sub32 : ∀ (strs : List CStr) (top : ℕ), top < wordSize → stringBytes strs ≤ top →
    strs.foldl (fun pos s => sub32 pos s.size) top = top - stringBytes strs := by
  intro strs
  induction strs with
  | nil => exact fun top _ _ => rfl
  | cons s strs ih =>
      intro top htop hle
      rw [stringBytes_cons] at hle ⊢
      have hsub : sub32 top s.size = top - s.size := sub32_of_le (by omega) htop
      rw [List.foldl_cons, hsub, ih (top - s.size) (by omega) (by omega)]
      omega

/-- Where the strings of a block below a top start. -/
def stringsStart (top : ℕ) (strs : List CStr) : ℕ :=
  if strs = [] then top else top - stringBytes strs - (top - stringBytes strs) % 4

theorem stringsStart_add (h : stringBytes strs ≤ top) :
    stringsStart top strs + stringBytes strs ≤ top := by
  unfold stringsStart
  by_cases hnil : strs = []
  · rw [if_pos hnil, hnil]
    exact le_rfl
  · rw [if_neg hnil]
    omega

theorem stringsStart_add_blockLen (h : stringBytes strs ≤ top) :
    stringsStart top strs + blockLen top strs = top + (4 * (strs.length + 1) + 8) := by
  unfold stringsStart blockLen
  by_cases hnil : strs = []
  · rw [if_pos hnil, if_pos hnil, hnil]
    rfl
  · rw [if_neg hnil, if_neg hnil]
    omega

/-- The words in front of the strings. -/
theorem blockStart_eq (htop : top < wordSize) (hbytes : stringBytes strs ≤ top)
    (hcount : 4 * (strs.length + 1) + 8 < wordSize) :
    blockStart top strs = (stringsStart top strs +
      (wordSize - (4 * (strs.length + 1) + 8))) % wordSize := by
  unfold blockStart stringsStart
  by_cases hnil : strs = []
  · rw [if_pos hnil, if_pos hnil, hnil]
    unfold sub32 wordSize at *
    simp only [List.length_nil]
    omega
  · have hmod : (strs.length + 1) * 4 % wordSize = 4 * (strs.length + 1) := by
      rw [Nat.mul_comm]
      exact Nat.mod_eq_of_lt (by omega)
    have hpad : sub32 (top - stringBytes strs) ((top - stringBytes strs) % 4) =
        top - stringBytes strs - (top - stringBytes strs) % 4 :=
      sub32_of_le (Nat.mod_le _ _) (by unfold wordSize at htop; omega)
    rw [if_neg hnil, if_neg hnil]
    simp only [foldl_sub32 strs top htop hbytes, hmod, hpad]
    unfold sub32 wordSize at *
    omega

/-- With room below the top the block starts where it fits. -/
theorem blockStart_of_fits (htop : top < wordSize) (hfit : buf + blockLen top strs ≤ top) :
    blockStart top strs + (4 * (strs.length + 1) + 8) = stringsStart top strs ∧
      buf ≤ blockStart top strs ∧
      stringBytes strs ≤ top := by
  have hbytes : stringBytes strs ≤ top := by
    unfold blockLen at hfit
    by_cases hnil : strs = []
    · rw [hnil]
      exact Nat.zero_le top
    · rw [if_neg hnil] at hfit
      omega
  have hlen := stringsStart_add_blockLen hbytes
  have hle := stringsStart_add hbytes
  have hstart := blockStart_eq htop hbytes (by omega)
  unfold wordSize at htop hstart
  omega

theorem blockStart_lt (top : ℕ) (strs : List CStr) : blockStart top strs < wordSize := by
  unfold blockStart
  split_ifs <;> exact sub32_lt _ _

/-- The stores of a block, with the addresses as they are where nothing runs past the end. -/
theorem blockStores_eq (h : pos + 8 + 4 * (strs.length + 1) < wordSize) :
    blockStores pos strs =
      ⟨pos, wordBytes strs.length⟩ :: ⟨pos + 4, wordBytes (pos + 8)⟩ ::
        (copyStrings (pos + 8) (pos + 8 + 4 * (strs.length + 1)) strs ++
          [⟨pos + 8 + 4 * strs.length, wordBytes 0⟩]) := by
  have hone : add32 pos 4 = pos + 4 := add32_of_lt (by unfold wordSize at h; omega)
  have htwo : add32 (pos + 4) 4 = pos + 8 := add32_of_lt (by unfold wordSize at h; omega)
  have hstrings : add32 (pos + 8) (4 * (strs.length + 1) % wordSize) =
      pos + 8 + 4 * (strs.length + 1) := by
    rw [Nat.mod_eq_of_lt (by omega)]
    exact add32_of_lt h
  have hnull : add32 (pos + 8) (4 * strs.length % wordSize) = pos + 8 + 4 * strs.length := by
    rw [Nat.mod_eq_of_lt (by omega)]
    exact add32_of_lt (by unfold wordSize at h; omega)
  rw [blockStores, hone, htwo, hstrings, hnull, List.append_assoc]
  rfl

/-- Where a block that stays in the buffer ends. -/
theorem end_le_of_inside (hbuf : buf + pageSize < wordSize) (hpos : pos < wordSize)
    (hinside : ∀ st ∈ blockStores pos strs, st.Inside buf) :
    buf ≤ pos ∧ pos + 8 + 4 * (strs.length + 1) + stringBytes strs ≤ buf + pageSize := by
  have hword : ∀ v, 0 < (wordBytes v).length := fun v => by rw [wordBytes_length]; norm_num
  obtain ⟨hargc, hpointer⟩ : (⟨pos, wordBytes strs.length⟩ : Store).Inside buf ∧
      (⟨add32 pos 4, wordBytes (add32 (add32 pos 4) 4)⟩ : Store).Inside buf :=
    ⟨hinside _ (by simp [blockStores]), hinside _ (by simp [blockStores])⟩
  rw [inside_iff hbuf hpos (hword _), wordBytes_length] at hargc
  rw [inside_iff hbuf (add32_lt _ _) (hword _), wordBytes_length] at hpointer
  simp only at hargc hpointer
  have hone : add32 pos 4 = pos + 4 := add32_of_lt (by unfold wordSize at hbuf; omega)
  rw [hone] at hpointer
  have htwo : add32 (pos + 4) 4 = pos + 8 := add32_of_lt (by unfold wordSize at hbuf; omega)
  -- the pointers first: only then is it known that their number does not run past the end
  have hslots : pos + 8 + 4 * strs.length ≤ buf + pageSize := by
    by_cases hnil : strs = []
    · rw [hnil, List.length_nil]
      omega
    · have hcopies : ∀ st ∈ copyStrings (add32 (add32 pos 4) 4)
          (add32 (add32 (add32 pos 4) 4) (4 * (strs.length + 1) % wordSize)) strs, st.Inside buf :=
        fun st hst => hinside st (List.mem_append_left _ (List.mem_append_right _ hst))
      have hbounds := copyStrings_bounds hbuf strs _ _ hnil (add32_lt _ _) (add32_lt _ _) hcopies
      rw [hone, htwo] at hbounds
      exact hbounds.2.1
  have hnull : (⟨pos + 8 + 4 * strs.length, wordBytes 0⟩ : Store).Inside buf := by
    have hlast := hinside ⟨add32 (add32 (add32 pos 4) 4) (4 * strs.length % wordSize), wordBytes 0⟩
      (by simp [blockStores])
    rwa [hone, htwo, Nat.mod_eq_of_lt (by omega), add32_of_lt (by unfold wordSize at hbuf; omega)]
      at hlast
  rw [inside_iff hbuf (by simp only; omega) (hword _), wordBytes_length] at hnull
  simp only at hnull
  refine ⟨hargc.1, ?_⟩
  by_cases hnil : strs = []
  · rw [hnil] at hnull ⊢
    rw [List.length_nil, stringBytes, List.map_nil, List.sum_nil] at *
    omega
  · have hall := hinside
    rw [blockStores_eq (by omega)] at hall
    have hcopies : ∀ st ∈ copyStrings (pos + 8) (pos + 8 + 4 * (strs.length + 1)) strs,
      st.Inside buf :=
      fun st hst =>
        hall st (List.mem_cons_of_mem _ (List.mem_cons_of_mem _ (List.mem_append_left _ hst)))
    have hbounds := copyStrings_bounds hbuf strs _ _ hnil (by omega) (by omega) hcopies
    exact hbounds.2.2.2

/-- **A block that stays in the buffer has found room there.** -/
theorem fits_of_inside (hbuf : buf + pageSize < wordSize)
    (htop : pageSize ≤ top ∧ top ≤ buf + pageSize)
    (hinside : ∀ st ∈ blockStores (blockStart top strs) strs, st.Inside buf) :
    buf + blockLen top strs ≤ top := by
  obtain ⟨hlow, hhigh⟩ := end_le_of_inside hbuf (blockStart_lt top strs) hinside
  have hbytes : stringBytes strs ≤ top := by omega
  have hlen := stringsStart_add_blockLen hbytes
  have hle := stringsStart_add hbytes
  have hstart := blockStart_eq (lt_of_le_of_lt htop.2 hbuf) hbytes (by omega)
  unfold wordSize at hbuf hstart
  omega

/-- Where the stores of a block are. -/
theorem blockStores_place (h : pos + 8 + 4 * (strs.length + 1) + stringBytes strs < wordSize) :
    ∀ st ∈ blockStores pos strs,
      pos ≤ st.addr ∧ st.addr + st.bytes.length ≤
        pos + 8 + 4 * (strs.length + 1) + stringBytes strs := by
  rw [blockStores_eq (by omega), List.forall_mem_cons, List.forall_mem_cons, List.forall_mem_append]
  simp only [wordBytes_length, List.forall_mem_singleton]
  refine ⟨by omega, by omega, fun st hst => ?_, by omega⟩
  have hplace := copyStrings_place strs _ _ (by omega) (by omega) st hst
  omega

/-- No two stores of a block overlap. -/
theorem blockStores_clear (h : pos + 8 + 4 * (strs.length + 1) + stringBytes strs < wordSize) :
    (blockStores pos strs).Pairwise Store.Clear := by
  have hplace := copyStrings_place strs (pos + 8) (pos + 8 + 4 * (strs.length + 1)) (by omega)
    (by omega)
  rw [blockStores_eq (by omega), List.pairwise_cons, List.pairwise_cons, List.pairwise_append]
  simp only [List.forall_mem_cons, List.forall_mem_append, List.mem_singleton, forall_eq,
    Store.Clear, wordBytes_length, List.pairwise_singleton, true_and]
  refine ⟨⟨by omega, fun st hst => ?_, by omega⟩, ⟨fun st hst => ?_, by omega⟩,
    copyStrings_clear strs _ _ (by omega) (by omega), fun st hst => ?_⟩
  · have := hplace st hst
    omega
  · have := hplace st hst
    omega
  · have := hplace st hst
    omega

/-- **A block of which nothing has been overwritten** is what it is to be. -/
theorem blockStores_holds {mem : ℕ → UInt8} (h : pos + 8 + 4 * (strs.length + 1) +
    stringBytes strs < wordSize)
    (hreads : ∀ st ∈ blockStores pos strs, HoldsAt mem st.addr st.bytes) :
    HoldsBlock mem (pos + 8) strs := by
  rw [blockStores_eq (by omega), List.forall_mem_cons, List.forall_mem_cons, List.forall_mem_append,
    List.forall_mem_singleton] at hreads
  obtain ⟨hargc, hpointer, hcopies, hnull⟩ := hreads
  refine ⟨?_, ?_, fun i hi => ?_, hnull⟩
  · rw [show pos + 8 - 8 = pos by omega]
    exact hargc
  · rw [show pos + 8 - 4 = pos + 4 by omega]
    exact hpointer
  · obtain ⟨q, hq, hcopy⟩ :=
      copyStrings_mem strs (pos + 8) (pos + 8 + 4 * (strs.length + 1)) (by omega) (by omega) i hi
    exact ⟨q, hcopies _ hq, hcopies _ hcopy⟩

end Block

/-! ## The buffer -/

section Buffer

variable {buf : ℕ} {mem : ℕ → UInt8} {argv envp : Option (List CStr)} {r : ArgBuf} {ws : List Store}

/-- Stores that do not overlap can all be read afterwards. -/
theorem holdsAt_of_clear (mem : ℕ → UInt8) (hclear : ws.Pairwise Store.Clear)
    (hlinear : ∀ st ∈ ws, st.Linear) :
    ∀ st ∈ ws, HoldsAt (Writes.storeAll mem (ws.map Store.cells)) st.addr st.bytes := by
  intro st hst i hi
  have hapart : (ws.map Store.cells).Pairwise Writes.Apart :=
    List.pairwise_map.2 (hclear.imp_of_mem fun hu hw h => h.apart (hlinear _ hu) (hlinear _ hw))
  have hnodup : ∀ w ∈ ws.map Store.cells, (w.map Prod.fst).Nodup :=
    List.forall_mem_map.2 fun u hu => (hlinear u hu).nodup
  rw [← (hlinear st hst).cell hi]
  exact Writes.storeAll_of_mem hapart hnodup (List.mem_map_of_mem hst)
    (mem_cells.2 ⟨i, hi, rfl, rfl⟩)

/-- What `vmm_build_argbug` returns, in terms of its two blocks. -/
theorem vmmBuildArgbug_eq (hrun : vmmBuildArgbug buf argv envp = some r) :
    let env := blockStart (add32 buf pageSize) (envp.getD [])
    let args := blockStart (sub32 env 4) (argv.getD [])
    r = { argbuf := buf, envp := add32 (add32 env 4) 4, argv := add32 (add32 args 4) 4
          envStores := blockStores env (envp.getD []), argStores :=
            blockStores args (argv.getD []) } := by
  unfold vmmBuildArgbug at hrun
  split_ifs at hrun with hnull
  simp only [procBuildArg_eq, Option.some.injEq] at hrun
  exact hrun.symm

theorem pathStore_addr (buf : ℕ) (argv : Option (List CStr)) : (pathStore buf argv).addr = buf := by
  rcases argv with - | - | ⟨s, strs⟩ <;> rfl

/-- A path name that overlaps none of a block ends below it. -/
theorem path_length_le {path st : Store} (hbuf : buf + pageSize < wordSize)
    (hpath : path.addr = buf)
    (hst : buf ≤ st.addr ∧ st.addr < buf + pageSize) (hpos : 0 < st.bytes.length)
    (hapart : Writes.Apart path.cells st.cells) : buf + path.bytes.length ≤ st.addr := by
  by_contra hover
  have hi : st.addr - buf < path.bytes.length := by omega
  refine hapart (add32 path.addr (st.addr - buf), path.bytes[st.addr - buf])
    (mem_cells.2 ⟨_, hi, rfl, rfl⟩)
    (add32 st.addr 0, st.bytes[0]) (mem_cells.2 ⟨0, hpos, rfl, rfl⟩) ?_
  rw [hpath, add32_of_lt (by unfold wordSize at hbuf; omega),
    add32_of_lt (by unfold wordSize at hbuf; omega)]
  omega

/-- The ends of the two blocks, where they find room. -/
theorem blocks_of_fit (hbuf : kernBaseVirAddr ≤ buf ∧ buf + pageSize < wordSize) {envs : List CStr}
    (hfit : buf + blockLen (buf + pageSize) envs ≤ buf + pageSize) :
    buf ≤ blockStart (buf + pageSize) envs ∧
      blockStart (buf + pageSize) envs + blockLen (buf + pageSize) envs = buf + pageSize ∧
      sub32 (blockStart (buf + pageSize) envs) 4 =
        buf + pageSize - blockLen (buf + pageSize) envs - 4 ∧
      blockStart (buf + pageSize) envs + 8 + 4 * (envs.length + 1) + stringBytes envs ≤
        buf + pageSize := by
  obtain ⟨hlow, hhigh⟩ := hbuf
  obtain ⟨hstart, hle, hbytes⟩ := blockStart_of_fits hhigh hfit
  have hlen := stringsStart_add_blockLen hbytes
  have hend := stringsStart_add hbytes
  unfold kernBaseVirAddr at hlow
  have hsub : sub32 (blockStart (buf + pageSize) envs) 4 = blockStart (buf + pageSize) envs - 4 :=
    sub32_of_le (by omega) (by unfold wordSize at hhigh; omega)
  omega

theorem argc_mem (pos : ℕ) (strs : List CStr) :
    ⟨pos, wordBytes strs.length⟩ ∈ blockStores pos strs :=
  List.mem_append_left _ List.mem_cons_self

theorem vector_eq {pos : ℕ} (h : pos + 8 < wordSize) : add32 (add32 pos 4) 4 = pos + 8 := by
  unfold add32
  unfold wordSize at h
  omega

/-- What the buffer is to hold finds room in it. -/
theorem argsFit_of_layout (hbuf : kernBaseVirAddr ≤ buf ∧ buf + pageSize < wordSize)
    (hrun : vmmBuildArgbug buf argv envp = some r) (h : ArgLayout mem argv envp r) :
    ArgsFit buf argv envp := by
  have htop : add32 buf pageSize = buf + pageSize := add32_of_lt hbuf.2
  have hr := vmmBuildArgbug_eq hrun
  simp only [htop] at hr
  subst hr
  have henv : ∀ st ∈ blockStores (blockStart (buf + pageSize) (envp.getD [])) (envp.getD []),
    st.Inside buf :=
    fun st hst => h.inside st (List.mem_append_left _ hst)
  have hfit := fits_of_inside hbuf.2 ⟨Nat.le_add_left _ _, le_rfl⟩ henv
  obtain ⟨hstart, htotal, hbottom, -⟩ := blocks_of_fit hbuf hfit
  have hargs := fun st hst => h.inside st (List.mem_append_right _ hst)
  have hapart := fun st hst => h.path st (List.mem_append_right _ hst)
  simp only [hbottom] at hargs hapart
  have hroom : 2147483648 ≤ buf := hbuf.1
  have hpage : pageSize = 4096 := rfl
  have hargfit := fits_of_inside hbuf.2 ⟨by omega, by omega⟩ hargs
  obtain ⟨hpos, hlow, hbytes⟩ := blockStart_of_fits (lt_of_le_of_lt (by omega) hbuf.2) hargfit
  have hlen := stringsStart_add_blockLen hbytes
  have hpath := path_length_le hbuf.2 (pathStore_addr buf argv) ⟨hlow, by simp only; omega⟩
    (by rw [wordBytes_length]; norm_num) (hapart _ (argc_mem _ _))
  simp only at hpath
  exact ⟨hfit, by omega⟩

section Place

variable {E A : ℕ} {envs args : List CStr} {path : Store}

-- the block of the arguments lies below the one of the environment, which ends in the buffer
variable (hbuf : buf + pageSize < wordSize)
  (hE : E + 8 + 4 * (envs.length + 1) + stringBytes envs ≤ buf + pageSize)
  (hA : A + 8 + 4 * (args.length + 1) + stringBytes args ≤ E)

include hbuf hE hA

/-- The stores of the two blocks, the one below the other, lie in the buffer. -/
theorem blocks_place :
    ∀ st ∈ blockStores E envs ++ blockStores A args,
      st.Linear ∧ A ≤ st.addr ∧ st.addr + st.bytes.length ≤ buf + pageSize := by
  have henvplace := blockStores_place (lt_of_le_of_lt hE hbuf)
  have hargplace := blockStores_place (show A + 8 + 4 * (args.length + 1) + stringBytes args <
    wordSize by omega)
  intro st hst
  unfold Store.Linear
  have hword : wordSize = 4294967296 := rfl
  rcases List.mem_append.1 hst with henv | harg
  · have := henvplace st henv
    omega
  · have := hargplace st harg
    omega

/-- The two blocks do not touch. -/
theorem blocks_apart :
    ∀ u ∈ blockStores E envs, ∀ w ∈ blockStores A args, u.Clear w := by
  intro u hu w hw
  have henv := blockStores_place (lt_of_le_of_lt hE hbuf) u hu
  have harg := blockStores_place (show A + 8 + 4 * (args.length + 1) + stringBytes args <
    wordSize by omega) w hw
  unfold Store.Clear
  omega

/-- Nor do they and a path name below them. -/
theorem blocks_clear (hpath : path.addr + path.bytes.length ≤ A) :
    (∀ w ∈ blockStores E envs ++ blockStores A args, path.Clear w) ∧
      (blockStores E envs ++ blockStores A args ++ [path]).Pairwise Store.Clear := by
  have hbelow : ∀ w ∈ blockStores E envs ++ blockStores A args, path.Clear w := by
    intro w hw
    have hplace := blocks_place hbuf hE hA w hw
    unfold Store.Clear
    omega
  have henvs := blockStores_clear (lt_of_le_of_lt hE hbuf)
  have hargs := blockStores_clear (show A + 8 + 4 * (args.length + 1) + stringBytes args <
    wordSize by omega)
  have hblocks := List.pairwise_append.2 ⟨henvs, hargs, blocks_apart hbuf hE hA⟩
  refine ⟨hbelow, List.pairwise_append.2 ⟨hblocks, List.pairwise_singleton .., fun w hw v hv => ?_⟩⟩
  rw [List.mem_singleton.1 hv]
  exact (hbelow w hw).symm

end Place

/-- What finds room in the buffer is there in the end. -/
theorem argLayout_of_fit (hbuf : kernBaseVirAddr ≤ buf ∧ buf + pageSize < wordSize)
    (hrun : vmmBuildArgbug buf argv envp = some r) (h : ArgsFit buf argv envp) :
    ArgLayout mem argv envp r := by
  have htop : add32 buf pageSize = buf + pageSize := add32_of_lt hbuf.2
  have hr := vmmBuildArgbug_eq hrun
  simp only [htop] at hr
  subst hr
  obtain ⟨hfit, hargfit⟩ := h
  obtain ⟨hstart, htotal, hbottom, hend⟩ := blocks_of_fit hbuf hfit
  have hroom : 2147483648 ≤ buf ∧ buf + 4096 < 4294967296 := hbuf
  have hpage : pageSize = 4096 := rfl
  simp only [hbottom]
  generalize hE : blockStart (buf + pageSize) (envp.getD []) = E at *
  generalize hT : buf + pageSize - blockLen (buf + pageSize) (envp.getD []) - 4 = T at *
  have hTE : T + 4 = E := by omega
  generalize henvs : envp.getD [] = envs at *
  generalize hargs : argv.getD [] = args at *
  -- the block of the arguments lies between the path name and the block of the environment
  obtain ⟨hpos, hlow, hbytes⟩ : blockStart T args + (4 * (args.length + 1) + 8) =
    stringsStart T args ∧
      buf ≤ blockStart T args ∧ stringBytes args ≤ T :=
        blockStart_of_fits (by unfold wordSize; omega) (by omega)
  have hlen := stringsStart_add_blockLen hbytes
  have hstrings := stringsStart_add hbytes
  generalize blockStart T args = A at *
  have hA : A + 8 + 4 * (args.length + 1) + stringBytes args ≤ E := by omega
  have hpathaddr := pathStore_addr buf argv
  have hplace := blocks_place hbuf.2 hend hA
  have hapart := blocks_apart hbuf.2 hend hA
  have hbelow : (pathStore buf argv).addr + (pathStore buf argv).bytes.length ≤ A := by omega
  obtain ⟨hpath, hclear⟩ := blocks_clear hbuf.2 hend hA hbelow
  have hpathlinear : (pathStore buf argv).Linear := by
    unfold Store.Linear wordSize
    omega
  have hlinear : ∀ st ∈ blockStores E envs ++ blockStores A args, st.Linear :=
    fun st hst => (hplace st hst).1
  have hreads := fun m st => holdsAt_of_clear m hclear (List.forall_mem_append.2 ⟨hlinear,
    List.forall_mem_singleton.2 hpathlinear⟩) st
  refine ⟨fun st hst => ?_, fun u hu w hw => ?_, ?_, ?_, fun w hw => ?_⟩
  · exact inside_of_bounds hbuf.2 (hlow.trans (hplace st hst).2.1) (hplace st hst).2.2
  · exact (hapart u hu w hw).apart (hlinear u (List.mem_append_left _ hu))
      (hlinear w (List.mem_append_right _ hw))
  · change HoldsBlock _ (add32 (add32 E 4) 4) (envp.getD [])
    rw [henvs, vector_eq (show E + 8 < wordSize by unfold wordSize; omega)]
    exact blockStores_holds (lt_of_le_of_lt hend hbuf.2) fun st hst =>
      hreads _ st (List.mem_append_left _ (List.mem_append_left _ hst))
  · change HoldsBlock _ (add32 (add32 A 4) 4) (argv.getD [])
    rw [hargs, vector_eq (show A + 8 < wordSize by unfold wordSize; omega)]
    exact blockStores_holds (by unfold wordSize; omega) fun st hst =>
      hreads _ st (List.mem_append_left _ (List.mem_append_right _ hst))
  · exact (hpath w hw).apart hpathlinear (hlinear w hw)

/-- **The argument buffer holds what it is to hold** if and only if the two blocks and the path
name find room in it. -/
theorem argLayout_iff (hbuf : kernBaseVirAddr ≤ buf ∧ buf + pageSize < wordSize)
    (hrun : vmmBuildArgbug buf argv envp = some r) :
    ArgLayout mem argv envp r ↔ ArgsFit buf argv envp :=
  ⟨argsFit_of_layout hbuf hrun, argLayout_of_fit hbuf hrun⟩

end Buffer

/-- The string `/bin/sh`. -/
def binSh : CStr := ⟨[47, 98, 105, 110, 47, 115, 104], by decide, by decide⟩

/-- A string of 1024 letters. -/
def longArg : CStr := ⟨List.replicate 1024 97, by decide +kernel, by decide +kernel⟩

theorem vmmBuildArgbug_some (buf : ℕ) (hbuf : buf ≠ 0) (argv envp : Option (List CStr)) :
    ∃ r, vmmBuildArgbug buf argv envp = some r := by
  rw [vmmBuildArgbug, if_neg hbuf]
  exact ⟨_, rfl⟩

/-- A path name with an argument and a variable. -/
theorem argLayout_binSh :
    ∃ r, vmmBuildArgbug 2151677952 (some [binSh, binSh]) (some [binSh]) = some r ∧
      ArgLayout (fun _ => 0) (some [binSh, binSh]) (some [binSh]) r := by
  obtain ⟨r, hr⟩ := vmmBuildArgbug_some 2151677952 (by decide) (some [binSh, binSh]) (some [binSh])
  exact ⟨r, hr, (argLayout_iff (by decide) hr).2 (by decide)⟩

/-- **Four arguments of 1024 letters**: together with their zeros they are longer than the buffer,
and the block starts below it. -/
theorem argLayout_fails :
    ∃ r, vmmBuildArgbug 2151677952 (some [longArg, longArg, longArg, longArg]) none = some r ∧
      ¬ ArgLayout (fun _ => 0) (some [longArg, longArg, longArg, longArg]) none r := by
  obtain ⟨r, hr⟩ := vmmBuildArgbug_some 2151677952 (by decide)
    (some [longArg, longArg, longArg, longArg]) none
  exact ⟨r, hr, fun h => absurd (argsFit_of_layout (by decide) hr h) (by decide +kernel)⟩

end ArgBlock
end LightOS
