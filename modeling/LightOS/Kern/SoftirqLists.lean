import LightOS.Kern.SoftirqBasic
import LightOS.Lib.Places
import LightOS.Lib.Threads

/-!
# Deferred work: where the assists are

An assist that is pending is in one place: on one of the two lists, on the part of a list that an
action has not come to, or in the hands of a context.  What was requested is what was executed, what
is pending, and what a context is about to mark or to execute.

* `ListInv` and `ListInv.keep`, `.enter`, `.push`, `.take`, `.pop`, `.drop` — where the assists are.
* `PcInv.step` — who is about to set a bit, to execute, to put back.
* `CountInv.step` — what was requested.
* `WakeInv.step` — a list that is not empty will be taken.
-/

namespace LightOS
namespace Softirq

open LinkedList Places Run

variable {ι α : Type}

/-! ## Places -/

/-- Where an assist can be: on a list, on the rest of a list that a context has taken, or in its
hands. -/
inductive Place (ι : Type) where
  | head (k : Kind)
  | walk (t : ι)
  | hand (t : ι)
  deriving DecidableEq

/-- The pending assist that a context holds and that is on no list. -/
def Pc.hand : Pc α → Option α
  | .add _ a | .test _ a _ _ | .readd _ a _ _ => some a
  | _ => none

/-- The assist whose request is accepted but not marked, or unmarked but not executed. -/
def Pc.started : Pc α → Option α
  | .set _ a | .call _ a _ _ => some a
  | _ => none

/-- The priority a context works for. -/
def Pc.kind : Pc α → Kind
  | .set k _ | .add k _ | .take k _ | .walk k _ _ | .test k _ _ _ | .call k _ _ _
  | .running k _ _ _ | .readd k _ _ _ => k
  | _ => .high

/-- The context executes a function, or is about to. -/
def Pc.executes : Pc α → Prop
  | .call _ _ _ _ | .running _ _ _ _ => True
  | _ => False

/-- The assist the context puts back. -/
def Pc.back : Pc α → Option α
  | .readd _ a _ _ => some a
  | _ => none

/-- The bits of a frame are those from `nr` on. -/
def Frame.has (f : Frame) (n : ℕ) : Prop := f.nr ≤ n ∧ testBit (n - f.nr) f.evens = true

/-- The context is going to take the list. -/
def Pc.willTake (k : Kind) : Pc α → Prop
  | .loop f => f.has k.nr
  | .take k' f => k = k' ∨ f.nr < k.nr ∧ f.has k.nr
  | .walk _ _ f | .test _ _ _ f | .call _ _ _ f | .running _ _ _ f | .readd _ _ _ f =>
      f.nr < k.nr ∧ f.has k.nr
  | _ => False

/-- The loop a context is in. -/
def Pc.frame : Pc α → Option Frame
  | .loop f | .take _ f | .walk _ _ f | .test _ _ _ f | .call _ _ _ f | .running _ _ _ f
  | .readd _ _ _ f => some f
  | _ => none

/-- The priority of a place. -/
def Place.kind (pc : ι → Pc α) : Place ι → Kind
  | .head k => k
  | .walk t | .hand t => (pc t).kind

/-- One of the bits is set. -/
def pending (s : SoftirqState ι α) (a : α) : Bool :=
  testBit Kind.high.nr (s.status a) || testBit Kind.low.nr (s.status a)

/-! ## Bits -/

theorem testBit_setBit {n : ℕ} (m : ℕ) (word : BitVec 32) (hn : n < 32) :
    testBit n (setBit m word) = (testBit n word || decide (m = n)) := by
  by_cases hm : m = n
  · simp [testBit, setBit, hm, hn]
  · simp [testBit, setBit, hm]

theorem testBit_clearBit {n : ℕ} (m : ℕ) (word : BitVec 32) (hn : n < 32) :
    testBit n (clearBit m word) = (testBit n word && decide (m ≠ n)) := by
  by_cases hm : m = n
  · simp [testBit, clearBit, hm, hn]
  · simp [testBit, clearBit, hm, Ne.symm hm, hn]

theorem testBit_lt {n : ℕ} {word : BitVec 32} (h : testBit n word = true) : n < 32 :=
  BitVec.lt_of_getLsbD h

theorem Kind.nr_lt (k : Kind) : k.nr < 32 := by cases k <;> decide

theorem Kind.built (k : Kind) : softirqAction k.nr = some (.assist k) := by cases k <;> rfl

/-- Activating a softirq sets its bit, if it has an action. -/
theorem testBit_softirqActive {n m : ℕ} {evens : BitVec 32} :
    testBit n (softirqActive evens m) = true ↔
      testBit n evens = true ∨ n = m ∧ m < nrSoftirqs ∧ (softirqAction m).isSome = true := by
  unfold softirqActive
  split_ifs with hbuilt
  · constructor
    · intro h
      rw [testBit_setBit m evens (testBit_lt h), Bool.or_eq_true, decide_eq_true_eq] at h
      exact h.imp_right fun heq => ⟨heq.symm, hbuilt⟩
    · rintro (h | ⟨rfl, hlt, -⟩)
      · rw [testBit_setBit m evens (testBit_lt h), h, Bool.true_or]
      · have hn : n < 32 := lt_trans hlt (by decide)
        rw [testBit_setBit n evens hn, decide_eq_true rfl, Bool.or_true]
  · exact ⟨Or.inl, fun h => h.resolve_right fun hright => hbuilt hright.2⟩

theorem testBit_active (k : Kind) (evens : BitVec 32) :
    testBit k.nr (softirqActive evens k.nr) = true :=
  testBit_softirqActive.2 (Or.inr ⟨rfl, by cases k <;> decide, by rw [k.built]; rfl⟩)

/-! ## The frames -/

/-- The bits after the first one are those of the next turn. -/
theorem Frame.advance_willTake {f : Frame} {k : Kind} :
    (f.advance : Pc α).willTake k ↔ f.nr < k.nr ∧ f.has k.nr := by
  have hshift : f.nr < k.nr → (testBit (k.nr - (f.nr + 1)) (f.evens >>> 1) = true ↔
      testBit (k.nr - f.nr) f.evens = true) := by
    intro hlt
    have hsub : 1 + (k.nr - (f.nr + 1)) = k.nr - f.nr := by omega
    rw [testBit, testBit, BitVec.getLsbD_ushiftRight, hsub]
  unfold Frame.advance
  split_ifs with hend
  · refine iff_of_false id ?_
    rintro ⟨hlt, -, hbit⟩
    have hbit' := (hshift hlt).2 hbit
    rw [hend] at hbit'
    simp [testBit] at hbit'
  · constructor
    · rintro ⟨hle, hbit⟩
      exact ⟨hle, Nat.le_of_succ_le hle, (hshift hle).1 hbit⟩
    · rintro ⟨hlt, -, hbit⟩
      exact ⟨hlt, (hshift hlt).2 hbit⟩

/-- The next turn has no other bits. -/
theorem Frame.advance_has {f g : Frame} {n : ℕ} (hg : (f.advance : Pc α).frame = some g)
    (hn : g.has n) : f.has n := by
  unfold Frame.advance at hg
  split_ifs at hg with hend
  · cases hg
  · cases hg
    obtain ⟨hle, hbit⟩ := hn
    refine ⟨Nat.le_of_succ_le hle, ?_⟩
    have hsub : 1 + (n - (f.nr + 1)) = n - f.nr := by
      have hle' : f.nr + 1 ≤ n := hle
      omega
    rwa [testBit, BitVec.getLsbD_ushiftRight, hsub] at hbit

section Advance

variable (f : Frame)

@[simp] theorem advance_rest : (f.advance : Pc α).rest = none := by
  unfold Frame.advance
  split_ifs <;> rfl

@[simp] theorem advance_hand : (f.advance : Pc α).hand = none := by
  unfold Frame.advance
  split_ifs <;> rfl

@[simp] theorem advance_back : (f.advance : Pc α).back = none := by
  unfold Frame.advance
  split_ifs <;> rfl

@[simp] theorem advance_started : (f.advance : Pc α).started = none := by
  unfold Frame.advance
  split_ifs <;> rfl

theorem advance_ne_set (k : Kind) (a : α) : (f.advance : Pc α) ≠ .set k a := by
  unfold Frame.advance
  split_ifs <;> exact nofun

theorem advance_ne_add (k : Kind) (a : α) : (f.advance : Pc α) ≠ .add k a := by
  unfold Frame.advance
  split_ifs <;> exact nofun

theorem advance_executes : ¬(f.advance : Pc α).executes := by
  unfold Frame.advance
  split_ifs <;> exact id

end Advance

/-! ## Where the assists are -/

section Lists

variable {count : α → ℤ} {s s' : SoftirqState ι α} {lists lists' : Place ι → List α} {t : ι}
  {p : Pc α}
  {k : Kind} {a : α}

/-- **Every pending assist is in one place**, linked there, and enabled ones have the high
priority. -/
structure ListInv (count : α → ℤ) (s : SoftirqState ι α) (lists : Place ι → List α) : Prop where
  full : Full lists (pending s)
  heads : ∀ k, Seg s.next (s.head k) (lists (.head k)) none
  walks : ∀ t, Seg s.next (s.pc t).rest (lists (.walk t)) none
  hands : ∀ t, lists (.hand t) = (s.pc t).hand.toList
  kinds : ∀ p : Place ι, p.kind s.pc = .low → ∀ a ∈ lists p, count a ≠ 0

theorem ListInv.walk_nil (h : ListInv count s lists) (hrest : (s.pc t).rest = none) :
    lists (.walk t) = [] := (hrest ▸ h.walks t).eq_nil

theorem ListInv.hand_nil (h : ListInv count s lists) (hhand : (s.pc t).hand = none) :
    lists (.hand t) = [] := by
  rw [h.hands t, hhand]
  rfl

theorem ListInv.hand_eq (h : ListInv count s lists) (hhand : (s.pc t).hand = some a) :
    lists (.hand t) = [a] := by
  rw [h.hands t, hhand]
  rfl

theorem pending_congr (hstatus : s'.status = s.status) : pending s' = pending s := by
  funext a
  rw [pending, pending, hstatus]

variable [DecidableEq ι]

/-- **A step of one context** on the lists: its own places and the heads change. -/
theorem ListInv.change (h : ListInv count s lists) (hpc : s'.pc = Function.update s.pc t p)
    (hfull : Full lists' (pending s'))
    (hheads : ∀ k, Seg s'.next (s'.head k) (lists' (.head k)) none)
    (hwalk : Seg s'.next p.rest (lists' (.walk t)) none)
    (hhand : lists' (.hand t) = p.hand.toList)
    (hothers : ∀ u, u ≠ t → lists' (.walk u) = lists (.walk u) ∧ lists' (.hand u) = lists (.hand u))
    (hnext : ∀ u, u ≠ t → ∀ x ∈ lists (.walk u), s'.next x = s.next x)
    (hlow : ∀ x ∈ lists' (.head .low), count x ≠ 0)
    (hkind : p.kind = .low → ∀ x, x ∈ lists' (.walk t) ∨ x ∈ lists' (.hand t) → count x ≠ 0) :
    ListInv count s' lists' := by
  have hat : s'.pc t = p := by rw [hpc, Function.update_self]
  have hout : ∀ u, u ≠ t → s'.pc u = s.pc u := by
    intro u hu
    rw [hpc, Function.update_of_ne hu]
  refine ⟨hfull, hheads, fun u => ?_, fun u => ?_, fun q hq x hx => ?_⟩
  · by_cases hut : u = t
    · rw [hut, hat]
      exact hwalk
    · rw [hout u hut, (hothers u hut).1]
      exact (h.walks u).congr (hnext u hut)
  · by_cases hut : u = t
    · rw [hut, hat, hhand]
    · rw [hout u hut, (hothers u hut).2, h.hands u]
  · cases q with
    | head k =>
        cases k with
        | high => cases hq
        | low => exact hlow x hx
    | walk u =>
        by_cases hut : u = t
        · subst hut
          exact hkind (hat ▸ hq) x (Or.inl hx)
        · rw [(hothers u hut).1] at hx
          exact h.kinds (.walk u) ((congrArg Pc.kind (hout u hut)).symm.trans hq) x hx
    | hand u =>
        by_cases hut : u = t
        · subst hut
          exact hkind (hat ▸ hq) x (Or.inr hx)
        · rw [(hothers u hut).2] at hx
          exact h.kinds (.hand u) ((congrArg Pc.kind (hout u hut)).symm.trans hq) x hx

/-- A context moves and leaves the assists where they are. -/
theorem ListInv.keep (h : ListInv count s lists) (hnext : s'.next = s.next)
    (hhead : s'.head = s.head)
    (hstatus : s'.status = s.status) (hpc : s'.pc = Function.update s.pc t p)
    (hrest : p.rest = (s.pc t).rest) (hhand : p.hand = (s.pc t).hand)
    (hkind : p.kind = .low → (s.pc t).kind = .low ∨ p.rest = none ∧ p.hand = none) :
    ListInv count s' lists := by
  refine h.change hpc ?_ (fun k => ?_) ?_ ?_ (fun _ _ => ⟨rfl, rfl⟩) (fun _ _ _ _ => by rw [hnext])
    (h.kinds (.head .low) rfl) fun hlow x hx => ?_
  · rw [pending_congr hstatus]
    exact h.full
  · rw [hnext, hhead]
    exact h.heads k
  · rw [hnext, hrest]
    exact h.walks t
  · rw [hhand]
    exact h.hands t
  · rcases hkind hlow with hold | ⟨hnone, hnone'⟩
    · rcases hx with hx | hx
      · exact h.kinds (.walk t) hold x hx
      · exact h.kinds (.hand t) hold x hx
    · rw [h.walk_nil (hrest ▸ hnone), h.hand_nil (hhand ▸ hnone')] at hx
      rcases hx with hx | hx <;> cases hx

/-- **A bit is set**: the assist is in the hands of the context. -/
theorem ListInv.enter [DecidableEq α] (h : ListInv count s lists) (hpc : s.pc t = .set k a)
    (hclear : pending s a = false) (hdisabled : k = .low → count a ≠ 0) :
    ListInv count
      ({ s with status := Function.update s.status a (setBit k.nr (s.status a)) }.goto t (.add k a))
      (Function.update lists (.hand t) [a]) := by
  have hempty : lists (.hand t) = [] := h.hand_nil (by rw [hpc]; rfl)
  have hpending : pending ({ s with
      status := Function.update s.status a (setBit k.nr (s.status a)) }.goto t (.add k a)) =
      Function.update (pending s) a true := by
    funext x
    by_cases hx : x = a
    · subst hx
      rw [Function.update_self]
      simp only [pending, SoftirqState.goto, Function.update_self]
      rw [testBit_setBit _ _ Kind.high.nr_lt, testBit_setBit _ _ Kind.low.nr_lt]
      cases k <;> simp
    · rw [Function.update_of_ne hx]
      simp only [pending, SoftirqState.goto, Function.update_of_ne hx]
  refine h.change rfl ?_ (fun j => ?_) ?_ (Function.update_self _ _ _) (fun u hu => ⟨?_, ?_⟩)
    (fun _ _ _ _ => rfl) (fun x hx => ?_) fun hlow x hx => ?_
  · rw [hpending]
    exact h.full.enter hclear hempty
  · rw [Function.update_of_ne (by simp)]
    exact h.heads j
  · rw [Function.update_of_ne (by simp), h.walk_nil (by rw [hpc]; rfl)]
    rfl
  · exact Function.update_of_ne (by simp) _ _
  · exact Function.update_of_ne (by simpa using hu) _ _
  · rw [Function.update_of_ne (by simp)] at hx
    exact h.kinds (.head .low) rfl x hx
  · rw [Function.update_self, Function.update_of_ne (by simp), h.walk_nil (by rw [hpc]; rfl)] at hx
    rcases hx with hx | hx
    · cases hx
    · rw [List.mem_singleton.1 hx]
      exact hdisabled hlow

/-- **The assist in the hands of the context is put on a list.** -/
theorem ListInv.push [DecidableEq α] (h : ListInv count s lists) (hhand : (s.pc t).hand = some a)
    (hk : (s.pc t).kind = k) (hrest : p.rest = (s.pc t).rest) (hnone : p.hand = none)
    (hkind : p.kind = .low → k = .low ∨ p.rest = none) :
    ListInv count ((s.push k a).goto t p)
      (Function.update (Function.update lists (.hand t) []) (.head k) (a :: lists (.head k))) := by
  have hhold := h.hand_eq hhand
  have haway : ∀ q : Place ι, q ≠ .hand t → a ∉ lists q := by
    intro q hq ha
    exact hq (h.full.placed.apart q (.hand t) a ha (by rw [hhold]; exact List.mem_singleton_self a))
  have hcount : k = .low → count a ≠ 0 := by
    intro hlow
    exact h.kinds (.hand t) (hk.trans hlow) a (by rw [hhold]; exact List.mem_singleton_self a)
  refine h.change rfl ?_ (fun j => ?_) ?_ ?_ (fun u hu => ⟨?_, ?_⟩) (fun u hu x hx => ?_)
    (fun x hx => ?_)
    fun hlow x hx => ?_
  · exact h.full.move hhold (by simp)
  · by_cases hjk : j = k
    · subst hjk
      simp only [Function.update_self, SoftirqState.push, SoftirqState.goto]
      exact (h.heads j).push (haway (.head j) (by simp))
    · rw [Function.update_of_ne (by simpa using hjk), Function.update_of_ne (by simp)]
      simp only [SoftirqState.push, SoftirqState.goto, Function.update_of_ne hjk]
      exact (h.heads j).update (haway (.head j) (by simp)) _
  · rw [Function.update_of_ne (by simp), Function.update_of_ne (by simp), hrest]
    exact (h.walks t).update (haway (.walk t) (by simp)) _
  · rw [Function.update_of_ne (by simp), Function.update_self, hnone]
    rfl
  · rw [Function.update_of_ne (by simp), Function.update_of_ne (by simp)]
  · rw [Function.update_of_ne (by simp), Function.update_of_ne (by simpa using hu)]
  · have hne : x ≠ a := fun heq => haway (.walk u) (by simp) (heq ▸ hx)
    exact Function.update_of_ne hne _ _
  · by_cases hlow : k = .low
    · subst hlow
      rw [Function.update_self] at hx
      rcases List.mem_cons.1 hx with rfl | hx
      · exact hcount rfl
      · exact h.kinds (.head .low) rfl x hx
    · rw [Function.update_of_ne (by simpa using Ne.symm hlow), Function.update_of_ne (by simp)]
        at hx
      exact h.kinds (.head .low) rfl x hx
  · rw [Function.update_of_ne (by simp), Function.update_of_ne (by simp),
      Function.update_of_ne (by simp), Function.update_self] at hx
    rcases hx with hx | hx
    · rcases hkind hlow with hold | hnil
      · exact h.kinds (.walk t) (hk.trans hold) x hx
      · rw [h.walk_nil (hrest ▸ hnil)] at hx
        cases hx
    · cases hx

/-- **A context takes a list.** -/
theorem ListInv.take (h : ListInv count s lists) {f : Frame} (hpc : s.pc t = .take k f) :
    ListInv count
      ({ s with head := Function.update s.head k none }.goto t (.walk k (s.head k) f))
      (Function.update (Function.update lists (.head k) []) (.walk t) (lists (.head k))) := by
  have hempty : lists (.walk t) = [] := h.walk_nil (by rw [hpc]; rfl)
  refine h.change rfl ?_ (fun j => ?_) ?_ ?_ (fun u hu => ⟨?_, ?_⟩) (fun _ _ _ _ => rfl)
    (fun x hx => ?_)
    fun hlow x hx => ?_
  · exact h.full.moveAll hempty (by simp)
  · rw [Function.update_of_ne (by simp)]
    by_cases hjk : j = k
    · subst hjk
      simp only [Function.update_self, SoftirqState.goto]
      rfl
    · rw [Function.update_of_ne (by simpa using hjk)]
      simp only [SoftirqState.goto, Function.update_of_ne hjk]
      exact h.heads j
  · rw [Function.update_self]
    exact h.heads k
  · rw [Function.update_of_ne (by simp), Function.update_of_ne (by simp),
      h.hand_nil (by rw [hpc]; rfl)]
    rfl
  · rw [Function.update_of_ne (by simpa using hu), Function.update_of_ne (by simp)]
  · rw [Function.update_of_ne (by simp), Function.update_of_ne (by simp)]
  · rw [Function.update_of_ne (by simp)] at hx
    by_cases hlow : k = .low
    · subst hlow
      rw [Function.update_self] at hx
      cases hx
    · rw [Function.update_of_ne (by simpa using Ne.symm hlow)] at hx
      exact h.kinds (.head .low) rfl x hx
  · rw [Function.update_self, Function.update_of_ne (by simp), Function.update_of_ne (by simp),
      h.hand_nil (by rw [hpc]; rfl)] at hx
    rcases hx with hx | hx
    · exact h.kinds (.head k) hlow x hx
    · cases hx

/-- **The next assist is taken off the list of the context.** -/
theorem ListInv.pop (h : ListInv count s lists) {f : Frame} (hpc : s.pc t = .walk k (some a) f) :
    ∃ l, lists (.walk t) = a :: l ∧
      ListInv count (s.goto t (.test k a (s.next a) f))
        (Function.update (Function.update lists (.walk t) l) (.hand t) [a]) := by
  have hseg := h.walks t
  have hempty : lists (.hand t) = [] := h.hand_nil (by rw [hpc]; rfl)
  have hkinds := h.kinds (.walk t)
  simp only [Place.kind, hpc, Pc.kind] at hkinds
  rw [hpc, Pc.rest] at hseg
  cases hlist : lists (.walk t) with
  | nil =>
      rw [hlist] at hseg
      cases hseg
  | cons b l =>
      rw [hlist] at hseg hkinds
      obtain ⟨hab, hseg⟩ := hseg
      cases hab
      refine ⟨l, rfl, h.change rfl ?_ (fun j => ?_) ?_ ?_ (fun u hu => ⟨?_, ?_⟩)
        (fun _ _ _ _ => rfl)
        (fun x hx => ?_) fun hlow x hx => ?_⟩
      · have hmoved := h.full.move hlist (j := .hand t) (by simp)
        rwa [hempty] at hmoved
      · rw [Function.update_of_ne (by simp), Function.update_of_ne (by simp)]
        exact h.heads j
      · rw [Function.update_of_ne (by simp), Function.update_self]
        exact hseg
      · rw [Function.update_self]
        rfl
      · rw [Function.update_of_ne (by simp), Function.update_of_ne (by simpa using hu)]
      · rw [Function.update_of_ne (by simpa using hu), Function.update_of_ne (by simp)]
      · rw [Function.update_of_ne (by simp), Function.update_of_ne (by simp)] at hx
        exact h.kinds (.head .low) rfl x hx
      · rw [Function.update_of_ne (by simp), Function.update_self, Function.update_self] at hx
        refine hkinds hlow x ?_
        rcases hx with hx | hx
        · exact List.mem_cons_of_mem _ hx
        · rw [List.mem_singleton.1 hx]
          exact List.mem_cons_self

/-- **The bit of an enabled assist is cleared**: it is nowhere. -/
theorem ListInv.drop [DecidableEq α] (h : ListInv count s lists) {list : Option α} {f : Frame}
    (hpc : s.pc t = .test k a list f) (hlow : testBit Kind.low.nr (s.status a) = false) :
    ListInv count
      ({ s with
        status := Function.update s.status a (clearBit taskAssistSched (s.status a)) }.goto t
          (.call k a list f))
      (Function.update lists (.hand t) []) := by
  have hhold : lists (.hand t) = [a] := h.hand_eq (by rw [hpc]; rfl)
  have hpending : pending ({ s with
      status := Function.update s.status a (clearBit taskAssistSched (s.status a)) }.goto t
        (.call k a list f)) = Function.update (pending s) a false := by
    funext x
    by_cases hx : x = a
    · subst hx
      rw [Function.update_self]
      simp only [pending, SoftirqState.goto, Function.update_self]
      rw [testBit_clearBit _ _ Kind.high.nr_lt, testBit_clearBit _ _ Kind.low.nr_lt, hlow]
      simp [Kind.nr]
    · rw [Function.update_of_ne hx]
      simp only [pending, SoftirqState.goto, Function.update_of_ne hx]
  refine h.change rfl ?_ (fun j => ?_) ?_ (Function.update_self _ _ _) (fun u hu => ⟨?_, ?_⟩)
    (fun _ _ _ _ => rfl) (fun x hx => ?_) fun hkind x hx => ?_
  · rw [hpending]
    exact h.full.leave hhold
  · rw [Function.update_of_ne (by simp)]
    exact h.heads j
  · rw [Function.update_of_ne (by simp)]
    have hseg := h.walks t
    rw [hpc] at hseg
    exact hseg
  · exact Function.update_of_ne (by simp) _ _
  · exact Function.update_of_ne (by simpa using hu) _ _
  · rw [Function.update_of_ne (by simp)] at hx
    exact h.kinds (.head .low) rfl x hx
  · rw [Function.update_of_ne (by simp), Function.update_self] at hx
    rcases hx with hx | hx
    · exact h.kinds (.walk t) ((congrArg Pc.kind hpc).trans hkind) x hx
    · cases hx

end Lists

/-! ## The contexts -/

section Contexts

variable {count : α → ℤ} {s s' : SoftirqState ι α} {t : ι} {p : Pc α}

/-- **Enabled assists have the high priority.**  A context that is about to set a bit is the only
one for its assist; what is executed is from the high list, and what is put back is disabled. -/
structure PcInv (count : α → ℤ) (s : SoftirqState ι α) : Prop where
  lows : ∀ a, testBit Kind.low.nr (s.status a) = true → count a ≠ 0
  setting : ∀ t k a, s.pc t = .set k a → pending s a = false ∧ (k = .low → count a ≠ 0)
  setOnce : ∀ t u k k' a, s.pc t = .set k a → s.pc u = .set k' a → t = u
  calling : ∀ t, (s.pc t).executes → (s.pc t).kind = .high
  back : ∀ t a, (s.pc t).back = some a → count a ≠ 0

variable [DecidableEq ι]

/-- A step of one context that sets no bit another one is about to set. -/
theorem PcInv.step (h : PcInv count s) (hpc : s'.pc = Function.update s.pc t p)
    (hlows : ∀ a, testBit Kind.low.nr (s'.status a) = true → count a ≠ 0)
    (hpending : ∀ u k a, u ≠ t → s.pc u = .set k a → pending s' a = pending s a)
    (hset : ∀ k a, p = .set k a →
      pending s' a = false ∧ (k = .low → count a ≠ 0) ∧ ∀ u k', s.pc u ≠ .set k' a)
    (hcall : p.executes → p.kind = .high) (hback : ∀ a, p.back = some a → count a ≠ 0) :
    PcInv count s' := by
  have hat : s'.pc t = p := by rw [hpc, Function.update_self]
  have hout : ∀ u, u ≠ t → s'.pc u = s.pc u := by
    intro u hu
    rw [hpc, Function.update_of_ne hu]
  refine ⟨hlows, fun u k x hu => ?_, fun u v k k' x hu hv => ?_, fun u hu => ?_, fun u x hu => ?_⟩
  · by_cases hut : u = t
    · rw [hut, hat] at hu
      obtain ⟨hclear, hdisabled, -⟩ := hset k x hu
      exact ⟨hclear, hdisabled⟩
    · rw [hout u hut] at hu
      rw [hpending u k x hut hu]
      exact h.setting u k x hu
  · by_cases hut : u = t <;> by_cases hvt : v = t
    · rw [hut, hvt]
    · rw [hut, hat] at hu
      rw [hout v hvt] at hv
      exact absurd hv ((hset k x hu).2.2 v k')
    · rw [hout u hut] at hu
      rw [hvt, hat] at hv
      exact absurd hu ((hset k' x hv).2.2 u k)
    · rw [hout u hut] at hu
      rw [hout v hvt] at hv
      exact h.setOnce u v k k' x hu hv
  · by_cases hut : u = t
    · rw [hut, hat] at hu ⊢
      exact hcall hu
    · rw [hout u hut] at hu ⊢
      exact h.calling u hu
  · by_cases hut : u = t
    · rw [hut, hat] at hu
      exact hback x hu
    · rw [hout u hut] at hu
      exact h.back u x hu

/-- A step that changes no bit. -/
theorem PcInv.keep (h : PcInv count s) (hpc : s'.pc = Function.update s.pc t p)
    (hstatus : s'.status = s.status) (hset : ∀ k a, p ≠ .set k a)
    (hcall : p.executes → p.kind = .high) (hback : ∀ a, p.back = some a → count a ≠ 0) :
    PcInv count s' := by
  refine h.step hpc ?_ (fun _ _ _ _ _ => by rw [pending_congr hstatus])
    (fun k a hp => absurd hp (hset k a)) hcall hback
  rw [hstatus]
  exact h.lows

end Contexts

/-! ## What was requested -/

section Counts

variable {s s' : SoftirqState ι α} {t : ι} {p : Pc α} {a : α}

/-- A pending request as a number. -/
def pendingNum (s : SoftirqState ι α) (a : α) : ℤ := if pending s a then 1 else 0

/-- The assist a context has started on, as a number. -/
def startedNum [DecidableEq α] (p : Pc α) (a : α) : ℤ := if p.started = some a then 1 else 0

/-- **What was requested** is what was executed, what is pending, and what contexts have started
on. -/
def CountInv (s : SoftirqState ι α) (a : α) : Prop :=
  (Threads.inside (fun p : Pc α => p.started = some a) s.pc).Finite ∧
    (s.accepted a : ℤ) = s.executed a + pendingNum s a +
      (Threads.inside (fun p : Pc α => p.started = some a) s.pc).ncard

variable [DecidableEq ι] [DecidableEq α]

/-- A step that balances the accounts of an assist. -/
theorem CountInv.step (h : CountInv s a) (hpc : s'.pc = Function.update s.pc t p)
    (hbalance : (s'.accepted a : ℤ) - s'.executed a - pendingNum s' a - startedNum p a =
      s.accepted a - s.executed a - pendingNum s a - startedNum (s.pc t) a) : CountInv s' a := by
  obtain ⟨hfin, hsum⟩ := h
  obtain ⟨hfin', hcard⟩ := Threads.ncard_move (P := fun p : Pc α => p.started = some a)
    (t := t) (k := p) hfin
  unfold CountInv
  rw [hpc]
  refine ⟨hfin', ?_⟩
  simp only [startedNum] at hbalance
  omega

end Counts

/-! ## Softirqs -/

section Wake

variable {s s' : SoftirqState ι α} {lists lists' : Place ι → List α} {t : ι} {p : Pc α}

/-- **A list that is not empty will be taken**, by the next handler or by one that is under way;
and what is activated is built. -/
structure WakeInv (s : SoftirqState ι α) (lists : Place ι → List α) : Prop where
  wake : ∀ k, lists (.head k) ≠ [] → testBit k.nr s.evens = true ∨ ∃ t, (s.pc t).willTake k
  evens : ∀ n, testBit n s.evens = true → softirqAction n ≠ none
  frames : ∀ t f n, (s.pc t).frame = some f → f.has n → softirqAction n ≠ none

/-- Activating keeps what is activated built. -/
theorem WakeInv.active (h : WakeInv s lists) {n m : ℕ}
    (hn : testBit n (softirqActive s.evens m) = true) : softirqAction n ≠ none := by
  rcases testBit_softirqActive.1 hn with hold | ⟨rfl, -, hsome⟩
  · exact h.evens n hold
  · exact Option.isSome_iff_ne_none.1 hsome

variable [DecidableEq ι]

/-- A step of one context on the softirqs. -/
theorem WakeInv.step (h : WakeInv s lists) (hpc : s'.pc = Function.update s.pc t p)
    (hwake : ∀ k, lists' (.head k) ≠ [] → testBit k.nr s'.evens = true ∨ p.willTake k ∨
      lists (.head k) ≠ [] ∧ testBit k.nr s.evens = false ∧ ¬(s.pc t).willTake k)
    (hevens : ∀ n, testBit n s'.evens = true → softirqAction n ≠ none)
    (hframe : ∀ f n, p.frame = some f → f.has n → softirqAction n ≠ none) : WakeInv s' lists' := by
  have hat : s'.pc t = p := by rw [hpc, Function.update_self]
  have hout : ∀ u, u ≠ t → s'.pc u = s.pc u := by
    intro u hu
    rw [hpc, Function.update_of_ne hu]
  refine ⟨fun k hk => ?_, hevens, fun u f n hf hn => ?_⟩
  · rcases hwake k hk with hbit | hp | ⟨hold, hnot, hnot'⟩
    · exact Or.inl hbit
    · exact Or.inr ⟨t, by rwa [hat]⟩
    · rcases h.wake k hold with hbit | ⟨u, hu⟩
      · rw [hnot] at hbit
        cases hbit
      · have hut : u ≠ t := by
          rintro rfl
          exact hnot' hu
        exact Or.inr ⟨u, by rwa [hout u hut]⟩
  · by_cases hut : u = t
    · rw [hut, hat] at hf
      exact hframe f n hf hn
    · rw [hout u hut] at hf
      exact h.frames u f n hf hn

/-- A step that activates nothing new and takes no list. -/
theorem WakeInv.keep (h : WakeInv s lists) (hpc : s'.pc = Function.update s.pc t p)
    (hevens : s'.evens = s.evens) (hlists : ∀ k, lists' (.head k) = lists (.head k))
    (hwill : ∀ k, (s.pc t).willTake k → p.willTake k)
    (hframe : ∀ f n, p.frame = some f → f.has n → softirqAction n ≠ none) : WakeInv s' lists' := by
  refine h.step hpc (fun k hk => ?_) (by rw [hevens]; exact h.evens) hframe
  rw [hlists k] at hk
  rw [hevens]
  by_cases hbit : testBit k.nr s.evens = true
  · exact Or.inl hbit
  · by_cases hp : p.willTake k
    · exact Or.inr (Or.inl hp)
    · exact Or.inr (Or.inr ⟨hk, by simpa using hbit, fun hold => hp (hwill k hold)⟩)

end Wake

end Softirq
end LightOS
