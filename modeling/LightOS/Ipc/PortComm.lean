import LightOS.Lib.Holders
import LightOS.Lib.Run

/-!
# Ports: binding and unbinding

`ipc/portcomm.c`, `sys_port_comm_bind` and `sys_port_comm_unbind`.  A pointer to a port is its
index in `port_comm_table`; of a port's message pool only its number of slots is kept here.

* `sysPortCommBind_cases`, `sysPortCommUnbind_cases` — what the two calls can do.
* `portComm_refOk` — a port in use counts the tasks bound to it, in every run in which no task
  unbinds a group port by number while it is bound to another port.
-/

namespace LightOS
namespace Port

open Holders

/-! ## The model -/

/-- `PORT_COMM_NR`. -/
abbrev portCommNr : ℕ := 32

/-- `PORT_COMM_UNNAMED_START`. -/
abbrev portCommUnnamedStart : ℕ := 8

/-- `PORT_MSG_NR`. -/
abbrev portMsgNr : ℕ := 8

/-- `PORT_COMM_USING`. -/
abbrev portCommUsing : ℕ := 1

/-- `PORT_COMM_GROUP`. -/
abbrev portCommGroup : ℕ := 2

/-- `PORT_BIND_GROUP`. -/
abbrev portBindGroup : ℕ := 1

/-- `PORT_BIND_ONCE`. -/
abbrev portBindOnce : ℕ := 2

/-- `port_comm_t`. -/
structure PortComm where
  myPort : ℤ
  msgpool : Option ℕ
  flags : ℕ
  reference : ℤ
  deriving DecidableEq

/-- `port_comm_table`, and `port_comm` of every task. -/
structure PortState where
  table : ℕ → PortComm
  portComm : ℕ → Option ℕ

/-- Replace a port. -/
def PortState.set (s : PortState) (p : ℕ) (port : PortComm) : PortState :=
  { s with table := Function.update s.table p port }

/-- A port as `port_comm_alloc` and `port_comm_realloc` initialise it. -/
def PortComm.init (port : PortComm) : PortComm :=
  { port with flags := portCommUsing, reference := 0, msgpool := none }

/-- `port_comm_alloc`. -/
def portCommAlloc (s : PortState) : Option ℕ :=
  (List.range' portCommUnnamedStart (portCommNr - portCommUnnamedStart)).find? fun i =>
    (s.table i).flags = 0

/-- `port_comm_find`. -/
def portCommFind (s : PortState) (port : ℕ) : Option ℕ :=
  (List.range portCommNr).find? fun i => (s.table i).flags ≠ 0 ∧ i = port

/-- `port_comm_free`. -/
def portCommFree (s : PortState) (p : ℕ) : PortState :=
  if p < portCommNr ∧ (s.table p).flags ≠ 0 then s.set p { s.table p with flags := 0 } else s

/-- `atomic_inc`. -/
def PortComm.inc (port : PortComm) : PortComm := { port with reference := port.reference + 1 }

/-- `atomic_dec`. -/
def PortComm.dec (port : PortComm) : PortComm := { port with reference := port.reference - 1 }

/-- A bind with the group flag makes the port a group. -/
def PortComm.join (port : PortComm) (flags : ℕ) : PortComm :=
  if flags &&& portBindGroup ≠ 0 then { port with flags := port.flags ||| portCommGroup } else port

/-- `__sys_port_comm_bind`: the port, if there is one, and what became of the table. -/
def _sysPortCommBind (s : PortState) (port : ℤ) (cur flags : ℕ) : Option (ℕ × PortState) :=
  match s.portComm cur with
  | some p =>
      if flags &&& portBindOnce ≠ 0 then some (p, s.set p ((s.table p).join flags)) else none
  | none =>
      if 0 ≤ port then
        match portCommFind s port.toNat with
        | some p =>
            if flags &&& portBindGroup ≠ 0 then
              if (s.table p).reference < 1 then none
              else some (p, s.set p ((s.table p).inc.join flags))
            else none
        | none =>
            some (port.toNat, s.set port.toNat ((s.table port.toNat).init.inc.join flags))
      else
        match portCommAlloc s with
        | none => none
        | some p => some (p, s.set p ((s.table p).init.inc.join flags))

/-- `sys_port_comm_bind`; `memOk` says whether `msgpool_create` finds memory. -/
def sysPortCommBind (s : PortState) (port : ℤ) (cur flags : ℕ) (memOk : Bool) : PortState :=
  if (portCommNr : ℤ) ≤ port then s
  else
    match _sysPortCommBind s port cur flags with
    | none => s
    | some (p, s') =>
        if flags &&& portBindOnce ≠ 0 ∧ s'.portComm cur ≠ none then s'
        else if flags &&& portBindGroup ≠ 0 ∧ 1 < (s'.table p).reference then
          { s' with portComm := take s'.portComm cur p }
        else if memOk then
          { s'.set p { s'.table p with
              msgpool := some (if port < 0 then 1 else portMsgNr)
              myPort := p } with
            portComm := take s'.portComm cur p }
        else portCommFree (s'.set p { s'.table p with msgpool := none }) p

/-- `port_comm_vertify`. -/
def portCommVertify (s : PortState) (port : ℤ) (task : ℕ) : Option ℕ :=
  match s.portComm task with
  | none => none
  | some q =>
      if 0 ≤ port then
        match portCommFind s port.toNat with
        | none => none
        | some p =>
            if (s.table p).reference < 1 then none
            else if (s.table p).flags &&& portCommGroup = 0 ∧ p ≠ q then none
            else some p
      else if (s.table q).flags = 0 then none
      else some q

/-- `sys_port_comm_unbind`. -/
def sysPortCommUnbind (s : PortState) (port : ℤ) (cur : ℕ) : PortState :=
  if (portCommNr : ℤ) ≤ port then s
  else
    match portCommVertify s port cur with
    | none => s
    | some p =>
        let s' := s.set p (s.table p).dec
        if 0 < (s'.table p).reference then { s' with portComm := leave s'.portComm cur }
        else
          portCommFree
            { s'.set p { s'.table p with msgpool := none, myPort := -1 } with
              portComm := leave s'.portComm cur } p

/-- The calls of the tasks. -/
inductive PortCall where
  | bind (task : ℕ) (port : ℤ) (flags : ℕ) (memOk : Bool)
  | unbind (task : ℕ) (port : ℤ)

/-- One call. -/
def portStep (s : PortState) : PortCall → Option PortState
  | .bind task port flags memOk => some (sysPortCommBind s port task flags memOk)
  | .unbind task port => some (sysPortCommUnbind s port task)

/-- No port is in use. -/
def portInit : PortState := ⟨fun _ => ⟨0, none, 0, 0⟩, fun _ => none⟩

/-! ## What the calls do -/

section Calls

variable {s s' : PortState} {port : ℤ} {cur flags : ℕ} {p : ℕ}

@[simp] theorem set_table_self (port : PortComm) : (s.set p port).table p = port :=
  Function.update_self ..

theorem set_table_of_ne (port : PortComm) {q : ℕ} (h : q ≠ p) :
    (s.set p port).table q = s.table q :=
  Function.update_of_ne h ..

@[simp] theorem set_portComm (port : PortComm) : (s.set p port).portComm = s.portComm := rfl

@[simp] theorem join_reference (port : PortComm) :
    (port.join flags).reference = port.reference := by
  unfold PortComm.join
  split_ifs <;> rfl

@[simp] theorem join_msgpool (port : PortComm) : (port.join flags).msgpool = port.msgpool := by
  unfold PortComm.join
  split_ifs <;> rfl

theorem join_flags_ne_zero {port : PortComm} (h : port.flags ≠ 0) :
    (port.join flags).flags ≠ 0 := by
  unfold PortComm.join
  split_ifs
  · intro hzero
    exact h (Nat.or_eq_zero_iff.1 hzero).1
  · exact h

theorem portCommFind_eq_some {n : ℕ} (h : portCommFind s n = some p) :
    p = n ∧ n < portCommNr ∧ (s.table n).flags ≠ 0 := by
  have hsome := List.find?_some h
  have hmem := List.mem_range.1 (List.mem_of_find?_eq_some h)
  rw [decide_eq_true_eq] at hsome
  obtain ⟨hflags, rfl⟩ := hsome
  exact ⟨rfl, hmem, hflags⟩

theorem portCommFind_eq_none {n : ℕ} (hn : n < portCommNr) (h : portCommFind s n = none) :
    (s.table n).flags = 0 := by
  have hnone := List.find?_eq_none.1 h n (List.mem_range.2 hn)
  simpa using hnone

theorem portCommAlloc_eq_some (h : portCommAlloc s = some p) :
    p < portCommNr ∧ (s.table p).flags = 0 := by
  have hsome := List.find?_some h
  have hmem := List.mem_range'_1.1 (List.mem_of_find?_eq_some h)
  rw [decide_eq_true_eq] at hsome
  exact ⟨hmem.2, hsome⟩

/-- The port stays out of use, or stays in use with its count and its pool. -/
def SamePort (port port' : PortComm) : Prop :=
  port.flags = 0 ∧ port'.flags = 0 ∨
    port.flags ≠ 0 ∧ port'.flags ≠ 0 ∧ port'.reference = port.reference ∧
      port'.msgpool = port.msgpool

theorem samePort_refl (port : PortComm) : SamePort port port := by
  by_cases h : port.flags = 0
  · exact Or.inl ⟨h, h⟩
  · exact Or.inr ⟨h, h, rfl, rfl⟩

/-- Port `p` gets one more task. -/
structure Gains (s s' : PortState) (cur p : ℕ) : Prop where
  lt : p < portCommNr
  free : s.portComm cur = none
  taken : s'.portComm = take s.portComm cur p
  others : ∀ q, q ≠ p → s'.table q = s.table q
  inUse : (s'.table p).flags ≠ 0
  counts : (s.table p).flags = 0 ∧ (s'.table p).reference = 1 ∧ (s'.table p).msgpool ≠ none ∨
    (s.table p).flags ≠ 0 ∧ (s'.table p).reference = (s.table p).reference + 1 ∧
      (s'.table p).msgpool = (s.table p).msgpool

/-- What `__sys_port_comm_bind` returns: the port of the task, a port it joins, or a new one. -/
theorem _sysPortCommBind_cases (hport : port < portCommNr)
    (h : _sysPortCommBind s port cur flags = some (p, s')) :
    (s.portComm cur = some p ∧ flags &&& portBindOnce ≠ 0 ∧ s' = s.set p ((s.table p).join flags)) ∨
      s.portComm cur = none ∧ p < portCommNr ∧
        ((flags &&& portBindGroup ≠ 0 ∧ (s.table p).flags ≠ 0 ∧ 1 ≤ (s.table p).reference ∧
            s' = s.set p ((s.table p).inc.join flags)) ∨
          (s.table p).flags = 0 ∧ s' = s.set p ((s.table p).init.inc.join flags)) := by
  unfold _sysPortCommBind at h
  cases hcur : s.portComm cur with
  | some q =>
      simp only [hcur] at h
      split_ifs at h with honce
      rw [Option.some.injEq, Prod.mk.injEq] at h
      obtain ⟨rfl, rfl⟩ := h
      exact Or.inl ⟨rfl, honce, rfl⟩
  | none =>
      simp only [hcur] at h
      refine Or.inr ⟨rfl, ?_⟩
      by_cases hpos : 0 ≤ port
      · have hlt : port.toNat < portCommNr := by omega
        rw [if_pos hpos] at h
        cases hfind : portCommFind s port.toNat with
        | some q =>
            simp only [hfind] at h
            split_ifs at h with hgroup href
            rw [Option.some.injEq, Prod.mk.injEq] at h
            obtain ⟨rfl, rfl⟩ := h
            obtain ⟨rfl, -, hflags⟩ := portCommFind_eq_some hfind
            exact ⟨hlt, Or.inl ⟨hgroup, hflags, not_lt.1 href, rfl⟩⟩
        | none =>
            simp only [hfind, Option.some.injEq, Prod.mk.injEq] at h
            obtain ⟨rfl, rfl⟩ := h
            exact ⟨hlt, Or.inr ⟨portCommFind_eq_none hlt hfind, rfl⟩⟩
      · rw [if_neg hpos] at h
        cases halloc : portCommAlloc s with
        | none => simp [halloc] at h
        | some q =>
            simp only [halloc, Option.some.injEq, Prod.mk.injEq] at h
            obtain ⟨rfl, rfl⟩ := h
            obtain ⟨hlt, hflags⟩ := portCommAlloc_eq_some halloc
            exact ⟨hlt, Or.inr ⟨hflags, rfl⟩⟩

/-- **A bind** changes nothing that counts, or gives a port one more task. -/
theorem sysPortCommBind_cases (hbound : ∀ t q, s.portComm t = some q → (s.table q).flags ≠ 0)
    (memOk : Bool) (h : sysPortCommBind s port cur flags memOk = s') :
    (s'.portComm = s.portComm ∧ ∀ q, SamePort (s.table q) (s'.table q)) ∨
      ∃ p, Gains s s' cur p := by
  unfold sysPortCommBind at h
  by_cases hport : (portCommNr : ℤ) ≤ port
  · rw [if_pos hport] at h
    exact Or.inl ⟨by rw [h], fun q => by rw [h]; exact samePort_refl _⟩
  rw [if_neg hport] at h
  cases hbind : _sysPortCommBind s port cur flags with
  | none =>
      simp only [hbind] at h
      exact Or.inl ⟨by rw [h], fun q => by rw [h]; exact samePort_refl _⟩
  | some r =>
      obtain ⟨p, t⟩ := r
      simp only [hbind] at h
      rcases _sysPortCommBind_cases (not_le.1 hport) hbind with
        ⟨hcur, honce, rfl⟩ | ⟨hcur, hlt, ⟨hgroup, hflags, href, rfl⟩ | ⟨hflags, rfl⟩⟩
      · -- bound already: at most the group flag is set
        rw [if_pos ⟨honce, by rw [set_portComm, hcur]; simp⟩] at h
        subst h
        refine Or.inl ⟨rfl, fun q => ?_⟩
        by_cases hq : q = p
        · subst hq
          rw [set_table_self]
          exact Or.inr ⟨hbound cur q hcur, join_flags_ne_zero (hbound cur q hcur), join_reference _,
            join_msgpool _⟩
        · rw [set_table_of_ne _ hq]
          exact samePort_refl _
      · -- the task joins the group
        have hmany : 1 < ((s.table p).inc.join flags).reference := by
          rw [join_reference]
          exact Int.lt_add_one_iff.2 href
        rw [if_neg (by rw [set_portComm, hcur]; simp), if_pos ⟨hgroup, by rwa [set_table_self]⟩]
          at h
        subst h
        refine Or.inr ⟨p, hlt, hcur, rfl, fun q hq => set_table_of_ne _ hq, ?_,
          Or.inr ⟨hflags, ?_, ?_⟩⟩
        · show ((s.set p _).table p).flags ≠ 0
          rw [set_table_self]
          exact join_flags_ne_zero hflags
        · show ((s.set p _).table p).reference = _
          rw [set_table_self, join_reference]
          rfl
        · show ((s.set p _).table p).msgpool = _
          rw [set_table_self, join_msgpool]
          rfl
      · -- a new port
        have hone : ((s.table p).init.inc.join flags).reference = 1 := by
          rw [join_reference]
          rfl
        rw [if_neg (by rw [set_portComm, hcur]; simp),
          if_neg (by rw [set_table_self, hone]; simp)] at h
        cases memOk with
        | true =>
            rw [if_pos rfl] at h
            subst h
            refine Or.inr ⟨p, hlt, hcur, rfl, fun q hq => ?_, ?_, Or.inl ⟨hflags, ?_, ?_⟩⟩
            · exact (set_table_of_ne _ hq).trans (set_table_of_ne _ hq)
            · simp only [set_table_self]
              exact join_flags_ne_zero (Nat.one_ne_zero)
            · simp only [set_table_self]
              exact hone
            · simp only [set_table_self]
              exact Option.some_ne_none _
        | false =>
            rw [if_neg Bool.false_ne_true] at h
            unfold portCommFree at h
            rw [if_pos ⟨hlt, by
              rw [set_table_self, set_table_self]
              exact join_flags_ne_zero Nat.one_ne_zero⟩] at h
            subst h
            refine Or.inl ⟨rfl, fun q => ?_⟩
            by_cases hq : q = p
            · subst hq
              exact Or.inl ⟨hflags, by rw [set_table_self]⟩
            · rw [set_table_of_ne _ hq, set_table_of_ne _ hq, set_table_of_ne _ hq]
              exact samePort_refl _

/-- Port `p` loses a task, and is freed if that was the last. -/
structure Loses (s s' : PortState) (cur p : ℕ) : Prop where
  lt : p < portCommNr
  inUse : (s.table p).flags ≠ 0
  left : s'.portComm = leave s.portComm cur
  others : ∀ q, q ≠ p → s'.table q = s.table q
  counts : 1 < (s.table p).reference ∧ (s'.table p).flags ≠ 0 ∧
      (s'.table p).reference = (s.table p).reference - 1 ∧
        (s'.table p).msgpool = (s.table p).msgpool ∨
    (s.table p).reference ≤ 1 ∧ (s'.table p).flags = 0

/-- What `port_comm_vertify` returns. -/
theorem portCommVertify_cases (h : portCommVertify s port cur = some p) :
    ∃ q, s.portComm cur = some q ∧ (s.table p).flags ≠ 0 ∧
      (p = q ∨ 0 ≤ port ∧ port.toNat = p ∧ (s.table p).flags &&& portCommGroup ≠ 0) := by
  unfold portCommVertify at h
  cases hcur : s.portComm cur with
  | none => simp [hcur] at h
  | some q =>
      simp only [hcur] at h
      refine ⟨q, rfl, ?_⟩
      by_cases hpos : 0 ≤ port
      · rw [if_pos hpos] at h
        cases hfind : portCommFind s port.toNat with
        | none => simp [hfind] at h
        | some r =>
            simp only [hfind] at h
            split_ifs at h with href hgroup
            rw [Option.some.injEq] at h
            subst h
            obtain ⟨rfl, -, hflags⟩ := portCommFind_eq_some hfind
            refine ⟨hflags, ?_⟩
            by_cases hq : port.toNat = q
            · exact Or.inl hq
            · exact Or.inr ⟨hpos, rfl, fun hzero => hgroup ⟨hzero, hq⟩⟩
      · rw [if_neg hpos] at h
        split_ifs at h with hflags
        rw [Option.some.injEq] at h
        subst h
        exact ⟨hflags, Or.inl rfl⟩

/-- **An unbind** does nothing, or takes a task from the port that `port_comm_vertify` returned. -/
theorem sysPortCommUnbind_cases (hlt : ∀ t q, s.portComm t = some q → q < portCommNr)
    (h : sysPortCommUnbind s port cur = s') :
    s' = s ∨ ∃ p, port < portCommNr ∧ portCommVertify s port cur = some p ∧ Loses s s' cur p := by
  unfold sysPortCommUnbind at h
  by_cases hport : (portCommNr : ℤ) ≤ port
  · rw [if_pos hport] at h
    exact Or.inl h.symm
  rw [if_neg hport] at h
  cases hvertify : portCommVertify s port cur with
  | none =>
      simp only [hvertify] at h
      exact Or.inl h.symm
  | some p =>
      simp only [hvertify, set_table_self, set_portComm] at h
      obtain ⟨q, hcur, hflags, hp⟩ := portCommVertify_cases hvertify
      have hp32 : p < portCommNr := by
        rcases hp with rfl | ⟨-, rfl, -⟩
        · exact hlt cur p hcur
        · have hlow : port < 32 := not_le.1 hport
          show port.toNat < 32
          omega
      refine Or.inr ⟨p, not_le.1 hport, rfl, ?_⟩
      by_cases hmany : 0 < (s.table p).dec.reference
      · rw [if_pos hmany] at h
        subst h
        refine ⟨hp32, hflags, rfl, fun q hq => set_table_of_ne _ hq, Or.inl ⟨?_, ?_, ?_, ?_⟩⟩
        · exact Int.sub_pos.1 hmany
        · simp only [set_table_self]
          exact hflags
        · simp only [set_table_self]
          rfl
        · simp only [set_table_self]
          rfl
      · rw [if_neg hmany] at h
        unfold portCommFree at h
        rw [if_pos ⟨hp32, by simp only [set_table_self]; exact hflags⟩] at h
        subst h
        refine ⟨hp32, hflags, rfl, fun q hq => ?_, Or.inr ⟨?_, ?_⟩⟩
        · rw [set_table_of_ne _ hq]
          exact (set_table_of_ne _ hq).trans (set_table_of_ne _ hq)
        · exact sub_nonpos.1 (not_lt.1 hmany)
        · rw [set_table_self]

end Calls

/-! ## References -/

/-- A port in use counts the tasks bound to it, which are some; no task is bound to a port that
is not in use. -/
structure RefOk (s : PortState) : Prop where
  reference : ∀ p, (s.table p).flags ≠ 0 →
    (s.table p).reference = (holders s.portComm p).ncard ∧ 1 ≤ (s.table p).reference
  bound : ∀ t p, s.portComm t = some p → (s.table p).flags ≠ 0

/-- The invariant: counted ports have a pool, and only the table's ports are used. -/
structure PortInv (s : PortState) : Prop extends RefOk s where
  finite : ∀ p, (holders s.portComm p).Finite
  lt : ∀ t p, s.portComm t = some p → p < portCommNr
  pool : ∀ p, (s.table p).flags ≠ 0 → (s.table p).msgpool ≠ none

/-- An unbind that names a group port in use is made by a task bound to that port, or to none. -/
def PortCallOk (s : PortState) : PortCall → Prop
  | .bind _ _ _ _ => True
  | .unbind task port =>
      0 ≤ port → port < portCommNr → (s.table port.toNat).flags &&& portCommGroup ≠ 0 →
        s.portComm task = some port.toNat ∨ s.portComm task = none

instance (s : PortState) : DecidablePred (PortCallOk s)
  | .bind _ _ _ _ => isTrue trivial
  | .unbind task port =>
      inferInstanceAs (Decidable (0 ≤ port → port < portCommNr →
        (s.table port.toNat).flags &&& portCommGroup ≠ 0 →
          s.portComm task = some port.toNat ∨ s.portComm task = none))

section Invariant

variable {s s' : PortState} {cur p : ℕ}

theorem portInv_same (h : PortInv s) (hbound : s'.portComm = s.portComm)
    (hsame : ∀ q, SamePort (s.table q) (s'.table q)) : PortInv s' := by
  refine ⟨⟨fun q hq => ?_, fun t q ht => ?_⟩, ?_, ?_, fun q hq => ?_⟩
  · rcases hsame q with ⟨-, hzero⟩ | ⟨hflags, -, href, -⟩
    · exact absurd hzero hq
    · rw [href, hbound]
      exact h.reference q hflags
  · rw [hbound] at ht
    rcases hsame q with ⟨hzero, -⟩ | ⟨-, hflags, -⟩
    · exact absurd hzero (h.bound t q ht)
    · exact hflags
  · rw [hbound]; exact h.finite
  · rw [hbound]; exact h.lt
  · rcases hsame q with ⟨-, hzero⟩ | ⟨hflags, -, -, hpool⟩
    · exact absurd hzero hq
    · rw [hpool]
      exact h.pool q hflags

/-- A port that is not in use has no task. -/
theorem holders_eq_empty (h : PortInv s) (hflags : (s.table p).flags = 0) :
    holders s.portComm p = ∅ :=
  Set.eq_empty_of_forall_notMem fun t ht => h.bound t p ht hflags

theorem portInv_gains (h : PortInv s) (hgains : Gains s s' cur p) : PortInv s' := by
  have hcount := ncard_take (h.finite p) hgains.free
  have hother : ∀ q, q ≠ p → holders s'.portComm q = holders s.portComm q := fun q hq => by
    rw [hgains.taken]
    exact holders_take_of_ne hgains.free hq
  refine ⟨⟨fun q hq => ?_, fun t q ht => ?_⟩, fun q => ?_, fun t q ht => ?_, fun q hq => ?_⟩
  · by_cases hqp : q = p
    · subst hqp
      rw [hgains.taken, hcount]
      rcases hgains.counts with ⟨hflags, href, -⟩ | ⟨hflags, href, -⟩
      · rw [href, holders_eq_empty h hflags, Set.ncard_empty]
        exact ⟨rfl, le_rfl⟩
      · obtain ⟨hold, hpos⟩ := h.reference q hflags
        rw [href, hold]
        exact ⟨rfl, by omega⟩
    · rw [hother q hqp, hgains.others q hqp] at *
      exact h.reference q hq
  · rw [hgains.taken, take_eq_some] at ht
    by_cases hqp : q = p
    · rw [hqp]
      exact hgains.inUse
    · rw [hgains.others q hqp]
      rcases ht with ⟨-, rfl⟩ | ⟨-, ht⟩
      · exact absurd rfl hqp
      · exact h.bound t q ht
  · by_cases hqp : q = p
    · rw [hqp, hgains.taken, holders_take]
      exact (h.finite p).insert cur
    · rw [hother q hqp]
      exact h.finite q
  · rw [hgains.taken, take_eq_some] at ht
    rcases ht with ⟨-, rfl⟩ | ⟨-, ht⟩
    · exact hgains.lt
    · exact h.lt t q ht
  · by_cases hqp : q = p
    · rw [hqp]
      rcases hgains.counts with ⟨-, -, hpool⟩ | ⟨hflags, -, hpool⟩
      · exact hpool
      · rw [hpool]
        exact h.pool p hflags
    · rw [hgains.others q hqp] at hq ⊢
      exact h.pool q hq

theorem portInv_loses (h : PortInv s) (hcur : s.portComm cur = some p) (hloses : Loses s s' cur p) :
    PortInv s' ∧ ((s'.table p).flags = 0 → holders s'.portComm p = ∅) := by
  have hcount := ncard_leave (h.finite p) hcur
  have hother : ∀ q, q ≠ p → holders s'.portComm q = holders s.portComm q := fun q hq => by
    rw [hloses.left]
    exact holders_leave_of_ne hcur hq
  obtain ⟨hold, hpos⟩ := h.reference p hloses.inUse
  have hfin : (holders s'.portComm p).Finite := by
    rw [hloses.left, holders_leave]
    exact (h.finite p).sdiff
  have hempty : (s'.table p).flags = 0 → holders s'.portComm p = ∅ := by
    intro hzero
    rcases hloses.counts with ⟨-, hflags, -⟩ | ⟨hone, -⟩
    · exact absurd hzero hflags
    · rw [← Set.ncard_eq_zero hfin, hloses.left]
      omega
  refine ⟨⟨⟨fun q hq => ?_, fun t q ht => ?_⟩, fun q => ?_, fun t q ht => ?_, fun q hq => ?_⟩,
    hempty⟩
  · by_cases hqp : q = p
    · subst hqp
      rw [hloses.left]
      rcases hloses.counts with ⟨hmany, -, href, -⟩ | ⟨-, hzero⟩
      · rw [href]
        omega
      · exact absurd hzero hq
    · rw [hother q hqp, hloses.others q hqp] at *
      exact h.reference q hq
  · by_cases hqp : q = p
    · subst hqp
      intro hzero
      exact absurd (mem_holders.2 ht) (by rw [hempty hzero]; exact Set.notMem_empty t)
    · rw [hloses.left, leave_eq_some] at ht
      rw [hloses.others q hqp]
      exact h.bound t q ht.2
  · by_cases hqp : q = p
    · rw [hqp]
      exact hfin
    · rw [hother q hqp]
      exact h.finite q
  · rw [hloses.left, leave_eq_some] at ht
    exact h.lt t q ht.2
  · by_cases hqp : q = p
    · subst hqp
      rcases hloses.counts with ⟨-, -, -, hpool⟩ | ⟨-, hzero⟩
      · rw [hpool]
        exact h.pool q hloses.inUse
      · exact absurd hzero hq
    · rw [hloses.others q hqp] at hq ⊢
      exact h.pool q hq

/-- The call destroys the pool of `p` as the last task bound to it unbinds. -/
def LastUnbinds (s s' : PortState) (call : PortCall) (p : ℕ) : Prop :=
  ∃ task port, call = .unbind task port ∧ s.portComm task = some p ∧ holders s'.portComm p = ∅

/-- Under the condition, an unbind is from the port the task is bound to. -/
theorem portComm_eq_of_vertify {port : ℤ} (hok : PortCallOk s (.unbind cur port))
    (hport : port < portCommNr) (h : portCommVertify s port cur = some p) :
    s.portComm cur = some p := by
  obtain ⟨q, hcur, -, rfl | ⟨hpos, rfl, hgroup⟩⟩ := portCommVertify_cases h
  · exact hcur
  · rcases hok hpos hport hgroup with hsame | hnone
    · exact hsame
    · rw [hnone] at hcur
      cases hcur

theorem portInv_step (h : PortInv s) {call : PortCall} (hok : PortCallOk s call)
    (hstep : portStep s call = some s') :
    PortInv s' ∧ ∀ p, (s.table p).flags ≠ 0 → (s'.table p).msgpool = none →
      LastUnbinds s s' call p := by
  cases call with
  | bind task port flags memOk =>
      rw [portStep, Option.some.injEq] at hstep
      rcases sysPortCommBind_cases h.bound memOk hstep with ⟨hbound, hsame⟩ | ⟨p, hgains⟩
      · refine ⟨portInv_same h hbound hsame, fun q hq hnone => ?_⟩
        rcases hsame q with ⟨hzero, -⟩ | ⟨-, -, -, hpool⟩
        · exact absurd hzero hq
        · exact absurd (hpool.symm.trans hnone) (h.pool q hq)
      · refine ⟨portInv_gains h hgains, fun q hq hnone => ?_⟩
        by_cases hqp : q = p
        · subst hqp
          exact absurd hnone ((portInv_gains h hgains).pool q hgains.inUse)
        · rw [hgains.others q hqp] at hnone
          exact absurd hnone (h.pool q hq)
  | unbind task port =>
      rw [portStep, Option.some.injEq] at hstep
      rcases sysPortCommUnbind_cases h.lt hstep with rfl | ⟨p, hport, hvertify, hloses⟩
      · exact ⟨h, fun q hq hnone => absurd hnone (h.pool q hq)⟩
      · have hcur := portComm_eq_of_vertify hok hport hvertify
        obtain ⟨hinv, hempty⟩ := portInv_loses h hcur hloses
        refine ⟨hinv, fun q hq hnone => ?_⟩
        by_cases hqp : q = p
        · subst hqp
          by_cases hflags : (s'.table q).flags = 0
          · exact ⟨task, port, rfl, hcur, hempty hflags⟩
          · exact absurd hnone (hinv.pool q hflags)
        · rw [hloses.others q hqp] at hnone
          exact absurd hnone (h.pool q hq)

theorem portInv_init : PortInv portInit where
  reference := fun _ h => absurd rfl h
  bound := fun _ _ h => by cases h
  finite := fun p => by
    have hempty : holders portInit.portComm p = ∅ :=
      Set.eq_empty_of_forall_notMem fun t ht => by cases ht
    rw [hempty]
    exact Set.finite_empty
  lt := fun _ _ h => by cases h
  pool := fun _ h => absurd rfl h

end Invariant

/-- **Reference counts.**  In every run in which no task unbinds a group port by number while it
is bound to another port, a port in use counts the tasks bound to it, no task is bound to a port
that is not in use, and only the last task to unbind takes the pool with it. -/
theorem portComm_refOk (calls : List PortCall) (s : PortState)
    (hok : Run.Along portStep PortCallOk portInit calls)
    (hrun : Run.exec portStep portInit calls = some s) :
    RefOk s ∧ ∀ call s', PortCallOk s call → portStep s call = some s' →
      ∀ p, (s.table p).flags ≠ 0 → (s'.table p).msgpool = none → LastUnbinds s s' call p := by
  have hinv : PortInv s := Run.exec_invariant
    (fun s call s' h hok hstep => (portInv_step h hok hstep).1) calls portInit s portInv_init hok
    hrun
  exact ⟨hinv.toRefOk, fun call s' hcall hstep => (portInv_step hinv hcall hstep).2⟩

/-- Two tasks in a group, and one leaves it. -/
def groupOfTwo : List PortCall :=
  [.bind 1 3 portBindGroup true, .bind 2 3 portBindGroup true, .unbind 1 3]

theorem portComm_refOk_groupOfTwo : ∃ s, Run.exec portStep portInit groupOfTwo = some s ∧
    (s.table 3).reference = 1 ∧ s.portComm 2 = some 3 ∧
    RefOk s ∧ ∀ call s', PortCallOk s call → portStep s call = some s' →
      ∀ p, (s.table p).flags ≠ 0 → (s'.table p).msgpool = none → LastUnbinds s s' call p := by
  obtain ⟨s, hs, href, hbound⟩ : ∃ s, Run.exec portStep portInit groupOfTwo = some s ∧
      (s.table 3).reference = 1 ∧ s.portComm 2 = some 3 := ⟨_, rfl, by decide, by decide⟩
  exact ⟨s, hs, href, hbound, portComm_refOk groupOfTwo s (by decide +kernel) hs⟩

/-- Task 2, bound to port 4, unbinds group port 3, whose only task is 1: port 3 and its pool are
gone while task 1 is bound to it, and port 4 counts a task it does not have. -/
theorem portComm_not_refOk : ∃ s, Run.exec portStep portInit
      [.bind 1 3 portBindGroup true, .bind 2 4 0 true, .unbind 2 3] = some s ∧
    s.portComm 1 = some 3 ∧ (s.table 3).flags = 0 ∧ (s.table 3).msgpool = none ∧
    (s.table 4).reference = 1 ∧ s.portComm 2 = none ∧ ¬ RefOk s := by
  refine ⟨_, rfl, by decide, by decide, by decide, by decide, by decide, ?_⟩
  exact fun h => h.bound 1 3 (by decide) (by decide)

end Port
end LightOS
