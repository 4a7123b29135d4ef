import LightOS.Kern.ExceptionBasic

/-!
# Delivery of exceptions

Which exceptions get through.  `EXP_CODE_FINALHIT` and `EXP_CODE_STOP` can neither be blocked
nor caught, and `exception_force` takes a code out of the block mask before it sends it.
An uncaught `EXP_CODE_CONT` is used up at once: all it does is wake a target that is stopped.

* `excStep_block` — the block mask of a code is set by `sys_expblock` of that code only.
* `exceptionSend_pends_iff` — which exceptions get on a list.
* `exception_delivered_iff` — when the two codes and forced exceptions do.
-/

namespace LightOS
namespace Exceptions

open WaitQueue (ExceptionManager exceptionWasBlocked exceptionCanCatch expCodeFinalhit
  expCodeStop expCodeCont expCodeMaxNr)

/-! ## Frames -/

theorem foldl_memFree_eq (l : List ExpPtr) (s : ExcState) :
    ∃ live, l.foldl memFree s = { s with live := live } := by
  induction l generalizing s with
  | nil => exact ⟨s.live, rfl⟩
  | cons r l ih =>
    obtain ⟨live, hlive⟩ := ih (memFree s r)
    exact ⟨live, hlive⟩

/-- `exception_manager_exit` frees memory and clears three fields of the manager. -/
theorem exceptionManagerExit_eq (s : ExcState) (t : ℕ) :
    ∃ live, exceptionManagerExit s t =
      { s with
        live := live
        mgr := Function.update s.mgr t
          { s.mgr t with number := fun _ => 0, inUserMode := false } } := by
  obtain ⟨live, hnormal⟩ := foldl_memFree_eq ((s.mgr t).list .normal) s
  obtain ⟨live', hcaught⟩ := foldl_memFree_eq ((s.mgr t).list .caught) { s with live := live }
  refine ⟨live', ?_⟩
  simp only [exceptionManagerExit, hnormal, hcaught]
  rfl

/-! ## The block mask -/

/-- The manager of `t` in `s'` blocks no more than it does in `s`. -/
def BlocksLess (t code : ℕ) (s s' : ExcState) : Prop :=
  (s.mgr t).exceptionBlock code = false → (s'.mgr t).exceptionBlock code = false

theorem blocksLess_of_eq {t code : ℕ} {s s' : ExcState}
    (h : ∀ j, (s'.mgr j).exceptionBlock = (s.mgr j).exceptionBlock) : BlocksLess t code s s' := by
  intro hb
  rwa [h t]

theorem blocksLess_setMgr {t code : ℕ} {s : ExcState} {j : ℕ} {m : Manager}
    (h : j = t → (s.mgr t).exceptionBlock code = false → m.exceptionBlock code = false) :
    BlocksLess t code s (s.setMgr j m) := by
  intro hb
  by_cases hj : j = t
  · subst hj
    simpa [ExcState.setMgr] using h rfl hb
  · simpa [ExcState.setMgr, Function.update_of_ne (Ne.symm hj)] using hb

theorem exceptionSetCatch_block (m : Manager) (code : ℕ) (on : Bool) :
    (exceptionSetCatch m code on).1.exceptionBlock = m.exceptionBlock := by
  unfold exceptionSetCatch
  split <;> rfl

theorem sysExpcatch_block (m : Manager) (vmm : Bool) (code handler : ℕ) :
    (sysExpcatch m vmm code handler).1.exceptionBlock = m.exceptionBlock := by
  unfold sysExpcatch
  have hset := exceptionSetCatch_block m code (handler != 0)
  split
  · rfl
  · split
    · rfl
    · simp only
      split
      · exact hset
      · exact hset

theorem exceptionSetBlock_block (m : Manager) (c : ℕ) (on : Bool) {code : ℕ}
    (h : m.exceptionBlock code = false) (hon : c = code → on = false) :
    (exceptionSetBlock m c on).exceptionBlock code = false := by
  unfold exceptionSetBlock
  split
  · exact h
  · by_cases hc : code = c
    · subst hc
      simpa using hon rfl
    · simpa [Function.update_of_ne hc] using h

/-- Putting a record on a list leaves the masks alone. -/
theorem exceptionAdd_block (k : Kind) (s : ExcState) (t : ℕ) (r : ExpPtr) (e : Exp) (j : ℕ) :
    ((exceptionAdd k (exceptionCreate s r e) t r).mgr j).exceptionBlock =
      (s.mgr j).exceptionBlock := by
  by_cases hj : j = t
  · subst hj
    simp [exceptionAdd, exceptionCreate, ExcState.setMgr, Manager.add]
  · simp [exceptionAdd, exceptionCreate, ExcState.setMgr, Function.update_of_ne hj]

theorem exceptionManagerExit_block (s : ExcState) (t j : ℕ) :
    ((exceptionManagerExit s t).mgr j).exceptionBlock = (s.mgr j).exceptionBlock := by
  obtain ⟨live, h⟩ := exceptionManagerExit_eq s t
  rw [h]
  by_cases hj : j = t
  · subst hj
    simp
  · simp [Function.update_of_ne hj]

theorem exceptionSend_block (s : ExcState) (pid : ℤ) (target : Option ℕ) (code source : ℕ)
    (mem : Option ExpPtr) (j : ℕ) :
    ((exceptionSend s pid target code source mem).1.mgr j).exceptionBlock =
      (s.mgr j).exceptionBlock := by
  have hadd : ∀ k t e, ((sendRecord (exceptionAdd k) s t e mem).1.mgr j).exceptionBlock =
      (s.mgr j).exceptionBlock := by
    intro k t e
    cases mem with
    | none => rfl
    | some r => exact exceptionAdd_block ..
  unfold exceptionSend
  split
  · rfl
  · cases target with
    | none => rfl
    | some t =>
      simp only
      split
      · rfl
      · split
        · exact hadd .caught t _
        · split
          · rfl
          · exact hadd .normal t _

/-- The call sets the bit of `code` in the block mask of `t`. -/
def Blocks (t code : ℕ) : Call → Bool
  | .expblock t' code' state => t' = t && code' = code && state != 0
  | _ => false

/-- A code gets into the block mask of a task by its own `sys_expblock` of that code, and in no
other way. -/
theorem excStep_block {s s' : ExcState} {c : Call} (hstep : excStep s c = some s') {t code : ℕ}
    (hc : Blocks t code c = false) : BlocksLess t code s s' := by
  cases moves_of_excStep hstep with
  | send pid target code' source mem hmem =>
    exact blocksLess_of_eq fun j => exceptionSend_block _ _ _ _ _ _ j
  | unblock t' code' =>
    apply blocksLess_setMgr
    intro hj hb
    exact exceptionSetBlock_block _ _ _ (hj ▸ hb) fun _ => rfl
  | expblock t' code' state =>
    apply blocksLess_setMgr
    intro hj hb
    unfold sysExpblock
    split
    · exact hj ▸ hb
    · apply exceptionSetBlock_block _ _ _ (hj ▸ hb)
      intro hcode
      simpa [Blocks, hj, hcode] using hc
  | expcatch t' vmm code' handler =>
    apply blocksLess_setMgr
    intro hj hb
    rw [sysExpcatch_block, hj]
    exact hb
  | expReturn t' => exact blocksLess_setMgr fun hj hb => hj ▸ hb
  | checkEmpty t' => exact blocksLess_of_eq fun _ => rfl
  | checkKernel t' hpos => exact blocksLess_of_eq fun _ => rfl
  | kernelTurn t' hpos =>
    unfold kernelTurn
    split
    · exact blocksLess_of_eq fun _ => rfl
    · apply blocksLess_setMgr
      intro hj hb
      exact hj ▸ hb
  | checkUser t' hpos =>
    unfold exceptionCheckUser
    split
    · exact blocksLess_of_eq fun _ => rfl
    · split
      · exact blocksLess_of_eq fun _ => rfl
      · apply blocksLess_setMgr
        intro hj hb
        exact hj ▸ hb
  | handle t' r hpos =>
    unfold exceptionHandle
    simp only
    split
    · apply blocksLess_setMgr
      intro hj hb
      exact hj ▸ hb
    · exact blocksLess_of_eq fun _ => rfl
  | copy t' dest hpos hdest => exact blocksLess_setMgr fun _ _ => rfl
  | copyNext t' dest k i mem hpos hmem =>
    unfold exceptionCopyNext
    split
    · exact blocksLess_of_eq fun _ => rfl
    · split
      · exact blocksLess_of_eq fun j => exceptionManagerExit_block _ _ j
      · exact blocksLess_of_eq fun j => exceptionAdd_block _ _ _ _ _ j
  | managerExit t' hpos => exact blocksLess_of_eq fun j => exceptionManagerExit_block _ _ j

/-- In a run without such calls a code that is not blocked stays so. -/
theorem exec_block {t code : ℕ} (calls : List Call) (s s' : ExcState)
    (hrun : Run.exec excStep s calls = some s') (hc : ∀ c ∈ calls, Blocks t code c = false)
    (hb : (s.mgr t).exceptionBlock code = false) : (s'.mgr t).exceptionBlock code = false :=
  Run.exec_invariant (I := fun s => (s.mgr t).exceptionBlock code = false)
    (P := fun _ c => Blocks t code c = false)
    (fun _ _ _ hb hc hstep => excStep_block hstep hc hb) calls s s' hb
    (Run.along_of_mem calls s hc) hrun

/-! ## Delivery -/

/-- The exception is at the end of the list, in a record of its own, and the other list is as
it was; or there was no memory for it and nothing has changed. -/
def Delivered (s : ExcState) (t : ℕ) (k : Kind) (e : Exp) (mem : Option ExpPtr)
    (res : ExcState × ℤ) : Prop :=
  match mem with
  | none => res = (s, -enomem)
  | some r =>
      res.2 = 0 ∧ (res.1.mgr t).list k = (s.mgr t).list k ++ [r] ∧
        (∀ j, j ≠ k → (res.1.mgr t).list j = (s.mgr t).list j) ∧
        res.1.recs r = e ∧ res.1.live r = true

theorem delivered_add (s : ExcState) (t : ℕ) (k : Kind) (e : Exp) (r : ExpPtr) :
    Delivered s t k e (some r) (exceptionAdd k (exceptionCreate s r e) t r, 0) := by
  refine ⟨rfl, ?_, fun j hj => ?_, ?_, ?_⟩
  · simp [exceptionAdd, exceptionCreate, ExcState.setMgr, Manager.add]
  · simp [exceptionAdd, exceptionCreate, ExcState.setMgr, Manager.add, Function.update_of_ne hj]
  · simp [exceptionAdd, exceptionCreate, ExcState.setMgr]
  · simp [exceptionAdd, exceptionCreate, ExcState.setMgr]

/-- The exception is at the end of one of the two lists. -/
def Pends (s : ExcState) (t : ℕ) (e : Exp) (r : ExpPtr) (res : ExcState × ℤ) : Prop :=
  ∃ k, Delivered s t k e (some r) res

/-- Nothing is delivered by a call that changes nothing. -/
theorem not_pends_self (s : ExcState) (t : ℕ) (e : Exp) (r : ExpPtr) (ret : ℤ) :
    ¬ Pends s t e r (s, ret) := by
  rintro ⟨k, -, hlist, -⟩
  exact absurd hlist (by simp)

/-- **Which exceptions get through**: codes there are, neither blocked nor held up by a handler,
and not an uncaught `EXP_CODE_CONT`. -/
theorem exceptionSend_pends_iff (s : ExcState) (t code source : ℕ) {pid : ℤ} (hpid : 0 ≤ pid)
    (r : ExpPtr) :
    Pends s t ⟨code, source, 0⟩ r (exceptionSend s pid (some t) code source (some r)) ↔
      code < expCodeMaxNr ∧ (s.mgr t).inUserMode = false ∧
        exceptionWasBlocked (s.mgr t).toExceptionManager code = false ∧ code ≠ expCodeCont := by
  unfold exceptionSend
  by_cases hcode : code < expCodeMaxNr
  · rw [if_neg (show ¬(expCodeMaxNr ≤ code ∨ pid < 0) by omega)]
    simp only
    by_cases hgate : (exceptionWasBlocked (s.mgr t).toExceptionManager code ||
      (s.mgr t).inUserMode) = true
    · rw [if_pos hgate]
      refine iff_of_false (not_pends_self s t _ r _) fun ⟨_, hmode, hopen, _⟩ => ?_
      rw [hmode, hopen] at hgate
      cases hgate
    · rw [if_neg hgate]
      rw [Bool.or_eq_true, not_or, Bool.not_eq_true, Bool.not_eq_true] at hgate
      by_cases hcatch : exceptionCanCatch (s.mgr t).toExceptionManager code = true
      · rw [if_pos hcatch]
        refine iff_of_true ⟨.caught, delivered_add s t .caught _ r⟩ ⟨hcode, hgate.2, hgate.1, ?_⟩
        -- a code that can be caught has one of the low eight bits
        rintro rfl
        simp [exceptionCanCatch, expCodeCont] at hcatch
      · rw [if_neg hcatch]
        by_cases hcont : code = expCodeCont
        · rw [if_pos (show exceptionFilter code = true from decide_eq_true hcont)]
          exact iff_of_false (not_pends_self s t _ r _) fun h => h.2.2.2 hcont
        · rw [if_neg (show ¬exceptionFilter code = true from fun h => hcont (of_decide_eq_true h))]
          exact iff_of_true ⟨.normal, delivered_add s t .normal _ r⟩
            ⟨hcode, hgate.2, hgate.1, hcont⟩
  · rw [if_pos (Or.inl (not_lt.1 hcode))]
    exact iff_of_false (not_pends_self s t _ r _) fun h => hcode h.1

/-- Without memory nothing changes. -/
theorem exceptionSend_none (s : ExcState) (pid : ℤ) (target : Option ℕ) (code source : ℕ) :
    (exceptionSend s pid target code source none).1 = s := by
  unfold exceptionSend
  split
  · rfl
  · cases target with
    | none => rfl
    | some t =>
      simp only
      split
      · rfl
      · split
        · rfl
        · split <;> rfl

/-- **When uncatchable and forced exceptions are delivered.**  Whatever is in the masks,
`exception_send` of `EXP_CODE_FINALHIT` and `EXP_CODE_STOP` puts them on a list of the target if
and only if it is not in a handler of its own.  `exception_force` unblocks its code and then sends
it, and any steps may come in between: it gets on a list if and only if the code is one there is
and not `EXP_CODE_CONT`, and the target neither is in a handler nor blocks the code when it is
sent, which it does only by a `sys_expblock` of its own in between.  For want of memory nothing
changes. -/
theorem exception_delivered_iff (s : ExcState) (t source : ℕ) (pid : ℤ) (hpid : 0 ≤ pid)
    (r : ExpPtr) :
    (∀ code, code = expCodeFinalhit ∨ code = expCodeStop →
      (Pends s t ⟨code, source, 0⟩ r (exceptionSend s pid (some t) code source (some r)) ↔
        (s.mgr t).inUserMode = false)) ∧
    (∀ (code : ℕ) (between : List Call) (u v : ExcState),
      excStep s (.unblock t code) = some u → Run.exec excStep u between = some v →
      (Pends v t ⟨code, source, 0⟩ r (exceptionSend v pid (some t) code source (some r)) ↔
        code < expCodeMaxNr ∧ (v.mgr t).inUserMode = false ∧
          exceptionWasBlocked (v.mgr t).toExceptionManager code = false ∧ code ≠ expCodeCont) ∧
      ((∀ c ∈ between, Blocks t code c = false) →
        exceptionWasBlocked (v.mgr t).toExceptionManager code = false)) ∧
    ∀ code, (exceptionSend s pid (some t) code source none).1 = s := by
  refine ⟨fun code hcode => ?_, fun code between u v hunblock hrun => ⟨?_, fun hbetween => ?_⟩,
    fun code => ?_⟩
  · rw [exceptionSend_pends_iff s t code source hpid r]
    refine ⟨fun h => h.2.1, fun hmode => ?_⟩
    obtain rfl | rfl := hcode
    · exact ⟨by decide, hmode, rfl, by decide⟩
    · exact ⟨by decide, hmode, rfl, by decide⟩
  · exact exceptionSend_pends_iff v t code source hpid r
  · have hu : code = expCodeFinalhit ∨ code = expCodeStop ∨
        (u.mgr t).exceptionBlock code = false := by
      simp only [excStep, Option.ite_none_right_eq_some, Option.some.injEq] at hunblock
      obtain ⟨-, rfl⟩ := hunblock
      by_cases hspecial : code = expCodeFinalhit ∨ code = expCodeStop
      · exact hspecial.imp_right Or.inl
      · exact Or.inr (Or.inr (by simp [ExcState.setMgr, exceptionSetBlock, hspecial]))
    obtain h | h | h := hu
    · simp [exceptionWasBlocked, h]
    · simp [exceptionWasBlocked, h]
    · simp [exceptionWasBlocked, exec_block between u v hrun hbetween h]
  · exact exceptionSend_none s pid (some t) code source

/-- No exception yet. -/
def quietBoot : ExcState :=
  excBoot (fun _ => ⟨0, 0, 0⟩) fun _ =>
    { exceptionBlock := fun _ => false, exceptionCatch := fun _ => false, inUserMode := false
      list := fun _ => [], number := fun _ => 0, handlers := fun _ => 0 }

/-- Task 1 has blocked everything it can and catches `EXP_CODE_TERM`, whose bit no `bool` holds;
`EXP_CODE_FINALHIT` gets through, and so does a forced `EXP_CODE_TERM`, even if task 1 blocks
`EXP_CODE_INT` again in the meantime. -/
theorem exception_delivered_blocked :
    ∃ s u v, Run.exec excStep quietBoot
        [.expblock 1 2 1, .expblock 1 9 1, .expblock 1 13 1, .expcatch 1 true 13 4096] = some s ∧
      excStep s (.unblock 1 13) = some u ∧ Run.exec excStep u [.expblock 1 2 1] = some v ∧
      Pends s 1 ⟨9, 5, 0⟩ 0 (exceptionSend s 7 (some 1) 9 5 (some 0)) ∧
      Pends v 1 ⟨13, 5, 0⟩ 0 (exceptionSend v 7 (some 1) 13 5 (some 0)) := by
  obtain ⟨s, u, v, hs, hu, hv, hmode, hmode'⟩ : ∃ s u v, Run.exec excStep quietBoot
        [.expblock 1 2 1, .expblock 1 9 1, .expblock 1 13 1, .expcatch 1 true 13 4096] = some s ∧
      excStep s (.unblock 1 13) = some u ∧ Run.exec excStep u [.expblock 1 2 1] = some v ∧
      (s.mgr 1).inUserMode = false ∧ (v.mgr 1).inUserMode = false :=
    ⟨_, _, _, rfl, rfl, rfl, rfl, rfl⟩
  obtain ⟨hsend, hforce, -⟩ := exception_delivered_iff s 1 5 7 (by decide) 0
  obtain ⟨hiff, hopen⟩ := hforce 13 [.expblock 1 2 1] u v hu hv
  exact ⟨s, u, v, hs, hu, hv, (hsend 9 (Or.inl rfl)).2 hmode,
    hiff.2 ⟨by decide, hmode', hopen (by decide), by decide⟩⟩

/-- In a handler the target gets nothing: `EXP_CODE_FINALHIT` is refused with `EPERM`, and it is
on neither list. -/
theorem exception_not_delivered : ∃ s, Run.exec excStep quietBoot
    [.expcatch 1 true 2 4096, .send 7 (some 1) 2 5 (some 0), .checkUser 1, .handle 1] = some s ∧
      (exceptionSend s 7 (some 1) 9 5 (some 1)).2 = -eperm ∧
      ¬ Pends s 1 ⟨9, 5, 0⟩ 1 (exceptionSend s 7 (some 1) 9 5 (some 1)) :=
  ⟨_, rfl, rfl, not_pends_self _ 1 _ 1 _⟩

end Exceptions
end LightOS
