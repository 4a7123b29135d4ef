import LightOS.Task.ExitWait

/-!
# What becomes of dead children

`sys_waitpid` reports a child in `TASK_HANGING` with its status.  Zombies it destroys all at
once: the first is returned, if it is asked for, without a status, and the others are gone
without a word.  With a pid it takes the process of that pid, whoever's child it is.

* `Reported` — nobody destroys a child of somebody else; a child is destroyed once, by a
  `sys_waitpid` that returns it with the status it has exited with, or when its parent exits.
* `ReportOk` — a `sys_waitpid` does not come to the zombies, and does not name a dead child of
  somebody else.
* `child_reported` — in every run whose steps all meet that, all is as it should be.
-/

namespace LightOS
namespace Wait

/-! ## What is to be shown -/

/-- The account of the processes made so far. -/
structure Reported (s : WState) : Prop where
  /-- Only the parent destroys a child. -/
  own : ∀ e ∈ s.log, e.parentPid = some e.caller
  /-- A `sys_waitpid` that destroys a child returns it with its status; else the parent has
  called `sys_exit` itself. -/
  fate : ∀ e ∈ s.log,
    e.fate = .returned (some e.exitStatus) ∨ e.fate = .parentExit ∧ ∃ st, (e.caller, st) ∈ s.exits
  /-- The status is the one the child has called `sys_exit` with, and it has done so once. -/
  status : ∀ e ∈ s.log, (e.child, e.exitStatus) ∈ s.exits
  exitOnce : (s.exits.map Prod.fst).Nodup
  /-- No process is destroyed twice, and none is both destroyed and on the list. -/
  once : (s.list ++ s.log.map Reaped.child).Nodup
  /-- No process is lost. -/
  kept : ∀ c, userInitProcId ≤ c → c < s.nextPid → c ∈ s.list ∨ c ∈ s.log.map Reaped.child

/-- The condition on a look for dead children: a pid it asks for is not that of a dead child of
somebody else, and it finds a child in `TASK_HANGING` or there are no zombies. -/
def ReportOk (s : WState) : Event → Prop
  | .run p _ =>
      match (s.task p).pc with
      | .waitCheck pid _ =>
          (∀ c ∈ s.list, pid = some c → (s.task c).state = .hanging →
            (s.task c).parentPid = some p) ∧
          (waitHanging s p pid = none → s.childrenIn p .zombie = [])
      | _ => True
  | _ => True

instance (s : WState) (e : Event) : Decidable (ReportOk s e) :=
  match e with
  | .run p _ => by
      unfold ReportOk
      simp only
      generalize (s.task p).pc = pc
      exact match pc with
        | .waitCheck _ _ => inferInstanceAs (Decidable (_ ∧ _))
        | .out | .exitUnblock _ | .exitHang | .exitZombie | .dead | .waitBlock _ _ | .waitSleep _
            _ => .isTrue trivial
  | .exit _ _ | .spawn _ | .waitpid _ _ _ | .block _ | .wake _ => .isTrue trivial

/-! ## The invariant -/

/-- In `sys_exit` or past it. -/
def Pc.gone : Pc → Bool
  | .dead => true
  | pc => pc.exiting

structure ReportInv (s : WState) : Prop extends Reported s where
  below : ∀ c ∈ s.list, c < s.nextPid
  loggedBelow : ∀ e ∈ s.log, e.child < s.nextPid
  exitsBelow : ∀ x ∈ s.exits, x.1 < s.nextPid
  gone : ∀ c ∈ s.list, (s.task c).pc.gone = true → (c, (s.task c).exitStatus) ∈ s.exits
  alive : ∀ c ∈ s.list, (s.task c).pc.gone = false → ∀ x ∈ s.exits, x.1 ≠ c
  dead : ∀ c ∈ s.list, (s.task c).state.isDead = true → (s.task c).pc = .dead

variable {s s' : WState} {p : ℕ}

theorem reportInv_boot : ReportInv waitBoot where
  own := by simp [waitBoot]
  fate := by simp [waitBoot]
  status := by simp [waitBoot]
  exitOnce := by simp [waitBoot]
  once := by simp [waitBoot]
  kept := by
    intro c hc hlt
    have hlow : 1 ≤ c := hc
    have hhigh : c < 2 := hlt
    exact Or.inl (List.mem_singleton.2 (by show c = 1; omega))
  below := by simp [waitBoot]
  loggedBelow := by simp [waitBoot]
  exitsBelow := by simp [waitBoot]
  gone := by simp [waitBoot, Pc.gone, Pc.exiting]
  alive := by simp [waitBoot]
  dead := by simp [waitBoot, State.isDead]

/-- A step that changes neither lists nor log nor statuses, and moves processes neither into
`sys_exit` nor out of it. -/
theorem ReportInv.frame (h : ReportInv s)
    (hsame : s'.list = s.list ∧ s'.log = s.log ∧ s'.exits = s.exits ∧ s'.nextPid = s.nextPid)
    (hstatus : ∀ c ∈ s.list, (s'.task c).exitStatus = (s.task c).exitStatus)
    (hgone : ∀ c ∈ s.list, (s'.task c).pc.gone = (s.task c).pc.gone)
    (hdead : ∀ c ∈ s.list, (s'.task c).state.isDead = true → (s'.task c).pc = .dead) :
    ReportInv s' := by
  obtain ⟨hlist, hlog, hexits, hnext⟩ := hsame
  refine ⟨⟨?_, ?_, ?_, ?_, ?_, ?_⟩, ?_, ?_, ?_, ?_, ?_, ?_⟩
  · rw [hlog]
    exact h.own
  · rw [hlog, hexits]
    exact h.fate
  · rw [hlog, hexits]
    exact h.status
  · rw [hexits]
    exact h.exitOnce
  · rw [hlist, hlog]
    exact h.once
  · rw [hlist, hlog, hnext]
    exact h.kept
  · rw [hlist, hnext]
    exact h.below
  · rw [hlog, hnext]
    exact h.loggedBelow
  · rw [hexits, hnext]
    exact h.exitsBelow
  · intro c hc hg
    rw [hlist] at hc
    rw [hgone c hc] at hg
    rw [hexits, hstatus c hc]
    exact h.gone c hc hg
  · intro c hc hg
    rw [hlist] at hc
    rw [hgone c hc] at hg
    rw [hexits]
    exact h.alive c hc hg
  · intro c hc
    rw [hlist] at hc
    exact hdead c hc

/-! ## Destroying -/

/-- Dead children are destroyed by their parent: each gets an entry. -/
theorem ReportInv.reap (h : ReportInv s) (p : ℕ) (kids list : List ℕ) (fate : ℕ → Fate)
    (hmem : ∀ c ∈ kids, c ∈ s.list ∧ (s.task c).parentPid = some p ∧ (s.task c).state.isDead = true)
    (hlist : (list ++ kids).Perm s.list)
    (hfate : ∀ c ∈ kids, fate c = .returned (some (s.task c).exitStatus) ∨
      fate c = .parentExit ∧ ∃ st, (p, st) ∈ s.exits) :
    ReportInv { s with list := list, log := s.log ++ kids.map fun c => s.reaped p c (fate c) } := by
  have hsub : ∀ c ∈ list, c ∈ s.list := fun c hc => hlist.mem_iff.1 (List.mem_append_left _ hc)
  have hentry : ∀ e ∈ s.log ++ kids.map fun c => s.reaped p c (fate c),
      e ∈ s.log ∨ ∃ c ∈ kids, e = s.reaped p c (fate c) := by
    intro e he
    obtain he | he := List.mem_append.1 he
    · exact Or.inl he
    · obtain ⟨c, hc, rfl⟩ := List.mem_map.1 he
      exact Or.inr ⟨c, hc, rfl⟩
  have hchildren : (s.log ++ kids.map fun c => s.reaped p c (fate c)).map Reaped.child =
      s.log.map Reaped.child ++ kids := by
    rw [List.map_append, List.map_map]
    congr 1
    exact List.map_id' kids
  have hperm : (list ++ (s.log ++ kids.map fun c => s.reaped p c (fate c)).map Reaped.child).Perm
      (s.list ++ s.log.map Reaped.child) := by
    rw [hchildren]
    apply (List.perm_append_comm.append_left list).trans
    rw [← List.append_assoc]
    exact hlist.append_right _
  have hstatus : ∀ c ∈ kids, (c, (s.task c).exitStatus) ∈ s.exits := by
    intro c hc
    obtain ⟨hcl, -, hdead⟩ := hmem c hc
    exact h.gone c hcl (by rw [h.dead c hcl hdead]; rfl)
  refine ⟨⟨fun e he => ?_, fun e he => ?_, fun e he => ?_, h.exitOnce, hperm.nodup_iff.2 h.once,
    fun c hc hlt => ?_⟩, fun c hc => h.below c (hsub c hc), fun e he => ?_, h.exitsBelow,
    fun c hc => h.gone c (hsub c hc), fun c hc => h.alive c (hsub c hc),
    fun c hc => h.dead c (hsub c hc)⟩
  · obtain he | ⟨c, hc, rfl⟩ := hentry e he
    · exact h.own e he
    · exact (hmem c hc).2.1
  · obtain he | ⟨c, hc, rfl⟩ := hentry e he
    · exact h.fate e he
    · exact hfate c hc
  · obtain he | ⟨c, hc, rfl⟩ := hentry e he
    · exact h.status e he
    · exact hstatus c hc
  · have hold := h.kept c hc hlt
    rw [← List.mem_append] at hold ⊢
    exact hperm.mem_iff.2 hold
  · obtain he | ⟨c, hc, rfl⟩ := hentry e he
    · exact h.loggedBelow e he
    · exact h.below c (hmem c hc).1

/-- A process that is ready goes on; it does not enter `sys_exit` or leave it. -/
theorem ReportInv.goto (h : ReportInv s) {pc : Pc} (hready : (s.task p).state = .ready)
    (hgone : pc.gone = (s.task p).pc.gone) : ReportInv (s.goto p pc) := by
  refine h.frame ⟨rfl, rfl, rfl, rfl⟩ (fun c _ => ?_) (fun c _ => ?_) fun c hc hdead => ?_
  · rw [goto_exitStatus]
  · rw [goto_pc]
    split_ifs with hcp
    · rw [hcp]
      exact hgone
    · rfl
  · rw [goto_state] at hdead
    rw [goto_pc, if_neg]
    · exact h.dead c hc hdead
    · rintro rfl
      rw [hready] at hdead
      cases hdead

/-- A process goes to sleep, or dies at the end of `sys_exit`. -/
theorem ReportInv.sleep (h : ReportInv s) {state : State} {pc : Pc}
    (hgone : pc.gone = (s.task p).pc.gone) (hdead : state.isDead = true → pc = .dead) :
    ReportInv (s.sleep p state pc) := by
  refine h.frame ⟨rfl, rfl, rfl, rfl⟩ (fun c _ => ?_) (fun c _ => ?_) fun c hc hdead' => ?_
  · by_cases hcp : c = p
    · subst hcp
      simp [WState.sleep]
    · simp [WState.sleep, modify_task_of_ne _ hcp]
  · rw [sleep_pc]
    split_ifs with hcp
    · rw [hcp]
      exact hgone
    · rfl
  · rw [sleep_state] at hdead'
    rw [sleep_pc]
    split_ifs at hdead' ⊢ with hcp
    · exact hdead hdead'
    · exact h.dead c hc hdead'

/-- A sleeper becomes ready. -/
theorem ReportInv.wake (h : ReportInv s) (q : ℕ) : ReportInv (s.wake q) := by
  refine h.frame ⟨rfl, rfl, rfl, rfl⟩ (fun c _ => ?_) (fun c _ => ?_) fun c hc hdead => ?_
  · by_cases hcq : c = q
    · subst hcq
      simp [WState.wake]
    · simp [WState.wake, modify_task_of_ne _ hcq]
  · rw [wake_pc]
  · rw [wake_state] at hdead
    rw [wake_pc]
    split_ifs at hdead
    · cases hdead
    · exact h.dead c hc hdead

/-! ## Steps -/

/-- The child that a look for dead children destroys is one of the caller's. -/
theorem waitHanging_child {pid : Option ℕ} {c : ℕ} (hfound : waitHanging s p pid = some c)
    (hown : ∀ c ∈ s.list, pid = some c → (s.task c).state = .hanging →
      (s.task c).parentPid = some p) :
    c ∈ s.list ∧ (s.task c).parentPid = some p ∧ (s.task c).state = .hanging := by
  cases pid with
  | none =>
    have hmem := List.mem_of_mem_head? hfound
    simpa [WState.childrenIn] using hmem
  | some pid =>
    have hmem := List.mem_of_find?_eq_some hfound
    have hprop := List.find?_some hfound
    simp only [decide_eq_true_eq] at hprop
    obtain ⟨rfl, hhanging⟩ := hprop
    exact ⟨hmem, hown c hmem rfl hhanging, hhanging⟩

/-- A look for dead children that meets the condition. -/
theorem ReportInv.waitCheck (h : ReportInv s) (hready : s.Ready p) {pid : Option ℕ} {nohang : Bool}
    (hpc : (s.task p).pc = .waitCheck pid nohang)
    (hown : ∀ c ∈ s.list, pid = some c → (s.task c).state = .hanging →
      (s.task c).parentPid = some p)
    (hzombies : waitHanging s p pid = none → s.childrenIn p .zombie = []) :
    ReportInv (waitCheck s p pid nohang) := by
  unfold Wait.waitCheck
  cases hfound : waitHanging s p pid with
  | some c =>
    obtain ⟨hmem, hparent, hhanging⟩ := waitHanging_child hfound hown
    have hperm : (s.list.erase c ++ [c]).Perm s.list :=
      List.perm_append_comm.trans (List.perm_cons_erase hmem).symm
    have hreap := h.reap p [c] (s.list.erase c) (fun _ => .returned (some (s.task c).exitStatus))
      (fun x hx => by
        rw [List.mem_singleton] at hx
        subst hx
        exact ⟨hmem, hparent, by rw [hhanging]; rfl⟩)
      hperm
      (fun x hx => by
        rw [List.mem_singleton] at hx
        subst hx
        exact Or.inl rfl)
    exact hreap.goto hready.2 (by show Pc.gone .out = (s.task p).pc.gone; rw [hpc]; rfl)
  | none =>
    have hnone := hzombies hfound
    have hkept : procDealZombieChild s p (zombieFate (s.childrenIn p .zombie).head? pid) = s := by
      simp [procDealZombieChild, hnone]
    have hgoto : ∀ pc : Pc, pc.gone = false → ReportInv (s.goto p pc) := fun pc hgone =>
      h.goto hready.2 (by rw [hgone, hpc]; rfl)
    simp only [hkept]
    split_ifs
    · exact hgoto _ rfl
    · exact hgoto _ rfl
    · exact hgoto _ rfl
    · exact hgoto _ rfl

/-- A child is made. -/
theorem ReportInv.spawn (h : ReportInv s) (p : ℕ) : ReportInv (spawn s p) := by
  have hold : ∀ c ∈ s.list, (Wait.spawn s p).task c = s.task c := fun c hc =>
    Function.update_of_ne (h.below c hc).ne _ _
  have hchild : (Wait.spawn s p).task s.nextPid = ⟨some p, .ready, 0, .out⟩ :=
    Function.update_self _ _ _
  have hmem : ∀ c ∈ (Wait.spawn s p).list, c ∈ s.list ∨ c = s.nextPid := by
    intro c hc
    simpa [Wait.spawn] using hc
  have hnew : s.nextPid ∉ s.list ++ s.log.map Reaped.child := by
    intro hin
    obtain hin | hin := List.mem_append.1 hin
    · exact lt_irrefl _ (h.below _ hin)
    · obtain ⟨e, he, hchild⟩ := List.mem_map.1 hin
      exact (h.loggedBelow e he).ne hchild
  refine ⟨⟨h.own, h.fate, h.status, h.exitOnce, ?_, fun c hc hlt => ?_⟩, fun c hc => ?_,
    fun e he => Nat.lt_succ_of_lt (h.loggedBelow e he),
    fun x hx => Nat.lt_succ_of_lt (h.exitsBelow x hx),
    fun c hc hg => ?_, fun c hc hg x hx => ?_, fun c hc hdead => ?_⟩
  · show ((s.list ++ [s.nextPid]) ++ s.log.map Reaped.child).Nodup
    rw [List.append_assoc]
    exact List.nodup_middle.2 (List.nodup_cons.2 ⟨hnew, h.once⟩)
  · obtain hlt | rfl : c < s.nextPid ∨ c = s.nextPid := Nat.lt_succ_iff_lt_or_eq.1 hlt
    · exact (h.kept c hc hlt).imp_left fun hin => List.mem_append_left _ hin
    · exact Or.inl (List.mem_append_right _ (List.mem_singleton_self _))
  · show c < s.nextPid + 1
    obtain hc | rfl := hmem c hc
    · exact Nat.lt_succ_of_lt (h.below c hc)
    · exact Nat.lt_succ_self _
  · obtain hc | rfl := hmem c hc
    · rw [hold c hc] at hg ⊢
      exact h.gone c hc hg
    · rw [hchild] at hg
      cases hg
  · obtain hc | rfl := hmem c hc
    · rw [hold c hc] at hg
      exact h.alive c hc hg x hx
    · exact (h.exitsBelow x hx).ne
  · obtain hc | rfl := hmem c hc
    · rw [hold c hc] at hdead ⊢
      exact h.dead c hc hdead
    · rw [hchild] at hdead
      cases hdead

/-- The status is set, and the process is in `sys_exit`. -/
theorem ReportInv.setExitStatus (h : ReportInv s) (hcan : s.CanCall p) (status : ℤ) :
    ReportInv ((setExitStatus s p status).goto p .exitZombie) := by
  obtain ⟨⟨hmem, hready⟩, hpc⟩ := hcan
  set u := (Wait.setExitStatus s p status).goto p .exitZombie with hu
  have hexits : ∀ x, x ∈ u.exits ↔ x ∈ s.exits ∨ x = (p, status) := by
    intro x
    show x ∈ s.exits ++ [(p, status)] ↔ _
    rw [List.mem_append, List.mem_singleton]
  have hself : u.task p = ⟨(s.task p).parentPid, .ready, status, .exitZombie⟩ := by
    simp [hu, Wait.setExitStatus, WState.goto, WState.modify, hready]
  have hother : ∀ c, c ≠ p → u.task c = s.task c := by
    intro c hcp
    simp [hu, Wait.setExitStatus, WState.goto, WState.modify, hcp]
  have hnew : ∀ x ∈ s.exits, x.1 ≠ p := h.alive p hmem (by rw [hpc]; rfl)
  refine ⟨⟨h.own, fun e he => ?_, fun e he => (hexits _).2 (Or.inl (h.status e he)), ?_, h.once,
    h.kept⟩, h.below, h.loggedBelow, fun x hx => ?_, fun c hc hg => ?_, fun c hc hg x hx => ?_,
    fun c hc hdead => ?_⟩
  · apply (h.fate e he).imp_right
    intro hexit
    obtain ⟨hfate, st, hst⟩ := hexit
    exact ⟨hfate, st, (hexits _).2 (Or.inl hst)⟩
  · show ((s.exits ++ [(p, status)]).map Prod.fst).Nodup
    rw [List.map_append, List.map_singleton]
    refine List.nodup_append.2 ⟨h.exitOnce, List.nodup_singleton p, fun x hx y hy => ?_⟩
    obtain ⟨z, hz, rfl⟩ := List.mem_map.1 hx
    rw [List.mem_singleton.1 hy]
    exact hnew z hz
  · obtain hx | rfl := (hexits x).1 hx
    · exact h.exitsBelow x hx
    · exact h.below p hmem
  · by_cases hcp : c = p
    · subst hcp
      rw [hself]
      exact (hexits _).2 (Or.inr rfl)
    · rw [hother c hcp] at hg ⊢
      exact (hexits _).2 (Or.inl (h.gone c hc hg))
  · by_cases hcp : c = p
    · subst hcp
      rw [hself] at hg
      cases hg
    · rw [hother c hcp] at hg
      obtain hx | rfl := (hexits x).1 hx
      · exact h.alive c hc hg x hx
      · exact Ne.symm hcp
  · by_cases hcp : c = p
    · subst hcp
      rw [hself] at hdead
      cases hdead
    · rw [hother c hcp] at hdead ⊢
      exact h.dead c hc hdead

/-- `sys_exit` destroys the zombies among the children, and gives the others away. -/
theorem ReportInv.exit (h : ReportInv s) (hcan : s.CanCall p) (status : ℤ) :
    ReportInv (sysExit s p status) := by
  have hset := h.setExitStatus hcan status
  obtain ⟨⟨-, hready⟩, -⟩ := hcan
  set u := (Wait.setExitStatus s p status).goto p .exitZombie with hu
  have hkids : (Wait.setExitStatus s p status).childrenIn p .zombie = u.childrenIn p .zombie := by
    apply List.filter_congr
    intro c _
    rw [hu, goto_parentPid, goto_state]
  have hzombie : ∀ c ∈ u.childrenIn p .zombie,
      c ∈ u.list ∧ (u.task c).parentPid = some p ∧ (u.task c).state = .zombie := by
    intro c hc
    simpa [WState.childrenIn] using hc
  have hperm : ((u.list.filter fun c => c ∉ u.childrenIn p .zombie) ++
      u.childrenIn p .zombie).Perm u.list := by
    have hpart := List.filter_append_perm (fun c => decide (c ∈ u.childrenIn p .zombie)) u.list
    have hself : u.list.filter (fun c => decide (c ∈ u.childrenIn p .zombie)) =
        u.childrenIn p .zombie := by
      apply List.filter_congr
      intro c hc
      simp [WState.childrenIn, hc]
    rw [hself] at hpart
    exact List.perm_append_comm.trans (by simpa using hpart)
  have hreap := hset.reap p (u.childrenIn p .zombie)
    (u.list.filter fun c => c ∉ u.childrenIn p .zombie) (fun _ => .parentExit)
    (fun c hc => by
      obtain ⟨hmem, hparent, hstate⟩ := hzombie c hc
      exact ⟨hmem, hparent, by rw [hstate]; rfl⟩)
    hperm
    (fun c _ => Or.inr ⟨rfl, status, List.mem_append_right _ (List.mem_singleton_self _)⟩)
  have hgoto : ∀ pc : Pc, pc.gone = true → ReportInv ((exitRelease s p status).goto p pc) := by
    intro pc hgone
    have hlist : (exitRelease s p status).list =
        u.list.filter fun c => c ∉ u.childrenIn p .zombie := by
      rw [← hkids]
      rfl
    have hlog : (exitRelease s p status).log =
        u.log ++ (u.childrenIn p .zombie).map fun c => u.reaped p c .parentExit := by
      rw [← hkids]
      refine congrArg _ (List.map_congr_left fun c _ => ?_)
      rw [WState.reaped, WState.reaped, hu, goto_parentPid, goto_exitStatus]
    refine hreap.frame ⟨hlist, hlog, rfl, rfl⟩ (fun c hc => ?_)
      (fun c hc => ?_) fun c hc hdead => ?_
    · rw [← hlist] at hc
      obtain ⟨-, -, -, hexit⟩ := exitRelease_task hc
      obtain ⟨-, -, -, hexit'⟩ := setExitStatus_task (s := s) (p := p) (c := c) status
      show (((exitRelease s p status).goto p pc).task c).exitStatus = (u.task c).exitStatus
      rw [goto_exitStatus, hexit, hu, goto_exitStatus, hexit']
    · rw [← hlist] at hc
      obtain ⟨-, -, hpc, -⟩ := exitRelease_task hc
      obtain ⟨-, -, hpc', -⟩ := setExitStatus_task (s := s) (p := p) (c := c) status
      show (((exitRelease s p status).goto p pc).task c).pc.gone = (u.task c).pc.gone
      rw [goto_pc, hu, goto_pc]
      split_ifs
      · exact hgone
      · rw [hpc, hpc']
    · rw [← hlist] at hc
      obtain ⟨-, hstate, hpc, -⟩ := exitRelease_task hc
      rw [goto_state, hstate] at hdead
      have hcp : c ≠ p := by
        rintro rfl
        rw [hready] at hdead
        cases hdead
      rw [goto_pc, if_neg hcp, hpc]
      exact h.dead c (mem_exitRelease.1 hc).1 hdead
  unfold sysExit
  simp only
  split
  · exact hgoto _ rfl
  · split
    · exact hgoto _ rfl
    · exact hgoto _ rfl

/-! ## Runs -/

theorem reportInv_step (s : WState) (e : Event) (s' : WState) (h : ReportInv s)
    (hcond : ReportOk s e) (hstep : waitStep s e = some s') : ReportInv s' := by
  cases moves_of_waitStep hstep with
  | spawn p hcan => exact h.spawn p
  | exit p status hcan => exact h.exit hcan status
  | waitpid p pid nohang hcan => exact h.goto hcan.1.2 (by rw [hcan.2]; rfl)
  | block p hcan => exact h.sleep (by rw [hcan.2]) (by decide)
  | wake p => exact h.wake p
  | exitUnblock p q intr hready hpc =>
    refine (h.wake q).goto ?_ ?_
    · rw [wake_state, hready.2, ite_self]
    · rw [wake_pc, hpc]
      rfl
  | exitHang p intr hready hpc => exact h.sleep (by rw [hpc]; rfl) fun _ => rfl
  | exitZombie p intr hready hpc => exact h.sleep (by rw [hpc]; rfl) fun _ => rfl
  | waitCheck p intr pid nohang hready hpc =>
    simp only [ReportOk, hpc] at hcond
    exact h.waitCheck hready hpc hcond.1 hcond.2
  | waitBlock p intr pid nohang hready hpc =>
    exact h.sleep (by rw [hpc]; rfl) fun hdead => by cases hdead
  | waitSleep p intr pid nohang hready hpc =>
    apply h.goto hready.2
    rw [hpc]
    split_ifs <;> rfl

/-- **Every child is reported once, with its status**, in every run in which `sys_waitpid` does
not come to zombies and does not name a dead child of somebody else. -/
theorem child_reported (events : List Event) (s : WState)
    (hrun : Run.exec waitStep waitBoot events = some s)
    (hcond : Run.Along waitStep ReportOk waitBoot events) : Reported s :=
  (Run.exec_invariant reportInv_step events _ s reportInv_boot hcond hrun).toReported

/-- INIT waits for its two children by pid; one has a child of its own, that exits while its
parent sleeps and is inherited by INIT. -/
theorem child_reported_two :
    ∃ s, Run.exec waitStep waitBoot
        [.spawn 1, .spawn 1, .spawn 2, .waitpid 2 none false, .run 2 false, .run 2 false, .exit 4 9,
          .run 4 false, .run 4 false, .waitpid 1 (some 2) false, .run 1 false, .run 1 false,
          .run 2 true, .exit 2 7, .run 2 false, .run 2 false, .run 1 false, .run 1 false,
          .waitpid 1 none false, .run 1 false] = some s ∧ Reported s := by
  have hsome : (Run.exec waitStep waitBoot
      [.spawn 1, .spawn 1, .spawn 2, .waitpid 2 none false, .run 2 false, .run 2 false, .exit 4 9,
        .run 4 false, .run 4 false, .waitpid 1 (some 2) false, .run 1 false, .run 1 false,
        .run 2 true, .exit 2 7, .run 2 false, .run 2 false, .run 1 false, .run 1 false,
        .waitpid 1 none false, .run 1 false]).isSome = true := by decide +kernel
  obtain ⟨s, hs⟩ := Option.isSome_iff_exists.1 hsome
  exact ⟨s, hs, child_reported _ s hs (by decide +kernel)⟩

/-- Two children exit while INIT does something else; its next `sys_waitpid` destroys both,
returns the first without a status, and says nothing of the second. -/
theorem child_not_reported :
    ∃ s, Run.exec waitStep waitBoot
        [.spawn 1, .spawn 1, .exit 2 7, .run 2 false, .exit 3 8, .run 3 false,
          .waitpid 1 none false, .run 1 false] = some s ∧
      s.log = [⟨2, 1, some 1, 7, .returned none⟩, ⟨3, 1, some 1, 8, .dropped⟩] ∧ ¬ Reported s := by
  have hrun : (Run.exec waitStep waitBoot
      [.spawn 1, .spawn 1, .exit 2 7, .run 2 false, .exit 3 8, .run 3 false, .waitpid 1 none false,
        .run 1 false]).map WState.log =
      some [⟨2, 1, some 1, 7, .returned none⟩, ⟨3, 1, some 1, 8, .dropped⟩] := by decide +kernel
  obtain ⟨s, hs, hlog⟩ := Option.map_eq_some_iff.1 hrun
  refine ⟨s, hs, hlog, fun h => ?_⟩
  have hfate := h.fate ⟨3, 1, some 1, 8, .dropped⟩ (by simp [hlog])
  simp at hfate

end Wait
end LightOS
