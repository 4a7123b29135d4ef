import LightOS.Lib.Run
import LightOS.Pthread.MutexCode

/-!
# The queues of the mutex and of the condition variable

* `QueueInv` — each object has at most one entry of the table, no other is in use, and the threads
  that sleep are on the lists of these.
* `queue_event` — an event keeps it, if no two threads set the queue of the mutex up at once and
  there is an entry for the one that does.
-/

namespace LightOS
namespace Pthread

/-! ## Conditions on steps -/

/-- A condition on the steps of threads in the code of the library. -/
def AtRun (C : PState → ℕ → Input → Op → Code → Prop) (s : PState) : Event → Prop
  | .run t input =>
      match s.pc t with
      | .run op code => C s t input op code
      | _ => True
  | _ => True

instance (C : PState → ℕ → Input → Op → Code → Prop)
    [∀ s t input op code, Decidable (C s t input op code)] (s : PState) : DecidablePred (AtRun C s)
  | .run t input => by
      unfold AtRun
      dsimp only
      split <;> infer_instance
  | .call .. | .timeout .. | .cancel .. | .setCancelState .. => isTrue trivial

/-- `pthread_mutex_trylock` finds a mutex that is not normal owned. -/
def TrylockAt (s : PState) (_ : ℕ) (_ : Input) (op : Op) : Code → Prop
  | .ite .ownerSet _ _ => s.kind ≠ .normal → op = .trylock → 0 < s.owner
  | _ => True

instance (s : PState) (t : ℕ) (input : Input) (op : Op) : DecidablePred (TrylockAt s t input op) :=
  fun code => by unfold TrylockAt; split <;> infer_instance

/-- Nobody finds the mutex without a queue while another sets it up, and there is an entry for the
one that does. -/
def SetUpAt (s : PState) (_ : ℕ) (input : Input) (_ : Op) : Code → Prop
  | .ite (.queueUnset .mutex) _ _ => s.queue .mutex = -1 → s.setter = none
  | .act .alloc _ => (s.firstFree input.others).isSome = true
  | _ => True

instance (s : PState) (t : ℕ) (input : Input) (op : Op) : DecidablePred (SetUpAt s t input op) :=
  fun code => by unfold SetUpAt; split <;> infer_instance

/-! ## The invariant -/

/-- The threads on the wait list of an object. -/
def PState.waiters (s : PState) (o : Obj) : List ℕ :=
  match entryOf (s.queue o) with
  | some i => (s.slots i).getD []
  | none => []

/-- The object has an entry of the table. -/
def Usable (s : PState) (o : Obj) : Prop :=
  ∃ i, entryOf (s.queue o) = some i ∧ (s.slots i).isSome = true

/-- The thread sets the queue of the mutex up. -/
def SettingUp (p : Pc) : Prop := p.need = .unset ∨ p.need = .fresh

/-- The objects and the table agree. -/
structure QueueInv (s : PState) : Prop where
  sound : ∀ t, SoundPc s.kind (s.pc t)
  usable : ∀ o, s.queue o = -1 ∨ Usable s o
  uses : ∀ t o, UsesPc o (s.pc t) → s.queue o ≠ -1
  handle : ∀ t o, (s.pc t).need = .handle o → s.handle t = s.queue o
  setting : ∀ t, SettingUp (s.pc t) → s.setter = some t ∧ s.queue .mutex = -1
  fresh : ∀ t, (s.pc t).need = .fresh →
    ∃ i, entryOf (s.handle t) = some i ∧ s.slots i = some [] ∧ entryOf (s.queue .cond) ≠ some i
  apart : ∀ o o' i, entryOf (s.queue o) = some i → entryOf (s.queue o') = some i → o = o'
  sleeps : ∀ t o, AsleepOn o (s.pc t) ↔ t ∈ s.waiters o
  nodup : ∀ o, (s.waiters o).Nodup
  owned : ∀ i, (s.slots i).isSome = true →
    (∃ o, entryOf (s.queue o) = some i) ∨ ∃ t, (s.pc t).need = .fresh ∧
      entryOf (s.handle t) = some i

variable {s s' : PState} {t : ℕ} {o : Obj} {op : Op} {code : Code} {p : Pc} {input : Input} {i : ℕ}

theorem entryOf_natCast (hi : i < mutexQueueNrMax) : entryOf (i : ℤ) = some i := by
  unfold entryOf
  rw [if_pos ⟨by omega, by exact_mod_cast hi⟩, Int.toNat_natCast]

theorem waiters_of_entry
    (hentry : entryOf (s.queue o) = some i) : s.waiters o = (s.slots i).getD [] := by
  rw [PState.waiters, hentry]

/-- The list of an object that has an entry. -/
theorem Usable.slot (h : Usable s o) :
    ∃ i, entryOf (s.queue o) = some i ∧ s.slots i = some (s.waiters o) := by
  obtain ⟨i, hentry, hsome⟩ := h
  obtain ⟨ws, hws⟩ := Option.isSome_iff_exists.1 hsome
  exact ⟨i, hentry, by rw [waiters_of_entry hentry, hws, Option.getD_some]⟩

theorem usesPc_of_need (h : p.need = .handle o) : UsesPc o p := by
  cases p with
  | run op code =>
      cases code with
      | act i next =>
          cases i <;> simp_all [Pc.need, Code.need, UsesPc, Uses, Instr.on]
      | _ => simp [Pc.need, Code.need] at h
  | asleep o' op next =>
      simp only [Pc.need, Need.handle.injEq] at h
      exact Or.inl h
  | _ => simp [Pc.need] at h

namespace QueueInv

/-- A thread that relies on a queue finds it. -/
theorem slot (h : QueueInv s) (huses : UsesPc o (s.pc t)) :
    ∃ i, entryOf (s.queue o) = some i ∧ s.slots i = some (s.waiters o) :=
  ((h.usable o).resolve_left (h.uses t o huses)).slot

/-- A thread that is in the code is on no list. -/
theorem not_mem_waiters (h : QueueInv s) (hpc : s.pc t = .run op code) (o : Obj) :
    t ∉ s.waiters o := by
  intro hmem
  have hasleep := (h.sleeps t o).2 hmem
  rw [hpc] at hasleep
  exact hasleep

/-- A thread that makes a system call finds the queue of the object it means. -/
theorem slot_of_need (h : QueueInv s) (hneed : (s.pc t).need = .handle o) :
    ∃ i, entryOf (s.handle t) = some i ∧ entryOf (s.queue o) = some i ∧
      s.slots i = some (s.waiters o) := by
  obtain ⟨i, hentry, hslot⟩ := h.slot (usesPc_of_need hneed)
  exact ⟨i, by rw [h.handle t o hneed, hentry], hentry, hslot⟩

end QueueInv

/-- What has to be known of the place a thread comes to, if it sets nothing up there. -/
structure Fits (s : PState) (handle : ℤ) (p : Pc) : Prop where
  sound : SoundPc s.kind p
  uses : ∀ o, UsesPc o p → s.queue o ≠ -1
  handle : ∀ o, p.need = .handle o → handle = s.queue o
  idle : ¬SettingUp p

/-- The part of the invariant that is about one thread, for threads that set nothing up. -/
theorem QueueInv.of_fits (h : QueueInv s) (hkind : s'.kind = s.kind) (hqueue : s'.queue = s.queue)
    (hsetter : s'.setter = s.setter)
    (hfits : ∀ u, s'.pc u = s.pc u ∧ s'.handle u = s.handle u ∨ Fits s (s'.handle u) (s'.pc u))
    (hfresh : ∀ u i, (s.pc u).need = .fresh → entryOf (s.handle u) = some i →
      s'.pc u = s.pc u ∧ s'.handle u = s.handle u ∧ s'.slots i = s.slots i)
    (hslots : ∀ i, (s'.slots i).isSome = (s.slots i).isSome)
    (hsleeps : ∀ u o, AsleepOn o (s'.pc u) ↔ u ∈ s'.waiters o)
    (hnodup : ∀ o, (s'.waiters o).Nodup) :
    QueueInv s' := by
  refine ⟨fun u => ?_, fun o => ?_, fun u o hu => ?_, fun u o hu => ?_, fun u hu => ?_,
    fun u hu => ?_, ?_, hsleeps, hnodup, fun i hi => ?_⟩
  · rw [hkind]
    rcases hfits u with ⟨hpc, -⟩ | hfits
    · rw [hpc]
      exact h.sound u
    · exact hfits.sound
  · refine (h.usable o).imp (fun hunset => by rw [hqueue, hunset]) fun ⟨i, hentry, hsome⟩ => ?_
    exact ⟨i, by rw [hqueue, hentry], by rw [hslots, hsome]⟩
  · rw [hqueue]
    rcases hfits u with ⟨hpc, -⟩ | hfits
    · rw [hpc] at hu
      exact h.uses u o hu
    · exact hfits.uses o hu
  · rw [hqueue]
    rcases hfits u with ⟨hpc, hhandle⟩ | hfits
    · rw [hpc] at hu
      rw [hhandle]
      exact h.handle u o hu
    · exact hfits.handle o hu
  · rw [hqueue, hsetter]
    rcases hfits u with ⟨hpc, -⟩ | hfits
    · rw [hpc] at hu
      exact h.setting u hu
    · exact absurd hu hfits.idle
  · rcases hfits u with ⟨hpc, -⟩ | hfits
    · rw [hpc] at hu
      obtain ⟨i, hentry, hslot, hcond⟩ := h.fresh u hu
      obtain ⟨-, hhandle, hsame⟩ := hfresh u i hu hentry
      exact ⟨i, by rw [hhandle, hentry], by rw [hsame, hslot], by rw [hqueue]; exact hcond⟩
    · exact absurd (Or.inr hu) hfits.idle
  · rw [hqueue]
    exact h.apart
  · rw [hslots] at hi
    rw [hqueue]
    refine (h.owned i hi).imp id fun ⟨u, hneed, hentry⟩ => ?_
    obtain ⟨hpc, hhandle, -⟩ := hfresh u i hneed hentry
    exact ⟨u, by rw [hpc, hneed], by rw [hhandle, hentry]⟩

/-- A step that leaves the table and the queues alone, of a thread that does not sleep. -/
theorem QueueInv.move (h : QueueInv s) (hkind : s'.kind = s.kind) (hqueue : s'.queue = s.queue)
    (hslots : s'.slots = s.slots)
    (hsetter : s'.setter = s.setter) (hhandle : ∀ u, u ≠ t → s'.handle u = s.handle u)
    (hpc : s'.pc = Function.update s.pc t p) (hp : Fits s (s'.handle t) p)
    (hidle : ¬SettingUp (s.pc t)) (hawake : ∀ o, AsleepOn o p ↔ AsleepOn o (s.pc t)) :
    QueueInv s' := by
  have hwaiters : ∀ o, s'.waiters o = s.waiters o := fun o => by
    simp only [PState.waiters, hqueue, hslots]
  refine h.of_fits hkind hqueue hsetter (fun u => ?_) (fun u i hneed _ => ?_)
    (fun i => by rw [hslots]) (fun u o => ?_) fun o => by rw [hwaiters]; exact h.nodup o
  · by_cases hut : u = t
    · subst hut
      rw [hpc, Function.update_self]
      exact Or.inr hp
    · rw [hpc, Function.update_of_ne hut]
      exact Or.inl ⟨rfl, hhandle u hut⟩
  · have hut : u ≠ t := fun hut => hidle (Or.inr (by rw [← hut, hneed]))
    rw [hpc, Function.update_of_ne hut, hslots]
    exact ⟨rfl, hhandle u hut, rfl⟩
  · rw [hwaiters, hpc]
    by_cases hut : u = t
    · rw [hut, Function.update_self, hawake, h.sleeps]
    · rw [Function.update_of_ne hut, h.sleeps]

/-- The lists after a change to the list of `o`. -/
theorem waiters_update (h : QueueInv s) (hentry : entryOf (s.queue o) = some i) {ws : List ℕ}
    (hqueue : s'.queue = s.queue) (hslots : s'.slots = Function.update s.slots i (some ws))
    (o' : Obj) :
    s'.waiters o' = if o' = o then ws else s.waiters o' := by
  unfold PState.waiters
  rw [hqueue, hslots]
  split_ifs with ho
  · rw [ho, hentry]
    simp
  · cases hentry' : entryOf (s.queue o') with
    | none => rfl
    | some j =>
        have hji : j ≠ i := fun hji => ho (h.apart o' o i (by rw [hentry', hji]) hentry)
        simp only [Function.update_of_ne hji]

theorem waiters_other (h : QueueInv s) (hentry : entryOf (s.queue o) = some i) {ws : List ℕ}
    {o' : Obj} (ho : o' ≠ o) (hqueue : s'.queue = s.queue)
    (hslots : s'.slots = Function.update s.slots i (some ws)) :
    s'.waiters o' = s.waiters o' := by
  rw [waiters_update h hentry hqueue hslots, if_neg ho]

/-- The entry of an object is not one that is being set up. -/
theorem QueueInv.fresh_ne (h : QueueInv s) (hentry : entryOf (s.queue o) = some i) {u j : ℕ}
    (hneed : (s.pc u).need = .fresh) (hj : entryOf (s.handle u) = some j) : j ≠ i := by
  obtain ⟨j', hj', -, hcond⟩ := h.fresh u hneed
  obtain rfl : j = j' := by rw [hj] at hj'; exact Option.some.inj hj'
  rintro rfl
  cases o with
  | mutex =>
      rw [(h.setting u (Or.inr hneed)).2] at hentry
      cases hentry
  | cond => exact hcond hentry

/-- **Threads leave a list** and go on where their sleep ends. -/
theorem QueueInv.unlist (h : QueueInv s) (hkind : s'.kind = s.kind)
    (hentry : entryOf (s.queue o) = some i) {left : List ℕ}
    (hleft : left.Sublist (s.waiters o)) (hqueue : s'.queue = s.queue)
    (hslots : s'.slots = Function.update s.slots i (some left)) (hsetter : s'.setter = s.setter)
    (hhandle : s'.handle = s.handle)
    (hkeep : ∀ u, u ∉ s.waiters o ∨ u ∈ left → s'.pc u = s.pc u)
    (hgone : ∀ u op next, u ∈ s.waiters o → u ∉ left → s.pc u = .asleep o op next →
      ∃ status, s'.pc u = goOn s.kind op (afterWait status next o)) : QueueInv s' := by
  have hwaiters := waiters_update h hentry hqueue hslots
  -- where a thread that leaves the list goes on
  have hawake : ∀ u, u ∈ s.waiters o → u ∉ left →
      Fits s (s'.handle u) (s'.pc u) ∧ ∀ o', ¬AsleepOn o' (s'.pc u) := by
    intro u hu hul
    have hasleep := (h.sleeps u o).2 hu
    have hsound := h.sound u
    have huses := h.uses u
    cases hpc : s.pc u with
    | asleep o' op next =>
        rw [hpc] at hasleep hsound huses
        obtain rfl : o' = o := hasleep
        obtain ⟨status, hgo⟩ := hgone u op next hu hul hpc
        have hneed : (s'.pc u).need = .nothing := by
          rw [hgo, goOn_need]
          exact afterWait_need hsound.1
        rw [hgo] at hneed ⊢
        refine ⟨⟨sound_goOn (sound_afterWait hsound.2.1), fun o'' huse => ?_, fun o'' hn => ?_, ?_⟩,
          fun _ => not_asleepOn_goOn⟩
        · exact huses o'' (Or.inr (uses_afterWait.1 (usesPc_goOn huse)))
        · rw [hneed] at hn
          cases hn
        · rintro (hn | hn) <;> rw [hneed] at hn <;> cases hn
    | _ => rw [hpc] at hasleep; exact hasleep.elim
  have hsplit : ∀ u, s'.pc u = s.pc u ∧ (u ∉ s.waiters o ∨ u ∈ left) ∨
      u ∈ s.waiters o ∧ u ∉ left := by
    intro u
    by_cases hu : u ∉ s.waiters o ∨ u ∈ left
    · exact Or.inl ⟨hkeep u hu, hu⟩
    · push Not at hu
      exact Or.inr hu
  refine h.of_fits hkind hqueue hsetter (fun u => ?_) (fun u j hneed hj => ?_) (fun j => ?_)
    (fun u o' => ?_)
    fun o' => ?_
  · rcases hsplit u with ⟨hpc, -⟩ | ⟨hu, hul⟩
    · exact Or.inl ⟨hpc, by rw [hhandle]⟩
    · exact Or.inr (hawake u hu hul).1
  · have hu : u ∉ s.waiters o := by
      intro hu
      have hasleep := (h.sleeps u o).2 hu
      cases hpc : s.pc u <;> rw [hpc] at hasleep hneed <;> first | exact hasleep.elim | cases hneed
    exact ⟨hkeep u (Or.inl hu), by rw [hhandle],
      by rw [hslots, Function.update_of_ne (h.fresh_ne hentry hneed hj)]⟩
  · rw [hslots]
    by_cases hji : j = i
    · obtain ⟨i', hi', hslot⟩ : ∃ i', entryOf (s.queue o) = some i' ∧ (s.slots i').isSome = true :=
        (h.usable o).resolve_left fun hunset => by rw [hunset] at hentry; cases hentry
      obtain rfl : i = i' := by rw [hentry] at hi'; exact Option.some.inj hi'
      rw [hji, Function.update_self, hslot]
      rfl
    · rw [Function.update_of_ne hji]
  · rw [hwaiters]
    rcases hsplit u with ⟨hpc, hu⟩ | ⟨hu, hul⟩
    · rw [hpc, h.sleeps]
      split_ifs with ho
      · rw [ho]
        exact ⟨fun hmem => hu.resolve_left fun hnot => hnot hmem, fun hmem => hleft.subset hmem⟩
      · rfl
    · refine iff_of_false ((hawake u hu hul).2 o') ?_
      split_ifs with ho
      · exact hul
      · intro hmem
        have ho' := (h.sleeps u o').2 hmem
        have ho'' := (h.sleeps u o).2 hu
        cases hpc : s.pc u <;> rw [hpc] at ho' ho'' <;> first | exact ho'.elim | skip
        exact ho (ho'.symm.trans ho'')
  · rw [hwaiters]
    split_ifs with ho
    · exact hleft.nodup (h.nodup o)
    · exact h.nodup o'

/-- What follows a step of sound code can be reached, if the queues it relies on are there. -/
theorem fits_goOn {handle : ℤ} (hsound : Sound s.kind op code)
    (huses : ∀ o, Uses o op code → s.queue o ≠ -1)
    (hneed : code.need = .nothing ∨ ∃ o, code.need = .handle o ∧ handle = s.queue o) :
    Fits s handle (goOn s.kind op code) := by
  refine ⟨sound_goOn hsound, fun o huse => huses o (usesPc_goOn huse), fun o hn => ?_, ?_⟩
  · rw [goOn_need] at hn
    rcases hneed with hnothing | ⟨o', ho', hhandle⟩
    · rw [hnothing] at hn
      cases hn
    · rw [ho', Need.handle.injEq] at hn
      rw [hhandle, hn]
  · rintro (hn | hn) <;> rw [goOn_need] at hn <;> rcases hneed with hneed | ⟨o', hneed, -⟩ <;>
      rw [hneed] at hn <;> cases hn

/-- **A thread goes to sleep** on the queue of `o`. -/
theorem QueueInv.enlist (h : QueueInv s) {timed : Bool} {next : Code}
    (hpc : s.pc t = .run op (.act (.wait o timed) next)) (hentry : entryOf (s.queue o) = some i)
    (hkind : s'.kind = s.kind) (hqueue : s'.queue = s.queue)
    (hslots : s'.slots = Function.update s.slots i (some (s.waiters o ++ [t])))
    (hsetter : s'.setter = s.setter) (hhandle : s'.handle = s.handle)
    (hpc' : s'.pc = Function.update s.pc t (.asleep o op next)) : QueueInv s' := by
  have hwaiters := waiters_update h hentry hqueue hslots
  have hsound := h.sound t
  have huses := h.uses t
  have hneed := h.handle t o (by rw [hpc]; rfl)
  rw [hpc] at hsound huses
  obtain ⟨hnext, ⟨-, hholds, huse⟩, hrest⟩ := hsound
  have hnothing : next.need = .nothing := hnext.elim id id
  have hfits : Fits s (s.handle t) (.asleep o op next) := by
    refine ⟨⟨hnothing, hrest, hholds⟩, fun o' hu => ?_, fun o' hn => ?_, ?_⟩
    · rcases hu with rfl | hu
      · exact huses o (Or.inl rfl)
      · exact huses o' (Or.inr (huse o' hu))
    · simp only [Pc.need, Need.handle.injEq] at hn
      rw [hneed, hn]
    · rintro (hn | hn) <;> cases hn
  have hnot := h.not_mem_waiters hpc o
  refine h.of_fits hkind hqueue hsetter (fun u => ?_) (fun u j hn hj => ?_) (fun j => ?_)
    (fun u o' => ?_)
    fun o' => ?_
  · by_cases hut : u = t
    · subst hut
      rw [hpc', Function.update_self, hhandle]
      exact Or.inr hfits
    · rw [hpc', Function.update_of_ne hut, hhandle]
      exact Or.inl ⟨rfl, rfl⟩
  · have hut : u ≠ t := fun hut => by rw [hut, hpc] at hn; cases hn
    rw [hpc', Function.update_of_ne hut, hhandle, hslots,
      Function.update_of_ne (h.fresh_ne hentry hn hj)]
    exact ⟨rfl, rfl, rfl⟩
  · rw [hslots]
    by_cases hji : j = i
    · obtain ⟨i', hi', hslot⟩ := h.slot (t := t) (o := o) (by rw [hpc]; exact Or.inl rfl)
      obtain rfl : i = i' := by rw [hentry] at hi'; exact Option.some.inj hi'
      rw [hji, Function.update_self, hslot]
      rfl
    · rw [Function.update_of_ne hji]
  · rw [hwaiters, hpc']
    by_cases hut : u = t
    · rw [hut, Function.update_self]
      split_ifs with ho
      · exact iff_of_true ho.symm (by simp)
      · exact iff_of_false (fun ho' => ho ho'.symm) (h.not_mem_waiters hpc o')
    · rw [Function.update_of_ne hut, h.sleeps]
      split_ifs with ho
      · rw [ho, List.mem_append, List.mem_singleton, or_iff_left hut]
      · rfl
  · rw [hwaiters]
    split_ifs with ho
    · exact (h.nodup o).append (List.nodup_singleton t) (by simpa using hnot)
    · exact h.nodup o'

/-! ## Setting up -/

theorem forall_update {P : ℕ → Pc → Prop} (ht : P t p) (hrest : ∀ u, u ≠ t → P u (s.pc u)) (u : ℕ) :
    P u (Function.update s.pc t p u) := by
  by_cases hut : u = t
  · rw [hut, Function.update_self]
    exact ht
  · rw [Function.update_of_ne hut]
    exact hrest u hut

/-- Nobody else sets the queue up. -/
theorem QueueInv.alone (h : QueueInv s) (ht : SettingUp (s.pc t)) {u : ℕ}
    (hu : SettingUp (s.pc u)) :
    u = t := by
  have hsame := (h.setting u hu).1.symm.trans (h.setting t ht).1
  exact Option.some.inj hsame

/-- The thread finds no queue and begins to set one up. -/
theorem QueueInv.begin (h : QueueInv s) (hkind : s'.kind = s.kind) (hunset : s.queue .mutex = -1)
    (hnobody : s.setter = none)
    (hqueue : s'.queue = s.queue) (hslots : s'.slots = s.slots) (hsetter : s'.setter = some t)
    (hhandle : s'.handle = s.handle) (hpc : s'.pc = Function.update s.pc t p)
    (hsound : SoundPc s.kind p)
    (huses : ∀ o, UsesPc o p → s.queue o ≠ -1) (hneed : p.need = .nothing ∨ p.need = .unset)
    (hawake : ∀ o, AsleepOn o p ↔ AsleepOn o (s.pc t)) : QueueInv s' := by
  have hidle : ∀ u, ¬SettingUp (s.pc u) := fun u hu => by
    have hsome := (h.setting u hu).1
    rw [hnobody] at hsome
    cases hsome
  have hwaiters : ∀ o, s'.waiters o = s.waiters o := fun o => by
    simp only [PState.waiters, hqueue, hslots]
  refine ⟨?_, ?_, ?_, ?_, ?_, ?_, ?_, ?_, ?_, ?_⟩
  · rw [hpc, hkind]
    exact forall_update (P := fun _ q => SoundPc s.kind q) hsound fun u _ => h.sound u
  · intro o
    exact (h.usable o).imp (fun hq => by rw [hqueue, hq]) fun ⟨i, hi, hsome⟩ =>
      ⟨i, by rw [hqueue, hi], by rw [hslots, hsome]⟩
  · rw [hpc, hqueue]
    exact forall_update (P := fun _ q => ∀ o, UsesPc o q → s.queue o ≠ -1) huses fun u _ => h.uses u
  · rw [hpc, hqueue, hhandle]
    refine forall_update (P := fun u q => ∀ o, q.need = .handle o → s.handle u = s.queue o)
      (fun o hn => ?_) fun u _ => h.handle u
    rcases hneed with hneed | hneed <;> rw [hneed] at hn <;> cases hn
  · rw [hpc, hqueue, hsetter]
    exact forall_update (P := fun u q => SettingUp q → some t = some u ∧ s.queue .mutex = -1)
      (fun _ => ⟨rfl, hunset⟩) fun u _ hu => absurd hu (hidle u)
  · rw [hpc, hqueue, hslots, hhandle]
    refine forall_update (P := fun u q => q.need = .fresh → ∃ i, entryOf (s.handle u) = some i ∧
      s.slots i = some [] ∧ entryOf (s.queue .cond) ≠ some i) (fun hn => ?_) fun u _ => h.fresh u
    rcases hneed with hneed | hneed <;> rw [hneed] at hn <;> cases hn
  · rw [hqueue]
    exact h.apart
  · intro u o
    rw [hwaiters, ← h.sleeps, hpc]
    exact forall_update (P := fun u q => AsleepOn o q ↔ AsleepOn o (s.pc u)) (hawake o)
      (fun _ _ => Iff.rfl) u
  · intro o
    rw [hwaiters]
    exact h.nodup o
  · intro i hi
    rw [hslots] at hi
    rw [hqueue]
    exact (h.owned i hi).imp id fun ⟨u, hn, _⟩ => absurd (Or.inr hn) (hidle u)

/-- The entry `sys_mutex_queue_alloc` finds is free. -/
theorem firstFree_spec {others : List ℕ} (hfree : s.firstFree others = some i) :
    i < mutexQueueNrMax ∧ s.slots i = none := by
  unfold PState.firstFree at hfree
  have hmem := List.mem_of_find?_eq_some hfree
  have hfound := List.find?_some hfree
  simp only [decide_eq_true_eq] at hfound
  exact ⟨List.mem_range.1 hmem, hfound.1⟩

/-- The thread has a new entry. -/
theorem QueueInv.alloc (h : QueueInv s) (hkind : s'.kind = s.kind) (hunset : (s.pc t).need = .unset)
    (hi : i < mutexQueueNrMax) (hfree : s.slots i = none) (hqueue : s'.queue = s.queue)
    (hslots : s'.slots = Function.update s.slots i (some [])) (hsetter : s'.setter = s.setter)
    (hhandle : s'.handle = Function.update s.handle t (i : ℤ))
    (hpc : s'.pc = Function.update s.pc t p) (hsound : SoundPc s.kind p)
    (huses : ∀ o, UsesPc o p → s.queue o ≠ -1) (hneed : p.need = .fresh)
    (hawake : ∀ o, AsleepOn o p ↔ AsleepOn o (s.pc t)) : QueueInv s' := by
  have hsetting := h.setting t (Or.inl hunset)
  have hne : ∀ o j, entryOf (s.queue o) = some j → j ≠ i := by
    rintro o j hj rfl
    rcases h.usable o with hq | ⟨i', hi', hsome⟩
    · rw [hq] at hj
      cases hj
    · obtain rfl : j = i' := by rw [hj] at hi'; exact Option.some.inj hi'
      rw [hfree] at hsome
      cases hsome
  have hwaiters : ∀ o, s'.waiters o = s.waiters o := fun o => by
    unfold PState.waiters
    rw [hqueue, hslots]
    cases hj : entryOf (s.queue o) with
    | none => rfl
    | some j => simp only [Function.update_of_ne (hne o j hj)]
  have hrest : ∀ u, u ≠ t → ¬SettingUp (s.pc u) := fun u hut hu => hut (h.alone (Or.inl hunset) hu)
  have hentry := entryOf_natCast hi
  refine ⟨?_, ?_, ?_, ?_, ?_, ?_, ?_, ?_, ?_, ?_⟩
  · rw [hpc, hkind]
    exact forall_update (P := fun _ q => SoundPc s.kind q) hsound fun u _ => h.sound u
  · intro o
    refine (h.usable o).imp (fun hq => by rw [hqueue, hq]) fun ⟨j, hj, hsome⟩ => ?_
    exact ⟨j, by rw [hqueue, hj], by rw [hslots, Function.update_of_ne (hne o j hj), hsome]⟩
  · rw [hpc, hqueue]
    exact forall_update (P := fun _ q => ∀ o, UsesPc o q → s.queue o ≠ -1) huses fun u _ => h.uses u
  · rw [hpc, hqueue, hhandle]
    refine forall_update (P := fun u q => ∀ o, q.need = .handle o →
      Function.update s.handle t (i : ℤ) u = s.queue o) (fun o hn => ?_) fun u hut o hn => ?_
    · rw [hneed] at hn
      cases hn
    · rw [Function.update_of_ne hut]
      exact h.handle u o hn
  · rw [hpc, hqueue, hsetter]
    exact forall_update (P := fun u q => SettingUp q → s.setter = some u ∧ s.queue .mutex = -1)
      (fun _ => hsetting) fun u _ => h.setting u
  · rw [hpc, hqueue, hslots, hhandle]
    refine forall_update (P := fun u q => q.need = .fresh →
      ∃ j, entryOf (Function.update s.handle t (i : ℤ) u) = some j ∧
        Function.update s.slots i (some []) j = some [] ∧ entryOf (s.queue .cond) ≠ some j)
      (fun _ => ?_) fun u hut hn => absurd (Or.inr hn) (hrest u hut)
    exact ⟨i, by rw [Function.update_self, hentry], by rw [Function.update_self],
      fun hcond => hne _ _ hcond rfl⟩
  · rw [hqueue]
    exact h.apart
  · intro u o
    rw [hwaiters, ← h.sleeps, hpc]
    exact forall_update (P := fun u q => AsleepOn o q ↔ AsleepOn o (s.pc u)) (hawake o)
      (fun _ _ => Iff.rfl) u
  · intro o
    rw [hwaiters]
    exact h.nodup o
  · intro j hj
    rw [hqueue]
    by_cases hji : j = i
    · exact Or.inr ⟨t, by rw [hpc, Function.update_self, hneed],
        by rw [hhandle, Function.update_self, hentry, hji]⟩
    · rw [hslots, Function.update_of_ne hji] at hj
      refine Or.inl ((h.owned j hj).resolve_right fun ⟨u, hn, hu⟩ => ?_)
      have hut : u = t := h.alone (Or.inl hunset) (Or.inr hn)
      rw [hut, hunset] at hn
      cases hn

/-- The thread stores the handle of the new entry. -/
theorem QueueInv.setQueue (h : QueueInv s) (hkind : s'.kind = s.kind)
    (hfresh : (s.pc t).need = .fresh)
    (hqueue : s'.queue = Function.update s.queue .mutex (s.handle t)) (hslots : s'.slots = s.slots)
    (hhandle : s'.handle = s.handle) (hpc : s'.pc = Function.update s.pc t p)
    (hsound : SoundPc s.kind p)
    (huses : ∀ o, UsesPc o p → s'.queue o ≠ -1) (hneed : p.need = .nothing)
    (hawake : ∀ o, AsleepOn o p ↔ AsleepOn o (s.pc t)) : QueueInv s' := by
  obtain ⟨hsetting, hunset⟩ := h.setting t (Or.inr hfresh)
  obtain ⟨i, hentry, hslot, hcond⟩ := h.fresh t hfresh
  have hrest : ∀ u, u ≠ t → ¬SettingUp (s.pc u) := fun u hut hu => hut (h.alone (Or.inr hfresh) hu)
  have hmutex : s'.queue .mutex = s.handle t := by rw [hqueue, Function.update_self]
  have hother : s'.queue .cond = s.queue .cond := by rw [hqueue, Function.update_of_ne (by decide)]
  have hset : s'.queue .mutex ≠ -1 := fun hq => by
    rw [hmutex] at hq
    rw [hq] at hentry
    cases hentry
  have hwaiters : ∀ o, s'.waiters o = s.waiters o := fun o => by
    cases o with
    | mutex =>
        unfold PState.waiters
        rw [hmutex, hslots, hentry, hunset]
        simp only [hslot]
        rfl
    | cond =>
        unfold PState.waiters
        rw [hother, hslots]
  have hkept : ∀ o, s.queue o ≠ -1 → s'.queue o = s.queue o := by
    intro o ho
    cases o with
    | mutex => exact absurd hunset ho
    | cond => exact hother
  refine ⟨?_, ?_, ?_, ?_, ?_, ?_, ?_, ?_, ?_, ?_⟩
  · rw [hpc, hkind]
    exact forall_update (P := fun _ q => SoundPc s.kind q) hsound fun u _ => h.sound u
  · intro o
    cases o with
    | mutex => exact Or.inr ⟨i, by rw [hmutex, hentry], by rw [hslots, hslot]; rfl⟩
    | cond =>
        refine (h.usable .cond).imp (fun hq => by rw [hother, hq]) fun ⟨j, hj, hsome⟩ => ?_
        exact ⟨j, by rw [hother, hj], by rw [hslots, hsome]⟩
  · rw [hpc]
    refine forall_update (P := fun _ q => ∀ o, UsesPc o q → s'.queue o ≠ -1) huses fun u _ o hu =>
      ?_
    have hold := h.uses u o hu
    rwa [hkept o hold]
  · rw [hpc, hhandle]
    refine forall_update (P := fun u q => ∀ o, q.need = .handle o → s.handle u = s'.queue o)
      (fun o hn => ?_) fun u _ o hn => ?_
    · rw [hneed] at hn
      cases hn
    · rw [hkept o (h.uses u o (usesPc_of_need hn))]
      exact h.handle u o hn
  · rw [hpc]
    refine forall_update (P := fun u q => SettingUp q → s'.setter = some u ∧ s'.queue .mutex = -1)
      (fun hn => ?_) fun u hut hu => absurd hu (hrest u hut)
    rcases hn with hn | hn <;> rw [hneed] at hn <;> cases hn
  · rw [hpc, hother]
    refine forall_update (P := fun u q => q.need = .fresh → ∃ i, entryOf (s'.handle u) = some i ∧
      s'.slots i = some [] ∧ entryOf (s.queue .cond) ≠ some i) (fun hn => ?_)
      fun u hut hn => absurd (Or.inr hn) (hrest u hut)
    rw [hneed] at hn
    cases hn
  · intro o o' j hj hj'
    cases o <;> cases o' <;> first | rfl | skip
    · rw [hmutex, hentry, Option.some.injEq] at hj
      rw [hother, ← hj] at hj'
      exact absurd hj' hcond
    · rw [hmutex, hentry, Option.some.injEq] at hj'
      rw [hother, ← hj'] at hj
      exact absurd hj hcond
  · intro u o
    rw [hwaiters, ← h.sleeps, hpc]
    exact forall_update (P := fun u q => AsleepOn o q ↔ AsleepOn o (s.pc u)) (hawake o)
      (fun _ _ => Iff.rfl) u
  · intro o
    rw [hwaiters]
    exact h.nodup o
  · intro j hj
    rw [hslots] at hj
    rcases h.owned j hj with ⟨o, ho⟩ | ⟨u, hn, hu⟩
    · have hold : s.queue o ≠ -1 := fun hq => by rw [hq] at ho; cases ho
      exact Or.inl ⟨o, by rw [hkept o hold, ho]⟩
    · have hut : u = t := h.alone (Or.inr hfresh) (Or.inr hn)
      rw [hut] at hu
      exact Or.inl ⟨.mutex, by rw [hmutex, hu]⟩

/-! ## Steps -/

section Frame

variable (s : PState) (t : ℕ) (op : Op) (code : Code) (o : Obj) (c : Test)

@[simp] theorem goto_pc : (s.goto t op code).pc = Function.update s.pc t (goOn s.kind op code) :=
  rfl
@[simp] theorem goto_queue : (s.goto t op code).queue = s.queue := rfl
@[simp] theorem goto_slots : (s.goto t op code).slots = s.slots := rfl
@[simp] theorem goto_handle : (s.goto t op code).handle = s.handle := rfl
@[simp] theorem goto_setter : (s.goto t op code).setter = s.setter := rfl
@[simp] theorem goto_spin : (s.goto t op code).spin = s.spin := rfl
@[simp] theorem goto_kind : (s.goto t op code).kind = s.kind := rfl

theorem mutexQueueWake_frame (all : Bool) :
    (s.mutexQueueWake t all).queue = s.queue ∧ (s.mutexQueueWake t all).handle = s.handle ∧
      (s.mutexQueueWake t all).kind = s.kind ∧ (s.mutexQueueWake t all).setter = s.setter ∧
      (s.mutexQueueWake t all).spin = s.spin := by
  unfold PState.mutexQueueWake
  split
  · exact ⟨rfl, rfl, rfl, rfl, rfl⟩
  · split <;> exact ⟨rfl, rfl, rfl, rfl, rfl⟩

@[simp] theorem noteSpin_pc : (s.noteSpin t op o).pc = s.pc := by cases o <;> cases op <;> rfl
@[simp] theorem noteSpin_queue : (s.noteSpin t op o).queue = s.queue := by
  cases o <;> cases op <;> rfl
@[simp] theorem noteSpin_slots : (s.noteSpin t op o).slots = s.slots := by
  cases o <;> cases op <;> rfl
@[simp] theorem noteSpin_handle : (s.noteSpin t op o).handle = s.handle := by
  cases o <;> cases op <;> rfl
@[simp] theorem noteSpin_setter : (s.noteSpin t op o).setter = s.setter := by
  cases o <;> cases op <;> rfl
@[simp] theorem noteSpin_spin : (s.noteSpin t op o).spin = s.spin := by cases o <;> cases op <;> rfl
@[simp] theorem noteSpin_lock : (s.noteSpin t op o).lock = s.lock := by cases o <;> cases op <;> rfl
@[simp] theorem noteSpin_depth : (s.noteSpin t op o).depth = s.depth := by
  cases o <;> cases op <;> rfl
@[simp] theorem noteSpin_kind : (s.noteSpin t op o).kind = s.kind := by cases o <;> cases op <;> rfl

@[simp] theorem noteTest_pc : (s.noteTest t c).pc = s.pc := by
  cases c with
  | queueUnset o => cases o <;> rfl
  | _ => rfl
@[simp] theorem noteTest_queue : (s.noteTest t c).queue = s.queue := by
  cases c with
  | queueUnset o => cases o <;> rfl
  | _ => rfl
@[simp] theorem noteTest_slots : (s.noteTest t c).slots = s.slots := by
  cases c with
  | queueUnset o => cases o <;> rfl
  | _ => rfl
@[simp] theorem noteTest_handle : (s.noteTest t c).handle = s.handle := by
  cases c with
  | queueUnset o => cases o <;> rfl
  | _ => rfl
@[simp] theorem noteTest_kind : (s.noteTest t c).kind = s.kind := by
  cases c with
  | queueUnset o => cases o <;> rfl
  | _ => rfl
@[simp] theorem noteTest_lock : (s.noteTest t c).lock = s.lock := by
  cases c with
  | queueUnset o => cases o <;> rfl
  | _ => rfl
@[simp] theorem noteTest_depth : (s.noteTest t c).depth = s.depth := by
  cases c with
  | queueUnset o => cases o <;> rfl
  | _ => rfl
@[simp] theorem noteTest_spin : (s.noteTest t c).spin = s.spin := by
  cases c with
  | queueUnset o => cases o <;> rfl
  | _ => rfl

end Frame

/-- A step that changes nothing the invariant is about. -/
theorem QueueInv.congr (h : QueueInv s) (hkind : s'.kind = s.kind) (hqueue : s'.queue = s.queue)
    (hslots : s'.slots = s.slots)
    (hsetter : s'.setter = s.setter) (hhandle : s'.handle = s.handle) (hpc : s'.pc = s.pc) :
    QueueInv s' := by
  have hwaiters : ∀ o, s'.waiters o = s.waiters o := fun o => by
    simp only [PState.waiters, hqueue, hslots]
  exact h.of_fits hkind hqueue hsetter (fun u => Or.inl ⟨by rw [hpc], by rw [hhandle]⟩)
    (fun u i _ _ => ⟨by rw [hpc], by rw [hhandle], by rw [hslots]⟩) (fun i => by rw [hslots])
    (fun u o => by rw [hpc, hwaiters]; exact h.sleeps u o) fun o =>
      by rw [hwaiters]; exact h.nodup o

/-- A thread goes on in its code. -/
theorem QueueInv.goto (h : QueueInv s) {next : Code} (hpc : s.pc t = .run op code)
    (hidle : code.need = .nothing ∨ ∃ o, code.need = .handle o) (hqueue : s'.queue = s.queue)
    (hslots : s'.slots = s.slots) (hsetter : s'.setter = s.setter)
    (hhandle : ∀ u, u ≠ t → s'.handle u = s.handle u) (hpc' : s'.pc = s.pc)
    (hkind : s'.kind = s.kind)
    (hsound : Sound s.kind op next) (huses : ∀ o, Uses o op next → s.queue o ≠ -1)
    (hneed : next.need = .nothing ∨ ∃ o, next.need = .handle o ∧ s'.handle t = s.queue o) :
    QueueInv (s'.goto t op next) := by
  refine h.move (t := t) (p := goOn s.kind op next) hkind hqueue hslots hsetter hhandle
    (by rw [goto_pc, hpc', hkind]) (fits_goOn hsound huses hneed) ?_ fun o => ?_
  · rw [hpc]
    rintro (hn | hn) <;> rcases hidle with hidle | ⟨o, hidle⟩ <;>
      rw [Pc.need, hidle] at hn <;> cases hn
  · rw [hpc]
    exact iff_of_false not_asleepOn_goOn id

/-- A test. -/
theorem QueueInv.testStep (h : QueueInv s) {c : Test} {yes no : Code}
    (hpc : s.pc t = .run op (.ite c yes no)) (htry : TrylockAt s t input op (.ite c yes no))
    (hset : SetUpAt s t input op (.ite c yes no)) :
    QueueInv (s.codeStep t input op (.ite c yes no)) := by
  have hsound : Sound s.kind op (.ite c yes no) := by have hs := h.sound t; rwa [hpc] at hs
  have huses : ∀ o, Uses o op (.ite c yes no) → s.queue o ≠ -1 := by
    have hu := h.uses t; rwa [hpc] at hu
  obtain ⟨hyes, htest, hsyes, hno⟩ := hsound
  simp only [PState.codeStep]
  split_ifs with hc
  · have huses' : ∀ o, Uses o op yes → s.queue o ≠ -1 := by
      intro o hu
      refine huses o ⟨?_, ?_, Or.inl hu⟩
      · rintro rfl
        exact htest hu
      · rintro rfl rfl
        exact htest hu
    by_cases hunset : c = .queueUnset .mutex
    · subst hunset
      have hq : s.queue .mutex = -1 := by simpa [PState.test] using hc
      refine h.begin (t := t) (p := goOn s.kind op yes)
        (by simp) hq (hset hq) rfl rfl rfl rfl rfl (sound_goOn hsyes)
        (fun o hu => huses' o (usesPc_goOn hu)) (by rw [goOn_need]; exact hyes) fun o => ?_
      rw [hpc]
      exact iff_of_false not_asleepOn_goOn id
    · have hgives : c.gives = .nothing := by
        cases c with
        | queueUnset o =>
            cases o with
            | mutex => exact absurd rfl hunset
            | cond => rfl
        | _ => rfl
      have hsetter : (s.noteTest t c).setter = s.setter := by
        cases c with
        | queueUnset o =>
            cases o with
            | mutex => exact absurd rfl hunset
            | cond => rfl
        | _ => rfl
      rw [hgives, or_self] at hyes
      exact h.goto hpc (Or.inl rfl) (by simp) (by simp) hsetter (by simp) (by simp)
        (by simp) hsyes huses'
        (Or.inl hyes)
  · rcases hno with ⟨hkind, rfl, rfl⟩ | ⟨hno, -, hsno⟩
    · exact absurd (htry hkind rfl) (by simpa [PState.test] using hc)
    · refine h.goto hpc (Or.inl rfl) rfl rfl rfl (fun _ _ => rfl) rfl rfl hsno (fun o hu => ?_)
        (Or.inl hno)
      by_cases hunset : c = .queueUnset o
      · subst hunset
        simpa [PState.test] using hc
      · by_cases hbad : o = .mutex ∧ c = .queueBad
        · obtain ⟨rfl, rfl⟩ := hbad
          have hq : ¬s.queue .mutex < 0 := by simpa [PState.test] using hc
          omega
        · exact huses o ⟨hunset, fun ho hc => hbad ⟨ho, hc⟩, Or.inr hu⟩

/-- A system call that waits. -/
theorem QueueInv.waitStep (h : QueueInv s) {timed : Bool} {next : Code}
    (hpc : s.pc t = .run op (.act (.wait o timed) next)) :
    QueueInv (s.mutexQueueWait t o timed input.time op next) := by
  have hsound : Sound s.kind op (.act (.wait o timed) next) := by
    have hs := h.sound t
    rwa [hpc] at hs
  have huses : ∀ o', Uses o' op (.act (.wait o timed) next) → s.queue o' ≠ -1 := by
    have hu := h.uses t; rwa [hpc] at hu
  obtain ⟨hnext, ⟨-, -, huse⟩, hsnext⟩ := hsound
  have hnothing : next.need = .nothing := hnext.elim id id
  obtain ⟨i, hhandle, hentry, hslot⟩ := h.slot_of_need (t := t) (o := o) (by rw [hpc]; rfl)
  have hgo : ∀ (s' : PState) (status : ℕ), s'.queue = s.queue → s'.slots = s.slots →
      s'.setter = s.setter → s'.handle = s.handle → s'.pc = s.pc → s'.kind = s.kind →
      QueueInv (s'.goto t op (afterWait status next o)) := fun s' status hq hsl hset hh hp hk =>
    h.goto hpc (Or.inr ⟨o, rfl⟩) hq hsl hset (fun u _ => by rw [hh]) hp hk (sound_afterWait hsnext)
      (fun o' hu => huses o' (Or.inr (huse o' (uses_afterWait.1 hu))))
      (Or.inl (afterWait_need hnothing))
  unfold PState.mutexQueueWait
  rw [hhandle]
  simp only [hslot]
  split_ifs
  · -- the thread exits
    refine h.move (t := t) (p := .exited) rfl rfl rfl rfl (fun _ _ => rfl) rfl
      ⟨trivial, fun _ hu => hu.elim, fun _ hn => (by cases hn),
        (by rintro (hn | hn) <;> cases hn)⟩ ?_
      fun o' => ?_
    · rw [hpc]
      rintro (hn | hn) <;> cases hn
    · rw [hpc]
      rfl
  · exact hgo _ _ rfl rfl rfl rfl rfl rfl
  · exact hgo _ _ rfl rfl rfl rfl rfl rfl
  · exact h.enlist hpc hentry rfl rfl rfl rfl rfl rfl

theorem toLeave_sublist (all : Bool) (ws : List ℕ) : (toLeave all ws).Sublist ws := by
  unfold toLeave
  split_ifs
  · exact List.nil_sublist ws
  · exact List.drop_sublist 1 ws

theorem mem_toWake_or_toLeave {all : Bool} {ws : List ℕ} {u : ℕ} :
    u ∈ ws ↔ u ∈ toWake all ws ∨ u ∈ toLeave all ws := by
  unfold toWake toLeave
  split_ifs
  · simp
  · rw [← List.mem_append, List.take_append_drop]

theorem not_mem_toLeave {all : Bool} {ws : List ℕ} (hnodup : ws.Nodup) {u : ℕ}
    (hu : u ∈ toWake all ws) :
    u ∉ toLeave all ws := by
  unfold toWake toLeave at *
  split_ifs at hu ⊢
  · exact List.not_mem_nil
  · rw [← List.take_append_drop 1 ws] at hnodup
    exact List.disjoint_of_nodup_append hnodup hu

/-- What a system call that wakes does. -/
theorem QueueInv.wake_eq (h : QueueInv s) (all : Bool) (hneed : (s.pc t).need = .handle o) :
    ∃ i, entryOf (s.queue o) = some i ∧ s.mutexQueueWake t all =
      { s with
        slots := Function.update s.slots i (some (toLeave all (s.waiters o)))
        pc := fun u => if u ∈ toWake all (s.waiters o) then wokenPc s.kind (s.pc u)
          else s.pc u } := by
  obtain ⟨i, hhandle, hentry, hslot⟩ := h.slot_of_need hneed
  refine ⟨i, hentry, ?_⟩
  rw [PState.mutexQueueWake, hhandle]
  simp only [hslot]

/-- A wake leaves a thread alone that does not sleep. -/
theorem QueueInv.wake_pc (h : QueueInv s) {all : Bool} {u : ℕ} (hneed : (s.pc t).need = .handle o)
    (hu : u ∉ s.waiters o) : (s.mutexQueueWake t all).pc u = s.pc u := by
  obtain ⟨i, -, hwake⟩ := h.wake_eq all hneed
  rw [hwake]
  exact if_neg fun hmem => hu (mem_toWake_or_toLeave.2 (Or.inl hmem))

/-- A thread that is woken was asleep on the list, and goes on where its sleep ends. -/
theorem QueueInv.woken_pc (h : QueueInv s) {all : Bool} {u : ℕ}
    (hu : u ∈ toWake all (s.waiters o)) :
    ∃ op next, s.pc u = .asleep o op next ∧
      wokenPc s.kind (s.pc u) = goOn s.kind op (afterWait 0 next o) := by
  have hasleep := (h.sleeps u o).2 (mem_toWake_or_toLeave.2 (Or.inl hu))
  cases hp : s.pc u with
  | asleep o' op next =>
      rw [hp] at hasleep
      obtain rfl : o' = o := hasleep
      exact ⟨op, next, rfl, rfl⟩
  | _ => rw [hp] at hasleep; exact hasleep.elim

/-- Where everybody is after the call. -/
theorem QueueInv.wake_goto_pc (h : QueueInv s) {all : Bool} {next : Code}
    (hpc : s.pc t = .run op (.act (.wake o all) next)) (u : ℕ) :
    ((s.mutexQueueWake t all).goto t op next).pc u =
      if u = t then goOn s.kind op next
      else if u ∈ toWake all (s.waiters o) then wokenPc s.kind (s.pc u) else s.pc u := by
  obtain ⟨i, -, hwake⟩ := h.wake_eq (t := t) (o := o) all (by rw [hpc]; rfl)
  rw [hwake, goto_pc]
  by_cases hut : u = t
  · rw [hut, Function.update_self, if_pos rfl]
  · rw [Function.update_of_ne hut, if_neg hut]

/-- A system call that wakes. -/
theorem QueueInv.wake (h : QueueInv s) {all : Bool} (hneed : (s.pc t).need = .handle o) :
    QueueInv (s.mutexQueueWake t all) := by
  obtain ⟨i, hentry, hwake⟩ := h.wake_eq all hneed
  rw [hwake]
  refine h.unlist rfl hentry (toLeave_sublist all _) rfl rfl rfl rfl (fun u hu => ?_)
    fun u op next hu hul hpc => ⟨0, ?_⟩
  · refine if_neg fun hwake => ?_
    rcases hu with hu | hu
    · exact hu (mem_toWake_or_toLeave.2 (Or.inl hwake))
    · exact not_mem_toLeave (h.nodup o) hwake hu
  · have hwake : u ∈ toWake all (s.waiters o) := (mem_toWake_or_toLeave.1 hu).resolve_right hul
    simp only [hwake, if_true, hpc]
    rfl

theorem QueueInv.codeStep (h : QueueInv s) (hpc : s.pc t = .run op code)
    (htry : TrylockAt s t input op code) (hset : SetUpAt s t input op code) :
    QueueInv (s.codeStep t input op code) := by
  have hsound : Sound s.kind op code := by have hs := h.sound t; rwa [hpc] at hs
  have huses : ∀ o, Uses o op code → s.queue o ≠ -1 := by have hu := h.uses t; rwa [hpc] at hu
  cases code with
  | ret status =>
      exact h.goto hpc (Or.inl rfl) rfl rfl rfl (fun _ _ => rfl) rfl rfl hsound huses (Or.inl rfl)
  | body =>
      exact h.goto hpc (Or.inl rfl) rfl rfl rfl (fun _ _ => rfl) rfl rfl hsound huses (Or.inl rfl)
  | spinLock o next =>
      simp only [PState.codeStep]
      split_ifs with hold
      · exact h.congr rfl rfl rfl rfl rfl rfl
      · exact h.goto hpc (Or.inl rfl) (by simp) (by simp) (by simp) (by simp) (by simp) (by simp)
          hsound.2.2 huses (Or.inl hsound.1)
  | xchgLock busy free =>
      obtain ⟨hbusy, hfree, -, hsbusy, hsfree⟩ := hsound
      simp only [PState.codeStep]
      split_ifs with hold
      · exact h.goto hpc (Or.inl rfl) rfl rfl rfl (fun _ _ => rfl) rfl rfl hsbusy
          (fun o hu => huses o (Or.inl hu)) (Or.inl hbusy)
      · exact h.goto hpc (Or.inl rfl) rfl rfl rfl (fun _ _ => rfl) rfl rfl hsfree
          (fun o hu => huses o (Or.inr hu)) (Or.inl hfree)
  | ite c yes no => exact h.testStep hpc htry hset
  | act i next =>
      obtain ⟨hnext, hinstr, hsnext⟩ := hsound
      have huses' : ∀ o, Uses o op next → s.queue o ≠ -1 := fun o hu => huses o (Or.inr hu)
      cases i with
      | wait o timed => exact h.waitStep hpc
      | wake o all =>
          have hneed : (s.pc t).need = .handle o := by rw [hpc]; rfl
          have hframe := mutexQueueWake_frame s t all
          refine (h.wake hneed).goto (by rw [h.wake_pc hneed (h.not_mem_waiters hpc o), hpc])
            (Or.inr ⟨o, rfl⟩) rfl rfl rfl
            (fun _ _ => rfl) rfl rfl (by rw [hframe.2.2.1]; exact hsnext) (fun o' hu => ?_)
            (Or.inl (hnext.elim id id))
          rw [hframe.1]
          exact huses' o' hu
      | alloc =>
          obtain ⟨i, hfree⟩ := Option.isSome_iff_exists.1 hset
          obtain ⟨hi, hslot⟩ := firstFree_spec hfree
          have halloc : s.mutexQueueAlloc input.others =
              ({ s with slots := Function.update s.slots i (some []) }, (i : ℤ)) := by
            rw [PState.mutexQueueAlloc, hfree]
          simp only [PState.codeStep, PState.instrStep, halloc]
          refine h.alloc (t := t) (p := goOn s.kind op next) rfl (by rw [hpc]; rfl) hi hslot rfl
            rfl rfl rfl rfl
            (sound_goOn hsnext) (fun o hu => huses' o (usesPc_goOn hu))
            (by rw [goOn_need]; exact hinstr) fun o => ?_
          rw [hpc]
          exact iff_of_false not_asleepOn_goOn id
      | setQueue =>
          have hfresh : (s.pc t).need = .fresh := by rw [hpc]; rfl
          obtain ⟨i, hentry, -, -⟩ := h.fresh t hfresh
          refine h.setQueue (t := t) (p := goOn s.kind op next) rfl hfresh rfl rfl rfl rfl
            (sound_goOn hsnext)
            (fun o hu hq => ?_) (by rw [goOn_need]; exact hnext.elim id id) fun o => ?_
          · cases o with
            | mutex =>
                have hq' : s.handle t = -1 := by
                  simpa [PState.codeStep, PState.instrStep, PState.goto] using hq
                rw [hq'] at hentry
                cases hentry
            | cond =>
                exact huses' .cond (usesPc_goOn hu)
                  (by simpa [PState.codeStep, PState.instrStep, PState.goto] using hq)
          · rw [hpc]
            exact iff_of_false not_asleepOn_goOn id
      | arg o =>
          refine h.goto hpc (Or.inl rfl) rfl rfl rfl (fun u hut => Function.update_of_ne hut _ _)
            rfl rfl
            hsnext huses' (hnext.imp id fun hn => ⟨o, hn, ?_⟩)
          exact Function.update_self ..
      | _ =>
        exact h.goto hpc (Or.inl rfl) rfl rfl rfl (fun _ _ => rfl) rfl rfl hsnext huses'
          (Or.inl (hnext.elim id id))

/-- A step that wakes nobody leaves the other threads where they are. -/
theorem codeStep_pc {u : ℕ} (hut : u ≠ t) (hcode : ∀ o all next, code ≠ .act (.wake o all) next) :
    (s.codeStep t input op code).pc u = s.pc u := by
  have hgo : ∀ (s' : PState) (next : Code), s'.pc = s.pc → (s'.goto t op next).pc u = s.pc u :=
    fun s' next hpc => by rw [goto_pc, Function.update_of_ne hut, hpc]
  cases code with
  | ret status => exact hgo s _ rfl
  | body => exact hgo s _ rfl
  | spinLock o next =>
      simp only [PState.codeStep]
      split_ifs
      · rfl
      · exact hgo _ _ (noteSpin_pc ..)
  | xchgLock busy free =>
      simp only [PState.codeStep]
      split_ifs <;> exact hgo _ _ rfl
  | ite c yes no =>
      simp only [PState.codeStep]
      split_ifs
      · exact hgo _ _ (noteTest_pc ..)
      · exact hgo s _ rfl
  | act i next =>
      cases i with
      | alloc =>
          simp only [PState.codeStep, PState.instrStep, PState.mutexQueueAlloc]
          split <;> exact hgo _ _ rfl
      | wait o timed =>
          simp only [PState.codeStep, PState.instrStep, PState.mutexQueueWait]
          split
          · exact hgo s _ rfl
          · split_ifs
            · exact Function.update_of_ne hut _ _
            · split <;> exact hgo _ _ rfl
            · split <;> exact hgo _ _ rfl
            · split
              · exact hgo s _ rfl
              · exact Function.update_of_ne hut _ _
      | wake o all => exact absurd rfl (hcode o all next)
      | _ => exact hgo _ _ rfl

/-- The end of a timed sleep. -/
theorem QueueInv.timeout (h : QueueInv s) {next : Code} (hpc : s.pc t = .asleep o op next) :
    QueueInv ((s.sleepOver t).goto t op (afterWait etimedout next o)) := by
  obtain ⟨i, hhandle, hentry, hslot⟩ := h.slot_of_need (t := t) (o := o) (by rw [hpc]; rfl)
  have hover : s.sleepOver t =
      { s with slots := Function.update s.slots i (some ((s.waiters o).filter (· ≠ t))) } := by
    rw [PState.sleepOver, hhandle]
    simp only [hslot]
    rfl
  rw [hover]
  refine h.unlist rfl hentry List.filter_sublist rfl rfl rfl rfl (fun u hu => ?_)
    fun u op' next' hu hul hpc' => ⟨etimedout, ?_⟩
  · refine Function.update_of_ne (fun hut => ?_) _ _
    subst hut
    have hmem := (h.sleeps u o).1 (by rw [hpc]; rfl)
    rcases hu with hu | hu
    · exact hu hmem
    · simp at hu
  · have hut : u = t := by
      by_contra hut
      exact hul (List.mem_filter.2 ⟨hu, by simpa using hut⟩)
    subst hut
    rw [hpc] at hpc'
    cases hpc'
    exact Function.update_self ..

/-- **An event keeps the queues in order**, if the threads do not set one up at once. -/
theorem queue_event (h : QueueInv s) {e : Event} (htry : AtRun TrylockAt s e)
    (hset : AtRun SetUpAt s e) (hstep : pthreadStep s e = some s') : QueueInv s' := by
  obtain ⟨s₁, hevent, rfl⟩ := Option.map_eq_some_iff.1 hstep
  suffices hinv : QueueInv s₁ from hinv.congr rfl rfl rfl rfl rfl rfl
  cases e with
  | call t op =>
      simp only [PState.event] at hevent
      split_ifs at hevent with hcall
      cases hevent
      have hentry := sound_entry s.kind op
      refine h.move (t := t) (p := .run op (entry s.kind op)) rfl rfl rfl rfl (fun _ _ => rfl) rfl
        ⟨hentry.2, fun o hu => ?_, fun o hn => ?_, ?_⟩ ?_ fun o => ?_
      · have hno : ∀ o op kind, op.isCall = true → ¬Uses o op (entry kind op) := by
          intro o op kind hcall
          cases o <;> cases op <;> cases kind <;>
            simp [entry, setUp, trylockBody, leave, Uses, Op.condAtRet, Op.condAtBody,
              Op.mutexAtBody, Instr.on, Op.isCall] at hcall ⊢
        exact absurd hu (hno o op s.kind hcall.2.2)
      · rw [Pc.need, hentry.1] at hn
        cases hn
      · rintro (hn | hn) <;> rw [Pc.need, hentry.1] at hn <;> cases hn
      · rw [hcall.1]
        rintro (hn | hn) <;> cases hn
      · rw [hcall.1]
        rfl
  | run t input =>
      simp only [PState.event] at hevent
      split at hevent
      · rename_i op code hpc
        cases hevent
        simp only [AtRun, hpc] at htry hset
        exact h.codeStep hpc htry hset
      · rename_i op status hpc
        cases hevent
        refine h.move (t := t) (p := .out) rfl rfl rfl rfl (fun _ _ => rfl) rfl
          ⟨trivial, fun _ hu => hu.elim, fun _ hn => (by cases hn),
            (by rintro (hn | hn) <;> cases hn)⟩ ?_
          fun o => ?_
        · rw [hpc]
          rintro (hn | hn) <;> cases hn
        · rw [hpc]
          rfl
      · cases hevent
  | timeout t =>
      simp only [PState.event] at hevent
      split at hevent
      · rename_i o next hpc
        cases hevent
        exact h.timeout hpc
      · cases hevent
  | cancel t =>
      simp only [PState.event] at hevent
      split_ifs at hevent
      cases hevent
      exact h.congr rfl rfl rfl rfl rfl rfl
  | setCancelState t disable =>
      simp only [PState.event] at hevent
      split_ifs at hevent
      cases hevent
      exact h.congr rfl rfl rfl rfl rfl rfl

end Pthread
end LightOS
