import LightOS.Lib.Holders
import LightOS.Lib.KeyedList

/-!
# Descriptors, files and pipes: the model

`fs/fsal/fd.c`, the descriptor calls of `fs/fsif.c`, `fs/fsal/fsalif.c` and `ipc/pipe.c`, for all
processes together.  A *slot* is a descriptor of a process; a slot that is open holds an object, a
file of `fsal_file_table` or an end of a pipe, and every object counts its slots.  The kernel is
the one without the network module.

What happens below is given with each call: whether a file system opens a file, which files it
closes when asked to, and whether there is memory.  `none` is a call that reads or writes outside
of a table.
-/

namespace LightOS
namespace Fd

open KeyedQueue Holders

/-! ## State -/

/-- `FSAL_FILE_OPEN_NR`. -/
abbrev fsalFileOpenNr : ℕ := 128

/-- `FILE_FD_IS_USED`. -/
abbrev fileFdIsUsed : ℕ := 2147483648

/-- `FILE_FD_NORMAL`. -/
abbrev fileFdNormal : ℕ := 1

/-- `FILE_FD_PIPE0`. -/
abbrev fileFdPipe0 : ℕ := 16

/-- `FILE_FD_PIPE1`. -/
abbrev fileFdPipe1 : ℕ := 32

/-- `FILE_FD_TYPE_MASK`. -/
abbrev fileFdTypeMask : ℕ := 255

/-- `FILE_FD_CLOEXEC`. -/
abbrev fileFdCloexec : ℕ := 4096

/-- `EINVAL`. -/
abbrev einval : ℤ := 22

/-- `EAGAIN`. -/
abbrev eagain : ℤ := 11

/-- `LOCAL_FILE_OPEN_NR`. -/
def localFileOpenNr : ℕ := 128

inductive Fsal where
  | fsif
  | pipeRd
  | pipeWr
  deriving DecidableEq, Repr

/-- `file_fd_t`. -/
structure FileFd where
  handle : ℤ
  flags : ℕ
  offset : ℤ
  fsal : Option Fsal
  deriving DecidableEq, Repr

/-- `FILE_FD_IS_BAD`. -/
def FileFd.isBad (ffd : FileFd) : Bool := ffd.handle < 0 || ffd.flags = 0 || ffd.fsal = none

/-- An empty entry. -/
def FileFd.empty : FileFd := ⟨-1, 0, 0, none⟩

/-- A descriptor of a process. -/
abbrev Slot := ℕ × Fin localFileOpenNr

/-- What is looked at of `pipe_t`. -/
structure Pipe where
  id : ℤ
  readCount : ℤ
  writeCount : ℤ
  deriving DecidableEq, Repr

structure State where
  /-- The processes, each with a file table. -/
  procs : Finset ℕ
  fds : Slot → FileFd
  /-- The reference counts of the files in use; nothing is in use outside of the table. -/
  files : ℤ → Option ℤ
  /-- `pipe_list_head`. -/
  pipes : List Pipe
  /-- `pipe_next_id`, a `long` of 32 bits. -/
  pipeNextId : ℤ

/-- An object: the operations of its kind, and its handle. -/
abbrev Obj := Fsal × ℤ

/-- `filefd_set_fsal`. -/
def filefdFsal (type : ℕ) : Option Fsal :=
  if type = fileFdNormal then some .fsif
  else if type = fileFdPipe0 then some .pipeRd
  else if type = fileFdPipe1 then some .pipeWr
  else none

/-- The object a descriptor holds, by the type in its flags. -/
def obj (d : FileFd) : Option Obj :=
  (filefdFsal (d.flags &&& fileFdTypeMask)).map fun f => (f, d.handle)

/-- What the slots hold. -/
def State.held (s : State) : Slot → Option Obj := fun x => obj (s.fds x)

/-- The number of slots, over all processes, that hold an object. -/
noncomputable def State.slots (s : State) (o : Obj) : ℕ := (holders s.held o).ncard

/-! ## Objects -/

/-- The `incref` of the kind; `none` for an error. -/
def incref (s : State) : Obj → Option State
  | (.fsif, h) =>
      (s.files h).map fun n => { s with files := Function.update s.files h (some (n + 1)) }
  | (.pipeRd, id) => (first Pipe.id id s.pipes).map fun _ =>
      { s with pipes :=
          change Pipe.id id (fun q => some { q with readCount := q.readCount + 1 }) s.pipes }
  | (.pipeWr, id) => (first Pipe.id id s.pipes).map fun _ =>
      { s with pipes :=
          change Pipe.id id (fun q => some { q with writeCount := q.writeCount + 1 }) s.pipes }

/-- What `pipe_close` makes of a pipe: `destroy_pipe` when neither end is open. -/
def closedPipe (q : Pipe) : Option Pipe :=
  if q.writeCount ≤ 0 ∧ q.readCount ≤ 0 then none else some q

/-- The `close` of the kind, and whether it succeeds.  `closes` says of a file whether its file
system closes it. -/
def closeObj (closes : ℤ → Bool) (s : State) : Obj → State × Bool
  | (.fsif, h) =>
      match s.files h with
      | none => (s, false)
      | some n =>
          let n' := if 0 < n then n - 1 else n
          if 0 < n' then ({ s with files := Function.update s.files h (some n') }, true)
          else if closes h then ({ s with files := Function.update s.files h none }, true)
          else ({ s with files := Function.update s.files h (some n') }, false)
  | (.pipeRd, id) =>
      if (first Pipe.id id s.pipes).isNone then (s, false)
      else
        ({ s with
            pipes := change Pipe.id id
              (fun q => closedPipe { q with readCount := q.readCount - 1 }) s.pipes }, true)
  | (.pipeWr, id) =>
      if (first Pipe.id id s.pipes).isNone then (s, false)
      else
        ({ s with
            pipes := change Pipe.id id
              (fun q => closedPipe { q with writeCount := q.writeCount - 1 }) s.pipes }, true)

/-! ## Slots -/

/-- `fd_local_to_file`. -/
def fdLocalToFile (p : ℕ) (fd : ℤ) : Option Slot :=
  if h : 0 ≤ fd ∧ fd < localFileOpenNr then some (p, ⟨fd.toNat, by omega⟩) else none

/-- A slot is written. -/
def State.setFd (s : State) (x : Slot) (d : FileFd) : State :=
  { s with fds := Function.update s.fds x d }

/-- `fsal_fd_alloc`, from a descriptor that is not negative. -/
def fsalFdAlloc (s : State) (p base : ℕ) : Option (Fin localFileOpenNr) :=
  (List.finRange localFileOpenNr).find? fun i => decide (base ≤ i.val) &&
    decide ((s.fds (p, i)).flags = 0)

/-- The descriptor that `__local_fd_install` makes of a free one. -/
def installedFd (resid : ℤ) (type : ℕ) : FileFd :=
  ⟨resid, fileFdIsUsed ||| type, 0, filefdFsal type⟩

/-- `local_fd_install_based`, and `local_fd_install` from zero. -/
def localFdInstall (s : State) (p : ℕ) (resid : ℤ) (type base : ℕ) : State × ℤ :=
  if resid < 0 ∨ (fsalFileOpenNr : ℤ) ≤ resid then (s, -1)
  else
    match fsalFdAlloc s p base with
    | none => (s, -1)
    | some i => (s.setFd (p, i) (installedFd resid type), i.val)

/-- `sys_close` of a slot, and whether it succeeds. -/
def closeSlot (closes : ℤ → Bool) (s : State) (x : Slot) : State × Bool :=
  if (s.fds x).isBad then (s, false)
  else
    match (s.fds x).fsal with
    | none => (s, false)
    | some f =>
        let r := closeObj closes s (f, (s.fds x).handle)
        if r.2 then (r.1.setFd x FileFd.empty, true) else (r.1, false)

/-- `local_fd_uninstall`. -/
def localFdUninstall (s : State) (p : ℕ) (fd : ℤ) : State :=
  match fdLocalToFile p fd with
  | none => s
  | some x => if (s.fds x).flags = 0 then s else s.setFd x FileFd.empty

/-- The object of a slot is counted once more and put into the lowest free slot from `base` on, as
`sys_dup`, `sys_dup2` and `F_DUPFD` end. -/
def dupSlot (s : State) (x : Slot) (base : ℕ) : State × ℤ :=
  match (s.fds x).fsal.bind fun f => incref s (f, (s.fds x).handle) with
  | none => (s, -einval)
  | some s' => localFdInstall s' x.1 (s.fds x).handle ((s.fds x).flags &&& fileFdTypeMask) base

/-- The slot of a descriptor, unless it is bad. -/
def openSlot (s : State) (p : ℕ) (fd : ℤ) : Option Slot :=
  (fdLocalToFile p fd).filter fun x => !(s.fds x).isBad

/-! ## Calls -/

/-- `fsal_file_alloc`: the first file that is not in use. -/
def fsalFileAlloc (s : State) : Option ℤ :=
  ((List.range fsalFileOpenNr).map fun i : ℕ => (i : ℤ)).find? fun h => (s.files h).isNone

/-- `sys_open`; `opened` says whether the path may be opened and its file system does, given a
file.  Errors are not told apart. -/
def sysOpen (s : State) (p : ℕ) (opened : Bool) : State × ℤ :=
  match fsalFileAlloc s with
  | none => (s, -1)
  | some h =>
      if opened then localFdInstall { s with files := Function.update s.files h (some 1) } p h
        fileFdNormal 0
      else (s, -1)

/-- `sys_close`. -/
def sysClose (closes : ℤ → Bool) (s : State) (p : ℕ) (fd : ℤ) : State × ℤ :=
  match openSlot s p fd with
  | none => (s, -einval)
  | some x => ((closeSlot closes s x).1, if (closeSlot closes s x).2 then 0 else -1)

/-- `sys_dup`. -/
def sysDup (s : State) (p : ℕ) (oldfd : ℤ) : State × ℤ :=
  match openSlot s p oldfd with
  | none => (s, -einval)
  | some x => dupSlot s x 0

/-- `sys_dup2`.  What is installed is the lowest free descriptor. -/
def sysDup2 (closes : ℤ → Bool) (s : State) (p : ℕ) (oldfd newfd : ℤ) : State × ℤ :=
  match openSlot s p oldfd with
  | none => (s, -einval)
  | some x =>
      if oldfd = newfd then (s, newfd)
      else
        match (fdLocalToFile p newfd).filter fun y =>
          decide (0 ≤ (s.fds y).handle ∧ (s.fds y).flags ≠ 0) with
        | none => dupSlot s x 0
        | some y =>
            let r := closeSlot closes s y
            if r.2 then dupSlot r.1 x 0 else (r.1, -1)

/-- `sys_fcntl` with `F_DUPFD`.  The search for a free slot starts at the argument, also in front
of the table. -/
def sysDupfd (s : State) (p : ℕ) (fd base : ℤ) : Option (State × ℤ) :=
  match openSlot s p fd with
  | none => some (s, -einval)
  | some x => if base < 0 then none else some (dupSlot s x base.toNat)

/-- A descriptor with `FILE_FD_CLOEXEC` set or cleared. -/
def cloexecFd (d : FileFd) (cloexec : Bool) : FileFd :=
  { d with
    flags := if cloexec then d.flags ||| fileFdCloexec
      else d.flags &&& (4294967295 - fileFdCloexec) }

/-- `sys_fcntl` with `F_SETFD`. -/
def sysSetfd (s : State) (p : ℕ) (fd : ℤ) (cloexec : Bool) : State × ℤ :=
  match openSlot s p fd with
  | none => (s, -einval)
  | some x => (s.setFd x (cloexecFd (s.fds x) cloexec), -1)

/-- The number that follows, in 32 bits. -/
def nextId (id : ℤ) : ℤ := (id + 1).bmod 4294967296

/-- `sys_pipe`; `memory` says whether the user's buffer is there and the allocations of
`create_pipe` succeed. -/
def sysPipe (s : State) (p : ℕ) (memory : Bool) : State × ℤ :=
  if memory then
    let s₁ : State :=
      { s with pipes := s.pipes ++ [⟨s.pipeNextId, 1, 1⟩], pipeNextId := nextId s.pipeNextId }
    let r := localFdInstall s₁ p s.pipeNextId fileFdPipe0 0
    if r.2 < 0 then ({ r.1 with pipes := s.pipes }, -eagain)
    else
      let w := localFdInstall r.1 p s.pipeNextId fileFdPipe1 0
      if w.2 < 0 then ({ localFdUninstall w.1 p r.2 with pipes := s.pipes }, -eagain)
      else (w.1, 0)
  else (s, -einval)

/-- `fsif_incref` of a slot. -/
def fsifIncref (s : State) (x : Slot) : State :=
  if (s.fds x).isBad then s
  else (((s.fds x).fsal.bind fun f => incref s (f, (s.fds x).handle))).getD s

/-- One round of `fs_fd_copy`. -/
def copySlot (p child : ℕ) (s : State) (i : Fin localFileOpenNr) : State :=
  if (s.fds (p, i)).flags ≠ 0 then fsifIncref (s.setFd (child, i) (s.fds (p, i))) (p, i) else s

/-- `fs_fd_init` of a child, and `fs_fd_copy`. -/
def fsFdCopy (s : State) (p child : ℕ) : State :=
  (List.finRange localFileOpenNr).foldl (copySlot p child) { s with procs := insert child s.procs }

/-- `sys_close` of some descriptors of a process, one after the other. -/
def closeSlots (closes : ℤ → Bool) (p : ℕ) (is : List (Fin localFileOpenNr)) (s : State) : State :=
  is.foldl (fun s i => (closeSlot closes s (p, i)).1) s

/-- A file table is freed. -/
def State.dropTable (s : State) (p : ℕ) : State :=
  { s with
    procs := s.procs.erase p
    fds := fun x => if x.1 = p then FileFd.empty else s.fds x }

/-- `fs_fd_exit` of a process by itself. -/
def fsFdExit (closes : ℤ → Bool) (s : State) (p : ℕ) : State :=
  (closeSlots closes p (List.finRange localFileOpenNr) s).dropTable p

/-- The descriptors that `fs_fd_reinit` closes: from the fourth on, and those that close on
execution. -/
def reinitCloses (s : State) (p : ℕ) (i : Fin localFileOpenNr) : Bool :=
  decide ((s.fds (p, i)).flags ≠ 0) &&
    (decide (3 ≤ i.val) || decide ((s.fds (p, i)).flags &&& fileFdCloexec ≠ 0))

/-- `fs_fd_reinit`.  Closing one descriptor does not change the flags of another, so they are
chosen beforehand. -/
def fsFdReinit (closes : ℤ → Bool) (s : State) (p : ℕ) : State :=
  closeSlots closes p ((List.finRange localFileOpenNr).filter (reinitCloses s p)) s

/-- `sys_fork`, from `copy_file` on.  When it fails after that, `fs_fd_exit` of the child closes
the descriptors of the running task, which is the parent. -/
def sysFork (closes : ℤ → Bool) (s : State) (p child : ℕ) (complete : Bool) : State :=
  if complete then fsFdCopy s p child
  else (closeSlots closes p (List.finRange localFileOpenNr) (fsFdCopy s p child)).dropTable child

/-! ## Runs -/

inductive FdCall
  | open_ (p : ℕ) (opened : Bool)
  | close (p : ℕ) (fd : ℤ) (closes : ℤ → Bool)
  | dup (p : ℕ) (oldfd : ℤ)
  | dup2 (p : ℕ) (oldfd newfd : ℤ) (closes : ℤ → Bool)
  | dupfd (p : ℕ) (fd base : ℤ)
  | setfd (p : ℕ) (fd : ℤ) (cloexec : Bool)
  | pipe (p : ℕ) (memory : Bool)
  /-- The child is given a number that no process has. -/
  | fork (p child : ℕ) (complete : Bool) (closes : ℤ → Bool)
  | exec (p : ℕ) (closes : ℤ → Bool)
  | exit (p : ℕ) (closes : ℤ → Bool)

/-- The process that makes the call. -/
def FdCall.caller : FdCall → ℕ
  | .open_ p _ | .close p _ _ | .dup p _ | .dup2 p _ _ _ | .dupfd p _ _ | .setfd p _ _ | .pipe p _
  | .fork p _ _ _ | .exec p _ | .exit p _ => p

/-- What a call of a process does. -/
def callStep (s : State) : FdCall → Option State
  | .open_ p opened => some (sysOpen s p opened).1
  | .close p fd closes => some (sysClose closes s p fd).1
  | .dup p oldfd => some (sysDup s p oldfd).1
  | .dup2 p oldfd newfd closes => some (sysDup2 closes s p oldfd newfd).1
  | .dupfd p fd base => (sysDupfd s p fd base).map Prod.fst
  | .setfd p fd cloexec => some (sysSetfd s p fd cloexec).1
  | .pipe p memory => some (sysPipe s p memory).1
  | .fork p child complete closes =>
      if child ∈ s.procs then some s else some (sysFork closes s p child complete)
  | .exec p closes => some (fsFdReinit closes s p)
  | .exit p closes => some (fsFdExit closes s p)

/-- One step of the system: calls are made by processes. -/
def fdStep (s : State) (c : FdCall) : Option State :=
  if c.caller ∈ s.procs then callStep s c else some s

/-- Processes with nothing open. -/
def boot (procs : Finset ℕ) : State :=
  { procs := procs, fds := fun _ => FileFd.empty, files := fun _ => none, pipes := [],
    pipeNextId := 0 }

end Fd
end LightOS
