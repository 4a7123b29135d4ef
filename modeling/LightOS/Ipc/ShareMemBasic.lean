import LightOS.Vmm.Fault

/-!
# Shared memory: the model of an unmapping

`share_mem_unmap` of `ipc/sharemem.c`, with the table of segments and the processes.  Every process
has its memory spaces and its page directory over the one page pool.  The virtual address of a page
is translated by the directory that is active, whose tables are read as they are: clearing the
present bit leaves the address of the frame in an entry.  Where there is no table, reading an entry
is a page fault in the kernel's half, which panics.  A call that panics, dereferences a null
pointer or never returns yields `none`.
-/

namespace LightOS
namespace Shm

open LinkedList Interval Vm MemPool

/-- `MAX_SHARE_MEM_NR`. -/
abbrev maxShareMemNr : ℕ := 128

/-- `SHARE_MEM_PRIVATE`. -/
abbrev shareMemPrivate : ℕ := 1

/-- `IPC_RND`. -/
abbrev ipcRnd : ℕ := 256

/-! ## The state -/

/-- `share_mem_t`; the id follows from the index.  The name is the string before its NUL. -/
structure ShareMem where
  pageAddr : ℕ
  npages : ℕ
  flags : ℕ
  links : ℤ
  name : List UInt8
  deriving DecidableEq

/-- `share_mem_table`, the page pool, and the processes there are.  The pool in the page tables of
a process is not looked at. -/
structure ShmState where
  table : ℕ → ShareMem
  ranges : MemRanges
  pids : Finset ℕ
  procs : ℕ → AddrSpace

namespace ShmState

variable (s : ShmState)

/-- A process with its page tables over the pool. -/
def space (t : ℕ) : AddrSpace :=
  { s.procs t with mm := { (s.procs t).mm with ranges := s.ranges } }

/-- What a process did to its memory and to the pool. -/
def setSpace (t : ℕ) (a : AddrSpace) : ShmState :=
  { s with ranges := a.mm.ranges, procs := Function.update s.procs t a }

/-- Rewrite a segment. -/
def modify (i : ℕ) (f : ShareMem → ShareMem) : ShmState :=
  { s with table := Function.update s.table i (f (s.table i)) }

end ShmState

@[simp] theorem setSpace_space (s : ShmState) (t : ℕ) (a : AddrSpace) :
    (s.setSpace t a).space t = a := by
  simp [ShmState.space, ShmState.setSpace]

/-- The memory space is a shared one. -/
def isShared (r : MemSpace) : Bool := hasFlag r.flags memSpaceMapShared

/-! ## The call -/

/-- `share_mem_find_by_addr`. -/
def shareMemFindByAddr (s : ShmState) (addr : ℕ) : Option ℕ :=
  (List.range maxShareMemNr).find? fun i => (s.table i).name ≠ [] ∧ (s.table i).pageAddr = addr

/-- The segment that `share_mem_unmap` finds by what `addr_vir2phy` reads; the entry can be read if
its table is there. -/
def segmentAt (s : ShmState) (t addr : ℕ) : Option ℕ :=
  if hasFlag ((s.procs t).mm.pde (dirIdx addr)) pageAttrPresent then
    shareMemFindByAddr s (addrVir2Phy (s.procs t).mm addr)
  else none

/-- `atomic_inc` and `atomic_dec` of the links of a segment. -/
def addLinks (s : ShmState) (i : ℕ) (d : ℤ) : ShmState :=
  s.modify i fun shm => { shm with links := shm.links + d }

/-- The address `share_mem_unmap` looks at. -/
def unmapAddr (shmaddr shmflg : ℕ) : ℕ :=
  if hasFlag shmflg ipcRnd then pageMask shmaddr else shmaddr

/-- `share_mem_unmap`.  No segment at the address is a null pointer that is read. -/
def shareMemUnmap (s : ShmState) (t shmaddr shmflg : ℕ) : Option (ShmState × ℤ) :=
  let addr := if hasFlag shmflg ipcRnd then pageMask shmaddr else shmaddr
  if shmaddr = 0 then some (s, -1)
  else
    match memSpaceFind (s.space t) addr with
    | none => none
    | some none => some (s, -1)
    | some (some sp) =>
        match segmentAt s t addr with
        | none => none
        | some i =>
            if hasFlag (s.table i).flags shareMemPrivate then some (addLinks s i (-1), 0)
            else
              let r := (s.procs t).recs sp
              (doMemSpaceUnmap (s.space t) r.start (sub32 r.end_ r.start)).map fun ar =>
                if ar.2 = -1 then (s.setSpace t ar.1, -1)
                else (addLinks (s.setSpace t ar.1) i (-1), ar.2)

/-! ## Segments and spaces -/

/-- The segment is in use and has its pages. -/
def HasPages (table : ℕ → ShareMem) (i : ℕ) : Prop :=
  i < maxShareMemNr ∧ (table i).name ≠ [] ∧ (table i).pageAddr ≠ 0

/-- The pages of the space are those of segment `i`, in their order. -/
structure SharedAs (table : ℕ → ShareMem) (mm : Mm) (sp : Span Attrs) (i : ℕ) : Prop where
  pages : HasPages table i
  len : sp.end_ = sp.start + (table i).npages * 4096
  frame : ∀ k < (table i).npages, ∃ e, mm.lookup (sp.start + k * 4096) = some e ∧ e < wordSize ∧
    pageMask e = (table i).pageAddr + k * 4096

/-- Every segment gets its share of links. -/
def addAll (table : ℕ → ShareMem) (f : ℕ → ℤ) (i : ℕ) : ShareMem :=
  { table i with links := (table i).links + f i }

theorem addLinks_eq (s : ShmState) (i : ℕ) (d : ℤ) :
    addLinks s i d = { s with table := addAll s.table (Pi.single i d) } := by
  simp only [addLinks, ShmState.modify, ShmState.mk.injEq, and_true]
  funext j
  by_cases hj : j = i
  · subst hj
    simp [addAll]
  · simp [addAll, hj]

end Shm
end LightOS
