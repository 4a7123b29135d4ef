import LightOS.Task.ElfLoad
import LightOS.Lib.Writes

/-!
# The argument buffer of a new process: the model

`proc_build_arg` of `task/process.c`, `vmm_build_argbug` of `vmm/vmm.c` and the copy of the path
name in `process_create`.  A block of arguments is the number of strings, a pointer to the vector,
the vector of pointers with a null pointer at its end, and the strings; it is built downward from a
given top.  The code writes words and strings to memory; the model keeps these stores in their
order.  Addresses and sizes are 32-bit words.

A string is read where it was given.  The buffer is fresh memory, so as long as the stores stay in
it they change no string that is still to be copied.
-/

namespace LightOS
namespace ArgBlock

open Elf (wordBytes)

/-- `MAX_PATH`. -/
abbrev maxPath : ℕ := 256

/-- A string, without the zero at its end; it lies in memory. -/
structure CStr where
  bytes : List UInt8
  noNul : 0 ∉ bytes
  inMemory : bytes.length + 1 < 4294967296

/-- `strlen(s) + 1`. -/
def CStr.size (s : CStr) : ℕ := s.bytes.length + 1

/-- Bytes that are stored from an address up. -/
structure Store where
  addr : ℕ
  bytes : List UInt8

/-- The cells of memory that are written. -/
def Store.cells (st : Store) : List (ℕ × UInt8) := st.bytes.mapIdx fun i b => (add32 st.addr i, b)

/-- What `proc_build_arg` returns, and what it stores. -/
structure Block where
  argc : ℕ
  argBottom : ℕ
  destArgv : ℕ
  stores : List Store

/-- The loop that copies the strings: a pointer, and the string itself. -/
def copyStrings : ℕ → ℕ → List CStr → List Store
  | _, _, [] => []
  | slot, p, s :: strs =>
      ⟨slot, wordBytes p⟩ :: ⟨p, s.bytes ++ [0]⟩ :: copyStrings (add32 slot 4) (add32 p s.size) strs

/-- `proc_build_arg`. -/
def procBuildArg (argTop : ℕ) (argv : Option (List CStr)) : Block :=
  match argv with
  | some (s :: strs) =>
      let argc := (s :: strs).length
      let argPos := (s :: strs).foldl (fun pos s => sub32 pos s.size) argTop
      let argPos := sub32 argPos (argPos % 4)
      let argPos := sub32 argPos ((argc + 1) * 4 % wordSize)
      let argPos := sub32 argPos 4
      let argPos := sub32 argPos 4
      let top := add32 argPos 4
      let vector := add32 top 4
      { argc := argc
        argBottom := sub32 argPos 4
        destArgv := vector
        stores :=
          [⟨argPos, wordBytes argc⟩, ⟨top, wordBytes vector⟩] ++
            copyStrings vector (add32 vector (4 * (argc + 1) % wordSize)) (s :: strs) ++
            [⟨add32 vector (4 * argc % wordSize), wordBytes 0⟩] }
  | _ =>
      let argPos := sub32 argTop 4
      let argPos := sub32 argPos 4
      let argPos := sub32 argPos 4
      let top := add32 argPos 4
      let vector := add32 top 4
      { argc := 0
        argBottom := sub32 argPos 4
        destArgv := vector
        stores := [⟨argPos, wordBytes 0⟩, ⟨top, wordBytes vector⟩, ⟨vector, wordBytes 0⟩] }

/-- The fields of `vmm_t` that `vmm_build_argbug` sets, and the stores of its two blocks. -/
structure ArgBuf where
  argbuf : ℕ
  envp : ℕ
  argv : ℕ
  envStores : List Store
  argStores : List Store

/-- `vmm_build_argbug`; `tmpArg` is what `mem_alloc(PAGE_SIZE)` returns. -/
def vmmBuildArgbug (tmpArg : ℕ) (argv envp : Option (List CStr)) : Option ArgBuf :=
  if tmpArg = 0 then none
  else
    let env := procBuildArg (add32 tmpArg pageSize) envp
    let args := procBuildArg env.argBottom argv
    some
      { argbuf := tmpArg
        envp := env.destArgv
        argv := args.destArgv
        envStores := env.stores
        argStores := args.stores }

/-- The path name that `process_create` copies to the start of the buffer; without one it has
returned before. -/
def pathStore (argbuf : ℕ) (argv : Option (List CStr)) : Store :=
  match argv with
  | some (s :: _) => ⟨argbuf, s.bytes.take (min maxPath s.bytes.length)⟩
  | _ => ⟨argbuf, []⟩

/-- The `memset` of the buffer. -/
def clearPage (mem : ℕ → UInt8) (buf : ℕ) : ℕ → UInt8 :=
  fun a => if buf ≤ a ∧ a < buf + pageSize then 0 else mem a

/-- Memory once `process_create` has copied the path name. -/
def memoryAfter (mem : ℕ → UInt8) (r : ArgBuf) (argv : Option (List CStr)) : ℕ → UInt8 :=
  Writes.storeAll (clearPage mem r.argbuf)
    ((r.envStores ++ r.argStores ++ [pathStore r.argbuf argv]).map Store.cells)

/-! ## What is promised -/

/-- The bytes are in memory from an address up. -/
def HoldsAt (mem : ℕ → UInt8) (a : ℕ) (bytes : List UInt8) : Prop :=
  ∀ i (hi : i < bytes.length), mem (a + i) = bytes[i]

/-- A block with its vector at an address: the number of strings, the pointer to the vector, a
pointer to a copy of each string with a zero at its end, and a null pointer. -/
structure HoldsBlock (mem : ℕ → UInt8) (vector : ℕ) (strs : List CStr) : Prop where
  argc : HoldsAt mem (vector - 8) (wordBytes strs.length)
  pointer : HoldsAt mem (vector - 4) (wordBytes vector)
  strings : ∀ i (hi : i < strs.length), ∃ p, HoldsAt mem (vector + 4 * i) (wordBytes p) ∧
    HoldsAt mem p (strs[i].bytes ++ [0])
  null : HoldsAt mem (vector + 4 * strs.length) (wordBytes 0)

/-- Every byte lies in the buffer. -/
def Store.Inside (buf : ℕ) (st : Store) : Prop := ∀ c ∈ st.cells, buf ≤ c.1 ∧ c.1 < buf + pageSize

/-- What is promised of the buffer. -/
structure ArgLayout (mem : ℕ → UInt8) (argv envp : Option (List CStr)) (r : ArgBuf) : Prop where
  inside : ∀ st ∈ r.envStores ++ r.argStores, st.Inside r.argbuf
  apart : ∀ u ∈ r.envStores, ∀ w ∈ r.argStores, Writes.Apart u.cells w.cells
  env : HoldsBlock (memoryAfter mem r argv) r.envp (envp.getD [])
  args : HoldsBlock (memoryAfter mem r argv) r.argv (argv.getD [])
  path : ∀ w ∈ r.envStores ++ r.argStores, Writes.Apart (pathStore r.argbuf argv).cells w.cells

/-- The bytes the strings take. -/
def stringBytes (strs : List CStr) : ℕ := (strs.map CStr.size).sum

/-- The bytes a block takes below its top. -/
def blockLen (top : ℕ) (strs : List CStr) : ℕ :=
  if strs = [] then 12
  else stringBytes strs + (top - stringBytes strs) % 4 + 4 * (strs.length + 1) + 8

/-- The two blocks, a word between them and the path name find room in the buffer. -/
def ArgsFit (buf : ℕ) (argv envp : Option (List CStr)) : Prop :=
  let envTop := buf + pageSize
  let argTop := envTop - blockLen envTop (envp.getD []) - 4
  buf + blockLen envTop (envp.getD []) ≤ envTop ∧
    buf + (pathStore buf argv).bytes.length + blockLen argTop (argv.getD []) ≤ argTop

instance (buf : ℕ) (argv envp : Option (List CStr)) : Decidable (ArgsFit buf argv envp) :=
  inferInstanceAs (Decidable (_ ∧ _))

end ArgBlock
end LightOS
