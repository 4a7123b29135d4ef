import LightOS.Lib.Ring

/-!
# Parcels: the model

`ipc/lpc.c`: the arguments of a local procedure call are written into the slots of a parcel
and read back by type.  Scalars lie in a slot of 32 bits, strings and sequences in the data
area behind the header.
-/

namespace LightOS
namespace Lpc

open Ring

/-- `LPC_PARCEL_ARG_NR`. -/
abbrev lpcParcelArgNr : ℕ := 8

/-- `PORT_MSG_SIZE`, the size of a parcel. -/
abbrev portMsgSize : ℕ := 4084

/-- `LPC_PARCEL_BUF_SIZE`. -/
abbrev lpcParcelBufSize : UInt32 := 4012

/-- `enum lpc_parcel_arg_type`: the types that can be written. -/
inductive ArgType where
  | char
  | short
  | int
  | long
  | string
  | sequence
  deriving DecidableEq

/-- `lpc_parcel_t`.  `LPC_PARCEL_ARG_NONE` is `none`; `data` is the memory from `parcel->data` on.
-/
structure Parcel where
  args : ℕ → UInt32
  arglen : ℕ → UInt16
  argtype : ℕ → Option ArgType
  argused : BitVec 32
  size : UInt32
  data : ℕ → UInt8

/-- `lpc_parcel_get`. -/
def lpcParcelGet : Parcel := ⟨fun _ => 0, fun _ => 0, fun _ => none, 0#32, 0, fun _ => 0⟩

/-- A string, without the zero at its end.  It lies in memory beside the parcel. -/
structure CString where
  bytes : List UInt8
  noNul : 0 ∉ bytes
  inMemory : bytes.length + portMsgSize < 4294967296

/-- The bytes of a sequence.  They lie in memory beside the parcel. -/
structure Buffer where
  bytes : List UInt8
  inMemory : bytes.length + portMsgSize < 4294967296

/-- `lpc_parcel_alloc_arg_solt`. -/
def lpcParcelAllocArgSolt (parcel : Parcel) : Option ℕ :=
  (List.range lpcParcelArgNr).find? fun i => !parcel.argused.getLsbD i

/-- `lpc_parcel_find_arg_solt`. -/
def lpcParcelFindArgSolt (parcel : Parcel) (type : ArgType) : Option ℕ :=
  (List.range lpcParcelArgNr).find? fun i =>
    parcel.argused.getLsbD i && (parcel.argtype i = some type && 0 < parcel.arglen i)

/-- `lpc_parcel_set_arg`. -/
def lpcParcelSetArg (parcel : Parcel) (i : ℕ) (data : UInt32) (len : UInt16) (type : ArgType) :
    Parcel :=
  { parcel with
    args := Function.update parcel.args i data
    arglen := Function.update parcel.arglen i len
    argtype := Function.update parcel.argtype i (some type)
    argused := parcel.argused ||| 1#32 <<< i }

/-- `lpc_parcel_clear_arg`. -/
def lpcParcelClearArg (parcel : Parcel) (i : ℕ) : Parcel :=
  { parcel with
    args := Function.update parcel.args i 0
    arglen := Function.update parcel.arglen i 0
    argtype := Function.update parcel.argtype i none
    argused := parcel.argused &&& ~~~(1#32 <<< i) }

/-- A byte string and a zero behind it. -/
def putBytes (data : ℕ → UInt8) (off : ℕ) (bytes : List UInt8) : ℕ → UInt8 :=
  Function.update (memcpy data off (fun k => bytes.getD k 0) bytes.length) (off + bytes.length) 0

/-- The writes of payloads: `len` is what goes to `arglen`. -/
def writePayload (parcel : Parcel) (bytes : List UInt8) (len : UInt16) (type : ArgType) :
    Option Parcel :=
  match lpcParcelAllocArgSolt parcel with
  | none => none
  | some i =>
      if lpcParcelBufSize ≤ parcel.size + UInt32.ofNat bytes.length + 1 then none
      else some
        { lpcParcelSetArg parcel i parcel.size len type with
          data := putBytes parcel.data parcel.size.toNat bytes
          size := parcel.size + UInt32.ofNat bytes.length + 1 }

/-- `lpc_parcel_write_string`. -/
def lpcParcelWriteString (parcel : Parcel) (str : CString) : Option Parcel :=
  writePayload parcel str.bytes (UInt16.ofNat (str.bytes.length + 1)) .string

/-- `lpc_parcel_write_sequence`. -/
def lpcParcelWriteSequence (parcel : Parcel) (buf : Buffer) : Option Parcel :=
  writePayload parcel buf.bytes (UInt16.ofNat buf.bytes.length) .sequence

/-- The writes of scalars. -/
def writeScalar (parcel : Parcel) (num : UInt32) (len : UInt16) (type : ArgType) : Option Parcel :=
  match lpcParcelAllocArgSolt parcel with
  | none => none
  | some i => some (lpcParcelSetArg parcel i num len type)

/-- `lpc_parcel_write_int`. -/
def lpcParcelWriteInt (parcel : Parcel) (num : UInt32) : Option Parcel :=
  writeScalar parcel num 4 .int

/-- `lpc_parcel_write_long`: the slot takes 32 bits of the number. -/
def lpcParcelWriteLong (parcel : Parcel) (num : UInt64) : Option Parcel :=
  writeScalar parcel num.toUInt32 8 .long

/-- `lpc_parcel_write_short`. -/
def lpcParcelWriteShort (parcel : Parcel) (num : UInt16) : Option Parcel :=
  writeScalar parcel num.toUInt32 2 .short

/-- `lpc_parcel_write_char`. -/
def lpcParcelWriteChar (parcel : Parcel) (num : UInt8) : Option Parcel :=
  writeScalar parcel num.toUInt32 1 .char

/-- What a read yields. -/
inductive Value where
  | char (num : UInt8)
  | short (num : UInt16)
  | int (num : UInt32)
  | long (num : UInt64)
  | string (bytes : List UInt8)
  | sequence (bytes : List UInt8)
  deriving DecidableEq

/-- The string at an offset of the data area, up to its zero. -/
def strAt (data : ℕ → UInt8) : ℕ → ℕ → List UInt8
  | _, 0 => []
  | off, n + 1 => if data off = 0 then [] else data off :: strAt data (off + 1) n

/-- The reads: find a slot of the type, get its value, clear it. -/
def readArg (parcel : Parcel) (type : ArgType) (get : ℕ → Value) : Option (Value × Parcel) :=
  (lpcParcelFindArgSolt parcel type).map fun i => (get i, lpcParcelClearArg parcel i)

/-- `lpc_parcel_read_int`. -/
def lpcParcelReadInt (parcel : Parcel) : Option (Value × Parcel) :=
  readArg parcel .int fun i => .int (parcel.args i)

/-- `lpc_parcel_read_long`. -/
def lpcParcelReadLong (parcel : Parcel) : Option (Value × Parcel) :=
  readArg parcel .long fun i => .long (parcel.args i).toUInt64

/-- `lpc_parcel_read_short`. -/
def lpcParcelReadShort (parcel : Parcel) : Option (Value × Parcel) :=
  readArg parcel .short fun i => .short (parcel.args i).toUInt16

/-- `lpc_parcel_read_char`. -/
def lpcParcelReadChar (parcel : Parcel) : Option (Value × Parcel) :=
  readArg parcel .char fun i => .char (parcel.args i).toUInt8

/-- `lpc_parcel_read_string`: the caller gets a pointer into the data area. -/
def lpcParcelReadString (parcel : Parcel) : Option (Value × Parcel) :=
  readArg parcel .string fun i => .string (strAt parcel.data (parcel.args i).toNat portMsgSize)

/-- `lpc_parcel_read_sequence`, and `lpc_parcel_read_sequence_buf`, which does not copy. -/
def lpcParcelReadSequence (parcel : Parcel) : Option (Value × Parcel) :=
  readArg parcel .sequence fun i =>
    .sequence ((List.range (parcel.arglen i).toNat).map fun k =>
      parcel.data ((parcel.args i).toNat + k))

/-- An argument to write. -/
inductive Arg where
  | char (num : UInt8)
  | short (num : UInt16)
  | int (num : UInt32)
  | long (num : UInt64)
  | string (str : CString)
  | sequence (buf : Buffer)

/-- The type of an argument. -/
def Arg.type : Arg → ArgType
  | .char _ => .char
  | .short _ => .short
  | .int _ => .int
  | .long _ => .long
  | .string _ => .string
  | .sequence _ => .sequence

/-- The value of an argument. -/
def Arg.value : Arg → Value
  | .char num => .char num
  | .short num => .short num
  | .int num => .int num
  | .long num => .long num
  | .string str => .string str.bytes
  | .sequence buf => .sequence buf.bytes

/-- The type of a value. -/
def Value.type : Value → ArgType
  | .char _ => .char
  | .short _ => .short
  | .int _ => .int
  | .long _ => .long
  | .string _ => .string
  | .sequence _ => .sequence

/-- A write; `none` is the return value -1. -/
def lpcParcelWrite (parcel : Parcel) : Arg → Option Parcel
  | .char num => lpcParcelWriteChar parcel num
  | .short num => lpcParcelWriteShort parcel num
  | .int num => lpcParcelWriteInt parcel num
  | .long num => lpcParcelWriteLong parcel num
  | .string str => lpcParcelWriteString parcel str
  | .sequence buf => lpcParcelWriteSequence parcel buf

/-- A read; `none` is the return value -1. -/
def lpcParcelRead (parcel : Parcel) : ArgType → Option (Value × Parcel)
  | .char => lpcParcelReadChar parcel
  | .short => lpcParcelReadShort parcel
  | .int => lpcParcelReadInt parcel
  | .long => lpcParcelReadLong parcel
  | .string => lpcParcelReadString parcel
  | .sequence => lpcParcelReadSequence parcel

/-- A series of reads: what each of them yields, and the parcel afterwards. -/
def readAll (parcel : Parcel) : List ArgType → List (Option Value) × Parcel
  | [] => ([], parcel)
  | type :: types =>
      match lpcParcelRead parcel type with
      | none => (none :: (readAll parcel types).1, (readAll parcel types).2)
      | some (v, parcel') => (some v :: (readAll parcel' types).1, (readAll parcel' types).2)

end Lpc
end LightOS
