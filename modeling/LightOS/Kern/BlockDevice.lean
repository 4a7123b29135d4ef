import LightOS.Mm.PageBasic

/-!
# Requests to block devices

`ramdisk_read` and `ramdisk_write` of `drivers/block/ramdisk.c`, `loop_read` and `loop_write` of
`drivers/block/loop.c`.  The RAM disk copies to and from its buffer, the loop device reads and
writes its image file through `kfile_lseek`, `kfile_read` and `kfile_write` of `fs/kernif.c`; the
file system behind these is a parameter.

The memory is a function from addresses to bytes.  A request that fails returns `none`, one that
does not returns what it stores in `infomation`.

* `accepts_iff` — when the test of the drivers says whether the bytes of the request are those of
  the device.
* `ramdisk_keeps`, `loop_keeps` — what such requests do.
* `blockDevice_keeps_iff` — which requests keep their promise.
-/

namespace LightOS
namespace BlockDevice

/-- `SECTOR_SIZE`. -/
abbrev sectorSize : ℕ := 512

/-- `DISKOFF_MAX`: the stored offset is meant. -/
abbrev diskoffMax : ℕ := 4294967295

/-- `LOOP_FLAG_UP`. -/
abbrev loopFlagUp : ℕ := 1

/-- The parameters of an `io_request_t` to read or write. -/
structure IoRequest where
  userBuffer : ℕ
  length : ℕ
  offset : ℕ
  length_lt : length < wordSize
  offset_lt : offset < wordSize

/-- Where a request starts. -/
def requestOffset (rwoffset : ℕ) (ioreq : IoRequest) : ℕ :=
  if ioreq.offset = diskoffMax then rwoffset else ioreq.offset

/-- The test of all four functions. -/
def OutOfRange (sectors off length : ℕ) : Prop := sectors ≤ add32 off (length / sectorSize)

instance (sectors off length : ℕ) : Decidable (OutOfRange sectors off length) :=
  inferInstanceAs (Decidable (_ ≤ _))

/-! ## The RAM disk -/

/-- `device_extension_t` of the RAM disk; the buffer is one range of addresses. -/
structure RamdiskExtension where
  buffer : ℕ
  sectors : ℕ
  rwoffset : ℕ
  fits : buffer + sectors * sectorSize ≤ wordSize
  rwoffset_lt : rwoffset < wordSize

/-- `memcpy`, byte by byte. -/
def memcpy (m : ℕ → BitVec 8) (dst src : ℕ) : ℕ → ℕ → BitVec 8
  | 0 => m
  | n + 1 => Function.update (memcpy m dst src n) (add32 dst n) (memcpy m dst src n (add32 src n))

/-- `extension->buffer + off * SECTOR_SIZE`. -/
def RamdiskExtension.place (extension : RamdiskExtension) (off : ℕ) : ℕ :=
  add32 extension.buffer (off * sectorSize % wordSize)

/-- `ramdisk_read`. -/
def ramdiskRead (extension : RamdiskExtension) (m : ℕ → BitVec 8) (ioreq : IoRequest) :
    (ℕ → BitVec 8) × Option ℕ :=
  let off := requestOffset extension.rwoffset ioreq
  if OutOfRange extension.sectors off ioreq.length then (m, none)
  else (memcpy m ioreq.userBuffer (extension.place off) ioreq.length, some ioreq.length)

/-- `ramdisk_write`. -/
def ramdiskWrite (extension : RamdiskExtension) (m : ℕ → BitVec 8) (ioreq : IoRequest) :
    (ℕ → BitVec 8) × Option ℕ :=
  let off := requestOffset extension.rwoffset ioreq
  if OutOfRange extension.sectors off ioreq.length then (m, none)
  else (memcpy m (extension.place off) ioreq.userBuffer ioreq.length, some ioreq.length)

/-! ## The loop device -/

/-- The functions of the file system on the open image file. -/
structure Fsif (φ : Type) where
  lseek : φ → ℕ → φ
  read : φ → ℕ → φ × ℤ × (ℕ → BitVec 8)
  write : φ → (ℕ → BitVec 8) → ℕ → φ × ℤ

/-- `kfile_read`. -/
def kfileRead {φ : Type} (fsif : Fsif φ) (file : φ) (nbytes : ℕ) : φ × ℤ × (ℕ → BitVec 8) :=
  if nbytes = 0 then (file, -1, fun _ => 0) else fsif.read file nbytes

/-- `kfile_write`; `-EINVAL` is -22. -/
def kfileWrite {φ : Type} (fsif : Fsif φ) (file : φ) (buffer : ℕ → BitVec 8) (nbytes : ℕ) : φ × ℤ :=
  if nbytes = 0 then (file, -22) else fsif.write file buffer nbytes

/-- `device_extension_t` of a loop device. -/
structure LoopExtension where
  flags : ℕ
  rwoffset : ℕ
  sectors : ℕ
  gfd : ℤ
  rwoffset_lt : rwoffset < wordSize

/-- The device has an image file. -/
def LoopExtension.Ready (extension : LoopExtension) : Prop :=
  hasFlag extension.flags loopFlagUp = true ∧ 0 ≤ extension.gfd

instance (extension : LoopExtension) : Decidable extension.Ready :=
  inferInstanceAs (Decidable (_ ∧ _))

/-- `loop_read`, with the bytes it puts into the user's buffer. -/
def loopRead {φ : Type} (fsif : Fsif φ) (extension : LoopExtension) (file : φ) (ioreq : IoRequest) :
    φ × Option (ℤ × (ℕ → BitVec 8)) :=
  let off := requestOffset extension.rwoffset ioreq
  if ¬ extension.Ready then (file, none)
  else if OutOfRange extension.sectors off ioreq.length then (file, none)
  else
    let read := kfileRead fsif (fsif.lseek file (off * sectorSize % wordSize)) ioreq.length
    if read.2.1 ≤ 0 then (read.1, none) else (read.1, some read.2)

/-- `loop_write` of the bytes of the user's buffer. -/
def loopWrite {φ : Type} (fsif : Fsif φ) (extension : LoopExtension) (file : φ)
    (buffer : ℕ → BitVec 8) (ioreq : IoRequest) : φ × Option ℤ :=
  let off := requestOffset extension.rwoffset ioreq
  if ¬ extension.Ready then (file, none)
  else if OutOfRange extension.sectors off ioreq.length then (file, none)
  else
    let written := kfileWrite fsif (fsif.lseek file (off * sectorSize % wordSize)) buffer
      ioreq.length
    if written.2 ≤ 0 then (written.1, none) else (written.1, some written.2)

/-! ## The test -/

/-- The bytes of the request are bytes of the device, in whole numbers. -/
def InRange (sectors off length : ℕ) : Prop := off * sectorSize + length ≤ sectors * sectorSize

/-- The request does not end exactly with the device; and if the sector it ends in has a number of
more than 32 bits, that number without its upper bits is not one of the device's sectors. -/
def RequestGood (sectors off length : ℕ) : Prop :=
  (length % sectorSize = 0 → off + length / sectorSize ≠ sectors) ∧
    (wordSize ≤ off + length / sectorSize → sectors ≤ off + length / sectorSize - wordSize)

instance (sectors off length : ℕ) : Decidable (InRange sectors off length) :=
  inferInstanceAs (Decidable (_ ≤ _))

instance (sectors off length : ℕ) : Decidable (RequestGood sectors off length) :=
  inferInstanceAs (Decidable (_ ∧ _))

section Test

variable {sectors off length : ℕ}

/-- **The test** lets through the bytes of the device in exactly the good requests. -/
theorem accepts_iff (hsectors : sectors < wordSize) (hoff : off < wordSize)
    (hlength : length < wordSize) :
    (¬ OutOfRange sectors off length ↔ InRange sectors off length) ↔
      RequestGood sectors off length := by
  unfold OutOfRange InRange RequestGood add32
  unfold sectorSize wordSize at *
  omega

theorem requestOffset_lt {rwoffset : ℕ} (hrwoffset : rwoffset < wordSize) (ioreq : IoRequest) :
    requestOffset rwoffset ioreq < wordSize := by
  unfold requestOffset
  split_ifs
  · exact hrwoffset
  · exact ioreq.offset_lt

end Test

/-! ## What the RAM disk promises -/

/-- A buffer of so many bytes that has nothing in common with that of the disk. -/
def UserBuffer (extension : RamdiskExtension) (buffer length : ℕ) : Prop :=
  buffer + length ≤ wordSize ∧
    (buffer + length ≤ extension.buffer ∨ extension.buffer + extension.sectors * sectorSize ≤
      buffer)

/-- A request is accepted if and only if its bytes are those of the disk; one that is accepted
touches no others; and what is written is what is read afterwards. -/
structure RamdiskKeeps (extension : RamdiskExtension) (ioreq : IoRequest) : Prop where
  reads : ∀ m, (ramdiskRead extension m ioreq).2 = some ioreq.length ↔
    InRange extension.sectors (requestOffset extension.rwoffset ioreq) ioreq.length
  writes : ∀ m, (ramdiskWrite extension m ioreq).2 = some ioreq.length ↔
    InRange extension.sectors (requestOffset extension.rwoffset ioreq) ioreq.length
  inside : ∀ m, (ramdiskRead extension m ioreq).2 ≠ none ∨
    (ramdiskWrite extension m ioreq).2 ≠ none →
    ∀ i < ioreq.length,
      extension.buffer ≤ add32 (extension.place (requestOffset extension.rwoffset ioreq)) i ∧
        add32 (extension.place (requestOffset extension.rwoffset ioreq)) i <
          extension.buffer + extension.sectors * sectorSize
  readBack : InRange extension.sectors (requestOffset extension.rwoffset ioreq) ioreq.length →
    ∀ m buffer, UserBuffer extension ioreq.userBuffer ioreq.length →
      UserBuffer extension buffer ioreq.length →
      ∀ i < ioreq.length,
        (ramdiskRead extension (ramdiskWrite extension m ioreq).1
          { ioreq with userBuffer := buffer }).1 (buffer + i) =
          m (ioreq.userBuffer + i)

section Ramdisk

variable {extension : RamdiskExtension} {ioreq : IoRequest} {off : ℕ}

/-- A copy leaves the bytes outside its range. -/
theorem memcpy_of_not_mem (m : ℕ → BitVec 8) {dst src a : ℕ} :
    ∀ {n : ℕ}, dst + n ≤ wordSize → a < dst ∨ dst + n ≤ a → memcpy m dst src n a = m a := by
  intro n
  induction n with
  | zero => exact fun _ _ => rfl
  | succ n ih =>
      intro hdst ha
      have hcell : add32 dst n = dst + n := add32_of_lt (by unfold wordSize at hdst; omega)
      rw [memcpy, hcell, Function.update_of_ne (by omega), ih (by omega) (by omega)]

/-- A copy between two ranges that are apart. -/
theorem memcpy_apart (m : ℕ → BitVec 8) {dst src : ℕ} :
    ∀ {n : ℕ}, dst + n ≤ wordSize → src + n ≤ wordSize → dst + n ≤ src ∨ src + n ≤ dst →
      ∀ i < n, memcpy m dst src n (dst + i) = m (src + i) := by
  intro n
  induction n with
  | zero => exact fun _ _ _ i hi => absurd hi (Nat.not_lt_zero i)
  | succ n ih =>
      intro hdst hsrc hapart i hi
      have hcell : add32 dst n = dst + n := add32_of_lt (by unfold wordSize at hdst; omega)
      have hfrom : add32 src n = src + n := add32_of_lt (by unfold wordSize at hsrc; omega)
      rw [memcpy, hcell, hfrom]
      by_cases hlast : i = n
      · subst hlast
        rw [Function.update_self, memcpy_of_not_mem m (by omega) (by omega)]
      · rw [Function.update_of_ne (by omega), ih (by omega) (by omega) (by omega) i (by omega)]

theorem RamdiskExtension.sectors_lt (extension : RamdiskExtension) :
    extension.sectors < wordSize := by
  have hfits := extension.fits
  unfold sectorSize wordSize at *
  omega

/-- Bytes of the disk are bytes of its buffer. -/
theorem place_eq {length : ℕ} (hin : InRange extension.sectors off length) (hpos : 0 < length) :
    extension.place off = extension.buffer + off * sectorSize ∧
      extension.buffer + off * sectorSize + length ≤
        extension.buffer + extension.sectors * sectorSize := by
  have hfits := extension.fits
  unfold InRange at hin
  refine ⟨?_, by omega⟩
  rw [RamdiskExtension.place, Nat.mod_eq_of_lt (by omega), add32_of_lt]
  unfold wordSize at hfits
  omega

theorem ramdiskRead_accepts (m : ℕ → BitVec 8) :
    (ramdiskRead extension m ioreq).2 = some ioreq.length ↔
    ¬ OutOfRange extension.sectors (requestOffset extension.rwoffset ioreq) ioreq.length := by
  unfold ramdiskRead
  dsimp only
  split_ifs with hout <;> simp [hout]

theorem ramdiskWrite_accepts (m : ℕ → BitVec 8) :
    (ramdiskWrite extension m ioreq).2 = some ioreq.length ↔
    ¬ OutOfRange extension.sectors (requestOffset extension.rwoffset ioreq) ioreq.length := by
  unfold ramdiskWrite
  dsimp only
  split_ifs with hout <;> simp [hout]

/-- A request that is accepted came past the test. -/
theorem ramdisk_accepted {m : ℕ → BitVec 8}
    (h : (ramdiskRead extension m ioreq).2 ≠ none ∨ (ramdiskWrite extension m ioreq).2 ≠ none) :
    ¬ OutOfRange extension.sectors (requestOffset extension.rwoffset ioreq) ioreq.length := by
  intro hout
  unfold ramdiskRead ramdiskWrite at h
  simp [hout] at h

/-- **A good request** to the RAM disk keeps its promise. -/
theorem ramdisk_keeps
    (hgood : RequestGood extension.sectors (requestOffset extension.rwoffset ioreq) ioreq.length) :
    RamdiskKeeps extension ioreq := by
  have hfits := extension.fits
  have haccepts := (accepts_iff extension.sectors_lt (requestOffset_lt extension.rwoffset_lt ioreq)
    ioreq.length_lt).2 hgood
  refine ⟨fun m => (ramdiskRead_accepts m).trans haccepts,
    fun m => (ramdiskWrite_accepts m).trans haccepts,
    fun m h i hi => ?_, fun hin m buffer hsrc hdst i hi => ?_⟩
  · obtain ⟨hplace, hend⟩ := place_eq (haccepts.1 (ramdisk_accepted h)) (Nat.zero_lt_of_lt hi)
    have hcell : add32 (extension.buffer + requestOffset extension.rwoffset ioreq * sectorSize) i =
        extension.buffer + requestOffset extension.rwoffset ioreq * sectorSize + i :=
      add32_of_lt (by unfold wordSize at hfits; omega)
    rw [hplace, hcell]
    omega
  · obtain ⟨hplace, hend⟩ := place_eq hin (Nat.zero_lt_of_lt hi)
    obtain ⟨hsrcEnd, hsrcApart⟩ := hsrc
    obtain ⟨hdstEnd, hdstApart⟩ := hdst
    have hagain : requestOffset extension.rwoffset { ioreq with userBuffer := buffer } =
        requestOffset extension.rwoffset ioreq := rfl
    rw [ramdiskWrite, ramdiskRead]
    simp only [hagain, if_neg (haccepts.2 hin), hplace]
    rw [memcpy_apart _ hdstEnd (by omega) (by omega) i hi,
      memcpy_apart _ (by omega) hsrcEnd (by omega) i hi]

/-- **The RAM disk** keeps its promise in exactly the good requests. -/
theorem ramdisk_keeps_iff : RamdiskKeeps extension ioreq ↔
    RequestGood extension.sectors (requestOffset extension.rwoffset ioreq) ioreq.length := by
  refine ⟨fun h => ?_, ramdisk_keeps⟩
  refine (accepts_iff extension.sectors_lt (requestOffset_lt extension.rwoffset_lt ioreq)
    ioreq.length_lt).1 ?_
  exact (ramdiskRead_accepts fun _ => 0).symm.trans (h.reads _)

end Ramdisk

/-! ## What a loop device promises -/

/-- What the loop device relies on, of an image file of `size` bytes: a place in it can be sought,
and from there so many bytes as it has can be read and written. -/
structure FsifOk {φ : Type} (fsif : Fsif φ) (size : ℕ) (pos : φ → ℕ) (byte : φ → ℕ → BitVec 8) :
    Prop where
  lseek : ∀ f o, o ≤ size → pos (fsif.lseek f o) = o ∧ byte (fsif.lseek f o) = byte f
  read : ∀ f n, 0 < n → pos f + n ≤ size →
    (fsif.read f n).2.1 = n ∧ ∀ i < n, (fsif.read f n).2.2 i = byte f (pos f + i)
  write : ∀ f src n, 0 < n → pos f + n ≤ size →
    (fsif.write f src n).2 = n ∧ (∀ i < n, byte (fsif.write f src n).1 (pos f + i) = src i) ∧
      ∀ j, j < pos f ∨ pos f + n ≤ j → byte (fsif.write f src n).1 j = byte f j

/-- A device that is set up with an image file of `size` bytes. -/
structure LoopUp (extension : LoopExtension) (size : ℕ) : Prop where
  ready : extension.Ready
  sectors_le : extension.sectors * sectorSize ≤ size
  size_lt : size < 2147483648

/-- The request gets to the file. -/
def LoopAccepts (extension : LoopExtension) (ioreq : IoRequest) : Prop :=
  extension.Ready ∧ ¬ OutOfRange extension.sectors (requestOffset extension.rwoffset ioreq)
    ioreq.length

/-- A request is accepted if and only if its bytes are those of the device; it then succeeds and
concerns these bytes alone; and what is written is what is read afterwards. -/
structure LoopKeeps {φ : Type} (fsif : Fsif φ) (byte : φ → ℕ → BitVec 8)
    (extension : LoopExtension) (file : φ) (ioreq : IoRequest) : Prop where
  accepts : LoopAccepts extension ioreq ↔
    InRange extension.sectors (requestOffset extension.rwoffset ioreq) ioreq.length
  reads : InRange extension.sectors (requestOffset extension.rwoffset ioreq) ioreq.length →
    ∃ data, (loopRead fsif extension file ioreq).2 = some ((ioreq.length : ℤ), data) ∧
      ∀ i < ioreq.length, data i = byte file (requestOffset extension.rwoffset ioreq * sectorSize +
        i)
  writes : InRange extension.sectors (requestOffset extension.rwoffset ioreq) ioreq.length →
    ∀ buffer, (loopWrite fsif extension file buffer ioreq).2 = some (ioreq.length : ℤ) ∧
      ∀ j, j < requestOffset extension.rwoffset ioreq * sectorSize ∨
          requestOffset extension.rwoffset ioreq * sectorSize + ioreq.length ≤ j →
        byte (loopWrite fsif extension file buffer ioreq).1 j = byte file j
  readBack : InRange extension.sectors (requestOffset extension.rwoffset ioreq) ioreq.length →
    ∀ buffer, ∃ data,
      (loopRead fsif extension (loopWrite fsif extension file buffer ioreq).1 ioreq).2 =
          some ((ioreq.length : ℤ), data) ∧
        ∀ i < ioreq.length, data i = buffer i

section Loop

variable {φ : Type} {fsif : Fsif φ} {size : ℕ} {pos : φ → ℕ} {byte : φ → ℕ → BitVec 8}
  {extension : LoopExtension}
  {ioreq : IoRequest} {file : φ}

theorem LoopUp.sectors_lt (h : LoopUp extension size) : extension.sectors < wordSize := by
  have hle := h.sectors_le
  have hlt := h.size_lt
  unfold sectorSize wordSize at *
  omega

/-- The place of bytes of the device in the image file. -/
theorem LoopUp.place_of_inRange (hup : LoopUp extension size)
    (hin : InRange extension.sectors (requestOffset extension.rwoffset ioreq) ioreq.length) :
    requestOffset extension.rwoffset ioreq * sectorSize + ioreq.length ≤ size ∧
      requestOffset extension.rwoffset ioreq * sectorSize % wordSize =
        requestOffset extension.rwoffset ioreq * sectorSize := by
  have hend : requestOffset extension.rwoffset ioreq * sectorSize + ioreq.length ≤ size :=
    le_trans hin hup.sectors_le
  have hsize := hup.size_lt
  exact ⟨hend, Nat.mod_eq_of_lt (by unfold wordSize; omega)⟩

/-- **A read** of bytes of the device. -/
theorem loopRead_inRange (hfs : FsifOk fsif size pos byte) (hup : LoopUp extension size)
    (hout : ¬ OutOfRange extension.sectors (requestOffset extension.rwoffset ioreq) ioreq.length)
    (hin : InRange extension.sectors (requestOffset extension.rwoffset ioreq) ioreq.length)
    (hpos : 0 < ioreq.length) (file : φ) :
    ∃ data, (loopRead fsif extension file ioreq).2 = some ((ioreq.length : ℤ), data) ∧
      ∀ i < ioreq.length, data i = byte file (requestOffset extension.rwoffset ioreq * sectorSize +
        i) := by
  obtain ⟨hend, hplace⟩ := hup.place_of_inRange hin
  obtain ⟨hseek, hsame⟩ := hfs.lseek file _ (Nat.le_of_add_right_le hend)
  obtain ⟨hcount, hdata⟩ :=
    hfs.read (fsif.lseek file (requestOffset extension.rwoffset ioreq * sectorSize)) _ hpos
    (by rwa [hseek])
  rw [hseek, hsame] at hdata
  refine ⟨(fsif.read (fsif.lseek file (requestOffset extension.rwoffset ioreq * sectorSize))
    ioreq.length).2.2, ?_, hdata⟩
  rw [loopRead]
  simp only [if_neg (not_not.2 hup.ready), if_neg hout, hplace, kfileRead, if_neg hpos.ne']
  rw [if_neg (by rw [hcount]; omega), ← hcount]

/-- **A write** of bytes of the device. -/
theorem loopWrite_inRange (hfs : FsifOk fsif size pos byte) (hup : LoopUp extension size)
    (hout : ¬ OutOfRange extension.sectors (requestOffset extension.rwoffset ioreq) ioreq.length)
    (hin : InRange extension.sectors (requestOffset extension.rwoffset ioreq) ioreq.length)
    (hpos : 0 < ioreq.length) (file : φ) (buffer : ℕ → BitVec 8) :
    (loopWrite fsif extension file buffer ioreq).2 = some (ioreq.length : ℤ) ∧
      (∀ i < ioreq.length, byte (loopWrite fsif extension file buffer ioreq).1
        (requestOffset extension.rwoffset ioreq * sectorSize + i) = buffer i) ∧
      ∀ j, j < requestOffset extension.rwoffset ioreq * sectorSize ∨
          requestOffset extension.rwoffset ioreq * sectorSize + ioreq.length ≤ j →
        byte (loopWrite fsif extension file buffer ioreq).1 j = byte file j := by
  obtain ⟨hend, hplace⟩ := hup.place_of_inRange hin
  obtain ⟨hseek, hsame⟩ := hfs.lseek file _ (Nat.le_of_add_right_le hend)
  obtain ⟨hcount, hdata, hrest⟩ :=
    hfs.write (fsif.lseek file (requestOffset extension.rwoffset ioreq * sectorSize))
    buffer _ hpos (by rwa [hseek])
  rw [hseek] at hdata hrest
  rw [hsame] at hrest
  have hrun : loopWrite fsif extension file buffer ioreq =
      ((fsif.write (fsif.lseek file (requestOffset extension.rwoffset ioreq * sectorSize)) buffer
        ioreq.length).1, some (ioreq.length : ℤ)) := by
    rw [loopWrite]
    simp only [if_neg (not_not.2 hup.ready), if_neg hout, hplace, kfileWrite, if_neg hpos.ne']
    rw [if_neg (by rw [hcount]; omega), hcount]
  rw [hrun]
  exact ⟨rfl, hdata, hrest⟩

/-- Nothing can be read from the file at once. -/
theorem loopRead_zero (hzero : ioreq.length = 0) :
    (loopRead fsif extension file ioreq).2 = none := by
  have hnone : (kfileRead fsif (fsif.lseek file
    (requestOffset extension.rwoffset ioreq * sectorSize % wordSize))
      ioreq.length).2.1 ≤ 0 := by
    rw [kfileRead, if_pos hzero]
    norm_num
  rw [loopRead]
  simp only [if_pos hnone]
  split_ifs <;> rfl

/-- **A good request** to a loop device keeps its promise, if it is for any bytes. -/
theorem loop_keeps (hfs : FsifOk fsif size pos byte) (hup : LoopUp extension size)
    (hgood : RequestGood extension.sectors (requestOffset extension.rwoffset ioreq) ioreq.length)
    (hzero : ioreq.length = 0 → extension.sectors < requestOffset extension.rwoffset ioreq) :
    LoopKeeps fsif byte extension file ioreq := by
  have haccepts :=
    (accepts_iff hup.sectors_lt (requestOffset_lt extension.rwoffset_lt ioreq) ioreq.length_lt).2
    hgood
  have hpos : InRange extension.sectors (requestOffset extension.rwoffset ioreq) ioreq.length →
      0 < ioreq.length := by
    intro hin
    by_contra hnone
    have hbeyond := hzero (Nat.eq_zero_of_not_pos hnone)
    unfold InRange sectorSize at hin
    omega
  refine ⟨⟨fun h => haccepts.1 h.2, fun hin => ⟨hup.ready, haccepts.2 hin⟩⟩, fun hin => ?_,
    fun hin buffer => ?_, fun hin buffer => ?_⟩
  · exact loopRead_inRange hfs hup (haccepts.2 hin) hin (hpos hin) file
  · obtain ⟨hcount, -, hrest⟩ :=
      loopWrite_inRange hfs hup (haccepts.2 hin) hin (hpos hin) file buffer
    exact ⟨hcount, hrest⟩
  · obtain ⟨-, hdata, -⟩ := loopWrite_inRange hfs hup (haccepts.2 hin) hin (hpos hin) file buffer
    obtain ⟨data, hread, hsame⟩ := loopRead_inRange hfs hup (haccepts.2 hin) hin (hpos hin)
      (loopWrite fsif extension file buffer ioreq).1
    exact ⟨data, hread, fun i hi => (hsame i hi).trans (hdata i hi)⟩

/-- **A loop device** keeps its promise in exactly the good requests that are for any bytes. -/
theorem loop_keeps_iff (hfs : FsifOk fsif size pos byte) (hup : LoopUp extension size) :
    LoopKeeps fsif byte extension file ioreq ↔
      RequestGood extension.sectors (requestOffset extension.rwoffset ioreq) ioreq.length ∧
        (ioreq.length = 0 → extension.sectors < requestOffset extension.rwoffset ioreq) := by
  refine ⟨fun h => ⟨?_, fun hzero => ?_⟩, fun h => loop_keeps hfs hup h.1 h.2⟩
  · refine (accepts_iff hup.sectors_lt (requestOffset_lt extension.rwoffset_lt ioreq)
      ioreq.length_lt).1 ?_
    exact (and_iff_right hup.ready).symm.trans h.accepts
  · by_contra hle
    have hin : InRange extension.sectors (requestOffset extension.rwoffset ioreq) ioreq.length := by
      unfold InRange sectorSize
      omega
    obtain ⟨data, hread, -⟩ := h.reads hin
    rw [loopRead_zero hzero] at hread
    cases hread

end Loop

/-- **Requests to block devices** keep their promise if and only if they do not end exactly with
the device, their last sector does not run over 32 bits into the device, and, for a loop device,
they are for any bytes. -/
theorem blockDevice_keeps_iff {φ : Type} {fsif : Fsif φ} {size : ℕ} {pos : φ → ℕ}
    {byte : φ → ℕ → BitVec 8}
    (hfs : FsifOk fsif size pos byte) {loop : LoopExtension} (hup : LoopUp loop size) (file : φ)
    (ramdisk : RamdiskExtension) (ioreq : IoRequest) :
    (RamdiskKeeps ramdisk ioreq ↔
      RequestGood ramdisk.sectors (requestOffset ramdisk.rwoffset ioreq) ioreq.length) ∧
    (LoopKeeps fsif byte loop file ioreq ↔
      RequestGood loop.sectors (requestOffset loop.rwoffset ioreq) ioreq.length ∧
        (ioreq.length = 0 → loop.sectors < requestOffset loop.rwoffset ioreq)) :=
  ⟨ramdisk_keeps_iff, loop_keeps_iff hfs hup⟩

/-- A file of so many bytes, by its contents and its position. -/
def plainFile (size : ℕ) : Fsif ((ℕ → BitVec 8) × ℕ) where
  lseek file o := (file.1, o)
  read file n := ((file.1, file.2 + n), (min n (size - file.2) : ℕ), fun i => file.1 (file.2 + i))
  write file src n :=
    ((fun j => if file.2 ≤ j ∧ j < file.2 + min n (size - file.2) then
      src (j - file.2) else file.1 j, file.2 + n), (min n (size - file.2) : ℕ))

theorem plainFile_ok (size : ℕ) : FsifOk (plainFile size) size Prod.snd Prod.fst := by
  refine ⟨fun f o _ => ⟨rfl, rfl⟩, fun f n _ hend => ⟨?_, fun i _ => rfl⟩,
    fun f src n _ hend => ⟨?_, fun i hi => ?_, fun j hj => ?_⟩⟩
  · show ((min n (size - f.2) : ℕ) : ℤ) = n
    rw [min_eq_left (by omega)]
  · show ((min n (size - f.2) : ℕ) : ℤ) = n
    rw [min_eq_left (by omega)]
  · show (if f.2 ≤ f.2 + i ∧ f.2 + i < f.2 + min n (size - f.2) then
      src (f.2 + i - f.2) else f.1 (f.2 + i)) = src i
    rw [if_pos (by omega), Nat.add_sub_cancel_left]
  · show (if f.2 ≤ j ∧ j < f.2 + min n (size - f.2) then src (j - f.2) else f.1 j) = f.1 j
    rw [if_neg (by omega)]

/-- A RAM disk of `RAMDISK_SECTORS` sectors. -/
def ram0 : RamdiskExtension := ⟨3221225472, 163840, 0, by norm_num, by norm_num⟩

/-- A loop device with an image file of eight sectors. -/
def loop0 : LoopExtension := ⟨1, 0, 8, 3, by norm_num⟩

theorem loopUp_loop0 : LoopUp loop0 4096 := ⟨by decide, by decide, by decide⟩

/-- The first sector of either device. -/
theorem blockDevice_keeps_first :
    RamdiskKeeps ram0 ⟨65536, 512, 0, by norm_num, by norm_num⟩ ∧
      LoopKeeps (plainFile 4096) Prod.fst loop0 (fun _ => 0, 0)
      ⟨65536, 512, 0, by norm_num, by norm_num⟩ := by
  have hboth := blockDevice_keeps_iff (plainFile_ok 4096) loopUp_loop0 (fun _ => 0, 0) ram0
    ⟨65536, 512, 0, by norm_num, by norm_num⟩
  exact ⟨hboth.1.2 (by decide), hboth.2.2 (by decide)⟩

/-- The last sector of the RAM disk is refused, and two sectors from number `0xFFFFFFFE` on are
not. -/
theorem ramdisk_not_keeps :
    ¬ RamdiskKeeps ram0 ⟨65536, 512, 163839, by norm_num, by norm_num⟩ ∧
      ¬ RamdiskKeeps ram0 ⟨65536, 1024, 4294967294, by norm_num, by norm_num⟩ := by
  rw [ramdisk_keeps_iff, ramdisk_keeps_iff]
  decide

end BlockDevice
end LightOS
