import GooseFS.Error
import GooseFS.Lib.Crc

/-!
# Writer checksums

The running checksum a file writer sends with `CompleteFile`.  CRC32 and CRC32C
are one table-driven algorithm with two polynomials, and each is the bit-serial
reflected checksum of its own (`checksums_serial`).  What the writer relies on is
`WriterChecksumType.update_append`: feeding a file buffer by buffer gives the checksum
of the whole file.
-/

namespace GooseFS

open Lib List

/-- One turn of the bit loop of `make_table`. -/
def crcShift (poly crc : UInt32) : UInt32 :=
  if crc &&& 1 ≠ 0 then (crc >>> 1) ^^^ poly else crc >>> 1

def crcTable (poly : UInt32) (i : UInt8) : UInt32 := (crcShift poly)^[8] i.toUInt32

def crcByte (poly crc : UInt32) (b : UInt8) : UInt32 :=
  crcTable poly (crc.toUInt8 ^^^ b) ^^^ (crc >>> 8)

def crcAppend (poly crc : UInt32) (data : Bytes) : UInt32 :=
  ~~~ data.foldl (crcByte poly) (~~~ crc)

def crc32Append : UInt32 → Bytes → UInt32 := crcAppend 0xedb88320

def crc32cAppend : UInt32 → Bytes → UInt32 := crcAppend 0x82f63b78

def crc32 (data : Bytes) : UInt32 := crc32Append 0 data

def crc32c (data : Bytes) : UInt32 := crc32cAppend 0 data

variable (poly crc : UInt32)

theorem crcAppend_nil : crcAppend poly crc [] = crc := by
  simp [crcAppend]

theorem crcAppend_append (a b : Bytes) :
    crcAppend poly crc (a ++ b) = crcAppend poly (crcAppend poly crc a) b := by
  unfold crcAppend
  rw [foldl_append, UInt32.not_not]

/-! ## The bit-serial checksum -/

def crcSerial (poly crc : UInt32) (data : Bytes) : UInt32 :=
  ⟨~~~ Crc.serial poly.toBitVec (~~~ crc.toBitVec) (data.map UInt8.toBitVec)⟩

theorem and_one_ne_zero_iff (crc : UInt32) : crc &&& 1 ≠ 0 ↔ crc.toBitVec.getLsbD 0 = true := by
  have h : (crc &&& 1).toBitVec = (BitVec.ofBool (crc.toBitVec.getLsbD 0)).setWidth 32 :=
    BitVec.and_one_eq_setWidth_ofBool_getLsbD
  rw [ne_eq, ← UInt32.toBitVec_inj, h]
  cases crc.toBitVec.getLsbD 0 <;> decide

theorem crcShift_toBitVec :
    (crcShift poly crc).toBitVec = Crc.bitStep poly.toBitVec crc.toBitVec := by
  rw [crcShift, Crc.bitStep]
  simp only [and_one_ne_zero_iff]
  split <;> rfl

theorem crcShift_iterate_toBitVec (poly : UInt32) : ∀ (n : Nat) (crc : UInt32),
    ((crcShift poly)^[n] crc).toBitVec = (Crc.bitStep poly.toBitVec)^[n] crc.toBitVec := by
  intro n
  induction n with
  | zero => intro crc; rfl
  | succ n ih =>
    intro crc
    rw [Function.iterate_succ_apply, ih, crcShift_toBitVec, Function.iterate_succ_apply]

theorem crcByte_toBitVec (b : UInt8) : (crcByte poly crc b).toBitVec =
      (Crc.byteBits b.toBitVec).foldl (Crc.feedBit poly.toBitVec) crc.toBitVec := by
  have hlow : (crc.toBitVec ^^^ b.toBitVec.setWidth 32).setWidth 8 =
      crc.toBitVec.setWidth 8 ^^^ b.toBitVec := by
    rw [BitVec.setWidth_xor, BitVec.setWidth_setWidth_of_le _ (by decide), BitVec.setWidth_eq]
  have hhigh : (crc.toBitVec ^^^ b.toBitVec.setWidth 32) >>> 8 = crc.toBitVec >>> 8 := by
    rw [BitVec.ushiftRight_xor_distrib]
    refine BitVec.eq_of_getLsbD_eq fun i _ => ?_
    simp
  rw [Crc.foldl_byteBits _ (by decide), Crc.steps_eight, hlow, hhigh]
  show (crcTable poly (crc.toUInt8 ^^^ b)).toBitVec ^^^ (crc.toBitVec >>> 8) = _
  rw [crcTable, crcShift_iterate_toBitVec]
  rfl

theorem foldl_crcByte_toBitVec (poly : UInt32) : ∀ (data : Bytes) (crc : UInt32),
    (data.foldl (crcByte poly) crc).toBitVec =
      Crc.serial poly.toBitVec crc.toBitVec (data.map UInt8.toBitVec) := by
  intro data
  induction data with
  | nil => intro crc; rfl
  | cons b rest ih =>
    intro crc
    rw [foldl_cons, ih, crcByte_toBitVec, Crc.serial, Crc.serial, map_cons,
      flatMap_cons, foldl_append]

theorem crcAppend_eq_serial (data : Bytes) : crcAppend poly crc data = crcSerial poly crc data := by
  refine UInt32.toBitVec_inj.mp ?_
  show ~~~ (data.foldl (crcByte poly) (~~~ crc)).toBitVec = _
  rw [foldl_crcByte_toBitVec]
  rfl

/-- Both checksums are bit-serial, from any state, and a checksum that goes on from a
result is the checksum of what came before and what follows. -/
theorem checksums_serial (crc : UInt32) (a b : Bytes) :
    crc32 a = crcSerial 0xedb88320 0 a ∧ crc32c a = crcSerial 0x82f63b78 0 a ∧
      crc32Append crc a = crcSerial 0xedb88320 crc a ∧
      crc32cAppend crc a = crcSerial 0x82f63b78 crc a ∧
      crc32Append (crc32Append crc a) b = crc32Append crc (a ++ b) ∧
      crc32cAppend (crc32cAppend crc a) b = crc32cAppend crc (a ++ b) :=
  ⟨crcAppend_eq_serial _ _ _, crcAppend_eq_serial _ _ _, crcAppend_eq_serial _ _ _,
    crcAppend_eq_serial _ _ _, (crcAppend_append _ _ _ _).symm, (crcAppend_append _ _ _ _).symm⟩

inductive WriterChecksumType where
  | null
  | crc32
  | crc32c
  deriving DecidableEq, Repr

namespace WriterChecksumType

def update : WriterChecksumType → UInt32 → Bytes → UInt32
  | crc32c, crc, data => crc32cAppend crc data
  | crc32, crc, data => crc32Append crc data
  | null, crc, _ => crc

/-- The checksum of a whole file; `NULL` is sent as `0`. -/
def checksum (ty : WriterChecksumType) (data : Bytes) : UInt32 := ty.update 0 data

theorem update_nil (ty : WriterChecksumType) (crc : UInt32) : ty.update crc [] = crc := by
  cases ty with
  | null => rfl
  | crc32 | crc32c => exact crcAppend_nil _ _

theorem update_append (ty : WriterChecksumType) (crc : UInt32) (a b : Bytes) :
    ty.update crc (a ++ b) = ty.update (ty.update crc a) b := by
  cases ty with
  | null => rfl
  | crc32 | crc32c => exact crcAppend_append _ _ _ _

/-- The check vector of CRC32C, the text `123456789`. -/
example : crc32c.checksum [0x31, 0x32, 0x33, 0x34, 0x35, 0x36, 0x37, 0x38, 0x39] = 0xe3069283 := by
  decide +kernel

def asI32 : WriterChecksumType → Int
  | null => 0
  | crc32 => 1
  | crc32c => 2

end WriterChecksumType

end GooseFS
