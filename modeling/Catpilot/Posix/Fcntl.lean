import Mathlib.Data.UInt

/-!
# Flags of `open`

The values of `sys/fcntl.h` and of `stdio.h` that the modelled calls use.
-/

namespace Catpilot

/-- `O_CREAT`. -/
def oCreat : UInt32 := 0x0002

/-- `O_EXCL`. -/
def oExcl : UInt32 := 0x0008

/-- `O_TRUNC`. -/
def oTrunc : UInt32 := 0x0040

/-- `O_APPEND`. -/
def oAppend : UInt32 := 0x0100

/-- `O_ACCMODE`. -/
def oAccmode : UInt32 := 0xF000

/-- `O_RDONLY`. -/
def oRdonly : UInt32 := 0x2000

/-- `O_WRONLY`. -/
def oWronly : UInt32 := 0x8000

/-- `O_RDWR`. -/
def oRdwr : UInt32 := 0xA000

/-- `__SERR`. -/
def sErr : UInt32 := 0x0010

/-- Bits outside of a mask do not matter under it. -/
theorem or_and_of_and_eq_zero {flags bits mask : UInt32} (h : bits &&& mask = 0) :
    (flags ||| bits) &&& mask = flags &&& mask := by
  have hbits : bits.toBitVec &&& mask.toBitVec = 0 := by
    rw [← UInt32.toBitVec_and, h]
    rfl
  apply UInt32.toBitVec_inj.1
  rw [UInt32.toBitVec_and, UInt32.toBitVec_or, BitVec.and_comm, BitVec.and_or_distrib_left,
    BitVec.and_comm _ bits.toBitVec, hbits, BitVec.and_comm, UInt32.toBitVec_and]
  exact BitVec.or_zero

theorem and_compl_and_of_eq {flags bits mask : UInt32} (h : ~~~bits &&& mask = mask) :
    flags &&& ~~~bits &&& mask = flags &&& mask := by
  rw [UInt32.and_assoc, h]

@[simp] theorem or_sErr_and_oAccmode (flags : UInt32) :
    (flags ||| sErr) &&& oAccmode = flags &&& oAccmode := or_and_of_and_eq_zero (by decide)

@[simp] theorem and_compl_sErr_and_oAccmode (flags : UInt32) :
    flags &&& ~~~sErr &&& oAccmode = flags &&& oAccmode :=
  and_compl_and_of_eq (by decide)

/-- The other bits of the flags can be replaced. -/
theorem replace_and_oAccmode (flags status : UInt32) :
    (flags &&& oAccmode ||| status &&& ~~~oAccmode) &&& oAccmode = flags &&& oAccmode := by
  have hstatus : status &&& ~~~oAccmode &&& oAccmode = 0 := by
    rw [UInt32.and_assoc, show ~~~oAccmode &&& oAccmode = 0 from rfl, UInt32.and_zero]
  rw [or_and_of_and_eq_zero hstatus, UInt32.and_assoc, UInt32.and_self]

/-- The bits of `O_RDWR` are part of the access mode. -/
theorem and_oRdwr (flags : UInt32) : flags &&& oRdwr = flags &&& oAccmode &&& oRdwr := by
  rw [UInt32.and_assoc]
  rfl

end Catpilot
