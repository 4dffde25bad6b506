import Catpilot.Icm.Bank
import Catpilot.Memory.Copy
import Catpilot.Memory.Word
import Mathlib.Algebra.Order.Group.MinMax

/-!
# From a FIFO sample to the caller of the getter

The drivers of the ICM20602, the ICM20649 and the ICM20948 read a sample, decode and scale
it, and keep the values in their device record, of which the getter copies a part to its
caller. The three agree up to the registers and the getter: the one of the ICM20948 copies
from the start of the record, where there is no measurement.

Doubles are their bit patterns, and the arithmetic on them is a parameter. Pointers have
four bytes.
-/

namespace Catpilot

open Transition

/-- The arithmetic on doubles: an integer by a scale, and the temperature of a raw value
with the constants of a driver. -/
structure IcmMath where
  scale : ℤ → UInt64 → UInt64
  temp : (sens offset : UInt32) → ℤ → UInt64

/-! ## The device record -/

/-- A FIFO sample, as `icm20602_fifo_t`, `icm20649_fifo_t` and `icm20948_fifo_t` have it. -/
structure IcmFifo where
  accelXoutH : UInt8
  accelXoutL : UInt8
  accelYoutH : UInt8
  accelYoutL : UInt8
  accelZoutH : UInt8
  accelZoutL : UInt8
  gyroXoutH : UInt8
  gyroXoutL : UInt8
  gyroYoutH : UInt8
  gyroYoutL : UInt8
  gyroZoutH : UInt8
  gyroZoutL : UInt8
  deriving DecidableEq, Repr

/-- The sample in memory. -/
def IcmFifo.bytes (s : IcmFifo) : List UInt8 :=
  [s.accelXoutH, s.accelXoutL, s.accelYoutH, s.accelYoutL, s.accelZoutH, s.accelZoutL,
    s.gyroXoutH, s.gyroXoutL, s.gyroYoutH, s.gyroYoutL, s.gyroZoutH, s.gyroZoutL]

/-- `icm20602_meas_t`, `icm20649_meas_t` and `icm20948_meas_t`. -/
structure IcmMeas where
  accelX : UInt64
  accelY : UInt64
  accelZ : UInt64
  gyroX : UInt64
  gyroY : UInt64
  gyroZ : UInt64
  imuDt : UInt64
  deriving DecidableEq, Repr

/-- The values in memory. -/
def IcmMeas.bytes (m : IcmMeas) : List UInt8 :=
  [m.accelX, m.accelY, m.accelZ, m.gyroX, m.gyroY, m.gyroZ, m.imuDt].flatMap fun v =>
    Word.bytes 8 v.toNat

/-- `icm20602_meas_param_t`, `icm20649_meas_param_t` and `icm20948_meas_param_t`. -/
structure IcmMeasParam where
  gyroScale : UInt64
  gyroRange : UInt64
  accelScale : UInt64
  accelRange : UInt64
  deriving DecidableEq, Repr

/-- The states of the three drivers. -/
inductive IcmState where
  | reset
  | resetWait
  | conf
  | fifoRead
  | fail
  deriving DecidableEq, Repr

/-- What the start function puts at the head of the record: the name and the pointers. It
returns NULL when the semaphore cannot be created. -/
structure IcmHead where
  name : Fin 32 → UInt8
  spi : UInt32
  cs : UInt32
  drdy : UInt32
  service : UInt32
  drdySem : UInt32
  measrdySem : UInt32
  mutex : UInt32
  measrdySem_ne : measrdySem ≠ 0

/-- `icm20602_t`, `icm20649_t` and `icm20948_t`. -/
structure IcmDevice where
  head : IcmHead
  cmd : UInt8
  countH : UInt8
  countL : UInt8
  buf : IcmFifo
  fifoBytes : UInt16
  fifoSamples : UInt16
  bufferMeas : IcmMeas
  temp : UInt64
  meas : IcmMeas
  measParam : IcmMeasParam
  state : IcmState
  attempt : UInt8

/-- The head of the record in memory. -/
def IcmHead.bytes (h : IcmHead) : List UInt8 :=
  List.ofFn h.name ++
    [h.spi, h.cs, h.drdy, h.service, h.drdySem, h.measrdySem, h.mutex].flatMap fun v =>
      Word.bytes 4 v.toNat

/-- The record in memory up to the measurement; a byte of padding stands before the sizes
of the FIFO. -/
def IcmDevice.bytes (dev : IcmDevice) : List UInt8 :=
  dev.head.bytes ++ ([dev.cmd, dev.countH, dev.countL] ++ dev.buf.bytes ++ [0]) ++
    (Word.bytes 2 dev.fifoBytes.toNat ++ Word.bytes 2 dev.fifoSamples.toNat) ++
    (dev.bufferMeas.bytes ++ Word.bytes 8 dev.temp.toNat) ++ dev.meas.bytes

/-- The record that the start function leaves. -/
def icmStart (head : IcmHead) : IcmDevice where
  head := head
  cmd := 0
  countH := 0
  countL := 0
  buf := ⟨0, 0, 0, 0, 0, 0, 0, 0, 0, 0, 0, 0⟩
  fifoBytes := 0
  fifoSamples := 0
  bufferMeas := ⟨0, 0, 0, 0, 0, 0, 0⟩
  temp := 0
  meas := ⟨0, 0, 0, 0, 0, 0, 0⟩
  measParam := ⟨0, 0, 0, 0⟩
  state := .reset
  attempt := 0

/-! ## Reading and scaling -/

/-- What the chip answers to an exchange that begins with a command byte. -/
abbrev IcmChip := UInt8 → Fin 13 → UInt8

/-- The sample in an answer. -/
def fifoOfAnswer (rx : Fin 13 → UInt8) : IcmFifo :=
  ⟨rx 1, rx 2, rx 3, rx 4, rx 5, rx 6, rx 7, rx 8, rx 9, rx 10, rx 11, rx 12⟩

/-- `fifo_read` with one sample: the answer overwrites the command byte and the sample. -/
def fifoRead (accelXoutH : UInt8) (chip : IcmChip) (dev : IcmDevice) : IcmDevice :=
  let rx := chip (accelXoutH ||| icmRead)
  { dev with fifoSamples := 1, fifoBytes := 12, countL := rx 0, buf := fifoOfAnswer rx }

/-- `icm20602_fifo_read`. -/
def icm20602FifoRead : IcmChip → IcmDevice → IcmDevice := fifoRead 0x3B

/-- `icm20649_fifo_read`. -/
def icm20649FifoRead : IcmChip → IcmDevice → IcmDevice := fifoRead 0x2D

/-- `icm20948_fifo_read`. -/
def icm20948FifoRead : IcmChip → IcmDevice → IcmDevice := fifoRead 0x2D

/-- `msb_lsb_16`. -/
def msbLsb16 (msb lsb : UInt8) : UInt16 := msb.toUInt16 <<< 8 ||| lsb.toUInt16

/-- A `uint16_t` assigned to an `int16_t`. -/
def toInt16 (v : UInt16) : ℤ := v.toBitVec.toInt

/-- `(v == INT16_MIN) ? INT16_MAX : -v`. -/
def negated (v : ℤ) : ℤ := if v = -32768 then 32767 else -v

section Process

variable (math : IcmMath)

/-- `temp_process`. -/
def tempProcess (tempOutH : UInt8) (sens offset : UInt32) (chip : IcmChip) (dev : IcmDevice) :
    IcmDevice :=
  let rx := chip (tempOutH ||| icmRead)
  { dev with temp := math.temp sens offset (toInt16 (msbLsb16 (rx 1) (rx 2))) }

/-- `icm20602_temp_process`; the constants are the floats 326.8 and 25. -/
def icm20602TempProcess : IcmChip → IcmDevice → IcmDevice :=
  tempProcess math 0x41 0x43A36666 0x41C80000

/-- `icm20649_temp_process`; the constants are the floats 333.87 and 21. -/
def icm20649TempProcess : IcmChip → IcmDevice → IcmDevice :=
  tempProcess math 0x39 0x43A6EF5C 0x41A80000

/-- `icm20948_temp_process`; the constants are the floats 333.87 and 21. -/
def icm20948TempProcess : IcmChip → IcmDevice → IcmDevice :=
  tempProcess math 0x39 0x43A6EF5C 0x41A80000

/-- `accel_process`, on the one sample of the buffer. -/
def accelProcess (dev : IcmDevice) : IcmDevice :=
  if dev.fifoSamples = 0 then dev
  else
    let accelX := toInt16 (msbLsb16 dev.buf.accelXoutH dev.buf.accelXoutL)
    let accelY := toInt16 (msbLsb16 dev.buf.accelYoutH dev.buf.accelYoutL)
    let accelZ := toInt16 (msbLsb16 dev.buf.accelZoutH dev.buf.accelZoutL)
    { dev with bufferMeas := { dev.bufferMeas with
        accelX := math.scale accelX dev.measParam.accelScale
        accelY := math.scale (negated accelY) dev.measParam.accelScale
        accelZ := math.scale (negated accelZ) dev.measParam.accelScale } }

/-- `gyro_process`, on the one sample of the buffer. -/
def gyroProcess (dev : IcmDevice) : IcmDevice :=
  if dev.fifoSamples = 0 then dev
  else
    let gyroX := toInt16 (msbLsb16 dev.buf.gyroXoutH dev.buf.gyroXoutL)
    let gyroY := toInt16 (msbLsb16 dev.buf.gyroYoutH dev.buf.gyroYoutL)
    let gyroZ := toInt16 (msbLsb16 dev.buf.gyroZoutH dev.buf.gyroZoutL)
    { dev with bufferMeas := { dev.bufferMeas with
        gyroX := math.scale gyroX dev.measParam.gyroScale
        gyroY := math.scale (negated gyroY) dev.measParam.gyroScale
        gyroZ := math.scale (negated gyroZ) dev.measParam.gyroScale } }

end Process

/-- `update_meas`. -/
def updateMeas (dev : IcmDevice) : IcmDevice :=
  { dev with meas := { dev.meas with
      accelX := dev.bufferMeas.accelX
      accelY := dev.bufferMeas.accelY
      accelZ := dev.bufferMeas.accelZ
      gyroX := dev.bufferMeas.gyroX
      gyroY := dev.bufferMeas.gyroY
      gyroZ := dev.bufferMeas.gyroZ } }

/-- The size of the measurement. -/
def sizeofMeas : ℕ := 56

/-- `icm20602_get_meas_non_block`: what is copied to the caller. -/
def icm20602GetMeasNonBlock (dev : IcmDevice) : List UInt8 :=
  Memory.memread dev.bytes 144 sizeofMeas

/-- `icm20649_get_meas_non_block`. -/
def icm20649GetMeasNonBlock (dev : IcmDevice) : List UInt8 :=
  Memory.memread dev.bytes 144 sizeofMeas

/-- `icm20948_get_meas_non_block`: the copy starts at the record, not at its measurement. -/
def icm20948GetMeasNonBlock (dev : IcmDevice) : List UInt8 :=
  Memory.memread dev.bytes 0 sizeofMeas

/-! ## The drivers -/

/-- The three drivers. -/
inductive IcmDriver where
  | icm20602
  | icm20649
  | icm20948
  deriving DecidableEq, Repr

namespace IcmDriver

/-- `fifo_read` of a driver. -/
def fifoRead : IcmDriver → IcmChip → IcmDevice → IcmDevice
  | icm20602 => icm20602FifoRead
  | icm20649 => icm20649FifoRead
  | icm20948 => icm20948FifoRead

/-- `temp_process` of a driver. -/
def tempProcess (math : IcmMath) : IcmDriver → IcmChip → IcmDevice → IcmDevice
  | icm20602 => icm20602TempProcess math
  | icm20649 => icm20649TempProcess math
  | icm20948 => icm20948TempProcess math

/-- `get_meas_non_block` of a driver. -/
def getMeasNonBlock : IcmDriver → IcmDevice → List UInt8
  | icm20602 => icm20602GetMeasNonBlock
  | icm20649 => icm20649GetMeasNonBlock
  | icm20948 => icm20948GetMeasNonBlock

end IcmDriver

/-- What a pass gets: whether the registers have their values after a reset, whether the
configuration is read back, with the scales that it leaves, and the answers of the chip. -/
structure IcmInput where
  defaultsOk : Bool
  configureOk : Bool
  param : IcmMeasParam
  chip : IcmChip

section Machine

variable (driver : IcmDriver) (math : IcmMath)

/-- The pass in `FIFO_READ`. -/
def fsmFifoRead (chip : IcmChip) (dev : IcmDevice) : IcmDevice :=
  updateMeas (gyroProcess math (accelProcess math
    (driver.tempProcess math chip (driver.fifoRead chip dev))))

/-- One pass of `icm20602_fsm`, `icm20649_fsm` and `icm20948_fsm`. -/
def icmFsm (input : IcmInput) (dev : IcmDevice) : IcmDevice :=
  match dev.state with
  | .reset => { dev with state := .resetWait }
  | .resetWait =>
      if input.defaultsOk then { dev with state := .conf }
      else if (5 : UInt8) < dev.attempt + 1 then { dev with state := .fail, attempt := 0 }
      else { dev with state := .reset, attempt := dev.attempt + 1 }
  | .conf =>
      let dev := { dev with measParam := input.param }
      if input.configureOk then { dev with state := .fifoRead }
      else if (5 : UInt8) < dev.attempt + 1 then { dev with state := .reset, attempt := 0 }
      else { dev with attempt := dev.attempt + 1 }
  | .fifoRead => fsmFifoRead driver math input.chip dev
  | .fail => dev

/-- A pass as a step of a run. -/
def icmStep (dev : IcmDevice) (input : IcmInput) : Option IcmDevice :=
  some (icmFsm driver math input dev)

end Machine

/-! ## What the caller is to get -/

/-- A raw value of 16 bits, the high byte first. -/
def rawValue (msb lsb : UInt8) : ℤ := Int.bmod (256 * msb.toNat + lsb.toNat) 65536

/-- A value brought into 16 bits. -/
def saturate (v : ℤ) : ℤ := max (-32768) (min v 32767)

/-- The scaled values of a sample. -/
def scaledMeas (math : IcmMath) (param : IcmMeasParam) (s : IcmFifo) : IcmMeas where
  accelX := math.scale (rawValue s.accelXoutH s.accelXoutL) param.accelScale
  accelY := math.scale (saturate (-rawValue s.accelYoutH s.accelYoutL)) param.accelScale
  accelZ := math.scale (saturate (-rawValue s.accelZoutH s.accelZoutL)) param.accelScale
  gyroX := math.scale (rawValue s.gyroXoutH s.gyroXoutL) param.gyroScale
  gyroY := math.scale (saturate (-rawValue s.gyroYoutH s.gyroYoutL)) param.gyroScale
  gyroZ := math.scale (saturate (-rawValue s.gyroZoutH s.gyroZoutL)) param.gyroScale
  imuDt := 0

/-- The register from which a driver reads its samples. -/
def IcmDriver.accelXoutH : IcmDriver → UInt8
  | icm20602 => 0x3B
  | icm20649 => 0x2D
  | icm20948 => 0x2D

/-- The sample that a driver reads. -/
def IcmDriver.sample (driver : IcmDriver) (chip : IcmChip) : IcmFifo :=
  fifoOfAnswer (chip (driver.accelXoutH ||| icmRead))

/-- After the pass the getter returns the scaled values of the sample and nothing else of
the record. -/
def MeasReturned (driver : IcmDriver) (math : IcmMath) (dev : IcmDevice) (input : IcmInput) :
    Prop :=
  driver.getMeasNonBlock (icmFsm driver math input dev) =
    (scaledMeas math dev.measParam (driver.sample input.chip)).bytes

/-! ## Decoding -/

theorem toNat_msbLsb16 (msb lsb : UInt8) :
    (msbLsb16 msb lsb).toNat = 256 * msb.toNat + lsb.toNat := by
  have hm := msb.toNat_lt
  have hl := lsb.toNat_lt
  have hshift : (msb.toUInt16 <<< 8).toNat = msb.toNat <<< 8 := by
    rw [UInt16.toNat_shiftLeft, UInt8.toNat_toUInt16, Nat.mod_eq_of_lt]
    · rfl
    · have hpow : 2 ^ ((8 : UInt16).toNat % 16) = 256 := by decide
      rw [Nat.shiftLeft_eq, hpow]
      omega
  rw [msbLsb16, UInt16.toNat_or, hshift, UInt8.toNat_toUInt16,
    ← Nat.shiftLeft_add_eq_or_of_lt (by omega : lsb.toNat < 2 ^ 8), Nat.shiftLeft_eq]
  omega

theorem toInt16_eq (v : UInt16) : toInt16 v = Int.bmod v.toNat 65536 :=
  BitVec.toInt_eq_toNat_bmod v.toBitVec

theorem toInt16_msbLsb16 (msb lsb : UInt8) : toInt16 (msbLsb16 msb lsb) = rawValue msb lsb := by
  have hcast : ((msbLsb16 msb lsb).toNat : ℤ) = 256 * (msb.toNat : ℤ) + lsb.toNat := by
    rw [toNat_msbLsb16]
    omega
  rw [toInt16_eq, hcast]
  rfl

theorem negated_eq_saturate (msb lsb : UInt8) :
    negated (rawValue msb lsb) = saturate (-rawValue msb lsb) := by
  have hlow : -32768 ≤ rawValue msb lsb := Int.le_bmod (by decide)
  have hhigh : rawValue msb lsb < 32768 := Int.bmod_lt (by decide)
  rw [negated, saturate]
  split_ifs with hmin
  · rw [hmin]
    rfl
  · omega

/-! ## Passes -/

section Passes

variable (driver : IcmDriver) (math : IcmMath) (chip : IcmChip) (dev : IcmDevice)

/-- `fifo_read` in the three drivers. -/
theorem IcmDriver.fifoRead_eq :
    driver.fifoRead chip dev = Catpilot.fifoRead driver.accelXoutH chip dev := by
  cases driver with
  | _ => rfl

/-- `temp_process` changes the temperature only. -/
theorem IcmDriver.tempProcess_eq :
    ∃ temp, driver.tempProcess math chip dev = { dev with temp := temp } := by
  cases driver with
  | _ => exact ⟨_, rfl⟩

/-- A pass in `FIFO_READ` stores the scaled values of the sample, and leaves the head of
the record and `imu_dt`. -/
theorem fsmFifoRead_spec :
    (fsmFifoRead driver math chip dev).meas =
        { scaledMeas math dev.measParam (driver.sample chip) with imuDt := dev.meas.imuDt } ∧
      (fsmFifoRead driver math chip dev).head = dev.head := by
  obtain ⟨temp, htemp⟩ := driver.tempProcess_eq math chip (driver.fifoRead chip dev)
  rw [fsmFifoRead, htemp, driver.fifoRead_eq]
  have hone : ¬ (1 : UInt16) = 0 := by decide
  simp only [fifoRead, accelProcess, gyroProcess, updateMeas, hone, if_false, toInt16_msbLsb16,
    negated_eq_saturate]
  exact ⟨rfl, trivial⟩

/-- No pass writes `imu_dt`. -/
theorem imuDt_icmFsm (input : IcmInput) :
    (icmFsm driver math input dev).meas.imuDt = dev.meas.imuDt := by
  cases hstate : dev.state with
  | fifoRead =>
      simp only [icmFsm, hstate, (fsmFifoRead_spec driver math input.chip dev).1]
  | reset => simp only [icmFsm, hstate]
  | fail => simp only [icmFsm, hstate]
  | resetWait =>
      simp only [icmFsm, hstate]
      split_ifs
      all_goals rfl
  | conf =>
      simp only [icmFsm, hstate]
      split_ifs
      all_goals rfl

end Passes

/-! ## The getters -/

section Getters

variable {dev : IcmDevice}

theorem length_measBytes (m : IcmMeas) : m.bytes.length = 56 := by
  simp [IcmMeas.bytes]

theorem length_headBytes (h : IcmHead) : h.bytes.length = 60 := by
  simp [IcmHead.bytes]

/-- A copy from the measurement gives the measurement. -/
theorem memread_meas : Memory.memread dev.bytes 144 sizeofMeas = dev.meas.bytes := by
  rw [Memory.memread, IcmDevice.bytes, List.drop_left', sizeofMeas, List.take_of_length_le]
  · rw [length_measBytes]
  · simp [length_measBytes, length_headBytes, IcmFifo.bytes]

/-- A copy from the start of the record stays in its head. -/
theorem memread_head :
    Memory.memread dev.bytes 0 sizeofMeas = dev.head.bytes.take sizeofMeas := by
  rw [Memory.memread, List.drop_zero, IcmDevice.bytes]
  simp only [List.append_assoc]
  exact List.take_append_of_le_length (by rw [length_headBytes, sizeofMeas]; decide)

/-- The semaphore `measrdy_sem` stands before the mutex at the end of the head. -/
theorem drop_headBytes (h : IcmHead) :
    (h.bytes.take sizeofMeas).drop 52 = Word.bytes 4 h.measrdySem.toNat := by
  have hbytes : h.bytes = (List.ofFn h.name ++ [h.spi, h.cs, h.drdy, h.service, h.drdySem].flatMap
      fun v => Word.bytes 4 v.toNat) ++
        (Word.bytes 4 h.measrdySem.toNat ++ Word.bytes 4 h.mutex.toNat) := by
    simp only [IcmHead.bytes, List.flatMap_cons, List.flatMap_nil, List.append_assoc,
      List.append_nil]
  rw [List.drop_take, hbytes, List.drop_left' (by simp), List.take_left']
  rw [Word.length_bytes, sizeofMeas]

/-- The values end with `imu_dt`. -/
theorem drop_measBytes (m : IcmMeas) (h : m.imuDt = 0) : m.bytes.drop 52 = Word.bytes 4 0 := by
  have hzero : Word.bytes 8 0 = Word.bytes 4 0 ++ Word.bytes 4 0 := by decide
  have hbytes : m.bytes = ([m.accelX, m.accelY, m.accelZ, m.gyroX, m.gyroY, m.gyroZ].flatMap
      fun v => Word.bytes 8 v.toNat) ++ Word.bytes 4 0 ++ Word.bytes 4 0 := by
    simp only [IcmMeas.bytes, List.flatMap_cons, List.flatMap_nil, List.append_assoc,
      List.append_nil, h, UInt64.toNat_zero, hzero]
  rw [hbytes, List.drop_left']
  simp

end Getters

/-! ## Runs -/

section Runs

variable {driver : IcmDriver} {math : IcmMath} {dev : IcmDevice}

/-- Along a run `imu_dt` keeps the value of the allocation. -/
theorem imuDt_run {head : IcmHead} {inputs : List IcmInput}
    (hrun : run (icmStep driver math) (icmStart head) inputs = some dev) :
    dev.meas.imuDt = 0 := by
  have hstep : ∀ (dev : IcmDevice) (input : IcmInput) (dev' : IcmDevice),
      dev.meas.imuDt = 0 → icmStep driver math dev input = some dev' → dev'.meas.imuDt = 0 := by
    intro dev input dev' hzero hstep
    cases hstep
    rw [imuDt_icmFsm, hzero]
  exact run_invariant hstep rfl hrun

/-- The measurement after a pass in `FIFO_READ`. -/
theorem meas_icmFsm (himu : dev.meas.imuDt = 0) (hstate : dev.state = .fifoRead)
    (input : IcmInput) :
    (icmFsm driver math input dev).meas =
      scaledMeas math dev.measParam (driver.sample input.chip) := by
  simp only [icmFsm, hstate, (fsmFifoRead_spec driver math input.chip dev).1, himu]
  rfl

/-- The getters that copy the measurement return the scaled values. -/
theorem measReturned_of_ne (hdriver : driver ≠ .icm20948) (himu : dev.meas.imuDt = 0)
    (hstate : dev.state = .fifoRead) (input : IcmInput) :
    MeasReturned driver math dev input := by
  have hget : driver.getMeasNonBlock (icmFsm driver math input dev) =
      (icmFsm driver math input dev).meas.bytes := by
    cases driver with
    | icm20602 => exact memread_meas
    | icm20649 => exact memread_meas
    | icm20948 => exact absurd rfl hdriver
  rw [MeasReturned, hget, meas_icmFsm himu hstate input]

/-- The driver of the ICM20948 returns a semaphore where `imu_dt` is expected. -/
theorem not_measReturned_icm20948 (input : IcmInput) :
    ¬ MeasReturned .icm20948 math dev input := by
  intro hreturned
  rw [MeasReturned, IcmDriver.getMeasNonBlock, icm20948GetMeasNonBlock, memread_head] at hreturned
  have htail := congrArg (List.drop 52) hreturned
  rw [drop_headBytes, drop_measBytes _ rfl] at htail
  have hzero := Word.bytes_injective (UInt32.toNat_lt _) (by decide) htail
  exact IcmHead.measrdySem_ne _ (UInt32.toNat_inj.1 hzero)

/-- After any run of a driver and one more pass in `FIFO_READ`, the getter returns the
scaled values of the sample exactly when the driver is not the one of the ICM20948. The sample
is what the burst has left in `fifo_t`. The burst of the ICM20602 runs from `ACCEL_XOUT_H` over
`TEMP_OUT_H` and `TEMP_OUT_L`, for which its `fifo_t` has no members: what is `gx` here is the
register of the temperature. -/
theorem icm_measReturned_iff {head : IcmHead} {inputs : List IcmInput}
    (hrun : run (icmStep driver math) (icmStart head) inputs = some dev)
    (hstate : dev.state = .fifoRead) (input : IcmInput) :
    MeasReturned driver math dev input ↔ driver ≠ .icm20948 := by
  refine ⟨?_, fun hdriver => measReturned_of_ne hdriver (imuDt_run hrun) hstate input⟩
  rintro hreturned rfl
  exact not_measReturned_icm20948 input hreturned

/-- An arithmetic on doubles for tests: the products as integers. -/
def integerMath : IcmMath where
  scale v scale := UInt64.ofInt v * scale
  temp _ _ v := UInt64.ofInt v

/-- A record head whose pointers are four. -/
def sampleHead : IcmHead where
  name := fun _ => 0
  spi := 4
  cs := 4
  drdy := 0
  service := 4
  drdySem := 0
  measrdySem := 4
  mutex := 4
  measrdySem_ne := by decide

/-- A pass in which everything succeeds, and the chip answers the most negative values. -/
def sampleInput : IcmInput where
  defaultsOk := true
  configureOk := true
  param := ⟨1, 1, 1, 1⟩
  chip := fun _ i => if i.val % 2 = 1 then 0x80 else 0

/-- The record after the reset and the configuration. -/
def sampleDevice : IcmDevice :=
  { icmStart sampleHead with state := .fifoRead, measParam := ⟨1, 1, 1, 1⟩ }

theorem icm20649_measReturned :
    MeasReturned .icm20649 integerMath sampleDevice sampleInput ↔
      IcmDriver.icm20649 ≠ .icm20948 := by
  have hrun : run (icmStep .icm20649 integerMath) (icmStart sampleHead)
      [sampleInput, sampleInput, sampleInput] = some sampleDevice := rfl
  exact icm_measReturned_iff hrun rfl sampleInput

/-- The getters of the three drivers do not all return the scaled values. -/
theorem not_measReturned :
    ¬ ∀ (driver : IcmDriver) (math : IcmMath) (head : IcmHead) (inputs : List IcmInput)
      (dev : IcmDevice) (input : IcmInput),
      run (icmStep driver math) (icmStart head) inputs = some dev → dev.state = .fifoRead →
        MeasReturned driver math dev input := by
  intro hall
  have hreturned := hall .icm20948 integerMath sampleHead [sampleInput, sampleInput, sampleInput]
    sampleDevice sampleInput rfl rfl
  exact not_measReturned_icm20948 sampleInput hreturned

end Runs

end Catpilot
