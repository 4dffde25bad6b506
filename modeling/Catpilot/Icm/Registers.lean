import Catpilot.Icm.Pipeline
import Catpilot.Sensor.Registers

/-!
# The configuration of the ICM20649 and the ICM20948

The tables of `icm20649_reg.h` and `icm20948_reg.h`, and `configure` of the two drivers. A
register is addressed by its bank and its number. The scales are doubles, and their
arithmetic is a parameter.
-/

namespace Catpilot

namespace Icm

/-! ## Registers and bits -/

def bank0 : UInt8 := 0
def bank2 : UInt8 := 0x20
def bank3 : UInt8 := 0x30

def whoAmI : UInt8 := 0x00
def userCtrl : UInt8 := 0x03
def pwrMgmt1 : UInt8 := 0x06
def intPinCfg : UInt8 := 0x0F
def intEnable1 : UInt8 := 0x11
def fifoEn2 : UInt8 := 0x67
def fifoRst : UInt8 := 0x68
def fifoMode : UInt8 := 0x69

def gyroSmplrtDiv : UInt8 := 0x00
def gyroConfig1 : UInt8 := 0x01
def accelSmplrtDiv1 : UInt8 := 0x10
def accelSmplrtDiv2 : UInt8 := 0x11
def accelConfig : UInt8 := 0x14

def i2cMstCtrl : UInt8 := 0x01
def i2cMstDelayCtrl : UInt8 := 0x02
def i2cSlv4Ctrl : UInt8 := 0x15

def dmpEn : UInt8 := 0x80
def fifoEn : UInt8 := 0x40
def i2cMstEn : UInt8 := 0x20
def i2cIfDis : UInt8 := 0x10
def sramRst : UInt8 := 0x04

def deviceReset : UInt8 := 0x80
def sleep : UInt8 := 0x40
def lpEn : UInt8 := 0x20
def clksel0 : UInt8 := 0x01

def int1Actl : UInt8 := 0x80
def rawData0RdyEn : UInt8 := 0x01
def snapshot : UInt8 := 0x01

/-- `ACCEL_FIFO_EN | GYRO_Z_FIFO_EN | GYRO_Y_FIFO_EN | GYRO_X_FIFO_EN | TEMP_FIFO_EN`. -/
def sensorsFifoEn : UInt8 := 0x10 ||| 0x08 ||| 0x04 ||| 0x02 ||| 0x01

/-- `FIFO_RESET`. -/
def fifoReset : UInt8 := 0x1F

def gyroFchoice : UInt8 := 0x01
def accelFchoice : UInt8 := 0x01
def accelDlpfcfg : UInt8 := 0x20 ||| 0x10 ||| 0x08

def i2cMstPNsr : UInt8 := 0x10
def i2cMstClk400kHz : UInt8 := 7
def i2cSlvxDlyEn : UInt8 := 0x1F
def i2cMstDly : UInt8 := 0x1F

end Icm

open Icm

/-! ## Tables -/

/-- `bank_0_reg_cfg` of the ICM20649: six entries in an array of seven. -/
def icm20649Bank0RegCfg : List RegCfg :=
  [⟨userCtrl, i2cIfDis, dmpEn ||| i2cMstEn ||| fifoEn⟩,
    ⟨pwrMgmt1, clksel0, deviceReset ||| sleep ||| lpEn⟩,
    ⟨intPinCfg, int1Actl, 0⟩,
    ⟨intEnable1, rawData0RdyEn, 0⟩,
    ⟨fifoEn2, 0, sensorsFifoEn⟩,
    ⟨fifoMode, snapshot, 0⟩,
    ⟨0, 0, 0⟩]

/-- `bank_2_reg_cfg` of the ICM20649. -/
def icm20649Bank2RegCfg : List RegCfg :=
  let gyroDlpfcfg := 0x20 ||| 0x10
  let gyroFsSel4000Dps := 0x04 ||| 0x02
  let accelFsSel16G := 0x04
  [⟨gyroConfig1, gyroDlpfcfg ||| gyroFchoice, 0x08 ||| 0x02 ||| gyroFsSel4000Dps⟩,
    ⟨accelConfig, accelFsSel16G ||| accelDlpfcfg ||| accelFchoice, 0x02⟩,
    ⟨accelSmplrtDiv1, 0, 0xFF⟩,
    ⟨accelSmplrtDiv2, 0, 0xFF⟩,
    ⟨gyroSmplrtDiv, 0, 0xFF⟩]

/-- `bank_0_reg_cfg` of the ICM20948. -/
def icm20948Bank0RegCfg : List RegCfg :=
  [⟨userCtrl, fifoEn ||| i2cMstEn ||| i2cIfDis, dmpEn⟩,
    ⟨pwrMgmt1, clksel0, deviceReset ||| sleep⟩,
    ⟨intPinCfg, int1Actl, 0⟩,
    ⟨intEnable1, rawData0RdyEn, 0⟩,
    ⟨fifoEn2, 0, sensorsFifoEn⟩,
    ⟨fifoMode, snapshot, 0⟩]

/-- `bank_2_reg_cfg` of the ICM20948. -/
def icm20948Bank2RegCfg : List RegCfg :=
  let gyroFsSel2000Dps := 0x04 ||| 0x02
  let gyroDlpfcfg := 0x20 ||| 0x10 ||| 0x08
  let accelFsSel16G := 0x04 ||| 0x02
  [⟨gyroConfig1, gyroFsSel2000Dps ||| gyroFchoice ||| gyroDlpfcfg, 0⟩,
    ⟨accelConfig, accelFsSel16G ||| accelFchoice ||| accelDlpfcfg, 0⟩,
    ⟨accelSmplrtDiv1, 0, 0xFF⟩,
    ⟨accelSmplrtDiv2, 0, 0xFF⟩,
    ⟨gyroSmplrtDiv, 0, 0xFF⟩]

/-- `bank_3_reg_cfg_wo_mag`. -/
def bank3RegCfgWoMag : List RegCfg :=
  [⟨i2cMstCtrl, 0, 0⟩, ⟨i2cMstDelayCtrl, 0, 0⟩, ⟨i2cSlv4Ctrl, 0, 0⟩]

/-- `bank_3_reg_cfg_w_mag`. -/
def bank3RegCfgWMag : List RegCfg :=
  [⟨i2cMstCtrl, i2cMstPNsr ||| i2cMstClk400kHz, 0⟩,
    ⟨i2cMstDelayCtrl, i2cSlvxDlyEn, 0⟩,
    ⟨i2cSlv4Ctrl, i2cMstDly, 0⟩]

/-- A driver with banks, and for the ICM20948 whether the magnetometer is enabled. -/
inductive BankedSensor where
  | icm20649
  | icm20948 (enableMag : Bool)
  deriving DecidableEq, Repr

namespace BankedSensor

def driver : BankedSensor → IcmDriver
  | icm20649 => .icm20649
  | icm20948 _ => .icm20948

/-- `WHOAMI`. -/
def whoami : BankedSensor → UInt8
  | icm20649 => 0xE1
  | icm20948 _ => 0xEA

/-- The banks in the order in which `configure` goes through them. -/
def tables : BankedSensor → List (UInt8 × List RegCfg)
  | icm20649 => [(bank0, icm20649Bank0RegCfg), (bank2, icm20649Bank2RegCfg)]
  | icm20948 enableMag =>
      [(bank0, icm20948Bank0RegCfg), (bank2, icm20948Bank2RegCfg),
        (bank3, if enableMag then bank3RegCfgWMag else bank3RegCfgWoMag)]

/-- The divisor of `CONST_G` and the multiple of it for a value of `ACCEL_FS_SEL`; none
where no branch is taken. -/
def accelFs : BankedSensor → UInt8 → Option (ℕ × ℕ)
  | icm20649, 0x00 => some (8192, 4)
  | icm20649, 0x02 => some (4096, 8)
  | icm20649, 0x04 => some (2048, 16)
  | icm20649, 0x06 => some (1024, 30)
  | icm20948 _, 0x00 => some (16384, 2)
  | icm20948 _, 0x02 => some (8192, 4)
  | icm20948 _, 0x04 => some (4096, 8)
  | icm20948 _, 0x06 => some (2048, 16)
  | _, _ => none

/-- The range in degrees per second for a value of `FS_SEL`. -/
def gyroFs : BankedSensor → UInt8 → Option ℕ
  | icm20649, 0x00 => some 500
  | icm20649, 0x02 => some 1000
  | icm20649, 0x04 => some 2000
  | icm20649, 0x06 => some 4000
  | icm20948 _, 0x00 => some 250
  | icm20948 _, 0x02 => some 500
  | icm20948 _, 0x04 => some 1000
  | icm20948 _, 0x06 => some 2000
  | _, _ => none

end BankedSensor

/-- The arithmetic on doubles of `accel_configure` and `gyro_configure`: `CONST_G` divided by
a number and multiplied by one, a number of degrees, and a range divided by 32768. -/
structure IcmScaling where
  gDiv : ℕ → UInt64
  gMul : ℕ → UInt64
  dps : ℕ → UInt64
  perCount : UInt64 → UInt64

/-! ## The functions -/

section Functions

variable {σ : Type*} (sensor : BankedSensor) (bus : RegBus (UInt8 × UInt8) σ)
  (scaling : IcmScaling)

/-- `icm20649_accel_configure` and `icm20948_accel_configure`. -/
def accelConfigure (param : IcmMeasParam) (s : σ) : IcmMeasParam × σ :=
  let (value, s) := bus.readReg (bank2, accelConfig) s
  match sensor.accelFs (value &&& (0x02 ||| 0x04)) with
  | some (divisor, multiple) =>
      ({ param with accelScale := scaling.gDiv divisor, accelRange := scaling.gMul multiple }, s)
  | none => (param, s)

/-- `icm20649_gyro_configure` and `icm20948_gyro_configure`. -/
def gyroConfigure (param : IcmMeasParam) (s : σ) : IcmMeasParam × σ :=
  let (value, s) := bus.readReg (bank2, gyroConfig1) s
  let gyroRange :=
    match sensor.gyroFs (value &&& (0x02 ||| 0x04)) with
    | some range => scaling.dps range
    | none => param.gyroRange
  ({ param with gyroRange := gyroRange, gyroScale := scaling.perCount gyroRange }, s)

/-- `icm20649_configure` and `icm20948_configure`: the returned value and the scales. -/
def icmConfigure (param : IcmMeasParam) (s : σ) : Bool × IcmMeasParam × σ :=
  let (rv, s) := sensor.tables.foldl (fun (rv, s) (bank, table) =>
    configureRegs bus (fun reg => (bank, reg)) table rv s) (true, s)
  let (param, s) := accelConfigure sensor bus scaling param s
  let (param, s) := gyroConfigure sensor bus scaling param s
  (rv, param, s)

/-- The condition in `RESET_WAIT`; the second register is read only when the first is
right. -/
def icmDefaultsOk (s : σ) : Bool × σ :=
  let (who, s) := bus.readReg (bank0, whoAmI) s
  if who = sensor.whoami then
    let (pwr, s) := bus.readReg (bank0, pwrMgmt1) s
    (pwr = 0x41, s)
  else (false, s)

/-- `icm20649_fifo_reset` and `icm20948_fifo_reset`. -/
def icmFifoReset (s : σ) : σ :=
  setClearReg bus (bank0, fifoRst) 0 fifoReset (bus.writeReg (bank0, fifoRst) fifoReset s)

end Functions

end Catpilot
