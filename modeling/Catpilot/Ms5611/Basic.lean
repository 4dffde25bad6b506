import Mathlib.Data.UInt
import Mathlib.Logic.Function.Basic

/-!
# The MS5611 driver

The state machine of `bsp/ics/ms5611/ms5611.c` together with the sensor it talks to.
Each pass of `ms5611_fsm` gets what the sensor puts on the bus in that pass as its
input: the words of the PROM, and the three bytes of an ADC read. The sensor keeps
the last conversion command it received; a read of the ADC is the result of that
conversion.
-/

namespace Catpilot

/-! ## Commands and the checksum of the PROM -/

/-- `CMD_MS5611_RESET`. -/
def cmdMs5611Reset : UInt8 := 0x1E

/-- `CMD_MS5611_CONVERT_D1_OSR1024`. -/
def cmdMs5611ConvertD1Osr1024 : UInt8 := 0x44

/-- `CMD_MS5611_CONVERT_D2_OSR1024`. -/
def cmdMs5611ConvertD2Osr1024 : UInt8 := 0x54

/-- The eight words of the PROM. -/
abbrev Prom := Fin 8 → UInt16

/-- The words before the last one. -/
def promWords (prom : Prom) : List UInt16 :=
  [prom 0, prom 1, prom 2, prom 3, prom 4, prom 5, prom 6]

/-- The last word, which has the checksum in its low end. -/
def promLast (prom : Prom) : UInt16 := prom 7

/-- One byte taken into the remainder of `crc4`. -/
def crc4Byte (nRem byte : UInt16) : UInt16 :=
  (List.range 8).foldl
    (fun r _ => if r &&& 0x8000 ≠ 0 then (r <<< 1) ^^^ 0x3000 else r <<< 1) (nRem ^^^ byte)

/-- `crc4`: the bytes of the words, the high one of each word first. -/
def crc4 (data : Prom) : UInt16 :=
  let bytes := (List.ofFn data).flatMap fun w : UInt16 => [w >>> 8, w &&& 0x00FF]
  (bytes.foldl crc4Byte 0 >>> 12) &&& 0xF

/-- The calibration words that `ms5611_read_calib` stores. -/
structure Ms5611Calib where
  c1 : UInt16
  c2 : UInt16
  c3 : UInt16
  c4 : UInt16
  c5 : UInt16
  c6 : UInt16
  deriving DecidableEq, Repr

/-- `ms5611_read_calib`; `none` is its error. -/
def ms5611ReadCalib (prom : Prom) : Option Ms5611Calib :=
  if ∃ i, 1 < i ∧ prom i = 0 then none
  else
    let crcGet := prom 7 &&& 0xF
    let crcCalc := crc4 (Function.update prom 7 (prom 7 &&& 0xFF00))
    if crcGet ≠ crcCalc then none
    else some ⟨prom 1, prom 2, prom 3, prom 4, prom 5, prom 6⟩

/-! ## Measurements -/

/-- The three data bytes of an ADC read. -/
structure AdcData where
  data1 : UInt8
  data2 : UInt8
  data3 : UInt8
  deriving DecidableEq, Repr

/-- The value that `ms5611_read_adc` returns. -/
def AdcData.reg (d : AdcData) : UInt32 :=
  d.data1.toUInt32 <<< 16 ||| d.data2.toUInt32 <<< 8 ||| d.data3.toUInt32

/-- `ms5611_raw_t`. -/
structure Ms5611Raw where
  d1 : UInt32
  d2 : UInt32
  deriving DecidableEq, Repr

/-- `ms5611_meas_state_t`. -/
inductive MeasState where
  | readTemp
  | readPres1
  | readPres2
  | readPres3
  | readPres4
  deriving DecidableEq, Repr

namespace MeasState

/-- The increment with the wrap from the last state to the first. -/
def next : MeasState → MeasState
  | readTemp => readPres1
  | readPres1 => readPres2
  | readPres2 => readPres3
  | readPres3 => readPres4
  | readPres4 => readTemp

/-- The conversion command sent in a state. -/
def cmd : MeasState → UInt8
  | readTemp => cmdMs5611ConvertD1Osr1024
  | readPres1 | readPres2 | readPres3 | readPres4 => cmdMs5611ConvertD2Osr1024

/-- The slot that a reading of the state goes to. -/
def store (reg : UInt32) (raw : Ms5611Raw) : MeasState → Ms5611Raw
  | readTemp => { raw with d2 := reg }
  | readPres1 | readPres2 | readPres3 | readPres4 => { raw with d1 := reg }

end MeasState

/-- The static variables of `ms5611_read_meas`. -/
structure MeasStatics where
  ignoreNext : Bool
  measPreviousState : MeasState
  measCurrentState : MeasState
  deriving DecidableEq, Repr

/-- Their initial values. -/
def MeasStatics.init : MeasStatics := ⟨false, .readTemp, .readTemp⟩

/-- What one call of `ms5611_read_meas` leaves: its statics, the raw slots, the command
it has sent, and whether it returned 0. -/
structure ReadMeas where
  statics : MeasStatics
  raw : Ms5611Raw
  cmd : UInt8
  ok : Bool
  deriving DecidableEq, Repr

/-- `ms5611_read_meas` on a reading of the ADC. -/
def ms5611ReadMeas (st : MeasStatics) (raw : Ms5611Raw) (reg : UInt32) : ReadMeas :=
  let current :=
    if reg ≠ 0 ∧ st.ignoreNext = false then st.measCurrentState.next else st.measCurrentState
  if reg = 0 ∨ reg = 0xFFFFFF then
    ⟨{ st with measCurrentState := current, ignoreNext := true }, raw, current.cmd, false⟩
  else if st.ignoreNext then
    ⟨{ st with measCurrentState := current, ignoreNext := false }, raw, current.cmd, false⟩
  else
    ⟨{ st with measCurrentState := current, measPreviousState := current },
      st.measPreviousState.store reg raw, current.cmd, true⟩

/-! ## The sensor -/

/-- The two conversions: of the pressure (D1) and of the temperature (D2). -/
inductive Conversion where
  | d1
  | d2
  deriving DecidableEq, Repr

/-- The conversion that a command byte starts. -/
def conversionOf (cmd : UInt8) : Option Conversion :=
  if cmd = cmdMs5611ConvertD1Osr1024 then some .d1
  else if cmd = cmdMs5611ConvertD2Osr1024 then some .d2
  else none

/-- The sensor: the last conversion it was told to make, and the result of the latest
completed conversion of each kind. -/
structure Ms5611Sensor where
  conversion : Option Conversion
  latest : Conversion → Option UInt32

namespace Ms5611Sensor

/-- A sensor that has not converted anything. -/
def idle : Ms5611Sensor := ⟨none, fun _ => none⟩

/-- A conversion command received. -/
def receive (sensor : Ms5611Sensor) (cmd : UInt8) : Ms5611Sensor :=
  { sensor with conversion := conversionOf cmd }

/-- The ADC is read: the conversion is complete, with this result. -/
def complete (sensor : Ms5611Sensor) (reg : UInt32) : Ms5611Sensor :=
  match sensor.conversion with
  | none => sensor
  | some c => { sensor with latest := Function.update sensor.latest c (some reg) }

end Ms5611Sensor

/-! ## The state machine -/

/-- `enum ms5611_state_t`. -/
inductive Ms5611State where
  | reset
  | readCalib
  | readMeas
  | fail
  deriving DecidableEq, Repr

/-- `ms5611_t`. -/
structure Ms5611 where
  state : Ms5611State
  attempt : UInt8
  calib : Ms5611Calib
  raw : Ms5611Raw
  deriving DecidableEq, Repr

/-- The loop of `ms5611_read_calib` over the words; `none` is its early return. -/
def readProm (word : Prom) : List (Fin 8) → Prom → Option Prom
  | [], prom => some prom
  | i :: is, prom =>
      let prom := Function.update prom i (word i)
      if prom i = 0 ∧ 1 < i then none else readProm word is prom

/-- `ms5611_read_calib` on the record of the device, with the words that
`ms5611_read_prom` reads. -/
def ms5611ReadCalibDev (dev : Ms5611) (word : Prom) : Ms5611 × ℤ :=
  match readProm word (List.finRange 8) fun _ => 0 with
  | none => (dev, -1)
  | some prom =>
      let crcGet := prom 7 &&& 0xF
      let prom := Function.update prom 7 (prom 7 &&& 0xFF00)
      let crcCalc := crc4 prom
      if crcGet ≠ crcCalc then (dev, -1)
      else ({ dev with calib := ⟨prom 1, prom 2, prom 3, prom 4, prom 5, prom 6⟩ }, 0)

/-- The driver with its static variables and its sensor. -/
structure Ms5611System where
  dev : Ms5611
  statics : MeasStatics
  sensor : Ms5611Sensor

/-- What the sensor puts on the bus in one pass. -/
structure Ms5611Input where
  prom : Prom
  adc : AdcData

/-- `ms5611_start`: the device record is cleared. -/
def ms5611Start : Ms5611System where
  dev := ⟨.reset, 0, ⟨0, 0, 0, 0, 0, 0⟩, ⟨0, 0⟩⟩
  statics := .init
  sensor := .idle

/-- `case MS5611_READ_CALIB`. -/
def fsmReadCalib (sys : Ms5611System) (prom : Prom) : Ms5611System :=
  let sys := match ms5611ReadCalib prom with
    | none => { sys with dev := { sys.dev with attempt := sys.dev.attempt + 1 } }
    | some calib => { sys with
        dev := { sys.dev with calib := calib, state := .readMeas }
        sensor := sys.sensor.receive cmdMs5611ConvertD1Osr1024 }
  if 5 < sys.dev.attempt then { sys with dev := { sys.dev with state := .fail } } else sys

/-- `case MS5611_READ_MEAS`. The second component is the raw sample that
`ms5611_process_meas` is called on. -/
def fsmReadMeas (sys : Ms5611System) (reg : UInt32) : Ms5611System × Option Ms5611Raw :=
  let meas := ms5611ReadMeas sys.statics sys.dev.raw reg
  ({ dev := { sys.dev with raw := meas.raw }
     statics := meas.statics
     sensor := (sys.sensor.complete reg).receive meas.cmd },
    if meas.ok then some meas.raw else none)

/-- One pass of `ms5611_fsm`. -/
def ms5611Fsm (sys : Ms5611System) (input : Ms5611Input) : Ms5611System × Option Ms5611Raw :=
  match sys.dev.state with
  | .reset =>
      ({ sys with
        dev := { sys.dev with state := .readCalib }
        sensor := sys.sensor.receive cmdMs5611Reset }, none)
  | .readCalib => (fsmReadCalib sys input.prom, none)
  | .readMeas => fsmReadMeas sys input.adc.reg
  | .fail => (sys, none)

end Catpilot
