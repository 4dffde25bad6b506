import Catpilot.Memory.EventMask
import Mathlib.Logic.Function.Basic

/-!
# The GPIO block of the Zynq

`gpio/zynq/gpio.c`. A channel can be reserved as an output and as an input; the
reservations are bits of one word. The channels from `GPIO_INPUT_OUTPUT_OFF` on share a
pin, whose direction is a bit of the register `FDIO_SETUP_OFF`. Registers are words of the
memory at `gpio->base`, and each access to one is recorded. `none` is the outcome of a call
that goes through the null pointer `gpio`.
-/

namespace Catpilot

/-- `GPIO_PINS`. -/
def gpioPins : BitVec 32 := 16#32

/-- `GPIO_INPUT_OUTPUT_OFF`. -/
def gpioInputOutputOff : BitVec 32 := 12#32

/-- `IO_BASE_ADDR`. -/
def ioBaseAddr : BitVec 32 := 0x43C90000#32

/-- `IO_OFF + FDIO_SETUP_OFF`. -/
def fdioSetupOff : BitVec 32 := 0x00#32 + 0x04#32

/-- `CPS_FI_SETUP_OFF`. -/
def cpsFiSetupOff : BitVec 32 := 0x08#32

/-- `OUT_SETUP_OFF`. -/
def outSetupOff : BitVec 32 := 0x200#32

/-- `OUT_VALUE_OFF`. -/
def outValueOff : BitVec 32 := 0x400#32

/-- `INPUT_SETUP_OFF`. -/
def inputSetupOff : BitVec 32 := 0xA00#32

/-- `INPUT_VALUE_OFF`. -/
def inputValueOff : BitVec 32 := 0xC00#32

/-- `BYTES_IN_REG`. -/
def bytesInReg : BitVec 32 := 4#32

/-- `CH_OFF`. -/
def chOff (channel : BitVec 32) : BitVec 32 := channel * 8#32 * bytesInReg

/-- `MCK_US_TO_TICKS`. -/
def mckUsToTicks : BitVec 32 := 100000000#32 / 1000000#32

/-- `gpio_instance_t`. -/
structure GpioInstance where
  base : BitVec 32
  physBase : BitVec 32
  deriving DecidableEq, Repr

/-- An access to a register. -/
inductive RegAccess where
  | in32 (addr : BitVec 32)
  | out32 (addr value : BitVec 32)
  deriving DecidableEq, Repr

/-- The variables of `gpio.c`, the memory of the registers, and the accesses to it. -/
structure Gpio where
  gpio : Option GpioInstance
  channels : BitVec 32
  mem : BitVec 32 → BitVec 32
  accesses : List RegAccess

/-- The two directions that a channel can be reserved in. -/
inductive Direction where
  | output
  | input
  deriving DecidableEq, Repr

namespace Direction

/-- The other direction. -/
def opposite : Direction → Direction
  | output => input
  | input => output

/-- The bit of the reservation word: `1 << channel` and `(1 << channel) << GPIO_PINS`. -/
def bit (dir : Direction) (channel : BitVec 32) : ℕ :=
  match dir with
  | output => channel.toNat
  | input => channel.toNat + gpioPins.toNat

/-- What the direction register becomes for the shared channel with the bit `k`. -/
def setup (dir : Direction) (reg : BitVec 32) (k : ℕ) : BitVec 32 :=
  match dir with
  | output => EventMask.clear reg k
  | input => EventMask.push reg k

end Direction

/-- What the calls in `gpio_init` give: whether `calloc` has memory, the address from
`mmap_device_io`, and whether `ThreadCtl` succeeds. -/
structure InitAnswers where
  calloc : Bool
  mmapDeviceIo : BitVec 32
  threadCtl : Bool

namespace Gpio

section Registers

/-- `WRITE_REG`. -/
def writeReg (s : Gpio) (off value : BitVec 32) : Option Gpio :=
  s.gpio.map fun g =>
    { s with
      mem := Function.update s.mem (g.base + off) value
      accesses := s.accesses ++ [.out32 (g.base + off) value] }

/-- `READ_REG`. -/
def readReg (s : Gpio) (off : BitVec 32) : Option (BitVec 32 × Gpio) :=
  s.gpio.map fun g =>
    (s.mem (g.base + off), { s with accesses := s.accesses ++ [.in32 (g.base + off)] })

/-- A register is read and written back changed. -/
def modifyReg (s : Gpio) (off : BitVec 32) (f : BitVec 32 → BitVec 32) : Option Gpio :=
  (s.readReg off).bind fun (reg, s) => s.writeReg off (f reg)

/-- Several registers are written. -/
def writeRegs (s : Gpio) : List (BitVec 32 × BitVec 32) → Option Gpio
  | [] => some s
  | (off, value) :: rest => (s.writeReg off value).bind fun s => s.writeRegs rest

end Registers

section Reservation

/-- `gpio_init`. When `ThreadCtl` fails the instance is freed and the pointer stays. -/
def gpioInit (s : Gpio) (channel : BitVec 32) (answers : InitAnswers) : Gpio × ℤ :=
  if channel ≥ gpioPins then (s, -1)
  else
    match s.gpio with
    | some _ => (s, 0)
    | none =>
        if ¬ answers.calloc then (s, -1)
        else
          let s := { s with gpio := some ⟨answers.mmapDeviceIo, ioBaseAddr⟩ }
          if answers.mmapDeviceIo = 0 then (s, -1)
          else if ¬ answers.threadCtl then (s, -1)
          else (s, 0)

/-- `gpio_check_common`. -/
def gpioCheckCommon (s : Gpio) (channel : BitVec 32) : ℤ :=
  if s.gpio.isNone ∨ channel ≥ gpioPins then -1 else 0

/-- What `gpio_check_output` and `gpio_check_input` do: they fail unless the channel is
free in the direction and, if it is shared, in the other one too. -/
def gpioCheck (s : Gpio) (dir : Direction) (channel : BitVec 32) : ℤ :=
  if s.gpioCheckCommon channel ≠ 0 then -1
  else if EventMask.isSet s.channels (dir.bit channel) then -1
  else if channel ≥ gpioInputOutputOff ∧ EventMask.isSet s.channels (dir.opposite.bit channel)
  then -1
  else 0

/-- `gpio_check_output`. -/
def gpioCheckOutput (s : Gpio) (channel : BitVec 32) : ℤ := s.gpioCheck .output channel

/-- `gpio_check_input`. -/
def gpioCheckInput (s : Gpio) (channel : BitVec 32) : ℤ := s.gpioCheck .input channel

/-- What `gpio_add_output` and `gpio_add_input` do after `check`. -/
def gpioAdd (s : Gpio) (check : Gpio → BitVec 32 → ℤ) (dir : Direction) (channel : BitVec 32) :
    Option (Gpio × ℤ) :=
  if check s channel ≠ 0 then some (s, -1)
  else
    let setup :=
      if channel ≥ gpioInputOutputOff then
        s.modifyReg fdioSetupOff fun reg =>
          dir.setup reg (channel - gpioInputOutputOff).toNat
      else some s
    setup.map fun s => ({ s with channels := EventMask.push s.channels (dir.bit channel) }, 0)

/-- `gpio_add_output`. -/
def gpioAddOutput (s : Gpio) (channel : BitVec 32) : Option (Gpio × ℤ) :=
  s.gpioAdd gpioCheckOutput .output channel

/-- `gpio_add_input`. -/
def gpioAddInput (s : Gpio) (channel : BitVec 32) : Option (Gpio × ℤ) :=
  s.gpioAdd gpioCheckInput .input channel

end Reservation

section Modes

/-- What a mode function does: if `add` reserves the channel it goes on with `rest`. -/
def setMode (s : Gpio) (add : Gpio → BitVec 32 → Option (Gpio × ℤ)) (channel : BitVec 32)
    (rest : Gpio → Option Gpio) : Option (Gpio × ℤ) :=
  (add s channel).bind fun (s, rv) =>
    if rv ≠ 0 then some (s, -1) else (rest s).map fun s => (s, 0)

/-- The filter of the first channels, which the input modes switch on. -/
def cpsFi (s : Gpio) (channel : BitVec 32) : Option Gpio :=
  if channel ≥ 0#32 ∧ channel ≤ 3#32 then
    s.modifyReg cpsFiSetupOff fun reg => EventMask.push reg channel.toNat
  else some s

/-- `gpio_set_discrete_mode_out`. -/
def gpioSetDiscreteModeOut (s : Gpio) (channel : BitVec 32) : Option (Gpio × ℤ) :=
  s.setMode gpioAddOutput channel fun s => s.writeRegs [(outSetupOff + chOff channel, 0x1#32)]

/-- `gpio_set_pwm_mode_out`. -/
def gpioSetPwmModeOut (s : Gpio) (channel : BitVec 32) : Option (Gpio × ℤ) :=
  s.setMode gpioAddOutput channel fun s => s.writeRegs
    [(outSetupOff + chOff channel, 0x2#32), (outSetupOff + chOff channel + 0x8#32, 1#32)]

/-- `gpio_set_phase_mode_out`. -/
def gpioSetPhaseModeOut (s : Gpio)
    (channel invert timeMode syncChannel tooth phaseOn phaseOff : BitVec 32) :
    Option (Gpio × ℤ) :=
  s.setMode gpioAddOutput channel fun s => s.writeRegs
    [(outSetupOff + chOff channel, 0x3#32),
      (outSetupOff + chOff channel + 0x10#32,
        1#32 <<< 0 ||| invert <<< 1 ||| timeMode <<< 2 ||| syncChannel <<< 8),
      (outValueOff + chOff channel, tooth),
      (outValueOff + chOff channel + bytesInReg, phaseOn),
      (outValueOff + chOff channel + 2#32 * bytesInReg, phaseOff)]

/-- `gpio_set_discrete_mode_in`. -/
def gpioSetDiscreteModeIn (s : Gpio) (channel : BitVec 32) : Option (Gpio × ℤ) :=
  s.setMode gpioAddInput channel fun s =>
    (s.writeRegs [(inputSetupOff + chOff channel, 0x1#32)]).bind fun s => s.cpsFi channel

/-- `gpio_set_pwm_mode_in`. -/
def gpioSetPwmModeIn (s : Gpio) (channel : BitVec 32) : Option (Gpio × ℤ) :=
  s.setMode gpioAddInput channel fun s =>
    (s.writeRegs
      [(inputSetupOff + chOff channel, 0x2#32),
        (inputSetupOff + chOff channel + 0x8#32, 1#32)]).bind fun s => s.cpsFi channel

/-- `gpio_set_phase_mode_in`. -/
def gpioSetPhaseModeIn (s : Gpio) (channel total missing step : BitVec 32) :
    Option (Gpio × ℤ) :=
  s.setMode gpioAddInput channel fun s =>
    (s.cpsFi channel).bind fun s => s.writeRegs
      [(inputSetupOff + chOff channel, 0x3#32),
        (inputSetupOff + chOff channel + 0x10#32, total),
        (inputSetupOff + chOff channel + 0x14#32, missing),
        (inputSetupOff + chOff channel + 0x18#32, step),
        (inputSetupOff + chOff channel + 0xC#32, 1#32)]

end Modes

section Accessors

/-- What the functions that write a value of a channel do after their check. -/
def setValue (s : Gpio) (check : ℤ) (off value : BitVec 32) : Option (Gpio × ℤ) :=
  if check = 0 then some (s, -1) else (s.writeReg off value).map fun s => (s, 0)

/-- What the functions that read a value of a channel do after their check; the last
component is what they put behind their pointer. -/
def getValue (s : Gpio) (check : ℤ) (off : BitVec 32) (f : BitVec 32 → BitVec 32) :
    Option (Gpio × ℤ × Option (BitVec 32)) :=
  if check = 0 then some (s, -1, none)
  else (s.readReg off).map fun (reg, s) => (s, 0, some (f reg))

variable (s : Gpio) (channel : BitVec 32)

/-- `gpio_set_output_value`. -/
def gpioSetOutputValue (value : BitVec 32) : Option (Gpio × ℤ) :=
  s.setValue (s.gpioCheckOutput channel) (outValueOff + chOff channel) value

/-- `gpio_get_output_value`. -/
def gpioGetOutputValue : Option (Gpio × ℤ × Option (BitVec 32)) :=
  s.getValue (s.gpioCheckOutput channel) (outValueOff + chOff channel) id

/-- `gpio_set_period`. -/
def gpioSetPeriod (period : BitVec 32) : Option (Gpio × ℤ) :=
  s.setValue (s.gpioCheckOutput channel) (outValueOff + chOff channel) (period * mckUsToTicks)

/-- `gpio_set_width`. -/
def gpioSetWidth (width : BitVec 32) : Option (Gpio × ℤ) :=
  s.setValue (s.gpioCheckOutput channel) (outValueOff + chOff channel + 4#32)
    (width * mckUsToTicks)

/-- `gpio_get_period`. -/
def gpioGetPeriod : Option (Gpio × ℤ × Option (BitVec 32)) :=
  s.getValue (s.gpioCheckInput channel) (inputValueOff + chOff channel) (· / mckUsToTicks)

/-- `gpio_get_width`. -/
def gpioGetWidth : Option (Gpio × ℤ × Option (BitVec 32)) :=
  s.getValue (s.gpioCheckInput channel) (inputValueOff + chOff channel + 4#32)
    (· / mckUsToTicks)

/-- `gpio_get_input_value`. -/
def gpioGetInputValue : Option (Gpio × ℤ × Option (BitVec 32)) :=
  s.getValue (s.gpioCheckInput channel) (inputValueOff + chOff channel) id

/-- `gpio_get_tooth`. -/
def gpioGetTooth : Option (Gpio × ℤ × Option (BitVec 32)) :=
  s.getValue (s.gpioCheckInput channel) (inputValueOff + chOff channel + 4#32) id

/-- `gpio_get_phase_step`. -/
def gpioGetPhaseStep : Option (Gpio × ℤ × Option (BitVec 32)) :=
  s.getValue (s.gpioCheckInput channel) (inputValueOff + chOff channel + 4#32 + 4#32) id

end Accessors

end Gpio

end Catpilot
