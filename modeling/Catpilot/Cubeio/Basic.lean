import Catpilot.Memory.EventMask
import Mathlib.Algebra.Order.Floor.Ring
import Mathlib.Data.Rat.Floor
import Mathlib.Data.UInt
import Mathlib.Logic.Function.Basic

/-!
# The driver of the IO board

`bsp/ics/cubeio/cubeio.c`: the packets, the register transfers, the calls of the driver
and the state machine. A transfer is answered by the board up to three times; what it
answers is an input of the pass. The log of the transfers is not part of the program.

Doubles are exact rationals. `CubeioPlatform` has what C leaves to the platform: the
conversion of a double to `uint16_t`, fixed where the value fits, and a double whose low
four bytes are written over.
-/

namespace Catpilot

/-! ## Registers -/

/-- `SUCCESS`. -/
def success : ℤ := 0

/-- `EINVAL` as a result. -/
def resultEinval : ℤ := 22

/-- `EPROTO` as a result. -/
def resultEproto : ℤ := 71

/-- `CUBEIO_MAX_CHANNELS`. -/
def cubeioMaxChannels : ℕ := 16

/-- `PAGE_CONFIG`. -/
def pageConfig : UInt8 := 0

/-- `PAGE_STATUS`. -/
def pageStatus : UInt8 := 1

/-- `PAGE_SERVOS`. -/
def pageServos : UInt8 := 3

/-- `PAGE_RAW_RCIN`. -/
def pageRawRcin : UInt8 := 4

/-- `PAGE_SETUP`. -/
def pageSetup : UInt8 := 50

/-- `PAGE_DIRECT_PWM`. -/
def pageDirectPwm : UInt8 := 54

/-- `PAGE_FAILSAFE_PWM`. -/
def pageFailsafePwm : UInt8 := 55

/-- `PROTOCOL_VERSION`. -/
def protocolVersion : UInt16 := 4

/-- `PROTOCOL_VERSION2`. -/
def protocolVersion2 : UInt16 := 10

/-- `PAGE_REG_SETUP_FEATURES`. -/
def regFeatures : UInt8 := 0

/-- `PAGE_REG_SETUP_ARMING`. -/
def regArming : UInt8 := 1

/-- `PAGE_REG_SETUP_PWM_RATE_MASK`. -/
def regPwmRateMask : UInt8 := 2

/-- `PAGE_REG_SETUP_DEFAULTRATE`. -/
def regDefaultrate : UInt8 := 3

/-- `PAGE_REG_SETUP_ALTRATE`. -/
def regAltrate : UInt8 := 4

/-- `PAGE_REG_SETUP_FORCE_SAFETY_OFF`. -/
def regForceSafetyOff : UInt8 := 12

/-- `PAGE_REG_SETUP_FORCE_SAFETY_ON`. -/
def regForceSafetyOn : UInt8 := 14

/-- `PAGE_REG_SETUP_SBUS_RATE`. -/
def regSbusRate : UInt8 := 19

/-- `PAGE_REG_SETUP_IGNORE_SAFETY`. -/
def regIgnoreSafety : UInt8 := 20

/-- `PAGE_REG_SETUP_HEATER_DUTY_CYCLE`. -/
def regHeaterDutyCycle : UInt8 := 21

/-- `PAGE_REG_SETUP_RC_PROTOCOLS`. -/
def regRcProtocols : UInt8 := 23

/-- `FORCE_SAFETY_MAGIC`. -/
def forceSafetyMagic : UInt16 := 22027

/-- `P_SETUP_FEATURES_SBUS1_OUT`. -/
def featuresSbus1Out : UInt16 := 1

/-- `P_SETUP_FEATURES_ONESHOT`. -/
def featuresOneshot : UInt16 := 16

/-- `P_SETUP_FEATURES_BRUSHED`. -/
def featuresBrushed : UInt16 := 32

/-- `P_SETUP_ARMING_IO_ARM_OK | P_SETUP_ARMING_FMU_ARMED |
P_SETUP_ARMING_RC_HANDLING_DISABLED`. -/
def armingBits : UInt16 := (1 : UInt16) <<< 0 ||| (1 : UInt16) <<< 1 ||| (1 : UInt16) <<< 6

/-- `P_SETUP_ARMING_SAFETY_DISABLE_ON`. -/
def armingSafetyDisableOn : UInt16 := (1 : UInt16) <<< 11

/-- `P_SETUP_ARMING_SAFETY_DISABLE_OFF`. -/
def armingSafetyDisableOff : UInt16 := (1 : UInt16) <<< 12

/-! ## Packets -/

/-- `cubeio_packet_t`. -/
structure CubeioPacket where
  count : Fin 64
  code : Fin 4
  crc : UInt8
  page : UInt8
  offset : UInt8
  regs : Fin 22 → UInt16
  deriving DecidableEq

/-- `PKT_CODE_SUCCESS`. -/
def pktCodeSuccess : Fin 4 := 0

/-- The bytes of a packet in memory. -/
def CubeioPacket.bytes (pkt : CubeioPacket) : List UInt8 :=
  [UInt8.ofNat (pkt.count + 64 * pkt.code), pkt.crc, pkt.page, pkt.offset] ++
    (List.ofFn pkt.regs).flatMap fun r : UInt16 => [r.toUInt8, (r >>> 8).toUInt8]

/-- `crc8_tab`. -/
def crc8Tab : Array UInt8 := #[
  0x00, 0x07, 0x0E, 0x09, 0x1C, 0x1B, 0x12, 0x15, 0x38, 0x3F, 0x36, 0x31, 0x24, 0x23, 0x2A, 0x2D,
  0x70, 0x77, 0x7E, 0x79, 0x6C, 0x6B, 0x62, 0x65, 0x48, 0x4F, 0x46, 0x41, 0x54, 0x53, 0x5A, 0x5D,
  0xE0, 0xE7, 0xEE, 0xE9, 0xFC, 0xFB, 0xF2, 0xF5, 0xD8, 0xDF, 0xD6, 0xD1, 0xC4, 0xC3, 0xCA, 0xCD,
  0x90, 0x97, 0x9E, 0x99, 0x8C, 0x8B, 0x82, 0x85, 0xA8, 0xAF, 0xA6, 0xA1, 0xB4, 0xB3, 0xBA, 0xBD,
  0xC7, 0xC0, 0xC9, 0xCE, 0xDB, 0xDC, 0xD5, 0xD2, 0xFF, 0xF8, 0xF1, 0xF6, 0xE3, 0xE4, 0xED, 0xEA,
  0xB7, 0xB0, 0xB9, 0xBE, 0xAB, 0xAC, 0xA5, 0xA2, 0x8F, 0x88, 0x81, 0x86, 0x93, 0x94, 0x9D, 0x9A,
  0x27, 0x20, 0x29, 0x2E, 0x3B, 0x3C, 0x35, 0x32, 0x1F, 0x18, 0x11, 0x16, 0x03, 0x04, 0x0D, 0x0A,
  0x57, 0x50, 0x59, 0x5E, 0x4B, 0x4C, 0x45, 0x42, 0x6F, 0x68, 0x61, 0x66, 0x73, 0x74, 0x7D, 0x7A,
  0x89, 0x8E, 0x87, 0x80, 0x95, 0x92, 0x9B, 0x9C, 0xB1, 0xB6, 0xBF, 0xB8, 0xAD, 0xAA, 0xA3, 0xA4,
  0xF9, 0xFE, 0xF7, 0xF0, 0xE5, 0xE2, 0xEB, 0xEC, 0xC1, 0xC6, 0xCF, 0xC8, 0xDD, 0xDA, 0xD3, 0xD4,
  0x69, 0x6E, 0x67, 0x60, 0x75, 0x72, 0x7B, 0x7C, 0x51, 0x56, 0x5F, 0x58, 0x4D, 0x4A, 0x43, 0x44,
  0x19, 0x1E, 0x17, 0x10, 0x05, 0x02, 0x0B, 0x0C, 0x21, 0x26, 0x2F, 0x28, 0x3D, 0x3A, 0x33, 0x34,
  0x4E, 0x49, 0x40, 0x47, 0x52, 0x55, 0x5C, 0x5B, 0x76, 0x71, 0x78, 0x7F, 0x6A, 0x6D, 0x64, 0x63,
  0x3E, 0x39, 0x30, 0x37, 0x22, 0x25, 0x2C, 0x2B, 0x06, 0x01, 0x08, 0x0F, 0x1A, 0x1D, 0x14, 0x13,
  0xAE, 0xA9, 0xA0, 0xA7, 0xB2, 0xB5, 0xBC, 0xBB, 0x96, 0x91, 0x98, 0x9F, 0x8A, 0x8D, 0x84, 0x83,
  0xDE, 0xD9, 0xD0, 0xD7, 0xC2, 0xC5, 0xCC, 0xCB, 0xE6, 0xE1, 0xE8, 0xEF, 0xFA, 0xFD, 0xF4, 0xF3]

/-- `crc_packet`; with a large `count` it goes on into the memory behind the packet. -/
def crcPacket (pkt : CubeioPacket) (behind : List UInt8) : UInt8 :=
  ((pkt.bytes ++ behind).take (4 + 2 * pkt.count)).foldl
    (fun c p => crc8Tab.getD (c ^^^ p).toNat 0) 0

/-- What one call of `usart_transmit_receive` gives: its result, the response buffer
after it, and the memory behind that buffer. -/
structure UsartAnswer where
  rv : ℤ
  rx : CubeioPacket
  behind : List UInt8

/-- The checksum of the response is the one it carries. -/
def UsartAnswer.crcOk (a : UsartAnswer) : Bool :=
  crcPacket { a.rx with crc := 0 } a.behind = a.rx.crc

/-- The attempts of `cubeio_write_regs`, with the result so far. -/
def writeAttempts : ℤ → List UsartAnswer → ℤ
  | rv, [] => rv
  | _, a :: attempts =>
      if a.rv ≠ success then writeAttempts a.rv attempts
      else if a.rx.code ≠ pktCodeSuccess then writeAttempts resultEinval attempts
      else if a.crcOk = false then writeAttempts resultEproto attempts
      else a.rv

/-- The attempts of `cubeio_read_regs`, with the result so far and the registers. -/
def readAttempts (count : ℕ) (regs : List UInt16) : ℤ → List UsartAnswer → ℤ × List UInt16
  | rv, [] => (rv, regs)
  | _, a :: attempts =>
      if a.rv ≠ success then readAttempts count regs a.rv attempts
      else if a.rx.code ≠ pktCodeSuccess then readAttempts count regs resultEinval attempts
      else if (a.rx.count : ℕ) ≠ count then readAttempts count regs resultEinval attempts
      else if a.crcOk = false then readAttempts count regs resultEproto attempts
      else (a.rv, (List.ofFn a.rx.regs).take count)

/-! ## The device record -/

/-- The values that C leaves to the platform. -/
structure CubeioPlatform where
  /-- The conversion of a double to `uint16_t`. -/
  toUInt16 : ℚ → UInt16
  /-- A value whose truncation fits is truncated. -/
  toNat_toUInt16 : ∀ q : ℚ, -1 < q → q < 65536 → (toUInt16 q).toNat = ⌊q⌋.toNat
  /-- A double with two 16-bit words written over its low four bytes. -/
  tear : ℚ → UInt16 → UInt16 → ℚ

/-- `cubeio_range_cfg_t`. -/
structure CubeioRangeCfg where
  type : UInt16
  min : UInt16
  max : UInt16
  deriving DecidableEq, Repr

/-- `enum cubeio_state_t`. -/
inductive CubeioState where
  | reset
  | conf
  | operation
  | fail
  deriving DecidableEq, Repr

/-- The events of `enum cubeio_event_t` that are used. -/
inductive CubeioEvent where
  | setPwm
  | setFailsafePwm
  | forceSafetyOff
  | forceSafetyOn
  | enableSbusOut
  | oneshotOn
  | brushedOn
  | setRates
  | setImuHeaterDuty
  | setDefaultRate
  | setSafetyMask
  deriving DecidableEq, Repr

/-- The value of an event in the enumeration. -/
def CubeioEvent.num : CubeioEvent → ℕ
  | setPwm => 1
  | setFailsafePwm => 2
  | forceSafetyOff => 3
  | forceSafetyOn => 4
  | enableSbusOut => 5
  | oneshotOn => 6
  | brushedOn => 7
  | setRates => 8
  | setImuHeaterDuty => 9
  | setDefaultRate => 10
  | setSafetyMask => 11

/-- `cubeio_page_config_t`. -/
structure CubeioPageConfig where
  protocolVersion : UInt16
  protocolVersion2 : UInt16
  deriving DecidableEq, Repr

/-- `cubeio_pwm_out_t`. -/
structure CubeioPwmOut where
  numChannels : UInt8
  pwm : Fin 16 → UInt16
  failsafePwm : Fin 16 → UInt16
  heaterDuty : UInt8
  safetyMask : UInt16

/-- `cubeio_rate_t`. -/
structure CubeioRate where
  freq : UInt16
  chmask : UInt16
  defaultFreq : UInt16
  sbusRateHz : UInt16
  oneshotEnabled : UInt8
  brushedEnabled : UInt8
  deriving DecidableEq, Repr

/-- The fields of `cubeio_page_reg_status_t` that are used. -/
structure CubeioStatus where
  flagSafetyOff : UInt8
  safetyForcedOff : UInt8
  deriving DecidableEq, Repr

/-- The fields of `cubeio_page_rc_input_t` that are used. -/
structure CubeioRcInput where
  channel : Fin 16 → UInt16
  rssi : UInt16

/-- The times of `cubeio_sync_t`. -/
structure CubeioSync where
  now : UInt32
  lastRcReadMs : UInt32
  lastStatusReadMs : UInt32
  lastServoReadMs : UInt32
  lastSafetyMs : UInt32
  deriving DecidableEq, Repr

/-- `cubeio_t`. A channel of `rc` that is `none` is not a number. -/
structure Cubeio where
  state : CubeioState
  sync : CubeioSync
  eventmask : BitVec 32
  config : CubeioPageConfig
  pwmOut : CubeioPwmOut
  pwmIn : Fin 16 → UInt16
  rate : CubeioRate
  pageRegStatus : CubeioStatus
  pageRcInput : CubeioRcInput
  rcRangeCfg : Fin 16 → CubeioRangeCfg
  pwmRangeCfg : Fin 16 → CubeioRangeCfg
  pwm : Fin 16 → ℚ
  failsafePwm : ℚ
  rc : Fin 16 → Option ℚ
  attempt : UInt32

/-- The record that `cubeio_start` leaves. -/
def cubeioStart : Cubeio where
  state := .reset
  sync := ⟨0, 0, 0, 0, 0⟩
  eventmask := 0
  config := ⟨0, 0⟩
  pwmOut := ⟨0, fun _ => 0, fun _ => 0, 0, 0⟩
  pwmIn := fun _ => 0
  rate := ⟨0, 0, 0, 0, 0, 0⟩
  pageRegStatus := ⟨0, 0⟩
  pageRcInput := ⟨fun _ => 0, 0⟩
  rcRangeCfg := fun _ => ⟨0, 0, 0⟩
  pwmRangeCfg := fun _ => ⟨0, 0, 0⟩
  pwm := fun _ => 0
  failsafePwm := 0
  rc := fun _ => some 0
  attempt := 0

/-- `cubeio_pop_event`. -/
def cubeioPopEvent (dev : Cubeio) (event : CubeioEvent) : Cubeio × Bool :=
  if EventMask.isSet dev.eventmask event.num then
    ({ dev with eventmask := EventMask.clear dev.eventmask event.num }, true)
  else (dev, false)

/-- `cubeio_push_event`. -/
def cubeioPushEvent (dev : Cubeio) (event : CubeioEvent) : Cubeio :=
  { dev with eventmask := EventMask.push dev.eventmask event.num }

/-! ## The calls of the driver -/

/-- `CUBEIO_RC`. -/
def cubeioRc : ℤ := 0

/-- `CUBEIO_PWM`. -/
def cubeioPwm : ℤ := 1

/-- `cubeio_set_range`. The two arrays are adjacent in the record, the one of the RC
channels first, and behind the one of the PWM channels the field `type` of an element
falls on padding and the other two on the low half of `pwm[0]`. -/
def cubeioSetRange (plat : CubeioPlatform) (dev : Cubeio) (type : ℤ) (channel : UInt8)
    (channelType min max : UInt16) : Cubeio :=
  let cfg : CubeioRangeCfg := ⟨channelType, min, max⟩
  if type = cubeioRc then
    if h : channel.toNat < 16 then
      { dev with rcRangeCfg := Function.update dev.rcRangeCfg ⟨channel.toNat, h⟩ cfg }
    else if channel.toNat = cubeioMaxChannels then
      { dev with pwmRangeCfg := Function.update dev.pwmRangeCfg 0 cfg }
    else dev
  else if type = cubeioPwm then
    if h : channel.toNat < 16 then
      { dev with pwmRangeCfg := Function.update dev.pwmRangeCfg ⟨channel.toNat, h⟩ cfg }
    else if channel.toNat = cubeioMaxChannels then
      { dev with pwm := Function.update dev.pwm 0 (plat.tear (dev.pwm 0) min max) }
    else dev
  else dev

/-- `cubeio_set_pwm`. -/
def cubeioSetPwm (dev : Cubeio) (channels : UInt8) (pwm : Fin 16 → ℚ) : Cubeio :=
  if channels < 1 then dev
  else
    cubeioPushEvent
      { dev with
        pwmOut := { dev.pwmOut with numChannels := if channels < 16 then channels else 16 }
        pwm := pwm } .setPwm

/-- `cubeio_set_failsafe_pwm`. -/
def cubeioSetFailsafePwm (dev : Cubeio) (pwm : ℚ) : Cubeio :=
  cubeioPushEvent { dev with failsafePwm := pwm } .setFailsafePwm

/-- `cubeio_set_safety_mask`. -/
def cubeioSetSafetyMask (dev : Cubeio) (safetyMask : UInt16) : Cubeio :=
  cubeioPushEvent { dev with pwmOut := { dev.pwmOut with safetyMask := safetyMask } }
    .setSafetyMask

/-- The loop of `cubeio_set_freq`: a group of channels of which one is in the mask is in
it as a whole. -/
def widenChmask (chmask : UInt16) : UInt16 :=
  [0x03, 0x0C, 0xF0].foldl
    (fun chmask chMask => if chmask &&& chMask ≠ 0 then chmask ||| chMask else chmask) chmask

/-- `cubeio_set_freq`. -/
def cubeioSetFreq (dev : Cubeio) (chmask freq : UInt16) : Cubeio :=
  cubeioPushEvent
    { dev with rate := { dev.rate with freq := freq, chmask := widenChmask chmask } } .setRates

/-- `cubeio_set_default_freq`. -/
def cubeioSetDefaultFreq (dev : Cubeio) (freq : UInt16) : Cubeio :=
  if dev.rate.defaultFreq ≠ freq then
    cubeioPushEvent { dev with rate := { dev.rate with defaultFreq := freq } } .setDefaultRate
  else dev

/-- `cubeio_set_oneshot_mode`. -/
def cubeioSetOneshotMode (dev : Cubeio) : Cubeio :=
  cubeioPushEvent { dev with rate := { dev.rate with oneshotEnabled := 1 } } .oneshotOn

/-- `cubeio_set_brushed_mode`. -/
def cubeioSetBrushedMode (dev : Cubeio) : Cubeio :=
  cubeioPushEvent { dev with rate := { dev.rate with brushedEnabled := 1 } } .brushedOn

/-- `cubeio_force_safety_on`. -/
def cubeioForceSafetyOn (dev : Cubeio) : Cubeio :=
  cubeioPushEvent
    { dev with pageRegStatus := { dev.pageRegStatus with safetyForcedOff := 0 } } .forceSafetyOn

/-- `cubeio_force_safety_off`. -/
def cubeioForceSafetyOff (dev : Cubeio) : Cubeio :=
  cubeioPushEvent
    { dev with pageRegStatus := { dev.pageRegStatus with safetyForcedOff := 1 } } .forceSafetyOff

/-- `cubeio_set_imu_heater_duty`. -/
def cubeioSetImuHeaterDuty (dev : Cubeio) (duty : UInt8) : Cubeio :=
  cubeioPushEvent { dev with pwmOut := { dev.pwmOut with heaterDuty := duty } } .setImuHeaterDuty

/-- `cubeio_enable_sbus_out`. -/
def cubeioEnableSbusOut (dev : Cubeio) (freq : UInt16) : Cubeio :=
  cubeioPushEvent { dev with rate := { dev.rate with sbusRateHz := freq } } .enableSbusOut

/-- The calls that change the record. -/
inductive CubeioCall where
  | setRange (type : ℤ) (channel : UInt8) (channelType min max : UInt16)
  | setPwm (channels : UInt8) (pwm : Fin 16 → ℚ)
  | setFailsafePwm (pwm : ℚ)
  | setSafetyMask (safetyMask : UInt16)
  | setFreq (chmask freq : UInt16)
  | setDefaultFreq (freq : UInt16)
  | setOneshotMode
  | setBrushedMode
  | forceSafetyOn
  | forceSafetyOff
  | setImuHeaterDuty (duty : UInt8)
  | enableSbusOut (freq : UInt16)

/-- A call. -/
def cubeioCall (plat : CubeioPlatform) (dev : Cubeio) : CubeioCall → Cubeio
  | .setRange type channel channelType min max =>
      cubeioSetRange plat dev type channel channelType min max
  | .setPwm channels pwm => cubeioSetPwm dev channels pwm
  | .setFailsafePwm pwm => cubeioSetFailsafePwm dev pwm
  | .setSafetyMask safetyMask => cubeioSetSafetyMask dev safetyMask
  | .setFreq chmask freq => cubeioSetFreq dev chmask freq
  | .setDefaultFreq freq => cubeioSetDefaultFreq dev freq
  | .setOneshotMode => cubeioSetOneshotMode dev
  | .setBrushedMode => cubeioSetBrushedMode dev
  | .forceSafetyOn => cubeioForceSafetyOn dev
  | .forceSafetyOff => cubeioForceSafetyOff dev
  | .setImuHeaterDuty duty => cubeioSetImuHeaterDuty dev duty
  | .enableSbusOut freq => cubeioEnableSbusOut dev freq

end Catpilot
