import Catpilot.Cubeio.Basic
import Catpilot.Transition.Run

/-!
# The state machine of the IO board

One pass of `cubeio_fsm`. In OPERATION the pending events are handled in a fixed order;
an event is cleared before its registers are written, and the results of the writes are
not looked at.
-/

namespace Catpilot

open Transition

/-- The direction of a register transfer. -/
inductive TransferKind where
  | read
  | write
  deriving DecidableEq, Repr

/-- A register transfer with its result: the registers written, or those that the caller
has after a read. -/
structure CubeioTransfer where
  kind : TransferKind
  page : UInt8
  offset : UInt8
  regs : List UInt16
  rv : ℤ
  deriving DecidableEq, Repr

/-- The driver, with the log of the transfers. -/
structure CubeioSystem where
  dev : Cubeio
  log : List CubeioTransfer

/-- The answers of the board: those to the three attempts of each transfer, which are
counted from the start. -/
abbrev CubeioBus := ℕ → Fin 3 → UsartAnswer

/-- What one pass gets: the answers of the board, and the time at its start and after
each of the routine transfers. -/
structure CubeioPass where
  bus : CubeioBus
  now : UInt32
  rcDone : UInt32
  statusDone : UInt32
  servoDone : UInt32
  safetyDone : UInt32

/-- A valid response with these registers. -/
def boardAnswer (count : Fin 64) (regs : Fin 22 → UInt16) : UsartAnswer :=
  let rx : CubeioPacket := ⟨count, pktCodeSuccess, 0, 0, 0, regs⟩
  ⟨success, { rx with crc := crcPacket rx [] }, []⟩

theorem crcOk_boardAnswer (count : Fin 64) (regs : Fin 22 → UInt16) :
    (boardAnswer count regs).crcOk = true := decide_eq_true rfl

/-- A valid response with the registers that were asked for ends a read. -/
theorem readAttempts_boardAnswer (old : List UInt16) (rv : ℤ) (count : Fin 64)
    (regs : Fin 22 → UInt16) (attempts : List UsartAnswer) :
    readAttempts count old rv (boardAnswer count regs :: attempts) =
      (success, (List.ofFn regs).take count) := by
  have hrv : (boardAnswer count regs).rv = success := rfl
  have hcode : (boardAnswer count regs).rx.code = pktCodeSuccess := rfl
  have hcount : (boardAnswer count regs).rx.count = count := rfl
  have hregs : (boardAnswer count regs).rx.regs = regs := rfl
  simp only [readAttempts, hrv, hcode, hcount, hregs, crcOk_boardAnswer, ne_eq, not_true_eq_false,
    if_false, Bool.true_eq_false]

section Transfers

variable (bus : CubeioBus)

/-- `cubeio_write_regs`. -/
def cubeioWriteRegs (page offset : UInt8) (regs : List UInt16) (s : CubeioSystem) :
    CubeioSystem × ℤ :=
  let rv := writeAttempts 0 (List.ofFn (bus s.log.length))
  ({ s with log := s.log ++ [⟨.write, page, offset, regs, rv⟩] }, rv)

/-- `cubeio_read_regs`. -/
def cubeioReadRegs (page offset : UInt8) (regs : List UInt16) (s : CubeioSystem) :
    CubeioSystem × ℤ × List UInt16 :=
  let got := readAttempts regs.length regs 0 (List.ofFn (bus s.log.length))
  ({ s with log := s.log ++ [⟨.read, page, offset, got.2, got.1⟩] }, got.1, got.2)

/-- `cubeio_write_reg`. -/
def cubeioWriteReg (page offset : UInt8) (reg : UInt16) (s : CubeioSystem) : CubeioSystem × ℤ :=
  cubeioWriteRegs bus page offset [reg] s

/-- `cubeio_set_clear_reg`. -/
def cubeioSetClearReg (page offset : UInt8) (setbits clearbits : UInt16) (s : CubeioSystem) :
    CubeioSystem × ℤ :=
  match cubeioReadRegs bus page offset [0] s with
  | (s, rv, regs) =>
      if rv ≠ success then (s, -1)
      else
        let reg := regs.headD 0
        cubeioWriteReg bus page offset ((reg &&& ~~~clearbits) ||| setbits) s

end Transfers

/-- `cubeio_scale_output`. -/
def cubeioScaleOutput (plat : CubeioPlatform) (out : ℚ) (cfg : CubeioRangeCfg) : UInt16 :=
  if cfg.type = 0 then
    plat.toUInt16 (out * (cfg.max.toNat - cfg.min.toNat : ℤ) + cfg.min.toNat)
  else if cfg.type = 1 then
    plat.toUInt16 ((out + 1) * (cfg.max.toNat - cfg.min.toNat : ℤ) / 2 + cfg.min.toNat)
  else 0

/-- `cubeio_scale_input`; a division by zero gives no number. -/
def cubeioScaleInput (input : UInt16) (cfg : CubeioRangeCfg) : Option ℚ :=
  let span : ℚ := (cfg.max.toNat - cfg.min.toNat : ℤ)
  let offset : ℚ := (input.toNat - cfg.min.toNat : ℤ)
  if input < cfg.min ∨ cfg.max < input then some 0
  else if cfg.type = 0 then
    if span = 0 then none else some (min (max (offset / span) 0) 1)
  else if cfg.type = 1 then
    if span = 0 then none else some (min (max (2 * offset / span - 1) (-1)) 1)
  else some 0

section Operation

variable (plat : CubeioPlatform) (bus : CubeioBus)

/-- The channels that `CUBEIO_SET_PWM` scales: those below `num_channels`. -/
def scalePwm (dev : Cubeio) : Fin 16 → UInt16 := fun i =>
  if (i : ℕ) < dev.pwmOut.numChannels.toNat then
    cubeioScaleOutput plat (dev.pwm i) (dev.pwmRangeCfg i)
  else dev.pwmOut.pwm i

/-- The channels that `CUBEIO_SET_FAILSAFE_PWM` scales. -/
def scaleFailsafePwm (dev : Cubeio) : Fin 16 → UInt16 := fun i =>
  cubeioScaleOutput plat dev.failsafePwm (dev.pwmRangeCfg i)

/-- What is done for an event that was pending. -/
def onEvent (s : CubeioSystem) : CubeioEvent → CubeioSystem
  | .setPwm =>
      let pwm := scalePwm plat s.dev
      let s := { s with dev := { s.dev with pwmOut := { s.dev.pwmOut with pwm := pwm } } }
      (cubeioWriteRegs bus pageDirectPwm 0
        ((List.ofFn pwm).take s.dev.pwmOut.numChannels.toNat) s).1
  | .setFailsafePwm =>
      let pwm := scaleFailsafePwm plat s.dev
      let s := { s with dev := { s.dev with pwmOut := { s.dev.pwmOut with failsafePwm := pwm } } }
      (cubeioWriteRegs bus pageFailsafePwm 0 (List.ofFn pwm) s).1
  | .forceSafetyOff => (cubeioWriteReg bus pageSetup regForceSafetyOff forceSafetyMagic s).1
  | .forceSafetyOn => (cubeioWriteReg bus pageSetup regForceSafetyOn forceSafetyMagic s).1
  | .enableSbusOut =>
      let s := (cubeioWriteReg bus pageSetup regSbusRate s.dev.rate.sbusRateHz s).1
      (cubeioSetClearReg bus pageSetup regFeatures featuresSbus1Out 0 s).1
  | .setRates =>
      let s := (cubeioWriteReg bus pageSetup regAltrate s.dev.rate.freq s).1
      (cubeioWriteReg bus pageSetup regPwmRateMask s.dev.rate.chmask s).1
  | .setImuHeaterDuty =>
      (cubeioWriteReg bus pageSetup regHeaterDutyCycle s.dev.pwmOut.heaterDuty.toUInt16 s).1
  | .setDefaultRate => (cubeioWriteReg bus pageSetup regDefaultrate s.dev.rate.defaultFreq s).1
  | .brushedOn => (cubeioSetClearReg bus pageSetup regFeatures featuresBrushed 0 s).1
  | .oneshotOn => (cubeioSetClearReg bus pageSetup regFeatures featuresOneshot 0 s).1
  | .setSafetyMask => (cubeioWriteReg bus pageSetup regIgnoreSafety s.dev.pwmOut.safetyMask s).1

/-- `if (cubeio_pop_event(dev, event)) { ... }`. -/
def handleEvent (s : CubeioSystem) (event : CubeioEvent) : CubeioSystem :=
  match cubeioPopEvent s.dev event with
  | (dev, true) => onEvent plat bus { s with dev := dev } event
  | (dev, false) => { s with dev := dev }

/-- The order in which a pass asks for the events. -/
def eventOrder : List CubeioEvent :=
  [.setPwm, .setFailsafePwm, .forceSafetyOff, .forceSafetyOn, .enableSbusOut, .setRates,
    .setImuHeaterDuty, .setDefaultRate, .brushedOn, .oneshotOn, .setSafetyMask]

/-- The event handling of a pass. -/
def handleEvents (s : CubeioSystem) : CubeioSystem :=
  eventOrder.foldl (handleEvent plat bus) s

end Operation

/-- `cubeio_update_safety_options`. -/
def cubeioUpdateSafetyOptions (bus : CubeioBus) (s : CubeioSystem) : CubeioSystem :=
  let reg := armingSafetyDisableOff
  let mask := armingSafetyDisableOff ||| armingSafetyDisableOn
  (cubeioSetClearReg bus pageSetup regArming (reg &&& mask) (~~~reg &&& mask) s).1

section Routine

variable (p : CubeioPass)

/-- The RC input page read from its registers. -/
def rcInputOfRegs (regs : List UInt16) : CubeioRcInput :=
  ⟨fun i => regs.getD (2 + i) 0, regs.getD 18 0⟩

/-- The registers of the RC input page as the record has them; `count`, the flags and
`rc_protocol` are not kept. -/
def regsOfRcInput (page : CubeioRcInput) : List UInt16 :=
  ([0, 0] : List UInt16) ++ List.ofFn page.channel ++ [page.rssi]

/-- The status page read from its registers. -/
def statusOfRegs (regs : List UInt16) : CubeioStatus :=
  ⟨(regs.getD 10 0).toUInt8, (regs.getD 10 0 >>> 8).toUInt8⟩

/-- The registers of the status page as the record has them; the fields that are not
used are not kept. -/
def regsOfStatus (page : CubeioStatus) : List UInt16 :=
  List.replicate 10 (0 : UInt16) ++
    [page.flagSafetyOff.toUInt16 ||| page.safetyForcedOff.toUInt16 <<< 8] ++
    List.replicate 3 0

/-- The RC channels are read every 20 ms. -/
def readRc (s : CubeioSystem) : CubeioSystem :=
  if s.dev.sync.now - s.dev.sync.lastRcReadMs > 20 then
    let (s, _, regs) := cubeioReadRegs p.bus pageRawRcin 0 (regsOfRcInput s.dev.pageRcInput) s
    let page := rcInputOfRegs regs
    { s with dev := { s.dev with
        pageRcInput := page
        rc := fun i => cubeioScaleInput (page.channel i) (s.dev.rcRangeCfg i)
        sync := { s.dev.sync with lastRcReadMs := p.rcDone } } }
  else s

/-- The status is read every 50 ms. -/
def readStatus (s : CubeioSystem) : CubeioSystem :=
  if s.dev.sync.now - s.dev.sync.lastStatusReadMs > 50 then
    let (s, _, regs) := cubeioReadRegs p.bus pageStatus 0 (regsOfStatus s.dev.pageRegStatus) s
    { s with dev := { s.dev with
        pageRegStatus := statusOfRegs regs
        sync := { s.dev.sync with lastStatusReadMs := p.statusDone } } }
  else s

/-- The servo values are read every 50 ms. -/
def readServos (s : CubeioSystem) : CubeioSystem :=
  if s.dev.sync.now - s.dev.sync.lastServoReadMs > 50 then
    let count := s.dev.pwmOut.numChannels.toNat
    let (s, _, regs) := cubeioReadRegs p.bus pageServos 0 ((List.ofFn s.dev.pwmIn).take count) s
    { s with dev := { s.dev with
        pwmIn := fun i => regs.getD i (s.dev.pwmIn i)
        sync := { s.dev.sync with lastServoReadMs := p.servoDone } } }
  else s

/-- The safety options are updated every second. -/
def updateSafety (s : CubeioSystem) : CubeioSystem :=
  if s.dev.sync.now - s.dev.sync.lastSafetyMs > 1000 then
    let s := cubeioUpdateSafetyOptions p.bus s
    { s with dev := { s.dev with sync := { s.dev.sync with lastSafetyMs := p.safetyDone } } }
  else s

/-- What a pass does after the events. -/
def routine (s : CubeioSystem) : CubeioSystem :=
  let s := updateSafety p (readServos p (readStatus p (readRc p s)))
  (cubeioWriteRegs p.bus pageSetup regRcProtocols [1, 0] s).1

end Routine

/-! ## The passes -/

/-- The check of the protocol version in `case CUBEIO_RESET`. -/
def checkVersion (dev : Cubeio) : Cubeio :=
  if dev.config.protocolVersion ≠ protocolVersion ∨
      dev.config.protocolVersion2 ≠ protocolVersion2 then
    let dev := { dev with attempt := dev.attempt + 1 }
    if dev.attempt > 5 then { dev with state := .fail } else dev
  else dev

/-- `case CUBEIO_RESET` up to the check of the version, which resets `attempt`. -/
def readVersion (bus : CubeioBus) (s : CubeioSystem) : CubeioSystem :=
  let s := { s with dev := { s.dev with state := .conf } }
  let (s, _, regs) := cubeioReadRegs bus pageConfig 0
    [s.dev.config.protocolVersion, s.dev.config.protocolVersion2] s
  let dev := checkVersion { s.dev with config := ⟨regs.getD 0 0, regs.getD 1 0⟩ }
  { s with dev := { dev with attempt := 0 } }

/-- `case CUBEIO_RESET`. -/
def fsmReset (bus : CubeioBus) (s : CubeioSystem) : CubeioSystem :=
  -- set ARM
  match cubeioSetClearReg bus pageSetup regArming armingBits 0 (readVersion bus s) with
  | (s, rv) => if rv ≠ success then { s with dev := { s.dev with state := .fail } } else s

/-- `case CUBEIO_OPERATION`. -/
def fsmOperation (plat : CubeioPlatform) (p : CubeioPass) (s : CubeioSystem) : CubeioSystem :=
  let s := { s with dev := { s.dev with sync := { s.dev.sync with now := p.now } } }
  routine p (handleEvents plat p.bus s)

/-- One pass of `cubeio_fsm`. In FAIL the task deletes itself. -/
def cubeioFsm (plat : CubeioPlatform) (p : CubeioPass) (s : CubeioSystem) : CubeioSystem :=
  match s.dev.state with
  | .reset => fsmReset p.bus s
  | .conf => { s with dev := { s.dev with state := .operation } }
  | .operation => fsmOperation plat p s
  | .fail => s

/-- What happens to the driver: a call, or a pass of its task. -/
inductive CubeioAction where
  | call (c : CubeioCall)
  | pass (p : CubeioPass)

/-- A step of a run. -/
def cubeioStep (plat : CubeioPlatform) (s : CubeioSystem) : CubeioAction → Option CubeioSystem
  | .call c => some { s with dev := cubeioCall plat s.dev c }
  | .pass p => some (cubeioFsm plat p s)

/-- The driver as it is started. -/
def cubeioInit : CubeioSystem := ⟨cubeioStart, []⟩

end Catpilot
