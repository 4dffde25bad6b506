import Catpilot.Can.Basic
import Catpilot.Memory.Word
import Catpilot.Posix.Fcntl

/-!
# The ODrive atomic

`odrive_protocol_exec.c`. What the atomic asks of descriptors is recorded in order. `R` is
the type of its inputs and outputs, and `scaled` is the position times 1000 as a word.
-/

namespace Catpilot

/-- `odrive_state_t`. -/
inductive OdriveState where
  | init
  | conf
  | update
  | fail
  deriving DecidableEq, Repr

/-- A call on descriptors; an open comes with its result. -/
inductive OdriveEvent where
  | open (path : List UInt8) (flags : UInt32) (rv : ℤ)
  | close (fd : ℤ)
  | ioctl (fd : ℤ) (request : CanRequest) (arg : UInt32)
  | write (fd : ℤ) (buf : List UInt8)
  | read (fd : ℤ) (count : ℕ)
  deriving DecidableEq, Repr

/-- `odrive_protocol_params_t`. -/
structure OdriveParams where
  canIf : List UInt8
  axis : UInt32

/-- What a step gets from outside: the input, the results of the two opens, and of the read
of voltage and current its result and what it leaves in the buffer. -/
structure OdriveTick (R : Type*) where
  pos : R
  openMain : ℤ
  openTm : ℤ
  readTm : ℤ
  voltCur : R × R

/-- `odrive_protocol_state_t` and the outputs, with the calls made so far. -/
structure Odrive (R : Type*) where
  state : OdriveState
  mainCh : ℤ
  tmCh : ℤ
  vol : R
  cur : R
  events : List OdriveEvent

/-- `ODRIVE_GET_CMD_ID`. -/
def odriveGetCmdId (axis cmd : UInt32) : UInt32 := axis <<< 5 + cmd

/-- `ODRIVE_GET_VERSION`. -/
def odriveGetVersion : UInt32 := 0x000

/-- `ODRIVE_HEARTBEAT`. -/
def odriveHeartbeat : UInt32 := 0x001

/-- `ODRIVE_GET_BUS_VOLTAGE_CURRENT`. -/
def odriveGetBusVoltageCurrent : UInt32 := 0x017

/-- `ODRIVE_SET_ABSOLUTE_POSITION`. -/
def odriveSetAbsolutePosition : UInt32 := 0x019

namespace Odrive

/-- `odrive_read`, which writes nothing of its buffer. -/
def odriveRead (fd : ℤ) (id : UInt32) (count : ℕ) : List OdriveEvent :=
  [.ioctl fd .setTxMsgId (odriveGetCmdId 0 id), .ioctl fd .setTxMsgType 1, .write fd [],
    .read fd count]

/-- `odrive_write`. -/
def odriveWrite (fd : ℤ) (id : UInt32) (buf : List UInt8) : List OdriveEvent :=
  [.ioctl fd .setTxMsgId (odriveGetCmdId 0 id), .ioctl fd .setTxMsgType 0, .write fd buf]

/-- `/dev/%s/ch1` and `/dev/%s/ch2`, as `snprintf` puts them into an array of 32 bytes whose
size is given as one less. -/
def chPath (canIf : List UInt8) (ch : UInt8) : List UInt8 :=
  ([0x2F, 0x64, 0x65, 0x76, 0x2F] ++ canIf ++ [0x2F, 0x63, 0x68, ch]).take (32 - 1 - 1)

section Fsm

variable {R : Type*} (scaled : R → UInt32) (p : OdriveParams)

/-- The calls that a step makes are recorded. -/
def did (s : Odrive R) (events : List OdriveEvent) : Odrive R :=
  { s with events := s.events ++ events }

/-- The `ODRIVE_INIT` case: after a failure it goes on as if both channels were open. -/
def odriveInit (s : Odrive R) (tick : OdriveTick R) : Odrive R :=
  let s := s.did [.open (chPath p.canIf 0x31) oRdwr tick.openMain,
    .open (chPath p.canIf 0x32) oRdwr tick.openTm]
  let s := { s with mainCh := tick.openMain, tmCh := tick.openTm }
  let s := if s.mainCh < 0 then { s with state := .fail } else s
  let s := if s.tmCh < 0 then { s.did [.close s.mainCh] with state := .fail } else s
  let s := s.did
    [.ioctl s.mainCh .setRxFilterIdLow (odriveGetCmdId p.axis odriveGetVersion),
      .ioctl s.mainCh .setRxFilterIdHigh (odriveGetCmdId p.axis odriveHeartbeat),
      .ioctl s.tmCh .setRxFilterIdLow (odriveGetCmdId p.axis odriveGetBusVoltageCurrent),
      .ioctl s.tmCh .setRxFilterIdHigh (odriveGetCmdId p.axis odriveGetBusVoltageCurrent)]
  let s := s.did (odriveRead s.mainCh (odriveGetCmdId p.axis odriveGetVersion) 8)
  { s with state := .conf }

/-- The `ODRIVE_UPDATE` case, but for the pin that it toggles. -/
def odriveUpdate (s : Odrive R) (tick : OdriveTick R) : Odrive R :=
  let s := s.did [.read s.mainCh 8]
  let s := s.did (odriveWrite s.mainCh (odriveGetCmdId p.axis odriveSetAbsolutePosition)
    (Word.bytes 4 (scaled tick.pos).toNat))
  let s := s.did (odriveRead s.tmCh (odriveGetCmdId p.axis odriveGetBusVoltageCurrent) 8)
  if tick.readTm > 0 then { s with vol := tick.voltCur.1, cur := tick.voltCur.2 } else s

/-- `odrive_protocol_fsm`. -/
def odriveProtocolFsm (s : Odrive R) (tick : OdriveTick R) : Odrive R :=
  match s.state with
  | .init => odriveInit p s tick
  | .conf => { s with state := .update }
  | .update => odriveUpdate scaled p s tick
  | .fail => s

end Fsm

end Odrive

end Catpilot
