import Catpilot.Posix.Errno
import Catpilot.Queue.Bounded

/-!
# The CAN interface

The receive side of `periph/can/stm32/can.c`: the table of open channels, the
dispatch of a received frame by `can_read_thread`, and the calls a task makes on a
channel. A channel has a queue of its own of `n` frames, where `n` is the
`queue_size` of the interface; `xQueueCreate` refuses a size of zero, so an
interface that was initialised has a positive one. A file refers to its channel by
the index in the table.
-/

namespace Catpilot

/-- `CAN_MAX_CHANNELS`. -/
def canMaxChannels : ℕ := 32

/-- `CAN_DEFAULT_TX_MSG_ID`. -/
def canDefaultTxMsgId : UInt32 := 0x00

/-- `CAN_DEFAULT_RX_FILTER_ID`. -/
def canDefaultRxFilterId : UInt32 := 0x1FFFFFFF

structure CanHeader where
  id : UInt32
  frameType : UInt32
  size : UInt32
  deriving DecidableEq, Repr

/-- A frame; `data` are its eight bytes. -/
structure CanFrame where
  header : CanHeader
  data : List UInt8
  deriving DecidableEq, Repr

/-- `can_channel_t`: an open channel with its filter and its receive queue. -/
structure CanChannel (n : ℕ) where
  id : UInt32
  idFilterLow : UInt32
  idFilterHigh : UInt32
  type : UInt32
  rxQueue : BoundedQueue CanFrame n

/-- `can_t`, as far as channels and received frames go. `nextId` is the static
counter of `can_open`. -/
structure Can (n : ℕ) where
  periphInit : Bool
  channel : List (Option (CanChannel n))
  nextId : UInt32
  queueSize_pos : 0 < n
  length_channel : channel.length = canMaxChannels

/-- An initialised interface without open channels. -/
def canInit {n : ℕ} (hn : 0 < n) : Can n where
  periphInit := true
  channel := List.replicate canMaxChannels none
  nextId := canDefaultTxMsgId
  queueSize_pos := hn
  length_channel := List.length_replicate

section Dispatch

variable {n : ℕ}

/-- `id_filter_low <= id && id_filter_high >= id`. -/
def CanChannel.accepts (ch : CanChannel n) (id : UInt32) : Bool :=
  ch.idFilterLow ≤ id && id ≤ ch.idFilterHigh

/-- The loop of `can_read_thread` over the channels, with the local `frame`. The loop
ends at the first empty slot. When a queue is full its oldest frame is received
into `frame` itself, which the later channels then see. -/
def dispatchLoop : CanFrame → List (Option (CanChannel n)) → List (Option (CanChannel n))
  | _, [] => []
  | _, none :: rest => none :: rest
  | frame, some ch :: rest =>
      if ch.accepts frame.header.id then
        match ch.rxQueue.send frame with
        | some q => some { ch with rxQueue := q } :: dispatchLoop frame rest
        | none =>
            match ch.rxQueue.receive with
            | some (old, q) => some { ch with rxQueue := q } :: dispatchLoop old rest
            -- a queue without slots: the receive waits for ever
            | none => some ch :: rest
      else some ch :: dispatchLoop frame rest

theorem length_dispatchLoop (frame : CanFrame) (channels : List (Option (CanChannel n))) :
    (dispatchLoop frame channels).length = channels.length := by
  induction channels generalizing frame with
  | nil => rfl
  | cons slot rest ih =>
      cases slot with
      | none => rfl
      | some ch =>
          unfold dispatchLoop
          split
          · split
            · rw [List.length_cons, List.length_cons, ih]
            · split
              · rw [List.length_cons, List.length_cons, ih]
              · rfl
          · rw [List.length_cons, List.length_cons, ih]

/-- One turn of `can_read_thread` with the frame it received. -/
def canReadThread (can : Can n) (frame : CanFrame) : Can n :=
  { can with
    channel := dispatchLoop frame can.channel
    length_channel := (length_dispatchLoop frame can.channel).trans can.length_channel }

end Dispatch

section Calls

variable {n : ℕ}

/-- Overwrite a slot of the table. -/
def Can.setChannel (can : Can n) (i : ℕ) (ch : CanChannel n) : Can n :=
  { can with
    channel := can.channel.set i (some ch)
    length_channel := by rw [List.length_set]; exact can.length_channel }

/-- `cfg->p.channel[i] != NULL`. The two words behind the table are the channel mutex
and the transmit queue, which are set in an initialised interface. -/
def Can.slotTaken (can : Can n) (i : ℕ) : Bool :=
  if i < canMaxChannels then (can.channel[i]?.join).isSome else true

/-- The search of `can_open` for a free slot, from slot `i` on. -/
def canOpenSlot (can : Can n) (i : ℕ) : ℕ :=
  if can.slotTaken i then
    if i > canMaxChannels then i else canOpenSlot can (i + 1)
  else i
termination_by canMaxChannels + 1 - i

/-- `can_open`, where the allocations succeed: the index of the new channel, or the
error. -/
def canOpen (can : Can n) : Can n × Except Errno ℕ :=
  if can.periphInit then
    let i := canOpenSlot can 0
    if i < canMaxChannels then
      let channel : CanChannel n :=
        { id := can.nextId
          idFilterLow := 0
          idFilterHigh := canDefaultRxFilterId
          type := 0
          rxQueue := BoundedQueue.empty CanFrame n }
      ({ can.setChannel i channel with nextId := can.nextId + 1 }, .ok i)
    else (can, .error .enomem)
  else (can, .error .eperm)

/-- The requests of `can_ioctl`. -/
inductive CanRequest where
  | setTxMsgId
  | setTxMsgType
  | setRxFilterId
  | setRxFilterIdLow
  | setRxFilterIdHigh
  deriving DecidableEq, Repr

/-- The request numbers of `can.h`; any other is refused with `ENOENT`. -/
def CanRequest.ofNat? : ℕ → Option CanRequest
  | 0x01 => some .setTxMsgId
  | 0x02 => some .setTxMsgType
  | 0x10 => some .setRxFilterId
  | 0x11 => some .setRxFilterIdLow
  | 0x12 => some .setRxFilterIdHigh
  | _ => none

def CanChannel.apply (ch : CanChannel n) (arg : UInt32) : CanRequest → CanChannel n
  | .setTxMsgId => { ch with id := arg }
  | .setTxMsgType => { ch with type := arg }
  | .setRxFilterId => { ch with idFilterLow := arg, idFilterHigh := arg }
  | .setRxFilterIdLow => { ch with idFilterLow := arg }
  | .setRxFilterIdHigh => { ch with idFilterHigh := arg }

/-- `can_ioctl` on the open channel `i`. -/
def canIoctl (can : Can n) (i request : ℕ) (arg : UInt32) : Can n × Except Errno Unit :=
  match can.channel[i]?.join with
  | none => (can, .error .ebadf)
  | some ch =>
      match CanRequest.ofNat? request with
      | none => (can, .error .enoent)
      | some r => (can.setChannel i (ch.apply arg r), .ok ())

/-- `sizeof(frame.header)`: three 32-bit words. -/
def sizeofCanHeader : ℕ := 12

/-- `can_read` on the open channel `i`: the returned value and the bytes copied to the
caller's buffer. The requested count is not looked at. `none` where the call waits:
the queue is empty. -/
def canRead (can : Can n) (i : ℕ) (_count : ℕ) : Option (Can n × ℕ × List UInt8) :=
  match can.channel[i]?.join with
  | none => none
  | some ch =>
      match ch.rxQueue.receive with
      | none => none
      | some (frame, q) =>
          some (can.setChannel i { ch with rxQueue := q },
            sizeofCanHeader + frame.header.size.toNat,
            frame.data.take frame.header.size.toNat)

end Calls

end Catpilot
