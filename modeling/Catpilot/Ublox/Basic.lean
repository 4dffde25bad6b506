import Catpilot.Checksum.Fletcher
import Catpilot.Memory.Copy
import Catpilot.Memory.Word
import Mathlib.Data.UInt

/-!
# UBX and RTCM framing

The exec function of `ublox/protocol/rx_framing`: it reads the serial device into
`rx_buf` and drives a state machine over the bytes until one frame is complete. What
a read returns is a list of bytes, and an exec call takes its reads from the front of
a list of them; where that list runs out the call stays blocked in its read.

The fields of the vector type are 32-bit, and so are the differences of them that
the source forms.
-/

namespace Catpilot

/-- A vector of bytes: the array, the number of bytes in it, and its capacity. -/
structure VectorU8 where
  vector : List UInt8
  currLen : ℕ
  maxLen : ℕ
  deriving DecidableEq, Repr

namespace VectorU8

/-- An empty vector, all zero, as states and outputs start. -/
def zeros (size : ℕ) : VectorU8 := ⟨List.replicate size 0, 0, size⟩

/-- The bytes in the vector. -/
def data (v : VectorU8) : List UInt8 := v.vector.take v.currLen

/-- `v.vector[v.curr_len++] = c`, for an index in the array. A store behind the array would
change other memory, of which nothing is said here: it is left out, and whether one is made
is told by `curr_len`. -/
def push (v : VectorU8) (c : UInt8) : VectorU8 :=
  { v with vector := v.vector.set v.currLen c, currLen := v.currLen + 1 }

/-- `curr_len = 0`. -/
def clear (v : VectorU8) : VectorU8 := { v with currLen := 0 }

/-- `memcpy(v.vector, src.vector, src.curr_len); v.curr_len = src.curr_len`. -/
def assign (v src : VectorU8) : VectorU8 :=
  { v with vector := Memory.memcpy v.vector 0 src.data, currLen := src.currLen }

/-- The byte at an index of the array. -/
def byte (v : VectorU8) (i : ℕ) : UInt8 := v.vector.getD i 0

end VectorU8

/-- The values of `rx_state`. -/
inductive RxState where
  | reset
  | waitStartSc
  | waitSc2
  | waitLength
  | waitRest
  | rtcmWaitLength
  | rtcmWaitRest
  deriving DecidableEq, Repr

/-- The kinds of frame, one for each output of the function. -/
inductive FrameKind where
  | ubx
  | rtcm
  deriving DecidableEq, Repr

/-- The part of the function's state that `ubx_process` works on besides the
receive buffer. -/
structure Framer where
  rxState : RxState
  ubxBuf : VectorU8
  rtcmBuf : VectorU8
  rxUnframedBytesCnt : UInt32
  ubxErrCrcCnt : UInt32
  ubxFrameCnt : UInt32
  rtcmErrCrcCnt : UInt32
  rtcmFrameCnt : UInt32
  deriving DecidableEq, Repr

/-- `sizeof(ubx_header_t)`. -/
def ubxHeaderSize : ℕ := 4

/-- `ubx_calc_crc`: the two sums of the first `n` bytes, the second one in the high
byte. -/
def ubxCalcCrc (buf : List UInt8) (n : ℕ) : UInt16 :=
  let ck := (buf.take n).foldl Checksum.fletcherStep (0, 0)
  ck.2.toUInt16 <<< 8 ||| ck.1.toUInt16

/-- The two bytes of a `uint16_t` in memory, on a little-endian machine. -/
def uint16Bytes (w : UInt16) : List UInt8 := [w.toUInt8, (w >>> 8).toUInt8]

/-- `ubx_hdr->len`, read from the header at the start of `ubx_buf`. -/
def VectorU8.ubxLen (buf : VectorU8) : ℕ := (buf.byte 2).toNat + 256 * (buf.byte 3).toNat

/-- `swap_bytes(rtcm_hdr->len)`, read from the header at the start of `rtcm_buf`. -/
def VectorU8.rtcmLen (buf : VectorU8) : ℕ := 256 * (buf.byte 1).toNat + (buf.byte 2).toNat

/-- The comparison of the checksum with the two bytes behind the payload. -/
def VectorU8.ubxCrcOk (buf : VectorU8) : Bool :=
  uint16Bytes (ubxCalcCrc buf.vector (buf.ubxLen + ubxHeaderSize)) =
    Memory.memread buf.vector (ubxHeaderSize + buf.ubxLen) 2

/-- `UBX_BUF_LEN_TO_PAYLOAD_SIZE`. -/
def ubxBufLenToPayloadSize (l : ℕ) : ℕ := Word.wrapSub 32 (Word.wrapSub 32 l ubxHeaderSize) 2

namespace Framer

/-- `case RESET`, which falls through to the next one. -/
def cleared (f : Framer) : Framer :=
  { f with rxState := .waitStartSc, ubxBuf := f.ubxBuf.clear, rtcmBuf := f.rtcmBuf.clear }

/-- `case UBX_RTCM_WAIT_START_SC`. -/
def waitStartSc (f : Framer) (c : UInt8) : Framer :=
  if c = 0xb5 then { f with rxState := .waitSc2 }
  else if c = 0xd3 then { f with rtcmBuf := f.rtcmBuf.push c, rxState := .rtcmWaitLength }
  else { f with rxUnframedBytesCnt := f.rxUnframedBytesCnt + 1 }

/-- `case UBX_WAIT_LENGTH`. -/
def waitLength (f : Framer) (c : UInt8) : Framer :=
  let f := { f with ubxBuf := f.ubxBuf.push c }
  if f.ubxBuf.currLen = 4 then
    if ubxBufLenToPayloadSize f.ubxBuf.maxLen < f.ubxBuf.ubxLen then { f with rxState := .reset }
    else { f with rxState := .waitRest }
  else f

/-- `case RTCM_WAIT_LENGTH`. -/
def rtcmWaitLength (f : Framer) (c : UInt8) : Framer :=
  let f := { f with rtcmBuf := f.rtcmBuf.push c }
  if f.rtcmBuf.currLen = 1 + 2 then
    if Word.wrapSub 32 f.rtcmBuf.maxLen 4 < f.rtcmBuf.rtcmLen then { f with rxState := .reset }
    else { f with rxState := .rtcmWaitRest }
  else f

/-- `case UBX_WAIT_REST`. -/
def waitRest (f : Framer) (c : UInt8) : Framer × Option FrameKind :=
  let f := { f with ubxBuf := f.ubxBuf.push c }
  if ubxBufLenToPayloadSize f.ubxBuf.currLen = f.ubxBuf.ubxLen then
    if f.ubxBuf.ubxCrcOk then
      ({ f with ubxFrameCnt := f.ubxFrameCnt + 1, rxState := .reset }, some .ubx)
    else ({ f with ubxErrCrcCnt := f.ubxErrCrcCnt + 1, rxState := .reset }, none)
  else (f, none)

/-- `case RTCM_WAIT_REST`. -/
def rtcmWaitRest (f : Framer) (c : UInt8) : Framer × Option FrameKind :=
  let f := { f with rtcmBuf := f.rtcmBuf.push c }
  if f.rtcmBuf.currLen = f.rtcmBuf.rtcmLen + 1 + 2 + 3 then
    ({ f with rtcmFrameCnt := f.rtcmFrameCnt + 1, rxState := .reset }, some .rtcm)
  else (f, none)

/-- The `switch` of `ubx_process` on the byte `c`. The second component is the frame
that this byte completes; its bytes are in the buffer of that kind. -/
def byteStep (f : Framer) (c : UInt8) : Framer × Option FrameKind :=
  match f.rxState with
  | .reset => (f.cleared.waitStartSc c, none)
  | .waitStartSc => (f.waitStartSc c, none)
  | .waitSc2 => ({ f with rxState := if c = 0x62 then .waitLength else .reset }, none)
  | .waitLength => (f.waitLength c, none)
  | .rtcmWaitLength => (f.rtcmWaitLength c, none)
  | .waitRest => f.waitRest c
  | .rtcmWaitRest => f.rtcmWaitRest c

end Framer

/-- The outputs of the function with their update flags. -/
structure FramingOutputs where
  ubxFrame : VectorU8
  rtcmFrame : VectorU8
  ubxFrameUpdated : Bool
  rtcmFrameUpdated : Bool
  deriving DecidableEq, Repr

namespace FramingOutputs

/-- The outputs of the given sizes before the first call. -/
def zeros (ubxFrameSize rtcmFrameSize : ℕ) : FramingOutputs :=
  ⟨.zeros ubxFrameSize, .zeros rtcmFrameSize, false, false⟩

/-- The caller clears the update flags between calls. -/
def clearFlags (o : FramingOutputs) : FramingOutputs :=
  { o with ubxFrameUpdated := false, rtcmFrameUpdated := false }

def updated (o : FramingOutputs) : Bool := o.ubxFrameUpdated || o.rtcmFrameUpdated

/-- A completed frame is copied to its output. -/
def put (o : FramingOutputs) (f : Framer) : Option FrameKind → FramingOutputs
  | none => o
  | some .ubx => { o with ubxFrame := o.ubxFrame.assign f.ubxBuf, ubxFrameUpdated := true }
  | some .rtcm => { o with rtcmFrame := o.rtcmFrame.assign f.rtcmBuf, rtcmFrameUpdated := true }

/-- The frames that the update flags announce. -/
def frames (o : FramingOutputs) : List (FrameKind × List UInt8) :=
  (if o.ubxFrameUpdated then [(.ubx, o.ubxFrame.data)] else []) ++
    (if o.rtcmFrameUpdated then [(.rtcm, o.rtcmFrame.data)] else [])

end FramingOutputs

/-- The state of the function. -/
structure RxFraming where
  rxBuf : VectorU8
  rxBufIndex : ℕ
  rxBytesCnt : UInt32
  framer : Framer
  deriving DecidableEq, Repr

namespace RxFraming

/-- The size of `rx_buf`. -/
def rxBufSize : ℕ := 256

/-- The state before the first call, for the sizes of the two frame buffers. -/
def zeros (ubxFrameSize rtcmFrameSize : ℕ) : RxFraming where
  rxBuf := .zeros rxBufSize
  rxBufIndex := 0
  rxBytesCnt := 0
  framer := ⟨.reset, .zeros ubxFrameSize, .zeros rtcmFrameSize, 0, 0, 0, 0, 0⟩

/-- One turn of the loop of `ubx_process`. -/
def processByte (s : RxFraming) (o : FramingOutputs) : RxFraming × FramingOutputs :=
  let r := s.framer.byteStep (s.rxBuf.byte s.rxBufIndex)
  ({ s with framer := r.1, rxBufIndex := s.rxBufIndex + 1 }, o.put r.1 r.2)

@[simp] theorem processByte_rxBuf (s : RxFraming) (o : FramingOutputs) :
    (s.processByte o).1.rxBuf = s.rxBuf := rfl

@[simp] theorem processByte_rxBufIndex (s : RxFraming) (o : FramingOutputs) :
    (s.processByte o).1.rxBufIndex = s.rxBufIndex + 1 := rfl

/-- `ubx_process`. -/
def ubxProcess (s : RxFraming) (o : FramingOutputs) : RxFraming × FramingOutputs :=
  let r := s.processByte o
  if _h : r.1.rxBufIndex < r.1.rxBuf.currLen ∧ r.1.framer.rxState ≠ .reset then
    ubxProcess r.1 r.2
  else r
termination_by s.rxBuf.currLen - s.rxBufIndex
decreasing_by
  have hlt : s.rxBufIndex + 1 < s.rxBuf.currLen := _h.1
  simp only [processByte_rxBuf, processByte_rxBufIndex]
  omega

/-- The loop neither reads nor goes back: it leaves the receive buffer as it is and
takes at least one byte. -/
theorem ubxProcess_rxBuf (s : RxFraming) (o : FramingOutputs) :
    (s.ubxProcess o).1.rxBuf = s.rxBuf ∧ s.rxBufIndex < (s.ubxProcess o).1.rxBufIndex := by
  induction s, o using ubxProcess.induct with
  | case1 s o r h ih =>
      rw [ubxProcess, dif_pos h]
      exact ⟨ih.1, Nat.lt_trans (Nat.lt_succ_self _) ih.2⟩
  | case2 s o r h =>
      rw [ubxProcess, dif_neg h]
      exact ⟨rfl, Nat.lt_succ_self _⟩

/-- `s->rx_bytes_cnt += br; s->rx_buf.curr_len = br; s->rx_buf_index = 0`, after a read
of the bytes `r` into `rx_buf`. -/
def received (s : RxFraming) (r : List UInt8) : RxFraming :=
  { s with
    rxBuf := { s.rxBuf with vector := Memory.memcpy s.rxBuf.vector 0 r, currLen := r.length }
    rxBufIndex := 0
    rxBytesCnt := s.rxBytesCnt + UInt32.ofNat r.length }

end RxFraming

/-- How an exec call ends: it returns, or it stays in a read for which there is no
data. -/
inductive ExecResult where
  | returned (s : RxFraming) (o : FramingOutputs) (reads : List (Option (List UInt8)))
  | blocked (s : RxFraming)
  deriving DecidableEq, Repr

/-- `ublox_protocol_rx_framing_exec`. An element of `reads` is what one call of `read`
gives: `none` is an error. -/
def ubloxProtocolRxFramingExec (s : RxFraming) (o : FramingOutputs)
    (reads : List (Option (List UInt8))) : ExecResult :=
  if s.rxBuf.currLen ≤ s.rxBufIndex then
    match reads with
    | [] => .blocked s
    | none :: reads => .returned s o reads
    | some r :: reads =>
        let p := (s.received r).ubxProcess o
        if p.2.updated then .returned p.1 p.2 reads
        else ubloxProtocolRxFramingExec p.1 p.2 reads
  else
    let p := s.ubxProcess o
    if p.2.updated then .returned p.1 p.2 reads
    else ubloxProtocolRxFramingExec p.1 p.2 reads
termination_by (reads.length, s.rxBuf.currLen - s.rxBufIndex)
decreasing_by
  · exact Prod.Lex.left _ _ (Nat.lt_succ_self _)
  · have h := RxFraming.ubxProcess_rxBuf s o
    rw [h.1]
    exact Prod.Lex.right _ (by omega)

/-- `k` successive calls, the update flags cleared before each: the outputs of those
that return, and the state at the end. -/
def execCalls : ℕ → RxFraming → FramingOutputs → List (Option (List UInt8)) →
    List FramingOutputs × RxFraming
  | 0, s, _, _ => ([], s)
  | k + 1, s, o, reads =>
      match ubloxProtocolRxFramingExec s o.clearFlags reads with
      | .blocked s => ([], s)
      | .returned s o reads =>
          let rest := execCalls k s o reads
          (o :: rest.1, rest.2)

end Catpilot
