import Catpilot.Memory.Copy
import Catpilot.Memory.Word

/-!
# The ring buffer

The fields, sections and calls of `services/misc/ring_buf.c`. The pointers are
kept as distances from `start_ptr`, and `uint16_t` values as numbers that are
wrapped where the code stores them. `r_sem` and `w_sem` are binary semaphores, so
each is a boolean; `cont_mutex` and `rw_mutex` only matter between threads and are
left to `RingBuf/Threads.lean`.

The code of a call between two semaphore operations is a definition of its own:
`ringBufGetDataSize` and `ringBufGetFreeSize` (the samples), `writeSection` and
`readSection` (the bodies under `rw_mutex`).
-/

namespace Catpilot

open Memory Word

/-- `RINGBUFFER_MAX_SIZE`. -/
def ringbufferMaxSize : ℕ := 2048

/-- `portMAX_DELAY` for 32-bit ticks: wait without a limit. -/
def portMaxDelay : ℕ := 0xFFFFFFFF

/-- `ring_buf_t`, without its two mutexes. -/
structure RingBuf where
  mem : List UInt8
  writePtr : ℕ
  readPtr : ℕ
  size : ℕ
  count : ℕ
  rSem : Bool
  wSem : Bool
  deriving DecidableEq, Repr

/-- `ring_buf_init`, where the allocations succeed. -/
def ringBufInit (size : ℕ) : Option RingBuf :=
  if size > ringbufferMaxSize then none
  else some
    { mem := List.replicate size 0
      writePtr := 0
      readPtr := 0
      size := size
      count := 0
      rSem := false
      wSem := false }

def ringBufGetDataSize (rb : RingBuf) : ℕ := rb.count

def ringBufGetFreeSize (rb : RingBuf) : ℕ := wrapSub 16 rb.size rb.count

/-- The body of `ring_buf_write` under `rw_mutex`: put the first `tLength` bytes of
`buf` at the write pointer, in one piece or in two, and give `w_sem`. -/
def writeSection (rb : RingBuf) (buf : List UInt8) (tLength : ℕ) : RingBuf :=
  let sizeToEndOfBuf := wrapSub 16 rb.size rb.writePtr
  let lengthMin := min tLength sizeToEndOfBuf
  let rb := { rb with
    mem := memcpy rb.mem rb.writePtr (buf.take lengthMin)
    writePtr := rb.writePtr + lengthMin }
  let rb :=
    if tLength > lengthMin then
      { rb with
        mem := memcpy rb.mem 0 ((buf.drop lengthMin).take (tLength - lengthMin))
        writePtr := tLength - lengthMin }
    else rb
  { rb with count := wrap 16 (rb.count + tLength), wSem := true }

/-- The body of the two reads under `rw_mutex`, once `length` has been cut to the
data size: fetch the bytes in one piece or in two, and give `r_sem` if there are
any. -/
def readSection (rb : RingBuf) (length : ℕ) : RingBuf × List UInt8 :=
  let sizeToEndOfBuf := wrapSub 16 rb.size rb.readPtr
  let lengthMin := min length sizeToEndOfBuf
  let first := memread rb.mem rb.readPtr lengthMin
  let rb := { rb with readPtr := rb.readPtr + lengthMin }
  let (rb, buf) :=
    if length > lengthMin then
      ({ rb with readPtr := length - lengthMin },
        first ++ memread rb.mem 0 (length - lengthMin))
    else (rb, first)
  ({ rb with
      count := wrapSub 16 rb.count length
      rSem := if length > 0 then true else rb.rSem }, buf)

/-- One pass of the loop of `ring_buf_write` with `counter` bytes of `buf` left:
the new buffer and the bytes still left. `none` when there is no free space, where
the call waits for a reader. -/
def ringBufWriteChunk (rb : RingBuf) (buf : List UInt8) :
    Option (RingBuf × List UInt8) :=
  let counter := buf.length
  if ringBufGetFreeSize rb = 0 then none
  else
    let tLength := min (ringBufGetFreeSize rb) counter
    some (writeSection rb buf tLength, buf.drop tLength)

/-- How the waiting loop of a read ends. -/
inductive Wait where
  /-- There is data. -/
  | ready (rb : RingBuf)
  /-- The time-out passed without data. -/
  | expired (rb : RingBuf)
  /-- The wait has no limit and nothing arrives. -/
  | blocked
  deriving DecidableEq, Repr

/-- `while ((data_size = ring_buf_get_data_size()) < 1)` of the two reads, for a
reader that runs alone: it takes `w_sem` and samples again as long as there is a
give to take. -/
def ringBufAwaitData (rb : RingBuf) (timeout : ℕ) : Wait :=
  if ringBufGetDataSize rb < 1 then
    match _ : rb.wSem with
    | true => ringBufAwaitData { rb with wSem := false } timeout
    | false => if timeout = portMaxDelay then .blocked else .expired rb
  else .ready rb
termination_by rb.wSem.toNat
decreasing_by simp [*]

/-- `ring_buf_read_timeout`, run alone: the new buffer, the returned value and the
bytes put into `buf`. `none` when the call never returns. -/
def ringBufReadTimeout (rb : RingBuf) (length timeout : ℕ) :
    Option (RingBuf × ℤ × List UInt8) :=
  let timeout := if timeout = 0 then portMaxDelay else timeout
  match ringBufAwaitData rb timeout with
  | .blocked => none
  | .expired rb => some (rb, -1, [])
  | .ready rb =>
      let length := min length (ringBufGetDataSize rb)
      let (rb, buf) := readSection rb length
      some (rb, length, buf)

/-- `ring_buf_read`, run alone; it waits without a limit. -/
def ringBufRead (rb : RingBuf) (length : ℕ) : Option (RingBuf × ℤ × List UInt8) :=
  match ringBufAwaitData rb portMaxDelay with
  | .blocked => none
  | .expired rb => some (rb, -1, [])
  | .ready rb =>
      let length := min length (ringBufGetDataSize rb)
      let (rb, buf) := readSection rb length
      some (rb, length, buf)

end Catpilot
