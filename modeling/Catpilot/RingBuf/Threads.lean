import Catpilot.RingBuf.Fifo
import Mathlib.Logic.Function.Basic

/-!
# Threads on one ring buffer

Writers `ι` and readers `κ` in `ring_buf_write`, `ring_buf_read` and
`ring_buf_read_timeout`, one step of one thread at a time. A step is one section
under `rw_mutex`, one take or give of `cont_mutex`, or one take of a binary
semaphore that succeeds; a thread that would block has no step. The bytes of
every section are recorded: `stream` lists the bytes put into the buffer, each
with the number of its write call, and `delivered` the bytes fetched, each with its
reader.
-/

namespace Catpilot

open Memory Word Transition

/-- Where a thread is in `ring_buf_write`, with the number of the call and the bytes
it has left. -/
inductive WritePc where
  | idle
  /-- Before `xSemaphoreTake(cont_mutex)`. -/
  | enter (call : ℕ) (buf : List UInt8)
  /-- Before the loop condition and the sample of the free size. -/
  | sample (call : ℕ) (buf : List UInt8)
  /-- The free size was zero: before `xSemaphoreTake(r_sem)`. -/
  | takeRSem (call : ℕ) (buf : List UInt8)
  /-- Before the section that puts `tLength` bytes. -/
  | put (call : ℕ) (buf : List UInt8) (tLength : ℕ)
  deriving DecidableEq, Repr

/-- Where a thread is in one of the two reads. -/
inductive ReadPc where
  | idle
  /-- Before the sample of the data size. -/
  | sample (length timeout : ℕ)
  /-- The data size was zero: before `xSemaphoreTake(w_sem, timeout)`. -/
  | takeWSem (length timeout : ℕ)
  /-- Before the section that fetches, with the sampled data size. -/
  | fetch (length dataSize : ℕ)
  deriving DecidableEq, Repr

/-- The write call a thread is in, and the bytes it has left. -/
def WritePc.call? : WritePc → Option (ℕ × List UInt8)
  | .idle => none
  | .enter call buf => some (call, buf)
  | .sample call buf => some (call, buf)
  | .takeRSem call buf => some (call, buf)
  | .put call buf _ => some (call, buf)

/-- The thread is between the take and the give of `cont_mutex`. -/
def WritePc.inside : WritePc → Bool
  | .idle => false
  | .enter _ _ => false
  | .sample _ _ => true
  | .takeRSem _ _ => true
  | .put _ _ _ => true

structure Threads (ι κ : Type*) where
  rb : RingBuf
  contMutex : Option ι
  writer : ι → WritePc
  reader : κ → ReadPc
  /-- The buffers of the write calls begun so far. -/
  calls : List (List UInt8)
  stream : List (ℕ × UInt8)
  delivered : List (κ × UInt8)

def Threads.start (ι κ : Type*) (rb : RingBuf) : Threads ι κ where
  rb := rb
  contMutex := none
  writer := fun _ => .idle
  reader := fun _ => .idle
  calls := []
  stream := []
  delivered := []

/-- What one thread does next. -/
inductive ThreadAction (ι κ : Type*) where
  | callWrite (i : ι) (buf : List UInt8)
  | stepWrite (i : ι)
  | callRead (j : κ) (length : ℕ)
  | callReadTimeout (j : κ) (length timeout : ℕ)
  | stepRead (j : κ)
  /-- The time-out of a waiting `ring_buf_read_timeout` passes. -/
  | expire (j : κ)

section Steps

variable {ι κ : Type*} [DecidableEq ι] [DecidableEq κ]

def Threads.setWriter (s : Threads ι κ) (i : ι) (pc : WritePc) : Threads ι κ :=
  { s with writer := Function.update s.writer i pc }

def Threads.setReader (s : Threads ι κ) (j : κ) (pc : ReadPc) : Threads ι κ :=
  { s with reader := Function.update s.reader j pc }

/-- The next step of writer `i`. -/
def writeStep (s : Threads ι κ) (i : ι) : Option (Threads ι κ) :=
  match s.writer i with
  | .idle => none
  | .enter call buf =>
      match s.contMutex with
      | some _ => none
      | none => some ({ s with contMutex := some i }.setWriter i (.sample call buf))
  | .sample call buf =>
      if buf.length = 0 then some ({ s with contMutex := none }.setWriter i .idle)
      else if ringBufGetFreeSize s.rb = 0 then some (s.setWriter i (.takeRSem call buf))
      else some (s.setWriter i (.put call buf (min (ringBufGetFreeSize s.rb) buf.length)))
  | .takeRSem call buf =>
      if s.rb.rSem then
        some ({ s with rb := { s.rb with rSem := false } }.setWriter i (.sample call buf))
      else none
  | .put call buf tLength =>
      some ({ s with
        rb := writeSection s.rb buf tLength
        stream := s.stream ++ (buf.take tLength).map (Prod.mk call)
      }.setWriter i (.sample call (buf.drop tLength)))

/-- The next step of reader `j`. -/
def readStep (s : Threads ι κ) (j : κ) : Option (Threads ι κ) :=
  match s.reader j with
  | .idle => none
  | .sample length timeout =>
      if ringBufGetDataSize s.rb < 1 then some (s.setReader j (.takeWSem length timeout))
      else some (s.setReader j (.fetch length (ringBufGetDataSize s.rb)))
  | .takeWSem length timeout =>
      if s.rb.wSem then
        some ({ s with rb := { s.rb with wSem := false } }.setReader j (.sample length timeout))
      else none
  | .fetch length dataSize =>
      some ({ s with
        rb := (readSection s.rb (min length dataSize)).1
        delivered := s.delivered ++
          (readSection s.rb (min length dataSize)).2.map (Prod.mk j)
      }.setReader j .idle)

def threadStep (s : Threads ι κ) : ThreadAction ι κ → Option (Threads ι κ)
  | .callWrite i buf =>
      if s.writer i = .idle then
        some ({ s with calls := s.calls ++ [buf] }.setWriter i (.enter s.calls.length buf))
      else none
  | .stepWrite i => writeStep s i
  | .callRead j length =>
      if s.reader j = .idle then some (s.setReader j (.sample length portMaxDelay)) else none
  | .callReadTimeout j length timeout =>
      if s.reader j = .idle then
        some (s.setReader j (.sample length (if timeout = 0 then portMaxDelay else timeout)))
      else none
  | .stepRead j => readStep s j
  | .expire j =>
      match s.reader j with
      | .takeWSem _ timeout =>
          if s.rb.wSem = false ∧ timeout ≠ portMaxDelay then some (s.setReader j .idle)
          else none
      | _ => none

end Steps

/-- The bytes of call `call` stand together in the stream, and are `bytes`. -/
def Block (stream : List (ℕ × UInt8)) (call : ℕ) (bytes : List UInt8) : Prop :=
  ∃ before after, stream = before ++ bytes.map (Prod.mk call) ++ after ∧
    (∀ x ∈ before, x.1 ≠ call) ∧ ∀ x ∈ after, x.1 ≠ call

/-- Reader `j` waits for `w_sem`. -/
def Threads.ReaderBlocked {ι κ : Type*} (s : Threads ι κ) (j : κ) : Prop :=
  (∃ length timeout, s.reader j = .takeWSem length timeout) ∧ s.rb.wSem = false

/-- Writer `i` waits for `r_sem`. -/
def Threads.WriterBlocked {ι κ : Type*} (s : Threads ι κ) (i : ι) : Prop :=
  (∃ call buf, s.writer i = .takeRSem call buf) ∧ s.rb.rSem = false

end Catpilot
