import Catpilot.Hal.Status
import Catpilot.Serial.ReadWrite

/-!
# The tasks of a USART

`usart_read_task` receives into `dma_rx_buf` and puts `rx_count` bytes of it into the ring
buffer of the reads; `usart_write_task` takes bytes from the ring buffer of the writes and
transmits them. Here a call of `usart_receive` or `usart_transmit` is one step with its
outcome, and the tasks take turns with the calls of others at the sections of the ring
buffers.
-/

namespace Catpilot

open Transition Word

/-! ## Outcomes -/

/-- How a call of `usart_receive` ends behind its check of the arguments: the mutex is
taken, or the call has run, with its result, the buffer and `rx_count` that it leaves. -/
inductive ReceiveOutcome where
  | busy
  | ran (rv : ℕ) (buf : List UInt8) (count : ℕ)
  deriving DecidableEq, Repr

/-- How a call of `usart_transmit` ends behind its check of the arguments. -/
inductive TransmitOutcome where
  | busy
  | ran (rv : ℕ)
  deriving DecidableEq, Repr

/-- `usart_receive`: the result, the buffer and `rx_count`. -/
def usartReceive (length : ℕ) (o : ReceiveOutcome) (buf : List UInt8) (rxCount : ℕ) :
    ℕ × List UInt8 × ℕ :=
  if length = 0 then (rvEinval, buf, rxCount)
  else
    match o with
    | .busy => (rvEbusy, buf, rxCount)
    | .ran rv buf rxCount => (rv, buf, rxCount)

/-- `usart_transmit`: the result. -/
def usartTransmit (length : ℕ) (o : TransmitOutcome) : ℕ :=
  if length = 0 then rvEinval
  else
    match o with
    | .busy => rvEbusy
    | .ran rv => rv

/-- The bytes that the call has received. -/
def ReceiveOutcome.bytes (length : ℕ) : ReceiveOutcome → List UInt8
  | .busy => []
  | .ran _ buf count => if length = 0 then [] else buf.take count

/-- A buffer of the size of the task's, and a count that fits the length asked for. -/
def ReceiveOutcome.Fits (bufSize length : ℕ) : ReceiveOutcome → Prop
  | .busy => True
  | .ran _ buf count => buf.length = bufSize ∧ count ≤ length

instance (bufSize length : ℕ) (o : ReceiveOutcome) : Decidable (o.Fits bufSize length) :=
  match o with
  | .busy => isTrue trivial
  | .ran _ _ _ => inferInstanceAs (Decidable (_ ∧ _))

/-! ## The tasks -/

/-- Where `usart_read_task` stands: in `usart_receive`, behind it (with the bytes that were
received), or in `ring_buf_write`. -/
inductive ReadTaskPc where
  | receiving
  | received (bytes : List UInt8)
  | putting (rest : List UInt8)
  deriving DecidableEq, Repr

/-- Where `usart_write_task` stands: in `ring_buf_read`, or in `usart_transmit`. -/
inductive WriteTaskPc where
  | fetching
  | transmitting (buf : List UInt8)
  deriving DecidableEq, Repr

/-- A port with its tasks. The lists record the bytes that `usart_receive` has received for
the task, that were put into the ring buffer of the reads and taken from it, that
`usart_write` has put into the one of the writes, that were fetched from there, and that
were transmitted with success. -/
structure PumpState where
  dmaRxBuf : List UInt8
  rxCount : ℕ
  port : PortBufs
  readTask : ReadTaskPc
  writeTask : WriteTaskPc
  received : List UInt8
  put : List UInt8
  taken : List UInt8
  accepted : List UInt8
  fetched : List UInt8
  sent : List UInt8
  deriving DecidableEq, Repr

/-- The tasks before their first step. -/
def PumpState.start (bufSize : ℕ) (readBuf writeBuf : RingBuf) : PumpState where
  dmaRxBuf := List.replicate bufSize 0
  rxCount := 0
  port := ⟨readBuf, writeBuf, false⟩
  readTask := .receiving
  writeTask := .fetching
  received := []
  put := []
  taken := []
  accepted := []
  fetched := []
  sent := []

/-- What happens on the port: the read task returns from `usart_receive`, looks at
`rx_count`, or goes on in `ring_buf_write`; the write task returns from `ring_buf_read` or
from `usart_transmit`; a call of `usart_receive` of others sets `rx_count`; a section of
`usart_write` or of `usart_read`. -/
inductive PumpEvent where
  | receive (o : ReceiveOutcome)
  | load
  | put
  | fetch
  | transmit (o : TransmitOutcome)
  | otherReceive (count : ℕ)
  | write (buf : List UInt8)
  | read (count : ℕ)
  deriving DecidableEq, Repr

/-- A step of the port; `buf_size` is an `int`, and a length is a `uint16_t`. -/
def pumpStep (bufSize : ℕ) (s : PumpState) : PumpEvent → Option PumpState
  | .receive o =>
      if s.readTask = .receiving ∧ o.Fits bufSize (wrap 16 bufSize) then
        let (rv, buf, rxCount) := usartReceive (wrap 16 bufSize) o s.dmaRxBuf s.rxCount
        let bytes := o.bytes (wrap 16 bufSize)
        some
          { s with
            dmaRxBuf := buf
            rxCount := rxCount
            port := { s.port with error := rv ≠ 0 }
            readTask := .received bytes
            received := s.received ++ bytes }
      else none
  | .load =>
      match s.readTask with
      | .received _ =>
          let length := wrap 16 (min s.rxCount bufSize)
          some { s with readTask := .putting (s.dmaRxBuf.take length) }
      | _ => none
  | .put =>
      match s.readTask with
      | .putting [] => some { s with readTask := .receiving }
      | .putting (b :: rest) =>
          (ringBufWriteChunk s.port.readBuf (b :: rest)).map fun (rb, left) =>
            { s with
              port := { s.port with readBuf := rb }
              readTask := .putting left
              put := s.put ++ (b :: rest).take ((b :: rest).length - left.length) }
      | _ => none
  | .fetch =>
      if s.writeTask = .fetching ∧ 1 ≤ ringBufGetDataSize s.port.writeBuf then
        let length := min (wrap 16 bufSize) (ringBufGetDataSize s.port.writeBuf)
        let (rb, buf) := readSection s.port.writeBuf length
        some
          { s with
            port := { s.port with writeBuf := rb }
            writeTask := .transmitting buf
            fetched := s.fetched ++ buf }
      else none
  | .transmit o =>
      match s.writeTask with
      | .transmitting buf =>
          let rv := usartTransmit buf.length o
          some
            { s with
              port := { s.port with error := rv ≠ 0 }
              writeTask := .fetching
              sent := if rv = 0 then s.sent ++ buf else s.sent }
      | _ => none
  | .otherReceive count => some { s with rxCount := count }
  | .write buf =>
      (ringBufWriteChunk s.port.writeBuf buf).map fun (rb, left) =>
        { s with
          port := { s.port with writeBuf := rb }
          accepted := s.accepted ++ buf.take (buf.length - left.length) }
  | .read count =>
      if 1 ≤ ringBufGetDataSize s.port.readBuf then
        let (rb, buf) :=
          readSection s.port.readBuf (min count (ringBufGetDataSize s.port.readBuf))
        some { s with port := { s.port with readBuf := rb }, taken := s.taken ++ buf }
      else none

/-! ## What is to hold -/

/-- The bytes on their way into the ring buffer of the reads. -/
def ReadTaskPc.bytes : ReadTaskPc → List UInt8
  | .receiving => []
  | .received bytes => bytes
  | .putting rest => rest

/-- The bytes in transmission. -/
def WriteTaskPc.bytes : WriteTaskPc → List UInt8
  | .fetching => []
  | .transmitting buf => buf

/-- The bytes put into the ring buffer of the reads are those received, each once and in
order, up to those that the read task still has to put. The bytes transmitted with success
are those accepted by `usart_write`, up to those in transmission and in the ring buffer. -/
def Intact (s : PumpState) : Prop :=
  s.received = s.put ++ s.readTask.bytes ∧
    s.accepted = s.sent ++ s.writeTask.bytes ++ contents s.port.writeBuf

/-- A step that leaves the bytes intact. -/
def KeepsIntact (bufSize : ℕ) (s : PumpState) (e : PumpEvent) : Prop :=
  ∀ s', pumpStep bufSize s e = some s' → Intact s'

/-- Where the read task looks at `rx_count`, the number of bytes that it takes is the one that
it has received itself just before (zero when it has received nothing); and a transmission
of bytes succeeds. -/
def PumpOk (bufSize : ℕ) (s : PumpState) : PumpEvent → Prop
  | .load =>
      match s.readTask with
      | .received bytes => wrap 16 (min s.rxCount bufSize) = bytes.length
      | _ => True
  | .transmit o =>
      match s.writeTask with
      | .transmitting buf => buf ≠ [] → usartTransmit buf.length o = 0
      | _ => True
  | _ => True

/-! ## Steps -/

section Steps

variable {bufSize : ℕ} {s s' : PumpState} {e : PumpEvent}

/-- The ring buffers hold what was put and not taken yet, nothing is lost between the tasks
and the ring buffers, and the buffer begins with what the read task has received. -/
structure PumpInv (bufSize : ℕ) (s : PumpState) : Prop where
  readHolds : Holds s.port.readBuf s.put s.taken
  writeHolds : Holds s.port.writeBuf s.accepted s.fetched
  received : s.received = s.put ++ s.readTask.bytes
  fetched : s.fetched = s.sent ++ s.writeTask.bytes
  length_dmaRxBuf : s.dmaRxBuf.length = bufSize
  loaded : ∀ bytes, s.readTask = .received bytes →
    s.dmaRxBuf.take bytes.length = bytes ∧ bytes.length ≤ bufSize

theorem PumpInv.accepted_eq (h : PumpInv bufSize s) :
    s.accepted = s.fetched ++ contents s.port.writeBuf := by
  rw [h.writeHolds.contents_eq]
  obtain ⟨rest, hrest⟩ := h.writeHolds.delivered_prefix
  rw [← hrest, List.drop_left]

theorem PumpInv.intact (h : PumpInv bufSize s) : Intact s := by
  refine ⟨h.received, ?_⟩
  rw [← h.fetched]
  exact h.accepted_eq

/-- What a reception that fits leaves. -/
theorem ReceiveOutcome.Fits.bytes {length : ℕ} {o : ReceiveOutcome} {buf : List UInt8}
    (ho : o.Fits bufSize length) (hlength : length ≤ bufSize) (hbuf : buf.length = bufSize)
    (rxCount : ℕ) :
    (usartReceive length o buf rxCount).2.1.length = bufSize ∧
      (usartReceive length o buf rxCount).2.1.take (o.bytes length).length = o.bytes length ∧
      (o.bytes length).length ≤ bufSize := by
  cases o with
  | busy =>
      have hnone : ReceiveOutcome.busy.bytes length = [] := rfl
      rw [usartReceive, hnone]
      split_ifs
      all_goals exact ⟨hbuf, List.take_zero, Nat.zero_le _⟩
  | ran rv rxBuf count =>
      obtain ⟨hrx, hcount⟩ := ho
      rw [usartReceive, ReceiveOutcome.bytes]
      split_ifs
      · exact ⟨hbuf, List.take_zero, Nat.zero_le _⟩
      · have hlen : (rxBuf.take count).length = count := by
          rw [List.length_take]
          omega
        rw [hlen]
        exact ⟨hrx, rfl, by omega⟩

theorem PumpInv.receive {o : ReceiveOutcome} (h : PumpInv bufSize s)
    (hs : pumpStep bufSize s (.receive o) = some s') : PumpInv bufSize s' := by
  rw [pumpStep] at hs
  split_ifs at hs with hcond
  cases hs
  obtain ⟨htask, ho⟩ := hcond
  obtain ⟨hlen, htake, hle⟩ :=
    ho.bytes (Nat.mod_le _ _) h.length_dmaRxBuf s.rxCount
  refine ⟨h.readHolds, h.writeHolds, ?_, h.fetched, hlen, ?_⟩
  · have hreceived := h.received
    rw [htask] at hreceived
    simp only [hreceived, ReadTaskPc.bytes, List.append_nil]
  · intro bytes hbytes
    cases hbytes
    exact ⟨htake, hle⟩

theorem PumpInv.load (h : PumpInv bufSize s) (hok : PumpOk bufSize s .load)
    (hs : pumpStep bufSize s .load = some s') : PumpInv bufSize s' := by
  cases htask : s.readTask with
  | received bytes =>
      simp only [pumpStep, htask, Option.some.injEq] at hs
      subst hs
      simp only [PumpOk, htask] at hok
      have hreceived := h.received
      rw [htask] at hreceived
      refine ⟨h.readHolds, h.writeHolds, ?_, h.fetched, h.length_dmaRxBuf, fun _ hfalse => ?_⟩
      · simp only [hreceived, ReadTaskPc.bytes, hok, (h.loaded bytes htask).1]
      · cases hfalse
  | receiving => simp only [pumpStep, htask, reduceCtorEq] at hs
  | putting rest => simp only [pumpStep, htask, reduceCtorEq] at hs

theorem PumpInv.put (h : PumpInv bufSize s) (hs : pumpStep bufSize s .put = some s') :
    PumpInv bufSize s' := by
  have hreceived := h.received
  cases htask : s.readTask with
  | receiving => simp only [pumpStep, htask, reduceCtorEq] at hs
  | received bytes => simp only [pumpStep, htask, reduceCtorEq] at hs
  | putting rest =>
      rw [htask] at hreceived
      cases rest with
      | nil =>
          simp only [pumpStep, htask, Option.some.injEq] at hs
          subst hs
          exact ⟨h.readHolds, h.writeHolds, hreceived, h.fetched, h.length_dmaRxBuf,
            fun _ hfalse => by cases hfalse⟩
      | cons b rest =>
          simp only [pumpStep, htask] at hs
          obtain ⟨⟨rb, left⟩, hchunk, rfl⟩ := Option.map_eq_some_iff.1 hs
          obtain ⟨hholds, hsplit⟩ := h.readHolds.after_chunk hchunk
          refine ⟨hholds, h.writeHolds, ?_, h.fetched, h.length_dmaRxBuf,
            fun _ hfalse => by cases hfalse⟩
          dsimp only [ReadTaskPc.bytes] at hreceived ⊢
          rw [List.append_assoc, hsplit]
          exact hreceived

theorem PumpInv.fetch (h : PumpInv bufSize s) (hs : pumpStep bufSize s .fetch = some s') :
    PumpInv bufSize s' := by
  rw [pumpStep] at hs
  split_ifs at hs with hcond
  cases hs
  have hfetched := h.fetched
  rw [hcond.1] at hfetched
  refine ⟨h.readHolds, h.writeHolds.after_read (Nat.min_le_right _ _), h.received, ?_,
    h.length_dmaRxBuf, h.loaded⟩
  simp only [hfetched, WriteTaskPc.bytes, List.append_nil]

theorem PumpInv.transmit {o : TransmitOutcome} (h : PumpInv bufSize s)
    (hok : PumpOk bufSize s (.transmit o)) (hs : pumpStep bufSize s (.transmit o) = some s') :
    PumpInv bufSize s' := by
  cases htask : s.writeTask with
  | fetching => simp only [pumpStep, htask, reduceCtorEq] at hs
  | transmitting buf =>
      simp only [pumpStep, htask, Option.some.injEq] at hs
      subst hs
      simp only [PumpOk, htask] at hok
      have hfetched := h.fetched
      rw [htask] at hfetched
      refine ⟨h.readHolds, h.writeHolds, h.received, ?_, h.length_dmaRxBuf, h.loaded⟩
      dsimp only [WriteTaskPc.bytes] at hfetched ⊢
      split_ifs with hrv
      · rw [hfetched, List.append_nil]
      · obtain rfl : buf = [] := by
          by_contra hne
          exact hrv (hok hne)
        rw [hfetched]

theorem PumpInv.step (h : PumpInv bufSize s) (hok : PumpOk bufSize s e)
    (hs : pumpStep bufSize s e = some s') : PumpInv bufSize s' := by
  cases e with
  | receive o => exact h.receive hs
  | load => exact h.load hok hs
  | put => exact h.put hs
  | fetch => exact h.fetch hs
  | transmit o => exact h.transmit hok hs
  | otherReceive count =>
      cases hs
      exact ⟨h.readHolds, h.writeHolds, h.received, h.fetched, h.length_dmaRxBuf, h.loaded⟩
  | write buf =>
      obtain ⟨⟨rb, left⟩, hchunk, rfl⟩ := Option.map_eq_some_iff.1 hs
      exact ⟨h.readHolds, (h.writeHolds.after_chunk hchunk).1, h.received, h.fetched,
        h.length_dmaRxBuf, h.loaded⟩
  | read count =>
      rw [pumpStep] at hs
      split_ifs at hs
      cases hs
      exact ⟨h.readHolds.after_read (Nat.min_le_right _ _), h.writeHolds, h.received, h.fetched,
        h.length_dmaRxBuf, h.loaded⟩

/-- The read task that takes another number of bytes than it has received breaks the order or
repeats bytes. -/
theorem PumpInv.not_intact_load (h : PumpInv bufSize s) (hok : ¬ PumpOk bufSize s .load) :
    ¬ KeepsIntact bufSize s .load := by
  intro hkeeps
  cases htask : s.readTask with
  | receiving => simp only [PumpOk, htask, not_true_eq_false] at hok
  | putting rest => simp only [PumpOk, htask, not_true_eq_false] at hok
  | received bytes =>
      simp only [PumpOk, htask] at hok
      simp only [KeepsIntact, pumpStep, htask, Option.some.injEq, forall_eq'] at hkeeps
      have hintact := hkeeps.1
      have hreceived := h.received
      obtain ⟨-, hle⟩ := h.loaded bytes htask
      rw [htask] at hreceived
      dsimp only [ReadTaskPc.bytes] at hintact hreceived
      have hbytes := List.append_cancel_left (hreceived.symm.trans hintact)
      have hlen := congrArg List.length hbytes
      have hwrap : wrap 16 (min s.rxCount bufSize) ≤ min s.rxCount bufSize := Nat.mod_le _ _
      rw [List.length_take, h.length_dmaRxBuf] at hlen
      omega

/-- Bytes whose transmission fails are gone. -/
theorem PumpInv.not_intact_transmit {o : TransmitOutcome} (h : PumpInv bufSize s)
    (hok : ¬ PumpOk bufSize s (.transmit o)) : ¬ KeepsIntact bufSize s (.transmit o) := by
  intro hkeeps
  cases htask : s.writeTask with
  | fetching => simp only [PumpOk, htask, not_true_eq_false] at hok
  | transmitting buf =>
      simp only [PumpOk, htask] at hok
      obtain ⟨hne, hrv⟩ := Classical.not_imp.1 hok
      simp only [KeepsIntact, pumpStep, htask, Option.some.injEq, forall_eq'] at hkeeps
      have hintact := hkeeps.2
      have hfetched := h.fetched
      rw [htask] at hfetched
      rw [h.accepted_eq, hfetched] at hintact
      dsimp only [WriteTaskPc.bytes] at hintact
      rw [if_neg hrv, List.append_nil] at hintact
      have hlen := congrArg List.length (List.append_cancel_right hintact)
      rw [List.length_append] at hlen
      exact hne (List.length_eq_zero_iff.1 (by omega))

theorem PumpInv.keepsIntact_iff (h : PumpInv bufSize s) (e : PumpEvent) :
    KeepsIntact bufSize s e ↔ PumpOk bufSize s e := by
  refine ⟨fun hkeeps => ?_, fun hok s' hs => (h.step hok hs).intact⟩
  by_contra hok
  cases e with
  | load => exact h.not_intact_load hok hkeeps
  | transmit o => exact h.not_intact_transmit hok hkeeps
  | receive o => exact hok trivial
  | put => exact hok trivial
  | fetch => exact hok trivial
  | otherReceive count => exact hok trivial
  | write buf => exact hok trivial
  | read count => exact hok trivial

end Steps

/-! ## Runs -/

section Runs

variable {bufSize : ℕ} {readBuf writeBuf : RingBuf}

theorem PumpInv.start (hread : ringBufInit (wrap 16 bufSize) = some readBuf)
    (hwrite : ringBufInit (wrap 16 bufSize) = some writeBuf) :
    PumpInv bufSize (PumpState.start bufSize readBuf writeBuf) where
  readHolds := (ringBufInit_holds hread).1
  writeHolds := (ringBufInit_holds hwrite).1
  received := rfl
  fetched := rfl
  length_dmaRxBuf := List.length_replicate
  loaded := fun _ hfalse => by cases hfalse

/-- For every order of receptions, transmissions and calls, with any outcomes, the bytes stay
intact throughout if and only if the read task always finds the count of its own reception
and every transmission of bytes succeeds. -/
theorem pumps_intact_iff (hread : ringBufInit (wrap 16 bufSize) = some readBuf)
    (hwrite : ringBufInit (wrap 16 bufSize) = some writeBuf) (events : List PumpEvent) :
    Along (KeepsIntact bufSize) (pumpStep bufSize) (PumpState.start bufSize readBuf writeBuf)
        events ↔
      Along (PumpOk bufSize) (pumpStep bufSize) (PumpState.start bufSize readBuf writeBuf)
        events :=
  along_congr (fun _ _ _ h hok hs => h.step hok hs) (fun _ e h => h.keepsIntact_iff e)
    (PumpInv.start hread hwrite) events

/-- A reception of one byte, and a transmission of one byte. -/
theorem pumps_intact_bytes :
    Along (KeepsIntact 2) (pumpStep 2) (PumpState.start 2 emptyPair emptyPair)
        [.receive (.ran 0 [7, 8] 1), .load, .put, .write [9], .fetch, .transmit (.ran 0)] ↔
      Along (PumpOk 2) (pumpStep 2) (PumpState.start 2 emptyPair emptyPair)
        [.receive (.ran 0 [7, 8] 1), .load, .put, .write [9], .fetch, .transmit (.ran 0)] :=
  pumps_intact_iff rfl rfl _

/-- A call that finds the mutex taken makes the read task put the byte received before once
more. -/
theorem not_pumps_intact :
    ¬ ∀ (bufSize : ℕ) (readBuf writeBuf : RingBuf) (events : List PumpEvent),
      ringBufInit (wrap 16 bufSize) = some readBuf →
        ringBufInit (wrap 16 bufSize) = some writeBuf →
          Along (KeepsIntact bufSize) (pumpStep bufSize)
            (PumpState.start bufSize readBuf writeBuf) events := by
  intro hall
  have halong := hall 2 emptyPair emptyPair
    ([.receive (.ran 0 [7, 8] 1), .load, .put, .put, .receive .busy] ++ [.load]) rfl rfl
  have hload := ((along_append.1 halong).2
    ⟨[7, 8], 1, ⟨pairOfSeven, emptyPair, true⟩, .received [], .fetching, [7], [7], [], [], [], []⟩
    rfl).1
  have hintact := hload _ rfl
  exact absurd hintact.1 (by decide)

end Runs

end Catpilot
