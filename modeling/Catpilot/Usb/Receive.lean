import Catpilot.Serial.ReadWrite

/-!
# The receptions of the USB port

`usb_read_task` with `usb_receive`, and the interrupts of the endpoint. The data of a packet
come into `UserRxBufferFS`, and the completion of the packet calls `CDC_Receive_FS`, which
arms the endpoint again with the same buffer, gives `rx_sem` and sets `rx_count`. The read
task is the only caller of `usb_receive`, so it finds `rx_mutex` free and the result is zero.
-/

namespace Catpilot

open Transition Word

/-! ## The port -/

/-- `APP_RX_DATA_SIZE`, the size of `UserRxBufferFS`. -/
def appRxDataSize : ℕ := 2048

/-- `CDC_DATA_FS_OUT_PACKET_SIZE`, for which the endpoint is armed. -/
def cdcDataFsOutPacketSize : ℕ := 64

/-- Where `usb_read_task` stands: in its delay at the start; in `usb_receive`, before it
clears `rx_sem`, in the wait, behind it, and in `memcpy` with the bytes to copy and those
copied; behind `usb_receive`, or in `ring_buf_write` with the bytes left. -/
inductive UsbTaskPc where
  | delay
  | clear
  | wait
  | woken
  | copy (count copied : ℕ)
  | received
  | putting (rest : List UInt8)
  deriving DecidableEq, Repr

/-- The port: the buffer of the endpoint, the fields of `usb_private_t` that a reception
uses, the length of a packet whose data have come in and which has not completed, the packets
that the host has sent, and the bytes put into the ring buffer and taken from it. -/
structure UsbRx where
  userRxBufferFS : List UInt8
  rxCount : ℕ
  rxSem : Bool
  rxBuf : List UInt8
  readBuf : RingBuf
  task : UsbTaskPc
  pending : Option ℕ
  packets : List (List UInt8)
  put : List UInt8
  taken : List UInt8
  deriving DecidableEq, Repr

/-- The port after `usb_init`, with the endpoint armed. -/
def UsbRx.start (bufSize : ℕ) (readBuf : RingBuf) : UsbRx where
  userRxBufferFS := List.replicate appRxDataSize 0
  rxCount := 0
  rxSem := false
  rxBuf := List.replicate bufSize 0
  readBuf := readBuf
  task := .delay
  pending := none
  packets := []
  put := []
  taken := []

/-- What happens: the data of a packet come in, the packet completes, the read task goes on,
or a section of `usb_read`. -/
inductive UsbEvent where
  | data (packet : List UInt8)
  | complete
  | task
  | read (count : ℕ)
  deriving DecidableEq, Repr

/-- The data of a packet come in. -/
def UsbRx.fill (s : UsbRx) (packet : List UInt8) : UsbRx :=
  { s with
    userRxBufferFS := packet ++ s.userRxBufferFS.drop packet.length
    pending := some packet.length
    packets := s.packets ++ [packet] }

/-- `CDC_Receive_FS`, for a packet of `len` bytes: the endpoint is armed, and
`usb_receive_compl`. -/
def cdcReceiveFS (s : UsbRx) (len : ℕ) : UsbRx :=
  { s with pending := none, rxSem := true, rxCount := len }

/-- The byte `k` of `memcpy(pdata, UserRxBufferFS, rx_count)`; a byte past the end of the
buffer goes elsewhere. -/
def UsbRx.copyByte (s : UsbRx) (k : ℕ) : List UInt8 :=
  s.rxBuf.set k (s.userRxBufferFS.getD k 0)

/-- The read task goes on; `buf_size` is an `int`, and the length of `ring_buf_write` a
`uint16_t`. -/
def usbReadTask (bufSize : ℕ) (s : UsbRx) : Option UsbRx :=
  match s.task with
  | .delay => some { s with task := .clear }
  | .clear => some { s with rxSem := false, task := .wait }
  | .wait => if s.rxSem then some { s with rxSem := false, task := .woken } else none
  | .woken => some { s with task := .copy s.rxCount 0 }
  | .copy count copied =>
      if copied < count then
        some { s with rxBuf := s.copyByte copied, task := .copy count (copied + 1) }
      else some { s with task := .received }
  | .received => some { s with task := .putting (s.rxBuf.take (wrap 16 (min s.rxCount bufSize))) }
  | .putting [] => some { s with task := .clear }
  | .putting (b :: rest) =>
      (ringBufWriteChunk s.readBuf (b :: rest)).map fun (rb, left) =>
        { s with
          readBuf := rb
          task := .putting left
          put := s.put ++ (b :: rest).take ((b :: rest).length - left.length) }

/-- A step of the port. The endpoint takes a packet when it is armed. -/
def usbStep (bufSize : ℕ) (s : UsbRx) : UsbEvent → Option UsbRx
  | .data packet =>
      if s.pending = none ∧ packet.length ≤ cdcDataFsOutPacketSize then some (s.fill packet)
      else none
  | .complete => s.pending.map (cdcReceiveFS s)
  | .task => usbReadTask bufSize s
  | .read count =>
      if 1 ≤ ringBufGetDataSize s.readBuf then
        let (rb, buf) := readSection s.readBuf (min count (ringBufGetDataSize s.readBuf))
        some { s with readBuf := rb, taken := s.taken ++ buf }
      else none

/-! ## What is to hold -/

/-- The bytes put into the ring buffer are the first of those that the host has sent, in
order and each once; and they are all of them when the task waits, no completion has been
signalled to it and none is due. -/
def UsbRx.Intact (s : UsbRx) : Prop :=
  s.put <+: s.packets.flatten ∧
    (s.task = .wait → s.rxSem = false → s.pending = none → s.put = s.packets.flatten)

/-- The task reads the buffer of the endpoint. -/
def UsbTaskPc.Copying : UsbTaskPc → Prop
  | .woken | .copy _ _ => True
  | _ => False

/-- The data of a packet come in when no earlier packet is signalled or copied, and fit the
buffer of the task; a packet completes when the task waits. -/
def UsbOk (bufSize : ℕ) (s : UsbRx) : UsbEvent → Prop
  | .data packet => s.rxSem = false ∧ ¬ s.task.Copying ∧ packet.length ≤ bufSize
  | .complete => s.task = .wait
  | _ => True

instance (task : UsbTaskPc) : Decidable task.Copying :=
  match task with
  | .woken | .copy _ _ => isTrue trivial
  | .delay | .clear | .wait | .received | .putting _ => isFalse id

instance (bufSize : ℕ) (s : UsbRx) : (e : UsbEvent) → Decidable (UsbOk bufSize s e)
  | .data packet =>
      inferInstanceAs
        (Decidable (s.rxSem = false ∧ ¬ s.task.Copying ∧ packet.length ≤ bufSize))
  | .complete => inferInstanceAs (Decidable (s.task = .wait))
  | .task | .read _ => isTrue trivial

/-! ## Steps -/

/-- The bytes of the packet that is signalled to the task, or that the task is at. -/
def UsbRx.taskBytes (s : UsbRx) : List UInt8 :=
  match s.task with
  | .delay | .clear => []
  | .wait => if s.rxSem then s.userRxBufferFS.take s.rxCount else []
  | .woken => s.userRxBufferFS.take s.rxCount
  | .copy count _ => s.userRxBufferFS.take count
  | .received => s.rxBuf.take s.rxCount
  | .putting rest => rest

/-- The bytes of the packet that has not completed. -/
def UsbRx.pendingBytes (s : UsbRx) : List UInt8 :=
  match s.pending with
  | none => []
  | some len => s.userRxBufferFS.take len

section Steps

variable {bufSize : ℕ} {s s' : UsbRx} {e : UsbEvent}

/-- Nothing is lost between the host and the ring buffer. A packet that has not completed is
alone in the buffer of the endpoint but for the bytes that the task has copied. -/
structure UsbInv (bufSize : ℕ) (s : UsbRx) : Prop where
  holds : Holds s.readBuf s.put s.taken
  length_rxBuf : s.rxBuf.length = bufSize
  length_user : cdcDataFsOutPacketSize ≤ s.userRxBufferFS.length
  rxCount_le : s.rxCount ≤ min bufSize cdcDataFsOutPacketSize
  pending_le : ∀ len, s.pending = some len → len ≤ min bufSize cdcDataFsOutPacketSize
  signalled : s.rxSem = true → s.task = .wait ∧ s.pending = none
  copying : s.task.Copying → s.pending = none
  copied : ∀ count k, s.task = .copy count k →
    count = s.rxCount ∧ k ≤ count ∧ s.rxBuf.take k = s.userRxBufferFS.take k
  account : s.packets.flatten = s.put ++ s.taskBytes ++ s.pendingBytes

theorem UsbInv.intact (h : UsbInv bufSize s) : s.Intact := by
  have haccount := h.account
  refine ⟨?_, fun htask hsem hpending => ?_⟩
  · rw [haccount, List.append_assoc]
    exact List.prefix_append ..
  · simpa [UsbRx.taskBytes, UsbRx.pendingBytes, htask, hsem, hpending] using haccount.symm

theorem UsbInv.start {readBuf : RingBuf} (hread : ringBufInit (wrap 16 bufSize) = some readBuf) :
    UsbInv bufSize (UsbRx.start bufSize readBuf) where
  holds := (ringBufInit_holds hread).1
  length_rxBuf := List.length_replicate
  length_user := by
    rw [UsbRx.start, List.length_replicate]
    decide
  rxCount_le := Nat.zero_le _
  pending_le := fun _ hfalse => by cases hfalse
  signalled := fun hfalse => by cases hfalse
  copying := fun _ => rfl
  copied := fun _ _ hfalse => by cases hfalse
  account := rfl

/-- The data of a packet leave what the task has: it is not before the buffer of the
endpoint. -/
theorem UsbInv.data (h : UsbInv bufSize s) {packet : List UInt8}
    (hok : UsbOk bufSize s (.data packet)) (hs : usbStep bufSize s (.data packet) = some s') :
    UsbInv bufSize s' := by
  rw [usbStep] at hs
  split_ifs at hs with hcond
  cases hs
  obtain ⟨hpending, hlen⟩ := hcond
  obtain ⟨hsem, hcopying, hfits⟩ := hok
  have haccount := h.account
  refine ⟨h.holds, h.length_rxBuf, ?_, h.rxCount_le, ?_, ?_, ?_, ?_, ?_⟩
  · have hlength := h.length_user
    simp only [UsbRx.fill, List.length_append, List.length_drop]
    omega
  · intro len hsome
    cases hsome
    exact le_min hfits hlen
  · intro hgiven
    cases hsem.symm.trans hgiven
  · exact fun hfalse => absurd hfalse hcopying
  · intro count k htask
    have hfalse : s.task.Copying := by
      rw [show s.task = _ from htask]
      trivial
    exact absurd hfalse hcopying
  · have htask : (s.fill packet).taskBytes = s.taskBytes := by
      cases hpc : s.task with
      | woken =>
          rw [hpc] at hcopying
          exact absurd trivial hcopying
      | copy count k =>
          rw [hpc] at hcopying
          exact absurd trivial hcopying
      | _ => simp [UsbRx.fill, UsbRx.taskBytes, hpc, hsem]
    rw [htask]
    simp only [UsbRx.pendingBytes, hpending, List.append_nil] at haccount
    simp [UsbRx.pendingBytes, UsbRx.fill, haccount]

/-- The completion of a packet, for the task that waits. -/
theorem UsbInv.complete (h : UsbInv bufSize s) (hok : s.task = .wait)
    (hs : usbStep bufSize s .complete = some s') : UsbInv bufSize s' := by
  obtain ⟨len, hpending, rfl⟩ := Option.map_eq_some_iff.1 hs
  have haccount := h.account
  have hsem : s.rxSem = false := by
    by_contra hgiven
    have hnone := (h.signalled (by simpa using hgiven)).2
    rw [hpending] at hnone
    cases hnone
  refine ⟨h.holds, h.length_rxBuf, h.length_user, h.pending_le len hpending, ?_, ?_, ?_, ?_, ?_⟩
  · exact fun _ hfalse => by cases hfalse
  · exact fun _ => ⟨hok, rfl⟩
  · exact fun _ => rfl
  · intro count k htask
    cases hok.symm.trans htask
  · simpa [cdcReceiveFS, UsbRx.taskBytes, UsbRx.pendingBytes, hok, hsem, hpending] using haccount

/-- The semaphore is not given while the task is elsewhere than in the wait. -/
theorem UsbInv.rxSem_eq (h : UsbInv bufSize s) (htask : s.task ≠ .wait) : s.rxSem = false := by
  by_contra hgiven
  exact htask (h.signalled (by simpa using hgiven)).1

/-- The task goes on to a place that is not in the copy, with the bytes that it has. -/
theorem UsbInv.goto (h : UsbInv bufSize s) {sem : Bool} {task : UsbTaskPc} (hsem : sem = false)
    (htask : ¬ task.Copying)
    (haccount : s.packets.flatten =
      s.put ++ ({ s with rxSem := sem, task := task } : UsbRx).taskBytes ++ s.pendingBytes) :
    UsbInv bufSize { s with rxSem := sem, task := task } where
  holds := h.holds
  length_rxBuf := h.length_rxBuf
  length_user := h.length_user
  rxCount_le := h.rxCount_le
  pending_le := h.pending_le
  signalled := fun hgiven => absurd (hsem.symm.trans hgiven) (by decide)
  copying := fun hcopying => absurd hcopying htask
  copied := by
    rintro count k rfl
    exact absurd trivial htask
  account := haccount

/-- The task goes on in the copy. -/
theorem UsbInv.goCopy (h : UsbInv bufSize s) (hpending : s.pending = none) {rxBuf : List UInt8}
    (hrx : rxBuf.length = bufSize) {k : ℕ} (hk : k ≤ s.rxCount)
    (htake : rxBuf.take k = s.userRxBufferFS.take k)
    (haccount : s.packets.flatten = s.put ++ s.userRxBufferFS.take s.rxCount) :
    UsbInv bufSize { s with rxSem := false, rxBuf := rxBuf, task := .copy s.rxCount k } where
  holds := h.holds
  length_rxBuf := hrx
  length_user := h.length_user
  rxCount_le := h.rxCount_le
  pending_le := h.pending_le
  signalled := fun hfalse => by cases hfalse
  copying := fun _ => hpending
  copied := by
    rintro count k' ⟨⟩
    exact ⟨rfl, hk, htake⟩
  account := by
    simp only [UsbRx.pendingBytes, hpending, List.append_nil]
    exact haccount

/-- A byte of the copy. -/
theorem take_copyByte {k : ℕ} (hrx : k < s.rxBuf.length) (huser : k < s.userRxBufferFS.length)
    (h : s.rxBuf.take k = s.userRxBufferFS.take k) :
    (s.copyByte k).take (k + 1) = s.userRxBufferFS.take (k + 1) := by
  rw [UsbRx.copyByte, List.take_add_one, List.take_set_of_le (le_refl k), h, List.take_add_one]
  simp [hrx, huser]

/-- A step of the copy, and its end. -/
theorem UsbInv.copy (h : UsbInv bufSize s) {count k : ℕ} (htask : s.task = .copy count k)
    (hs : usbReadTask bufSize s = some s') : UsbInv bufSize s' := by
  obtain ⟨rfl, hk, htake⟩ := h.copied count k htask
  have hrx := h.length_rxBuf
  have huser := h.length_user
  have hle := h.rxCount_le
  have haccount := h.account
  have hpending : s.pending = none := h.copying (by rw [htask]; trivial)
  have hsem : s.rxSem = false := h.rxSem_eq (by rw [htask]; exact UsbTaskPc.noConfusion)
  simp only [usbReadTask, htask] at hs
  simp only [UsbRx.taskBytes, htask] at haccount
  split_ifs at hs with hlt
  · cases hs
    simp only [UsbRx.pendingBytes, hpending, List.append_nil] at haccount
    have hlen : (s.copyByte k).length = bufSize := by rw [UsbRx.copyByte, List.length_set, hrx]
    have htake' := take_copyByte (by omega) (by omega) htake
    have hgo := h.goCopy hpending hlen hlt htake' haccount
    rwa [← hsem] at hgo
  · cases hs
    obtain rfl : k = s.rxCount := by omega
    refine h.goto hsem id ?_
    simp only [UsbRx.taskBytes]
    rw [htake]
    exact haccount

/-- A pass of `ring_buf_write`, and its end. -/
theorem UsbInv.put (h : UsbInv bufSize s) {rest : List UInt8} (htask : s.task = .putting rest)
    (hs : usbReadTask bufSize s = some s') : UsbInv bufSize s' := by
  have haccount := h.account
  have hsem : s.rxSem = false := h.rxSem_eq (by rw [htask]; exact UsbTaskPc.noConfusion)
  simp only [UsbRx.taskBytes, htask] at haccount
  cases rest with
  | nil =>
      simp only [usbReadTask, htask, Option.some.injEq] at hs
      subst hs
      exact h.goto hsem id haccount
  | cons b rest =>
      simp only [usbReadTask, htask] at hs
      obtain ⟨⟨rb, left⟩, hchunk, rfl⟩ := Option.map_eq_some_iff.1 hs
      obtain ⟨hholds, hsplit⟩ := h.holds.after_chunk hchunk
      refine ⟨hholds, h.length_rxBuf, h.length_user, h.rxCount_le, h.pending_le, ?_, ?_, ?_, ?_⟩
      · exact fun hgiven => absurd (hsem.symm.trans hgiven) (by decide)
      · exact fun hfalse => absurd hfalse id
      · exact fun _ _ hfalse => by cases hfalse
      · simp only [UsbRx.taskBytes]
        rw [List.append_assoc s.put, hsplit]
        exact haccount

/-- The count that the task looks at behind `usb_receive` is a length of `uint16_t`. -/
theorem UsbInv.wrap_rxCount (h : UsbInv bufSize s) :
    wrap 16 (min s.rxCount bufSize) = s.rxCount := by
  have hle := h.rxCount_le
  have hsize : cdcDataFsOutPacketSize < 2 ^ 16 := by decide
  rw [min_eq_left (by omega)]
  exact Nat.mod_eq_of_lt (by omega)

theorem UsbInv.task (h : UsbInv bufSize s) (hs : usbReadTask bufSize s = some s') :
    UsbInv bufSize s' := by
  have haccount := h.account
  cases htask : s.task with
  | copy count k => exact h.copy htask hs
  | putting rest => exact h.put htask hs
  | delay =>
      simp only [usbReadTask, htask, Option.some.injEq] at hs
      subst hs
      simp only [UsbRx.taskBytes, htask] at haccount
      exact h.goto (h.rxSem_eq (by rw [htask]; exact UsbTaskPc.noConfusion)) id haccount
  | clear =>
      simp only [usbReadTask, htask, Option.some.injEq] at hs
      subst hs
      simp only [UsbRx.taskBytes, htask] at haccount
      exact h.goto rfl id haccount
  | wait =>
      simp only [usbReadTask, htask, Option.ite_none_right_eq_some, Option.some.injEq] at hs
      obtain ⟨hsem, rfl⟩ := hs
      simp only [UsbRx.taskBytes, htask, if_pos hsem] at haccount
      refine ⟨h.holds, h.length_rxBuf, h.length_user, h.rxCount_le, h.pending_le, ?_, ?_, ?_,
        haccount⟩
      · exact fun hfalse => by cases hfalse
      · exact fun _ => (h.signalled hsem).2
      · exact fun _ _ hfalse => by cases hfalse
  | woken =>
      simp only [usbReadTask, htask, Option.some.injEq] at hs
      subst hs
      have hpending : s.pending = none := h.copying (by rw [htask]; trivial)
      have hsem : s.rxSem = false := h.rxSem_eq (by rw [htask]; exact UsbTaskPc.noConfusion)
      simp only [UsbRx.taskBytes, htask, UsbRx.pendingBytes, hpending, List.append_nil] at haccount
      have hgo := h.goCopy hpending h.length_rxBuf (Nat.zero_le _) rfl haccount
      rwa [← hsem] at hgo
  | received =>
      simp only [usbReadTask, htask, Option.some.injEq] at hs
      subst hs
      simp only [UsbRx.taskBytes, htask] at haccount
      refine h.goto (h.rxSem_eq (by rw [htask]; exact UsbTaskPc.noConfusion)) id ?_
      simp only [UsbRx.taskBytes, h.wrap_rxCount]
      exact haccount

theorem UsbInv.step (h : UsbInv bufSize s) (hok : UsbOk bufSize s e)
    (hs : usbStep bufSize s e = some s') : UsbInv bufSize s' := by
  cases e with
  | data packet => exact h.data hok hs
  | complete => exact h.complete hok hs
  | task => exact h.task hs
  | read count =>
      rw [usbStep] at hs
      split_ifs at hs
      cases hs
      exact ⟨h.holds.after_read (Nat.min_le_right _ _), h.length_rxBuf, h.length_user,
        h.rxCount_le, h.pending_le, h.signalled, h.copying, h.copied, h.account⟩

/-- A packet that completes before the task clears the semaphore is lost. -/
theorem UsbInv.not_intact_of_early (h : UsbInv bufSize s) (htask : s.task = .clear)
    (hpending : s.pending ≠ none) (hbytes : s.pendingBytes ≠ []) :
    ∃ s', run (usbStep bufSize) s [.complete, .task] = some s' ∧ ¬ s'.Intact := by
  obtain ⟨len, hlen⟩ := Option.ne_none_iff_exists'.1 hpending
  refine ⟨{ cdcReceiveFS s len with rxSem := false, task := .wait }, ?_, fun hintact => ?_⟩
  · simp [run, usbStep, usbReadTask, cdcReceiveFS, hlen, htask]
  · have haccount := h.account
    have hput : s.put = s.packets.flatten := hintact.2 rfl rfl rfl
    simp only [UsbRx.taskBytes, htask, List.append_nil] at haccount
    rw [← hput] at haccount
    exact hbytes (List.self_eq_append_right.1 haccount)

end Steps

/-! ## Runs -/

section Runs

variable {bufSize : ℕ} {readBuf : RingBuf}

/-- In every run whose packets come in and complete when the task is ready for them, and fit
its buffer, the ring buffer gets all bytes that the host sends, in order and each once. -/
theorem usb_intact (hread : ringBufInit (wrap 16 bufSize) = some readBuf) {events : List UsbEvent}
    {s : UsbRx} (hok : Along (UsbOk bufSize) (usbStep bufSize) (UsbRx.start bufSize readBuf) events)
    (hrun : run (usbStep bufSize) (UsbRx.start bufSize readBuf) events = some s) : s.Intact := by
  have hstep : ∀ s e s', UsbInv bufSize s → UsbOk bufSize s e → usbStep bufSize s e = some s' →
      UsbInv bufSize s' := fun _ _ _ h hok hs => h.step hok hs
  exact (hok.invariant hstep (UsbInv.start hread) hrun).intact

/-- A packet of one byte while the task waits. -/
theorem usb_intact_byte : ∃ s : UsbRx, s.put = [7] ∧ s.task = .wait ∧ s.Intact := by
  have hok : Along (UsbOk 2) (usbStep 2) (UsbRx.start 2 emptyPair) [.task, .task, .data [7],
      .complete, .task, .task, .task, .task, .task, .task, .task, .task] := by decide
  exact ⟨_, rfl, rfl, usb_intact rfl hok rfl⟩

/-- A packet that comes in and completes while the task puts the one before: the semaphore is
cleared, and the task waits with a byte missing. -/
theorem not_usb_intact :
    ¬ ∀ (bufSize : ℕ) (readBuf : RingBuf) (events : List UsbEvent) (s : UsbRx),
      ringBufInit (wrap 16 bufSize) = some readBuf →
        run (usbStep bufSize) (UsbRx.start bufSize readBuf) events = some s → s.Intact := by
  intro hall
  have hintact := hall 2 emptyPair [.task, .task, .data [7], .complete, .task, .task, .task,
    .task, .task, .data [8], .complete, .task, .task, .task] _ rfl rfl
  exact absurd (hintact.2 rfl rfl rfl) (by decide)

end Runs

end Catpilot
