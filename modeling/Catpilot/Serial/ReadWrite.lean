import Catpilot.RingBuf.Fifo
import Catpilot.Serial.Ports

/-!
# Reads and writes of serial ports

`write` and `read` of the USART and the USB drivers, which agree. The bytes are moved first,
and the flag `error`, which the two tasks of the port share, is looked at afterwards. A call
runs among the tasks of the port and the calls of others, which take turns at the critical
sections of the ring buffers.
-/

namespace Catpilot

open Transition Word

/-- The ring buffers of a port, and the flag that its tasks set. -/
structure PortBufs where
  readBuf : RingBuf
  writeBuf : RingBuf
  error : Bool
  deriving DecidableEq, Repr

/-- The bytes and the pointers of a ring buffer, without its semaphores. -/
def RingBuf.data (rb : RingBuf) : List UInt8 × ℕ × ℕ × ℕ :=
  (rb.mem, rb.writePtr, rb.readPtr, rb.count)

/-! ## What the calls return -/

/-- The end of `write`, with what `ring_buf_write` has returned. -/
def serialWriteEnd (error : Bool) (rv : ℤ) : ℤ × Errno :=
  if error then (-1, .eproto) else (rv, .ok)

/-- The end of `read`, with what `ring_buf_read_timeout` has returned. -/
def serialReadEnd (error : Bool) (rv : ℤ) : ℤ × Errno :=
  if rv < 0 then (-1, .etimedout)
  else if error then (-1, .eproto)
  else (rv, .ok)

/-- The end of `usart_write`. -/
def usartWriteEnd : Bool → ℤ → ℤ × Errno := serialWriteEnd

/-- The end of `usart_read`. -/
def usartReadEnd : Bool → ℤ → ℤ × Errno := serialReadEnd

/-- The end of `usb_write`. -/
def usbWriteEnd : Bool → ℤ → ℤ × Errno := serialWriteEnd

/-- The end of `usb_read`. -/
def usbReadEnd : Bool → ℤ → ℤ × Errno := serialReadEnd

/-- The end of the write of a driver. -/
def SerialDriver.writeEnd : SerialDriver → Bool → ℤ → ℤ × Errno
  | usart => usartWriteEnd
  | usb => usbWriteEnd

/-- The end of the read of a driver. -/
def SerialDriver.readEnd : SerialDriver → Bool → ℤ → ℤ × Errno
  | usart => usartReadEnd
  | usb => usbReadEnd

/-! ## A call in progress -/

/-- A call of a port; the bytes of a write are those in its buffer. -/
inductive SerialCall where
  | write (buf : List UInt8)
  | read (count : ℕ)
  deriving DecidableEq, Repr

/-- Where a call stands: in `ring_buf_write` with some bytes left, in
`ring_buf_read_timeout`, behind them with their result, or returned. -/
inductive SerialPc where
  | writing (rest : List UInt8) (length : ℕ)
  | reading (count : ℕ)
  | written (rv : ℤ)
  | fetched (rv : ℤ)
  | returned (rv : ℤ) (errno : Errno)
  deriving DecidableEq, Repr

/-- A port with a call in progress; `touched` says that the call has changed a ring buffer. -/
structure SerialState where
  port : PortBufs
  pc : SerialPc
  touched : Bool
  deriving DecidableEq, Repr

/-- The bytes of a write that `ring_buf_write` gets; it takes their number as a `uint16_t`. -/
def ringBufBytes (buf : List UInt8) : List UInt8 := buf.take (wrap 16 buf.length)

/-- The call at its start. -/
def SerialState.start (port : PortBufs) : SerialCall → SerialState
  | .write buf => ⟨port, .writing (ringBufBytes buf) (ringBufBytes buf).length, false⟩
  | .read count => ⟨port, .reading count, false⟩

/-- What happens on the port: the call moves on, its wait for bytes times out, one of the
tasks moves bytes or sets the flag, or another call moves bytes. -/
inductive SerialEvent where
  | call
  | timeout
  | readTask (buf : List UInt8)
  | writeTask (length : ℕ)
  | flag (error : Bool)
  | otherWrite (buf : List UInt8)
  | otherRead (count : ℕ)
  deriving DecidableEq, Repr

section Steps

variable (driver : SerialDriver)

/-- A step of the call; `none` where it waits. -/
def serialCallStep (s : SerialState) : Option SerialState :=
  match s.pc with
  | .writing [] length => some { s with pc := .written length }
  | .writing (b :: rest) length =>
      (ringBufWriteChunk s.port.writeBuf (b :: rest)).map fun (rb, rest) =>
        { port := { s.port with writeBuf := rb }
          pc := .writing rest length
          touched := s.touched || rb.data ≠ s.port.writeBuf.data }
  | .reading count =>
      if ringBufGetDataSize s.port.readBuf < 1 then none
      else
        let length := min count (ringBufGetDataSize s.port.readBuf)
        let (rb, _) := readSection s.port.readBuf length
        some
          { port := { s.port with readBuf := rb }
            pc := .fetched length
            touched := s.touched || rb.data ≠ s.port.readBuf.data }
  | .written rv =>
      let (rv, errno) := driver.writeEnd s.port.error rv
      some { s with pc := .returned rv errno }
  | .fetched rv =>
      let (rv, errno) := driver.readEnd s.port.error rv
      some { s with pc := .returned rv errno }
  | .returned _ _ => none

/-- A write of others to a ring buffer, up to its next wait. -/
def othersWrite (rb : RingBuf) (buf : List UInt8) : Option RingBuf :=
  (ringBufWriteChunk rb buf).map Prod.fst

/-- A read of others from a ring buffer that has bytes. -/
def othersRead (rb : RingBuf) (length : ℕ) : Option RingBuf :=
  if ringBufGetDataSize rb < 1 then none
  else some (readSection rb (min length (ringBufGetDataSize rb))).1

def serialStep (s : SerialState) : SerialEvent → Option SerialState
  | .call => serialCallStep driver s
  | .timeout =>
      match s.pc with
      | .reading _ => some { s with pc := .fetched (-1) }
      | _ => none
  | .readTask buf =>
      (othersWrite s.port.readBuf buf).map fun rb =>
        { s with port := { s.port with readBuf := rb } }
  | .writeTask length =>
      (othersRead s.port.writeBuf length).map fun rb =>
        { s with port := { s.port with writeBuf := rb } }
  | .flag error => some { s with port := { s.port with error := error } }
  | .otherWrite buf =>
      (othersWrite s.port.writeBuf buf).map fun rb =>
        { s with port := { s.port with writeBuf := rb } }
  | .otherRead count =>
      (othersRead s.port.readBuf count).map fun rb =>
        { s with port := { s.port with readBuf := rb } }

end Steps

/-- The call has returned `-1`. -/
def SerialState.Failed (s : SerialState) : Prop := ∃ errno, s.pc = .returned (-1) errno

/-- A call that has failed has changed no ring buffer. -/
def SerialState.Atomic (s : SerialState) : Prop := s.Failed → s.touched = false

/-- Where the call is about to look at the flag, the flag is clear or the call has moved no
bytes. -/
def FlagHarmless (s : SerialState) (e : SerialEvent) : Prop :=
  e = .call → match s.pc with
    | .written rv => s.port.error = false ∨ rv = 0
    | .fetched rv => s.port.error = false ∨ rv ≤ 0
    | _ => True

/-! ## What a call has moved -/

section Moved

variable {driver : SerialDriver} {s s' : SerialState} {e : SerialEvent}

/-- A write section that puts bytes changes the buffer. -/
theorem data_writeSection_ne {rb : RingBuf} {buf : List UInt8} {t : ℕ} (hpos : 0 < t)
    (hlt : t < 2 ^ 16) : (writeSection rb buf t).data ≠ rb.data := by
  intro h
  have hcount : (writeSection rb buf t).count = rb.count := congrArg (fun d => d.2.2.2) h
  rw [writeSection_count, wrap] at hcount
  omega

/-- A read section changes the buffer exactly when it takes bytes. -/
theorem data_readSection_ne_iff {rb : RingBuf} {t : ℕ} (hfits : rb.count < 2 ^ 16)
    (hle : t ≤ rb.count) : (readSection rb t).1.data ≠ rb.data ↔ 0 < t := by
  constructor
  · intro hne
    by_contra hzero
    obtain rfl : t = 0 := by omega
    have hcount : wrapSub 16 rb.count 0 = rb.count := wrapSub_of_le (Nat.zero_le _) hfits
    refine hne ?_
    simp only [readSection, RingBuf.data, Nat.zero_min, Nat.lt_irrefl, gt_iff_lt, if_false,
      Nat.add_zero, hcount]
  · intro hpos h
    have hcount : (readSection rb t).1.count = rb.count := congrArg (fun d => d.2.2.2) h
    rw [readSection_count, wrapSub_of_le hle hfits] at hcount
    omega

/-- Whether a call has changed a ring buffer, by where it stands. -/
def SerialPc.Accounts (touched : Bool) : SerialPc → Prop
  | .writing rest length => rest.length ≤ length ∧ (touched = true ↔ rest.length < length)
  | .reading _ => touched = false
  | .written rv => 0 ≤ rv ∧ (touched = true ↔ rv ≠ 0)
  | .fetched rv => touched = true ↔ 0 < rv
  | .returned _ _ => True

/-- The number of bytes to read is a `uint16_t`, and the call has changed a ring buffer
exactly when it has moved bytes. -/
structure SerialState.Accounted (s : SerialState) : Prop where
  fits : s.port.readBuf.count < 2 ^ 16
  moved : s.pc.Accounts s.touched

theorem SerialState.accounted_start {port : PortBufs} (h : port.readBuf.count < 2 ^ 16)
    (c : SerialCall) : (SerialState.start port c).Accounted := by
  cases c with
  | write buf => exact ⟨h, le_rfl, by simp [SerialState.start]⟩
  | read count => exact ⟨h, rfl⟩

/-- A step that is not the call's own leaves the call where it is. -/
theorem serialStep_others (he : e ≠ .call) (ht : e ≠ .timeout)
    (hs : serialStep driver s e = some s') : s'.pc = s.pc ∧ s'.touched = s.touched := by
  cases e with
  | call => exact absurd rfl he
  | timeout => exact absurd rfl ht
  | flag error =>
      cases hs
      exact ⟨rfl, rfl⟩
  | readTask buf =>
      obtain ⟨rb, -, rfl⟩ := Option.map_eq_some_iff.1 hs
      exact ⟨rfl, rfl⟩
  | writeTask length =>
      obtain ⟨rb, -, rfl⟩ := Option.map_eq_some_iff.1 hs
      exact ⟨rfl, rfl⟩
  | otherWrite buf =>
      obtain ⟨rb, -, rfl⟩ := Option.map_eq_some_iff.1 hs
      exact ⟨rfl, rfl⟩
  | otherRead count =>
      obtain ⟨rb, -, rfl⟩ := Option.map_eq_some_iff.1 hs
      exact ⟨rfl, rfl⟩

theorem serialStep_timeout (hs : serialStep driver s .timeout = some s') :
    ∃ count, s.pc = .reading count ∧ s' = { s with pc := .fetched (-1) } := by
  rw [serialStep] at hs
  split at hs
  · cases hs
    exact ⟨_, ‹_›, rfl⟩
  · cases hs

/-- A chunk of `write` changes the buffer and leaves fewer bytes. -/
theorem chunk_spec {rb rb' : RingBuf} {b : UInt8} {rest rest' : List UInt8}
    (hchunk : ringBufWriteChunk rb (b :: rest) = some (rb', rest')) :
    rb'.data ≠ rb.data ∧ rest'.length < (b :: rest).length := by
  rw [ringBufWriteChunk] at hchunk
  split_ifs at hchunk with hfree
  cases hchunk
  have hlt : ringBufGetFreeSize rb < 2 ^ 16 := Nat.mod_lt _ (by decide)
  have hpos : 0 < min (ringBufGetFreeSize rb) (b :: rest).length := by
    rw [List.length_cons]
    omega
  refine ⟨data_writeSection_ne hpos (by omega), ?_⟩
  rw [List.length_drop]
  omega

theorem SerialPc.Accounts.callStep (hfits : s.port.readBuf.count < 2 ^ 16)
    (h : s.pc.Accounts s.touched) (hs : serialCallStep driver s = some s') :
    s'.pc.Accounts s'.touched := by
  cases hpc : s.pc with
  | writing rest length =>
      rw [hpc] at h
      obtain ⟨hle, htouched⟩ := h
      cases rest with
      | nil =>
          simp only [serialCallStep, hpc, Option.some.injEq] at hs
          subst hs
          simp only [SerialPc.Accounts, htouched, List.length_nil]
          omega
      | cons b rest =>
          simp only [serialCallStep, hpc] at hs
          obtain ⟨⟨rb, rest'⟩, hchunk, rfl⟩ := Option.map_eq_some_iff.1 hs
          obtain ⟨hdata, hlt⟩ := chunk_spec hchunk
          simp only [SerialPc.Accounts, ne_eq, hdata, not_false_eq_true, decide_true,
            Bool.or_true, true_iff]
          omega
  | reading count =>
      rw [hpc] at h
      have htouched : s.touched = false := h
      simp only [serialCallStep, hpc] at hs
      split_ifs at hs with hsize
      cases hs
      have hle : min count (ringBufGetDataSize s.port.readBuf) ≤ s.port.readBuf.count :=
        Nat.min_le_right _ _
      simp only [SerialPc.Accounts, htouched, Bool.false_or]
      rw [decide_eq_true_iff, data_readSection_ne_iff hfits hle, Int.natCast_pos]
  | written rv =>
      simp only [serialCallStep, hpc, Option.some.injEq] at hs
      subst hs
      trivial
  | fetched rv =>
      simp only [serialCallStep, hpc, Option.some.injEq] at hs
      subst hs
      trivial
  | returned rv errno => simp only [serialCallStep, hpc, reduceCtorEq] at hs

theorem count_readSection_lt (rb : RingBuf) (t : ℕ) : (readSection rb t).1.count < 2 ^ 16 := by
  rw [readSection_count]
  exact Nat.mod_lt _ (by decide)

theorem count_othersWrite_lt {rb rb' : RingBuf} {buf : List UInt8}
    (h : othersWrite rb buf = some rb') : rb'.count < 2 ^ 16 := by
  obtain ⟨⟨_, rest⟩, hchunk, rfl⟩ := Option.map_eq_some_iff.1 h
  rw [ringBufWriteChunk] at hchunk
  split_ifs at hchunk
  cases hchunk
  rw [writeSection_count]
  exact Nat.mod_lt _ (by decide)

theorem count_othersRead_lt {rb rb' : RingBuf} {length : ℕ}
    (h : othersRead rb length = some rb') : rb'.count < 2 ^ 16 := by
  rw [othersRead] at h
  split_ifs at h
  cases h
  exact count_readSection_lt _ _

/-- A step of the call leaves the buffer of the reads, or it is the read's own section. -/
theorem fits_callStep (h : s.port.readBuf.count < 2 ^ 16) (hs : serialCallStep driver s = some s') :
    s'.port.readBuf.count < 2 ^ 16 := by
  rw [serialCallStep] at hs
  split at hs
  · cases hs
    exact h
  · obtain ⟨_, -, rfl⟩ := Option.map_eq_some_iff.1 hs
    exact h
  · split_ifs at hs
    cases hs
    exact count_readSection_lt _ _
  · cases hs
    exact h
  · cases hs
    exact h
  · cases hs

/-- The number of bytes to read stays a `uint16_t`. -/
theorem fits_step (h : s.port.readBuf.count < 2 ^ 16) (hs : serialStep driver s e = some s') :
    s'.port.readBuf.count < 2 ^ 16 := by
  cases e with
  | call => exact fits_callStep h hs
  | timeout =>
      obtain ⟨count, -, rfl⟩ := serialStep_timeout hs
      exact h
  | flag error =>
      cases hs
      exact h
  | readTask buf =>
      obtain ⟨rb, hwrite, rfl⟩ := Option.map_eq_some_iff.1 hs
      exact count_othersWrite_lt hwrite
  | otherRead count =>
      obtain ⟨rb, hread, rfl⟩ := Option.map_eq_some_iff.1 hs
      exact count_othersRead_lt hread
  | writeTask length =>
      obtain ⟨rb, -, rfl⟩ := Option.map_eq_some_iff.1 hs
      exact h
  | otherWrite buf =>
      obtain ⟨rb, -, rfl⟩ := Option.map_eq_some_iff.1 hs
      exact h

theorem SerialState.Accounted.step (h : s.Accounted) (hs : serialStep driver s e = some s') :
    s'.Accounted := by
  refine ⟨fits_step h.fits hs, ?_⟩
  by_cases he : e = .call
  · subst he
    exact h.moved.callStep h.fits hs
  · by_cases ht : e = .timeout
    · subst ht
      obtain ⟨count, hpc, rfl⟩ := serialStep_timeout hs
      have htouched := h.moved
      rw [hpc] at htouched
      simp only [SerialPc.Accounts] at htouched ⊢
      simp [htouched]
    · obtain ⟨hpc, htouched⟩ := serialStep_others he ht hs
      rw [hpc, htouched]
      exact h.moved

end Moved

/-! ## Failed calls -/

section Failed

variable {driver : SerialDriver} {s s' t : SerialState} {e : SerialEvent}

theorem SerialDriver.writeEnd_eq (error : Bool) (rv : ℤ) :
    driver.writeEnd error rv = serialWriteEnd error rv := by
  cases driver with
  | _ => rfl

theorem SerialDriver.readEnd_eq (error : Bool) (rv : ℤ) :
    driver.readEnd error rv = serialReadEnd error rv := by
  cases driver with
  | _ => rfl

theorem serialCallStep_written {rv : ℤ} (hpc : s.pc = .written rv) :
    serialCallStep driver s =
      some { s with pc := .returned (serialWriteEnd s.port.error rv).1
                            (serialWriteEnd s.port.error rv).2 } := by
  simp only [serialCallStep, hpc, driver.writeEnd_eq]

theorem serialCallStep_fetched {rv : ℤ} (hpc : s.pc = .fetched rv) :
    serialCallStep driver s =
      some { s with pc := .returned (serialReadEnd s.port.error rv).1
                            (serialReadEnd s.port.error rv).2 } := by
  simp only [serialCallStep, hpc, driver.readEnd_eq]

/-- A write that fails has found the flag. -/
theorem error_of_writeEnd {error : Bool} {rv : ℤ} (hrv : 0 ≤ rv)
    (h : (serialWriteEnd error rv).1 = -1) : error = true := by
  cases error with
  | true => rfl
  | false =>
      have heq : rv = -1 := h
      omega

/-- A read that fails has found the flag, or no bytes. -/
theorem error_of_readEnd {error : Bool} {rv : ℤ} (h : (serialReadEnd error rv).1 = -1) :
    error = true ∨ rv < 0 := by
  rw [serialReadEnd] at h
  split_ifs at h with hneg herror
  · exact .inr hneg
  · exact .inl herror
  · have heq : rv = -1 := h
    exact .inr (by omega)

/-- A step of the call that does not look at the flag does not return. -/
theorem not_failed_callStep (hs : serialCallStep driver s = some s')
    (hwritten : ∀ rv, s.pc ≠ .written rv) (hfetched : ∀ rv, s.pc ≠ .fetched rv) :
    ¬ s'.Failed := by
  rintro ⟨errno, herrno⟩
  rw [serialCallStep] at hs
  split at hs
  · cases hs
    cases herrno
  · obtain ⟨_, -, rfl⟩ := Option.map_eq_some_iff.1 hs
    cases herrno
  · split_ifs at hs
    cases hs
    cases herrno
  · exact absurd ‹_› (hwritten _)
  · exact absurd ‹_› (hfetched _)
  · cases hs

/-- A step of the call that finds the flag harmless keeps it atomic. -/
theorem atomic_callStep (hs : serialCallStep driver s = some s') (h : s.Accounted)
    (hflag : FlagHarmless s .call) : s'.Atomic := by
  have hmoved := h.moved
  have hpc := hflag rfl
  by_cases hwritten : ∃ rv, s.pc = .written rv
  · obtain ⟨rv, hrv⟩ := hwritten
    rw [hrv] at hmoved hpc
    rw [serialCallStep_written hrv] at hs
    cases hs
    rintro ⟨errno, herrno⟩
    have herror := error_of_writeEnd hmoved.1 (SerialPc.returned.inj herrno).1
    rcases hpc with hclear | rfl
    · rw [herror] at hclear
      cases hclear
    · exact Bool.eq_false_iff.2 fun htouched => hmoved.2.1 htouched rfl
  · by_cases hfetched : ∃ rv, s.pc = .fetched rv
    · obtain ⟨rv, hrv⟩ := hfetched
      rw [hrv] at hmoved hpc
      rw [serialCallStep_fetched hrv] at hs
      cases hs
      rintro ⟨errno, herrno⟩
      have hnone : rv ≤ 0 := by
        rcases error_of_readEnd (SerialPc.returned.inj herrno).1 with herror | hneg
        · exact hpc.resolve_left fun hclear => by rw [herror] at hclear; cases hclear
        · exact hneg.le
      exact Bool.eq_false_iff.2 fun htouched => absurd (hmoved.1 htouched) (by omega)
    · intro hfailed
      exact absurd hfailed (not_failed_callStep hs (not_exists.1 hwritten) (not_exists.1 hfetched))

/-- A step that finds the flag harmless keeps a call atomic. -/
theorem atomic_step (hs : serialStep driver s e = some s') (ha : s.Atomic) (h : s.Accounted)
    (hflag : FlagHarmless s e) : s'.Atomic := by
  by_cases he : e = .call
  · subst he
    exact atomic_callStep hs h hflag
  · by_cases ht : e = .timeout
    · subst ht
      obtain ⟨count, -, rfl⟩ := serialStep_timeout hs
      rintro ⟨errno, herrno⟩
      cases herrno
    · obtain ⟨hpc, htouched⟩ := serialStep_others he ht hs
      rw [SerialState.Atomic, SerialState.Failed, hpc, htouched]
      exact ha

/-- A step that does not find it harmless makes the call fail with a ring buffer changed. -/
theorem failed_of_not_harmless (hs : serialStep driver s e = some s') (h : s.Accounted)
    (hflag : ¬ FlagHarmless s e) : s'.Failed ∧ s'.touched = true := by
  have hmoved := h.moved
  obtain ⟨rfl, hpc⟩ := Classical.not_imp.1 hflag
  cases hrv : s.pc with
  | written rv =>
      rw [hrv] at hmoved hpc
      obtain ⟨herror, hne⟩ := not_or.1 hpc
      rw [Bool.not_eq_false] at herror
      rw [serialStep, serialCallStep_written hrv] at hs
      cases hs
      exact ⟨⟨.eproto, by rw [herror]; rfl⟩, hmoved.2.2 hne⟩
  | fetched rv =>
      rw [hrv] at hmoved hpc
      obtain ⟨herror, hpos⟩ := not_or.1 hpc
      rw [Bool.not_eq_false] at herror
      have hrv' : ¬ rv < 0 := by omega
      rw [serialStep, serialCallStep_fetched hrv] at hs
      cases hs
      refine ⟨⟨.eproto, ?_⟩, hmoved.2 (by omega)⟩
      simp only [herror, serialReadEnd, hrv', if_false, if_true]
  | writing rest length =>
      rw [hrv] at hpc
      exact absurd trivial hpc
  | reading count =>
      rw [hrv] at hpc
      exact absurd trivial hpc
  | returned rv errno =>
      rw [hrv] at hpc
      exact absurd trivial hpc

/-- A call that has returned stays as it is. -/
theorem failed_step (hs : serialStep driver s e = some s')
    (h : s.Failed ∧ s.touched = true) : s'.Failed ∧ s'.touched = true := by
  obtain ⟨errno, herrno⟩ := h.1
  by_cases he : e = .call
  · subst he
    simp only [serialStep, serialCallStep, herrno, reduceCtorEq] at hs
  · by_cases ht : e = .timeout
    · subst ht
      obtain ⟨count, hpc, -⟩ := serialStep_timeout hs
      rw [herrno] at hpc
      cases hpc
    · obtain ⟨hpc, htouched⟩ := serialStep_others he ht hs
      exact ⟨⟨errno, hpc.trans herrno⟩, htouched.trans h.2⟩

/-- Whatever else happens on the port, a call that fails has changed no ring buffer if and
only if the flag is clear where the call looks at it, or the call has moved no bytes. -/
theorem serial_atomic_iff {port : PortBufs} (hfits : port.readBuf.count < 2 ^ 16)
    (c : SerialCall) {events : List SerialEvent}
    (hrun : run (serialStep driver) (SerialState.start port c) events = some s) :
    s.Atomic ↔ Along FlagHarmless (serialStep driver) (SerialState.start port c) events := by
  have hstart := SerialState.accounted_start hfits c
  constructor
  · intro ha
    by_contra halong
    obtain ⟨before, e, after, t, rfl, -, hbefore, hflag⟩ := exists_of_not_along halong
    obtain ⟨t', ht', hafter⟩ := run_append_eq_some.1 hrun
    obtain rfl : t = t' := Option.some.inj (hbefore.symm.trans ht')
    obtain ⟨u, hu, hrest⟩ := run_cons_eq_some.1 hafter
    have haccounted : t.Accounted :=
      run_invariant (fun _ _ _ hi hstep => hi.step hstep) hstart hbefore
    have hfailed := run_invariant (fun _ _ _ hi hstep => failed_step hstep hi)
      (failed_of_not_harmless hu haccounted hflag) hrest
    rw [ha hfailed.1] at hfailed
    cases hfailed.2
  · intro halong
    have hstep : ∀ s e s', s.Accounted ∧ s.Atomic → FlagHarmless s e →
        serialStep driver s e = some s' → s'.Accounted ∧ s'.Atomic :=
      fun s e s' hi hflag hs => ⟨hi.1.step hs, atomic_step hs hi.2 hi.1 hflag⟩
    have hatomic : (SerialState.start port c).Atomic := by
      rintro ⟨errno, herrno⟩
      cases c with
      | write buf => cases herrno
      | read count => cases herrno
    exact (halong.invariant hstep ⟨hstart, hatomic⟩ hrun).2

/-- A ring buffer of two bytes without data. -/
def emptyPair : RingBuf := ⟨[0, 0], 0, 0, 2, 0, false, false⟩

/-- The same buffer after the byte 7 has been put into it. -/
def pairOfSeven : RingBuf := ⟨[7, 0], 1, 0, 2, 1, false, true⟩

/-- A write of one byte, with the flag set and cleared again before the call looks at it. -/
theorem serial_atomic_write :
    SerialState.Atomic ⟨⟨emptyPair, pairOfSeven, false⟩, .returned 1 .ok, true⟩ ↔
      Along FlagHarmless (serialStep .usart)
        (SerialState.start ⟨emptyPair, emptyPair, false⟩ (.write [7]))
        [.call, .flag true, .call, .flag false, .call] := by
  have hrun : run (serialStep .usart)
      (SerialState.start ⟨emptyPair, emptyPair, false⟩ (.write [7]))
      [.call, .flag true, .call, .flag false, .call] =
        some ⟨⟨emptyPair, pairOfSeven, false⟩, .returned 1 .ok, true⟩ := by decide
  exact serial_atomic_iff (by decide) (.write [7]) hrun

/-- A write that fails has put its byte into the buffer. -/
theorem not_serial_atomic :
    ¬ ∀ (driver : SerialDriver) (port : PortBufs) (c : SerialCall) (events : List SerialEvent)
      (s : SerialState), port.readBuf.count < 2 ^ 16 →
        run (serialStep driver) (SerialState.start port c) events = some s → s.Atomic := by
  intro hall
  have hatomic := hall .usart ⟨emptyPair, emptyPair, true⟩ (.write [7]) [.call, .call, .call]
    ⟨⟨emptyPair, pairOfSeven, true⟩, .returned (-1) .eproto, true⟩ (by decide) (by decide)
  exact absurd (hatomic ⟨.eproto, rfl⟩) (by decide)

end Failed

end Catpilot
