import Catpilot.Cubeio.Crc
import Mathlib.Data.List.OfFn

/-!
# The attempts of a register transfer

`cubeio_read_regs` and `cubeio_write_regs` make up to three transfers into one response
buffer, in which the checksum is cleared before it is compared. A transfer that succeeds
overwrites the whole buffer. `CubeioExchange` has beside the result the number of transfers
that were made, and the bytes of the response that were read, as their offsets.
-/

namespace Catpilot

/-- A call of `usart_transmit_receive`: its result, what it makes of the response buffer, and
the memory behind the buffer. -/
structure UsartTransfer where
  rv : ℤ
  fill : CubeioPacket → CubeioPacket
  behind : List UInt8
  overwrites : rv = success → ∀ rx rx', fill rx = fill rx'

/-- `cubeio_packet_t pkt = {0}`. -/
def CubeioPacket.zero : CubeioPacket := ⟨⟨0, by decide⟩, ⟨0, by decide⟩, 0, 0, 0, fun _ => 0⟩

/-- `get_pkt_count`. -/
def getPktCount (pkt : CubeioPacket) : ℕ := pkt.count

/-- `get_pkt_code`. -/
def getPktCode (pkt : CubeioPacket) : Fin 4 := pkt.code

/-! ## The bytes that are read -/

/-- `sizeof(cubeio_packet_t)`. -/
def sizeofCubeioPacket : ℕ := 48

/-- The byte with the count and the code, which `get_pkt_count` and `get_pkt_code` read. -/
def headReads : List ℕ := [0]

/-- What `get_pkt_size` reads: the count, and the register at that index. -/
def getPktSizeReads (pkt : CubeioPacket) : List ℕ :=
  headReads ++ [4 + 2 * getPktCount pkt, 4 + 2 * getPktCount pkt + 1]

/-- What `crc_packet` reads: the count, and the bytes up to the register at that index. -/
def crcPacketReads (pkt : CubeioPacket) : List ℕ :=
  headReads ++ List.range (4 + 2 * getPktCount pkt)

/-- The reads of the comparison of checksums: the one in the response and the computed one. -/
def crcReads (pkt : CubeioPacket) : List ℕ := [1] ++ crcPacketReads pkt

/-- What `memcpy` reads of the registers. -/
def regsReads (count : ℕ) : List ℕ := (List.range (2 * count)).map (4 + ·)

/-! ## The attempts -/

/-- What the attempts come to. -/
structure CubeioExchange where
  rv : ℤ
  regs : List UInt16
  transfers : ℕ
  reads : List ℕ

/-- The attempts after a failed one. -/
def CubeioExchange.after (e : CubeioExchange) (reads : List ℕ) : CubeioExchange :=
  { e with transfers := e.transfers + 1, reads := reads ++ e.reads }

/-- The loop of `cubeio_write_regs`, with the result so far and the response buffer. -/
def writeRegsLoop : ℤ → CubeioPacket → List UsartTransfer → CubeioExchange
  | rv, _, [] => ⟨rv, [], 0, []⟩
  | _, rx, t :: ts =>
      let rx := t.fill rx
      if t.rv ≠ success then (writeRegsLoop t.rv rx ts).after []
      else if getPktCode rx ≠ pktCodeSuccess then
        (writeRegsLoop resultEinval rx ts).after headReads
      else
        let gotCrc := rx.crc
        let rx := { rx with crc := 0 }
        if crcPacket rx t.behind ≠ gotCrc then
          (writeRegsLoop resultEproto rx ts).after (headReads ++ crcReads rx)
        else ⟨t.rv, [], 1, headReads ++ crcReads rx⟩

/-- The loop of `cubeio_read_regs`, with the result so far and the response buffer. -/
def readRegsLoop (count : ℕ) (regs : List UInt16) :
    ℤ → CubeioPacket → List UsartTransfer → CubeioExchange
  | rv, _, [] => ⟨rv, regs, 0, []⟩
  | _, rx, t :: ts =>
      let rx := t.fill rx
      if t.rv ≠ success then (readRegsLoop count regs t.rv rx ts).after []
      else if getPktCode rx ≠ pktCodeSuccess then
        (readRegsLoop count regs resultEinval rx ts).after headReads
      else if getPktCount rx ≠ count then
        (readRegsLoop count regs resultEinval rx ts).after
          (headReads ++ headReads ++ getPktSizeReads rx)
      else
        let gotCrc := rx.crc
        let rx := { rx with crc := 0 }
        if crcPacket rx t.behind ≠ gotCrc then
          (readRegsLoop count regs resultEproto rx ts).after
            (headReads ++ headReads ++ crcReads rx)
        else
          ⟨t.rv, (List.ofFn rx.regs).take count, 1,
            headReads ++ headReads ++ crcReads rx ++ regsReads count⟩

/-- `cubeio_write_regs`, for the transfers it makes. -/
def writeRegs (ts : Fin 3 → UsartTransfer) : CubeioExchange :=
  writeRegsLoop 0 CubeioPacket.zero (List.ofFn ts)

/-- `cubeio_read_regs` into `regs`, for the transfers it makes. -/
def readRegs (regs : List UInt16) (ts : Fin 3 → UsartTransfer) : CubeioExchange :=
  readRegsLoop regs.length regs 0 CubeioPacket.zero (List.ofFn ts)

/-! ## One attempt -/

namespace UsartTransfer

/-- The response, where the transfer succeeds. -/
def response (t : UsartTransfer) : CubeioPacket := t.fill CubeioPacket.zero

/-- The answer that the transfer gives, in the buffer as it is at first. -/
def answer (t : UsartTransfer) : UsartAnswer := ⟨t.rv, t.response, t.behind⟩

/-- A response that a read accepts. -/
structure Accepted (count : ℕ) (t : UsartTransfer) : Prop where
  rv : t.rv = success
  code : getPktCode t.response = pktCodeSuccess
  count : getPktCount t.response = count
  crc : t.answer.crcOk = true

/-- A response that a write accepts. -/
structure WriteAccepted (t : UsartTransfer) : Prop where
  rv : t.rv = success
  code : getPktCode t.response = pktCodeSuccess
  crc : t.answer.crcOk = true

/-- The error of an attempt that a read does not accept. -/
def readError (count : ℕ) (t : UsartTransfer) : ℤ :=
  if t.rv ≠ success then t.rv
  else if getPktCode t.response ≠ pktCodeSuccess ∨ getPktCount t.response ≠ count then resultEinval
  else resultEproto

/-- What a read looks at in a response that it does not accept. -/
def readReads (count : ℕ) (t : UsartTransfer) : List ℕ :=
  if t.rv ≠ success then []
  else if getPktCode t.response ≠ pktCodeSuccess then headReads
  else if getPktCount t.response ≠ count then headReads ++ headReads ++ getPktSizeReads t.response
  else headReads ++ headReads ++ crcReads t.response

/-- What a write looks at in a response that it does not accept. -/
def writeReads (t : UsartTransfer) : List ℕ :=
  if t.rv ≠ success then []
  else if getPktCode t.response ≠ pktCodeSuccess then headReads
  else headReads ++ crcReads t.response

variable {t : UsartTransfer} {count : ℕ}

theorem fill_eq (h : t.rv = success) (rx : CubeioPacket) : t.fill rx = t.response :=
  t.overwrites h rx CubeioPacket.zero

theorem crcOk_eq_true_iff : t.answer.crcOk = true ↔
    crcPacket { t.response with crc := 0 } t.behind = t.response.crc := decide_eq_true_iff

theorem readError_ne (count : ℕ) (t : UsartTransfer) : t.readError count ≠ success := by
  rw [readError]
  split_ifs with hrv hbad
  · exact hrv
  · decide
  · decide

end UsartTransfer

section Loop

variable {t : UsartTransfer} {count : ℕ}

/-- An accepted response ends the loop. -/
theorem readRegsLoop_of_accepted (h : t.Accepted count) (regs : List UInt16) (rv : ℤ)
    (rx : CubeioPacket) (ts : List UsartTransfer) :
    readRegsLoop count regs rv rx (t :: ts) =
      ⟨success, (List.ofFn t.response.regs).take count, 1,
        headReads ++ headReads ++ crcReads t.response ++ regsReads count⟩ := by
  have hcrc := UsartTransfer.crcOk_eq_true_iff.1 h.crc
  rw [readRegsLoop]
  simp only [t.fill_eq h.rv]
  rw [if_neg (not_not.2 h.rv), if_neg (not_not.2 h.code), if_neg (not_not.2 h.count),
    if_neg (not_not.2 hcrc), h.rv]
  rfl

/-- Any other attempt leaves its error, and the loop goes on. -/
theorem readRegsLoop_of_not_accepted (h : ¬ t.Accepted count) (regs : List UInt16) (rv : ℤ)
    (rx : CubeioPacket) (ts : List UsartTransfer) :
    ∃ rx', readRegsLoop count regs rv rx (t :: ts) =
      (readRegsLoop count regs (t.readError count) rx' ts).after (t.readReads count) := by
  rw [readRegsLoop, UsartTransfer.readError, UsartTransfer.readReads]
  by_cases hrv : t.rv = success
  · simp only [t.fill_eq hrv]
    rw [if_neg (not_not.2 hrv), if_neg (not_not.2 hrv), if_neg (not_not.2 hrv)]
    by_cases hcode : getPktCode t.response = pktCodeSuccess
    · by_cases hcount : getPktCount t.response = count
      · have hcrc : crcPacket { t.response with crc := 0 } t.behind ≠ t.response.crc := fun hcrc =>
          h ⟨hrv, hcode, hcount, UsartTransfer.crcOk_eq_true_iff.2 hcrc⟩
        have hgood : ¬ (getPktCode t.response ≠ pktCodeSuccess ∨ getPktCount t.response ≠ count) :=
          not_or.2 ⟨not_not.2 hcode, not_not.2 hcount⟩
        refine ⟨{ t.response with crc := 0 }, ?_⟩
        rw [if_neg hgood, if_neg (not_not.2 hcode), if_neg (not_not.2 hcount),
          if_neg (not_not.2 hcode), if_neg (not_not.2 hcount), if_pos hcrc]
        rfl
      · exact ⟨t.response, by
          rw [if_pos (Or.inr hcount), if_neg (not_not.2 hcode), if_pos hcount,
            if_neg (not_not.2 hcode), if_pos hcount]⟩
    · exact ⟨t.response, by rw [if_pos (Or.inl hcode), if_pos hcode, if_pos hcode]⟩
  · exact ⟨t.fill rx, by rw [if_pos hrv, if_pos hrv, if_pos hrv]⟩

/-- The loop of a write ends at an accepted response. -/
theorem writeRegsLoop_of_accepted (h : t.WriteAccepted) (rv : ℤ) (rx : CubeioPacket)
    (ts : List UsartTransfer) :
    writeRegsLoop rv rx (t :: ts) = ⟨success, [], 1, headReads ++ crcReads t.response⟩ := by
  have hcrc := UsartTransfer.crcOk_eq_true_iff.1 h.crc
  rw [writeRegsLoop]
  simp only [t.fill_eq h.rv]
  rw [if_neg (not_not.2 h.rv), if_neg (not_not.2 h.code), if_neg (not_not.2 hcrc), h.rv]
  rfl

/-- The loop of a write goes on after any other attempt. -/
theorem writeRegsLoop_of_not_accepted (h : ¬ t.WriteAccepted) (rv : ℤ) (rx : CubeioPacket)
    (ts : List UsartTransfer) :
    ∃ rv' rx', writeRegsLoop rv rx (t :: ts) =
      (writeRegsLoop rv' rx' ts).after t.writeReads := by
  rw [writeRegsLoop, UsartTransfer.writeReads]
  by_cases hrv : t.rv = success
  · simp only [t.fill_eq hrv]
    rw [if_neg (not_not.2 hrv), if_neg (not_not.2 hrv)]
    by_cases hcode : getPktCode t.response = pktCodeSuccess
    · have hcrc : crcPacket { t.response with crc := 0 } t.behind ≠ t.response.crc := fun hcrc =>
        h ⟨hrv, hcode, UsartTransfer.crcOk_eq_true_iff.2 hcrc⟩
      refine ⟨resultEproto, { t.response with crc := 0 }, ?_⟩
      rw [if_neg (not_not.2 hcode), if_neg (not_not.2 hcode), if_pos hcrc]
      rfl
    · exact ⟨resultEinval, t.response, by rw [if_pos hcode, if_pos hcode]⟩
  · exact ⟨t.rv, t.fill rx, by rw [if_pos hrv, if_pos hrv]⟩

/-- What the loop reads is what each attempt reads. -/
theorem reads_after (e : CubeioExchange) (reads : List ℕ) : (e.after reads).reads =
    reads ++ e.reads := rfl

end Loop

/-! ## All attempts -/

section Attempts

variable {before : List UsartTransfer} {t : UsartTransfer} {count : ℕ}

/-- The first accepted response is the result, and the last one that is looked at. -/
theorem readRegsLoop_append_accepted (hbefore : ∀ a ∈ before, ¬ a.Accepted count)
    (h : t.Accepted count) (regs : List UInt16) (rv : ℤ) (rx : CubeioPacket)
    (after : List UsartTransfer) :
    ∃ reads, readRegsLoop count regs rv rx (before ++ t :: after) =
      ⟨success, (List.ofFn t.response.regs).take count, before.length + 1, reads⟩ := by
  induction before generalizing rv rx with
  | nil => exact ⟨_, readRegsLoop_of_accepted h regs rv rx after⟩
  | cons a before ih =>
      obtain ⟨rx', hstep⟩ := readRegsLoop_of_not_accepted (hbefore a List.mem_cons_self) regs rv rx
        (before ++ t :: after)
      obtain ⟨reads, hloop⟩ := ih (fun b hb => hbefore b (List.mem_cons_of_mem a hb))
        (a.readError count) rx'
      rw [List.cons_append, hstep, hloop]
      exact ⟨_, rfl⟩

/-- Without an accepted response, the error of the last attempt is the result. -/
theorem readRegsLoop_append_not_accepted (hbefore : ∀ a ∈ before, ¬ a.Accepted count)
    (h : ¬ t.Accepted count) (regs : List UInt16) (rv : ℤ) (rx : CubeioPacket) :
    ∃ reads, readRegsLoop count regs rv rx (before ++ [t]) =
      ⟨t.readError count, regs, before.length + 1, reads⟩ := by
  induction before generalizing rv rx with
  | nil =>
      obtain ⟨rx', hstep⟩ := readRegsLoop_of_not_accepted h regs rv rx []
      rw [List.nil_append, hstep]
      exact ⟨_, rfl⟩
  | cons a before ih =>
      obtain ⟨rx', hstep⟩ := readRegsLoop_of_not_accepted (hbefore a List.mem_cons_self) regs rv rx
        (before ++ [t])
      obtain ⟨reads, hloop⟩ := ih (fun b hb => hbefore b (List.mem_cons_of_mem a hb))
        (a.readError count) rx'
      rw [List.cons_append, hstep, hloop]
      exact ⟨_, rfl⟩

theorem readAttempts_answer (regs : List UInt16) (rv : ℤ) (attempts : List UsartAnswer) :
    readAttempts count regs rv (t.answer :: attempts) =
      if t.rv ≠ success then readAttempts count regs t.rv attempts
      else if getPktCode t.response ≠ pktCodeSuccess then
        readAttempts count regs resultEinval attempts
      else if getPktCount t.response ≠ count then readAttempts count regs resultEinval attempts
      else if t.answer.crcOk = false then readAttempts count regs resultEproto attempts
      else (t.rv, (List.ofFn t.response.regs).take count) := rfl

theorem readAttempts_of_accepted (h : t.Accepted count) (regs : List UInt16) (rv : ℤ)
    (attempts : List UsartAnswer) : readAttempts count regs rv (t.answer :: attempts) =
      (success, (List.ofFn t.response.regs).take count) := by
  have hcrc : ¬ t.answer.crcOk = false := by
    rw [h.crc]
    decide
  rw [readAttempts_answer, if_neg (not_not.2 h.rv), if_neg (not_not.2 h.code),
    if_neg (not_not.2 h.count), if_neg hcrc, h.rv]

theorem readAttempts_of_not_accepted (h : ¬ t.Accepted count) (regs : List UInt16) (rv : ℤ)
    (attempts : List UsartAnswer) : readAttempts count regs rv (t.answer :: attempts) =
      readAttempts count regs (t.readError count) attempts := by
  rw [readAttempts_answer, UsartTransfer.readError]
  by_cases hrv : t.rv = success
  · rw [if_neg (not_not.2 hrv), if_neg (not_not.2 hrv)]
    by_cases hcode : getPktCode t.response = pktCodeSuccess
    · rw [if_neg (not_not.2 hcode)]
      by_cases hcount : getPktCount t.response = count
      · have hcrc : t.answer.crcOk = false := by
          rw [← Bool.not_eq_true]
          exact fun hcrc => h ⟨hrv, hcode, hcount, hcrc⟩
        rw [if_neg (not_not.2 hcount), if_pos hcrc,
          if_neg (not_or.2 ⟨not_not.2 hcode, not_not.2 hcount⟩)]
      · rw [if_pos hcount, if_pos (Or.inr hcount)]
    · rw [if_pos hcode, if_pos (Or.inl hcode)]
  · rw [if_pos hrv, if_pos hrv]

/-- The read with the response buffer refines the one that gets the answers as they are in the
buffer. -/
theorem readRegsLoop_eq_readAttempts (regs : List UInt16) (rv : ℤ) (rx : CubeioPacket)
    (ts : List UsartTransfer) :
    ((readRegsLoop count regs rv rx ts).rv, (readRegsLoop count regs rv rx ts).regs) =
      readAttempts count regs rv (ts.map UsartTransfer.answer) := by
  induction ts generalizing rv rx with
  | nil => rfl
  | cons t ts ih =>
      rw [List.map_cons]
      by_cases h : t.Accepted count
      · rw [readRegsLoop_of_accepted h, readAttempts_of_accepted h]
      · obtain ⟨rx', hstep⟩ := readRegsLoop_of_not_accepted h regs rv rx ts
        rw [hstep, readAttempts_of_not_accepted h]
        exact ih (t.readError count) rx'

end Attempts

section Read

variable (regs : List UInt16) (ts : Fin 3 → UsartTransfer)

/-- The first of the transfers that is accepted, if there is one. -/
theorem exists_first_accepted {count : ℕ} (h : ∃ i, (ts i).Accepted count) :
    ∃ i, (ts i).Accepted count ∧ ∀ j < i, ¬ (ts j).Accepted count := by
  classical
  exact ⟨Fin.find _ h, Fin.find_spec h, fun j hj => Fin.find_min h hj⟩

/-- The transfers up to the first accepted one are made, and no others. -/
theorem readRegs_of_first {i : Fin 3} (h : (ts i).Accepted regs.length)
    (hfirst : ∀ j < i, ¬ (ts j).Accepted regs.length) :
    ∃ reads, readRegs regs ts =
      ⟨success, (List.ofFn (ts i).response.regs).take regs.length, i + 1, reads⟩ := by
  have hbefore : ∀ a ∈ (List.ofFn ts).take i, ¬ a.Accepted regs.length := by
    intro a ha
    obtain ⟨j, hj, rfl⟩ := List.mem_take_iff_getElem.1 ha
    rw [List.getElem_ofFn]
    apply hfirst
    rw [Fin.lt_def]
    exact (Nat.lt_min.1 hj).1
  have hsplit : List.ofFn ts = (List.ofFn ts).take i ++ ts i :: (List.ofFn ts).drop (i + 1) := by
    have hi : (i : ℕ) < (List.ofFn ts).length := by
      rw [List.length_ofFn]
      exact i.isLt
    have hget : (List.ofFn ts)[(i : ℕ)] = ts i := by rw [List.getElem_ofFn]
    rw [← hget, List.getElem_cons_drop, List.take_append_drop]
  rw [readRegs, hsplit]
  obtain ⟨reads, hloop⟩ := readRegsLoop_append_accepted hbefore h regs 0 CubeioPacket.zero
    ((List.ofFn ts).drop (i + 1))
  have hlen : ((List.ofFn ts).take i).length = i := by
    rw [List.length_take, List.length_ofFn, Nat.min_eq_left (Nat.le_of_lt i.isLt)]
  exact ⟨reads, by rw [hloop, hlen]⟩

/-- Without an accepted response all three transfers are made. -/
theorem readRegs_of_forall_not (h : ∀ i, ¬ (ts i).Accepted regs.length) :
    ∃ reads, readRegs regs ts = ⟨(ts 2).readError regs.length, regs, 3, reads⟩ := by
  have hbefore : ∀ a ∈ [ts 0, ts 1], ¬ a.Accepted regs.length := by
    intro a ha
    rcases List.mem_pair.1 ha with rfl | rfl
    · exact h 0
    · exact h 1
  have hsplit : List.ofFn ts = [ts 0, ts 1] ++ [ts 2] := List.ofFn_succ
  rw [readRegs, hsplit]
  exact readRegsLoop_append_not_accepted hbefore (h 2) regs 0 CubeioPacket.zero

/-- A read returns `SUCCESS` exactly when one of its responses is accepted; then the caller has
the registers of the first of these, and no further transfer is made. Otherwise it returns the
error of the last attempt, and the caller's registers are as before. -/
theorem readRegs_spec (h : regs.length ≤ 22) :
    ((readRegs regs ts).rv = success ↔ ∃ i, (ts i).Accepted regs.length) ∧
      (∀ i, (ts i).Accepted regs.length → (∀ j < i, ¬ (ts j).Accepted regs.length) →
        (readRegs regs ts).regs = (List.ofFn (ts i).response.regs).take regs.length ∧
          (readRegs regs ts).regs.length = regs.length ∧
          (readRegs regs ts).transfers = i + 1) ∧
      ((∀ i, ¬ (ts i).Accepted regs.length) →
        (readRegs regs ts).rv = (ts 2).readError regs.length ∧ (readRegs regs ts).rv ≠ success ∧
          (readRegs regs ts).regs = regs) := by
  have hfail : (∀ i, ¬ (ts i).Accepted regs.length) →
      (readRegs regs ts).rv = (ts 2).readError regs.length ∧ (readRegs regs ts).rv ≠ success ∧
        (readRegs regs ts).regs = regs := by
    intro hnone
    obtain ⟨reads, heq⟩ := readRegs_of_forall_not regs ts hnone
    rw [heq]
    exact ⟨rfl, (ts 2).readError_ne regs.length, rfl⟩
  refine ⟨⟨?_, ?_⟩, ?_, hfail⟩
  · intro hrv
    by_contra hnone
    exact (hfail (not_exists.1 hnone)).2.1 hrv
  · intro hsome
    obtain ⟨i, hi, hfirst⟩ := exists_first_accepted ts hsome
    obtain ⟨reads, heq⟩ := readRegs_of_first regs ts hi hfirst
    rw [heq]
  · intro i hi hfirst
    obtain ⟨reads, heq⟩ := readRegs_of_first regs ts hi hfirst
    rw [heq]
    refine ⟨rfl, ?_, rfl⟩
    rw [List.length_take, List.length_ofFn, Nat.min_eq_left h]

/-- A transfer in which the board answers with this packet. -/
def transferOf (rx : CubeioPacket) : UsartTransfer := ⟨success, fun _ => rx, [], fun _ _ _ => rfl⟩

/-- A transfer that times out, and leaves the buffer as it is. -/
def transferTimeout : UsartTransfer where
  rv := 116
  fill := id
  behind := []
  overwrites := fun h => absurd h (by decide)

/-- A read of one register that times out once: the response to the second transfer is taken. -/
theorem readRegs_spec_timeout :
    (readRegs [7] ![transferTimeout, transferOf responseOne, transferTimeout]).rv = success ∧
      (readRegs [7] ![transferTimeout, transferOf responseOne, transferTimeout]).regs = [0] ∧
      (readRegs [7] ![transferTimeout, transferOf responseOne, transferTimeout]).transfers = 2 := by
  obtain ⟨hiff, hfirst, -⟩ := readRegs_spec [7]
    ![transferTimeout, transferOf responseOne, transferTimeout] (by decide)
  have haccepted : (transferOf responseOne).Accepted 1 := ⟨rfl, rfl, rfl, by decide +kernel⟩
  have hnot : ¬ transferTimeout.Accepted 1 := fun h => absurd h.rv (by decide)
  obtain ⟨hregs, -, htransfers⟩ := hfirst 1 haccepted (fun j hj => by
    rw [(Fin.lt_one_iff j).1 hj]
    exact hnot)
  exact ⟨hiff.2 ⟨1, haccepted⟩, hregs, htransfers⟩

end Read

/-! ## The bounds of the response -/

/-- Every offset is in the packet. -/
def InPacket (reads : List ℕ) : Prop := ∀ i ∈ reads, i < sizeofCubeioPacket

instance (reads : List ℕ) : Decidable (InPacket reads) :=
  inferInstanceAs (Decidable (∀ i ∈ reads, i < sizeofCubeioPacket))

/-- Every element up to the first one with `stop`, this one included, has `p`. -/
def UpTo {α : Type*} (stop p : α → Prop) : List α → Prop
  | [] => True
  | a :: l => p a ∧ (¬ stop a → UpTo stop p l)

/-- A write meets no `SUCCESS` response with a count above `CUBEIO_PKT_MAX_REGS`. -/
def UsartTransfer.WriteFits (t : UsartTransfer) : Prop :=
  t.rv = success → getPktCode t.response = pktCodeSuccess → getPktCount t.response ≤ 22

/-- A read meets no `SUCCESS` response with a wrong count from `CUBEIO_PKT_MAX_REGS` on. -/
def UsartTransfer.ReadFits (count : ℕ) (t : UsartTransfer) : Prop :=
  t.rv = success → getPktCode t.response = pktCodeSuccess → getPktCount t.response ≠ count →
    getPktCount t.response < 22

section Bounds

variable {t : UsartTransfer} {count : ℕ}

theorem inPacket_append {l m : List ℕ} : InPacket (l ++ m) ↔ InPacket l ∧ InPacket m :=
  List.forall_mem_append

theorem inPacket_nil : InPacket [] := fun _ hi => absurd hi List.not_mem_nil

theorem inPacket_headReads : InPacket headReads := by decide

/-- The register that `get_pkt_size` reads is one of the packet's. -/
theorem inPacket_getPktSizeReads {pkt : CubeioPacket} :
    InPacket (getPktSizeReads pkt) ↔ getPktCount pkt < 22 := by
  rw [getPktSizeReads, inPacket_append, and_iff_right inPacket_headReads]
  simp only [InPacket, sizeofCubeioPacket, List.forall_mem_cons, List.not_mem_nil,
    IsEmpty.forall_iff, implies_true, and_true]
  omega

theorem inPacket_range {n : ℕ} : InPacket (List.range n) ↔ n ≤ sizeofCubeioPacket := by
  constructor
  · intro h
    by_contra hlt
    have hlast := h (n - 1) (List.mem_range.2 (by omega))
    omega
  · intro hn i hi
    exact (List.mem_range.1 hi).trans_le hn

/-- `crc_packet` stays in the packet when the count does. -/
theorem inPacket_crcReads {pkt : CubeioPacket} :
    InPacket (crcReads pkt) ↔ getPktCount pkt ≤ 22 := by
  have hcrc : InPacket [1] := by decide
  rw [crcReads, crcPacketReads, inPacket_append, inPacket_append, and_iff_right hcrc,
    and_iff_right inPacket_headReads, inPacket_range, sizeofCubeioPacket]
  omega

theorem inPacket_regsReads (h : count ≤ 22) : InPacket (regsReads count) := by
  intro i hi
  obtain ⟨j, hj, rfl⟩ := List.mem_map.1 hi
  have hlt := List.mem_range.1 hj
  rw [sizeofCubeioPacket]
  omega

theorem inPacket_writeReads (t : UsartTransfer) : InPacket t.writeReads ↔ t.WriteFits := by
  rw [UsartTransfer.writeReads, UsartTransfer.WriteFits]
  by_cases hrv : t.rv = success
  · by_cases hcode : getPktCode t.response = pktCodeSuccess
    · rw [if_neg (not_not.2 hrv), if_neg (not_not.2 hcode), inPacket_append,
        and_iff_right inPacket_headReads, inPacket_crcReads]
      exact ⟨fun h _ _ => h, fun h => h hrv hcode⟩
    · rw [if_neg (not_not.2 hrv), if_pos hcode]
      exact iff_of_true inPacket_headReads fun _ h => absurd h hcode
  · rw [if_pos hrv]
    exact iff_of_true inPacket_nil fun h => absurd h hrv

theorem inPacket_readReads (h : count ≤ 22) (t : UsartTransfer) :
    InPacket (t.readReads count) ↔ t.ReadFits count := by
  rw [UsartTransfer.readReads, UsartTransfer.ReadFits]
  by_cases hrv : t.rv = success
  · by_cases hcode : getPktCode t.response = pktCodeSuccess
    · by_cases hcount : getPktCount t.response = count
      · rw [if_neg (not_not.2 hrv), if_neg (not_not.2 hcode), if_neg (not_not.2 hcount),
          inPacket_append, inPacket_append, inPacket_crcReads, hcount]
        exact iff_of_true ⟨⟨inPacket_headReads, inPacket_headReads⟩, h⟩
          fun _ _ hne => absurd rfl hne
      · rw [if_neg (not_not.2 hrv), if_neg (not_not.2 hcode), if_pos hcount, inPacket_append,
          inPacket_append, inPacket_getPktSizeReads]
        exact ⟨fun h _ _ _ => h.2, fun h =>
          ⟨⟨inPacket_headReads, inPacket_headReads⟩, h hrv hcode hcount⟩⟩
    · rw [if_neg (not_not.2 hrv), if_pos hcode]
      exact iff_of_true inPacket_headReads fun _ h => absurd h hcode
  · rw [if_pos hrv]
    exact iff_of_true inPacket_nil fun h => absurd h hrv

theorem inPacket_writeRegsLoop (rv : ℤ) (rx : CubeioPacket) (ts : List UsartTransfer) :
    InPacket (writeRegsLoop rv rx ts).reads ↔
      UpTo UsartTransfer.WriteAccepted UsartTransfer.WriteFits ts := by
  induction ts generalizing rv rx with
  | nil => exact iff_of_true inPacket_nil trivial
  | cons t ts ih =>
      rw [UpTo]
      by_cases h : t.WriteAccepted
      · rw [writeRegsLoop_of_accepted h, inPacket_append, and_iff_right inPacket_headReads,
          inPacket_crcReads]
        exact ⟨fun hle => ⟨fun _ _ => hle, fun hnot => absurd h hnot⟩,
          fun hfits => hfits.1 h.rv h.code⟩
      · obtain ⟨rv', rx', hstep⟩ := writeRegsLoop_of_not_accepted h rv rx ts
        rw [hstep, reads_after, inPacket_append, inPacket_writeReads, ih, forall_prop_of_true h]

theorem inPacket_readRegsLoop (hcount : count ≤ 22) (regs : List UInt16) (rv : ℤ)
    (rx : CubeioPacket) (ts : List UsartTransfer) :
    InPacket (readRegsLoop count regs rv rx ts).reads ↔
      UpTo (UsartTransfer.Accepted count) (UsartTransfer.ReadFits count) ts := by
  induction ts generalizing rv rx with
  | nil => exact iff_of_true inPacket_nil trivial
  | cons t ts ih =>
      rw [UpTo]
      by_cases h : t.Accepted count
      · rw [readRegsLoop_of_accepted h, inPacket_append, inPacket_append, inPacket_append,
          inPacket_crcReads, h.count]
        exact iff_of_true
          ⟨⟨⟨inPacket_headReads, inPacket_headReads⟩, hcount⟩, inPacket_regsReads hcount⟩
          ⟨fun _ _ hne => absurd h.count hne, fun hnot => absurd h hnot⟩
      · obtain ⟨rx', hstep⟩ := readRegsLoop_of_not_accepted h regs rv rx ts
        rw [hstep, reads_after, inPacket_append, inPacket_readReads hcount, ih,
          forall_prop_of_true h]

/-- What a write reads of the responses is in the packet if and only if no response up to the
first accepted one has code `SUCCESS` and a count above 22; what a read reads is, if and only if
none has code `SUCCESS` and a wrong count from 22 on. -/
theorem inPacket_iff (regs : List UInt16) (ts : Fin 3 → UsartTransfer) (h : regs.length ≤ 22) :
    (InPacket (writeRegs ts).reads ↔
        UpTo UsartTransfer.WriteAccepted UsartTransfer.WriteFits (List.ofFn ts)) ∧
      (InPacket (readRegs regs ts).reads ↔
        UpTo (UsartTransfer.Accepted regs.length) (UsartTransfer.ReadFits regs.length)
          (List.ofFn ts)) :=
  ⟨inPacket_writeRegsLoop 0 CubeioPacket.zero (List.ofFn ts),
    inPacket_readRegsLoop h regs 0 CubeioPacket.zero (List.ofFn ts)⟩

/-- A response with code `SUCCESS` and the count 63. -/
def responseLong : CubeioPacket := ⟨⟨63, by decide⟩, pktCodeSuccess, 0, 0, 0, fun _ => 0⟩

/-- With the long response the read of one register reads a register behind the packet. -/
theorem inPacket_iff_responseLong :
    ¬ InPacket (readRegs [7] fun _ => transferOf responseLong).reads := by
  rw [(inPacket_iff [7] (fun _ => transferOf responseLong) (by decide)).2]
  intro h
  exact absurd (h.1 rfl rfl (by decide)) (by decide)

/-- Neither a write nor a read stays in the packet with every response. -/
theorem not_inPacket :
    ¬ ∀ (regs : List UInt16) (ts : Fin 3 → UsartTransfer), regs.length ≤ 22 →
      InPacket (writeRegs ts).reads ∧ InPacket (readRegs regs ts).reads := by
  intro hall
  obtain ⟨hwrite, -⟩ := hall [7] (fun _ => transferOf responseLong) (by decide)
  have hfits := (inPacket_writeRegsLoop 0 CubeioPacket.zero _).1 hwrite
  exact absurd (hfits.1 rfl rfl) (by decide)

end Bounds

end Catpilot
