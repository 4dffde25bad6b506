import Catpilot.Ublox.Stream

/-!
# The frames as segments of the stream

Whatever the stream is, a frame that the function gives out is a segment of it, a UBX
frame follows its two start bytes and has the length and the checksum it claims, and
the frames follow each other in the stream. The invariant `Collected` ties the two
partial buffers and the state to the bytes taken since the last frame.
-/

namespace Catpilot

namespace VectorU8

/-- The bytes `l` were pushed to the empty vector; its array keeps those it has room
for. -/
structure Holds (v : VectorU8) (l : List UInt8) : Prop where
  currLen : v.currLen = l.length
  data : v.data = l.take v.vector.length

theorem Holds.nil {v : VectorU8} (h : v.currLen = 0) : v.Holds [] where
  currLen := h
  data := by rw [VectorU8.data, h, List.take_zero, List.take_nil]

theorem Holds.push {v : VectorU8} {l : List UInt8} (h : v.Holds l) (c : UInt8) :
    (v.push c).Holds (l ++ [c]) where
  currLen := by rw [push_currLen, h.currLen, List.length_append, List.length_singleton]
  data := by
    rw [push_length_vector]
    rcases Nat.lt_or_ge v.currLen v.vector.length with hlt | hge
    · have hfit : (l ++ [c]).length ≤ v.vector.length := by
        rw [List.length_append, List.length_singleton, ← h.currLen]
        exact hlt
      rw [push_data c hlt, h.data, List.take_of_length_le (h.currLen ▸ hlt.le),
        List.take_of_length_le hfit]
    · have hset : (v.push c).vector = v.vector := List.set_eq_of_length_le hge
      rw [List.take_append_of_le_length (h.currLen ▸ hge), ← h.data, VectorU8.data, VectorU8.data,
        hset, push_currLen, List.take_of_length_le hge,
        List.take_of_length_le (Nat.le_succ_of_le hge)]

/-- An assignment between arrays of one size stays inside. -/
theorem assign_length_vector {v w : VectorU8} (hroom : v.vector.length = w.vector.length) :
    (v.assign w).vector.length = v.vector.length := by
  refine Memory.length_memcpy ?_
  rw [Nat.zero_add, hroom, VectorU8.data, List.length_take]
  exact min_le_right _ _

/-- A vector of the same size that is assigned these bytes has as many of them. -/
theorem Holds.assign_data {v w : VectorU8} {l : List UInt8} (h : w.Holds l)
    (hroom : v.vector.length = w.vector.length) :
    (v.assign w).data = l.take v.vector.length := by
  have hlen : w.data.length = min w.currLen w.vector.length := List.length_take
  rw [hroom, ← h.data]
  rcases Nat.le_total w.currLen w.vector.length with hle | hge
  · exact VectorU8.assign_data hle
  · rw [min_eq_right hge, ← hroom] at hlen
    simp only [assign, VectorU8.data, Memory.memcpy, List.take_zero, List.nil_append]
    rw [← VectorU8.data, Nat.zero_add, hlen, List.drop_length, List.append_nil]
    exact List.take_of_length_le (hlen.trans_le (hroom.trans_le hge))

theorem Holds.data_eq {v : VectorU8} {l : List UInt8} (h : v.Holds l)
    (hfit : v.currLen ≤ v.vector.length) : v.data = l := by
  rw [h.data, List.take_of_length_le (h.currLen ▸ hfit)]

/-- What a byte may do to a buffer: nothing, empty it, be pushed to it, or both. -/
inductive Grows (c : UInt8) (v : VectorU8) : VectorU8 → Prop where
  | same : Grows c v v
  | clear : Grows c v v.clear
  | push : Grows c v (v.push c)
  | clearPush : Grows c v (v.clear.push c)

theorem Grows.of_clear {c : UInt8} {v v' : VectorU8} (h : v.clear.Grows c v') : v.Grows c v' := by
  cases h with
  | same => exact .clear
  | clear => exact .clear
  | push => exact .clearPush
  | clearPush => exact .clearPush

/-- The array and the capacity stay as they are. -/
theorem Grows.length_vector {c : UInt8} {v v' : VectorU8} (h : v.Grows c v') :
    v'.vector.length = v.vector.length := by
  cases h with
  | same => rfl
  | clear => rfl
  | push => exact push_length_vector v c
  | clearPush => exact push_length_vector v.clear c

theorem Grows.maxLen {c : UInt8} {v v' : VectorU8} (h : v.Grows c v') : v'.maxLen = v.maxLen := by
  cases h with
  | same => rfl
  | clear => rfl
  | push => rfl
  | clearPush => rfl

end VectorU8

/-- The length field of a UBX header, for the bytes behind the two start bytes. -/
def ubxHeaderLen (l : List UInt8) : ℕ := (l.getD 2 0).toNat + 256 * (l.getD 3 0).toNat

/-- A frame in the stream: the bytes between the frame before it and its own, its kind
and its bytes. -/
structure Segment where
  gap : List UInt8
  kind : FrameKind
  bytes : List UInt8

namespace Segment

/-- The part of the stream from the end of the frame before to the end of this one. -/
def wire (s : Segment) : List UInt8 := s.gap ++ s.bytes

/-- A UBX frame follows its start bytes, is as long as its header says, and ends with
the checksum of the rest. -/
structure UbxSound (s : Segment) : Prop where
  start : [0xb5, 0x62] <:+ s.gap
  length : ubxHeaderLen s.bytes + 6 = s.bytes.length
  checksum : ∃ body, s.bytes = body ++
    [(Checksum.fletcher body).1, (Checksum.fletcher body).2]

/-- The buffer of its kind holds the frame; that of a UBX frame all of it. -/
def InBuffer (s : Segment) (f : Framer) : Prop :=
  match s.kind with
  | .ubx => f.ubxBuf.currLen = s.bytes.length ∧ f.ubxBuf.data = s.bytes
  | .rtcm => f.rtcmBuf.Holds s.bytes

/-- The machine in the state `f` has completed this frame. -/
structure CompletedBy (s : Segment) (f : Framer) : Prop where
  inBuffer : s.InBuffer f
  sound : s.kind = .ubx → s.UbxSound

end Segment

namespace Framer

/-- What the machine has of the bytes `l` since the last frame, in each state. -/
inductive Collected (f : Framer) (l : List UInt8) : Prop where
  | reset (hs : f.rxState = .reset)
  | waitStartSc (hs : f.rxState = .waitStartSc) (hu : f.ubxBuf.currLen = 0)
      (hr : f.rtcmBuf.currLen = 0)
  | waitSc2 (hs : f.rxState = .waitSc2) (hu : f.ubxBuf.currLen = 0) (hl : [0xb5] <:+ l)
  | waitLength (hs : f.rxState = .waitLength) (gap seg : List UInt8) (hl : l = gap ++ seg)
      (hgap : [0xb5, 0x62] <:+ gap) (hseg : f.ubxBuf.Holds seg) (hlt : f.ubxBuf.currLen < 4)
  | waitRest (hs : f.rxState = .waitRest) (gap seg : List UInt8) (hl : l = gap ++ seg)
      (hgap : [0xb5, 0x62] <:+ gap) (hseg : f.ubxBuf.Holds seg) (h4 : 4 ≤ f.ubxBuf.currLen)
      (hlt : f.ubxBuf.currLen < f.ubxBuf.ubxLen + 6)
  | rtcmWaitLength (hs : f.rxState = .rtcmWaitLength) (gap seg : List UInt8)
      (hl : l = gap ++ seg) (hseg : f.rtcmBuf.Holds seg)
  | rtcmWaitRest (hs : f.rxState = .rtcmWaitRest) (gap seg : List UInt8) (hl : l = gap ++ seg)
      (hseg : f.rtcmBuf.Holds seg)

/-- The start of a frame, or filler, with both buffers empty. -/
theorem waitStartSc_collected {f : Framer} (hs : f.rxState = .waitStartSc)
    (hu : f.ubxBuf.currLen = 0) (hr : f.rtcmBuf.currLen = 0) (l : List UInt8) (c : UInt8) :
    (f.waitStartSc c).Collected (l ++ [c]) := by
  rw [Framer.waitStartSc]
  split
  · next hc =>
      rw [hc]
      exact .waitSc2 rfl hu (List.suffix_append l [0xb5])
  · split
    · exact .rtcmWaitLength rfl l [c] rfl ((VectorU8.Holds.nil hr).push c)
    · exact .waitStartSc hs hu hr

theorem waitLength_collected {f : Framer} (hs : f.rxState = .waitLength) {gap seg : List UInt8}
    (hgap : [0xb5, 0x62] <:+ gap) (hseg : f.ubxBuf.Holds seg) (hlt : f.ubxBuf.currLen < 4)
    (c : UInt8) : (f.waitLength c).Collected (gap ++ (seg ++ [c])) := by
  have hpush := hseg.push c
  simp only [Framer.waitLength]
  split
  · next hlen =>
      split
      · exact .reset rfl
      · refine .waitRest rfl gap _ rfl hgap hpush hlen.ge ?_
        simp only [hlen]
        exact Nat.lt_add_left _ (by decide)
  · next hlen =>
      rw [VectorU8.push_currLen] at hlen
      refine .waitLength hs gap _ rfl hgap hpush ?_
      simp only [VectorU8.push_currLen]
      omega

theorem rtcmWaitLength_collected {f : Framer} (hs : f.rxState = .rtcmWaitLength)
    (gap : List UInt8) {seg : List UInt8} (hseg : f.rtcmBuf.Holds seg) (c : UInt8) :
    (f.rtcmWaitLength c).Collected (gap ++ (seg ++ [c])) := by
  have hpush := hseg.push c
  simp only [Framer.rtcmWaitLength]
  split
  · split
    · exact .reset rfl
    · exact .rtcmWaitRest rfl gap _ rfl hpush
  · exact .rtcmWaitLength hs gap _ rfl hpush

/-- The buffer of a UBX frame that passed the checks: the frame is complete in it. -/
theorem ubxSound_of_crcOk {v : VectorU8} {gap seg : List UInt8} (hseg : v.Holds seg)
    (hgap : [0xb5, 0x62] <:+ gap) (hend : v.currLen = v.ubxLen + 6) (hcrc : v.ubxCrcOk = true) :
    v.data = seg ∧ (Segment.mk gap .ubx seg).UbxSound := by
  have hck : uint16Bytes (ubxCalcCrc v.vector (v.ubxLen + ubxHeaderSize)) =
      Memory.memread v.vector (ubxHeaderSize + v.ubxLen) 2 := of_decide_eq_true hcrc
  have hroom : v.currLen ≤ v.vector.length := by
    -- the two bytes compared with the checksum are in the array
    have hlen := congrArg List.length hck
    rw [Memory.memread, List.length_take, List.length_drop, ubxHeaderSize, uint16Bytes,
      List.length_cons, List.length_singleton] at hlen
    omega
  have hdata := hseg.data_eq hroom
  have hlength : ubxHeaderLen seg = v.ubxLen := by
    rw [ubxHeaderLen, VectorU8.ubxLen, VectorU8.byte_eq (by omega), VectorU8.byte_eq (by omega),
      hdata]
  refine ⟨hdata, hgap, ?_, seg.take (v.ubxLen + ubxHeaderSize), ?_⟩
  · rw [hlength, ← hend, hseg.currLen]
  · have htake :
        v.vector.take (v.ubxLen + ubxHeaderSize) = seg.take (v.ubxLen + ubxHeaderSize) := by
      rw [VectorU8.take_vector (by rw [hend, ubxHeaderSize]; omega), hdata]
    have hread : Memory.memread v.vector (ubxHeaderSize + v.ubxLen) 2 =
        seg.drop (v.ubxLen + ubxHeaderSize) := by
      rw [VectorU8.memread_vector (by rw [hend, ubxHeaderSize]; omega), hdata, Memory.memread,
        Nat.add_comm ubxHeaderSize]
      refine List.take_of_length_le ?_
      rw [List.length_drop, ← hseg.currLen, hend, ubxHeaderSize]
      omega
    rw [hread, ubxCalcCrc, htake, Checksum.foldl_fletcherStep_zero, uint16Bytes_pack] at hck
    rw [hck, List.take_append_drop]

/-- `case UBX_WAIT_REST` with the wrapping difference resolved: the frame is complete
when its size is that of its payload and six bytes more. -/
theorem waitRest_eq {f : Framer} (h4 : 4 ≤ f.ubxBuf.currLen)
    (hlt : f.ubxBuf.currLen < f.ubxBuf.ubxLen + 6) (c : UInt8) :
    f.waitRest c =
      if (f.ubxBuf.push c).currLen = (f.ubxBuf.push c).ubxLen + 6 then
        if (f.ubxBuf.push c).ubxCrcOk then
          ({ f with
            ubxBuf := f.ubxBuf.push c
            ubxFrameCnt := f.ubxFrameCnt + 1
            rxState := .reset }, some .ubx)
        else
          ({ f with
            ubxBuf := f.ubxBuf.push c
            ubxErrCrcCnt := f.ubxErrCrcCnt + 1
            rxState := .reset }, none)
      else ({ f with ubxBuf := f.ubxBuf.push c }, none) := by
  have hlen := f.ubxBuf.ubxLen_lt
  have hiff := ubxBufLenToPayloadSize_eq_iff (l := (f.ubxBuf.push c).currLen)
    (n := (f.ubxBuf.push c).ubxLen) (by rw [VectorU8.push_currLen]; omega)
    (by rw [VectorU8.push_currLen]; omega) (VectorU8.ubxLen_lt _)
  rw [waitRest]
  exact if_congr hiff rfl rfl

theorem waitRest_collected {f f' : Framer} (hs : f.rxState = .waitRest) {gap seg : List UInt8}
    {c : UInt8} (hgap : [0xb5, 0x62] <:+ gap) (hseg : f.ubxBuf.Holds seg)
    (h4 : 4 ≤ f.ubxBuf.currLen) (hlt : f.ubxBuf.currLen < f.ubxBuf.ubxLen + 6)
    (hstep : f.waitRest c = (f', none)) : f'.Collected (gap ++ (seg ++ [c])) := by
  rw [waitRest_eq h4 hlt] at hstep
  split at hstep
  · split at hstep
    · cases hstep
    · cases hstep
      exact .reset rfl
  · next hmore =>
      cases hstep
      have hpush := VectorU8.ubxLen_push h4 c
      rw [hpush, VectorU8.push_currLen] at hmore
      refine .waitRest hs gap _ rfl hgap (hseg.push c) (Nat.le_succ_of_le h4) ?_
      simp only [hpush, VectorU8.push_currLen]
      omega

theorem waitRest_segment {f f' : Framer} {gap seg : List UInt8} {c : UInt8} {kind : FrameKind}
    (hgap : [0xb5, 0x62] <:+ gap) (hseg : f.ubxBuf.Holds seg) (h4 : 4 ≤ f.ubxBuf.currLen)
    (hlt : f.ubxBuf.currLen < f.ubxBuf.ubxLen + 6) (hstep : f.waitRest c = (f', some kind)) :
    ∃ s : Segment, s.kind = kind ∧ s.wire = gap ++ seg ++ [c] ∧ s.CompletedBy f' := by
  rw [waitRest_eq h4 hlt] at hstep
  split at hstep
  · next hend =>
      split at hstep
      · next hcrc =>
          cases hstep
          have hpush := hseg.push c
          obtain ⟨hdata, hsound⟩ := ubxSound_of_crcOk hpush hgap hend hcrc
          refine ⟨⟨gap, .ubx, seg ++ [c]⟩, rfl, (List.append_assoc _ _ _).symm, ?_, fun _ => hsound⟩
          exact ⟨hpush.currLen, hdata⟩
      · cases hstep
  · cases hstep

/-- A byte that completes no frame is collected. -/
theorem byteStep_collected {f f' : Framer} {l : List UInt8} {c : UInt8} (h : f.Collected l)
    (hstep : f.byteStep c = (f', none)) : f'.Collected (l ++ [c]) := by
  cases h with
  | reset hs =>
      rw [byteStep_reset hs] at hstep
      cases hstep
      exact waitStartSc_collected rfl rfl rfl l c
  | waitStartSc hs hu hr =>
      rw [byteStep_waitStartSc hs] at hstep
      cases hstep
      exact waitStartSc_collected hs hu hr l c
  | waitSc2 hs hu hl =>
      rw [byteStep_waitSc2 hs] at hstep
      cases hstep
      by_cases hc : c = 0x62
      · obtain ⟨gap, rfl⟩ := hl
        rw [if_pos hc, hc]
        refine .waitLength rfl _ [] (List.append_nil _).symm ?_ (.nil hu) (hu.trans_lt (by decide))
        rw [List.append_assoc]
        exact List.suffix_append gap _
      · rw [if_neg hc]
        exact .reset rfl
  | waitLength hs gap seg hl hgap hseg hlt =>
      rw [byteStep_waitLength hs] at hstep
      cases hstep
      rw [hl, List.append_assoc]
      exact waitLength_collected hs hgap hseg hlt c
  | waitRest hs gap seg hl hgap hseg h4 hlt =>
      rw [byteStep_waitRest hs] at hstep
      rw [hl, List.append_assoc]
      exact waitRest_collected hs hgap hseg h4 hlt hstep
  | rtcmWaitLength hs gap seg hl hseg =>
      rw [byteStep_rtcmWaitLength hs] at hstep
      cases hstep
      rw [hl, List.append_assoc]
      exact rtcmWaitLength_collected hs gap hseg c
  | rtcmWaitRest hs gap seg hl hseg =>
      rw [byteStep_rtcmWaitRest hs] at hstep
      simp only [Framer.rtcmWaitRest] at hstep
      split at hstep
      · cases hstep
      · cases hstep
        rw [hl, List.append_assoc]
        exact .rtcmWaitRest hs gap _ rfl (hseg.push c)

/-- A byte that completes a frame ends its segment. -/
theorem byteStep_segment {f f' : Framer} {l : List UInt8} {c : UInt8} {kind : FrameKind}
    (h : f.Collected l) (hstep : f.byteStep c = (f', some kind)) :
    ∃ s : Segment, s.kind = kind ∧ s.wire = l ++ [c] ∧ s.CompletedBy f' := by
  cases h with
  | waitRest hs gap seg hl hgap hseg h4 hlt =>
      rw [byteStep_waitRest hs] at hstep
      rw [hl]
      exact waitRest_segment hgap hseg h4 hlt hstep
  | rtcmWaitRest hs gap seg hl hseg =>
      rw [byteStep_rtcmWaitRest hs] at hstep
      simp only [Framer.rtcmWaitRest] at hstep
      split at hstep
      · cases hstep
        rw [hl]
        refine ⟨⟨gap, .rtcm, seg ++ [c]⟩, rfl, (List.append_assoc _ _ _).symm, hseg.push c, ?_⟩
        intro hkind
        cases hkind
      · cases hstep
  | reset hs | waitStartSc hs | waitSc2 hs | waitLength hs | rtcmWaitLength hs =>
      simp [byteStep, hs] at hstep

/-- So does a scan that completes a frame, after the bytes `l` before it. -/
theorem scan_segment {f f' : Framer} {l cs rest : List UInt8} {kind : FrameKind}
    (h : f.Collected l) (hscan : f.scan cs = (f', some (kind, rest))) :
    ∃ s : Segment, s.kind = kind ∧ s.wire ++ rest = l ++ cs ∧ s.CompletedBy f' := by
  induction cs generalizing f l with
  | nil => cases hscan
  | cons c cs ih =>
      rcases hstep : f.byteStep c with ⟨g, _ | kind'⟩
      · rw [scan_cons_of_none hstep] at hscan
        obtain ⟨s, hkind, hwire, hs⟩ := ih (byteStep_collected h hstep) hscan
        exact ⟨s, hkind, hwire.trans (List.append_cons l c cs).symm, hs⟩
      · rw [scan_cons_of_some hstep] at hscan
        cases hscan
        obtain ⟨s, hkind, hwire, hs⟩ := byteStep_segment h hstep
        refine ⟨s, hkind, ?_, hs⟩
        rw [hwire, ← List.append_cons]

theorem waitStartSc_grows (f : Framer) (c : UInt8) :
    (f.waitStartSc c).ubxBuf = f.ubxBuf ∧ f.rtcmBuf.Grows c (f.waitStartSc c).rtcmBuf := by
  rw [waitStartSc]
  split
  · exact ⟨rfl, .same⟩
  · split
    · exact ⟨rfl, .push⟩
    · exact ⟨rfl, .same⟩

/-- What a byte does to the two buffers. -/
theorem byteStep_grows (f : Framer) (c : UInt8) :
    f.ubxBuf.Grows c (f.byteStep c).1.ubxBuf ∧ f.rtcmBuf.Grows c (f.byteStep c).1.rtcmBuf := by
  cases hs : f.rxState with
  | reset =>
      rw [byteStep_reset hs]
      obtain ⟨hubx, hrtcm⟩ := f.cleared.waitStartSc_grows c
      exact ⟨hubx ▸ .clear, hrtcm.of_clear⟩
  | waitStartSc =>
      rw [byteStep_waitStartSc hs]
      obtain ⟨hubx, hrtcm⟩ := f.waitStartSc_grows c
      exact ⟨hubx ▸ .same, hrtcm⟩
  | waitSc2 =>
      rw [byteStep_waitSc2 hs]
      exact ⟨.same, .same⟩
  | waitLength =>
      rw [byteStep_waitLength hs, waitLength]
      split
      · split
        · exact ⟨.push, .same⟩
        · exact ⟨.push, .same⟩
      · exact ⟨.push, .same⟩
  | waitRest =>
      rw [byteStep_waitRest hs, waitRest]
      split
      · split
        · exact ⟨.push, .same⟩
        · exact ⟨.push, .same⟩
      · exact ⟨.push, .same⟩
  | rtcmWaitLength =>
      rw [byteStep_rtcmWaitLength hs, rtcmWaitLength]
      split
      · split
        · exact ⟨.same, .push⟩
        · exact ⟨.same, .push⟩
      · exact ⟨.same, .push⟩
  | rtcmWaitRest =>
      rw [byteStep_rtcmWaitRest hs, rtcmWaitRest]
      split
      · exact ⟨.same, .push⟩
      · exact ⟨.same, .push⟩

theorem scan_length_rtcm (f : Framer) (cs : List UInt8) :
    (f.scan cs).1.rtcmBuf.vector.length = f.rtcmBuf.vector.length := by
  induction cs generalizing f with
  | nil => rfl
  | cons c cs ih =>
      have hlen := (byteStep_grows f c).2.length_vector
      rcases hstep : f.byteStep c with ⟨g, _ | kind⟩
      · rw [hstep] at hlen
        rw [scan_cons_of_none hstep, ih, hlen]
      · rw [hstep] at hlen
        rw [scan_cons_of_some hstep, hlen]

end Framer

/-- The outputs announce this frame alone, with its size. Of an RTCM frame that is
longer than its array the array has the front part. -/
def FramingOutputs.Announces (o : FramingOutputs) (s : Segment) : Prop :=
  match s.kind with
  | .ubx => o.frames = [(.ubx, s.bytes)] ∧ o.ubxFrame.currLen = s.bytes.length
  | .rtcm => o.frames = [(.rtcm, s.bytes.take o.rtcmFrame.vector.length)] ∧
      o.rtcmFrame.currLen = s.bytes.length

/-- What is put to the outputs leaves the size of their array. -/
theorem FramingOutputs.length_put {o : FramingOutputs} {f : Framer}
    (hroom : o.rtcmFrame.vector.length = f.rtcmBuf.vector.length) (kind : FrameKind) :
    (o.put f (some kind)).rtcmFrame.vector.length = o.rtcmFrame.vector.length := by
  cases kind with
  | ubx => rfl
  | rtcm => exact VectorU8.assign_length_vector hroom

namespace Segment

/-- A completed UBX frame goes out as it is in the stream. -/
theorem CompletedBy.ubxFrame {s : Segment} {f : Framer} (h : s.CompletedBy f)
    (hkind : s.kind = .ubx) (o : FramingOutputs) :
    (o.clearFlags.put f (some .ubx)).frames = [(.ubx, s.bytes)] ∧
      (o.clearFlags.put f (some .ubx)).ubxFrame.currLen = s.bytes.length := by
  have hbuf := h.inBuffer
  rw [InBuffer, hkind] at hbuf
  obtain ⟨hlen, hdata⟩ := hbuf
  have hfit : f.ubxBuf.currLen ≤ f.ubxBuf.vector.length := by
    rw [hlen, ← hdata, VectorU8.data, List.length_take]
    exact min_le_right _ _
  refine ⟨?_, hlen⟩
  exact congrArg (fun l => [(FrameKind.ubx, l)]) ((VectorU8.assign_data hfit).trans hdata)

/-- A completed frame that is put to cleared outputs is announced. -/
theorem CompletedBy.announces {s : Segment} {f : Framer} (h : s.CompletedBy f)
    (o : FramingOutputs) (hroom : o.rtcmFrame.vector.length = f.rtcmBuf.vector.length) :
    (o.clearFlags.put f (some s.kind)).Announces s := by
  rw [FramingOutputs.Announces]
  cases hkind : s.kind with
  | ubx => exact h.ubxFrame hkind o
  | rtcm =>
      have hbuf := h.inBuffer
      rw [InBuffer, hkind] at hbuf
      have hdata := hbuf.assign_data hroom
      have hvec := VectorU8.assign_length_vector hroom
      refine ⟨congrArg (fun l => [(FrameKind.rtcm, l)]) (hdata.trans ?_), hbuf.currLen⟩
      exact congrArg s.bytes.take hvec.symm

end Segment

/-- Successive calls from a machine without a partial frame give out segments of the
stream. -/
theorem execCalls_segments (k : ℕ) {s : RxFraming} {o : FramingOutputs}
    {chunks : List (List UInt8)} (hs : s.WellFormed) (hreset : s.framer.rxState = .reset)
    (hroom : o.rtcmFrame.vector.length = s.framer.rtcmBuf.vector.length)
    (hchunks : ∀ r ∈ chunks, 1 ≤ r.length ∧ r.length ≤ RxFraming.rxBufSize) :
    ∃ (segments : List Segment) (tail : List UInt8),
      s.pending ++ chunks.flatten = segments.flatMap Segment.wire ++ tail ∧
        List.Forall₂ FramingOutputs.Announces (execCalls k s o (chunks.map some)).1 segments ∧
        ∀ seg ∈ segments, seg.kind = .ubx → seg.UbxSound := by
  induction k generalizing s o chunks with
  | zero => exact ⟨[], _, rfl, .nil, fun _ h => absurd h List.not_mem_nil⟩
  | succ k ih =>
      have hlen := s.framer.scan_length_rtcm (s.pending ++ chunks.flatten)
      rw [execCalls]
      rcases (exec_scans s o.clearFlags chunks hs rfl hchunks).cases with
        ⟨f, s', hscan, hres, -⟩ | ⟨f, kind, rest, s', chunks', hscan, hres, hs', hwf, hrest, hsub⟩
      · rw [hres]
        exact ⟨[], _, rfl, .nil, fun _ h => absurd h List.not_mem_nil⟩
      · rw [hres]
        rw [hscan] at hlen
        obtain ⟨seg, hkind, hwire, hseg⟩ :=
          Framer.scan_segment (l := []) (.reset hreset) hscan
        have hroomf : o.clearFlags.rtcmFrame.vector.length = f.rtcmBuf.vector.length :=
          hroom.trans hlen.symm
        have hannounced := hseg.announces o hroomf
        rw [hkind] at hannounced
        have hroom' : (o.clearFlags.put f (some kind)).rtcmFrame.vector.length =
            s'.framer.rtcmBuf.vector.length := by
          rw [FramingOutputs.length_put hroomf, hs']
          exact hroomf
        obtain ⟨segments, tail, hstream, hall, hsound⟩ := ih hwf (hs' ▸ Framer.scan_some hscan)
          hroom' (fun r hr => hchunks r (hsub hr))
        refine ⟨seg :: segments, tail, ?_, .cons hannounced hall, ?_⟩
        · rw [List.flatMap_cons, List.append_assoc, ← hstream, hrest, hwire, List.nil_append]
        · intro seg' hmem
          rcases List.mem_cons.1 hmem with rfl | hmem
          · exact hseg.sound
          · exact hsound seg' hmem

end Catpilot
