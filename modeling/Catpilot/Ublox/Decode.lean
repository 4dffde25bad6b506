import Catpilot.Ublox.Frame

/-!
# The frames of a receiver

Valid UBX frames and RTCM3 frames, their bytes on the line, and the way an idle
machine takes such a frame as a whole.
-/

namespace Catpilot

/-- A UBX frame: class, id and a payload whose length fits its field. -/
structure UbxFrame where
  cls : UInt8
  id : UInt8
  payload : List UInt8
  length_payload : payload.length < 2 ^ 16

namespace UbxFrame

/-- Header and payload, the part under the checksum. -/
def body (u : UbxFrame) : List UInt8 :=
  u.cls :: u.id :: UInt8.ofNat u.payload.length :: UInt8.ofNat (u.payload.length / 256) ::
    u.payload

/-- The Fletcher checksum of a valid frame. -/
def checksum (u : UbxFrame) : UInt8 × UInt8 := Checksum.fletcher u.body

/-- The bytes behind the two start bytes. -/
def bytes (u : UbxFrame) : List UInt8 := u.body ++ [u.checksum.1, u.checksum.2]

/-- The frame on the line. -/
def wire (u : UbxFrame) : List UInt8 := 0xb5 :: 0x62 :: u.bytes

theorem length_bytes (u : UbxFrame) : u.bytes.length = u.payload.length + 6 := by
  simp [bytes, body]

end UbxFrame

/-- An RTCM3 frame: a payload whose length fits its 16-bit field, and the three bytes
of its checksum, whatever they are. -/
structure RtcmFrame where
  payload : List UInt8
  length_payload : payload.length < 2 ^ 16
  crc : List UInt8
  length_crc : crc.length = 3

namespace RtcmFrame

/-- The frame on the line, its preamble included. -/
def bytes (r : RtcmFrame) : List UInt8 :=
  0xd3 :: UInt8.ofNat (r.payload.length / 256) :: UInt8.ofNat r.payload.length ::
    (r.payload ++ r.crc)

theorem length_bytes (r : RtcmFrame) : r.bytes.length = r.payload.length + 6 := by
  simp [bytes, r.length_crc]

end RtcmFrame

/-- A frame of either kind. -/
inductive StreamFrame where
  | ubx (u : UbxFrame)
  | rtcm (r : RtcmFrame)

namespace StreamFrame

/-- The frame on the line. -/
def wire : StreamFrame → List UInt8
  | ubx u => u.wire
  | rtcm r => r.bytes

/-- The frame as an output of the function. -/
def output : StreamFrame → FrameKind × List UInt8
  | ubx u => (.ubx, u.bytes)
  | rtcm r => (.rtcm, r.bytes)

/-- The frame fits the buffer of its kind. -/
def Fits (ubxFrameSize rtcmFrameSize : ℕ) : StreamFrame → Prop
  | ubx u => u.payload.length + 6 ≤ ubxFrameSize
  | rtcm r => r.payload.length + 6 ≤ rtcmFrameSize

end StreamFrame

theorem ofNat_length_field {n : ℕ} (h : n < 2 ^ 16) :
    (UInt8.ofNat n).toNat + 256 * (UInt8.ofNat (n / 256)).toNat = n := by
  rw [UInt8.toNat_ofNat', UInt8.toNat_ofNat']
  omega

theorem uint16Bytes_pack (a b : UInt8) :
    uint16Bytes (b.toUInt16 <<< 8 ||| a.toUInt16) = [a, b] := by
  have hlow : (b.toUInt16 <<< 8 ||| a.toUInt16).toUInt8 = a := by
    apply UInt8.eq_of_toBitVec_eq
    ext i hi
    simp
  have hhigh : ((b.toUInt16 <<< 8 ||| a.toUInt16) >>> 8).toUInt8 = b := by
    apply UInt8.eq_of_toBitVec_eq
    ext i hi
    have h16 : 8 + i < 16 := by omega
    have hi16 : i < 16 := by omega
    simp [h16, hi16, BitVec.getLsbD_eq_getElem hi]
  rw [uint16Bytes, hlow, hhigh]

/-- The checksum of a well-formed frame in the buffer is found to be right. -/
theorem VectorU8.ubxCrcOk_of_data {v : VectorU8} {u : UbxFrame} (hdata : v.data = u.bytes)
    (hlen : v.currLen = u.bytes.length) (hubx : v.ubxLen = u.payload.length) :
    v.ubxCrcOk = true := by
  have hbody : u.body.length = u.payload.length + 4 := rfl
  have htake : v.vector.take (u.payload.length + ubxHeaderSize) = u.body := by
    rw [VectorU8.take_vector (by rw [hlen, UbxFrame.length_bytes, ubxHeaderSize]; omega), hdata,
      UbxFrame.bytes, ubxHeaderSize, List.take_left' hbody]
  have hread : Memory.memread v.vector (ubxHeaderSize + u.payload.length) 2 =
      [u.checksum.1, u.checksum.2] := by
    rw [VectorU8.memread_vector (by rw [hlen, UbxFrame.length_bytes, ubxHeaderSize]; omega), hdata,
      Memory.memread, UbxFrame.bytes, List.drop_left' (by rw [hbody, ubxHeaderSize, Nat.add_comm])]
    rfl
  rw [ubxCrcOk, hubx, hread, ubxCalcCrc, htake, Checksum.foldl_fletcherStep_zero, uint16Bytes_pack]
  exact decide_eq_true rfl

namespace Framer

/-- The frame buffers have their sizes, which fit a 32-bit word. -/
structure Sized (m n : ℕ) (f : Framer) : Prop where
  ubx_vector : f.ubxBuf.vector.length = m
  ubx_maxLen : f.ubxBuf.maxLen = m
  ubx_lt : m < 2 ^ 32
  rtcm_vector : f.rtcmBuf.vector.length = n
  rtcm_maxLen : f.rtcmBuf.maxLen = n
  rtcm_lt : n < 2 ^ 32

variable {f : Framer} {m n : ℕ}

/-- The machine after a frame. -/
def afterFrame (f : Framer) : StreamFrame → Framer
  | .ubx u => { f with
      rxState := .reset
      ubxBuf := f.ubxBuf.clear.pushAll u.bytes
      rtcmBuf := f.rtcmBuf.clear
      ubxFrameCnt := f.ubxFrameCnt + 1 }
  | .rtcm r => { f with
      rxState := .reset
      ubxBuf := f.ubxBuf.clear
      rtcmBuf := f.rtcmBuf.clear.pushAll r.bytes
      rtcmFrameCnt := f.rtcmFrameCnt + 1 }

theorem Sized.afterFrame (h : f.Sized m n) (frame : StreamFrame) :
    (f.afterFrame frame).Sized m n := by
  cases frame with
  | ubx u =>
      exact { h with
        ubx_vector := (VectorU8.pushAll_length_vector _ _).trans h.ubx_vector
        ubx_maxLen := (VectorU8.pushAll_maxLen _ _).trans h.ubx_maxLen }
  | rtcm r =>
      exact { h with
        rtcm_vector := (VectorU8.pushAll_length_vector _ _).trans h.rtcm_vector
        rtcm_maxLen := (VectorU8.pushAll_maxLen _ _).trans h.rtcm_maxLen }

/-- An idle machine takes a UBX frame as a whole. -/
theorem scan_ubxFrame (hf : f.Idle) (hsized : f.Sized m n) {u : UbxFrame}
    (hfit : u.payload.length + 6 ≤ m) (rest : List UInt8) :
    f.scan (u.wire ++ rest) = (f.afterFrame (.ubx u), some (.ubx, rest)) := by
  have hfield := ofNat_length_field u.length_payload
  have hbytes : u.bytes = u.cls :: u.id :: UInt8.ofNat u.payload.length ::
      UInt8.ofNat (u.payload.length / 256) ::
        ((u.payload ++ [u.checksum.1]) ++ [u.checksum.2]) := by
    rw [List.append_assoc]
    rfl
  have hwire : u.wire ++ rest = 0xb5 :: 0x62 :: u.cls :: u.id ::
      UInt8.ofNat u.payload.length :: UInt8.ofNat (u.payload.length / 256) ::
      ((u.payload ++ [u.checksum.1]) ++ u.checksum.2 :: rest) := by
    rw [UbxFrame.wire, hbytes]
    simp only [List.cons_append, List.append_assoc, List.nil_append]
  have hroom : u.bytes.length ≤ f.ubxBuf.vector.length := by
    rw [hsized.ubx_vector, u.length_bytes]
    exact hfit
  have hdata : (f.ubxBuf.clear.pushAll u.bytes).data = u.bytes :=
    VectorU8.clear_pushAll_data hroom
  have hlen : (f.ubxBuf.clear.pushAll u.bytes).currLen = u.bytes.length := by
    rw [VectorU8.pushAll_currLen, VectorU8.clear_currLen, Nat.zero_add]
  have hubx : (f.ubxBuf.clear.pushAll u.bytes).ubxLen = u.payload.length := by
    rw [VectorU8.ubxLen_of_data (hdata.trans hbytes) (by rw [hlen, u.length_bytes]; omega), hfield]
  have hcrc := VectorU8.ubxCrcOk_of_data hdata hlen hubx
  rw [hbytes] at hcrc
  rw [hwire, scan_startUbx hf]
  refine (scan_ubxBytes ?_ ?_ ?_ ?_ ?_ ?_ ?_ rest).trans ?_
  · rfl
  · rfl
  · exact hsized.ubx_vector.trans hsized.ubx_maxLen.symm
  · exact hsized.ubx_maxLen.trans_lt hsized.ubx_lt
  · rw [hfield, List.length_append]
    rfl
  · rw [hfield]
    exact hfit.trans_eq hsized.ubx_maxLen.symm
  · exact hcrc
  · rw [afterFrame, hbytes]

/-- An idle machine takes an RTCM frame as a whole. -/
theorem scan_rtcmFrame (hf : f.Idle) (hsized : f.Sized m n) {r : RtcmFrame}
    (hfit : r.payload.length + 6 ≤ n) (rest : List UInt8) :
    f.scan (r.bytes ++ rest) = (f.afterFrame (.rtcm r), some (.rtcm, rest)) := by
  have hfield := ofNat_length_field r.length_payload
  rw [Nat.add_comm] at hfield
  obtain ⟨c₀, c₁, c₂, hcrc⟩ := List.length_eq_three.1 r.length_crc
  have hbytes : r.bytes = 0xd3 :: UInt8.ofNat (r.payload.length / 256) ::
      UInt8.ofNat r.payload.length :: ((r.payload ++ [c₀, c₁]) ++ [c₂]) := by
    rw [RtcmFrame.bytes, hcrc, List.append_assoc]
    rfl
  have hwire : r.bytes ++ rest = 0xd3 :: UInt8.ofNat (r.payload.length / 256) ::
      UInt8.ofNat r.payload.length :: ((r.payload ++ [c₀, c₁]) ++ c₂ :: rest) := by
    rw [hbytes]
    simp only [List.cons_append, List.append_assoc, List.nil_append]
  have hone : 0 < f.rtcmBuf.vector.length := by
    rw [hsized.rtcm_vector]
    omega
  have hpreamble : (f.rtcmBuf.clear.push 0xd3).data = [0xd3] :=
    VectorU8.clear_pushAll_data (l := [0xd3]) hone
  rw [hwire, scan_startRtcm hf]
  refine (scan_rtcmBytes ?_ ?_ hpreamble ?_ ?_ ?_ ?_ rest).trans ?_
  · rfl
  · rfl
  · exact (VectorU8.push_length_vector _ _).trans
      (hsized.rtcm_vector.trans hsized.rtcm_maxLen.symm)
  · exact hsized.rtcm_maxLen.trans_lt hsized.rtcm_lt
  · rw [hfield, List.length_append]
    rfl
  · rw [hfield]
    exact hfit.trans_eq hsized.rtcm_maxLen.symm
  · rw [afterFrame, hbytes]
    rfl

/-- An idle machine takes a frame as a whole. -/
theorem scan_frame (hf : f.Idle) (hsized : f.Sized m n) {frame : StreamFrame}
    (hfit : frame.Fits m n) (rest : List UInt8) :
    f.scan (frame.wire ++ rest) = (f.afterFrame frame, some (frame.output.1, rest)) := by
  cases frame with
  | ubx u => exact scan_ubxFrame hf hsized hfit rest
  | rtcm r => exact scan_rtcmFrame hf hsized hfit rest

theorem afterFrame_idle (f : Framer) (frame : StreamFrame) : (f.afterFrame frame).Idle := by
  cases frame with
  | ubx u => exact Or.inl rfl
  | rtcm r => exact Or.inl rfl

end Framer

end Catpilot
