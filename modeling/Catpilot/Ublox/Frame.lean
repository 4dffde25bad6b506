import Catpilot.Ublox.Framing

/-!
# One frame through the framing machine

What the machine does with the bytes of one UBX or RTCM frame: they are collected in
the buffer of their protocol, and the last one completes the frame.
-/

namespace Catpilot

namespace VectorU8

/-- The bytes of a list pushed one after the other. -/
def pushAll (v : VectorU8) (l : List UInt8) : VectorU8 := l.foldl push v

@[simp] theorem pushAll_nil (v : VectorU8) : v.pushAll [] = v := rfl

theorem pushAll_cons (v : VectorU8) (c : UInt8) (l : List UInt8) :
    v.pushAll (c :: l) = (v.push c).pushAll l := rfl

theorem pushAll_append (v : VectorU8) (l l' : List UInt8) :
    v.pushAll (l ++ l') = (v.pushAll l).pushAll l' := List.foldl_append

@[simp] theorem push_currLen (v : VectorU8) (c : UInt8) :
    (v.push c).currLen = v.currLen + 1 := rfl

@[simp] theorem push_maxLen (v : VectorU8) (c : UInt8) : (v.push c).maxLen = v.maxLen := rfl

@[simp] theorem clear_currLen (v : VectorU8) : v.clear.currLen = 0 := rfl

@[simp] theorem clear_vector (v : VectorU8) : v.clear.vector = v.vector := rfl

@[simp] theorem push_length_vector (v : VectorU8) (c : UInt8) :
    (v.push c).vector.length = v.vector.length := List.length_set

@[simp] theorem pushAll_currLen (v : VectorU8) (l : List UInt8) :
    (v.pushAll l).currLen = v.currLen + l.length := by
  induction l generalizing v with
  | nil => rfl
  | cons c l ih =>
      rw [pushAll_cons, ih, push_currLen, List.length_cons]
      omega

@[simp] theorem pushAll_maxLen (v : VectorU8) (l : List UInt8) :
    (v.pushAll l).maxLen = v.maxLen := by
  induction l generalizing v with
  | nil => rfl
  | cons c l ih => rw [pushAll_cons, ih, push_maxLen]

@[simp] theorem pushAll_length_vector (v : VectorU8) (l : List UInt8) :
    (v.pushAll l).vector.length = v.vector.length := by
  induction l generalizing v with
  | nil => rfl
  | cons c l ih => rw [pushAll_cons, ih, push_length_vector]

/-- A push with room in the array appends one byte. -/
theorem push_data {v : VectorU8} (c : UInt8) (h : v.currLen < v.vector.length) :
    (v.push c).data = v.data ++ [c] := by
  simp only [data, push]
  rw [List.take_add_one, List.take_set_of_le (Nat.le_refl _), List.getElem?_set_self h]
  rfl

theorem pushAll_data {v : VectorU8} {l : List UInt8}
    (h : v.currLen + l.length ≤ v.vector.length) : (v.pushAll l).data = v.data ++ l := by
  induction l generalizing v with
  | nil => rw [pushAll_nil, List.append_nil]
  | cons c l ih =>
      rw [List.length_cons] at h
      rw [pushAll_cons, ih, push_data c (by omega), List.append_assoc, List.singleton_append]
      rw [push_currLen, push_length_vector]
      omega

/-- A vector that was empty holds what is pushed to it. -/
theorem clear_pushAll_data {v : VectorU8} {l : List UInt8} (h : l.length ≤ v.vector.length) :
    (v.clear.pushAll l).data = l := by
  rw [pushAll_data (by rw [clear_currLen, Nat.zero_add, clear_vector]; exact h)]
  rfl

/-- A push leaves the bytes before it. -/
theorem push_byte {v : VectorU8} (c : UInt8) {i : ℕ} (h : i < v.currLen) :
    (v.push c).byte i = v.byte i := by
  rw [byte, byte, List.getD_eq_getElem?_getD, List.getD_eq_getElem?_getD, push,
    List.getElem?_set_ne (Nat.ne_of_gt h)]

/-- The bytes in use are those of `data`. -/
theorem byte_eq {v : VectorU8} {i : ℕ} (h : i < v.currLen) : v.byte i = v.data.getD i 0 := by
  rw [byte, List.getD_eq_getElem?_getD, List.getD_eq_getElem?_getD, data,
    List.getElem?_take_of_lt h]

theorem take_vector {v : VectorU8} {n : ℕ} (h : n ≤ v.currLen) :
    v.vector.take n = v.data.take n := by
  rw [data, List.take_take, min_eq_left h]

theorem memread_vector {v : VectorU8} {off n : ℕ} (h : off + n ≤ v.currLen) :
    Memory.memread v.vector off n = Memory.memread v.data off n := by
  rw [Memory.memread, Memory.memread, data, List.drop_take, List.take_take,
    min_eq_left (by omega)]

/-- After an assignment with room for it the vector holds the same bytes. -/
theorem assign_data {v src : VectorU8} (h : src.currLen ≤ src.vector.length) :
    (v.assign src).data = src.data := by
  have hlen : src.data.length = src.currLen := by
    rw [data, List.length_take, min_eq_left h]
  simp only [assign, Memory.memcpy, List.take_zero, List.nil_append]
  rw [data, ← hlen, List.take_left]

/-- The length field of a UBX header is in the third and fourth byte. -/
theorem ubxLen_of_data {v : VectorU8} {c₀ c₁ c₂ c₃ : UInt8} {l : List UInt8}
    (hdata : v.data = c₀ :: c₁ :: c₂ :: c₃ :: l) (hl : 4 ≤ v.currLen) :
    v.ubxLen = c₂.toNat + 256 * c₃.toNat := by
  rw [ubxLen, byte_eq (by omega), byte_eq (by omega), hdata]
  rfl

/-- The length field of an RTCM header is in the second and third byte. -/
theorem rtcmLen_of_data {v : VectorU8} {c₀ c₁ c₂ : UInt8} {l : List UInt8}
    (hdata : v.data = c₀ :: c₁ :: c₂ :: l) (hl : 3 ≤ v.currLen) :
    v.rtcmLen = 256 * c₁.toNat + c₂.toNat := by
  rw [rtcmLen, byte_eq (by omega), byte_eq (by omega), hdata]
  rfl

/-- The length that a collected UBX header names. -/
theorem ubxLen_header {v : VectorU8} (hl : v.currLen = 0) (h4 : 4 ≤ v.vector.length)
    (c₀ c₁ c₂ c₃ : UInt8) :
    (v.pushAll [c₀, c₁, c₂, c₃]).ubxLen = c₂.toNat + 256 * c₃.toNat := by
  have hroom : v.currLen + 4 ≤ v.vector.length := by omega
  have hempty : v.data = [] := by rw [data, hl, List.take_zero]
  have hdata : (v.pushAll [c₀, c₁, c₂, c₃]).data = [c₀, c₁, c₂, c₃] := by
    rw [pushAll_data hroom, hempty, List.nil_append]
  refine ubxLen_of_data hdata ?_
  rw [pushAll_currLen]
  exact Nat.le_add_left 4 _

/-- The length that a collected RTCM header names. -/
theorem rtcmLen_header {v : VectorU8} {c₀ : UInt8} (hl : v.currLen = 1) (hv : v.data = [c₀])
    (h3 : 3 ≤ v.vector.length) (c₁ c₂ : UInt8) :
    (v.pushAll [c₁, c₂]).rtcmLen = 256 * c₁.toNat + c₂.toNat := by
  have hroom : v.currLen + 2 ≤ v.vector.length := by omega
  have hdata : (v.pushAll [c₁, c₂]).data = [c₀, c₁, c₂] := by
    rw [pushAll_data hroom, hv]
    rfl
  refine rtcmLen_of_data hdata ?_
  rw [pushAll_currLen, hl]
  exact Nat.le_refl 3

/-- Bytes pushed behind the header leave its length field. -/
theorem ubxLen_push {v : VectorU8} (hl : 4 ≤ v.currLen) (c : UInt8) :
    (v.push c).ubxLen = v.ubxLen := by
  rw [ubxLen, ubxLen, push_byte c (by omega), push_byte c (by omega)]

theorem rtcmLen_push {v : VectorU8} (hl : 3 ≤ v.currLen) (c : UInt8) :
    (v.push c).rtcmLen = v.rtcmLen := by
  rw [rtcmLen, rtcmLen, push_byte c (by omega), push_byte c (by omega)]

theorem ubxLen_pushAll {v : VectorU8} (hl : 4 ≤ v.currLen) (l : List UInt8) :
    (v.pushAll l).ubxLen = v.ubxLen := by
  induction l generalizing v with
  | nil => rfl
  | cons c l ih => rw [pushAll_cons, ih (Nat.le_succ_of_le hl), ubxLen_push hl]

theorem rtcmLen_pushAll {v : VectorU8} (hl : 3 ≤ v.currLen) (l : List UInt8) :
    (v.pushAll l).rtcmLen = v.rtcmLen := by
  induction l generalizing v with
  | nil => rfl
  | cons c l ih => rw [pushAll_cons, ih (Nat.le_succ_of_le hl), rtcmLen_push hl]

theorem ubxLen_lt (v : VectorU8) : v.ubxLen < 2 ^ 16 := by
  have h2 := (v.byte 2).toNat_lt
  have h3 := (v.byte 3).toNat_lt
  rw [ubxLen]
  omega

end VectorU8

/-- `UBX_BUF_LEN_TO_PAYLOAD_SIZE` gives the length of the payload exactly when the
buffer holds header, payload and checksum. Before the checksum is in, the difference
wraps around to a number no header can name. -/
theorem ubxBufLenToPayloadSize_eq_iff {l n : ℕ} (h4 : 4 ≤ l) (hl : l < 2 ^ 32)
    (hn : n < 2 ^ 16) : ubxBufLenToPayloadSize l = n ↔ l = n + 6 := by
  have hsub : Word.wrapSub 32 l ubxHeaderSize = l - 4 := Word.wrapSub_of_le h4 hl
  rw [ubxBufLenToPayloadSize, hsub]
  rcases Nat.lt_or_ge (l - 4) 2 with hlt | hge
  · rw [Word.wrapSub_of_lt hlt (by omega)]
    omega
  · rw [Word.wrapSub_of_le hge (by omega)]
    omega

namespace Framer

theorem byteStep_reset {f : Framer} (h : f.rxState = .reset) (c : UInt8) :
    f.byteStep c = (f.cleared.waitStartSc c, none) := by
  rw [byteStep, h]

theorem byteStep_waitStartSc {f : Framer} (h : f.rxState = .waitStartSc) (c : UInt8) :
    f.byteStep c = (f.waitStartSc c, none) := by
  rw [byteStep, h]

theorem byteStep_waitSc2 {f : Framer} (h : f.rxState = .waitSc2) (c : UInt8) :
    f.byteStep c = ({ f with rxState := if c = 0x62 then .waitLength else .reset }, none) := by
  rw [byteStep, h]

theorem byteStep_waitLength {f : Framer} (h : f.rxState = .waitLength) (c : UInt8) :
    f.byteStep c = (f.waitLength c, none) := by
  rw [byteStep, h]

theorem byteStep_waitRest {f : Framer} (h : f.rxState = .waitRest) (c : UInt8) :
    f.byteStep c = f.waitRest c := by
  rw [byteStep, h]

theorem byteStep_rtcmWaitLength {f : Framer} (h : f.rxState = .rtcmWaitLength) (c : UInt8) :
    f.byteStep c = (f.rtcmWaitLength c, none) := by
  rw [byteStep, h]

theorem byteStep_rtcmWaitRest {f : Framer} (h : f.rxState = .rtcmWaitRest) (c : UInt8) :
    f.byteStep c = f.rtcmWaitRest c := by
  rw [byteStep, h]

/-- The machine has no part of a frame: the next byte starts one or is filler. -/
def Idle (f : Framer) : Prop :=
  f.rxState = .reset ∨ (f.rxState = .waitStartSc ∧ f.cleared = f)

/-- An idle machine takes the next byte from its cleared state. -/
theorem Idle.byteStep {f : Framer} (h : f.Idle) (c : UInt8) :
    f.byteStep c = (f.cleared.waitStartSc c, none) := by
  rcases h with h | ⟨h, hc⟩
  · exact byteStep_reset h c
  · rw [byteStep_waitStartSc h, hc]

/-- Filler bytes are counted, and leave the machine idle. -/
theorem scan_filler {f : Framer} (hf : f.Idle) (filler : List UInt8)
    (hfill : ∀ c ∈ filler, c ≠ 0xb5 ∧ c ≠ 0xd3) :
    ∃ f' : Framer, f'.Idle ∧
      f'.cleared = { f.cleared with
        rxUnframedBytesCnt := f.rxUnframedBytesCnt + UInt32.ofNat filler.length } ∧
      ∀ rest, f.scan (filler ++ rest) = f'.scan rest := by
  induction filler generalizing f with
  | nil => exact ⟨f, hf, by simp [cleared], fun _ => rfl⟩
  | cons c cs ih =>
      obtain ⟨h5, h3⟩ := hfill c List.mem_cons_self
      have hstep := hf.byteStep c
      rw [waitStartSc, if_neg h5, if_neg h3] at hstep
      obtain ⟨f', hf', hcl, hscan⟩ :=
        ih (f := { f.cleared with rxUnframedBytesCnt := f.cleared.rxUnframedBytesCnt + 1 })
          (Or.inr ⟨rfl, rfl⟩) (fun c hc => hfill c (List.mem_cons_of_mem _ hc))
      refine ⟨f', hf', ?_, fun rest => ?_⟩
      · rw [hcl, List.length_cons, Nat.add_comm cs.length 1, UInt32.ofNat_add]
        simp only [cleared, VectorU8.clear, UInt32.add_assoc]
        rfl
      · rw [List.cons_append, scan_cons_of_none hstep, hscan]

section Ubx

variable {f : Framer}

/-- The two start bytes of a UBX frame. -/
theorem scan_startUbx (hf : f.Idle) (rest : List UInt8) :
    f.scan (0xb5 :: 0x62 :: rest) = { f with
      rxState := .waitLength
      ubxBuf := f.ubxBuf.clear
      rtcmBuf := f.rtcmBuf.clear }.scan rest := by
  rw [scan_cons_of_none (hf.byteStep 0xb5), scan_cons_of_none (byteStep_waitSc2 (by rfl) 0x62)]
  rfl

/-- A byte of the header but its last. -/
theorem waitLength_of_lt (hl : f.ubxBuf.currLen < 3) (c : UInt8) :
    f.waitLength c = { f with ubxBuf := f.ubxBuf.push c } :=
  if_neg (by simp only [VectorU8.push_currLen]; omega)

/-- The last byte of a header whose frame fits the buffer. -/
theorem waitLength_last (hl : f.ubxBuf.currLen = 3) (c : UInt8)
    (hfit : (f.ubxBuf.push c).ubxLen + 6 ≤ f.ubxBuf.maxLen) (hmax : f.ubxBuf.maxLen < 2 ^ 32) :
    f.waitLength c = { f with ubxBuf := f.ubxBuf.push c, rxState := .waitRest } := by
  have hsize : ubxBufLenToPayloadSize f.ubxBuf.maxLen = f.ubxBuf.maxLen - 6 := by
    rw [ubxBufLenToPayloadSize, ubxHeaderSize, Word.wrapSub_of_le (by omega) hmax,
      Word.wrapSub_of_le (by omega) (by omega)]
    omega
  have hlen : (f.ubxBuf.push c).currLen = 4 := by
    rw [VectorU8.push_currLen, hl]
  refine (if_pos hlen).trans (if_neg ?_)
  simp only [VectorU8.push_maxLen, hsize]
  omega

/-- The header of a UBX frame that fits the buffer is collected. -/
theorem scan_waitLength (hs : f.rxState = .waitLength) (hl : f.ubxBuf.currLen = 0)
    (h4 : 4 ≤ f.ubxBuf.vector.length) {c₀ c₁ c₂ c₃ : UInt8}
    (hfit : c₂.toNat + 256 * c₃.toNat + 6 ≤ f.ubxBuf.maxLen) (hmax : f.ubxBuf.maxLen < 2 ^ 32)
    (rest : List UInt8) :
    f.scan (c₀ :: c₁ :: c₂ :: c₃ :: rest) =
      { f with ubxBuf := f.ubxBuf.pushAll [c₀, c₁, c₂, c₃], rxState := .waitRest }.scan rest := by
  have hstep : ∀ (g : Framer) (c : UInt8), g.rxState = .waitLength → g.ubxBuf.currLen < 3 →
      g.byteStep c = ({ g with ubxBuf := g.ubxBuf.push c }, none) := by
    intro g c hg hlt
    rw [byteStep_waitLength hg, waitLength_of_lt hlt]
  rw [scan_cons_of_none (hstep _ c₀ hs (by omega)),
    scan_cons_of_none (hstep _ c₁ (by exact hs) (by simp only [VectorU8.push_currLen]; omega)),
    scan_cons_of_none (hstep _ c₂ (by exact hs) (by simp only [VectorU8.push_currLen]; omega))]
  rw [← VectorU8.ubxLen_header hl h4 c₀ c₁] at hfit
  refine scan_cons_of_none ?_ rest
  rw [byteStep_waitLength (by exact hs)]
  refine congrArg (·, none) (waitLength_last ?_ c₃ hfit hmax)
  simp only [VectorU8.push_currLen, hl]

/-- A byte behind the header that is not the last of the frame. -/
theorem waitRest_of_lt (h4 : 4 ≤ f.ubxBuf.currLen)
    (hlt : f.ubxBuf.currLen + 1 < f.ubxBuf.ubxLen + 6) (c : UInt8) :
    f.waitRest c = ({ f with ubxBuf := f.ubxBuf.push c }, none) := by
  have hlen := f.ubxBuf.ubxLen_lt
  have hmore : ¬ ubxBufLenToPayloadSize (f.ubxBuf.push c).currLen = (f.ubxBuf.push c).ubxLen := by
    rw [VectorU8.ubxLen_push h4, VectorU8.push_currLen,
      ubxBufLenToPayloadSize_eq_iff (by omega) (by omega) hlen]
    omega
  rw [waitRest]
  exact if_neg hmore

/-- The last byte of a frame with the right checksum. -/
theorem waitRest_last (h4 : 4 ≤ f.ubxBuf.currLen)
    (hlast : f.ubxBuf.currLen + 1 = f.ubxBuf.ubxLen + 6) (c : UInt8)
    (hcrc : (f.ubxBuf.push c).ubxCrcOk = true) :
    f.waitRest c = ({ f with
      ubxBuf := f.ubxBuf.push c
      ubxFrameCnt := f.ubxFrameCnt + 1
      rxState := .reset }, some .ubx) := by
  have hlen := f.ubxBuf.ubxLen_lt
  have hend : ubxBufLenToPayloadSize (f.ubxBuf.push c).currLen = (f.ubxBuf.push c).ubxLen := by
    rw [VectorU8.ubxLen_push h4, VectorU8.push_currLen,
      ubxBufLenToPayloadSize_eq_iff (by omega) (by omega) hlen]
    exact hlast
  rw [waitRest]
  exact (if_pos hend).trans (if_pos hcrc)

/-- The bytes behind the header are collected up to the last but one. -/
theorem scan_waitRest (hs : f.rxState = .waitRest) (h4 : 4 ≤ f.ubxBuf.currLen) (cs : List UInt8)
    (hlt : f.ubxBuf.currLen + cs.length < f.ubxBuf.ubxLen + 6) (rest : List UInt8) :
    f.scan (cs ++ rest) = { f with ubxBuf := f.ubxBuf.pushAll cs }.scan rest := by
  induction cs generalizing f with
  | nil => rfl
  | cons c cs ih =>
      rw [List.length_cons] at hlt
      have hstep := byteStep_waitRest hs c
      rw [waitRest_of_lt h4 (by omega)] at hstep
      rw [List.cons_append, scan_cons_of_none hstep]
      refine ih (by exact hs) (Nat.le_succ_of_le h4) ?_
      rw [VectorU8.ubxLen_push h4, VectorU8.push_currLen]
      omega

/-- A frame with the right checksum is collected as a whole, up to its last byte
`c`. -/
theorem scan_ubxBytes (hs : f.rxState = .waitLength) (hl : f.ubxBuf.currLen = 0)
    (hvec : f.ubxBuf.vector.length = f.ubxBuf.maxLen) (hmax : f.ubxBuf.maxLen < 2 ^ 32)
    {c₀ c₁ c₂ c₃ c : UInt8} {l : List UInt8} (hlen : l.length = c₂.toNat + 256 * c₃.toNat + 1)
    (hfit : c₂.toNat + 256 * c₃.toNat + 6 ≤ f.ubxBuf.maxLen)
    (hcrc : (f.ubxBuf.pushAll (c₀ :: c₁ :: c₂ :: c₃ :: (l ++ [c]))).ubxCrcOk = true)
    (rest : List UInt8) :
    f.scan (c₀ :: c₁ :: c₂ :: c₃ :: (l ++ c :: rest)) = ({ f with
      ubxBuf := f.ubxBuf.pushAll (c₀ :: c₁ :: c₂ :: c₃ :: (l ++ [c]))
      ubxFrameCnt := f.ubxFrameCnt + 1
      rxState := .reset }, some (.ubx, rest)) := by
  set header := f.ubxBuf.pushAll [c₀, c₁, c₂, c₃] with hheader
  have hpush : f.ubxBuf.pushAll (c₀ :: c₁ :: c₂ :: c₃ :: (l ++ [c])) =
      (header.pushAll l).push c := by
    rw [hheader, show c₀ :: c₁ :: c₂ :: c₃ :: (l ++ [c]) = [c₀, c₁, c₂, c₃] ++ l ++ [c] from rfl,
      VectorU8.pushAll_append, VectorU8.pushAll_append]
    rfl
  have hheaderLen : header.currLen = 4 := by
    rw [hheader, VectorU8.pushAll_currLen, hl]
    rfl
  have hubx : header.ubxLen = c₂.toNat + 256 * c₃.toNat :=
    VectorU8.ubxLen_header hl (by omega) c₀ c₁ c₂ c₃
  rw [scan_waitLength hs hl (by omega) hfit hmax, ← hheader,
    scan_waitRest (by rfl) (Nat.le_of_eq hheaderLen.symm) l
      (by simp only [hubx, hheaderLen]; omega)]
  refine scan_cons_of_some ?_ rest
  rw [byteStep_waitRest (by rfl)]
  rw [hpush] at hcrc ⊢
  refine waitRest_last ?_ ?_ c hcrc
  · simp only [VectorU8.pushAll_currLen, hheaderLen]
    omega
  · simp only [VectorU8.pushAll_currLen, VectorU8.ubxLen_pushAll (Nat.le_of_eq hheaderLen.symm),
      hheaderLen, hubx]
    omega

end Ubx

section Rtcm

variable {f : Framer}

/-- The preamble of an RTCM frame. -/
theorem scan_startRtcm (hf : f.Idle) (rest : List UInt8) :
    f.scan (0xd3 :: rest) = { f with
      rxState := .rtcmWaitLength
      ubxBuf := f.ubxBuf.clear
      rtcmBuf := f.rtcmBuf.clear.push 0xd3 }.scan rest := by
  rw [scan_cons_of_none (hf.byteStep 0xd3)]
  rfl

/-- The last byte of the length field of a frame that fits the buffer. -/
theorem rtcmWaitLength_last (hl : f.rtcmBuf.currLen = 2) (c : UInt8)
    (hfit : (f.rtcmBuf.push c).rtcmLen + 6 ≤ f.rtcmBuf.maxLen)
    (hmax : f.rtcmBuf.maxLen < 2 ^ 32) :
    f.rtcmWaitLength c = { f with rtcmBuf := f.rtcmBuf.push c, rxState := .rtcmWaitRest } := by
  have hlen : (f.rtcmBuf.push c).currLen = 1 + 2 := by
    rw [VectorU8.push_currLen, hl]
  refine (if_pos hlen).trans (if_neg ?_)
  simp only [VectorU8.push_maxLen]
  rw [Word.wrapSub_of_le (by omega) hmax]
  omega

/-- The length field behind the preamble of an RTCM frame that fits the buffer is
collected. -/
theorem scan_rtcmWaitLength (hs : f.rxState = .rtcmWaitLength) {c₀ c₁ c₂ : UInt8}
    (hl : f.rtcmBuf.currLen = 1) (hdata : f.rtcmBuf.data = [c₀])
    (h3 : 3 ≤ f.rtcmBuf.vector.length)
    (hfit : 256 * c₁.toNat + c₂.toNat + 6 ≤ f.rtcmBuf.maxLen) (hmax : f.rtcmBuf.maxLen < 2 ^ 32)
    (rest : List UInt8) :
    f.scan (c₁ :: c₂ :: rest) =
      { f with rtcmBuf := f.rtcmBuf.pushAll [c₁, c₂], rxState := .rtcmWaitRest }.scan rest := by
  have hfirst : f.rtcmWaitLength c₁ = { f with rtcmBuf := f.rtcmBuf.push c₁ } :=
    if_neg (by simp only [VectorU8.push_currLen]; omega)
  have hstep := byteStep_rtcmWaitLength hs c₁
  rw [hfirst] at hstep
  rw [scan_cons_of_none hstep]
  rw [← VectorU8.rtcmLen_header hl hdata h3] at hfit
  refine scan_cons_of_none ?_ rest
  rw [byteStep_rtcmWaitLength (by exact hs)]
  refine congrArg (·, none) (rtcmWaitLength_last ?_ c₂ hfit hmax)
  simp only [VectorU8.push_currLen, hl]

/-- A byte behind the length field that is not the last of the frame. -/
theorem rtcmWaitRest_of_lt (h3 : 3 ≤ f.rtcmBuf.currLen)
    (hlt : f.rtcmBuf.currLen + 1 < f.rtcmBuf.rtcmLen + 6) (c : UInt8) :
    f.rtcmWaitRest c = ({ f with rtcmBuf := f.rtcmBuf.push c }, none) := by
  refine if_neg ?_
  simp only [VectorU8.rtcmLen_push h3, VectorU8.push_currLen]
  omega

/-- The last byte of a frame. -/
theorem rtcmWaitRest_last (h3 : 3 ≤ f.rtcmBuf.currLen)
    (hlast : f.rtcmBuf.currLen + 1 = f.rtcmBuf.rtcmLen + 6) (c : UInt8) :
    f.rtcmWaitRest c = ({ f with
      rtcmBuf := f.rtcmBuf.push c
      rtcmFrameCnt := f.rtcmFrameCnt + 1
      rxState := .reset }, some .rtcm) := by
  refine if_pos ?_
  simp only [VectorU8.rtcmLen_push h3, VectorU8.push_currLen]
  omega

/-- The bytes behind the length field are collected up to the last but one. -/
theorem scan_rtcmWaitRest (hs : f.rxState = .rtcmWaitRest) (h3 : 3 ≤ f.rtcmBuf.currLen)
    (cs : List UInt8) (hlt : f.rtcmBuf.currLen + cs.length < f.rtcmBuf.rtcmLen + 6)
    (rest : List UInt8) :
    f.scan (cs ++ rest) = { f with rtcmBuf := f.rtcmBuf.pushAll cs }.scan rest := by
  induction cs generalizing f with
  | nil => rfl
  | cons c cs ih =>
      rw [List.length_cons] at hlt
      have hstep := byteStep_rtcmWaitRest hs c
      rw [rtcmWaitRest_of_lt h3 (by omega)] at hstep
      rw [List.cons_append, scan_cons_of_none hstep]
      refine ih (by exact hs) (Nat.le_succ_of_le h3) ?_
      rw [VectorU8.rtcmLen_push h3, VectorU8.push_currLen]
      omega

/-- A frame is collected as a whole, from its preamble `c₀` up to its last byte `c`. -/
theorem scan_rtcmBytes (hs : f.rxState = .rtcmWaitLength) {c₀ c₁ c₂ c : UInt8}
    (hl : f.rtcmBuf.currLen = 1) (hdata : f.rtcmBuf.data = [c₀])
    (hvec : f.rtcmBuf.vector.length = f.rtcmBuf.maxLen) (hmax : f.rtcmBuf.maxLen < 2 ^ 32)
    {l : List UInt8} (hlen : l.length = 256 * c₁.toNat + c₂.toNat + 2)
    (hfit : 256 * c₁.toNat + c₂.toNat + 6 ≤ f.rtcmBuf.maxLen) (rest : List UInt8) :
    f.scan (c₁ :: c₂ :: (l ++ c :: rest)) = ({ f with
      rtcmBuf := f.rtcmBuf.pushAll (c₁ :: c₂ :: (l ++ [c]))
      rtcmFrameCnt := f.rtcmFrameCnt + 1
      rxState := .reset }, some (.rtcm, rest)) := by
  set header := f.rtcmBuf.pushAll [c₁, c₂] with hheader
  have hpush : f.rtcmBuf.pushAll (c₁ :: c₂ :: (l ++ [c])) = (header.pushAll l).push c := by
    rw [hheader, show c₁ :: c₂ :: (l ++ [c]) = [c₁, c₂] ++ l ++ [c] from rfl,
      VectorU8.pushAll_append, VectorU8.pushAll_append]
    rfl
  have hheaderLen : header.currLen = 3 := by
    rw [hheader, VectorU8.pushAll_currLen, hl]
    rfl
  have hrtcm : header.rtcmLen = 256 * c₁.toNat + c₂.toNat :=
    VectorU8.rtcmLen_header hl hdata (by omega) c₁ c₂
  rw [scan_rtcmWaitLength hs hl hdata (by omega) hfit hmax, ← hheader,
    scan_rtcmWaitRest (by rfl) (Nat.le_of_eq hheaderLen.symm) l
      (by simp only [hrtcm, hheaderLen]; omega)]
  refine scan_cons_of_some ?_ rest
  rw [byteStep_rtcmWaitRest (by rfl), hpush]
  refine rtcmWaitRest_last ?_ ?_ c
  · simp only [VectorU8.pushAll_currLen, hheaderLen]
    omega
  · simp only [VectorU8.pushAll_currLen, VectorU8.rtcmLen_pushAll (Nat.le_of_eq hheaderLen.symm),
      hheaderLen, hrtcm]
    omega

end Rtcm

end Framer

end Catpilot
