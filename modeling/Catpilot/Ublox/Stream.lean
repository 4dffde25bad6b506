import Catpilot.Ublox.Decode

/-!
# Decoding a stream of frames

A receiver sends UBX and RTCM frames with filler between them. The exec function gives
out exactly these frames, in order, for every way the stream is cut into reads.
-/

namespace Catpilot

/-- The stream of frames, each with the filler in front of it. -/
def stream (items : List (List UInt8 × StreamFrame)) : List UInt8 :=
  items.flatMap fun item => item.1 ++ item.2.wire

/-- Filler has neither of the two start bytes. -/
def IsFiller (l : List UInt8) : Prop := ∀ c ∈ l, c ≠ 0xb5 ∧ c ≠ 0xd3

namespace Framer

variable {f : Framer} {m n : ℕ}

theorem Sized.of_cleared {f' : Framer} {n₁ : UInt32} (h : f.Sized m n)
    (hcl : f'.cleared = { f.cleared with rxUnframedBytesCnt := n₁ }) : f'.Sized m n where
  ubx_vector := by
    have hbuf := congrArg (fun g => g.ubxBuf.vector.length) hcl
    exact hbuf.trans h.ubx_vector
  ubx_maxLen := by
    have hbuf := congrArg (fun g => g.ubxBuf.maxLen) hcl
    exact hbuf.trans h.ubx_maxLen
  ubx_lt := h.ubx_lt
  rtcm_vector := by
    have hbuf := congrArg (fun g => g.rtcmBuf.vector.length) hcl
    exact hbuf.trans h.rtcm_vector
  rtcm_maxLen := by
    have hbuf := congrArg (fun g => g.rtcmBuf.maxLen) hcl
    exact hbuf.trans h.rtcm_maxLen
  rtcm_lt := h.rtcm_lt

/-- The counter of the frames of a kind. -/
def frameCnt (f : Framer) : FrameKind → UInt32
  | .ubx => f.ubxFrameCnt
  | .rtcm => f.rtcmFrameCnt

theorem frameCnt_of_cleared {f' : Framer} {n₁ : UInt32}
    (hcl : f'.cleared = { f.cleared with rxUnframedBytesCnt := n₁ }) (kind : FrameKind) :
    f'.frameCnt kind = f.frameCnt kind := by
  cases kind with
  | ubx =>
      have hcnt := congrArg Framer.ubxFrameCnt hcl
      exact hcnt
  | rtcm =>
      have hcnt := congrArg Framer.rtcmFrameCnt hcl
      exact hcnt

theorem afterFrame_frameCnt (f : Framer) (frame : StreamFrame) (kind : FrameKind) :
    (f.afterFrame frame).frameCnt kind =
      f.frameCnt kind + if frame.output.1 = kind then 1 else 0 := by
  cases frame with
  | ubx u =>
      cases kind with
      | ubx => rfl
      | rtcm => exact (UInt32.add_zero _).symm
  | rtcm r =>
      cases kind with
      | ubx => exact (UInt32.add_zero _).symm
      | rtcm => rfl

/-- A completed frame that is put to cleared outputs is announced alone. -/
theorem frames_put_afterFrame (hsized : f.Sized m n) {frame : StreamFrame}
    (hfit : frame.Fits m n) (o : FramingOutputs) :
    (o.clearFlags.put (f.afterFrame frame) (some frame.output.1)).frames = [frame.output] := by
  cases frame with
  | ubx u =>
      have hroom : u.bytes.length ≤ f.ubxBuf.vector.length := by
        rw [hsized.ubx_vector, u.length_bytes]
        exact hfit
      have hdata : (o.ubxFrame.assign (f.ubxBuf.clear.pushAll u.bytes)).data = u.bytes := by
        rw [VectorU8.assign_data, VectorU8.clear_pushAll_data hroom]
        rw [VectorU8.pushAll_currLen, VectorU8.pushAll_length_vector, VectorU8.clear_currLen,
          Nat.zero_add]
        exact hroom
      exact congrArg (fun l => [(FrameKind.ubx, l)]) hdata
  | rtcm r =>
      have hroom : r.bytes.length ≤ f.rtcmBuf.vector.length := by
        rw [hsized.rtcm_vector, r.length_bytes]
        exact hfit
      have hdata : (o.rtcmFrame.assign (f.rtcmBuf.clear.pushAll r.bytes)).data = r.bytes := by
        rw [VectorU8.assign_data, VectorU8.clear_pushAll_data hroom]
        rw [VectorU8.pushAll_currLen, VectorU8.pushAll_length_vector, VectorU8.clear_currLen,
          Nat.zero_add]
        exact hroom
      exact congrArg (fun l => [(FrameKind.rtcm, l)]) hdata

end Framer

/-- The number of frames of a kind in a list of items. -/
def countKind (kind : FrameKind) (items : List (List UInt8 × StreamFrame)) : ℕ :=
  items.countP fun item => item.2.output.1 = kind

/-- Valid items: filler in front of a frame that fits its buffer. -/
def ItemsOk (m n : ℕ) (items : List (List UInt8 × StreamFrame)) : Prop :=
  ∀ item ∈ items, IsFiller item.1 ∧ item.2.Fits m n

theorem ofNat_countKind_cons (kind : FrameKind) (item : List UInt8 × StreamFrame)
    (items : List (List UInt8 × StreamFrame)) :
    UInt32.ofNat (countKind kind (item :: items)) =
      (if item.2.output.1 = kind then 1 else 0) + UInt32.ofNat (countKind kind items) := by
  rw [countKind, List.countP_cons, UInt32.ofNat_add, UInt32.add_comm, ← countKind]
  by_cases h : item.2.output.1 = kind
  · simp [h]
  · simp [h]

section Calls

variable {m n : ℕ}

/-- The first frame of a stream, with the filler in front of it, through one scan. -/
theorem scan_item {f : Framer} (hf : f.Idle) (hsized : f.Sized m n)
    {item : List UInt8 × StreamFrame} (hfill : IsFiller item.1) (hfit : item.2.Fits m n)
    (rest : List UInt8) :
    ∃ g : Framer, g.Sized m n ∧ (∀ kind, g.frameCnt kind = f.frameCnt kind) ∧
      f.scan (item.1 ++ item.2.wire ++ rest) =
        (g.afterFrame item.2, some (item.2.output.1, rest)) := by
  obtain ⟨g, hg, hcl, hscan⟩ := Framer.scan_filler hf item.1 hfill
  have hgsized := hsized.of_cleared hcl
  refine ⟨g, hgsized, Framer.frameCnt_of_cleared hcl, ?_⟩
  rw [List.append_assoc, hscan, Framer.scan_frame hg hgsized hfit]

/-- Successive calls from an idle machine give out the frames of the stream. -/
theorem execCalls_stream (k : ℕ) {items : List (List UInt8 × StreamFrame)} {tail : List UInt8}
    (hitems : ItemsOk m n items) (htail : IsFiller tail) {s : RxFraming} (o : FramingOutputs)
    {chunks : List (List UInt8)} (hs : s.WellFormed) (hf : s.framer.Idle)
    (hsized : s.framer.Sized m n)
    (hchunks : ∀ r ∈ chunks, 1 ≤ r.length ∧ r.length ≤ RxFraming.rxBufSize)
    (hstream : s.pending ++ chunks.flatten = stream items ++ tail) :
    (execCalls k s o (chunks.map some)).1.map FramingOutputs.frames =
        (items.take k).map (fun item => [item.2.output]) ∧
      ∀ kind, (execCalls k s o (chunks.map some)).2.framer.frameCnt kind =
        s.framer.frameCnt kind + UInt32.ofNat (countKind kind (items.take k)) := by
  induction k generalizing items s o chunks with
  | zero => exact ⟨rfl, fun kind => (UInt32.add_zero _).symm⟩
  | succ k ih =>
      have hexec := exec_scans s o.clearFlags chunks hs rfl hchunks
      rw [ExecScans, hstream] at hexec
      rw [execCalls]
      cases items with
      | nil =>
          obtain ⟨g, hg, hcl, hscan⟩ := Framer.scan_filler hf tail htail
          rw [stream, List.flatMap_nil, List.nil_append, ← List.append_nil tail, hscan,
            Framer.scan_nil] at hexec
          obtain ⟨s', hres, hs'⟩ := hexec
          rw [hres]
          refine ⟨rfl, fun kind => ?_⟩
          simp only [hs', Framer.frameCnt_of_cleared hcl]
          exact (UInt32.add_zero _).symm
      | cons item items =>
          obtain ⟨hfill, hfit⟩ := hitems item List.mem_cons_self
          obtain ⟨g, hgsized, hcnt, hscan⟩ := scan_item hf hsized hfill hfit (stream items ++ tail)
          rw [stream, List.flatMap_cons, List.append_assoc, ← stream, hscan] at hexec
          obtain ⟨s', chunks', hres, hs', hwf, hrest, hsub⟩ := hexec
          rw [hres]
          have hidle : s'.framer.Idle := hs' ▸ g.afterFrame_idle item.2
          have hsized' : s'.framer.Sized m n := hs' ▸ hgsized.afterFrame item.2
          obtain ⟨hframes, hcounts⟩ :=
            ih (fun item h => hitems item (List.mem_cons_of_mem _ h))
              (o.clearFlags.put (g.afterFrame item.2) (some item.2.output.1)) hwf hidle hsized'
              (fun r hr => hchunks r (hsub hr)) hrest
          constructor
          · rw [List.map_cons, hframes, Framer.frames_put_afterFrame hgsized hfit,
              List.take_succ_cons, List.map_cons]
          · intro kind
            rw [hcounts kind, hs', Framer.afterFrame_frameCnt, hcnt kind, UInt32.add_assoc,
              List.take_succ_cons, ofNat_countKind_cons]

/-- For every way of cutting a stream of valid frames into reads of 1 to 256 bytes,
the first `k` calls give out the first `k` frames, one each and in order, and the
counters are the numbers of these frames. -/
theorem exec_decodes_stream (m n k : ℕ) (hm : m < 2 ^ 32) (hn : n < 2 ^ 32)
    (items : List (List UInt8 × StreamFrame)) (tail : List UInt8)
    (hitems : ItemsOk m n items) (htail : IsFiller tail) (chunks : List (List UInt8))
    (hchunks : ∀ r ∈ chunks, 1 ≤ r.length ∧ r.length ≤ RxFraming.rxBufSize)
    (hstream : chunks.flatten = stream items ++ tail) :
    let calls := execCalls k (.zeros m n) (.zeros m n) (chunks.map some)
    calls.1.map FramingOutputs.frames = (items.take k).map (fun item => [item.2.output]) ∧
      calls.2.framer.ubxFrameCnt = UInt32.ofNat (countKind .ubx (items.take k)) ∧
      calls.2.framer.rtcmFrameCnt = UInt32.ofNat (countKind .rtcm (items.take k)) := by
  have hwf : (RxFraming.zeros m n).WellFormed := ⟨List.length_replicate, Nat.zero_le _⟩
  have hsized : (RxFraming.zeros m n).framer.Sized m n :=
    ⟨List.length_replicate, rfl, hm, List.length_replicate, rfl, hn⟩
  obtain ⟨hframes, hcounts⟩ := execCalls_stream k hitems htail (.zeros m n) hwf (Or.inl rfl)
    hsized hchunks hstream
  refine ⟨hframes, ?_, ?_⟩
  · exact (hcounts .ubx).trans (UInt32.zero_add _)
  · exact (hcounts .rtcm).trans (UInt32.zero_add _)

/-- A UBX and an RTCM frame with a filler byte between them, in two reads, for buffers
of six bytes. -/
theorem exec_decodes_stream_two :
    let u : UbxFrame := ⟨1, 2, [], by decide⟩
    let r : RtcmFrame := ⟨[], by decide, [0, 0, 0], rfl⟩
    let bytes := stream [([], .ubx u), ([0], .rtcm r)]
    let calls := execCalls 2 (.zeros 6 6) (.zeros 6 6) [some (bytes.take 3), some (bytes.drop 3)]
    calls.1.map FramingOutputs.frames = [[(.ubx, u.bytes)], [(.rtcm, r.bytes)]] ∧
      calls.2.framer.ubxFrameCnt = 1 ∧ calls.2.framer.rtcmFrameCnt = 1 := by
  intro u r bytes calls
  have hitems : ItemsOk 6 6 [([], .ubx u), ([0], .rtcm r)] := by
    intro item h
    rcases List.mem_pair.1 h with rfl | rfl
    · exact ⟨fun _ h => absurd h List.not_mem_nil, Nat.le_refl 6⟩
    · refine ⟨fun c hc => ?_, Nat.le_refl 6⟩
      rw [List.mem_singleton.1 hc]
      decide
  refine exec_decodes_stream 6 6 2 (by decide) (by decide) _ [] hitems
    (fun _ h => absurd h List.not_mem_nil) [bytes.take 3, bytes.drop 3] ?_ ?_
  · intro chunk h
    rcases List.mem_pair.1 h with rfl | rfl
    · exact ⟨by decide, by decide⟩
    · exact ⟨by decide, by decide⟩
  · rw [List.flatten_cons, List.flatten_singleton, List.take_append_drop, List.append_nil]

end Calls

end Catpilot
