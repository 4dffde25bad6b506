import Catpilot.Transition.Run
import Catpilot.Ublox.Segments

/-!
# The bounds of the frame buffers

The machine stores each byte of a frame behind the bytes before it, and the only check
is the one of the length in the header. For UBX frames the check is exact. For RTCM
frames it leaves room for four of the six bytes around the payload, so the buffer is
kept exactly as long as no header names one of the two lengths in between.
-/

namespace Catpilot

open Transition

namespace Framer

/-- The machine takes one byte. -/
def step (f : Framer) (c : UInt8) : Option Framer := some (f.byteStep c).1

/-- The byte ends the length field of an RTCM frame that passes the check and is longer
than the buffer. -/
def OverlongRtcm (f : Framer) (c : UInt8) : Prop :=
  f.rxState = .rtcmWaitLength ∧ f.rtcmBuf.currLen = 2 ∧
    (f.rtcmBuf.push c).rtcmLen + 4 ≤ f.rtcmBuf.maxLen ∧
      f.rtcmBuf.maxLen < (f.rtcmBuf.push c).rtcmLen + 6

instance (f : Framer) (c : UInt8) : Decidable (f.OverlongRtcm c) := by
  rw [OverlongRtcm]
  infer_instance

/-- Neither buffer has more bytes than its capacity. -/
def InBounds (f : Framer) : Prop :=
  f.ubxBuf.currLen ≤ f.ubxBuf.maxLen ∧ f.rtcmBuf.currLen ≤ f.rtcmBuf.maxLen

/-- How much the buffers hold in each state, and that the frame begun fits. -/
inductive Fitting (f : Framer) : Prop where
  | reset (hs : f.rxState = .reset) (hin : f.InBounds)
  | waitStartSc (hs : f.rxState = .waitStartSc) (hu : f.ubxBuf.currLen = 0)
      (hr : f.rtcmBuf.currLen = 0)
  | waitSc2 (hs : f.rxState = .waitSc2) (hu : f.ubxBuf.currLen = 0) (hr : f.rtcmBuf.currLen = 0)
  | waitLength (hs : f.rxState = .waitLength) (hu : f.ubxBuf.currLen < 4)
      (hr : f.rtcmBuf.currLen = 0)
  | waitRest (hs : f.rxState = .waitRest) (h4 : 4 ≤ f.ubxBuf.currLen)
      (hlt : f.ubxBuf.currLen < f.ubxBuf.ubxLen + 6)
      (hfit : f.ubxBuf.ubxLen + 6 ≤ f.ubxBuf.maxLen) (hr : f.rtcmBuf.currLen = 0)
  | rtcmWaitLength (hs : f.rxState = .rtcmWaitLength) (hu : f.ubxBuf.currLen = 0)
      (hr : f.rtcmBuf.currLen < 3)
  | rtcmWaitRest (hs : f.rxState = .rtcmWaitRest) (hu : f.ubxBuf.currLen = 0)
      (h3 : 3 ≤ f.rtcmBuf.currLen) (hlt : f.rtcmBuf.currLen < f.rtcmBuf.rtcmLen + 6)
      (hfit : f.rtcmBuf.rtcmLen + 6 ≤ f.rtcmBuf.maxLen)

variable {f : Framer} {m n : ℕ}

theorem Sized.byteStep (h : f.Sized m n) (c : UInt8) : (f.byteStep c).1.Sized m n where
  ubx_vector := (f.byteStep_grows c).1.length_vector.trans h.ubx_vector
  ubx_maxLen := (f.byteStep_grows c).1.maxLen.trans h.ubx_maxLen
  ubx_lt := h.ubx_lt
  rtcm_vector := (f.byteStep_grows c).2.length_vector.trans h.rtcm_vector
  rtcm_maxLen := (f.byteStep_grows c).2.maxLen.trans h.rtcm_maxLen
  rtcm_lt := h.rtcm_lt

/-- The capacities that both kinds of frame need at least. -/
theorem Fitting.inBounds (h : f.Fitting) (hu : 6 ≤ f.ubxBuf.maxLen)
    (hr : 6 ≤ f.rtcmBuf.maxLen) : f.InBounds := by
  cases h with
  | reset _ hin => exact hin
  | _ =>
      rw [InBounds]
      omega

theorem waitStartSc_fitting (hs : f.rxState = .waitStartSc) (hu : f.ubxBuf.currLen = 0)
    (hr : f.rtcmBuf.currLen = 0) (c : UInt8) : (f.waitStartSc c).Fitting := by
  rw [Framer.waitStartSc]
  split
  · exact .waitSc2 rfl hu hr
  · split
    · refine .rtcmWaitLength rfl hu ?_
      rw [VectorU8.push_currLen, hr]
      decide
    · exact .waitStartSc hs hu hr

/-- The check of a UBX header, with the wrapping differences resolved. -/
theorem ubxBufLenToPayloadSize_maxLen {l : ℕ} (h6 : 6 ≤ l) (hl : l < 2 ^ 32) :
    ubxBufLenToPayloadSize l = l - 6 := by
  rw [ubxBufLenToPayloadSize, ubxHeaderSize, Word.wrapSub_of_le (by omega) hl,
    Word.wrapSub_of_le (by omega) (by omega)]
  omega

theorem waitLength_fitting (hs : f.rxState = .waitLength) (hu : f.ubxBuf.currLen < 4)
    (hr : f.rtcmBuf.currLen = 0) (h6 : 6 ≤ f.ubxBuf.maxLen) (hmax : f.ubxBuf.maxLen < 2 ^ 32)
    (c : UInt8) : (f.waitLength c).Fitting := by
  have hrtcm : f.rtcmBuf.currLen ≤ f.rtcmBuf.maxLen := hr.trans_le (Nat.zero_le _)
  simp only [Framer.waitLength]
  split
  · next hlen =>
      rw [VectorU8.push_maxLen, ubxBufLenToPayloadSize_maxLen h6 hmax]
      split
      · refine .reset rfl ⟨?_, hrtcm⟩
        simp only [hlen, VectorU8.push_maxLen]
        omega
      · next hle =>
          refine .waitRest rfl hlen.ge ?_ ?_ hr
          · simp only [hlen]
            omega
          · simp only [VectorU8.push_maxLen]
            omega
  · next hlen =>
      rw [VectorU8.push_currLen] at hlen
      refine .waitLength hs ?_ hr
      simp only [VectorU8.push_currLen]
      omega

theorem waitRest_fitting (hs : f.rxState = .waitRest) (h4 : 4 ≤ f.ubxBuf.currLen)
    (hlt : f.ubxBuf.currLen < f.ubxBuf.ubxLen + 6)
    (hfit : f.ubxBuf.ubxLen + 6 ≤ f.ubxBuf.maxLen) (hr : f.rtcmBuf.currLen = 0) (c : UInt8) :
    (f.waitRest c).1.Fitting := by
  have hpush : (f.ubxBuf.push c).ubxLen = f.ubxBuf.ubxLen := VectorU8.ubxLen_push h4 c
  have hin : (f.ubxBuf.push c).currLen ≤ f.ubxBuf.maxLen := by
    rw [VectorU8.push_currLen]
    omega
  have hrtcm : f.rtcmBuf.currLen ≤ f.rtcmBuf.maxLen := hr.trans_le (Nat.zero_le _)
  rw [waitRest_eq h4 hlt]
  split
  · split
    · exact .reset rfl ⟨hin, hrtcm⟩
    · exact .reset rfl ⟨hin, hrtcm⟩
  · next hmore =>
      rw [hpush, VectorU8.push_currLen] at hmore
      refine .waitRest hs ?_ ?_ ?_ hr
      · exact Nat.le_succ_of_le h4
      · simp only [hpush, VectorU8.push_currLen]
        omega
      · simp only [hpush, VectorU8.push_maxLen]
        exact hfit

/-- Here the condition on the length field counts. -/
theorem rtcmWaitLength_fitting (hs : f.rxState = .rtcmWaitLength) (hu : f.ubxBuf.currLen = 0)
    (hr : f.rtcmBuf.currLen < 3) (h6 : 6 ≤ f.rtcmBuf.maxLen) (hmax : f.rtcmBuf.maxLen < 2 ^ 32)
    {c : UInt8} (hok : ¬ f.OverlongRtcm c) : (f.rtcmWaitLength c).Fitting := by
  have hubx : f.ubxBuf.currLen ≤ f.ubxBuf.maxLen := hu.trans_le (Nat.zero_le _)
  simp only [Framer.rtcmWaitLength]
  split
  · next hlen =>
      rw [VectorU8.push_maxLen, Word.wrapSub_of_le (by omega) hmax]
      split
      · refine .reset rfl ⟨hubx, ?_⟩
        simp only [hlen, VectorU8.push_maxLen]
        omega
      · next hle =>
          have htwo : f.rtcmBuf.currLen = 2 := by
            rw [VectorU8.push_currLen] at hlen
            omega
          have hfit : (f.rtcmBuf.push c).rtcmLen + 6 ≤ f.rtcmBuf.maxLen := by
            by_contra hover
            exact hok ⟨hs, htwo, by omega, by omega⟩
          refine .rtcmWaitRest rfl hu hlen.ge ?_ hfit
          simp only [hlen]
          omega
  · next hlen =>
      rw [VectorU8.push_currLen] at hlen
      refine .rtcmWaitLength hs hu ?_
      simp only [VectorU8.push_currLen]
      omega

theorem rtcmWaitRest_fitting (hs : f.rxState = .rtcmWaitRest) (hu : f.ubxBuf.currLen = 0)
    (h3 : 3 ≤ f.rtcmBuf.currLen) (hlt : f.rtcmBuf.currLen < f.rtcmBuf.rtcmLen + 6)
    (hfit : f.rtcmBuf.rtcmLen + 6 ≤ f.rtcmBuf.maxLen) (c : UInt8) :
    (f.rtcmWaitRest c).1.Fitting := by
  have hpush : (f.rtcmBuf.push c).rtcmLen = f.rtcmBuf.rtcmLen := VectorU8.rtcmLen_push h3 c
  have hubx : f.ubxBuf.currLen ≤ f.ubxBuf.maxLen := hu.trans_le (Nat.zero_le _)
  simp only [Framer.rtcmWaitRest]
  split
  · refine .reset rfl ⟨hubx, ?_⟩
    simp only [VectorU8.push_currLen, VectorU8.push_maxLen]
    omega
  · next hmore =>
      rw [hpush, VectorU8.push_currLen] at hmore
      refine .rtcmWaitRest hs hu ?_ ?_ ?_
      · exact Nat.le_succ_of_le h3
      · simp only [hpush, VectorU8.push_currLen]
        omega
      · simp only [hpush, VectorU8.push_maxLen]
        exact hfit

/-- Every byte but the last one of an overlong length field keeps the frame fitting. -/
theorem Fitting.byteStep (h : f.Fitting) (hsized : f.Sized m n) (hm : 6 ≤ m) (hn : 6 ≤ n)
    {c : UInt8} (hok : ¬ f.OverlongRtcm c) : (f.byteStep c).1.Fitting := by
  cases h with
  | reset hs =>
      rw [byteStep_reset hs]
      exact waitStartSc_fitting rfl rfl rfl c
  | waitStartSc hs hu hr =>
      rw [byteStep_waitStartSc hs]
      exact waitStartSc_fitting hs hu hr c
  | waitSc2 hs hu hr =>
      rw [byteStep_waitSc2 hs]
      by_cases hc : c = 0x62
      · rw [if_pos hc]
        exact .waitLength rfl (hu.trans_lt (by decide)) hr
      · rw [if_neg hc]
        exact .reset rfl ⟨hu.trans_le (Nat.zero_le _), hr.trans_le (Nat.zero_le _)⟩
  | waitLength hs hu hr =>
      rw [byteStep_waitLength hs]
      exact waitLength_fitting hs hu hr (hm.trans_eq hsized.ubx_maxLen.symm)
        (hsized.ubx_maxLen.trans_lt hsized.ubx_lt) c
  | waitRest hs h4 hlt hfit hr =>
      rw [byteStep_waitRest hs]
      exact waitRest_fitting hs h4 hlt hfit hr c
  | rtcmWaitLength hs hu hr =>
      rw [byteStep_rtcmWaitLength hs]
      exact rtcmWaitLength_fitting hs hu hr (hn.trans_eq hsized.rtcm_maxLen.symm)
        (hsized.rtcm_maxLen.trans_lt hsized.rtcm_lt) hok
  | rtcmWaitRest hs hu h3 hlt hfit =>
      rw [byteStep_rtcmWaitRest hs]
      exact rtcmWaitRest_fitting hs hu h3 hlt hfit c

/-- A scan goes along the bytes that it takes. -/
theorem scan_run {f f' : Framer} {cs rest : List UInt8} {kind : FrameKind}
    (h : f.scan cs = (f', some (kind, rest))) :
    ∃ used, cs = used ++ rest ∧ run step f used = some f' := by
  induction cs generalizing f with
  | nil => cases h
  | cons c cs ih =>
      rcases hstep : f.byteStep c with ⟨g, _ | kind'⟩
      · rw [scan_cons_of_none hstep] at h
        obtain ⟨used, rfl, hrun⟩ := ih h
        refine ⟨c :: used, rfl, run_cons_eq_some.2 ⟨g, ?_, hrun⟩⟩
        rw [step, hstep]
      · rw [scan_cons_of_some hstep] at h
        cases h
        refine ⟨[c], rfl, run_cons_eq_some.2 ⟨f', ?_, rfl⟩⟩
        rw [step, hstep]

theorem scan_run_none {f f' : Framer} {cs : List UInt8} (h : f.scan cs = (f', none)) :
    run step f cs = some f' := by
  induction cs generalizing f with
  | nil =>
      cases h
      rfl
  | cons c cs ih =>
      rcases hstep : f.byteStep c with ⟨g, _ | kind⟩
      · rw [scan_cons_of_none hstep] at h
        refine run_cons_eq_some.2 ⟨g, ?_, ih h⟩
        rw [step, hstep]
      · rw [scan_cons_of_some hstep] at h
        cases h

/-- No byte of a stream is the last one of an overlong length field. -/
def NoOverlong (f : Framer) (cs : List UInt8) : Prop :=
  Along (fun f c => ¬ f.OverlongRtcm c) step f cs

/-- What holds of the buffers between any two bytes. -/
structure Bounded (m n : ℕ) (f : Framer) : Prop where
  sized : f.Sized m n
  fitting : f.Fitting

theorem Bounded.inBounds (h : f.Bounded m n) (hm : 6 ≤ m) (hn : 6 ≤ n) : f.InBounds :=
  h.fitting.inBounds (hm.trans_eq h.sized.ubx_maxLen.symm) (hn.trans_eq h.sized.rtcm_maxLen.symm)

/-- Along a stream without overlong length fields the buffers keep their bounds. -/
theorem Bounded.run (h : f.Bounded m n) (hm : 6 ≤ m) (hn : 6 ≤ n) {cs : List UInt8}
    (hok : f.NoOverlong cs) {f' : Framer} (hrun : Transition.run step f cs = some f') :
    f'.Bounded m n := by
  refine Along.invariant ?_ hok h hrun
  intro g c g' hg hc hstep
  cases hstep
  exact ⟨hg.sized.byteStep c, hg.fitting.byteStep hg.sized hm hn hc⟩

/-- The bytes in front leave the buffers within their capacity. -/
def InBoundsAlong (f : Framer) (cs : List UInt8) : Prop :=
  ∀ l g, l <+: cs → run step f l = some g → g.InBounds

theorem Sized.run (h : f.Sized m n) {cs : List UInt8} {f' : Framer}
    (hrun : Transition.run step f cs = some f') : f'.Sized m n := by
  refine run_invariant ?_ h hrun
  intro g c g' hg hstep
  cases hstep
  exact hg.byteStep c

/-- What is left of the stream after a part of it. -/
theorem InBoundsAlong.after {used rest : List UInt8} (h : f.InBoundsAlong (used ++ rest))
    {f' : Framer} (hrun : run step f used = some f') :
    f'.InBounds ∧ f'.InBoundsAlong rest := by
  refine ⟨h used f' (List.prefix_append used rest) hrun, fun l g hl hg => ?_⟩
  exact h (used ++ l) g ((List.prefix_append_right_inj used).2 hl)
    (run_append_eq_some.2 ⟨f', hrun, hg⟩)

/-- Along a stream without overlong length fields the buffers keep their bounds. -/
theorem Bounded.inBoundsAlong (h : f.Bounded m n) (hm : 6 ≤ m) (hn : 6 ≤ n) {cs : List UInt8}
    (hok : f.NoOverlong cs) : f.InBoundsAlong cs := by
  rintro l g ⟨rest, rfl⟩ hrun
  rw [NoOverlong, along_append] at hok
  exact (h.run hm hn hok.1 hrun).inBounds hm hn

end Framer

namespace FramingOutputs

/-- The copies to the outputs stayed inside. -/
def InBounds (o : FramingOutputs) : Prop :=
  o.ubxFrame.currLen ≤ o.ubxFrame.maxLen ∧ o.rtcmFrame.currLen ≤ o.rtcmFrame.maxLen

/-- The sizes of the outputs. -/
structure Sized (m n : ℕ) (o : FramingOutputs) : Prop where
  ubx_maxLen : o.ubxFrame.maxLen = m
  rtcm_maxLen : o.rtcmFrame.maxLen = n
  rtcm_vector : o.rtcmFrame.vector.length = n

variable {o : FramingOutputs} {f : Framer} {m n : ℕ}

/-- A frame is copied to an output of the size of its buffer. -/
theorem Sized.put (h : o.Sized m n) (hf : f.Sized m n) (kind : FrameKind) :
    (o.put f (some kind)).Sized m n := by
  cases kind with
  | ubx => exact ⟨h.ubx_maxLen, h.rtcm_maxLen, h.rtcm_vector⟩
  | rtcm =>
      refine ⟨h.ubx_maxLen, h.rtcm_maxLen, ?_⟩
      have hroom : o.rtcmFrame.vector.length = f.rtcmBuf.vector.length :=
        h.rtcm_vector.trans hf.rtcm_vector.symm
      exact (VectorU8.assign_length_vector hroom).trans h.rtcm_vector

theorem InBounds.put (h : o.InBounds) (ho : o.Sized m n) (hf : f.Sized m n) (hin : f.InBounds)
    (kind : FrameKind) : (o.put f (some kind)).InBounds := by
  cases kind with
  | ubx => exact ⟨hin.1.trans_eq (hf.ubx_maxLen.trans ho.ubx_maxLen.symm), h.2⟩
  | rtcm => exact ⟨h.1, hin.2.trans_eq (hf.rtcm_maxLen.trans ho.rtcm_maxLen.symm)⟩

end FramingOutputs

section Calls

variable {m n : ℕ}

/-- Successive calls on a stream that leaves the buffers within their capacity. -/
theorem execCalls_inBounds (k : ℕ) {s : RxFraming} {o : FramingOutputs}
    {chunks : List (List UInt8)} (hs : s.WellFormed) (hf : s.framer.Sized m n) (ho : o.InBounds)
    (hsize : o.Sized m n)
    (hchunks : ∀ r ∈ chunks, 1 ≤ r.length ∧ r.length ≤ RxFraming.rxBufSize)
    (hin : s.framer.InBoundsAlong (s.pending ++ chunks.flatten)) :
    (execCalls k s o (chunks.map some)).2.framer.InBounds ∧
      ∀ o' ∈ (execCalls k s o (chunks.map some)).1, o'.InBounds ∧ o'.Sized m n := by
  induction k generalizing s o chunks with
  | zero =>
      have hstart := hin [] s.framer List.nil_prefix rfl
      exact ⟨hstart, fun _ h => absurd h List.not_mem_nil⟩
  | succ k ih =>
      rw [execCalls]
      rcases (exec_scans s o.clearFlags chunks hs rfl hchunks).cases with
        ⟨f, s', hscan, hres, hs'⟩ | ⟨f, kind, rest, s', chunks', hscan, hres, hs', hwf, hrest, hsub⟩
      · rw [hres]
        have hall := hin _ f List.prefix_rfl (Framer.scan_run_none hscan)
        exact ⟨hs' ▸ hall, fun _ h => absurd h List.not_mem_nil⟩
      · rw [hres]
        obtain ⟨used, hused, hrun⟩ := Framer.scan_run hscan
        rw [hused] at hin
        obtain ⟨hinf, hinrest⟩ := hin.after hrun
        have hsized := hf.run hrun
        have hclear : o.clearFlags.Sized m n := ⟨hsize.1, hsize.2, hsize.3⟩
        have hput : (o.clearFlags.put f (some kind)).InBounds :=
          FramingOutputs.InBounds.put (o := o.clearFlags) ho hclear hsized hinf kind
        have hputsize := hclear.put hsized kind
        obtain ⟨hend, hall⟩ := ih hwf (hs' ▸ hsized) hput hputsize
          (fun r hr => hchunks r (hsub hr)) (by rw [hrest, hs']; exact hinrest)
        refine ⟨hend, fun o' ho' => ?_⟩
        rcases List.mem_cons.1 ho' with rfl | ho'
        · exact ⟨hput, hputsize⟩
        · exact hall o' ho'

end Calls

/-- The machine and its buffers as they start. -/
theorem zeros_wellFormed (m n : ℕ) : (RxFraming.zeros m n).WellFormed :=
  ⟨List.length_replicate, Nat.zero_le _⟩

theorem zeros_sized {m n : ℕ} (hm : m < 2 ^ 32) (hn : n < 2 ^ 32) :
    (RxFraming.zeros m n).framer.Sized m n :=
  ⟨List.length_replicate, rfl, hm, List.length_replicate, rfl, hn⟩

theorem zeros_bounded {m n : ℕ} (hm : m < 2 ^ 32) (hn : n < 2 ^ 32) :
    (RxFraming.zeros m n).framer.Bounded m n :=
  ⟨zeros_sized hm hn, .reset rfl ⟨Nat.zero_le _, Nat.zero_le _⟩⟩

theorem FramingOutputs.sized_zeros (m n : ℕ) : (FramingOutputs.zeros m n).Sized m n :=
  ⟨rfl, rfl, List.length_replicate⟩

/-- Between any two bytes of the stream, and after any number of exec calls on it, the
buffers hold no more than their capacity, which is the size of their arrays; nor do the
outputs. -/
structure FramingInBounds (m n : ℕ) (chunks : List (List UInt8)) : Prop where
  bytes : ∀ l f, l <+: chunks.flatten → run Framer.step (RxFraming.zeros m n).framer l = some f →
    f.InBounds ∧ f.ubxBuf.vector.length = f.ubxBuf.maxLen ∧
      f.rtcmBuf.vector.length = f.rtcmBuf.maxLen
  calls : ∀ k, (execCalls k (.zeros m n) (.zeros m n) (chunks.map some)).2.framer.InBounds ∧
    ∀ o ∈ (execCalls k (.zeros m n) (.zeros m n) (chunks.map some)).1, o.InBounds

theorem FramingInBounds.inBoundsAlong {m n : ℕ} {chunks : List (List UInt8)}
    (h : FramingInBounds m n chunks) :
    (RxFraming.zeros m n).framer.InBoundsAlong chunks.flatten :=
  fun l f hl hrun => (h.bytes l f hl hrun).1

/-- The buffers keep their bounds exactly on the streams that do so from byte to byte, and
then the outputs hold what they have room for. -/
theorem framingInBounds_iff {m n : ℕ} (hm : m < 2 ^ 32) (hn : n < 2 ^ 32)
    {chunks : List (List UInt8)}
    (hchunks : ∀ r ∈ chunks, 1 ≤ r.length ∧ r.length ≤ RxFraming.rxBufSize) :
    FramingInBounds m n chunks ↔ (RxFraming.zeros m n).framer.InBoundsAlong chunks.flatten := by
  refine ⟨FramingInBounds.inBoundsAlong, fun h => ⟨fun l f hl hrun => ?_, fun k => ?_⟩⟩
  · have hsized := (zeros_sized hm hn).run hrun
    refine ⟨h l f hl hrun, ?_, ?_⟩
    · exact hsized.ubx_vector.trans hsized.ubx_maxLen.symm
    · exact hsized.rtcm_vector.trans hsized.rtcm_maxLen.symm
  · obtain ⟨hend, hall⟩ := execCalls_inBounds k (zeros_wellFormed m n) (zeros_sized hm hn)
      ⟨Nat.zero_le _, Nat.zero_le _⟩ (FramingOutputs.sized_zeros m n) hchunks h
    exact ⟨hend, fun o ho => (hall o ho).1⟩

/-- For all capacities from six on, the buffers keep their bounds on every stream, and
for every way of cutting it into reads, as long as no RTCM length field that passes the
check names more than the buffer holds. -/
theorem framing_inBounds (m n : ℕ) (hm : 6 ≤ m) (hm' : m < 2 ^ 32) (hn : 6 ≤ n)
    (hn' : n < 2 ^ 32) (chunks : List (List UInt8))
    (hchunks : ∀ r ∈ chunks, 1 ≤ r.length ∧ r.length ≤ RxFraming.rxBufSize)
    (hok : (RxFraming.zeros m n).framer.NoOverlong chunks.flatten) :
    FramingInBounds m n chunks :=
  (framingInBounds_iff hm' hn' hchunks).2 ((zeros_bounded hm' hn').inBoundsAlong hm hn hok)

/-- An RTCM frame that fills its buffer. -/
theorem framing_inBounds_full : FramingInBounds 8 8 [[0xd3, 0], [2, 9, 9, 1, 2, 3]] :=
  framing_inBounds 8 8 (by decide) (by decide) (by decide) (by decide)
    [[0xd3, 0], [2, 9, 9, 1, 2, 3]] (by decide)
    (by rw [Framer.NoOverlong]; exact of_decide_eq_true (by decide))

/-- An RTCM frame with two payload bytes in a buffer of six passes the check and ends
behind the buffer. -/
theorem zeros_not_inBoundsAlong :
    ¬ (RxFraming.zeros 6 6).framer.InBoundsAlong [0xd3, 0, 2, 9, 9, 1, 2, 3] := by
  intro h
  have hrun : run Framer.step (RxFraming.zeros 6 6).framer [0xd3, 0, 2, 9, 9, 1, 2] =
      some { (RxFraming.zeros 6 6).framer with
        rxState := .rtcmWaitRest
        rtcmBuf := ⟨[0xd3, 0, 2, 9, 9, 1], 7, 6⟩ } := by decide
  exact absurd (h _ _ ⟨[3], rfl⟩ hrun).2 (by decide)

theorem framing_not_inBounds : ¬ FramingInBounds 6 6 [[0xd3, 0, 2, 9, 9, 1, 2, 3]] :=
  fun h => zeros_not_inBoundsAlong h.inBoundsAlong

end Catpilot
