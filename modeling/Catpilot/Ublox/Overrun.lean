import Catpilot.Ublox.Bounds
import Catpilot.Ublox.Chunks

/-!
# Streams that overrun a buffer

A frame that is longer than its buffer, and whose length field passes the check all the same,
is stored behind the end of the buffer as soon as so many of its bytes have come. What the
code does then is not defined. On the other streams, and on no more, the frames that go out
are right, and they do not depend on how the stream is cut into reads.
-/

namespace Catpilot

open Transition

namespace Framer

/-- The buffer that the machine collects a frame in, and the bytes that the frame has, or its
header while this is not complete. -/
def filling (f : Framer) : Option (VectorU8 × ℕ) :=
  match f.rxState with
  | .reset | .waitStartSc | .waitSc2 => none
  | .waitLength => some (f.ubxBuf, 4)
  | .waitRest => some (f.ubxBuf, f.ubxBuf.ubxLen + 6)
  | .rtcmWaitLength => some (f.rtcmBuf, 3)
  | .rtcmWaitRest => some (f.rtcmBuf, f.rtcmBuf.rtcmLen + 6)

/-- Where a frame is longer than its buffer, the stream ends before it fills the buffer. -/
def NoOverrun (f : Framer) (cs : List UInt8) : Prop :=
  ∀ l rest, cs = l ++ rest → ∀ g, run step f l = some g →
    ∀ v len, g.filling = some (v, len) → v.maxLen < len → v.currLen + rest.length ≤ v.maxLen

/-- What the machine has of a frame in each state, while the buffers are within their
capacity. -/
inductive Underway (f : Framer) : Prop where
  | reset (hs : f.rxState = .reset) (hin : f.InBounds)
  | waitStartSc (hs : f.rxState = .waitStartSc) (hu : f.ubxBuf.currLen = 0)
      (hr : f.rtcmBuf.currLen = 0)
  | waitSc2 (hs : f.rxState = .waitSc2) (hu : f.ubxBuf.currLen = 0) (hr : f.rtcmBuf.currLen = 0)
  | waitLength (hs : f.rxState = .waitLength) (hlt : f.ubxBuf.currLen < 4) (hin : f.InBounds)
  | waitRest (hs : f.rxState = .waitRest) (h4 : 4 ≤ f.ubxBuf.currLen)
      (hlt : f.ubxBuf.currLen < f.ubxBuf.ubxLen + 6) (hin : f.InBounds)
  | rtcmWaitLength (hs : f.rxState = .rtcmWaitLength) (hlt : f.rtcmBuf.currLen < 3)
      (hin : f.InBounds)
  | rtcmWaitRest (hs : f.rxState = .rtcmWaitRest) (h3 : 3 ≤ f.rtcmBuf.currLen)
      (hlt : f.rtcmBuf.currLen < f.rtcmBuf.rtcmLen + 6) (hin : f.InBounds)

section Underway

variable {f : Framer}

theorem Underway.inBounds (h : f.Underway) : f.InBounds := by
  cases h with
  | waitStartSc _ hu hr => exact ⟨hu.trans_le (Nat.zero_le _), hr.trans_le (Nat.zero_le _)⟩
  | waitSc2 _ hu hr => exact ⟨hu.trans_le (Nat.zero_le _), hr.trans_le (Nat.zero_le _)⟩
  | reset _ hin => exact hin
  | waitLength _ _ hin => exact hin
  | waitRest _ _ _ hin => exact hin
  | rtcmWaitLength _ _ hin => exact hin
  | rtcmWaitRest _ _ _ hin => exact hin

theorem waitStartSc_underway (hs : f.rxState = .waitStartSc) (hu : f.ubxBuf.currLen = 0)
    (hr : f.rtcmBuf.currLen = 0) {c : UInt8} (hin : (f.waitStartSc c).InBounds) :
    (f.waitStartSc c).Underway := by
  rw [Framer.waitStartSc] at hin ⊢
  split
  · exact .waitSc2 rfl hu hr
  · next hb5 =>
      rw [if_neg hb5] at hin
      split
      · next hd3 =>
          rw [if_pos hd3] at hin
          refine .rtcmWaitLength rfl ?_ hin
          rw [VectorU8.push_currLen, hr]
          decide
      · exact .waitStartSc hs hu hr

variable {c : UInt8}

theorem waitLength_underway (hs : f.rxState = .waitLength) (hlt : f.ubxBuf.currLen < 4)
    (hin : (f.byteStep c).1.InBounds) : (f.byteStep c).1.Underway := by
  rw [byteStep_waitLength hs, Framer.waitLength] at hin ⊢
  by_cases hlen : (f.ubxBuf.push c).currLen = 4
  · simp only [if_pos hlen] at hin ⊢
    split
    · next hlong =>
        rw [if_pos hlong] at hin
        exact .reset rfl hin
    · next hpass =>
        rw [if_neg hpass] at hin
        refine .waitRest rfl hlen.ge ?_ hin
        simp only [hlen]
        omega
  · simp only [if_neg hlen] at hin ⊢
    rw [VectorU8.push_currLen] at hlen
    refine .waitLength hs ?_ hin
    rw [VectorU8.push_currLen]
    omega

theorem waitRest_underway (hs : f.rxState = .waitRest) (h4 : 4 ≤ f.ubxBuf.currLen)
    (hlt : f.ubxBuf.currLen < f.ubxBuf.ubxLen + 6)
    (hin : (f.byteStep c).1.InBounds) : (f.byteStep c).1.Underway := by
  have hpush : (f.ubxBuf.push c).ubxLen = f.ubxBuf.ubxLen := VectorU8.ubxLen_push h4 c
  rw [byteStep_waitRest hs, waitRest_eq h4 hlt] at hin ⊢
  by_cases hend : (f.ubxBuf.push c).currLen = (f.ubxBuf.push c).ubxLen + 6
  · simp only [if_pos hend] at hin ⊢
    split
    · next hcrc =>
        rw [if_pos hcrc] at hin
        exact .reset rfl hin
    · next hcrc =>
        rw [if_neg hcrc] at hin
        exact .reset rfl hin
  · simp only [if_neg hend] at hin ⊢
    rw [hpush, VectorU8.push_currLen] at hend
    refine .waitRest hs (Nat.le_succ_of_le h4) ?_ hin
    simp only [hpush, VectorU8.push_currLen]
    omega

theorem rtcmWaitLength_underway (hs : f.rxState = .rtcmWaitLength)
    (hlt : f.rtcmBuf.currLen < 3) (hin : (f.byteStep c).1.InBounds) : (f.byteStep c).1.Underway := by
  rw [byteStep_rtcmWaitLength hs, Framer.rtcmWaitLength] at hin ⊢
  by_cases hlen : (f.rtcmBuf.push c).currLen = 1 + 2
  · simp only [if_pos hlen] at hin ⊢
    split
    · next hlong =>
        rw [if_pos hlong] at hin
        exact .reset rfl hin
    · next hpass =>
        rw [if_neg hpass] at hin
        refine .rtcmWaitRest rfl hlen.ge ?_ hin
        simp only [hlen]
        omega
  · simp only [if_neg hlen] at hin ⊢
    rw [VectorU8.push_currLen] at hlen
    refine .rtcmWaitLength hs ?_ hin
    rw [VectorU8.push_currLen]
    omega

theorem rtcmWaitRest_underway (hs : f.rxState = .rtcmWaitRest) (h3 : 3 ≤ f.rtcmBuf.currLen)
    (hlt : f.rtcmBuf.currLen < f.rtcmBuf.rtcmLen + 6)
    (hin : (f.byteStep c).1.InBounds) : (f.byteStep c).1.Underway := by
  have hpush : (f.rtcmBuf.push c).rtcmLen = f.rtcmBuf.rtcmLen := VectorU8.rtcmLen_push h3 c
  rw [byteStep_rtcmWaitRest hs, Framer.rtcmWaitRest] at hin ⊢
  by_cases hend : (f.rtcmBuf.push c).currLen = (f.rtcmBuf.push c).rtcmLen + 1 + 2 + 3
  · simp only [if_pos hend] at hin ⊢
    exact .reset rfl hin
  · simp only [if_neg hend] at hin ⊢
    rw [hpush, VectorU8.push_currLen] at hend
    refine .rtcmWaitRest hs (Nat.le_succ_of_le h3) ?_ hin
    simp only [hpush, VectorU8.push_currLen]
    omega

/-- A byte that leaves the buffers within their capacity is one of a frame, or of none. -/
theorem Underway.byteStep (h : f.Underway) (hin : (f.byteStep c).1.InBounds) :
    (f.byteStep c).1.Underway := by
  cases h with
  | reset hs =>
      rw [byteStep_reset hs] at hin ⊢
      exact waitStartSc_underway rfl rfl rfl hin
  | waitStartSc hs hu hr =>
      rw [byteStep_waitStartSc hs] at hin ⊢
      exact waitStartSc_underway hs hu hr hin
  | waitSc2 hs hu hr =>
      rw [byteStep_waitSc2 hs] at hin ⊢
      by_cases hc : c = 0x62
      · simp only [if_pos hc] at hin ⊢
        exact .waitLength rfl (hu.trans_lt (by decide)) hin
      · simp only [if_neg hc] at hin ⊢
        exact .reset rfl hin
  | waitLength hs hlt => exact waitLength_underway hs hlt hin
  | waitRest hs h4 hlt => exact waitRest_underway hs h4 hlt hin
  | rtcmWaitLength hs hlt => exact rtcmWaitLength_underway hs hlt hin
  | rtcmWaitRest hs h3 hlt => exact rtcmWaitRest_underway hs h3 hlt hin

/-- What a byte of a frame does to its buffer. -/
theorem filling_byteStep (f : Framer) (c : UInt8) {v : VectorU8} {len : ℕ}
    (hv : f.filling = some (v, len)) :
    (f.byteStep c).1.ubxBuf = f.ubxBuf ∧ v = f.rtcmBuf ∧ (f.byteStep c).1.rtcmBuf = v.push c ∨
      (f.byteStep c).1.rtcmBuf = f.rtcmBuf ∧ v = f.ubxBuf ∧
        (f.byteStep c).1.ubxBuf = v.push c := by
  cases hs : f.rxState with
  | reset | waitStartSc | waitSc2 =>
      rw [filling, hs] at hv
      cases hv
  | waitLength =>
      rw [filling, hs] at hv
      cases hv
      rw [byteStep_waitLength hs, Framer.waitLength]
      refine Or.inr ?_
      split
      · split
        · exact ⟨rfl, rfl, rfl⟩
        · exact ⟨rfl, rfl, rfl⟩
      · exact ⟨rfl, rfl, rfl⟩
  | waitRest =>
      rw [filling, hs] at hv
      cases hv
      rw [byteStep_waitRest hs, Framer.waitRest]
      refine Or.inr ?_
      split
      · split
        · exact ⟨rfl, rfl, rfl⟩
        · exact ⟨rfl, rfl, rfl⟩
      · exact ⟨rfl, rfl, rfl⟩
  | rtcmWaitLength =>
      rw [filling, hs] at hv
      cases hv
      rw [byteStep_rtcmWaitLength hs, Framer.rtcmWaitLength]
      refine Or.inl ?_
      split
      · split
        · exact ⟨rfl, rfl, rfl⟩
        · exact ⟨rfl, rfl, rfl⟩
      · exact ⟨rfl, rfl, rfl⟩
  | rtcmWaitRest =>
      rw [filling, hs] at hv
      cases hv
      rw [byteStep_rtcmWaitRest hs, Framer.rtcmWaitRest]
      refine Or.inl ?_
      split
      · exact ⟨rfl, rfl, rfl⟩
      · exact ⟨rfl, rfl, rfl⟩

/-- A byte of a frame stays within the capacity exactly while the buffer has room for it. -/
theorem InBounds.byteStep_iff (h : f.InBounds) (c : UInt8) {v : VectorU8} {len : ℕ}
    (hv : f.filling = some (v, len)) : (f.byteStep c).1.InBounds ↔ v.currLen < v.maxLen := by
  rcases filling_byteStep f c hv with ⟨hu, rfl, hr⟩ | ⟨hr, rfl, hu⟩
  · rw [InBounds, hu, hr, VectorU8.push_currLen, VectorU8.push_maxLen]
    exact ⟨fun hin => hin.2, fun hlt => ⟨h.1, hlt⟩⟩
  · rw [InBounds, hu, hr, VectorU8.push_currLen, VectorU8.push_maxLen]
    exact ⟨fun hin => hin.1, fun hlt => ⟨hlt, h.2⟩⟩

/-- A byte that begins no frame, or the first byte of one. -/
theorem Underway.byteStep_of_none (h : f.Underway) (c : UInt8) (hv : f.filling = none) :
    (f.byteStep c).1.InBounds ∨
      ∃ v, (f.byteStep c).1.filling = some (v, 3) ∧ v.currLen = 1 ∧ v.maxLen = 0 := by
  have hstart : ∀ g : Framer, g.ubxBuf.currLen = 0 → g.rtcmBuf.currLen = 0 →
      (g.waitStartSc c).InBounds ∨
        ∃ v, (g.waitStartSc c).filling = some (v, 3) ∧ v.currLen = 1 ∧ v.maxLen = 0 := by
    intro g hu hr
    have hin : g.InBounds := ⟨hu.trans_le (Nat.zero_le _), hr.trans_le (Nat.zero_le _)⟩
    rw [Framer.waitStartSc]
    split
    · exact Or.inl hin
    · split
      · rcases Nat.eq_zero_or_pos g.rtcmBuf.maxLen with hzero | hpos
        · exact Or.inr ⟨_, rfl, congrArg (· + 1) hr, hzero⟩
        · refine Or.inl ⟨hin.1, ?_⟩
          rw [VectorU8.push_currLen, VectorU8.push_maxLen, hr]
          exact hpos
      · exact Or.inl hin
  cases h with
  | reset hs =>
      rw [byteStep_reset hs]
      exact hstart f.cleared rfl rfl
  | waitStartSc hs hu hr =>
      rw [byteStep_waitStartSc hs]
      exact hstart f hu hr
  | waitSc2 hs hu hr =>
      rw [byteStep_waitSc2 hs]
      exact Or.inl ⟨hu.trans_le (Nat.zero_le _), hr.trans_le (Nat.zero_le _)⟩
  | waitLength hs | waitRest hs | rtcmWaitLength hs | rtcmWaitRest hs =>
      rw [filling, hs] at hv
      cases hv

/-- A frame that is longer than its buffer does not end before it leaves the buffer. -/
theorem Underway.filling_of_long (h : f.Underway) {c : UInt8} {v : VectorU8} {len : ℕ}
    (hv : f.filling = some (v, len)) (hlong : v.maxLen < len) (hroom : v.currLen < v.maxLen) :
    (f.byteStep c).1.filling = some (v.push c, len) := by
  cases h with
  | reset hs | waitStartSc hs | waitSc2 hs =>
      rw [filling, hs] at hv
      cases hv
  | waitLength hs hlt =>
      rw [filling, hs] at hv
      cases hv
      have hmore : (f.ubxBuf.push c).currLen ≠ 4 := by
        rw [VectorU8.push_currLen]
        omega
      rw [byteStep_waitLength hs, Framer.waitLength]
      simp only [if_neg hmore, filling, hs]
  | waitRest hs h4 hlt =>
      rw [filling, hs] at hv
      cases hv
      have hpush : (f.ubxBuf.push c).ubxLen = f.ubxBuf.ubxLen := VectorU8.ubxLen_push h4 c
      have hmore : (f.ubxBuf.push c).currLen ≠ (f.ubxBuf.push c).ubxLen + 6 := by
        rw [VectorU8.push_currLen, hpush]
        omega
      rw [byteStep_waitRest hs, waitRest_eq h4 hlt, if_neg hmore]
      simp only [filling, hs, hpush]
  | rtcmWaitLength hs hlt =>
      rw [filling, hs] at hv
      cases hv
      have hmore : (f.rtcmBuf.push c).currLen ≠ 1 + 2 := by
        rw [VectorU8.push_currLen]
        omega
      rw [byteStep_rtcmWaitLength hs, Framer.rtcmWaitLength]
      simp only [if_neg hmore, filling, hs]
  | rtcmWaitRest hs h3 hlt =>
      rw [filling, hs] at hv
      cases hv
      have hpush : (f.rtcmBuf.push c).rtcmLen = f.rtcmBuf.rtcmLen := VectorU8.rtcmLen_push h3 c
      have hmore : (f.rtcmBuf.push c).currLen ≠ (f.rtcmBuf.push c).rtcmLen + 1 + 2 + 3 := by
        rw [VectorU8.push_currLen, hpush]
        omega
      rw [byteStep_rtcmWaitRest hs, Framer.rtcmWaitRest, if_neg hmore]
      simp only [filling, hs, hpush]

/-- Less than a whole frame is in the buffer. -/
theorem Underway.currLen_lt (h : f.Underway) {v : VectorU8} {len : ℕ}
    (hv : f.filling = some (v, len)) : v.currLen < len ∧ v.currLen ≤ v.maxLen := by
  have hin := h.inBounds
  cases h with
  | reset hs | waitStartSc hs | waitSc2 hs =>
      rw [filling, hs] at hv
      cases hv
  | waitLength hs hlt =>
      rw [filling, hs] at hv
      cases hv
      exact ⟨hlt, hin.1⟩
  | waitRest hs h4 hlt =>
      rw [filling, hs] at hv
      cases hv
      exact ⟨hlt, hin.1⟩
  | rtcmWaitLength hs hlt =>
      rw [filling, hs] at hv
      cases hv
      exact ⟨hlt, hin.2⟩
  | rtcmWaitRest hs h3 hlt =>
      rw [filling, hs] at hv
      cases hv
      exact ⟨hlt, hin.2⟩

end Underway

section Streams

variable {f : Framer} {cs : List UInt8}

theorem NoOverrun.tail {c : UInt8} (h : f.NoOverrun (c :: cs)) :
    (f.byteStep c).1.NoOverrun cs := by
  rintro l rest rfl g hrun
  exact h (c :: l) rest rfl g (run_cons_eq_some.2 ⟨_, rfl, hrun⟩)

/-- The next byte stays within the capacity: of a long frame because the stream ends in time,
and of another one because it has as many bytes as its buffer at most. -/
theorem Underway.inBounds_byteStep (h : f.Underway) {c : UInt8} (hok : f.NoOverrun (c :: cs)) :
    (f.byteStep c).1.InBounds := by
  cases hv : f.filling with
  | none =>
      rcases h.byteStep_of_none c hv with hin | ⟨v, hfirst, hone, hzero⟩
      · exact hin
      · -- the buffer has no room for the first byte
        have hend := hok.tail [] cs rfl _ rfl v 3 hfirst (hzero.trans_lt (by decide))
        omega
  | some p =>
      obtain ⟨v, len⟩ := p
      obtain ⟨hlt, hle⟩ := h.currLen_lt hv
      rw [h.inBounds.byteStep_iff c hv]
      by_cases hlong : v.maxLen < len
      · have hend := hok [] (c :: cs) rfl f rfl v len hv hlong
        rw [List.length_cons] at hend
        omega
      · omega

/-- On such a stream the buffers stay within their capacity. -/
theorem Underway.inBoundsAlong (h : f.Underway) (hok : f.NoOverrun cs) : f.InBoundsAlong cs := by
  induction cs generalizing f with
  | nil =>
      intro l g hl hrun
      rw [List.prefix_nil.1 hl] at hrun
      cases hrun
      exact h.inBounds
  | cons c cs ih =>
      intro l g hl hrun
      cases l with
      | nil =>
          cases hrun
          exact h.inBounds
      | cons d l =>
          obtain ⟨rfl, hprefix⟩ := List.cons_prefix_cons.1 hl
          obtain ⟨f', hstep, hrest⟩ := run_cons_eq_some.1 hrun
          cases hstep
          exact ih (h.byteStep (h.inBounds_byteStep hok)) hok.tail l g hprefix hrest

/-- The part of the stream behind its first byte. -/
theorem InBoundsAlong.tail {c : UInt8} (h : f.InBoundsAlong (c :: cs)) :
    (f.byteStep c).1.InBounds ∧ (f.byteStep c).1.InBoundsAlong cs := by
  have h' : f.InBoundsAlong ([c] ++ cs) := h
  exact h'.after (run_cons_eq_some.2 ⟨_, rfl, rfl⟩)

theorem Underway.run (h : f.Underway) (hin : f.InBoundsAlong cs) {g : Framer}
    (hrun : Transition.run step f cs = some g) : g.Underway := by
  induction cs generalizing f with
  | nil =>
      cases hrun
      exact h
  | cons c cs ih =>
      obtain ⟨f', hstep, hrest⟩ := run_cons_eq_some.1 hrun
      cases hstep
      exact ih (h.byteStep hin.tail.1) hin.tail.2 hrest

/-- A frame that is longer than its buffer goes on until it leaves the buffer, or until the
stream ends. -/
theorem Underway.length_le (h : f.Underway) (hin : f.InBoundsAlong cs) {v : VectorU8} {len : ℕ}
    (hv : f.filling = some (v, len)) (hlong : v.maxLen < len) :
    v.currLen + cs.length ≤ v.maxLen := by
  induction cs generalizing f v with
  | nil => exact (h.currLen_lt hv).2
  | cons c cs ih =>
      have hroom := (h.inBounds.byteStep_iff c hv).1 hin.tail.1
      have hrest := ih (h.byteStep hin.tail.1) hin.tail.2 (h.filling_of_long hv hlong hroom) hlong
      rw [VectorU8.push_currLen, VectorU8.push_maxLen] at hrest
      rw [List.length_cons]
      omega

/-- The buffers stay within their capacity on these streams alone. -/
theorem Underway.noOverrun (h : f.Underway) (hin : f.InBoundsAlong cs) : f.NoOverrun cs := by
  rintro l rest rfl g hrun v len hv hlong
  have hl : f.InBoundsAlong l := fun p q hp =>
    hin p q (hp.trans (List.prefix_append l rest))
  exact (h.run hl hrun).length_le (hin.after hrun).2 hv hlong

end Streams

/-- Where the buffers have room for the shortest frame, only an RTCM length field that passes
the check can begin a frame that is longer than its buffer. -/
theorem Fitting.filling_le {f : Framer} (h : f.Fitting) (hu : 6 ≤ f.ubxBuf.maxLen)
    (hr : 6 ≤ f.rtcmBuf.maxLen) {v : VectorU8} {len : ℕ} (hv : f.filling = some (v, len)) :
    len ≤ v.maxLen := by
  cases h with
  | reset hs | waitStartSc hs | waitSc2 hs =>
      rw [filling, hs] at hv
      cases hv
  | waitLength hs =>
      rw [filling, hs] at hv
      cases hv
      omega
  | waitRest hs h4 hlt hfit =>
      rw [filling, hs] at hv
      cases hv
      exact hfit
  | rtcmWaitLength hs =>
      rw [filling, hs] at hv
      cases hv
      omega
  | rtcmWaitRest hs hu' h3 hlt hfit =>
      rw [filling, hs] at hv
      cases hv
      exact hfit

theorem Bounded.noOverrun {f : Framer} {m n : ℕ} (h : f.Bounded m n) (hm : 6 ≤ m) (hn : 6 ≤ n)
    {cs : List UInt8} (hok : f.NoOverlong cs) : f.NoOverrun cs := by
  rintro l rest rfl g hrun v len hv hlong
  rw [NoOverlong, along_append] at hok
  have hg := h.run hm hn hok.1 hrun
  have hle := hg.fitting.filling_le (hm.trans_eq hg.sized.ubx_maxLen.symm)
    (hn.trans_eq hg.sized.rtcm_maxLen.symm) hv
  omega

end Framer

/-- The buffers are kept exactly on the streams without such a frame. -/
theorem framingInBounds_iff_noOverrun {m n : ℕ} (hm : m < 2 ^ 32) (hn : n < 2 ^ 32)
    {chunks : List (List UInt8)}
    (hchunks : ∀ r ∈ chunks, 1 ≤ r.length ∧ r.length ≤ RxFraming.rxBufSize) :
    FramingInBounds m n chunks ↔ (RxFraming.zeros m n).framer.NoOverrun chunks.flatten := by
  have hstart : (RxFraming.zeros m n).framer.Underway :=
    .reset rfl ⟨Nat.zero_le _, Nat.zero_le _⟩
  rw [framingInBounds_iff hm hn hchunks]
  exact ⟨hstart.noOverrun, hstart.inBoundsAlong⟩

/-! ## The frames -/

/-- The outputs announce this frame alone. -/
def FramingOutputs.Gives (o : FramingOutputs) (s : Segment) : Prop := o.frames = [(s.kind, s.bytes)]

theorem FramingOutputs.Announces.gives {o : FramingOutputs} {s : Segment} {m n : ℕ}
    (h : o.Announces s) (hin : o.InBounds) (hsize : o.Sized m n) : o.Gives s := by
  rw [Announces] at h
  rw [Gives]
  cases hkind : s.kind with
  | ubx =>
      rw [hkind] at h
      exact h.1
  | rtcm =>
      rw [hkind] at h
      obtain ⟨hframes, hlen⟩ := h
      have hfit : s.bytes.length ≤ o.rtcmFrame.vector.length := by
        rw [← hlen, hsize.rtcm_vector, ← hsize.rtcm_maxLen]
        exact hin.2
      rw [List.take_of_length_le hfit] at hframes
      exact hframes

/-- The code stays inside its buffers, and the frames that its calls give out, however many
there are, are segments of the stream one behind the other, each UBX frame a sound one. -/
structure FramesSound (m n : ℕ) (chunks : List (List UInt8)) : Prop where
  inBounds : FramingInBounds m n chunks
  segments : ∀ k, ∃ (segments : List Segment) (tail : List UInt8),
    chunks.flatten = segments.flatMap Segment.wire ++ tail ∧
      List.Forall₂ FramingOutputs.Gives
        (execCalls k (.zeros m n) (.zeros m n) (chunks.map some)).1 segments ∧
      ∀ seg ∈ segments, seg.kind = .ubx → seg.UbxSound

/-- For all sizes of the frame buffers and every way of cutting the stream into reads of 1 to
256 bytes, the frames that go out are sound segments of it exactly when no frame that is
longer than its buffer fills it. -/
theorem exec_frames_sound_iff (m n : ℕ) (hm : m < 2 ^ 32) (hn : n < 2 ^ 32)
    (chunks : List (List UInt8))
    (hchunks : ∀ r ∈ chunks, 1 ≤ r.length ∧ r.length ≤ RxFraming.rxBufSize) :
    FramesSound m n chunks ↔ (RxFraming.zeros m n).framer.NoOverrun chunks.flatten := by
  rw [← framingInBounds_iff_noOverrun hm hn hchunks]
  refine ⟨FramesSound.inBounds, fun hin => ⟨hin, fun k => ?_⟩⟩
  obtain ⟨segments, tail, hstream, hall, hsound⟩ := execCalls_segments k
    (o := FramingOutputs.zeros m n) (zeros_wellFormed m n) rfl rfl hchunks
  refine ⟨segments, tail, hstream, ?_, hsound⟩
  obtain ⟨-, houts⟩ := execCalls_inBounds k (zeros_wellFormed m n) (zeros_sized hm hn)
    ⟨Nat.zero_le _, Nat.zero_le _⟩ (FramingOutputs.sized_zeros m n) hchunks
    ((framingInBounds_iff hm hn hchunks).1 hin)
  obtain ⟨hlen, hann⟩ := List.forall₂_iff_get.1 hall
  refine List.forall₂_iff_get.2 ⟨hlen, fun i hi hi' => ?_⟩
  obtain ⟨hini, hsize⟩ := houts _ (List.get_mem _ ⟨i, hi⟩)
  exact (hann i hi hi').gives hini hsize

/-- A filler byte and a frame without payload, in two reads. -/
theorem exec_frames_sound_iff_one : FramesSound 8 8 [[7, 0xb5, 0x62, 1], [2, 0, 0, 3, 10]] :=
  (exec_frames_sound_iff 8 8 (by decide) (by decide) [[7, 0xb5, 0x62, 1], [2, 0, 0, 3, 10]]
    (by decide)).2 ((zeros_bounded (by decide) (by decide)).noOverrun (by decide) (by decide)
      (by rw [Framer.NoOverlong]; exact of_decide_eq_true (by decide)))

/-- A frame that is stored behind its buffer. -/
theorem not_framesSound_six : ¬ FramesSound 6 6 [[0xd3, 0, 2, 9, 9, 1, 2, 3]] :=
  fun h => zeros_not_inBoundsAlong h.inBounds.inBoundsAlong

/-! ## The reads -/

/-- The code stays inside its buffers for both ways of cutting the stream, and the calls that
consume it give out the same outputs one after the other, and end with the same machine
(state, partial frames and counters) and the same count of received bytes. -/
structure ChunkInvariant (m n : ℕ) (chunks₁ chunks₂ : List (List UInt8)) : Prop where
  inBounds₁ : FramingInBounds m n chunks₁
  inBounds₂ : FramingInBounds m n chunks₂
  same : ∀ k₁ k₂, chunks₁.flatten.length < k₁ → chunks₂.flatten.length < k₂ →
    let calls₁ := execCalls k₁ (.zeros m n) (.zeros m n) (chunks₁.map some)
    let calls₂ := execCalls k₂ (.zeros m n) (.zeros m n) (chunks₂.map some)
    calls₁.1 = calls₂.1 ∧ calls₁.2.framer = calls₂.2.framer ∧
      calls₁.2.rxBytesCnt = calls₂.2.rxBytesCnt ∧
      calls₁.2.pending = [] ∧ calls₂.2.pending = []

/-- For any two ways of cutting one stream into reads of 1 to 256 bytes, the code does the
same exactly when no frame that is longer than its buffer fills it. -/
theorem exec_chunk_invariant_iff (m n : ℕ) (hm : m < 2 ^ 32) (hn : n < 2 ^ 32)
    (chunks₁ chunks₂ : List (List UInt8))
    (h₁ : ∀ r ∈ chunks₁, 1 ≤ r.length ∧ r.length ≤ RxFraming.rxBufSize)
    (h₂ : ∀ r ∈ chunks₂, 1 ≤ r.length ∧ r.length ≤ RxFraming.rxBufSize)
    (hflat : chunks₁.flatten = chunks₂.flatten) :
    ChunkInvariant m n chunks₁ chunks₂ ↔
      (RxFraming.zeros m n).framer.NoOverrun chunks₁.flatten := by
  rw [← framingInBounds_iff_noOverrun hm hn h₁]
  refine ⟨ChunkInvariant.inBounds₁, fun hin => ⟨hin, ?_, fun k₁ k₂ hk₁ hk₂ => ?_⟩⟩
  · rw [framingInBounds_iff hm hn h₁, hflat] at hin
    rwa [framingInBounds_iff hm hn h₂]
  · obtain ⟨he₁, hc₁, hp₁⟩ := execCalls_emits k₁ (.zeros m n) (zeros_wellFormed m n) h₁ hk₁
    obtain ⟨he₂, hc₂, hp₂⟩ := execCalls_emits k₂ (.zeros m n) (zeros_wellFormed m n) h₂ hk₂
    rw [hflat] at he₁ hc₁
    obtain ⟨houts, hframer⟩ := Prod.ext_iff.1 (he₁.trans he₂.symm)
    exact ⟨houts, hframer, hc₁.trans hc₂.symm, hp₁, hp₂⟩

/-- A frame in one read, and byte by byte up to its payload. -/
theorem exec_chunk_invariant_iff_two :
    ChunkInvariant 8 8 [[0xb5, 0x62, 1, 2, 0, 0, 3, 10]]
      [[0xb5], [0x62], [1], [2], [0, 0, 3, 10]] :=
  (exec_chunk_invariant_iff 8 8 (by decide) (by decide) [[0xb5, 0x62, 1, 2, 0, 0, 3, 10]]
    [[0xb5], [0x62], [1], [2], [0, 0, 3, 10]] (by decide) (by decide) rfl).2
    ((zeros_bounded (by decide) (by decide)).noOverrun (by decide) (by decide)
      (by rw [Framer.NoOverlong]; exact of_decide_eq_true (by decide)))

/-- A frame that is stored behind its buffer, in one read and in two. -/
theorem not_chunkInvariant_six :
    ¬ ChunkInvariant 6 6 [[0xd3, 0, 2, 9, 9, 1, 2, 3]] [[0xd3, 0, 2, 9], [9, 1, 2, 3]] :=
  fun h => zeros_not_inBoundsAlong h.inBounds₁.inBoundsAlong

end Catpilot
