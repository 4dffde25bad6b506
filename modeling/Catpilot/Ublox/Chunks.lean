import Catpilot.Ublox.Stream

/-!
# Reads of any size

How a stream is cut into reads does not matter: the frames, the counters and the
partial frame at the end are those of the machine fed byte by byte, `emits`.
-/

namespace Catpilot

namespace Framer

/-- The outputs that a stream makes the function give out, one list element for each
frame, and the machine at the end. The flags are cleared before each frame. -/
def emits : Framer → FramingOutputs → List UInt8 → List FramingOutputs × Framer
  | f, _, [] => ([], f)
  | f, o, c :: cs =>
      match f.byteStep c with
      | (f', none) => emits f' o cs
      | (f', some kind) =>
          let o := o.clearFlags.put f' (some kind)
          let rest := emits f' o cs
          (o :: rest.1, rest.2)

/-- A stream without a complete frame gives out nothing. -/
theorem emits_of_scan_none {f f' : Framer} {cs : List UInt8} (h : f.scan cs = (f', none))
    (o : FramingOutputs) : f.emits o cs = ([], f') := by
  induction cs generalizing f with
  | nil =>
      cases h
      rfl
  | cons c cs ih =>
      rcases hstep : f.byteStep c with ⟨g, _ | kind⟩
      · rw [scan_cons_of_none hstep] at h
        rw [emits, hstep]
        exact ih h
      · rw [scan_cons_of_some hstep] at h
        cases h

/-- The first frame of a stream goes out first. -/
theorem emits_of_scan_some {f f' : Framer} {cs rest : List UInt8} {kind : FrameKind}
    (h : f.scan cs = (f', some (kind, rest))) (o : FramingOutputs) :
    f.emits o cs =
      (o.clearFlags.put f' (some kind) ::
          (f'.emits (o.clearFlags.put f' (some kind)) rest).1,
        (f'.emits (o.clearFlags.put f' (some kind)) rest).2) := by
  induction cs generalizing f with
  | nil => cases h
  | cons c cs ih =>
      rcases hstep : f.byteStep c with ⟨g, _ | kind'⟩
      · rw [scan_cons_of_none hstep] at h
        rw [emits, hstep]
        exact ih h
      · rw [scan_cons_of_some hstep] at h
        cases h
        rw [emits, hstep]

/-- A frame takes at least one byte. -/
theorem length_lt_of_scan_some {f f' : Framer} {cs rest : List UInt8} {kind : FrameKind}
    (h : f.scan cs = (f', some (kind, rest))) : rest.length < cs.length := by
  induction cs generalizing f with
  | nil => cases h
  | cons c cs ih =>
      rw [List.length_cons]
      rcases hstep : f.byteStep c with ⟨g, _ | kind'⟩
      · rw [scan_cons_of_none hstep] at h
        exact Nat.lt_succ_of_lt (ih h)
      · rw [scan_cons_of_some hstep] at h
        cases h
        exact Nat.lt_succ_self _

end Framer

/-- The number of bytes in the reads to come, as the counter counts them. -/
def bytesToRead (reads : List (Option (List UInt8))) : UInt32 :=
  UInt32.ofNat (reads.map fun r => (r.getD []).length).sum

theorem bytesToRead_cons (r : Option (List UInt8)) (reads : List (Option (List UInt8))) :
    bytesToRead (r :: reads) = UInt32.ofNat (r.getD []).length + bytesToRead reads := by
  rw [bytesToRead, List.map_cons, List.sum_cons, UInt32.ofNat_add, ← bytesToRead]

theorem bytesToRead_map_some (chunks : List (List UInt8)) :
    bytesToRead (chunks.map some) = UInt32.ofNat chunks.flatten.length := by
  rw [bytesToRead, List.map_map, List.length_flatten]
  rfl

theorem RxFraming.ubxProcess_rxBytesCnt (s : RxFraming) (o : FramingOutputs) :
    (s.ubxProcess o).1.rxBytesCnt = s.rxBytesCnt := by
  induction s, o using RxFraming.ubxProcess.induct with
  | case1 s o r h ih =>
      rw [ubxProcess, dif_pos h]
      exact ih
  | case2 s o r h => rw [ubxProcess, dif_neg h]; rfl

/-- The counter of received bytes and the bytes to come make the same sum after a call,
and a call that stays blocked has taken all bytes. -/
def ExecCounts (total : UInt32) : ExecResult → Prop
  | .returned s _ reads => s.rxBytesCnt + bytesToRead reads = total
  | .blocked s => s.rxBytesCnt = total ∧ s.pending = []

theorem exec_counts (s : RxFraming) (o : FramingOutputs) (reads : List (Option (List UInt8))) :
    ExecCounts (s.rxBytesCnt + bytesToRead reads) (ubloxProtocolRxFramingExec s o reads) := by
  induction s, o, reads using ubloxProtocolRxFramingExec.induct with
  | case1 s o hempty =>
      rw [ubloxProtocolRxFramingExec, if_pos hempty]
      exact ⟨(UInt32.add_zero _).symm, RxFraming.pending_eq_nil hempty⟩
  | case2 s o hempty reads =>
      rw [ubloxProtocolRxFramingExec, if_pos hempty, bytesToRead_cons]
      exact congrArg (s.rxBytesCnt + ·) (UInt32.zero_add _).symm
  | case3 s o hempty r reads p hup =>
      rw [ubloxProtocolRxFramingExec, if_pos hempty, if_pos hup, bytesToRead_cons,
        ← UInt32.add_assoc]
      exact congrArg (· + bytesToRead reads) (RxFraming.ubxProcess_rxBytesCnt _ o)
  | case4 s o hempty r reads p hup ih =>
      rw [ubloxProtocolRxFramingExec, if_pos hempty, if_neg hup, bytesToRead_cons,
        ← UInt32.add_assoc]
      rw [RxFraming.ubxProcess_rxBytesCnt] at ih
      exact ih
  | case5 s o reads hpend p hup =>
      rw [ubloxProtocolRxFramingExec.eq_def, if_neg hpend, if_pos hup]
      exact congrArg (· + bytesToRead reads) (RxFraming.ubxProcess_rxBytesCnt s o)
  | case6 s o reads hpend p hup ih =>
      rw [ubloxProtocolRxFramingExec.eq_def, if_neg hpend, if_neg hup]
      rw [RxFraming.ubxProcess_rxBytesCnt] at ih
      exact ih

/-- With more calls than bytes the stream is consumed, and the calls have given out what
the machine gives out byte by byte. -/
theorem execCalls_emits (k : ℕ) {s : RxFraming} (o : FramingOutputs)
    {chunks : List (List UInt8)} (hs : s.WellFormed)
    (hchunks : ∀ r ∈ chunks, 1 ≤ r.length ∧ r.length ≤ RxFraming.rxBufSize)
    (hk : (s.pending ++ chunks.flatten).length < k) :
    let calls := execCalls k s o (chunks.map some)
    (calls.1, calls.2.framer) = s.framer.emits o (s.pending ++ chunks.flatten) ∧
      calls.2.rxBytesCnt = s.rxBytesCnt + UInt32.ofNat chunks.flatten.length ∧
      calls.2.pending = [] := by
  induction k generalizing s o chunks with
  | zero => exact absurd hk (Nat.not_lt_zero _)
  | succ k ih =>
      have hcounts := exec_counts s o.clearFlags (chunks.map some)
      rw [bytesToRead_map_some] at hcounts
      rw [execCalls]
      rcases (exec_scans s o.clearFlags chunks hs rfl hchunks).cases with
        ⟨f, s', hscan, hres, hs'⟩ | ⟨f, kind, rest, s', chunks', hscan, hres, hs', hwf, hrest, hsub⟩
      · rw [hres] at hcounts ⊢
        refine ⟨?_, hcounts⟩
        rw [Framer.emits_of_scan_none hscan, hs']
      · rw [hres] at hcounts ⊢
        have hlt := Framer.length_lt_of_scan_some hscan
        obtain ⟨hemits, hcnt, hpending⟩ :=
          ih (o.clearFlags.put f (some kind)) hwf (fun r hr => hchunks r (hsub hr))
            (by rw [hrest]; omega)
        rw [hrest, hs'] at hemits
        refine ⟨?_, ?_, hpending⟩
        · rw [Framer.emits_of_scan_some hscan, ← hemits]
        · rw [ExecCounts, bytesToRead_map_some] at hcounts
          exact hcnt.trans hcounts

end Catpilot
