import Catpilot.Ublox.Basic

/-!
# The framing machine on a stream

`scan` runs the machine over a stream of bytes up to the first frame it completes.
An exec call is one `scan` over the bytes that are still in the receive buffer and
the reads to come, however the stream is cut into reads.
-/

namespace Catpilot

namespace Framer

/-- The machine after the bytes of a stream up to the first frame it completes, and
that frame's kind with the rest of the stream. -/
def scan : Framer → List UInt8 → Framer × Option (FrameKind × List UInt8)
  | f, [] => (f, none)
  | f, c :: cs =>
      match f.byteStep c with
      | (f', some kind) => (f', some (kind, cs))
      | (f', none) => scan f' cs

@[simp] theorem scan_nil (f : Framer) : f.scan [] = (f, none) := rfl

theorem scan_cons_of_none {f f' : Framer} {c : UInt8} (h : f.byteStep c = (f', none))
    (cs : List UInt8) : f.scan (c :: cs) = f'.scan cs := by
  rw [scan, h]

theorem scan_cons_of_some {f f' : Framer} {c : UInt8} {kind : FrameKind}
    (h : f.byteStep c = (f', some kind)) (cs : List UInt8) :
    f.scan (c :: cs) = (f', some (kind, cs)) := by
  rw [scan, h]

/-- A stream without a complete frame in front only moves the machine on. -/
theorem scan_append_of_none {f f' : Framer} {as : List UInt8} (h : f.scan as = (f', none))
    (bs : List UInt8) : f.scan (as ++ bs) = f'.scan bs := by
  induction as generalizing f with
  | nil =>
      cases h
      rfl
  | cons c cs ih =>
      rw [List.cons_append]
      rcases hstep : f.byteStep c with ⟨g, _ | kind⟩
      · rw [scan_cons_of_none hstep] at h ⊢
        exact ih h
      · rw [scan_cons_of_some hstep] at h
        cases h

/-- A byte completes a frame only by taking the machine back to its reset state. -/
theorem byteStep_some {f f' : Framer} {c : UInt8} {kind : FrameKind}
    (h : f.byteStep c = (f', some kind)) : f'.rxState = .reset := by
  cases hs : f.rxState with
  | waitRest =>
      simp only [byteStep, hs, waitRest] at h
      split at h
      · split at h
        · cases h
          rfl
        · cases h
      · cases h
  | rtcmWaitRest =>
      simp only [byteStep, hs, rtcmWaitRest] at h
      split at h
      · cases h
        rfl
      · cases h
  | _ => simp [byteStep, hs] at h

/-- So does a scan that completes one. -/
theorem scan_some {f f' : Framer} {as rest : List UInt8} {kind : FrameKind}
    (h : f.scan as = (f', some (kind, rest))) : f'.rxState = .reset := by
  induction as generalizing f with
  | nil => cases h
  | cons c cs ih =>
      rcases hstep : f.byteStep c with ⟨g, _ | kind'⟩
      · rw [scan_cons_of_none hstep] at h
        exact ih h
      · rw [scan_cons_of_some hstep] at h
        cases h
        exact byteStep_some hstep

end Framer

namespace RxFraming

/-- The bytes of the receive buffer that are not taken yet. -/
def pending (s : RxFraming) : List UInt8 := s.rxBuf.data.drop s.rxBufIndex

/-- The receive buffer holds as many bytes as it says. -/
def BufferOk (s : RxFraming) : Prop := s.rxBuf.currLen ≤ s.rxBuf.vector.length

theorem pending_eq_cons {s : RxFraming} (hb : s.BufferOk) (hi : s.rxBufIndex < s.rxBuf.currLen) :
    s.pending = s.rxBuf.byte s.rxBufIndex ::
      (s.rxBuf.data.drop (s.rxBufIndex + 1)) := by
  have hlen : s.rxBufIndex < s.rxBuf.data.length := by
    rw [VectorU8.data, List.length_take]
    exact lt_min hi (lt_of_lt_of_le hi hb)
  have hget : s.rxBuf.data[s.rxBufIndex] = s.rxBuf.byte s.rxBufIndex := by
    rw [VectorU8.byte, List.getD_eq_getElem?_getD,
      List.getElem?_eq_getElem (lt_of_lt_of_le hi hb), Option.getD_some]
    exact List.getElem_take
  rw [pending, List.drop_eq_getElem_cons hlen, hget]

theorem pending_eq_nil {s : RxFraming} (h : s.rxBuf.currLen ≤ s.rxBufIndex) :
    s.pending = [] := by
  rw [pending, List.drop_eq_nil_iff, VectorU8.data, List.length_take]
  exact le_trans (min_le_left _ _) h

/-- From `s` with the outputs `o` the function takes bytes as a scan of them does, up
to `s'` and `o'`, where `bs` are the bytes to come after the receive buffer. -/
def Scans (bs : List UInt8) (s : RxFraming) (o : FramingOutputs) (s' : RxFraming)
    (o' : FramingOutputs) : Prop :=
  (o' = o ∧ s.framer.scan (s.pending ++ bs) = s'.framer.scan (s'.pending ++ bs)) ∨
    ∃ kind, o' = o.put s'.framer (some kind) ∧
      s.framer.scan (s.pending ++ bs) = (s'.framer, some (kind, s'.pending ++ bs))

/-- One turn of the loop takes one byte of the scan. -/
theorem processByte_scans {s : RxFraming} (o : FramingOutputs) (hb : s.BufferOk)
    (hi : s.rxBufIndex < s.rxBuf.currLen) (bs : List UInt8) :
    Scans bs s o (s.processByte o).1 (s.processByte o).2 := by
  rw [Scans, pending_eq_cons hb hi, List.cons_append]
  rcases hstep : s.framer.byteStep (s.rxBuf.byte s.rxBufIndex) with ⟨f', _ | kind⟩
  · have hp : s.processByte o =
        ({ s with framer := f', rxBufIndex := s.rxBufIndex + 1 }, o) := by
      simp only [processByte, hstep, FramingOutputs.put]
    rw [hp, Framer.scan_cons_of_none hstep]
    exact Or.inl ⟨rfl, rfl⟩
  · have hp : s.processByte o =
        ({ s with framer := f', rxBufIndex := s.rxBufIndex + 1 }, o.put f' (some kind)) := by
      simp only [processByte, hstep]
    rw [hp, Framer.scan_cons_of_some hstep]
    exact Or.inr ⟨kind, rfl, rfl⟩

theorem Scans.trans {bs : List UInt8} {s s' s'' : RxFraming} {o o' o'' : FramingOutputs}
    (h : Scans bs s o s' o') (hrun : s'.framer.rxState ≠ .reset)
    (h' : Scans bs s' o' s'' o'') : Scans bs s o s'' o'' := by
  rcases h with ⟨rfl, hscan⟩ | ⟨kind, -, hscan⟩
  · rcases h' with ⟨ho, hscan'⟩ | ⟨kind, ho, hscan'⟩
    · exact Or.inl ⟨ho, hscan.trans hscan'⟩
    · exact Or.inr ⟨kind, ho, hscan.trans hscan'⟩
  · -- a completed frame resets the machine
    exact absurd (Framer.scan_some hscan) hrun

/-- `ubx_process` on a buffer with bytes left takes bytes as a scan does. -/
theorem ubxProcess_scans (s : RxFraming) (o : FramingOutputs) (hb : s.BufferOk)
    (hi : s.rxBufIndex < s.rxBuf.currLen) (bs : List UInt8) :
    Scans bs s o (s.ubxProcess o).1 (s.ubxProcess o).2 := by
  induction s, o using ubxProcess.induct with
  | case1 s o r h ih =>
      rw [ubxProcess, dif_pos h]
      exact (processByte_scans o hb hi bs).trans h.2 (ih hb h.1)
  | case2 s o r h =>
      rw [ubxProcess, dif_neg h]
      exact processByte_scans o hb hi bs

/-- The receive buffer has its size and holds as many bytes as it says. -/
structure WellFormed (s : RxFraming) : Prop where
  length_vector : s.rxBuf.vector.length = rxBufSize
  currLen_le : s.rxBuf.currLen ≤ rxBufSize

theorem WellFormed.bufferOk {s : RxFraming} (h : s.WellFormed) : s.BufferOk := by
  rw [BufferOk, h.length_vector]
  exact h.currLen_le

theorem WellFormed.ubxProcess {s : RxFraming} (h : s.WellFormed) (o : FramingOutputs) :
    (s.ubxProcess o).1.WellFormed := by
  constructor
  · rw [(ubxProcess_rxBuf s o).1, h.length_vector]
  · rw [(ubxProcess_rxBuf s o).1]
    exact h.currLen_le

theorem WellFormed.received {s : RxFraming} (h : s.WellFormed) {r : List UInt8}
    (hr : r.length ≤ rxBufSize) : (s.received r).WellFormed := by
  constructor
  · rw [← h.length_vector] at hr ⊢
    exact Memory.length_memcpy (by rwa [Nat.zero_add])
  · exact hr

/-- After a read all of its bytes are pending. -/
theorem pending_received (s : RxFraming) (r : List UInt8) : (s.received r).pending = r := by
  simp [pending, RxFraming.received, VectorU8.data, Memory.memcpy]

end RxFraming

theorem updated_put (o : FramingOutputs) (f : Framer) (kind : FrameKind) :
    (o.put f (some kind)).updated = true := by
  cases kind with
  | ubx => rfl
  | rtcm => exact Bool.or_true _

/-- What an exec call does with the bytes pending in `s` and the reads `chunks`: it
scans them for the first frame, and gives that frame out or stays blocked. -/
def ExecScans (s : RxFraming) (o : FramingOutputs) (chunks : List (List UInt8)) :
    ExecResult → Prop := fun res =>
  match s.framer.scan (s.pending ++ chunks.flatten) with
  | (f, none) => ∃ s', res = .blocked s' ∧ s'.framer = f
  | (f, some (kind, rest)) => ∃ s' chunks',
      res = .returned s' (o.put f (some kind)) (chunks'.map some) ∧ s'.framer = f ∧
        s'.WellFormed ∧ s'.pending ++ chunks'.flatten = rest ∧ chunks' ⊆ chunks

/-- An exec call is blocked behind all of the stream, or returns behind the first frame. -/
theorem ExecScans.cases {s : RxFraming} {o : FramingOutputs} {chunks : List (List UInt8)}
    {res : ExecResult} (h : ExecScans s o chunks res) :
    (∃ f s', s.framer.scan (s.pending ++ chunks.flatten) = (f, none) ∧ res = .blocked s' ∧
        s'.framer = f) ∨
      ∃ f kind rest s' chunks',
        s.framer.scan (s.pending ++ chunks.flatten) = (f, some (kind, rest)) ∧
          res = .returned s' (o.put f (some kind)) (chunks'.map some) ∧ s'.framer = f ∧
            s'.WellFormed ∧ s'.pending ++ chunks'.flatten = rest ∧ chunks' ⊆ chunks := by
  rw [ExecScans] at h
  rcases hscan : s.framer.scan (s.pending ++ chunks.flatten) with ⟨f, _ | ⟨kind, rest⟩⟩
  · rw [hscan] at h
    obtain ⟨s', hres, hs'⟩ := h
    exact Or.inl ⟨f, s', rfl, hres, hs'⟩
  · rw [hscan] at h
    obtain ⟨s', chunks', h⟩ := h
    exact Or.inr ⟨f, kind, rest, s', chunks', rfl, h⟩

/-- One call of `ubx_process` inside the exec function: a completed frame is given
out, and otherwise the loop goes on with the rest of the stream. -/
theorem execScans_process {s : RxFraming} {o : FramingOutputs} {chunks : List (List UInt8)}
    (hs : s.WellFormed) (hi : s.rxBufIndex < s.rxBuf.currLen) {res : ExecResult}
    (hres : (s.ubxProcess o).2.updated = true →
      res = .returned (s.ubxProcess o).1 (s.ubxProcess o).2 (chunks.map some))
    (hrec : (s.ubxProcess o).2 = o → ExecScans (s.ubxProcess o).1 o chunks res) :
    ExecScans s o chunks res := by
  rcases RxFraming.ubxProcess_scans s o hs.bufferOk hi chunks.flatten with
    ⟨ho', hscan⟩ | ⟨kind, ho', hscan⟩
  · rw [ExecScans, hscan]
    exact hrec ho'
  · rw [hres (by rw [ho', updated_put]), ExecScans, hscan, ho']
    exact ⟨_, chunks, rfl, rfl, hs.ubxProcess o, rfl, List.Subset.refl _⟩

/-- A read puts the next part of the stream in front of the rest. -/
theorem ExecScans.of_received {s : RxFraming} {o : FramingOutputs} {r : List UInt8}
    {chunks : List (List UInt8)} {res : ExecResult} (hempty : s.rxBuf.currLen ≤ s.rxBufIndex)
    (h : ExecScans (s.received r) o chunks res) : ExecScans s o (r :: chunks) res := by
  rw [ExecScans, RxFraming.pending_received] at h
  rw [ExecScans, RxFraming.pending_eq_nil hempty, List.nil_append, List.flatten_cons]
  rcases hscan : s.framer.scan (r ++ chunks.flatten) with ⟨f, _ | ⟨kind, rest⟩⟩
  · rw [show (s.received r).framer = s.framer from rfl, hscan] at h
    exact h
  · rw [show (s.received r).framer = s.framer from rfl, hscan] at h
    obtain ⟨s', chunks', hres, hf, hs', hrest, hsub⟩ := h
    exact ⟨s', chunks', hres, hf, hs', hrest, List.subset_cons_of_subset r hsub⟩

/-- The exec function is a scan over the stream, for reads of 1 to 256 bytes. -/
theorem exec_scans (s : RxFraming) (o : FramingOutputs) (chunks : List (List UInt8))
    (hs : s.WellFormed) (ho : o.updated = false)
    (hchunks : ∀ r ∈ chunks, 1 ≤ r.length ∧ r.length ≤ RxFraming.rxBufSize) :
    ExecScans s o chunks (ubloxProtocolRxFramingExec s o (chunks.map some)) := by
  generalize hreads : chunks.map some = reads
  induction s, o, reads using ubloxProtocolRxFramingExec.induct generalizing chunks with
  | case1 s o hempty =>
      rw [List.map_eq_nil_iff.1 hreads, ubloxProtocolRxFramingExec, if_pos hempty, ExecScans,
        RxFraming.pending_eq_nil hempty]
      exact ⟨s, rfl, rfl⟩
  | case2 s o hempty reads =>
      cases chunks with
      | nil => cases hreads
      | cons r chunks => cases hreads
  | case3 s o hempty r reads p hup =>
      obtain ⟨_, chunks, rfl, hr, rfl⟩ := List.map_eq_cons_iff.1 hreads
      cases hr
      obtain ⟨hpos, hle⟩ := hchunks r List.mem_cons_self
      rw [ubloxProtocolRxFramingExec, if_pos hempty, if_pos hup]
      refine ExecScans.of_received hempty ?_
      refine execScans_process (hs.received hle) hpos (fun _ => rfl) ?_
      intro ho'
      rw [ho', ho] at hup
      cases hup
  | case4 s o hempty r reads p hup ih =>
      obtain ⟨_, chunks, rfl, hr, rfl⟩ := List.map_eq_cons_iff.1 hreads
      cases hr
      obtain ⟨hpos, hle⟩ := hchunks r List.mem_cons_self
      rw [ubloxProtocolRxFramingExec, if_pos hempty, if_neg hup]
      refine ExecScans.of_received hempty ?_
      refine execScans_process (hs.received hle) hpos (fun h => absurd h hup) ?_
      intro ho'
      have hrec := ih chunks ((hs.received hle).ubxProcess o) (by rw [ho', ho])
        (fun r hr => hchunks r (List.mem_cons_of_mem _ hr)) rfl
      rw [ho'] at hrec ⊢
      exact hrec
  | case5 s o reads hpend p hup =>
      rw [ubloxProtocolRxFramingExec.eq_def, if_neg hpend, if_pos hup]
      refine execScans_process hs (Nat.lt_of_not_le hpend) (fun _ => by rw [hreads]) ?_
      intro ho'
      rw [ho', ho] at hup
      cases hup
  | case6 s o reads hpend p hup ih =>
      rw [ubloxProtocolRxFramingExec.eq_def, if_neg hpend, if_neg hup]
      refine execScans_process hs (Nat.lt_of_not_le hpend) (fun h => absurd h hup) ?_
      intro ho'
      have hrec := ih chunks (hs.ubxProcess o) (by rw [ho', ho]) hchunks hreads
      rw [ho'] at hrec ⊢
      exact hrec

end Catpilot
