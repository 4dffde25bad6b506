import Catpilot.Ublox.Bounds
import Mathlib.Algebra.Group.Nat.Even

/-!
# Resynchronisation

A frame behind garbage. The machine takes two start bytes, and a first one that is not
followed by the second takes the byte behind it along. So garbage without a frame start
of its own leaves the machine idle exactly when it ends with an even number of first
start bytes.
-/

namespace Catpilot

/-- The number of first start bytes at the end of a list. -/
def syncRun (g : List UInt8) : ℕ := (g.reverse.takeWhile fun c => c = 0xb5).length

@[simp] theorem syncRun_nil : syncRun [] = 0 := rfl

theorem syncRun_append_sync (g : List UInt8) : syncRun (g ++ [0xb5]) = syncRun g + 1 := by
  simp [syncRun]

theorem syncRun_append_of_ne {c : UInt8} (h : c ≠ 0xb5) (g : List UInt8) :
    syncRun (g ++ [c]) = 0 := by
  simp [syncRun, h]

/-- A list with a nonempty run ends with a first start byte. -/
theorem suffix_of_syncRun_pos {g : List UInt8} (h : 0 < syncRun g) : [0xb5] <:+ g := by
  induction g using List.reverseRecOn with
  | nil => exact absurd h (Nat.lt_irrefl 0)
  | append_singleton g c =>
      by_cases hc : c = 0xb5
      · rw [hc]
        exact List.suffix_append g _
      · rw [syncRun_append_of_ne hc] at h
        exact absurd h (Nat.lt_irrefl 0)

/-- Garbage: no start of an RTCM frame, and no start of a UBX frame, also none with the
first byte of the frame behind it. -/
structure IsGarbage (g : List UInt8) : Prop where
  noUbxStart : ¬ [0xb5, 0x62] <:+: g ++ [0xb5]
  noRtcmStart : (0xd3 : UInt8) ∉ g

theorem IsGarbage.of_append {g : List UInt8} {c : UInt8} (h : IsGarbage (g ++ [c])) :
    IsGarbage g where
  noUbxStart hpair := by
    -- the pair would be within `g` itself
    rcases List.infix_concat_iff.1 hpair with hend | hin
    · obtain ⟨l, hl⟩ := hend
      have hlast := congrArg List.getLast? hl
      simp at hlast
    · refine h.noUbxStart (hin.trans ?_)
      exact ((List.prefix_append g [c]).trans (List.prefix_append _ _)).isInfix
  noRtcmStart hmem := h.noRtcmStart (List.mem_append_left _ hmem)

/-- The byte behind a first start byte is not the second one. -/
theorem IsGarbage.ne_of_suffix {g : List UInt8} {c : UInt8} (h : IsGarbage (g ++ [c]))
    (hg : [0xb5] <:+ g) : c ≠ 0x62 := by
  rintro rfl
  obtain ⟨l, rfl⟩ := hg
  exact h.noUbxStart ⟨l, [0xb5], by simp⟩

namespace Framer

variable {f : Framer} {m n : ℕ}

/-- Garbage takes an idle machine to its start again, or to the wait for the second
start byte. -/
theorem scan_garbage (hf : f.Idle) (hsized : f.Sized m n) {g : List UInt8} (hg : IsGarbage g) :
    ∃ f', f.scan g = (f', none) ∧ f'.Sized m n ∧
      if Even (syncRun g) then f'.Idle else f'.rxState = .waitSc2 := by
  induction g using List.reverseRecOn with
  | nil => exact ⟨f, rfl, hsized, hf⟩
  | append_singleton g c ih =>
      obtain ⟨f', hscan, hsized', hstate⟩ := ih hg.of_append
      have hd3 : c ≠ 0xd3 := by
        rintro rfl
        exact hg.noRtcmStart (List.mem_append_right _ List.mem_cons_self)
      have hnext := hsized'.byteStep c
      by_cases heven : Even (syncRun g)
      · rw [if_pos heven] at hstate
        have hstep := Idle.byteStep hstate c
        rw [hstep] at hnext
        refine ⟨f'.cleared.waitStartSc c, ?_, hnext, ?_⟩
        · rw [scan_append_of_none hscan, scan_cons_of_none hstep, scan_nil]
        · by_cases hc : c = 0xb5
          · rw [hc, syncRun_append_sync, if_neg (Nat.even_add_one.not.2 (not_not.2 heven))]
            rfl
          · rw [syncRun_append_of_ne hc, if_pos Even.zero, waitStartSc, if_neg hc, if_neg hd3]
            exact Or.inr ⟨rfl, rfl⟩
      · rw [if_neg heven] at hstate
        have hpos : 0 < syncRun g := by
          refine Nat.pos_of_ne_zero fun hzero => heven ?_
          rw [hzero]
          exact Even.zero
        have h62 := hg.ne_of_suffix (suffix_of_syncRun_pos hpos)
        have hstep := byteStep_waitSc2 hstate c
        rw [if_neg h62] at hstep
        rw [hstep] at hnext
        refine ⟨{ f' with rxState := .reset }, ?_, hnext, ?_⟩
        · rw [scan_append_of_none hscan, scan_cons_of_none hstep, scan_nil]
        · have heven' : Even (syncRun (g ++ [c])) := by
            by_cases hc : c = 0xb5
            · rw [hc, syncRun_append_sync]
              exact Nat.even_add_one.2 heven
            · rw [syncRun_append_of_ne hc]
              exact Even.zero
          rw [if_pos heven']
          exact Or.inl rfl

/-- From the wait for the second start byte the machine does not find the frame: what it
completes next is not that frame, or does not end where that frame ends. -/
theorem scan_missed (hf : f.rxState = .waitSc2) {u : UbxFrame} {rest : List UInt8}
    {f' : Framer} {kind : FrameKind} (hscan : f.scan (u.wire ++ rest) = (f', some (kind, rest)))
    (o : FramingOutputs) : (o.clearFlags.put f' (some kind)).frames ≠ [(.ubx, u.bytes)] := by
  intro hframes
  have hstep := byteStep_waitSc2 hf 0xb5
  rw [if_neg (by decide)] at hstep
  rw [UbxFrame.wire, List.cons_append, scan_cons_of_none hstep] at hscan
  obtain ⟨s, hkind, hwire, hs⟩ := scan_segment (l := []) (.reset rfl) hscan
  rw [List.nil_append] at hwire
  have hwire' : s.wire = 0x62 :: u.bytes := List.append_cancel_right hwire
  cases kind with
  | rtcm =>
      have hfst := congrArg (fun l => l.map Prod.fst) hframes
      cases hfst
  | ubx =>
      rw [(hs.ubxFrame hkind o).1] at hframes
      have hbytes : s.bytes = u.bytes := by
        injection hframes with hhead
        exact (Prod.mk.inj hhead).2
      have hlen := congrArg List.length hwire'
      rw [Segment.wire, hbytes, List.length_append, List.length_cons] at hlen
      -- the two start bytes would have to be in the one byte in front of the frame
      have hgap := (hs.sound hkind).start.length_le
      rw [List.length_cons, List.length_singleton] at hgap
      omega

end Framer

/-- The state between two frames: no part of a frame in the buffers of the given
sizes. -/
structure RxFraming.Ready (m n : ℕ) (s : RxFraming) : Prop where
  wellFormed : s.WellFormed
  idle : s.framer.Idle
  sized : s.framer.Sized m n

/-- The function starts in such a state. -/
theorem RxFraming.ready_zeros {m n : ℕ} (hm : m < 2 ^ 32) (hn : n < 2 ^ 32) :
    (RxFraming.zeros m n).Ready m n where
  wellFormed := ⟨List.length_replicate, Nat.zero_le _⟩
  idle := Or.inl rfl
  sized := ⟨List.length_replicate, rfl, hm, List.length_replicate, rfl, hn⟩

/-- The next call gives out the frame `u`, with `rest` of the stream left. -/
def EmitsNext (s : RxFraming) (o : FramingOutputs) (chunks : List (List UInt8)) (u : UbxFrame)
    (rest : List UInt8) : Prop :=
  ∃ (s' : RxFraming) (o' : FramingOutputs) (chunks' : List (List UInt8)),
    ubloxProtocolRxFramingExec s o.clearFlags (chunks.map some) =
        .returned s' o' (chunks'.map some) ∧
      o'.frames = [(.ubx, u.bytes)] ∧ s'.pending ++ chunks'.flatten = rest

/-- A frame that fits its buffer and directly follows garbage is given out if and only if
the garbage ends with an even number of first start bytes. -/
theorem exec_resyncs_iff (m n : ℕ) (s : RxFraming) (hs : s.Ready m n) (o : FramingOutputs)
    (g : List UInt8) (hg : IsGarbage g) (u : UbxFrame) (hfit : u.payload.length + 6 ≤ m)
    (rest : List UInt8) (chunks : List (List UInt8))
    (hchunks : ∀ r ∈ chunks, 1 ≤ r.length ∧ r.length ≤ RxFraming.rxBufSize)
    (hstream : s.pending ++ chunks.flatten = g ++ u.wire ++ rest) :
    EmitsNext s o chunks u rest ↔ Even (syncRun g) := by
  have hexec := exec_scans s o.clearFlags chunks hs.wellFormed rfl hchunks
  obtain ⟨f, hscan, hsized, hstate⟩ := Framer.scan_garbage hs.idle hs.sized hg
  rw [ExecScans, hstream, List.append_assoc, Framer.scan_append_of_none hscan] at hexec
  constructor
  · rintro ⟨s', o', chunks', hres, hframes, hrest⟩
    by_contra hodd
    rw [if_neg hodd] at hstate
    rcases hnext : f.scan (u.wire ++ rest) with ⟨f', _ | ⟨kind, rest'⟩⟩
    · rw [hnext] at hexec
      obtain ⟨s'', hres', -⟩ := hexec
      rw [hres] at hres'
      cases hres'
    · rw [hnext] at hexec
      obtain ⟨s'', chunks'', hres', -, -, hrest', -⟩ := hexec
      rw [hres] at hres'
      injection hres' with h1 h2 h3
      have hchunks' : chunks' = chunks'' := List.map_injective_iff.2 (Option.some_injective _) h3
      rw [← h1, ← hchunks', hrest] at hrest'
      rw [← hrest'] at hnext
      rw [h2] at hframes
      exact Framer.scan_missed hstate hnext o hframes
  · intro heven
    rw [if_pos heven] at hstate
    rw [Framer.scan_ubxFrame hstate hsized hfit] at hexec
    obtain ⟨s', chunks', hres, -, -, hrest, -⟩ := hexec
    have hfits : (StreamFrame.ubx u).Fits m n := hfit
    exact ⟨s', _, chunks', hres, Framer.frames_put_afterFrame hsized hfits o, hrest⟩

/-- A frame without payload, one byte and two first start bytes behind each other. -/
theorem exec_resyncs_iff_even :
    let u : UbxFrame := ⟨1, 2, [], by decide⟩
    EmitsNext (.zeros 8 8) (.zeros 8 8) [[7, 0xb5, 0xb5], u.wire] u [] ↔
      Even (syncRun [7, 0xb5, 0xb5]) := by
  intro u
  refine exec_resyncs_iff 8 8 _ (RxFraming.ready_zeros (by decide) (by decide)) _
    [7, 0xb5, 0xb5] ⟨by decide, by decide⟩ u (by decide) [] _ ?_ (by simp [RxFraming.pending,
      RxFraming.zeros, VectorU8.zeros, VectorU8.data])
  intro r hr
  rcases List.mem_pair.1 hr with rfl | rfl
  · exact ⟨by decide, by decide⟩
  · exact ⟨by decide, by decide⟩

/-- One stray first start byte in front of a frame makes the function lose it: it stays
blocked. -/
theorem exec_loses_frame :
    let u : UbxFrame := ⟨1, 2, [], by decide⟩
    IsGarbage [0xb5] ∧ u.payload.length + 6 ≤ 8 ∧
      ¬ EmitsNext (.zeros 8 8) (.zeros 8 8) [0xb5 :: u.wire] u [] := by
  intro u
  refine ⟨⟨by decide, by decide⟩, by decide, ?_⟩
  rintro ⟨s', o', chunks', hres, -⟩
  have hexec := exec_scans (.zeros 8 8) (FramingOutputs.zeros 8 8).clearFlags [0xb5 :: u.wire]
    (RxFraming.ready_zeros (m := 8) (n := 8) (by decide) (by decide)).wellFormed rfl
    (fun r hr => by rw [List.mem_singleton.1 hr]; exact ⟨by decide, by decide⟩)
  have hscan : ((RxFraming.zeros 8 8).framer.scan
      ((RxFraming.zeros 8 8).pending ++ [0xb5 :: u.wire].flatten)).2 = none := by decide
  rcases hexec.cases with ⟨f, s'', -, hblocked, -⟩ | ⟨f, kind, rest, s'', chunks'', hs, -⟩
  · rw [hres] at hblocked
    cases hblocked
  · rw [hs] at hscan
    cases hscan

end Catpilot
