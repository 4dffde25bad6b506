import Catpilot.Serial.ReadWrite
import Catpilot.Stdio.Basic

/-!
# The serial bridge

`serial_bridge_thread` copies from one descriptor to another. The result of `read` is an
`int` that is passed on as the `size_t` of `write`, and the drivers of the serial ports hand
it to `ring_buf_write` as a `uint16_t`. Between two passes of the thread everything else may
happen to the descriptors and the drivers.
-/

namespace Catpilot

open Transition Word

/-- `serial_bridge_t`, with the memory from `buf` on. The lists record what the bridge has
read, what it has passed to `write`, what of that a serial port hands to `ring_buf_write`,
and the results of its reads. -/
structure SerialBridge where
  srcFd : UInt8
  dstFd : UInt8
  bufSize : ℤ
  bufSize_lt : bufSize < 2 ^ 31
  mem : ℕ → UInt8
  rlen : ℤ
  wlen : ℤ
  bytesRead : List UInt8
  passed : List UInt8
  toRing : List UInt8
  results : List ℤ

/-- The bridge when its thread starts. -/
def SerialBridge.start (srcFd dstFd : UInt8) (bufSize : ℤ) (h : bufSize < 2 ^ 31)
    (mem : ℕ → UInt8) : SerialBridge where
  srcFd := srcFd
  dstFd := dstFd
  bufSize := bufSize
  bufSize_lt := h
  mem := mem
  rlen := 0
  wlen := 0
  bytesRead := []
  passed := []
  toRing := []
  results := []

/-- The memory after bytes are put at its start. -/
def storeBytes (mem : ℕ → UInt8) (bytes : List UInt8) : ℕ → UInt8 :=
  fun i => bytes.getD i (mem i)

/-- A pass of the thread, or anything else that happens to descriptors and drivers. -/
inductive BridgeEvent (δ P : Type*) where
  | pass
  | others (w : Stdio δ P)

section Pass

variable {δ P : Type*}

/-- The `read` of a pass. -/
def bridgeRead (w : Stdio δ P) (b : SerialBridge) : Option (Stdio δ P × ℤ × List UInt8) :=
  w.readFd b.srcFd.toNat (UInt32.ofInt b.bufSize).toNat

/-- A pass of `serial_bridge_thread`; `none` where a call does not return. -/
def bridgePass (w : Stdio δ P) (b : SerialBridge) : Option (Stdio δ P × SerialBridge) :=
  (bridgeRead w b).bind fun (w, rlen, bytes) =>
    let mem := storeBytes b.mem bytes
    let buf := Stdio.bytesAt mem (UInt32.ofInt rlen)
    (w.writeFd b.dstFd.toNat buf).map fun (w, wlen, _) =>
      (w, { b with
        mem := mem
        rlen := rlen
        wlen := wlen
        bytesRead := b.bytesRead ++ if rlen = -1 then [] else bytes
        passed := b.passed ++ buf
        toRing := b.toRing ++ ringBufBytes buf
        results := b.results ++ [rlen] })

/-- A step of the bridge. -/
def bridgeStep (s : Stdio δ P × SerialBridge) : BridgeEvent δ P → Option (Stdio δ P × SerialBridge)
  | .pass => bridgePass s.1 s.2
  | .others w => some (w, s.2)

/-- A read returns a number of bytes that it has put into the buffer, at least one and at
most the size of the buffer, or `-1`. -/
def ReadFits (s : Stdio δ P × SerialBridge) (e : BridgeEvent δ P) : Prop :=
  match e, bridgeRead s.1 s.2 with
  | .pass, some (_, rlen, bytes) =>
      rlen = -1 ∨ rlen = bytes.length ∧ 0 < rlen ∧ rlen ≤ s.2.bufSize
  | _, _ => True

end Pass

/-! ## What is passed on -/

section Passed

variable {δ P : Type*} {s s' : Stdio δ P × SerialBridge} {e : BridgeEvent δ P}

theorem length_bytesAt (mem : ℕ → UInt8) (count : UInt32) :
    (Stdio.bytesAt mem count).length = count.toNat := by
  simp [Stdio.bytesAt]

/-- The memory begins with the bytes put there. -/
theorem bytesAt_storeBytes (mem : ℕ → UInt8) (bytes : List UInt8) {count : UInt32}
    (h : count.toNat = bytes.length) : Stdio.bytesAt (storeBytes mem bytes) count = bytes := by
  refine List.ext_getElem (by rw [length_bytesAt, h]) fun i hi hi' => ?_
  simp [Stdio.bytesAt, storeBytes, hi']

theorem toNat_sizeOf {n : ℕ} (hlt : n < 2 ^ 32) : (UInt32.ofInt n).toNat = n := by
  rw [UInt32.ofInt, UInt32.toNat_ofNat']
  omega

/-- What is passed on, by the results of the reads: the bytes read, as long as no read fails;
a failed read adds all of the address space but one byte, and to the ring buffer of a serial
port 65535 bytes. -/
structure BridgeInv (b : SerialBridge) : Prop where
  passed : -1 ∉ b.results → b.passed = b.bytesRead
  length_passed : b.passed.length = b.bytesRead.length + 4294967295 * b.results.count (-1)
  toRing : -1 ∉ b.results → (∀ n ∈ b.results, n < 65536) → b.toRing = b.bytesRead
  length_toRing : (∀ n ∈ b.results, n < 65536) →
    b.toRing.length = b.bytesRead.length + 65535 * b.results.count (-1)

/-- A pass in two parts: what it has read, and what it has passed on. -/
theorem bridgePass_eq_some {w w' : Stdio δ P} {b b' : SerialBridge}
    (h : bridgePass w b = some (w', b')) :
    ∃ w₁ rlen bytes, bridgeRead w b = some (w₁, rlen, bytes) ∧
      b'.bytesRead = b.bytesRead ++ (if rlen = -1 then [] else bytes) ∧
      b'.passed = b.passed ++ Stdio.bytesAt (storeBytes b.mem bytes) (UInt32.ofInt rlen) ∧
      b'.toRing =
        b.toRing ++ ringBufBytes (Stdio.bytesAt (storeBytes b.mem bytes) (UInt32.ofInt rlen)) ∧
      b'.results = b.results ++ [rlen] := by
  obtain ⟨⟨w₁, rlen, bytes⟩, hread, hwrite⟩ := Option.bind_eq_some_iff.1 h
  obtain ⟨_, -, hb⟩ := Option.map_eq_some_iff.1 hwrite
  cases hb
  exact ⟨w₁, rlen, bytes, hread, rfl, rfl, rfl, rfl⟩

theorem ringBufBytes_of_lt {buf : List UInt8} (h : buf.length < 2 ^ 16) :
    ringBufBytes buf = buf := by
  rw [ringBufBytes, wrap_of_lt h, List.take_length]

/-- A read of bytes is passed on as it is. -/
theorem BridgeInv.bytes {b b' : SerialBridge} {bytes : List UInt8} (h : BridgeInv b)
    (hlt : bytes.length < 2 ^ 32)
    (hread : b'.bytesRead = b.bytesRead ++ bytes) (hpassed : b'.passed = b.passed ++ bytes)
    (hring : b'.toRing = b.toRing ++ ringBufBytes bytes)
    (hresults : b'.results = b.results ++ [(bytes.length : ℤ)]) : BridgeInv b' := by
  have hcount : b'.results.count (-1) = b.results.count (-1) := by
    rw [hresults, List.count_append, List.count_singleton, if_neg (by simp),
      Nat.add_zero]
  have hfits : (∀ n ∈ b'.results, n < 65536) →
      (∀ n ∈ b.results, n < 65536) ∧ ringBufBytes bytes = bytes := by
    intro hall
    rw [hresults] at hall
    refine ⟨fun n hn => hall n (List.mem_append_left _ hn), ringBufBytes_of_lt ?_⟩
    have hlast := hall bytes.length (List.mem_append_right _ (List.mem_singleton_self _))
    omega
  have hmem : -1 ∉ b'.results → -1 ∉ b.results := by
    intro hnot hin
    rw [hresults] at hnot
    exact hnot (List.mem_append_left _ hin)
  refine ⟨fun hnot => ?_, ?_, fun hnot hall => ?_, fun hall => ?_⟩
  · rw [hpassed, hread, h.passed (hmem hnot)]
  · rw [hpassed, hread, List.length_append, List.length_append, h.length_passed, hcount]
    omega
  · rw [hring, hread, (hfits hall).2, h.toRing (hmem hnot) (hfits hall).1]
  · rw [hring, hread, (hfits hall).2, List.length_append, List.length_append,
      h.length_toRing (hfits hall).1, hcount]
    omega

/-- A failed read is passed on as a length. -/
theorem BridgeInv.failed {b b' : SerialBridge} {mem : ℕ → UInt8} (h : BridgeInv b)
    (hread : b'.bytesRead = b.bytesRead)
    (hpassed : b'.passed = b.passed ++ Stdio.bytesAt mem (UInt32.ofInt (-1)))
    (hring : b'.toRing = b.toRing ++ ringBufBytes (Stdio.bytesAt mem (UInt32.ofInt (-1))))
    (hresults : b'.results = b.results ++ [-1]) : BridgeInv b' := by
  have hin : -1 ∈ b'.results := by
    rw [hresults]
    exact List.mem_append_right _ (List.mem_singleton_self _)
  have hcount : b'.results.count (-1) = b.results.count (-1) + 1 := by
    rw [hresults, List.count_append, List.count_singleton_self]
  have hlen : (Stdio.bytesAt mem (UInt32.ofInt (-1))).length = 4294967295 := by
    rw [length_bytesAt]
    rfl
  have hcut : (ringBufBytes (Stdio.bytesAt mem (UInt32.ofInt (-1)))).length = 65535 := by
    rw [ringBufBytes, List.length_take, hlen]
    rfl
  refine ⟨fun hnot => absurd hin hnot, ?_, fun hnot => absurd hin hnot, fun hall => ?_⟩
  · rw [hpassed, hread, List.length_append, h.length_passed, hcount, hlen]
    omega
  · have hall' : ∀ n ∈ b.results, n < 65536 := by
      intro n hn
      rw [hresults] at hall
      exact hall n (List.mem_append_left _ hn)
    rw [hring, hread, List.length_append, h.length_toRing hall', hcount, hcut]
    omega

theorem BridgeInv.step (h : BridgeInv s.2) (hfit : ReadFits s e)
    (hs : bridgeStep s e = some s') : BridgeInv s'.2 := by
  cases e with
  | others w =>
      cases hs
      exact h
  | pass =>
      obtain ⟨w₁, rlen, bytes, hbridge, hread, hpassed, hring, hresults⟩ :=
        bridgePass_eq_some hs
      simp only [ReadFits, hbridge] at hfit
      rcases hfit with rfl | ⟨rfl, hpos, hle⟩
      · rw [if_pos rfl, List.append_nil] at hread
        exact h.failed hread hpassed hring hresults
      · have hlt := s.2.bufSize_lt
        have hsize : bytes.length < 2 ^ 32 := by omega
        rw [bytesAt_storeBytes _ _ (toNat_sizeOf hsize)] at hpassed hring
        rw [if_neg (by omega)] at hread
        exact h.bytes hsize hread hpassed hring hresults

end Passed

/-! ## Runs -/

section Runs

variable {δ P : Type*} {w : Stdio δ P} {srcFd dstFd : UInt8} {bufSize : ℤ}
  {hsize : bufSize < 2 ^ 31} {mem : ℕ → UInt8} {s : Stdio δ P × SerialBridge}
  {events : List (BridgeEvent δ P)}

theorem BridgeInv.start : BridgeInv (SerialBridge.start srcFd dstFd bufSize hsize mem) :=
  ⟨fun _ => rfl, rfl, fun _ _ => rfl, fun _ => rfl⟩

/-- Whatever is read from the source, the bytes passed to `write` are those read if and only
if no read fails. The same holds for the bytes that a serial port as the destination puts
into its ring buffer, when every read returns less than 65536. -/
theorem bridge_transparent_iff
    (hfit : Along ReadFits bridgeStep (w, SerialBridge.start srcFd dstFd bufSize hsize mem) events)
    (hrun : run bridgeStep (w, SerialBridge.start srcFd dstFd bufSize hsize mem) events = some s) :
    (s.2.passed = s.2.bytesRead ↔ -1 ∉ s.2.results) ∧
      ((∀ n ∈ s.2.results, n < 65536) → (s.2.toRing = s.2.bytesRead ↔ -1 ∉ s.2.results)) := by
  have hstep : ∀ (s : Stdio δ P × SerialBridge) (e : BridgeEvent δ P)
      (s' : Stdio δ P × SerialBridge), BridgeInv s.2 → ReadFits s e → bridgeStep s e = some s' →
        BridgeInv s'.2 := fun _ _ _ hi hfits hs => hi.step hfits hs
  have hstart : BridgeInv (w, SerialBridge.start srcFd dstFd bufSize hsize mem).2 :=
    BridgeInv.start
  have h : BridgeInv s.2 := hfit.invariant hstep hstart hrun
  refine ⟨⟨fun heq hin => ?_, h.passed⟩, fun hall => ⟨fun heq hin => ?_, fun hnot => ?_⟩⟩
  · have hpos := List.count_pos_iff.2 hin
    have hlen := h.length_passed
    rw [heq] at hlen
    omega
  · have hpos := List.count_pos_iff.2 hin
    have hlen := h.length_toRing hall
    rw [heq] at hlen
    omega
  · exact h.toRing hnot hall

/-- A driver that returns the bytes it is given, or fails where it is given none, and takes
what is written as a serial port does. -/
def scriptedPort : FileOperations (List (Option (List UInt8))) Unit where
  openOp := none
  writeOp := some fun script file buf => some ⟨(ringBufBytes buf).length, .ok, file, script⟩
  readOp := some fun script file _ =>
    match script with
    | some bytes :: script => some (⟨bytes.length, .ok, file, script⟩, bytes)
    | none :: script => some (⟨-1, .etimedout, file, script⟩, [])
    | [] => none
  closeOp := none
  mkdirOp := none
  rmdirOp := none

/-- The descriptors 3 and 4 are open on such a port. -/
def scriptedWorld (script : List (Option (List UInt8))) :
    Stdio (List (Option (List UInt8))) Unit where
  errno := .ok
  files i := if i = 3 ∨ i = 4 then some i else none
  stream _ := ⟨0, some 0, ()⟩
  tree := ⟨1, fun _ => ⟨[], some scriptedPort, none, none, none⟩⟩
  driver := script
  calls := []

/-- The bridge between them, with a buffer of 250 bytes. -/
def sampleBridge : SerialBridge := SerialBridge.start 3 4 250 (by decide) fun _ => 0

/-- Two bytes are read and passed on. -/
theorem bridge_transparent_two :
    ∃ s, run bridgeStep (scriptedWorld [some [1, 2]], sampleBridge) [.pass] = some s ∧
      (s.2.passed = s.2.bytesRead ↔ -1 ∉ s.2.results) ∧
        ((∀ n ∈ s.2.results, n < 65536) → (s.2.toRing = s.2.bytesRead ↔ -1 ∉ s.2.results)) := by
  have hfit : Along ReadFits bridgeStep (scriptedWorld [some [1, 2]], sampleBridge) [.pass] :=
    ⟨.inr ⟨rfl, by decide, by decide⟩, fun _ _ => trivial⟩
  exact ⟨_, rfl, bridge_transparent_iff hfit rfl⟩

/-- A read that times out is passed on. -/
theorem not_bridge_transparent :
    ¬ ∀ (events : List (BridgeEvent (List (Option (List UInt8))) Unit))
      (s : Stdio (List (Option (List UInt8))) Unit × SerialBridge),
      Along ReadFits bridgeStep (scriptedWorld [none], sampleBridge) events →
        run bridgeStep (scriptedWorld [none], sampleBridge) events = some s →
          s.2.passed = s.2.bytesRead := by
  intro hall
  have hfit : ReadFits (scriptedWorld [none], sampleBridge) .pass := .inl rfl
  obtain ⟨s, hs, hresults⟩ : ∃ s, bridgeStep (scriptedWorld [none], sampleBridge) .pass = some s ∧
      s.2.results = [-1] := ⟨_, rfl, rfl⟩
  have hstart : BridgeInv (scriptedWorld [none], sampleBridge).2 := BridgeInv.start
  have hlen := (hstart.step hfit hs).length_passed
  have hpassed := hall [.pass] s ⟨hfit, fun _ _ => trivial⟩ (run_cons_eq_some.2 ⟨s, hs, rfl⟩)
  rw [hpassed, hresults, List.count_singleton_self] at hlen
  omega

end Runs

end Catpilot
