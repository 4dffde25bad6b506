import Catpilot.RingBuf.Fifo

/-!
# Sequences of ring buffer calls

One thread's calls on a freshly created ring buffer, in any order and of any
lengths. A call of `ring_buf_write` is begun by `write` and carried on by `chunk`,
one pass of its loop at a time, so that reads fall between the passes of a write
that is longer than the free space. An action whose call would wait for ever is
not enabled. `FifoState` is the same system over a bounded queue; the ring buffer
simulates it.
-/

namespace Catpilot

open Memory Word Transition

/-- A call, or one more pass of the write call in progress. -/
inductive RingCall where
  | write (buf : List UInt8)
  | chunk
  | read (length : ℕ)
  | readTimeout (length timeout : ℕ)
  deriving DecidableEq, Repr

/-- A ring buffer, what the write call in progress has left to write, and all bytes
written and returned so far. -/
structure RingState where
  rb : RingBuf
  pending : Option (List UInt8)
  written : List UInt8
  returned : List UInt8
  deriving DecidableEq, Repr

def RingState.start (rb : RingBuf) : RingState := ⟨rb, none, [], []⟩

/-- What a write call has left, once its loop condition `counter != 0` is read. -/
def leftOver (buf : List UInt8) : Option (List UInt8) :=
  if buf.length ≠ 0 then some buf else none

/-- One call, or one pass of a write call. Of the value that a read returns nothing is kept: it is
the number of bytes delivered (`ringBuf_counts`). -/
def ringStep (s : RingState) : RingCall → Option RingState
  | .write buf =>
      match s.pending with
      | some _ => none
      | none => some { s with pending := leftOver buf }
  | .chunk =>
      match s.pending with
      | none => none
      | some buf =>
          (ringBufWriteChunk s.rb buf).map fun (rb, rest) =>
            { s with
              rb := rb
              pending := leftOver rest
              written := s.written ++ buf.take (buf.length - rest.length) }
  | .read length =>
      (ringBufRead s.rb length).map fun (rb, _, bytes) =>
        { s with rb := rb, returned := s.returned ++ bytes }
  | .readTimeout length timeout =>
      (ringBufReadTimeout s.rb length timeout).map fun (rb, _, bytes) =>
        { s with rb := rb, returned := s.returned ++ bytes }

/-- The same system over a bounded queue of `n` bytes. -/
structure FifoState (n : ℕ) where
  queue : BoundedQueue UInt8 n
  pending : Option (List UInt8)
  written : List UInt8
  returned : List UInt8

def FifoState.start (n : ℕ) : FifoState n := ⟨BoundedQueue.empty UInt8 n, none, [], []⟩

/-- Move the `k` oldest bytes of the queue to those returned. -/
def FifoState.deliver {n : ℕ} (f : FifoState n) (k : ℕ) : FifoState n :=
  { f with
    queue := (f.queue.receiveMany k).2
    returned := f.returned ++ (f.queue.receiveMany k).1 }

/-- A write puts as much into the queue as fits and waits when nothing does; a read
takes what there is and waits, or gives up, when there is nothing. -/
def fifoStep {n : ℕ} (f : FifoState n) : RingCall → Option (FifoState n)
  | .write buf =>
      match f.pending with
      | some _ => none
      | none => some { f with pending := leftOver buf }
  | .chunk =>
      match f.pending with
      | none => none
      | some buf =>
          if f.queue.IsFull then none
          else
            let k := min (n - f.queue.items.length) buf.length
            (f.queue.sendAll (buf.take k)).map fun queue =>
              { f with
                queue := queue
                pending := leftOver (buf.drop k)
                written := f.written ++ buf.take k }
  | .read length =>
      if f.queue.items = [] then none else some (f.deliver length)
  | .readTimeout length timeout =>
      if f.queue.items = [] then
        if timeout = 0 ∨ timeout = portMaxDelay then none else some f
      else some (f.deliver length)

/-! ## The calls that wait -/

theorem ringBufAwaitData_of_pos {rb : RingBuf} (h : 1 ≤ rb.count) (timeout : ℕ) :
    ringBufAwaitData rb timeout = .ready rb := by
  rw [ringBufAwaitData, ringBufGetDataSize, if_neg (not_lt.2 h)]

/-- Without data the loop drops a left-over give of `w_sem` and then waits or gives
up. -/
theorem ringBufAwaitData_of_zero {rb : RingBuf} (h : rb.count = 0) (timeout : ℕ) :
    ringBufAwaitData rb timeout =
      if timeout = portMaxDelay then .blocked else .expired { rb with wSem := false } := by
  have hzero : ringBufGetDataSize rb < 1 := by rw [ringBufGetDataSize, h]; exact one_pos
  have hidle : ∀ rb' : RingBuf, rb'.count = 0 → rb'.wSem = false →
      ringBufAwaitData rb' timeout =
        if timeout = portMaxDelay then .blocked else .expired rb' := by
    intro rb' hc hw
    have hz : ringBufGetDataSize rb' < 1 := by rw [ringBufGetDataSize, hc]; exact one_pos
    rw [ringBufAwaitData, if_pos hz]
    split
    · next hgive => exact absurd (hw.symm.trans hgive) Bool.false_ne_true
    · rfl
  by_cases hw : rb.wSem = true
  · rw [ringBufAwaitData, if_pos hzero]
    split
    · exact hidle { rb with wSem := false } h rfl
    · next hgive => exact absurd (hgive.symm.trans hw) Bool.false_ne_true
  · have hfalse : rb.wSem = false := Bool.eq_false_iff.2 hw
    have hsame : { rb with wSem := false } = rb := by rw [← hfalse]
    rw [hidle rb h hfalse, hsame]

theorem ringBufReadTimeout_of_pos {rb : RingBuf} (h : 1 ≤ rb.count) (length timeout : ℕ) :
    ringBufReadTimeout rb length timeout =
      some ((readSection rb (min length rb.count)).1, ((min length rb.count : ℕ) : ℤ),
        (readSection rb (min length rb.count)).2) := by
  unfold ringBufReadTimeout
  simp only [ringBufAwaitData_of_pos h, ringBufGetDataSize]

theorem ringBufReadTimeout_of_zero {rb : RingBuf} (h : rb.count = 0) (length timeout : ℕ) :
    ringBufReadTimeout rb length timeout =
      if timeout = 0 ∨ timeout = portMaxDelay then none
      else some ({ rb with wSem := false }, -1, []) := by
  unfold ringBufReadTimeout
  simp only [ringBufAwaitData_of_zero h]
  by_cases h0 : timeout = 0
  · simp [h0]
  · by_cases hmax : timeout = portMaxDelay <;> simp [h0, hmax]

theorem ringBufRead_of_pos {rb : RingBuf} (h : 1 ≤ rb.count) (length : ℕ) :
    ringBufRead rb length =
      some ((readSection rb (min length rb.count)).1, ((min length rb.count : ℕ) : ℤ),
        (readSection rb (min length rb.count)).2) := by
  unfold ringBufRead
  simp only [ringBufAwaitData_of_pos h, ringBufGetDataSize]

theorem ringBufRead_of_zero {rb : RingBuf} (h : rb.count = 0) (length : ℕ) :
    ringBufRead rb length = none := by
  unfold ringBufRead
  simp only [ringBufAwaitData_of_zero h, if_true]

/-! ## The returned counts -/

section Counts

variable {rb rb' : RingBuf} {written delivered bytes : List UInt8} {rv : ℤ}

/-- `ring_buf_read` returns the number of bytes that it delivers. -/
theorem Holds.ringBufRead_count (h : Holds rb written delivered) {length : ℕ}
    (hr : ringBufRead rb length = some (rb', rv, bytes)) : rv = bytes.length := by
  by_cases hzero : rb.count = 0
  · rw [ringBufRead_of_zero hzero] at hr
    cases hr
  · rw [ringBufRead_of_pos (Nat.one_le_iff_ne_zero.2 hzero)] at hr
    cases hr
    rw [h.length_readSection (min_le_right _ _)]

/-- `ring_buf_read_timeout` returns the number of bytes that it delivers, or -1 when its time
has run out and it delivers none. -/
theorem Holds.ringBufReadTimeout_count (h : Holds rb written delivered) {length timeout : ℕ}
    (hr : ringBufReadTimeout rb length timeout = some (rb', rv, bytes)) :
    rv = if rb.count = 0 then -1 else (bytes.length : ℤ) := by
  by_cases hzero : rb.count = 0
  · rw [ringBufReadTimeout_of_zero hzero] at hr
    split at hr
    · cases hr
    · cases hr
      rw [if_pos hzero]
  · rw [ringBufReadTimeout_of_pos (Nat.one_le_iff_ne_zero.2 hzero)] at hr
    cases hr
    rw [if_neg hzero, h.length_readSection (min_le_right _ _)]

end Counts

/-! ## The simulation -/

/-- The ring buffer of `s` holds exactly the queue of `f`, and both systems have seen
the same bytes. -/
structure Implements {n : ℕ} (s : RingState) (f : FifoState n) : Prop where
  holds : Holds s.rb s.written s.returned
  size_eq : s.rb.size = n
  queue_eq : f.queue.items = contents s.rb
  pending_eq : f.pending = s.pending
  written_eq : f.written = s.written
  returned_eq : f.returned = s.returned

section Simulation

variable {n : ℕ} {s s' : RingState} {f : FifoState n}

theorem Implements.length_items (h : Implements s f) : f.queue.items.length = s.rb.count := by
  rw [h.queue_eq, h.holds.length_contents]

theorem Implements.items_eq_nil_iff (h : Implements s f) :
    f.queue.items = [] ↔ s.rb.count = 0 := by
  rw [← h.length_items, List.length_eq_zero_iff]

/-- A read of the ring buffer with data delivers the bytes the queue delivers. -/
theorem Implements.deliver (h : Implements s f) (k : ℕ) :
    Implements
      { s with
        rb := (readSection s.rb (min k s.rb.count)).1
        returned := s.returned ++ (readSection s.rb (min k s.rb.count)).2 }
      (f.deliver k) := by
  have hle : min k s.rb.count ≤ s.rb.count := min_le_right _ _
  have hread := h.holds.after_read hle
  have hbytes : (readSection s.rb (min k s.rb.count)).2 = f.queue.items.take k := by
    rw [h.holds.readSection_snd_eq hle, h.queue_eq, h.holds.contents_eq]
    rw [← h.holds.length_contents, h.holds.contents_eq, ← List.take_eq_take_min]
  refine ⟨hread, ?_, ?_, h.pending_eq, h.written_eq, ?_⟩
  · rw [readSection_size]; exact h.size_eq
  · have hlen := h.holds.length_readSection hle
    rw [FifoState.deliver, BoundedQueue.receiveMany_snd_items, hread.contents_eq,
      List.length_append, hlen, ← List.drop_drop, ← h.holds.contents_eq, ← h.queue_eq,
      ← h.length_items]
    rcases le_total k f.queue.items.length with hk | hk
    · rw [min_eq_left hk]
    · rw [min_eq_right hk, List.drop_of_length_le hk, List.drop_of_length_le le_rfl]
  · rw [FifoState.deliver, BoundedQueue.receiveMany_fst, h.returned_eq, hbytes]

/-- One pass of the write loop puts into the ring buffer what fits into the queue. -/
theorem Implements.chunk (h : Implements s f) {buf rest : List UInt8} {rb : RingBuf}
    (hc : ringBufWriteChunk s.rb buf = some (rb, rest)) :
    ¬ f.queue.IsFull ∧
      rest = buf.drop (min (n - f.queue.items.length) buf.length) ∧
      ∃ q, f.queue.sendAll (buf.take (min (n - f.queue.items.length) buf.length)) = some q ∧
        Implements
          { s with
            rb := rb
            pending := leftOver rest
            written := s.written ++ buf.take (min (n - f.queue.items.length) buf.length) }
          { f with
            queue := q
            pending := leftOver rest
            written := f.written ++ buf.take (min (n - f.queue.items.length) buf.length) } := by
  have hlen := h.length_items
  have hle := h.holds.count_le
  have hsize := h.size_eq
  unfold ringBufWriteChunk at hc
  rw [h.holds.freeSize_eq, hsize, ← hlen] at hc
  simp only at hc
  split at hc
  · cases hc
  · next hfree =>
      cases hc
      set k := min (n - f.queue.items.length) buf.length with hk
      have htake : (buf.take k).length = k := by rw [List.length_take]; omega
      have hwrite : Holds (writeSection s.rb buf k) (s.written ++ buf.take k) s.returned :=
        h.holds.after_write (by omega) (by omega)
      have hfit : f.queue.items.length + (buf.take k).length ≤ n := by rw [htake]; omega
      obtain ⟨q, hq, hitems⟩ := BoundedQueue.exists_sendAll hfit
      refine ⟨fun hfull => hfree (by rw [BoundedQueue.IsFull] at hfull; omega), rfl, q, hq,
        ⟨hwrite, ?_, ?_, rfl, ?_, h.returned_eq⟩⟩
      · rw [writeSection_size]; exact hsize
      · rw [hitems, h.queue_eq]
        exact (h.holds.contents_append hwrite).symm
      · dsimp only
        rw [h.written_eq]

/-- Every call of the ring buffer is a call of the queue. -/
theorem Implements.step (h : Implements s f) (c : RingCall) (hs : ringStep s c = some s') :
    ∃ f', fifoStep f c = some f' ∧ Implements s' f' := by
  cases c with
  | write buf =>
      simp only [ringStep] at hs
      simp only [fifoStep]
      rw [h.pending_eq]
      cases hp : s.pending with
      | some _ => simp [hp] at hs
      | none =>
          simp only [hp, Option.some.injEq] at hs
          subst hs
          exact ⟨_, rfl, ⟨h.holds, h.size_eq, h.queue_eq, rfl, h.written_eq, h.returned_eq⟩⟩
  | chunk =>
      simp only [ringStep] at hs
      simp only [fifoStep]
      rw [h.pending_eq]
      cases hp : s.pending with
      | none => simp [hp] at hs
      | some buf =>
          simp only [hp] at hs
          obtain ⟨⟨rb, rest⟩, hchunk, rfl⟩ := Option.map_eq_some_iff.1 hs
          obtain ⟨hfull, hrest, q, hq, himp⟩ := h.chunk hchunk
          have hmoved : buf.length - rest.length =
              min (n - f.queue.items.length) buf.length := by
            rw [hrest, List.length_drop]
            omega
          refine ⟨{ f with
            queue := q
            pending := leftOver rest
            written := f.written ++ buf.take (min (n - f.queue.items.length) buf.length) },
            ?_, ?_⟩
          · simp only [if_neg hfull, hq, Option.map_some, ← hrest]
          · simp only [hmoved]
            exact himp
  | read length =>
      simp only [ringStep] at hs
      simp only [fifoStep]
      by_cases hzero : s.rb.count = 0
      · simp [ringBufRead_of_zero hzero] at hs
      · have hpos : 1 ≤ s.rb.count := Nat.one_le_iff_ne_zero.2 hzero
        rw [ringBufRead_of_pos hpos, Option.map_some, Option.some.injEq] at hs
        subst hs
        refine ⟨f.deliver length, ?_, h.deliver length⟩
        rw [if_neg (mt h.items_eq_nil_iff.1 hzero)]
  | readTimeout length timeout =>
      simp only [ringStep] at hs
      simp only [fifoStep]
      by_cases hzero : s.rb.count = 0
      · rw [if_pos (h.items_eq_nil_iff.2 hzero)]
        rw [ringBufReadTimeout_of_zero hzero] at hs
        split at hs
        · simp at hs
        · next hlimit =>
            simp only [Option.map_some, Option.some.injEq, List.append_nil] at hs
            subst hs
            refine ⟨f, by rw [if_neg hlimit], ?_⟩
            exact ⟨h.holds.of_sems _ false, h.size_eq, h.queue_eq, h.pending_eq, h.written_eq,
              h.returned_eq⟩
      · have hpos : 1 ≤ s.rb.count := Nat.one_le_iff_ne_zero.2 hzero
        rw [ringBufReadTimeout_of_pos hpos, Option.map_some, Option.some.injEq] at hs
        subst hs
        refine ⟨f.deliver length, ?_, h.deliver length⟩
        rw [if_neg (mt h.items_eq_nil_iff.1 hzero)]

/-- A freshly created ring buffer is an empty queue. -/
theorem start_implements {rb : RingBuf} (hinit : ringBufInit n = some rb) :
    Implements (RingState.start rb) (FifoState.start n) := by
  obtain ⟨hholds, hsize⟩ := ringBufInit_holds hinit
  refine ⟨hholds, hsize, ?_, rfl, rfl, rfl⟩
  rw [FifoState.start, BoundedQueue.empty_items, RingState.start, hholds.contents_eq]
  rfl

end Simulation

/-- The ring buffer refines a bounded queue: every sequence of calls on a fresh
buffer is one of the queue, ending with the same bytes held, written and returned;
the bytes returned are the first of those written, the fill count is their
difference, and each pointer is the number of bytes modulo the size. -/
theorem ringBuf_refines_fifo {n : ℕ} (hmax : n ≤ 2048) (calls : List RingCall) :
    ∃ rb, ringBufInit n = some rb ∧
      ∀ s, run ringStep (RingState.start rb) calls = some s →
        (∃ f : FifoState n, run fifoStep (FifoState.start n) calls = some f ∧
          f.queue.items = contents s.rb ∧ f.written = s.written ∧ f.returned = s.returned) ∧
        s.returned <+: s.written ∧
        (s.rb.count : ℤ) = s.written.length - s.returned.length ∧ s.rb.count ≤ n ∧
        s.rb.writePtr ≤ n ∧ s.rb.readPtr ≤ n ∧
        s.rb.writePtr ≡ s.written.length [MOD n] ∧
        s.rb.readPtr ≡ s.returned.length [MOD n] := by
  obtain ⟨rb, hinit⟩ := exists_ringBufInit hmax
  refine ⟨rb, hinit, fun s hrun => ?_⟩
  obtain ⟨f, hf, himp⟩ := run_simulation (R := Implements (n := n))
    (fun s f c s' h hs => h.step c hs) (start_implements hinit) hrun
  have hholds := himp.holds
  have hadd := hholds.count_add
  have hsize := himp.size_eq
  refine ⟨⟨f, hf, himp.queue_eq, himp.written_eq, himp.returned_eq⟩, hholds.delivered_prefix,
    by omega, ?_, ?_, ?_, ?_, ?_⟩
  · exact hsize ▸ hholds.count_le
  · exact hsize ▸ hholds.writePtr_le
  · exact hsize ▸ hholds.readPtr_le
  · exact hsize ▸ hholds.writePtr_mod
  · exact hsize ▸ hholds.readPtr_mod

/-- In every state that calls on a fresh buffer lead to, the value that a read returns is the
number of bytes it delivers, unless it gives up for want of data. -/
theorem ringBuf_counts {n : ℕ} {rb : RingBuf} (hinit : ringBufInit n = some rb)
    {calls : List RingCall} {s : RingState}
    (hrun : run ringStep (RingState.start rb) calls = some s) {rb' : RingBuf} {rv : ℤ}
    {bytes : List UInt8} {length : ℕ} :
    (ringBufRead s.rb length = some (rb', rv, bytes) → rv = bytes.length) ∧
      ∀ timeout, ringBufReadTimeout s.rb length timeout = some (rb', rv, bytes) →
        rv = if s.rb.count = 0 then -1 else (bytes.length : ℤ) := by
  obtain ⟨f, -, himp⟩ := run_simulation (R := Implements (n := n))
    (fun s f c s' h hs => h.step c hs) (start_implements hinit) hrun
  exact ⟨himp.holds.ringBufRead_count, fun _ => himp.holds.ringBufReadTimeout_count⟩

/-- Two bytes of space, three bytes written in two passes: the second read crosses
the end of the array. -/
theorem ringBuf_refines_fifo_two :
    ∃ s, run ringStep (RingState.start ⟨[0, 0], 0, 0, 2, 0, false, false⟩)
        [.write [1, 2, 3], .chunk, .read 1, .chunk, .readTimeout 5 0] = some s ∧
      s.returned = [1, 2, 3] ∧ s.returned <+: s.written ∧
      s.rb.writePtr ≡ s.written.length [MOD 2] := by
  obtain ⟨rb, hinit, hall⟩ := ringBuf_refines_fifo (n := 2) (by decide)
    [.write [1, 2, 3], .chunk, .read 1, .chunk, .readTimeout 5 0]
  have hrb : rb = ⟨[0, 0], 0, 0, 2, 0, false, false⟩ := (Option.some.inj hinit).symm
  subst hrb
  have hrun : run ringStep (RingState.start ⟨[0, 0], 0, 0, 2, 0, false, false⟩)
      [.write [1, 2, 3], .chunk, .read 1, .chunk, .readTimeout 5 0] =
      some ⟨⟨[3, 2], 1, 1, 2, 0, true, true⟩, none, [1, 2, 3], [1, 2, 3]⟩ := by
    simp [run, ringStep, RingState.start, leftOver, ringBufWriteChunk, ringBufGetFreeSize,
      writeSection, memcpy, ringBufRead_of_pos, ringBufReadTimeout_of_pos, readSection, memread,
      wrap, wrapSub]
  obtain ⟨-, hprefix, -, -, -, -, hmod, -⟩ := hall _ hrun
  exact ⟨_, hrun, rfl, hprefix, hmod⟩

end Catpilot
