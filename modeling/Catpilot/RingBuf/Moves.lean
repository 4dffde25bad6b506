import Catpilot.RingBuf.Threads

/-!
# The moves of a ring buffer thread

What one step of a writer or of a reader can be: `WriteMove`, `ReadMove` and
`ThreadMove` have a constructor for each program point a step starts from, with
what the step found there and the state it leaves. The invariants are proved over
these moves and never unfold the step functions.
-/

namespace Catpilot

open Memory Word Transition

section WriteMoves

variable {ι κ : Type*} [DecidableEq ι]

@[simp] theorem setWriter_writer_self (s : Threads ι κ) (i : ι) (pc : WritePc) :
    (s.setWriter i pc).writer i = pc := Function.update_self _ _ _

theorem setWriter_writer_of_ne (s : Threads ι κ) {i j : ι} (hj : j ≠ i) (pc : WritePc) :
    (s.setWriter i pc).writer j = s.writer j := Function.update_of_ne hj _ _

/-- A writer is at a point after a move either because it has moved there or from before. -/
theorem setWriter_writer_cases {s : Threads ι κ} {i j : ι} {pc pc' : WritePc}
    (h : (s.setWriter i pc).writer j = pc') : pc = pc' ∨ (j ≠ i ∧ s.writer j = pc') := by
  by_cases hji : j = i
  · rw [hji, setWriter_writer_self] at h
    exact Or.inl h
  · rw [setWriter_writer_of_ne s hji] at h
    exact Or.inr ⟨hji, h⟩

@[simp] theorem setWriter_rb (s : Threads ι κ) (i : ι) (pc : WritePc) :
    (s.setWriter i pc).rb = s.rb := rfl

@[simp] theorem setWriter_contMutex (s : Threads ι κ) (i : ι) (pc : WritePc) :
    (s.setWriter i pc).contMutex = s.contMutex := rfl

@[simp] theorem setWriter_reader (s : Threads ι κ) (i : ι) (pc : WritePc) :
    (s.setWriter i pc).reader = s.reader := rfl

@[simp] theorem setWriter_calls (s : Threads ι κ) (i : ι) (pc : WritePc) :
    (s.setWriter i pc).calls = s.calls := rfl

@[simp] theorem setWriter_stream (s : Threads ι κ) (i : ι) (pc : WritePc) :
    (s.setWriter i pc).stream = s.stream := rfl

@[simp] theorem setWriter_delivered (s : Threads ι κ) (i : ι) (pc : WritePc) :
    (s.setWriter i pc).delivered = s.delivered := rfl

/-- The steps of writer `i`, with the program point each starts from. -/
inductive WriteMove (s : Threads ι κ) (i : ι) : Threads ι κ → Prop where
  | enter {call : ℕ} {buf : List UInt8} (hpc : s.writer i = .enter call buf)
      (hfree : s.contMutex = none) :
      WriteMove s i ({ s with contMutex := some i }.setWriter i (.sample call buf))
  | leave {call : ℕ} (hpc : s.writer i = .sample call []) :
      WriteMove s i ({ s with contMutex := none }.setWriter i .idle)
  | full {call : ℕ} {buf : List UInt8} (hpc : s.writer i = .sample call buf)
      (hzero : ringBufGetFreeSize s.rb = 0) :
      WriteMove s i (s.setWriter i (.takeRSem call buf))
  | room {call : ℕ} {buf : List UInt8} (hpc : s.writer i = .sample call buf) :
      WriteMove s i
        (s.setWriter i (.put call buf (min (ringBufGetFreeSize s.rb) buf.length)))
  | woken {call : ℕ} {buf : List UInt8} (hpc : s.writer i = .takeRSem call buf) :
      WriteMove s i
        ({ s with rb := { s.rb with rSem := false } }.setWriter i (.sample call buf))
  | put {call : ℕ} {buf : List UInt8} {t : ℕ} (hpc : s.writer i = .put call buf t) :
      WriteMove s i ({ s with
        rb := writeSection s.rb buf t
        stream := s.stream ++ (buf.take t).map (Prod.mk call)
      }.setWriter i (.sample call (buf.drop t)))

theorem writeMove_of_writeStep {s s' : Threads ι κ} {i : ι} (h : writeStep s i = some s') :
    WriteMove s i s' := by
  unfold writeStep at h
  cases hpc : s.writer i with
  | idle => simp [hpc] at h
  | enter call buf =>
      cases hm : s.contMutex with
      | some k => simp [hpc, hm] at h
      | none =>
          simp only [hpc, hm, Option.some.injEq] at h
          exact h ▸ .enter hpc hm
  | sample call buf =>
      simp only [hpc] at h
      split at h
      · next hnil =>
          rw [List.length_eq_zero_iff] at hnil
          rw [Option.some.injEq] at h
          exact h ▸ .leave (hnil ▸ hpc)
      · split at h
        · next hzero =>
            rw [Option.some.injEq] at h
            exact h ▸ .full hpc hzero
        · rw [Option.some.injEq] at h
          exact h ▸ .room hpc
  | takeRSem call buf =>
      simp only [hpc] at h
      split at h
      · rw [Option.some.injEq] at h
        exact h ▸ .woken hpc
      · cases h
  | put call buf t =>
      simp only [hpc, Option.some.injEq] at h
      exact h ▸ .put hpc

end WriteMoves

section ReadMoves

variable {ι κ : Type*} [DecidableEq κ]

@[simp] theorem setReader_reader_self (s : Threads ι κ) (j : κ) (pc : ReadPc) :
    (s.setReader j pc).reader j = pc := Function.update_self _ _ _

theorem setReader_reader_of_ne (s : Threads ι κ) {j k : κ} (hk : k ≠ j) (pc : ReadPc) :
    (s.setReader j pc).reader k = s.reader k := Function.update_of_ne hk _ _

/-- The steps of reader `j`, with the program point each starts from. -/
inductive ReadMove (s : Threads ι κ) (j : κ) : Threads ι κ → Prop where
  | empty {length timeout : ℕ} (hpc : s.reader j = .sample length timeout)
      (hzero : s.rb.count = 0) :
      ReadMove s j (s.setReader j (.takeWSem length timeout))
  | data {length timeout : ℕ} (hpc : s.reader j = .sample length timeout) :
      ReadMove s j (s.setReader j (.fetch length s.rb.count))
  | woken {length timeout : ℕ} (hpc : s.reader j = .takeWSem length timeout) :
      ReadMove s j
        ({ s with rb := { s.rb with wSem := false } }.setReader j (.sample length timeout))
  | fetch {length dataSize : ℕ} (hpc : s.reader j = .fetch length dataSize) :
      ReadMove s j ({ s with
        rb := (readSection s.rb (min length dataSize)).1
        delivered := s.delivered ++
          (readSection s.rb (min length dataSize)).2.map (Prod.mk j)
      }.setReader j .idle)

theorem readMove_of_readStep {s s' : Threads ι κ} {j : κ} (h : readStep s j = some s') :
    ReadMove s j s' := by
  unfold readStep at h
  cases hpc : s.reader j with
  | idle => simp [hpc] at h
  | sample length timeout =>
      simp only [hpc] at h
      split at h
      · next hzero =>
          rw [Option.some.injEq] at h
          exact h ▸ .empty hpc (Nat.lt_one_iff.1 hzero)
      · rw [Option.some.injEq] at h
        exact h ▸ .data hpc
  | takeWSem length timeout =>
      simp only [hpc] at h
      split at h
      · rw [Option.some.injEq] at h
        exact h ▸ .woken hpc
      · cases h
  | fetch length dataSize =>
      simp only [hpc, Option.some.injEq] at h
      exact h ▸ .fetch hpc

end ReadMoves

section ThreadMoves

variable {ι κ : Type*} [DecidableEq ι] [DecidableEq κ]

/-- The steps of the system. The three calls and the time-out only move one thread's
program point. -/
inductive ThreadMove (s : Threads ι κ) : Threads ι κ → Prop where
  | callWrite {i : ι} (buf : List UInt8) (hpc : s.writer i = .idle) :
      ThreadMove s
        ({ s with calls := s.calls ++ [buf] }.setWriter i (.enter s.calls.length buf))
  | write {i : ι} {s' : Threads ι κ} (h : WriteMove s i s') : ThreadMove s s'
  | callRead {j : κ} (length timeout : ℕ) : ThreadMove s (s.setReader j (.sample length timeout))
  | read {j : κ} {s' : Threads ι κ} (h : ReadMove s j s') : ThreadMove s s'
  | expire {j : κ} : ThreadMove s (s.setReader j .idle)

/-- The same steps with the action that takes each. -/
inductive ActionMove (s : Threads ι κ) : ThreadAction ι κ → Threads ι κ → Prop where
  | callWrite {i : ι} (buf : List UInt8) (hpc : s.writer i = .idle) :
      ActionMove s (.callWrite i buf)
        ({ s with calls := s.calls ++ [buf] }.setWriter i (.enter s.calls.length buf))
  | write {i : ι} {s' : Threads ι κ} (h : WriteMove s i s') : ActionMove s (.stepWrite i) s'
  | callRead {j : κ} (length : ℕ) :
      ActionMove s (.callRead j length) (s.setReader j (.sample length portMaxDelay))
  | callReadTimeout {j : κ} (length timeout : ℕ) :
      ActionMove s (.callReadTimeout j length timeout)
        (s.setReader j (.sample length (if timeout = 0 then portMaxDelay else timeout)))
  | read {j : κ} {s' : Threads ι κ} (h : ReadMove s j s') : ActionMove s (.stepRead j) s'
  | expire {j : κ} : ActionMove s (.expire j) (s.setReader j .idle)

theorem actionMove_of_threadStep {s s' : Threads ι κ} {a : ThreadAction ι κ}
    (h : threadStep s a = some s') : ActionMove s a s' := by
  cases a with
  | callWrite i buf =>
      simp only [threadStep] at h
      split at h
      · next hpc =>
          rw [Option.some.injEq] at h
          exact h ▸ .callWrite buf hpc
      · cases h
  | stepWrite i => exact .write (writeMove_of_writeStep h)
  | callRead j length =>
      simp only [threadStep] at h
      split at h
      · rw [Option.some.injEq] at h
        exact h ▸ .callRead length
      · cases h
  | callReadTimeout j length timeout =>
      simp only [threadStep] at h
      split at h
      · rw [Option.some.injEq] at h
        exact h ▸ .callReadTimeout length timeout
      · cases h
  | stepRead j => exact .read (readMove_of_readStep h)
  | expire j =>
      simp only [threadStep] at h
      split at h
      · split at h
        · rw [Option.some.injEq] at h
          exact h ▸ .expire
        · cases h
      · cases h

theorem threadMove_of_threadStep {s s' : Threads ι κ} {a : ThreadAction ι κ}
    (h : threadStep s a = some s') : ThreadMove s s' := by
  cases actionMove_of_threadStep h with
  | callWrite buf hpc => exact .callWrite buf hpc
  | write hm => exact .write hm
  | callRead length => exact .callRead length _
  | callReadTimeout length timeout => exact .callRead length _
  | read hm => exact .read hm
  | expire => exact .expire

end ThreadMoves

end Catpilot
