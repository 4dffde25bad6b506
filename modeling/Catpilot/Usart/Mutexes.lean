import Catpilot.Hal.Status
import Catpilot.Sync.Mutex
import Catpilot.Transition.Run

/-!
# The mutexes of a USART

`usart_transmit`, `usart_receive` and `usart_transmit_receive`, called by any number of
tasks. A step of a task is one operation on a mutex, one start of the HAL or one wait; the
interrupt handler may run between any two steps. The outcomes of the HAL and of the waits
are those of the actions.
-/

namespace Catpilot

open Transition Sync

/-! ## The port -/

/-- `enum usart_state_t`. -/
inductive UsartState where
  | free
  | transmit
  | receive
  deriving DecidableEq, Repr

/-- `enum usart_receive_mode_t`. -/
inductive UsartMode where
  | timeout
  | idle
  deriving DecidableEq, Repr

/-- A call; a pointer is given by whether it is not `NULL`. -/
inductive UsartCall where
  | transmit (pdata : Bool) (length : ℕ)
  | receive (pdata : Bool) (length : ℕ)
  | transmitReceive (txPdata rxPdata : Bool) (txLength rxLength : ℕ)
  deriving DecidableEq, Repr

/-- The check of the arguments. -/
def UsartCall.valid : UsartCall → Bool
  | transmit pdata length => length ≠ 0 && pdata
  | receive pdata length => length ≠ 0 && pdata
  | transmitReceive txPdata rxPdata txLength rxLength =>
      txLength ≠ 0 && rxLength ≠ 0 && txPdata && rxPdata

/-- The three functions. -/
inductive UsartOp where
  | transmit
  | receive
  | transmitReceive
  deriving DecidableEq, Repr

def UsartCall.op : UsartCall → UsartOp
  | transmit _ _ => .transmit
  | receive _ _ => .receive
  | transmitReceive _ _ _ _ => .transmitReceive

/-- Where a task stands: outside of the calls, or in a call before it takes the first mutex,
before `usart_transmit_receive` takes the second, before the semaphore is cleared, before
the HAL is started, in the wait, and before a mutex is given, with the result. -/
inductive UsartPc where
  | idle
  | take (op : UsartOp)
  | takeRx
  | prepare (op : UsartOp)
  | start (op : UsartOp)
  | wait (op : UsartOp)
  | give (op : UsartOp) (rv : ℕ)
  | giveRx (rv : ℕ)
  deriving DecidableEq, Repr

/-- The part of `usart_private_t` that the calls and the handler use, and where the tasks
stand, with the results of their last calls. -/
structure UsartPort (ι : Type*) where
  txMutex : Option ι
  rxMutex : Option ι
  txSem : Bool
  rxSem : Bool
  txState : UsartState
  rxState : UsartState
  txCount : ℕ
  rxCount : ℕ
  pc : ι → UsartPc
  result : ι → ℕ

/-- The port after `usart_init`, before any call. -/
def UsartPort.init (ι : Type*) : UsartPort ι where
  txMutex := none
  rxMutex := none
  txSem := false
  rxSem := false
  txState := .free
  rxState := .free
  txCount := 0
  rxCount := 0
  pc := fun _ => .idle
  result := fun _ => 0

/-- What the handler finds: the states of the HAL, the idle flag, and the counts that it
stores. -/
structure UsartIrq where
  gStateReady : Bool
  rxStateReady : Bool
  idle : Bool
  txCount : ℕ
  rxCount : ℕ
  deriving DecidableEq, Repr

/-- A step: a task calls, or goes on; the HAL answers to a receive and to a transmit that
are started, and a wait ends with the semaphore or without it. -/
inductive UsartAction (ι : Type*) where
  | call (i : ι) (c : UsartCall)
  | next (i : ι)
  | start (i : ι) (rx tx : HalStatus)
  | timeout (i : ι)
  | handler (irq : UsartIrq)

section Steps

variable {ι : Type*} [DecidableEq ι] (mode : UsartMode)

def UsartPort.goto (s : UsartPort ι) (i : ι) (pc : UsartPc) : UsartPort ι :=
  { s with pc := Function.update s.pc i pc }

/-- The call returns. -/
def UsartPort.leave (s : UsartPort ι) (i : ι) (rv : ℕ) : UsartPort ι :=
  { s.goto i .idle with result := Function.update s.result i rv }

/-- `usart_handler`. -/
def usartHandler (s : UsartPort ι) (irq : UsartIrq) : UsartPort ι :=
  let s :=
    if irq.gStateReady ∧ s.txState = .transmit then
      { s with txCount := irq.txCount, txSem := true }
    else s
  let s :=
    if irq.rxStateReady ∧ s.rxState = .receive ∧ mode = .timeout then
      { s with rxCount := irq.rxCount, rxSem := true }
    else s
  if irq.idle ∧ s.rxState = .receive ∧ mode = .idle then
    { s with rxCount := irq.rxCount, rxSem := true }
  else s

/-- The first mutex: the one of the transmissions but in `usart_receive`. -/
def UsartPort.takeFirst (s : UsartPort ι) (i : ι) : UsartOp → UsartPort ι
  | .transmit =>
      if s.txMutex = none then { s.goto i (.prepare .transmit) with txMutex := some i }
      else s.leave i rvEbusy
  | .receive =>
      if s.rxMutex = none then { s.goto i (.prepare .receive) with rxMutex := some i }
      else s.leave i rvEbusy
  | .transmitReceive =>
      if s.txMutex = none then { s.goto i .takeRx with txMutex := some i }
      else s.leave i rvEbusy

/-- The semaphore is cleared, and the states and counts are set. -/
def UsartPort.prepared (s : UsartPort ι) (i : ι) : UsartOp → UsartPort ι
  | .transmit =>
      { s.goto i (.start .transmit) with txSem := false, txState := .transmit, txCount := 0 }
  | .receive =>
      { s.goto i (.start .receive) with rxSem := false, rxState := .receive, rxCount := 0 }
  | .transmitReceive =>
      { s.goto i (.start .transmitReceive) with
        rxSem := false, txState := .transmit, rxState := .receive, txCount := 0, rxCount := 0 }

/-- The status of the HAL at the start. -/
def UsartOp.started (rx tx : HalStatus) : UsartOp → ℕ
  | .transmit => tx.value
  | .receive => rx.value
  | .transmitReceive => rx.value ||| tx.value

/-- The wait, where the semaphore is given. -/
def UsartPort.woken (s : UsartPort ι) (i : ι) : UsartOp → Option (UsartPort ι)
  | .transmit =>
      if s.txSem then some { s.goto i (.give .transmit 0) with txSem := false } else none
  | .receive =>
      if s.rxSem then some { s.goto i (.give .receive 0) with rxSem := false } else none
  | .transmitReceive =>
      if s.rxSem then some { s.goto i (.give .transmitReceive 0) with rxSem := false } else none

/-- The end of a call up to the first mutex that it gives. -/
def UsartPort.given (s : UsartPort ι) (i : ι) (rv : ℕ) : UsartOp → UsartPort ι
  | .transmit => { s.leave i rv with txState := .free, txMutex := none }
  | .receive => { s.leave i rv with rxState := .free, rxMutex := none }
  | .transmitReceive =>
      { s.goto i (.giveRx rv) with txState := .free, rxState := .free, txMutex := none }

def usartStep (s : UsartPort ι) : UsartAction ι → Option (UsartPort ι)
  | .call i c =>
      if s.pc i = .idle then
        if c.valid then some (s.goto i (.take c.op)) else some (s.leave i rvEinval)
      else none
  | .next i =>
      match s.pc i with
      | .take op => some (s.takeFirst i op)
      | .takeRx =>
          if s.rxMutex = none then
            some { s.goto i (.prepare .transmitReceive) with rxMutex := some i }
          else some (s.leave i rvEbusy)
      | .prepare op => some (s.prepared i op)
      | .wait op => s.woken i op
      | .give op rv => some (s.given i rv op)
      | .giveRx rv => some { s.leave i rv with rxMutex := none }
      | .idle | .start _ => none
  | .start i rx tx =>
      match s.pc i with
      | .start op =>
          let rv := op.started rx tx
          some (s.goto i (if rv = 0 then .wait op else .give op rv))
      | _ => none
  | .timeout i =>
      match s.pc i with
      | .wait op => some (s.goto i (.give op rvEtimedout))
      | _ => none
  | .handler irq => some (usartHandler mode s irq)

end Steps

/-! ## The discipline -/

/-- The operation uses the transmissions. -/
def UsartOp.usesTx : UsartOp → Prop
  | .transmit | .transmitReceive => True
  | .receive => False

/-- The operation uses the receptions. -/
def UsartOp.usesRx : UsartOp → Prop
  | .receive | .transmitReceive => True
  | .transmit => False

/-- The call in progress has taken the mutex of the transmissions and not given it yet. -/
def UsartPc.HoldsTx : UsartPc → Prop
  | .idle | .take _ | .giveRx _ => False
  | .takeRx => True
  | .prepare op | .start op | .wait op | .give op _ => op.usesTx

/-- The call in progress has taken the mutex of the receptions and not given it yet. -/
def UsartPc.HoldsRx : UsartPc → Prop
  | .idle | .take _ | .takeRx => False
  | .giveRx _ => True
  | .prepare op | .start op | .wait op | .give op _ => op.usesRx

section Discipline

variable {ι : Type*}

/-- Each mutex is held exactly by the call in progress that has taken it; so no task outside
of the calls holds one. -/
def UsartPort.Disciplined (s : UsartPort ι) : Prop :=
  Guarded s.txMutex UsartPc.HoldsTx s.pc ∧ Guarded s.rxMutex UsartPc.HoldsRx s.pc

/-- `usart_transmit_receive` finds the mutex of the receptions free when it has taken the
other one. -/
def SecondFree (s : UsartPort ι) : UsartAction ι → Prop
  | .next i => s.pc i = .takeRx → s.rxMutex = none
  | _ => True

theorem UsartPort.Disciplined.init : (UsartPort.init ι).Disciplined :=
  ⟨.of_free fun _ => id, .of_free fun _ => id⟩

/-- The handler leaves the mutexes and the tasks. -/
theorem UsartPort.Disciplined.handler {mode : UsartMode} {s : UsartPort ι} (h : s.Disciplined)
    (irq : UsartIrq) : (usartHandler mode s irq).Disciplined := by
  rw [usartHandler]
  split_ifs
  all_goals exact h

variable [DecidableEq ι] {mode : UsartMode} {s s' : UsartPort ι} {a : UsartAction ι} {i : ι}

/-- A step keeps the discipline. -/
def KeepsMutexes (mode : UsartMode) (s : UsartPort ι) (a : UsartAction ι) : Prop :=
  ∀ s', usartStep mode s a = some s' → s'.Disciplined

/-- A task that moves without an operation on a mutex. -/
theorem UsartPort.Disciplined.goto (h : s.Disciplined) {pc q : UsartPc} (hpc : s.pc i = q)
    (htx : pc.HoldsTx ↔ q.HoldsTx) (hrx : pc.HoldsRx ↔ q.HoldsRx) : (s.goto i pc).Disciplined :=
  ⟨h.1.moveFrom hpc htx, h.2.moveFrom hpc hrx⟩

theorem UsartPort.Disciplined.takeFirst (h : s.Disciplined) {op : UsartOp}
    (hpc : s.pc i = .take op) : (s.takeFirst i op).Disciplined := by
  have hleave : (s.leave i rvEbusy).Disciplined :=
    h.goto hpc Iff.rfl Iff.rfl
  cases op with
  | transmit =>
      rw [UsartPort.takeFirst]
      split_ifs with hfree
      · exact ⟨(hfree ▸ h.1).take trivial, h.2.moveFrom hpc Iff.rfl⟩
      · exact hleave
  | receive =>
      rw [UsartPort.takeFirst]
      split_ifs with hfree
      · exact ⟨h.1.moveFrom hpc Iff.rfl, (hfree ▸ h.2).take trivial⟩
      · exact hleave
  | transmitReceive =>
      rw [UsartPort.takeFirst]
      split_ifs with hfree
      · exact ⟨(hfree ▸ h.1).take trivial, h.2.moveFrom hpc Iff.rfl⟩
      · exact hleave

/-- The second mutex of `usart_transmit_receive`, where it is free. -/
theorem UsartPort.Disciplined.takeSecond (h : s.Disciplined) (hpc : s.pc i = .takeRx)
    (hfree : s.rxMutex = none) :
    UsartPort.Disciplined { s.goto i (.prepare .transmitReceive) with rxMutex := some i } :=
  ⟨h.1.moveFrom hpc Iff.rfl, (hfree ▸ h.2).take trivial⟩

theorem UsartPort.Disciplined.given (h : s.Disciplined) {op : UsartOp} {rv : ℕ}
    (hpc : s.pc i = .give op rv) : (s.given i rv op).Disciplined := by
  cases op with
  | transmit =>
      exact ⟨h.1.giveFrom hpc trivial id, h.2.moveFrom hpc Iff.rfl⟩
  | receive =>
      exact ⟨h.1.moveFrom hpc Iff.rfl, h.2.giveFrom hpc trivial id⟩
  | transmitReceive =>
      exact ⟨h.1.giveFrom hpc trivial id, h.2.moveFrom hpc Iff.rfl⟩

theorem UsartPort.Disciplined.next (h : s.Disciplined) (hok : SecondFree s (.next i))
    (hs : usartStep mode s (.next i) = some s') : s'.Disciplined := by
  cases hpc : s.pc i with
  | idle => simp only [usartStep, hpc, reduceCtorEq] at hs
  | start op => simp only [usartStep, hpc, reduceCtorEq] at hs
  | take op =>
      simp only [usartStep, hpc, Option.some.injEq] at hs
      exact hs ▸ h.takeFirst hpc
  | takeRx =>
      have hfree := hok hpc
      simp only [usartStep, hpc, if_pos hfree, Option.some.injEq] at hs
      exact hs ▸ h.takeSecond hpc hfree
  | prepare op =>
      simp only [usartStep, hpc, Option.some.injEq] at hs
      have hgoto : (s.goto i (.start op)).Disciplined :=
        h.goto hpc Iff.rfl Iff.rfl
      cases op with
      | _ => exact hs ▸ hgoto
  | wait op =>
      have hgoto : (s.goto i (.give op 0)).Disciplined :=
        h.goto hpc Iff.rfl Iff.rfl
      simp only [usartStep, hpc] at hs
      cases op with
      | _ =>
          rw [UsartPort.woken] at hs
          split_ifs at hs
          cases hs
          exact hgoto
  | give op rv =>
      simp only [usartStep, hpc, Option.some.injEq] at hs
      exact hs ▸ h.given hpc
  | giveRx rv =>
      simp only [usartStep, hpc, Option.some.injEq] at hs
      subst hs
      exact ⟨h.1.moveFrom hpc Iff.rfl, h.2.giveFrom hpc trivial id⟩

theorem UsartPort.Disciplined.step (h : s.Disciplined) (hok : SecondFree s a)
    (hs : usartStep mode s a = some s') : s'.Disciplined := by
  cases a with
  | next i => exact h.next hok hs
  | handler irq =>
      cases hs
      exact h.handler irq
  | call i c =>
      rw [usartStep] at hs
      split_ifs at hs with hidle hvalid
      · cases hs
        exact h.goto hidle Iff.rfl Iff.rfl
      · cases hs
        exact h.goto hidle Iff.rfl Iff.rfl
  | start i rx tx =>
      rw [usartStep] at hs
      split at hs
      · next op hpc =>
          cases hs
          split_ifs
          · exact h.goto hpc Iff.rfl Iff.rfl
          · exact h.goto hpc Iff.rfl Iff.rfl
      · cases hs
  | timeout i =>
      rw [usartStep] at hs
      split at hs
      · next op hpc =>
          cases hs
          exact h.goto hpc Iff.rfl Iff.rfl
      · cases hs

/-- `usart_transmit_receive` that finds the second mutex taken returns with the first. -/
theorem UsartPort.Disciplined.not_keeps (h : s.Disciplined) (hpc : s.pc i = .takeRx)
    (hbusy : s.rxMutex ≠ none) : ¬ KeepsMutexes mode s (.next i) := by
  intro hkeeps
  simp only [KeepsMutexes, usartStep, hpc, if_neg hbusy, Option.some.injEq, forall_eq'] at hkeeps
  exact h.1.not_of_leave (by rw [hpc]; trivial) id hkeeps.1

theorem UsartPort.Disciplined.keeps_iff (h : s.Disciplined) (a : UsartAction ι) :
    KeepsMutexes mode s a ↔ SecondFree s a := by
  refine ⟨fun hkeeps => ?_, fun hok s' hs => h.step hok hs⟩
  cases a with
  | next i =>
      intro hpc
      by_contra hbusy
      exact h.not_keeps hpc hbusy hkeeps
  | _ => trivial

/-- For any number of tasks, every interleaving of their calls and every outcome, the mutexes
are held exactly by the calls in progress throughout if and only if `usart_transmit_receive`
never finds the mutex of the receptions taken. -/
theorem usart_disciplined_iff (mode : UsartMode) (actions : List (UsartAction ι)) :
    Along (KeepsMutexes mode) (usartStep mode) (UsartPort.init ι) actions ↔
      Along SecondFree (usartStep mode) (UsartPort.init ι) actions := by
  have hstep : ∀ (s : UsartPort ι) a s', s.Disciplined → SecondFree s a →
      usartStep mode s a = some s' → s'.Disciplined := fun _ _ _ h hok hs => h.step hok hs
  have hiff : ∀ (s : UsartPort ι) a, s.Disciplined →
      (KeepsMutexes mode s a ↔ SecondFree s a) := fun _ a h => h.keeps_iff a
  exact along_congr hstep hiff .init actions

/-- A receive in progress, and a transmission with reception that gives up on it: the mutex
of the transmissions stays with a task that is not in a call. -/
theorem not_usart_disciplined :
    ¬ ∀ (ι : Type) [DecidableEq ι] (mode : UsartMode) (actions : List (UsartAction ι)),
      Along (KeepsMutexes mode) (usartStep mode) (UsartPort.init ι) actions := by
  intro hall
  have hruns := hall Bool .idle ([.call false (.receive true 1), .next false,
    .call true (.transmitReceive true true 1 1), .next true] ++ [.next true])
  have hkeeps := ((along_append.1 hruns).2 _ rfl).1
  have hdisciplined := hkeeps _ rfl
  exact (hdisciplined.1 true).1 rfl

end Discipline

end Catpilot
