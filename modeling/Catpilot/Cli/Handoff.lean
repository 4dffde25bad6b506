import Catpilot.Cli.Editor
import Catpilot.Transition.Run

/-!
# Handing command lines over to the executor

`cli_echo` and `cli_invoker` share the buffer `cmd`, a mutex and a condition variable.
The threads take turns at their mutex and condition-variable operations, and at each
byte of a read. `pthread_cond_t` is as in FreeRTOS-Plus-POSIX: a counter of waiting
threads and a counting semaphore; a broadcast gives the semaphore once for each thread
counted. The two lists of lines are not part of the program: they record what was
submitted and what was executed.
-/

namespace Catpilot

open Transition CString

/-- The two threads of the service. -/
inductive CliThread where
  | echo
  | invoker
  deriving DecidableEq, Repr

/-- Where `cli_echo` stands: in its read, before a byte of the read, or at one of the
three operations after a carriage return, with the index of that byte. -/
inductive EchoPc where
  | read
  | handle (i : ℕ)
  | lock (i : ℕ)
  | broadcast (i : ℕ)
  | unlock (i : ℕ)
  deriving DecidableEq, Repr

/-- Where `cli_invoker` stands; `take` and `relock` are inside `pthread_cond_wait`. -/
inductive InvokerPc where
  | lock
  | condWait
  | take
  | relock
  | execute
  | unlock
  deriving DecidableEq, Repr

/-- A line is submitted but not broadcast yet. -/
def EchoPc.AtHand : EchoPc → Prop
  | .lock _ | .broadcast _ => True
  | _ => False

/-- `cli_echo` holds the mutex. -/
def EchoPc.Locked : EchoPc → Prop
  | .broadcast _ | .unlock _ => True
  | _ => False

/-- `cli_invoker` has taken a broadcast and not executed the line. -/
def InvokerPc.Woken : InvokerPc → Prop
  | .relock | .execute => True
  | _ => False

instance (pc : InvokerPc) : Decidable pc.Woken :=
  match pc with
  | .relock | .execute => isTrue trivial
  | .lock | .condWait | .take | .unlock => isFalse id

/-- `cli_invoker` holds the mutex. -/
def InvokerPc.Locked : InvokerPc → Prop
  | .condWait | .execute | .unlock => True
  | _ => False

/-- The state of the service. -/
structure Handoff where
  cli : CliService
  mutex : Option CliThread
  iWaitingThreads : ℕ
  xCondWaitSemaphore : ℕ
  echo : EchoPc
  invoker : InvokerPc
  submitted : List (List UInt8)
  executed : List (List UInt8)
  deriving DecidableEq, Repr

/-- The service after `cli_service_start`. -/
def handoffStart (bufSize historySize : ℕ) : Handoff where
  cli := cliServiceStart bufSize historySize
  mutex := none
  iWaitingThreads := 0
  xCondWaitSemaphore := 0
  echo := .read
  invoker := .lock
  submitted := []
  executed := []

/-- A step: a read of `cli_echo` returns, or one of the threads goes on. -/
inductive HandoffStep where
  | read (bytes : List UInt8)
  | echo
  | invoke
  deriving DecidableEq, Repr

namespace Handoff

/-- `cli_echo` handles the byte `rbuf[i]`. -/
def handleByte (s : Handoff) (i : ℕ) : Handoff :=
  let r := s.cli.echoByte i
  match r.2 with
  | .next => { s with cli := r.1, echo := .handle (i + 1) }
  | .leave => { s with cli := r.1, echo := .read }
  | .submit =>
      { s with cli := r.1, echo := .lock i, submitted := s.submitted ++ [cstr r.1.cmd] }

/-- The next step of `cli_echo`, but for its read. -/
def echoStep (s : Handoff) : Option Handoff :=
  match s.echo with
  | .read => none
  | .handle i => some (if i < s.cli.rlen then s.handleByte i else { s with echo := .read })
  | .lock i => if s.mutex = none then some { s with mutex := some .echo, echo := .broadcast i }
      else none
  | .broadcast i => some { s with
      xCondWaitSemaphore := s.xCondWaitSemaphore + s.iWaitingThreads
      iWaitingThreads := 0
      echo := .unlock i }
  | .unlock i => some { s with mutex := none, cli := s.cli.submitted, echo := .handle (i + 1) }

/-- The next step of `cli_invoker`. `execute` gives the bytes of `cmd` after
`cli_cmd_execute`, which cuts the line into arguments in place and hands them to a
command. -/
def invokerStep (execute : List UInt8 → List UInt8) (s : Handoff) : Option Handoff :=
  match s.invoker with
  | .lock => if s.mutex = none then some { s with mutex := some .invoker, invoker := .condWait }
      else none
  | .condWait => some { s with
      iWaitingThreads := s.iWaitingThreads + 1
      mutex := none
      invoker := .take }
  | .take => if 0 < s.xCondWaitSemaphore then
      some { s with xCondWaitSemaphore := s.xCondWaitSemaphore - 1, invoker := .relock }
      else none
  | .relock => if s.mutex = none then some { s with mutex := some .invoker, invoker := .execute }
      else none
  | .execute => some { s with
      executed := s.executed ++ [cstr s.cli.cmd]
      cli := { s.cli with cmd := execute s.cli.cmd }
      invoker := .unlock }
  | .unlock => some { s with mutex := none, invoker := .lock }

/-- A step of the service. A read returns at most `buf_size` bytes. -/
def step (execute : List UInt8 → List UInt8) (s : Handoff) : HandoffStep → Option Handoff
  | .read bytes =>
      if s.echo = .read ∧ bytes.length ≤ s.cli.bufSize then
        some { s with cli := s.cli.received bytes, echo := .handle 0 }
      else none
  | .echo => s.echoStep
  | .invoke => s.invokerStep execute

/-- A broadcast has reached the executor, which has not executed the line yet. -/
def Pending (s : Handoff) : Prop := 0 < s.xCondWaitSemaphore ∨ s.invoker.Woken

instance (s : Handoff) : Decidable s.Pending :=
  inferInstanceAs (Decidable (0 < s.xCondWaitSemaphore ∨ s.invoker.Woken))

/-- All input is handled, and the executor can only wait for a broadcast. -/
def Settled (execute : List UInt8 → List UInt8) (s : Handoff) : Prop :=
  s.echo = .read ∧ s.invokerStep execute = none

instance (execute : List UInt8 → List UInt8) (s : Handoff) : Decidable (s.Settled execute) :=
  inferInstanceAs (Decidable (s.echo = .read ∧ s.invokerStep execute = none))

/-- Lines are executed once each, in the order and with the text of their submission:
at any time those executed are the first ones submitted, and once the service has
settled they are all of them. -/
def HandedOver (execute : List UInt8 → List UInt8) (s : Handoff) : Prop :=
  s.executed <+: s.submitted ∧ (s.Settled execute → s.executed = s.submitted)

/-- The condition on a step: `cmd` is not edited while a line is pending, and a line is
broadcast only when the executor is counted as waiting. -/
def InTurn (s : Handoff) : HandoffStep → Prop
  | .echo =>
      match s.echo with
      | .handle i => i < s.cli.rlen → s.Pending → ¬ s.cli.Edits i
      | .broadcast _ => 0 < s.iWaitingThreads
      | _ => True
  | _ => True

instance (s : Handoff) (a : HandoffStep) : Decidable (s.InTurn a) :=
  match a with
  | .read _ | .invoke => isTrue trivial
  | .echo =>
      match h : s.echo with
      | .handle i => decidable_of_iff (i < s.cli.rlen → s.Pending → ¬ s.cli.Edits i)
          (by simp only [InTurn, h])
      | .broadcast _ => decidable_of_iff (0 < s.iWaitingThreads) (by simp only [InTurn, h])
      | .read | .lock _ | .unlock _ => isTrue (by simp only [InTurn, h])

end Handoff

end Catpilot
