import Catpilot.CString.Basic

/-!
# The line editor of the command line

What `cli_echo` of `services/cli/service.c` does with one byte of a read. The thread
around it, with its locking, is in `Cli/Handoff.lean`. A read leaves the rest of
`rbuf` as it was, and the comparisons with escape sequences may look at that rest.
What is written to the terminal is not part of the state, apart from `wbuf`.
-/

namespace Catpilot

open CString

/-- `struct cli_service`, without its mutex and condition variable. -/
structure CliService where
  bufSize : ℕ
  rbuf : List UInt8
  wbuf : List UInt8
  cmd : List UInt8
  cmdPrev : List (List UInt8)
  rlen : ℕ
  wlen : ℕ
  cmdLen : ℕ
  historySize : ℕ
  historyPos : ℕ
  deriving DecidableEq, Repr

/-- The allocations of `cli_service_start`. -/
def cliServiceStart (bufSize historySize : ℕ) : CliService where
  bufSize := bufSize
  rbuf := List.replicate bufSize 0
  wbuf := List.replicate bufSize 0
  cmd := List.replicate bufSize 0
  cmdPrev := List.replicate (historySize + 1) (List.replicate bufSize 0)
  rlen := 0
  wlen := 0
  cmdLen := 0
  historySize := max historySize 2
  historyPos := 0

/-- The classes of a received byte, in the order of the tests of `cli_echo`. -/
inductive EchoKind where
  | carriageReturn
  | rubout
  | historyUp
  | historyDown
  | ignored
  | printable
  deriving DecidableEq, Repr

/-- How the loop over the bytes of a read goes on after a byte. -/
inductive EchoNext where
  | next
  | leave
  | submit
  deriving DecidableEq, Repr

namespace CliService

/-- `cmd_prev[i]`. -/
def prev (cli : CliService) (i : ℕ) : List UInt8 := cli.cmdPrev.getD i []

/-- `cli_add_to_history`. -/
def addToHistory (cli : CliService) : CliService :=
  if strncmpEq (cli.prev 1) cli.cmd (cli.bufSize - 1) then cli
  else
    -- i goes from the history size down to 2
    let shifted := (List.range (cli.historySize - 1)).foldl (fun (c : CliService) k =>
      let i := cli.historySize - k
      { c with cmdPrev := c.cmdPrev.set i (strncpy (c.prev i) (c.prev (i - 1)) (c.bufSize - 1)) })
      cli
    { shifted with
      cmdPrev := shifted.cmdPrev.set 1 (strncpy (shifted.prev 1) cli.cmd (cli.bufSize - 1)) }

/-- `cli_get_last_command`. -/
def getLastCommand (cli : CliService) : List UInt8 := cli.prev cli.historyPos

/-- The class of the byte `rbuf[i]`. -/
def kind (cli : CliService) (i : ℕ) : EchoKind :=
  let c := cli.rbuf.getD i 0
  if c = 0x0D then .carriageReturn
  else if c = 0x08 ∨ c = 0x7F ∨ strncmpEq [0x1B, 0x5B, 0x33, 0x7E] (cli.rbuf.drop i) 4 then .rubout
  else if strncmpEq cli.rbuf [0x1B, 0x5B, 0x41] cli.rlen ∨
      strncmpEq cli.rbuf [0x5B, 0x41] cli.rlen then .historyUp
  else if strncmpEq cli.rbuf [0x1B, 0x5B, 0x42] cli.rlen ∨
      strncmpEq cli.rbuf [0x5B, 0x42] cli.rlen then .historyDown
  else if c < 0x20 ∨ 127 < c then .ignored
  else .printable

/-- A byte put to `wbuf`. A store behind `wbuf` is left out here; `wlen` tells of it. -/
def echo (cli : CliService) (c : UInt8) : CliService :=
  { cli with wbuf := cli.wbuf.set cli.wlen c, wlen := cli.wlen + 1 }

/-- The line is replaced by one of the history. -/
def recallCommand (cli : CliService) (last : List UInt8) : CliService :=
  { cli with
    wbuf := strncpy cli.wbuf last cli.bufSize
    cmd := strncpy cli.cmd last cli.bufSize
    wlen := strlen last
    cmdLen := strlen last }

/-- A carriage return, up to the locking of the mutex. -/
def carriageReturn (cli : CliService) : CliService :=
  let cli := { cli with cmd := cli.cmd.set cli.cmdLen 0 }
  if cli.cmdLen ≠ 0 then cli.addToHistory else cli

/-- After the mutex is unlocked again. -/
def submitted (cli : CliService) : CliService := { cli with cmdLen := 0, historyPos := 0 }

def rubout (cli : CliService) : CliService × EchoNext :=
  if cli.cmdLen = 0 then (cli, .leave)
  else
    let cli := ((cli.echo 0x08).echo 0x20).echo 0x08
    ({ cli with cmdLen := cli.cmdLen - 1 }, .next)

/-- The next position of the history. -/
def up (cli : CliService) : CliService :=
  if cli.historySize ≤ cli.historyPos + 1 then { cli with historyPos := cli.historySize - 1 }
  else { cli with historyPos := cli.historyPos + 1 }

def historyUp (cli : CliService) : CliService × EchoNext :=
  let cli := cli.up
  if strlen cli.getLastCommand = 0 then ({ cli with historyPos := cli.historyPos - 1 }, .leave)
  else (cli.recallCommand cli.getLastCommand, .leave)

def historyDown (cli : CliService) : CliService × EchoNext :=
  -- the position before 0 is set to 0
  let cli := { cli with historyPos := cli.historyPos - 1 }
  (cli.recallCommand cli.getLastCommand, .leave)

def printable (cli : CliService) (c : UInt8) : CliService × EchoNext :=
  let cli := cli.echo c
  if cli.cmdLen < cli.bufSize then
    ({ cli with cmd := cli.cmd.set cli.cmdLen c, cmdLen := cli.cmdLen + 1 }, .next)
  else (cli, .next)

/-- The body of the loop of `cli_echo` on `rbuf[i]`; a carriage return goes up to the
locking of the mutex. -/
def echoByte (cli : CliService) (i : ℕ) : CliService × EchoNext :=
  match cli.kind i with
  | .carriageReturn => (cli.carriageReturn, .submit)
  | .rubout => cli.rubout
  | .historyUp => cli.historyUp
  | .historyDown => cli.historyDown
  | .ignored => (cli, .leave)
  | .printable => cli.printable (cli.rbuf.getD i 0)

/-- A read returns `bytes`. -/
def received (cli : CliService) (bytes : List UInt8) : CliService :=
  { cli with
    rbuf := Memory.memcpy cli.rbuf 0 bytes
    rlen := bytes.length
    wlen := 0 }

/-- The byte `rbuf[i]` makes the editor write to `cmd`. -/
def Edits (cli : CliService) (i : ℕ) : Prop :=
  match cli.kind i with
  | .carriageReturn | .historyDown => True
  | .historyUp => strlen cli.up.getLastCommand ≠ 0
  | .printable => cli.cmdLen < cli.bufSize
  | .rubout | .ignored => False

instance (cli : CliService) (i : ℕ) : Decidable (cli.Edits i) :=
  match h : cli.kind i with
  | .carriageReturn | .historyDown => isTrue (by simp only [Edits, h])
  | .historyUp => decidable_of_iff (strlen cli.up.getLastCommand ≠ 0) (by simp only [Edits, h])
  | .printable => decidable_of_iff (cli.cmdLen < cli.bufSize) (by simp only [Edits, h])
  | .rubout | .ignored => isFalse (by simp only [Edits, h, not_false_eq_true])

theorem rubout_spec (cli : CliService) : cli.rubout.1.cmd = cli.cmd ∧ cli.rubout.2 ≠ .submit := by
  rw [rubout]
  split
  · exact ⟨rfl, nofun⟩
  · exact ⟨rfl, nofun⟩

theorem up_cmd (cli : CliService) : cli.up.cmd = cli.cmd := by
  rw [up]
  split
  · rfl
  · rfl

/-- Only a carriage return submits a line. -/
theorem echoByte_submit {cli : CliService} {i : ℕ} (h : (cli.echoByte i).2 = .submit) :
    cli.kind i = .carriageReturn := by
  cases hk : cli.kind i with
  | carriageReturn => rfl
  | rubout =>
      rw [echoByte, hk] at h
      exact absurd h cli.rubout_spec.2
  | historyUp =>
      simp only [echoByte, hk, historyUp] at h
      split at h <;> cases h
  | historyDown => simp only [echoByte, hk, historyDown, reduceCtorEq] at h
  | ignored => simp only [echoByte, hk, reduceCtorEq] at h
  | printable =>
      simp only [echoByte, hk, printable] at h
      split at h <;> cases h

/-- A byte that is not an edit leaves the line as it is. -/
theorem echoByte_cmd_of_not_edits {cli : CliService} {i : ℕ} (h : ¬ cli.Edits i) :
    (cli.echoByte i).1.cmd = cli.cmd := by
  cases hk : cli.kind i with
  | carriageReturn => exact absurd trivial (by simpa only [Edits, hk] using h)
  | rubout =>
      rw [echoByte, hk]
      exact cli.rubout_spec.1
  | historyUp =>
      have hempty : strlen cli.up.getLastCommand = 0 := by
        simpa only [Edits, hk, ne_eq, not_not] using h
      simp only [echoByte, hk, historyUp, if_pos hempty, up_cmd]
  | historyDown => exact absurd trivial (by simpa only [Edits, hk] using h)
  | ignored => simp only [echoByte, hk]
  | printable =>
      have hfull : ¬ cli.cmdLen < cli.bufSize := by simpa only [Edits, hk] using h
      simp only [echoByte, hk, printable]
      exact congrArg (fun r : CliService × EchoNext => r.1.cmd) (if_neg hfull)

end CliService

end Catpilot
