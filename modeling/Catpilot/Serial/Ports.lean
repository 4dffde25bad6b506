import Catpilot.Posix.Errno
import Catpilot.Transition.Run
import Mathlib.Data.Int.Notation

/-!
# Opening and closing serial ports

`open` and `close` of the USART and the USB drivers, which agree but for an assignment to
`errno` that has no effect. The first open creates the tasks of the port; every later one
returns before it sets `port_open`.
-/

namespace Catpilot

open Transition

/-- What the opens and closes of `usart_t` and `usb_t` read and write; `readBuf` and
`writeBuf` say that the ring buffers exist, and `tasks` counts the tasks created. -/
structure SerialPort where
  bufSize : ℤ
  readBuf : Bool
  writeBuf : Bool
  stdio : Bool
  tasksInit : Bool
  portOpen : Bool
  tasks : ℕ
  deriving DecidableEq, Repr

/-- The open of both drivers: the result, `errno` and the port. -/
def serialOpen (p : SerialPort) : ℤ × Errno × SerialPort :=
  if p.portOpen ∧ ¬ p.stdio then (-1, .eacces, p)
  else if p.tasksInit then (0, .ok, p)
  else if p.bufSize ≤ 0 then (-1, .einval, p)
  else if ¬ p.readBuf ∨ ¬ p.writeBuf then (-1, .enomem, p)
  else (0, .ok, { p with tasksInit := true, portOpen := true, tasks := p.tasks + 2 })

/-- The close of both drivers. -/
def serialClose (p : SerialPort) : ℤ × Errno × SerialPort :=
  if p.portOpen then (0, .ok, { p with portOpen := false }) else (0, .enoent, p)

/-- `usart_open`. -/
def usartOpen : SerialPort → ℤ × Errno × SerialPort := serialOpen

/-- `usart_close`. -/
def usartClose : SerialPort → ℤ × Errno × SerialPort := serialClose

/-- `usb_open`. -/
def usbOpen : SerialPort → ℤ × Errno × SerialPort := serialOpen

/-- `usb_close`. -/
def usbClose : SerialPort → ℤ × Errno × SerialPort := serialClose

/-- The two drivers. -/
inductive SerialDriver where
  | usart
  | usb
  deriving DecidableEq, Repr

/-- The open of a driver. -/
def SerialDriver.open : SerialDriver → SerialPort → ℤ × Errno × SerialPort
  | usart => usartOpen
  | usb => usbOpen

/-- The close of a driver. -/
def SerialDriver.close : SerialDriver → SerialPort → ℤ × Errno × SerialPort
  | usart => usartClose
  | usb => usbClose

/-! ## Runs -/

/-- A call on a port. -/
inductive PortCall where
  | open
  | close
  deriving DecidableEq, Repr

/-- A port with the number of its open handles and of the opens that have succeeded. -/
structure PortRun where
  port : SerialPort
  handles : ℕ
  opens : ℕ
  deriving DecidableEq, Repr

/-- A port before its first call; the buffers and their size are any. -/
def PortRun.start (bufSize : ℤ) (readBuf writeBuf : Bool) : PortRun where
  port :=
    { bufSize, readBuf, writeBuf, stdio := false, tasksInit := false, portOpen := false,
      tasks := 0 }
  handles := 0
  opens := 0

/-- The port can be opened at all. -/
def SerialPort.Usable (p : SerialPort) : Prop := 0 < p.bufSize ∧ p.readBuf ∧ p.writeBuf

section Runs

variable (driver : SerialDriver)

/-- A call on the port. -/
def portStep (s : PortRun) : PortCall → Option PortRun
  | .open =>
      let (rv, _, port) := driver.open s.port
      if rv = 0 then some ⟨port, s.handles + 1, s.opens + 1⟩ else some { s with port := port }
  | .close =>
      let (_, _, port) := driver.close s.port
      some { s with port := port, handles := s.handles - 1 }

/-- An open succeeds exactly when no handle is open. -/
def Exclusive (s : PortRun) : Prop := (driver.open s.port).1 = 0 ↔ s.handles = 0

end Runs

section Proofs

variable {driver : SerialDriver} {s s' : PortRun} {bufSize : ℤ} {readBuf writeBuf : Bool}

theorem SerialDriver.open_eq (p : SerialPort) : driver.open p = serialOpen p := by
  cases driver with
  | _ => rfl

theorem SerialDriver.close_eq (p : SerialPort) : driver.close p = serialClose p := by
  cases driver with
  | _ => rfl

/-- Whether the open flag and the tasks are in step with the handles. -/
structure PortInv (s : PortRun) : Prop where
  stdio : s.port.stdio = false
  tasksInit : s.port.tasksInit = true ↔ 0 < s.opens
  usable : 0 < s.opens → s.port.Usable
  portOpen : s.port.portOpen = true ↔ s.opens = 1 ∧ s.handles = 1
  handles : s.handles ≤ s.opens

/-- An open outside of the standard streams succeeds when the flag is clear and either the
tasks run already or the port is usable. -/
theorem serialOpen_eq_zero_iff {p : SerialPort} (h : p.stdio = false) :
    (serialOpen p).1 = 0 ↔ p.portOpen = false ∧ (p.tasksInit = true ∨ p.Usable) := by
  rw [serialOpen, SerialPort.Usable, h]
  cases p.portOpen with
  | true => simp
  | false =>
      cases p.tasksInit with
      | true => simp
      | false =>
          by_cases hsize : p.bufSize ≤ 0
          · simp [hsize, Int.not_lt.2 hsize]
          · cases p.readBuf with
            | true => cases p.writeBuf <;> simp [hsize, Int.not_le.1 hsize]
            | false => simp [hsize]

/-- What an open that succeeds leaves of the port. -/
theorem serialOpen_port {p : SerialPort} (h : (serialOpen p).1 = 0) :
    (serialOpen p).2.2 =
      if p.tasksInit then p
      else { p with tasksInit := true, portOpen := true, tasks := p.tasks + 2 } := by
  rw [serialOpen] at h ⊢
  split_ifs at h ⊢
  all_goals first | rfl | exact absurd h (by simp)

/-- A refused open changes nothing. -/
theorem serialOpen_refused {p : SerialPort} (h : (serialOpen p).1 ≠ 0) :
    (serialOpen p).2.2 = p := by
  rw [serialOpen] at h ⊢
  split_ifs at h ⊢
  all_goals first | rfl | exact absurd rfl h

theorem PortInv.start : PortInv (PortRun.start bufSize readBuf writeBuf) where
  stdio := rfl
  tasksInit := by simp [PortRun.start]
  usable := by simp [PortRun.start]
  portOpen := by simp [PortRun.start]
  handles := Nat.le_refl 0

theorem PortInv.open (h : PortInv s) (hs : portStep driver s .open = some s') : PortInv s' := by
  simp only [portStep, driver.open_eq] at hs
  split_ifs at hs with hrv
  · cases hs
    obtain ⟨hclear, hready⟩ := (serialOpen_eq_zero_iff h.stdio).1 hrv
    rw [serialOpen_port hrv]
    cases htasks : s.port.tasksInit with
    | true =>
        -- a later open: the flag stays clear
        have hopens := h.tasksInit.1 htasks
        refine ⟨h.stdio, ?_, fun _ => h.usable hopens, ?_, ?_⟩
        · simp [htasks]
        · simp only [if_true, hclear, Bool.false_eq_true, false_iff]
          omega
        · exact Nat.succ_le_succ h.handles
    | false =>
        have hopens : s.opens = 0 := by
          have hpos := mt h.tasksInit.2 (by rw [htasks]; decide)
          omega
        have hhandles : s.handles = 0 := by
          have hle := h.handles
          omega
        have husable : s.port.Usable := by
          rcases hready with hready | hready
          · rw [htasks] at hready
            cases hready
          · exact hready
        refine ⟨h.stdio, ?_, fun _ => husable, ?_, ?_⟩
        · simp
        · simp [hopens, hhandles]
        · exact Nat.succ_le_succ h.handles
  · cases hs
    rw [serialOpen_refused hrv]
    exact h

theorem PortInv.close (h : PortInv s) (hs : portStep driver s .close = some s') : PortInv s' := by
  simp only [portStep, driver.close_eq, serialClose] at hs
  cases hopen : s.port.portOpen with
  | true =>
      rw [if_pos hopen] at hs
      cases hs
      obtain ⟨hopens, hhandles⟩ := h.portOpen.1 hopen
      refine ⟨h.stdio, h.tasksInit, h.usable, ?_, ?_⟩
      · simp [hhandles]
      · dsimp only
        omega
  | false =>
      rw [hopen, if_neg (by decide)] at hs
      cases hs
      have hnot := mt h.portOpen.2 (by rw [hopen]; decide)
      have hle := h.handles
      refine ⟨h.stdio, h.tasksInit, h.usable, ?_, ?_⟩
      · simp only [hopen, Bool.false_eq_true, false_iff]
        omega
      · dsimp only
        omega

theorem PortInv.step {c : PortCall} (h : PortInv s) (hs : portStep driver s c = some s') :
    PortInv s' := by
  cases c with
  | «open» => exact h.open hs
  | close => exact h.close hs

/-- After any calls, an open succeeds exactly when no handle is open, if and only if the port
is usable and no handle is open that came from another open than the first. -/
theorem exclusive_iff {calls : List PortCall}
    (hrun : run (portStep driver) (PortRun.start bufSize readBuf writeBuf) calls = some s) :
    Exclusive driver s ↔ s.port.Usable ∧ (s.handles = 0 ∨ s.opens ≤ 1) := by
  have h : PortInv s := run_invariant (fun _ _ _ hs hstep => hs.step hstep) PortInv.start hrun
  have hle := h.handles
  have hflag : s.port.portOpen = false ↔ ¬ (s.opens = 1 ∧ s.handles = 1) := by
    rw [← h.portOpen, Bool.not_eq_true]
  rw [Exclusive, driver.open_eq, serialOpen_eq_zero_iff h.stdio, hflag, h.tasksInit]
  by_cases husable : s.port.Usable
  · simp only [husable, or_true, and_true, true_and]
    omega
  · have hopens : ¬ 0 < s.opens := mt h.usable husable
    simp only [husable, or_false, false_and, iff_false]
    omega

/-- The port of 250 bytes after its first open. -/
theorem exclusive_first_open :
    Exclusive .usart ⟨⟨250, true, true, false, true, true, 2⟩, 1, 1⟩ ↔
      SerialPort.Usable ⟨250, true, true, false, true, true, 2⟩ ∧ (1 = 0 ∨ 1 ≤ 1) := by
  have hrun : run (portStep .usart) (PortRun.start 250 true true) [.open] =
      some ⟨⟨250, true, true, false, true, true, 2⟩, 1, 1⟩ := rfl
  exact exclusive_iff hrun

/-- After a re-open a further open succeeds, although a handle is open. -/
theorem not_exclusive :
    ¬ ∀ (driver : SerialDriver) (bufSize : ℤ) (readBuf writeBuf : Bool) (calls : List PortCall)
      (s : PortRun), run (portStep driver) (PortRun.start bufSize readBuf writeBuf) calls = some s →
        Exclusive driver s := by
  intro hall
  have hexclusive := hall .usart 250 true true [.open, .close, .open]
    ⟨⟨250, true, true, false, true, false, 2⟩, 1, 2⟩ rfl
  exact absurd (hexclusive.1 rfl) (by decide)

end Proofs

end Catpilot
