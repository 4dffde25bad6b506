import Catpilot.Cli.Handoff
import Mathlib.Data.List.GetD

/-!
# The reads of the line editor

`cli_echo` handles the bytes of a read one after the other until it leaves the loop.
The executor may cut the line that it gets into arguments in place, so `cmd` holds what
`execute` makes of it when the next byte is handled; this is how the two threads run where
the executor is never late. The sizes of the buffers and the zero bytes at the ends of the
history are kept throughout.
-/

namespace Catpilot

open CString Transition

/-- The strings of the history fill their buffers up to a zero byte at least. -/
def HistoryOk (bufSize historySize : ℕ) (prev : List (List UInt8)) : Prop :=
  prev.length = historySize + 1 ∧
    ∀ s ∈ prev, s.length = bufSize ∧ ∀ c ∈ s.drop (bufSize - 1), c = 0

theorem HistoryOk.getD_mem {bufSize historySize : ℕ} {prev : List (List UInt8)}
    (h : HistoryOk bufSize historySize prev) {i : ℕ} (hi : i ≤ historySize) :
    prev.getD i [] ∈ prev := by
  have hlen : i < prev.length := by
    rw [h.1]
    exact Nat.lt_succ_of_le hi
  rw [List.getD_eq_getElem _ _ hlen]
  exact List.getElem_mem hlen

/-- A string copied into the history. -/
theorem HistoryOk.set {bufSize historySize : ℕ} {prev : List (List UInt8)}
    (h : HistoryOk bufSize historySize prev) {i : ℕ} (hi : i ≤ historySize) (src : List UInt8) :
    HistoryOk bufSize historySize
      (prev.set i (strncpy (prev.getD i []) src (bufSize - 1))) := by
  obtain ⟨hlen, hzero⟩ := h.2 _ (h.getD_mem hi)
  refine ⟨by rw [List.length_set, h.1], fun s hs => ?_⟩
  rcases List.mem_or_eq_of_mem_set hs with hmem | rfl
  · exact h.2 s hmem
  · have hle : bufSize - 1 ≤ (prev.getD i []).length := by
      rw [hlen]
      exact Nat.sub_le ..
    rw [length_strncpy hle, hlen, drop_strncpy]
    exact ⟨rfl, hzero⟩

namespace CliService

/-- The executor has run the line, and the next one begins. -/
def executed (execute : List UInt8 → List UInt8) (cli : CliService) : CliService :=
  { cli with cmd := execute cli.cmd }.submitted

@[simp] theorem executed_cmdLen (execute : List UInt8 → List UInt8) (cli : CliService) :
    (cli.executed execute).cmdLen = 0 := rfl

@[simp] theorem executed_wlen (execute : List UInt8 → List UInt8) (cli : CliService) :
    (cli.executed execute).wlen = cli.wlen := rfl

/-- What `cli_echo` does from `rbuf[i]` on with `n` bytes of a read, and the lines that it
submits. -/
def echoLoop (execute : List UInt8 → List UInt8) :
    CliService → ℕ → ℕ → CliService × List (List UInt8)
  | cli, _, 0 => (cli, [])
  | cli, i, n + 1 =>
      match cli.echoByte i with
      | (cli, .next) => echoLoop execute cli (i + 1) n
      | (cli, .leave) => (cli, [])
      | (cli, .submit) =>
          let r := echoLoop execute (cli.executed execute) (i + 1) n
          (r.1, cstr cli.cmd :: r.2)

/-- `cli_echo` gets `bytes` from a read. -/
def echoRead (execute : List UInt8 → List UInt8) (cli : CliService) (bytes : List UInt8) :
    CliService × List (List UInt8) :=
  echoLoop execute (cli.received bytes) 0 bytes.length

/-- A read as a step; it returns at least one byte and at most `buf_size`. -/
def readStep (execute : List UInt8 → List UInt8) (cli : CliService) (bytes : List UInt8) :
    Option CliService :=
  if 0 < bytes.length ∧ bytes.length ≤ cli.bufSize then some (cli.echoRead execute bytes).1
  else none

/-- The sizes of the buffers, and what is in them for certain. -/
structure Sized (cli : CliService) : Prop where
  rbuf : cli.rbuf.length = cli.bufSize
  wbuf : cli.wbuf.length = cli.bufSize
  cmd : cli.cmd.length = cli.bufSize
  history : HistoryOk cli.bufSize cli.historySize cli.cmdPrev
  two_le : 2 ≤ cli.historySize
  pos : cli.historyPos < cli.historySize
  cmdLen : cli.cmdLen ≤ cli.bufSize

/-- The members that the class of a byte depends on, and the sizes, are the same. -/
structure Alike (cli cli' : CliService) : Prop where
  bufSize : cli'.bufSize = cli.bufSize
  rbuf : cli'.rbuf = cli.rbuf
  rlen : cli'.rlen = cli.rlen

theorem rbuf_drop {cli : CliService} {i : ℕ} (hi : i < cli.rbuf.length) :
    cli.rbuf.drop i = cli.rbuf.getD i 0 :: cli.rbuf.drop (i + 1) := by
  rw [List.getD_eq_getElem _ _ hi]
  exact List.drop_eq_getElem_cons hi

/-- A change to the history is no change to anything else. -/
theorem addToHistory_spec (cli : CliService)
    (h : HistoryOk cli.bufSize cli.historySize cli.cmdPrev) (htwo : 2 ≤ cli.historySize) :
    ∃ prev, cli.addToHistory = { cli with cmdPrev := prev } ∧
      HistoryOk cli.bufSize cli.historySize prev := by
  have hfold : ∀ (ks : List ℕ) (prev : List (List UInt8)),
      HistoryOk cli.bufSize cli.historySize prev → ∃ prev',
        ks.foldl (fun (c : CliService) k =>
          let i := cli.historySize - k
          { c with
            cmdPrev := c.cmdPrev.set i (strncpy (c.prev i) (c.prev (i - 1)) (c.bufSize - 1)) })
          { cli with cmdPrev := prev } = { cli with cmdPrev := prev' } ∧
        HistoryOk cli.bufSize cli.historySize prev' := by
    intro ks
    induction ks with
    | nil => exact fun prev hprev => ⟨prev, rfl, hprev⟩
    | cons k ks ih =>
        intro prev hprev
        exact ih _ (hprev.set (Nat.sub_le ..) (prev.getD (cli.historySize - k - 1) []))
  rw [addToHistory]
  split
  · exact ⟨cli.cmdPrev, rfl, h⟩
  · obtain ⟨prev, hprev, hok⟩ := hfold (List.range (cli.historySize - 1)) cli.cmdPrev h
    refine ⟨_, ?_, hok.set (le_of_lt htwo) cli.cmd⟩
    simp only at hprev
    simp only [hprev]
    rfl

theorem alike_refl (cli : CliService) : Alike cli cli := ⟨rfl, rfl, rfl⟩

theorem Alike.trans {cli cli' cli'' : CliService} (h : Alike cli cli') (h' : Alike cli' cli'') :
    Alike cli cli'' :=
  ⟨h'.bufSize.trans h.bufSize, h'.rbuf.trans h.rbuf, h'.rlen.trans h.rlen⟩

theorem alike_executed (execute : List UInt8 → List UInt8) (cli : CliService) :
    Alike cli (cli.executed execute) := ⟨rfl, rfl, rfl⟩

theorem Alike.kind {cli cli' : CliService} (h : Alike cli cli') : cli'.kind = cli.kind := by
  funext i
  rw [CliService.kind, CliService.kind, h.rbuf, h.rlen]

section Sized

variable {cli : CliService}

/-- A command of the history is shorter than the buffers. -/
theorem Sized.strlen_prev (h : cli.Sized) {i : ℕ} (hi : i ≤ cli.historySize) :
    strlen (cli.prev i) ≤ cli.bufSize - 1 := by
  obtain ⟨-, hzero⟩ := h.history.2 _ (h.history.getD_mem hi)
  exact strlen_le_of_drop hzero

theorem Sized.echo (h : cli.Sized) (c : UInt8) : (cli.echo c).Sized :=
  { h with wbuf := (List.length_set ..).trans h.wbuf }

theorem Sized.recallCommand (h : cli.Sized) {last : List UInt8}
    (hlast : strlen last ≤ cli.bufSize - 1) : (cli.recallCommand last).Sized :=
  { h with
    wbuf := (length_strncpy h.wbuf.ge).trans h.wbuf
    cmd := (length_strncpy h.cmd.ge).trans h.cmd
    cmdLen := hlast.trans (Nat.sub_le ..) }

theorem up_eq (cli : CliService) :
    cli.up = { cli with historyPos := min (cli.historyPos + 1) (cli.historySize - 1) } := by
  rw [up]
  split
  · rename_i hle
    rw [min_eq_right (by omega)]
  · rename_i hlt
    rw [min_eq_left (by omega)]

theorem Sized.up (h : cli.Sized) : cli.up.Sized := by
  have htwo := h.two_le
  have hpos : min (cli.historyPos + 1) (cli.historySize - 1) < cli.historySize := by omega
  rw [up_eq]
  exact { h with pos := hpos }

/-- A line that ends in a carriage return, and goes to the history. -/
theorem Sized.carriageReturn_spec (h : cli.Sized) :
    ∃ prev, cli.carriageReturn =
        { cli with cmd := cli.cmd.set cli.cmdLen 0, cmdPrev := prev } ∧
      HistoryOk cli.bufSize cli.historySize prev := by
  rw [carriageReturn]
  by_cases hlen : cli.cmdLen = 0
  · simp only [hlen, ne_eq, not_true_eq_false, if_false]
    exact ⟨cli.cmdPrev, rfl, h.history⟩
  · obtain ⟨prev, hprev, hok⟩ :=
      addToHistory_spec { cli with cmd := cli.cmd.set cli.cmdLen 0 } h.history h.two_le
    simp only [ne_eq, hlen, not_false_eq_true, if_true]
    exact ⟨prev, hprev, hok⟩

theorem Sized.carriageReturn (h : cli.Sized) : cli.carriageReturn.Sized := by
  obtain ⟨prev, hprev, hok⟩ := h.carriageReturn_spec
  rw [hprev]
  exact { h with cmd := (List.length_set ..).trans h.cmd, history := hok }

/-- What the executor makes of `cmd`, and the next line is empty. -/
theorem Sized.executed (h : cli.Sized) {execute : List UInt8 → List UInt8}
    (hexecute : ∀ cmd, (execute cmd).length = cmd.length) : (cli.executed execute).Sized :=
  { h with
    cmd := (hexecute _).trans h.cmd
    pos := lt_of_lt_of_le Nat.two_pos h.two_le
    cmdLen := Nat.zero_le _ }

theorem Sized.historyUp (h : cli.Sized) : cli.historyUp.1.Sized := by
  have hup := h.up
  have hlast := hup.strlen_prev (le_of_lt hup.pos)
  rw [CliService.historyUp]
  split
  · exact { hup with pos := (Nat.sub_le ..).trans_lt hup.pos }
  · exact hup.recallCommand hlast

theorem Sized.historyDown (h : cli.Sized) : cli.historyDown.1.Sized := by
  have hpos : cli.historyPos - 1 < cli.historySize := (Nat.sub_le ..).trans_lt h.pos
  have hdown : Sized { cli with historyPos := cli.historyPos - 1 } := { h with pos := hpos }
  exact hdown.recallCommand (hdown.strlen_prev (le_of_lt hpos))

theorem Sized.rubout (h : cli.Sized) : cli.rubout.1.Sized := by
  rw [CliService.rubout]
  split
  · exact h
  · have hecho := ((h.echo 0x08).echo 0x20).echo 0x08
    exact { hecho with cmdLen := (Nat.sub_le ..).trans hecho.cmdLen }

theorem Sized.printable (h : cli.Sized) (c : UInt8) : (cli.printable c).1.Sized := by
  have hecho := h.echo c
  rw [CliService.printable]
  split
  · rename_i hlt
    exact { hecho with cmd := (List.length_set ..).trans hecho.cmd, cmdLen := hlt }
  · exact hecho

/-- Every byte keeps it. -/
theorem Sized.echoByte (h : cli.Sized) (i : ℕ) : (cli.echoByte i).1.Sized := by
  rw [CliService.echoByte]
  cases cli.kind i with
  | carriageReturn => exact h.carriageReturn
  | rubout => exact h.rubout
  | historyUp => exact h.historyUp
  | historyDown => exact h.historyDown
  | ignored => exact h
  | printable => exact h.printable _

/-- No byte changes what the class of the other bytes depends on. -/
theorem Sized.alike_echoByte (h : cli.Sized) (i : ℕ) : Alike cli (cli.echoByte i).1 := by
  rw [CliService.echoByte]
  cases cli.kind i with
  | carriageReturn =>
      obtain ⟨prev, hprev, -⟩ := h.carriageReturn_spec
      simp only [hprev]
      exact ⟨rfl, rfl, rfl⟩
  | rubout =>
      simp only [CliService.rubout]
      split
      · exact cli.alike_refl
      · exact ⟨rfl, rfl, rfl⟩
  | historyUp =>
      simp only [CliService.historyUp, up_eq]
      split
      · exact ⟨rfl, rfl, rfl⟩
      · exact ⟨rfl, rfl, rfl⟩
  | historyDown => exact ⟨rfl, rfl, rfl⟩
  | ignored => exact cli.alike_refl
  | printable =>
      simp only [CliService.printable]
      split
      · exact ⟨rfl, rfl, rfl⟩
      · exact ⟨rfl, rfl, rfl⟩

/-- Nor does the rest of a read. -/
theorem Sized.echoLoop (h : cli.Sized) {execute : List UInt8 → List UInt8}
    (hexecute : ∀ cmd, (execute cmd).length = cmd.length) (i n : ℕ) :
    (echoLoop execute cli i n).1.Sized ∧ Alike cli (echoLoop execute cli i n).1 := by
  induction n generalizing cli i with
  | zero => exact ⟨h, cli.alike_refl⟩
  | succ n ih =>
      have hbyte := h.echoByte i
      have halike := h.alike_echoByte i
      rw [CliService.echoLoop]
      rcases hecho : cli.echoByte i with ⟨cli', goOn⟩
      rw [hecho] at hbyte halike
      cases goOn with
      | next =>
          obtain ⟨hsized, hrest⟩ := ih hbyte (i + 1)
          exact ⟨hsized, halike.trans hrest⟩
      | leave => exact ⟨hbyte, halike⟩
      | submit =>
          obtain ⟨hsized, hrest⟩ := ih (hbyte.executed hexecute) (i + 1)
          exact ⟨hsized, (halike.trans (alike_executed execute cli')).trans hrest⟩

/-- A read that fits into `rbuf`. -/
theorem Sized.received (h : cli.Sized) {bytes : List UInt8} (hlen : bytes.length ≤ cli.bufSize) :
    (cli.received bytes).Sized := by
  have hfit : 0 + bytes.length ≤ cli.rbuf.length := by
    rw [Nat.zero_add, h.rbuf]
    exact hlen
  exact { h with rbuf := (Memory.length_memcpy hfit).trans h.rbuf }

/-- A read keeps the sizes. -/
theorem Sized.echoRead (h : cli.Sized) {execute : List UInt8 → List UInt8}
    (hexecute : ∀ cmd, (execute cmd).length = cmd.length) {bytes : List UInt8}
    (hlen : bytes.length ≤ cli.bufSize) :
    (cli.echoRead execute bytes).1.Sized ∧
      (cli.echoRead execute bytes).1.bufSize = cli.bufSize := by
  obtain ⟨hsized, halike⟩ := (h.received hlen).echoLoop hexecute 0 bytes.length
  exact ⟨hsized, halike.bufSize⟩

theorem Sized.readStep (h : cli.Sized) {execute : List UInt8 → List UInt8}
    (hexecute : ∀ cmd, (execute cmd).length = cmd.length) {bytes : List UInt8}
    {cli' : CliService} (hstep : cli.readStep execute bytes = some cli') : cli'.Sized := by
  rw [CliService.readStep] at hstep
  split at hstep
  · rename_i hlen
    cases hstep
    exact (h.echoRead hexecute hlen.2).1
  · cases hstep

end Sized

end CliService

namespace Handoff

section Waiting

variable {cli : CliService} {execute : List UInt8 → List UInt8}

/-- The executor waits for a broadcast, and has executed the lines `executed`. -/
def waiting (cli : CliService) (echo : EchoPc) (submitted executed : List (List UInt8)) :
    Handoff where
  cli := cli
  mutex := none
  iWaitingThreads := 1
  xCondWaitSemaphore := 0
  echo := echo
  invoker := .take
  submitted := submitted
  executed := executed

/-- A line is broadcast, and executed at once. -/
theorem run_executed (cli : CliService) (execute : List UInt8 → List UInt8) (i : ℕ)
    (submitted executed : List (List UInt8)) :
    run (step execute) (waiting cli (.lock i) submitted executed)
        ([.echo, .echo, .echo] ++ List.replicate 6 .invoke) =
      some (waiting (cli.executed execute) (.handle (i + 1)) submitted
        (executed ++ [cstr cli.cmd])) := rfl

/-- A run of the two threads in which the executor never lets `cli_echo` wait does with a read
what `echoLoop` says. -/
theorem exists_run_echoLoop (h : cli.Sized)
    (hexecute : ∀ cmd, (execute cmd).length = cmd.length) {i n : ℕ} (hn : i + n = cli.rlen)
    (submitted executed : List (List UInt8)) :
    ∃ steps, run (step execute) (waiting cli (.handle i) submitted executed) steps =
      some (waiting (CliService.echoLoop execute cli i n).1 .read
        (submitted ++ (CliService.echoLoop execute cli i n).2)
        (executed ++ (CliService.echoLoop execute cli i n).2)) := by
  induction n generalizing cli i submitted executed with
  | zero =>
      have hdone : ¬ i < cli.rlen := by omega
      refine ⟨[.echo], ?_⟩
      simp only [run_cons, step, echoStep, waiting, hdone, if_false, CliService.echoLoop,
        List.append_nil]
      rfl
  | succ n ih =>
      have hi : i < cli.rlen := by omega
      have hsized := h.echoByte i
      have halike := h.alike_echoByte i
      have hstep : step execute (waiting cli (.handle i) submitted executed) .echo =
          some ((waiting cli (.handle i) submitted executed).handleByte i) :=
        congrArg some (if_pos hi)
      rw [CliService.echoLoop]
      rcases hecho : cli.echoByte i with ⟨cli', goOn⟩
      have hr : (waiting cli (.handle i) submitted executed).cli.echoByte i = (cli', goOn) := hecho
      rw [hecho] at hsized halike
      have hrest : i + 1 + n = cli'.rlen := by
        have hrlen : cli'.rlen = cli.rlen := halike.rlen
        omega
      rw [handleByte, hr] at hstep
      cases goOn with
      | next =>
          obtain ⟨steps, hrun⟩ := ih hsized hrest submitted executed
          exact ⟨.echo :: steps, run_cons_eq_some.2 ⟨_, hstep, hrun⟩⟩
      | leave =>
          refine ⟨[.echo], run_cons_eq_some.2 ⟨_, hstep, ?_⟩⟩
          rw [List.append_nil, List.append_nil]
          rfl
      | submit =>
          have hexecuted := run_executed cli' execute i (submitted ++ [cstr cli'.cmd]) executed
          obtain ⟨steps, hrun⟩ := ih (hsized.executed hexecute) hrest
            (submitted ++ [cstr cli'.cmd]) (executed ++ [cstr cli'.cmd])
          refine ⟨.echo :: (_ ++ steps), run_cons_eq_some.2 ⟨_, hstep,
            run_append_eq_some.2 ⟨_, hexecuted, ?_⟩⟩⟩
          rw [hrun, List.append_assoc, List.append_assoc]
          rfl

end Waiting

end Handoff

/-- The buffers as they are allocated. -/
theorem cliServiceStart_sized (bufSize : ℕ) {historySize : ℕ} (h : 2 ≤ historySize) :
    (cliServiceStart bufSize historySize).Sized where
  rbuf := List.length_replicate
  wbuf := List.length_replicate
  cmd := List.length_replicate
  history := by
    have hmax : (cliServiceStart bufSize historySize).historySize = historySize := max_eq_left h
    rw [hmax]
    refine ⟨List.length_replicate, fun s hs => ?_⟩
    rw [List.eq_of_mem_replicate hs]
    exact ⟨List.length_replicate, fun c hc => List.eq_of_mem_replicate (List.mem_of_mem_drop hc)⟩
  two_le := h.trans (le_max_left _ _)
  pos := lt_of_lt_of_le Nat.two_pos (h.trans (le_max_left _ _))
  cmdLen := Nat.zero_le _

end Catpilot
