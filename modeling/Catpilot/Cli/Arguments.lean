import Catpilot.Cli.Dispatch
import Catpilot.Cli.Reads
import Mathlib.Computability.StateTransition

/-!
# The arguments of a command

The array that `cli_cmd_execute` passes to a handler, against the words of the line, and the
index into it. A word at the end of the line, with no space behind it, is cut at
`CLI_MAX_NAME_LENGTH` and its rest is taken as further arguments.
-/

namespace Catpilot

open CString StateTransition Transition

/-! ## The words of the line -/

/-- `argc` and `argv` are those of the words of the line, and the null pointer behind them is
in the array. -/
structure SplitsLine (argv : List (List UInt8)) (line : List UInt8) : Prop where
  argc : argv.length = (words space (cstr line)).length
  args : argv.map cstr = words space (cstr line)
  null : argv.length < cliMaxArgs

section Words

variable {mem cmd : List UInt8} {slots : ℕ} {argv : List (List UInt8)}

theorem argvLoop_succ (cmd mem : List UInt8) (slots : ℕ) :
    argvLoop cmd (slots + 1) (some mem) =
      (cliCmdGetToken cmd (some mem) .replaceSpace).start.elim (some []) fun arg =>
        (argvLoop cmd slots (some (cliCmdGetToken cmd (some mem) .replaceSpace).context)).map
          fun argv => arg :: argv := by
  rw [argvLoop]
  cases (cliCmdGetToken cmd (some mem) .replaceSpace).start with
  | none => rfl
  | some arg => rfl

/-- The number of the arguments. -/
theorem length_argvLoop (h : argvLoop cmd slots (some mem) = some argv) :
    argv.length = argCount (cstr mem) := by
  induction slots generalizing mem argv with
  | zero => cases h
  | succ slots ih =>
      rw [argvLoop_succ] at h
      rcases token_cases cmd mem with ⟨hnone, hcount⟩ | ⟨arg, harg, hcount⟩
      · rw [hnone, Option.elim_none, Option.some.injEq] at h
        rw [← h, hcount, List.length_nil]
      · rw [harg, Option.elim_some, Option.map_eq_some_iff] at h
        obtain ⟨rest, hrest, rfl⟩ := h
        rw [List.length_cons, ih hrest, hcount]

/-- The arguments are the words, when the one at the end of the line is not cut. -/
theorem map_cstr_argvLoop (h : argvLoop cmd slots (some mem) = some argv)
    (hlast : (lastPart space (cstr mem)).length ≤ cliMaxNameLength) :
    argv.map cstr = words space (cstr mem) := by
  induction slots generalizing mem argv with
  | zero => cases h
  | succ slots ih =>
      rw [argvLoop_succ] at h
      rw [← lastPart_dropWhile] at hlast
      rw [← words_dropWhile]
      rcases token_split cmd mem with ⟨hnone, hs⟩ |
        ⟨w, rest, arg, hne, hw, hs, harg, hcstr, hrest⟩ | ⟨arg, hne, hspace, harg, hcstr, hrest⟩
      · rw [hnone, Option.elim_none, Option.some.injEq] at h
        rw [← h, hs, words_nil, List.map_nil]
      · rw [harg, Option.elim_some, Option.map_eq_some_iff] at h
        obtain ⟨argv', hargv, rfl⟩ := h
        rw [hs, lastPart_word_sep hw, ← hrest] at hlast
        rw [hs, words_word_sep hne hw, List.map_cons, hcstr, ih hargv hlast, hrest]
      · rw [harg, Option.elim_some, Option.map_eq_some_iff] at h
        obtain ⟨argv', hargv, rfl⟩ := h
        rw [lastPart_word hspace] at hlast
        rw [Nat.min_eq_left hlast, List.drop_length] at hrest
        rw [words_word hne hspace, List.map_cons, hcstr,
          ih hargv (by rw [hrest]; exact Nat.zero_le _), hrest, words_nil]

/-- As many arguments as words are taken exactly when the word at the end of the line is not
cut. -/
theorem argCount_eq_length_words_iff (s : List UInt8) :
    argCount s = (words space s).length ↔ (lastPart space s).length ≤ cliMaxNameLength := by
  rw [argCount, Nat.add_eq_left, Nat.div_eq_zero_iff]
  simp only [cliMaxNameLength]
  omega

end Words

section Execute

variable {H : Type*} {r : CliRegistry H} {line : List UInt8} {h : H}

/-- `cli_cmd_execute` finds the handler `h` for the line. -/
def CliRegistry.FindsHandler (r : CliRegistry H) (line : List UInt8) (h : H) : Prop :=
  strlen line ≠ 0 ∧ ∃ n, (r.cliCmdFind (some line)).1 = some n ∧ (r.node n).handler = some h

theorem CliRegistry.FindsHandler.cliCmdExecute_eq (hfound : r.FindsHandler line h) :
    r.cliCmdExecute (some line) =
      (argvLoop line cliMaxArgs (some line)).elim .overrun fun argv => .runs h argv := by
  obtain ⟨hlen, n, hfind, hhandler⟩ := hfound
  rw [CliRegistry.cliCmdExecute, if_neg hlen, hfind]
  simp only [hhandler]
  rw [argvLoop_none]
  cases argvLoop line cliMaxArgs (some line) with
  | none => rfl
  | some argv => rfl

/-- The arguments that the handler gets are those of the loop. -/
theorem CliRegistry.FindsHandler.argvLoop_of_runs (hfound : r.FindsHandler line h)
    {argv : List (List UInt8)} (hrun : r.cliCmdExecute (some line) = .runs h argv) :
    argvLoop line cliMaxArgs (some line) = some argv := by
  rw [hfound.cliCmdExecute_eq] at hrun
  cases hloop : argvLoop line cliMaxArgs (some line) with
  | none =>
      rw [hloop] at hrun
      cases hrun
  | some argv' =>
      rw [hloop] at hrun
      cases hrun
      rfl

/-- A handler that is found gets the words of a line of at most `CLI_MAX_ARGS - 1` words if and
only if the word at the end of the line has at most `CLI_MAX_NAME_LENGTH` bytes. -/
theorem cliCmdExecute_splits_iff (hfound : r.FindsHandler line h)
    (hargs : (words space (cstr line)).length ≤ cliMaxArgs - 1) :
    (∃ argv, r.cliCmdExecute (some line) = .runs h argv ∧ SplitsLine argv line) ↔
      (lastPart space (cstr line)).length ≤ cliMaxNameLength := by
  constructor
  · rintro ⟨argv, hrun, hsplit⟩
    rw [← argCount_eq_length_words_iff, ← length_argvLoop (hfound.argvLoop_of_runs hrun),
      hsplit.argc]
  · intro hlast
    have hcount := (argCount_eq_length_words_iff (cstr line)).2 hlast
    have hlt : argCount (cstr line) < cliMaxArgs := by
      rw [hcount]
      exact Nat.lt_of_le_sub_one (by decide) hargs
    obtain ⟨argv, hloop⟩ := Option.isSome_iff_exists.1
      ((isSome_argvLoop_iff line cliMaxArgs line).2 hlt)
    have hlen := length_argvLoop hloop
    refine ⟨argv, by rw [hfound.cliCmdExecute_eq, hloop]; rfl, ?_⟩
    exact ⟨hlen.trans hcount, map_cstr_argvLoop hloop hlast, by rw [hlen]; exact hlt⟩

/-- The registry with the command `pid`. -/
def pidRegistry : CliRegistry ℕ := (CliRegistry.init ℕ).regAll [⟨namePid, some 1⟩]

/-- The line `pid  7`. -/
def linePidSeven : List UInt8 := [0x70, 0x69, 0x64, 0x20, 0x20, 0x37, 0]

/-- The line `pid ` with an argument of 65 bytes. -/
def linePidLong : List UInt8 := [0x70, 0x69, 0x64, 0x20] ++ List.replicate 65 0x61 ++ [0]

/-- The line `pid  7` is split into its two words. -/
theorem cliCmdExecute_splits_pid :
    ∃ argv, pidRegistry.cliCmdExecute (some linePidSeven) = .runs 1 argv ∧
      SplitsLine argv linePidSeven :=
  (cliCmdExecute_splits_iff ⟨by decide, 1, by decide, by decide⟩ (by decide)).2 (by decide)

/-- A handler does not always get the words of a line. -/
theorem not_cliCmdExecute_splits :
    ¬ ∀ (r : CliRegistry ℕ) (line : List UInt8) (h : ℕ), r.FindsHandler line h →
      (words space (cstr line)).length ≤ cliMaxArgs - 1 →
        ∃ argv, r.cliCmdExecute (some line) = .runs h argv ∧ SplitsLine argv line := by
  intro hall
  have hfound : pidRegistry.FindsHandler linePidLong 1 := ⟨by decide, 1, by decide, by decide⟩
  obtain ⟨argv, hrun, hsplit⟩ := hall pidRegistry linePidLong 1 hfound (by decide)
  have hlen := length_argvLoop (hfound.argvLoop_of_runs hrun)
  rw [hsplit.argc] at hlen
  exact absurd hlen (by decide)

end Execute

/-! ## The index -/

/-- Where the loop of `cli_cmd_execute` stands: the next element of `argv` that it writes, and
the context of the tokens. -/
structure ArgvState where
  argc : ℕ
  context : Option (List UInt8)

/-- A turn of the loop; `none` when it writes the null pointer. -/
def argvStep (cmd : List UInt8) (s : ArgvState) : Option ArgvState :=
  let token := cliCmdGetToken cmd s.context .replaceSpace
  token.start.map fun _ => ⟨s.argc + 1, some token.context⟩

/-- The loop before its first turn. -/
def ArgvState.start : ArgvState := ⟨0, none⟩

/-- The arguments that are left. -/
def ArgvState.left (cmd : List UInt8) (s : ArgvState) : ℕ := argCount (cstr (s.context.getD cmd))

/-- Every element of `argv` that is written is in the array. -/
def IndexBounded (cmd : List UInt8) : Prop :=
  ∀ s, Reaches (argvStep cmd) .start s → s.argc < cliMaxArgs

/-- The loop ends. -/
def LoopTerminates (cmd : List UInt8) : Prop := (eval (argvStep cmd) .start).Dom

section Index

variable {cmd : List UInt8} {s t : ArgvState}

/-- A turn of the loop writes the null pointer, or takes one of the arguments that are left. -/
theorem argvStep_cases (cmd : List UInt8) (s : ArgvState) :
    argvStep cmd s = none ∧ s.left cmd = 0 ∨
      ∃ t, argvStep cmd s = some t ∧ t.argc = s.argc + 1 ∧ s.left cmd = t.left cmd + 1 := by
  have hsame : cliCmdGetToken cmd s.context .replaceSpace =
      cliCmdGetToken cmd (some (s.context.getD cmd)) .replaceSpace := by
    cases s.context with
    | none => rfl
    | some mem => rfl
  simp only [argvStep, hsame]
  rcases token_cases cmd (s.context.getD cmd) with ⟨hnone, hcount⟩ | ⟨arg, harg, hcount⟩
  · exact Or.inl ⟨by rw [hnone, Option.map_none], hcount⟩
  · exact Or.inr ⟨⟨s.argc + 1, some _⟩, by rw [harg, Option.map_some], rfl, hcount⟩

/-- The arguments taken and those left are always as many. -/
theorem argc_add_left (h : Reaches (argvStep cmd) s t) :
    t.argc + t.left cmd = s.argc + s.left cmd := by
  induction h with
  | refl => rfl
  | @tail u t hu hstep ih =>
      rcases argvStep_cases cmd u with ⟨hnone, -⟩ | ⟨t', ht', hargc, hleft⟩
      · rw [Option.mem_def, hnone] at hstep
        cases hstep
      · rw [Option.mem_def, ht', Option.some.injEq] at hstep
        subst hstep
        omega

/-- The loop ends with no argument left. -/
theorem exists_mem_eval (cmd : List UInt8) (s : ArgvState) :
    ∃ t, t ∈ eval (argvStep cmd) s ∧ t.left cmd = 0 := by
  induction hn : s.left cmd generalizing s with
  | zero =>
      rcases argvStep_cases cmd s with ⟨hnone, -⟩ | ⟨t, -, -, hleft⟩
      · exact ⟨s, mem_eval.2 ⟨.refl, hnone⟩, hn⟩
      · omega
  | succ n ih =>
      rcases argvStep_cases cmd s with ⟨-, hleft⟩ | ⟨t, ht, -, hleft⟩
      · omega
      · obtain ⟨u, hu, hzero⟩ := ih t (by omega)
        rw [mem_eval] at hu
        exact ⟨u, mem_eval.2 ⟨hu.1.head ht, hu.2⟩, hzero⟩

theorem loopTerminates (cmd : List UInt8) : LoopTerminates cmd := by
  obtain ⟨t, ht, -⟩ := exists_mem_eval cmd .start
  exact Part.dom_iff_mem.2 ⟨t, ht⟩

theorem indexBounded_iff (cmd : List UInt8) :
    IndexBounded cmd ↔ argCount (cstr cmd) < cliMaxArgs := by
  have hstart : ArgvState.start.argc + ArgvState.start.left cmd = argCount (cstr cmd) :=
    Nat.zero_add _
  constructor
  · intro hall
    obtain ⟨t, ht, hzero⟩ := exists_mem_eval cmd .start
    have hreach := (mem_eval.1 ht).1
    have hsum := argc_add_left hreach
    have hlt := hall t hreach
    omega
  · intro hlt t ht
    have hsum := argc_add_left ht
    omega

/-- The array that `cli_cmd_execute` fills is long enough exactly when every index is in it. -/
theorem isSome_argvLoop_iff_indexBounded (cmd : List UInt8) :
    (argvLoop cmd cliMaxArgs none).isSome ↔ IndexBounded cmd := by
  rw [argvLoop_none, isSome_argvLoop_iff, indexBounded_iff]

/-- For every line the loop ends, and it stays in `argv` if and only if the words of the line,
the one at its end counted once for each `CLI_MAX_NAME_LENGTH` bytes begun, are fewer than
`CLI_MAX_ARGS`. -/
theorem argv_bounded_iff (cmd : List UInt8) :
    LoopTerminates cmd ∧ (IndexBounded cmd ∧ LoopTerminates cmd ↔
      (words space (cstr cmd)).length +
        ((lastPart space (cstr cmd)).length - 1) / cliMaxNameLength < cliMaxArgs) :=
  ⟨loopTerminates cmd, (and_iff_left (loopTerminates cmd)).trans (indexBounded_iff cmd)⟩

/-- The line editor submits the line in some reads after its start. -/
def CliSubmits (bufSize historySize : ℕ) (line : List UInt8) : Prop :=
  ∃ (execute : List UInt8 → List UInt8) (cli : CliService) (bytes : List UInt8),
    Reachable (CliService.readStep execute) (cliServiceStart bufSize historySize) cli ∧
      bytes.length ≤ bufSize ∧ line ∈ (cli.echoRead execute bytes).2

/-- Ten words and a return, as they are typed. -/
def typedTen : List UInt8 := (List.replicate 9 [0x61, space]).flatten ++ [0x61, 0x0D]

/-- The line editor submits a line for which the loop leaves `argv`. -/
theorem not_argv_bounded :
    ¬ ∀ (bufSize historySize : ℕ) (line : List UInt8), CliSubmits bufSize historySize line →
      IndexBounded line ∧ LoopTerminates line := by
  intro hall
  have hline : typedTen.dropLast ∈ ((cliServiceStart 256 10).echoRead id typedTen).2 := by
    decide +kernel
  have hbounded := (hall 256 10 typedTen.dropLast
    ⟨id, cliServiceStart 256 10, typedTen, .refl _, by decide, hline⟩).1
  rw [indexBounded_iff] at hbounded
  exact absurd hbounded (by decide)

end Index

end Catpilot
