import Catpilot.Cli.Commands
import Catpilot.CString.Words

/-!
# Running a command line

`cli_cmd_execute` skips leading spaces when it splits the line into arguments, and when
it measures the length of the command's name, but it compares the name from the start
of the line. The arguments go into an array of `CLI_MAX_ARGS` pointers, without a check
of its end.
-/

namespace Catpilot

open CString

/-- What a call of `cli_cmd_execute` comes to. -/
inductive Execution (H : Type*) where
  /-- It returns -1 with this `errno`. -/
  | error (errno : Errno)
  /-- It returns what the handler returns for these arguments. -/
  | runs (handler : H) (argv : List (List UInt8))
  /-- It writes behind the end of `argv`; what follows is undefined. -/
  | overrun
  deriving DecidableEq, Repr

/-- The loop that fills `argv`, with the number of its elements that are still free.
`none` is a write behind the last one. -/
def argvLoop (cmd : List UInt8) : ℕ → Option (List UInt8) → Option (List (List UInt8))
  | 0, _ => none
  | slots + 1, context =>
      let token := cliCmdGetToken cmd context .replaceSpace
      match token.start with
      | none => some []
      | some arg => (argvLoop cmd slots (some token.context)).map fun argv => arg :: argv

/-- `cli_cmd_execute`; a command that is `none` is a null pointer. -/
def CliRegistry.cliCmdExecute {H : Type*} (r : CliRegistry H) (cmd : Option (List UInt8)) :
    Execution H :=
  match cmd with
  | none => .error .einval
  | some cmd =>
      if strlen cmd = 0 then .error .eagain
      else
        match (r.cliCmdFind (some cmd)).1 with
        | none => .error .enoent
        | some n =>
            match (r.node n).handler with
            | none => .error .esrch
            | some h =>
                match argvLoop cmd cliMaxArgs none with
                | none => .overrun
                | some argv => .runs h argv

/-! ## The number of the arguments -/

/-- The arguments that the line is split into: its words, where the one at the end of
the line counts once for each `CLI_MAX_NAME_LENGTH` bytes begun. -/
def argCount (s : List UInt8) : ℕ :=
  (words space s).length + ((lastPart space s).length - 1) / cliMaxNameLength

theorem argCount_nil : argCount [] = 0 := rfl

theorem argCount_dropWhile (s : List UInt8) :
    argCount (s.dropWhile (· = space)) = argCount s := by
  rw [argCount, words_dropWhile, lastPart_dropWhile, argCount]

theorem argCount_word_space {w : List UInt8} (hne : w ≠ []) (hspace : space ∉ w)
    (s : List UInt8) : argCount (w ++ space :: s) = argCount s + 1 := by
  rw [argCount, words_word_sep hne hspace, lastPart_word_sep hspace, List.length_cons, argCount]
  omega

theorem argCount_word {w : List UInt8} (hne : w ≠ []) (hspace : space ∉ w) :
    argCount w = 1 + (w.length - 1) / cliMaxNameLength := by
  rw [argCount, words_word hne hspace, lastPart_word hspace, List.length_singleton]

/-- A word at the end of the line is one argument, and what is left of it behind the
limit is more of them. -/
theorem argCount_cut {w : List UInt8} (hne : w ≠ []) (hspace : space ∉ w) :
    argCount w = argCount (w.drop (min w.length cliMaxNameLength)) + 1 := by
  rw [argCount_word hne hspace]
  by_cases hlong : w.length ≤ cliMaxNameLength
  · have hpos := List.length_pos_iff.2 hne
    have hlt : w.length - 1 < cliMaxNameLength := by omega
    rw [Nat.min_eq_left hlong, List.drop_length, argCount_nil, Nat.div_eq_of_lt hlt]
  · have hlt : cliMaxNameLength < w.length := Nat.lt_of_not_le hlong
    have hrest : w.drop cliMaxNameLength ≠ [] := by
      rw [Ne, List.drop_eq_nil_iff]
      exact hlong
    have hdrop : space ∉ w.drop cliMaxNameLength := fun h => hspace (List.mem_of_mem_drop h)
    rw [Nat.min_eq_right (Nat.le_of_lt hlt), argCount_word hrest hdrop, List.length_drop]
    simp only [cliMaxNameLength] at hlt ⊢
    omega

section Arguments

variable {mem : List UInt8}

/-- A string behind some of its bytes. -/
theorem cstr_drop {n : ℕ} (h : n ≤ strlen mem) : cstr (mem.drop n) = (cstr mem).drop n := by
  induction n generalizing mem with
  | zero => rfl
  | succ n ih =>
      cases mem with
      | nil => rfl
      | cons c mem =>
          by_cases hc : c = 0
          · subst hc
            exact absurd h (Nat.not_succ_le_zero n)
          · rw [strlen, cstr_cons hc, List.length_cons, Nat.succ_le_succ_iff] at h
            rw [cstr_cons hc, List.drop_succ_cons, List.drop_succ_cons, ih h]

theorem dropWhile_ne_space {w rest : List UInt8} (hw : space ∉ w) :
    (w ++ space :: rest).dropWhile (· ≠ space) = space :: rest := by
  rw [List.dropWhile_append_of_pos]
  · exact List.dropWhile_cons_of_neg (by simp)
  · intro c hc
    rw [decide_eq_true_eq]
    rintro rfl
    exact hw hc

/-- A zero byte written into a string ends it there. -/
theorem cstr_set_zero {n : ℕ} (h : n < strlen mem) : cstr (mem.set n 0) = (cstr mem).take n := by
  induction n generalizing mem with
  | zero =>
      cases mem with
      | nil => rfl
      | cons c mem => rfl
  | succ n ih =>
      cases mem with
      | nil => rfl
      | cons c mem =>
          by_cases hc : c = 0
          · subst hc
            exact absurd h (Nat.not_lt_zero (n + 1))
          · rw [strlen, cstr_cons hc, List.length_cons, Nat.succ_lt_succ_iff] at h
            rw [List.set_cons_succ, cstr_cons hc, cstr_cons hc, List.take_succ_cons, ih h]

/-- A token of the line: nothing but spaces is left, or a word that ends at a space is taken
with it, or the last word is taken up to the limit. -/
theorem token_split (cmd mem : List UInt8) :
    let token := cliCmdGetToken cmd (some mem) .replaceSpace
    let s := (cstr mem).dropWhile (· = space)
    token.start = none ∧ s = [] ∨
      (∃ w rest arg, w ≠ [] ∧ space ∉ w ∧ s = w ++ space :: rest ∧ token.start = some arg ∧
        cstr arg = w ∧ cstr token.context = rest) ∨
      ∃ arg, s ≠ [] ∧ space ∉ s ∧ token.start = some arg ∧ cstr arg = s ∧
        cstr token.context = s.drop (min s.length cliMaxNameLength) := by
  have hcstr := cstr_dropWhile_space mem
  have hhead : ∀ c ∈ (cstr (mem.dropWhile (· = space))).head?, c ≠ space := by
    rw [hcstr]
    rintro c hc rfl
    exact head?_dropWhile_sep space (cstr mem) hc
  simp only [cliCmdGetToken, Option.getD_some, strstr_space]
  rw [← hcstr]
  generalize mem.dropWhile (· = space) = start at hhead
  by_cases hspace : space ∈ cstr start
  · -- the argument ends at the space
    rw [if_pos hspace]
    obtain ⟨w, rest, hs, hw⟩ := List.eq_append_cons_of_mem hspace
    have hne : w ≠ [] := by
      rintro rfl
      rw [hs] at hhead
      exact hhead space rfl rfl
    have hlen : strlen start - ((cstr start).dropWhile (· ≠ space)).length = w.length := by
      rw [strlen, hs, dropWhile_ne_space hw, List.length_append, Nat.add_sub_cancel]
    have hlt : w.length < strlen start := by
      rw [strlen, hs, List.length_append, List.length_cons]
      omega
    refine Or.inr (Or.inl ⟨w, rest, _, hne, hw, hs, rfl, ?_, ?_⟩)
    · rw [hlen, cstr_set_zero hlt, hs, List.take_left]
    · simp only [hlen]
      rw [cstr_drop hlt, hs, List.drop_append, List.drop_eq_nil_of_le (Nat.le_succ _)]
      simp
  · rw [if_neg hspace]
    by_cases hnil : cstr start = []
    · refine Or.inl ⟨?_, hnil⟩
      simp [strnlen, strlen, hnil]
    · have hpos : 0 < (cstr start).length := List.length_pos_iff.2 hnil
      refine Or.inr (Or.inr ⟨start, hnil, hspace, ?_, rfl, ?_⟩)
      · rw [if_neg]
        simp only [strnlen, strlen, cliMaxNameLength]
        omega
      · simp only [strnlen]
        rw [cstr_drop (Nat.min_le_left _ _)]
        rfl

/-- Either nothing is left, or one argument is taken and the rest of the line has one argument
less. -/
theorem token_cases (cmd mem : List UInt8) :
    let token := cliCmdGetToken cmd (some mem) .replaceSpace
    token.start = none ∧ argCount (cstr mem) = 0 ∨
      ∃ arg, token.start = some arg ∧ argCount (cstr mem) = argCount (cstr token.context) + 1 := by
  have hcount := argCount_dropWhile (cstr mem)
  rcases token_split cmd mem with ⟨hnone, hs⟩ | ⟨w, rest, arg, hne, hw, hs, harg, -, hrest⟩ |
    ⟨arg, hne, hspace, harg, -, hrest⟩
  · rw [hs, argCount_nil] at hcount
    exact Or.inl ⟨hnone, hcount.symm⟩
  · rw [hs, argCount_word_space hne hw] at hcount
    exact Or.inr ⟨arg, harg, by rw [hrest, hcount]⟩
  · rw [argCount_cut hne hspace] at hcount
    exact Or.inr ⟨arg, harg, by rw [hrest, hcount]⟩

/-- The loop stays in the array exactly when there are fewer arguments than elements. -/
theorem isSome_argvLoop_iff (cmd : List UInt8) (slots : ℕ) (mem : List UInt8) :
    (argvLoop cmd slots (some mem)).isSome ↔ argCount (cstr mem) < slots := by
  induction slots generalizing mem with
  | zero => simp [argvLoop]
  | succ slots ih =>
      rw [argvLoop]
      rcases token_cases cmd mem with ⟨hnone, hcount⟩ | ⟨arg, harg, hcount⟩
      · simp [hnone, hcount]
      · simp only [harg, Option.isSome_map, ih, hcount]
        omega

/-- The first token is taken from the start of the line. -/
theorem argvLoop_none (cmd : List UInt8) (slots : ℕ) :
    argvLoop cmd slots none = argvLoop cmd slots (some cmd) := by
  cases slots with
  | zero => rfl
  | succ slots => rfl

end Arguments

/-! ## Dispatch -/

section Dispatch

variable {H : Type*}

/-- The first space-delimited token of a line. -/
def firstWord (line : List UInt8) : Option (List UInt8) := (words space (cstr line)).head?

/-- The handler that runs is the given one; where there is none, no handler runs and an
error is reported. -/
def Dispatches (outcome : Execution H) : Option H → Prop
  | some h => ∃ argv, outcome = .runs h argv
  | none => ∃ errno, outcome = .error errno ∧ errno ≠ .ok

theorem firstWord_of_strlen_eq_zero {line : List UInt8} (h : strlen line = 0) :
    firstWord line = none := by
  rw [firstWord, List.length_eq_zero_iff.1 h, words_nil]
  rfl

/-- Without a space in front, the first word is the token whose name is looked up. -/
theorem firstWord_eq_firstToken {line : List UInt8} (hne : cstr line ≠ [])
    (hhead : line.head? ≠ some space) : firstWord line = some (firstToken line) := by
  have hcstr : ∀ c ∈ (cstr line).head?, c ≠ space := by
    rw [head?_cstr_of_ne_nil hne]
    rintro c hc rfl
    exact hhead hc
  obtain ⟨ws, hws⟩ := words_head hne hcstr
  rw [firstWord, hws, List.head?_cons, firstToken]

namespace CliRegistry

variable {r : CliRegistry H} {cs : List (List UInt8 × H)} {line : List UInt8}

/-- A line that starts with a space runs nothing. -/
theorem Represents.cliCmdExecute_of_space (h : r.Represents cs)
    (hhead : line.head? = some space) :
    ∃ errno, r.cliCmdExecute (some line) = .error errno ∧ errno ≠ .ok := by
  obtain ⟨rest, hcstr⟩ : ∃ rest, cstr line = space :: rest := by
    cases line with
    | nil => cases hhead
    | cons c line =>
        rw [List.head?_cons, Option.some.injEq] at hhead
        exact ⟨cstr line, by rw [hhead, cstr_cons (by decide)]⟩
  have hlen : strlen line ≠ 0 := by
    rw [strlen, hcstr]
    exact Nat.succ_ne_zero _
  rw [cliCmdExecute, if_neg hlen]
  have hmap := h.cliCmdFind_map_take line
  cases hlength : (cliCmdGetToken line none .default).length with
  | zero =>
      -- the token is empty, and the root has its name
      rw [hlength, List.take_zero, List.find?_cons_of_pos (by simp), Option.map_eq_some_iff] at hmap
      obtain ⟨n, hn, hentry⟩ := hmap
      have hhandler : (r.node n).handler = none := congrArg Prod.snd hentry
      rw [hn]
      simp only [hhandler]
      exact ⟨.esrch, rfl, by decide⟩
  | succ length =>
      have hnone : ∀ e ∈ (([], none) :: cs.map commandEntry : List (List UInt8 × Option H)),
          ¬ decide (e.1 = (cstr line).take (length + 1)) = true := by
        intro e he
        rw [hcstr, List.take_succ_cons, decide_eq_true_eq]
        intro hname
        rcases List.mem_cons.1 he with rfl | hmem
        · cases hname
        · obtain ⟨e', he', rfl⟩ := List.mem_map.1 hmem
          refine (h.name_ok e' he').2.1 ?_
          rw [show e'.1 = _ from hname]
          exact List.mem_cons_self
      rw [hlength, List.find?_eq_none.2 hnone, Option.map_eq_none_iff] at hmap
      rw [hmap]
      exact ⟨.enoent, rfl, by decide⟩

/-- A line that starts with its first token runs the handler of this token, when the
arguments fit. -/
theorem Represents.cliCmdExecute_of_token (h : r.Represents cs) (hne : cstr line ≠ [])
    (hhead : line.head? ≠ some space) : r.cliCmdExecute (some line) =
      match cs.find? fun e => e.1 = firstToken line with
      | none => .error .enoent
      | some e =>
          match argvLoop line cliMaxArgs none with
          | none => .overrun
          | some argv => .runs e.2 argv := by
  have hlen : strlen line ≠ 0 := fun h => hne (List.length_eq_zero_iff.1 h)
  have hmap := h.cliCmdFind_map_firstToken hne hhead
  rw [cliCmdExecute, if_neg hlen]
  cases hfind : cs.find? fun e => e.1 = firstToken line with
  | none =>
      rw [hfind, Option.map_none, Option.map_eq_none_iff] at hmap
      rw [hmap]
  | some e =>
      rw [hfind, Option.map_some, Option.map_eq_some_iff] at hmap
      obtain ⟨n, hn, hentry⟩ := hmap
      have hhandler : (r.node n).handler = some e.2 := congrArg Prod.snd hentry
      rw [hn]
      simp only [hhandler]

end CliRegistry

@[simp] theorem dispatches_error {errno : Errno} {x : Option H} (h : errno ≠ .ok) :
    Dispatches (.error errno) x ↔ x = none := by
  cases x with
  | none => exact iff_of_true ⟨errno, rfl, h⟩ rfl
  | some x =>
      refine iff_of_false ?_ (Option.some_ne_none x)
      rintro ⟨argv, hrun⟩
      cases hrun

@[simp] theorem dispatches_runs {x : H} {argv : List (List UInt8)} :
    Dispatches (.runs x argv) (some x) := ⟨argv, rfl⟩

@[simp] theorem not_dispatches_overrun {x : H} : ¬ Dispatches .overrun (some x) := by
  rintro ⟨argv, hrun⟩
  cases hrun

/-- A command line runs exactly the handler registered under its first word, or none and
reports an error where there is none, if and only if no handler is registered under that
word, or the line starts with it and its arguments fit into the array. -/
theorem cliCmdExecute_dispatches_iff (calls : List (RegCall H)) (line : List UInt8) :
    Dispatches (((CliRegistry.init H).regAll calls).cliCmdExecute (some line))
        ((firstWord line).bind (registeredHandler calls)) ↔
      (firstWord line).bind (registeredHandler calls) = none ∨
        line.head? ≠ some space ∧ argCount (cstr line) < cliMaxArgs := by
  have hr : ((CliRegistry.init H).regAll calls).Represents (calls.foldl register []) :=
    (CliRegistry.represents_init H).regAll calls
  by_cases hempty : strlen line = 0
  · rw [firstWord_of_strlen_eq_zero hempty, CliRegistry.cliCmdExecute, if_pos hempty]
    exact iff_of_true ⟨.eagain, rfl, by decide⟩ (Or.inl rfl)
  by_cases hhead : line.head? = some space
  · obtain ⟨errno, herror, hok⟩ := hr.cliCmdExecute_of_space hhead
    rw [herror, dispatches_error hok]
    simp [hhead]
  · have hne : cstr line ≠ [] := fun h => hempty (List.length_eq_zero_iff.2 h)
    have hfind : registeredHandler calls (firstToken line) =
        ((calls.foldl register []).find? fun e => e.1 = firstToken line).map Prod.snd := by
      rw [find?_foldl_register]
      rfl
    have hargs := isSome_argvLoop_iff line cliMaxArgs line
    rw [← argvLoop_none] at hargs
    rw [firstWord_eq_firstToken hne hhead, Option.bind_some, hfind,
      hr.cliCmdExecute_of_token hne hhead, ← hargs]
    cases (calls.foldl register []).find? fun e => e.1 = firstToken line with
    | none =>
        have henoent : Errno.enoent ≠ .ok := by decide
        simp [henoent]
    | some e =>
        cases argvLoop line cliMaxArgs none with
        | none => simp
        | some argv => simp [hhead]

/-- The line ` pid`. -/
def lineSpacePid : List UInt8 := [0x20, 0x70, 0x69, 0x64, 0]

/-- The handler registered as `pid` does not run for the line ` pid`. -/
theorem cliCmdExecute_space_pid :
    ¬ ∀ (calls : List (RegCall ℕ)) (line : List UInt8),
      Dispatches (((CliRegistry.init ℕ).regAll calls).cliCmdExecute (some line))
        ((firstWord line).bind (registeredHandler calls)) := by
  intro h
  have hpid := h [⟨namePid, some 1⟩] lineSpacePid
  have hword : (firstWord lineSpacePid).bind (registeredHandler [⟨namePid, some 1⟩]) = some 1 := by
    decide
  have hrun : ((CliRegistry.init ℕ).regAll [⟨namePid, some 1⟩]).cliCmdExecute
      (some lineSpacePid) = .error .enoent := by
    decide
  rw [hword, hrun] at hpid
  obtain ⟨argv, hargv⟩ := hpid
  cases hargv

end Dispatch

end Catpilot
