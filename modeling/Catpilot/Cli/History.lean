import Catpilot.CString.Store
import Catpilot.Cli.Lines
import Catpilot.LineEdit.Recent

/-!
# The history of the command line

`cli_add_to_history` shifts the strings of `cmd_prev`, and the arrow keys show them. The place 0
is the empty line; the others hold the recent lines. The position in the history stays below
`history_size`, so that the string at that place is kept but never shown.
-/

namespace Catpilot

open CString LineEdit Transition

namespace CliService

/-- The string `cmd_prev[i]`. -/
def entry (cli : CliService) (i : ℕ) : List UInt8 := cstr (cli.prev i)

/-- The lines that the history is to hold: the recent ones that are not empty. -/
def recentLines (historySize : ℕ) (lines : List (List UInt8)) : List (List UInt8) :=
  recent historySize (lines.filter (· ≠ []))

section Add

variable {cli : CliService}

/-- The strings of a list of buffers, when one of them is written. -/
theorem cstr_getD_set {prev : List (List UInt8)} {i : ℕ} (hi : i < prev.length)
    (s : List UInt8) (j : ℕ) :
    cstr ((prev.set i s).getD j []) = if j = i then cstr s else cstr (prev.getD j []) := by
  rw [List.getD_eq_getElem?_getD, List.getD_eq_getElem?_getD, List.getElem?_set]
  by_cases hj : j = i
  · rw [if_pos hj, if_pos hj.symm, if_pos hi, Option.getD_some]
  · rw [if_neg hj, if_neg (Ne.symm hj)]

/-- The strings after `n` turns of the loop. -/
theorem shift_spec (h : HistoryOk cli.bufSize cli.historySize cli.cmdPrev) {n : ℕ}
    (hn : n ≤ cli.historySize - 1) :
    ∃ prev, (List.range n).foldl (fun (c : CliService) k =>
        let i := cli.historySize - k
        { c with cmdPrev := c.cmdPrev.set i (strncpy (c.prev i) (c.prev (i - 1)) (c.bufSize - 1)) })
        cli = { cli with cmdPrev := prev } ∧
      HistoryOk cli.bufSize cli.historySize prev ∧
      ∀ j ≤ cli.historySize, cstr (prev.getD j []) =
        if cli.historySize - n < j then cli.entry (j - 1) else cli.entry j := by
  induction n with
  | zero =>
      refine ⟨cli.cmdPrev, rfl, h, fun j hj => ?_⟩
      rw [Nat.sub_zero, if_neg (Nat.not_lt.2 hj)]
      rfl
  | succ n ih =>
      obtain ⟨prev, hfold, hok, hprev⟩ := ih (Nat.le_of_succ_le hn)
      have hi : cli.historySize - n ≤ cli.historySize := Nat.sub_le ..
      have hlast := hok.getD_mem ((Nat.sub_le (cli.historySize - n) 1).trans hi)
      obtain ⟨-, hzero⟩ := hok.2 _ (hok.getD_mem hi)
      have hfits := strlen_le_of_drop (hok.2 _ hlast).2
      have hlen : cli.historySize - n < prev.length := by
        rw [hok.1]
        exact Nat.lt_succ_of_le hi
      rw [List.range_succ, List.foldl_append, hfold]
      refine ⟨prev.set (cli.historySize - n) (strncpy (prev.getD (cli.historySize - n) [])
        (prev.getD (cli.historySize - n - 1) []) (cli.bufSize - 1)), rfl, hok.set hi _,
        fun j hj => ?_⟩
      rw [cstr_getD_set hlen]
      by_cases hji : j = cli.historySize - n
      · rw [if_pos hji, cstr_strncpy hfits hzero, hprev _ ((Nat.sub_le _ 1).trans hi),
          if_neg (by omega), if_pos (by omega), hji]
      · rw [if_neg hji, hprev j hj]
        by_cases hlt : cli.historySize - n < j
        · rw [if_pos hlt, if_pos (by omega)]
        · rw [if_neg hlt, if_neg (by omega)]

/-- A line that is the newest of the history already changes nothing; any other one goes to the
place 1, and the others move on by one place. -/
theorem addToHistory_entries (h : HistoryOk cli.bufSize cli.historySize cli.cmdPrev)
    (htwo : 2 ≤ cli.historySize) (hcmd : strlen cli.cmd ≤ cli.bufSize - 1) :
    ∃ prev, cli.addToHistory = { cli with cmdPrev := prev } ∧
      HistoryOk cli.bufSize cli.historySize prev ∧
      cstr (prev.getD 0 []) = cli.entry 0 ∧
      ∀ i < cli.historySize, cstr (prev.getD (i + 1) []) =
        if cli.entry 1 = cstr cli.cmd then cli.entry (i + 1)
        else if i = 0 then cstr cli.cmd else cli.entry i := by
  have hone : 1 ≤ cli.historySize := le_of_lt htwo
  have hfits := strlen_le_of_drop (h.2 _ (h.getD_mem hone)).2
  have hsame : strncmpEq (cli.prev 1) cli.cmd (cli.bufSize - 1) = true ↔
      cli.entry 1 = cstr cli.cmd := strncmpEq_of_le hfits hcmd
  rw [addToHistory]
  by_cases heq : cli.entry 1 = cstr cli.cmd
  · rw [if_pos (hsame.2 heq)]
    refine ⟨cli.cmdPrev, rfl, h, rfl, fun i _ => ?_⟩
    rw [if_pos heq]
    rfl
  · rw [if_neg (mt hsame.1 heq)]
    obtain ⟨prev, hfold, hok, hprev⟩ := shift_spec h (Nat.le_refl _)
    have hlen : 1 < prev.length := by
      rw [hok.1]
      exact Nat.lt_succ_of_le hone
    have hzero := (hok.2 _ (hok.getD_mem hone)).2
    refine ⟨prev.set 1 (strncpy (prev.getD 1 []) cli.cmd (cli.bufSize - 1)), ?_,
      hok.set hone cli.cmd, ?_, fun i hi => ?_⟩
    · simp only [hfold]
      rfl
    · rw [cstr_getD_set hlen, if_neg Nat.zero_ne_one, hprev 0 (Nat.zero_le _),
        if_neg (Nat.not_lt_zero _)]
    · rw [cstr_getD_set hlen, if_neg heq]
      by_cases hi0 : i = 0
      · rw [if_pos hi0, if_pos (by rw [hi0]), cstr_strncpy hcmd hzero]
      · rw [if_neg hi0, if_neg (by omega), hprev (i + 1) hi, if_pos (by omega),
          Nat.add_sub_cancel]

end Add

/-! ## The arrow keys -/

/-- The history and the sizes are as they were; the position and the line are these. -/
structure Moved (cli cli' : CliService) (pos : ℕ) (line : List UInt8) : Prop where
  bufSize : cli'.bufSize = cli.bufSize
  historySize : cli'.historySize = cli.historySize
  cmdPrev : cli'.cmdPrev = cli.cmdPrev
  pos : cli'.historyPos = pos
  line : cli'.line = line

/-- The place that the key for the line before goes to first. -/
def upPos (cli : CliService) : ℕ := min (cli.historyPos + 1) (cli.historySize - 1)

section Arrows

variable {cli cli' : CliService} {pos : ℕ} {l : List UInt8}

theorem Moved.entry (h : Moved cli cli' pos l) (i : ℕ) : cli'.entry i = cli.entry i := by
  rw [CliService.entry, CliService.entry, prev, prev, h.cmdPrev]

theorem cstr_getLastCommand_up (cli : CliService) :
    cstr cli.up.getLastCommand = cli.entry cli.upPos := by
  rw [up_eq]
  rfl

theorem strlen_getLastCommand_up (cli : CliService) :
    strlen cli.up.getLastCommand = 0 ↔ cli.entry cli.upPos = [] := by
  rw [strlen, cstr_getLastCommand_up, List.length_eq_zero_iff]

/-- The key for the line before: an empty place is not gone to. -/
theorem Sized.moved_historyUp (h : cli.Sized) : Moved cli cli.historyUp.1
    (if cli.entry cli.upPos = [] then cli.upPos - 1 else cli.upPos)
    (if cli.entry cli.upPos = [] then cli.line else cli.entry cli.upPos) := by
  have hline := h.line_historyUp
  rw [cstr_getLastCommand_up] at hline
  rw [CliService.historyUp] at hline ⊢
  by_cases hempty : cli.entry cli.upPos = []
  · have hlen := (strlen_getLastCommand_up cli).2 hempty
    rw [if_pos hlen, if_pos hlen] at hline
    rw [if_pos hlen, if_pos hempty, if_pos hempty]
    rw [up_eq] at hline ⊢
    exact ⟨rfl, rfl, rfl, rfl, hline⟩
  · have hlen := mt (strlen_getLastCommand_up cli).1 hempty
    rw [if_neg hlen, if_neg hlen] at hline
    rw [if_neg hlen, if_neg hempty, if_neg hempty]
    rw [up_eq] at hline ⊢
    exact ⟨rfl, rfl, rfl, rfl, hline⟩

/-- The key for the line after. -/
theorem Sized.moved_historyDown (h : cli.Sized) :
    Moved cli cli.historyDown.1 (cli.historyPos - 1) (cli.entry (cli.historyPos - 1)) :=
  ⟨rfl, rfl, rfl, rfl, h.line_historyDown⟩

theorem moved_rubout (cli : CliService) :
    Moved cli cli.rubout.1 cli.historyPos cli.rubout.1.line := by
  rw [CliService.rubout]
  split
  · exact ⟨rfl, rfl, rfl, rfl, rfl⟩
  · exact ⟨rfl, rfl, rfl, rfl, rfl⟩

theorem moved_printable (cli : CliService) (c : UInt8) :
    Moved cli (cli.printable c).1 cli.historyPos (cli.printable c).1.line := by
  simp only [CliService.printable]
  split
  · exact ⟨rfl, rfl, rfl, rfl, rfl⟩
  · exact ⟨rfl, rfl, rfl, rfl, rfl⟩

end Arrows

/-! ## Runs -/

/-- The history holds the recent ones of the lines submitted so far. -/
structure Remembers (bufSize historySize : ℕ) (cli : CliService) (lines : List (List UInt8)) :
    Prop where
  sized : cli.Sized
  bufSize_eq : cli.bufSize = bufSize
  historySize_eq : cli.historySize = historySize
  zero : 0 ∉ cli.line
  root : cli.entry 0 = []
  stored : ∀ i < historySize, cli.entry (i + 1) = (recentLines historySize lines).getD i []
  pos : cli.historyPos ≤ (recentLines historySize lines).length

section Runs

variable {bufSize historySize : ℕ} {cli cli' : CliService} {lines : List (List UInt8)}
  {execute : List UInt8 → List UInt8}

theorem length_recentLines_le (historySize : ℕ) (lines : List (List UInt8)) :
    (recentLines historySize lines).length ≤ historySize := length_recent_le historySize _

theorem ne_nil_of_mem_recentLines {l : List UInt8} (h : l ∈ recentLines historySize lines) :
    l ≠ [] := by
  have hmem := mem_of_mem_recent h
  rw [List.mem_filter, decide_eq_true_eq] at hmem
  exact hmem.2

/-- A place of the history is empty exactly behind the recent lines. -/
theorem Remembers.entry_eq_nil_iff (h : Remembers bufSize historySize cli lines) {i : ℕ}
    (hi : i < historySize) :
    cli.entry (i + 1) = [] ↔ (recentLines historySize lines).length ≤ i := by
  rw [h.stored i hi]
  constructor
  · intro hnil
    by_contra hlt
    rw [List.getD_eq_getElem _ _ (Nat.lt_of_not_le hlt)] at hnil
    exact ne_nil_of_mem_recentLines (List.getElem_mem _) hnil
  · exact List.getD_eq_default _ _

theorem Remembers.moved {pos : ℕ} {l : List UInt8} (h : Remembers bufSize historySize cli lines)
    (hmoved : Moved cli cli' pos l) (hsized : cli'.Sized) (hzero : 0 ∉ l)
    (hpos : pos ≤ (recentLines historySize lines).length) :
    Remembers bufSize historySize cli' lines where
  sized := hsized
  bufSize_eq := hmoved.bufSize.trans h.bufSize_eq
  historySize_eq := hmoved.historySize.trans h.historySize_eq
  zero := by rwa [hmoved.line]
  root := (hmoved.entry 0).trans h.root
  stored := fun i hi => (hmoved.entry (i + 1)).trans (h.stored i hi)
  pos := by rwa [hmoved.pos]

theorem Remembers.upPos_pos (h : Remembers bufSize historySize cli lines) : 0 < cli.upPos := by
  have htwo := h.sized.two_le
  rw [upPos]
  omega

theorem Remembers.historyUp (h : Remembers bufSize historySize cli lines) :
    Remembers bufSize historySize cli.historyUp.1 lines := by
  have hpos := h.upPos_pos
  have hlt := h.sized.pos
  have hle := h.pos
  rw [h.historySize_eq] at hlt
  have hup : cli.upPos - 1 + 1 = cli.upPos := Nat.sub_add_cancel hpos
  have hsize : cli.upPos - 1 < historySize := by
    rw [upPos, h.historySize_eq]
    omega
  have hempty := h.entry_eq_nil_iff hsize
  rw [hup] at hempty
  apply h.moved h.sized.moved_historyUp h.sized.historyUp
  · split
    · exact h.zero
    · exact not_mem_cstr _
  · split
    · rw [upPos]
      omega
    · rename_i hne
      have hlen := mt hempty.2 hne
      omega

theorem Remembers.historyDown (h : Remembers bufSize historySize cli lines) :
    Remembers bufSize historySize cli.historyDown.1 lines :=
  h.moved h.sized.moved_historyDown h.sized.historyDown (not_mem_cstr _)
    ((Nat.sub_le ..).trans h.pos)

/-- No other byte than a carriage return changes the history. -/
theorem Remembers.echoByte (h : Remembers bufSize historySize cli lines) {i : ℕ}
    (hk : cli.kind i ≠ .carriageReturn) :
    Remembers bufSize historySize (cli.echoByte i).1 lines := by
  have hsized := h.sized.echoByte i
  have hzero := h.sized.zero_not_mem_echoByte h.zero i
  rw [CliService.echoByte] at hsized hzero ⊢
  cases hkind : cli.kind i with
  | carriageReturn => exact absurd hkind hk
  | historyUp => exact h.historyUp
  | historyDown => exact h.historyDown
  | ignored => exact h
  | rubout =>
      rw [hkind] at hsized hzero
      exact h.moved (moved_rubout cli) hsized hzero h.pos
  | printable =>
      rw [hkind] at hsized hzero
      exact h.moved (moved_printable cli _) hsized hzero h.pos

/-- A line that is submitted is shorter than the buffer only where it is terminated in it. -/
theorem cmdLen_lt_of_short (hsized : cli.Sized) (hzero : 0 ∉ cli.line)
    (hshort : (cstr cli.carriageReturn.cmd).length < cli.bufSize) : cli.cmdLen < cli.bufSize := by
  by_contra hfull
  have hlen : cli.cmdLen = cli.bufSize := Nat.le_antisymm hsized.cmdLen (Nat.le_of_not_lt hfull)
  obtain ⟨prev, hprev, -⟩ := hsized.carriageReturn_spec
  have hline : cli.line = cli.cmd := by
    rw [line, hlen, ← hsized.cmd, List.take_length]
  have hset : cli.cmd.set cli.cmdLen 0 = cli.cmd := by
    apply List.set_eq_of_length_le
    rw [hsized.cmd, hlen]
  rw [hline] at hzero
  rw [hprev, hset, cstr_of_not_mem hzero, hsized.cmd] at hshort
  exact Nat.lt_irrefl _ hshort

theorem recentLines_concat_nil (historySize : ℕ) (lines : List (List UInt8)) :
    recentLines historySize (lines ++ [[]]) = recentLines historySize lines := by
  rw [recentLines, List.filter_append]
  simp [recentLines]

/-- One more line. -/
theorem recentLines_concat (hpos : 0 < historySize) (lines : List (List UInt8)) {l : List UInt8}
    (hl : l ≠ []) : recentLines historySize (lines ++ [l]) =
      if (recentLines historySize lines).head? = some l then recentLines historySize lines
      else l :: (recentLines historySize lines).take (historySize - 1) := by
  have hfilter : (lines ++ [l]).filter (· ≠ []) = lines.filter (· ≠ []) ++ [l] := by
    rw [List.filter_append, List.filter_cons_of_pos (by rwa [decide_eq_true_eq]), List.filter_nil]
  rw [recentLines, hfilter, recent_concat hpos, recentLines]

theorem getD_recentLines_concat (lines : List (List UInt8)) {l : List UInt8} (hl : l ≠ []) {i : ℕ}
    (hi : i < historySize) : (recentLines historySize (lines ++ [l])).getD i [] =
      if (recentLines historySize lines).head? = some l then
        (recentLines historySize lines).getD i []
      else if i = 0 then l else (recentLines historySize lines).getD (i - 1) [] := by
  rw [recentLines_concat (Nat.zero_lt_of_lt hi) lines hl]
  split_ifs with hnewest hzero
  · rfl
  · rw [hzero, List.getD_cons_zero]
  · obtain ⟨j, rfl⟩ := Nat.exists_eq_succ_of_ne_zero hzero
    rw [List.getD_cons_succ, Nat.succ_sub_one, List.getD_eq_getElem?_getD,
      List.getElem?_take_of_lt (Nat.lt_sub_of_add_lt hi), ← List.getD_eq_getElem?_getD]

/-- The place 1 has the newest of the recent lines. -/
theorem Remembers.entry_one_eq_iff (h : Remembers bufSize historySize cli lines) {l : List UInt8}
    (hl : l ≠ []) : cli.entry 1 = l ↔ (recentLines historySize lines).head? = some l := by
  have htwo := h.sized.two_le
  rw [h.historySize_eq] at htwo
  rw [h.stored 0 (by omega)]
  cases recentLines historySize lines with
  | nil => simp [Ne.symm hl]
  | cons a rest => simp

/-- A carriage return at an empty line changes nothing of the history. -/
theorem Remembers.submit_nil (h : Remembers bufSize historySize cli lines)
    (hexecute : ∀ cmd, (execute cmd).length = cmd.length) (hlen : cli.cmdLen = 0) :
    Remembers bufSize historySize (cli.carriageReturn.executed execute) (lines ++ [[]]) := by
  have hsized := h.sized.carriageReturn.executed hexecute
  have hempty : 0 ∉ (cli.carriageReturn.executed execute).line := by
    rw [line_executed]
    exact List.not_mem_nil
  rw [carriageReturn, if_neg (not_not.2 hlen)] at hsized hempty ⊢
  exact
    { sized := hsized
      bufSize_eq := h.bufSize_eq
      historySize_eq := h.historySize_eq
      zero := hempty
      root := h.root
      stored := by
        rw [recentLines_concat_nil]
        exact h.stored
      pos := Nat.zero_le _ }

/-- A carriage return puts the line in front of the recent ones. -/
theorem Remembers.submit (h : Remembers bufSize historySize cli lines)
    (hexecute : ∀ cmd, (execute cmd).length = cmd.length) (hlt : cli.cmdLen < cli.bufSize) :
    Remembers bufSize historySize (cli.carriageReturn.executed execute) (lines ++ [cli.line]) := by
  have htwo := h.sized.two_le
  have hsized := h.sized.carriageReturn.executed hexecute
  have hcstr : cstr (cli.cmd.set cli.cmdLen 0) = cli.line := by
    obtain ⟨prev, hprev, -⟩ := h.sized.carriageReturn_spec
    have hline := h.sized.cstr_carriageReturn hlt h.zero
    rwa [hprev] at hline
  have hempty : 0 ∉ (cli.carriageReturn.executed execute).line := by
    rw [line_executed]
    exact List.not_mem_nil
  by_cases hlen : cli.cmdLen = 0
  · -- an empty line does not count
    have hline : cli.line = [] := by rw [line, hlen, List.take_zero]
    rw [hline]
    exact h.submit_nil hexecute hlen
  · have hne : cli.line ≠ [] := by
      rw [← List.length_pos_iff, h.sized.length_line]
      exact Nat.pos_of_ne_zero hlen
    have hcmd : strlen (cli.cmd.set cli.cmdLen 0) ≤ cli.bufSize - 1 := by
      rw [strlen, hcstr, h.sized.length_line]
      omega
    obtain ⟨prev, hadd, -, hroot, hentries⟩ :=
      @addToHistory_entries { cli with cmd := cli.cmd.set cli.cmdLen 0 } h.sized.history htwo hcmd
    rw [carriageReturn, if_pos hlen, hadd] at hsized hempty ⊢
    have hshift : ∀ i < historySize, cstr (prev.getD (i + 1) []) =
        if cli.entry 1 = cli.line then cli.entry (i + 1)
        else if i = 0 then cli.line else cli.entry i := by
      intro i hi
      have hentry := hentries i (by rwa [h.historySize_eq])
      rw [hcstr] at hentry
      exact hentry
    have hstored : ∀ i < historySize, cstr (prev.getD (i + 1) []) =
        (recentLines historySize (lines ++ [cli.line])).getD i [] := by
      intro i hi
      rw [getD_recentLines_concat lines hne hi, hshift i hi]
      simp only [h.entry_one_eq_iff hne]
      split_ifs with hnewest hzero
      · exact h.stored i hi
      · rfl
      · obtain ⟨j, rfl⟩ := Nat.exists_eq_succ_of_ne_zero hzero
        exact h.stored j (Nat.lt_of_succ_lt hi)
    exact
      { sized := hsized
        bufSize_eq := h.bufSize_eq
        historySize_eq := h.historySize_eq
        zero := hempty
        root := hroot.trans h.root
        stored := hstored
        pos := Nat.zero_le _ }

theorem echoLoop_of_carriageReturn {i : ℕ} (hk : cli.kind i = .carriageReturn) (n : ℕ) :
    CliService.echoLoop execute cli i (n + 1) =
      ((CliService.echoLoop execute (cli.carriageReturn.executed execute) (i + 1) n).1,
        cstr cli.carriageReturn.cmd ::
          (CliService.echoLoop execute (cli.carriageReturn.executed execute) (i + 1) n).2) := by
  rw [CliService.echoLoop, CliService.echoByte, hk]

/-- What the loop of a read submits goes to the history. -/
theorem Remembers.echoLoop (h : Remembers bufSize historySize cli lines)
    (hexecute : ∀ cmd, (execute cmd).length = cmd.length) {i n : ℕ}
    (hshort : ∀ l ∈ (echoLoop execute cli i n).2, l.length < bufSize) :
    Remembers bufSize historySize (echoLoop execute cli i n).1
      (lines ++ (echoLoop execute cli i n).2) := by
  induction n generalizing cli lines i with
  | zero =>
      rw [CliService.echoLoop, List.append_nil]
      exact h
  | succ n ih =>
      by_cases hk : cli.kind i = .carriageReturn
      · rw [echoLoop_of_carriageReturn hk] at hshort ⊢
        have hline := hshort _ List.mem_cons_self
        rw [← h.bufSize_eq] at hline
        have hlt := cmdLen_lt_of_short h.sized h.zero hline
        have hnext := ih (h.submit hexecute hlt) fun l hl => hshort l (List.mem_cons_of_mem _ hl)
        rw [List.append_assoc, List.singleton_append] at hnext
        rw [h.sized.cstr_carriageReturn hlt h.zero]
        exact hnext
      · have hbyte := h.echoByte hk
        rw [CliService.echoLoop] at hshort ⊢
        rcases hecho : cli.echoByte i with ⟨cli', goOn⟩
        rw [hecho] at hbyte hshort
        cases goOn with
        | next => exact ih hbyte hshort
        | leave =>
            rw [List.append_nil]
            exact hbyte
        | submit =>
            have hsubmit : (cli.echoByte i).2 = .submit := by rw [hecho]
            exact absurd (echoByte_submit hsubmit) hk

theorem Remembers.received (h : Remembers bufSize historySize cli lines) (bytes : List UInt8)
    (hlen : bytes.length ≤ bufSize) :
    Remembers bufSize historySize (cli.received bytes) lines :=
  h.moved (l := cli.line) ⟨rfl, rfl, rfl, rfl, rfl⟩
    (h.sized.received (by rwa [h.bufSize_eq])) h.zero h.pos

/-- A read, with the lines submitted so far. -/
def submitStep (execute : List UInt8 → List UInt8) (s : CliService × List (List UInt8))
    (bytes : List UInt8) : Option (CliService × List (List UInt8)) :=
  (readStep execute s.1 bytes).map fun cli => (cli, s.2 ++ (s.1.echoRead execute bytes).2)

/-- After any reads in which the submitted lines are shorter than the buffer. -/
theorem remembers_run (bufSize : ℕ) (htwo : 2 ≤ historySize)
    (hexecute : ∀ cmd, (execute cmd).length = cmd.length) {reads : List (List UInt8)}
    (hrun : run (submitStep execute) (cliServiceStart bufSize historySize, []) reads =
      some (cli, lines)) (hshort : ∀ l ∈ lines, l.length < bufSize) :
    Remembers bufSize historySize cli lines := by
  have hstart : Remembers bufSize historySize (cliServiceStart bufSize historySize) [] := by
    have hentry : ∀ i, (cliServiceStart bufSize historySize).entry i = [] := by
      intro i
      rw [entry, prev, cliServiceStart, List.getD_eq_getElem?_getD, List.getElem?_replicate]
      split
      · exact cstr_append_replicate List.not_mem_nil bufSize
      · rfl
    exact
      { sized := cliServiceStart_sized bufSize htwo
        bufSize_eq := rfl
        historySize_eq := max_eq_left htwo
        zero := List.not_mem_nil
        root := hentry 0
        stored := fun i _ => by
          rw [hentry, recentLines, List.filter_nil, recent_nil]
          rfl
        pos := Nat.zero_le _ }
  have hstep : ∀ s bytes s',
      ((∀ l ∈ s.2, l.length < bufSize) → Remembers bufSize historySize s.1 s.2) →
      submitStep execute s bytes = some s' →
      (∀ l ∈ s'.2, l.length < bufSize) → Remembers bufSize historySize s'.1 s'.2 := by
    intro s bytes s' hs hread hlines
    obtain ⟨cli', hcli, rfl⟩ := Option.map_eq_some_iff.1 hread
    have hold := hs fun l hl => hlines l (List.mem_append_left _ hl)
    rw [readStep] at hcli
    split at hcli
    · rename_i hlen
      cases hcli
      have hfit : bytes.length ≤ bufSize := hold.bufSize_eq ▸ hlen.2
      exact (hold.received bytes hfit).echoLoop hexecute fun l hl =>
        hlines l (List.mem_append_right _ hl)
    · cases hcli
  exact run_invariant hstep (fun _ => hstart) hrun hshort

end Runs

/-! ## Browsing -/

/-- The key for the line before, `\033[A`. -/
def keyUp : List UInt8 := [0x1B, 0x5B, 0x41]

/-- The key for the line after, `\033[B`. -/
def keyDown : List UInt8 := [0x1B, 0x5B, 0x42]

/-- The editor after the key for the line before. -/
def pressUp (execute : List UInt8 → List UInt8) (cli : CliService) : CliService :=
  (cli.echoRead execute keyUp).1

/-- The editor after the key for the line after. -/
def pressDown (execute : List UInt8 → List UInt8) (cli : CliService) : CliService :=
  (cli.echoRead execute keyDown).1

/-- One more press up shows one more of the lines, newest first. -/
def Shows (execute : List UInt8 → List UInt8) (cli : CliService) (recent : List (List UInt8)) :
    Prop :=
  ∀ k < recent.length, ((pressUp execute)^[k + 1] cli).line = recent.getD k []

/-- As many presses down as up lead back to the empty line. -/
def Returns (execute : List UInt8 → List UInt8) (cli : CliService) (recent : List (List UInt8)) :
    Prop :=
  ∀ k ≤ recent.length, ((pressDown execute)^[k] ((pressUp execute)^[k] cli)).line = []

section Browse

variable {bufSize historySize : ℕ} {cli : CliService} {lines : List (List UInt8)}
  {execute : List UInt8 → List UInt8} {k : ℕ}

theorem kind_keyUp (cli : CliService) : (cli.received keyUp).kind 0 = .historyUp := by
  rw [kind, received_rbuf]
  rfl

theorem kind_keyDown (cli : CliService) : (cli.received keyDown).kind 0 = .historyDown := by
  rw [kind, received_rbuf]
  rfl

theorem historyUp_leave (cli : CliService) : cli.historyUp = (cli.historyUp.1, .leave) := by
  rw [historyUp]
  split
  · rfl
  · rfl

theorem pressUp_eq (execute : List UInt8 → List UInt8) (cli : CliService) :
    pressUp execute cli = (cli.received keyUp).historyUp.1 := by
  rw [pressUp, echoRead, keyUp, List.length_cons, echoLoop, echoByte, ← keyUp, kind_keyUp]
  simp only
  rw [historyUp_leave]

theorem pressDown_eq (execute : List UInt8 → List UInt8) (cli : CliService) :
    pressDown execute cli = (cli.received keyDown).historyDown.1 := by
  rw [pressDown, echoRead, keyDown, List.length_cons, echoLoop, echoByte, ← keyDown, kind_keyDown]
  rfl

theorem Remembers.pressUp (h : Remembers bufSize historySize cli lines) (hbuf : 3 ≤ bufSize) :
    Remembers bufSize historySize (CliService.pressUp execute cli) lines := by
  rw [pressUp_eq]
  exact (h.received keyUp hbuf).historyUp

theorem Remembers.pressDown (h : Remembers bufSize historySize cli lines) (hbuf : 3 ≤ bufSize) :
    Remembers bufSize historySize (CliService.pressDown execute cli) lines := by
  rw [pressDown_eq]
  exact (h.received keyDown hbuf).historyDown

/-- Where a press up leads: not behind the recent lines and not to the last place. -/
theorem Remembers.pressUp_spec (h : Remembers bufSize historySize cli lines)
    (execute : List UInt8 → List UInt8) (hbuf : 3 ≤ bufSize) :
    (CliService.pressUp execute cli).historyPos =
        min (cli.historyPos + 1) (min (recentLines historySize lines).length (historySize - 1)) ∧
      (CliService.pressUp execute cli).line =
        if (recentLines historySize lines).length < min (cli.historyPos + 1) (historySize - 1)
        then cli.line
        else (recentLines historySize lines).getD
          ((CliService.pressUp execute cli).historyPos - 1) [] := by
  have hmoved := (h.received keyUp hbuf).sized.moved_historyUp
  have hup : (cli.received keyUp).upPos = min (cli.historyPos + 1) (historySize - 1) := by
    rw [upPos, ← h.historySize_eq]
    rfl
  have hentry : (cli.received keyUp).entry = cli.entry := rfl
  have hline : (cli.received keyUp).line = cli.line := rfl
  have hle := h.pos
  have htwo := h.sized.two_le
  rw [h.historySize_eq] at htwo
  rw [hup, hentry, hline] at hmoved
  rw [pressUp_eq]
  obtain ⟨p, hp⟩ : ∃ p, min (cli.historyPos + 1) (historySize - 1) = p + 1 :=
    Nat.exists_eq_add_one.2 (by omega)
  have hsize : p < historySize := by omega
  rw [hp] at hmoved ⊢
  rw [hmoved.pos, hmoved.line]
  by_cases hlast : (recentLines historySize lines).length ≤ p
  · rw [if_pos ((h.entry_eq_nil_iff hsize).2 hlast), if_pos ((h.entry_eq_nil_iff hsize).2 hlast),
      if_pos (Nat.lt_succ_of_le hlast)]
    exact ⟨by omega, rfl⟩
  · rw [if_neg (mt (h.entry_eq_nil_iff hsize).1 hlast),
      if_neg (mt (h.entry_eq_nil_iff hsize).1 hlast), if_neg (mt Nat.le_of_lt_succ hlast)]
    exact ⟨by omega, h.stored p hsize⟩

/-- Where a press down leads. -/
theorem Remembers.pressDown_spec (h : Remembers bufSize historySize cli lines)
    (hbuf : 3 ≤ bufSize) : (CliService.pressDown execute cli).historyPos = cli.historyPos - 1 ∧
      (CliService.pressDown execute cli).line = cli.entry (cli.historyPos - 1) := by
  have hmoved := (h.received keyDown hbuf).sized.moved_historyDown
  rw [pressDown_eq]
  exact ⟨hmoved.pos, hmoved.line⟩

theorem Remembers.pressUp_iterate (h : Remembers bufSize historySize cli lines)
    (execute : List UInt8 → List UInt8)
    (hbuf : 3 ≤ bufSize) (k : ℕ) :
    Remembers bufSize historySize ((CliService.pressUp execute)^[k] cli) lines ∧
      (0 < k → ((CliService.pressUp execute)^[k] cli).historyPos = min (cli.historyPos + k)
        (min (recentLines historySize lines).length (historySize - 1))) := by
  induction k with
  | zero => exact ⟨h, fun hlt => absurd hlt (Nat.lt_irrefl 0)⟩
  | succ k ih =>
      obtain ⟨hrem, hpos⟩ := ih
      rw [Function.iterate_succ_apply']
      refine ⟨hrem.pressUp hbuf, fun _ => ?_⟩
      rw [(hrem.pressUp_spec execute hbuf).1]
      rcases Nat.eq_zero_or_pos k with rfl | hk
      · rfl
      · rw [hpos hk]
        omega

theorem Remembers.pressDown_iterate (h : Remembers bufSize historySize cli lines)
    (execute : List UInt8 → List UInt8)
    (hbuf : 3 ≤ bufSize) (k : ℕ) :
    Remembers bufSize historySize ((CliService.pressDown execute)^[k] cli) lines ∧
      ((CliService.pressDown execute)^[k] cli).historyPos = cli.historyPos - k := by
  induction k with
  | zero => exact ⟨h, rfl⟩
  | succ k ih =>
      obtain ⟨hrem, hpos⟩ := ih
      rw [Function.iterate_succ_apply']
      refine ⟨hrem.pressDown hbuf, ?_⟩
      rw [(hrem.pressDown_spec hbuf).1, hpos, Nat.sub_sub]

/-- From a place `k`, `k` presses down lead to the empty line. -/
theorem Remembers.line_pressDown_iterate (h : Remembers bufSize historySize cli lines)
    (hbuf : 3 ≤ bufSize) {k : ℕ} (hpos : cli.historyPos = k) (hk : 0 < k) :
    ((CliService.pressDown execute)^[k] cli).line = [] := by
  obtain ⟨n, rfl⟩ := Nat.exists_eq_add_one.2 hk
  obtain ⟨hrem, hn⟩ := h.pressDown_iterate execute hbuf n
  rw [Function.iterate_succ_apply', (hrem.pressDown_spec hbuf).2, hn, hpos,
    Nat.add_sub_cancel_left, Nat.sub_self]
  exact hrem.root

/-- The browsing is right when the lines leave a place free and it starts at the place 0. -/
theorem Remembers.shows_and_returns (h : Remembers bufSize historySize cli lines)
    (hbuf : 3 ≤ bufSize) (hline : cli.line = [])
    (hfree : (recentLines historySize lines).length < historySize)
    (hpos : cli.historyPos = 0 ∨ historySize = 2) :
    Shows execute cli (recentLines historySize lines) ∧
      Returns execute cli (recentLines historySize lines) := by
  have hplace : ∀ k, 0 < k → k ≤ (recentLines historySize lines).length →
      ((CliService.pressUp execute)^[k] cli).historyPos = k := by
    intro k hk hle
    have hpos' := h.pos
    rw [(h.pressUp_iterate execute hbuf k).2 hk]
    omega
  constructor
  · intro k hk
    have hkey := hplace (k + 1) (Nat.succ_pos k) hk
    rw [Function.iterate_succ_apply'] at hkey ⊢
    obtain ⟨hrem, hk'⟩ := h.pressUp_iterate execute hbuf k
    rw [(hrem.pressUp_spec execute hbuf).2, hkey, if_neg, Nat.add_sub_cancel]
    rcases Nat.eq_zero_or_pos k with rfl | hlt
    · rw [Function.iterate_zero_apply]
      omega
    · rw [hplace k hlt (Nat.le_of_lt hk)]
      omega
  · intro k hk
    rcases Nat.eq_zero_or_pos k with rfl | hlt
    · exact hline
    · exact (h.pressUp_iterate execute hbuf k).1.line_pressDown_iterate hbuf (hplace k hlt hk) hlt

/-- The oldest line of a full history is not reached. -/
theorem Remembers.not_shows_of_full (h : Remembers bufSize historySize cli lines)
    (hbuf : 3 ≤ bufSize) (hfull : (recentLines historySize lines).length = historySize) :
    ¬ Shows execute cli (recentLines historySize lines) := by
  intro hshows
  have htwo := h.sized.two_le
  rw [h.historySize_eq] at htwo
  obtain ⟨n, hn⟩ : ∃ n, historySize = n + 2 := ⟨historySize - 2, by omega⟩
  have hlast := hshows (n + 1) (by omega)
  obtain ⟨hrem, hpos⟩ := h.pressUp_iterate execute hbuf (n + 1)
  obtain ⟨-, hpos'⟩ := h.pressUp_iterate execute hbuf (n + 2)
  have hplace := hpos' (Nat.succ_pos _)
  have hle := hrem.pos
  rw [Function.iterate_succ_apply'] at hlast hplace
  rw [(hrem.pressUp_spec execute hbuf).2, if_neg (by omega), hplace] at hlast
  have hne : (recentLines historySize lines).getD n [] ≠
      (recentLines historySize lines).getD (n + 1) [] := by
    rw [List.getD_eq_getElem _ _ (by omega), List.getD_eq_getElem _ _ (by omega)]
    exact recent_ne_succ (by rw [← recentLines]; omega)
  apply hne
  rw [← hlast]
  congr 1
  omega

/-- From an empty line at another place than 0, the newest line is not shown or the empty one is
not returned to. -/
theorem Remembers.pos_of_shows (h : Remembers bufSize historySize cli lines)
    (hbuf : 3 ≤ bufSize) (hline : cli.line = [])
    (hshows : Shows execute cli (recentLines historySize lines))
    (hreturns : Returns execute cli (recentLines historySize lines)) :
    cli.historyPos = 0 ∨ historySize = 2 := by
  by_contra hcon
  have htwo := h.sized.two_le
  have hle := h.pos
  have hlt := h.sized.pos
  rw [h.historySize_eq] at htwo hlt
  have hone : 0 < (recentLines historySize lines).length := by omega
  have hfirst := hshows 0 hone
  obtain ⟨hpos, hup⟩ := h.pressUp_spec execute hbuf
  have hdown := hreturns 1 hone
  rw [Function.iterate_one, Function.iterate_one,
    ((h.pressUp hbuf).pressDown_spec hbuf).2, hpos] at hdown
  rw [Function.iterate_one, hup] at hfirst
  by_cases hlast : (recentLines historySize lines).length < min (cli.historyPos + 1)
      (historySize - 1)
  · rw [if_pos hlast, hline, List.getD_eq_getElem _ _ hone] at hfirst
    exact ne_nil_of_mem_recentLines (List.getElem_mem _) hfirst.symm
  · obtain ⟨p, hp⟩ : ∃ p, min (cli.historyPos + 1) (min (recentLines historySize lines).length
        (historySize - 1)) - 1 = p + 1 := Nat.exists_eq_add_one.2 (by omega)
    rw [hp, (h.pressUp hbuf).entry_eq_nil_iff (by omega)] at hdown
    omega

/-- The reads stay inside the buffers, the history holds the recent ones of the lines that they
submit, newest first, and at an empty prompt the presses up show each of them and the presses
down lead back. -/
structure Keeps (execute : List UInt8 → List UInt8) (bufSize historySize : ℕ)
    (reads : List (List UInt8)) (cli : CliService) (lines : List (List UInt8)) : Prop where
  inBounds : Along (InBounds execute) (readStep execute) (cliServiceStart bufSize historySize)
    reads
  stored : ∀ i < historySize, cli.entry (i + 1) = (recentLines historySize lines).getD i []
  browsed : cli.line = [] → Shows execute cli (recentLines historySize lines) ∧
    Returns execute cli (recentLines historySize lines)

/-- For reads in which the submitted lines are shorter than the buffer, the history is kept
exactly when every read fits and, at an empty prompt, the recent lines leave a place free and the
browsing starts at the place 0; with two places it can start at any one. -/
theorem history_iff (hbuf : 3 ≤ bufSize) (htwo : 2 ≤ historySize)
    (hexecute : ∀ cmd, (execute cmd).length = cmd.length) {reads : List (List UInt8)}
    (hrun : run (submitStep execute) (cliServiceStart bufSize historySize, []) reads =
      some (cli, lines)) (hshort : ∀ l ∈ lines, l.length < bufSize) :
    Keeps execute bufSize historySize reads cli lines ↔
      Along Fits (readStep execute) (cliServiceStart bufSize historySize) reads ∧
        (cli.line = [] → (recentLines historySize lines).length < historySize ∧
          (cli.historyPos = 0 ∨ historySize = 2)) := by
  have hrem := remembers_run bufSize htwo hexecute hrun hshort
  have hin := (cliServiceStart_sized bufSize htwo).along_inBounds hexecute reads
  constructor
  · rintro ⟨hbounds, -, hbrowsed⟩
    refine ⟨hin.1 hbounds, fun hline => ?_⟩
    obtain ⟨hshows, hreturns⟩ := hbrowsed hline
    have hle := length_recentLines_le historySize lines
    have hnot : (recentLines historySize lines).length ≠ historySize :=
      fun hfull => hrem.not_shows_of_full hbuf hfull hshows
    exact ⟨Nat.lt_of_le_of_ne hle hnot, hrem.pos_of_shows hbuf hline hshows hreturns⟩
  · rintro ⟨hfits, hplace⟩
    refine ⟨hin.2 hfits, hrem.stored, fun hline => ?_⟩
    obtain ⟨hfree, hpos⟩ := hplace hline
    exact hrem.shows_and_returns hbuf hline hfree hpos

/-- The line `ls` is shown by one press up. -/
theorem history_iff_ls :
    Keeps id 256 10 [[0x6C, 0x73, 0x0D]]
      ((cliServiceStart 256 10).echoRead id [0x6C, 0x73, 0x0D]).1 [[0x6C, 0x73]] := by
  have hrun : run (submitStep id) (cliServiceStart 256 10, []) [[0x6C, 0x73, 0x0D]] =
      some (((cliServiceStart 256 10).echoRead id [0x6C, 0x73, 0x0D]).1, [[0x6C, 0x73]]) := by
    decide +kernel
  exact (history_iff (by decide) (by decide) (fun _ => rfl) hrun (by decide)).2 (by decide +kernel)

/-- The ten lines `a` to `j`, one a read. -/
def tenLines : List (List UInt8) :=
  [[0x61], [0x62], [0x63], [0x64], [0x65], [0x66], [0x67], [0x68], [0x69], [0x6A]]

/-- Two lines, of which the newest one is recalled and erased. -/
def erasedRecall : List (List UInt8) := [[0x61, 0x0D], [0x62, 0x0D], keyUp, [0x7F]]

/-- After ten lines in a history of ten places, the oldest one is not shown by ten presses up. And
where a recalled line was erased, one press up does not show the newest line. -/
theorem not_history :
    (∃ cli, run (submitStep id) (cliServiceStart 256 10, []) (tenLines.map (· ++ [0x0D])) =
        some (cli, tenLines) ∧ ¬ Keeps id 256 10 (tenLines.map (· ++ [0x0D])) cli tenLines) ∧
      ∃ cli, run (submitStep id) (cliServiceStart 256 10, []) erasedRecall =
        some (cli, [[0x61], [0x62]]) ∧ ¬ Keeps id 256 10 erasedRecall cli [[0x61], [0x62]] := by
  constructor
  · have hten : (run (submitStep id) (cliServiceStart 256 10, [])
        (tenLines.map (· ++ [0x0D]))).map (fun s => (s.1.line, s.2)) = some ([], tenLines) := by
      decide +kernel
    obtain ⟨⟨cli, lines⟩, hrun, heq⟩ := Option.map_eq_some_iff.1 hten
    obtain ⟨hline, rfl⟩ := Prod.mk.inj heq
    have hrem := remembers_run 256 (by decide) (fun _ => rfl) hrun (by decide)
    refine ⟨cli, hrun, fun h => ?_⟩
    exact hrem.not_shows_of_full (by decide) (by decide) (h.browsed hline).1
  · have htwo : (run (submitStep id) (cliServiceStart 256 10, []) erasedRecall).map
        (fun s => (s.1.line, s.1.historyPos, s.2)) = some ([], 1, [[0x61], [0x62]]) := by
      decide +kernel
    obtain ⟨⟨cli, lines⟩, hrun, heq⟩ := Option.map_eq_some_iff.1 htwo
    obtain ⟨hline, heq⟩ := Prod.mk.inj heq
    obtain ⟨hpos, rfl⟩ := Prod.mk.inj heq
    have hrem := remembers_run 256 (by decide) (fun _ => rfl) hrun (by decide)
    refine ⟨cli, hrun, fun h => ?_⟩
    obtain ⟨hshows, hreturns⟩ := h.browsed hline
    have hplace := hrem.pos_of_shows (by decide) hline hshows hreturns
    simp only at hpos
    omega

end Browse

end CliService

end Catpilot
