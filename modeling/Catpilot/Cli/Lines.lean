import Catpilot.Cli.Bounds
import Catpilot.LineEdit.Basic

/-!
# The lines that the editor submits

Against a line editor that knows no reads. `cli_echo` takes a read that is an arrow key
without its escape byte for the arrow key, and drops the rest of a read behind a rubout of
an empty line. Apart from these and from echoes that have no room, the lines are the same,
however the input is cut into reads.
-/

namespace Catpilot

open CString Transition
open LineEdit (Key)

/-- The key that a byte stands for. -/
def key (c : UInt8) : Key UInt8 :=
  if c = 0x0D then .enter else if c = 0x08 ∨ c = 0x7F then .delete else .char c

/-- Printable characters, backspace and DEL, and the carriage return. -/
def Typed (c : UInt8) : Prop := c = 0x0D ∨ c = 0x08 ∨ c = 0x7F ∨ 0x20 ≤ c ∧ c < 0x7F

instance (c : UInt8) : Decidable (Typed c) := inferInstanceAs (Decidable (_ ∨ _))

/-- How `cli_echo` takes the byte of a key. -/
def keyKind : Key UInt8 → EchoKind
  | .char _ => .printable
  | .delete => .rubout
  | .enter => .carriageReturn

/-- How `cli_echo` takes the byte of a key in the read `bytes`: every character of an arrow
key without its escape byte is taken for the arrow key. -/
def readKind (bytes : List UInt8) : Key UInt8 → EchoKind
  | .char _ =>
      if bytes <+: [0x5B, 0x41] then .historyUp
      else if bytes <+: [0x5B, 0x42] then .historyDown
      else .printable
  | .delete => .rubout
  | .enter => .carriageReturn

theorem readKind_of_not_prefix {bytes : List UInt8} (hup : ¬ bytes <+: [0x5B, 0x41])
    (hdown : ¬ bytes <+: [0x5B, 0x42]) : readKind bytes = keyKind := by
  funext k
  cases k with
  | char c => rw [readKind, if_neg hup, if_neg hdown, keyKind]
  | delete => rfl
  | enter => rfl

namespace CliService

/-- The line in `cmd`. -/
def line (cli : CliService) : List UInt8 := cli.cmd.take cli.cmdLen

/-- The lines that are submitted along reads that stay inside the buffers. -/
def lines (execute : List UInt8 → List UInt8) : CliService → List (List UInt8) →
    Option (List (List UInt8))
  | _, [] => some []
  | cli, bytes :: reads =>
      if cli.InBounds execute bytes then
        (lines execute (cli.echoRead execute bytes).1 reads).map
          ((cli.echoRead execute bytes).2 ++ ·)
      else none

/-- The lines of the reads are those of the line editor for the whole input. -/
def Agrees (execute : List UInt8 → List UInt8) (cli : CliService) (reads : List (List UInt8)) :
    Prop :=
  cli.lines execute reads = some (LineEdit.submitted cli.line (reads.flatten.map key))

instance (execute : List UInt8 → List UInt8) (cli : CliService) (reads : List (List UInt8)) :
    Decidable (cli.Agrees execute reads) :=
  inferInstanceAs (Decidable (_ = _))

/-- After each of the reads, the lines so far are those of the line editor, and so is the one
that a carriage return then submits. -/
def Tracks (execute : List UInt8 → List UInt8) (cli : CliService) (reads : List (List UInt8)) :
    Prop :=
  ∀ n, cli.Agrees execute (reads.take n) ∧ cli.Agrees execute (reads.take n ++ [[0x0D]])

/-- What is left of a read when the loop is left. -/
def skipped (cli : CliService) (bytes : List UInt8) : List UInt8 :=
  bytes.drop ((cli.received bytes).handledFrom 0 bytes.length).length

/-- A read that changes the line as its keys do: an arrow key without its escape byte
happens to bring its own characters back, and what the loop does not handle comes to
nothing. -/
def Literal (cli : CliService) (bytes : List UInt8) : Prop :=
  -- a read is compared as far as it goes, so a bracket alone is an arrow key
  if bytes <+: [0x5B, 0x41] then cstr cli.up.getLastCommand = cli.line ++ bytes
  else if bytes <+: [0x5B, 0x42] then cstr (cli.prev (cli.historyPos - 1)) = cli.line ++ bytes
  else
    LineEdit.line [] ((cli.skipped bytes).map key) = [] ∧
      LineEdit.submitted [] ((cli.skipped bytes).map key) = []

instance (cli : CliService) (bytes : List UInt8) : Decidable (cli.Literal bytes) :=
  inferInstanceAs (Decidable (ite _ _ (ite _ _ _)))

/-- A read whose echo has room and that is taken for what it is. -/
def Faithful (cli : CliService) (bytes : List UInt8) : Prop :=
  cli.Fits bytes ∧ cli.Literal bytes

instance (cli : CliService) (bytes : List UInt8) : Decidable (cli.Faithful bytes) :=
  inferInstanceAs (Decidable (_ ∧ _))

end CliService

theorem Typed.ne_zero {c : UInt8} (h : Typed c) : c ≠ 0 := by
  rintro rfl
  revert h
  decide

/-- A printable character is none of the bytes that `cli_echo` tests for. -/
theorem class_of_printable {c : UInt8} (hlow : 0x20 ≤ c) (hhigh : c < 0x7F) :
    c ≠ 0x0D ∧ c ≠ 0x08 ∧ c ≠ 0x7F ∧ ¬ (c < 0x20 ∨ 127 < c) := by
  refine ⟨?_, ?_, ?_, ?_⟩
  · rintro rfl
    exact absurd hlow (by decide)
  · rintro rfl
    exact absurd hlow (by decide)
  · rintro rfl
    exact absurd hhigh (by decide)
  · exact not_or.2 ⟨UInt8.not_lt.2 hlow, UInt8.not_lt.2 (UInt8.le_of_lt hhigh)⟩

theorem eq_of_key_eq_char {b c : UInt8} (h : key b = .char c) : b = c := by
  rw [key] at h
  split_ifs at h
  cases h
  rfl

theorem Typed.ne_escape {c : UInt8} (h : Typed c) : c ≠ 0x1B := by
  rintro rfl
  revert h
  decide

namespace CliService

section Kinds

variable {cli : CliService} {bytes : List UInt8} {i : ℕ}

/-- The front of `rbuf` after a read. -/
theorem received_rbuf (cli : CliService) (bytes : List UInt8) :
    (cli.received bytes).rbuf = bytes ++ cli.rbuf.drop bytes.length := by
  rw [received, Memory.memcpy, List.take_zero, List.nil_append, Nat.zero_add]

/-- The comparison of a whole read with a text looks whether the text begins with the
read. -/
theorem strncmpEq_received (hbytes : 0 ∉ bytes) {text : List UInt8} (htext : 0 ∉ text) :
    strncmpEq (cli.received bytes).rbuf text (cli.received bytes).rlen = true ↔
      bytes <+: text := by
  have hpos : ∀ c ∈ bytes, decide (c ≠ 0) = true := by
    intro c hc
    rw [decide_eq_true_eq]
    rintro rfl
    exact hbytes hc
  have hcstr : (cstr (cli.received bytes).rbuf).take bytes.length = bytes := by
    rw [received_rbuf, cstr, List.takeWhile_append_of_pos hpos]
    exact List.take_left
  rw [strncmpEq, decide_eq_true_eq, cstr_of_not_mem htext, List.prefix_iff_eq_take]
  exact (congrArg (· = _) hcstr).to_iff

/-- The class of a typed byte. -/
theorem kind_received (htyped : ∀ c ∈ bytes, Typed c) (hi : i < bytes.length) :
    (cli.received bytes).kind i = readKind bytes (key ((cli.received bytes).rbuf.getD i 0)) := by
  have hbytes : 0 ∉ bytes := fun hmem => (htyped 0 hmem).ne_zero rfl
  have hlen : i < (cli.received bytes).rbuf.length := by
    rw [received_rbuf, List.length_append]
    exact Nat.lt_add_right _ hi
  have hbyte : (cli.received bytes).rbuf.getD i 0 ∈ bytes := by
    rw [received_rbuf, List.getD_append _ _ _ _ hi, List.getD_eq_getElem _ _ hi]
    exact List.getElem_mem hi
  have hcmp : ∀ text : List UInt8, 0 ∉ text →
      strncmpEq (cli.received bytes).rbuf text (cli.received bytes).rlen =
        decide (bytes <+: text) := by
    intro text htext
    rw [Bool.eq_iff_iff, strncmpEq_received hbytes htext, decide_eq_true_eq]
  -- no sequence begins with a typed byte
  have hescape : ∀ text : List UInt8, ¬ bytes <+: 0x1B :: text := by
    intro text hprefix
    cases bytes with
    | nil => exact absurd hi (Nat.not_lt_zero i)
    | cons b bytes =>
        exact (htyped b List.mem_cons_self).ne_escape (List.cons_prefix_cons.1 hprefix).1
  have hdelete : strncmpEq [0x1B, 0x5B, 0x33, 0x7E] ((cli.received bytes).rbuf.drop i) 4 =
      false := by
    rw [rbuf_drop hlen, strncmpEq, decide_eq_false_iff_not, cstr_cons (htyped _ hbyte).ne_zero,
      cstr_of_not_mem (by decide)]
    intro heq
    exact (htyped _ hbyte).ne_escape (List.cons.inj heq).1.symm
  rw [kind]
  simp only [hdelete, hcmp [0x5B, 0x41] (by decide), hcmp [0x5B, 0x42] (by decide),
    hcmp [0x1B, 0x5B, 0x41] (by decide), hcmp [0x1B, 0x5B, 0x42] (by decide), hescape,
    decide_eq_true_eq, Bool.false_eq_true, or_false, false_or]
  generalize (cli.received bytes).rbuf.getD i 0 = c at hbyte
  rcases htyped c hbyte with rfl | rfl | rfl | ⟨hlow, hhigh⟩
  · rfl
  · rfl
  · rfl
  · obtain ⟨hreturn, hback, hdel, hclass⟩ := class_of_printable hlow hhigh
    simp only [hreturn, hback, hdel, hclass, or_self, if_false, key, readKind]

end Kinds

section Line

variable {cli : CliService}

theorem Sized.length_line (h : cli.Sized) : cli.line.length = cli.cmdLen := by
  rw [line, List.length_take, h.cmd, min_eq_left h.cmdLen]

theorem line_executed (execute : List UInt8 → List UInt8) (cli : CliService) :
    (cli.executed execute).line = [] := List.take_zero

theorem Sized.line_carriageReturn (h : cli.Sized) : cli.carriageReturn.line = cli.line := by
  obtain ⟨prev, hprev, -⟩ := h.carriageReturn_spec
  rw [hprev]
  exact List.take_set_of_le (le_refl _)

/-- The executor gets the line. -/
theorem Sized.cstr_carriageReturn (h : cli.Sized) (hlt : cli.cmdLen < cli.bufSize)
    (hzero : 0 ∉ cli.line) : cstr cli.carriageReturn.cmd = cli.line := by
  obtain ⟨prev, hprev, -⟩ := h.carriageReturn_spec
  rw [hprev, List.set_eq_take_append_cons_drop, if_pos (h.cmd.symm ▸ hlt)]
  exact cstr_append_zero hzero _

theorem Sized.line_rubout (h : cli.Sized) : cli.rubout.1.line = cli.line.dropLast := by
  have hcut : cli.line.dropLast = cli.cmd.take (cli.cmdLen - 1) := by
    rw [List.dropLast_eq_take, h.length_line, line, List.take_take, min_eq_left (Nat.sub_le ..)]
  rw [hcut, CliService.rubout]
  split
  · rename_i hlen
    rw [line, hlen]
  · rfl

theorem Sized.line_printable (h : cli.Sized) (hlt : cli.cmdLen < cli.bufSize) (c : UInt8) :
    (cli.printable c).1.line = cli.line ++ [c] := by
  have hlen : cli.cmdLen < (cli.cmd.set cli.cmdLen c).length := by
    rw [List.length_set, h.cmd]
    exact hlt
  have hline : (cli.cmd.set cli.cmdLen c).take (cli.cmdLen + 1) = cli.line ++ [c] := by
    rw [List.take_succ_eq_append_getElem hlen, List.take_set_of_le (le_refl _),
      List.getElem_set_self, line]
  rw [← hline, CliService.printable]
  exact congrArg (fun r : CliService × EchoNext => r.1.line) (if_pos hlt)

/-- A character behind a line that fills `cmd` is dropped. -/
theorem line_printable_of_full (hfull : ¬ cli.cmdLen < cli.bufSize) (c : UInt8) :
    (cli.printable c).1.line = cli.line := by
  rw [printable]
  exact congrArg (fun r : CliService × EchoNext => r.1.line) (if_neg hfull)

/-- The line is now one of the history. -/
theorem line_recallCommand {last : List UInt8} (hlast : strlen last ≤ cli.bufSize - 1) :
    (cli.recallCommand last).line = cstr last := by
  have htake : (cstr last).take cli.bufSize = cstr last :=
    List.take_of_length_le (hlast.trans (Nat.sub_le ..))
  have hcopy : (strncpy cli.cmd last cli.bufSize).take (strlen last) = cstr last := by
    rw [strncpy_eq, htake, List.append_assoc]
    exact List.take_left
  exact hcopy

theorem Sized.line_historyUp (h : cli.Sized) :
    cli.historyUp.1.line =
      if strlen cli.up.getLastCommand = 0 then cli.line else cstr cli.up.getLastCommand := by
  have hlast := h.up.strlen_prev (le_of_lt h.up.pos)
  rw [CliService.historyUp]
  split
  · rw [up_eq]
    rfl
  · exact line_recallCommand hlast

theorem Sized.line_historyDown (h : cli.Sized) :
    cli.historyDown.1.line = cstr (cli.prev (cli.historyPos - 1)) := by
  have hpos : cli.historyPos - 1 ≤ cli.historySize := (Nat.sub_le ..).trans (le_of_lt h.pos)
  have hlast := h.strlen_prev hpos
  rw [CliService.historyDown]
  exact line_recallCommand hlast

theorem ne_zero_of_printable {i : ℕ} (hk : cli.kind i = .printable) : cli.rbuf.getD i 0 ≠ 0 := by
  intro hzero
  have hlow : (0 : UInt8) < 0x20 := by decide
  rw [kind] at hk
  simp only [hzero, hlow, true_or, if_true] at hk
  split_ifs at hk

/-- A line has no zero byte. -/
theorem Sized.zero_not_mem_echoByte (h : cli.Sized) (hzero : 0 ∉ cli.line) (i : ℕ) :
    0 ∉ (cli.echoByte i).1.line := by
  rw [CliService.echoByte]
  cases hk : cli.kind i with
  | carriageReturn =>
      rw [h.line_carriageReturn]
      exact hzero
  | rubout =>
      rw [h.line_rubout]
      exact fun hmem => hzero (List.mem_of_mem_dropLast hmem)
  | historyUp =>
      rw [h.line_historyUp]
      split
      · exact hzero
      · exact not_mem_cstr _
  | historyDown =>
      rw [h.line_historyDown]
      exact not_mem_cstr _
  | ignored => exact hzero
  | printable =>
      by_cases hlt : cli.cmdLen < cli.bufSize
      · rw [h.line_printable hlt, List.mem_append, List.mem_singleton, not_or]
        exact ⟨hzero, (ne_zero_of_printable hk).symm⟩
      · rw [line_printable_of_full hlt]
        exact hzero

theorem Sized.zero_not_mem_echoLoop (h : cli.Sized) {execute : List UInt8 → List UInt8}
    (hexecute : ∀ cmd, (execute cmd).length = cmd.length) (hzero : 0 ∉ cli.line) (i n : ℕ) :
    0 ∉ (CliService.echoLoop execute cli i n).1.line := by
  induction n generalizing cli i with
  | zero => exact hzero
  | succ n ih =>
      have hsized := h.echoByte i
      have hbyte := h.zero_not_mem_echoByte hzero i
      rw [CliService.echoLoop]
      rcases hecho : cli.echoByte i with ⟨cli', goOn⟩
      rw [hecho] at hsized hbyte
      cases goOn with
      | next => exact ih hsized hbyte (i + 1)
      | leave => exact hbyte
      | submit =>
          have hempty : 0 ∉ (cli'.executed execute).line := by
            rw [line_executed]
            exact List.not_mem_nil
          exact ih (hsized.executed hexecute) hempty (i + 1)

/-- Nor has it one after a read. -/
theorem Sized.zero_not_mem_echoRead (h : cli.Sized) {execute : List UInt8 → List UInt8}
    (hexecute : ∀ cmd, (execute cmd).length = cmd.length) (hzero : 0 ∉ cli.line)
    {bytes : List UInt8} (hlen : bytes.length ≤ cli.bufSize) :
    0 ∉ (cli.echoRead execute bytes).1.line :=
  (h.received hlen).zero_not_mem_echoLoop hexecute hzero 0 bytes.length

end Line

/-- From the line `l` on, the loop does with `bytes` what the line editor does, apart from
`rest`, which it left behind with an empty line. -/
structure Follows (l bytes rest : List UInt8) (r : CliService × List (List UInt8)) : Prop where
  line : LineEdit.line l (bytes.map key) = LineEdit.line r.1.line (rest.map key)
  submitted : LineEdit.submitted l (bytes.map key) =
    r.2 ++ LineEdit.submitted r.1.line (rest.map key)
  empty : rest = [] ∨ r.1.line = []

theorem Follows.edit {l bytes rest : List UInt8} {r : CliService × List (List UInt8)} {c : UInt8}
    (hc : key c ≠ .enter) (h : Follows ((key c).edit l) bytes rest r) :
    Follows l (c :: bytes) rest r where
  line := h.line
  submitted := by
    rw [List.map_cons, LineEdit.submitted_cons_of_ne hc]
    exact h.submitted
  empty := h.empty

theorem Follows.enter {l bytes rest : List UInt8} {r : CliService × List (List UInt8)} {c : UInt8}
    (hc : key c = .enter) (h : Follows [] bytes rest r) :
    Follows l (c :: bytes) rest (r.1, l :: r.2) where
  line := by
    rw [List.map_cons, hc]
    exact h.line
  submitted := by
    rw [List.map_cons, hc, LineEdit.submitted_enter, h.submitted]
    rfl
  empty := h.empty

theorem Follows.eq_iff {l bytes rest : List UInt8} {r : CliService × List (List UInt8)}
    (h : Follows l bytes rest r) :
    r.1.line = LineEdit.line l (bytes.map key) ∧ r.2 = LineEdit.submitted l (bytes.map key) ↔
      LineEdit.line [] (rest.map key) = [] ∧ LineEdit.submitted [] (rest.map key) = [] := by
  rw [h.line, h.submitted, List.self_eq_append_right]
  rcases h.empty with hrest | hempty
  · subst hrest
    simp
  · rw [hempty]
    exact and_congr_left fun _ => eq_comm

section Loop

variable {cli : CliService} {execute : List UInt8 → List UInt8}

/-- The rest of a read that the loop goes on with. -/
theorem Alike.handledFrom_succ {cli' : CliService} (h : Alike cli cli') {i : ℕ}
    (hafter : (cli.kind i).lineAfter cli.bufSize cli.cmdLen = some cli'.cmdLen) (n : ℕ) :
    cli.handledFrom i (n + 1) = (cli.kind i, cli.cmdLen) :: cli'.handledFrom (i + 1) n := by
  rw [h.handledFrom, CliService.handledFrom, List.range'_succ, List.map_cons, handled_cons, hafter]

theorem handledFrom_of_none {i : ℕ}
    (hafter : (cli.kind i).lineAfter cli.bufSize cli.cmdLen = none) (n : ℕ) :
    cli.handledFrom i (n + 1) = [(cli.kind i, cli.cmdLen)] := by
  rw [CliService.handledFrom, List.range'_succ, List.map_cons, handled_cons, hafter]

/-- What the byte of a key does: it changes the line as the key does, or it is a rubout of
an empty line, or it submits the line. -/
theorem Sized.echoByte_key (h : cli.Sized) (hlt : cli.cmdLen < cli.bufSize) {i : ℕ}
    (hk : cli.kind i = keyKind (key (cli.rbuf.getD i 0))) :
    (∃ cli', cli.echoByte i = (cli', .next) ∧ key (cli.rbuf.getD i 0) ≠ .enter ∧
        (cli.kind i).lineAfter cli.bufSize cli.cmdLen = some cli'.cmdLen ∧
        cli'.line = (key (cli.rbuf.getD i 0)).edit cli.line) ∨
      (cli.echoByte i = (cli, .leave) ∧ key (cli.rbuf.getD i 0) = .delete ∧
        (cli.kind i).lineAfter cli.bufSize cli.cmdLen = none ∧ cli.line = []) ∨
      (cli.echoByte i = (cli.carriageReturn, .submit) ∧ key (cli.rbuf.getD i 0) = .enter ∧
        (cli.kind i).lineAfter cli.bufSize cli.cmdLen = some 0) := by
  cases hc : key (cli.rbuf.getD i 0) with
  | char c =>
      rw [hc, keyKind] at hk
      obtain ⟨cli', hecho, hafter, -⟩ := goes_of_printable h hk
      have hline := h.line_printable hlt (cli.rbuf.getD i 0)
      have hcli' : cli' = (cli.printable (cli.rbuf.getD i 0)).1 := by
        rw [CliService.echoByte, hk] at hecho
        exact (congrArg Prod.fst hecho).symm
      refine Or.inl ⟨cli', hecho, by simp, hafter, ?_⟩
      rw [hcli', hline, eq_of_key_eq_char hc]
      rfl
  | delete =>
      rw [hc, keyKind] at hk
      by_cases hlen : cli.cmdLen = 0
      · refine Or.inr (Or.inl ⟨echoByte_of_empty hk hlen, rfl, ?_, ?_⟩)
        · rw [hk]
          exact if_pos hlen
        · exact List.eq_nil_of_length_eq_zero (h.length_line.trans hlen)
      · obtain ⟨cli', hecho, hafter, -⟩ := goes_of_rubout hk hlen
        have hcli' : cli' = cli.rubout.1 := by
          rw [CliService.echoByte, hk] at hecho
          exact (congrArg Prod.fst hecho).symm
        refine Or.inl ⟨cli', hecho, by simp, hafter, ?_⟩
        rw [hcli', h.line_rubout]
        rfl
  | enter =>
      rw [hc, keyKind] at hk
      refine Or.inr (Or.inr ⟨?_, rfl, ?_⟩)
      · rw [CliService.echoByte, hk]
      · rw [hk]
        rfl

/-- The loop does what the line editor does with the bytes that it handles. -/
theorem Sized.follows_echoLoop (h : cli.Sized)
    (hexecute : ∀ cmd, (execute cmd).length = cmd.length) (hzero : 0 ∉ cli.line) {i : ℕ}
    {bytes : List UInt8} (hbytes : bytes <+: cli.rbuf.drop i)
    (hkind : ∀ j < bytes.length, cli.kind (i + j) = keyKind (key (cli.rbuf.getD (i + j) 0)))
    (hline : ∀ stream, stream <+: bytes →
      (LineEdit.line cli.line (stream.map key)).length < cli.bufSize) :
    Follows cli.line bytes (bytes.drop (cli.handledFrom i bytes.length).length)
      (CliService.echoLoop execute cli i bytes.length) := by
  induction bytes generalizing cli i with
  | nil => exact ⟨rfl, rfl, Or.inl rfl⟩
  | cons c bytes ih =>
      have hi : i < cli.rbuf.length := by
        by_contra hle
        rw [List.drop_of_length_le (Nat.le_of_not_lt hle), List.prefix_nil] at hbytes
        cases hbytes
      rw [rbuf_drop hi, List.cons_prefix_cons] at hbytes
      obtain ⟨rfl, hbytes⟩ := hbytes
      have hlt : cli.cmdLen < cli.bufSize := by
        rw [← h.length_line]
        exact hline [] List.nil_prefix
      -- the rest of the read, from the state after this byte
      have hrest : ∀ cli' : CliService, cli'.Sized → Alike cli cli' → 0 ∉ cli'.line →
          cli'.line = (key (cli.rbuf.getD i 0)).edit cli.line →
          Follows cli'.line bytes (bytes.drop (cli'.handledFrom (i + 1) bytes.length).length)
            (CliService.echoLoop execute cli' (i + 1) bytes.length) := by
        intro cli' hsized halike hzero' hedit
        apply ih hsized hzero'
        · rw [halike.rbuf]
          exact hbytes
        · intro j hj
          rw [halike.kind, halike.rbuf, Nat.add_right_comm]
          exact hkind (j + 1) (Nat.succ_lt_succ hj)
        · intro stream hstream
          rw [halike.bufSize, hedit]
          exact hline (cli.rbuf.getD i 0 :: stream) (List.cons_prefix_cons.2 ⟨rfl, hstream⟩)
      have hk : cli.kind i = keyKind (key (cli.rbuf.getD i 0)) := hkind 0 (Nat.succ_pos _)
      rw [List.length_cons, CliService.echoLoop]
      rcases h.echoByte_key hlt hk with
        ⟨cli', hecho, hkey, hafter, hedit⟩ | ⟨hecho, hkey, hafter, hempty⟩ | ⟨hecho, hkey, hafter⟩
      · have hsized := h.echoByte i
        have halike := h.alike_echoByte i
        have hzero' := h.zero_not_mem_echoByte hzero i
        rw [hecho] at hsized halike hzero'
        have hfollows := hrest cli' hsized halike hzero' hedit
        rw [hedit] at hfollows
        rw [hecho, Alike.handledFrom_succ halike hafter, List.length_cons, List.drop_succ_cons]
        exact hfollows.edit hkey
      · have hleft : Follows [] bytes bytes (cli, []) :=
          ⟨congrArg (LineEdit.line · _) hempty.symm,
            congrArg (LineEdit.submitted · _) hempty.symm, Or.inr hempty⟩
        rw [hecho, handledFrom_of_none hafter, hempty]
        apply Follows.edit
        · rw [hkey]
          simp
        · rw [hkey]
          exact hleft
      · have hsized := h.carriageReturn.executed hexecute
        have halike := h.alike_carriageReturn.trans (alike_executed execute _)
        have hempty := line_executed execute cli.carriageReturn
        have hzero' : 0 ∉ (cli.carriageReturn.executed execute).line := by
          rw [hempty]
          exact List.not_mem_nil
        have hfollows := hrest _ hsized halike hzero' (by rw [hempty, hkey]; rfl)
        rw [hempty] at hfollows
        rw [hecho, Alike.handledFrom_succ halike hafter, List.length_cons, List.drop_succ_cons]
        simp only [h.cstr_carriageReturn hlt hzero]
        exact hfollows.enter hkey

end Loop

section Read

variable {cli : CliService} {execute : List UInt8 → List UInt8} {bytes : List UInt8}

theorem getLastCommand_up_received (cli : CliService) (bytes : List UInt8) :
    (cli.received bytes).up.getLastCommand = cli.up.getLastCommand := by
  rw [up_eq, up_eq]
  rfl

/-- A read whose first byte ends the loop. -/
theorem echoRead_of_leaves (execute : List UInt8 → List UInt8) (hpos : 0 < bytes.length)
    (h : (cli.received bytes).Leaves 0) :
    cli.echoRead execute bytes = (((cli.received bytes).echoByte 0).1, []) := by
  obtain ⟨cli', hecho, -⟩ := h
  obtain ⟨n, hn⟩ := Nat.exists_eq_add_of_le' hpos
  rw [echoRead, hn, echoLoop, hecho]

/-- An arrow key without its escape byte. -/
theorem key_of_prefix {c : UInt8} (hc : c = 0x41 ∨ c = 0x42) (h : bytes <+: [0x5B, c]) :
    bytes.map key = bytes.map Key.char := by
  apply List.map_congr_left
  intro b hb
  have hmem := h.subset hb
  rw [List.mem_cons, List.mem_singleton] at hmem
  rcases hmem with rfl | rfl
  · rfl
  · rcases hc with rfl | rfl
    · rfl
    · rfl

theorem getD_of_prefix {c : UInt8} (hpos : 0 < bytes.length) (h : bytes <+: [0x5B, c]) :
    (cli.received bytes).rbuf.getD 0 0 = 0x5B := by
  cases bytes with
  | nil => cases hpos
  | cons b bytes =>
      rw [received_rbuf]
      exact (List.cons_prefix_cons.1 h).1

/-- A read that is one command of the history. -/
theorem line_eq_append_iff {l last : List UInt8} (hpos : 0 < bytes.length) :
    (if strlen last = 0 then l else cstr last) = l ++ bytes ↔ cstr last = l ++ bytes := by
  split
  · rename_i hempty
    have hnil : cstr last = [] := List.eq_nil_of_length_eq_zero hempty
    have hne : bytes ≠ [] := List.ne_nil_of_length_pos hpos
    rw [hnil, List.self_eq_append_right, List.nil_eq_append_iff]
    simp [hne]
  · exact Iff.rfl

/-- A read leaves the line and submits the lines of its keys exactly where it is taken for
them. -/
theorem Sized.echoRead_iff (h : cli.Sized)
    (hexecute : ∀ cmd, (execute cmd).length = cmd.length) (hzero : 0 ∉ cli.line)
    (hpos : 0 < bytes.length) (hlen : bytes.length ≤ cli.bufSize)
    (htyped : ∀ c ∈ bytes, Typed c)
    (hline : ∀ stream, stream <+: bytes →
      (LineEdit.line cli.line (stream.map key)).length < cli.bufSize) :
    (cli.echoRead execute bytes).1.line = LineEdit.line cli.line (bytes.map key) ∧
        (cli.echoRead execute bytes).2 = LineEdit.submitted cli.line (bytes.map key) ↔
      cli.Literal bytes := by
  have hsized := h.received hlen
  have hkind : ∀ j < bytes.length, (cli.received bytes).kind j =
      readKind bytes (key ((cli.received bytes).rbuf.getD j 0)) :=
    fun j hj => kind_received htyped hj
  rw [Literal]
  by_cases hup : bytes <+: [0x5B, 0x41]
  · have hk : (cli.received bytes).kind 0 = .historyUp := by
      rw [hkind 0 hpos, getD_of_prefix hpos hup]
      exact if_pos hup
    have hread := echoRead_of_leaves execute hpos
      (leaves_of_historyUp hsized (Nat.zero_le _) hk)
    rw [if_pos hup, hread, CliService.echoByte, hk, key_of_prefix (Or.inl rfl) hup,
      LineEdit.line_map_char, LineEdit.submitted_map_char, ← line_eq_append_iff hpos,
      ← getLastCommand_up_received cli bytes]
    exact (and_iff_left rfl).trans (Eq.congr_left hsized.line_historyUp)
  · by_cases hdown : bytes <+: [0x5B, 0x42]
    · have hk : (cli.received bytes).kind 0 = .historyDown := by
        rw [hkind 0 hpos, getD_of_prefix hpos hdown]
        exact (if_neg hup).trans (if_pos hdown)
      have hread := echoRead_of_leaves execute hpos (leaves_of_historyDown hsized hk)
      rw [if_neg hup, if_pos hdown, hread, CliService.echoByte, hk,
        key_of_prefix (Or.inr rfl) hdown, LineEdit.line_map_char, LineEdit.submitted_map_char]
      exact (and_iff_left rfl).trans (Eq.congr_left hsized.line_historyDown)
    · have hbytes : bytes <+: (cli.received bytes).rbuf.drop 0 := by
        rw [List.drop_zero, received_rbuf]
        exact List.prefix_append _ _
      have hfollows := hsized.follows_echoLoop hexecute hzero hbytes
        (fun j hj => by rw [Nat.zero_add, hkind j hj, readKind_of_not_prefix hup hdown]) hline
      rw [if_neg hup, if_neg hdown]
      exact hfollows.eq_iff

theorem kind_return (cli : CliService) : (cli.received [0x0D]).kind 0 = .carriageReturn := by
  rw [kind, received_rbuf]
  rfl

/-- A carriage return is in bounds where the line does not fill `cmd`. -/
theorem fits_return (hbuf : 0 < cli.bufSize) : cli.Fits [0x0D] ↔ cli.cmdLen < cli.bufSize := by
  have hescape : ¬ (cli.received [0x0D]).rbuf.drop 0 <+: [0x1B, 0x5B, 0x33] := by
    rw [received_rbuf, List.drop_zero, List.cons_append, List.cons_prefix_cons]
    exact fun hprefix => absurd hprefix.1 (by decide)
  have hhandled : (cli.received [0x0D]).handledFrom 0 1 = [(.carriageReturn, cli.cmdLen)] := by
    rw [handledFrom, List.range'_one, List.map_singleton, kind_return]
    rfl
  rw [Fits, List.length_singleton, hhandled, room_cons, room_nil]
  constructor
  · intro hfits
    exact (hfits Nat.one_pos hbuf).2.1 rfl
  · intro hlt _ _
    exact ⟨hescape, fun _ => hlt, Nat.zero_le _⟩

/-- A carriage return submits the line. -/
theorem Sized.echoRead_return (h : cli.Sized) (execute : List UInt8 → List UInt8)
    (hzero : 0 ∉ cli.line) (hlt : cli.cmdLen < cli.bufSize) :
    (cli.echoRead execute [0x0D]).2 = [cli.line] := by
  have hsized : (cli.received [0x0D]).Sized := h.received (Nat.one_le_of_lt hlt)
  rw [CliService.echoRead, List.length_singleton, CliService.echoLoop, CliService.echoByte,
    kind_return]
  exact congrArg (fun l => [l]) (hsized.cstr_carriageReturn hlt hzero)

theorem Sized.lines_return (h : cli.Sized) (hexecute : ∀ cmd, (execute cmd).length = cmd.length)
    (hzero : 0 ∉ cli.line) (hbuf : 0 < cli.bufSize) :
    cli.lines execute [[0x0D]] = if cli.cmdLen < cli.bufSize then some [cli.line] else none := by
  rw [lines]
  simp only [h.inBounds_iff hexecute, fits_return hbuf]
  split
  · rename_i hlt
    rw [h.echoRead_return execute hzero hlt]
    rfl
  · rfl

/-- It agrees with the line editor. -/
theorem Sized.agrees_return (h : cli.Sized) (hexecute : ∀ cmd, (execute cmd).length = cmd.length)
    (hzero : 0 ∉ cli.line) (hline : cli.line.length < cli.bufSize) :
    cli.Agrees execute [[0x0D]] := by
  rw [h.length_line] at hline
  rw [Agrees, h.lines_return hexecute hzero (Nat.zero_lt_of_lt hline), if_pos hline]
  rfl

end Read

section Run

variable {cli : CliService} {execute : List UInt8 → List UInt8}

/-- The rest of the input, behind a read that does what its keys do. -/
theorem agrees_cons {bytes : List UInt8} (hbounds : cli.InBounds execute bytes)
    (hline : (cli.echoRead execute bytes).1.line = LineEdit.line cli.line (bytes.map key))
    (hsub : (cli.echoRead execute bytes).2 = LineEdit.submitted cli.line (bytes.map key))
    (reads : List (List UInt8)) :
    cli.Agrees execute (bytes :: reads) ↔
      (cli.echoRead execute bytes).1.Agrees execute reads := by
  rw [Agrees, lines, if_pos hbounds, List.flatten_cons, List.map_append, LineEdit.submitted_append,
    ← hline, ← hsub, Agrees]
  exact (Option.map_injective (List.append_right_injective _)).eq_iff (b := some _)

/-- A read that a carriage return shows to have done what its keys do. -/
theorem Sized.of_agrees_return (h : cli.Sized)
    (hexecute : ∀ cmd, (execute cmd).length = cmd.length) (hzero : 0 ∉ cli.line)
    {bytes : List UInt8} (hpos : 0 < bytes.length) (hlen : bytes.length ≤ cli.bufSize)
    (hagrees : cli.Agrees execute [bytes, [0x0D]]) :
    cli.InBounds execute bytes ∧
      (cli.echoRead execute bytes).1.line = LineEdit.line cli.line (bytes.map key) ∧
      (cli.echoRead execute bytes).2 = LineEdit.submitted cli.line (bytes.map key) := by
  obtain ⟨hsized, hsize⟩ := h.echoRead hexecute hlen
  have hzero' := h.zero_not_mem_echoRead hexecute hzero hlen
  have hbuf : 0 < (cli.echoRead execute bytes).1.bufSize := by
    rw [hsize]
    exact hpos.trans_le hlen
  rw [Agrees, lines, hsized.lines_return hexecute hzero' hbuf, List.flatten_cons, List.map_append,
    LineEdit.submitted_append] at hagrees
  split_ifs at hagrees with hbounds hlt
  · have hlines := Option.some.inj hagrees
    obtain ⟨hsub, hedit⟩ := List.append_inj' hlines rfl
    exact ⟨hbounds, (List.cons.inj hedit).1, hsub⟩
  · cases hagrees

theorem tracks_cons {bytes : List UInt8} {reads : List (List UInt8)} :
    cli.Tracks execute (bytes :: reads) ↔
      cli.Agrees execute [[0x0D]] ∧
        ∀ n, cli.Agrees execute (bytes :: reads.take n) ∧
          cli.Agrees execute (bytes :: (reads.take n ++ [[0x0D]])) := by
  constructor
  · exact fun h => ⟨(h 0).2, fun n => h (n + 1)⟩
  · rintro ⟨hreturn, h⟩ n
    cases n with
    | zero => exact ⟨rfl, hreturn⟩
    | succ n => exact h n

/-- The lines are those of the line editor, after each read, along the reads that are
faithful, and along no others. -/
theorem Sized.tracks_iff (h : cli.Sized) (hexecute : ∀ cmd, (execute cmd).length = cmd.length)
    (hzero : 0 ∉ cli.line) {reads : List (List UInt8)}
    (hreads : ∀ bytes ∈ reads,
      0 < bytes.length ∧ bytes.length ≤ cli.bufSize ∧ ∀ c ∈ bytes, Typed c)
    (hline : ∀ stream, stream <+: reads.flatten →
      (LineEdit.line cli.line (stream.map key)).length < cli.bufSize) :
    cli.Tracks execute reads ↔ Along Faithful (CliService.readStep execute) cli reads := by
  induction reads generalizing cli with
  | nil =>
      refine iff_of_true (fun n => ?_) trivial
      rw [List.take_nil]
      exact ⟨rfl, h.agrees_return hexecute hzero (hline [] List.nil_prefix)⟩
  | cons bytes reads ih =>
      obtain ⟨⟨hpos, hlen, htyped⟩, hrest⟩ := List.forall_mem_cons.1 hreads
      obtain ⟨hsized, hsize⟩ := h.echoRead hexecute hlen
      have hzero' := h.zero_not_mem_echoRead hexecute hzero hlen
      have hstep : cli.readStep execute bytes = some (cli.echoRead execute bytes).1 :=
        if_pos ⟨hpos, hlen⟩
      have hread := h.echoRead_iff hexecute hzero hpos hlen htyped fun stream hstream =>
        hline stream (hstream.trans (List.prefix_append _ _))
      -- the rest of the input, if the read does what its keys do
      have hnext : (cli.echoRead execute bytes).1.line = LineEdit.line cli.line (bytes.map key) →
          ((cli.echoRead execute bytes).1.Tracks execute reads ↔
            Along Faithful (CliService.readStep execute) (cli.echoRead execute bytes).1 reads) := by
        intro hedit
        apply ih hsized hzero'
        · rw [hsize]
          exact hrest
        · intro stream hstream
          rw [hedit, ← LineEdit.line_append, ← List.map_append, hsize]
          exact hline _ (List.prefix_append_right_inj bytes |>.2 hstream)
      rw [tracks_cons, along_cons, hstep]
      constructor
      · rintro ⟨-, hall⟩
        obtain ⟨hbounds, hedit, hsub⟩ := h.of_agrees_return hexecute hzero hpos hlen (hall 0).2
        refine ⟨⟨(h.inBounds_iff hexecute bytes).1 hbounds, hread.1 ⟨hedit, hsub⟩⟩,
          fun cli' hcli' => ?_⟩
        cases hcli'
        refine (hnext hedit).1 fun n => ?_
        rw [← agrees_cons hbounds hedit hsub, ← agrees_cons hbounds hedit hsub]
        exact hall n
      · rintro ⟨⟨hfits, hliteral⟩, halong⟩
        obtain ⟨hedit, hsub⟩ := hread.2 hliteral
        have hbounds := (h.inBounds_iff hexecute bytes).2 hfits
        have htracks := (hnext hedit).2 (halong _ rfl)
        refine ⟨h.agrees_return hexecute hzero (hline [] List.nil_prefix), fun n => ?_⟩
        rw [agrees_cons hbounds hedit hsub, agrees_cons hbounds hedit hsub]
        exact htracks n

end Run

/-- From the start on, the lines are those of the line editor along the faithful reads, and
along no others, for typed reads whose lines do not fill `cmd`. -/
theorem tracks_start_iff (bufSize : ℕ) {historySize : ℕ} (htwo : 2 ≤ historySize)
    {execute : List UInt8 → List UInt8} (hexecute : ∀ cmd, (execute cmd).length = cmd.length)
    {reads : List (List UInt8)}
    (hreads : ∀ bytes ∈ reads, 0 < bytes.length ∧ bytes.length ≤ bufSize ∧ ∀ c ∈ bytes, Typed c)
    (hline : ∀ stream, stream <+: reads.flatten →
      (LineEdit.line [] (stream.map key)).length < bufSize) :
    (cliServiceStart bufSize historySize).Tracks execute reads ↔
      Along Faithful (readStep execute) (cliServiceStart bufSize historySize) reads :=
  (cliServiceStart_sized bufSize htwo).tracks_iff hexecute List.not_mem_nil hreads hline

/-- A line that is typed, changed and submitted in several reads. -/
theorem tracks_edited :
    (cliServiceStart 256 10).Tracks id
      [[0x6C, 0x73, 0x78], [0x7F], [0x0D, 0x61], [0x08, 0x08]] := by
  have hexecute : ∀ cmd : List UInt8, (id cmd).length = cmd.length := fun _ => rfl
  have hline : ∀ stream ∈ List.inits
      [[0x6C, 0x73, 0x78], [0x7F], [0x0D, 0x61], [0x08, 0x08]].flatten,
      (LineEdit.line [] (stream.map key)).length < 256 := by decide +kernel
  rw [tracks_start_iff 256 (by decide) hexecute (by decide +kernel)
    fun stream hstream => hline stream ((List.mem_inits _ _).2 hstream)]
  decide +kernel

/-- A read with a backspace in front of a command loses the command, which the same input in
two reads does not, and a lone bracket is no character of the line. -/
theorem not_agrees_backspace :
    ¬ (cliServiceStart 256 10).Agrees id [[0x08, 0x6C, 0x73], [0x0D]] ∧
      (cliServiceStart 256 10).Agrees id [[0x08], [0x6C, 0x73], [0x0D]] ∧
      ¬ (cliServiceStart 256 10).Agrees id [[0x5B], [0x0D]] := by
  decide +kernel

end CliService

namespace Handoff

/-- The lines of reads that stay inside the buffers are submitted and executed in a run of
the two threads. -/
theorem exists_run_lines {cli : CliService} (h : cli.Sized) {execute : List UInt8 → List UInt8}
    (hexecute : ∀ cmd, (execute cmd).length = cmd.length) {reads : List (List UInt8)}
    (hreads : ∀ bytes ∈ reads, bytes.length ≤ cli.bufSize) {lines : List (List UInt8)}
    (hlines : cli.lines execute reads = some lines) (submitted executed : List (List UInt8)) :
    ∃ steps cli', run (step execute) (waiting cli .read submitted executed) steps =
      some (waiting cli' .read (submitted ++ lines) (executed ++ lines)) := by
  induction reads generalizing cli lines submitted executed with
  | nil =>
      cases hlines
      rw [List.append_nil, List.append_nil]
      exact ⟨[], cli, rfl⟩
  | cons bytes reads ih =>
      obtain ⟨hlen, hrest⟩ := List.forall_mem_cons.1 hreads
      obtain ⟨hsized, hsize⟩ := h.echoRead hexecute hlen
      rw [CliService.lines] at hlines
      split at hlines
      · obtain ⟨more, hmore, rfl⟩ := Option.map_eq_some_iff.1 hlines
        have hread : step execute (waiting cli .read submitted executed) (.read bytes) =
            some (waiting (cli.received bytes) (.handle 0) submitted executed) :=
          if_pos ⟨rfl, hlen⟩
        obtain ⟨steps, hrun⟩ := exists_run_echoLoop (h.received hlen) hexecute
          (Nat.zero_add bytes.length) submitted executed
        obtain ⟨steps', cli', hrun'⟩ := ih hsized (by rw [hsize]; exact hrest) hmore
          (submitted ++ (cli.echoRead execute bytes).2) (executed ++ (cli.echoRead execute bytes).2)
        refine ⟨.read bytes :: (steps ++ steps'), cli', run_cons_eq_some.2 ⟨_, hread,
          run_append_eq_some.2 ⟨_, hrun, ?_⟩⟩⟩
        rw [← List.append_assoc, ← List.append_assoc]
        exact hrun'
      · cases hlines

/-- The executor waits first, from the start on. -/
theorem exists_run_lines_start (bufSize : ℕ) {historySize : ℕ} (htwo : 2 ≤ historySize)
    {execute : List UInt8 → List UInt8} (hexecute : ∀ cmd, (execute cmd).length = cmd.length)
    {reads : List (List UInt8)} (hreads : ∀ bytes ∈ reads, bytes.length ≤ bufSize)
    {lines : List (List UInt8)}
    (hlines : (cliServiceStart bufSize historySize).lines execute reads = some lines) :
    ∃ steps s, run (step execute) (handoffStart bufSize historySize) steps = some s ∧
      s.submitted = lines ∧ s.executed = lines := by
  have hstart : run (step execute) (handoffStart bufSize historySize) [.invoke, .invoke] =
      some (waiting (cliServiceStart bufSize historySize) .read [] []) := rfl
  obtain ⟨steps, cli', hrun⟩ := exists_run_lines (cliServiceStart_sized bufSize htwo) hexecute
    hreads hlines [] []
  exact ⟨[.invoke, .invoke] ++ steps, _, run_append_eq_some.2 ⟨_, hstart, hrun⟩, rfl, rfl⟩

end Handoff

end Catpilot
