import Catpilot.Log.Module
import Catpilot.Transition.Run

/-!
# The bounds of the log

The length of a line is not checked against the array that it is formatted into, only the
message is cut. In the log buffer, a line that fills it up to its end has its zero byte behind
it. Where neither happens, every call stays inside of its arrays.
-/

namespace Catpilot

open CString Memory Transition

/-! ## The line -/

/-- What is in front of the message. -/
def logHead (call : LogCall) : List UInt8 :=
  logTimeText call ++ logTypeText call ++ logModuleText call

/-- The line of a call. -/
def logLine (call : LogCall) : List UInt8 := logHead call ++ call.msg ++ logNewline

/-- The line and its zero byte have room in the array. -/
def LineFits (call : LogCall) : Prop := (logLine call).length < logMaxLength

instance (call : LogCall) : Decidable (LineFits call) := inferInstanceAs (Decidable (_ < _))

section Line

variable {call : LogCall} {line : LogLine}

theorem logHead_eq (call : LogCall) :
    logTimeText call ++ logTypeText call ++ logModuleText call = logHead call := rfl

/-- A line that is formatted inside the array is stored as a whole. -/
theorem formatLine_eq_some (h : formatLine call = some line) :
    LineFits call ∧ line.string.length = logMaxLength ∧ Starts line.string (logLine call) ∧
      line.length = (logLine call).length ∧ line.stored = (logLine call).length := by
  simp only [formatLine, Option.bind_eq_bind, Option.bind_eq_some_iff, Option.pure_def,
    Option.some.injEq, ← List.length_append, logHead_eq] at h
  obtain ⟨s₁, h₁, s₂, h₂, s₃, h₃, s₄, h₄, s₅, h₅, rfl⟩ := h
  have hlen₃ : s₃.length = logMaxLength := by
    rw [length_sprintf h₃, length_sprintf h₂, length_sprintf h₁, List.length_replicate]
  have hlen₄ : s₄.length = logMaxLength := (length_vsnprintf h₄).trans hlen₃
  have hfits : LineFits call := by
    obtain ⟨hlt, -⟩ := sprintf_eq_some_iff.1 h₅
    rwa [← List.length_append, hlen₄] at hlt
  have hmsg : call.msg.length < logMaxLength - (logHead call).length := by
    rw [LineFits, logLine, List.length_append, List.length_append] at hfits
    omega
  have hstored : min call.msg.length (logMaxLength - (logHead call).length - 1) =
      call.msg.length := Nat.min_eq_left (by omega)
  rw [vsnprintf_of_lt hmsg] at h₄
  have hstarts := ((((starts_sprintf h₁).sprintf h₂).sprintf h₃).sprintf h₄).sprintf h₅
  refine ⟨hfits, (length_sprintf h₅).trans hlen₄, hstarts, rfl, ?_⟩
  rw [hstored, logLine, List.length_append, List.length_append]

/-- A line that has room is formatted. -/
theorem exists_formatLine (h : LineFits call) : ∃ line, formatLine call = some line := by
  have hhead : (logHead call).length =
      (logTimeText call).length + (logTypeText call).length + (logModuleText call).length := by
    rw [logHead, List.length_append, List.length_append]
  rw [LineFits, logLine, List.length_append, List.length_append, hhead] at h
  have hlen : (List.replicate logMaxLength (0 : UInt8)).length = logMaxLength :=
    List.length_replicate
  obtain ⟨s₁, h₁⟩ : ∃ s, sprintf (List.replicate logMaxLength 0) 0 (logTimeText call) = some s :=
    exists_sprintf (by omega)
  have hlen₁ := (length_sprintf h₁).trans hlen
  obtain ⟨s₂, h₂⟩ : ∃ s, sprintf s₁ (logTimeText call).length (logTypeText call) = some s :=
    exists_sprintf (by omega)
  have hlen₂ := (length_sprintf h₂).trans hlen₁
  obtain ⟨s₃, h₃⟩ : ∃ s, sprintf s₂ ((logTimeText call).length + (logTypeText call).length)
      (logModuleText call) = some s := exists_sprintf (by omega)
  have hlen₃ := (length_sprintf h₃).trans hlen₂
  obtain ⟨s₄, h₄⟩ : ∃ s, sprintf s₃ ((logTimeText call).length + (logTypeText call).length +
      (logModuleText call).length) call.msg = some s := exists_sprintf (by omega)
  have hlen₄ := (length_sprintf h₄).trans hlen₃
  obtain ⟨s₅, h₅⟩ : ∃ s, sprintf s₄ ((logTimeText call).length + (logTypeText call).length +
      (logModuleText call).length + call.msg.length) logNewline = some s :=
    exists_sprintf (by omega)
  rw [← vsnprintf_of_lt (n := logMaxLength - ((logTimeText call).length +
    (logTypeText call).length + (logModuleText call).length)) (by omega)] at h₄
  rw [formatLine]
  simp only [Option.bind_eq_bind, h₁, h₂, h₃, h₄, h₅, Option.bind_some]
  exact ⟨_, rfl⟩

end Line

/-! ## Steps -/

/-- A call of `log_module` as a step. -/
def logStep (log : Log) (call : LogCall) : Option Log := (logModule log call).map Prod.fst

/-- The log as `log_init` leaves it: no buffer, or one that is cleared. -/
def logStart (bufSize : Option UInt32) (fd : ℤ) (type : LogType) : Log where
  buf := bufSize.map fun n => List.replicate n.toNat 0
  bufSize := bufSize.getD 0
  offset := 0
  fd := fd
  type := type

/-- The offset is not behind the end of the buffer, and the buffer is terminated inside. -/
def LogBounded (log : Log) : Prop :=
  log.offset ≤ log.bufSize ∧ ∀ buf ∈ log.buf, buf.length = log.bufSize.toNat ∧ 0 ∈ buf

/-- A call stays inside its arrays and leaves the log in its bounds, and does not write more
to the file than it has formatted. -/
def LogSafe (log : Log) (call : LogCall) : Prop :=
  ∃ log' out, logModule log call = some (log', out) ∧ LogBounded log' ∧
    ∀ line, out = .file line → line.length ≤ line.stored

/-- A call that returns at once. -/
def LogReturns (log : Log) (call : LogCall) : Prop :=
  log.fd ≤ 0 ∧ log.type = .toFile ∨ log.buf = none ∨ call.msgType = .empty

/-- The buffer is not empty, and if the call does not return at once, the line has room in
its array and does not just fill the rest of the buffer. -/
def LogFits (log : Log) (call : LogCall) : Prop :=
  log.buf ≠ some [] ∧ (LogReturns log call ∨ LineFits call ∧
    (log.type = .toBuf → strlen (logLine call) ≠ (log.bufSize - log.offset).toNat))

section Step

variable {log : Log} {call : LogCall}

/-- What the calls keep, also of an empty buffer. -/
def LogInv (log : Log) : Prop :=
  log.offset ≤ log.bufSize ∧
    ∀ buf ∈ log.buf, buf.length = log.bufSize.toNat ∧ (buf ≠ [] → 0 ∈ buf)

theorem logInv_start (bufSize : Option UInt32) (fd : ℤ) (type : LogType) :
    LogInv (logStart bufSize fd type) := by
  refine ⟨UInt32.zero_le, ?_⟩
  intro buf hbuf
  cases bufSize with
  | none => cases hbuf
  | some n =>
      cases hbuf
      refine ⟨List.length_replicate, ?_⟩
      intro hne
      rw [List.mem_replicate]
      exact ⟨fun hzero => hne ((List.replicate_eq_nil_iff 0).2 hzero), rfl⟩

theorem LogInv.bounded_iff (h : LogInv log) : LogBounded log ↔ log.buf ≠ some [] := by
  constructor
  · rintro ⟨-, hbuf⟩ hempty
    exact absurd (hbuf [] hempty).2 List.not_mem_nil
  · intro hne
    refine ⟨h.1, fun buf hbuf => ⟨(h.2 buf hbuf).1, (h.2 buf hbuf).2 ?_⟩⟩
    rintro rfl
    exact hne hbuf

theorem logModule_of_returns (h : LogReturns log call) :
    logModule log call = some (log, .none) := by
  rw [logModule]
  rcases h with hfile | hbuf | hempty
  · cases log.buf with
    | none => rfl
    | some buf => exact if_pos hfile
  · rw [hbuf]
  · cases log.buf with
    | none => rfl
    | some buf =>
        dsimp only
        rw [if_pos hempty, ite_self]

theorem logModule_of_not_returns (h : ¬ LogReturns log call) : ∃ buf, log.buf = some buf ∧
    logModule log call = (formatLine call).bind fun line =>
      if log.type = .toFile then some (log, .file line)
      else if (log.bufSize - log.offset).toNat < strlen line.string then some (log, .overflow)
      else (sprintf buf log.offset.toNat (cstr line.string)).bind fun buf =>
        some ({ log with
          buf := some buf
          offset := log.offset + UInt32.ofNat (cstr line.string).length }, .buf) := by
  rw [LogReturns, not_or, not_or] at h
  obtain ⟨hfile, hbuf, hempty⟩ := h
  obtain ⟨buf, hbuf⟩ := Option.ne_none_iff_exists'.1 hbuf
  refine ⟨buf, hbuf, ?_⟩
  rw [logModule, hbuf]
  dsimp only
  rw [if_neg hfile, if_neg hempty]
  rfl

/-- The room behind the offset. -/
theorem LogInv.toNat_room (h : LogInv log) :
    (log.bufSize - log.offset).toNat = log.bufSize.toNat - log.offset.toNat :=
  UInt32.toNat_sub_of_le _ _ h.1

/-- A line appended where it leaves room for its zero byte. -/
theorem LogInv.append (h : LogInv log) {buf buf' text : List UInt8} (hbuf : log.buf = some buf)
    (happend : sprintf buf log.offset.toNat text = some buf') :
    LogInv { log with
      buf := some buf'
      offset := log.offset + UInt32.ofNat text.length } := by
  obtain ⟨hlen, -⟩ := sprintf_eq_some_iff.1 happend
  have hsize := (h.2 buf hbuf).1
  have hlt : log.bufSize.toNat < UInt32.size := log.bufSize.toNat_lt
  have htext : (UInt32.ofNat text.length).toNat = text.length :=
    UInt32.toNat_ofNat_of_lt' (by omega)
  constructor
  · change log.offset + UInt32.ofNat text.length ≤ log.bufSize
    rw [UInt32.le_iff_toNat_le, UInt32.toNat_add, htext]
    rw [UInt32.size] at hlt
    omega
  · intro b hb
    cases hb
    exact ⟨(length_sprintf happend).trans hsize, fun _ => zero_mem_sprintf happend⟩

/-- A call that stays inside its arrays keeps the bounds. -/
theorem LogInv.step (h : LogInv log) {log' : Log} {out : LogOutput}
    (hcall : logModule log call = some (log', out)) : LogInv log' := by
  by_cases hreturns : LogReturns log call
  · rw [logModule_of_returns hreturns] at hcall
    cases hcall
    exact h
  · obtain ⟨buf, hbuf, heq⟩ := logModule_of_not_returns hreturns
    rw [heq, Option.bind_eq_some_iff] at hcall
    obtain ⟨line, -, hline⟩ := hcall
    split_ifs at hline
    · cases hline
      exact h
    · cases hline
      exact h
    · obtain ⟨buf', happend, hlog⟩ := Option.bind_eq_some_iff.1 hline
      cases hlog
      exact h.append hbuf happend

/-- A call does not change the size of the buffer, or whether there is one. -/
theorem logModule_frame {log' : Log} {out : LogOutput}
    (hcall : logModule log call = some (log', out)) :
    log'.bufSize = log.bufSize ∧ (log'.buf = none ↔ log.buf = none) := by
  by_cases hreturns : LogReturns log call
  · rw [logModule_of_returns hreturns] at hcall
    cases hcall
    exact ⟨rfl, Iff.rfl⟩
  · obtain ⟨buf, hbuf, heq⟩ := logModule_of_not_returns hreturns
    rw [heq, Option.bind_eq_some_iff] at hcall
    obtain ⟨line, -, hline⟩ := hcall
    split_ifs at hline
    · cases hline
      exact ⟨rfl, Iff.rfl⟩
    · cases hline
      exact ⟨rfl, Iff.rfl⟩
    · obtain ⟨buf', -, hlog⟩ := Option.bind_eq_some_iff.1 hline
      cases hlog
      exact ⟨rfl, iff_of_false (Option.some_ne_none _) (hbuf ▸ Option.some_ne_none _)⟩

theorem LogInv.buf_eq_nil_iff (h : LogInv log) :
    log.buf = some [] ↔ log.buf ≠ none ∧ log.bufSize = 0 := by
  constructor
  · intro hnil
    have hlen := (h.2 [] hnil).1
    refine ⟨hnil ▸ Option.some_ne_none _, ?_⟩
    exact UInt32.toNat_inj.1 hlen.symm
  · rintro ⟨hne, hzero⟩
    obtain ⟨buf, hbuf⟩ := Option.ne_none_iff_exists'.1 hne
    have hlen := (h.2 buf hbuf).1
    rw [hzero] at hlen
    rw [hbuf, List.eq_nil_of_length_eq_zero hlen]

/-- A line written to the file is one that has been formatted as a whole. -/
theorem length_le_stored {log' : Log} {line : LogLine}
    (hcall : logModule log call = some (log', .file line)) : line.length ≤ line.stored := by
  by_cases hreturns : LogReturns log call
  · rw [logModule_of_returns hreturns] at hcall
    cases hcall
  · obtain ⟨buf, hbuf, heq⟩ := logModule_of_not_returns hreturns
    rw [heq, Option.bind_eq_some_iff] at hcall
    obtain ⟨line', hformat, hline⟩ := hcall
    obtain ⟨-, -, -, hlength, hstored⟩ := formatLine_eq_some hformat
    split_ifs at hline
    · cases hline
      rw [hlength, hstored]
    · cases hline
    · obtain ⟨buf', -, hlog⟩ := Option.bind_eq_some_iff.1 hline
      cases hlog

/-- A call that does not return at once stays inside its arrays when the line has room and
does not just fill the rest of the buffer. -/
theorem LogInv.exists_logModule_iff (h : LogInv log) (hreturns : ¬ LogReturns log call) :
    (∃ r, logModule log call = some r) ↔ LineFits call ∧
      (log.type = .toBuf → strlen (logLine call) ≠ (log.bufSize - log.offset).toNat) := by
  obtain ⟨buf, hbuf, heq⟩ := logModule_of_not_returns hreturns
  have hsize := (h.2 buf hbuf).1
  have hoffset : log.offset.toNat ≤ log.bufSize.toNat := h.1
  rw [heq, h.toNat_room]
  constructor
  · rintro ⟨r, hr⟩
    obtain ⟨line, hformat, hline⟩ := Option.bind_eq_some_iff.1 hr
    obtain ⟨hfits, -, hstarts, -⟩ := formatLine_eq_some hformat
    refine ⟨hfits, fun htype hfull => ?_⟩
    rw [strlen, ← hstarts.cstr_eq, ← strlen] at hfull
    rw [htype, if_neg (by decide), if_neg (by omega)] at hline
    obtain ⟨buf', happend, -⟩ := Option.bind_eq_some_iff.1 hline
    obtain ⟨hlt, -⟩ := sprintf_eq_some_iff.1 happend
    rw [← strlen] at hlt
    omega
  · rintro ⟨hfits, hroom⟩
    obtain ⟨line, hformat⟩ := exists_formatLine hfits
    obtain ⟨-, -, hstarts, -⟩ := formatLine_eq_some hformat
    rw [hformat, Option.bind_some]
    cases htype : log.type with
    | toFile => exact ⟨_, if_pos rfl⟩
    | toBuf =>
        have hne := hroom htype
        rw [strlen, ← hstarts.cstr_eq, ← strlen] at hne
        rw [if_neg (by decide)]
        by_cases hover : log.bufSize.toNat - log.offset.toNat < strlen line.string
        · exact ⟨_, if_pos hover⟩
        · obtain ⟨buf', happend⟩ :
              ∃ b, sprintf buf log.offset.toNat (cstr line.string) = some b := by
            apply exists_sprintf
            rw [← strlen]
            omega
          rw [if_neg hover, happend, Option.bind_some]
          exact ⟨_, rfl⟩

/-- A call is safe exactly when the line fits. -/
theorem LogInv.logSafe_iff (h : LogInv log) : LogSafe log call ↔ LogFits log call := by
  have hbounded : ∀ {log' out}, logModule log call = some (log', out) →
      (LogBounded log' ↔ log.buf ≠ some []) := by
    intro log' out hcall
    have hinv := h.step hcall
    obtain ⟨hsize, hnone⟩ := logModule_frame hcall
    rw [hinv.bounded_iff, Ne, Ne, hinv.buf_eq_nil_iff, h.buf_eq_nil_iff, hsize, Ne, Ne, hnone]
  constructor
  · rintro ⟨log', out, hcall, hlog', -⟩
    refine ⟨(hbounded hcall).1 hlog', ?_⟩
    by_cases hreturns : LogReturns log call
    · exact Or.inl hreturns
    · exact Or.inr ((h.exists_logModule_iff hreturns).1 ⟨_, hcall⟩)
  · rintro ⟨hnil, hfits⟩
    have hsome : ∃ r, logModule log call = some r := by
      by_cases hreturns : LogReturns log call
      · exact ⟨_, logModule_of_returns hreturns⟩
      · exact (h.exists_logModule_iff hreturns).2 (hfits.resolve_left hreturns)
    obtain ⟨⟨log', out⟩, hcall⟩ := hsome
    refine ⟨log', out, hcall, (hbounded hcall).2 hnil, ?_⟩
    rintro line rfl
    exact length_le_stored hcall

end Step

/-- Every call of a run is safe exactly when in every call the line fits. -/
theorem logSafe_iff_logFits (bufSize : Option UInt32) (fd : ℤ) (type : LogType)
    (calls : List LogCall) :
    Along LogSafe logStep (logStart bufSize fd type) calls ↔
      Along LogFits logStep (logStart bufSize fd type) calls := by
  apply along_congr _ (fun _ _ h => h.logSafe_iff) (logInv_start bufSize fd type)
  intro log call log' hinv _ hstep
  obtain ⟨⟨log'', out⟩, hcall, rfl⟩ := Option.map_eq_some_iff.1 hstep
  exact hinv.step hcall

/-- A message of 254 bytes of the module `BOARD`. -/
def longCall : LogCall :=
  ⟨.info, [0x42, 0x4f, 0x41, 0x52, 0x44], [0x31, 0x2e, 0x30, 0x30, 0x30], List.replicate 254 0x61⟩

/-- The message is cut, and the end of the line is stored outside of the array. -/
theorem not_logSafe_longCall :
    ¬ ∀ (bufSize : Option UInt32) (fd : ℤ) (type : LogType) (calls : List LogCall),
      bufSize ≠ some 0 → Along LogSafe logStep (logStart bufSize fd type) calls := by
  intro h
  have hsafe := (h (some 512) 3 .toFile [longCall] (by decide)).1
  have hfits := ((logInv_start (some 512) 3 .toFile).logSafe_iff.1 hsafe).2
  rcases hfits with hreturns | ⟨hline, -⟩
  · rcases hreturns with ⟨hfd, -⟩ | hbuf | hempty
    · exact absurd hfd (by decide : ¬ (3 : ℤ) ≤ 0)
    · cases hbuf
    · cases hempty
  · have hmsg : longCall.msg.length = 254 := List.length_replicate
    have hnewline : logNewline.length = 2 := rfl
    rw [LineFits, logLine, List.length_append, List.length_append, hmsg, hnewline,
      logMaxLength] at hline
    omega

end Catpilot
