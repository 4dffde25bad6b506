import Catpilot.Log.Init
import Mathlib.Data.Finset.Image
import Mathlib.Data.Set.Finite.Basic

/-!
# The search for the name of the log file

The names are cut to 31 bytes, so that the more of them the path and the prefix of the name
take, the fewer names there are. The search ends with a new file when one of these names is
free; otherwise it tries all numbers.
-/

namespace Catpilot

open CString

/-- How many bytes of the names are left for the number and the extension. -/
def logNumberRoom (path name : List UInt8) : ℕ := 29 - (strlen name + strlen path)

/-- How many names there are. -/
def logNameCount (path name : List UInt8) : ℕ := min (10 ^ logNumberRoom path name) (2 ^ 31)

/-- `log_init` gets to its loop. -/
structure LogAccepts (env : LogInitEnv) (log : Log) (name path : List UInt8) : Prop where
  closed : ¬ 0 < log.fd
  length : strlen name + strlen path ≤ logMaxNameLen
  mkdirOk : env.mkdirOk = true
  mutexOk : env.mutexOk = true
  callocOk : env.callocOk = true

/-- With enough time, `log_init` returns, and has created a file that did not exist. -/
def LogCreates (env : LogInitEnv) (log : Log) (name path : List UInt8) (bufSize : UInt32)
    (files : LogFiles) : Prop :=
  ∃ fuel log' fileName files',
    logInit env fuel log name (some path) .toFile bufSize files =
      some (0, log', some fileName, files') ∧
    files fileName = none ∧ files' fileName ≠ none

/-! ## The names -/

section Names

variable {path name : List UInt8} {m n : ℕ}

/-- In front of the number. -/
def logFileHead (path name : List UInt8) : List UInt8 :=
  cstr path ++ [0x2f] ++ cstr name ++ [0x5f]

theorem length_logFileHead (path name : List UInt8) :
    (logFileHead path name).length = strlen path + strlen name + 2 := by
  simp only [logFileHead, List.length_append, List.length_singleton, strlen]
  omega

/-- The names differ in the texts of their numbers, as these are cut. -/
theorem logFileName_eq (path name : List UInt8) (n : ℕ) : logFileName path name n =
    (logFileHead path name).take 31 ++ cutDecimal logExtension (logNumberRoom path name) n := by
  have hroom : logNumberRoom path name = 31 - (logFileHead path name).length := by
    rw [length_logFileHead, logNumberRoom]
    omega
  rw [logFileName, ← logFileHead, List.take_append, cutDecimal, hroom]
  rfl

theorem logExtension_head : ∀ c ∈ logExtension.head?, ¬ IsDigit c := by
  intro c hc
  have hdot : 0x2e = c := Option.some.inj hc
  rw [← hdot]
  decide

theorem logFileName_injOn (hm : m < 10 ^ logNumberRoom path name)
    (hn : n < 10 ^ logNumberRoom path name)
    (h : logFileName path name m = logFileName path name n) : m = n := by
  rw [logFileName_eq, logFileName_eq] at h
  exact cutDecimal_injOn logExtension_head hm hn (List.append_cancel_left h)

/-- Each name is one of the first. -/
theorem exists_logFileName_eq (path name : List UInt8) (n : ℕ) :
    ∃ m < 10 ^ logNumberRoom path name, m ≤ n ∧
      logFileName path name m = logFileName path name n := by
  obtain ⟨m, hm, hle, heq⟩ := exists_cutDecimal_eq logExtension (logNumberRoom path name) n
  exact ⟨m, hm, hle, by rw [logFileName_eq, logFileName_eq, heq]⟩

end Names

/-! ## The loop -/

section Loop

variable {path name fileName : List UInt8} {files files' : LogFiles} {fuel num n : ℕ}

/-- The driver of FatFs refuses a name that is taken, and creates the file otherwise. -/
theorem openExcl_eq (files : LogFiles) (fileName : List UInt8) : openExcl files fileName =
    match files fileName with
    | some _ => .error .eexist
    | none => .ok (Function.update files fileName (some [])) := by
  have hmethod : fatfsModes (oRdwr ||| oCreat ||| oExcl) &&& faMethods = 4 := by decide
  rw [openExcl, hmethod]
  cases files fileName with
  | some contents => rfl
  | none => rfl

/-- A name that is free ends the loop. -/
theorem logOpenLoop_of_free (hmax : num ≤ logIntMax)
    (hfree : files (logFileName path name num) = none) :
    logOpenLoop path name (fuel + 1) num files = some (some (logFileName path name num),
      Function.update files (logFileName path name num) (some [])) := by
  rw [logOpenLoop, if_neg (Nat.not_lt.2 hmax)]
  simp only [openExcl_eq, hfree]

/-- After a name that is taken, the next one is tried. -/
theorem logOpenLoop_of_taken (hmax : num ≤ logIntMax)
    (htaken : files (logFileName path name num) ≠ none) :
    logOpenLoop path name (fuel + 1) num files = logOpenLoop path name fuel (num + 1) files := by
  obtain ⟨contents, hcontents⟩ := Option.ne_none_iff_exists'.1 htaken
  rw [logOpenLoop, if_neg (Nat.not_lt.2 hmax)]
  simp only [openExcl_eq, hcontents, if_pos]

/-- A loop that ends has found a free name. -/
theorem logOpenLoop_eq_some
    (h : logOpenLoop path name fuel num files = some (some fileName, files')) :
    ∃ n ≤ logIntMax, files (logFileName path name n) = none ∧ logFileName path name n = fileName ∧
      files' = Function.update files fileName (some []) := by
  induction fuel generalizing num with
  | zero => cases h
  | succ fuel ih =>
      by_cases hmax : num ≤ logIntMax
      · by_cases hfree : files (logFileName path name num) = none
        · rw [logOpenLoop_of_free hmax hfree] at h
          cases h
          exact ⟨num, hmax, hfree, rfl, rfl⟩
        · rw [logOpenLoop_of_taken hmax hfree] at h
          exact ih h
      · rw [logOpenLoop, if_pos (Nat.lt_of_not_le hmax)] at h
        cases h

/-- The loop gets to a name that is free, or ends before. -/
theorem exists_logOpenLoop (hle : num ≤ n) (hmax : n ≤ logIntMax)
    (hfree : files (logFileName path name n) = none) :
    ∃ fuel fileName files',
      logOpenLoop path name fuel num files = some (some fileName, files') := by
  induction hle using Nat.decreasingInduction with
  | of_succ k hk ih =>
      by_cases hk' : files (logFileName path name k) = none
      · exact ⟨1, _, _, logOpenLoop_of_free (hk.le.trans hmax) hk'⟩
      · obtain ⟨fuel, fileName, files', hloop⟩ := ih
        refine ⟨fuel + 1, fileName, files', ?_⟩
        rw [logOpenLoop_of_taken (hk.le.trans hmax) hk', hloop]
  | self => exact ⟨1, _, _, logOpenLoop_of_free hmax hfree⟩

/-- The loop ends with a new file exactly when one of its names is free. -/
theorem exists_logOpenLoop_iff (path name : List UInt8) (files : LogFiles) :
    (∃ fuel fileName files', logOpenLoop path name fuel 0 files = some (some fileName, files') ∧
        files fileName = none ∧ files' fileName ≠ none) ↔
      ∃ n < logNameCount path name, files (logFileName path name n) = none := by
  constructor
  · rintro ⟨fuel, fileName, files', hloop, -⟩
    obtain ⟨n, hmax, hfree, -⟩ := logOpenLoop_eq_some hloop
    obtain ⟨m, hm, hle, heq⟩ := exists_logFileName_eq path name n
    refine ⟨m, lt_min hm ?_, heq ▸ hfree⟩
    rw [logIntMax] at hmax
    omega
  · rintro ⟨n, hn, hfree⟩
    have hmax : n ≤ logIntMax := Nat.le_sub_one_of_lt (hn.trans_le (Nat.min_le_right _ _))
    obtain ⟨fuel, fileName, files', hloop⟩ := exists_logOpenLoop (Nat.zero_le n) hmax hfree
    obtain ⟨m, -, hnew, rfl, rfl⟩ := logOpenLoop_eq_some hloop
    refine ⟨fuel, _, _, hloop, hnew, ?_⟩
    rw [Function.update_self]
    exact Option.some_ne_none []

end Loop

/-! ## The search -/

variable {env : LogInitEnv} {log : Log} {name path : List UInt8}

/-- `log_init` in its loop. -/
theorem LogAccepts.logInit_eq (h : LogAccepts env log name path) (fuel : ℕ) (bufSize : UInt32)
    (files : LogFiles) :
    ∃ log', logInit env fuel log name (some path) .toFile bufSize files =
      (logOpenLoop path name fuel 0 files).bind fun r =>
        some (0, if r.1.isSome ∧ 0 < env.fd then { log' with fd := env.fd } else log', r) := by
  refine ⟨{ log with
    buf := some (List.replicate bufSize.toNat 0)
    bufSize := bufSize
    type := .toFile }, ?_⟩
  rw [logInit]
  dsimp only
  rw [if_neg h.closed, if_neg (Nat.not_lt.2 h.length), if_neg (not_not_intro h.mkdirOk),
    if_neg (not_not_intro h.mutexOk), if_neg (not_not_intro h.callocOk), if_pos rfl]
  rfl

theorem LogAccepts.logOpenLoop_of_logInit (h : LogAccepts env log name path) {fuel : ℕ}
    {bufSize : UInt32} {rv : ℤ} {log' : Log} {fileName : List UInt8} {files files' : LogFiles}
    (hinit : logInit env fuel log name (some path) .toFile bufSize files =
      some (rv, log', some fileName, files')) :
    logOpenLoop path name fuel 0 files = some (some fileName, files') := by
  obtain ⟨log'', heq⟩ := h.logInit_eq fuel bufSize files
  rw [heq, Option.bind_eq_some_iff] at hinit
  obtain ⟨r, hloop, hr⟩ := hinit
  obtain rfl : r = (some fileName, files') := congrArg (fun x => x.2.2) (Option.some.inj hr)
  exact hloop

/-- Fewer files than names leave a name that is free. -/
theorem exists_free_of_card_lt {files : LogFiles} {existing : Finset (List UInt8)}
    (hexisting : ∀ fileName, files fileName ≠ none → fileName ∈ existing)
    (hcard : existing.card < logNameCount path name) :
    ∃ n < logNameCount path name, files (logFileName path name n) = none := by
  by_contra htaken
  push Not at htaken
  have hinj : Set.InjOn (logFileName path name) (Finset.range (logNameCount path name)) := by
    intro m hm n hn heq
    have hm' := (Finset.mem_range.1 hm).trans_le (Nat.min_le_left _ _)
    have hn' := (Finset.mem_range.1 hn).trans_le (Nat.min_le_left _ _)
    exact logFileName_injOn hm' hn' heq
  have hsubset : (Finset.range (logNameCount path name)).image (logFileName path name) ⊆
      existing := by
    intro fileName hmem
    obtain ⟨n, hn, rfl⟩ := Finset.mem_image.1 hmem
    exact hexisting _ (htaken n (Finset.mem_range.1 hn))
  have hle := Finset.card_le_card hsubset
  rw [Finset.card_image_of_injOn hinj, Finset.card_range] at hle
  exact Nat.not_le.2 hcard hle

/-- Where a name is free, `log_init` creates a new file. -/
theorem LogAccepts.logCreates (h : LogAccepts env log name path) (bufSize : UInt32)
    {files : LogFiles}
    (hfree : ∃ n < logNameCount path name, files (logFileName path name n) = none) :
    LogCreates env log name path bufSize files := by
  obtain ⟨fuel, fileName, files', hloop, hnew⟩ := (exists_logOpenLoop_iff path name files).2 hfree
  obtain ⟨log', heq⟩ := h.logInit_eq fuel bufSize files
  rw [hloop, Option.bind_some] at heq
  exact ⟨fuel, _, fileName, files', heq, hnew⟩

/-- Where `log_init` gets to its loop, it creates a new file exactly when one of the names
that are cut differently is free, and so when there are fewer files than these names. -/
theorem logCreates_iff (h : LogAccepts env log name path) (bufSize : UInt32) (files : LogFiles) :
    (LogCreates env log name path bufSize files ↔
        ∃ n < logNameCount path name, files (logFileName path name n) = none) ∧
      ∀ existing : Finset (List UInt8),
        (∀ fileName, files fileName ≠ none → fileName ∈ existing) →
          existing.card < logNameCount path name →
            LogCreates env log name path bufSize files := by
  constructor
  · constructor
    · rintro ⟨fuel, log', fileName, files', hinit, hnew⟩
      rw [← exists_logOpenLoop_iff]
      exact ⟨fuel, fileName, files', h.logOpenLoop_of_logInit hinit, hnew⟩
    · exact h.logCreates bufSize
  · intro existing hexisting hcard
    exact h.logCreates bufSize (exists_free_of_card_lt hexisting hcard)

/-- A first call, for which everything else works. -/
def freshEnv : LogInitEnv := ⟨true, true, true, 3⟩

/-- The log before `log_init`. -/
def freshLog : Log := ⟨none, 0, 0, 0, .toBuf⟩

/-- `/fs/logs`. -/
def logsPath : List UInt8 := [0x2f, 0x66, 0x73, 0x2f, 0x6c, 0x6f, 0x67, 0x73]

/-- A directory with the file of the number 0. -/
def oneLog : LogFiles :=
  Function.update (fun _ => none) (logFileName logsPath [0x6c, 0x6f, 0x67] 0) (some [])

/-- The search goes on to the number 1. -/
theorem logCreates_log : LogCreates freshEnv freshLog [0x6c, 0x6f, 0x67] logsPath 512 oneLog := by
  have haccepts : LogAccepts freshEnv freshLog [0x6c, 0x6f, 0x67] logsPath :=
    ⟨by decide, by decide, rfl, rfl, rfl⟩
  have hne : logFileName logsPath [0x6c, 0x6f, 0x67] 1 ≠
      logFileName logsPath [0x6c, 0x6f, 0x67] 0 := by decide
  have hfree : oneLog (logFileName logsPath [0x6c, 0x6f, 0x67] 1) = none :=
    Function.update_of_ne hne ..
  exact (logCreates_iff haccepts 512 _).1.2 ⟨1, by decide, hfree⟩

/-- A prefix of 21 bytes for files in `/fs/logs`: the one name there is has no number. -/
theorem not_logCreates_long :
    ¬ ∀ (env : LogInitEnv) (log : Log) (name path : List UInt8) (bufSize : UInt32)
      (files : LogFiles), LogAccepts env log name path →
        Set.Finite {fileName | files fileName ≠ none} →
          LogCreates env log name path bufSize files := by
  intro h
  have haccepts : LogAccepts freshEnv freshLog (List.replicate 21 0x61) logsPath :=
    ⟨by decide, by decide, rfl, rfl, rfl⟩
  have hfinite : Set.Finite {fileName | Function.update (fun _ => none : LogFiles)
      (logFileName logsPath (List.replicate 21 0x61) 0) (some []) fileName ≠ none} := by
    apply (Set.finite_singleton (logFileName logsPath (List.replicate 21 0x61) 0)).subset
    intro fileName hmem
    by_contra hne
    exact hmem (Function.update_of_ne hne ..)
  obtain ⟨fuel, log', fileName, files', hinit, -⟩ := h _ _ _ _ 512 _ haccepts hfinite
  obtain ⟨n, -, hfree, -⟩ := logOpenLoop_eq_some (haccepts.logOpenLoop_of_logInit hinit)
  obtain ⟨m, hm, -, heq⟩ := exists_logFileName_eq logsPath (List.replicate 21 0x61) n
  have hroom : logNumberRoom logsPath (List.replicate 21 0x61) = 0 := by decide
  rw [hroom, pow_zero, Nat.lt_one_iff] at hm
  rw [← heq, hm, Function.update_self] at hfree
  cases hfree

end Catpilot
