import Catpilot.CString.Decimal
import Catpilot.Fatfs.Modes
import Catpilot.Log.Module

/-!
# Opening the log

`log_init` of `services/misc/log.c`. The log file gets the first free number: the loop tries
the names one after the other with `O_CREAT` and `O_EXCL`, for which the driver of FatFs asks
for a new file. The files are known by their contents; they can be created as long as their
names are free.
-/

namespace Catpilot

open CString

/-- `MAX_NAME_LEN` of `stdio.h`. -/
def logMaxNameLen : ℕ := 32

/-- `INT_MAX`. -/
def logIntMax : ℕ := 2 ^ 31 - 1

/-- The contents of the files by their names. -/
abbrev LogFiles := List UInt8 → Option (List UInt8)

/-- `".txt"`. -/
def logExtension : List UInt8 := [0x2e, 0x74, 0x78, 0x74]

/-- `snprintf(file_name, MAX_NAME_LEN, "%s/%s_%d.txt", path, prefix, file_num)`. -/
def logFileName (path name : List UInt8) (fileNum : ℕ) : List UInt8 :=
  (cstr path ++ [0x2f] ++ cstr name ++ [0x5f] ++ (decimal fileNum ++ logExtension)).take
    (logMaxNameLen - 1)

/-- `open(file_name, O_RDWR | O_CREAT | O_EXCL)`. -/
def openExcl (files : LogFiles) (fileName : List UInt8) : Except Errno LogFiles :=
  match faOpened (fatfsModes (oRdwr ||| oCreat ||| oExcl) &&& faMethods) (files fileName) with
  | none => .error (fatfsToErrno .exist)
  | some contents => .ok (Function.update files fileName (some contents))

/-- The loop of `log_init`: the name of the file that it creates, if it creates one, and the
files. There is no result when the fuel is used up, or when the number overflows. -/
def logOpenLoop (path name : List UInt8) :
    ℕ → ℕ → LogFiles → Option (Option (List UInt8) × LogFiles)
  | 0, _, _ => none
  | fuel + 1, fileNum, files =>
      if logIntMax < fileNum then none
      else
        let fileName := logFileName path name fileNum
        match openExcl files fileName with
        | .ok files => some (some fileName, files)
        | .error errno =>
            if errno = .eexist then logOpenLoop path name fuel (fileNum + 1) files
            else some (none, files)

/-- What the other calls in `log_init` give: whether the directory is there, whether there is
memory for the semaphore and for the buffer, and the descriptor of the file. -/
structure LogInitEnv where
  mkdirOk : Bool
  mutexOk : Bool
  callocOk : Bool
  fd : ℤ

/-- `log_init`: the returned value, the log, and what has become of the files. -/
def logInit (env : LogInitEnv) (fuel : ℕ) (log : Log) (name : List UInt8)
    (path : Option (List UInt8)) (type : LogType) (bufSize : UInt32) (files : LogFiles) :
    Option (ℤ × Log × Option (List UInt8) × LogFiles) :=
  match path with
  | none => some (-1, log, none, files)
  | some path =>
      if 0 < log.fd then some (-1, log, none, files)
      else if logMaxNameLen < strlen name + strlen path then some (-1, log, none, files)
      else if ¬ env.mkdirOk then some (-1, log, none, files)
      else if ¬ env.mutexOk then some (-1, log, none, files)
      else if ¬ env.callocOk then some (-1, { log with buf := none }, none, files)
      else
        let log := { log with
          buf := some (List.replicate bufSize.toNat 0)
          bufSize := bufSize
          type := type }
        if log.type = .toFile then do
          let (created, files) ← logOpenLoop path name fuel 0 files
          let log := if created.isSome ∧ 0 < env.fd then { log with fd := env.fd } else log
          return (0, log, created, files)
        else some (0, log, none, files)

end Catpilot
