import Catpilot.CString.Format

/-!
# Log messages

`log_module` of `services/misc/log.c` formats a line into an array of its own and then writes
it to the log file or appends it to the log buffer. The time and the message are given as the
texts that they are formatted to. A call has no result when it stores outside of one of the
two arrays.
-/

namespace Catpilot

open CString Memory

/-- `LOG_MAX_LENGTH`. -/
def logMaxLength : ℕ := 255

/-- `LOG_MAX_MODULE_NAME`. -/
def logMaxModuleName : ℕ := 10

/-- The types of the messages. -/
inductive LogMsgType where
  | info
  | warn
  | error
  | debug
  | empty
  deriving DecidableEq, Repr

namespace LogMsgType

/-- `msg_color`; the color of the last type ends a colored text. -/
def color : LogMsgType → List UInt8
  | info => [0x1b, 0x5b, 0x33, 0x32, 0x6d]
  | warn => [0x1b, 0x5b, 0x33, 0x33, 0x6d]
  | error => [0x1b, 0x5b, 0x33, 0x31, 0x6d]
  | debug => [0x1b, 0x5b, 0x33, 0x37, 0x6d]
  | empty => [0x1b, 0x5b, 0x30, 0x6d]

/-- `msg_types`: `INFO`, `WARN`, `ERROR` and `DEBUG`. -/
def text : LogMsgType → List UInt8
  | info => [0x49, 0x4e, 0x46, 0x4f]
  | warn => [0x57, 0x41, 0x52, 0x4e]
  | error => [0x45, 0x52, 0x52, 0x4f, 0x52]
  | debug => [0x44, 0x45, 0x42, 0x55, 0x47]
  | empty => []

end LogMsgType

/-- `enum log_type`. -/
inductive LogType where
  | toBuf
  | toFile
  deriving DecidableEq, Repr

/-- `log_module_t`, without its mutex. -/
structure Log where
  buf : Option (List UInt8)
  bufSize : UInt32
  offset : UInt32
  fd : ℤ
  type : LogType
  deriving DecidableEq, Repr

/-- A call of `log_module`, with the texts of the time and of the message. -/
structure LogCall where
  msgType : LogMsgType
  module : List UInt8
  time : List UInt8
  msg : List UInt8
  deriving DecidableEq, Repr

/-- `"\t"`. -/
def logTab : List UInt8 := [0x09]

/-- `"\r\n"`. -/
def logNewline : List UInt8 := [0x0d, 0x0a]

/-- The array `module_alig`. -/
def moduleAlig (module : List UInt8) : List UInt8 :=
  let moduleAlig := memcpy (List.replicate 20 0) 0 (List.replicate (logMaxModuleName - 1) 0x20)
  memcpy moduleAlig 0 ((cstr module).take (min (strlen module) logMaxModuleName))

/-- `"%.3f\t"`, with the time. -/
def logTimeText (call : LogCall) : List UInt8 := call.time ++ logTab

/-- `"%s%s%s\t"`, with the type of the message between its color and the end of that. -/
def logTypeText (call : LogCall) : List UInt8 :=
  call.msgType.color ++ call.msgType.text ++ LogMsgType.empty.color ++ logTab

/-- `"%s\t"`, with the name of the module. -/
def logModuleText (call : LogCall) : List UInt8 := cstr (moduleAlig call.module) ++ logTab

/-- A formatted line: the array, how many bytes of the line have been stored in it, and the
sum of what the calls have returned. -/
structure LogLine where
  string : List UInt8
  stored : ℕ
  length : ℕ

/-- The part of `log_module` that formats the line. -/
def formatLine (call : LogCall) : Option LogLine := do
  let string := List.replicate logMaxLength 0
  let string ← sprintf string 0 (logTimeText call)
  let length := (logTimeText call).length
  let string ← sprintf string length (logTypeText call)
  let length := length + (logTypeText call).length
  let string ← sprintf string length (logModuleText call)
  let length := length + (logModuleText call).length
  let string ← vsnprintf string length (logMaxLength - length) call.msg
  let stored := length + min call.msg.length (logMaxLength - length - 1)
  let length := length + call.msg.length
  let string ← sprintf string length logNewline
  return ⟨string, stored + logNewline.length, length + logNewline.length⟩

/-- What a call gives out: nothing, a line written to the file with the length that is asked
for, a line in the buffer, or the message that the buffer is full. -/
inductive LogOutput where
  | none
  | file (line : LogLine)
  | buf
  | overflow

/-- `log_module`. -/
def logModule (log : Log) (call : LogCall) : Option (Log × LogOutput) :=
  match log.buf with
  | none => some (log, .none)
  | some buf =>
      if log.fd ≤ 0 ∧ log.type = .toFile then some (log, .none)
      else if call.msgType = .empty then some (log, .none)
      else do
        let line ← formatLine call
        if log.type = .toFile then return (log, .file line)
        else if (log.bufSize - log.offset).toNat < strlen line.string then
          return (log, .overflow)
        else
          let text := cstr line.string
          let buf ← sprintf buf log.offset.toNat text
          return ({ log with
            buf := some buf
            offset := log.offset + UInt32.ofNat text.length }, .buf)

end Catpilot
