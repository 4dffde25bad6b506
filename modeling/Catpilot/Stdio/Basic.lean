import Catpilot.Posix.Fcntl
import Catpilot.Vfs.Node

/-!
# Streams and descriptors

`fsa/stdio.c`. The table `files` holds pointers to the streams `__files`, here their
numbers. `δ` is the state of the drivers and `P` what `private_data` points to. The
calls of driver operations are recorded in `calls`. `none` is the outcome of a call
that goes through a null pointer.
-/

namespace Catpilot

open CString

/-- `MAX_FILES`. -/
def maxFiles : ℕ := 32

/-- `struct file`. -/
structure File (P : Type*) where
  flags : UInt32
  node : Option ℕ
  privateData : P

/-- What an operation on a file leaves: its result, `errno`, and the file and the
driver after it. -/
structure Answer (δ P : Type*) where
  rv : ℤ
  errno : Errno
  file : File P
  driver : δ

/-- The members of `struct file_operations` that are called here; `none` is a null
pointer. They find `errno` cleared. An operation that reads what is no longer there has
no answer. A write gets the bytes in its buffer, and a read leaves the bytes that it
puts there. -/
structure FileOperations (δ P : Type*) where
  openOp : Option (δ → File P → List UInt8 → Answer δ P)
  writeOp : Option (δ → File P → List UInt8 → Option (Answer δ P)) := none
  readOp : Option (δ → File P → ℕ → Option (Answer δ P × List UInt8)) := none
  closeOp : Option (δ → File P → Option (Answer δ P))
  lseekOp : Option (δ → File P → Int32 → ℤ → Option (Answer δ P)) := none
  mkdirOp : Option (δ → List UInt8 → UInt32 → ℤ × Errno × δ)
  rmdirOp : Option (δ → List UInt8 → ℤ × Errno × δ)

/-- A call of a driver operation of a node, with its arguments. -/
inductive DriverCall where
  | open (node stream : ℕ) (path : List UInt8)
  | write (node stream : ℕ) (buf : List UInt8)
  | read (node stream count : ℕ)
  | close (node stream : ℕ)
  | lseek (node stream : ℕ) (offset : Int32) (whence : ℤ)
  | mkdir (node : ℕ) (path : List UInt8) (mode : UInt32)
  | rmdir (node : ℕ) (path : List UInt8)
  deriving DecidableEq, Repr

/-- The state of `stdio.c`, the tree it finds nodes in, and the drivers. -/
structure Stdio (δ P : Type*) where
  errno : Errno
  files : ℕ → Option ℕ
  stream : ℕ → File P
  tree : NodeTree (FileOperations δ P)
  driver : δ
  calls : List DriverCall

/-- Where a path continues behind the first place that the name of its node occurs at,
without slashes in front; `none` where the name does not occur. `open`, `mkdir` and
`rmdir` compute it in the same words. -/
def relativePathname (pathname name : List UInt8) : Option (List UInt8) :=
  (strstr pathname name).map fun s => (s.drop (strlen name)).dropWhile (· = slash)

/-- `fd_check`: whether the descriptor is out of range. -/
def fdCheck (fd : ℤ) : Bool := fd < 0 || fd ≥ maxFiles

namespace Stdio

section Calls

variable {δ P : Type*}

/-- An operation of the node `n`. -/
def operation {α : Type*} (w : Stdio δ P) (member : FileOperations δ P → Option α) (n : ℕ) :
    Option α :=
  (w.tree.node n).fOp.bind member

/-- `fd_new`. -/
def fdNew (w : Stdio δ P) : ℤ :=
  match (List.range maxFiles).find? fun i => (w.files i).isNone with
  | some i => i
  | none => -1

/-- `fd_delete`. -/
def fdDelete (w : Stdio δ P) (fd : ℤ) : Stdio δ P × ℤ :=
  if fd ≥ maxFiles ∨ fd < 0 then (w, -1)
  else ({ w with files := Function.update w.files fd.toNat none }, 0)

/-- The answer of a driver operation on the stream `i`. -/
def answered (w : Stdio δ P) (call : DriverCall) (i : ℕ) (a : Answer δ P) : Stdio δ P :=
  { w with
    errno := a.errno
    stream := Function.update w.stream i a.file
    driver := a.driver
    calls := w.calls ++ [call] }

/-- A call that fails in `stdio.c` itself. -/
def fail (w : Stdio δ P) (errno : Errno) : Stdio δ P × ℤ := ({ w with errno }, -1)

/-- `open`. -/
def openFile (w : Stdio δ P) (pathname : Option (List UInt8)) (flags : UInt32) :
    Option (Stdio δ P × ℤ) :=
  match pathname, (w.tree.nodeFind pathname .nearestPath).1 with
  | some path, some n =>
      match w.operation FileOperations.openOp n with
      | none => some (w.fail .enoent)
      | some op =>
          let fd := w.fdNew
          if fdCheck fd then some (w.fail .enoent)
          else
            let i := fd.toNat
            let file := { w.stream i with node := some n, flags := flags }
            let w := { w with files := Function.update w.files i (some i) }
            match relativePathname path (w.tree.node n).name with
            | none => none
            | some relative =>
                let a := op w.driver file relative
                let w := w.answered (.open n i relative) i a
                if a.rv ≠ 0 then
                  let w := (w.fdDelete fd).1
                  some (w.fail (if w.errno = .ok then .eio else w.errno))
                else some ({ w with errno := .ok }, fd)
  | _, _ => some (w.fail .enoent)

/-- What `write` and `read` do with a descriptor: they call their operation of the node
of its stream. The operation also leaves the bytes that it puts into a buffer. -/
def fdCall {α : Type*} (w : Stdio δ P) (fd : ℤ) (member : FileOperations δ P → Option α)
    (answer : α → δ → File P → Option (Answer δ P × List UInt8)) (call : ℕ → ℕ → DriverCall) :
    Option (Stdio δ P × ℤ × List UInt8) :=
  if fdCheck fd then some ({ w with errno := .ebadf }, -1, [])
  else
    match w.files fd.toNat with
    | none => some ({ w with errno := .enoent }, -1, [])
    | some i =>
        match (w.stream i).node with
        | none => none
        | some n =>
            match w.operation member n with
            | none => some ({ w with errno := .enoent }, -1, [])
            | some op =>
                (answer op w.driver (w.stream i)).map fun (a, bytes) =>
                  (w.answered (call n i) i a, a.rv, bytes)

/-- `write`, of the bytes in `buf`. -/
def writeFd (w : Stdio δ P) (fd : ℤ) (buf : List UInt8) : Option (Stdio δ P × ℤ × List UInt8) :=
  w.fdCall fd FileOperations.writeOp (fun op s file => (op s file buf).map fun a => (a, []))
    fun n i => .write n i buf

/-- `read`, with the bytes that it puts into the buffer. -/
def readFd (w : Stdio δ P) (fd : ℤ) (count : ℕ) : Option (Stdio δ P × ℤ × List UInt8) :=
  w.fdCall fd FileOperations.readOp (fun op s file => op s file count) fun n i => .read n i count

/-- `close`. -/
def closeFd (w : Stdio δ P) (fd : ℤ) : Option (Stdio δ P × ℤ) :=
  if fdCheck fd then some (w.fail .ebadf)
  else
    match w.files fd.toNat with
    | none => some (w.fail .enoent)
    | some i =>
        match (w.stream i).node with
        | none => none
        | some n =>
            match w.operation FileOperations.closeOp n with
            | none => some (w.fail .enoent)
            | some op =>
                (op w.driver (w.stream i)).map fun a =>
                  let w := w.answered (.close n i) i a
                  if a.rv ≠ 0 then (w, a.rv) else ((w.fdDelete fd).1, a.rv)

/-- `lseek`. -/
def lseek (w : Stdio δ P) (fd : ℤ) (offset : Int32) (whence : ℤ) : Option (Stdio δ P × ℤ) :=
  if fdCheck fd then some (w.fail .ebadf)
  else
    match w.files fd.toNat with
    | none => some (w.fail .enoent)
    | some i =>
        match (w.stream i).node with
        | none => none
        | some n =>
            match w.operation FileOperations.lseekOp n with
            | none => some (w.fail .enoent)
            | some op =>
                (op w.driver (w.stream i) offset whence).map fun a =>
                  let w := w.answered (.lseek n i offset whence) i a
                  if a.rv ≠ 0 then (w, -1) else (w, 0)

/-- `fileno`. -/
def fileno (w : Stdio δ P) (stream : Option ℕ) : Stdio δ P × ℤ :=
  match (List.range maxFiles).find? fun i => w.files i = stream with
  | some i => (w, i)
  | none => w.fail .ebadf

/-- `modecmp`. -/
def modecmp (mode : List UInt8) (pattern : List UInt8) : Bool := cstr mode = pattern

/-- The flags that `fopen` makes of its mode (`r`, `w` or `a`, with `+` and with `b` in
any place); of another mode the flags stay what the uninitialised local holds. -/
def fopenFlag (uninit : UInt32) (mode : List UInt8) : UInt32 :=
  let flag := uninit
  let flag := if modecmp mode [0x72] || modecmp mode [0x72, 0x62] then oRdonly else flag
  let flag :=
    if modecmp mode [0x72, 0x2B] || modecmp mode [0x72, 0x2B, 0x62] ||
        modecmp mode [0x72, 0x62, 0x2B] then oRdwr ||| oTrunc else flag
  let flag :=
    if modecmp mode [0x77] || modecmp mode [0x77, 0x62] then oWronly ||| oCreat ||| oTrunc
    else flag
  let flag :=
    if modecmp mode [0x77, 0x2B] || modecmp mode [0x77, 0x2B, 0x62] ||
        modecmp mode [0x77, 0x62, 0x2B] then oRdwr ||| oCreat ||| oTrunc else flag
  let flag :=
    if modecmp mode [0x61] || modecmp mode [0x61, 0x62] then oWronly ||| oCreat ||| oAppend
    else flag
  if modecmp mode [0x61, 0x2B] || modecmp mode [0x61, 0x2B, 0x62] ||
      modecmp mode [0x61, 0x62, 0x2B] then oRdwr ||| oCreat ||| oAppend
  else flag

/-- A change to the flags of a stream. -/
def setFlags (w : Stdio δ P) (i : ℕ) (f : UInt32 → UInt32) : Stdio δ P :=
  { w with
    stream := Function.update w.stream i { w.stream i with flags := f (w.stream i).flags } }

/-- `fopen`; the stream it returns is a pointer. -/
def fopen (w : Stdio δ P) (uninit : UInt32) (filename : Option (List UInt8))
    (mode : List UInt8) : Option (Stdio δ P × Option ℕ) :=
  (w.openFile filename (fopenFlag uninit mode)).bind fun (w, fd) =>
    if fdCheck fd then some ({ w with errno := .ebadf }, none)
    else
      match w.files fd.toNat with
      | none => none
      | some i => some (w.setFlags i (· &&& ~~~sErr), some i)

/-- What `fread` and `fwrite` do with a stream: if the flags share a bit with `O_RDWR` or
with `access`, they do their `io` on its descriptor. -/
def streamIo (w : Stdio δ P) (stream : Option ℕ) (access : UInt32)
    (io : Stdio δ P → ℤ → Option (Stdio δ P × ℤ × List UInt8)) :
    Option (Stdio δ P × UInt32 × List UInt8) :=
  match stream with
  | none => some ({ w with errno := .enoent }, -1, [])
  | some i =>
      match w.fileno (some i) with
      | (w, fd) =>
          if fd < 0 then some (w, 0, [])
          else if ¬ ((w.stream i).flags &&& oRdwr ≠ 0 ∨ (w.stream i).flags &&& access ≠ 0) then
            some ({ w with errno := .eacces }, -1, [])
          else
            (io w fd).map fun (w, rv, bytes) =>
              (w, if rv < 0 then 0 else UInt32.ofNat rv.toNat, bytes)

/-- `fread`, with the bytes that it puts at `ptr`. -/
def fread (w : Stdio δ P) (size nmemb : UInt32) (stream : Option ℕ) :
    Option (Stdio δ P × UInt32 × List UInt8) :=
  w.streamIo stream oRdonly fun w fd => w.readFd fd (size * nmemb).toNat

/-- The bytes at a pointer. -/
def bytesAt (ptr : ℕ → UInt8) (count : UInt32) : List UInt8 := (List.range count.toNat).map ptr

/-- `fwrite`; `ptr` is the memory from the pointer on. -/
def fwrite (w : Stdio δ P) (ptr : ℕ → UInt8) (size nmemb : UInt32) (stream : Option ℕ) :
    Option (Stdio δ P × UInt32 × List UInt8) :=
  w.streamIo stream oWronly fun w fd => w.writeFd fd (bytesAt ptr (size * nmemb))

/-- `fclose`. -/
def fclose (w : Stdio δ P) (stream : Option ℕ) : Option (Stdio δ P × ℤ) :=
  match stream with
  | none => some (w.fail .enoent)
  | some i =>
      match (w.stream i).node with
      | none => none
      | some n =>
          match w.operation FileOperations.closeOp n with
          | none => none
          | some op =>
              (op w.driver (w.stream i)).bind fun a =>
                let w := w.answered (.close n i) i a
                if a.rv ≠ 0 then some (w.setFlags i (· ||| sErr), a.rv)
                else
                  let (w, fd) := w.fileno (some i)
                  w.closeFd fd

/-- What `mkdir` and `rmdir` do with a path: they call their operation of the nearest
node. -/
def pathCall {α : Type*} (w : Stdio δ P) (pathname : Option (List UInt8))
    (member : FileOperations δ P → Option α) (answer : α → List UInt8 → ℤ × Errno × δ)
    (call : ℕ → List UInt8 → DriverCall) : Option (Stdio δ P × ℤ) :=
  match pathname, (w.tree.nodeFind pathname .nearestPath).1 with
  | some path, some n =>
      match w.operation member n with
      | none => some (w.fail .enoent)
      | some op =>
          (relativePathname path (w.tree.node n).name).map fun relative =>
            let (rv, errno, driver) := answer op relative
            ({ w with errno, driver, calls := w.calls ++ [call n relative] }, rv)
  | _, _ => some (w.fail .enoent)

/-- `mkdir`. -/
def mkdir (w : Stdio δ P) (pathname : Option (List UInt8)) (mode : UInt32) :
    Option (Stdio δ P × ℤ) :=
  w.pathCall pathname FileOperations.mkdirOp (fun op relative => op w.driver relative mode)
    fun n relative => .mkdir n relative mode

/-- `rmdir`. -/
def rmdir (w : Stdio δ P) (pathname : Option (List UInt8)) : Option (Stdio δ P × ℤ) :=
  w.pathCall pathname FileOperations.rmdirOp (fun op relative => op w.driver relative)
    fun n relative => .rmdir n relative

end Calls

end Stdio

end Catpilot
