import Catpilot.Fatfs.Core
import Catpilot.Stdio.Basic

/-!
# The FatFs driver

`fsa/fatfs.c`, as the operations of a node. It keeps a table of file objects of which
`fatfs_index` counts the ones that were given out. `Φ` is the type of file objects.
-/

namespace Catpilot

/-- The functions of FatFs that the driver calls. -/
structure FfApi (V Φ : Type*) where
  fOpen : V → Φ → List UInt8 → UInt8 → FResult × Φ × V
  fLseek : V → Φ → ℕ → FResult × Φ × V
  fSize : Φ → ℕ
  fRead : V → Φ → ℕ → FResult × List UInt8 × Φ × V
  fWrite : V → Φ → List UInt8 → FResult × ℕ × Φ × V
  fClose : V → Φ → FResult × Φ × V
  fMkdir : V → List UInt8 → FResult × V
  fUnlink : V → List UInt8 → FResult × V
  zero : Φ

/-- The functions as `ff.c` has them. -/
def FfCore.api {V D : Type*} (ff : FfCore V D) : FfApi V (Fil D) where
  fOpen := ff.openFile
  fLseek := ff.lseek
  fSize := Fil.objsize
  fRead := ff.read
  fWrite := ff.write
  fClose := ff.fClose
  fMkdir := ff.mkdir
  fUnlink := ff.unlink
  zero := ff.zero

/-- `FATFS_MAX_FILES`. -/
def fatfsMaxFiles : ℕ := 32

/-- What `private_data` of a file points to: nothing, the local `tmp_file` of a call of
`fatfs_open` that is over, or an object of the table. -/
inductive PrivateData where
  | null
  | tmp
  | slot (i : ℕ)
  deriving DecidableEq, Repr

/-- `fatfs_files` and `fatfs_index`, with the state of FatFs itself. -/
structure Fatfs (V Φ : Type*) where
  files : ℕ → Φ
  index : ℕ
  vol : V

/-- `fatfs_index >= FATFS_MAX_FILES - 1`: no object is left to give out. -/
def Fatfs.Full {V Φ : Type*} (s : Fatfs V Φ) : Prop := s.index ≥ fatfsMaxFiles - 1

instance {V Φ : Type*} (s : Fatfs V Φ) : Decidable s.Full :=
  inferInstanceAs (Decidable (s.index ≥ fatfsMaxFiles - 1))

/-- `fatfs_to_errno`. -/
def fatfsToErrno : FResult → Errno
  | .ok => .ok
  | .diskErr => .eio
  | .intErr => .eperm
  | .notReady => .ebusy
  | .noFile => .enoent
  | .noPath => .enoent
  | .invalidName => .einval
  | .denied => .eacces
  | .exist => .eexist
  | .invalidObject => .einval
  | .writeProtected => .erofs
  | .invalidDrive => .enxio
  | .notEnabled => .enospc
  | .noFilesystem => .enxio
  | .mkfsAborted => .einval
  | .timeout => .ebusy
  | .locked => .ebusy
  | .notEnoughCore => .enomem
  | .tooManyOpenFiles => .emfile
  | .invalidParameter => .einval

/-- The mode for `f_open`: `FA_READ` is 1, `FA_WRITE` 2, `FA_CREATE_NEW` 4 and
`FA_CREATE_ALWAYS` 8. -/
def fatfsModes (flags : UInt32) : UInt8 :=
  let modes : UInt8 :=
    if flags &&& oAccmode = oRdwr then 1 ||| 2
    else if flags &&& oAccmode = oRdonly then 1
    else 2
  if flags &&& oCreat ≠ 0 then
    if flags &&& oTrunc ≠ 0 then modes ||| 8 else modes ||| 4
  else modes

/-- A size as a `ssize_t`. -/
def toSsize (size : ℕ) : ℤ := (BitVec.ofNat 32 size).toInt

namespace FfApi

section Driver

variable {V Φ : Type*} (ff : FfApi V Φ)

/-- What `fatfs_open` does with the object that it has opened: it gets the next place
in the table. -/
def keep (s : Fatfs V Φ) (file : File PrivateData) (fil : Φ) :
    Answer (Fatfs V Φ) PrivateData where
  rv := 0
  errno := .ok
  file := { file with privateData := .slot s.index }
  driver := { s with files := Function.update s.files s.index fil, index := s.index + 1 }

/-- `fatfs_open`. -/
def fatfsOpen (s : Fatfs V Φ) (file : File PrivateData) (path : List UInt8) :
    Answer (Fatfs V Φ) PrivateData :=
  if s.Full then ⟨-1, .enomem, file, s⟩
  else
    let file := { file with privateData := .tmp }
    match ff.fOpen s.vol ff.zero path (fatfsModes file.flags) with
    | (res, fil, vol) =>
        if res ≠ .ok then ⟨-1, fatfsToErrno res, file, { s with vol }⟩
        else if file.flags &&& oAppend ≠ 0 then
          match ff.fLseek vol fil (ff.fSize fil) with
          | (res, fil, vol) =>
              if res ≠ .ok then
                ⟨-1, fatfsToErrno res, file, { s with vol := (ff.fClose vol fil).2.2 }⟩
              else keep { s with vol } file fil
        else keep { s with vol } file fil

/-- `fatfs_write`, of a file that is not a null pointer. -/
def fatfsWrite (s : Fatfs V Φ) (file : File PrivateData) (buf : List UInt8) :
    Option (Answer (Fatfs V Φ) PrivateData) :=
  match file.privateData with
  | .null => some ⟨-1, .ebadf, file, s⟩
  | .tmp => none
  | .slot i =>
      match ff.fWrite s.vol (s.files i) buf with
      | (res, size, fil, vol) =>
          let s := { s with files := Function.update s.files i fil, vol }
          if res ≠ .ok then some ⟨-1, fatfsToErrno res, file, s⟩
          else if size ≠ buf.length then some ⟨-1, fatfsToErrno res, file, s⟩
          else some ⟨toSsize size, .ok, file, s⟩

/-- `fatfs_read`, of a file that is not a null pointer. -/
def fatfsRead (s : Fatfs V Φ) (file : File PrivateData) (count : ℕ) :
    Option (Answer (Fatfs V Φ) PrivateData × List UInt8) :=
  match file.privateData with
  | .null => some (⟨-1, .ebadf, file, s⟩, [])
  | .tmp => none
  | .slot i =>
      match ff.fRead s.vol (s.files i) count with
      | (res, bytes, fil, vol) =>
          let s := { s with files := Function.update s.files i fil, vol }
          if res ≠ .ok then some (⟨-1, fatfsToErrno res, file, s⟩, bytes)
          else some (⟨toSsize bytes.length, .ok, file, s⟩, bytes)

/-- `fatfs_close`, of a file that is not a null pointer. The object of an open that
failed is gone, and nothing is known of a close of it. -/
def fatfsClose (s : Fatfs V Φ) (file : File PrivateData) :
    Option (Answer (Fatfs V Φ) PrivateData) :=
  match file.privateData with
  | .null => some ⟨-1, .ebadf, file, s⟩
  | .tmp => none
  | .slot i =>
      match ff.fClose s.vol (s.files i) with
      | (res, fil, vol) =>
          let s := { s with files := Function.update s.files i fil, vol }
          if res ≠ .ok then some ⟨-1, fatfsToErrno res, file, s⟩ else some ⟨0, .ok, file, s⟩

/-- `FATFS_SEEK_SET`, `FATFS_SEEK_CUR` and `FATFS_SEEK_END`. -/
def fatfsSeekSet : ℤ := 0

def fatfsSeekCur : ℤ := 1

def fatfsSeekEnd : ℤ := 2

/-- `fatfs_lseek`, of a file that is not a null pointer. The sizes of FatFs are 32-bit words,
as offsets are. -/
def fatfsLseek (s : Fatfs V Φ) (file : File PrivateData) (offset : Int32) (whence : ℤ) :
    Option (Answer (Fatfs V Φ) PrivateData) :=
  match file.privateData with
  | .null => some ⟨-1, .ebadf, file, s⟩
  | .tmp => none
  | .slot i =>
      let offset :=
        if whence = fatfsSeekSet then offset
        else if whence = fatfsSeekCur then offset
        else if whence = fatfsSeekEnd then (UInt32.ofNat (ff.fSize (s.files i))).toInt32
        else offset
      match ff.fLseek s.vol (s.files i) offset.toUInt32.toNat with
      | (res, fil, vol) =>
          let s := { s with files := Function.update s.files i fil, vol }
          if res ≠ .ok then some ⟨-1, fatfsToErrno res, file, s⟩ else some ⟨0, .ok, file, s⟩

/-- What an open can have done; `Q` is what is known of objects that `f_open` opens. -/
theorem fatfsOpen_cases {Q : Φ → Prop}
    (hopen : ∀ v fil path mode, (ff.fOpen v fil path mode).1 = .ok →
      Q (ff.fOpen v fil path mode).2.1)
    (hseek : ∀ v fil ofs, Q fil → Q (ff.fLseek v fil ofs).2.1)
    (s : Fatfs V Φ) (file : File PrivateData) (path : List UInt8) :
    let a := ff.fatfsOpen s file path
    s.Full ∧ a = ⟨-1, .enomem, file, s⟩ ∨
      ¬ s.Full ∧ (a.rv = -1 ∧ a.file = { file with privateData := .tmp } ∧
          a.driver.index = s.index ∧ a.driver.files = s.files ∨
        a.rv = 0 ∧ a.file = { file with privateData := .slot s.index } ∧
          a.driver.index = s.index + 1 ∧
          ∃ fil, Q fil ∧ a.driver.files = Function.update s.files s.index fil) := by
  by_cases hfull : s.Full
  · exact Or.inl ⟨hfull, if_pos hfull⟩
  · refine Or.inr ⟨hfull, ?_⟩
    have hq := hopen s.vol ff.zero path (fatfsModes file.flags)
    rcases hfo : ff.fOpen s.vol ff.zero path (fatfsModes file.flags) with ⟨res, fil, vol⟩
    rw [hfo] at hq
    have hq' := hseek vol fil (ff.fSize fil)
    rcases hfs : ff.fLseek vol fil (ff.fSize fil) with ⟨res', fil', vol'⟩
    rw [hfs] at hq'
    simp only [fatfsOpen, if_neg hfull, hfo, hfs]
    split
    · exact Or.inl ⟨rfl, rfl, rfl, rfl⟩
    · rename_i hres
      have hfil : Q fil := hq (not_not.1 hres)
      split
      · split
        · exact Or.inl ⟨rfl, rfl, rfl, rfl⟩
        · exact Or.inr ⟨rfl, rfl, rfl, fil', hq' hfil, rfl⟩
      · exact Or.inr ⟨rfl, rfl, rfl, fil, hfil, rfl⟩

/-- An open that `f_open` refuses. -/
theorem fatfsOpen_of_refused {s : Fatfs V Φ} {file : File PrivateData} {path : List UInt8}
    {res : FResult} {fil : Φ} {vol : V} (hfull : ¬ s.Full)
    (hopen : ff.fOpen s.vol ff.zero path (fatfsModes file.flags) = (res, fil, vol))
    (hres : res ≠ .ok) :
    ff.fatfsOpen s file path =
      ⟨-1, fatfsToErrno res, { file with privateData := .tmp }, { s with vol }⟩ := by
  simp only [fatfsOpen, if_neg hfull, hopen, if_pos hres]

/-- An open that `f_open` lets through, without and with a seek to the end. -/
theorem fatfsOpen_of_ok {s : Fatfs V Φ} {file : File PrivateData} {path : List UInt8}
    {fil : Φ} {vol : V} (hfull : ¬ s.Full)
    (hopen : ff.fOpen s.vol ff.zero path (fatfsModes file.flags) = (.ok, fil, vol))
    (happend : file.flags &&& oAppend = 0) :
    ff.fatfsOpen s file path = keep { s with vol } { file with privateData := .tmp } fil := by
  simp only [fatfsOpen, if_neg hfull, hopen, happend, ne_eq, not_true_eq_false, if_false]

theorem fatfsOpen_of_append {s : Fatfs V Φ} {file : File PrivateData} {path : List UInt8}
    {fil fil' : Φ} {vol vol' : V} (hfull : ¬ s.Full)
    (hopen : ff.fOpen s.vol ff.zero path (fatfsModes file.flags) = (.ok, fil, vol))
    (happend : file.flags &&& oAppend ≠ 0)
    (hseek : ff.fLseek vol fil (ff.fSize fil) = (.ok, fil', vol')) :
    ff.fatfsOpen s file path =
      keep { s with vol := vol' } { file with privateData := .tmp } fil' := by
  simp only [fatfsOpen, if_neg hfull, hopen, hseek, ne_eq, not_true_eq_false, if_false,
    if_pos happend]

/-- A close of an object of the table. -/
theorem fatfsClose_slot (s : Fatfs V Φ) {file : File PrivateData} {i : ℕ}
    (h : file.privateData = .slot i) :
    ff.fatfsClose s file = some
      ⟨if (ff.fClose s.vol (s.files i)).1 ≠ .ok then -1 else 0,
        fatfsToErrno (ff.fClose s.vol (s.files i)).1, file,
        { s with
          files := Function.update s.files i (ff.fClose s.vol (s.files i)).2.1
          vol := (ff.fClose s.vol (s.files i)).2.2 }⟩ := by
  simp only [fatfsClose, h]
  by_cases hres : (ff.fClose s.vol (s.files i)).1 = .ok
  · rw [if_neg (not_not.2 hres), if_neg (not_not.2 hres), hres]
    rfl
  · rw [if_pos hres, if_pos hres]

/-- What a close can have done. -/
theorem fatfsClose_cases {s : Fatfs V Φ} {file : File PrivateData}
    {a : Answer (Fatfs V Φ) PrivateData} (h : ff.fatfsClose s file = some a) :
    a = ⟨-1, .ebadf, file, s⟩ ∨ ∃ i, file.privateData = .slot i ∧
      a = ⟨if (ff.fClose s.vol (s.files i)).1 ≠ .ok then -1 else 0,
        fatfsToErrno (ff.fClose s.vol (s.files i)).1, file,
        { s with
          files := Function.update s.files i (ff.fClose s.vol (s.files i)).2.1
          vol := (ff.fClose s.vol (s.files i)).2.2 }⟩ := by
  cases hdata : file.privateData with
  | null =>
      simp only [fatfsClose, hdata] at h
      exact Or.inl (Option.some.inj h).symm
  | tmp =>
      simp only [fatfsClose, hdata] at h
      cases h
  | slot i =>
      rw [ff.fatfsClose_slot s hdata] at h
      exact Or.inr ⟨i, rfl, (Option.some.inj h).symm⟩

/-- The driver when the object `i` and the volume have changed. -/
def putBack (s : Fatfs V Φ) (i : ℕ) (fil : Φ) (vol : V) : Fatfs V Φ :=
  { s with files := Function.update s.files i fil, vol }

/-- A write through an object of the table. -/
theorem fatfsWrite_slot (s : Fatfs V Φ) {file : File PrivateData} {i size : ℕ} {buf : List UInt8}
    {res : FResult} {fil : Φ} {vol : V} (h : file.privateData = .slot i)
    (hwrite : ff.fWrite s.vol (s.files i) buf = (res, size, fil, vol)) :
    ff.fatfsWrite s file buf = some
      ⟨if res ≠ .ok ∨ size ≠ buf.length then -1 else toSsize size, fatfsToErrno res, file,
        putBack s i fil vol⟩ := by
  simp only [fatfsWrite, h, hwrite]
  by_cases hres : res = .ok
  · by_cases hsize : size = buf.length
    · rw [if_neg (not_not.2 hres), if_neg (not_not.2 hsize), if_neg (by simp [hres, hsize]), hres]
      rfl
    · rw [if_neg (not_not.2 hres), if_pos hsize, if_pos (Or.inr hsize)]
      rfl
  · rw [if_pos hres, if_pos (Or.inl hres)]
    rfl

/-- A read through an object of the table. -/
theorem fatfsRead_slot (s : Fatfs V Φ) {file : File PrivateData} {i count : ℕ}
    {bytes : List UInt8} {res : FResult} {fil : Φ} {vol : V} (h : file.privateData = .slot i)
    (hread : ff.fRead s.vol (s.files i) count = (res, bytes, fil, vol)) :
    ff.fatfsRead s file count = some
      (⟨if res ≠ .ok then -1 else toSsize bytes.length, fatfsToErrno res, file,
        putBack s i fil vol⟩, bytes) := by
  simp only [fatfsRead, h, hread]
  by_cases hres : res = .ok
  · rw [if_neg (not_not.2 hres), if_neg (not_not.2 hres), hres]
    rfl
  · rw [if_pos hres, if_pos hres]
    rfl

/-- None of the three touches the file itself. -/
theorem fatfsWrite_file {s : Fatfs V Φ} {file : File PrivateData} {buf : List UInt8}
    {a : Answer (Fatfs V Φ) PrivateData} (h : ff.fatfsWrite s file buf = some a) :
    a.file = file := by
  cases hdata : file.privateData with
  | null =>
      simp only [fatfsWrite, hdata] at h
      cases h
      rfl
  | tmp =>
      simp only [fatfsWrite, hdata] at h
      cases h
  | slot i =>
      rw [ff.fatfsWrite_slot s hdata rfl] at h
      cases h
      rfl

theorem fatfsRead_file {s : Fatfs V Φ} {file : File PrivateData} {count : ℕ}
    {a : Answer (Fatfs V Φ) PrivateData × List UInt8} (h : ff.fatfsRead s file count = some a) :
    a.1.file = file := by
  cases hdata : file.privateData with
  | null =>
      simp only [fatfsRead, hdata] at h
      cases h
      rfl
  | tmp =>
      simp only [fatfsRead, hdata] at h
      cases h
  | slot i =>
      rw [ff.fatfsRead_slot s hdata rfl] at h
      cases h
      rfl

theorem fatfsClose_file {s : Fatfs V Φ} {file : File PrivateData}
    {a : Answer (Fatfs V Φ) PrivateData} (h : ff.fatfsClose s file = some a) : a.file = file := by
  rcases ff.fatfsClose_cases h with rfl | ⟨i, -, rfl⟩
  · rfl
  · rfl

/-- `fatfs_mkdir`. -/
def fatfsMkdir (s : Fatfs V Φ) (pathname : List UInt8) (_mode : UInt32) :
    ℤ × Errno × Fatfs V Φ :=
  match ff.fMkdir s.vol pathname with
  | (res, vol) => (if res ≠ .ok then -1 else 0, fatfsToErrno res, { s with vol })

/-- `fatfs_rmdir`. -/
def fatfsRmdir (s : Fatfs V Φ) (pathname : List UInt8) : ℤ × Errno × Fatfs V Φ :=
  match ff.fUnlink s.vol pathname with
  | (res, vol) => (if res ≠ .ok then -1 else 0, fatfsToErrno res, { s with vol })

/-- The operations that `/fs` is mounted with. -/
def operations : FileOperations (Fatfs V Φ) PrivateData where
  openOp := some ff.fatfsOpen
  writeOp := some ff.fatfsWrite
  readOp := some ff.fatfsRead
  closeOp := some ff.fatfsClose
  lseekOp := some ff.fatfsLseek
  mkdirOp := some ff.fatfsMkdir
  rmdirOp := some ff.fatfsRmdir

end Driver

end FfApi

end Catpilot
