import Catpilot.Posix.Errno
import Mathlib.Data.UInt

/-!
# File objects of FatFs

The part of `core/ff.c` that decides whether a file object is open: `validate`,
`f_sync` and `f_close`, with `FF_FS_LOCK` and `FF_FS_REENTRANT` as `ffconf.h` sets
them. `V` is the state of the volumes and the disks, and `D` the members of a file
object that these functions do not look at.
-/

namespace Catpilot

/-- `FRESULT`. -/
inductive FResult where
  | ok
  | diskErr
  | intErr
  | notReady
  | noFile
  | noPath
  | invalidName
  | denied
  | exist
  | invalidObject
  | writeProtected
  | invalidDrive
  | notEnabled
  | noFilesystem
  | mkfsAborted
  | timeout
  | locked
  | notEnoughCore
  | tooManyOpenFiles
  | invalidParameter
  deriving DecidableEq, Repr

/-- `FIL`; `fs` is the pointer to the volume, which is null in a closed object. -/
structure Fil (D : Type*) where
  fs : Option ℕ
  id : UInt16
  lockid : UInt32
  objsize : ℕ
  flag : UInt8
  rest : D

/-- `FA_MODIFIED`. -/
def faModified : UInt8 := 0x40

/-- The functions of `ff.c` and of the port that work on volumes and disks. `writeBack`
is the body of `f_sync` for a modified file. -/
structure FfCore (V D : Type*) where
  fsType : V → ℕ → UInt8
  fsId : V → ℕ → UInt16
  lockVolume : V → ℕ → Bool × V
  noInit : V → ℕ → Bool
  unlockVolume : V → ℕ → FResult → V
  writeBack : V → Fil D → FResult × UInt8 × V
  decShare : V → UInt32 → FResult × V
  openFile : V → Fil D → List UInt8 → UInt8 → FResult × Fil D × V
  lseek : V → Fil D → ℕ → FResult × Fil D × V
  read : V → Fil D → ℕ → FResult × List UInt8 × Fil D × V
  write : V → Fil D → List UInt8 → FResult × ℕ × Fil D × V
  mkdir : V → List UInt8 → FResult × V
  unlink : V → List UInt8 → FResult × V
  zero : Fil D

namespace FfCore

section Close

variable {V D : Type*} (ff : FfCore V D)

/-- `validate`: the volume of the object, which is then locked, or why there is none. -/
def validate (v : V) (fp : Fil D) : Except FResult ℕ × V :=
  match fp.fs with
  | none => (.error .invalidObject, v)
  | some fs =>
      if ff.fsType v fs ≠ 0 ∧ fp.id = ff.fsId v fs then
        match ff.lockVolume v fs with
        | (true, v) =>
            if ff.noInit v fs then (.error .invalidObject, ff.unlockVolume v fs .ok)
            else (.ok fs, v)
        | (false, v) => (.error .timeout, v)
      else (.error .invalidObject, v)

/-- `f_sync`. -/
def fSync (v : V) (fp : Fil D) : FResult × Fil D × V :=
  match ff.validate v fp with
  | (.error res, v) => (res, fp, v)
  | (.ok fs, v) =>
      if fp.flag &&& faModified ≠ 0 then
        let (res, flag, v) := ff.writeBack v fp
        (res, { fp with flag }, ff.unlockVolume v fs res)
      else (.ok, fp, ff.unlockVolume v fs .ok)

/-- `f_close`. -/
def fClose (v : V) (fp : Fil D) : FResult × Fil D × V :=
  let (res, fp, v) := ff.fSync v fp
  if res = .ok then
    match ff.validate v fp with
    | (.error res, v) => (res, fp, v)
    | (.ok fs, v) =>
        let (res, v) := ff.decShare v fp.lockid
        -- invalidate file object
        (res, if res = .ok then { fp with fs := none } else fp, ff.unlockVolume v fs .ok)
  else (res, fp, v)

/-- What `f_open` and `f_lseek` do to the pointer to the volume: an open that succeeds
sets it, and a seek leaves it. -/
structure Validates : Prop where
  open_fs : ∀ v fp path mode, (ff.openFile v fp path mode).1 = .ok →
    (ff.openFile v fp path mode).2.1.fs ≠ none
  lseek_fs : ∀ v fp ofs, (ff.lseek v fp ofs).2.1.fs = fp.fs

theorem fSync_fs (v : V) (fp : Fil D) : (ff.fSync v fp).2.1.fs = fp.fs := by
  rw [fSync]
  split
  · rfl
  · split
    · rfl
    · rfl

/-- An object that is rejected is so for a reason. -/
theorem validate_ne_ok (v : V) (fp : Fil D) : (ff.validate v fp).1 ≠ .error .ok := by
  rw [validate]
  split
  · exact nofun
  · split
    · split
      · split
        · exact nofun
        · exact nofun
      · exact nofun
    · exact nofun

/-- A closed object is rejected. -/
theorem fClose_closed (v : V) {fp : Fil D} (h : fp.fs = none) :
    ff.fClose v fp = (.invalidObject, fp, v) := by
  simp [fClose, fSync, validate, h]

/-- `f_close` closes the object exactly when it succeeds. -/
theorem fClose_fs (v : V) (fp : Fil D) :
    (ff.fClose v fp).2.1.fs = if (ff.fClose v fp).1 = .ok then none else fp.fs := by
  rcases hsync : ff.fSync v fp with ⟨res, fp', v'⟩
  have hfs : fp'.fs = fp.fs := by
    rw [← ff.fSync_fs v fp, hsync]
  simp only [fClose, hsync]
  by_cases hres : res = .ok
  · rw [if_pos hres]
    rcases hval : ff.validate v' fp' with ⟨fs | fs, v''⟩
    · have hne : fs ≠ .ok := by
        rintro rfl
        exact ff.validate_ne_ok v' fp' (by rw [hval])
      simp only
      rw [if_neg hne, hfs]
    · by_cases hdec : (ff.decShare v'' fp'.lockid).1 = .ok
      · simp only [if_pos hdec]
      · simp only [if_neg hdec, hfs]
  · simp only [if_neg hres, hfs]

end Close

end FfCore

end Catpilot
