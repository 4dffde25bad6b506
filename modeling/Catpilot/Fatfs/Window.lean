import Catpilot.Storage.Device
import Catpilot.Fatfs.Bytes
import Catpilot.Fatfs.Core

/-!
# The disk access window of FatFs

`core/ff.c` works on the sectors of a volume through one buffer, the window `fs->win`, which
is written back when another sector is needed. A sector of the first FAT is then also
written to the second one. What the code sees through the window stays the same when the
window moves, whatever the disk reports.
-/

namespace Catpilot

open Storage

/-- `FS_FAT12`, `FS_FAT16` and `FS_FAT32`, or 0 in a volume that is not mounted. -/
inductive FsType where
  | unmounted
  | fat12
  | fat16
  | fat32
  deriving DecidableEq, Repr

/-- The members of `FATFS` that stay as `mount_volume` set them. -/
structure FatParams where
  fsType : FsType
  nFats : UInt8
  csize : UInt16
  nFatent : UInt32
  fsize : UInt32
  volbase : UInt32
  fatbase : UInt32
  database : UInt32

/-- The members of `FATFS` about free clusters. -/
structure FatInfo where
  lastClst : UInt32
  freeClst : UInt32
  fsiFlag : UInt8

/-- `FATFS`, with the disk that it is on. -/
structure Volume (D : Type*) extends FatParams, FatInfo where
  wflag : Bool
  winsect : UInt32
  win : Sector
  disk : D

namespace FatParams

variable (fs : FatParams)

/-- The sector is in the first FAT, as `sync_window` asks. -/
def InFat (s : UInt32) : Prop := s - fs.fatbase < fs.fsize

instance (s : UInt32) : Decidable (fs.InFat s) :=
  inferInstanceAs (Decidable (s - fs.fatbase < fs.fsize))

/-- The sector is in the second FAT. -/
def InMirror (s : UInt32) : Prop := fs.nFats = 2 ∧ s - fs.fatbase - fs.fsize < fs.fsize

/-- The sectors that the code reads back: not the address of an invalid window, not the one
with `FSInfo`, and none of the second FAT. -/
def Visible (s : UInt32) : Prop :=
  s ≠ 0xFFFFFFFF ∧ ¬ (fs.fsType = .fat32 ∧ s = fs.volbase + 1) ∧ ¬ fs.InMirror s

/-- The sectors of the first FAT are read back, and `FSInfo` is in no FAT. -/
structure FatApart : Prop where
  visible : ∀ s, fs.InFat s → fs.Visible s
  fsInfo : fs.fsType = .fat32 → ¬ fs.InMirror (fs.volbase + 1)

theorem inMirror_of_inFat {fs : FatParams} {s : UInt32} (hs : fs.InFat s) (hn : fs.nFats = 2) :
    fs.InMirror (s + fs.fsize) := by
  refine ⟨hn, ?_⟩
  have hsub : s + fs.fsize - fs.fatbase - fs.fsize = s - fs.fatbase := by grind
  rw [hsub]
  exact hs

end FatParams

namespace Volume

variable {D : Type*} (dev : Device D UInt32 Sector)

section Code

variable (fs : Volume D)

/-- `sync_window`. -/
def syncWindow : FResult × Volume D :=
  if fs.wflag then
    match dev.write fs.disk fs.winsect fs.win with
    | (true, disk) =>
        let fs := { fs with disk, wflag := false }
        if fs.winsect - fs.fatbase < fs.fsize then
          if fs.nFats = 2 then
            -- the result of the second write is not looked at
            (.ok, { fs with disk := (dev.write fs.disk (fs.winsect + fs.fsize) fs.win).2 })
          else (.ok, fs)
        else (.ok, fs)
    | (false, disk) => (.diskErr, { fs with disk })
  else (.ok, fs)

/-- `move_window`. -/
def moveWindow (sect : UInt32) : FResult × Volume D :=
  if sect ≠ fs.winsect then
    match fs.syncWindow dev with
    | (.ok, fs) =>
        match dev.read fs.disk sect fs.win with
        | (true, win, disk) => (.ok, { fs with winsect := sect, win, disk })
        | (false, win, disk) => (.diskErr, { fs with winsect := 0 - 1, win, disk })
    | (res, fs) => (res, fs)
  else (.ok, fs)

/-- The `FSInfo` sector: its signatures, the number of free clusters and the last one given
out. -/
def fsInfoSector (freeClst lastClst : UInt32) : Sector :=
  let win : Sector := Vector.replicate 512 0
  let win := (win.stWord 510 0xAA55).stDword 0 0x41615252
  ((win.stDword 484 0x61417272).stDword 488 freeClst).stDword 492 lastClst

/-- `sync_fs`. -/
def syncFs : FResult × Volume D :=
  match fs.syncWindow dev with
  | (.ok, fs) =>
      let fs :=
        if fs.fsType = .fat32 ∧ fs.fsiFlag = 1 then
          let win := fsInfoSector fs.freeClst fs.lastClst
          let winsect := fs.volbase + 1
          -- the result of this write is not looked at
          { fs with win, winsect, disk := (dev.write fs.disk winsect win).2, fsiFlag := 0 }
        else fs
      let (done, disk) := dev.flush fs.disk
      (if done then .ok else .diskErr, { fs with disk })
  | (res, fs) => (res, fs)

/-- The window is changed, and is to be written back. -/
def store (win : Sector) : Volume D := { fs with win, wflag := true }

end Code

/-- The sectors as the code sees them. -/
def seen (fs : Volume D) : UInt32 → Sector := dev.seen fs.disk fs.winsect fs.win

/-- A window that is not to be written back holds its sector, and one that is to be
written back is for a sector that is read back. -/
structure Coherent (fs : Volume D) : Prop where
  clean : fs.wflag = false → fs.Visible fs.winsect →
    dev.contents fs.disk fs.winsect = fs.win
  dirty : fs.wflag = true → fs.Visible fs.winsect

/-- Both copies of the FAT on the disk are the same. -/
def Mirrored (fs : Volume D) : Prop :=
  fs.nFats = 2 → ∀ s, fs.InFat s →
    dev.contents fs.disk (s + fs.fsize) = dev.contents fs.disk s

/-- What every function keeps that changes no sector which is read back. -/
structure Steady (fs fs' : Volume D) : Prop where
  params_eq : fs'.toFatParams = fs.toFatParams
  seen_eq : fs.Coherent dev → ∀ s, fs.Visible s → fs'.seen dev s = fs.seen dev s
  coherent : fs.Coherent dev → fs'.Coherent dev
  mirrored : (∀ d a b, (dev.write d a b).1 = true) → fs.FatApart →
    fs.Coherent dev → fs.Mirrored dev → fs'.Mirrored dev

/-- What every movement of the window keeps. -/
structure Moved (fs fs' : Volume D) : Prop extends Steady dev fs fs' where
  info_eq : fs'.toFatInfo = fs.toFatInfo

variable {dev} {fs fs' fs'' : Volume D}

theorem Steady.refl (fs : Volume D) : Steady dev fs fs where
  params_eq := rfl
  seen_eq _ _ _ := rfl
  coherent := id
  mirrored _ _ _ := id

theorem Steady.trans (h : Steady dev fs fs') (h' : Steady dev fs' fs'') : Steady dev fs fs'' where
  params_eq := h'.params_eq.trans h.params_eq
  seen_eq := by
    intro hc s hs
    have hs' : fs'.Visible s := by rwa [h.params_eq]
    rw [h'.seen_eq (h.coherent hc) s hs', h.seen_eq hc s hs]
  coherent hc := h'.coherent (h.coherent hc)
  mirrored hw hv hc hm := by
    refine h'.mirrored hw ?_ (h.coherent hc) (h.mirrored hw hv hc hm)
    rwa [h.params_eq]

theorem Moved.refl (fs : Volume D) : Moved dev fs fs := ⟨Steady.refl fs, rfl⟩

theorem Moved.trans (h : Moved dev fs fs') (h' : Moved dev fs' fs'') : Moved dev fs fs'' :=
  ⟨h.toSteady.trans h'.toSteady, h'.info_eq.trans h.info_eq⟩

variable (dev) in
/-- The four ways in which `sync_window` ends. -/
theorem syncWindow_cases (fs : Volume D) :
    (fs.wflag = false ∧ fs.syncWindow dev = (.ok, fs)) ∨
    (fs.wflag = true ∧ (dev.write fs.disk fs.winsect fs.win).1 = false ∧
      fs.syncWindow dev =
        (.diskErr, { fs with disk := (dev.write fs.disk fs.winsect fs.win).2 })) ∨
    (fs.wflag = true ∧ (dev.write fs.disk fs.winsect fs.win).1 = true ∧
      ¬ (fs.InFat fs.winsect ∧ fs.nFats = 2) ∧
      fs.syncWindow dev =
        (.ok, { fs with disk := (dev.write fs.disk fs.winsect fs.win).2, wflag := false })) ∨
    (fs.wflag = true ∧ (dev.write fs.disk fs.winsect fs.win).1 = true ∧
      fs.InFat fs.winsect ∧ fs.nFats = 2 ∧
      fs.syncWindow dev = (.ok, { fs with
        disk := (dev.write (dev.write fs.disk fs.winsect fs.win).2
          (fs.winsect + fs.fsize) fs.win).2,
        wflag := false })) := by
  rw [syncWindow]
  cases hf : fs.wflag with
  | false => exact .inl ⟨rfl, rfl⟩
  | true =>
      refine .inr ?_
      rcases hw : dev.write fs.disk fs.winsect fs.win with ⟨ok, disk⟩
      cases ok with
      | false => exact .inl ⟨rfl, rfl, rfl⟩
      | true =>
          refine .inr ?_
          by_cases hfat : fs.winsect - fs.fatbase < fs.fsize
          · by_cases hn : fs.nFats = 2
            · exact .inr ⟨rfl, rfl, hfat, hn, by simp only [if_pos hfat, if_pos hn, if_true]⟩
            · exact .inl ⟨rfl, rfl, fun h => hn h.2, by
                simp only [if_pos hfat, if_neg hn, if_true]⟩
          · exact .inl ⟨rfl, rfl, fun h => hfat h.1, by simp only [if_neg hfat, if_true]⟩

/-- A write to the second FAT is not seen. -/
theorem seen_write_mirror (hn : fs.nFats = 2) (hfat : fs.InFat fs.winsect) (disk : D)
    {s : UInt32} (hs : fs.Visible s) :
    dev.seen (dev.write disk (fs.winsect + fs.fsize) fs.win).2 fs.winsect fs.win s =
      dev.seen disk fs.winsect fs.win s := by
  apply dev.seen_write_of_ne
  rintro rfl
  exact hs.2.2 (FatParams.inMirror_of_inFat hfat hn)

theorem contents_write_mirror (hn : fs.nFats = 2) (hfat : fs.InFat fs.winsect) (disk : D)
    (b : Sector) {s : UInt32} (hs : fs.Visible s) :
    dev.contents (dev.write disk (fs.winsect + fs.fsize) b).2 s = dev.contents disk s := by
  apply dev.contents_write_of_ne
  rintro rfl
  exact hs.2.2 (FatParams.inMirror_of_inFat hfat hn)

/-- A sector of the first FAT is not the copy of one. -/
theorem add_fsize_ne (hv : fs.FatApart) (hn : fs.nFats = 2) {s t : UInt32}
    (hs : fs.InFat s) (ht : fs.InFat t) : t + fs.fsize ≠ s := by
  rintro rfl
  exact (hv.visible _ hs).2.2 (FatParams.inMirror_of_inFat ht hn)

variable (dev) in
theorem syncWindow_moved (fs : Volume D) : Moved dev fs (fs.syncWindow dev).2 := by
  rcases fs.syncWindow_cases dev with
    ⟨-, h⟩ | ⟨hf, hok, h⟩ | ⟨hf, hok, hone, h⟩ | ⟨hf, hok, hfat, hn, h⟩
  · rw [h]
    exact Moved.refl fs
  · rw [h]
    refine ⟨⟨rfl, fun _ s _ => congrFun (dev.seen_write _ _ _) s, fun hc => ⟨?_, ?_⟩, ?_⟩, rfl⟩
    · intro hw
      exact absurd (hf.symm.trans hw) Bool.noConfusion
    · exact hc.dirty
    · intro hw
      exact absurd ((hw _ _ _).symm.trans hok) Bool.noConfusion
  · rw [h]
    refine ⟨⟨rfl, fun _ s _ => congrFun (dev.seen_write _ _ _) s, fun hc => ⟨?_, ?_⟩, ?_⟩, rfl⟩
    · intro _ _
      exact dev.contents_write_self _ _ _ hok
    · intro hw
      exact absurd hw Bool.noConfusion
    · intro _ hv hc hm hn s hs
      have hnot : ¬ fs.InFat fs.winsect := fun hw => hone ⟨hw, hn⟩
      have hcopy : s + fs.fsize ≠ fs.winsect := by
        intro heq
        exact (heq ▸ hc.dirty hf).2.2 (FatParams.inMirror_of_inFat hs hn)
      have horig : s ≠ fs.winsect := fun heq => hnot (heq ▸ hs)
      rw [dev.contents_write_of_ne _ _ _ _ hcopy, dev.contents_write_of_ne _ _ _ _ horig]
      exact hm hn s hs
  · rw [h]
    refine ⟨⟨rfl, fun _ s hs => ?_, fun hc => ⟨?_, ?_⟩, ?_⟩, rfl⟩
    · exact (seen_write_mirror hn hfat _ hs).trans (congrFun (dev.seen_write _ _ _) s)
    · intro _ hs
      exact (contents_write_mirror hn hfat _ _ hs).trans (dev.contents_write_self _ _ _ hok)
    · intro hw
      exact absurd hw Bool.noConfusion
    · intro hw hv hc hm _ s hs
      rw [contents_write_mirror hn hfat _ _ (hv.visible s hs)]
      by_cases heq : s = fs.winsect
      · rw [heq, dev.contents_write_self _ _ _ (hw _ _ _), dev.contents_write_self _ _ _ hok]
      · have hcopy : s + fs.fsize ≠ fs.winsect + fs.fsize := by grind
        rw [dev.contents_write_of_ne _ _ _ _ hcopy, dev.contents_write_of_ne _ _ _ _ heq,
          dev.contents_write_of_ne _ _ _ _ (add_fsize_ne hv hn hfat hs)]
        exact hm hn s hs

/-- A window that is not to be written back hides nothing of the disk. -/
theorem seen_of_clean (hc : fs.Coherent dev) (hf : fs.wflag = false) {s : UInt32}
    (hs : fs.Visible s) : fs.seen dev s = dev.contents fs.disk s := by
  rw [seen]
  by_cases heq : s = fs.winsect
  · rw [heq, Device.seen_self]
    exact (hc.clean hf (heq ▸ hs)).symm
  · rw [dev.seen_of_ne _ heq]

theorem syncWindow_clean (h : (fs.syncWindow dev).1 = .ok) :
    (fs.syncWindow dev).2.wflag = false := by
  rcases fs.syncWindow_cases dev with
    ⟨hf, he⟩ | ⟨-, -, he⟩ | ⟨-, -, -, he⟩ | ⟨-, -, -, -, he⟩
  · rwa [he]
  · rw [he] at h
    cases h
  · rw [he]
  · rw [he]

/-- After `sync_window` the disk holds what was seen through the window. -/
theorem syncWindow_ok (hc : fs.Coherent dev) (h : (fs.syncWindow dev).1 = .ok) {s : UInt32}
    (hs : fs.Visible s) :
    dev.contents (fs.syncWindow dev).2.disk s = fs.seen dev s := by
  have hmoved := fs.syncWindow_moved dev
  rw [← hmoved.seen_eq hc s hs]
  refine (seen_of_clean (hmoved.coherent hc) (syncWindow_clean h) ?_).symm
  rwa [hmoved.params_eq]

variable (dev) in
theorem syncWindow_result (fs : Volume D) :
    (fs.syncWindow dev).1 = .ok ∨ (fs.syncWindow dev).1 = .diskErr := by
  rcases fs.syncWindow_cases dev with
    ⟨-, h⟩ | ⟨-, -, h⟩ | ⟨-, -, -, h⟩ | ⟨-, -, -, -, h⟩
  · rw [h]
    exact .inl rfl
  · rw [h]
    exact .inr rfl
  · rw [h]
    exact .inl rfl
  · rw [h]
    exact .inl rfl

variable (dev) in
/-- The ways in which `move_window` ends. -/
theorem moveWindow_cases (fs : Volume D) (sect : UInt32) :
    (fs.winsect = sect ∧ fs.moveWindow dev sect = (.ok, fs)) ∨
    ((fs.syncWindow dev).1 = .diskErr ∧
      fs.moveWindow dev sect = (.diskErr, (fs.syncWindow dev).2)) ∨
    ∃ ok win disk, (fs.syncWindow dev).1 = .ok ∧
      dev.read (fs.syncWindow dev).2.disk sect (fs.syncWindow dev).2.win = (ok, win, disk) ∧
      fs.moveWindow dev sect = (if ok then .ok else .diskErr,
        { (fs.syncWindow dev).2 with winsect := if ok then sect else 0 - 1, win, disk }) := by
  rw [moveWindow]
  by_cases hs : sect = fs.winsect
  · exact .inl ⟨hs.symm, if_neg (not_not.2 hs)⟩
  · rw [if_pos hs]
    refine .inr ?_
    have hres := fs.syncWindow_result dev
    rcases h : fs.syncWindow dev with ⟨res, fs'⟩
    rw [h] at hres
    rcases hres with rfl | rfl
    · refine .inr ?_
      rcases hr : dev.read fs'.disk sect fs'.win with ⟨ok, win, disk⟩
      refine ⟨ok, win, disk, rfl, rfl, ?_⟩
      cases ok with
      | false => simp only [hr, Bool.false_eq_true, if_false]
      | true => simp only [hr, if_true]
    · exact .inl ⟨rfl, rfl⟩

variable (dev) in
theorem moveWindow_result (fs : Volume D) (sect : UInt32) :
    (fs.moveWindow dev sect).1 = .ok ∨ (fs.moveWindow dev sect).1 = .diskErr := by
  rcases fs.moveWindow_cases dev sect with
    ⟨-, h⟩ | ⟨-, h⟩ | ⟨ok, win, disk, -, -, h⟩
  · rw [h]
    exact .inl rfl
  · rw [h]
    exact .inr rfl
  · rw [h]
    cases ok with
    | false => exact .inr rfl
    | true => exact .inl rfl

theorem moveWindow_ok {sect : UInt32} (h : (fs.moveWindow dev sect).1 = .ok) :
    (fs.moveWindow dev sect).2.winsect = sect := by
  rcases fs.moveWindow_cases dev sect with
    ⟨hs, he⟩ | ⟨-, he⟩ | ⟨ok, win, disk, -, -, he⟩
  · rw [he]
    exact hs
  · rw [he] at h
    cases h
  · rw [he] at h ⊢
    cases ok with
    | false => cases h
    | true => rfl

/-- A read into a window that is not to be written back, as `move_window` does it. -/
theorem read_moved {ok : Bool} {win : Sector} {disk : D} {sect : UInt32} (hf : fs.wflag = false)
    (hr : dev.read fs.disk sect fs.win = (ok, win, disk)) :
    Moved dev fs { fs with winsect := if ok then sect else 0 - 1, win, disk } := by
  have hdisk : dev.contents disk = dev.contents fs.disk := by
    have hread := dev.contents_read fs.disk sect fs.win
    rwa [hr] at hread
  have hwin : ok = true → win = dev.contents fs.disk sect := by
    have hread := dev.read_eq fs.disk sect fs.win
    rwa [hr] at hread
  have hclean : ∀ s, fs.Visible s → s = (if ok then sect else 0 - 1) →
      dev.contents disk s = win := by
    rintro s hs rfl
    cases ok with
    | false => exact absurd rfl hs.1
    | true => rw [hwin rfl, hdisk, if_pos rfl]
  refine ⟨⟨rfl, fun hc s hs => ?_, fun _ => ⟨fun _ hs => hclean _ hs rfl, ?_⟩, ?_⟩, rfl⟩
  · rw [seen_of_clean hc hf hs, ← hdisk, seen]
    by_cases heq : s = if ok then sect else 0 - 1
    · rw [hclean s hs heq]
      subst heq
      exact dev.seen_self _ _ _
    · exact dev.seen_of_ne _ heq _
  · intro hw
    exact absurd (hf.symm.trans hw) Bool.noConfusion
  · intro _ _ _ hm hn s hs
    change dev.contents disk _ = dev.contents disk s
    rw [hdisk]
    exact hm hn s hs

variable (dev) in
theorem moveWindow_moved (fs : Volume D) (sect : UInt32) :
    Moved dev fs (fs.moveWindow dev sect).2 := by
  have hsync := fs.syncWindow_moved dev
  rcases fs.moveWindow_cases dev sect with
    ⟨-, h⟩ | ⟨-, h⟩ | ⟨ok, win, disk, hres, hr, h⟩
  · rw [h]
    exact Moved.refl fs
  · rw [h]
    exact hsync
  · rw [h]
    exact hsync.trans (read_moved (syncWindow_clean hres) hr)

theorem flush_steady {done : Bool} {disk : D} (h : dev.flush fs.disk = (done, disk)) :
    Steady dev fs { fs with disk } := by
  have hdisk : dev.contents disk = dev.contents fs.disk := by
    have hflush := dev.contents_flush fs.disk
    rwa [h] at hflush
  refine ⟨rfl, fun _ s _ => ?_, fun hc => ⟨fun hw hs => ?_, hc.dirty⟩, fun _ _ _ hm hn s hs => ?_⟩
  · rw [seen, seen, Device.seen, Device.seen, hdisk]
  · exact (congrFun hdisk _).trans (hc.clean hw hs)
  · change dev.contents disk _ = dev.contents disk s
    rw [hdisk]
    exact hm hn s hs

/-- Writing `FSInfo` with a clean window leaves the sectors that are read back. -/
theorem fsInfo_steady (hf : fs.wflag = false) (h32 : fs.fsType = .fat32) (win : Sector)
    (fsiFlag : UInt8) :
    Steady dev fs { fs with
      win, winsect := fs.volbase + 1, fsiFlag,
      disk := (dev.write fs.disk (fs.volbase + 1) win).2 } := by
  have hne : ∀ {s}, fs.Visible s → s ≠ fs.volbase + 1 := fun hs heq => hs.2.1 ⟨h32, heq⟩
  refine ⟨rfl, fun hc s hs => ?_, fun _ => ⟨fun _ hs => absurd rfl (hne hs), ?_⟩, ?_⟩
  · rw [seen_of_clean hc hf hs, seen, dev.seen_of_ne _ (hne hs),
      dev.contents_write_of_ne _ _ _ _ (hne hs)]
  · intro hw
    exact absurd (hf.symm.trans hw) Bool.noConfusion
  · intro _ hv _ hm hn s hs
    have hcopy : s + fs.fsize ≠ fs.volbase + 1 := by
      intro heq
      exact hv.fsInfo h32 (heq ▸ FatParams.inMirror_of_inFat hs hn)
    change dev.contents (dev.write fs.disk (fs.volbase + 1) win).2 (s + fs.fsize) =
      dev.contents (dev.write fs.disk (fs.volbase + 1) win).2 s
    rw [dev.contents_write_of_ne _ _ _ _ hcopy,
      dev.contents_write_of_ne _ _ _ _ (hne (hv.visible s hs))]
    exact hm hn s hs

variable (dev) in
/-- `sync_fs` changes no sector that is read back. -/
theorem syncFs_steady (fs : Volume D) : Steady dev fs (fs.syncFs dev).2 := by
  have hsync := fs.syncWindow_moved dev
  have hclean : (fs.syncWindow dev).1 = .ok → (fs.syncWindow dev).2.wflag = false :=
    syncWindow_clean
  rw [syncFs]
  rcases h : fs.syncWindow dev with ⟨res, fs₁⟩
  rw [h] at hsync hclean
  cases res with
  | ok =>
      by_cases hi : fs₁.fsType = .fat32 ∧ fs₁.fsiFlag = 1
      · simp only [if_pos hi]
        exact hsync.toSteady.trans ((fsInfo_steady (hclean rfl) hi.1 _ _).trans
          (flush_steady rfl))
      · simp only [if_neg hi]
        exact hsync.toSteady.trans (flush_steady rfl)
  | _ => exact hsync.toSteady

variable (dev) in
theorem syncFs_result (fs : Volume D) :
    (fs.syncFs dev).1 = .ok ∨ (fs.syncFs dev).1 = .diskErr := by
  have hres := fs.syncWindow_result dev
  rw [syncFs]
  rcases h : fs.syncWindow dev with ⟨res, fs₁⟩
  rw [h] at hres
  rcases hres with rfl | rfl
  · exact ite_eq_or_eq _ _ _
  · exact .inr rfl

theorem syncFs_clean (h : (fs.syncFs dev).1 = .ok) : (fs.syncFs dev).2.wflag = false := by
  have hres := fs.syncWindow_result dev
  have hclean : (fs.syncWindow dev).1 = .ok → (fs.syncWindow dev).2.wflag = false :=
    syncWindow_clean
  rw [syncFs] at h ⊢
  rcases hs : fs.syncWindow dev with ⟨res, fs₁⟩
  rw [hs] at h hclean hres
  rcases hres with rfl | rfl
  · by_cases hi : fs₁.fsType = .fat32 ∧ fs₁.fsiFlag = 1
    · simp only [if_pos hi]
      exact hclean rfl
    · simp only [if_neg hi]
      exact hclean rfl
  · cases h

/-- After `sync_fs` the disk holds what was seen through the window. -/
theorem syncFs_ok (hc : fs.Coherent dev) (h : (fs.syncFs dev).1 = .ok) {s : UInt32}
    (hs : fs.Visible s) : dev.contents (fs.syncFs dev).2.disk s = fs.seen dev s := by
  have hsteady := fs.syncFs_steady dev
  rw [← hsteady.seen_eq hc s hs]
  refine (seen_of_clean (hsteady.coherent hc) (syncFs_clean h) ?_).symm
  rwa [hsteady.params_eq]

/-- Only the sector of the window changes with it. -/
theorem seen_store (fs : Volume D) (win : Sector) (s : UInt32) :
    (fs.store win).seen dev s = if s = fs.winsect then win else fs.seen dev s := by
  by_cases h : s = fs.winsect
  · rw [if_pos h, h]
    exact dev.seen_self _ _ _
  · rw [if_neg h, seen, seen, dev.seen_of_ne _ h, store, dev.seen_of_ne _ h]

theorem coherent_store (h : fs.Visible fs.winsect) (win : Sector) :
    (fs.store win).Coherent dev where
  clean hw := absurd hw Bool.noConfusion
  dirty _ := h

end Volume

end Catpilot
