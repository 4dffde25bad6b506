import Catpilot.Fatfs.Driver

/-!
# Seeking in FatFs files

`lseek` hands offset and origin to `fatfs_lseek`, which leaves the position out for
`SEEK_CUR` and the offset for `SEEK_END`; and `lseek` itself returns 0 after a seek that
succeeds.
-/

namespace Catpilot

/-- `SEEK_SET`, `SEEK_CUR` and `SEEK_END`. -/
inductive Whence where
  | set
  | cur
  | ofEnd
  deriving DecidableEq, Repr

/-- The number of an origin. -/
def Whence.value : Whence → ℤ
  | set => 0
  | cur => 1
  | ofEnd => 2

/-- What an offset is relative to. -/
def Whence.base (position size : ℕ) : Whence → ℕ
  | set => 0
  | cur => position
  | ofEnd => size

namespace Stdio

section Seek

variable {V Φ : Type*} {ff : FfApi V Φ} {position : Φ → ℕ} {w : Stdio (Fatfs V Φ) PrivateData}
  {i n k : ℕ} {offset : Int32} {whence : Whence}

/-- `f_lseek` sets the position that it is given. -/
def SetsPosition (ff : FfApi V Φ) (position : Φ → ℕ) : Prop :=
  ∀ v fil ofs, (ff.fLseek v fil ofs).1 = .ok ∧ position (ff.fLseek v fil ofs).2.1 = ofs

/-- The descriptor `i` is a file of the node `n` over FatFs, with the object `k`. -/
structure OverObject (ff : FfApi V Φ) (w : Stdio (Fatfs V Φ) PrivateData) (i n k : ℕ) : Prop where
  lt : i < maxFiles
  file : w.files i = some i
  node : (w.stream i).node = some n
  operation : w.operation FileOperations.lseekOp n = some ff.fatfsLseek
  object : (w.stream i).privateData = .slot k

/-- The position becomes the base of the origin with the offset, and is returned. -/
def Seeks (ff : FfApi V Φ) (position : Φ → ℕ) (w : Stdio (Fatfs V Φ) PrivateData) (i k : ℕ)
    (offset : Int32) (whence : Whence) : Prop :=
  let target : ℤ :=
    whence.base (position (w.driver.files k)) (ff.fSize (w.driver.files k)) + offset.toInt
  ∃ w', w.lseek i offset whence.value = some (w', target) ∧
    (position (w'.driver.files k) : ℤ) = target

/-- The offset that `f_lseek` is given. -/
def seekTo (offset : Int32) (size : ℕ) : Whence → ℕ
  | .set | .cur => offset.toUInt32.toNat
  | .ofEnd => (UInt32.ofNat size).toNat

theorem fatfsLseek_slot (s : Fatfs V Φ) {file : File PrivateData} (h : file.privateData = .slot k)
    (offset : Int32) (whence : Whence) {fil : Φ} {vol : V}
    (hseek : ff.fLseek s.vol (s.files k) (seekTo offset (ff.fSize (s.files k)) whence) =
      (.ok, fil, vol)) :
    ff.fatfsLseek s file offset whence.value =
      some ⟨0, .ok, file, { s with files := Function.update s.files k fil, vol }⟩ := by
  have hoffset : (if whence.value = FfApi.fatfsSeekSet then offset
      else if whence.value = FfApi.fatfsSeekCur then offset
      else if whence.value = FfApi.fatfsSeekEnd then
        (UInt32.ofNat (ff.fSize (s.files k))).toInt32
      else offset).toUInt32.toNat = seekTo offset (ff.fSize (s.files k)) whence := by
    cases whence <;> rfl
  rw [FfApi.fatfsLseek, h]
  simp only [hoffset, hseek]
  exact if_neg (not_not.2 rfl)

/-- A seek goes to `seekTo`, and returns 0. -/
theorem OverObject.lseek_eq (h : OverObject ff w i n k) (hsets : SetsPosition ff position)
    (offset : Int32) (whence : Whence) :
    ∃ w', w.lseek i offset whence.value = some (w', 0) ∧
      position (w'.driver.files k) =
        seekTo offset (ff.fSize (w.driver.files k)) whence := by
  obtain ⟨hok, hposition⟩ := hsets w.driver.vol (w.driver.files k)
    (seekTo offset (ff.fSize (w.driver.files k)) whence)
  have hanswer := fatfsLseek_slot w.driver h.object offset whence (Prod.ext hok rfl)
  have hfd : fdCheck i = false := by
    have hlt := h.lt
    simp [fdCheck, hlt]
  simp only [lseek, hfd, Bool.false_eq_true, if_false, Int.toNat_natCast, h.file, h.node,
    h.operation, hanswer, Option.map_some, ne_eq, not_true_eq_false]
  exact ⟨_, rfl, (congrArg position (Function.update_self ..)).trans hposition⟩

/-- Only an offset of zero is the word zero. -/
theorem toNat_eq_zero_iff (offset : Int32) : offset.toUInt32.toNat = 0 ↔ offset.toInt = 0 := by
  have htoInt : offset.toInt = offset.toBitVec.toInt := rfl
  have htoNat : offset.toUInt32.toNat = offset.toBitVec.toNat := rfl
  rw [htoInt, htoNat, BitVec.toInt_eq_toNat_cond]
  have hlt := offset.toBitVec.isLt
  split <;> omega

/-- A seek does what it should exactly if it goes from the start of the file to the start
of the file. -/
theorem OverObject.seeks_iff (h : OverObject ff w i n k) (hsets : SetsPosition ff position)
    (hsize : ff.fSize (w.driver.files k) < 2 ^ 32) (offset : Int32) (whence : Whence) :
    Seeks ff position w i k offset whence ↔
      whence.base (position (w.driver.files k)) (ff.fSize (w.driver.files k)) = 0 ∧
        offset.toInt = 0 := by
  obtain ⟨w', hlseek, hposition⟩ := h.lseek_eq hsets offset whence
  have hword := toNat_eq_zero_iff offset
  have hmod : (UInt32.ofNat (ff.fSize (w.driver.files k))).toNat =
      ff.fSize (w.driver.files k) := UInt32.toNat_ofNat_of_lt' hsize
  constructor
  · rintro ⟨t, ht, hreached⟩
    rw [hlseek, Option.some.injEq, Prod.mk.injEq] at ht
    obtain ⟨rfl, hzero⟩ := ht
    rw [← hzero, hposition] at hreached
    cases whence with
    | set =>
        simp only [Whence.base, seekTo] at *
        exact ⟨trivial, hword.1 (by omega)⟩
    | cur =>
        simp only [Whence.base, seekTo] at *
        have hoffset := hword.1 (by omega)
        exact ⟨by omega, hoffset⟩
    | ofEnd =>
        simp only [Whence.base, seekTo, hmod] at *
        have hfile : ff.fSize (w.driver.files k) = 0 := by omega
        exact ⟨hfile, by omega⟩
  · rintro ⟨hbase, hoffset⟩
    rw [Seeks]
    simp only [hbase, hoffset]
    refine ⟨w', hlseek, ?_⟩
    rw [hposition]
    cases whence with
    | set => simp [seekTo, hword.2 hoffset]
    | cur => simp [seekTo, hword.2 hoffset]
    | ofEnd =>
        rw [Whence.base] at hbase
        simp [seekTo, hbase]

end Seek

section SeekableFile

/-- Files that are a position and a size. -/
def seekable : FfApi Unit (ℕ × ℕ) where
  fOpen := fun _ fil _ _ => (.ok, fil, ())
  fLseek := fun _ fil ofs => (.ok, (ofs, fil.2), ())
  fSize := Prod.snd
  fRead := fun _ fil _ => (.ok, [], fil, ())
  fWrite := fun _ fil buf => (.ok, buf.length, fil, ())
  fClose := fun _ fil => (.ok, fil, ())
  fMkdir := fun _ _ => (.ok, ())
  fUnlink := fun _ _ => (.ok, ())
  zero := (0, 0)

theorem setsPosition_seekable : SetsPosition seekable Prod.fst := fun _ _ _ => ⟨rfl, rfl⟩

/-- Mounted at `/fs`, with a file of five bytes open as descriptor 0, at its start. -/
def fiveBytes : Stdio (Fatfs Unit (ℕ × ℕ)) PrivateData where
  errno := .ok
  files := fun fd => if fd = 0 then some 0 else none
  stream := fun _ => ⟨oRdwr, some 1, .slot 0⟩
  tree := ((NodeTree.init _).nodeMount 1 (some [0x2F, 0x66, 0x73]) (some seekable.operations)).tree
  driver := ⟨fun _ => (0, 5), 1, ()⟩
  calls := []

theorem overObject_fiveBytes : OverObject seekable fiveBytes 0 1 0 :=
  ⟨by decide, rfl, rfl, rfl, rfl⟩

/-- The file is rewound. -/
theorem seeks_iff_rewind : Seeks seekable Prod.fst fiveBytes 0 0 0 .set ↔
    Whence.base (Prod.fst (fiveBytes.driver.files 0))
      (seekable.fSize (fiveBytes.driver.files 0)) .set = 0 ∧ Int32.toInt 0 = 0 :=
  overObject_fiveBytes.seeks_iff setsPosition_seekable (by decide) 0 .set

/-- The position goes to the end of the five bytes, and 0 is returned. -/
theorem not_seeks_end : ¬ ∀ (V Φ : Type) (ff : FfApi V Φ) (position : Φ → ℕ)
    (w : Stdio (Fatfs V Φ) PrivateData) (i n k : ℕ), OverObject ff w i n k →
    SetsPosition ff position → ff.fSize (w.driver.files k) < 2 ^ 32 →
    ∀ (offset : Int32) (whence : Whence),
      0 ≤ (whence.base (position (w.driver.files k)) (ff.fSize (w.driver.files k)) : ℤ) +
        offset.toInt → Seeks ff position w i k offset whence := by
  intro hall
  obtain ⟨w', hlseek, -⟩ := hall Unit (ℕ × ℕ) seekable Prod.fst fiveBytes 0 1 0
    overObject_fiveBytes setsPosition_seekable (by decide) 0 .ofEnd (by decide)
  obtain ⟨t, ht, -⟩ := overObject_fiveBytes.lseek_eq setsPosition_seekable 0 .ofEnd
  rw [ht, Option.some.injEq, Prod.mk.injEq] at hlseek
  exact absurd hlseek.2 (by decide)

end SeekableFile

end Stdio

end Catpilot
