import Catpilot.Fatfs.Window

/-!
# The FAT

`get_fat` and `put_fat` read and change the entries of the FAT through the window, with
twelve, sixteen or 28 bits each. Over the bytes of the FAT they are the entries of a table:
a change of one entry leaves all others, those that share a byte with it included, and no
error of the disk changes an entry other than the one that is written.
-/

namespace Catpilot

open Storage

/-! ## Entries in bytes -/

/-- The first byte of an odd entry of twelve bits: its low bits above those of the entry
before. -/
theorem toNat_low (p : UInt8) (v : UInt32) :
    ((p &&& (0x0F : UInt8)) ||| v.toUInt8 <<< 4).toNat = p.toNat % 16 + 16 * (v.toNat % 16) := by
  have hp : (p &&& (0x0F : UInt8)).toNat = p.toNat % 2 ^ 4 := by
    rw [UInt8.toNat_and]
    exact Nat.and_two_pow_sub_one_eq_mod _ 4
  have hv : (v.toUInt8 <<< 4).toNat = (v.toNat % 16) <<< 4 := by
    have hs : (v.toUInt8 <<< 4).toNat = v.toUInt8.toNat <<< 4 % 2 ^ 8 :=
      UInt8.toNat_shiftLeft _ 4
    rw [hs, UInt32.toNat_toUInt8, Nat.shiftLeft_eq, Nat.shiftLeft_eq]
    omega
  have hlt : p.toNat % 2 ^ 4 < 2 ^ 4 := Nat.mod_lt _ (by decide)
  rw [UInt8.toNat_or, hp, hv, Nat.or_comm, ← Nat.shiftLeft_add_eq_or_of_lt hlt,
    Nat.shiftLeft_eq]
  omega

/-- The second byte of an even entry of twelve bits: its high bits below those of the entry
after. -/
theorem toNat_high (p : UInt8) (v : UInt32) :
    ((p &&& (0xF0 : UInt8)) ||| ((v >>> 8).toUInt8 &&& (0x0F : UInt8))).toNat =
      p.toNat / 16 * 16 + v.toNat / 256 % 16 := by
  have hp : (p &&& (0xF0 : UInt8)).toNat = (p.toNat / 16) <<< 4 := by
    rw [UInt8.toNat_and]
    exact and_high (m := 4) p.toNat_lt
  have hv : ((v >>> 8).toUInt8 &&& (0x0F : UInt8)).toNat = v.toNat / 256 % 2 ^ 4 := by
    have hs : (v >>> 8).toNat = v.toNat >>> 8 := UInt32.toNat_shiftRight v 8
    rw [UInt8.toNat_and, UInt32.toNat_toUInt8, hs, Nat.shiftRight_eq_div_pow]
    refine (Nat.and_two_pow_sub_one_eq_mod _ 4).trans ?_
    omega
  have hlt : v.toNat / 256 % 2 ^ 4 < 2 ^ 4 := Nat.mod_lt _ (by decide)
  rw [UInt8.toNat_or, hp, hv, ← Nat.shiftLeft_add_eq_or_of_lt hlt, Nat.shiftLeft_eq]
  rfl

/-- The entry `c` in the bytes of a FAT. -/
def fatEntry (t : FsType) (b : ℕ → UInt8) (c : ℕ) : UInt32 :=
  match t with
  | .fat12 =>
      let wc := (b (c + c / 2)).toUInt32 ||| (b (c + c / 2 + 1)).toUInt32 <<< 8
      if c % 2 = 1 then wc >>> 4 else wc &&& 0xFFF
  | .fat16 => (ldWord b (2 * c)).toUInt32
  | .fat32 => ldDword b (4 * c) &&& 0x0FFFFFFF
  | .unmounted => 1

/-- The bits of a value that an entry has room for. -/
def storedValue (t : FsType) (val : UInt32) : UInt32 :=
  match t with
  | .fat12 => val &&& 0xFFF
  | .fat16 => val &&& 0xFFFF
  | .fat32 => val &&& 0x0FFFFFFF
  | .unmounted => 1

/-- The bytes after the first half of a change to an entry of twelve bits. -/
def putFirst (b : ℕ → UInt8) (c : ℕ) (val : UInt32) : ℕ → UInt8 :=
  Function.update b (c + c / 2)
    (if c % 2 = 1 then (b (c + c / 2) &&& (0x0F : UInt8)) ||| val.toUInt8 <<< 4 else val.toUInt8)

/-- The bytes after the second half. -/
def putSecond (b : ℕ → UInt8) (c : ℕ) (val : UInt32) : ℕ → UInt8 :=
  Function.update b (c + c / 2 + 1)
    (if c % 2 = 1 then (val >>> 4).toUInt8
      else (b (c + c / 2 + 1) &&& (0xF0 : UInt8)) ||| ((val >>> 8).toUInt8 &&& (0x0F : UInt8)))

/-- The bytes after a change to the entry `c`. -/
def putEntry (t : FsType) (b : ℕ → UInt8) (c : ℕ) (val : UInt32) : ℕ → UInt8 :=
  match t with
  | .fat12 => putSecond (putFirst b c val) c val
  | .fat16 => putWord b (2 * c) val.toUInt16
  | .fat32 =>
      putDword b (4 * c) ((val &&& 0x0FFFFFFF) ||| (ldDword b (4 * c) &&& 0xF0000000))
  | .unmounted => b

theorem toNat_fatEntry12 (b : ℕ → UInt8) (c : ℕ) :
    (fatEntry .fat12 b c).toNat =
      if c % 2 = 1 then ((b (c + c / 2)).toNat + 256 * (b (c + c / 2 + 1)).toNat) / 16
      else ((b (c + c / 2)).toNat + 256 * (b (c + c / 2 + 1)).toNat) % 4096 := by
  have hwc : ((b (c + c / 2)).toUInt32 ||| (b (c + c / 2 + 1)).toUInt32 <<< 8).toNat =
      (b (c + c / 2)).toNat + 256 * (b (c + c / 2 + 1)).toNat := by
    have h : (b (c + c / 2 + 1)).toNat < 256 := (b (c + c / 2 + 1)).toNat_lt
    rw [UInt32.or_comm, toNat_push32, UInt8.toNat_toUInt32]
    omega
  rw [fatEntry]
  split_ifs with hc
  · have hs (x : UInt32) : (x >>> 4).toNat = x.toNat >>> 4 := UInt32.toNat_shiftRight x 4
    rw [hs, hwc, Nat.shiftRight_eq_div_pow]
  · exact (toNat_and_low (n := 12) rfl _).trans (congrArg (· % 4096) hwc)

theorem toNat_putFirst (b : ℕ → UInt8) (c : ℕ) (val : UInt32) (k : ℕ) :
    (putFirst b c val k).toNat =
      if k = c + c / 2 then
        if c % 2 = 1 then (b k).toNat % 16 + 16 * (val.toNat % 16) else val.toNat % 256
      else (b k).toNat := by
  rw [putFirst, Function.update_apply]
  split_ifs with hk hc
  · rw [toNat_low, hk]
  · rw [UInt32.toNat_toUInt8]
  · rfl

theorem toNat_putSecond (b : ℕ → UInt8) (c : ℕ) (val : UInt32) (k : ℕ) :
    (putSecond b c val k).toNat =
      if k = c + c / 2 + 1 then
        if c % 2 = 1 then val.toNat / 16 % 256 else (b k).toNat / 16 * 16 + val.toNat / 256 % 16
      else (b k).toNat := by
  have hs : (val >>> 4).toNat = val.toNat >>> 4 := UInt32.toNat_shiftRight val 4
  rw [putSecond, Function.update_apply]
  split_ifs with hk hc
  · rw [UInt32.toNat_toUInt8, hs, Nat.shiftRight_eq_div_pow]
  · rw [toNat_high, hk]
  · rfl

/-- The first half of a change leaves all other entries. -/
theorem fatEntry_putFirst_of_ne (b : ℕ → UInt8) {c d : ℕ} (h : d ≠ c) (val : UInt32) :
    fatEntry .fat12 (putFirst b c val) d = fatEntry .fat12 b d := by
  apply UInt32.toNat_inj.1
  have h₁ : (b (d + d / 2)).toNat < 256 := (b (d + d / 2)).toNat_lt
  rw [toNat_fatEntry12, toNat_fatEntry12, toNat_putFirst, toNat_putFirst]
  split_ifs <;> omega

/-- The second half of a change leaves all other entries. -/
theorem fatEntry_putSecond_of_ne (b : ℕ → UInt8) {c d : ℕ} (h : d ≠ c) (val : UInt32) :
    fatEntry .fat12 (putSecond b c val) d = fatEntry .fat12 b d := by
  apply UInt32.toNat_inj.1
  have h₁ : (b (d + d / 2)).toNat < 256 := (b (d + d / 2)).toNat_lt
  rw [toNat_fatEntry12, toNat_fatEntry12, toNat_putSecond, toNat_putSecond]
  split_ifs <;> omega

theorem fatEntry_put12_self (b : ℕ → UInt8) (c : ℕ) (val : UInt32) :
    fatEntry .fat12 (putSecond (putFirst b c val) c val) c = val &&& 0xFFF := by
  apply UInt32.toNat_inj.1
  rw [toNat_and_low (n := 12) rfl, toNat_fatEntry12, toNat_putSecond, toNat_putSecond,
    toNat_putFirst, toNat_putFirst]
  split_ifs <;> omega

/-- A change of one entry sets it to what it has room for, and leaves all others. -/
theorem fatEntry_putEntry (t : FsType) (b : ℕ → UInt8) (c d : ℕ) (val : UInt32) :
    fatEntry t (putEntry t b c val) d =
      if d = c then storedValue t val else fatEntry t b d := by
  cases t with
  | unmounted =>
      split_ifs
      · rfl
      · rfl
  | fat12 =>
      split_ifs with h
      · rw [h]
        exact fatEntry_put12_self b c val
      · exact (fatEntry_putSecond_of_ne _ h val).trans (fatEntry_putFirst_of_ne b h val)
  | fat16 =>
      rw [putEntry, fatEntry, fatEntry]
      split_ifs with h
      · rw [h, ldWord_putWord_self]
        apply UInt32.toNat_inj.1
        rw [UInt16.toNat_toUInt32, UInt32.toNat_toUInt16]
        exact (toNat_and_low (n := 16) rfl _).symm
      · rw [ldWord_putWord_of_disjoint b (by omega)]
  | fat32 =>
      rw [putEntry, fatEntry, fatEntry]
      split_ifs with h
      · rw [h, ldDword_putDword_self]
        apply UInt32.toNat_inj.1
        have hval : (storedValue .fat32 val).toNat = val.toNat % 268435456 :=
          toNat_and_low (n := 28) rfl _
        rw [hval, toNat_and_low (n := 28) rfl, toNat_keep_reserved]
        omega
      · rw [ldDword_putDword_of_disjoint b (by omega)]

/-! ## The functions -/

namespace FsType

/-- The bytes that `n` entries take, as `mount_volume` computes them. -/
def fatSize (t : FsType) (n : ℕ) : ℕ :=
  match t with
  | .fat12 => n * 3 / 2 + n % 2
  | .fat16 => n * 2
  | .fat32 => n * 4
  | .unmounted => 0

/-- The most entries: `MAX_FAT12`, `MAX_FAT16` or `MAX_FAT32` clusters, and the first two. -/
def maxEntries (t : FsType) : ℕ :=
  match t with
  | .fat12 => 0xFF5 + 2
  | .fat16 => 0xFFF5 + 2
  | .fat32 => 0x0FFFFFF5 + 2
  | .unmounted => 0

end FsType

/-- What `mount_volume` checks of the FAT, and that the FATs and `FSInfo` are apart, which it
does not check: with one reserved sector, `FSInfo` is the first sector of the FAT. -/
structure FatParams.Valid (fs : FatParams) : Prop where
  some_cluster : 2 < fs.nFatent
  entries : fs.nFatent.toNat ≤ fs.fsType.maxEntries
  room : fs.fsType.fatSize fs.nFatent.toNat ≤ fs.fsize.toNat * 512
  apart : fs.FatApart

namespace Volume

variable {D : Type*} (dev : Device D UInt32 Sector)

section Code

variable (fs : Volume D)

/-- Goes on with the window on a sector, or gives up with the error. -/
def withWindow {α : Type*} (sect : UInt32) (error : FResult → α)
    (k : Volume D → α × Volume D) : α × Volume D :=
  match fs.moveWindow dev sect with
  | (.ok, fs) => k fs
  | (res, fs) => (error res, fs)

/-- `get_fat`. -/
def getFat (clst : UInt32) : UInt32 × Volume D :=
  if clst < 2 ∨ fs.nFatent ≤ clst then (1, fs)
  else
    match fs.fsType with
    | .fat12 =>
        let bc := clst + clst / 2
        fs.withWindow dev (fs.fatbase + bc / ss) (fun _ => 0xFFFFFFFF) fun fs =>
          let wc := (fs.win.byte (bc % ss).toNat).toUInt32
          let bc := bc + 1
          fs.withWindow dev (fs.fatbase + bc / ss) (fun _ => 0xFFFFFFFF) fun fs =>
            let wc := wc ||| (fs.win.byte (bc % ss).toNat).toUInt32 <<< 8
            (if clst &&& 1 ≠ 0 then wc >>> 4 else wc &&& 0xFFF, fs)
    | .fat16 =>
        fs.withWindow dev (fs.fatbase + clst / (ss / 2)) (fun _ => 0xFFFFFFFF) fun fs =>
          ((ldWord fs.win.byte (clst * 2 % ss).toNat).toUInt32, fs)
    | .fat32 =>
        fs.withWindow dev (fs.fatbase + clst / (ss / 4)) (fun _ => 0xFFFFFFFF) fun fs =>
          (ldDword fs.win.byte (clst * 4 % ss).toNat &&& 0x0FFFFFFF, fs)
    | .unmounted => (1, fs)

/-- `put_fat`. -/
def putFat (clst val : UInt32) : FResult × Volume D :=
  if 2 ≤ clst ∧ clst < fs.nFatent then
    match fs.fsType with
    | .fat12 =>
        let bc := clst + clst / 2
        fs.withWindow dev (fs.fatbase + bc / ss) id fun fs =>
          let p := (bc % ss).toNat
          let fs := fs.store (fs.win.setByte p
            (if clst &&& 1 ≠ 0 then (fs.win.byte p &&& (0x0F : UInt8)) ||| val.toUInt8 <<< 4
              else val.toUInt8))
          let bc := bc + 1
          fs.withWindow dev (fs.fatbase + bc / ss) id fun fs =>
            let p := (bc % ss).toNat
            (.ok, fs.store (fs.win.setByte p
              (if clst &&& 1 ≠ 0 then (val >>> 4).toUInt8
                else (fs.win.byte p &&& (0xF0 : UInt8)) |||
                  ((val >>> 8).toUInt8 &&& (0x0F : UInt8)))))
    | .fat16 =>
        fs.withWindow dev (fs.fatbase + clst / (ss / 2)) id fun fs =>
          (.ok, fs.store (fs.win.stWord (clst * 2 % ss).toNat val.toUInt16))
    | .fat32 =>
        fs.withWindow dev (fs.fatbase + clst / (ss / 4)) id fun fs =>
          let p := (clst * 4 % ss).toNat
          let val := (val &&& 0x0FFFFFFF) ||| (ldDword fs.win.byte p &&& 0xF0000000)
          (.ok, fs.store (fs.win.stDword p val))
    | .unmounted => (.intErr, fs)
  else (.intErr, fs)

end Code

/-- The bytes of the first FAT. -/
def fatByte (fs : Volume D) (k : ℕ) : UInt8 :=
  (fs.seen dev (fs.fatbase + UInt32.ofNat (k / 512))).byte (k % 512)

/-- The entries of the FAT. -/
def entry (fs : Volume D) (c : ℕ) : UInt32 := fatEntry fs.fsType (fs.fatByte dev) c

variable {dev} {fs fs' : Volume D}

variable (dev) in
theorem withWindow_cases {α : Type*} (fs : Volume D) (sect : UInt32) (error : FResult → α)
    (k : Volume D → α × Volume D) :
    (∃ fs', Moved dev fs fs' ∧ fs'.winsect = sect ∧ fs.withWindow dev sect error k = k fs') ∨
    ∃ fs', Moved dev fs fs' ∧ fs.withWindow dev sect error k = (error .diskErr, fs') := by
  have hmoved := fs.moveWindow_moved dev sect
  have hsect : (fs.moveWindow dev sect).1 = .ok → (fs.moveWindow dev sect).2.winsect = sect :=
    moveWindow_ok
  have hres := fs.moveWindow_result dev sect
  rw [withWindow]
  rcases h : fs.moveWindow dev sect with ⟨res, fs'⟩
  rw [h] at hmoved hsect hres
  rcases hres with rfl | rfl
  · exact .inl ⟨fs', hmoved, hsect rfl, rfl⟩
  · exact .inr ⟨fs', hmoved, rfl⟩

/-- The sector of a byte of the FAT. -/
theorem inFat_sector (fs : FatParams) {k : ℕ} (hk : k < fs.fsize.toNat * 512) :
    fs.InFat (fs.fatbase + UInt32.ofNat (k / 512)) := by
  have hlt : fs.fsize.toNat < 4294967296 := fs.fsize.toNat_lt
  have hsub : fs.fatbase + UInt32.ofNat (k / 512) - fs.fatbase = UInt32.ofNat (k / 512) := by
    grind
  rw [FatParams.InFat, hsub, UInt32.lt_iff_toNat_lt, UInt32.toNat_ofNat']
  omega

/-- Two bytes of the FAT are in one sector of the volume only if they are in one of the FAT. -/
theorem sector_inj (fs : FatParams) {j k : ℕ} (hj : j < fs.fsize.toNat * 512)
    (hk : k < fs.fsize.toNat * 512) :
    fs.fatbase + UInt32.ofNat (j / 512) = fs.fatbase + UInt32.ofNat (k / 512) ↔
      j / 512 = k / 512 := by
  have hlt : fs.fsize.toNat < 4294967296 := fs.fsize.toNat_lt
  constructor
  · intro h
    have hof : UInt32.ofNat (j / 512) = UInt32.ofNat (k / 512) := by grind
    have hnat := congrArg UInt32.toNat hof
    rw [UInt32.toNat_ofNat', UInt32.toNat_ofNat'] at hnat
    omega
  · intro h
    rw [h]

theorem Steady.fatByte_eq (h : Steady dev fs fs') (hv : fs.Valid) (hc : fs.Coherent dev) {k : ℕ}
    (hk : k < fs.fsize.toNat * 512) : fs'.fatByte dev k = fs.fatByte dev k := by
  rw [fatByte, h.params_eq, h.seen_eq hc _ (hv.apart.visible _ (inFat_sector _ hk)), fatByte]

/-- A sector over the bytes of the FAT. -/
def overlay (q : ℕ) (f b : ℕ → UInt8) : ℕ → UInt8 :=
  fun j => if j / 512 = q then f (j % 512) else b j

theorem overlay_update {k q : ℕ} (hq : k / 512 = q) (f b : ℕ → UInt8) (x : UInt8) :
    overlay q (Function.update f (k % 512) x) b = Function.update (overlay q f b) k x := by
  funext j
  rw [overlay, Function.update_apply, Function.update_apply, overlay]
  by_cases hj : j / 512 = q
  · rw [if_pos hj, if_pos hj]
    exact if_congr (by omega) rfl rfl
  · rw [if_neg hj, if_neg hj, if_neg (by omega)]

/-- The window is the sector of a byte of the FAT. -/
def Shows (fs : Volume D) (k : ℕ) : Prop :=
  fs.winsect = fs.fatbase + UInt32.ofNat (k / 512) ∧ k < fs.fsize.toNat * 512

variable (dev) in
theorem Shows.byte_eq {k : ℕ} (h : fs.Shows k) : fs.win.byte (k % 512) = fs.fatByte dev k := by
  rw [fatByte, ← h.1, seen, Device.seen_self]

theorem Shows.congr {j k : ℕ} (h : fs.Shows k) (hj : j / 512 = k / 512) : fs.Shows j := by
  obtain ⟨hsect, hk⟩ := h
  refine ⟨?_, by omega⟩
  rw [hsect, hj]

variable (dev) in
theorem Shows.ldWord_eq {k : ℕ} (h : fs.Shows k) (hk : k % 2 = 0) :
    ldWord fs.win.byte (k % 512) = ldWord (fs.fatByte dev) k := by
  have hmod : k % 512 + 1 = (k + 1) % 512 := by omega
  have h₁ := (h.congr (j := k + 1) (by omega)).byte_eq dev
  rw [ldWord, ldWord, hmod, h.byte_eq dev, h₁]

variable (dev) in
theorem Shows.ldDword_eq {k : ℕ} (h : fs.Shows k) (hk : k % 4 = 0) :
    ldDword fs.win.byte (k % 512) = ldDword (fs.fatByte dev) k := by
  have hmod₁ : k % 512 + 1 = (k + 1) % 512 := by omega
  have hmod₂ : k % 512 + 2 = (k + 2) % 512 := by omega
  have hmod₃ : k % 512 + 3 = (k + 3) % 512 := by omega
  have h₁ := (h.congr (j := k + 1) (by omega)).byte_eq dev
  have h₂ := (h.congr (j := k + 2) (by omega)).byte_eq dev
  have h₃ := (h.congr (j := k + 3) (by omega)).byte_eq dev
  rw [ldDword, ldDword, hmod₁, hmod₂, hmod₃, h.byte_eq dev, h₁, h₂, h₃]

/-- The window lies over its own sector. -/
theorem Shows.overlay_eq {k : ℕ} (h : fs.Shows k) :
    overlay (k / 512) fs.win.byte (fs.fatByte dev) = fs.fatByte dev := by
  funext j
  rw [overlay]
  split_ifs with hj
  · exact (h.congr hj).byte_eq dev
  · rfl

/-- The bytes of the FAT after a change of the window. -/
theorem Shows.fatByte_store {j k : ℕ} (h : fs.Shows k) (hj : j < fs.fsize.toNat * 512)
    (win : Sector) :
    (fs.store win).fatByte dev j = overlay (k / 512) win.byte (fs.fatByte dev) j := by
  have hparams : (fs.store win).toFatParams = fs.toFatParams := rfl
  rw [fatByte, hparams, seen_store, h.1, overlay]
  by_cases heq : j / 512 = k / 512
  · rw [if_pos ((sector_inj _ hj h.2).2 heq), if_pos heq]
  · rw [if_neg fun he => heq ((sector_inj _ hj h.2).1 he), if_neg heq, fatByte]

theorem Shows.fatByte_setByte {j k : ℕ} (h : fs.Shows k) (hj : j < fs.fsize.toNat * 512)
    (b : UInt8) :
    (fs.store (fs.win.setByte (k % 512) b)).fatByte dev j =
      Function.update (fs.fatByte dev) k b j := by
  rw [h.fatByte_store hj, Sector.byte_setByte (Nat.mod_lt _ (by decide)), overlay_update rfl,
    h.overlay_eq]

theorem Shows.fatByte_stWord {j k : ℕ} (h : fs.Shows k) (hj : j < fs.fsize.toNat * 512)
    (hk : k % 2 = 0) (val : UInt16) :
    (fs.store (fs.win.stWord (k % 512) val)).fatByte dev j =
      putWord (fs.fatByte dev) k val j := by
  have hmod : k % 512 + 1 = (k + 1) % 512 := by omega
  rw [h.fatByte_store hj, Sector.stWord, Sector.byte_setByte (by omega), hmod,
    overlay_update (by omega), Sector.byte_setByte (by omega), overlay_update rfl, h.overlay_eq,
    putWord]

theorem Shows.fatByte_stDword {j k : ℕ} (h : fs.Shows k) (hj : j < fs.fsize.toNat * 512)
    (hk : k % 4 = 0) (val : UInt32) :
    (fs.store (fs.win.stDword (k % 512) val)).fatByte dev j =
      putDword (fs.fatByte dev) k val j := by
  have hmod₁ : k % 512 + 1 = (k + 1) % 512 := by omega
  have hmod₂ : k % 512 + 2 = (k + 2) % 512 := by omega
  have hmod₃ : k % 512 + 3 = (k + 3) % 512 := by omega
  rw [h.fatByte_store hj, Sector.stDword, Sector.byte_setByte (by omega), hmod₃,
    overlay_update (by omega), Sector.byte_setByte (by omega), hmod₂, overlay_update (by omega),
    Sector.byte_setByte (by omega), hmod₁, overlay_update (by omega),
    Sector.byte_setByte (by omega), overlay_update rfl, h.overlay_eq, putDword]

/-! ### Addresses of entries -/

theorem div_ss (x : UInt32) : x / ss = UInt32.ofNat (x.toNat / 512) := by
  have hlt : x.toNat < 4294967296 := x.toNat_lt
  have hdiv : (x / ss).toNat = x.toNat / 512 := UInt32.toNat_div x ss
  apply UInt32.toNat_inj.1
  rw [hdiv, UInt32.toNat_ofNat']
  omega

theorem toNat_mod_ss (x : UInt32) : (x % ss).toNat = x.toNat % 512 := UInt32.toNat_mod x ss

theorem div_half_ss (x : UInt32) : x / (ss / 2) = UInt32.ofNat (2 * x.toNat / 512) := by
  have hlt : x.toNat < 4294967296 := x.toNat_lt
  have hdiv : (x / (ss / 2)).toNat = x.toNat / 256 := UInt32.toNat_div x _
  apply UInt32.toNat_inj.1
  rw [hdiv, UInt32.toNat_ofNat']
  omega

theorem div_quarter_ss (x : UInt32) : x / (ss / 4) = UInt32.ofNat (4 * x.toNat / 512) := by
  have hlt : x.toNat < 4294967296 := x.toNat_lt
  have hdiv : (x / (ss / 4)).toNat = x.toNat / 128 := UInt32.toNat_div x _
  apply UInt32.toNat_inj.1
  rw [hdiv, UInt32.toNat_ofNat']
  omega

theorem toNat_mul_two_mod_ss (x : UInt32) : (x * 2 % ss).toNat = 2 * x.toNat % 512 := by
  have hmul : (x * 2).toNat = x.toNat * 2 % 4294967296 := UInt32.toNat_mul x 2
  rw [toNat_mod_ss, hmul]
  omega

theorem toNat_mul_four_mod_ss (x : UInt32) : (x * 4 % ss).toNat = 4 * x.toNat % 512 := by
  have hmul : (x * 4).toNat = x.toNat * 4 % 4294967296 := UInt32.toNat_mul x 4
  rw [toNat_mod_ss, hmul]
  omega

theorem and_one_ne_zero (x : UInt32) : x &&& 1 ≠ 0 ↔ x.toNat % 2 = 1 := by
  have hand : (x &&& 1).toNat = x.toNat % 2 := by
    rw [UInt32.toNat_and]
    exact Nat.and_two_pow_sub_one_eq_mod _ 1
  rw [Ne, ← UInt32.toNat_inj, hand]
  change ¬ x.toNat % 2 = 0 ↔ _
  omega

/-- The first byte of an entry of twelve bits. -/
theorem toNat_add_half {x : UInt32} (hx : x.toNat < 4096) :
    (x + x / 2).toNat = x.toNat + x.toNat / 2 := by
  have hdiv : (x / 2).toNat = x.toNat / 2 := UInt32.toNat_div x 2
  rw [UInt32.toNat_add, hdiv]
  omega

theorem toNat_add_half_succ {x : UInt32} (hx : x.toNat < 4096) :
    (x + x / 2 + 1).toNat = x.toNat + x.toNat / 2 + 1 := by
  have hone : (1 : UInt32).toNat = 1 := rfl
  rw [UInt32.toNat_add, toNat_add_half hx, hone]
  omega

/-! ### What the functions do -/

/-- The window moves to a byte of the FAT, or the disk reports an error. -/
theorem withWindow_rule {α : Type*} {P : α × Volume D → Prop} {k : ℕ}
    (hk : k < fs.fsize.toNat * 512) {sect : UInt32}
    (hsect : sect = fs.fatbase + UInt32.ofNat (k / 512)) {error : FResult → α}
    {next : Volume D → α × Volume D}
    (hnext : ∀ fs', Moved dev fs fs' → fs'.Shows k → P (next fs'))
    (herror : ∀ fs', Moved dev fs fs' → P (error .diskErr, fs')) :
    P (fs.withWindow dev sect error next) := by
  rcases fs.withWindow_cases dev sect error next with ⟨fs', hm, hs, h⟩ | ⟨fs', hm, h⟩
  · rw [h]
    refine hnext fs' hm ⟨?_, ?_⟩
    · rw [hm.params_eq, hs, hsect]
    · rwa [hm.params_eq]
  · rw [h]
    exact herror fs' hm

/-- The bytes of an entry are in the FAT. -/
theorem entry_room (hv : fs.Valid) {c : ℕ} (hc : c < fs.nFatent.toNat) :
    (fs.fsType = .fat12 → c < 4096 ∧ c + c / 2 + 1 < fs.fsize.toNat * 512) ∧
    (fs.fsType = .fat16 → 2 * c + 1 < fs.fsize.toNat * 512) ∧
    (fs.fsType = .fat32 → 4 * c + 3 < fs.fsize.toNat * 512) := by
  have hroom := hv.room
  have hmax := hv.entries
  refine ⟨fun ht => ?_, fun ht => ?_, fun ht => ?_⟩
  · rw [ht, FsType.fatSize] at hroom
    rw [ht, FsType.maxEntries] at hmax
    omega
  · rw [ht, FsType.fatSize] at hroom
    omega
  · rw [ht, FsType.fatSize] at hroom
    omega

/-- The entries of the table depend on its bytes only. -/
theorem fatEntry_congr (hv : fs.Valid) {b b' : ℕ → UInt8}
    (h : ∀ k < fs.fsize.toNat * 512, b k = b' k) {c : ℕ} (hc : c < fs.nFatent.toNat) :
    fatEntry fs.fsType b c = fatEntry fs.fsType b' c := by
  obtain ⟨h12, h16, h32⟩ := entry_room hv hc
  cases ht : fs.fsType with
  | unmounted => rfl
  | fat12 =>
      obtain ⟨-, hbyte⟩ := h12 ht
      rw [fatEntry, fatEntry, h _ hbyte, h _ (by omega)]
  | fat16 =>
      have hbyte := h16 ht
      rw [fatEntry, fatEntry, ldWord, ldWord, h _ hbyte, h _ (by omega)]
  | fat32 =>
      have hbyte := h32 ht
      rw [fatEntry, fatEntry, ldDword, ldDword, h _ hbyte, h _ (by omega), h _ (by omega),
        h _ (by omega)]

theorem Steady.entry_eq (h : Steady dev fs fs') (hv : fs.Valid) (hc : fs.Coherent dev) {c : ℕ}
    (hlt : c < fs.nFatent.toNat) : fs'.entry dev c = fs.entry dev c := by
  rw [entry, entry, h.params_eq]
  exact fatEntry_congr hv (fun k hk => h.fatByte_eq hv hc hk) hlt

/-- The answer of a function that reads `v`, unless the disk reports an error. -/
def Reads (dev : Device D UInt32 Sector) (fs : Volume D) (v : UInt32)
    (r : UInt32 × Volume D) : Prop :=
  Moved dev fs r.2 ∧ (r.1 = 0xFFFFFFFF ∨ r.1 = v)

/-- `get_fat` reads the entry, and the only error is that of the disk. -/
theorem getFat_reads (hv : fs.Valid) (hc : fs.Coherent dev) {clst : UInt32} (h2 : 2 ≤ clst)
    (hn : clst < fs.nFatent) :
    Reads dev fs (fs.entry dev clst.toNat) (fs.getFat dev clst) := by
  have hin : ¬ (clst < 2 ∨ fs.nFatent ≤ clst) := by grind
  have hroom := entry_room hv (UInt32.lt_iff_toNat_lt.1 hn)
  rw [getFat, if_neg hin, entry]
  cases ht : fs.fsType with
  | unmounted => exact ⟨Moved.refl fs, .inr rfl⟩
  | fat12 =>
      obtain ⟨hlt, hbyte⟩ := hroom.1 ht
      have hbc := toNat_add_half hlt
      have hbc' := toNat_add_half_succ hlt
      refine withWindow_rule (k := clst.toNat + clst.toNat / 2) (by omega)
        (by rw [div_ss, hbc]) (fun fs₁ hm₁ hs₁ => ?_) fun fs₁ hm₁ => ⟨hm₁, .inl rfl⟩
      refine withWindow_rule (k := clst.toNat + clst.toNat / 2 + 1) (by rwa [hm₁.params_eq])
        (by rw [div_ss, hbc', hm₁.params_eq]) (fun fs₂ hm₂ hs₂ => ?_)
        fun fs₂ hm₂ => ⟨hm₁.trans hm₂, .inl rfl⟩
      refine ⟨hm₁.trans hm₂, .inr ?_⟩
      have hb₁ := hs₁.byte_eq dev
      have hb₂ := hs₂.byte_eq dev
      rw [hm₁.fatByte_eq hv hc (by omega)] at hb₁
      rw [(hm₁.trans hm₂).fatByte_eq hv hc hbyte] at hb₂
      rw [fatEntry, toNat_mod_ss, toNat_mod_ss, hbc, hbc', hb₁, hb₂]
      exact if_congr (and_one_ne_zero clst) rfl rfl
  | fat16 =>
      have hbyte := hroom.2.1 ht
      refine withWindow_rule (k := 2 * clst.toNat) (by omega) (by rw [div_half_ss])
        (fun fs₁ hm₁ hs₁ => ⟨hm₁, .inr ?_⟩) fun fs₁ hm₁ => ⟨hm₁, .inl rfl⟩
      rw [toNat_mul_two_mod_ss, hs₁.ldWord_eq dev (by omega), ldWord,
        hm₁.fatByte_eq hv hc hbyte, hm₁.fatByte_eq hv hc (by omega), fatEntry, ldWord]
  | fat32 =>
      have hbyte := hroom.2.2 ht
      refine withWindow_rule (k := 4 * clst.toNat) (by omega) (by rw [div_quarter_ss])
        (fun fs₁ hm₁ hs₁ => ⟨hm₁, .inr ?_⟩) fun fs₁ hm₁ => ⟨hm₁, .inl rfl⟩
      rw [toNat_mul_four_mod_ss, hs₁.ldDword_eq dev (by omega), ldDword,
        hm₁.fatByte_eq hv hc hbyte, hm₁.fatByte_eq hv hc (by omega),
        hm₁.fatByte_eq hv hc (by omega), hm₁.fatByte_eq hv hc (by omega), fatEntry, ldDword]

theorem getFat_of_outside {clst : UInt32} (h : clst < 2 ∨ fs.nFatent ≤ clst) :
    fs.getFat dev clst = (1, fs) := by
  rw [getFat, if_pos h]

/-- What the functions on the FAT keep: all but the sectors of the FAT itself. -/
structure Worked (dev : Device D UInt32 Sector) (fs fs' : Volume D) : Prop where
  params_eq : fs'.toFatParams = fs.toFatParams
  coherent : fs.Coherent dev → fs'.Coherent dev
  seen_eq : fs.Coherent dev → ∀ s, fs.Visible s → ¬ fs.InFat s →
    fs'.seen dev s = fs.seen dev s
  mirrored : (∀ d a b, (dev.write d a b).1 = true) → fs.FatApart →
    fs.Coherent dev → fs.Mirrored dev → fs'.Mirrored dev

variable {fs'' : Volume D}

theorem Steady.worked (h : Steady dev fs fs') : Worked dev fs fs' where
  params_eq := h.params_eq
  coherent := h.coherent
  seen_eq hc s hs _ := h.seen_eq hc s hs
  mirrored := h.mirrored

theorem Worked.refl (fs : Volume D) : Worked dev fs fs := (Steady.refl fs).worked

theorem Worked.trans (h : Worked dev fs fs') (h' : Worked dev fs' fs'') :
    Worked dev fs fs'' where
  params_eq := h'.params_eq.trans h.params_eq
  coherent hc := h'.coherent (h.coherent hc)
  seen_eq := by
    intro hc s hs hout
    rw [← h.seen_eq hc s hs hout]
    refine h'.seen_eq (h.coherent hc) s ?_ ?_
    · rwa [h.params_eq]
    · rwa [h.params_eq]
  mirrored hw hv hc hm := by
    refine h'.mirrored hw ?_ (h.coherent hc) (h.mirrored hw hv hc hm)
    rwa [h.params_eq]

theorem Shows.inFat {k : ℕ} (h : fs.Shows k) : fs.InFat fs.winsect := by
  rw [h.1]
  exact inFat_sector _ h.2

variable (dev) in
/-- A change of the window on a sector of the FAT. -/
theorem Shows.worked {k : ℕ} (h : fs.Shows k) (hv : fs.FatApart) (win : Sector) :
    Worked dev fs (fs.store win) where
  params_eq := rfl
  coherent _ := coherent_store (hv.visible _ h.inFat) win
  seen_eq := by
    rintro - s - hout
    rw [seen_store, if_neg]
    rintro rfl
    exact hout h.inFat
  mirrored _ _ _ := id

/-- The answer of a function that sets the entry `c`. With twelve bits it may fail between
the two bytes of the entry. -/
structure Writes (dev : Device D UInt32 Sector) (fs : Volume D) (c : ℕ) (val : UInt32)
    (r : FResult × Volume D) : Prop where
  worked : Worked dev fs r.2
  info_eq : r.2.toFatInfo = fs.toFatInfo
  result : r.1 = .ok ∨ r.1 = .diskErr
  entry_ok : r.1 = .ok → ∀ d < fs.nFatent.toNat,
    r.2.entry dev d = if d = c then storedValue fs.fsType val else fs.entry dev d
  entry_error : r.1 ≠ .ok → ∀ d < fs.nFatent.toNat, d ≠ c ∨ fs.fsType ≠ .fat12 →
    r.2.entry dev d = fs.entry dev d

theorem Writes.of_moved (h : Moved dev fs fs') (hv : fs.Valid) (hc : fs.Coherent dev) (c : ℕ)
    (val : UInt32) : Writes dev fs c val (.diskErr, fs') where
  worked := h.worked
  info_eq := h.info_eq
  result := .inr rfl
  entry_ok hok := by cases hok
  entry_error _ _ hd _ := h.entry_eq hv hc hd

theorem Writes.of_bytes (hw : Worked dev fs fs') (hi : fs'.toFatInfo = fs.toFatInfo)
    (hv : fs.Valid) {c : ℕ} {val : UInt32}
    (hb : ∀ k < fs.fsize.toNat * 512,
      fs'.fatByte dev k = putEntry fs.fsType (fs.fatByte dev) c val k) :
    Writes dev fs c val (.ok, fs') where
  worked := hw
  info_eq := hi
  result := .inl rfl
  entry_ok _ d hd := by
    rw [entry, hw.params_eq, fatEntry_congr hv hb hd, fatEntry_putEntry, entry]
  entry_error hne := absurd rfl hne

theorem update_congr {N a : ℕ} {f g : ℕ → UInt8} (h : ∀ k < N, f k = g k) {x y : UInt8}
    (hxy : x = y) {j : ℕ} (hj : j < N) : Function.update f a x j = Function.update g a y j := by
  rw [Function.update_apply, Function.update_apply, hxy, h j hj]

/-- `put_fat` sets the entry and no other one; when the disk reports an error it sets none,
or half of this one when it has twelve bits. -/
theorem putFat_writes (hv : fs.Valid) (hc : fs.Coherent dev) (hmounted : fs.fsType ≠ .unmounted)
    {clst : UInt32} (h2 : 2 ≤ clst) (hn : clst < fs.nFatent) (val : UInt32) :
    Writes dev fs clst.toNat val (fs.putFat dev clst val) := by
  have hin : 2 ≤ clst ∧ clst < fs.nFatent := ⟨h2, hn⟩
  have hroom := entry_room hv (UInt32.lt_iff_toNat_lt.1 hn)
  rw [putFat, if_pos hin]
  cases ht : fs.fsType with
  | unmounted => exact absurd ht hmounted
  | fat12 =>
      obtain ⟨hlt, hbyte⟩ := hroom.1 ht
      have hbc := toNat_add_half hlt
      have hbc' := toNat_add_half_succ hlt
      refine withWindow_rule (k := clst.toNat + clst.toNat / 2) (by omega)
        (by rw [div_ss, hbc]) (fun fs₁ hm₁ hs₁ => ?_) fun fs₁ hm₁ => .of_moved hm₁ hv hc _ _
      -- the first byte
      have hv₁ : fs₁.FatApart := by rw [hm₁.params_eq]; exact hv.apart
      set fs₂ := fs₁.store (fs₁.win.setByte ((clst + clst / 2) % ss).toNat
        (if clst &&& 1 ≠ 0 then
          (fs₁.win.byte ((clst + clst / 2) % ss).toNat &&& (0x0F : UInt8)) ||| val.toUInt8 <<< 4
        else val.toUInt8)) with hfs₂
      have hw₂ : Worked dev fs fs₂ := hm₁.worked.trans (hs₁.worked dev hv₁ _)
      have hb₂ : ∀ k < fs.fsize.toNat * 512,
          fs₂.fatByte dev k = putFirst (fs.fatByte dev) clst.toNat val k := by
        intro k hk
        rw [hfs₂, toNat_mod_ss, hbc, hs₁.fatByte_setByte (by rwa [hm₁.params_eq]),
          hs₁.byte_eq dev, hm₁.fatByte_eq hv hc (by omega), putFirst]
        exact update_congr (fun j hj => hm₁.fatByte_eq hv hc hj)
          (if_congr (and_one_ne_zero clst) rfl rfl) hk
      have hv₂ : fs₂.Valid := by rw [hw₂.params_eq]; exact hv
      -- the second byte
      refine withWindow_rule (k := clst.toNat + clst.toNat / 2 + 1) (by rwa [hw₂.params_eq])
        (by rw [div_ss, hbc']) (fun fs₃ hm₃ hs₃ => ?_) fun fs₃ hm₃ => ?_
      · have hv₃ : fs₃.FatApart := by rw [hm₃.params_eq]; exact hv₂.apart
        have hb₃ : ∀ k < fs.fsize.toNat * 512,
            fs₃.fatByte dev k = putFirst (fs.fatByte dev) clst.toNat val k := by
          intro k hk
          rw [hm₃.fatByte_eq hv₂ (hw₂.coherent hc) (by rwa [hw₂.params_eq]), hb₂ k hk]
        have hw₃ := (hw₂.trans hm₃.worked).trans (hs₃.worked dev hv₃
          (fs₃.win.setByte ((clst + clst / 2 + 1) % ss).toNat
            (if clst &&& 1 ≠ 0 then (val >>> 4).toUInt8
              else (fs₃.win.byte ((clst + clst / 2 + 1) % ss).toNat &&& (0xF0 : UInt8)) |||
                ((val >>> 8).toUInt8 &&& (0x0F : UInt8)))))
        refine .of_bytes hw₃ (hm₃.info_eq.trans hm₁.info_eq) hv fun k hk => ?_
        rw [toNat_mod_ss, hbc', hs₃.fatByte_setByte (by rwa [hm₃.params_eq, hw₂.params_eq]),
          hs₃.byte_eq dev, hb₃ _ hbyte, ht, putEntry, putSecond]
        exact update_congr hb₃ (if_congr (and_one_ne_zero clst) rfl rfl) hk
      · refine ⟨hw₂.trans hm₃.worked, hm₃.info_eq.trans hm₁.info_eq, .inr rfl, ?_, ?_⟩
        · intro hok
          cases hok
        · intro _ d hd hne
          have hdc : d ≠ clst.toNat := hne.resolve_right (not_not.2 ht)
          rw [hm₃.entry_eq hv₂ (hw₂.coherent hc) (by rwa [hw₂.params_eq]), entry,
            hw₂.params_eq, fatEntry_congr hv hb₂ hd, ht, fatEntry_putFirst_of_ne _ hdc, entry, ht]
  | fat16 =>
      have hbyte := hroom.2.1 ht
      refine withWindow_rule (k := 2 * clst.toNat) (by omega) (by rw [div_half_ss])
        (fun fs₁ hm₁ hs₁ => ?_) fun fs₁ hm₁ => .of_moved hm₁ hv hc _ _
      have hv₁ : fs₁.FatApart := by rw [hm₁.params_eq]; exact hv.apart
      refine .of_bytes (hm₁.worked.trans (hs₁.worked dev hv₁ _)) hm₁.info_eq hv fun k hk => ?_
      rw [toNat_mul_two_mod_ss, hs₁.fatByte_stWord (by rwa [hm₁.params_eq]) (by omega), ht,
        putEntry, putWord, putWord]
      exact update_congr (fun j hj => update_congr (fun i hi => hm₁.fatByte_eq hv hc hi) rfl hj)
        rfl hk
  | fat32 =>
      have hbyte := hroom.2.2 ht
      refine withWindow_rule (k := 4 * clst.toNat) (by omega) (by rw [div_quarter_ss])
        (fun fs₁ hm₁ hs₁ => ?_) fun fs₁ hm₁ => .of_moved hm₁ hv hc _ _
      have hv₁ : fs₁.FatApart := by rw [hm₁.params_eq]; exact hv.apart
      have hold : ldDword (fs₁.fatByte dev) (4 * clst.toNat) =
          ldDword (fs.fatByte dev) (4 * clst.toNat) := by
        rw [ldDword, ldDword, hm₁.fatByte_eq hv hc hbyte, hm₁.fatByte_eq hv hc (by omega),
          hm₁.fatByte_eq hv hc (by omega), hm₁.fatByte_eq hv hc (by omega)]
      refine .of_bytes (hm₁.worked.trans (hs₁.worked dev hv₁ _)) hm₁.info_eq hv fun k hk => ?_
      rw [toNat_mul_four_mod_ss, hs₁.fatByte_stDword (by rwa [hm₁.params_eq]) (by omega),
        hs₁.ldDword_eq dev (by omega), hold, ht, putEntry, putDword, putDword]
      exact update_congr (fun j hj => update_congr (fun i hi => update_congr (fun m hm =>
        update_congr (fun n hn => hm₁.fatByte_eq hv hc hn) rfl hm) rfl hi) rfl hj) rfl hk

theorem putFat_of_outside {clst : UInt32} (h : ¬ (2 ≤ clst ∧ clst < fs.nFatent)) (val : UInt32) :
    fs.putFat dev clst val = (.intErr, fs) := by
  rw [putFat, if_neg h]

/-! ### Runs -/

/-- A call of one of the functions. -/
inductive TableCall where
  | get (clst : UInt32)
  | put (clst val : UInt32)
  | sync
  deriving DecidableEq, Repr

/-- What a call returns. -/
inductive TableAnswer where
  | value (val : UInt32)
  | result (res : FResult)
  deriving DecidableEq, Repr

variable (dev) in
/-- One call. -/
def tableCall (fs : Volume D) : TableCall → TableAnswer × Volume D
  | .get clst => ((.value (fs.getFat dev clst).1), (fs.getFat dev clst).2)
  | .put clst val => ((.result (fs.putFat dev clst val).1), (fs.putFat dev clst val).2)
  | .sync => ((.result (fs.syncFs dev).1), (fs.syncFs dev).2)

variable (dev) in
/-- The answers of the calls, and the volume after them. -/
def tableCalls (fs : Volume D) : List TableCall → List TableAnswer × Volume D
  | [] => ([], fs)
  | call :: calls =>
      let (answer, fs) := fs.tableCall dev call
      let (answers, fs) := fs.tableCalls calls
      (answer :: answers, fs)

end Volume

open Volume

/-- A table in which an entry may be unknown. -/
abbrev KnownTable := ℕ → Option UInt32

namespace KnownTable

/-- The table after a call and its answer: an entry is unknown after a change to it that
failed between its two bytes. -/
def after (t : FsType) (n : UInt32) (T : KnownTable) : TableCall → TableAnswer → KnownTable
  | .put clst val, .result res =>
      if 2 ≤ clst ∧ clst < n then
        if res = .ok then Function.update T clst.toNat (some (storedValue t val))
        else if t = .fat12 then Function.update T clst.toNat none
        else T
      else T
  | _, _ => T

/-- The answer is the one of a table, or the error of the disk. -/
def Explains (n : UInt32) (T : KnownTable) : TableCall → TableAnswer → Prop
  | .get clst, .value val =>
      if 2 ≤ clst ∧ clst < n then val = 0xFFFFFFFF ∨ ∀ v ∈ T clst.toNat, val = v else val = 1
  | .put clst _, .result res =>
      if 2 ≤ clst ∧ clst < n then res = .ok ∨ res = .diskErr else res = .intErr
  | .sync, .result res => res = .ok ∨ res = .diskErr
  | _, _ => False

/-- All answers are the ones of a table. -/
def ExplainsAll (t : FsType) (n : UInt32) :
    KnownTable → List TableCall → List TableAnswer → Prop
  | _, [], [] => True
  | T, call :: calls, answer :: answers =>
      T.Explains n call answer ∧ ExplainsAll t n (T.after t n call answer) calls answers
  | _, _, _ => False

end KnownTable

namespace Volume

variable {D : Type*} {dev : Device D UInt32 Sector} {fs : Volume D}

variable (dev) in
/-- The volume holds the known entries. -/
def Agrees (fs : Volume D) (T : KnownTable) : Prop :=
  ∀ c < fs.nFatent.toNat, ∀ v ∈ T c, fs.entry dev c = v

/-- One call answers as a table does. -/
theorem tableCall_explained (hv : fs.Valid) (hc : fs.Coherent dev)
    (hmounted : fs.fsType ≠ .unmounted) {T : KnownTable} (hT : fs.Agrees dev T)
    (call : TableCall) :
    T.Explains fs.nFatent call (fs.tableCall dev call).1 ∧
      Worked dev fs (fs.tableCall dev call).2 ∧
      (fs.tableCall dev call).2.Agrees dev
        (T.after fs.fsType fs.nFatent call (fs.tableCall dev call).1) := by
  cases call with
  | get clst =>
      by_cases hin : 2 ≤ clst ∧ clst < fs.nFatent
      · obtain ⟨hmoved, hval⟩ := getFat_reads hv hc hin.1 hin.2
        refine ⟨?_, hmoved.worked, ?_⟩
        · rw [tableCall, KnownTable.Explains, if_pos hin]
          refine hval.imp_right fun hval v hT' => ?_
          rw [hval]
          exact hT _ (UInt32.lt_iff_toNat_lt.1 hin.2) v hT'
        · intro c hlt v hmem
          change c < (fs.getFat dev clst).2.nFatent.toNat at hlt
          rw [hmoved.params_eq] at hlt
          exact (hmoved.entry_eq hv hc hlt).trans (hT c hlt v hmem)
      · have hout : clst < 2 ∨ fs.nFatent ≤ clst := by grind
        rw [tableCall, getFat_of_outside hout, KnownTable.Explains, if_neg hin]
        exact ⟨rfl, Worked.refl fs, hT⟩
  | put clst val =>
      by_cases hin : 2 ≤ clst ∧ clst < fs.nFatent
      · have hw := putFat_writes hv hc hmounted hin.1 hin.2 val
        refine ⟨?_, hw.worked, ?_⟩
        · rw [tableCall, KnownTable.Explains, if_pos hin]
          exact hw.result
        · intro c hlt v hmem
          change c < (fs.putFat dev clst val).2.nFatent.toNat at hlt
          change (fs.putFat dev clst val).2.entry dev c = v
          rw [hw.worked.params_eq] at hlt
          rw [tableCall, KnownTable.after, if_pos hin] at hmem
          by_cases hok : (fs.putFat dev clst val).1 = .ok
          · rw [if_pos hok, Function.update_apply] at hmem
            rw [hw.entry_ok hok c hlt]
            split_ifs at hmem ⊢ with hcc
            · exact Option.mem_some_iff.1 hmem
            · exact hT c hlt v hmem
          · rw [if_neg hok] at hmem
            split_ifs at hmem with h12
            · rw [Function.update_apply] at hmem
              split_ifs at hmem with hcc
              · cases hmem
              · rw [hw.entry_error hok c hlt (.inl hcc)]
                exact hT c hlt v hmem
            · rw [hw.entry_error hok c hlt (.inr h12)]
              exact hT c hlt v hmem
      · rw [tableCall, putFat_of_outside hin, KnownTable.Explains, if_neg hin,
          KnownTable.after, if_neg hin]
        exact ⟨rfl, Worked.refl fs, hT⟩
  | sync =>
      have hsteady := fs.syncFs_steady dev
      refine ⟨fs.syncFs_result dev, hsteady.worked, ?_⟩
      intro c hlt v hmem
      change c < (fs.syncFs dev).2.nFatent.toNat at hlt
      rw [hsteady.params_eq] at hlt
      exact (hsteady.entry_eq hv hc hlt).trans (hT c hlt v hmem)

theorem tableCalls_explained (hv : fs.Valid) (hc : fs.Coherent dev)
    (hmounted : fs.fsType ≠ .unmounted) {T : KnownTable} (hT : fs.Agrees dev T)
    (calls : List TableCall) :
    KnownTable.ExplainsAll fs.fsType fs.nFatent T calls (fs.tableCalls dev calls).1 ∧
      Worked dev fs (fs.tableCalls dev calls).2 := by
  induction calls generalizing fs T with
  | nil => exact ⟨trivial, Worked.refl fs⟩
  | cons call calls ih =>
      obtain ⟨hone, hw, hagrees⟩ := tableCall_explained hv hc hmounted hT call
      have hp := hw.params_eq
      have hrest := ih (by rwa [hp]) (hw.coherent hc) (by rwa [hp]) hagrees
      rw [hp] at hrest
      exact ⟨⟨hone, hrest.1⟩, hw.trans hrest.2⟩

/-- On a volume whose FATs and `FSInfo` are apart, in every run of `get_fat`, `put_fat` and
`sync_fs`, whatever the disk reports, the answers are those of a table that starts with the
entries of the volume, and no sector outside the FATs changes, `FSInfo` left out. -/
theorem fat_table (hv : fs.Valid) (hc : fs.Coherent dev) (hmounted : fs.fsType ≠ .unmounted)
    (calls : List TableCall) :
    KnownTable.ExplainsAll fs.fsType fs.nFatent (fun c => some (fs.entry dev c)) calls
        (fs.tableCalls dev calls).1 ∧
      ∀ s, fs.Visible s → ¬ fs.InFat s →
        (fs.tableCalls dev calls).2.seen dev s = fs.seen dev s := by
  have hT : fs.Agrees dev fun c => some (fs.entry dev c) := fun c _ v hv => Option.some_inj.1 hv
  obtain ⟨hall, hw⟩ := tableCalls_explained hv hc hmounted hT calls
  exact ⟨hall, hw.seen_eq hc⟩

/-- On a volume whose FATs and `FSInfo` are apart, while every write succeeds, both copies of
the FAT on the disk stay the same, and a `sync_fs` at the end leaves the table in both. -/
theorem fat_copies (hwrite : ∀ d a b, (dev.write d a b).1 = true) (hv : fs.Valid)
    (hc : fs.Coherent dev) (hmounted : fs.fsType ≠ .unmounted) (hm : fs.Mirrored dev)
    (calls : List TableCall) :
    (fs.tableCalls dev calls).2.Mirrored dev ∧
      ∀ fs', ((fs.tableCalls dev calls).2.syncFs dev) = (.ok, fs') →
        ∀ s, fs.InFat s →
          dev.contents fs'.disk s = (fs.tableCalls dev calls).2.seen dev s ∧
          (fs.nFats = 2 →
            dev.contents fs'.disk (s + fs.fsize) = (fs.tableCalls dev calls).2.seen dev s) := by
  have hT : fs.Agrees dev fun c => some (fs.entry dev c) := fun c _ v hv => Option.some_inj.1 hv
  obtain ⟨-, hw⟩ := tableCalls_explained hv hc hmounted hT calls
  set fs₁ := (fs.tableCalls dev calls).2 with hfs₁
  have hm₁ := hw.mirrored hwrite hv.apart hc hm
  refine ⟨hm₁, fun fs' hsync s hs => ?_⟩
  have hp := hw.params_eq
  have hsteady := fs₁.syncFs_steady dev
  have hm' := hsteady.mirrored hwrite (by rw [hp]; exact hv.apart) (hw.coherent hc) hm₁
  have hvis : fs₁.Visible s := by rw [hp]; exact hv.apart.visible s hs
  have hdisk := syncFs_ok (hw.coherent hc) (by rw [hsync]) hvis
  rw [hsync] at hdisk hm' hsteady
  refine ⟨hdisk, fun hn => ?_⟩
  have hparams : fs'.toFatParams = fs.toFatParams := hsteady.params_eq.trans hp
  have hcopy := hm' (by rw [hparams]; exact hn) s (by rw [hparams]; exact hs)
  rw [hparams] at hcopy
  exact hcopy.trans hdisk

/-- A volume of eight clusters with an empty FAT of twelve bits in two copies. -/
def floppy : Volume (UInt32 → Sector) where
  fsType := .fat12
  nFats := 2
  csize := 1
  nFatent := 10
  fsize := 1
  volbase := 0
  fatbase := 1
  database := 4
  lastClst := 0xFFFFFFFF
  freeClst := 8
  fsiFlag := 0x80
  wflag := false
  winsect := 0xFFFFFFFF
  win := Vector.replicate 512 0
  disk := fun _ => Vector.replicate 512 0

theorem floppy_valid : floppy.Valid where
  some_cluster := by decide
  entries := by decide
  room := by decide
  apart :=
    { visible := by
        intro s hs
        have hsub : s - 1 < 1 := hs
        obtain rfl : s = 1 := by grind
        exact ⟨by decide, by decide, fun h => absurd h.2 (by decide)⟩
      fsInfo := fun h => by cases h }

theorem floppy_coherent : floppy.Coherent Device.ofFun where
  clean _ _ := rfl
  dirty h := by cases h

theorem floppy_mirrored : floppy.Mirrored Device.ofFun := fun _ _ _ => rfl

theorem fat_table_floppy :
    KnownTable.ExplainsAll .fat12 10 (fun c => some (floppy.entry Device.ofFun c))
        [.put 3 0xFFFFFFFF, .put 2 3, .get 2, .sync]
        (floppy.tableCalls Device.ofFun [.put 3 0xFFFFFFFF, .put 2 3, .get 2, .sync]).1 ∧
      ∀ s, floppy.Visible s → ¬ floppy.InFat s →
        (floppy.tableCalls Device.ofFun [.put 3 0xFFFFFFFF, .put 2 3, .get 2, .sync]).2.seen
          Device.ofFun s = floppy.seen Device.ofFun s :=
  fat_table floppy_valid floppy_coherent (by decide) _

theorem fat_copies_floppy :
    (floppy.tableCalls Device.ofFun [.put 3 0xFFFFFFFF, .put 2 3]).2.Mirrored Device.ofFun :=
  (fat_copies (fun _ _ _ => rfl) floppy_valid floppy_coherent (by decide) floppy_mirrored _).1

end Volume

end Catpilot
