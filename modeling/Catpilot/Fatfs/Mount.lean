import Catpilot.Fatfs.Table
import Catpilot.Transition.Run

/-!
# Mounting a volume

`mount_volume` looks for the boot sector of a FAT volume, on the whole drive or in one of
four partitions, and takes the places of the FATs, the root directory and the clusters from
it. When what the boot sector says fits in sector numbers of 32 bits, these places are apart,
as the functions on the FAT and on files rely on.
-/

namespace Catpilot

open Storage

/-! ## The boot sector -/

/-- What `check_fs` finds, without exFAT. -/
inductive BootStatus where
  | fat
  | notFat
  | notBoot
  | diskError
  deriving DecidableEq, Repr

/-- The members that `mount_volume` takes from the boot sector. -/
structure BootParams extends FatParams where
  nRootdir : UInt16
  dirbase : UInt32

namespace Boot

variable (b : ℕ → UInt8)

/-- The bytes at an offset are these ones. -/
def Holds (i : ℕ) (text : List UInt8) : Prop := (List.range text.length).map (b <| i + ·) = text

instance (i : ℕ) (text : List UInt8) : Decidable (Holds b i text) :=
  inferInstanceAs (Decidable (_ = _))

/-- `"FAT32   "`. -/
def fat32Name : List UInt8 := [0x46, 0x41, 0x54, 0x33, 0x32, 0x20, 0x20, 0x20]

/-- A boot sector of early MS-DOS, which has neither signature nor type. -/
def EarlyFat : Prop :=
  let w := (ldWord b 11).toUInt32
  (w &&& (w - 1) = 0 ∧ 512 ≤ w ∧ w ≤ 512) ∧ (b 13 ≠ 0 ∧ b 13 &&& (b 13 - 1) = 0) ∧
    ldWord b 14 ≠ 0 ∧ (b 16).toUInt32 - 1 ≤ 1 ∧ ldWord b 17 ≠ 0 ∧
    (128 ≤ ldWord b 19 ∨ 0x10000 ≤ ldDword b 32) ∧ ldWord b 22 ≠ 0

instance : Decidable (EarlyFat b) := by
  unfold EarlyFat
  infer_instance

/-- What `check_fs` says of a sector. -/
def status : BootStatus :=
  let sign := ldWord b 510
  if (b 0 = 0xEB ∨ b 0 = 0xE9 ∨ b 0 = 0xE8) ∧
      ((sign = 0xAA55 ∧ Holds b 82 fat32Name) ∨ EarlyFat b) then .fat
  else if sign = 0xAA55 then .notFat
  else .notBoot

/-- `fasize`: the sectors of one FAT. -/
def fatSectors : UInt32 := if ldWord b 22 = 0 then ldDword b 36 else (ldWord b 22).toUInt32

/-- `tsect`: the sectors of the volume. -/
def totalSectors : UInt32 := if ldWord b 19 = 0 then ldDword b 32 else (ldWord b 19).toUInt32

/-- The FAT sub type, or 0 with too many clusters. -/
def subType (nclst : UInt32) : FsType :=
  if nclst ≤ 0xFF5 then .fat12
  else if nclst ≤ 0xFFF5 then .fat16
  else if nclst ≤ 0x0FFFFFF5 then .fat32
  else .unmounted

/-- `szbfat`: the bytes that the FAT needs. -/
def neededSize (fmt : FsType) (nFatent : UInt32) : UInt32 :=
  if fmt = .fat32 then nFatent * 4
  else if fmt = .fat16 then nFatent * 2
  else nFatent * 3 / 2 + (nFatent &&& 1)

/-- `sysect`: the sectors before the first cluster. -/
def systemSectors : UInt32 :=
  (ldWord b 14).toUInt32 + fatSectors b * (b 16).toUInt32 + (ldWord b 17).toUInt32 / (ss / 32)

/-- `nclst`. -/
def clusterCount : UInt32 := (totalSectors b - systemSectors b) / (b 13).toUInt32

/-- `fmt`. -/
def fsType : FsType := subType (clusterCount b)

/-- The checks of `mount_volume`, in its order. -/
def Accepted : Prop :=
  (ldWord b 11).toUInt32 = ss ∧
  (b 16 = 1 ∨ b 16 = 2) ∧
  (b 13 ≠ 0 ∧ b 13 &&& (b 13 - 1) = 0) ∧
  (ldWord b 17).toUInt32 % (ss / 32) = 0 ∧
  ldWord b 14 ≠ 0 ∧
  systemSectors b ≤ totalSectors b ∧
  clusterCount b ≠ 0 ∧
  fsType b ≠ .unmounted ∧
  (fsType b = .fat32 → ldWord b 42 = 0 ∧ ldWord b 17 = 0) ∧
  (fsType b ≠ .fat32 → ldWord b 17 ≠ 0) ∧
  (neededSize (fsType b) (clusterCount b + 2) + (ss - 1)) / ss ≤ fatSectors b

instance : Decidable (Accepted b) := by
  unfold Accepted
  infer_instance

/-- What `mount_volume` takes from the boot sector in the sector `bsect`. -/
def params (bsect : UInt32) : BootParams where
  fsType := fsType b
  nFats := b 16
  csize := (b 13).toUInt16
  nFatent := clusterCount b + 2
  fsize := fatSectors b
  volbase := bsect
  fatbase := bsect + (ldWord b 14).toUInt32
  database := bsect + systemSectors b
  nRootdir := ldWord b 17
  dirbase :=
    if fsType b = .fat32 then ldDword b 44
    else bsect + (ldWord b 14).toUInt32 + fatSectors b * (b 16).toUInt32

/-- What the boot sector says fits in sector numbers of 32 bits, and FAT32 has at least two
reserved sectors, so that the one with `FSInfo` is reserved. `mount_volume` does not check this:
it refuses only a volume without reserved sectors. -/
structure Fits (bsect : UInt32) : Prop where
  system : (ldWord b 14).toNat + (b 16).toNat * (fatSectors b).toNat +
    (ldWord b 17).toNat / 16 < 4294967296
  volume : bsect.toNat + (totalSectors b).toNat < 4294967296
  fsInfo : ldWord b 17 = 0 → 2 ≤ (ldWord b 14).toNat

end Boot

/-! ## The places on a volume -/

/-- The parts of a volume come one after the other: the reserved sectors, the FATs, the root
directory of the smaller types, and the clusters before the sector `stop`. -/
structure BootParams.Ordered (p : BootParams) (stop : ℕ) : Prop where
  mounted : p.fsType ≠ .unmounted
  copies : p.nFats = 1 ∨ p.nFats = 2
  csize_pos : 0 < p.csize.toNat
  reserved : p.volbase.toNat < p.fatbase.toNat
  fsInfo : p.fsType = .fat32 → p.volbase.toNat + 1 < p.fatbase.toNat
  system : p.fatbase.toNat + p.nFats.toNat * p.fsize.toNat + p.nRootdir.toNat / 16 =
    p.database.toNat
  root : p.fsType ≠ .fat32 → p.dirbase.toNat = p.fatbase.toNat + p.nFats.toNat * p.fsize.toNat
  some_cluster : 2 < p.nFatent.toNat
  clusters : p.database.toNat + p.csize.toNat * (p.nFatent.toNat - 2) ≤ stop

/-- A number in a range of sectors, as the code asks. -/
theorem sub_lt_iff {s a n : UInt32} (h : a.toNat + n.toNat ≤ 4294967296) :
    s - a < n ↔ a.toNat ≤ s.toNat ∧ s.toNat < a.toNat + n.toNat := by
  have hs : s.toNat < 4294967296 := s.toNat_lt
  have ha : a.toNat < 4294967296 := a.toNat_lt
  rw [UInt32.lt_iff_toNat_lt, UInt32.toNat_sub]
  omega

namespace Boot

variable {b : ℕ → UInt8} {bsect : UInt32} {p : BootParams}

theorem subType_entries {nclst : UInt32} (h : subType nclst ≠ .unmounted) :
    (nclst + 2).toNat = nclst.toNat + 2 ∧ nclst.toNat + 2 ≤ (subType nclst).maxEntries := by
  have htwo : (2 : UInt32).toNat = 2 := rfl
  have hle (x : UInt32) : nclst ≤ x ↔ nclst.toNat ≤ x.toNat := UInt32.le_iff_toNat_le
  rw [UInt32.toNat_add, htwo]
  rw [subType] at h ⊢
  split_ifs at h ⊢ with h₁ h₂ h₃
  · have hlt : nclst.toNat ≤ 0xFF5 := (hle _).1 h₁
    rw [FsType.maxEntries]
    omega
  · have hlt : nclst.toNat ≤ 0xFFF5 := (hle _).1 h₂
    rw [FsType.maxEntries]
    omega
  · have hlt : nclst.toNat ≤ 0x0FFFFFF5 := (hle _).1 h₃
    rw [FsType.maxEntries]
    omega
  · exact absurd rfl h

/-- The size of the FAT is computed without an overflow. -/
theorem toNat_neededSize {fmt : FsType} {n : UInt32} (h : fmt ≠ .unmounted)
    (hn : n.toNat ≤ fmt.maxEntries) : (neededSize fmt n).toNat = fmt.fatSize n.toNat := by
  have hand : (n &&& 1).toNat = n.toNat % 2 := toNat_and_low (n := 1) rfl n
  have hmod : ∀ {x}, x < 4294967296 → x % 2 ^ 32 = x := Nat.mod_eq_of_lt
  have h2 : (2 : UInt32).toNat = 2 := rfl
  have h3 : (3 : UInt32).toNat = 3 := rfl
  have h4 : (4 : UInt32).toNat = 4 := rfl
  rw [neededSize]
  cases fmt with
  | unmounted => exact absurd rfl h
  | fat12 =>
      rw [FsType.maxEntries] at hn
      rw [if_neg (by decide), if_neg (by decide), UInt32.toNat_add, UInt32.toNat_div,
        UInt32.toNat_mul, hand, h2, h3, FsType.fatSize, hmod (x := n.toNat * 3) (by omega),
        hmod (by omega)]
  | fat16 =>
      rw [FsType.maxEntries] at hn
      rw [if_neg (by decide), if_pos rfl, UInt32.toNat_mul, h2, FsType.fatSize]
      omega
  | fat32 =>
      rw [FsType.maxEntries] at hn
      rw [if_pos rfl, UInt32.toNat_mul, h4, FsType.fatSize]
      omega

/-- The FAT has room for its entries. -/
theorem room_of_le {x fsize : UInt32} (hx : x.toNat < 4294966785)
    (h : (x + (ss - 1)) / ss ≤ fsize) : x.toNat ≤ fsize.toNat * 512 := by
  have h511 : (ss - 1).toNat = 511 := rfl
  have hss : ss.toNat = 512 := rfl
  rw [UInt32.le_iff_toNat_le, UInt32.toNat_div, UInt32.toNat_add, h511, hss] at h
  omega

/-- The numbers of an accepted boot sector that fits, without overflow. -/
theorem toNat_systemSectors (hf : Fits b bsect) : (systemSectors b).toNat =
    (ldWord b 14).toNat + (b 16).toNat * (fatSectors b).toNat + (ldWord b 17).toNat / 16 := by
  have hsys := hf.system
  have h16 : (ss / 32).toNat = 16 := rfl
  rw [systemSectors, UInt32.toNat_add, UInt32.toNat_add, UInt32.toNat_mul, UInt32.toNat_div,
    UInt16.toNat_toUInt32, UInt16.toNat_toUInt32, UInt8.toNat_toUInt32, h16,
    Nat.mul_comm (fatSectors b).toNat]
  rw [Nat.mod_eq_of_lt (a := (b 16).toNat * _) (by omega),
    Nat.mod_eq_of_lt (a := (ldWord b 14).toNat + _) (by omega), Nat.mod_eq_of_lt (by omega)]

/-- What `mount_volume` accepts: the parts of the volume come one after the other, and the
FAT has room for the entries. -/
theorem Accepted.ordered (h : Accepted b) (hf : Fits b bsect) :
    (params b bsect).Ordered (bsect.toNat + (totalSectors b).toNat) := by
  obtain ⟨-, hcopies, ⟨hcsize, -⟩, -, hnrsv, hsys, hnclst, hfmt, h32, -, -⟩ := h
  have hsystem := toNat_systemSectors hf
  have hvolume := hf.volume
  have hpos : 0 < (ldWord b 14).toNat :=
    Nat.pos_of_ne_zero fun h => hnrsv (UInt16.toNat_inj.1 h)
  have hcs : 0 < (b 13).toNat := Nat.pos_of_ne_zero fun h => hcsize (UInt8.toNat_inj.1 h)
  have hn := (subType_entries hfmt).1
  -- the clusters end in the volume
  have hcount : (b 13).toNat * (clusterCount b).toNat + (systemSectors b).toNat ≤
      (totalSectors b).toNat := by
    have hdiv : (clusterCount b).toNat =
        ((totalSectors b).toNat - (systemSectors b).toNat) / (b 13).toNat := by
      rw [clusterCount, UInt32.toNat_div, UInt32.toNat_sub_of_le _ _ hsys, UInt8.toNat_toUInt32]
    have hle := Nat.mul_div_le ((totalSectors b).toNat - (systemSectors b).toNat) (b 13).toNat
    have hsys' := UInt32.le_iff_toNat_le.1 hsys
    rw [hdiv]
    omega
  have hclst : 0 < (clusterCount b).toNat :=
    Nat.pos_of_ne_zero fun h => hnclst (UInt32.toNat_inj.1 h)
  have hlast : 0 < (b 13).toNat * (clusterCount b).toNat := Nat.mul_pos hcs hclst
  have hfat : (bsect + (ldWord b 14).toUInt32).toNat = bsect.toNat + (ldWord b 14).toNat := by
    rw [UInt32.toNat_add, UInt16.toNat_toUInt32]
    omega
  have hdata : (bsect + systemSectors b).toNat = bsect.toNat + (systemSectors b).toNat := by
    rw [UInt32.toNat_add]
    omega
  refine ⟨hfmt, hcopies, ?_, ?_, fun ht => ?_, ?_, fun ht => ?_, ?_, ?_⟩
  · change 0 < (b 13).toUInt16.toNat
    rwa [UInt8.toNat_toUInt16]
  · change bsect.toNat < (bsect + (ldWord b 14).toUInt32).toNat
    omega
  · have hinfo := hf.fsInfo (h32 ht).2
    change bsect.toNat + 1 < (bsect + (ldWord b 14).toUInt32).toNat
    omega
  · change (bsect + (ldWord b 14).toUInt32).toNat + (b 16).toNat * (fatSectors b).toNat +
      (ldWord b 17).toNat / 16 = (bsect + systemSectors b).toNat
    omega
  · have hroot : (params b bsect).dirbase =
        bsect + (ldWord b 14).toUInt32 + fatSectors b * (b 16).toUInt32 := if_neg ht
    change (params b bsect).dirbase.toNat = (bsect + (ldWord b 14).toUInt32).toNat +
      (b 16).toNat * (fatSectors b).toNat
    rw [hroot, UInt32.toNat_add, hfat, UInt32.toNat_mul, UInt8.toNat_toUInt32,
      Nat.mul_comm (fatSectors b).toNat,
      Nat.mod_eq_of_lt (a := (b 16).toNat * _) (by omega), Nat.mod_eq_of_lt (by omega)]
  · change 2 < (clusterCount b + 2).toNat
    omega
  · change (bsect + systemSectors b).toNat + (b 13).toUInt16.toNat *
      ((clusterCount b + 2).toNat - 2) ≤ bsect.toNat + (totalSectors b).toNat
    rw [hdata, hn, Nat.add_sub_cancel, UInt8.toNat_toUInt16]
    omega

/-- The FAT of an accepted boot sector has room for its entries. -/
theorem Accepted.room (h : Accepted b) (bsect : UInt32) :
    (params b bsect).nFatent.toNat ≤ (fsType b).maxEntries ∧
      (fsType b).fatSize (params b bsect).nFatent.toNat ≤ (fatSectors b).toNat * 512 := by
  obtain ⟨-, -, -, -, -, -, -, hfmt, -, -, hroom⟩ := h
  obtain ⟨hn, hmax⟩ := subType_entries hfmt
  rw [← hn] at hmax
  have hneed := toNat_neededSize hfmt hmax
  have hlt : (fsType b).fatSize (clusterCount b + 2).toNat < 4294966785 := by
    change (clusterCount b + 2).toNat ≤ (fsType b).maxEntries at hmax
    cases ht : fsType b with
    | unmounted => exact absurd ht hfmt
    | fat12 =>
        rw [ht, FsType.maxEntries] at hmax
        rw [FsType.fatSize]
        omega
    | fat16 =>
        rw [ht, FsType.maxEntries] at hmax
        rw [FsType.fatSize]
        omega
    | fat32 =>
        rw [ht, FsType.maxEntries] at hmax
        rw [FsType.fatSize]
        omega
  refine ⟨hmax, ?_⟩
  exact hneed.ge.trans (room_of_le (hneed.trans_lt hlt) hroom)

end Boot

/-- `clst2sect`. -/
def FatParams.clst2sect (fs : FatParams) (clst : UInt32) : UInt32 :=
  let clst := clst - 2
  if fs.nFatent - 2 ≤ clst then 0 else fs.database + fs.csize.toUInt32 * clst

namespace BootParams

variable {p : BootParams} {stop : ℕ}

theorem Ordered.twice_fsize_le (h : p.Ordered stop) (hn : p.nFats = 2) :
    p.fatbase.toNat + 2 * p.fsize.toNat ≤ p.database.toNat := by
  have hsystem := h.system
  have htwo : (2 : UInt8).toNat = 2 := rfl
  rw [hn, htwo] at hsystem
  omega

theorem Ordered.fsize_le (h : p.Ordered stop) :
    p.fatbase.toNat + p.fsize.toNat ≤ p.database.toNat := by
  rcases h.copies with hn | hn
  · have hsystem := h.system
    have hone : (1 : UInt8).toNat = 1 := rfl
    rw [hn, hone] at hsystem
    omega
  · have htwice := h.twice_fsize_le hn
    omega

/-- The first cluster is before the end of the volume. -/
theorem Ordered.database_lt (h : p.Ordered stop) : p.database.toNat < stop := by
  have hclusters := h.clusters
  have hsome := h.some_cluster
  have hpos : 0 < p.csize.toNat * (p.nFatent.toNat - 2) :=
    Nat.mul_pos h.csize_pos (by omega)
  omega

theorem Ordered.inFat_iff (h : p.Ordered stop) (s : UInt32) : p.InFat s ↔
    p.fatbase.toNat ≤ s.toNat ∧ s.toNat < p.fatbase.toNat + p.fsize.toNat := by
  have hfsize := h.fsize_le
  have hlt : p.database.toNat < 4294967296 := p.database.toNat_lt
  exact sub_lt_iff (by omega)

theorem Ordered.inMirror_iff (h : p.Ordered stop) (s : UInt32) : p.InMirror s ↔
    p.nFats = 2 ∧ p.fatbase.toNat + p.fsize.toNat ≤ s.toNat ∧
      s.toNat < p.fatbase.toNat + 2 * p.fsize.toNat := by
  refine and_congr_right fun hn => ?_
  have htwice := h.twice_fsize_le hn
  have hlt : p.database.toNat < 4294967296 := p.database.toNat_lt
  have hadd : (p.fatbase + p.fsize).toNat = p.fatbase.toNat + p.fsize.toNat := by
    rw [UInt32.toNat_add]
    omega
  have hsub : s - p.fatbase - p.fsize = s - (p.fatbase + p.fsize) := by grind
  rw [hsub, sub_lt_iff (by omega), hadd]
  omega

/-- The sectors after the FATs, and those of the first FAT, are read back. -/
theorem Ordered.visible (h : p.Ordered stop) (hstop : stop < 4294967296) {s : UInt32}
    (hfat : p.fatbase.toNat ≤ s.toNat) (hs : s.toNat < stop)
    (hout : s.toNat < p.fatbase.toNat + p.fsize.toNat ∨
      p.fatbase.toNat + p.nFats.toNat * p.fsize.toNat ≤ s.toNat) : p.Visible s := by
  refine ⟨?_, ?_, ?_⟩
  · rintro rfl
    have hmax : (0xFFFFFFFF : UInt32).toNat = 4294967295 := rfl
    omega
  · rintro ⟨ht, rfl⟩
    have hinfo := h.fsInfo ht
    have hone : (1 : UInt32).toNat = 1 := rfl
    rw [UInt32.toNat_add, hone] at hfat
    omega
  · rw [h.inMirror_iff]
    rintro ⟨hn, hmirror⟩
    have htwo : p.nFats.toNat = 2 := by rw [hn]; rfl
    rw [htwo] at hout
    omega

/-- A mounted volume is one that the functions on the FAT work on. -/
theorem Ordered.fatApart (h : p.Ordered stop) (hstop : stop < 4294967296) : p.FatApart := by
  have hfsize := h.fsize_le
  have hdata := h.database_lt
  constructor
  · intro s hs
    obtain ⟨hle, hlt⟩ := (h.inFat_iff s).1 hs
    exact h.visible hstop hle (by omega) (.inl hlt)
  · intro ht hmirror
    have hinfo := h.fsInfo ht
    have hlt : p.fatbase.toNat < 4294967296 := p.fatbase.toNat_lt
    have hone : (1 : UInt32).toNat = 1 := rfl
    obtain ⟨-, hle, -⟩ := (h.inMirror_iff _).1 hmirror
    rw [UInt32.toNat_add, hone] at hle
    omega

/-! ### Clusters -/

theorem Ordered.clst2sect_of_outside (h : p.Ordered stop) {c : UInt32}
    (hc : c < 2 ∨ p.nFatent ≤ c) : p.clst2sect c = 0 := by
  have hsome := h.some_cluster
  have hn : p.nFatent.toNat < 4294967296 := p.nFatent.toNat_lt
  have hcl : c.toNat < 4294967296 := c.toNat_lt
  have htwo : (2 : UInt32).toNat = 2 := rfl
  rw [UInt32.lt_iff_toNat_lt, UInt32.le_iff_toNat_le, htwo] at hc
  refine if_pos ?_
  rw [UInt32.le_iff_toNat_le, UInt32.toNat_sub, UInt32.toNat_sub, htwo]
  omega

/-- The first sector of a cluster, without overflow. -/
theorem Ordered.toNat_clst2sect (h : p.Ordered stop) (hstop : stop < 4294967296) {c : UInt32}
    (hc : 2 ≤ c ∧ c < p.nFatent) :
    (p.clst2sect c).toNat = p.database.toNat + p.csize.toNat * (c.toNat - 2) ∧
      (p.clst2sect c).toNat + p.csize.toNat ≤ stop := by
  have htwo : (2 : UInt32).toNat = 2 := rfl
  rw [UInt32.lt_iff_toNat_lt, UInt32.le_iff_toNat_le, htwo] at hc
  have hn : p.nFatent.toNat < 4294967296 := p.nFatent.toNat_lt
  have hsub : (c - 2).toNat = c.toNat - 2 := by
    rw [UInt32.toNat_sub, htwo]
    omega
  have hnsub : (p.nFatent - 2).toNat = p.nFatent.toNat - 2 := by
    rw [UInt32.toNat_sub, htwo]
    omega
  have hvalid : ¬ p.nFatent - 2 ≤ c - 2 := by
    rw [UInt32.le_iff_toNat_le, hsub, hnsub]
    omega
  have hend : p.csize.toNat * (c.toNat - 2) + p.csize.toNat ≤
      p.csize.toNat * (p.nFatent.toNat - 2) := by
    rw [← Nat.mul_succ]
    exact Nat.mul_le_mul_left _ (by omega)
  have hclusters := h.clusters
  have hpos := h.csize_pos
  have hval : (p.clst2sect c).toNat = p.database.toNat + p.csize.toNat * (c.toNat - 2) := by
    rw [FatParams.clst2sect, if_neg hvalid, UInt32.toNat_add, UInt32.toNat_mul,
      UInt16.toNat_toUInt32, hsub, Nat.mod_eq_of_lt (a := p.csize.toNat * _) (by omega),
      Nat.mod_eq_of_lt (by omega)]
  exact ⟨hval, by omega⟩

/-- The sectors of the clusters, without overflow. -/
theorem Ordered.toNat_clusterSector (h : p.Ordered stop) (hstop : stop < 4294967296)
    {c j : UInt32} (hc : 2 ≤ c ∧ c < p.nFatent) (hj : j < p.csize.toUInt32) :
    (p.clst2sect c + j).toNat =
        p.database.toNat + (p.csize.toNat * (c.toNat - 2) + j.toNat) ∧
      (p.clst2sect c + j).toNat < stop := by
  obtain ⟨hval, hend⟩ := h.toNat_clst2sect hstop hc
  rw [UInt32.lt_iff_toNat_lt, UInt16.toNat_toUInt32] at hj
  rw [UInt32.toNat_add]
  omega

/-- Two clusters share no sector. -/
theorem Ordered.clusterSector_inj (h : p.Ordered stop) (hstop : stop < 4294967296)
    {c c' j j' : UInt32} (hc : 2 ≤ c ∧ c < p.nFatent) (hc' : 2 ≤ c' ∧ c' < p.nFatent)
    (hj : j < p.csize.toUInt32) (hj' : j' < p.csize.toUInt32)
    (heq : p.clst2sect c + j = p.clst2sect c' + j') : c = c' ∧ j = j' := by
  have hnat := congrArg UInt32.toNat heq
  rw [(h.toNat_clusterSector hstop hc hj).1, (h.toNat_clusterSector hstop hc' hj').1,
    Nat.add_left_cancel_iff] at hnat
  have htwo : (2 : UInt32).toNat = 2 := rfl
  rw [UInt32.le_iff_toNat_le, htwo] at hc hc'
  rw [UInt32.lt_iff_toNat_lt, UInt16.toNat_toUInt32] at hj hj'
  have hdiv : c.toNat - 2 = c'.toNat - 2 := by
    have hq := congrArg (· / p.csize.toNat) hnat
    simp only [Nat.mul_add_div h.csize_pos, Nat.div_eq_of_lt hj, Nat.div_eq_of_lt hj',
      Nat.add_zero] at hq
    exact hq
  rw [hdiv, Nat.add_left_cancel_iff] at hnat
  exact ⟨UInt32.toNat_inj.1 (by omega), UInt32.toNat_inj.1 hnat⟩

/-- The sectors of the clusters are in no FAT. -/
theorem Ordered.clusterSector_apart (h : p.Ordered stop) (hstop : stop < 4294967296)
    {c j : UInt32} (hc : 2 ≤ c ∧ c < p.nFatent) (hj : j < p.csize.toUInt32) :
    p.Visible (p.clst2sect c + j) ∧ ¬ p.InFat (p.clst2sect c + j) := by
  obtain ⟨hval, hend⟩ := h.toNat_clusterSector hstop hc hj
  have hsystem := h.system
  have hfsize := h.fsize_le
  refine ⟨h.visible hstop (by omega) hend (.inr (by omega)), ?_⟩
  rw [h.inFat_iff]
  omega

/-- The sectors of the root directory of the smaller types, without overflow. -/
theorem Ordered.toNat_rootSector (h : p.Ordered stop) (ht : p.fsType ≠ .fat32) {i : UInt32}
    (hi : i < p.nRootdir.toUInt32 / 16) :
    (p.dirbase + i).toNat =
        p.fatbase.toNat + p.nFats.toNat * p.fsize.toNat + i.toNat ∧
      (p.dirbase + i).toNat < p.database.toNat := by
  have hsystem := h.system
  have hroot := h.root ht
  have h16 : (16 : UInt32).toNat = 16 := rfl
  have hlt : p.database.toNat < 4294967296 := p.database.toNat_lt
  rw [UInt32.lt_iff_toNat_lt, UInt32.toNat_div, UInt16.toNat_toUInt32, h16] at hi
  rw [UInt32.toNat_add]
  omega

/-- They are in no FAT and no cluster. -/
theorem Ordered.rootSector_apart (h : p.Ordered stop) (hstop : stop < 4294967296)
    (ht : p.fsType ≠ .fat32) {i : UInt32} (hi : i < p.nRootdir.toUInt32 / 16) :
    p.Visible (p.dirbase + i) ∧ ¬ p.InFat (p.dirbase + i) ∧
      ∀ c j, 2 ≤ c ∧ c < p.nFatent → j < p.csize.toUInt32 →
        p.dirbase + i ≠ p.clst2sect c + j := by
  obtain ⟨hval, hlt⟩ := h.toNat_rootSector ht hi
  have hdata := h.database_lt
  have hone : p.fsize.toNat ≤ p.nFats.toNat * p.fsize.toNat := by
    rcases h.copies with hn | hn
    · rw [hn]
      exact (Nat.one_mul _).ge
    · rw [hn]
      exact Nat.le_mul_of_pos_left _ (by decide)
  refine ⟨h.visible hstop (by omega) (by omega) (.inr (by omega)), ?_, ?_⟩
  · rw [h.inFat_iff]
    omega
  · intro c j hc hj heq
    have hcl := (h.toNat_clusterSector hstop hc hj).1
    rw [← heq] at hcl
    omega

end BootParams

/-! ## The functions -/

/-- A drive: a device with the answers of `disk_status` and `disk_initialize`. -/
structure Drive (D : Type*) extends Device D UInt32 Sector where
  diskStatus : D → UInt8
  diskInitialize : D → UInt8 × D

/-- `FATFS` with the members about the root directory. -/
structure Filesystem (D : Type*) extends Volume D where
  nRootdir : UInt16
  dirbase : UInt32

namespace Volume

variable {D : Type*} (dev : Device D UInt32 Sector)

section Code

variable (fs : Volume D)

/-- `check_fs`. -/
def checkFs (sect : UInt32) : BootStatus × Volume D :=
  let fs := { fs with wflag := false, winsect := 0 - 1 }
  match fs.moveWindow dev sect with
  | (.ok, fs) => (Boot.status fs.win.byte, fs)
  | (_, fs) => (.diskError, fs)

/-- The loop of `find_volume` over the entries of the partition table. -/
def findPartition : List UInt32 → BootStatus → Volume D → BootStatus × Volume D
  | [], fmt, fs => (fmt, fs)
  | sect :: sects, _, fs =>
      let (fmt, fs) := if sect ≠ 0 then fs.checkFs dev sect else (.notBoot, fs)
      if fmt = .fat then (fmt, fs) else findPartition sects fmt fs

/-- `find_volume` in the automatic search. -/
def findVolume : BootStatus × Volume D :=
  match fs.checkFs dev 0 with
  | (.notFat, fs) =>
      let mbrPt := (List.range 4).map fun i => ldDword fs.win.byte (446 + i * 16 + 8)
      fs.findPartition dev mbrPt .notFat
  | r => r

/-- The part of `mount_volume` about `FSInfo`, with the boot sector in the window. -/
def loadFsInfo (fmt : FsType) (bsect : UInt32) : Volume D :=
  let fs := { fs with lastClst := 0xFFFFFFFF, freeClst := 0xFFFFFFFF, fsiFlag := 0x80 }
  if fmt = .fat32 ∧ ldWord fs.win.byte 48 = 1 then
    match fs.moveWindow dev (bsect + 1) with
    | (.ok, fs) =>
        let fs := { fs with fsiFlag := 0 }
        if ldWord fs.win.byte 510 = 0xAA55 ∧ ldDword fs.win.byte 0 = 0x41615252 ∧
            ldDword fs.win.byte 484 = 0x61417272 then
          { fs with
            freeClst := ldDword fs.win.byte 488
            lastClst := ldDword fs.win.byte 492 }
        else fs
    | (_, fs) => fs
  else fs

end Code

/-- A window that is not to be written back and holds its sector, if it has one. -/
structure Fresh (fs : Volume D) : Prop where
  clean : fs.wflag = false
  holds : fs.winsect = 0xFFFFFFFF ∨ dev.contents fs.disk fs.winsect = fs.win

variable {dev} {fs : Volume D}

theorem Fresh.coherent (h : fs.Fresh dev) : fs.Coherent dev where
  clean _ hs := h.holds.resolve_left hs.1
  dirty hw := absurd (h.clean.symm.trans hw) Bool.noConfusion

theorem Fresh.moveWindow (h : fs.Fresh dev) (sect : UInt32) :
    (fs.moveWindow dev sect).2.Fresh dev := by
  have hsync : fs.syncWindow dev = (.ok, fs) := by
    rw [syncWindow, h.clean]
    rfl
  rcases fs.moveWindow_cases dev sect with ⟨-, he⟩ | ⟨hres, -⟩ | ⟨ok, win, disk, -, hread, he⟩
  · rwa [he]
  · rw [hsync] at hres
    cases hres
  · rw [hsync] at hread
    rw [he, hsync]
    refine ⟨h.clean, ?_⟩
    cases ok with
    | false => exact .inl rfl
    | true =>
        have hdisk := dev.contents_read fs.disk sect fs.win
        have hwin := dev.read_eq fs.disk sect fs.win
        rw [hread] at hdisk hwin
        exact .inr ((congrFun hdisk sect).trans (hwin rfl).symm)

variable (dev) in
theorem checkFs_params (fs : Volume D) (sect : UInt32) :
    (fs.checkFs dev sect).2.toFatParams = fs.toFatParams := by
  have hmoved :=
    (moveWindow_moved dev ({ fs with wflag := false, winsect := 0 - 1 } : Volume D) sect).params_eq
  rw [checkFs]
  split
  · next heq => rwa [heq] at hmoved
  · next heq => rwa [heq] at hmoved

variable (dev) in
theorem checkFs_fresh (fs : Volume D) (sect : UInt32) : (fs.checkFs dev sect).2.Fresh dev := by
  have hfresh : ({ fs with wflag := false, winsect := 0 - 1 } : Volume D).Fresh dev :=
    ⟨rfl, .inl rfl⟩
  have hmoved := hfresh.moveWindow sect
  rw [checkFs]
  split
  · next heq => rwa [heq] at hmoved
  · next heq => rwa [heq] at hmoved

/-- What every check of a sector keeps, the search over the partitions keeps. -/
theorem findPartition_rule {P : Volume D → Prop}
    (hcheck : ∀ fs sect, P fs → P (fs.checkFs dev sect).2) (sects : List UInt32)
    (fmt : BootStatus) {fs : Volume D} (h : P fs) : P (fs.findPartition dev sects fmt).2 := by
  induction sects generalizing fmt fs with
  | nil => exact h
  | cons sect sects ih =>
      rw [findPartition]
      have hnext : P (if sect ≠ 0 then fs.checkFs dev sect else (.notBoot, fs)).2 := by
        split_ifs
        · exact hcheck fs sect h
        · exact h
      rcases hc : (if sect ≠ 0 then fs.checkFs dev sect else (.notBoot, fs)) with ⟨fmt', fs'⟩
      rw [hc] at hnext
      simp only
      split_ifs
      · exact hnext
      · exact ih fmt' hnext

theorem findVolume_rule {P : Volume D → Prop}
    (hcheck : ∀ fs sect, P fs → P (fs.checkFs dev sect).2) (h : P (fs.checkFs dev 0).2) :
    P (fs.findVolume dev).2 := by
  rw [findVolume]
  split
  · next heq =>
      rw [heq] at h
      exact findPartition_rule hcheck _ _ h
  · exact h

variable (dev) in
theorem findVolume_fresh (fs : Volume D) : (fs.findVolume dev).2.Fresh dev :=
  findVolume_rule (fun fs sect _ => checkFs_fresh dev fs sect) (checkFs_fresh dev fs 0)

variable (dev) in
theorem findVolume_params (fs : Volume D) :
    (fs.findVolume dev).2.toFatParams = fs.toFatParams :=
  findVolume_rule (fun fs' sect h => (checkFs_params dev fs' sect).trans h)
    (checkFs_params dev fs 0)

theorem Fresh.loadFsInfo (h : fs.Fresh dev) (fmt : FsType) (bsect : UInt32) :
    (fs.loadFsInfo dev fmt bsect).Fresh dev := by
  have hinit : ({ fs with
      lastClst := 0xFFFFFFFF, freeClst := 0xFFFFFFFF, fsiFlag := 0x80 } : Volume D).Fresh dev :=
    ⟨h.clean, h.holds⟩
  have hmoved := hinit.moveWindow (bsect + 1)
  rw [Volume.loadFsInfo]
  simp only
  split_ifs
  · split
    · next heq =>
        rw [heq] at hmoved
        split_ifs
        · exact ⟨hmoved.clean, hmoved.holds⟩
        · exact ⟨hmoved.clean, hmoved.holds⟩
    · next heq => rwa [heq] at hmoved
  · exact hinit

end Volume

open Volume

namespace Filesystem

variable {D : Type*} (drv : Drive D)

section Code

variable (fs : Filesystem D)

/-- The members that come from the boot sector. -/
def params : BootParams := ⟨fs.toFatParams, fs.nRootdir, fs.dirbase⟩

/-- The volume after the search of `mount_volume` on an initialized drive. -/
def found : BootStatus × Volume D :=
  let fs := fs.toVolume
  { fs with fsType := .unmounted, disk := (drv.diskInitialize fs.disk).2 }.findVolume drv.toDevice

/-- `mount_volume`, without the volume numbers and the lock. -/
def mountVolume (mode : UInt8) : FResult × Filesystem D :=
  let mode := mode &&& ~~~0x01
  if fs.fsType ≠ .unmounted ∧ drv.diskStatus fs.disk &&& 0x01 = 0 then
    (if mode ≠ 0 ∧ drv.diskStatus fs.disk &&& 0x04 ≠ 0 then .writeProtected else .ok, fs)
  else
    let stat := (drv.diskInitialize fs.disk).1
    let failed := { fs with fsType := .unmounted, disk := (drv.diskInitialize fs.disk).2 }
    if stat &&& 0x01 ≠ 0 then (.notReady, failed)
    else if mode ≠ 0 ∧ stat &&& 0x04 ≠ 0 then (.writeProtected, failed)
    else
      let (fmt, vol) := fs.found drv
      if fmt = .diskError then (.diskErr, { fs with toVolume := vol })
      else if fmt ≠ .fat then (.noFilesystem, { fs with toVolume := vol })
      else if ¬ Boot.Accepted vol.win.byte then (.noFilesystem, { fs with toVolume := vol })
      else
        let p := Boot.params vol.win.byte vol.winsect
        let vol := vol.loadFsInfo drv.toDevice p.fsType vol.winsect
        (.ok, ⟨{ vol with toFatParams := p.toFatParams }, p.nRootdir, p.dirbase⟩)

end Code

/-- The ways in which `mount_volume` ends: the volume was mounted before, or it is not
mounted, or an accepted boot sector has been found. -/
theorem mountVolume_cases (fs : Filesystem D) (mode : UInt8) :
    (fs.fsType ≠ .unmounted ∧ (fs.mountVolume drv mode).2 = fs) ∨
    (fs.mountVolume drv mode).2.fsType = .unmounted ∨
    ((fs.found drv).1 = .fat ∧ Boot.Accepted (fs.found drv).2.win.byte ∧
      ((fs.mountVolume drv mode).2.toVolume.Fresh drv.toDevice) ∧
      (fs.mountVolume drv mode).2.params =
        Boot.params (fs.found drv).2.win.byte (fs.found drv).2.winsect) := by
  have hunmounted : (fs.found drv).2.fsType = .unmounted :=
    congrArg FatParams.fsType (findVolume_params drv.toDevice _)
  have hfresh : (fs.found drv).2.Fresh drv.toDevice := findVolume_fresh drv.toDevice _
  by_cases hbefore : fs.fsType ≠ .unmounted ∧ drv.diskStatus fs.disk &&& 0x01 = 0
  · refine .inl ⟨hbefore.1, ?_⟩
    rw [mountVolume, if_pos hbefore]
  · refine .inr ?_
    rw [mountVolume, if_neg hbefore]
    rcases hf : fs.found drv with ⟨fmt, vol⟩
    rw [hf] at hunmounted hfresh
    simp only
    split_ifs with h₁ h₂ h₃ h₄ h₅
    · exact .inl rfl
    · exact .inl rfl
    · exact .inl hunmounted
    · exact .inl hunmounted
    · refine .inr ⟨not_not.1 h₄, h₅, ?_, rfl⟩
      have hload := hfresh.loadFsInfo (Boot.params vol.win.byte vol.winsect).fsType vol.winsect
      exact ⟨hload.clean, hload.holds⟩
    · exact .inl hunmounted

/-- A volume that is not mounted yet gets the members of the boot sector that is found. -/
theorem mountVolume_params {fs : Filesystem D} (hstart : fs.fsType = .unmounted)
    (hready : (drv.diskInitialize fs.disk).1 = 0) {vol : Volume D}
    (hfound : fs.found drv = (.fat, vol)) (haccepted : Boot.Accepted vol.win.byte)
    (mode : UInt8) :
    (fs.mountVolume drv mode).2.params = Boot.params vol.win.byte vol.winsect := by
  have hok : ¬ (0 : UInt8) &&& 0x01 ≠ 0 := by decide
  have hwrite : ¬ (mode &&& ~~~0x01 ≠ 0 ∧ (0 : UInt8) &&& 0x04 ≠ 0) := fun h => h.2 rfl
  rw [mountVolume, if_neg (fun h => h.1 hstart), hready, if_neg hok, if_neg hwrite]
  simp only [hfound]
  rw [if_neg (by decide), if_neg (by decide), if_neg (not_not.2 haccepted), params]

/-! ### Runs -/

/-- A call: a mount, or one of the functions on the FAT. -/
inductive MountCall where
  | mount (mode : UInt8)
  | table (call : TableCall)
  deriving DecidableEq, Repr

/-- One call. The functions on the FAT are called on a mounted volume only. -/
def step (fs : Filesystem D) : MountCall → Option (Filesystem D)
  | .mount mode => some (fs.mountVolume drv mode).2
  | .table call =>
      if fs.fsType = .unmounted then none
      else some { fs with toVolume := (fs.toVolume.tableCall drv.toDevice call).2 }

theorem run_mount (fs : Filesystem D) (mode : UInt8) :
    Transition.run (step drv) fs [.mount mode] = some (fs.mountVolume drv mode).2 := rfl

/-- A mount finds a boot sector that fits. -/
def FindsFitting (fs : Filesystem D) : MountCall → Prop
  | .mount _ => (fs.found drv).1 = .fat →
      Boot.Fits (fs.found drv).2.win.byte (fs.found drv).2.winsect
  | .table _ => True

/-- A volume that is mounted has its parts apart, and a window that agrees with the disk. -/
def Sound (fs : Filesystem D) : Prop :=
  fs.fsType ≠ .unmounted → fs.Valid ∧ fs.Coherent drv.toDevice ∧
    ∃ stop < 4294967296, fs.params.Ordered stop

theorem mountVolume_sound {fs : Filesystem D} (h : fs.Sound drv) {mode : UInt8}
    (hfits : fs.FindsFitting drv (.mount mode)) : (fs.mountVolume drv mode).2.Sound drv := by
  intro hmounted
  rcases fs.mountVolume_cases drv mode with ⟨hbefore, he⟩ | he | ⟨hfat, haccepted, hfresh, he⟩
  · rw [he]
    exact h hbefore
  · exact absurd he hmounted
  · have hboot := hfits hfat
    have hordered := haccepted.ordered hboot
    have hroom := haccepted.room (fs.found drv).2.winsect
    rw [← he] at hordered
    have hparams : (fs.mountVolume drv mode).2.toFatParams =
        (Boot.params (fs.found drv).2.win.byte (fs.found drv).2.winsect).toFatParams :=
      congrArg BootParams.toFatParams he
    refine ⟨⟨?_, ?_, ?_, hordered.fatApart hboot.volume⟩, hfresh.coherent,
      ⟨_, hboot.volume, hordered⟩⟩
    · exact UInt32.lt_iff_toNat_lt.2 hordered.some_cluster
    · rw [hparams]
      exact hroom.1
    · rw [hparams]
      exact hroom.2

theorem step_sound (fs : Filesystem D) (call : MountCall) (fs' : Filesystem D)
    (h : fs.Sound drv) (hfits : fs.FindsFitting drv call) (hstep : fs.step drv call = some fs') :
    fs'.Sound drv := by
  cases call with
  | mount mode =>
      obtain rfl := Option.some_inj.1 hstep
      exact mountVolume_sound drv h hfits
  | table call =>
      rw [step] at hstep
      split_ifs at hstep with hmounted
      obtain rfl := Option.some_inj.1 hstep
      obtain ⟨hv, hc, hordered⟩ := h hmounted
      have hworked := (tableCall_explained hv hc hmounted
        (fun _ _ v hmem => absurd hmem (Option.not_mem_none v)) call (T := fun _ => none)).2.1
      intro _
      have hparams : (fs.toVolume.tableCall drv.toDevice call).2.toFatParams = fs.toFatParams :=
        hworked.params_eq
      refine ⟨?_, hworked.coherent hc, ?_⟩
      · rw [hparams]
        exact hv
      · rw [params, hparams]
        exact hordered

/-- In every run of mounts and of calls of the functions on the FAT, with a disk that may
fail at any time, and with boot sectors that fit in sector numbers of 32 bits and give FAT32 at
least two reserved sectors, the window of a mounted volume agrees with the disk, `clst2sect` refuses
just the numbers that are no cluster, and the sectors of the clusters, of the root directory
and of the FATs are apart. -/
theorem mount_geometry {fs fs' : Filesystem D} {calls : List MountCall}
    (hstart : fs.fsType = .unmounted)
    (hfits : Transition.Along (FindsFitting drv) (step drv) fs calls)
    (hrun : Transition.run (step drv) fs calls = some fs') (hmounted : fs'.fsType ≠ .unmounted) :
    fs'.Valid ∧ fs'.Coherent drv.toDevice ∧
      (∀ c, fs'.clst2sect c = 0 ↔ c < 2 ∨ fs'.nFatent ≤ c) ∧
      (∀ c j, 2 ≤ c ∧ c < fs'.nFatent → j < fs'.csize.toUInt32 →
        fs'.Visible (fs'.clst2sect c + j) ∧ ¬ fs'.InFat (fs'.clst2sect c + j) ∧
        ∀ c' j', 2 ≤ c' ∧ c' < fs'.nFatent → j' < fs'.csize.toUInt32 →
          fs'.clst2sect c + j = fs'.clst2sect c' + j' → c = c' ∧ j = j') ∧
      (fs'.fsType ≠ .fat32 → ∀ i, i < fs'.nRootdir.toUInt32 / 16 →
        fs'.Visible (fs'.dirbase + i) ∧ ¬ fs'.InFat (fs'.dirbase + i) ∧
        ∀ c j, 2 ≤ c ∧ c < fs'.nFatent → j < fs'.csize.toUInt32 →
          fs'.dirbase + i ≠ fs'.clst2sect c + j) := by
  have hsound : fs'.Sound drv :=
    hfits.invariant (step_sound drv) (fun h => absurd hstart h) hrun
  obtain ⟨hvalid, hcoherent, stop, hstop, hordered⟩ := hsound hmounted
  refine ⟨hvalid, hcoherent, fun c => ⟨?_, hordered.clst2sect_of_outside⟩,
    fun c j hc hj => ?_, fun ht i hi => hordered.rootSector_apart hstop ht hi⟩
  · intro hzero
    by_contra hc
    have hin : 2 ≤ c ∧ c < fs'.nFatent := by grind
    have hval := (hordered.toNat_clst2sect hstop hin).1
    have hpos : fs'.volbase.toNat < fs'.fatbase.toNat := hordered.reserved
    have hsystem : fs'.fatbase.toNat + _ + _ = fs'.database.toNat := hordered.system
    change (fs'.clst2sect c).toNat = fs'.database.toNat + _ at hval
    rw [hzero] at hval
    change 0 = fs'.database.toNat + _ at hval
    omega
  · obtain ⟨hvisible, hout⟩ := hordered.clusterSector_apart hstop hc hj
    exact ⟨hvisible, hout, fun c' j' hc' hj' =>
      hordered.clusterSector_inj hstop hc hc' hj hj'⟩

/-! ### A small volume -/

/-- The bytes of a boot sector for 200 sectors, with two FATs of one sector. -/
def dosBoot (i : ℕ) : UInt8 :=
  if i = 0 then 0xEB
  else if i = 12 then 2
  else if i = 13 ∨ i = 14 ∨ i = 22 then 1
  else if i = 16 then 2
  else if i = 17 then 16
  else if i = 19 then 200
  else 0

/-- A drive that never fails. -/
def dosDrive : Drive (UInt32 → Sector) where
  toDevice := Device.ofFun
  diskStatus _ := 0
  diskInitialize d := (0, d)

/-- The drive with the boot sector everywhere, before a mount. -/
def dosDisk : Filesystem (UInt32 → Sector) where
  fsType := .unmounted
  nFats := 0
  csize := 0
  nFatent := 0
  fsize := 0
  volbase := 0
  fatbase := 0
  database := 0
  lastClst := 0
  freeClst := 0
  fsiFlag := 0
  wflag := false
  winsect := 0
  win := Vector.replicate 512 0
  disk _ := Vector.ofFn fun i => dosBoot i
  nRootdir := 0
  dirbase := 0

theorem byte_ofFn (f : ℕ → UInt8) :
    Sector.byte (Vector.ofFn fun i => f i) = fun i => if i < 512 then f i else 0 := by
  funext i
  rw [Sector.byte, Vector.toArray_ofFn, Array.getD_eq_getD_getElem?, Array.getElem?_ofFn]
  split_ifs with hi
  · rfl
  · rfl

theorem byte_dosDisk : (dosDisk.disk 0).byte = fun i => if i < 512 then dosBoot i else 0 :=
  byte_ofFn dosBoot

theorem found_dosDisk : dosDisk.found dosDrive =
    (.fat, { dosDisk.toVolume with winsect := 0, win := dosDisk.disk 0 }) := by
  have hstatus : Boot.status (dosDisk.disk 0).byte = .fat := by
    rw [byte_dosDisk]
    decide
  have hcheck : dosDisk.toVolume.checkFs dosDrive.toDevice 0 =
      (Boot.status (dosDisk.disk 0).byte,
        { dosDisk.toVolume with winsect := 0, win := dosDisk.disk 0 }) := rfl
  change dosDisk.toVolume.findVolume dosDrive.toDevice = _
  rw [findVolume, hcheck, hstatus]

/-- After a mount of the small volume its first cluster is in its fifth sector. -/
theorem mount_geometry_dosDisk :
    ∃ fs, Transition.run (step dosDrive) dosDisk [.mount 0] = some fs ∧
      fs.clst2sect 2 = 4 ∧ ¬ fs.InFat (fs.clst2sect 2 + 0) := by
  have haccepted : Boot.Accepted (dosDisk.disk 0).byte := by
    rw [byte_dosDisk]
    decide
  have hfits : Boot.Fits (dosDisk.disk 0).byte 0 := by
    rw [byte_dosDisk]
    exact ⟨by decide, by decide, by decide⟩
  have hstart : dosDisk.fsType = .unmounted := rfl
  have hparams := mountVolume_params dosDrive hstart rfl found_dosDisk haccepted 0
  have hrun := run_mount dosDrive dosDisk 0
  obtain ⟨fs, hfs⟩ : ∃ fs, (dosDisk.mountVolume dosDrive 0).2 = fs := ⟨_, rfl⟩
  rw [hfs] at hparams hrun
  have halong : Transition.Along (FindsFitting dosDrive) (step dosDrive) dosDisk [.mount 0] :=
    ⟨fun _ => by rw [found_dosDisk]; exact hfits, fun _ _ => trivial⟩
  have hmounted : fs.params.fsType ≠ .unmounted := by
    rw [hparams, byte_dosDisk]
    decide
  have hfirst : (2 : UInt32) ≤ 2 ∧ 2 < fs.params.nFatent := by
    rw [hparams, byte_dosDisk]
    decide
  have hzero : 0 < fs.params.csize.toUInt32 := by
    rw [hparams, byte_dosDisk]
    decide
  have hall := mount_geometry dosDrive hstart halong hrun hmounted
  refine ⟨_, hrun, ?_, (hall.2.2.2.1 2 0 hfirst hzero).2.1⟩
  change fs.params.clst2sect 2 = 4
  rw [hparams, byte_dosDisk]
  decide

end Filesystem

end Catpilot
