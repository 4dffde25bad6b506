import Catpilot.Fatfs.Table
import Catpilot.Memory.LinkTable
import Catpilot.Transition.Run
import Mathlib.Order.Interval.Finset.Nat

/-!
# Cluster chains

`remove_chain` and `create_chain` of `core/ff.c`. The FAT of a volume is a table of links in
which the clusters in use form chains, one for each file and directory. No run of the two
functions joins two chains or leaves a link to a free cluster, and what a disk error loses
are clusters that no file has. An entry of twelve bits is stored in two steps, between which
the disk can fail; then nothing is known of it.
-/

namespace Catpilot

open Storage LinkTable

namespace Volume

variable {D : Type*} (dev : Device D UInt32 Sector)

section Code

variable (fs : Volume D)

/-- A cluster has become free. -/
def countFreed : Volume D :=
  if fs.freeClst < fs.nFatent - 2 then
    { fs with freeClst := fs.freeClst + 1, fsiFlag := fs.fsiFlag ||| 1 }
  else fs

/-- A cluster has been given out. -/
def countUsed (ncl : UInt32) : Volume D :=
  { fs with
    lastClst := ncl
    freeClst := if fs.freeClst ≤ fs.nFatent - 2 then fs.freeClst - 1 else fs.freeClst
    fsiFlag := fs.fsiFlag ||| 1 }

/-- The loop of `remove_chain`, in at most `fuel` turns. -/
def freeLoop : ℕ → Volume D → UInt32 → Option (FResult × Volume D)
  | 0, _, _ => none
  | fuel + 1, fs, clst =>
      let (nxt, fs) := fs.getFat dev clst
      if nxt = 0 then some (.ok, fs)
      else if nxt = 1 then some (.intErr, fs)
      else if nxt = 0xFFFFFFFF then some (.diskErr, fs)
      else
        match fs.putFat dev clst 0 with
        | (.ok, fs) =>
            let fs := fs.countFreed
            if nxt < fs.nFatent then freeLoop fuel fs nxt else some (.ok, fs)
        | (res, fs) => some (res, fs)

/-- `remove_chain`. -/
def removeChain (clst pclst : UInt32) : Option (FResult × Volume D) :=
  if clst < 2 ∨ fs.nFatent ≤ clst then some (.intErr, fs)
  else if pclst ≠ 0 then
    match fs.putFat dev pclst 0xFFFFFFFF with
    | (.ok, fs) => freeLoop dev fs.nFatent.toNat fs clst
    | (res, fs) => some (res, fs)
  else freeLoop dev fs.nFatent.toNat fs clst

/-- The loop of `create_chain` that looks for a free cluster behind `ncl` and, after the last
one, from the first one up to `scl`. An error is what `create_chain` then returns. -/
def scanLoop (scl : UInt32) : ℕ → Volume D → UInt32 → Option (Except UInt32 UInt32 × Volume D)
  | 0, _, _ => none
  | fuel + 1, fs, ncl =>
      let wrapped := decide (fs.nFatent ≤ ncl + 1)
      let ncl := if wrapped then 2 else ncl + 1
      if wrapped ∧ scl < ncl then some (.error 0, fs)
      else
        let (cs, fs) := fs.getFat dev ncl
        if cs = 0 then some (.ok ncl, fs)
        else if cs = 1 ∨ cs = 0xFFFFFFFF then some (.error cs, fs)
        else if ncl = scl then some (.error 0, fs)
        else scanLoop scl fuel fs ncl

/-- The part of `create_chain` that finds a free cluster, next to `clst` if it can. -/
def findFree (clst scl : UInt32) : Option (Except UInt32 UInt32 × Volume D) :=
  if scl = clst then
    let ncl := if fs.nFatent ≤ scl + 1 then 2 else scl + 1
    let (cs, fs) := fs.getFat dev ncl
    if cs = 1 ∨ cs = 0xFFFFFFFF then some (.error cs, fs)
    else if cs ≠ 0 then
      let scl := if 2 ≤ fs.lastClst ∧ fs.lastClst < fs.nFatent then fs.lastClst else scl
      scanLoop dev scl fs.nFatent.toNat fs scl
    else some (.ok ncl, fs)
  else scanLoop dev scl fs.nFatent.toNat fs scl

/-- The part of `create_chain` that marks the cluster `ncl` and links it to `clst`. -/
def linkFree (clst ncl : UInt32) : UInt32 × Volume D :=
  let (res, fs) :=
    match fs.putFat dev ncl 0xFFFFFFFF with
    | (.ok, fs) => if clst ≠ 0 then fs.putFat dev clst ncl else (.ok, fs)
    | (res, fs) => (res, fs)
  if res = .ok then (ncl, fs.countUsed ncl)
  else (if res = .diskErr then 0xFFFFFFFF else 1, fs)

/-- `create_chain`, from where it knows the cluster to start from. -/
def allocate (clst scl : UInt32) : Option (UInt32 × Volume D) :=
  if fs.freeClst = 0 then some (0, fs)
  else
    match fs.findFree dev clst scl with
    | none => none
    | some (.error cs, fs) => some (cs, fs)
    | some (.ok ncl, fs) => some (fs.linkFree dev clst ncl)

/-- `create_chain`. -/
def createChain (clst : UInt32) : Option (UInt32 × Volume D) :=
  if clst = 0 then
    fs.allocate dev clst (if fs.lastClst = 0 ∨ fs.nFatent ≤ fs.lastClst then 1 else fs.lastClst)
  else
    let (cs, fs) := fs.getFat dev clst
    if cs < 2 then some (1, fs)
    else if cs = 0xFFFFFFFF then some (cs, fs)
    else if cs < fs.nFatent then some (cs, fs)
    else fs.allocate dev clst clst

end Code

/-- What a value says of its cluster in a FAT of `n` entries. -/
def cellOf (n val : UInt32) : Cell UInt32 :=
  if val = 0 then .free else if val < n then .link val else .stop

/-- The FAT as a table of links between clusters. -/
def cell (fs : Volume D) (c : UInt32) : Cell UInt32 :=
  if 2 ≤ c ∧ c < fs.nFatent then cellOf fs.nFatent (fs.entry dev c.toNat) else .free

/-- A mounted volume whose clusters in use are those of some chains. -/
structure Chained (fs : Volume D) (chains : List (List UInt32)) : Prop where
  valid : fs.Valid
  coherent : fs.Coherent dev
  mounted : fs.fsType ≠ .unmounted
  laid : Laid (fs.cell dev) chains

/-- The number of free clusters that the volume has, when it has one, is not too small. -/
def Counted (fs : Volume D) (chains : List (List UInt32)) : Prop :=
  fs.nFatent.toNat - 2 < fs.freeClst.toNat ∨
    fs.nFatent.toNat - 2 ≤ fs.freeClst.toNat + chains.flatten.length

/-- The number of free clusters that the volume has is right. -/
def CountedExactly (fs : Volume D) (chains : List (List UInt32)) : Prop :=
  fs.freeClst.toNat + chains.flatten.length = fs.nFatent.toNat - 2

/-- A `put_fat` that fails changes no entry. -/
def Untorn (fs : FatParams) : Prop := fs.fsType ≠ .fat12

variable {dev} {fs fs' : Volume D}

/-! ### Values of entries -/

theorem toNat_fatEntry_lt (t : FsType) (b : ℕ → UInt8) (c : ℕ) :
    (fatEntry t b c).toNat < 268435456 := by
  cases t with
  | unmounted => exact Nat.lt_of_lt_of_le Nat.one_lt_two (by decide)
  | fat12 =>
      have h₀ : (b (c + c / 2)).toNat < 256 := (b (c + c / 2)).toNat_lt
      have h₁ : (b (c + c / 2 + 1)).toNat < 256 := (b (c + c / 2 + 1)).toNat_lt
      rw [toNat_fatEntry12]
      split_ifs <;> omega
  | fat16 =>
      have h : (ldWord b (2 * c)).toNat < 65536 := (ldWord b (2 * c)).toNat_lt
      rw [fatEntry, UInt16.toNat_toUInt32]
      omega
  | fat32 =>
      rw [fatEntry, toNat_and_low (n := 28) rfl]
      exact Nat.mod_lt _ (by decide)

/-- No entry reads as the error of the disk. -/
theorem entry_ne_error (fs : Volume D) (c : ℕ) : fs.entry dev c ≠ 0xFFFFFFFF := by
  intro h
  have hlt := toNat_fatEntry_lt fs.fsType (fs.fatByte dev) c
  rw [entry] at h
  rw [h] at hlt
  exact absurd hlt (by decide)

/-- A cluster number is stored whole. -/
theorem storedValue_of_lt (hv : fs.Valid) {val : UInt32} (h : val < fs.nFatent) :
    storedValue fs.fsType val = val := by
  have hmax := hv.entries
  have hlt := UInt32.lt_iff_toNat_lt.1 h
  apply UInt32.toNat_inj.1
  cases ht : fs.fsType with
  | unmounted =>
      rw [ht, FsType.maxEntries] at hmax
      omega
  | fat12 =>
      rw [ht, FsType.maxEntries] at hmax
      exact (toNat_and_low (n := 12) rfl val).trans (Nat.mod_eq_of_lt (by omega))
  | fat16 =>
      rw [ht, FsType.maxEntries] at hmax
      exact (toNat_and_low (n := 16) rfl val).trans (Nat.mod_eq_of_lt (by omega))
  | fat32 =>
      rw [ht, FsType.maxEntries] at hmax
      exact (toNat_and_low (n := 28) rfl val).trans (Nat.mod_eq_of_lt (by omega))

/-- The mark of a last cluster is stored as no cluster number. -/
theorem cellOf_end (hv : fs.Valid) :
    cellOf fs.nFatent (storedValue fs.fsType 0xFFFFFFFF) = .stop := by
  have hmax := hv.entries
  have hle : ∀ v : UInt32, fs.nFatent.toNat ≤ v.toNat → v ≠ 0 → cellOf fs.nFatent v = .stop := by
    intro v hv h0
    rw [cellOf, if_neg h0, if_neg]
    rw [UInt32.lt_iff_toNat_lt]
    omega
  cases ht : fs.fsType with
  | unmounted =>
      have hmin := UInt32.lt_iff_toNat_lt.1 hv.some_cluster
      rw [ht, FsType.maxEntries] at hmax
      omega
  | fat12 =>
      rw [ht] at hmax
      exact hle _ (hmax.trans (by decide)) (by decide)
  | fat16 =>
      rw [ht] at hmax
      exact hle _ (hmax.trans (by decide)) (by decide)
  | fat32 =>
      rw [ht] at hmax
      exact hle _ (hmax.trans (by decide)) (by decide)

theorem cellOf_link (hv : fs.Valid) {val : UInt32} (h2 : 2 ≤ val) (hn : val < fs.nFatent) :
    cellOf fs.nFatent (storedValue fs.fsType val) = .link val := by
  rw [storedValue_of_lt hv hn, cellOf, if_neg (by grind), if_pos hn]

theorem cellOf_free (hv : fs.Valid) : cellOf fs.nFatent (storedValue fs.fsType 0) = .free := by
  have hpos : (0 : UInt32) < fs.nFatent := by
    have hmin := hv.some_cluster
    grind
  rw [storedValue_of_lt hv hpos, cellOf, if_pos rfl]

/-! ### The functions on the table of links -/

/-- What the functions on chains keep of the volume. -/
structure Kept (dev : Device D UInt32 Sector) (fs fs' : Volume D) : Prop where
  worked : Worked dev fs fs'
  cell_eq : ∀ c, fs'.cell dev c = fs.cell dev c
  info_eq : fs'.toFatInfo = fs.toFatInfo

theorem cell_congr (hp : fs'.toFatParams = fs.toFatParams)
    (he : ∀ d < fs.nFatent.toNat, fs'.entry dev d = fs.entry dev d) (c : UInt32) :
    fs'.cell dev c = fs.cell dev c := by
  rw [cell, cell, hp]
  by_cases hin : 2 ≤ c ∧ c < fs.nFatent
  · rw [if_pos hin, if_pos hin, he _ (UInt32.lt_iff_toNat_lt.1 hin.2)]
  · rw [if_neg hin, if_neg hin]

theorem Moved.kept (h : Moved dev fs fs') (hv : fs.Valid) (hc : fs.Coherent dev) :
    Kept dev fs fs' where
  worked := h.toSteady.worked
  cell_eq := cell_congr h.params_eq fun _ hd => h.entry_eq hv hc hd
  info_eq := h.info_eq

variable {cs : List (List UInt32)}

theorem Kept.chained (h : Kept dev fs fs') (hok : fs.Chained dev cs) : fs'.Chained dev cs where
  valid := by rw [h.worked.params_eq]; exact hok.valid
  coherent := h.worked.coherent hok.coherent
  mounted := by rw [h.worked.params_eq]; exact hok.mounted
  laid := hok.laid.congr h.cell_eq

/-- The number of a cluster that is not free. -/
theorem inRange_of_used {c : UInt32} (h : fs.cell dev c ≠ .free) :
    2 ≤ c ∧ c < fs.nFatent := by
  by_contra hin
  exact h (if_neg hin)

theorem Chained.inRange (h : fs.Chained dev cs) {c : UInt32} (hc : c ∈ cs.flatten) :
    2 ≤ c ∧ c < fs.nFatent :=
  inRange_of_used ((h.laid.mem_iff c).1 hc)

theorem Chained.numbers (h : fs.Chained dev cs) :
    (cs.flatten.map UInt32.toNat).toFinset ⊆ Finset.Ico 2 fs.nFatent.toNat ∧
      (cs.flatten.map UInt32.toNat).toFinset.card = cs.flatten.length := by
  have hnodup : (cs.flatten.map UInt32.toNat).Nodup :=
    h.laid.nodup.map fun a b hab => UInt32.toNat_inj.1 hab
  refine ⟨fun k hk => ?_, by rw [List.toFinset_card_of_nodup hnodup, List.length_map]⟩
  obtain ⟨c, hc, rfl⟩ := List.mem_map.1 (List.mem_toFinset.1 hk)
  obtain ⟨h2, hn⟩ := h.inRange hc
  exact Finset.mem_Ico.2 ⟨UInt32.le_iff_toNat_le.1 h2, UInt32.lt_iff_toNat_lt.1 hn⟩

/-- There are no more clusters in use than clusters. -/
theorem Chained.length_le (h : fs.Chained dev cs) :
    cs.flatten.length ≤ fs.nFatent.toNat - 2 := by
  have hcard := Finset.card_le_card h.numbers.1
  rwa [h.numbers.2, Nat.card_Ico] at hcard

/-- When as many clusters are in use as there are, none is free. -/
theorem Chained.full (h : fs.Chained dev cs) (hlen : fs.nFatent.toNat - 2 ≤ cs.flatten.length)
    {c : UInt32} (hc : 2 ≤ c ∧ c < fs.nFatent) : fs.cell dev c ≠ .free := by
  have hcard : (Finset.Ico 2 fs.nFatent.toNat).card ≤
      (cs.flatten.map UInt32.toNat).toFinset.card := by
    rwa [h.numbers.2, Nat.card_Ico]
  have hmem : c.toNat ∈ (cs.flatten.map UInt32.toNat).toFinset := by
    rw [Finset.eq_of_subset_of_card_le h.numbers.1 hcard]
    exact Finset.mem_Ico.2 ⟨UInt32.le_iff_toNat_le.1 hc.1, UInt32.lt_iff_toNat_lt.1 hc.2⟩
  obtain ⟨d, hd, hdc⟩ := List.mem_map.1 (List.mem_toFinset.1 hmem)
  rw [← UInt32.toNat_inj.1 hdc]
  exact (h.laid.mem_iff d).1 hd

/-- No entry links to the cluster numbers that the FAT does not have. -/
theorem Chained.value_ne_one (h : fs.Chained dev cs) {c v : UInt32}
    (hv : fs.cell dev c = cellOf fs.nFatent v) : v ≠ 1 := by
  rintro rfl
  have h1 : cellOf fs.nFatent 1 = .link 1 := by
    have hmin := h.valid.some_cluster
    rw [cellOf, if_neg (by decide), if_pos (by grind)]
  have h2 : (2 : UInt32) ≤ 1 := (h.inRange (h.laid.link_mem (hv.trans h1))).1
  exact absurd h2 (by decide)

/-- `get_fat` of a cluster, as seen in the table of links. -/
theorem Chained.getFat (h : fs.Chained dev cs) {c : UInt32} (hin : 2 ≤ c ∧ c < fs.nFatent) :
    Kept dev fs (fs.getFat dev c).2 ∧
      ((fs.getFat dev c).1 = 0xFFFFFFFF ∨
        (fs.getFat dev c).1 ≠ 0xFFFFFFFF ∧
          fs.cell dev c = cellOf fs.nFatent (fs.getFat dev c).1) := by
  obtain ⟨hm, hr⟩ := getFat_reads h.valid h.coherent hin.1 hin.2
  refine ⟨hm.kept h.valid h.coherent, hr.imp_right fun hr => ?_⟩
  rw [hr, cell, if_pos hin]
  exact ⟨entry_ne_error fs _, rfl⟩

/-- `put_fat` of a cluster changes its entry in the table of links. When it fails it changes
nothing, if it does not tear the entry. -/
theorem Chained.putFat (h : fs.Chained dev cs) {c : UInt32}
    (hin : 2 ≤ c ∧ c < fs.nFatent) (val : UInt32) :
    Worked dev fs (fs.putFat dev c val).2 ∧
      (fs.putFat dev c val).2.toFatInfo = fs.toFatInfo ∧
      (((fs.putFat dev c val).1 = .ok ∧ ∀ d, (fs.putFat dev c val).2.cell dev d =
          Function.update (fs.cell dev) c
            (cellOf fs.nFatent (storedValue fs.fsType val)) d) ∨
        ((fs.putFat dev c val).1 = .diskErr ∧ (Untorn fs.toFatParams →
          ∀ d, (fs.putFat dev c val).2.cell dev d = fs.cell dev d))) := by
  have hw := putFat_writes h.valid h.coherent h.mounted hin.1 hin.2 val
  refine ⟨hw.worked, hw.info_eq, ?_⟩
  rcases hw.result with hok | herr
  · refine .inl ⟨hok, fun d => ?_⟩
    rw [cell, hw.worked.params_eq, Function.update_apply]
    by_cases hd : 2 ≤ d ∧ d < fs.nFatent
    · rw [if_pos hd, hw.entry_ok hok _ (UInt32.lt_iff_toNat_lt.1 hd.2)]
      by_cases hdc : d = c
      · rw [if_pos hdc, if_pos (congrArg _ hdc)]
      · rw [if_neg hdc, if_neg fun heq => hdc (UInt32.toNat_inj.1 heq), cell, if_pos hd]
    · rw [if_neg hd, if_neg (by rintro rfl; exact hd hin), cell, if_neg hd]
  · refine .inr ⟨herr, fun hu => cell_congr hw.worked.params_eq fun d hd => ?_⟩
    have hne : (fs.putFat dev c val).1 ≠ .ok := by
      rw [herr]
      decide
    exact hw.entry_error hne d hd (.inr hu)

variable {cs' cs'' : List (List UInt32)} {fs'' : Volume D}

/-- The number of free clusters is still right, or still not too small, after a change of
the chains. -/
structure Tallied (fs : Volume D) (cs : List (List UInt32)) (fs' : Volume D)
    (cs' : List (List UInt32)) : Prop where
  counted : fs.Counted cs → fs'.Counted cs'
  exactly : fs.CountedExactly cs → fs'.CountedExactly cs'

theorem Tallied.refl (fs : Volume D) (cs : List (List UInt32)) : Tallied fs cs fs cs := ⟨id, id⟩

theorem Tallied.trans (h : Tallied fs cs fs' cs') (h' : Tallied fs' cs' fs'' cs'') :
    Tallied fs cs fs'' cs'' :=
  ⟨fun hc => h'.counted (h.counted hc), fun hc => h'.exactly (h.exactly hc)⟩

theorem Tallied.of_eq (hp : fs'.toFatParams = fs.toFatParams) (hi : fs'.toFatInfo = fs.toFatInfo)
    (hl : cs'.flatten.length = cs.flatten.length) : Tallied fs cs fs' cs' := by
  constructor
  · intro h
    rw [Counted, hp, hi, hl]
    exact h
  · intro h
    rw [CountedExactly, hp, hi, hl]
    exact h

theorem Kept.tallied (h : Kept dev fs fs') (cs : List (List UInt32)) : Tallied fs cs fs' cs :=
  .of_eq h.worked.params_eq h.info_eq rfl

theorem cellOf_eq_link {n v d : UInt32} (h : cellOf n v = .link d) : v = d ∧ v < n := by
  rw [cellOf] at h
  split_ifs at h with h0 hn
  exact ⟨Cell.link.inj h, hn⟩

theorem cellOf_eq_stop {n v : UInt32} (h : cellOf n v = .stop) : v ≠ 0 ∧ ¬ v < n := by
  rw [cellOf] at h
  split_ifs at h with h0 hn
  exact ⟨h0, hn⟩

theorem Chained.of_laid (h : fs.Chained dev cs) (hw : Worked dev fs fs')
    (hl : Laid (fs'.cell dev) cs') : fs'.Chained dev cs' where
  valid := by rw [hw.params_eq]; exact h.valid
  coherent := hw.coherent h.coherent
  mounted := by rw [hw.params_eq]; exact h.mounted
  laid := hl

theorem toNat_nFatent_sub (hv : fs.Valid) : (fs.nFatent - 2).toNat = fs.nFatent.toNat - 2 := by
  have hmin := UInt32.lt_iff_toNat_lt.1 hv.some_cluster
  exact UInt32.toNat_sub_of_le _ _ (UInt32.le_iff_toNat_le.2 hmin.le)

variable (dev) in
/-- The counter of free clusters changes nothing else. -/
theorem countFreed_worked (fs : Volume D) : Worked dev fs fs.countFreed := by
  rw [countFreed]
  split_ifs
  · exact ⟨rfl, fun h => ⟨h.clean, h.dirty⟩, fun _ _ _ _ => rfl, fun _ _ _ h => h⟩
  · exact Worked.refl fs

theorem countFreed_cell (fs : Volume D) (c : UInt32) :
    fs.countFreed.cell dev c = fs.cell dev c := by
  rw [countFreed]
  split_ifs
  · rfl
  · rfl

theorem countFreed_tallied (hv : fs.Valid) (c : UInt32) (m : List UInt32) :
    Tallied fs ((c :: m) :: cs) fs.countFreed (m :: cs) := by
  have hsub := toNat_nFatent_sub hv
  have hlen : ((c :: m) :: cs).flatten.length = (m :: cs).flatten.length + 1 := rfl
  rw [countFreed]
  split_ifs with hlt
  · have hlt' := UInt32.lt_iff_toNat_lt.1 hlt
    have hmax := fs.nFatent.toNat_lt
    have hadd : (fs.freeClst + 1).toNat = fs.freeClst.toNat + 1 := by
      have hone : (1 : UInt32).toNat = 1 := rfl
      rw [UInt32.toNat_add]
      omega
    constructor
    · intro h
      rw [Counted, hlen] at h
      change fs.nFatent.toNat - 2 < (fs.freeClst + 1).toNat ∨
        fs.nFatent.toNat - 2 ≤ (fs.freeClst + 1).toNat + (m :: cs).flatten.length
      omega
    · intro h
      rw [CountedExactly, hlen] at h
      change (fs.freeClst + 1).toNat + (m :: cs).flatten.length = fs.nFatent.toNat - 2
      omega
  · rw [UInt32.lt_iff_toNat_lt, hsub] at hlt
    constructor
    · intro h
      rw [Counted]
      omega
    · intro h
      rw [CountedExactly, hlen] at h
      omega

/-! ### Removing a chain -/

/-- One turn of the loop of `remove_chain`: an error of the disk changes nothing or tears the
entry, and else the cluster is free and the loop goes on to the next one. -/
theorem freeLoop_turn {c : UInt32} {m : List UInt32} (h : fs.Chained dev ((c :: m) :: cs))
    (fuel : ℕ) :
    (∃ fs', freeLoop dev (fuel + 1) fs c = some (.diskErr, fs') ∧ Worked dev fs fs' ∧
      (Untorn fs.toFatParams → Kept dev fs fs')) ∨
    ∃ fs', Worked dev fs fs' ∧ fs'.Chained dev (m :: cs) ∧
      Tallied fs ((c :: m) :: cs) fs' (m :: cs) ∧
      ((m = [] ∧ freeLoop dev (fuel + 1) fs c = some (.ok, fs')) ∨
        ∃ d m', m = d :: m' ∧ freeLoop dev (fuel + 1) fs c = freeLoop dev fuel fs' d) := by
  have hmem : c ∈ ((c :: m) :: cs).flatten := List.mem_cons_self
  have hin := h.inRange hmem
  have hused := (h.laid.mem_iff c).1 hmem
  have hlead := (h.laid.path (c :: m) List.mem_cons_self).1
  obtain ⟨hk₁, hr⟩ := h.getFat hin
  rw [freeLoop]
  rcases h₁ : fs.getFat dev c with ⟨nxt, fs₁⟩
  rw [h₁] at hk₁ hr
  rcases hr with rfl | ⟨herr, hcell⟩
  · exact .inl ⟨fs₁, by simp, hk₁.worked, fun _ => hk₁⟩
  have h0 : nxt ≠ 0 := by
    rintro rfl
    exact hused (hcell.trans (if_pos rfl))
  have h1 : nxt ≠ 1 := h.value_ne_one hcell
  have hok₁ := hk₁.chained h
  have hp₁ := hk₁.worked.params_eq
  obtain ⟨hw₂, hi₂, hres⟩ := hok₁.putFat (c := c) (by rw [hp₁]; exact hin) 0
  rcases h₂ : fs₁.putFat dev c 0 with ⟨res, fs₂⟩
  rw [h₂] at hw₂ hi₂ hres
  rcases hres with ⟨rfl, hcells⟩ | ⟨rfl, hcells⟩
  · have hlaid : Laid (fs₂.cell dev) (m :: cs) := by
      refine hok₁.laid.drop.congr fun d => ?_
      rw [hcells, cellOf_free hok₁.valid]
    have hok₂ := hok₁.of_laid hw₂ hlaid
    have hw₃ := fs₂.countFreed_worked dev
    refine .inr ⟨fs₂.countFreed, (hk₁.worked.trans hw₂).trans hw₃,
      hok₂.of_laid hw₃ (hlaid.congr fs₂.countFreed_cell), ?_, ?_⟩
    · have htally : Tallied fs ((c :: m) :: cs) fs₂ ((c :: m) :: cs) :=
        .of_eq (hw₂.params_eq.trans hp₁) (hi₂.trans hk₁.info_eq) rfl
      exact htally.trans (countFreed_tallied hok₂.valid c m)
    · have hn : fs₂.countFreed.nFatent = fs.nFatent := by
        rw [hw₃.params_eq, hw₂.params_eq, hp₁]
      simp only [if_neg h0, if_neg h1, if_neg herr]
      cases m with
      | nil =>
          refine .inl ⟨rfl, ?_⟩
          rw [h₂]
          simp only [hn, if_neg (cellOf_eq_stop (hcell.symm.trans hlead)).2]
      | cons d m =>
          obtain ⟨rfl, hlt⟩ := cellOf_eq_link (hcell.symm.trans hlead)
          refine .inr ⟨nxt, m, rfl, ?_⟩
          rw [h₂]
          simp only [hn, if_pos hlt]
  · refine .inl ⟨fs₂, ?_, hk₁.worked.trans hw₂, fun hu => ⟨hk₁.worked.trans hw₂,
      fun d => (hcells (by rwa [hp₁]) d).trans (hk₁.cell_eq d), hi₂.trans hk₁.info_eq⟩⟩
    simp only [if_neg h0, if_neg h1, if_neg herr]
    rw [h₂]

/-- The loop of `remove_chain` frees a chain; a disk error leaves an end of it, that no
other chain shares. -/
theorem freeLoop_spec {c : UInt32} {m : List UInt32} (h : fs.Chained dev ((c :: m) :: cs))
    {fuel : ℕ} (hfuel : m.length < fuel) :
    ∃ res fs', freeLoop dev fuel fs c = some (res, fs') ∧ Worked dev fs fs' ∧
      ((res = .ok ∧ fs'.Chained dev cs ∧ Tallied fs ((c :: m) :: cs) fs' cs) ∨
        (res = .diskErr ∧ (Untorn fs.toFatParams →
          ∃ m', m' <:+ c :: m ∧ fs'.Chained dev (m' :: cs) ∧
            Tallied fs ((c :: m) :: cs) fs' (m' :: cs)))) := by
  induction m generalizing fs c fuel with
  | nil =>
      obtain ⟨fuel, rfl⟩ := Nat.exists_eq_add_one.2 (Nat.zero_lt_of_lt hfuel)
      rcases freeLoop_turn h fuel with ⟨fs', he, hw, hk⟩ | ⟨fs', hw, hok, ht, hm⟩
      · exact ⟨_, fs', he, hw, .inr ⟨rfl, fun hu =>
          ⟨_, List.suffix_rfl, (hk hu).chained h, (hk hu).tallied _⟩⟩⟩
      · rcases hm with ⟨-, he⟩ | ⟨d, m', hm, -⟩
        · refine ⟨_, fs', he, hw, .inl ⟨rfl, ?_, ht.trans (.of_eq rfl rfl rfl)⟩⟩
          exact hok.of_laid (Worked.refl fs') (laid_nil_cons.1 hok.laid)
        · cases hm
  | cons d m ih =>
      obtain ⟨fuel, rfl⟩ := Nat.exists_eq_add_one.2 (Nat.zero_lt_of_lt hfuel)
      rcases freeLoop_turn h fuel with ⟨fs', he, hw, hk⟩ | ⟨fs', hw, hok, ht, hm⟩
      · exact ⟨_, fs', he, hw, .inr ⟨rfl, fun hu =>
          ⟨_, List.suffix_rfl, (hk hu).chained h, (hk hu).tallied _⟩⟩⟩
      · rcases hm with ⟨hm, -⟩ | ⟨d', m', hm, he⟩
        · cases hm
        · obtain ⟨rfl, rfl⟩ := List.cons.inj hm
          obtain ⟨res, fs'', he', hw', hrest⟩ := ih hok (Nat.lt_of_succ_lt_succ hfuel)
          refine ⟨res, fs'', he.trans he', hw.trans hw', hrest.imp ?_ ?_⟩
          · rintro ⟨hres, hok', ht'⟩
            exact ⟨hres, hok', ht.trans ht'⟩
          · rintro ⟨hres, hleft⟩
            refine ⟨hres, fun hu => ?_⟩
            obtain ⟨m', hsuffix, hok', ht'⟩ := hleft (by rwa [hw.params_eq])
            exact ⟨m', hsuffix.trans (List.suffix_cons c _), hok', ht.trans ht'⟩

/-- `remove_chain` of a whole chain. -/
theorem removeChain_head {c : UInt32} {m : List UInt32} (h : fs.Chained dev ((c :: m) :: cs)) :
    ∃ res fs', fs.removeChain dev c 0 = some (res, fs') ∧ Worked dev fs fs' ∧
      ((res = .ok ∧ fs'.Chained dev cs ∧ Tallied fs ((c :: m) :: cs) fs' cs) ∨
        (res = .diskErr ∧ (Untorn fs.toFatParams →
          ∃ m', m' <:+ c :: m ∧ fs'.Chained dev (m' :: cs) ∧
            Tallied fs ((c :: m) :: cs) fs' (m' :: cs)))) := by
  have hin := h.inRange (c := c) List.mem_cons_self
  have hfuel : m.length < fs.nFatent.toNat := by
    have hlen := h.length_le
    have hflat : ((c :: m) :: cs).flatten.length = m.length + 1 + cs.flatten.length := by
      simp
      omega
    omega
  rw [removeChain, if_neg (by grind), if_neg (by decide)]
  exact freeLoop_spec h hfuel

/-- `remove_chain` behind a cluster of a chain: the chain then ends there, and what a disk
error leaves of the rest is a chain of its own. -/
theorem removeChain_tail {a c : UInt32} {l m : List UInt32}
    (h : fs.Chained dev ((l ++ a :: c :: m) :: cs)) :
    ∃ res fs', fs.removeChain dev c a = some (res, fs') ∧ Worked dev fs fs' ∧
      ((res = .ok ∧ fs'.Chained dev ((l ++ [a]) :: cs) ∧
          Tallied fs ((l ++ a :: c :: m) :: cs) fs' ((l ++ [a]) :: cs)) ∨
        (res = .diskErr ∧ (Untorn fs.toFatParams →
          (fs'.Chained dev ((l ++ a :: c :: m) :: cs) ∧
              Tallied fs ((l ++ a :: c :: m) :: cs) fs' ((l ++ a :: c :: m) :: cs)) ∨
            ∃ m', m' <:+ c :: m ∧ fs'.Chained dev (m' :: (l ++ [a]) :: cs) ∧
              Tallied fs ((l ++ a :: c :: m) :: cs) fs' (m' :: (l ++ [a]) :: cs)))) := by
  have hflat : ((l ++ a :: c :: m) :: cs).flatten = l ++ a :: c :: (m ++ cs.flatten) := by simp
  have hina := h.inRange (c := a) (by rw [hflat]; simp)
  have hinc := h.inRange (c := c) (by rw [hflat]; simp)
  have hlen := h.length_le
  rw [hflat] at hlen
  simp only [List.length_append, List.length_cons] at hlen
  rw [removeChain, if_neg (by grind), if_pos (by grind)]
  obtain ⟨hw₁, hi₁, hres⟩ := h.putFat hina 0xFFFFFFFF
  rcases h₁ : fs.putFat dev a 0xFFFFFFFF with ⟨res, fs₁⟩
  rw [h₁] at hw₁ hi₁ hres
  rcases hres with ⟨rfl, hcells⟩ | ⟨rfl, hcells⟩
  · have hlaid : Laid (fs₁.cell dev) ((c :: m) :: (l ++ [a]) :: cs) := by
      refine Laid.perm (h.laid.cut.congr fun d => ?_) (List.Perm.swap _ _ _)
      rw [hcells, cellOf_end h.valid]
    have hok₁ := h.of_laid hw₁ hlaid
    have ht₁ : Tallied fs ((l ++ a :: c :: m) :: cs) fs₁ ((c :: m) :: (l ++ [a]) :: cs) := by
      refine .of_eq hw₁.params_eq hi₁ ?_
      simp only [List.flatten_cons, List.length_append, List.length_cons, List.length_nil]
      omega
    have hfuel : m.length < fs₁.nFatent.toNat := by
      rw [hw₁.params_eq]
      omega
    obtain ⟨res, fs', he, hw, hrest⟩ := freeLoop_spec hok₁ hfuel
    refine ⟨res, fs', he, hw₁.trans hw, hrest.imp ?_ ?_⟩
    · rintro ⟨hres, hok, ht⟩
      exact ⟨hres, hok, ht₁.trans ht⟩
    · rintro ⟨hres, hleft⟩
      refine ⟨hres, fun hu => .inr ?_⟩
      obtain ⟨m', hsuffix, hok, ht⟩ := hleft (by rwa [hw₁.params_eq])
      exact ⟨m', hsuffix, hok, ht₁.trans ht⟩
  · exact ⟨_, fs₁, rfl, hw₁, .inr ⟨rfl, fun hu => .inl ⟨h.of_laid hw₁ (h.laid.congr (hcells hu)),
      .of_eq hw₁.params_eq hi₁ rfl⟩⟩⟩

/-! ### Finding a free cluster -/

/-- The result of a search for a free cluster: one that is free, the error of the disk, or
none because none is free. -/
def Searched (dev : Device D UInt32 Sector) (fs : Volume D) (r : Except UInt32 UInt32) : Prop :=
  (∃ c, r = .ok c ∧ (2 ≤ c ∧ c < fs.nFatent) ∧ fs.cell dev c = .free) ∨
    r = .error 0xFFFFFFFF ∨
    (r = .error 0 ∧ ∀ c, 2 ≤ c ∧ c < fs.nFatent → fs.cell dev c ≠ .free)

theorem Kept.searched (h : Kept dev fs fs') {r : Except UInt32 UInt32}
    (hr : Searched dev fs' r) : Searched dev fs r := by
  rw [Searched, h.worked.params_eq] at hr
  simp only [h.cell_eq] at hr
  exact hr

/-- The loop has looked at the cluster, when it started behind `s` and is at `k`. -/
def Tried (s k c : ℕ) : Prop := (s < c ∧ c ≤ k) ∨ (k < s ∧ (s < c ∨ c ≤ k))

/-- The turns that the loop still needs at most. -/
def turns (n s k : ℕ) : ℕ := if s ≤ k then n - 1 - k + s else s - k

/-- One look of the loop at the cluster `p`. -/
theorem scan_look {scl p v : UInt32} (h : fs.Chained dev cs) (hp : 2 ≤ p ∧ p < fs.nFatent)
    (hget : fs.getFat dev p = (v, fs'))
    (hlast : p = scl → fs.cell dev p ≠ .free →
      ∀ c, 2 ≤ c ∧ c < fs.nFatent → fs.cell dev c ≠ .free)
    {rest : Option (Except UInt32 UInt32 × Volume D)}
    (hrest : Kept dev fs fs' → p ≠ scl → fs.cell dev p ≠ .free →
      ∃ r fs'', rest = some (r, fs'') ∧ Kept dev fs' fs'' ∧ Searched dev fs' r) :
    ∃ r fs'', (if v = 0 then some (.ok p, fs')
        else if v = 1 ∨ v = 0xFFFFFFFF then some (.error v, fs')
        else if p = scl then some (.error 0, fs') else rest) = some (r, fs'') ∧
      Worked dev fs fs'' ∧ (∀ c, fs''.cell dev c = fs.cell dev c) ∧
      fs''.toFatInfo = fs.toFatInfo ∧ Searched dev fs r := by
  obtain ⟨hk, hr⟩ := h.getFat hp
  rw [hget] at hk hr
  rcases hr with rfl | ⟨herr, hcell⟩
  · refine ⟨_, fs', ?_, hk.worked, hk.cell_eq, hk.info_eq, .inr (.inl rfl)⟩
    rw [if_neg (by decide), if_pos (.inr rfl)]
  by_cases h0 : v = 0
  · refine ⟨_, fs', if_pos h0, hk.worked, hk.cell_eq, hk.info_eq, .inl ⟨p, rfl, hp, ?_⟩⟩
    rw [hcell, cellOf, if_pos h0]
  have hused : fs.cell dev p ≠ .free := by
    rw [hcell, cellOf, if_neg h0]
    split_ifs <;> simp
  have hgo : ¬ (v = 1 ∨ v = 0xFFFFFFFF) := not_or.2 ⟨h.value_ne_one hcell, herr⟩
  rw [if_neg h0, if_neg hgo]
  by_cases hs : p = scl
  · exact ⟨_, fs', if_pos hs, hk.worked, hk.cell_eq, hk.info_eq,
      .inr (.inr ⟨rfl, hlast hs hused⟩)⟩
  · obtain ⟨r, fs'', he, hk', hsearch⟩ := hrest hk hs hused
    rw [if_neg hs]
    exact ⟨r, fs'', he, hk.worked.trans hk'.worked,
      fun c => (hk'.cell_eq c).trans (hk.cell_eq c), hk'.info_eq.trans hk.info_eq,
      hk.searched hsearch⟩

/-- The loop of `create_chain` finds a free cluster if there is one. -/
theorem scanLoop_spec {scl : UInt32} (h : fs.Chained dev cs) (hscl : 1 ≤ scl.toNat)
    (hs : scl < fs.nFatent) {fuel : ℕ} {cur : UInt32} (hcur : 1 ≤ cur.toNat) (hn : cur < fs.nFatent)
    (htried : ∀ c, 2 ≤ c ∧ c < fs.nFatent → Tried scl.toNat cur.toNat c.toNat →
      fs.cell dev c ≠ .free)
    (hfuel : turns fs.nFatent.toNat scl.toNat cur.toNat ≤ fuel) :
    ∃ r fs', scanLoop dev scl fuel fs cur = some (r, fs') ∧ Kept dev fs fs' ∧
      Searched dev fs r := by
  induction fuel generalizing fs cur with
  | zero =>
      have hs' := UInt32.lt_iff_toNat_lt.1 hs
      have hn' := UInt32.lt_iff_toNat_lt.1 hn
      rw [turns] at hfuel
      split_ifs at hfuel <;> omega
  | succ fuel ih =>
      have hs' := UInt32.lt_iff_toNat_lt.1 hs
      have hn' := UInt32.lt_iff_toNat_lt.1 hn
      have hmax := fs.nFatent.toNat_lt
      have htwo : (2 : UInt32).toNat = 2 := rfl
      have hmin := UInt32.lt_iff_toNat_lt.1 h.valid.some_cluster
      have hsucc : (cur + 1).toNat = cur.toNat + 1 := by
        have hone : (1 : UInt32).toNat = 1 := rfl
        rw [UInt32.toNat_add]
        omega
      -- the look at the cluster `p`, after which the loop goes on with `p`
      have hlook : ∀ p, 2 ≤ p ∧ p < fs.nFatent →
          (∀ c, 2 ≤ c ∧ c < fs.nFatent → fs.cell dev p ≠ .free →
            (Tried scl.toNat p.toNat c.toNat ∨ p = scl) → fs.cell dev c ≠ .free) →
          (p ≠ scl → turns fs.nFatent.toNat scl.toNat p.toNat ≤ fuel) →
          ∃ r fs', (if (fs.getFat dev p).1 = 0 then some (.ok p, (fs.getFat dev p).2)
              else if (fs.getFat dev p).1 = 1 ∨ (fs.getFat dev p).1 = 0xFFFFFFFF then
                some (.error (fs.getFat dev p).1, (fs.getFat dev p).2)
              else if p = scl then some (.error 0, (fs.getFat dev p).2)
              else scanLoop dev scl fuel (fs.getFat dev p).2 p) = some (r, fs') ∧
            Kept dev fs fs' ∧ Searched dev fs r := by
        intro p hp hall hturns
        have hrest : Kept dev fs (fs.getFat dev p).2 → p ≠ scl → fs.cell dev p ≠ .free →
            ∃ r fs'', scanLoop dev scl fuel (fs.getFat dev p).2 p = some (r, fs'') ∧
              Kept dev (fs.getFat dev p).2 fs'' ∧ Searched dev (fs.getFat dev p).2 r := by
          intro hk hps hused
          have hp₁ := hk.worked.params_eq
          have hp2 := UInt32.le_iff_toNat_le.1 hp.1
          refine ih (hk.chained h) (by rwa [hp₁]) (by omega) (by rw [hp₁]; exact hp.2)
            (fun c hc ht => ?_) (by rw [hp₁]; exact hturns hps)
          rw [hk.cell_eq]
          exact hall c (by rwa [hp₁] at hc) hused (.inl ht)
        obtain ⟨r, fs'', he, hw, hcells, hi, hsearch⟩ := scan_look h hp rfl
          (fun hps hused c hc => hall c hc hused (.inr hps)) hrest
        exact ⟨r, fs'', he, ⟨hw, hcells, hi⟩, hsearch⟩
      rw [scanLoop]
      by_cases hwrap : fs.nFatent ≤ cur + 1
      · have hend : cur.toNat + 1 = fs.nFatent.toNat := by
          have hle := UInt32.le_iff_toNat_le.1 hwrap
          omega
        simp only [hwrap, decide_true, if_true, true_and]
        by_cases hfirst : scl < 2
        · have hfirst' := UInt32.lt_iff_toNat_lt.1 hfirst
          refine ⟨_, fs, if_pos hfirst, ⟨Worked.refl fs, fun _ => rfl, rfl⟩,
            .inr (.inr ⟨rfl, fun c hc => htried c hc (.inl ?_)⟩)⟩
          have h2 := UInt32.le_iff_toNat_le.1 hc.1
          have hc' := UInt32.lt_iff_toNat_lt.1 hc.2
          omega
        · rw [UInt32.lt_iff_toNat_lt] at hfirst
          rw [if_neg (by rwa [UInt32.lt_iff_toNat_lt])]
          refine hlook 2 ⟨by decide, h.valid.some_cluster⟩ (fun c hc hused hcase => ?_)
            fun hne => ?_
          · by_cases hc2 : c = 2
            · rwa [hc2]
            · refine htried c hc (.inl ?_)
              have h2 := UInt32.le_iff_toNat_le.1 hc.1
              have hc' := UInt32.lt_iff_toNat_lt.1 hc.2
              have hne : c.toNat ≠ 2 := fun heq => hc2 (UInt32.toNat_inj.1 heq)
              rcases hcase with hcase | rfl
              · rw [Tried] at hcase
                omega
              · omega
          · have hne' : scl.toNat ≠ 2 := fun heq => hne (UInt32.toNat_inj.1 heq.symm)
            rw [turns] at hfuel ⊢
            split_ifs at hfuel ⊢ <;> omega
      · have hnext : cur + 1 < fs.nFatent := UInt32.not_le.1 hwrap
        have hnext' := UInt32.lt_iff_toNat_lt.1 hnext
        simp only [hwrap, decide_false, Bool.false_eq_true, if_false, false_and]
        refine hlook (cur + 1) ⟨?_, hnext⟩ (fun c hc hused hcase => ?_) fun hne => ?_
        · rw [UInt32.le_iff_toNat_le]
          omega
        · by_cases hcc : c = cur + 1
          · rwa [hcc]
          · refine htried c hc ?_
            have hne : c.toNat ≠ cur.toNat + 1 := fun heq =>
              hcc (UInt32.toNat_inj.1 (heq.trans hsucc.symm))
            rw [Tried]
            rcases hcase with hcase | heq
            · rw [Tried] at hcase
              omega
            · have hs'' := congrArg UInt32.toNat heq
              omega
        · have hne' : cur.toNat + 1 ≠ scl.toNat := fun heq =>
            hne (UInt32.toNat_inj.1 (hsucc.trans heq))
          rw [turns] at hfuel ⊢
          split_ifs at hfuel ⊢ <;> omega

theorem scanLoop_start {scl : UInt32} (h : fs.Chained dev cs) (hscl : 1 ≤ scl.toNat)
    (hs : scl < fs.nFatent) :
    ∃ r fs', scanLoop dev scl fs.nFatent.toNat fs scl = some (r, fs') ∧ Kept dev fs fs' ∧
      Searched dev fs r := by
  have hs' := UInt32.lt_iff_toNat_lt.1 hs
  refine scanLoop_spec h hscl hs hscl hs (fun c _ ht => ?_) ?_
  · rw [Tried] at ht
    omega
  · rw [turns]
    split_ifs <;> omega

theorem findFree_spec (clst : UInt32) {scl : UInt32} (h : fs.Chained dev cs)
    (hscl : 1 ≤ scl.toNat) (hs : scl < fs.nFatent) :
    ∃ r fs', fs.findFree dev clst scl = some (r, fs') ∧ Kept dev fs fs' ∧ Searched dev fs r := by
  rw [findFree]
  by_cases heq : scl = clst
  · rw [if_pos heq]
    set ncl := if fs.nFatent ≤ scl + 1 then 2 else scl + 1 with hncl
    have hin : 2 ≤ ncl ∧ ncl < fs.nFatent := by
      have hs' := UInt32.lt_iff_toNat_lt.1 hs
      have hmax := fs.nFatent.toNat_lt
      rw [hncl]
      split_ifs with hwrap
      · exact ⟨by decide, h.valid.some_cluster⟩
      · refine ⟨?_, UInt32.not_le.1 hwrap⟩
        have hone : (1 : UInt32).toNat = 1 := rfl
        have htwo : (2 : UInt32).toNat = 2 := rfl
        rw [UInt32.le_iff_toNat_le, UInt32.toNat_add]
        omega
    obtain ⟨hk, hr⟩ := h.getFat hin
    rcases hget : fs.getFat dev ncl with ⟨v, fs₁⟩
    rw [hget] at hk hr
    simp only [hget]
    rcases hr with rfl | ⟨herr, hcell⟩
    · exact ⟨_, fs₁, if_pos (.inr rfl), hk, .inr (.inl rfl)⟩
    have hgo : ¬ (v = 1 ∨ v = 0xFFFFFFFF) := not_or.2 ⟨h.value_ne_one hcell, herr⟩
    rw [if_neg hgo]
    by_cases h0 : v = 0
    · refine ⟨_, fs₁, if_neg (not_not.2 h0), hk, .inl ⟨ncl, rfl, hin, ?_⟩⟩
      rw [hcell, cellOf, if_pos h0]
    · rw [if_pos h0]
      have hp := hk.worked.params_eq
      set scl' := if 2 ≤ fs₁.lastClst ∧ fs₁.lastClst < fs₁.nFatent then fs₁.lastClst else scl
        with hscl'
      have hrange : 1 ≤ scl'.toNat ∧ scl' < fs₁.nFatent := by
        rw [hscl']
        split_ifs with hl
        · exact ⟨Nat.le_of_succ_le (UInt32.le_iff_toNat_le.1 hl.1), hl.2⟩
        · exact ⟨hscl, by rwa [hp]⟩
      obtain ⟨r, fs', he, hk', hsearch⟩ := scanLoop_start (hk.chained h) hrange.1 hrange.2
      exact ⟨r, fs', he, ⟨hk.worked.trans hk'.worked,
        fun c => (hk'.cell_eq c).trans (hk.cell_eq c), hk'.info_eq.trans hk.info_eq⟩,
        hk.searched hsearch⟩
  · rw [if_neg heq]
    exact scanLoop_start h hscl hs

/-! ### Making a chain longer -/

variable (dev) in
theorem countUsed_worked (fs : Volume D) (ncl : UInt32) : Worked dev fs (fs.countUsed ncl) :=
  ⟨rfl, fun h => ⟨h.clean, h.dirty⟩, fun _ _ _ _ => rfl, fun _ _ _ h => h⟩

theorem countUsed_tallied (hv : fs.Valid) (hfree : fs.freeClst ≠ 0) (ncl : UInt32)
    (hlen : cs'.flatten.length = cs.flatten.length + 1) :
    Tallied fs cs (fs.countUsed ncl) cs' := by
  have hsub := toNat_nFatent_sub hv
  have hpos : fs.freeClst.toNat ≠ 0 := fun h0 => hfree (UInt32.toNat_inj.1 h0)
  have hone : (1 : UInt32).toNat = 1 := rfl
  have hval : (fs.countUsed ncl).freeClst.toNat =
      if fs.freeClst.toNat ≤ fs.nFatent.toNat - 2 then fs.freeClst.toNat - 1
      else fs.freeClst.toNat := by
    change (if fs.freeClst ≤ fs.nFatent - 2 then fs.freeClst - 1 else fs.freeClst).toNat = _
    have hiff : fs.freeClst ≤ fs.nFatent - 2 ↔ fs.freeClst.toNat ≤ fs.nFatent.toNat - 2 := by
      rw [UInt32.le_iff_toNat_le, hsub]
    by_cases hle : fs.freeClst.toNat ≤ fs.nFatent.toNat - 2
    · rw [if_pos (hiff.2 hle), if_pos hle]
      exact UInt32.toNat_sub_of_le _ _ (by rw [UInt32.le_iff_toNat_le]; omega)
    · rw [if_neg (mt hiff.1 hle), if_neg hle]
  have hn : (fs.countUsed ncl).nFatent = fs.nFatent := rfl
  constructor
  · intro h
    rw [Counted] at h
    rw [Counted, hval, hn]
    split_ifs <;> omega
  · intro h
    rw [CountedExactly] at h
    rw [CountedExactly, hval, hn]
    split_ifs <;> omega

/-- `create_chain` from a free cluster on, for a chain of its own. -/
theorem linkFree_new {c : UInt32} (h : fs.Chained dev cs)
    (hin : 2 ≤ c ∧ c < fs.nFatent) (hc : fs.cell dev c = .free) (hfree : fs.freeClst ≠ 0) :
    Worked dev fs (fs.linkFree dev 0 c).2 ∧
      (((fs.linkFree dev 0 c).1 = c ∧ (fs.linkFree dev 0 c).2.Chained dev ([c] :: cs) ∧
          Tallied fs cs (fs.linkFree dev 0 c).2 ([c] :: cs)) ∨
        ((fs.linkFree dev 0 c).1 = 0xFFFFFFFF ∧ (Untorn fs.toFatParams →
          (fs.linkFree dev 0 c).2.Chained dev cs ∧
            Tallied fs cs (fs.linkFree dev 0 c).2 cs))) := by
  obtain ⟨hw₁, hi₁, hres⟩ := h.putFat hin 0xFFFFFFFF
  rw [linkFree]
  rcases h₁ : fs.putFat dev c 0xFFFFFFFF with ⟨res, fs₁⟩
  rw [h₁] at hw₁ hi₁ hres
  rcases hres with ⟨rfl, hcells⟩ | ⟨rfl, hcells⟩
  · have hlaid : Laid (fs₁.cell dev) ([c] :: cs) := by
      refine (h.laid.alloc hc).congr fun d => ?_
      rw [hcells, cellOf_end h.valid]
    have hok₁ := h.of_laid hw₁ hlaid
    have hw₂ := fs₁.countUsed_worked dev c
    have ht₁ : Tallied fs cs fs₁ cs := .of_eq hw₁.params_eq hi₁ rfl
    refine ⟨hw₁.trans hw₂, .inl ⟨rfl, hok₁.of_laid hw₂ hlaid, ht₁.trans ?_⟩⟩
    refine countUsed_tallied hok₁.valid (by rwa [hi₁]) c ?_
    rw [List.flatten_cons, List.length_append, List.length_singleton, Nat.add_comm]
  · exact ⟨hw₁, .inr ⟨rfl, fun hu => ⟨h.of_laid hw₁ (h.laid.congr (hcells hu)),
      .of_eq hw₁.params_eq hi₁ rfl⟩⟩⟩

/-- `create_chain` from a free cluster on, for the end of a chain. An error of the disk may
leave the new cluster in use without being in that chain. -/
theorem linkFree_stretch {a c : UInt32} {l : List UInt32}
    (h : fs.Chained dev ((l ++ [a]) :: cs))
    (hin : 2 ≤ c ∧ c < fs.nFatent) (hc : fs.cell dev c = .free) (hfree : fs.freeClst ≠ 0) :
    Worked dev fs (fs.linkFree dev a c).2 ∧
      (((fs.linkFree dev a c).1 = c ∧
          (fs.linkFree dev a c).2.Chained dev ((l ++ [a, c]) :: cs) ∧
          Tallied fs ((l ++ [a]) :: cs) (fs.linkFree dev a c).2 ((l ++ [a, c]) :: cs)) ∨
        ((fs.linkFree dev a c).1 = 0xFFFFFFFF ∧ (Untorn fs.toFatParams →
          (((fs.linkFree dev a c).2.Chained dev ((l ++ [a]) :: cs) ∧
              Tallied fs ((l ++ [a]) :: cs) (fs.linkFree dev a c).2 ((l ++ [a]) :: cs)) ∨
            ((fs.linkFree dev a c).2.Chained dev ([c] :: (l ++ [a]) :: cs) ∧
              (fs.Counted ((l ++ [a]) :: cs) →
                (fs.linkFree dev a c).2.Counted ([c] :: (l ++ [a]) :: cs))))))) := by
  have hina := h.inRange (c := a) (by simp)
  obtain ⟨hw₁, hi₁, hres⟩ := h.putFat hin 0xFFFFFFFF
  rw [linkFree]
  rcases h₁ : fs.putFat dev c 0xFFFFFFFF with ⟨res, fs₁⟩
  rw [h₁] at hw₁ hi₁ hres
  rcases hres with ⟨rfl, hcells⟩ | ⟨rfl, hcells⟩
  · have hlaid₁ : Laid (fs₁.cell dev) ([c] :: (l ++ [a]) :: cs) := by
      refine (h.laid.alloc hc).congr fun d => ?_
      rw [hcells, cellOf_end h.valid]
    have hok₁ := h.of_laid hw₁ hlaid₁
    have hp₁ := hw₁.params_eq
    obtain ⟨hw₂, hi₂, hres₂⟩ := hok₁.putFat (c := a) (by rw [hp₁]; exact hina) c
    have hne : a ≠ 0 := by
      have h2 := hina.1
      grind
    simp only [if_pos hne]
    rcases h₂ : fs₁.putFat dev a c with ⟨res₂, fs₂⟩
    rw [h₂] at hw₂ hi₂ hres₂
    rcases hres₂ with ⟨rfl, hcells₂⟩ | ⟨rfl, hcells₂⟩
    · have hlaid₂ : Laid (fs₂.cell dev) ((l ++ [a, c]) :: cs) := by
        refine (hlaid₁.perm (List.Perm.swap _ _ _)).join.congr fun d => ?_
        have hn₁ : fs₁.nFatent = fs.nFatent := congrArg FatParams.nFatent hp₁
        rw [hcells₂, cellOf_link hok₁.valid hin.1 (by rw [hn₁]; exact hin.2)]
      have hok₂ := hok₁.of_laid hw₂ hlaid₂
      have hw₃ := fs₂.countUsed_worked dev c
      have hw := (hw₁.trans hw₂).trans hw₃
      have ht : Tallied fs ((l ++ [a]) :: cs) fs₂ ((l ++ [a]) :: cs) :=
        .of_eq (hw₁.trans hw₂).params_eq (hi₂.trans hi₁) rfl
      refine ⟨hw, .inl ⟨rfl, hok₂.of_laid hw₃ hlaid₂, ht.trans ?_⟩⟩
      refine countUsed_tallied hok₂.valid (by rwa [hi₂, hi₁]) c ?_
      simp only [List.flatten_cons, List.length_append, List.length_cons, List.length_nil]
      omega
    · refine ⟨hw₁.trans hw₂, .inr ⟨rfl, fun hu => .inr ⟨?_, fun hcount => ?_⟩⟩⟩
      · exact hok₁.of_laid hw₂ (hlaid₁.congr (hcells₂ (by rwa [hp₁])))
      · rw [Counted] at hcount
        change fs₂.Counted _
        rw [Counted, (hw₁.trans hw₂).params_eq, hi₂, hi₁]
        rw [List.flatten_cons, List.length_append]
        omega
  · exact ⟨hw₁, .inr ⟨rfl, fun hu => .inl ⟨h.of_laid hw₁ (h.laid.congr (hcells hu)),
      .of_eq hw₁.params_eq hi₁ rfl⟩⟩⟩

/-- The ways in which `create_chain` ends once it knows where to start from. -/
theorem allocate_cases (clst : UInt32) {scl : UInt32} (h : fs.Chained dev cs)
    (hscl : 1 ≤ scl.toNat) (hs : scl < fs.nFatent) :
    (fs.freeClst = 0 ∧ fs.allocate dev clst scl = some (0, fs)) ∨
    ∃ fs₁, Kept dev fs fs₁ ∧ fs.freeClst ≠ 0 ∧
      ((∃ c, (2 ≤ c ∧ c < fs.nFatent) ∧ fs.cell dev c = .free ∧
          fs.allocate dev clst scl = some (fs₁.linkFree dev clst c)) ∨
        fs.allocate dev clst scl = some (0xFFFFFFFF, fs₁) ∨
        (fs.allocate dev clst scl = some (0, fs₁) ∧
          ∀ c, 2 ≤ c ∧ c < fs.nFatent → fs.cell dev c ≠ .free)) := by
  rw [allocate]
  by_cases hfree : fs.freeClst = 0
  · exact .inl ⟨hfree, if_pos hfree⟩
  obtain ⟨r, fs₁, he, hk, hsearch⟩ := findFree_spec clst h hscl hs
  refine .inr ⟨fs₁, hk, hfree, ?_⟩
  rw [if_neg hfree, he]
  rcases hsearch with ⟨c, rfl, hin, hc⟩ | rfl | ⟨rfl, hfull⟩
  · exact .inl ⟨c, hin, hc, rfl⟩
  · exact .inr (.inl rfl)
  · exact .inr (.inr ⟨rfl, hfull⟩)

/-- `create_chain` for a new chain: a cluster that was free, and none only if none was. -/
theorem createChain_new (h : fs.Chained dev cs) :
    ∃ r fs', fs.createChain dev 0 = some (r, fs') ∧ Worked dev fs fs' ∧
      (((2 ≤ r ∧ r < fs.nFatent) ∧ fs.cell dev r = .free ∧ fs'.Chained dev ([r] :: cs) ∧
          Tallied fs cs fs' ([r] :: cs)) ∨
        (r = 0 ∧ (fs.Counted cs → ∀ c, 2 ≤ c ∧ c < fs.nFatent → fs.cell dev c ≠ .free) ∧
          fs'.Chained dev cs ∧ Tallied fs cs fs' cs) ∨
        (r = 0xFFFFFFFF ∧
          (Untorn fs.toFatParams → fs'.Chained dev cs ∧ Tallied fs cs fs' cs))) := by
  have hstart : ∃ scl, 1 ≤ scl.toNat ∧ scl < fs.nFatent ∧
      fs.createChain dev 0 = fs.allocate dev 0 scl := by
    refine ⟨_, ?_, ?_, if_pos rfl⟩
    · split_ifs with hl
      · decide
      · rw [not_or] at hl
        exact Nat.one_le_iff_ne_zero.2 fun h0 => hl.1 (UInt32.toNat_inj.1 h0)
    · split_ifs with hl
      · exact UInt32.lt_trans (by decide) h.valid.some_cluster
      · rw [not_or] at hl
        exact UInt32.not_le.1 hl.2
  obtain ⟨scl, hscl, hs, he⟩ := hstart
  rw [he]
  rcases allocate_cases 0 h hscl hs with ⟨h0, he⟩ | ⟨fs₁, hk, hfree, hcase⟩
  · refine ⟨_, fs, he, Worked.refl fs, .inr (.inl ⟨rfl, fun hcount c hc => ?_, h,
      Tallied.refl fs cs⟩)⟩
    refine h.full ?_ hc
    rw [Counted, h0] at hcount
    change _ < 0 ∨ _ ≤ 0 + _ at hcount
    omega
  have hp := hk.worked.params_eq
  rcases hcase with ⟨c, hin, hc, he⟩ | he | ⟨he, hfull⟩
  · obtain ⟨hw, hres⟩ := linkFree_new (c := c) (hk.chained h)
      (by rw [hp]; exact hin) (by rw [hk.cell_eq]; exact hc) (by rw [hk.info_eq]; exact hfree)
    refine ⟨(fs₁.linkFree dev 0 c).1, (fs₁.linkFree dev 0 c).2, he, hk.worked.trans hw, ?_⟩
    rcases hres with ⟨hr, hok, ht⟩ | ⟨hr, hleft⟩
    · rw [hr]
      exact .inl ⟨hin, hc, hok, (hk.tallied cs).trans ht⟩
    · refine .inr (.inr ⟨hr, fun hu => ?_⟩)
      obtain ⟨hok, ht⟩ := hleft (by rwa [hp])
      exact ⟨hok, (hk.tallied cs).trans ht⟩
  · exact ⟨_, fs₁, he, hk.worked, .inr (.inr ⟨rfl, fun _ => ⟨hk.chained h, hk.tallied cs⟩⟩)⟩
  · exact ⟨_, fs₁, he, hk.worked, .inr (.inl ⟨rfl, fun _ => hfull, hk.chained h, hk.tallied cs⟩)⟩

/-- `create_chain` for the last cluster of a chain. -/
theorem createChain_stretch {a : UInt32} {l : List UInt32}
    (h : fs.Chained dev ((l ++ [a]) :: cs)) :
    ∃ r fs', fs.createChain dev a = some (r, fs') ∧ Worked dev fs fs' ∧
      (((2 ≤ r ∧ r < fs.nFatent) ∧ fs.cell dev r = .free ∧
          fs'.Chained dev ((l ++ [a, r]) :: cs) ∧
          Tallied fs ((l ++ [a]) :: cs) fs' ((l ++ [a, r]) :: cs)) ∨
        (r = 0 ∧ (fs.Counted ((l ++ [a]) :: cs) →
            ∀ c, 2 ≤ c ∧ c < fs.nFatent → fs.cell dev c ≠ .free) ∧
          fs'.Chained dev ((l ++ [a]) :: cs) ∧
          Tallied fs ((l ++ [a]) :: cs) fs' ((l ++ [a]) :: cs)) ∨
        (r = 0xFFFFFFFF ∧ (Untorn fs.toFatParams →
          (fs'.Chained dev ((l ++ [a]) :: cs) ∧
              Tallied fs ((l ++ [a]) :: cs) fs' ((l ++ [a]) :: cs)) ∨
            ∃ c, fs'.Chained dev ([c] :: (l ++ [a]) :: cs) ∧
              (fs.Counted ((l ++ [a]) :: cs) →
                fs'.Counted ([c] :: (l ++ [a]) :: cs))))) := by
  have hin := h.inRange (c := a) (by simp)
  have hne : a ≠ 0 := by
    have h2 := hin.1
    grind
  have hstop : fs.cell dev a = .stop :=
    (path_append.1 (h.laid.path (l ++ [a]) List.mem_cons_self)).2.1
  obtain ⟨hk₀, hr⟩ := h.getFat hin
  rw [createChain, if_neg hne]
  rcases hget : fs.getFat dev a with ⟨v, fs₀⟩
  rw [hget] at hk₀ hr
  simp only
  rcases hr with rfl | ⟨herr, hcell⟩
  · refine ⟨_, fs₀, ?_, hk₀.worked, .inr (.inr ⟨rfl, fun _ => .inl
      ⟨hk₀.chained h, hk₀.tallied _⟩⟩)⟩
    rw [if_neg (by decide), if_pos rfl]
  have hp₀ := hk₀.worked.params_eq
  obtain ⟨hv0, hvn⟩ := cellOf_eq_stop (hcell.symm.trans hstop)
  have hv2 : ¬ v < 2 := by
    have hmin := h.valid.some_cluster
    grind
  rw [if_neg hv2, if_neg herr, if_neg (by rw [hp₀]; exact hvn)]
  have h₀ := hk₀.chained h
  have ha1 : 1 ≤ a.toNat := Nat.le_of_succ_le (UInt32.le_iff_toNat_le.1 hin.1)
  rcases allocate_cases a h₀ ha1 (by rw [hp₀]; exact hin.2) with ⟨h0, he⟩ | ⟨fs₁, hk₁, hfree, hcase⟩
  · refine ⟨_, fs₀, he, hk₀.worked, .inr (.inl ⟨rfl, fun hcount c hc => ?_, h₀,
      hk₀.tallied _⟩)⟩
    refine h.full ?_ hc
    rw [hk₀.info_eq] at h0
    rw [Counted, h0] at hcount
    change _ < 0 ∨ _ ≤ 0 + _ at hcount
    omega
  have hk : Kept dev fs fs₁ := ⟨hk₀.worked.trans hk₁.worked,
    fun c => (hk₁.cell_eq c).trans (hk₀.cell_eq c), hk₁.info_eq.trans hk₀.info_eq⟩
  have hp := hk.worked.params_eq
  have hn₀ : fs₀.nFatent = fs.nFatent := congrArg FatParams.nFatent hp₀
  simp only [hk₀.cell_eq, hn₀] at hcase
  rcases hcase with ⟨c, hinc, hc, he⟩ | he | ⟨he, hfull⟩
  · obtain ⟨hw, hres⟩ := linkFree_stretch (c := c) (hk.chained h)
      (by rw [hp]; exact hinc) (by rw [hk.cell_eq]; exact hc) (by rwa [hk₁.info_eq])
    refine ⟨(fs₁.linkFree dev a c).1, (fs₁.linkFree dev a c).2, he, hk.worked.trans hw, ?_⟩
    rcases hres with ⟨hr, hok, ht⟩ | ⟨hr, hleft⟩
    · rw [hr]
      exact .inl ⟨hinc, hc, hok, (hk.tallied _).trans ht⟩
    · refine .inr (.inr ⟨hr, fun hu => ?_⟩)
      rcases hleft (by rwa [hp]) with ⟨hok, ht⟩ | ⟨hok, hcount⟩
      · exact .inl ⟨hok, (hk.tallied _).trans ht⟩
      · exact .inr ⟨c, hok, fun hn => hcount ((hk.tallied _).counted hn)⟩
  · exact ⟨_, fs₁, he, hk.worked, .inr (.inr ⟨rfl, fun _ => .inl
      ⟨hk.chained h, hk.tallied _⟩⟩)⟩
  · exact ⟨_, fs₁, he, hk.worked, .inr (.inl ⟨rfl, fun _ => hfull, hk.chained h,
      hk.tallied _⟩)⟩

/-- A FAT of zeros has no chains. -/
theorem chained_nil (hv : fs.Valid) (hc : fs.Coherent dev) (hmounted : fs.fsType ≠ .unmounted)
    (hblank : ∀ s, fs.seen dev s = Vector.replicate 512 0) : fs.Chained dev [] where
  valid := hv
  coherent := hc
  mounted := hmounted
  laid := by
    have hbyte : fs.fatByte dev = fun _ => 0 := by
      funext k
      have hlt : k % 512 < 512 := Nat.mod_lt _ (by decide)
      have hzero : Sector.byte (Vector.replicate 512 0) (k % 512) = 0 := by
        simp [Sector.byte, hlt]
      exact (congrArg (fun s => Sector.byte s (k % 512)) (hblank _)).trans hzero
    have hcell (c : UInt32) : fs.cell dev c = .free := by
      have hentry : fs.entry dev c.toNat = 0 := by
        rw [entry, hbyte]
        cases ht : fs.fsType with
        | unmounted => exact absurd ht hmounted
        | fat12 =>
            rw [fatEntry]
            split_ifs
            · rfl
            · rfl
        | fat16 =>
            have hword : (ldWord (fun _ => 0) 0).toUInt32 = 0 := by decide
            exact hword
        | fat32 =>
            have hdword : ldDword (fun _ => 0) 0 &&& 0x0FFFFFFF = 0 := by decide
            exact hdword
      rw [cell, hentry]
      split_ifs
      · rfl
      · rfl
    refine ⟨fun l hl => absurd hl List.not_mem_nil, List.nodup_nil, fun c => ?_⟩
    rw [hcell]
    simp

theorem floppy_chained : floppy.Chained Device.ofFun [] :=
  chained_nil floppy_valid floppy_coherent (by decide) fun _ =>
    congrFun (Function.update_eq_self_iff.2 rfl) _

/-- `create_chain` for a cluster that has one after it gives that one. -/
theorem createChain_middle {a b : UInt32} {l m : List UInt32}
    (h : fs.Chained dev ((l ++ a :: b :: m) :: cs)) :
    ∃ r fs', fs.createChain dev a = some (r, fs') ∧ Kept dev fs fs' ∧
      (r = b ∨ r = 0xFFFFFFFF) := by
  have hin := h.inRange (c := a) (by simp)
  have hinb := h.inRange (c := b) (by simp)
  have hne : a ≠ 0 := by
    have h2 := hin.1
    grind
  have hlink : fs.cell dev a = .link b :=
    (path_append.1 (h.laid.path (l ++ a :: b :: m) List.mem_cons_self)).2.1
  obtain ⟨hk₀, hr⟩ := h.getFat hin
  rw [createChain, if_neg hne]
  rcases hget : fs.getFat dev a with ⟨v, fs₀⟩
  rw [hget] at hk₀ hr
  simp only
  rcases hr with rfl | ⟨herr, hcell⟩
  · refine ⟨_, fs₀, ?_, hk₀, .inr rfl⟩
    rw [if_neg (by decide), if_pos rfl]
  obtain ⟨rfl, hvn⟩ := cellOf_eq_link (hcell.symm.trans hlink)
  refine ⟨v, fs₀, ?_, hk₀, .inl rfl⟩
  rw [if_neg (UInt32.not_lt.2 hinb.1), if_neg herr, if_pos]
  rw [hk₀.worked.params_eq]
  exact hvn

end Volume

/-! ### Runs -/

/-- A volume, and the clusters of its files and directories. -/
structure FiledVolume (D : Type*) where
  volume : Volume D
  files : List (List UInt32)

/-- A call for a new chain, for one more cluster of the chain `l ++ [a]`, for the removal of
what is behind the cluster `a`, or for the removal of a whole chain. -/
inductive ChainCall where
  | create
  | grow (l : List UInt32) (a : UInt32)
  | cut (l : List UInt32) (a c : UInt32) (m : List UInt32)
  | remove (c : UInt32) (m : List UInt32)
  deriving DecidableEq, Repr

namespace FiledVolume

variable {D : Type*} (dev : Device D UInt32 Sector)

/-- The chain that a call is for, if it is for one. -/
def target : ChainCall → Option (List UInt32)
  | .create => none
  | .grow l a => some (l ++ [a])
  | .cut l a c m => some (l ++ a :: c :: m)
  | .remove c m => some (c :: m)

/-- What a call returns: a cluster or an error of `create_chain`, or the result of
`remove_chain`. -/
def perform (fs : Volume D) : ChainCall → Option ((UInt32 ⊕ FResult) × Volume D)
  | .create => (fs.createChain dev 0).map fun r => (.inl r.1, r.2)
  | .grow _ a => (fs.createChain dev a).map fun r => (.inl r.1, r.2)
  | .cut _ a c _ => (fs.removeChain dev c a).map fun r => (.inr r.1, r.2)
  | .remove c _ => (fs.removeChain dev c 0).map fun r => (.inr r.1, r.2)

/-- The files after a call, as the caller takes its result. A file stays cut also when the
rest of its chain could not be freed, and a removed file is gone in any case. -/
def filesAfter (files : List (List UInt32)) (fs : Volume D) :
    ChainCall → UInt32 ⊕ FResult → List (List UInt32)
  | .create, .inl r => if 2 ≤ r ∧ r < fs.nFatent then [r] :: files else files
  | .grow l a, .inl r =>
      if 2 ≤ r ∧ r < fs.nFatent then (l ++ [a, r]) :: files.erase (l ++ [a]) else files
  | .cut l a c m, .inr _ =>
      if fs.cell dev a = .stop then (l ++ [a]) :: files.erase (l ++ a :: c :: m) else files
  | .remove c m, .inr _ => files.erase (c :: m)
  | _, _ => files

/-- One call; there is none for a chain that no file has. -/
def step (s : FiledVolume D) (call : ChainCall) : Option (FiledVolume D) :=
  if ∀ l ∈ target call, l ∈ s.files then
    (perform dev s.volume call).map fun r => ⟨r.2, filesAfter dev s.files r.2 call r.1⟩
  else none

/-- The files have chains of their own, and so have the clusters `lost` that are in use
without being in a file. -/
structure Sound (lost : List (List UInt32)) (s : FiledVolume D) : Prop where
  chained : s.volume.Chained dev (s.files ++ lost)
  counted : s.volume.Counted (s.files ++ lost)

/-- The files have chains of their own. -/
def FilesSound (s : FiledVolume D) : Prop := ∃ lost, Sound dev lost s

/-- Moreover, the number of free clusters is right. -/
def SoundExactly (lost : List (List UInt32)) (s : FiledVolume D) : Prop :=
  Sound dev lost s ∧ s.volume.CountedExactly (s.files ++ lost)

variable {dev} {s s' : FiledVolume D} {lost : List (List UInt32)}

theorem perm_target {files : List (List UInt32)} {l : List UInt32} (hl : l ∈ files)
    (lost : List (List UInt32)) : (files ++ lost).Perm (l :: (files.erase l ++ lost)) :=
  (List.perm_cons_erase hl).append_right lost

/-- The call has met an error of the disk. -/
def Failed (answer : UInt32 ⊕ FResult) : Prop :=
  answer = .inl 0xFFFFFFFF ∨ answer = .inr .diskErr

instance (answer : UInt32 ⊕ FResult) : Decidable (Failed answer) :=
  inferInstanceAs (Decidable (answer = .inl 0xFFFFFFFF ∨ answer = .inr .diskErr))

/-- What a call may lead to: files that are still sound, if the call failed only without
tearing an entry, and nothing lost and nothing miscounted if the disk reported no error. -/
structure Outcome (dev : Device D UInt32 Sector) (lost : List (List UInt32)) (s : FiledVolume D)
    (answer : UInt32 ⊕ FResult) (s' : FiledVolume D) : Prop where
  worked : Volume.Worked dev s.volume s'.volume
  sound : Volume.Untorn s.volume.toFatParams ∨ ¬ Failed answer → s'.FilesSound dev
  clean : ¬ Failed answer → s'.Sound dev lost ∧
    (s.volume.CountedExactly (s.files ++ lost) → s'.volume.CountedExactly (s'.files ++ lost))

theorem Sound.of_perm {fs' : Volume D} {files' cs cs' lost' : List (List UInt32)}
    (h : s.Sound dev lost) (hp : (s.files ++ lost).Perm cs) (hp' : cs'.Perm (files' ++ lost'))
    (hok : fs'.Chained dev cs') (hcount : s.volume.Counted cs → fs'.Counted cs') :
    Sound dev lost' ⟨fs', files'⟩ where
  chained := hok.of_laid (Volume.Worked.refl fs') (hok.laid.perm hp')
  counted := by
    have hn : s.volume.Counted cs := by
      rw [Volume.Counted, ← hp.flatten.length_eq]
      exact h.counted
    rw [Volume.Counted, ← hp'.flatten.length_eq]
    exact hcount hn

/-- A chain that no file has is lost. -/
theorem Sound.of_perm_lost {fs' : Volume D} {files' cs cs' : List (List UInt32)}
    {m : List UInt32} (h : s.Sound dev lost) (hp : (s.files ++ lost).Perm cs)
    (hp' : cs'.Perm (files' ++ lost)) (hok : fs'.Chained dev (m :: cs'))
    (hcount : s.volume.Counted cs → fs'.Counted (m :: cs')) :
    Sound dev (m :: lost) ⟨fs', files'⟩ :=
  h.of_perm hp ((hp'.cons m).trans List.perm_middle.symm) hok hcount

theorem Outcome.of_tallied {fs' : Volume D} {files' cs cs' : List (List UInt32)}
    (h : s.Sound dev lost) (answer : UInt32 ⊕ FResult) (hw : Volume.Worked dev s.volume fs')
    (hp : (s.files ++ lost).Perm cs) (hp' : cs'.Perm (files' ++ lost))
    (hok : fs'.Chained dev cs') (ht : Volume.Tallied s.volume cs fs' cs') :
    Outcome dev lost s answer ⟨fs', files'⟩ := by
  have hsound := h.of_perm hp hp' hok ht.counted
  refine ⟨hw, fun _ => ⟨lost, hsound⟩, fun _ => ⟨hsound, fun hexact => ?_⟩⟩
  rw [Volume.CountedExactly, ← hp'.flatten.length_eq]
  refine ht.exactly ?_
  rwa [Volume.CountedExactly, ← hp.flatten.length_eq]

theorem Outcome.of_failed {answer : UInt32 ⊕ FResult} (hf : Failed answer)
    (hw : Volume.Worked dev s.volume s'.volume)
    (hsound : Volume.Untorn s.volume.toFatParams → ∃ lost', s'.Sound dev lost') :
    Outcome dev lost s answer s' :=
  ⟨hw, fun h => h.elim hsound (absurd hf), fun hn => absurd hf hn⟩

theorem not_inRange (fs : Volume D) {r : UInt32} (hr : r = 0xFFFFFFFF ∨ r = 0) :
    ¬ (2 ≤ r ∧ r < fs.nFatent) := by
  rintro ⟨h2, hn⟩
  rcases hr with rfl | rfl
  · have hlt : (0xFFFFFFFF : UInt32).toNat < fs.nFatent.toNat := UInt32.lt_iff_toNat_lt.1 hn
    have hmax := fs.nFatent.toNat_lt
    have hval : (0xFFFFFFFF : UInt32).toNat = 4294967295 := rfl
    omega
  · exact absurd h2 (by decide)

/-- The call returns with such an outcome. -/
def Returns (dev : Device D UInt32 Sector) (lost : List (List UInt32)) (s : FiledVolume D)
    (call : ChainCall) : Prop :=
  ∃ answer fs', perform dev s.volume call = some (answer, fs') ∧
    Outcome dev lost s answer ⟨fs', filesAfter dev s.files fs' call answer⟩

theorem create_returns (h : s.Sound dev lost) : Returns dev lost s .create := by
  obtain ⟨r, fs', he, hw, hres⟩ := Volume.createChain_new h.chained
  refine ⟨.inl r, fs', by rw [perform, he, Option.map_some], ?_⟩
  have hn : fs'.nFatent = s.volume.nFatent := congrArg FatParams.nFatent hw.params_eq
  rw [filesAfter, hn]
  rcases hres with ⟨hin, -, hok, htally⟩ | ⟨hr, -, hok, htally⟩ | ⟨hr, hleft⟩
  · rw [if_pos hin]
    exact .of_tallied h _ hw (.refl _) (.refl _) hok htally
  · rw [if_neg (not_inRange _ (.inr hr))]
    exact .of_tallied h _ hw (.refl _) (.refl _) hok htally
  · rw [if_neg (not_inRange _ (.inl hr))]
    refine .of_failed (.inl (congrArg _ hr)) hw fun hu => ?_
    obtain ⟨hok, htally⟩ := hleft hu
    exact ⟨_, h.of_perm (.refl _) (.refl _) hok htally.counted⟩

theorem grow_returns (h : s.Sound dev lost) {l : List UInt32} {a : UInt32}
    (hl : l ++ [a] ∈ s.files) : Returns dev lost s (.grow l a) := by
  have hp := perm_target hl lost
  have hok := h.chained.of_laid (Volume.Worked.refl _) (h.chained.laid.perm hp)
  obtain ⟨r, fs', he, hw, hres⟩ := Volume.createChain_stretch hok
  refine ⟨.inl r, fs', by rw [perform, he, Option.map_some], ?_⟩
  have hn : fs'.nFatent = s.volume.nFatent := congrArg FatParams.nFatent hw.params_eq
  rw [filesAfter, hn]
  rcases hres with ⟨hin, -, hok', htally⟩ | ⟨hr, -, hok', htally⟩ | ⟨hr, hleft⟩
  · rw [if_pos hin]
    exact .of_tallied h _ hw hp (.refl _) hok' htally
  · rw [if_neg (not_inRange _ (.inr hr))]
    exact .of_tallied h _ hw hp hp.symm hok' htally
  · rw [if_neg (not_inRange _ (.inl hr))]
    refine .of_failed (.inl (congrArg _ hr)) hw fun hu => ?_
    rcases hleft hu with ⟨hok', htally⟩ | ⟨c, hok', hcount⟩
    · exact ⟨_, h.of_perm hp hp.symm hok' htally.counted⟩
    · exact ⟨_, h.of_perm_lost hp hp.symm hok' hcount⟩

theorem cut_returns (h : s.Sound dev lost) {l m : List UInt32} {a c : UInt32}
    (hl : l ++ a :: c :: m ∈ s.files) : Returns dev lost s (.cut l a c m) := by
  have hp := perm_target hl lost
  have hok := h.chained.of_laid (Volume.Worked.refl _) (h.chained.laid.perm hp)
  obtain ⟨res, fs', he, hw, hres⟩ := Volume.removeChain_tail hok
  refine ⟨.inr res, fs', by rw [perform, he, Option.map_some], ?_⟩
  rw [filesAfter]
  rcases hres with ⟨-, hok', htally⟩ | ⟨hr, hleft⟩
  · have hstop : fs'.cell dev a = .stop :=
      (path_append.1 (hok'.laid.path (l ++ [a]) List.mem_cons_self)).2.1
    rw [if_pos hstop]
    exact .of_tallied h _ hw hp (.refl _) hok' htally
  · refine .of_failed (.inr (congrArg _ hr)) hw fun hu => ?_
    rcases hleft hu with ⟨hok', htally⟩ | ⟨m', -, hok', htally⟩
    · have hlink : fs'.cell dev a = .link c :=
        (path_append.1 (hok'.laid.path (l ++ a :: c :: m) List.mem_cons_self)).2.1
      rw [if_neg (by rw [hlink]; simp)]
      exact ⟨_, h.of_perm hp hp.symm hok' htally.counted⟩
    · have hstop : fs'.cell dev a = .stop :=
        (path_append.1 (hok'.laid.path (l ++ [a])
          (List.mem_cons_of_mem _ List.mem_cons_self))).2.1
      rw [if_pos hstop]
      exact ⟨_, h.of_perm_lost hp (.refl _) hok' htally.counted⟩

theorem remove_returns (h : s.Sound dev lost) {c : UInt32} {m : List UInt32}
    (hl : c :: m ∈ s.files) : Returns dev lost s (.remove c m) := by
  have hp := perm_target hl lost
  have hok := h.chained.of_laid (Volume.Worked.refl _) (h.chained.laid.perm hp)
  obtain ⟨res, fs', he, hw, hres⟩ := Volume.removeChain_head hok
  refine ⟨.inr res, fs', by rw [perform, he, Option.map_some], ?_⟩
  rw [filesAfter]
  rcases hres with ⟨-, hok', htally⟩ | ⟨hr, hleft⟩
  · exact .of_tallied h _ hw hp (.refl _) hok' htally
  · refine .of_failed (.inr (congrArg _ hr)) hw fun hu => ?_
    obtain ⟨m', -, hok', htally⟩ := hleft hu
    exact ⟨_, h.of_perm_lost hp (.refl _) hok' htally.counted⟩

/-- Every call returns, and leaves the files sound unless it tears an entry. -/
theorem perform_outcome (h : s.Sound dev lost) (call : ChainCall)
    (ht : ∀ l ∈ target call, l ∈ s.files) : Returns dev lost s call := by
  cases call with
  | create => exact create_returns h
  | grow l a => exact grow_returns h (ht _ rfl)
  | cut l a c m => exact cut_returns h (ht _ rfl)
  | remove c m => exact remove_returns h (ht _ rfl)

/-- A step is a call with its outcome. -/
theorem step_outcome {call : ChainCall} (h : s.Sound dev lost) (hstep : step dev s call = some s') :
    ∃ answer, perform dev s.volume call = some (answer, s'.volume) ∧
      Outcome dev lost s answer s' := by
  rw [step] at hstep
  split_ifs at hstep with htarget
  obtain ⟨answer, fs', he, hout⟩ := perform_outcome h call htarget
  rw [he, Option.map_some, Option.some_inj] at hstep
  exact ⟨answer, hstep ▸ he, hstep ▸ hout⟩

variable (dev) in
/-- The disk reports no error in the call. -/
def Succeeds (s : FiledVolume D) (call : ChainCall) : Prop :=
  ∀ answer fs', perform dev s.volume call = some (answer, fs') → ¬ Failed answer

variable (dev) in
/-- The call tears no entry: those of the volume are not of twelve bits, or the disk reports
no error. -/
def TearsNone (s : FiledVolume D) (call : ChainCall) : Prop :=
  Volume.Untorn s.volume.toFatParams ∨ Succeeds dev s call

theorem step_sound (s : FiledVolume D) (call : ChainCall) (s' : FiledVolume D)
    (h : FilesSound dev s) (hok : TearsNone dev s call) (hstep : step dev s call = some s') :
    FilesSound dev s' := by
  obtain ⟨lost, h⟩ := h
  obtain ⟨answer, he, hout⟩ := step_outcome h hstep
  exact hout.sound (hok.imp_right fun hsucceeds => hsucceeds _ _ he)

/-- In every run of `create_chain` and `remove_chain` that tears no entry, whatever the disk
reports, the files have chains of their own and no link leads to a free cluster; and every call
that is for a file returns. -/
theorem chains_sound (h : FilesSound dev s) {calls : List ChainCall}
    (hok : Transition.Along (TearsNone dev) (step dev) s calls)
    (hrun : Transition.run (step dev) s calls = some s') :
    FilesSound dev s' ∧
      ∀ call, (∀ l ∈ target call, l ∈ s'.files) → ∃ s'', step dev s' call = some s'' := by
  have hs' := hok.invariant step_sound h hrun
  refine ⟨hs', fun call htarget => ?_⟩
  obtain ⟨lost, hsound⟩ := hs'
  obtain ⟨answer, fs', he, -⟩ := perform_outcome hsound call htarget
  exact ⟨_, by rw [step, if_pos htarget, he, Option.map_some]⟩

/-- No run tears an entry that is not of twelve bits. -/
theorem tearsNone_of_untorn (h : FilesSound dev s) (hu : Volume.Untorn s.volume.toFatParams)
    (calls : List ChainCall) : Transition.Along (TearsNone dev) (step dev) s calls := by
  have hstep : ∀ s call s', FilesSound dev s ∧ Volume.Untorn s.volume.toFatParams →
      step dev s call = some s' → FilesSound dev s' ∧ Volume.Untorn s'.volume.toFatParams := by
    rintro s call s' ⟨h, hu⟩ hstep
    refine ⟨step_sound s call s' h (.inl hu) hstep, ?_⟩
    obtain ⟨lost, h⟩ := h
    obtain ⟨answer, -, hout⟩ := step_outcome h hstep
    rwa [hout.worked.params_eq]
  exact .of_invariant hstep (fun _ _ hs => .inl hs.2) ⟨h, hu⟩ calls

/-- A FAT of sixteen bits for 4088 clusters, in two copies. -/
def hardDiskFat : FatParams where
  fsType := .fat16
  nFats := 2
  csize := 1
  nFatent := 4090
  fsize := 16
  volbase := 0
  fatbase := 1
  database := 65

theorem hardDiskFat_valid : hardDiskFat.Valid where
  some_cluster := by decide
  entries := by decide
  room := by decide
  apart :=
    { visible := by
        intro s hs
        have hsub : s - 1 < 16 := hs
        refine ⟨?_, fun h => absurd h.1 (by decide), fun h => ?_⟩
        · rintro rfl
          exact absurd hsub (by decide)
        · have hmirror : s - 1 - 16 < 16 := h.2
          grind
      fsInfo := fun h => by cases h }

/-- A volume with such a FAT that is empty, on a disk whose transfers fail as scheduled. -/
def hardDisk (schedule : List Bool) : Volume (List Bool × (UInt32 → Sector)) where
  toFatParams := hardDiskFat
  lastClst := 254
  freeClst := 4088
  fsiFlag := 0x80
  wflag := false
  winsect := 0xFFFFFFFF
  win := Vector.replicate 512 0
  disk := (schedule, fun _ => Vector.replicate 512 0)

theorem hardDisk_sound (schedule : List Bool) :
    Sound Device.scheduled [] ⟨hardDisk schedule, []⟩ where
  chained :=
    Volume.chained_nil hardDiskFat_valid ⟨fun _ _ => rfl, fun h => by cases h⟩
      (fun h => by cases h) fun _ => congrFun (Function.update_eq_self_iff.2 rfl) _
  counted := by
    have hle : 4088 ≤ 4088 + 0 := le_refl 4088
    exact .inr hle

/-- The second call fails when it writes back the second sector of the FAT, and loses the cluster
256. -/
theorem chains_sound_hardDisk : ∃ s', Transition.run (step Device.scheduled)
      ⟨hardDisk [true, true, true, true, false], []⟩
      [.create, .grow [] 255, .remove 255 []] = some s' ∧
    s'.files = [] ∧ s'.volume.cell Device.scheduled 256 = .stop ∧
    FilesSound Device.scheduled s' := by
  have hrun : (Transition.run (step Device.scheduled)
      ⟨hardDisk [true, true, true, true, false], []⟩
      [.create, .grow [] 255, .remove 255 []]).map
        (fun s => (s.files, s.volume.cell Device.scheduled 256)) = some ([], .stop) := by
    decide +kernel
  obtain ⟨s', hs', heq⟩ := Option.map_eq_some_iff.1 hrun
  obtain ⟨hfiles, hcell⟩ := Prod.mk.inj heq
  have hsound : FilesSound Device.scheduled ⟨hardDisk [true, true, true, true, false], []⟩ :=
    ⟨[], hardDisk_sound _⟩
  exact ⟨s', hs', hfiles, hcell,
    (chains_sound hsound (tearsNone_of_untorn hsound (fun h => by cases h) _) hs').1⟩

theorem step_exact (lost : List (List UInt32)) (s : FiledVolume D) (call : ChainCall)
    (s' : FiledVolume D) (h : SoundExactly dev lost s) (hok : Succeeds dev s call)
    (hstep : step dev s call = some s') : SoundExactly dev lost s' := by
  obtain ⟨answer, he, hout⟩ := step_outcome h.1 hstep
  obtain ⟨hsound, hnext⟩ := hout.clean (hok answer _ he)
  exact ⟨hsound, hnext h.2⟩

theorem floppy_sound : SoundExactly Device.ofFun [] ⟨Volume.floppy, []⟩ where
  left :=
    { chained := Volume.floppy_chained
      counted := by
        have hle : 8 ≤ 8 + 0 := le_refl 8
        exact .inr hle }
  right := by
    rw [Volume.CountedExactly]
    rfl

end FiledVolume

end Catpilot
