import Catpilot.Fatfs.Core
import Catpilot.Transition.Run
import Mathlib.Data.List.Count
import Mathlib.Tactic.SplitIfs

/-!
# The lock table of FatFs

`chk_share`, `enq_share`, `inc_share`, `dec_share` and `clear_share` of `core/ff.c`: the
table of objects that are open, with a counter in which 0x100 stands for an object that is
open for writing. Over every run of opening, closing, removing and mounting, an object that
is open for writing is open once, as long as no object is open for reading 256 times. A
directory is open under another name than that of its entry, which `f_unlink` and `f_rename`
look for: they do not find it.
-/

namespace Catpilot

/-- `FF_FS_LOCK`. -/
def ffFsLock : ℕ := 32

/-- What names an object in the lock table: the volume, the directory and the offset in it. -/
structure ShareKey where
  fs : ℕ
  clu : UInt32
  ofs : UInt32
  deriving DecidableEq, Repr

/-- `FILESEM`; an entry without a volume is blank. -/
structure FileSem where
  fs : Option ℕ
  clu : UInt32
  ofs : UInt32
  ctr : ℕ
  deriving DecidableEq, Repr

/-- The counter of an object that is open for writing. -/
def writeCtr : ℕ := 0x100

/-- The access that a call asks for. -/
inductive ShareAccess where
  | read
  | write
  | delete
  deriving DecidableEq, Repr

/-- `Files`. -/
abbrev ShareTable := ℕ → FileSem

namespace ShareTable

variable (files : ShareTable)

/-- The entry is for the object. -/
def Matches (e : FileSem) (k : ShareKey) : Prop := e.fs = some k.fs ∧ e.clu = k.clu ∧ e.ofs = k.ofs

instance (e : FileSem) (k : ShareKey) : Decidable (Matches e k) :=
  inferInstanceAs (Decidable (e.fs = some k.fs ∧ e.clu = k.clu ∧ e.ofs = k.ofs))

/-- The search for an object. -/
def findObject (k : ShareKey) : Option ℕ :=
  (List.range ffFsLock).find? fun i => decide (Matches (files i) k)

/-- The search for a blank entry. -/
def findBlank : Option ℕ := (List.range ffFsLock).find? fun i => decide ((files i).fs = none)

/-- `chk_share`. -/
def chkShare (k : ShareKey) (acc : ShareAccess) : FResult :=
  match files.findObject k with
  | none => if files.findBlank = none ∧ acc ≠ .delete then .tooManyOpenFiles else .ok
  | some i => if acc ≠ .read ∨ (files i).ctr = writeCtr then .locked else .ok

/-- `enq_share`. -/
def enqShare : Bool := files.findBlank.isSome

/-- The end of `inc_share`, at the entry `i`. -/
def incAt (i : ℕ) (acc : ShareAccess) : ℕ × ShareTable :=
  if acc ≠ .read ∧ (files i).ctr ≠ 0 then (0, files)
  else (i + 1, Function.update files i
    { files i with ctr := if acc ≠ .read then writeCtr else (files i).ctr + 1 })

/-- `inc_share`: the number of the entry from 1 on, or 0. -/
def incShare (k : ShareKey) (acc : ShareAccess) : ℕ × ShareTable :=
  match files.findObject k with
  | some i => files.incAt i acc
  | none =>
      match files.findBlank with
      | none => (0, files)
      | some i =>
          incAt (Function.update files i
            { fs := some k.fs, clu := k.clu, ofs := k.ofs, ctr := 0 }) i acc

/-- `dec_share`. -/
def decShare (i : ℕ) : FResult × ShareTable :=
  if 1 ≤ i ∧ i ≤ ffFsLock then
    let n := (files (i - 1)).ctr
    let n := if n = writeCtr then 0 else n
    let n := if 0 < n then n - 1 else n
    (.ok, Function.update files (i - 1)
      { files (i - 1) with ctr := n, fs := if n = 0 then none else (files (i - 1)).fs })
  else (.intErr, files)

/-- `clear_share`. -/
def clearShare (fs : ℕ) : ShareTable := fun i =>
  if i < ffFsLock ∧ (files i).fs = some fs then { files i with fs := none } else files i

end ShareTable

/-- An object that is open: the entry that its opening was given, and how it was opened. -/
structure OpenObject where
  lockid : ℕ
  key : ShareKey
  write : Bool
  deriving DecidableEq, Repr

/-- The lock table, and the objects that are open. -/
structure SharedFiles where
  files : ShareTable
  opens : List OpenObject

/-- A call as far as the lock table goes: `f_open` of a file that exists or is created,
`f_opendir` of a directory that is not the root, closing, `f_unlink` or `f_rename` of a file or
a directory, by its entry, and a mount of the volume. -/
inductive ShareCall where
  | openFile (k : ShareKey) (write : Bool)
  | createFile (k : ShareKey) (write : Bool)
  | openDir (k : ShareKey)
  | close (o : OpenObject)
  | remove (k : ShareKey)
  | mount (fs : ℕ)
  deriving DecidableEq, Repr

namespace SharedFiles

/-- The keys of directories: `f_opendir` takes their own first cluster and the offset 0,
where a directory other than the root has the entry of no file and no directory in it. -/
def IsDir (k : ShareKey) : Prop := k.clu ≠ 0 ∧ k.ofs = 0

instance (k : ShareKey) : Decidable (IsDir k) := inferInstanceAs (Decidable (k.clu ≠ 0 ∧ k.ofs = 0))

/-- `acc` for a file. -/
def access (write : Bool) : ShareAccess := if write then .write else .read

/-- The result of `inc_share` as its callers take it. -/
def register (s : SharedFiles) (k : ShareKey) (write : Bool) (full : FResult) :
    FResult × SharedFiles :=
  let r := s.files.incShare k (access write)
  if r.1 = 0 then (full, { s with files := r.2 })
  else (.ok, ⟨r.2, ⟨r.1, k, write⟩ :: s.opens⟩)

/-- A call. A file is created where there is none, which is then not open; only what is open
is closed. -/
def call (s : SharedFiles) : ShareCall → Option (FResult × SharedFiles)
  | .openFile k write =>
      if IsDir k then none
      else if s.files.chkShare k (access write) = .ok then some (s.register k write .intErr)
      else some (s.files.chkShare k (access write), s)
  | .createFile k write =>
      if IsDir k ∨ ∃ o ∈ s.opens, o.key = k then none
      else if s.files.enqShare then some (s.register k write .intErr)
      else some (.tooManyOpenFiles, s)
  | .openDir k => if IsDir k then some (s.register k false .tooManyOpenFiles) else none
  | .close o =>
      if o ∈ s.opens then
        let r := s.files.decShare o.lockid
        some (r.1, ⟨r.2, s.opens.erase o⟩)
      else none
  | .remove k => if IsDir k then none else some (s.files.chkShare k .delete, s)
  | .mount fs => some (.ok, ⟨s.files.clearShare fs, s.opens.filter fun o => o.key.fs ≠ fs⟩)

/-- The number of times that an object is open for reading. -/
def readers (opens : List OpenObject) (k : ShareKey) : ℕ :=
  opens.countP fun o => decide (o.key = k ∧ o.write = false)

/-- The number of times that an object is open for writing. -/
def writers (opens : List OpenObject) (k : ShareKey) : ℕ :=
  opens.countP fun o => decide (o.key = k ∧ o.write = true)

/-- The entries say how the objects are open. -/
structure Consistent (s : SharedFiles) : Prop where
  unique : ∀ i < ffFsLock, ∀ j < ffFsLock, ∀ k, ShareTable.Matches (s.files i) k →
    ShareTable.Matches (s.files j) k → i = j
  held : ∀ o ∈ s.opens, ∃ i < ffFsLock, o.lockid = i + 1 ∧ ShareTable.Matches (s.files i) o.key
  counter : ∀ i < ffFsLock, ∀ k, ShareTable.Matches (s.files i) k →
    ((s.files i).ctr = writeCtr ∧ writers s.opens k = 1 ∧ readers s.opens k = 0) ∨
      ((s.files i).ctr = readers s.opens k ∧ 0 < readers s.opens k ∧
        readers s.opens k < writeCtr ∧ writers s.opens k = 0)
  dirs : ∀ o ∈ s.opens, IsDir o.key → o.write = false

/-- The call opens no object for reading that is open for reading 255 times. -/
def FewReaders (s : SharedFiles) : ShareCall → Prop
  | .openFile k _ => readers s.opens k < 255
  | .openDir k => readers s.opens k < 255
  | _ => True

end SharedFiles

namespace ShareTable

variable {files : ShareTable} {k : ShareKey} {i j : ℕ}

theorem findObject_eq_some (h : files.findObject k = some i) :
    i < ffFsLock ∧ Matches (files i) k := by
  have hmem := List.mem_of_find?_eq_some h
  have hp := List.find?_some h
  exact ⟨List.mem_range.1 hmem, of_decide_eq_true hp⟩

theorem findObject_eq_none (h : files.findObject k = none) (hi : i < ffFsLock) :
    ¬ Matches (files i) k := by
  have hall := List.find?_eq_none.1 h i (List.mem_range.2 hi)
  exact fun hm => hall (decide_eq_true hm)

theorem findBlank_eq_some (h : files.findBlank = some i) :
    i < ffFsLock ∧ (files i).fs = none := by
  have hmem := List.mem_of_find?_eq_some h
  have hp := List.find?_some h
  exact ⟨List.mem_range.1 hmem, of_decide_eq_true hp⟩

theorem Matches.eq {e : FileSem} {k k' : ShareKey} (h : Matches e k) (h' : Matches e k') :
    k = k' := by
  obtain ⟨hfs, hclu, hofs⟩ := h
  obtain ⟨hfs', hclu', hofs'⟩ := h'
  cases k
  cases k'
  simp only [ShareKey.mk.injEq]
  exact ⟨Option.some_inj.1 (hfs.symm.trans hfs'), hclu.symm.trans hclu', hofs.symm.trans hofs'⟩

/-- The entry is used, and for one object. -/
theorem Matches.used {e : FileSem} {k : ShareKey} (h : Matches e k) : e.fs ≠ none := by
  rw [h.1]
  exact Option.some_ne_none _

theorem matches_update {e : FileSem} :
    Matches (Function.update files i e j) k ↔
      if j = i then Matches e k else Matches (files j) k := by
  rw [Function.update_apply]
  split_ifs
  · rfl
  · rfl

end ShareTable

namespace SharedFiles

open ShareTable

variable {s s' : SharedFiles} {k : ShareKey} {i : ℕ}

/-! ### Counting -/

theorem readers_cons (o : OpenObject) (opens : List OpenObject) (k : ShareKey) :
    readers (o :: opens) k =
      readers opens k + if o.key = k ∧ o.write = false then 1 else 0 := by
  rw [readers, List.countP_cons, readers]
  simp only [decide_eq_true_eq]

theorem writers_cons (o : OpenObject) (opens : List OpenObject) (k : ShareKey) :
    writers (o :: opens) k =
      writers opens k + if o.key = k ∧ o.write = true then 1 else 0 := by
  rw [writers, List.countP_cons, writers]
  simp only [decide_eq_true_eq]

/-- An open object counts. -/
theorem readers_erase {o : OpenObject} {opens : List OpenObject} (h : o ∈ opens) (k : ShareKey) :
    readers opens k =
      readers (opens.erase o) k + if o.key = k ∧ o.write = false then 1 else 0 := by
  rw [← readers_cons]
  exact (List.perm_cons_erase h).countP_eq _

theorem writers_erase {o : OpenObject} {opens : List OpenObject} (h : o ∈ opens) (k : ShareKey) :
    writers opens k =
      writers (opens.erase o) k + if o.key = k ∧ o.write = true then 1 else 0 := by
  rw [← writers_cons]
  exact (List.perm_cons_erase h).countP_eq _

/-- An object without readers and writers is not open. -/
theorem key_ne_of_counts {opens : List OpenObject} (hr : readers opens k = 0)
    (hw : writers opens k = 0) : ∀ o ∈ opens, o.key ≠ k := by
  intro o ho hk
  have hr' := List.countP_eq_zero.1 hr o ho
  have hw' := List.countP_eq_zero.1 hw o ho
  cases hval : o.write with
  | false => exact hr' (decide_eq_true ⟨hk, hval⟩)
  | true => exact hw' (decide_eq_true ⟨hk, hval⟩)

theorem counts_of_key_ne {opens : List OpenObject} (h : ∀ o ∈ opens, o.key ≠ k) :
    readers opens k = 0 ∧ writers opens k = 0 := by
  constructor
  · exact List.countP_eq_zero.2 fun o ho hd => h o ho (of_decide_eq_true hd).1
  · exact List.countP_eq_zero.2 fun o ho hd => h o ho (of_decide_eq_true hd).1

/-- An object without an entry is not open. -/
theorem Consistent.not_open (h : s.Consistent) (hf : s.files.findObject k = none) :
    ∀ o ∈ s.opens, o.key ≠ k := by
  rintro o ho rfl
  obtain ⟨i, hi, -, hm⟩ := h.held o ho
  exact findObject_eq_none hf hi hm

/-! ### Opening -/

/-- One more reader of an object that is open for reading. -/
theorem Consistent.register_found (h : s.Consistent) (hf : s.files.findObject k = some i)
    (hctr : (s.files i).ctr ≠ writeCtr) (hfew : readers s.opens k < 255) (full : FResult) :
    ∃ s', s.register k false full = (.ok, s') ∧ s'.Consistent ∧
      s'.opens = ⟨i + 1, k, false⟩ :: s.opens := by
  obtain ⟨hi, hm⟩ := findObject_eq_some hf
  obtain ⟨hval, -⟩ | ⟨hval, hpos, -, hw⟩ := h.counter i hi k hm
  · exact absurd hval hctr
  refine ⟨⟨Function.update s.files i { s.files i with ctr := (s.files i).ctr + 1 },
    ⟨i + 1, k, false⟩ :: s.opens⟩, ?_, ⟨?_, ?_, ?_, ?_⟩, rfl⟩
  · simp [register, incShare, hf, incAt, access]
  · intro a ha b hb k' hka hkb
    rw [matches_update] at hka hkb
    refine h.unique a ha b hb k' ?_ ?_
    · split_ifs at hka with heq
      · rwa [heq]
      · exact hka
    · split_ifs at hkb with heq
      · rwa [heq]
      · exact hkb
  · intro o ho
    rcases List.mem_cons.1 ho with rfl | ho
    · exact ⟨i, hi, rfl, matches_update.2 ((if_pos rfl).symm ▸ hm)⟩
    · obtain ⟨a, ha, hid, hma⟩ := h.held o ho
      refine ⟨a, ha, hid, ?_⟩
      rw [matches_update]
      split_ifs with heq
      · rwa [heq] at hma
      · exact hma
  · intro a ha k' hma
    dsimp only at hma ⊢
    simp only [readers_cons, writers_cons]
    by_cases heq : a = i
    · rw [heq, matches_update, if_pos rfl] at hma
      obtain rfl : k' = k := hma.eq hm
      rw [heq, Function.update_self, if_neg (by simp), if_pos (by simp)]
      refine .inr ⟨congrArg (· + 1) hval, Nat.succ_pos _, ?_, hw⟩
      exact Nat.succ_lt_succ hfew
    · rw [matches_update, if_neg heq] at hma
      have hne : k ≠ k' := fun hk => heq (h.unique a ha i hi k' hma (hk ▸ hm))
      rw [Function.update_of_ne heq, if_neg fun hk => hne hk.1, if_neg fun hk => hne hk.1]
      exact h.counter a ha k' hma
  · intro o ho hdir
    rcases List.mem_cons.1 ho with rfl | ho
    · rfl
    · exact h.dirs o ho hdir

/-- The first opening of an object takes a blank entry. -/
theorem Consistent.register_new (h : s.Consistent) (hf : s.files.findObject k = none)
    (hb : s.files.findBlank = some i) {write : Bool} (hd : IsDir k → write = false)
    (full : FResult) :
    ∃ s', s.register k write full = (.ok, s') ∧ s'.Consistent ∧
      s'.opens = ⟨i + 1, k, write⟩ :: s.opens := by
  obtain ⟨hi, hblank⟩ := findBlank_eq_some hb
  obtain ⟨hr0, hw0⟩ := counts_of_key_ne (h.not_open hf)
  have hnew : Matches ⟨some k.fs, k.clu, k.ofs, if write then writeCtr else 1⟩ k :=
    ⟨rfl, rfl, rfl⟩
  refine ⟨⟨Function.update s.files i ⟨some k.fs, k.clu, k.ofs, if write then writeCtr else 1⟩,
    ⟨i + 1, k, write⟩ :: s.opens⟩, ?_, ⟨?_, ?_, ?_, ?_⟩, rfl⟩
  · cases write with
    | false => simp [register, incShare, hf, hb, incAt, access]
    | true => simp [register, incShare, hf, hb, incAt, access]
  · intro a ha b hb k' hka hkb
    rw [matches_update] at hka hkb
    by_cases h₁ : a = i
    · by_cases h₂ : b = i
      · exact h₁.trans h₂.symm
      · rw [if_pos h₁] at hka
        rw [if_neg h₂, hka.eq hnew] at hkb
        exact absurd hkb (findObject_eq_none hf hb)
    · rw [if_neg h₁] at hka
      by_cases h₂ : b = i
      · rw [if_pos h₂] at hkb
        rw [hkb.eq hnew] at hka
        exact absurd hka (findObject_eq_none hf ha)
      · rw [if_neg h₂] at hkb
        exact h.unique a ha b hb k' hka hkb
  · intro o ho
    rcases List.mem_cons.1 ho with rfl | ho
    · exact ⟨i, hi, rfl, matches_update.2 ((if_pos rfl).symm ▸ hnew)⟩
    · obtain ⟨a, ha, hid, hma⟩ := h.held o ho
      refine ⟨a, ha, hid, ?_⟩
      rw [matches_update, if_neg]
      · exact hma
      · rintro rfl
        exact hma.used hblank
  · intro a ha k' hma
    dsimp only at hma ⊢
    simp only [readers_cons, writers_cons]
    by_cases heq : a = i
    · rw [heq, matches_update, if_pos rfl] at hma
      obtain rfl : k' = k := hma.eq hnew
      rw [heq, Function.update_self, hr0, hw0]
      cases write with
      | false => exact .inr ⟨by simp, by simp, by simp [writeCtr], by simp⟩
      | true => exact .inl ⟨by simp, by simp, by simp⟩
    · rw [matches_update, if_neg heq] at hma
      have hne : k ≠ k' := by
        rintro rfl
        exact findObject_eq_none hf ha hma
      rw [Function.update_of_ne heq, if_neg fun hk => hne hk.1, if_neg fun hk => hne hk.1]
      exact h.counter a ha k' hma
  · intro o ho hdir
    rcases List.mem_cons.1 ho with rfl | ho
    · exact hd hdir
    · exact h.dirs o ho hdir

theorem register_full {write : Bool} (hf : s.files.findObject k = none)
    (hb : s.files.findBlank = none) (full : FResult) : s.register k write full = (full, s) := by
  simp [register, incShare, hf, hb]

/-! ### Closing and mounting -/

/-- Closing an object takes it out of the count of its entry. -/
theorem Consistent.close (h : s.Consistent) {o : OpenObject} (ho : o ∈ s.opens) :
    (s.files.decShare o.lockid).1 = .ok ∧
      Consistent ⟨(s.files.decShare o.lockid).2, s.opens.erase o⟩ := by
  obtain ⟨i, hi, hid, hm⟩ := h.held o ho
  have hin : 1 ≤ o.lockid ∧ o.lockid ≤ ffFsLock := by omega
  have hsub : o.lockid - 1 = i := by omega
  -- what the counter becomes
  have hcount := h.counter i hi o.key hm
  have hr := readers_erase ho o.key
  have hw := writers_erase ho o.key
  set n := (s.files i).ctr with hn
  set m := if 0 < (if n = writeCtr then 0 else n) then (if n = writeCtr then 0 else n) - 1
    else (if n = writeCtr then 0 else n) with hm'
  have hleft : writers (s.opens.erase o) o.key = 0 ∧ readers (s.opens.erase o) o.key = m ∧
      m < writeCtr := by
    rw [hm', writeCtr]
    rw [writeCtr] at hcount
    cases hval : o.write with
    | false =>
        rw [if_pos ⟨rfl, hval⟩] at hr
        rw [if_neg (by simp [hval])] at hw
        split_ifs <;> omega
    | true =>
        rw [if_neg (by simp [hval])] at hr
        rw [if_pos ⟨rfl, hval⟩] at hw
        split_ifs <;> omega
  have hdec : s.files.decShare o.lockid = (.ok, Function.update s.files i
      { s.files i with ctr := m, fs := if m = 0 then none else (s.files i).fs }) := by
    rw [decShare, if_pos hin, hsub]
  rw [hdec]
  refine ⟨rfl, ?_, ?_, ?_, fun o' ho' => h.dirs o' (List.mem_of_mem_erase ho')⟩
  · intro a ha b hb k' hka hkb
    rw [matches_update] at hka hkb
    have hold : ∀ {c}, (if c = i then Matches { s.files i with
          ctr := m, fs := if m = 0 then none else (s.files i).fs } k'
        else Matches (s.files c) k') → Matches (s.files c) k' := by
      intro c hc
      split_ifs at hc with heq hz
      · cases hc.1
      · rw [heq]
        exact hc
      · exact hc
    exact h.unique a ha b hb k' (hold hka) (hold hkb)
  · intro o' ho'
    obtain ⟨a, ha, hid', hma⟩ := h.held o' (List.mem_of_mem_erase ho')
    refine ⟨a, ha, hid', matches_update.2 ?_⟩
    split_ifs with heq hz
    · rw [heq] at hma
      have hkey : o'.key = o.key := hma.eq hm
      exact absurd hkey (key_ne_of_counts (hleft.2.1.trans hz) hleft.1 o' ho')
    · rw [heq] at hma
      exact hma
    · exact hma
  · intro a ha k' hma
    dsimp only at hma ⊢
    by_cases heq : a = i
    · rw [heq, matches_update, if_pos rfl] at hma
      rw [heq, Function.update_self]
      have hz : m ≠ 0 := by
        intro hz
        rw [if_pos hz] at hma
        cases hma.1
      rw [if_neg hz] at hma
      obtain rfl : k' = o.key := Matches.eq (e := s.files i) hma hm
      refine .inr ⟨hleft.2.1.symm, ?_, ?_, hleft.1⟩
      · rw [hleft.2.1]
        exact Nat.pos_of_ne_zero hz
      · rw [hleft.2.1]
        exact hleft.2.2
    · rw [matches_update, if_neg heq] at hma
      have hne : o.key ≠ k' := fun hk => heq (h.unique a ha i hi k' hma (hk ▸ hm))
      have hr' := readers_erase ho k'
      have hw' := writers_erase ho k'
      rw [if_neg fun hk => hne hk.1, Nat.add_zero] at hr' hw'
      rw [Function.update_of_ne heq, ← hr', ← hw']
      exact h.counter a ha k' hma

/-- A mount drops the entries and the objects of the volume. -/
theorem Consistent.mount (h : s.Consistent) (fs : ℕ) :
    Consistent ⟨s.files.clearShare fs, s.opens.filter fun o => o.key.fs ≠ fs⟩ := by
  have hold : ∀ {a k'}, a < ffFsLock → Matches (s.files.clearShare fs a) k' →
      k'.fs ≠ fs ∧ s.files.clearShare fs a = s.files a := by
    intro a k' ha hma
    by_cases hc : (s.files a).fs = some fs
    · rw [clearShare, if_pos ⟨ha, hc⟩] at hma
      cases hma.1
    · have heq : s.files.clearShare fs a = s.files a := if_neg fun hh => hc hh.2
      rw [heq] at hma
      exact ⟨fun hfs => hc (hfs ▸ hma.1), heq⟩
  refine ⟨?_, ?_, ?_, ?_⟩
  · intro a ha b hb k' hka hkb
    have ha' := (hold ha hka).2
    have hb' := (hold hb hkb).2
    dsimp only at hka hkb
    rw [ha'] at hka
    rw [hb'] at hkb
    exact h.unique a ha b hb k' hka hkb
  · intro o ho
    rw [List.mem_filter] at ho
    obtain ⟨a, ha, hid, hma⟩ := h.held o ho.1
    refine ⟨a, ha, hid, ?_⟩
    have hne : o.key.fs ≠ fs := of_decide_eq_true ho.2
    have heq : s.files.clearShare fs a = s.files a := by
      refine if_neg fun hh => hne ?_
      exact Option.some_inj.1 (hma.1.symm.trans hh.2)
    change Matches (s.files.clearShare fs a) o.key
    rw [heq]
    exact hma
  · intro a ha k' hma
    obtain ⟨hne, heq⟩ := hold ha hma
    dsimp only at hma ⊢
    rw [heq] at hma ⊢
    have hr : readers (s.opens.filter fun o => o.key.fs ≠ fs) k' = readers s.opens k' := by
      rw [readers, List.countP_filter, readers]
      refine List.countP_congr fun o _ => ?_
      simp only [Bool.and_eq_true, decide_eq_true_eq]
      exact and_iff_left_of_imp fun hk => by rw [hk.1]; exact hne
    have hw : writers (s.opens.filter fun o => o.key.fs ≠ fs) k' = writers s.opens k' := by
      rw [writers, List.countP_filter, writers]
      refine List.countP_congr fun o _ => ?_
      simp only [Bool.and_eq_true, decide_eq_true_eq]
      exact and_iff_left_of_imp fun hk => by rw [hk.1]; exact hne
    rw [hr, hw]
    exact h.counter a ha k' hma
  · intro o ho
    exact h.dirs o (List.mem_filter.1 ho).1

/-! ### Runs -/

/-- A call, without its result. -/
def step (s : SharedFiles) (c : ShareCall) : Option SharedFiles := (s.call c).map Prod.snd

/-- No object is open. -/
def init : SharedFiles where
  files := fun _ => ⟨none, 0, 0, 0⟩
  opens := []

theorem consistent_init : init.Consistent where
  unique _ _ _ _ _ h _ := absurd h.1 (Option.some_ne_none _).symm
  held _ ho := absurd ho List.not_mem_nil
  counter _ _ _ h := absurd h.1 (Option.some_ne_none _).symm
  dirs _ ho := absurd ho List.not_mem_nil

/-- What `chk_share` says of an object. -/
theorem Consistent.chkShare (h : s.Consistent) (k : ShareKey) (acc : ShareAccess) :
    (s.files.chkShare k acc = .ok ↔
      (acc = .read → writers s.opens k = 0 ∧
        (readers s.opens k = 0 → s.files.findBlank ≠ none)) ∧
      (acc = .write → (∀ o ∈ s.opens, o.key ≠ k) ∧ s.files.findBlank ≠ none) ∧
      (acc = .delete → ∀ o ∈ s.opens, o.key ≠ k)) := by
  rw [ShareTable.chkShare]
  cases hf : s.files.findObject k with
  | none =>
      have hclosed := h.not_open hf
      obtain ⟨hr, hw⟩ := counts_of_key_ne hclosed
      cases acc with
      | read => simp [hr, hw]
      | write => simpa using fun _ => hclosed
      | delete => simpa using hclosed
  | some i =>
      obtain ⟨hi, hm⟩ := findObject_eq_some hf
      have hopen : ¬ ∀ o ∈ s.opens, o.key ≠ k := by
        intro hall
        obtain ⟨hr, hw⟩ := counts_of_key_ne hall
        rcases h.counter i hi k hm with ⟨-, hw', -⟩ | ⟨-, hpos, -, -⟩
        · omega
        · omega
      cases acc with
      | read =>
          rcases h.counter i hi k hm with ⟨hval, hw, hr⟩ | ⟨hval, hpos, hlt, hw⟩
          · simp [hval, hw]
          · have hne : (s.files i).ctr ≠ writeCtr := by omega
            simp [hne, hw, hpos.ne']
      | write => simp [hopen]
      | delete => simp [hopen]

/-- Opening an object for which there is an entry or a blank one succeeds. -/
theorem Consistent.register (h : s.Consistent) {write : Bool} (hd : IsDir k → write = false)
    (hfew : readers s.opens k < 255)
    (hok : (s.files.findObject k = none → s.files.findBlank ≠ none) ∧
      ∀ i, s.files.findObject k = some i → write = false ∧ (s.files i).ctr ≠ writeCtr)
    (full : FResult) :
    ∃ s', s.register k write full = (.ok, s') ∧ s'.Consistent := by
  cases hf : s.files.findObject k with
  | none =>
      obtain ⟨i, hi⟩ := Option.ne_none_iff_exists'.1 (hok.1 hf)
      obtain ⟨s', he, hc, -⟩ := h.register_new hf hi hd full
      exact ⟨s', he, hc⟩
  | some i =>
      obtain ⟨rfl, hctr⟩ := hok.2 i hf
      obtain ⟨s', he, hc, -⟩ := h.register_found hf hctr hfew full
      exact ⟨s', he, hc⟩

/-- An object that is open for writing is open once. -/
theorem Consistent.exclusive (h : s.Consistent) (k : ShareKey) :
    writers s.opens k = 0 ∨ (writers s.opens k = 1 ∧ readers s.opens k = 0) := by
  cases hf : s.files.findObject k with
  | none => exact .inl (counts_of_key_ne (h.not_open hf)).2
  | some i =>
      obtain ⟨hi, hm⟩ := findObject_eq_some hf
      rcases h.counter i hi k hm with ⟨-, hw, hr⟩ | ⟨-, -, -, hw⟩
      · exact .inr ⟨hw, hr⟩
      · exact .inl hw

theorem chkShare_ok {files : ShareTable} {acc : ShareAccess} (hacc : acc ≠ .delete)
    (h : files.chkShare k acc = .ok) :
    (files.findObject k = none → files.findBlank ≠ none) ∧
      ∀ i, files.findObject k = some i → acc = .read ∧ (files i).ctr ≠ writeCtr := by
  rw [ShareTable.chkShare] at h
  refine ⟨fun hf hb => ?_, fun i hf => ?_⟩
  · rw [hf] at h
    simp [hb, hacc] at h
  · rw [hf] at h
    by_contra hne
    have hor : acc ≠ .read ∨ (files i).ctr = writeCtr := by
      rw [not_and_or, not_not] at hne
      exact hne
    simp [hor] at h

theorem chkShare_ne_intErr (files : ShareTable) (k : ShareKey) (acc : ShareAccess) :
    files.chkShare k acc ≠ .intErr := by
  rw [ShareTable.chkShare]
  split
  · split_ifs <;> decide
  · split_ifs <;> decide

/-- What has an entry is open. -/
theorem Consistent.findObject_eq_none (h : s.Consistent) (hk : ∀ o ∈ s.opens, o.key ≠ k) :
    s.files.findObject k = none := by
  obtain ⟨hr, hw⟩ := counts_of_key_ne hk
  cases hf : s.files.findObject k with
  | none => rfl
  | some i =>
      obtain ⟨hi, hm⟩ := findObject_eq_some hf
      rcases h.counter i hi k hm with ⟨-, hw', -⟩ | ⟨-, hpos, -, -⟩
      · omega
      · omega

/-- Every call keeps the entries right, and none meets an internal error. -/
theorem Consistent.call (h : s.Consistent) {c : ShareCall} (hfew : FewReaders s c)
    {res : FResult} (hc : s.call c = some (res, s')) : s'.Consistent ∧ res ≠ .intErr := by
  cases c with
  | openFile k write =>
      rw [SharedFiles.call] at hc
      split_ifs at hc with hdir hchk
      · have hacc : access write ≠ .delete := by cases write <;> decide
        obtain ⟨hnone, hsome⟩ := chkShare_ok hacc hchk
        have hread : access write = .read → write = false := by cases write <;> decide
        obtain ⟨s₁, he, hs₁⟩ := h.register (fun hd => absurd hd hdir) hfew
          ⟨hnone, fun i hf => ⟨hread (hsome i hf).1, (hsome i hf).2⟩⟩ .intErr
        rw [he, Option.some_inj, Prod.mk.injEq] at hc
        obtain ⟨rfl, rfl⟩ := hc
        exact ⟨hs₁, by decide⟩
      · obtain ⟨rfl, rfl⟩ := Prod.mk.inj (Option.some_inj.1 hc)
        exact ⟨h, chkShare_ne_intErr _ _ _⟩
  | createFile k write =>
      rw [SharedFiles.call] at hc
      split_ifs at hc with hopen henq
      · rw [not_or, not_exists] at hopen
        have hclosed : ∀ o ∈ s.opens, o.key ≠ k := fun o ho hk => hopen.2 o ⟨ho, hk⟩
        have hnone := h.findObject_eq_none hclosed
        have hfew : readers s.opens k < 255 := by
          rw [(counts_of_key_ne hclosed).1]
          decide
        have hdir : IsDir k → write = false := fun hd => absurd hd hopen.1
        obtain ⟨s₁, he, hs₁⟩ := h.register hdir hfew
          ⟨fun _ => Option.isSome_iff_ne_none.1 henq, fun i hf => by rw [hnone] at hf; cases hf⟩
          .intErr
        rw [he, Option.some_inj, Prod.mk.injEq] at hc
        obtain ⟨rfl, rfl⟩ := hc
        exact ⟨hs₁, by decide⟩
      · obtain ⟨rfl, rfl⟩ := Prod.mk.inj (Option.some_inj.1 hc)
        exact ⟨h, by decide⟩
  | openDir k =>
      rw [SharedFiles.call] at hc
      split_ifs at hc with hdir
      by_cases hroom : s.files.findObject k = none ∧ s.files.findBlank = none
      · rw [register_full hroom.1 hroom.2, Option.some_inj, Prod.mk.injEq] at hc
        obtain ⟨rfl, rfl⟩ := hc
        exact ⟨h, by decide⟩
      · have hwrite : writers s.opens k = 0 := by
          refine List.countP_eq_zero.2 fun o ho hd => ?_
          obtain ⟨rfl, hw⟩ := of_decide_eq_true hd
          rw [h.dirs o ho hdir] at hw
          cases hw
        have hctr : ∀ i, s.files.findObject k = some i → false = false ∧
            (s.files i).ctr ≠ writeCtr := by
          intro i hf
          obtain ⟨hi, hm⟩ := findObject_eq_some hf
          rcases h.counter i hi k hm with ⟨-, hw, -⟩ | ⟨hval, -, hlt, -⟩
          · omega
          · exact ⟨rfl, by omega⟩
        obtain ⟨s₁, he, hs₁⟩ := h.register (fun _ => rfl) hfew
          ⟨fun hf hb => hroom ⟨hf, hb⟩, hctr⟩ .tooManyOpenFiles
        rw [he, Option.some_inj, Prod.mk.injEq] at hc
        obtain ⟨rfl, rfl⟩ := hc
        exact ⟨hs₁, by decide⟩
  | close o =>
      rw [SharedFiles.call] at hc
      split_ifs at hc with ho
      obtain ⟨hok, hs₁⟩ := h.close ho
      obtain ⟨rfl, rfl⟩ := Prod.mk.inj (Option.some_inj.1 hc)
      exact ⟨hs₁, by rw [hok]; decide⟩
  | remove k =>
      rw [SharedFiles.call] at hc
      split_ifs at hc
      obtain ⟨rfl, rfl⟩ := Prod.mk.inj (Option.some_inj.1 hc)
      exact ⟨h, chkShare_ne_intErr _ _ _⟩
  | mount fs =>
      obtain ⟨rfl, rfl⟩ := Prod.mk.inj (Option.some_inj.1 hc)
      exact ⟨h.mount fs, by decide⟩

theorem step_consistent (s : SharedFiles) (c : ShareCall) (s' : SharedFiles) (h : s.Consistent)
    (hfew : FewReaders s c) (hstep : s.step c = some s') : s'.Consistent := by
  obtain ⟨⟨res, t⟩, hc, rfl⟩ := Option.map_eq_some_iff.1 hstep
  exact (h.call hfew hc).1

/-- Open directories do not keep anything from being removed, not even their own entries. -/
theorem Consistent.remove_of_dirs (h : s.Consistent) (hk : ¬ IsDir k)
    (hdirs : ∀ o ∈ s.opens, IsDir o.key) : s.call (.remove k) = some (.ok, s) := by
  have hok : s.files.chkShare k .delete = .ok := by
    refine (h.chkShare k .delete).2 ⟨(by cases ·), (by cases ·), ?_⟩
    rintro - o ho rfl
    exact hk (hdirs o ho)
  rw [SharedFiles.call, if_neg hk, hok]

/-- In every run in which no object is opened for reading more than 255 times at once, the
table counts the open objects; an object that is open for writing is open once; a file that is
open is not removed, and what is open for writing is not opened; and no call meets an internal
error. -/
theorem share_exclusive {calls : List ShareCall}
    (hfew : Transition.Along FewReaders step init calls)
    (hrun : Transition.run step init calls = some s) :
    s.Consistent ∧
      (∀ k, writers s.opens k = 0 ∨ (writers s.opens k = 1 ∧ readers s.opens k = 0)) ∧
      (∀ k, s.files.chkShare k .delete = .ok ↔ ∀ o ∈ s.opens, o.key ≠ k) ∧
      (∀ k, s.files.chkShare k .write = .ok ↔
        (∀ o ∈ s.opens, o.key ≠ k) ∧ s.files.findBlank ≠ none) ∧
      (∀ k, s.files.chkShare k .read = .ok ↔ writers s.opens k = 0 ∧
        (readers s.opens k = 0 → s.files.findBlank ≠ none)) ∧
      ∀ c res s', FewReaders s c → s.call c = some (res, s') → res ≠ .intErr := by
  have h : s.Consistent := hfew.invariant step_consistent consistent_init hrun
  refine ⟨h, h.exclusive, fun k => ?_, fun k => ?_, fun k => ?_, fun c res s' hc hcall => ?_⟩
  · simpa using h.chkShare k .delete
  · simpa using h.chkShare k .write
  · simpa using h.chkShare k .read
  · exact (h.call hc hcall).2

/-- A file in the root directory. -/
def logFile : ShareKey := ⟨1, 0, 96⟩

theorem share_exclusive_logFile :
    ∃ s, Transition.run step init [.openFile logFile true] = some s ∧
      (writers s.opens logFile = 0 ∨
        (writers s.opens logFile = 1 ∧ readers s.opens logFile = 0)) := by
  have hnone : readers init.opens logFile < 255 := by decide
  have hfew : Transition.Along FewReaders step init [.openFile logFile true] :=
    ⟨hnone, fun _ _ => trivial⟩
  exact ⟨_, rfl, (share_exclusive hfew rfl).2.1 logFile⟩

end SharedFiles

end Catpilot
