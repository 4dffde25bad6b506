import Catpilot.CFile.Basic
import Catpilot.Stdio.Access

/-!
# The modes of `fopen` over FatFs

The mode goes through two translations, from its letters to the flags of `open` and
from there to the mode of `f_open`. `O_CREAT` without `O_TRUNC` becomes `FA_CREATE_NEW`,
which refuses a file that exists; so the append modes only work on files that are
missing. A string that is no mode leaves the flags to what the local happens to hold.
-/

namespace Catpilot

open CString CFile

section Flags

/-- The flags for a mode of C. -/
def modeFlags (m : Mode) : UInt32 :=
  match m.base, m.update with
  | .read, false => oRdonly
  | .read, true => oRdwr ||| oTrunc
  | .write, false => oWronly ||| oCreat ||| oTrunc
  | .write, true => oRdwr ||| oCreat ||| oTrunc
  | .append, false => oWronly ||| oCreat ||| oAppend
  | .append, true => oRdwr ||| oCreat ||| oAppend

/-- `FA_READ` and `FA_WRITE` for a mode of C. -/
def modeAccess (m : Mode) : UInt8 :=
  (if m.readable then 1 else 0) ||| (if m.writable then 2 else 0)

/-- `fopen` knows every mode of C. -/
theorem fopenFlag_of_mode {mode : List UInt8} {m : Mode} (h : Mode.ofString (cstr mode) = some m)
    (uninit : UInt32) : Stdio.fopenFlag uninit mode = modeFlags m := by
  obtain ⟨rest, hs, hrest⟩ := Mode.ofString_eq_some h
  rcases m with ⟨base, update⟩
  cases update with
  | false =>
      rcases of_updateOf_eq_false hrest with rfl | rfl
      all_goals cases base <;> simp [Stdio.fopenFlag, Stdio.modecmp, hs, modeFlags, Base.letter]
  | true =>
      rcases of_updateOf_eq_true hrest with rfl | rfl | rfl
      all_goals cases base <;> simp [Stdio.fopenFlag, Stdio.modecmp, hs, modeFlags, Base.letter]

/-- Of another string it makes nothing. -/
theorem fopenFlag_of_none {mode : List UInt8} (h : Mode.ofString (cstr mode) = none)
    (uninit : UInt32) : Stdio.fopenFlag uninit mode = uninit := by
  have hne : ∀ pattern, (Mode.ofString pattern).isSome = true →
      Stdio.modecmp mode pattern = false := by
    intro pattern hpattern
    rw [Stdio.modecmp, decide_eq_false_iff_not]
    rintro rfl
    rw [h] at hpattern
    cases hpattern
  simp (disch := decide) only [Stdio.fopenFlag, hne, Bool.or_self, Bool.false_eq_true, if_false]

/-- The bits of the mode of `f_open` that say how it opens the file. -/
def faMethods : UInt8 := 0x3C

/-- The method depends on `O_CREAT` and `O_TRUNC` alone. -/
theorem fatfsModes_and_faMethods (flags : UInt32) : fatfsModes flags &&& faMethods =
    if flags &&& oCreat = 0 then 0 else if flags &&& oTrunc = 0 then 4 else 8 := by
  have haccess : ∀ modes : UInt8, modes ∈ [1 ||| 2, 1, 2] → modes &&& faMethods = 0 ∧
      (modes ||| 4) &&& faMethods = 4 ∧ (modes ||| 8) &&& faMethods = 8 := by
    intro modes h
    rw [List.mem_cons, List.mem_cons, List.mem_singleton] at h
    rcases h with rfl | rfl | rfl
    all_goals decide
  have hmodes : (if flags &&& oAccmode = oRdwr then 1 ||| 2
      else if flags &&& oAccmode = oRdonly then 1 else 2 : UInt8) ∈ [1 ||| 2, 1, 2] := by
    split
    · decide
    · split
      · decide
      · decide
  obtain ⟨hopen, hnew, halways⟩ := haccess _ hmodes
  rw [fatfsModes]
  by_cases hcreat : flags &&& oCreat = 0
  · rw [if_neg (not_not.2 hcreat), if_pos hcreat]
    exact hopen
  · rw [if_pos hcreat, if_neg hcreat]
    by_cases htrunc : flags &&& oTrunc = 0
    · rw [if_neg (not_not.2 htrunc), if_pos htrunc]
      exact hnew
    · rw [if_pos htrunc, if_neg htrunc]
      exact halways

theorem fatfsModes_and_faMethods_mem (flags : UInt32) :
    fatfsModes flags &&& faMethods ∈ [0, 4, 8] := by
  rw [fatfsModes_and_faMethods]
  split
  · decide
  · split
    · decide
    · decide

/-- The modes of C, seen from the flags. -/
theorem fatfsModes_modeFlags_method (m : Mode) : fatfsModes (modeFlags m) &&& faMethods =
    match m.base with
    | .read => 0
    | .write => 8
    | .append => 4 := by
  rcases m with ⟨base, update⟩
  cases base <;> cases update <;> decide

theorem modeFlags_and_oAppend (m : Mode) : modeFlags m &&& oAppend = 0 ↔ m.base ≠ .append := by
  rcases m with ⟨base, update⟩
  cases base <;> cases update <;> decide

/-- The position of a mode of C, read off its flags. -/
theorem start_eq (m : Mode) (c : List UInt8) :
    m.start c = if modeFlags m &&& oAppend = 0 then 0 else c.length := by
  rw [Mode.start]
  by_cases happend : m.base = .append
  · rw [if_pos happend, if_neg]
    rw [modeFlags_and_oAppend]
    exact not_not.2 happend
  · rw [if_neg happend, if_pos]
    rw [modeFlags_and_oAppend]
    exact happend

theorem modeFlags_and_oRdwr (m : Mode) : modeFlags m &&& ~~~sErr &&& oRdwr ≠ 0 := by
  rcases m with ⟨base, update⟩
  cases base <;> cases update <;> decide

/-- A mode of C opens in its access mode. -/
theorem fatfsModes_modeFlags (m : Mode) : fatfsModes (modeFlags m) &&& 3 = modeAccess m := by
  rcases m with ⟨base, update⟩
  cases base <;> cases update <;> decide

end Flags

section Documented

variable {V Φ N : Type*} [DecidableEq N]

/-- The contents of a file once `f_open` has it open by the method: `FA_OPEN_EXISTING` is
0, `FA_CREATE_NEW` 4 and `FA_CREATE_ALWAYS` 8. It refuses a file that is missing, or that
exists where a new one is to be created. -/
def faOpened (method : UInt8) (file : Option (List UInt8)) : Option (List UInt8) :=
  if method = 0 then file
  else if method = 4 then file.elim (some []) fun _ => none
  else some []

/-- FatFs as it is seen from outside: which file a path names, what the files contain,
which of them `f_open` can open (no object is open on the file, it is neither a directory
nor read-only, and if it is missing its directory takes one more entry), how many bytes
the volume has room for in a file, and what an object is open for: its file, the bits of
`FA_READ` and `FA_WRITE`, its position, the contents that it gives the file, some of which
may still be in its buffer, and the number of bytes up to which it can grow. -/
structure FatfsView (V Φ N : Type*) where
  nameOf : List UInt8 → Option N
  contents : V → N → Option (List UInt8)
  ready : V → N → Prop
  room : V → N → ℕ
  opens : V → Φ → N → UInt8 → ℕ → List UInt8 → ℕ → Prop

namespace FatfsView

/-- The other files are as they were. -/
def SameBut (view : FatfsView V Φ N) (n : N) (v v' : V) : Prop :=
  ∀ m, m ≠ n → view.contents v' m = view.contents v m

/-- What FatFs documents of the functions that the driver calls, as long as the disk
works. A write and the size count on the room that the file has. -/
structure Documents (view : FatfsView V Φ N) (ff : FfApi V Φ) : Prop where
  fits : ∀ v n c, view.ready v n → view.contents v n = some c → c.length ≤ view.room v n
  open_refused : ∀ v path n mode, view.nameOf path = some n → view.ready v n →
    mode &&& faMethods ∈ [0, 4, 8] → faOpened (mode &&& faMethods) (view.contents v n) = none →
      ∃ res fil v', ff.fOpen v ff.zero path mode = (res, fil, v') ∧ res ≠ .ok ∧
        view.contents v' = view.contents v
  open_ok : ∀ v path n mode c, view.nameOf path = some n → view.ready v n →
    mode &&& faMethods ∈ [0, 4, 8] → faOpened (mode &&& faMethods) (view.contents v n) = some c →
      ∃ fil v', ff.fOpen v ff.zero path mode = (.ok, fil, v') ∧
        view.contents v' = Function.update (view.contents v) n (some c) ∧
        view.opens v' fil n (mode &&& 3) 0 c (view.room v n)
  size : ∀ v fil n a pos c room, view.opens v fil n a pos c room → c.length ≤ room →
    ff.fSize fil = c.length
  lseek : ∀ v fil n a pos c room ofs, view.opens v fil n a pos c room → ofs ≤ c.length →
    ∃ fil' v', ff.fLseek v fil ofs = (.ok, fil', v') ∧ view.SameBut n v v' ∧
      view.opens v' fil' n a ofs c room
  read : ∀ v fil n a pos c room count, view.opens v fil n a pos c room → a &&& 1 ≠ 0 →
    ∃ fil' v', ff.fRead v fil count = (.ok, (c.drop pos).take count, fil', v') ∧
      view.SameBut n v v' ∧
      view.opens v' fil' n a (pos + ((c.drop pos).take count).length) c room
  read_denied : ∀ v fil n a pos c room count, view.opens v fil n a pos c room → a &&& 1 = 0 →
    ∃ res fil' v', ff.fRead v fil count = (res, [], fil', v') ∧ res ≠ .ok ∧ view.SameBut n v v' ∧
      view.opens v' fil' n a pos c room
  write : ∀ v fil n a pos c room buf, view.opens v fil n a pos c room → pos ≤ c.length →
    a &&& 2 ≠ 0 → (overwrite c pos buf).length ≤ room →
      ∃ fil' v', ff.fWrite v fil buf = (.ok, buf.length, fil', v') ∧ view.SameBut n v v' ∧
        view.opens v' fil' n a (pos + buf.length) (overwrite c pos buf) room
  write_denied : ∀ v fil n a pos c room buf, view.opens v fil n a pos c room → a &&& 2 = 0 →
    ∃ res fil' v', ff.fWrite v fil buf = (res, 0, fil', v') ∧ res ≠ .ok ∧ view.SameBut n v v' ∧
      view.opens v' fil' n a pos c room
  close : ∀ v fil n a pos c room, view.opens v fil n a pos c room →
    ∃ fil' v', ff.fClose v fil = (.ok, fil', v') ∧
      view.contents v' = Function.update (view.contents v) n (some c) ∧
      view.contents (ff.fClose v' fil').2.2 = view.contents v'

/-- What `f_open` has open fits into the room of the file. -/
theorem Documents.length_le_room {view : FatfsView V Φ N} {ff : FfApi V Φ}
    (hff : view.Documents ff) {v : V} {n : N} (hready : view.ready v n) {method : UInt8}
    {c : List UInt8} (hsome : faOpened method (view.contents v n) = some c) :
    c.length ≤ view.room v n := by
  rw [faOpened] at hsome
  split at hsome
  · exact hff.fits v n c hready hsome
  · cases hfile : view.contents v n with
    | none =>
        rw [hfile] at hsome
        split at hsome
        all_goals
          cases hsome
          exact Nat.zero_le _
    | some c' =>
        rw [hfile] at hsome
        split at hsome
        · cases hsome
        · cases hsome
          exact Nat.zero_le _

/-- With or without a seek to the end, the object that `f_open` opens is kept. -/
theorem Documents.fatfsOpen_eq_keep {view : FatfsView V Φ N} {ff : FfApi V Φ}
    (hff : view.Documents ff) (file : File PrivateData) {s : Fatfs V Φ} {path : List UInt8}
    {fil : Φ} {v : V} {n : N} {a : UInt8} {c : List UInt8} {room : ℕ} (hfull : ¬ s.Full)
    (hfo : ff.fOpen s.vol ff.zero path (fatfsModes file.flags) = (.ok, fil, v))
    (hopens : view.opens v fil n a 0 c room) (hroom : c.length ≤ room)
    (hsame : view.SameBut n s.vol v) :
    ∃ fil' v' pos,
      ff.fatfsOpen s file path =
        FfApi.keep { s with vol := v' } { file with privateData := .tmp } fil' ∧
      view.opens v' fil' n a pos c room ∧
      (pos = if file.flags &&& oAppend = 0 then 0 else c.length) ∧
      view.SameBut n s.vol v' := by
  by_cases happend : file.flags &&& oAppend = 0
  · exact ⟨fil, v, 0, ff.fatfsOpen_of_ok hfull hfo happend, hopens, (if_pos happend).symm, hsame⟩
  · have hsize := hff.size _ _ _ _ _ _ _ hopens hroom
    obtain ⟨fil', v', hseek, hsame', hopens'⟩ :=
      hff.lseek _ _ _ _ _ _ _ _ hopens (le_of_eq hsize)
    refine ⟨fil', v', c.length, ff.fatfsOpen_of_append hfull hfo happend hseek, hsize ▸ hopens',
      (if_neg happend).symm, fun m hm => ?_⟩
    exact (hsame' m hm).trans (hsame m hm)

end FatfsView

end Documented

section Prescribed

variable {V Φ N : Type*} [DecidableEq N]

/-- A call of `fread` or `fwrite`. -/
inductive FileIo where
  | fread (size nmemb : UInt32)
  | fwrite (ptr : ℕ → UInt8) (size nmemb : UInt32)

/-- What the call is to the file. -/
def FileIo.op : FileIo → Op UInt8
  | .fread size nmemb => .read (size * nmemb).toNat
  | .fwrite ptr size nmemb => .write (Stdio.bytesAt ptr (size * nmemb))

namespace Stdio

/-- The call on the stream `i`, with the bytes that it reads. -/
def io (w : Stdio (Fatfs V Φ) PrivateData) (i : ℕ) :
    FileIo → Option (Stdio (Fatfs V Φ) PrivateData × List UInt8)
  | .fread size nmemb => (w.fread size nmemb (some i)).map fun r => (r.1, r.2.2)
  | .fwrite ptr size nmemb => (w.fwrite ptr size nmemb (some i)).map fun r => (r.1, r.2.2)

/-- The calls one after the other. -/
def ioAll (w : Stdio (Fatfs V Φ) PrivateData) (i : ℕ) :
    List FileIo → Option (Stdio (Fatfs V Φ) PrivateData × List (List UInt8))
  | [] => some (w, [])
  | call :: calls =>
      (w.io i call).bind fun (w, got) =>
        (w.ioAll i calls).map fun (w, rest) => (w, got :: rest)

/-- As long as the file stays within the room, the stream `i` behaves as `s`, and once it
is closed the file contains what `s` contains, and all other files what they contained. -/
def Behaves (view : FatfsView V Φ N) (files : N → Option (List UInt8)) (name : N) (room : ℕ)
    (w : Stdio (Fatfs V Φ) PrivateData) (i : ℕ) (s : Stream UInt8) : Prop :=
  ∀ calls, (s.playAll (calls.map FileIo.op)).1.contents.length ≤ room → ∃ w₁ w₂ rv,
    w.ioAll i calls = some (w₁, (s.playAll (calls.map FileIo.op)).2) ∧
      w₁.fclose (some i) = some (w₂, rv) ∧
      view.contents w₂.driver.vol =
        Function.update files name (some (s.playAll (calls.map FileIo.op)).1.contents)

/-- `fopen` returns a null pointer and leaves the files alone. -/
def OpensNothing (view : FatfsView V Φ N) (w : Stdio (Fatfs V Φ) PrivateData)
    (uninit : UInt32) (filename mode : List UInt8) : Prop :=
  ∃ w', w.fopen uninit (some filename) mode = some (w', none) ∧
    view.contents w'.driver.vol = view.contents w.driver.vol

/-- `fopen` returns a stream that behaves as C prescribes for the mode, in the room that
the volume has for the file. -/
def OpensStream (view : FatfsView V Φ N) (w : Stdio (Fatfs V Φ) PrivateData)
    (uninit : UInt32) (filename mode : List UInt8) (name : N) (m : Mode) (c : List UInt8) : Prop :=
  ∃ w' i pos, w.fopen uninit (some filename) mode = some (w', some i) ∧ m.StartsAt c pos ∧
    Behaves view (view.contents w.driver.vol) name (view.room w.driver.vol name) w' i ⟨m, c, pos⟩

/-- What C prescribes for `fopen`: a string that is no mode opens nothing, and no more
does a mode for reading if the file is missing. -/
def Prescribed (view : FatfsView V Φ N) (w : Stdio (Fatfs V Φ) PrivateData)
    (uninit : UInt32) (filename mode : List UInt8) (name : N) : Prop :=
  match Mode.ofString (cstr mode) with
  | none => OpensNothing view w uninit filename mode
  | some m =>
      match m.opened (view.contents w.driver.vol name) with
      | none => OpensNothing view w uninit filename mode
      | some c => OpensStream view w uninit filename mode name m c

end Stdio

end Prescribed

namespace Stdio

section Sim

variable {V Φ N : Type*} {view : FatfsView V Φ N} {ff : FfApi V Φ}
  {files : N → Option (List UInt8)} {name : N} {room : ℕ}
  {w w' : Stdio (Fatfs V Φ) PrivateData} {i : ℕ} {s : Stream UInt8}

/-- The stream `i` is in use over FatFs, and its object is open on the file in the state
of `s`. -/
structure Sim (view : FatfsView V Φ N) (ff : FfApi V Φ) (files : N → Option (List UInt8))
    (name : N) (room : ℕ) (w : Stdio (Fatfs V Φ) PrivateData) (i : ℕ) (s : Stream UInt8) :
    Prop where
  table : w.TableOk
  inUse : w.files i = some i
  flags : (w.stream i).flags &&& oRdwr ≠ 0
  node : ∃ n, (w.stream i).node = some n ∧ (w.tree.node n).fOp = some ff.operations
  object : ∃ k, (w.stream i).privateData = .slot k ∧
    view.opens w.driver.vol (w.driver.files k) name (modeAccess s.mode) s.pos s.contents room
  placed : s.Placed
  others : ∀ m, m ≠ name → view.contents w.driver.vol m = files m

/-- An operation of FatFs that leaves the object open for another state of the stream. -/
theorem Sim.answered (h : Sim view ff files name room w i s) {s' : Stream UInt8} {k : ℕ} {fil : Φ}
    {v : V} (call : DriverCall) (rv : ℤ) (e : Errno) (hk : (w.stream i).privateData = .slot k)
    (hopens : view.opens v fil name (modeAccess s'.mode) s'.pos s'.contents room)
    (hplaced : s'.Placed) (hsame : view.SameBut name w.driver.vol v) :
    Sim view ff files name room
      (w.answered call i ⟨rv, e, w.stream i, FfApi.putBack w.driver k fil v⟩) i s' := by
  have hstream : (w.answered call i ⟨rv, e, w.stream i, FfApi.putBack w.driver k fil v⟩).stream i =
      w.stream i := answered_stream ..
  constructor
  case table => exact h.table
  case inUse => exact h.inUse
  case flags =>
    rw [hstream]
    exact h.flags
  case node =>
    rw [hstream]
    exact h.node
  case object =>
    refine ⟨k, ?_, ?_⟩
    · rw [hstream]
      exact hk
    have hfiles : (w.answered call i ⟨rv, e, w.stream i,
        FfApi.putBack w.driver k fil v⟩).driver.files k = fil := Function.update_self ..
    rw [hfiles]
    exact hopens
  case placed => exact hplaced
  case others => exact fun m hm => (hsame m hm).trans (h.others m hm)

theorem modeAccess_and_one (m : Mode) : modeAccess m &&& 1 ≠ 0 ↔ m.readable = true := by
  rw [modeAccess]
  cases m.readable <;> cases m.writable <;> decide

theorem modeAccess_and_two (m : Mode) : modeAccess m &&& 2 ≠ 0 ↔ m.writable = true := by
  rw [modeAccess]
  cases m.readable <;> cases m.writable <;> decide

/-- A call of `fread` or `fwrite` that FatFs answers so. -/
theorem Sim.streamIo (h : Sim view ff files name room w i s) {α : Type*}
    {member : FileOperations (Fatfs V Φ) PrivateData → Option α} {op : α}
    (hmember : member ff.operations = some op)
    (answer : α → Fatfs V Φ → File PrivateData →
      Option (Answer (Fatfs V Φ) PrivateData × List UInt8))
    (call : ℕ → ℕ → DriverCall) (access : UInt32) {s' : Stream UInt8} {k : ℕ} {fil : Φ} {v : V}
    {rv : ℤ} {e : Errno} {got : List UInt8} (hk : (w.stream i).privateData = .slot k)
    (hanswer : answer op w.driver (w.stream i) =
      some (⟨rv, e, w.stream i, FfApi.putBack w.driver k fil v⟩, got))
    (hopens : view.opens v fil name (modeAccess s'.mode) s'.pos s'.contents room)
    (hplaced : s'.Placed) (hsame : view.SameBut name w.driver.vol v) :
    ∃ w' rv', w.streamIo (some i) access (fun w fd => w.fdCall fd member answer call) =
      some (w', rv', got) ∧ Sim view ff files name room w' i s' := by
  obtain ⟨n, hnode, hops⟩ := h.node
  have hop : w.operation member n = some op := by
    rw [operation, hops, Option.bind_some, hmember]
  rw [h.table.streamIo_open access _ h.inUse h.flags,
    fdCall_of_some (h.table i i h.inUse).2 h.inUse hnode hop, hanswer]
  exact ⟨_, _, rfl, h.answered (call n i) rv e hk hopens hplaced hsame⟩

variable [DecidableEq N]

/-- A read gives what the stream has. -/
theorem Sim.fread (h : Sim view ff files name room w i s) (hff : view.Documents ff)
    (size nmemb : UInt32) :
    ∃ w' rv, w.fread size nmemb (some i) =
        some (w', rv, (s.play (.read (size * nmemb).toNat)).2) ∧
      Sim view ff files name room w' i (s.play (.read (size * nmemb).toNat)).1 := by
  obtain ⟨k, hk, hopens⟩ := h.object
  have hop : FileOperations.readOp ff.operations = some ff.fatfsRead := rfl
  have hplaced := h.placed.play (.read (size * nmemb).toNat)
  by_cases hreadable : s.mode.readable = true
  · obtain ⟨fil, v, hread, hsame, hopens'⟩ := hff.read _ _ _ _ _ _ _ (size * nmemb).toNat hopens
      ((modeAccess_and_one s.mode).2 hreadable)
    rw [Stream.play, if_pos hreadable] at hplaced ⊢
    exact h.streamIo hop (fun op d file => op d file (size * nmemb).toNat) _ _ hk
      (ff.fatfsRead_slot w.driver hk hread) hopens' hplaced hsame
  · obtain ⟨res, fil, v, hread, -, hsame, hopens'⟩ := hff.read_denied _ _ _ _ _ _ _
      (size * nmemb).toNat hopens (not_not.1 (mt (modeAccess_and_one s.mode).1 hreadable))
    rw [Stream.play, if_neg hreadable] at hplaced ⊢
    exact h.streamIo hop (fun op d file => op d file (size * nmemb).toNat) _ _ hk
      (ff.fatfsRead_slot w.driver hk hread) hopens' hplaced hsame

/-- A write does what it does to the stream. -/
theorem Sim.fwrite (h : Sim view ff files name room w i s) (hff : view.Documents ff)
    (ptr : ℕ → UInt8) (size nmemb : UInt32)
    (hroom : (s.play (.write (bytesAt ptr (size * nmemb)))).1.contents.length ≤ room) :
    ∃ w' rv, w.fwrite ptr size nmemb (some i) =
        some (w', rv, (s.play (.write (bytesAt ptr (size * nmemb)))).2) ∧
      Sim view ff files name room w' i (s.play (.write (bytesAt ptr (size * nmemb)))).1 := by
  set buf := bytesAt ptr (size * nmemb) with hbuf
  obtain ⟨k, hk, hopens⟩ := h.object
  have hop : FileOperations.writeOp ff.operations = some ff.fatfsWrite := rfl
  have hplaced := h.placed.play (.write buf)
  by_cases hwritable : s.mode.writable = true
  · rw [Stream.play, if_pos hwritable, h.placed.writePos_eq] at hplaced hroom ⊢
    obtain ⟨fil, v, hwrite, hsame, hopens'⟩ := hff.write _ _ _ _ _ _ _ buf hopens h.placed.le
      ((modeAccess_and_two s.mode).2 hwritable) hroom
    exact h.streamIo hop (fun op d file => (op d file buf).map fun a => (a, [])) _ _ hk
      (by rw [ff.fatfsWrite_slot w.driver hk hwrite, Option.map_some]) hopens' hplaced hsame
  · obtain ⟨res, fil, v, hwrite, -, hsame, hopens'⟩ := hff.write_denied _ _ _ _ _ _ _ buf hopens
      (not_not.1 (mt (modeAccess_and_two s.mode).1 hwritable))
    rw [Stream.play, if_neg hwritable] at hplaced ⊢
    exact h.streamIo hop (fun op d file => (op d file buf).map fun a => (a, [])) _ _ hk
      (by rw [ff.fatfsWrite_slot w.driver hk hwrite, Option.map_some]) hopens' hplaced hsame

theorem Sim.io (h : Sim view ff files name room w i s) (hff : view.Documents ff) (call : FileIo)
    (hroom : (s.play call.op).1.contents.length ≤ room) :
    ∃ w', w.io i call = some (w', (s.play call.op).2) ∧
      Sim view ff files name room w' i (s.play call.op).1 := by
  cases call with
  | fread size nmemb =>
      obtain ⟨w', rv, hfread, hsim⟩ := h.fread hff size nmemb
      refine ⟨w', ?_, hsim⟩
      rw [Stdio.io, hfread]
      rfl
  | fwrite ptr size nmemb =>
      obtain ⟨w', rv, hfwrite, hsim⟩ := h.fwrite hff ptr size nmemb hroom
      refine ⟨w', ?_, hsim⟩
      rw [Stdio.io, hfwrite]
      rfl

/-- The two play together through any number of calls. -/
theorem Sim.ioAll (h : Sim view ff files name room w i s) (hff : view.Documents ff)
    (calls : List FileIo)
    (hroom : (s.playAll (calls.map FileIo.op)).1.contents.length ≤ room) :
    ∃ w', w.ioAll i calls = some (w', (s.playAll (calls.map FileIo.op)).2) ∧
      Sim view ff files name room w' i (s.playAll (calls.map FileIo.op)).1 := by
  induction calls generalizing w s with
  | nil => exact ⟨w, rfl, h⟩
  | cons call calls ih =>
      obtain ⟨w₁, hio, hsim⟩ := h.io hff call (((s.play call.op).1.length_le_playAll _).trans hroom)
      obtain ⟨w₂, hrest, hsim'⟩ := ih hsim hroom
      refine ⟨w₂, ?_, hsim'⟩
      rw [Stdio.ioAll, hio, Option.bind_some]
      simp only [hrest]
      rfl

/-- What is at rest when the contents of one file are written out. -/
theorem Sim.update_contents (h : Sim view ff files name room w i s) (c : Option (List UInt8)) :
    Function.update (view.contents w.driver.vol) name c = Function.update files name c := by
  funext m
  by_cases hm : m = name
  · rw [hm, Function.update_self, Function.update_self]
  · rw [Function.update_of_ne hm, Function.update_of_ne hm, h.others m hm]

/-- The first of the two closes of `fclose` puts the contents of the stream into the
file, and the second one fails or does nothing. -/
theorem Sim.fclose (h : Sim view ff files name room w i s) (hff : view.Documents ff) :
    ∃ w' rv, w.fclose (some i) = some (w', rv) ∧
      view.contents w'.driver.vol = Function.update files name (some s.contents) := by
  obtain ⟨n, hnode, hops⟩ := h.node
  obtain ⟨k, hk, hopens⟩ := h.object
  obtain ⟨fil, v, hclose, hcontents, hagain⟩ := hff.close _ _ _ _ _ _ _ hopens
  rw [h.update_contents] at hcontents
  have hop : w.operation FileOperations.closeOp n = some ff.fatfsClose := by
    rw [operation, hops]
    rfl
  have hanswer : ff.fatfsClose w.driver (w.stream i) =
      some ⟨0, .ok, w.stream i, FfApi.putBack w.driver k fil v⟩ := by
    rw [ff.fatfsClose_slot w.driver hk, hclose]
    rfl
  have ha := closeAnswer_eq_some_iff.2 ⟨n, ff.fatfsClose, hnode, hop, hanswer⟩
  rw [h.table.fclose_eq_closeFd h.inUse hnode ha rfl]
  set w₁ := w.answered (.close n i) i ⟨0, .ok, w.stream i, FfApi.putBack w.driver k fil v⟩
  have hstream : w₁.stream i = w.stream i := answered_stream ..
  have hfil : w₁.driver.files k = fil := Function.update_self ..
  have hopen₁ : w₁.files i = some i := h.inUse
  have hk₁ : (w₁.stream i).privateData = .slot k := hstream ▸ hk
  have hnode₁ : (w₁.stream i).node = some n := hstream ▸ hnode
  have hanswer₁ := ff.fatfsClose_slot w₁.driver hk₁
  have ha₁ := closeAnswer_eq_some_iff.2 ⟨n, ff.fatfsClose, hnode₁, hop, hanswer₁⟩
  have hvol : view.contents (ff.fClose w₁.driver.vol (w₁.driver.files k)).2.2 =
      Function.update files name (some s.contents) := by
    rw [hfil]
    exact hagain.trans hcontents
  rw [closeFd_of_closeAnswer (h.table i i h.inUse).2 hopen₁ hnode₁ ha₁]
  split
  · exact ⟨_, _, rfl, hvol⟩
  · exact ⟨_, _, rfl, hvol⟩

theorem Sim.behaves (h : Sim view ff files name room w i s) (hff : view.Documents ff) :
    Behaves view files name room w i s := by
  intro calls hroom
  obtain ⟨w₁, hioAll, hsim⟩ := h.ioAll hff calls hroom
  obtain ⟨w₂, rv, hfclose, hcontents⟩ := hsim.fclose hff
  exact ⟨w₁, w₂, rv, hioAll, hfclose, hcontents⟩

end Sim

section Opens

variable {V Φ N : Type*} {view : FatfsView V Φ N} {ff : FfApi V Φ} {name : N}
  {w : Stdio (Fatfs V Φ) PrivateData} {filename : List UInt8}

/-- The path leads to FatFs and to a file there that `f_open` can open, and there is a
descriptor and an object left for it. -/
structure Served (view : FatfsView V Φ N) (ff : FfApi V Φ) (w : Stdio (Fatfs V Φ) PrivateData)
    (filename : List UInt8) (name : N) : Prop where
  node : ∃ n relative, (w.tree.nodeFind (some filename) .nearestPath).1 = some n ∧
    (w.tree.node n).fOp = some ff.operations ∧
    relativePathname filename (w.tree.node n).name = some relative ∧
    view.nameOf relative = some name
  free : w.free.Nonempty
  notFull : ¬ w.driver.Full
  ready : view.ready w.driver.vol name

/-- The call of `open` is one of `fatfs_open`. -/
theorem Served.openFile (h : Served view ff w filename name) (flags : UInt32) :
    ∃ n i relative a, i < maxFiles ∧ (w.tree.node n).fOp = some ff.operations ∧
      view.nameOf relative = some name ∧
      a = ff.fatfsOpen w.driver (w.openedFile i n flags) relative ∧
      (a.rv ≠ 0 → ∃ w', w.openFile (some filename) flags = some (w', -1) ∧
        w'.driver = a.driver) ∧
      (a.rv = 0 → ∃ w', w.openFile (some filename) flags = some (w', (i : ℤ)) ∧
        w'.files = Function.update w.files i (some i) ∧ w'.stream i = a.file ∧
        w'.driver = a.driver ∧ w'.tree = w.tree) := by
  obtain ⟨n, relative, hfind, hops, hrel, hname⟩ := h.node
  rcases w.fdNew_cases with ⟨-, hnone⟩ | ⟨i, hfd, hleast⟩
  · exact absurd hnone h.free.ne_empty
  · have hi : i < maxFiles := hleast.1.1
    have hop : w.operation FileOperations.openOp n = some ff.fatfsOpen := by
      rw [operation, hops]
      rfl
    refine ⟨n, i, relative, _, hi, hops, hname, rfl, fun hrv => ?_, fun hrv => ?_⟩
    · rw [openFile_of_operation flags hfind hop hfd hi hrel]
      simp only
      rw [if_pos hrv, fdDelete_of_lt _ hi]
      exact ⟨_, rfl, rfl⟩
    · rw [openFile_of_operation flags hfind hop hfd hi hrel]
      simp only
      rw [if_neg (not_not.2 hrv)]
      exact ⟨_, rfl, rfl, Function.update_self .., rfl, rfl⟩

variable [DecidableEq N]

/-- Where `f_open` refuses, so does `fopen`. -/
theorem Served.opensNothing (h : Served view ff w filename name) (hff : view.Documents ff)
    {uninit : UInt32} {mode : List UInt8}
    (hnone : faOpened (fatfsModes (fopenFlag uninit mode) &&& faMethods)
      (view.contents w.driver.vol name) = none) :
    OpensNothing view w uninit filename mode := by
  obtain ⟨n, i, relative, a, -, -, hname, ha, hfailed, -⟩ := h.openFile (fopenFlag uninit mode)
  obtain ⟨res, fil, v, hfo, hres, hcontents⟩ := hff.open_refused w.driver.vol relative name
    (fatfsModes (fopenFlag uninit mode)) hname h.ready (fatfsModes_and_faMethods_mem _) hnone
  have hrefused : ff.fatfsOpen w.driver (w.openedFile i n (fopenFlag uninit mode)) relative =
      ⟨-1, fatfsToErrno res, _, { w.driver with vol := v }⟩ :=
    ff.fatfsOpen_of_refused h.notFull hfo hres
  rw [hrefused] at ha
  obtain ⟨w', hopen, hdriver⟩ := hfailed (by rw [ha]; exact nofun)
  refine ⟨_, fopen_of_openFile_failed hopen, ?_⟩
  rw [show ({ w' with errno := .ebadf } : Stdio (Fatfs V Φ) PrivateData).driver = a.driver from
    hdriver, ha]
  exact hcontents

/-- Where `f_open` opens, `fopen` returns a stream, which in a mode of C behaves so. -/
theorem Served.fopen (h : Served view ff w filename name) (hff : view.Documents ff)
    (htable : w.TableOk) {uninit : UInt32} {mode : List UInt8} {c : List UInt8}
    (hsome : faOpened (fatfsModes (fopenFlag uninit mode) &&& faMethods)
      (view.contents w.driver.vol name) = some c) :
    ∃ w' i, w.fopen uninit (some filename) mode = some (w', some i) ∧
      ∀ m, fopenFlag uninit mode = modeFlags m →
        Sim view ff (view.contents w.driver.vol) name (view.room w.driver.vol name) w' i
          ⟨m, c, m.start c⟩ := by
  set flags := fopenFlag uninit mode
  obtain ⟨n, i, relative, a, hi, hops, hname, ha, -, hok⟩ := h.openFile flags
  obtain ⟨fil, v, hfo, hcontents, hopens⟩ := hff.open_ok w.driver.vol relative name
    (fatfsModes flags) c hname h.ready (fatfsModes_and_faMethods_mem _) hsome
  have hsame : view.SameBut name w.driver.vol v := by
    intro m hm
    rw [hcontents, Function.update_of_ne hm]
  obtain ⟨fil', v', pos, hopened, hopens', hpos, hsame'⟩ :=
    hff.fatfsOpen_eq_keep (w.openedFile i n flags) h.notFull hfo hopens
      (hff.length_le_room h.ready hsome) hsame
  rw [hopened] at ha
  obtain ⟨w', hopen, hfiles, hstream, hdriver, htree⟩ := hok (by rw [ha]; rfl)
  have hfile : w'.files i = some i := by
    rw [hfiles, Function.update_self]
  have hself : (w'.setFlags i (· &&& ~~~sErr)).stream i =
      ⟨flags &&& ~~~sErr, some n, .slot w.driver.index⟩ := by
    rw [setFlags_stream, hstream, ha]
    rfl
  have hself' : (w'.setFlags i (· &&& ~~~sErr)).driver = a.driver := hdriver
  refine ⟨_, i, fopen_of_openFile hopen hi hfile, fun m hm => ?_⟩
  constructor
  case table => exact (htable.insert hi).of_files hfiles
  case inUse => exact hfile
  case flags =>
    rw [hself, hm]
    exact modeFlags_and_oRdwr m
  case node => exact ⟨n, congrArg File.node hself, htree ▸ hops⟩
  case object =>
    have hflags : (w.openedFile i n flags).flags = modeFlags m := hm
    have hstart : pos = m.start c := by
      rw [hpos, hflags, start_eq]
    refine ⟨w.driver.index, congrArg File.privateData hself, ?_⟩
    rw [hself', ha, ← fatfsModes_modeFlags, ← hm, ← hstart]
    simp only [FfApi.keep, Function.update_self]
    exact hopens'
  case placed => exact m.placed_start c
  case others =>
    rw [hself', ha]
    exact hsame'

/-- The condition under which `fopen` does what C prescribes. In append mode the file
must be missing; and a string that is no mode must leave flags with which `f_open` refuses
the file. -/
def ModeOk (file : Option (List UInt8)) (uninit : UInt32) (mode : List UInt8) : Prop :=
  match Mode.ofString (cstr mode) with
  | some m => m.base = .append → file = none
  | none => if uninit &&& oCreat = 0 then file = none else uninit &&& oTrunc = 0 ∧ file ≠ none

theorem faOpened_eq_none_iff (flags : UInt32) (file : Option (List UInt8)) :
    faOpened (fatfsModes flags &&& faMethods) file = none ↔
      if flags &&& oCreat = 0 then file = none else flags &&& oTrunc = 0 ∧ file ≠ none := by
  rw [fatfsModes_and_faMethods]
  split
  · simp [faOpened]
  · split
    · rename_i htrunc
      cases file <;> simp [faOpened, htrunc]
    · rename_i htrunc
      simp [faOpened, htrunc]

/-- Only an append mode on a file that exists is refused where C opens the file. -/
theorem faOpened_modeFlags (m : Mode) (file : Option (List UInt8)) :
    faOpened (fatfsModes (modeFlags m) &&& faMethods) file =
      if m.base = .append ∧ file ≠ none then none else m.opened file := by
  rw [fatfsModes_modeFlags_method, Mode.opened]
  cases m.base <;> cases file <;> simp [faOpened]

/-- `fopen` does what C prescribes for the mode exactly under that condition. -/
theorem prescribed_iff (hff : view.Documents ff)
    {tree : NodeTree (FileOperations (Fatfs V Φ) PrivateData)} {driver : Fatfs V Φ}
    {stream : ℕ → File PrivateData} (hw : Transition.Reachable step (init tree driver stream) w)
    (h : Served view ff w filename name) (uninit : UInt32) (mode : List UInt8) :
    Prescribed view w uninit filename mode name ↔
      ModeOk (view.contents w.driver.vol name) uninit mode := by
  have htable := tableOk_of_reachable hw
  set file := view.contents w.driver.vol name with hfile
  have hnothing : ∀ {flags}, fopenFlag uninit mode = flags →
      faOpened (fatfsModes flags &&& faMethods) file = none →
      OpensNothing view w uninit filename mode := by
    rintro flags rfl hnone
    exact h.opensNothing hff hnone
  cases hmode : Mode.ofString (cstr mode) with
  | none =>
      have hflags := fopenFlag_of_none hmode uninit
      rw [Prescribed, ModeOk, hmode]
      simp only
      rw [← faOpened_eq_none_iff]
      constructor
      · rintro ⟨w₁, hfopen, -⟩
        by_contra hne
        obtain ⟨c, hc⟩ := Option.ne_none_iff_exists'.1 hne
        rw [← hflags] at hc
        obtain ⟨w₂, i, hfopen', -⟩ := h.fopen hff htable hc
        rw [hfopen] at hfopen'
        cases hfopen'
      · exact hnothing hflags
  | some m =>
      have hflags := fopenFlag_of_mode hmode uninit
      have hopened := faOpened_modeFlags m file
      rw [Prescribed, ModeOk, hmode]
      simp only
      by_cases hbad : m.base = .append ∧ file ≠ none
      · -- `FA_CREATE_NEW` refuses the file
        rw [if_pos hbad] at hopened
        obtain ⟨w₁, hfopen, -⟩ := hnothing hflags hopened
        have hsome : m.opened file = some (file.getD []) := by
          rw [Mode.opened, hbad.1]
        rw [← hfile, hsome]
        refine iff_of_false ?_ fun hok => hbad.2 (hok hbad.1)
        rintro ⟨w₂, i, pos, hfopen', -⟩
        rw [hfopen] at hfopen'
        cases hfopen'
      · rw [if_neg hbad] at hopened
        refine iff_of_true ?_ fun happend => not_not.1 fun hne => hbad ⟨happend, hne⟩
        rw [← hfile]
        cases hc : m.opened file with
        | none => exact hnothing hflags (hopened.trans hc)
        | some c =>
            rw [hc, ← hflags] at hopened
            obtain ⟨w', i, hfopen, hsim⟩ := h.fopen hff htable hopened
            exact ⟨w', i, m.start c, hfopen, m.startsAt_start c, (hsim m hflags).behaves hff⟩

end Opens

section RamDisk

/-- An open object of a volume in memory, which holds the contents until it is closed. -/
structure RamFile where
  name : List UInt8
  access : UInt8
  pos : ℕ
  contents : List UInt8

/-- The size up to which a file can grow, as its entry has 32 bits for it. -/
def maxFileSize : ℕ := 0xFFFFFFFF

/-- A volume in memory, as a map from names to contents. -/
def ramDisk : FfApi (List UInt8 → Option (List UInt8)) (Option RamFile) where
  fOpen := fun v _ path mode =>
    match faOpened (mode &&& faMethods) (v path) with
    | none => (if v path = none then .noFile else .exist, none, v)
    | some c => (.ok, some ⟨path, mode &&& 3, 0, c⟩, Function.update v path (some c))
  fLseek := fun v fil ofs =>
    match fil with
    | none => (.invalidObject, none, v)
    | some f => (.ok, some { f with pos := min ofs f.contents.length }, v)
  fSize := fun fil => fil.elim 0 fun f => f.contents.length
  fRead := fun v fil count =>
    match fil with
    | none => (.invalidObject, [], none, v)
    | some f =>
        if f.access &&& 1 = 0 then (.denied, [], some f, v)
        else
          let got := (f.contents.drop f.pos).take count
          (.ok, got, some { f with pos := f.pos + got.length }, v)
  fWrite := fun v fil buf =>
    match fil with
    | none => (.invalidObject, 0, none, v)
    | some f =>
        if f.access &&& 2 = 0 then (.denied, 0, some f, v)
        else
          let new := buf.take (maxFileSize - f.pos)
          (.ok, new.length,
            some ⟨f.name, f.access, f.pos + new.length, overwrite f.contents f.pos new⟩, v)
  fClose := fun v fil =>
    match fil with
    | none => (.invalidObject, none, v)
    | some f => (.ok, none, Function.update v f.name (some f.contents))
  fMkdir := fun v _ => (.denied, v)
  fUnlink := fun v path => (.ok, Function.update v path none)
  zero := none

/-- Its names are the paths themselves. -/
def ramView :
    FatfsView (List UInt8 → Option (List UInt8)) (Option RamFile) (List UInt8) where
  nameOf := some
  contents := id
  ready := fun v n => ∀ c, v n = some c → c.length ≤ maxFileSize
  room := fun _ _ => maxFileSize
  opens := fun _ fil n a pos c room => fil = some ⟨n, a, pos, c⟩ ∧ room = maxFileSize

theorem ramDisk_fOpen_of_none {v : List UInt8 → Option (List UInt8)} {path : List UInt8}
    {mode : UInt8} (fil : Option RamFile) (h : faOpened (mode &&& faMethods) (v path) = none) :
    ramDisk.fOpen v fil path mode = (if v path = none then .noFile else .exist, none, v) := by
  simp only [ramDisk, h]

theorem ramDisk_fOpen_of_some {v : List UInt8 → Option (List UInt8)} {path c : List UInt8}
    {mode : UInt8} (fil : Option RamFile) (h : faOpened (mode &&& faMethods) (v path) = some c) :
    ramDisk.fOpen v fil path mode =
      (.ok, some ⟨path, mode &&& 3, 0, c⟩, Function.update v path (some c)) := by
  simp only [ramDisk, h]

theorem ramView_documents : ramView.Documents ramDisk := by
  constructor
  case fits => exact fun v n c hready hc => hready c hc
  case open_refused =>
    rintro v path n mode ⟨⟩ - - hnone
    refine ⟨_, _, _, ramDisk_fOpen_of_none _ hnone, ?_, rfl⟩
    split
    · exact nofun
    · exact nofun
  case open_ok =>
    rintro v path n mode c ⟨⟩ - - hsome
    exact ⟨_, _, ramDisk_fOpen_of_some _ hsome, rfl, rfl, rfl⟩
  case size =>
    rintro v fil n a pos c room ⟨rfl, -⟩ -
    rfl
  case lseek =>
    rintro v fil n a pos c room ofs ⟨rfl, hroom⟩ hofs
    refine ⟨_, _, rfl, fun _ _ => rfl, ?_, hroom⟩
    rw [min_eq_left hofs]
  case read =>
    rintro v fil n a pos c room count ⟨rfl, hroom⟩ ha
    simp only [ramDisk, if_neg ha]
    exact ⟨_, _, rfl, fun _ _ => rfl, rfl, hroom⟩
  case read_denied =>
    rintro v fil n a pos c room count ⟨rfl, hroom⟩ ha
    simp only [ramDisk, if_pos ha]
    exact ⟨_, _, _, rfl, nofun, fun _ _ => rfl, rfl, hroom⟩
  case write =>
    rintro v fil n a pos c room buf ⟨rfl, rfl⟩ hpos ha hlen
    have htake : buf.take (maxFileSize - pos) = buf := by
      have := length_overwrite hpos buf
      exact List.take_of_length_le (by omega)
    simp only [ramDisk, if_neg ha, htake]
    exact ⟨_, _, rfl, fun _ _ => rfl, rfl, rfl⟩
  case write_denied =>
    rintro v fil n a pos c room buf ⟨rfl, hroom⟩ ha
    simp only [ramDisk, if_pos ha]
    exact ⟨_, _, _, rfl, nofun, fun _ _ => rfl, rfl, hroom⟩
  case close =>
    rintro v fil n a pos c room ⟨rfl, -⟩
    exact ⟨_, _, rfl, rfl, rfl⟩

/-- It is mounted at `/fs`, and nothing is open. -/
def ramWorld (v : List UInt8 → Option (List UInt8)) :
    Stdio (Fatfs (List UInt8 → Option (List UInt8)) (Option RamFile)) PrivateData :=
  init ((NodeTree.init _).nodeMount 1 (some [0x2F, 0x66, 0x73]) (some ramDisk.operations)).tree
    ⟨fun _ => none, 0, v⟩ fun _ => ⟨0, none, .null⟩

/-- `/fs/a`. -/
def fsA : List UInt8 := [0x2F, 0x66, 0x73, 0x2F, 0x61]

theorem served_fsA {v : List UInt8 → Option (List UInt8)}
    (hv : ∀ c, v [0x61] = some c → c.length ≤ maxFileSize) :
    Served ramView ramDisk (ramWorld v) fsA [0x61] where
  node := ⟨1, [0x61], rfl, rfl, rfl, rfl⟩
  free := ⟨0, by decide, rfl⟩
  notFull := show ¬ 0 ≥ fatfsMaxFiles - 1 by decide
  ready := hv

/-- `/fs/a` is missing, and opened for appending. -/
theorem prescribed_iff_append :
    Prescribed ramView (ramWorld fun _ => none) 0 fsA [0x61] [0x61] :=
  (prescribed_iff ramView_documents (Transition.Reachable.refl _)
    (served_fsA fun _ hc => absurd hc (Option.some_ne_none _).symm) 0 [0x61]).2 fun _ => rfl

/-- The volume with one file `a`, which contains `x`. -/
def onlyA : List UInt8 → Option (List UInt8) := Function.update (fun _ => none) [0x61] (some [0x78])

/-- `/fs/a` exists. It is not opened for appending, and in a mode that is none it is opened
for writing. -/
theorem fopen_not_prescribed :
    ((ramWorld onlyA).fopen 0 (some fsA) [0x61]).map Prod.snd = some none ∧
      ¬ Prescribed ramView (ramWorld onlyA) 0 fsA [0x61] [0x61] ∧
      ((ramWorld onlyA).fopen 0 (some fsA) [0x78]).map Prod.snd = some (some 0) ∧
      ¬ Prescribed ramView (ramWorld onlyA) 0 fsA [0x78] [0x61] := by
  have happend : ((ramWorld onlyA).fopen 0 (some fsA) [0x61]).map Prod.snd =
      some none := by decide +kernel
  have hnone : ((ramWorld onlyA).fopen 0 (some fsA) [0x78]).map Prod.snd =
      some (some 0) := by decide +kernel
  refine ⟨happend, ?_, hnone, ?_⟩
  · rintro ⟨w, i, pos, hfopen, -⟩
    rw [hfopen] at happend
    cases happend
  · rintro ⟨w, hfopen, -⟩
    rw [hfopen] at hnone
    cases hnone

end RamDisk

end Stdio

end Catpilot
