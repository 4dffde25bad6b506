import Catpilot.Fatfs.Driver
import Catpilot.Transition.Run

/-!
# The table of file objects

Every successful `fatfs_open` takes the next object of the table, and no close gives
one back. So two open files never share an object, but once an object was let go of
the table can be used up while it is not in use.
-/

namespace Catpilot

open Transition

/-- The driver and the files of its callers. `isOpen` are the files that are open, and
`released` says that one of them has let go of its object: it was closed, or opened
once more. -/
structure FilePool (V Φ : Type*) where
  fatfs : Fatfs V Φ
  file : ℕ → File PrivateData
  isOpen : ℕ → Bool
  released : Bool

/-- A call of `fatfs_open`, with the flags the caller has set in the file, or of
`fatfs_close`. -/
inductive FatfsCall where
  | open (file : ℕ) (flags : UInt32) (path : List UInt8)
  | close (file : ℕ)
  deriving DecidableEq, Repr

/-- An open comes in time: there are objects left, or no file has let go of one. -/
def OpenInTime {V Φ : Type*} (p : FilePool V Φ) : FatfsCall → Prop
  | .open _ _ _ => ¬ p.fatfs.Full ∨ p.released = false
  | .close _ => True

instance {V Φ : Type*} (p : FilePool V Φ) (call : FatfsCall) : Decidable (OpenInTime p call) :=
  match call with
  | .open _ _ _ => inferInstanceAs (Decidable (¬ p.fatfs.Full ∨ p.released = false))
  | .close _ => isTrue trivial

namespace FilePool

section Pool

variable {V Φ : Type*} {p p' : FilePool V Φ}

/-- Nothing is open, and the files are cleared. -/
def init (ff : FfApi V Φ) (vol : V) : FilePool V Φ :=
  ⟨⟨fun _ => ff.zero, 0, vol⟩, fun _ => ⟨0, none, .null⟩, fun _ => false, false⟩

/-- The pool after `fatfs_open` has answered for the file `f`. -/
def opened (p : FilePool V Φ) (f : ℕ) (a : Answer (Fatfs V Φ) PrivateData) : FilePool V Φ :=
  let kept : Bool := a.file.privateData = (p.file f).privateData
  { fatfs := a.driver
    file := Function.update p.file f a.file
    isOpen := Function.update p.isOpen f (a.rv = 0 || p.isOpen f && kept)
    released := p.released || p.isOpen f && !kept }

/-- The pool after `fatfs_close` has answered for the file `f`. -/
def closed (p : FilePool V Φ) (f : ℕ) (a : Answer (Fatfs V Φ) PrivateData) : FilePool V Φ :=
  { fatfs := a.driver
    file := Function.update p.file f a.file
    isOpen := Function.update p.isOpen f (p.isOpen f && a.rv ≠ 0)
    released := p.released || p.isOpen f && a.rv = 0 }

/-- A call of the driver. -/
def step (ff : FfApi V Φ) (p : FilePool V Φ) : FatfsCall → Option (FilePool V Φ)
  | .open f flags path => some (p.opened f (ff.fatfsOpen p.fatfs { p.file f with flags } path))
  | .close f => (ff.fatfsClose p.fatfs (p.file f)).map (p.closed f)

/-- The object `i` is held by a file that is open. -/
def Held (p : FilePool V Φ) (i : ℕ) : Prop :=
  ∃ f, p.isOpen f = true ∧ (p.file f).privateData = .slot i

/-- Every open file has an object of the table, and no two have the same one. -/
def NoSharing (p : FilePool V Φ) : Prop :=
  (∀ f, p.isOpen f = true → ∃ i < fatfsMaxFiles - 1, (p.file f).privateData = .slot i) ∧
    ∀ f g, p.isOpen f = true → p.isOpen g = true →
      (p.file f).privateData = (p.file g).privateData → f = g

/-- An open is refused for lack of objects only when each of them is held. -/
def RefusedWhenFull (p : FilePool V Φ) : FatfsCall → Prop
  | .open _ _ _ => p.fatfs.Full → ∀ i < fatfsMaxFiles - 1, p.Held i
  | .close _ => True

/-- What holds in every run. -/
structure PoolOk (p : FilePool V Φ) : Prop where
  index_le : p.fatfs.index ≤ fatfsMaxFiles - 1
  slot : ∀ f, p.isOpen f = true → ∃ i < p.fatfs.index, (p.file f).privateData = .slot i
  inj : ∀ f g, p.isOpen f = true → p.isOpen g = true →
    (p.file f).privateData = (p.file g).privateData → f = g
  held : p.released = false → ∀ i < p.fatfs.index, p.Held i
  lost : p.released = true → ∃ i < p.fatfs.index, ¬ p.Held i

theorem poolOk_init (ff : FfApi V Φ) (vol : V) : (init ff vol).PoolOk where
  index_le := Nat.zero_le _
  slot := fun _ => nofun
  inj := fun _ _ => nofun
  held := fun _ i hi => absurd hi (Nat.not_lt_zero i)
  lost := nofun

/-- The invariant looks at the files through what they point to only. -/
theorem PoolOk.congr (h : p.PoolOk) (hindex : p'.fatfs.index = p.fatfs.index)
    (hopen : p'.isOpen = p.isOpen) (hreleased : p'.released = p.released)
    (hdata : ∀ g, (p'.file g).privateData = (p.file g).privateData) : p'.PoolOk := by
  have hheld : ∀ i, p'.Held i ↔ p.Held i := by
    intro i
    simp only [Held, hopen, hdata]
  constructor
  case index_le => exact hindex ▸ h.index_le
  case slot => simpa only [hopen, hindex, hdata] using h.slot
  case inj => simpa only [hopen, hdata] using h.inj
  case held => simpa only [hreleased, hindex, hheld] using h.held
  case lost => simpa only [hreleased, hindex, hheld] using h.lost

/-- A file lets go of its object, if it had one. -/
theorem PoolOk.letGo (h : p.PoolOk) {f : ℕ} (hindex : p'.fatfs.index = p.fatfs.index)
    (hopen : p'.isOpen = Function.update p.isOpen f false)
    (hreleased : p'.released = (p.released || p.isOpen f))
    (hdata : ∀ g, g ≠ f → (p'.file g).privateData = (p.file g).privateData) : p'.PoolOk := by
  have hother : ∀ g, p'.isOpen g = true →
      g ≠ f ∧ p.isOpen g = true ∧ (p'.file g).privateData = (p.file g).privateData := by
    intro g hg
    have hgf : g ≠ f := by
      rintro rfl
      rw [hopen, Function.update_self] at hg
      cases hg
    rw [hopen, Function.update_of_ne hgf] at hg
    exact ⟨hgf, hg, hdata g hgf⟩
  have hheld : ∀ i, p'.Held i → ∃ g, g ≠ f ∧ p.isOpen g = true ∧
      (p.file g).privateData = .slot i := by
    rintro i ⟨g, hg, hslot⟩
    obtain ⟨hgf, hopeng, hsame⟩ := hother g hg
    exact ⟨g, hgf, hopeng, hsame ▸ hslot⟩
  constructor
  case index_le => exact hindex ▸ h.index_le
  case slot =>
    intro g hg
    obtain ⟨-, hopeng, hsame⟩ := hother g hg
    rw [hsame, hindex]
    exact h.slot g hopeng
  case inj =>
    intro g k hg hk heq
    obtain ⟨-, hopeng, hsameg⟩ := hother g hg
    obtain ⟨-, hopenk, hsamek⟩ := hother k hk
    rw [hsameg, hsamek] at heq
    exact h.inj g k hopeng hopenk heq
  case held =>
    intro hrel i hi
    rw [hreleased, Bool.or_eq_false_iff] at hrel
    rw [hindex] at hi
    obtain ⟨g, hg, hslot⟩ := h.held hrel.1 i hi
    have hgf : g ≠ f := by
      rintro rfl
      rw [hrel.2] at hg
      cases hg
    refine ⟨g, ?_, ?_⟩
    · rw [hopen, Function.update_of_ne hgf, hg]
    · rw [hdata g hgf, hslot]
  case lost =>
    intro hrel
    rw [hreleased, Bool.or_eq_true] at hrel
    rw [hindex]
    rcases hrel with hrel | hf
    · obtain ⟨i, hi, hnot⟩ := h.lost hrel
      refine ⟨i, hi, fun hh => ?_⟩
      obtain ⟨g, -, hg, hslot⟩ := hheld i hh
      exact hnot ⟨g, hg, hslot⟩
    · obtain ⟨i, hi, hslot⟩ := h.slot f hf
      refine ⟨i, hi, fun hh => ?_⟩
      obtain ⟨g, hgf, hg, hslotg⟩ := hheld i hh
      exact hgf (h.inj g f hg hf (hslotg.trans hslot.symm))

/-- A file that is not open gets the next object. -/
theorem PoolOk.give (h : p.PoolOk) {f : ℕ} (hf : p.isOpen f = false)
    (hlt : p.fatfs.index < fatfsMaxFiles - 1) (hindex : p'.fatfs.index = p.fatfs.index + 1)
    (hopen : p'.isOpen = Function.update p.isOpen f true) (hreleased : p'.released = p.released)
    (hfile : (p'.file f).privateData = .slot p.fatfs.index)
    (hdata : ∀ g, g ≠ f → (p'.file g).privateData = (p.file g).privateData) : p'.PoolOk := by
  have hopenf : p'.isOpen f = true := by
    rw [hopen, Function.update_self]
  have hother : ∀ g, g ≠ f → p'.isOpen g = p.isOpen g := by
    intro g hgf
    rw [hopen, Function.update_of_ne hgf]
  have hfresh : ∀ g, p'.isOpen g = true → g ≠ f →
      (p'.file g).privateData ≠ .slot p.fatfs.index := by
    intro g hg hgf hslot
    rw [hother g hgf] at hg
    obtain ⟨i, hi, hsloti⟩ := h.slot g hg
    rw [hdata g hgf, hsloti] at hslot
    exact Nat.ne_of_lt hi (PrivateData.slot.inj hslot)
  constructor
  case index_le =>
    rw [hindex]
    exact hlt
  case slot =>
    intro g hg
    rw [hindex]
    by_cases hgf : g = f
    · exact ⟨p.fatfs.index, Nat.lt_succ_self _, by rw [hgf, hfile]⟩
    · rw [hother g hgf] at hg
      obtain ⟨i, hi, hslot⟩ := h.slot g hg
      exact ⟨i, Nat.lt_succ_of_lt hi, by rw [hdata g hgf, hslot]⟩
  case inj =>
    intro g k hg hk heq
    by_cases hgf : g = f
    · by_cases hkf : k = f
      · rw [hgf, hkf]
      · rw [hgf, hfile] at heq
        exact absurd heq.symm (hfresh k hk hkf)
    · by_cases hkf : k = f
      · rw [hkf, hfile] at heq
        exact absurd heq (hfresh g hg hgf)
      · rw [hother g hgf] at hg
        rw [hother k hkf] at hk
        rw [hdata g hgf, hdata k hkf] at heq
        exact h.inj g k hg hk heq
  case held =>
    intro hrel i hi
    rw [hreleased] at hrel
    rw [hindex] at hi
    rcases Nat.lt_succ_iff_lt_or_eq.1 hi with hi | rfl
    · obtain ⟨g, hg, hslot⟩ := h.held hrel i hi
      have hgf : g ≠ f := by
        rintro rfl
        rw [hf] at hg
        cases hg
      exact ⟨g, (hother g hgf).trans hg, (hdata g hgf).trans hslot⟩
    · exact ⟨f, hopenf, hfile⟩
  case lost =>
    intro hrel
    rw [hreleased] at hrel
    obtain ⟨i, hi, hnot⟩ := h.lost hrel
    rw [hindex]
    refine ⟨i, Nat.lt_succ_of_lt hi, ?_⟩
    rintro ⟨g, hg, hslot⟩
    by_cases hgf : g = f
    · rw [hgf, hfile] at hslot
      exact Nat.ne_of_gt hi (PrivateData.slot.inj hslot)
    · exact hnot ⟨g, (hother g hgf).symm.trans hg, (hdata g hgf).symm.trans hslot⟩

end Pool

section Calls

variable {V Φ : Type*} {p p' : FilePool V Φ} {f : ℕ} {a : Answer (Fatfs V Φ) PrivateData}

theorem opened_file_self (p : FilePool V Φ) (f : ℕ) (a : Answer (Fatfs V Φ) PrivateData) :
    (p.opened f a).file f = a.file := Function.update_self ..

theorem opened_file_of_ne (p : FilePool V Φ) {f g : ℕ} (a : Answer (Fatfs V Φ) PrivateData)
    (h : g ≠ f) : (p.opened f a).file g = p.file g := Function.update_of_ne h ..

theorem closed_file_self (p : FilePool V Φ) (f : ℕ) (a : Answer (Fatfs V Φ) PrivateData) :
    (p.closed f a).file f = a.file := Function.update_self ..

theorem closed_file_of_ne (p : FilePool V Φ) {f g : ℕ} (a : Answer (Fatfs V Φ) PrivateData)
    (h : g ≠ f) : (p.closed f a).file g = p.file g := Function.update_of_ne h ..

/-- An open that is refused at once leaves the file as it was. -/
theorem PoolOk.opened_refused (h : p.PoolOk) (hindex : a.driver.index = p.fatfs.index)
    (hrv : a.rv = -1) (hdata : a.file.privateData = (p.file f).privateData) :
    (p.opened f a).PoolOk := by
  refine h.congr hindex ?_ ?_ fun g => ?_
  · simp [opened, hrv, hdata]
  · simp [opened, hdata]
  · by_cases hgf : g = f
    · rw [hgf, opened_file_self, hdata]
    · rw [opened_file_of_ne p a hgf]

/-- After an open that FatFs refuses the file is not open, whatever it was before. -/
theorem PoolOk.opened_failed (h : p.PoolOk) (hindex : a.driver.index = p.fatfs.index)
    (hrv : a.rv = -1) (hdata : a.file.privateData = .tmp) : (p.opened f a).PoolOk := by
  have hmoved : p.isOpen f = true → a.file.privateData ≠ (p.file f).privateData := by
    intro hf
    obtain ⟨i, -, hslot⟩ := h.slot f hf
    rw [hdata, hslot]
    exact nofun
  refine h.letGo (f := f) hindex ?_ ?_ fun g hgf => by rw [opened_file_of_ne p a hgf]
  · cases hf : p.isOpen f with
    | false => simp [opened, hrv, hf]
    | true => simp [opened, hrv, hf, hmoved hf]
  · cases hf : p.isOpen f with
    | false => simp [opened, hf]
    | true => simp [opened, hf, hmoved hf]

/-- An open that succeeds lets go of the old object of the file and gives it the next
one. -/
theorem PoolOk.opened_given (h : p.PoolOk) (hlt : p.fatfs.index < fatfsMaxFiles - 1)
    (hindex : a.driver.index = p.fatfs.index + 1) (hrv : a.rv = 0)
    (hdata : a.file.privateData = .slot p.fatfs.index) : (p.opened f a).PoolOk := by
  have hmoved : p.isOpen f = true → a.file.privateData ≠ (p.file f).privateData := by
    intro hf
    obtain ⟨i, hi, hslot⟩ := h.slot f hf
    rw [hdata, hslot]
    exact fun heq => Nat.ne_of_gt hi (PrivateData.slot.inj heq)
  set q : FilePool V Φ :=
    { p with
      isOpen := Function.update p.isOpen f false
      released := p.released || p.isOpen f } with hq
  have hqok : q.PoolOk := h.letGo (f := f) rfl rfl rfl fun _ _ => rfl
  refine hqok.give (f := f) (Function.update_self ..) hlt hindex ?_ ?_ ?_ fun g hgf => ?_
  · simp [opened, hrv, hq]
  · cases hf : p.isOpen f with
    | false => simp [opened, hf, hq]
    | true => simp [opened, hf, hmoved hf, hq]
  · rw [opened_file_self, hdata]
  · rw [opened_file_of_ne p a hgf]

theorem PoolOk.closed (h : p.PoolOk) (hindex : a.driver.index = p.fatfs.index)
    (hdata : a.file.privateData = (p.file f).privateData) : (p.closed f a).PoolOk := by
  by_cases hrv : a.rv = 0
  · refine h.letGo (f := f) hindex ?_ ?_ fun g hgf => by rw [closed_file_of_ne p a hgf]
    · simp [FilePool.closed, hrv]
    · simp [FilePool.closed, hrv]
  · refine h.congr hindex ?_ ?_ fun g => ?_
    · simp [FilePool.closed, hrv]
    · simp [FilePool.closed, hrv]
    · by_cases hgf : g = f
      · rw [hgf, closed_file_self, hdata]
      · rw [closed_file_of_ne p a hgf]

/-- A call keeps the invariant, whatever FatFs answers. -/
theorem PoolOk.step (h : p.PoolOk) (ff : FfApi V Φ) {call : FatfsCall}
    (hs : FilePool.step ff p call = some p') : p'.PoolOk := by
  cases call with
  | «open» f flags path =>
      obtain rfl := Option.some.inj hs
      rcases ff.fatfsOpen_cases (Q := fun _ => True) (fun _ _ _ _ _ => trivial)
        (fun _ _ _ _ => trivial) p.fatfs { p.file f with flags } path with
        ⟨-, ha⟩ | ⟨hroom, ⟨hrv, hfile, hindex, -⟩ | ⟨hrv, hfile, hindex, -⟩⟩
      · rw [ha]
        exact h.opened_refused rfl rfl rfl
      · exact h.opened_failed hindex hrv (by rw [hfile])
      · exact h.opened_given (Nat.lt_of_not_le hroom) hindex hrv (by rw [hfile])
  | close f =>
      obtain ⟨a, ha, rfl⟩ := Option.map_eq_some_iff.1 hs
      rcases ff.fatfsClose_cases ha with rfl | ⟨i, -, rfl⟩
      · exact h.closed rfl rfl
      · exact h.closed rfl rfl

theorem PoolOk.noSharing (h : p.PoolOk) : p.NoSharing := by
  refine ⟨fun f hf => ?_, h.inj⟩
  obtain ⟨i, hi, hslot⟩ := h.slot f hf
  exact ⟨i, Nat.lt_of_lt_of_le hi h.index_le, hslot⟩

/-- At a single call the two conditions are the same. -/
theorem PoolOk.refusedWhenFull_iff (h : p.PoolOk) (call : FatfsCall) :
    p.RefusedWhenFull call ↔ OpenInTime p call := by
  cases call with
  | close f => exact Iff.rfl
  | «open» f flags path =>
      constructor
      · intro hrefused
        by_cases hfull : p.fatfs.Full
        · right
          cases hrel : p.released with
          | false => rfl
          | true =>
              obtain ⟨i, hi, hnot⟩ := h.lost hrel
              exact absurd (hrefused hfull i (Nat.lt_of_lt_of_le hi h.index_le)) hnot
        · exact Or.inl hfull
      · rintro (hroom | hrel) hfull i hi
        · exact absurd hfull hroom
        · exact h.held hrel i (Nat.lt_of_lt_of_le hi hfull)

theorem along_refusedWhenFull_iff (ff : FfApi V Φ) (vol : V) (calls : List FatfsCall) :
    Along RefusedWhenFull (FilePool.step ff) (init ff vol) calls ↔
      Along OpenInTime (FilePool.step ff) (init ff vol) calls :=
  along_congr (fun _ _ _ h _ hs => PoolOk.step h ff hs)
    (fun _ call h => PoolOk.refusedWhenFull_iff h call) (poolOk_init ff vol) calls

/-- In every run no two open files share an object; and opens are refused only when the
table is full of open files exactly in the runs in which every open comes in time. -/
theorem fatfs_slots_iff (ff : FfApi V Φ) (vol : V) (calls : List FatfsCall) :
    (∀ p, run (FilePool.step ff) (init ff vol) calls = some p → p.NoSharing) ∧
      (Along RefusedWhenFull (FilePool.step ff) (init ff vol) calls ↔
        Along OpenInTime (FilePool.step ff) (init ff vol) calls) := by
  refine ⟨fun p hp => ?_, along_refusedWhenFull_iff ff vol calls⟩
  exact (run_invariant (fun _ _ _ h hs => PoolOk.step h ff hs) (poolOk_init ff vol) hp).noSharing

end Calls

section Exhausted

/-- FatFs in which every call succeeds. -/
def willing : FfApi Unit Unit where
  fOpen := fun _ _ _ _ => (.ok, (), ())
  fLseek := fun _ _ _ => (.ok, (), ())
  fSize := fun _ => 0
  fRead := fun _ _ _ => (.ok, [], (), ())
  fWrite := fun _ _ buf => (.ok, buf.length, (), ())
  fClose := fun _ _ => (.ok, (), ())
  fMkdir := fun _ _ => (.ok, ())
  fUnlink := fun _ _ => (.ok, ())
  zero := ()

/-- After 31 opens the table stays used up: a file is closed and opened again, and is
refused while no other file holds its object. -/
theorem fatfs_slots_exhausted :
    ¬ Along RefusedWhenFull (FilePool.step willing) (init willing ())
      ((List.range 31).map (fun f => .open f oRdonly []) ++ [.close 0, .open 0 oRdonly []]) := by
  rw [along_refusedWhenFull_iff]
  decide +kernel

end Exhausted

end FilePool

end Catpilot
