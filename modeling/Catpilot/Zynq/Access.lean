import Catpilot.Zynq.Reservations

/-!
# Access to the values of channels

The functions that read and write values test their channel with the check that is made
for reserving it, and go on when that check fails. It fails for a reserved channel, but
also for one that is out of range, before `gpio_init`, and for a shared channel that is
reserved the other way round.
-/

namespace Catpilot

open EventMask Transition

namespace Gpio

/-- A call of a function that reads or writes a value of a channel. -/
inductive ValueCall where
  | setOutputValue (value : BitVec 32)
  | getOutputValue
  | setPeriod (period : BitVec 32)
  | setWidth (width : BitVec 32)
  | getPeriod
  | getWidth
  | getInputValue
  | getTooth
  | getPhaseStep

/-- The direction that a value belongs to. -/
def ValueCall.direction : ValueCall → Direction
  | setOutputValue _ | getOutputValue | setPeriod _ | setWidth _ => .output
  | getPeriod | getWidth | getInputValue | getTooth | getPhaseStep => .input

/-- The function that is called, and what it returns. -/
def accessValue (s : Gpio) (channel : BitVec 32) : ValueCall → Option (Gpio × ℤ)
  | .setOutputValue value => s.gpioSetOutputValue channel value
  | .getOutputValue => (s.gpioGetOutputValue channel).map fun r => (r.1, r.2.1)
  | .setPeriod period => s.gpioSetPeriod channel period
  | .setWidth width => s.gpioSetWidth channel width
  | .getPeriod => (s.gpioGetPeriod channel).map fun r => (r.1, r.2.1)
  | .getWidth => (s.gpioGetWidth channel).map fun r => (r.1, r.2.1)
  | .getInputValue => (s.gpioGetInputValue channel).map fun r => (r.1, r.2.1)
  | .getTooth => (s.gpioGetTooth channel).map fun r => (r.1, r.2.1)
  | .getPhaseStep => (s.gpioGetPhaseStep channel).map fun r => (r.1, r.2.1)

section Guard

variable {s : Gpio} {g : GpioInstance} {dir : Direction} {channel : BitVec 32}

/-- The channel is in range, the block is initialised, and the channel is reserved in the
direction. Initialised is what the checks of the source take for it, `gpio != NULL`; a
`gpio_init` whose `mmap_device_io` or `ThreadCtl` fails leaves the pointer set too. -/
def Reserved (s : Gpio) (dir : Direction) (channel : BitVec 32) : Prop :=
  channel < gpioPins ∧ s.gpio.isSome ∧ isSet s.channels (dir.bit channel) = true

/-- The call accesses a register. -/
def Touches (s : Gpio) (result : Option (Gpio × ℤ)) : Prop :=
  ∃ s' rv access, result = some (s', rv) ∧ s'.accesses = s.accesses ++ [access]

/-- The call returns -1 without an access to a register. -/
def Declines (s : Gpio) (result : Option (Gpio × ℤ)) : Prop :=
  ∃ s', result = some (s', -1) ∧ s'.accesses = s.accesses

/-- The call accesses a register if and only if it may, and returns -1 otherwise. -/
def Guarded (s : Gpio) (channel : BitVec 32) (call : ValueCall) : Prop :=
  (s.Touches (s.accessValue channel call) ↔ s.Reserved call.direction channel) ∧
    (¬ s.Reserved call.direction channel → s.Declines (s.accessValue channel call))

/-- What all these functions do with the result of their check. -/
structure Obeys (s : Gpio) (check : ℤ) (result : Option (Gpio × ℤ)) : Prop where
  declines : check = 0 → result = some (s, -1)
  touches : check ≠ 0 → ∀ g, s.gpio = some g → ∃ s' access,
    result = some (s', 0) ∧ s'.accesses = s.accesses ++ [access]
  faults : check ≠ 0 → s.gpio = none → result = none

theorem setValue_obeys (s : Gpio) (check : ℤ) (off value : BitVec 32) :
    s.Obeys check (s.setValue check off value) := by
  constructor
  · intro hcheck
    rw [setValue, if_pos hcheck]
  · intro hcheck g hg
    rw [setValue, if_neg hcheck, writeReg_eq hg, Option.map_some]
    exact ⟨_, _, rfl, rfl⟩
  · intro hcheck hg
    rw [setValue, if_neg hcheck, writeReg, hg]
    rfl

theorem getValue_obeys (s : Gpio) (check : ℤ) (off : BitVec 32) (f : BitVec 32 → BitVec 32) :
    s.Obeys check ((s.getValue check off f).map fun r => (r.1, r.2.1)) := by
  constructor
  · intro hcheck
    rw [getValue, if_pos hcheck, Option.map_some]
  · intro hcheck g hg
    rw [getValue, if_neg hcheck, readReg_eq hg, Option.map_some, Option.map_some]
    exact ⟨_, _, rfl, rfl⟩
  · intro hcheck hg
    rw [getValue, if_neg hcheck, readReg, hg]
    rfl

theorem accessValue_obeys (s : Gpio) (channel : BitVec 32) (call : ValueCall) :
    s.Obeys (s.gpioCheck call.direction channel) (s.accessValue channel call) := by
  cases call with
  | setOutputValue value => exact s.setValue_obeys ..
  | getOutputValue => exact s.getValue_obeys ..
  | setPeriod period => exact s.setValue_obeys ..
  | setWidth width => exact s.setValue_obeys ..
  | getPeriod => exact s.getValue_obeys ..
  | getWidth => exact s.getValue_obeys ..
  | getInputValue => exact s.getValue_obeys ..
  | getTooth => exact s.getValue_obeys ..
  | getPhaseStep => exact s.getValue_obeys ..

theorem Obeys.not_touches {check : ℤ} {result : Option (Gpio × ℤ)} (h : s.Obeys check result)
    (hcheck : check = 0) : ¬ s.Touches result := by
  rintro ⟨s', rv, access, hresult, haccess⟩
  rw [h.declines hcheck] at hresult
  cases hresult
  exact absurd (List.self_eq_append_right.1 haccess) (List.cons_ne_nil _ _)

theorem Obeys.declines_iff {check : ℤ} {result : Option (Gpio × ℤ)} (h : s.Obeys check result) :
    s.Declines result ↔ check = 0 := by
  constructor
  · rintro ⟨s', hresult, haccess⟩
    by_contra hcheck
    cases hg : s.gpio with
    | none =>
        rw [h.faults hcheck hg] at hresult
        cases hresult
    | some g =>
        obtain ⟨t, access, ht, -⟩ := h.touches hcheck g hg
        rw [ht] at hresult
        cases hresult
  · intro hcheck
    exact ⟨s, h.declines hcheck, rfl⟩

/-- Before `gpio_init` the check fails. -/
theorem isSome_of_gpioCheck (hcheck : s.gpioCheck dir channel = 0) : s.gpio.isSome := by
  by_contra hnone
  have hcommon : s.gpioCheckCommon channel ≠ 0 := fun hzero =>
    hnone ((gpioCheckCommon_eq_zero_iff s channel).1 hzero).1
  rw [gpioCheck, if_pos hcommon] at hcheck
  exact absurd hcheck (by decide)

/-- The guard is right exactly for an initialised block, a channel in range, and not for a
shared channel that is reserved in the other direction only. -/
theorem guarded_iff (s : Gpio) (channel : BitVec 32) (call : ValueCall) :
    s.Guarded channel call ↔
      s.gpio.isSome ∧ channel < gpioPins ∧ (channel ≥ gpioInputOutputOff →
        s.Reserved call.direction.opposite channel → s.Reserved call.direction channel) := by
  have hobeys := s.accessValue_obeys channel call
  rw [Guarded, hobeys.declines_iff]
  constructor
  · rintro ⟨htouches, hdeclines⟩
    by_cases hreserved : s.Reserved call.direction channel
    · exact ⟨hreserved.2.1, hreserved.1, fun _ _ => hreserved⟩
    · have hcheck := hdeclines hreserved
      obtain ⟨g, hg⟩ := Option.isSome_iff_exists.1 (isSome_of_gpioCheck hcheck)
      obtain ⟨hlt, -, hother⟩ := (gpioCheck_eq_zero_iff hg).1 hcheck
      refine ⟨by rw [hg]; rfl, hlt, fun hshared hopposite => ?_⟩
      exact absurd ((hother hshared).symm.trans hopposite.2.2) Bool.false_ne_true
  · rintro ⟨hsome, hlt, hshared⟩
    obtain ⟨g, hg⟩ := Option.isSome_iff_exists.1 hsome
    by_cases hreserved : s.Reserved call.direction channel
    · refine ⟨iff_of_true ?_ hreserved, fun hnot => absurd hreserved hnot⟩
      have hcheck : s.gpioCheck call.direction channel ≠ 0 := by
        rw [Ne, gpioCheck_eq_zero_iff hg]
        intro hfree
        exact absurd (hfree.2.1.symm.trans hreserved.2.2) Bool.false_ne_true
      obtain ⟨s', access, hresult, haccess⟩ := hobeys.touches hcheck g hg
      exact ⟨s', 0, access, hresult, haccess⟩
    · have hcheck : s.gpioCheck call.direction channel = 0 := by
        rw [gpioCheck_eq_zero_iff hg]
        refine ⟨hlt, ?_, fun hge => ?_⟩
        · rw [Bool.eq_false_iff]
          exact fun hset => hreserved ⟨hlt, hsome, hset⟩
        · rw [Bool.eq_false_iff]
          exact fun hset => hreserved (hshared hge ⟨hlt, hsome, hset⟩)
      exact ⟨iff_of_false (hobeys.not_touches hcheck) hreserved, fun _ => hcheck⟩

end Guard

/-- The block is initialised for channel 0, and the value of channel 16 is read. -/
theorem not_guarded_outOfRange : ¬ ∀ (mem : BitVec 32 → BitVec 32) (calls : List GpioCall)
    (r : Reservations), run Reservations.step ⟨Reservations.fresh mem, []⟩ calls = some r →
    ∀ channel call, r.gpio.Guarded channel call := by
  intro hall
  have hguarded := hall (fun _ => 0#32) [.init 0#32 ⟨true, ioBaseAddr, true⟩]
    ⟨⟨some ⟨ioBaseAddr, ioBaseAddr⟩, 0#32, fun _ => 0#32, []⟩, []⟩ rfl 16#32 .getInputValue
  have hreserved := hguarded.1.1 ⟨_, _, _, rfl, rfl⟩
  exact absurd hreserved.1 (by decide)

end Gpio

end Catpilot
