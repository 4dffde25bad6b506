import Catpilot.Ms5611.Basic
import Catpilot.Transition.Run
import Mathlib.Data.Fin.VecNotation

/-!
# Which reading the raw slots of the MS5611 driver hold

A reading answers the command of the pass before. `ms5611_read_meas` sends the
conversion of the pressure in the state that stores to the temperature slot, and the
other way round, so that the two slots hold each other's readings.
-/

namespace Catpilot

open Transition

/-- A reading that is neither 0 nor 0xFFFFFF. -/
def ValidReading (reg : UInt32) : Prop := reg ≠ 0 ∧ reg ≠ 0xFFFFFF

/-- The input of a pass whose ADC reading is a valid one. -/
def ValidInput : Type := { input : Ms5611Input // ValidReading input.adc.reg }

/-- `ms5611_fsm` as a step of a run with valid readings. -/
def ms5611Step (sys : Ms5611System) (input : ValidInput) : Option Ms5611System :=
  some (ms5611Fsm sys input.1).1

/-- The sample that the pass processes, if any, has the latest pressure conversion in
`raw.D1` and the latest temperature conversion in `raw.D2`. -/
def SlotsRight (sys : Ms5611System) (input : ValidInput) : Prop :=
  ∀ raw, (ms5611Fsm sys input.1).2 = some raw →
    ∀ v, ((ms5611Fsm sys input.1).1.sensor.latest .d1 = some v → raw.d1 = v) ∧
      ((ms5611Fsm sys input.1).1.sensor.latest .d2 = some v → raw.d2 = v)

/-- The sample that the pass processes has them the other way round. -/
def SlotsSwapped (sys : Ms5611System) (input : ValidInput) : Prop :=
  ∀ raw, (ms5611Fsm sys input.1).2 = some raw →
    ∀ v, ((ms5611Fsm sys input.1).1.sensor.latest .d1 = some v → raw.d2 = v) ∧
      ((ms5611Fsm sys input.1).1.sensor.latest .d2 = some v → raw.d1 = v)

/-- The pass makes no measurement. -/
def NoMeasurement (sys : Ms5611System) (_ : ValidInput) : Prop := sys.dev.state ≠ .readMeas

/-- The invariant of runs with valid readings: the conversion under way is the one of
the current state, and each slot holds the latest conversion of the other kind. -/
structure Swapped (sys : Ms5611System) : Prop where
  ignoreNext : sys.statics.ignoreNext = false
  previous : sys.statics.measPreviousState = sys.statics.measCurrentState
  conversion : sys.dev.state = .readMeas →
    sys.sensor.conversion = conversionOf sys.statics.measCurrentState.cmd
  d1 : ∀ v, sys.sensor.latest .d2 = some v → sys.dev.raw.d1 = v
  d2 : ∀ v, sys.sensor.latest .d1 = some v → sys.dev.raw.d2 = v

/-- The conversion whose result a state stores to `raw.D2` is the one of the pressure,
and the others are of the temperature. -/
theorem conversionOf_cmd (st : MeasState) :
    conversionOf st.cmd = some (if st = .readTemp then .d1 else .d2) := by
  cases st with
  | _ => rfl

theorem store_eq (reg : UInt32) (raw : Ms5611Raw) (st : MeasState) :
    st.store reg raw =
      if st = .readTemp then { raw with d2 := reg } else { raw with d1 := reg } := by
  cases st with
  | _ => rfl

/-- A pass on a valid reading, from statics that ignore nothing. -/
theorem ms5611ReadMeas_of_valid {st : MeasStatics} (hignore : st.ignoreNext = false)
    {reg : UInt32} (hreg : ValidReading reg) (raw : Ms5611Raw) :
    ms5611ReadMeas st raw reg =
      ⟨⟨false, st.measCurrentState.next, st.measCurrentState.next⟩,
        st.measPreviousState.store reg raw, st.measCurrentState.next.cmd, true⟩ := by
  simp [ms5611ReadMeas, hignore, hreg.1, hreg.2]

section Pass

variable {sys : Ms5611System} {reg : UInt32}

/-- A measurement pass processes the sample it has just stored. -/
theorem fsmReadMeas_snd (hs : Swapped sys) (hreg : ValidReading reg) :
    (fsmReadMeas sys reg).2 = some (fsmReadMeas sys reg).1.dev.raw := by
  simp only [fsmReadMeas, ms5611ReadMeas_of_valid hs.ignoreNext hreg, if_true]

/-- The slot a measurement pass stores to. -/
theorem fsmReadMeas_raw (hs : Swapped sys) (hreg : ValidReading reg) :
    (fsmReadMeas sys reg).1.dev.raw =
      if sys.statics.measCurrentState = .readTemp then { sys.dev.raw with d2 := reg }
      else { sys.dev.raw with d1 := reg } := by
  simp only [fsmReadMeas, ms5611ReadMeas_of_valid hs.ignoreNext hreg, hs.previous, store_eq]

/-- The conversion a measurement pass completes. -/
theorem fsmReadMeas_latest (hs : Swapped sys) (hstate : sys.dev.state = .readMeas) :
    (fsmReadMeas sys reg).1.sensor.latest =
      Function.update sys.sensor.latest
        (if sys.statics.measCurrentState = .readTemp then .d1 else .d2) (some reg) := by
  have hconv := hs.conversion hstate
  rw [conversionOf_cmd] at hconv
  simp only [fsmReadMeas, Ms5611Sensor.receive, Ms5611Sensor.complete, hconv]

/-- A measurement pass stores the reading to the slot that the other kind of
conversion belongs to. -/
theorem Swapped.fsmReadMeas (hs : Swapped sys) (hstate : sys.dev.state = .readMeas)
    (hreg : ValidReading reg) : Swapped (fsmReadMeas sys reg).1 := by
  have hmeas := ms5611ReadMeas_of_valid hs.ignoreNext hreg sys.dev.raw
  constructor
  · simp only [Catpilot.fsmReadMeas, hmeas]
  · simp only [Catpilot.fsmReadMeas, hmeas]
  · intro _
    simp only [Catpilot.fsmReadMeas, hmeas, Ms5611Sensor.receive]
  · rw [fsmReadMeas_raw hs hreg, fsmReadMeas_latest hs hstate]
    by_cases hcur : sys.statics.measCurrentState = .readTemp
    · simpa [hcur] using hs.d1
    · simp [hcur]
  · rw [fsmReadMeas_raw hs hreg, fsmReadMeas_latest hs hstate]
    by_cases hcur : sys.statics.measCurrentState = .readTemp
    · simp [hcur]
    · simpa [hcur] using hs.d2

end Pass

/-- The state of the system up to the first measurement. -/
structure Fresh (sys : Ms5611System) : Prop where
  statics : sys.statics = .init
  d1 : sys.dev.raw.d1 = 0
  latest : ∀ c, sys.sensor.latest c = none
  conversion : sys.dev.state = .readMeas → sys.sensor.conversion = some .d1

theorem fresh_start : Fresh ms5611Start := ⟨rfl, rfl, fun _ => rfl, fun h => nomatch h⟩

theorem Fresh.swapped {sys : Ms5611System} (h : Fresh sys) : Swapped sys where
  ignoreNext := by rw [h.statics]; rfl
  previous := by rw [h.statics]; rfl
  conversion := by
    rw [h.statics]
    exact h.conversion
  d1 := fun v hv => by rw [h.latest] at hv; cases hv
  d2 := fun v hv => by rw [h.latest] at hv; cases hv

/-- What a pass without a measurement leaves: the statics, the raw values and the results
of the conversions, and a conversion of the pressure under way once measurements begin. -/
structure Quiet (sys sys' : Ms5611System) : Prop where
  statics : sys'.statics = sys.statics
  raw : sys'.dev.raw = sys.dev.raw
  latest : sys'.sensor.latest = sys.sensor.latest
  conversion : sys'.dev.state = .readMeas → sys'.sensor.conversion = some .d1

theorem quiet_ms5611Fsm {sys : Ms5611System} (hmeas : sys.dev.state ≠ .readMeas)
    (input : Ms5611Input) : Quiet sys (ms5611Fsm sys input).1 := by
  cases hstate : sys.dev.state with
  | reset =>
      simp only [ms5611Fsm, hstate]
      exact ⟨rfl, rfl, rfl, fun h => nomatch h⟩
  | readMeas => exact absurd hstate hmeas
  | fail =>
      simp only [ms5611Fsm, hstate]
      exact ⟨rfl, rfl, rfl, fun h => absurd h hmeas⟩
  | readCalib =>
      simp only [ms5611Fsm, hstate, fsmReadCalib]
      cases ms5611ReadCalib input.prom with
      | none =>
          split_ifs
          · exact ⟨rfl, rfl, rfl, fun h => nomatch h⟩
          · exact ⟨rfl, rfl, rfl, fun h => nomatch h⟩
      | some calib =>
          split_ifs
          · exact ⟨rfl, rfl, rfl, fun h => nomatch h⟩
          · exact ⟨rfl, rfl, rfl, fun _ => rfl⟩

/-- A pass without a measurement leaves the system fresh. -/
theorem Fresh.ms5611Fsm {sys : Ms5611System} (h : Fresh sys) (hmeas : sys.dev.state ≠ .readMeas)
    (input : Ms5611Input) : Fresh (ms5611Fsm sys input).1 := by
  have hquiet := quiet_ms5611Fsm hmeas input
  constructor
  · rw [hquiet.statics, h.statics]
  · rw [hquiet.raw, h.d1]
  · rw [hquiet.latest]
    exact h.latest
  · exact hquiet.conversion

/-- It processes no sample. -/
theorem ms5611Fsm_snd_of_ne {sys : Ms5611System} (hmeas : sys.dev.state ≠ .readMeas)
    (input : Ms5611Input) : (ms5611Fsm sys input).2 = none := by
  cases hstate : sys.dev.state with
  | readMeas => exact absurd hstate hmeas
  | _ => simp only [ms5611Fsm, hstate]

theorem ms5611Fsm_readMeas {sys : Ms5611System} (hstate : sys.dev.state = .readMeas)
    (input : Ms5611Input) : ms5611Fsm sys input = fsmReadMeas sys input.adc.reg := by
  rw [ms5611Fsm, hstate]

/-- The first measurement gives a sample whose `raw.D1` is still 0, though a pressure
conversion is complete. -/
theorem Fresh.not_slotsRight {sys : Ms5611System} (h : Fresh sys)
    (hstate : sys.dev.state = .readMeas) (input : ValidInput) : ¬ SlotsRight sys input := by
  intro hright
  have hcur : sys.statics.measCurrentState = .readTemp := by rw [h.statics]; rfl
  rw [SlotsRight, ms5611Fsm_readMeas hstate] at hright
  have hd1 := (hright _ (fsmReadMeas_snd h.swapped input.2) input.1.adc.reg).1
  rw [fsmReadMeas_latest h.swapped hstate, fsmReadMeas_raw h.swapped input.2, if_pos hcur,
    if_pos hcur, Function.update_self] at hd1
  exact input.2.1 ((hd1 rfl).symm.trans h.d1)

/-- In every run with valid readings, from the start of the driver, the processed
samples have their readings in the right slots if and only if no measurement is made. -/
theorem ms5611_slotsRight_iff (inputs : List ValidInput) :
    Along SlotsRight ms5611Step ms5611Start inputs ↔
      Along NoMeasurement ms5611Step ms5611Start inputs := by
  have hstep : ∀ (sys : Ms5611System) input sys', Fresh sys → NoMeasurement sys input →
      ms5611Step sys input = some sys' → Fresh sys' := by
    intro sys input sys' hf hmeas hs
    cases hs
    exact hf.ms5611Fsm hmeas input.1
  refine along_congr hstep ?_ fresh_start inputs
  intro sys input hf
  constructor
  · intro hright hstate
    exact hf.not_slotsRight hstate input hright
  · intro hmeas raw hraw
    rw [ms5611Fsm_snd_of_ne hmeas] at hraw
    cases hraw

/-- Resets, calibrates and measures twice: the first reading, of the pressure, goes to
the temperature slot, and the second one, of the temperature, to the pressure slot. -/
theorem ms5611_slots_wrong :
    ∃ inputs : List ValidInput,
      (run ms5611Step ms5611Start inputs).map (fun sys =>
        (sys.dev.raw, sys.sensor.latest .d1, sys.sensor.latest .d2)) =
          some (⟨2, 1⟩, some 1, some 2) ∧
      ¬ Along SlotsRight ms5611Step ms5611Start inputs := by
  let prom : Prom := ![0, 0, 1, 1, 1, 1, 1, 0x010B]
  let one : ValidInput := ⟨⟨prom, ⟨0, 0, 1⟩⟩, by decide, by decide⟩
  let two : ValidInput := ⟨⟨prom, ⟨0, 0, 2⟩⟩, by decide, by decide⟩
  refine ⟨[one, one, one, two], by decide +kernel, ?_⟩
  intro halong
  have hright := ((halong.2 _ rfl).2 _ rfl).1
  have hd1 := (hright ⟨0, 1⟩ (by decide +kernel) 1).1 (by decide +kernel)
  exact absurd hd1 (by decide)

/-- In every such run the samples have their readings in each other's slots. -/
theorem ms5611_slotsSwapped (inputs : List ValidInput) :
    Along SlotsSwapped ms5611Step ms5611Start inputs := by
  have hstep : ∀ (sys : Ms5611System) (input : ValidInput) sys',
      Fresh sys ∨ (sys.dev.state = .readMeas ∧ Swapped sys) → ms5611Step sys input = some sys' →
      Fresh sys' ∨ (sys'.dev.state = .readMeas ∧ Swapped sys') := by
    intro sys input sys' hinv hs
    cases hs
    by_cases hstate : sys.dev.state = .readMeas
    · have hswap : Swapped sys := hinv.elim Fresh.swapped And.right
      rw [ms5611Fsm_readMeas hstate]
      exact Or.inr ⟨hstate, hswap.fsmReadMeas hstate input.2⟩
    · exact Or.inl ((hinv.resolve_right fun h => hstate h.1).ms5611Fsm hstate input.1)
  refine Along.of_invariant hstep ?_ (Or.inl fresh_start) inputs
  intro sys input hinv raw hraw v
  have hswap : Swapped sys := hinv.elim Fresh.swapped And.right
  by_cases hstate : sys.dev.state = .readMeas
  · rw [ms5611Fsm_readMeas hstate] at hraw ⊢
    rw [fsmReadMeas_snd hswap input.2, Option.some.injEq] at hraw
    have hnext := hswap.fsmReadMeas hstate input.2
    rw [← hraw]
    exact ⟨hnext.d2 v, hnext.d1 v⟩
  · rw [ms5611Fsm_snd_of_ne hstate] at hraw
    cases hraw

end Catpilot
