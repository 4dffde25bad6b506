import Catpilot.Ms5611.Slots

/-!
# Several MS5611 sensors

Each sensor has its own device record, but the statics of `ms5611_read_meas` are one set
for all of them. A sensor behaves as it does alone where at each of its measurements the
statics have the same effect as those that its own readings alone would leave.
-/

namespace Catpilot

open Transition

/-- `CMD_MS5611_READ_ADC`. -/
def cmdMs5611ReadAdc : UInt8 := 0x00

/-- `CMD_MS5611_PROM_ADDR`. -/
def cmdMs5611PromAddr : UInt8 := 0xA0

/-- The commands with which `ms5611_read_calib` reads the PROM: up to the first word that
it does not accept. -/
def promCommands (prom : Prom) : List UInt8 :=
  let accepted := (List.finRange 8).takeWhile fun i => ¬ (1 < i.val ∧ prom i = 0)
  (List.range (min 8 (accepted.length + 1))).map fun word =>
    cmdMs5611PromAddr + UInt8.ofNat (word <<< 1)

/-- The commands that a pass sends to the sensor. -/
def passCommands (sys : Ms5611System) (input : Ms5611Input) : List UInt8 :=
  match sys.dev.state with
  | .reset => [cmdMs5611Reset]
  | .readCalib => promCommands input.prom ++
      if (ms5611ReadCalib input.prom).isSome then [cmdMs5611ConvertD1Osr1024] else []
  | .readMeas =>
      [cmdMs5611ReadAdc, (ms5611ReadMeas sys.statics sys.dev.raw input.adc.reg).cmd]
  | .fail => []

/-- What a pass gives: the commands sent, the raw values that it leaves, and what the
sample that it publishes is computed from. -/
structure PassOutput where
  commands : List UInt8
  raw : Ms5611Raw
  sample : Option (Ms5611Calib × Ms5611Raw)
  deriving DecidableEq, Repr

/-- The output of a pass. -/
def passOutput (sys : Ms5611System) (input : Ms5611Input) : PassOutput where
  commands := passCommands sys input
  raw := (ms5611Fsm sys input).1.dev.raw
  sample := (ms5611Fsm sys input).2.map fun raw => ((ms5611Fsm sys input).1.dev.calib, raw)

/-- The outputs of a sensor alone. -/
def soloOutputs : Ms5611System → List Ms5611Input → List PassOutput
  | _, [] => []
  | sys, input :: inputs => passOutput sys input :: soloOutputs (ms5611Fsm sys input).1 inputs

section Board

variable {ι : Type*} [DecidableEq ι]

/-- Several sensors with the statics they share. -/
structure Ms5611Board (ι : Type*) where
  dev : ι → Ms5611
  sensor : ι → Ms5611Sensor
  statics : MeasStatics

/-- One of the sensors, with the shared statics. -/
def Ms5611Board.system (b : Ms5611Board ι) (i : ι) : Ms5611System :=
  ⟨b.dev i, b.statics, b.sensor i⟩

/-- The sensors as they are started. -/
def boardStart : Ms5611Board ι :=
  ⟨fun _ => ms5611Start.dev, fun _ => ms5611Start.sensor, ms5611Start.statics⟩

/-- A pass of the sensor `i`. -/
def boardPass (b : Ms5611Board ι) (i : ι) (input : Ms5611Input) : Ms5611Board ι :=
  let sys := (ms5611Fsm (b.system i) input).1
  ⟨Function.update b.dev i sys.dev, Function.update b.sensor i sys.sensor, sys.statics⟩

/-- The outputs of the sensor `i` in an interleaving of passes. -/
def ownOutputs (i : ι) : Ms5611Board ι → List (ι × Ms5611Input) → List PassOutput
  | _, [] => []
  | b, (j, input) :: as =>
      if j = i then passOutput (b.system i) input :: ownOutputs i (boardPass b j input) as
      else ownOutputs i (boardPass b j input) as

/-- The passes of the sensor `i`. -/
def ownInputs (i : ι) : List (ι × Ms5611Input) → List Ms5611Input
  | [] => []
  | (j, input) :: as => if j = i then input :: ownInputs i as else ownInputs i as

/-- The sensor `i` gives the same outputs as alone. -/
def Isolated (i : ι) (as : List (ι × Ms5611Input)) : Prop :=
  ownOutputs i boardStart as = soloOutputs ms5611Start (ownInputs i as)

/-! ## The condition -/

/-- Two values of the statics with the same effect on a measurement: the states that
store to one slot are not told apart as the previous one. -/
structure MeasStatics.Agree (st st' : MeasStatics) : Prop where
  ignoreNext : st.ignoreNext = st'.ignoreNext
  current : st.measCurrentState = st'.measCurrentState
  previous : st.measPreviousState = .readTemp ↔ st'.measPreviousState = .readTemp

instance (st st' : MeasStatics) : Decidable (st.Agree st') :=
  decidable_of_iff (st.ignoreNext = st'.ignoreNext ∧ st.measCurrentState = st'.measCurrentState ∧
      (st.measPreviousState = .readTemp ↔ st'.measPreviousState = .readTemp))
    ⟨fun h => ⟨h.1, h.2.1, h.2.2⟩, fun h => ⟨h.ignoreNext, h.current, h.previous⟩⟩

/-- The board, and the sensor `i` alone on the same answers. -/
structure TwinRun (ι : Type*) where
  board : Ms5611Board ι
  alone : Ms5611System

/-- The twins at the start. -/
def twinStart : TwinRun ι := ⟨boardStart, ms5611Start⟩

/-- A step of the twins. -/
def twinStep (i : ι) (g : TwinRun ι) (a : ι × Ms5611Input) : Option (TwinRun ι) :=
  some ⟨boardPass g.board a.1 a.2, if a.1 = i then (ms5611Fsm g.alone a.2).1 else g.alone⟩

/-- At a measurement of the sensor `i` the shared statics have the effect of those that
its own readings leave. -/
def StaticsAgree (i : ι) (g : TwinRun ι) (a : ι × Ms5611Input) : Prop :=
  a.1 = i → (g.board.dev i).state = .readMeas → g.board.statics.Agree g.alone.statics

instance (i : ι) (g : TwinRun ι) (a : ι × Ms5611Input) : Decidable (StaticsAgree i g a) :=
  inferInstanceAs (Decidable (_ = _ → _ = _ → MeasStatics.Agree _ _))

instance (i : ι) (as : List (ι × Ms5611Input)) : Decidable (Isolated i as) :=
  inferInstanceAs (Decidable (ownOutputs i boardStart as = _))

end Board

/-! ## One pass -/

section Pass

variable {sys sys' : Ms5611System} {input : Ms5611Input}

theorem MeasStatics.Agree.store_eq {st st' : MeasStatics} (h : st.Agree st') (reg : UInt32)
    (raw : Ms5611Raw) :
    st.measPreviousState.store reg raw = st'.measPreviousState.store reg raw := by
  rw [Catpilot.store_eq, Catpilot.store_eq]
  exact if_congr h.previous rfl rfl

/-- Statics with the same effect give the same command, raw values and result. -/
theorem ms5611ReadMeas_congr {st st' : MeasStatics} (h : st.Agree st') (raw : Ms5611Raw)
    (reg : UInt32) :
    (ms5611ReadMeas st raw reg).cmd = (ms5611ReadMeas st' raw reg).cmd ∧
      (ms5611ReadMeas st raw reg).raw = (ms5611ReadMeas st' raw reg).raw ∧
      (ms5611ReadMeas st raw reg).ok = (ms5611ReadMeas st' raw reg).ok := by
  rw [ms5611ReadMeas, ms5611ReadMeas, h.store_eq, h.ignoreNext, h.current]
  split_ifs
  all_goals exact ⟨rfl, rfl, rfl⟩

/-- A pass depends on the device record and, where it measures, on the effect of the
statics. -/
theorem passOutput_congr (hdev : sys.dev = sys'.dev)
    (hstatics : sys.dev.state = .readMeas → sys.statics.Agree sys'.statics) :
    passOutput sys input = passOutput sys' input ∧
      (ms5611Fsm sys input).1.dev = (ms5611Fsm sys' input).1.dev := by
  have hdev' : (ms5611Fsm sys input).1.dev = (ms5611Fsm sys' input).1.dev ∧
      (ms5611Fsm sys input).2 = (ms5611Fsm sys' input).2 ∧
      passCommands sys input = passCommands sys' input := by
    cases hstate : sys.dev.state with
    | reset => simp [ms5611Fsm, passCommands, ← hdev, hstate]
    | fail => simp [ms5611Fsm, passCommands, ← hdev, hstate]
    | readMeas =>
        obtain ⟨hcmd, hraw, hok⟩ :=
          ms5611ReadMeas_congr (hstatics hstate) sys.dev.raw input.adc.reg
        simp only [ms5611Fsm, passCommands, fsmReadMeas, ← hdev, hstate, hcmd, hraw, hok, and_self]
    | readCalib =>
        simp only [ms5611Fsm, passCommands, fsmReadCalib, ← hdev, hstate, and_true]
        cases ms5611ReadCalib input.prom with
        | none =>
            split_ifs
            · rfl
            · rfl
        | some calib =>
            split_ifs
            · rfl
            · rfl
  obtain ⟨hrecord, hsample, hcommands⟩ := hdev'
  exact ⟨by simp only [passOutput, hrecord, hsample, hcommands], hrecord⟩

end Pass

/-! ## Interleavings -/

section Interleaving

variable {ι : Type*} [DecidableEq ι] {i : ι}

/-- From a board on which the sensor has the record that it has alone. -/
theorem ownOutputs_eq {g : TwinRun ι} {as : List (ι × Ms5611Input)}
    (hdev : g.board.dev i = g.alone.dev) (hok : Along (StaticsAgree i) (twinStep i) g as) :
    ownOutputs i g.board as = soloOutputs g.alone (ownInputs i as) := by
  induction as generalizing g with
  | nil => rfl
  | cons a as ih =>
      obtain ⟨j, input⟩ := a
      have hrest := hok.2 _ rfl
      by_cases hji : j = i
      · have hagree : (g.board.system i).dev.state = .readMeas →
            (g.board.system i).statics.Agree g.alone.statics := hok.1 hji
        obtain ⟨houtput, hnext⟩ := passOutput_congr hdev hagree
        rw [ownOutputs, ownInputs, if_pos hji, if_pos hji, soloOutputs, houtput]
        have hnextDev : (boardPass g.board j input).dev i = (ms5611Fsm g.alone input).1.dev := by
          rw [hji, boardPass]
          exact (Function.update_self ..).trans hnext
        have htail := ih (g := ⟨boardPass g.board j input, (ms5611Fsm g.alone input).1⟩) hnextDev
        rw [if_pos hji] at hrest
        exact congrArg _ (htail hrest)
      · have hother : (boardPass g.board j input).dev i = g.alone.dev :=
          (Function.update_of_ne (Ne.symm hji) ..).trans hdev
        rw [if_neg hji] at hrest
        rw [ownOutputs, ownInputs, if_neg hji, if_neg hji]
        exact ih (g := ⟨boardPass g.board j input, g.alone⟩) hother hrest

/-- A sensor at whose measurements the statics have the effect of its own readings gives
the outputs that it gives alone. -/
theorem isolated_of_staticsAgree {as : List (ι × Ms5611Input)}
    (hok : Along (StaticsAgree i) (twinStep i) twinStart as) : Isolated i as :=
  ownOutputs_eq rfl hok

/-- The only sensor that makes passes always meets the condition. -/
theorem staticsAgree_of_alone {as : List (ι × Ms5611Input)} (halone : ∀ a ∈ as, a.1 = i) :
    Along (StaticsAgree i) (twinStep i) twinStart as := by
  have hstatics : ∀ g : TwinRun ι, g.board.system i = g.alone →
      Along (StaticsAgree i) (twinStep i) g as := by
    induction as with
    | nil => exact fun _ _ => trivial
    | cons a as ih =>
        intro g hg
        have ha : a.1 = i := halone a List.mem_cons_self
        refine ⟨fun _ _ => ?_, fun g' hg' => ?_⟩
        · rw [← hg]
          exact ⟨rfl, rfl, Iff.rfl⟩
        · cases hg'
          apply ih fun b hb => halone b (List.mem_cons_of_mem _ hb)
          rw [if_pos ha, ← hg, ha]
          simp [boardPass, Ms5611Board.system]
  exact hstatics twinStart rfl

end Interleaving

/-- A PROM with the right checksum, and a measurement of 1. -/
def measureOne : Ms5611Input := ⟨![0, 0, 1, 1, 1, 1, 1, 0x010B], ⟨0, 0, 1⟩⟩

theorem isolated_before_other_measures :
    Isolated true [(true, measureOne), (false, measureOne), (true, measureOne),
      (false, measureOne), (true, measureOne), (true, measureOne), (false, measureOne)] :=
  isolated_of_staticsAgree (by decide +kernel)

/-- The second sensor to measure stores its first reading to the slot of the pressure,
and alone it stores it to the one of the temperature. -/
theorem not_isolated :
    ¬ ∀ (i : Bool) (as : List (Bool × Ms5611Input)), Isolated i as := by
  intro h
  have hisolated := h false [(true, measureOne), (true, measureOne), (true, measureOne),
    (false, measureOne), (false, measureOne), (false, measureOne)]
  exact absurd hisolated (by decide +kernel)

end Catpilot
