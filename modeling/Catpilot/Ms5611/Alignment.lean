import Catpilot.Ms5611.Slots
import Mathlib.Dynamics.PeriodicPts.Lemmas

/-!
# Which command a stored reading comes from

A reading answers the last conversion command, which the pass before has sent for its
current state; it is stored under the previous state. A reading 0xFFFFFF behind a good one
moves the current state on and leaves the previous one behind, until the next reading is
stored. So the two agree on a stored reading exactly when the number of such readings
since the one stored before is a multiple of five.
-/

namespace Catpilot

open Transition

instance (reg : UInt32) : Decidable (ValidReading reg) :=
  inferInstanceAs (Decidable (reg ≠ 0 ∧ reg ≠ 0xFFFFFF))

/-- A run of the driver: the state that the last conversion command was sent for, whether
the last reading was 0 or 0xFFFFFF, and the number of readings 0xFFFFFF behind a good one
since a reading was stored. -/
structure AlignRun where
  sys : Ms5611System
  issued : Option MeasState
  bad : Bool
  slips : ℕ

/-- A run at its start. -/
def alignInit : AlignRun := ⟨ms5611Start, none, false, 0⟩

/-- The number of slips after a reading. -/
def nextSlips (bad : Bool) (slips : ℕ) (reg : UInt32) : ℕ :=
  if bad ∨ reg = 0 then slips else if reg = 0xFFFFFF then slips + 1 else 0

/-- A step of the run. -/
def alignStep (g : AlignRun) (input : Ms5611Input) : Option AlignRun :=
  let sys := (ms5611Fsm g.sys input).1
  let issued := if sys.dev.state = .readMeas then some sys.statics.measCurrentState else none
  if g.sys.dev.state = .readMeas then
    some ⟨sys, issued, ¬ ValidReading input.adc.reg, nextSlips g.bad g.slips input.adc.reg⟩
  else some ⟨sys, issued, g.bad, g.slips⟩

/-- A reading that the pass stores was converted on the command sent for the state that it
is stored under. -/
def Aligned (g : AlignRun) (input : Ms5611Input) : Prop :=
  g.sys.dev.state = .readMeas →
    (ms5611ReadMeas g.sys.statics g.sys.dev.raw input.adc.reg).ok = true →
      g.issued = some g.sys.statics.measPreviousState ∧
        g.sys.sensor.conversion = conversionOf g.sys.statics.measPreviousState.cmd

instance (g : AlignRun) (input : Ms5611Input) : Decidable (Aligned g input) :=
  inferInstanceAs (Decidable (_ → _ → _ ∧ _))

/-- A good reading behind a good one comes after a multiple of five slips. -/
def SlipsWrap (g : AlignRun) (input : Ms5611Input) : Prop :=
  g.sys.dev.state = .readMeas → g.bad = false → ValidReading input.adc.reg → 5 ∣ g.slips

/-! ## The states in turn -/

theorem isPeriodicPt_next (st : MeasState) : Function.IsPeriodicPt MeasState.next 5 st := by
  cases st with
  | _ => rfl

/-- The states come round after five steps and not before. -/
theorem iterate_next_eq_iff (n : ℕ) (st : MeasState) : MeasState.next^[n] st = st ↔ 5 ∣ n := by
  have hround : ∀ k < 5, (MeasState.next^[k] st = st ↔ k = 0) := by
    cases st with
    | _ => decide
  rw [← (isPeriodicPt_next st).iterate_mod_apply n, Nat.dvd_iff_mod_eq_zero]
  exact hround _ (Nat.mod_lt n (by decide))

/-! ## Measurements -/

section Measurement

variable {st : MeasStatics} {raw : Ms5611Raw} {reg : UInt32}

theorem not_validReading : ¬ ValidReading reg ↔ reg = 0 ∨ reg = 0xFFFFFF := by
  rw [ValidReading, not_and_or, not_not, not_not]

/-- A reading is stored when it is good and none is to be ignored. -/
theorem ms5611ReadMeas_ok :
    (ms5611ReadMeas st raw reg).ok = true ↔ st.ignoreNext = false ∧ ValidReading reg := by
  by_cases hvalid : ValidReading reg
  · cases hignore : st.ignoreNext with
    | true => simp [ms5611ReadMeas, hignore, hvalid.1, hvalid.2]
    | false => simp [ms5611ReadMeas, hignore, hvalid, hvalid.1, hvalid.2]
  · have hreg := not_validReading.1 hvalid
    simp [ms5611ReadMeas, hreg, hvalid]

/-- A reading that is to be ignored leaves the states. -/
theorem ms5611ReadMeas_ignored (hignore : st.ignoreNext = true) :
    (ms5611ReadMeas st raw reg).statics = { st with ignoreNext := ¬ ValidReading reg } := by
  by_cases hvalid : ValidReading reg
  · simp [ms5611ReadMeas, hignore, hvalid, hvalid.1, hvalid.2]
  · have hreg := not_validReading.1 hvalid
    simp [ms5611ReadMeas, hignore, hreg, hvalid]

/-- A reading 0 leaves the states. -/
theorem ms5611ReadMeas_zero :
    (ms5611ReadMeas st raw 0).statics = { st with ignoreNext := true } := by
  simp [ms5611ReadMeas]

/-- A reading 0xFFFFFF moves the current state on, but not the previous one. -/
theorem ms5611ReadMeas_slip (hignore : st.ignoreNext = false) :
    (ms5611ReadMeas st raw 0xFFFFFF).statics =
      { st with measCurrentState := st.measCurrentState.next, ignoreNext := true } := by
  simp [ms5611ReadMeas, hignore]

/-- The command that a pass sends is the one of the state that it leaves. -/
theorem ms5611ReadMeas_cmd :
    (ms5611ReadMeas st raw reg).cmd = (ms5611ReadMeas st raw reg).statics.measCurrentState.cmd := by
  simp only [ms5611ReadMeas]
  split_ifs
  all_goals rfl

end Measurement

/-! ## Runs -/

/-- What is true between the passes: a reading is to be ignored when the last one was bad,
the current state is ahead of the previous one by the slips, and the command under way was
sent for it. -/
structure AlignInv (g : AlignRun) : Prop where
  before : g.sys.dev.state ≠ .readMeas → g.sys.statics = .init
  ignore : g.sys.statics.ignoreNext = g.bad
  current : g.sys.statics.measCurrentState =
    MeasState.next^[g.slips] g.sys.statics.measPreviousState
  issued : g.sys.dev.state = .readMeas → g.issued = some g.sys.statics.measCurrentState ∧
    g.sys.sensor.conversion = conversionOf g.sys.statics.measCurrentState.cmd

theorem alignInv_init : AlignInv alignInit where
  before := fun _ => rfl
  ignore := rfl
  current := rfl
  issued := fun h => by cases h

section Runs

variable {g g' : AlignRun} {input : Ms5611Input}

/-- A measurement keeps the distance of the two states and the reading to ignore. -/
theorem AlignInv.statics (h : AlignInv g) (raw : Ms5611Raw) (reg : UInt32) :
    (ms5611ReadMeas g.sys.statics raw reg).statics.ignoreNext = decide (¬ ValidReading reg) ∧
      (ms5611ReadMeas g.sys.statics raw reg).statics.measCurrentState =
        MeasState.next^[nextSlips g.bad g.slips reg]
          (ms5611ReadMeas g.sys.statics raw reg).statics.measPreviousState := by
  cases hbad : g.bad with
  | true =>
      rw [ms5611ReadMeas_ignored (h.ignore.trans hbad)]
      refine ⟨by simp, ?_⟩
      simpa [nextSlips] using h.current
  | false =>
      have hignore := h.ignore.trans hbad
      by_cases hzero : reg = 0
      · rw [hzero, ms5611ReadMeas_zero]
        exact ⟨by simp [ValidReading], by simpa [nextSlips] using h.current⟩
      · by_cases hslip : reg = 0xFFFFFF
        · rw [hslip, ms5611ReadMeas_slip hignore]
          refine ⟨by simp [ValidReading], ?_⟩
          have hnext : nextSlips false g.slips 0xFFFFFF = g.slips + 1 := by simp [nextSlips]
          rw [hnext, Function.iterate_succ_apply', ← h.current]
        · have hvalid : ValidReading reg := ⟨hzero, hslip⟩
          rw [ms5611ReadMeas_of_valid hignore hvalid]
          simp [nextSlips, hzero, hslip, hvalid]

theorem AlignInv.step (h : AlignInv g) (hstep : alignStep g input = some g') : AlignInv g' := by
  by_cases hstate : g.sys.dev.state = .readMeas
  · rw [alignStep, if_pos hstate, Option.some.injEq, ms5611Fsm_readMeas hstate] at hstep
    obtain ⟨hignore, hcurrent⟩ := h.statics g.sys.dev.raw input.adc.reg
    have hstate' : (fsmReadMeas g.sys input.adc.reg).1.dev.state = .readMeas := hstate
    rw [← hstep]
    refine ⟨fun hne => absurd hstate' hne, hignore, hcurrent, fun _ => ⟨if_pos hstate', ?_⟩⟩
    change conversionOf (ms5611ReadMeas g.sys.statics g.sys.dev.raw input.adc.reg).cmd = _
    rw [ms5611ReadMeas_cmd]
    rfl
  · rw [alignStep, if_neg hstate, Option.some.injEq] at hstep
    have hquiet := quiet_ms5611Fsm hstate input
    have hinit := h.before hstate
    rw [← hstep]
    refine ⟨fun _ => hquiet.statics.trans hinit, ?_, ?_, fun hmeas => ⟨if_pos hmeas, ?_⟩⟩
    · rw [hquiet.statics]
      exact h.ignore
    · rw [hquiet.statics]
      exact h.current
    · rw [hquiet.conversion hmeas, hquiet.statics, hinit]
      rfl

/-- A reading is stored under the state of its command exactly when the slips have gone
round. -/
theorem AlignInv.aligned_iff (h : AlignInv g) : Aligned g input ↔ SlipsWrap g input := by
  rw [Aligned, SlipsWrap]
  refine forall_congr' fun hstate => ?_
  obtain ⟨hissued, hconversion⟩ := h.issued hstate
  have hlag : g.sys.statics.measCurrentState = g.sys.statics.measPreviousState ↔ 5 ∣ g.slips := by
    rw [h.current]
    exact iterate_next_eq_iff g.slips _
  rw [ms5611ReadMeas_ok, h.ignore, and_imp, hissued, hconversion, Option.some.injEq, ← hlag]
  refine forall_congr' fun _ => forall_congr' fun _ => ?_
  constructor
  · exact fun haligned => haligned.1
  · intro heq
    rw [heq]
    exact ⟨rfl, rfl⟩

/-- In every run of the driver the stored readings come from the commands sent for the
states that they are stored under, if and only if each good reading behind a good one
comes after a multiple of five readings 0xFFFFFF that followed a good one since a reading
was stored. -/
theorem ms5611_aligned_iff (inputs : List Ms5611Input) :
    Along Aligned alignStep alignInit inputs ↔ Along SlipsWrap alignStep alignInit inputs :=
  along_congr (fun _ _ _ h _ hstep => h.step hstep) (fun _ _ h => h.aligned_iff) alignInv_init
    inputs

end Runs

/-- After a reading 0xFFFFFF and one that is ignored, the next reading is stored as one of
the temperature and comes from the first pressure command. -/
theorem ms5611_not_aligned :
    ¬ ∀ inputs : List Ms5611Input, Along Aligned alignStep alignInit inputs := by
  let prom : Prom := ![0, 0, 1, 1, 1, 1, 1, 0x010B]
  let good : Ms5611Input := ⟨prom, ⟨0, 0, 1⟩⟩
  let slip : Ms5611Input := ⟨prom, ⟨0xFF, 0xFF, 0xFF⟩⟩
  intro h
  exact absurd (h [good, good, slip, good, good]) (by decide +kernel)

end Catpilot
