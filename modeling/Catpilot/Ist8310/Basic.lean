import Catpilot.Icm.Pipeline
import Catpilot.Sensor.Registers
import Mathlib.Data.Nat.Count

/-!
# The IST8310

The registers, the functions and the state machine of `ist8310.c`. The magnetic field is in
floats, which are their bit patterns, and the arithmetic on them is a parameter. As for the
other sensors, the start function waits for `measrdy_sem`.
-/

namespace Catpilot

namespace Ist8310

/-! ## Registers -/

def deviceId : UInt8 := 0x10

def whoAmI : UInt8 := 0x00
def cntl1 : UInt8 := 0x0A
def cntl2 : UInt8 := 0x0B
def cntl3 : UInt8 := 0x0D
def avgcntl : UInt8 := 0x41
def pdcntl : UInt8 := 0x42

def drdy : UInt8 := 0x01
def singleMeas : UInt8 := 0x01
def srst : UInt8 := 0x01
def x16Bit : UInt8 := 0x10
def y16Bit : UInt8 := 0x20
def z16Bit : UInt8 := 0x40
def y16TimesS : UInt8 := 0x20
def y16TimesC : UInt8 := 0x10 ||| 0x08
def xz16TimesS : UInt8 := 0x04
def xz16TimesC : UInt8 := 0x02 ||| 0x01
def pulseNormal : UInt8 := 0x80 ||| 0x40

/-- `reg_cfg`. -/
def regCfg : List RegCfg :=
  [⟨cntl2, 0, srst⟩,
    ⟨cntl3, x16Bit ||| y16Bit ||| z16Bit, 0⟩,
    ⟨avgcntl, y16TimesS ||| xz16TimesS, y16TimesC ||| xz16TimesC⟩,
    ⟨pdcntl, pulseNormal, 0⟩]

end Ist8310

open Ist8310

/-! ## The device -/

/-- `enum ist8310_state_t`. -/
inductive Ist8310State where
  | reset
  | resetWait
  | conf
  | meas
  | read
  | fail
  deriving DecidableEq, Repr

/-- `ist8310_raw_t`. -/
structure Ist8310Raw where
  stat1 : UInt8
  dataXL : UInt8
  dataXH : UInt8
  dataYL : UInt8
  dataYH : UInt8
  dataZL : UInt8
  dataZH : UInt8
  deriving DecidableEq, Repr

/-- `ist8310_meas_t`. -/
structure Ist8310Meas where
  magX : UInt32
  magY : UInt32
  magZ : UInt32
  deriving DecidableEq, Repr

/-- `ist8310_t`, without its handles. -/
structure Ist8310Device where
  raw : Ist8310Raw
  meas : Ist8310Meas
  magScale : UInt32
  state : Ist8310State
  attempt : UInt8
  deriving DecidableEq, Repr

/-- The record that the start function leaves. -/
def ist8310Start : Ist8310Device where
  raw := ⟨0, 0, 0, 0, 0, 0, 0⟩
  meas := ⟨0, 0, 0⟩
  magScale := 0
  state := .reset
  attempt := 0

/-- The arithmetic on floats: the scale of 1320 counts in a Gauss, and an integer by a
scale. -/
structure Ist8310Math where
  perGauss : UInt32
  scale : ℤ → UInt32 → UInt32

/-! ## The functions -/

section Functions

variable {σ : Type*} (math : Ist8310Math) (bus : RegBus UInt8 σ)

/-- `ist8310_process_meas`. -/
def ist8310ProcessMeas (dev : Ist8310Device) : Ist8310Device :=
  if dev.raw.stat1 &&& drdy ≠ 0 then
    { dev with meas :=
        { magX := math.scale (toInt16 (msbLsb16 dev.raw.dataXH dev.raw.dataXL)) dev.magScale
          magY := math.scale (toInt16 (msbLsb16 dev.raw.dataYH dev.raw.dataYL)) dev.magScale
          magZ := math.scale (toInt16 (msbLsb16 dev.raw.dataZH dev.raw.dataZL)) dev.magScale } }
  else dev

/-- `ist8310_configure`, without the scale that it stores. -/
def ist8310Configure (s : σ) : Bool × σ := configureRegs bus id regCfg true s

/-- The condition in `RESET_WAIT`, with the read of `CNTL2` before it. -/
def ist8310DefaultsOk (s : σ) : Bool × σ :=
  let (_, s) := bus.readReg cntl2 s
  let (who, s) := bus.readReg whoAmI s
  if who = deviceId then
    let (value, s) := bus.readReg cntl2 s
    (value &&& srst = 0, s)
  else (false, s)

/-- A pass of `ist8310_fsm`; `raw` is what `ist8310_read_meas` gets. -/
def ist8310Fsm (raw : Ist8310Raw) (p : Ist8310Device × σ) : Ist8310Device × σ :=
  let (dev, s) := p
  match dev.state with
  | .reset => ({ dev with state := .resetWait }, bus.writeReg cntl2 srst s)
  | .resetWait =>
      let (ok, s) := ist8310DefaultsOk bus s
      if ok then ({ dev with state := .conf }, s)
      else if (5 : UInt8) < dev.attempt + 1 then ({ dev with state := .fail, attempt := 0 }, s)
      else ({ dev with state := .reset, attempt := dev.attempt + 1 }, s)
  | .conf =>
      let (ok, s) := ist8310Configure bus s
      let dev := { dev with magScale := math.perGauss }
      if ok then ({ dev with state := .meas }, s) else ({ dev with state := .reset }, s)
  | .meas => ({ dev with state := .read }, bus.writeReg cntl1 singleMeas s)
  | .read => (ist8310ProcessMeas math { dev with raw := raw }, bus.writeReg cntl1 singleMeas s)
  | .fail => (dev, s)

end Functions

/-! ## Passes -/

/-- The state gives `measrdy_sem`. -/
def Ist8310State.givesMeasrdy : Ist8310State → Prop
  | .read | .fail => True
  | _ => False

section Passes

variable (math : Ist8310Math) (raws : ℕ → Ist8310Raw) (reads : ℕ → UInt8)

/-- The device after `n` passes over a chip whose reads return a given sequence, with the
number of register reads made. -/
def ist8310Passes : ℕ → Ist8310Device × ℕ
  | 0 => (ist8310Start, 0)
  | n + 1 => ist8310Fsm math (replayBus reads) (raws n) (ist8310Passes n)

/-- The device before pass `n`. -/
def ist8310At (n : ℕ) : Ist8310Device := (ist8310Passes math raws reads n).1

/-- Pass `n` finds the registers without their values after a reset. -/
def Ist8310DefaultsFail (n : ℕ) : Prop :=
  (ist8310At math raws reads n).state = .resetWait ∧
    (ist8310DefaultsOk (replayBus reads) (ist8310Passes math raws reads n).2).1 = false

instance : DecidablePred (Ist8310DefaultsFail math raws reads) := fun _ =>
  inferInstanceAs (Decidable (_ ∧ _))

/-- Pass `n` configures the sensor. -/
def Ist8310Configured (n : ℕ) : Prop :=
  (ist8310At math raws reads n).state = .conf ∧
    (ist8310Configure (replayBus reads) (ist8310Passes math raws reads n).2).1 = true

end Passes

section Settle

variable {math : Ist8310Math} {raws : ℕ → Ist8310Raw} {reads : ℕ → UInt8} {n : ℕ}

theorem ist8310At_succ :
    ist8310At math raws reads (n + 1) =
      (ist8310Fsm math (replayBus reads) (raws n)
        (ist8310At math raws reads n, (ist8310Passes math raws reads n).2)).1 :=
  rfl

/-- A check of the registers after a reset that fails is the sixth one, or it is counted. -/
theorem ist8310At_succ_of_defaultsFail (hle : (ist8310At math raws reads n).attempt.toNat ≤ 5)
    (h : Ist8310DefaultsFail math raws reads n) :
    (ist8310At math raws reads n).attempt.toNat = 5 ∧
        (ist8310At math raws reads (n + 1)).state = .fail ∨
      (ist8310At math raws reads n).attempt.toNat < 5 ∧
        (ist8310At math raws reads (n + 1)).state = .reset ∧
        (ist8310At math raws reads (n + 1)).attempt.toNat =
          (ist8310At math raws reads n).attempt.toNat + 1 := by
  have hsucc := five_lt_succ_iff hle
  simp only [ist8310At_succ, ist8310Fsm, h.1, h.2, Bool.false_eq_true, if_false]
  split_ifs with hmany
  · exact .inl ⟨hsucc.1 hmany, rfl⟩
  · refine .inr ⟨?_, rfl, toNat_succ hle⟩
    rw [hsucc] at hmany
    omega

/-- A check that does not fail. -/
theorem ist8310At_succ_of_defaultsOk (hstate : (ist8310At math raws reads n).state = .resetWait)
    (h : ¬ Ist8310DefaultsFail math raws reads n) :
    ist8310At math raws reads (n + 1) = { ist8310At math raws reads n with state := .conf } := by
  have hok : (ist8310DefaultsOk (replayBus reads) (ist8310Passes math raws reads n).2).1 = true :=
    Bool.eq_true_of_not_eq_false fun hfalse => h ⟨hstate, hfalse⟩
  simp only [ist8310At_succ, ist8310Fsm, hstate, hok, if_true]

/-- A pass in `CONF`. -/
theorem ist8310At_succ_of_conf (hstate : (ist8310At math raws reads n).state = .conf) :
    (ist8310At math raws reads (n + 1)).attempt = (ist8310At math raws reads n).attempt ∧
      (Ist8310Configured math raws reads n ∧ (ist8310At math raws reads (n + 1)).state = .meas ∨
        (ist8310At math raws reads (n + 1)).state = .reset) := by
  simp only [ist8310At_succ, ist8310Fsm, hstate]
  cases hok : (ist8310Configure (replayBus reads) (ist8310Passes math raws reads n).2).1 with
  | true => exact ⟨rfl, .inl ⟨⟨hstate, hok⟩, rfl⟩⟩
  | false => exact ⟨rfl, .inr rfl⟩

/-- The pass of the first measurement, and those after it. -/
theorem ist8310At_succ_of_read (hstate : (ist8310At math raws reads n).state = .meas ∨
    (ist8310At math raws reads n).state = .read) :
    (ist8310At math raws reads (n + 1)).state = .read := by
  rcases hstate with hstate | hstate
  · simp only [ist8310At_succ, ist8310Fsm, hstate]
  · simp only [ist8310At_succ, ist8310Fsm, hstate, ist8310ProcessMeas]
    split_ifs
    all_goals rfl

/-- What the state says of the passes before pass `n`. -/
def Ist8310History (math : Ist8310Math) (raws : ℕ → Ist8310Raw) (reads : ℕ → UInt8) (n : ℕ) :
    Prop :=
  let fails := Nat.count (Ist8310DefaultsFail math raws reads) n
  match (ist8310At math raws reads n).state with
  | .reset | .resetWait | .conf => (ist8310At math raws reads n).attempt.toNat = fails ∧ fails ≤ 5
  | .meas | .read => ∃ m, Ist8310Configured math raws reads m
  | .fail => 6 ≤ fails

/-- Only a pass in `RESET_WAIT` fails a check. -/
theorem count_succ_of_ne (h : (ist8310At math raws reads n).state ≠ .resetWait) :
    Nat.count (Ist8310DefaultsFail math raws reads) (n + 1) =
      Nat.count (Ist8310DefaultsFail math raws reads) n := by
  rw [Nat.count_succ, if_neg fun hfail => h hfail.1, Nat.add_zero]

theorem ist8310History (n : ℕ) : Ist8310History math raws reads n := by
  induction n with
  | zero => exact ⟨rfl, Nat.zero_le 5⟩
  | succ n ih =>
      have hne : ∀ state, (ist8310At math raws reads n).state = state → state ≠ .resetWait →
          Nat.count (Ist8310DefaultsFail math raws reads) (n + 1) =
            Nat.count (Ist8310DefaultsFail math raws reads) n := by
        rintro state rfl hwait
        exact count_succ_of_ne hwait
      cases hstate : (ist8310At math raws reads n).state with
      | reset =>
          simp only [Ist8310History, hstate] at ih
          simp only [Ist8310History, ist8310At_succ, ist8310Fsm, hstate]
          rwa [hne _ hstate (by decide)]
      | resetWait =>
          simp only [Ist8310History, hstate] at ih
          by_cases hfail : Ist8310DefaultsFail math raws reads n
          · have hcount : Nat.count (Ist8310DefaultsFail math raws reads) (n + 1) =
                Nat.count (Ist8310DefaultsFail math raws reads) n + 1 := by
              rw [Nat.count_succ, if_pos hfail]
            obtain ⟨hfive, hto⟩ | ⟨hlt, hto, hattempt⟩ :=
              ist8310At_succ_of_defaultsFail (by omega) hfail
            · simp only [Ist8310History, hto]
              omega
            · simp only [Ist8310History, hto]
              omega
          · rw [Ist8310History, ist8310At_succ_of_defaultsOk hstate hfail, Nat.count_succ,
              if_neg hfail]
            exact ih
      | conf =>
          simp only [Ist8310History, hstate] at ih
          obtain ⟨hattempt, ⟨hconf, hto⟩ | hto⟩ := ist8310At_succ_of_conf hstate
          · simp only [Ist8310History, hto]
            exact ⟨n, hconf⟩
          · simp only [Ist8310History, hto, hattempt]
            rwa [hne _ hstate (by decide)]
      | meas =>
          simp only [Ist8310History, hstate] at ih
          simp only [Ist8310History, ist8310At_succ_of_read (.inl hstate)]
          exact ih
      | read =>
          simp only [Ist8310History, hstate] at ih
          simp only [Ist8310History, ist8310At_succ_of_read (.inr hstate)]
          exact ih
      | fail =>
          simp only [Ist8310History, hstate] at ih
          simp only [Ist8310History, ist8310At_succ, ist8310Fsm, hstate]
          rwa [hne _ hstate (by decide)]

/-- The service gives `measrdy_sem` exactly when a configuration is read back, or six checks
of the registers after a reset fail. -/
theorem ist8310_settles_iff :
    (∃ n, (ist8310At math raws reads n).state.givesMeasrdy) ↔
      (∃ n, Ist8310Configured math raws reads n) ∨
        ∃ n, 6 ≤ Nat.count (Ist8310DefaultsFail math raws reads) n := by
  constructor
  · rintro ⟨n, hn⟩
    have hhistory : Ist8310History math raws reads n := ist8310History n
    cases hstate : (ist8310At math raws reads n).state with
    | read => exact .inl (by simpa only [Ist8310History, hstate] using hhistory)
    | fail => exact .inr ⟨n, by simpa only [Ist8310History, hstate] using hhistory⟩
    | reset => rw [hstate] at hn; exact hn.elim
    | resetWait => rw [hstate] at hn; exact hn.elim
    | conf => rw [hstate] at hn; exact hn.elim
    | meas => rw [hstate] at hn; exact hn.elim
  · rintro (⟨n, hconf⟩ | ⟨n, hsix⟩)
    · have hmeas : (ist8310At math raws reads (n + 1)).state = .meas := by
        simp only [ist8310At_succ, ist8310Fsm, hconf.1, hconf.2, if_true]
      refine ⟨n + 2, ?_⟩
      rw [ist8310At_succ_of_read (.inl hmeas)]
      trivial
    · have hhistory : Ist8310History math raws reads n := ist8310History n
      cases hstate : (ist8310At math raws reads n).state with
      | reset =>
          simp only [Ist8310History, hstate] at hhistory
          omega
      | resetWait =>
          simp only [Ist8310History, hstate] at hhistory
          omega
      | conf =>
          simp only [Ist8310History, hstate] at hhistory
          omega
      | meas => exact ⟨n + 1, by rw [ist8310At_succ_of_read (.inl hstate)]; trivial⟩
      | read => exact ⟨n, by rw [hstate]; trivial⟩
      | fail => exact ⟨n, by rw [hstate]; trivial⟩

end Settle

end Catpilot
