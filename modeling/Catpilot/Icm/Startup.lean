import Catpilot.Icm.Registers

/-!
# The start of the ICM20649 and the ICM20948

The start function waits for `measrdy_sem`, which the service gives from the state
`FIFO_READ` and from `FAIL`. Here the service makes its passes over a chip whose register
reads return a given sequence.
-/

namespace Catpilot

open Icm

/-! ## Passes -/

/-- A pass in the state gives `measrdy_sem`. In `FIFO_READ` it waits for `drdy_sem` before that,
where a data-ready pin is given, so that there it is up to the chip's interrupt. -/
def IcmState.givesMeasrdy : IcmState → Prop
  | .fifoRead | .fail => True
  | _ => False

section Pass

variable {σ : Type*} (sensor : BankedSensor) (math : IcmMath) (scaling : IcmScaling)
  (bus : RegBus (UInt8 × UInt8) σ)

/-- What a pass gets from the registers, and what it leaves of the chip. The accesses are
those of the state of the device. -/
def icmAccesses (answer : IcmChip) (dev : IcmDevice) (s : σ) : IcmInput × σ :=
  let idle : IcmInput :=
    { defaultsOk := false, configureOk := false, param := dev.measParam, chip := answer }
  match dev.state with
  | .reset => (idle, bus.writeReg (bank0, pwrMgmt1) deviceReset s)
  | .resetWait =>
      let (defaultsOk, s) := icmDefaultsOk sensor bus s
      let s :=
        if defaultsOk then
          bus.writeReg (bank0, userCtrl) (i2cIfDis ||| sramRst)
            (bus.writeReg (bank0, pwrMgmt1) clksel0 s)
        else s
      ({ idle with defaultsOk := defaultsOk }, s)
  | .conf =>
      let (configureOk, param, s) := icmConfigure sensor bus scaling dev.measParam s
      let s := if configureOk then icmFifoReset bus s else s
      ({ idle with configureOk := configureOk, param := param }, s)
  | .fifoRead | .fail => (idle, s)

/-- A pass of `icm20649_fsm` and `icm20948_fsm`, with the accesses that it makes. -/
def icmPass (answer : IcmChip) (p : IcmDevice × σ) : IcmDevice × σ :=
  let (input, s) := icmAccesses sensor scaling bus answer p.1 p.2
  (icmFsm sensor.driver math input p.1, s)

end Pass

/-- What a start is made with: the sensor, the record, the arithmetic, and the samples that
the passes in `FIFO_READ` get. -/
structure IcmSetup where
  sensor : BankedSensor
  head : IcmHead
  math : IcmMath
  scaling : IcmScaling
  samples : ℕ → IcmChip

section Passes

variable (setup : IcmSetup) (reads : ℕ → UInt8)

/-- The device after `n` passes, with the number of register reads made. -/
def icmPasses : ℕ → IcmDevice × ℕ
  | 0 => (icmStart setup.head, 0)
  | n + 1 =>
      icmPass setup.sensor setup.math setup.scaling (replayBus reads) (setup.samples n)
        (icmPasses n)

/-- The device before pass `n`. -/
def icmAt (n : ℕ) : IcmDevice := (icmPasses setup reads n).1

/-- What pass `n` gets from the registers. -/
def icmInputAt (n : ℕ) : IcmInput :=
  (icmAccesses setup.sensor setup.scaling (replayBus reads) (setup.samples n)
    (icmPasses setup reads n).1 (icmPasses setup reads n).2).1

/-- Pass `n` finds the registers without their values after a reset. -/
def IcmDefaultsFail (n : ℕ) : Prop :=
  (icmAt setup reads n).state = .resetWait ∧ (icmInputAt setup reads n).defaultsOk = false

/-- Pass `n` configures the sensor. -/
def IcmConfigured (n : ℕ) : Prop :=
  (icmAt setup reads n).state = .conf ∧ (icmInputAt setup reads n).configureOk = true

/-- Six checks of the registers after a reset fail one after the other, with a reset before
each; `n` is the pass of the first one. -/
def IcmGivesUp (n : ℕ) : Prop := ∀ k < 6, IcmDefaultsFail setup reads (n + 2 * k)

end Passes

section Settle

variable {setup : IcmSetup} {reads : ℕ → UInt8} {n : ℕ}

theorem icmAt_succ :
    icmAt setup reads (n + 1) =
      icmFsm setup.sensor.driver setup.math (icmInputAt setup reads n) (icmAt setup reads n) :=
  rfl

/-- What pass `n` can make of the state and the counter. -/
inductive IcmMoves (setup : IcmSetup) (reads : ℕ → UInt8) (n : ℕ) (dev : IcmDevice) : Prop where
  | reset (hfrom : (icmAt setup reads n).state = .reset) (hto : dev.state = .resetWait)
      (hattempt : dev.attempt.toNat = (icmAt setup reads n).attempt.toNat)
  | passed (hfrom : (icmAt setup reads n).state = .resetWait) (hto : dev.state = .conf)
      (hattempt : dev.attempt.toNat ≤ 5)
  | again (hfail : IcmDefaultsFail setup reads n) (hto : dev.state = .reset)
      (hattempt : dev.attempt.toNat = (icmAt setup reads n).attempt.toNat + 1)
      (hle : dev.attempt.toNat ≤ 5)
  | gaveUp (hfail : IcmDefaultsFail setup reads n)
      (hfive : (icmAt setup reads n).attempt.toNat = 5) (hto : dev.state = .fail)
      (hattempt : dev.attempt.toNat ≤ 5)
  | configured (hconf : IcmConfigured setup reads n) (hto : dev.state = .fifoRead)
      (hattempt : dev.attempt.toNat ≤ 5)
  | retry (hto : dev.state = .conf) (hattempt : dev.attempt.toNat ≤ 5)
  | restart (hto : dev.state = .reset) (hattempt : dev.attempt.toNat = 0)
  | settled (hfrom : (icmAt setup reads n).state.givesMeasrdy)
      (hto : dev.state = (icmAt setup reads n).state) (hattempt : dev.attempt.toNat ≤ 5)

/-- A pass in `FIFO_READ` leaves the state and the counter. -/
theorem state_fsmFifoRead (driver : IcmDriver) (math : IcmMath) (chip : IcmChip)
    (dev : IcmDevice) :
    (fsmFifoRead driver math chip dev).state = dev.state ∧
      (fsmFifoRead driver math chip dev).attempt = dev.attempt := by
  cases driver with
  | _ => exact ⟨rfl, rfl⟩

/-- After a reset the next pass checks the registers. -/
theorem icmAt_succ_of_reset (h : (icmAt setup reads n).state = .reset) :
    icmAt setup reads (n + 1) = { icmAt setup reads n with state := .resetWait } := by
  rw [icmAt_succ]
  simp only [icmFsm, h]

/-- A failed check is the sixth one, or it is counted. -/
theorem icmAt_succ_of_defaultsFail (hle : (icmAt setup reads n).attempt.toNat ≤ 5)
    (h : IcmDefaultsFail setup reads n) :
    (icmAt setup reads n).attempt.toNat = 5 ∧ (icmAt setup reads (n + 1)).state = .fail ∧
        (icmAt setup reads (n + 1)).attempt = 0 ∨
      (icmAt setup reads n).attempt.toNat < 5 ∧ (icmAt setup reads (n + 1)).state = .reset ∧
        (icmAt setup reads (n + 1)).attempt.toNat = (icmAt setup reads n).attempt.toNat + 1 := by
  have hsucc := five_lt_succ_iff hle
  simp only [icmAt_succ, icmFsm, h.1, h.2, Bool.false_eq_true, if_false]
  split_ifs with hmany
  · exact .inl ⟨hsucc.1 hmany, rfl, rfl⟩
  · refine .inr ⟨?_, rfl, toNat_succ hle⟩
    rw [hsucc] at hmany
    omega

theorem icmMoves (h : (icmAt setup reads n).attempt.toNat ≤ 5) :
    IcmMoves setup reads n (icmAt setup reads (n + 1)) := by
  cases hstate : (icmAt setup reads n).state with
  | reset =>
      rw [icmAt_succ_of_reset hstate]
      exact .reset hstate rfl rfl
  | resetWait =>
      cases hok : (icmInputAt setup reads n).defaultsOk with
      | true =>
          simp only [icmAt_succ, icmFsm, hstate, hok, if_true]
          exact .passed hstate rfl h
      | false =>
          have hfail : IcmDefaultsFail setup reads n := ⟨hstate, hok⟩
          obtain ⟨hfive, hto, hattempt⟩ | ⟨hlt, hto, hattempt⟩ :=
            icmAt_succ_of_defaultsFail h hfail
          · exact .gaveUp hfail hfive hto (by rw [hattempt]; exact Nat.zero_le 5)
          · exact .again hfail hto hattempt (by omega)
  | conf =>
      have hsucc := five_lt_succ_iff h
      have hnext := toNat_succ h
      cases hok : (icmInputAt setup reads n).configureOk with
      | true =>
          simp only [icmAt_succ, icmFsm, hstate, hok, if_true]
          exact .configured ⟨hstate, hok⟩ rfl h
      | false =>
          simp only [icmAt_succ, icmFsm, hstate, hok, Bool.false_eq_true, if_false]
          split_ifs with hmany
          · exact .restart rfl rfl
          · refine .retry rfl ?_
            rw [hsucc] at hmany
            dsimp only
            omega
  | fifoRead =>
      simp only [icmAt_succ, icmFsm, hstate]
      obtain ⟨hto, hattempt⟩ := state_fsmFifoRead setup.sensor.driver setup.math
        (icmInputAt setup reads n).chip (icmAt setup reads n)
      exact .settled (by rw [hstate]; trivial) hto (hattempt ▸ h)
  | fail =>
      simp only [icmAt_succ, icmFsm, hstate]
      exact .settled (by rw [hstate]; trivial) rfl h

theorem icmAttempt_le : (icmAt setup reads n).attempt.toNat ≤ 5 := by
  induction n with
  | zero => exact Nat.zero_le 5
  | succ n ih =>
      cases icmMoves ih with
      | reset _ _ hattempt => omega
      | restart _ hattempt => omega
      | passed _ _ hattempt => exact hattempt
      | again _ _ _ hle => exact hle
      | gaveUp _ _ _ hattempt => exact hattempt
      | configured _ _ hattempt => exact hattempt
      | retry _ hattempt => exact hattempt
      | settled _ _ hattempt => exact hattempt

/-- The last `a` checks of the registers after a reset have failed, one after the other;
the next one is that of pass `n`. -/
def FailedRow (setup : IcmSetup) (reads : ℕ → UInt8) (a n : ℕ) : Prop :=
  ∃ m, n = m + 2 * a ∧ ∀ k < a, IcmDefaultsFail setup reads (m + 2 * k)

/-- What has brought the device to its state before pass `n`. -/
def IcmHistory (setup : IcmSetup) (reads : ℕ → UInt8) (n : ℕ) : Prop :=
  match (icmAt setup reads n).state with
  | .reset => FailedRow setup reads (icmAt setup reads n).attempt.toNat (n + 1)
  | .resetWait => FailedRow setup reads (icmAt setup reads n).attempt.toNat n
  | .conf => True
  | .fifoRead | .fail => (∃ m, IcmConfigured setup reads m) ∨ ∃ m, IcmGivesUp setup reads m

theorem FailedRow.zero (n : ℕ) : FailedRow setup reads 0 n :=
  ⟨n, rfl, fun k hk => absurd hk (Nat.not_lt_zero k)⟩

/-- One more failed check makes the row longer. -/
theorem FailedRow.succ {a : ℕ} (h : FailedRow setup reads a n)
    (hfail : IcmDefaultsFail setup reads n) : FailedRow setup reads (a + 1) (n + 2) := by
  obtain ⟨m, rfl, hrow⟩ := h
  refine ⟨m, by omega, fun k hk => ?_⟩
  rcases Nat.lt_succ_iff_lt_or_eq.1 hk with hlt | rfl
  · exact hrow k hlt
  · exact hfail

theorem IcmHistory.of_givesMeasrdy (h : IcmHistory setup reads n)
    (hstate : (icmAt setup reads n).state.givesMeasrdy) :
    (∃ m, IcmConfigured setup reads m) ∨ ∃ m, IcmGivesUp setup reads m := by
  rw [IcmHistory] at h
  cases hs : (icmAt setup reads n).state with
  | reset => rw [hs] at hstate; exact hstate.elim
  | resetWait => rw [hs] at hstate; exact hstate.elim
  | conf => rw [hs] at hstate; exact hstate.elim
  | fifoRead => rw [hs] at h; exact h
  | fail => rw [hs] at h; exact h

theorem icmHistory (n : ℕ) : IcmHistory setup reads n := by
  induction n with
  | zero => exact FailedRow.zero 1
  | succ n ih =>
      have hmoves : IcmMoves setup reads n (icmAt setup reads (n + 1)) := icmMoves icmAttempt_le
      cases hmoves with
      | reset hfrom hto hattempt =>
          simp only [IcmHistory, hfrom] at ih
          simp only [IcmHistory, hto, hattempt]
          exact ih
      | passed hfrom hto hattempt =>
          simp only [IcmHistory, hto]
      | again hfail hto hattempt hle =>
          simp only [IcmHistory, hfail.1] at ih
          simp only [IcmHistory, hto, hattempt]
          exact ih.succ hfail
      | gaveUp hfail hfive hto _ =>
          simp only [IcmHistory, hfail.1, hfive] at ih
          simp only [IcmHistory, hto]
          obtain ⟨m, -, hrow⟩ := ih.succ hfail
          exact .inr ⟨m, hrow⟩
      | configured hconf hto _ =>
          simp only [IcmHistory, hto]
          exact .inl ⟨n, hconf⟩
      | retry hto _ =>
          simp only [IcmHistory, hto]
      | restart hto hattempt =>
          simp only [IcmHistory, hto, hattempt]
          exact FailedRow.zero _
      | settled hfrom hto _ =>
          have hdone := ih.of_givesMeasrdy hfrom
          cases hs : (icmAt setup reads n).state with
          | fifoRead => simpa only [IcmHistory, hto, hs] using hdone
          | fail => simpa only [IcmHistory, hto, hs] using hdone
          | reset => rw [hs] at hfrom; exact hfrom.elim
          | resetWait => rw [hs] at hfrom; exact hfrom.elim
          | conf => rw [hs] at hfrom; exact hfrom.elim

/-- While no pass gives `measrdy_sem`, failed checks of the registers after a reset that
follow one another are counted. -/
theorem le_attempt_of_row {m : ℕ} (hrow : IcmGivesUp setup reads m)
    (hnever : ∀ n, ¬ (icmAt setup reads n).state.givesMeasrdy) {k : ℕ} (hk : k < 6) :
    k ≤ (icmAt setup reads (m + 2 * k)).attempt.toNat := by
  induction k with
  | zero => exact Nat.zero_le _
  | succ k ih =>
      have hcount := ih (by omega)
      obtain ⟨-, hto, -⟩ | ⟨-, hto, hattempt⟩ :=
        icmAt_succ_of_defaultsFail icmAttempt_le (hrow k (by omega))
      · exact absurd (by rw [hto]; trivial) (hnever (m + 2 * k + 1))
      · have hnext : m + 2 * (k + 1) = m + 2 * k + 1 + 1 := by omega
        rw [hnext, icmAt_succ_of_reset hto]
        dsimp only
        omega

/-- The service gives `measrdy_sem` exactly when a configuration is read back, or six checks
of the registers after a reset fail one after the other. -/
theorem icm_settles_iff :
    (∃ n, (icmAt setup reads n).state.givesMeasrdy) ↔
      (∃ n, IcmConfigured setup reads n) ∨ ∃ n, IcmGivesUp setup reads n := by
  constructor
  · rintro ⟨n, hn⟩
    exact (icmHistory n).of_givesMeasrdy hn
  · rintro (⟨n, hstate, hok⟩ | ⟨m, hrow⟩)
    · refine ⟨n + 1, ?_⟩
      simp only [icmAt_succ, icmFsm, hstate, hok, if_true]
      trivial
    · by_contra hnever
      have hnone : ∀ n, ¬ (icmAt setup reads n).state.givesMeasrdy := not_exists.1 hnever
      have hfive := le_attempt_of_row hrow hnone (by decide : 5 < 6)
      obtain ⟨-, hto, -⟩ | ⟨hlt, -, -⟩ :=
        icmAt_succ_of_defaultsFail icmAttempt_le (hrow 5 (by decide))
      · exact hnone (m + 2 * 5 + 1) (by rw [hto]; trivial)
      · omega

end Settle

/-! ## A start that never ends -/

section Endless

/-- Reads that pass the check after a reset and fail six configurations, again and again. -/
def endlessReads (n : ℕ) : UInt8 :=
  if n % 158 = 0 then BankedSensor.icm20649.whoami
  else if n % 158 = 1 then 0x41
  else 0

variable {setup : IcmSetup} {n : ℕ}

/-- A configuration of the ICM20649 makes 26 reads. -/
theorem snd_icmConfigure_replay (reads : ℕ → UInt8) (scaling : IcmScaling) (param : IcmMeasParam)
    (n : ℕ) :
    (icmConfigure .icm20649 (replayBus reads) scaling param n).2.2 = n + 26 := by
  have haccel : ∀ param n,
      (accelConfigure .icm20649 (replayBus reads) scaling param n).2 = n + 1 := by
    intro param n
    rw [accelConfigure]
    dsimp only [replayBus]
    split
    all_goals rfl
  simp only [icmConfigure, BankedSensor.tables, List.foldl_cons, List.foldl_nil, gyroConfigure,
    haccel, snd_configureRegs_replay]
  simp only [replayBus, icm20649Bank0RegCfg, icm20649Bank2RegCfg, List.length_cons,
    List.length_nil]

/-- The configuration fails when `USER_CTRL` is read back as zero. -/
theorem fst_icmConfigure_replay {reads : ℕ → UInt8} (h : reads (n + 7) = 0)
    (scaling : IcmScaling) (param : IcmMeasParam) :
    (icmConfigure .icm20649 (replayBus reads) scaling param n).1 = false := by
  have hbank0 : ∀ rv, (configureRegs (replayBus reads) (fun reg => (bank0, reg))
      icm20649Bank0RegCfg rv n).1 = false :=
    fst_configureRegs_replay _ _ (by simp only [List.length_cons, List.length_nil, h]; decide)
  simp only [icmConfigure, BankedSensor.tables, List.foldl_cons, List.foldl_nil, hbank0]
  exact fst_checkRegs_false _ _ _ _

/-- Where the device stands when the reads are `endlessReads`. -/
def Endless (p : IcmDevice × ℕ) : Prop :=
  match p.1.state with
  | .reset | .resetWait => p.1.attempt = 0 ∧ p.2 % 158 = 0
  | .conf => p.1.attempt.toNat ≤ 5 ∧ p.2 % 158 = 2 + 26 * p.1.attempt.toNat
  | .fifoRead | .fail => False

/-- The reads from a position on that is a multiple of the period. -/
theorem icmDefaultsOk_endless (h : n % 158 = 0) :
    icmDefaultsOk .icm20649 (replayBus endlessReads) n = (true, n + 2) := by
  have hwho : endlessReads n = BankedSensor.icm20649.whoami := by rw [endlessReads, if_pos h]
  have hpwr : endlessReads (n + 1) = 0x41 := by
    rw [endlessReads, if_neg (by omega), if_pos (by omega)]
  simp only [icmDefaultsOk, replayBus, hwho, hpwr, if_true, decide_true]

theorem Endless.pass {p : IcmDevice × ℕ} (h : Endless p) (math : IcmMath) (scaling : IcmScaling)
    (answer : IcmChip) :
    Endless (icmPass .icm20649 math scaling (replayBus endlessReads) answer p) := by
  obtain ⟨dev, pos⟩ := p
  cases hstate : dev.state with
  | reset =>
      simp only [Endless, hstate] at h
      simp only [icmPass, icmAccesses, hstate, icmFsm]
      exact h
  | resetWait =>
      simp only [Endless, hstate] at h
      simp only [icmPass, icmAccesses, hstate, icmFsm, icmDefaultsOk_endless h.2, if_true]
      simp only [Endless, h.1]
      refine ⟨Nat.zero_le 5, ?_⟩
      dsimp only [replayBus]
      have hzero : (0 : UInt8).toNat = 0 := rfl
      omega
  | conf =>
      simp only [Endless, hstate] at h
      have hread : endlessReads (pos + 7) = 0 := by
        rw [endlessReads, if_neg (by omega), if_neg (by omega)]
      simp only [icmPass, icmAccesses, hstate, icmFsm, fst_icmConfigure_replay hread,
        snd_icmConfigure_replay, Bool.false_eq_true, if_false]
      have hsucc := five_lt_succ_iff h.1
      split_ifs with hmany
      · rw [hsucc] at hmany
        exact ⟨rfl, by dsimp only; omega⟩
      · rw [hsucc] at hmany
        simp only [Endless, toNat_succ h.1]
        omega
  | fifoRead => simp only [Endless, hstate] at h
  | fail => simp only [Endless, hstate] at h

/-- The start function of the ICM20649 waits forever. -/
theorem not_givesMeasrdy_endless (hsensor : setup.sensor = .icm20649) :
    ¬ ∃ n, (icmAt setup endlessReads n).state.givesMeasrdy := by
  have hpasses : ∀ n, Endless (icmPasses setup endlessReads n) := by
    intro n
    induction n with
    | zero => exact ⟨rfl, rfl⟩
    | succ n ih =>
        rw [icmPasses, hsensor]
        exact ih.pass _ _ _
  rintro ⟨n, hn⟩
  have hendless := hpasses n
  rw [icmAt] at hn
  cases hstate : (icmPasses setup endlessReads n).1.state with
  | fifoRead => simp only [Endless, hstate] at hendless
  | fail => simp only [Endless, hstate] at hendless
  | reset => rw [hstate] at hn; exact hn
  | resetWait => rw [hstate] at hn; exact hn
  | conf => rw [hstate] at hn; exact hn

end Endless

end Catpilot
