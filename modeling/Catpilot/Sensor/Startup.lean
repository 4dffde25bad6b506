import Catpilot.Icm.Startup
import Catpilot.Ist8310.Basic

/-!
# Whether the start of a sensor ends

The start functions of the ICM20649, the ICM20948 and the IST8310 wait without a limit until
the service of the sensor measures or has given up. A failed configuration leads back to the
reset: in the first two after six failures, with the counter cleared, in the third at once
and without counting. So the service gives up only through failed checks of the registers
after a reset.
-/

namespace Catpilot

/-- The register reads bring the start function of every sensor to its end. -/
def StartsEnd (reads : ℕ → UInt8) : Prop :=
  (∀ setup : IcmSetup, ∃ n, (icmAt setup reads n).state.givesMeasrdy) ∧
    ∀ (math : Ist8310Math) (raws : ℕ → Ist8310Raw),
      ∃ n, (ist8310At math raws reads n).state.givesMeasrdy

/-- Whatever the registers return, the start of the two sensors with banks ends exactly when
a configuration is read back or six checks of the registers after a reset fail one after the
other, and the start of the IST8310 exactly when a configuration is read back or six such
checks fail in all. -/
theorem starts_end_iff (reads : ℕ → UInt8) :
    (∀ setup : IcmSetup, (∃ n, (icmAt setup reads n).state.givesMeasrdy) ↔
        (∃ n, IcmConfigured setup reads n) ∨ ∃ n, IcmGivesUp setup reads n) ∧
      ∀ (math : Ist8310Math) (raws : ℕ → Ist8310Raw),
        (∃ n, (ist8310At math raws reads n).state.givesMeasrdy) ↔
          (∃ n, Ist8310Configured math raws reads n) ∨
            ∃ n, 6 ≤ Nat.count (Ist8310DefaultsFail math raws reads) n :=
  ⟨fun _ => icm_settles_iff, fun _ _ => ist8310_settles_iff⟩

section Endless

variable {math : Ist8310Math} {raws : ℕ → Ist8310Raw}

/-- A chip that answers every read with its identification passes the check after a reset and
fails the configuration. -/
theorem ist8310At_deviceId (n : ℕ) :
    (ist8310At math raws (fun _ => Ist8310.deviceId) n).state = .reset ∨
      (ist8310At math raws (fun _ => Ist8310.deviceId) n).state = .resetWait ∨
      (ist8310At math raws (fun _ => Ist8310.deviceId) n).state = .conf := by
  have hdefaults : ∀ k, (ist8310DefaultsOk (replayBus fun _ => Ist8310.deviceId) k).1 = true := by
    intro k
    simp only [ist8310DefaultsOk, replayBus, if_true]
    exact decide_eq_true (by decide : Ist8310.deviceId &&& Ist8310.srst = 0)
  have hconfigure : ∀ k,
      (ist8310Configure (replayBus fun _ => Ist8310.deviceId) k).1 = false := by
    intro k
    simp only [ist8310Configure, configureRegs, checkRegs, Ist8310.regCfg, List.foldl_cons,
      List.foldl_nil, replayBus]
    rfl
  induction n with
  | zero => exact .inl rfl
  | succ n ih =>
      rcases ih with hstate | hstate | hstate
      · simp only [ist8310At_succ, ist8310Fsm, hstate, true_or, or_true]
      · simp only [ist8310At_succ, ist8310Fsm, hstate, hdefaults, if_true, or_true]
      · simp only [ist8310At_succ, ist8310Fsm, hstate, hconfigure, Bool.false_eq_true, if_false,
          true_or]

/-- The start function of the IST8310 waits forever. -/
theorem not_givesMeasrdy_deviceId :
    ¬ ∃ n, (ist8310At math raws (fun _ => Ist8310.deviceId) n).state.givesMeasrdy := by
  rintro ⟨n, hn⟩
  rcases ist8310At_deviceId n with hstate | hstate | hstate
  · rw [hstate] at hn
    exact hn
  · rw [hstate] at hn
    exact hn
  · rw [hstate] at hn
    exact hn

/-- A start of the ICM20649. -/
def sampleSetup : IcmSetup where
  sensor := .icm20649
  head := sampleHead
  math := integerMath
  scaling := ⟨fun _ => 0, fun _ => 0, fun _ => 0, fun _ => 0⟩
  samples := fun _ _ _ => 0

/-- There are register reads with which the start function of the ICM20649 waits forever, and
others with which the one of the IST8310 does. -/
theorem not_startsEnd : ¬ StartsEnd endlessReads ∧ ¬ StartsEnd fun _ => Ist8310.deviceId := by
  constructor
  · intro h
    have hsensor : sampleSetup.sensor = .icm20649 := rfl
    exact not_givesMeasrdy_endless hsensor (h.1 sampleSetup)
  · intro h
    exact not_givesMeasrdy_deviceId (h.2 ⟨0, fun _ _ => 0⟩ fun _ => ⟨0, 0, 0, 0, 0, 0, 0⟩)

end Endless

end Catpilot
