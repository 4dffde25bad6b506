import Catpilot.Cubeio.Safety
import Mathlib.Tactic.Linarith

/-!
# The range of the PWM channels

The values written for the channels are the demands, scaled by the ranges that
`cubeio_set_range` has set. A demand is not limited to its nominal range before it is
scaled, and the range of the first channel can be changed through the RC channels, of
which there is one too many. Otherwise each value lies in the range of its channel.
-/

namespace Catpilot

open Transition

/-- The range that a call sets for a PWM channel. -/
def CubeioCall.range (i : Fin 16) : CubeioCall → Option CubeioRangeCfg
  | .setRange type channel channelType min max =>
      if type = cubeioPwm ∧ channel.toNat = i then some ⟨channelType, min, max⟩ else none
  | _ => none

/-- A run, with the range of the last `cubeio_set_range` call for each PWM channel. -/
structure RangeRun where
  sys : CubeioSystem
  last : Fin 16 → Option CubeioRangeCfg

/-- A run at its start. -/
def rangeInit : RangeRun := ⟨cubeioInit, fun _ => none⟩

/-- A step of the run. -/
def rangeStep (plat : CubeioPlatform) (g : RangeRun) : CubeioAction → Option RangeRun
  | .call c => some ⟨{ g.sys with dev := cubeioCall plat g.sys.dev c },
      fun i => (c.range i).or (g.last i)⟩
  | .pass p => some ⟨cubeioFsm plat p g.sys, g.last⟩

/-- A call changes the range of a channel to the one it sets for this channel or not at
all, and the values that a pass writes lie in the ranges last set for their channels. -/
def PwmInRange (plat : CubeioPlatform) (g : RangeRun) : CubeioAction → Prop
  | .call c => ∀ i, (cubeioCall plat g.sys.dev c).pwmRangeCfg i =
      (c.range i).getD (g.sys.dev.pwmRangeCfg i)
  | .pass p => ∀ t ∈ (cubeioFsm plat p g.sys).log.drop g.sys.log.length,
      t.kind = .write → t.page = pageDirectPwm → ∀ i : Fin 16, ∀ cfg ∈ g.last i,
        ∀ reg ∈ t.regs[(i : ℕ)]?, cfg.min ≤ reg ∧ reg ≤ cfg.max

/-- An offset from the minimum that truncation brings into the range: it is less than one
above the width, and not negative, or above minus one where the minimum is 0. -/
def OffsetFits (offset : ℚ) (cfg : CubeioRangeCfg) : Prop :=
  (0 ≤ offset ∨ cfg.min = 0 ∧ -1 < offset) ∧ offset < (cfg.max.toNat - cfg.min.toNat : ℤ) + 1

/-- A demand of which the channel has a value in its range; a channel that is neither
unipolar nor bipolar is written as 0. -/
def DemandFits (out : ℚ) (cfg : CubeioRangeCfg) : Prop :=
  if cfg.type = 0 then OffsetFits (out * (cfg.max.toNat - cfg.min.toNat : ℤ)) cfg
  else if cfg.type = 1 then OffsetFits ((out + 1) * (cfg.max.toNat - cfg.min.toNat : ℤ) / 2) cfg
  else cfg.min = 0

/-- A call does not set a range for the RC channel behind the last one, and when a pass
serves `CUBEIO_SET_PWM` the demands of the channels that it writes fit their ranges. -/
def DemandsFit (g : RangeRun) : CubeioAction → Prop
  | .call (.setRange type channel _ _ _) => ¬ (type = cubeioRc ∧ channel.toNat = cubeioMaxChannels)
  | .call _ => True
  | .pass _ => g.sys.dev.state = .operation → g.sys.dev.pending .setPwm = true →
      ∀ i : Fin 16, (i : ℕ) < g.sys.dev.pwmOut.numChannels.toNat → ∀ cfg ∈ g.last i,
        DemandFits (g.sys.dev.pwm i) cfg

section Decidable

instance (out : ℚ) (cfg : CubeioRangeCfg) : Decidable (DemandFits out cfg) :=
  inferInstanceAs (Decidable (if cfg.type = 0 then
      (0 ≤ out * (cfg.max.toNat - cfg.min.toNat : ℤ) ∨ _) ∧ _
    else if cfg.type = 1 then
      (0 ≤ (out + 1) * (cfg.max.toNat - cfg.min.toNat : ℤ) / 2 ∨ _) ∧ _
    else cfg.min = 0))

instance (g : RangeRun) : (a : CubeioAction) → Decidable (DemandsFit g a)
  | .call (.setRange type channel _ _ _) =>
      inferInstanceAs (Decidable (¬ (type = cubeioRc ∧ channel.toNat = cubeioMaxChannels)))
  | .call (.setPwm ..) | .call (.setFailsafePwm _) | .call (.setSafetyMask _) | .call (.setFreq ..)
  | .call (.setDefaultFreq _) | .call .setOneshotMode | .call .setBrushedMode
  | .call .forceSafetyOn | .call .forceSafetyOff | .call (.setImuHeaterDuty _)
  | .call (.enableSbusOut _) => isTrue trivial
  | .pass _ => inferInstanceAs (Decidable (g.sys.dev.state = .operation →
      g.sys.dev.pending .setPwm = true → ∀ i : Fin 16,
        (i : ℕ) < g.sys.dev.pwmOut.numChannels.toNat → ∀ cfg ∈ g.last i,
          DemandFits (g.sys.dev.pwm i) cfg))

instance (plat : CubeioPlatform) (g : RangeRun) :
    (a : CubeioAction) → Decidable (PwmInRange plat g a)
  | .call c => inferInstanceAs (Decidable (∀ i, (cubeioCall plat g.sys.dev c).pwmRangeCfg i =
      (c.range i).getD (g.sys.dev.pwmRangeCfg i)))
  | .pass p => inferInstanceAs (Decidable (∀ t ∈ (cubeioFsm plat p g.sys).log.drop g.sys.log.length,
      t.kind = .write → t.page = pageDirectPwm → ∀ i : Fin 16, ∀ cfg ∈ g.last i,
        ∀ reg ∈ t.regs[(i : ℕ)]?, cfg.min ≤ reg ∧ reg ≤ cfg.max))

end Decidable

/-! ## Scaling -/

section Scaling

variable (plat : CubeioPlatform) {out : ℚ} {cfg : CubeioRangeCfg}

/-- A value that fits is truncated into a range exactly when it is less than one above its
upper end, and not below its lower end unless that is 0. -/
theorem toUInt16_mem_iff {q : ℚ} (hlow : -1 < q) (hhigh : q < 65536) (min max : UInt16) :
    min ≤ plat.toUInt16 q ∧ plat.toUInt16 q ≤ max ↔
      (min = 0 ∨ (min.toNat : ℚ) ≤ q) ∧ q < max.toNat + 1 := by
  rw [UInt16.le_iff_toNat_le, UInt16.le_iff_toNat_le, plat.toNat_toUInt16 q hlow hhigh]
  have hlower : min.toNat ≤ ⌊q⌋.toNat ↔ min = 0 ∨ (min.toNat : ℚ) ≤ q := by
    rw [← UInt16.toNat_inj, UInt16.toNat_zero]
    have hfloor : (min.toNat : ℤ) ≤ ⌊q⌋ ↔ (min.toNat : ℚ) ≤ q := by
      rw [Int.le_floor, Int.cast_natCast]
    rw [← hfloor]
    omega
  have hupper : ⌊q⌋.toNat ≤ max.toNat ↔ q < max.toNat + 1 := by
    have hfloor : ⌊q⌋ < (max.toNat : ℤ) + 1 ↔ q < max.toNat + 1 := by
      rw [Int.floor_lt]
      push_cast
      exact Iff.rfl
    rw [← hfloor]
    omega
  exact and_congr hlower hupper

theorem OffsetFits.scaled {offset : ℚ} (h : OffsetFits offset cfg) :
    cfg.min ≤ plat.toUInt16 (offset + cfg.min.toNat) ∧
      plat.toUInt16 (offset + cfg.min.toNat) ≤ cfg.max := by
  obtain ⟨hlow, hhigh⟩ := h
  push_cast at hhigh
  have hmin : (0 : ℚ) ≤ cfg.min.toNat := Nat.cast_nonneg _
  have hmax : (cfg.max.toNat : ℚ) ≤ 65535 := by
    exact_mod_cast Nat.le_pred_of_lt cfg.max.toNat_lt
  have hgt : -1 < offset + cfg.min.toNat := by
    rcases hlow with h | ⟨-, h⟩
    · linarith
    · linarith
  refine (toUInt16_mem_iff plat hgt (by linarith) cfg.min cfg.max).2 ⟨?_, by linarith⟩
  rcases hlow with h | ⟨hzero, -⟩
  · exact Or.inr (by linarith)
  · exact Or.inl hzero

/-- The value of a demand that fits lies in the range. -/
theorem DemandFits.scaled (h : DemandFits out cfg) :
    cfg.min ≤ cubeioScaleOutput plat out cfg ∧ cubeioScaleOutput plat out cfg ≤ cfg.max := by
  rw [DemandFits] at h
  rw [cubeioScaleOutput]
  split_ifs at h ⊢ with hunipolar hbipolar
  · exact h.scaled plat
  · exact h.scaled plat
  · rw [h]
    exact ⟨UInt16.le_refl _, UInt16.zero_le⟩

theorem span_nonneg (h : cfg.min ≤ cfg.max) :
    (0 : ℚ) ≤ (cfg.max.toNat - cfg.min.toNat : ℤ) := by
  have hle : cfg.min.toNat ≤ cfg.max.toNat := h
  exact Int.cast_nonneg (by omega)

/-- The demands of the nominal range of a unipolar channel fit. -/
theorem demandFits_unipolar (htype : cfg.type = 0) (hrange : cfg.min ≤ cfg.max) (hlow : 0 ≤ out)
    (hhigh : out ≤ 1) : DemandFits out cfg := by
  have hspan := span_nonneg hrange
  rw [DemandFits, if_pos htype]
  refine ⟨Or.inl (mul_nonneg hlow hspan), ?_⟩
  have hle := mul_le_of_le_one_left hspan hhigh
  linarith

/-- The demands of the nominal range of a bipolar channel fit. -/
theorem demandFits_bipolar (htype : cfg.type = 1) (hrange : cfg.min ≤ cfg.max) (hlow : -1 ≤ out)
    (hhigh : out ≤ 1) : DemandFits out cfg := by
  have hspan := span_nonneg hrange
  rw [DemandFits, htype, if_neg (by decide), if_pos rfl]
  have hnonneg : 0 ≤ (out + 1) * (cfg.max.toNat - cfg.min.toNat : ℤ) :=
    mul_nonneg (by linarith) hspan
  have hle : (out + 1) * (cfg.max.toNat - cfg.min.toNat : ℤ) ≤
      2 * (cfg.max.toNat - cfg.min.toNat : ℤ) :=
    mul_le_mul_of_nonneg_right (by linarith) hspan
  exact ⟨Or.inl (by linarith), by linarith⟩

end Scaling

/-! ## Steps -/

section Steps

variable {plat : CubeioPlatform} {g g' : RangeRun}

/-- A call that stays inside the arrays changes only the range that it sets. -/
theorem pwmRangeCfg_call {c : CubeioCall} (h : DemandsFit g (.call c)) (i : Fin 16) :
    (cubeioCall plat g.sys.dev c).pwmRangeCfg i =
      (c.range i).getD (g.sys.dev.pwmRangeCfg i) := by
  have hrange : ∀ {type : ℤ} {channel : UInt8} {channelType min max : UInt16},
      ¬ (type = cubeioPwm ∧ channel.toNat = i) →
        (CubeioCall.setRange type channel channelType min max).range i = none := by
    intro type channel channelType min max hne
    rw [CubeioCall.range, if_neg hne]
  cases c with
  | setRange type channel channelType min max =>
      have hout : ¬ (type = cubeioRc ∧ channel.toNat = cubeioMaxChannels) := h
      rw [cubeioCall, cubeioSetRange]
      split_ifs with hrc hlow hend hpwm hlow hend
      · rw [hrange (by simp [hrc, cubeioRc, cubeioPwm])]
        rfl
      · exact absurd ⟨hrc, hend⟩ hout
      · rw [hrange (by simp [hrc, cubeioRc, cubeioPwm])]
        rfl
      · by_cases hi : channel.toNat = i
        · have heq : (⟨channel.toNat, hlow⟩ : Fin 16) = i := Fin.ext hi
          rw [CubeioCall.range, if_pos ⟨hpwm, hi⟩, heq]
          exact Function.update_self ..
        · have hne : i ≠ ⟨channel.toNat, hlow⟩ := fun heq => hi (congrArg Fin.val heq).symm
          rw [hrange fun h => hi h.2]
          exact Function.update_of_ne hne ..
      · rw [hrange fun h => hlow (h.2.trans_lt i.isLt)]
        rfl
      · rw [hrange fun h => hlow (h.2.trans_lt i.isLt)]
        rfl
      · rw [hrange fun h => hpwm h.1]
        rfl
  | setPwm channels pwm =>
      rw [cubeioCall, cubeioSetPwm]
      split
      · rfl
      · rfl
  | setDefaultFreq freq =>
      rw [cubeioCall, cubeioSetDefaultFreq]
      split
      · rfl
      · rfl
  | _ => rfl

/-- The values of the channels are written for `CUBEIO_SET_PWM` only. -/
theorem EventTransfers.eq_setPwm {settings : CubeioSettings} {ts : List CubeioTransfer}
    {e : CubeioEvent} (h : EventTransfers plat settings ts e) {t : CubeioTransfer} (ht : t ∈ ts)
    (hpage : t.page = pageDirectPwm) : e = .setPwm := by
  have hregisters : e.registers.all (fun r => r.1 = pageDirectPwm → e = .setPwm) = true := by
    cases e with
    | _ => rfl
  exact of_decide_eq_true (List.all_eq_true.1 hregisters _ (h.register_mem ht)) hpage

/-- The values that a pass writes for the channels are the scaled demands. -/
theorem mem_pass_directPwm {s : CubeioSystem} {p : CubeioPass} {t : CubeioTransfer}
    (ht : t ∈ (cubeioFsm plat p s).log.drop s.log.length) (hpage : t.page = pageDirectPwm) :
    s.dev.state = .operation ∧ s.dev.pending .setPwm = true ∧
      t.regs = (List.ofFn fun i => cubeioScaleOutput plat (s.dev.pwm i) (s.dev.pwmRangeCfg i)).take
        s.dev.pwmOut.numChannels.toNat := by
  by_cases hop : s.dev.state = .operation
  · rw [cubeioFsm_operation plat p hop] at ht
    obtain ⟨ts, hpass, -⟩ := fsmOperation_spec plat p s
    rcases hpass.mem_new ht with ⟨e, hpending, hte, hev⟩ | hroutine
    · obtain rfl : e = .setPwm := hev.eq_setPwm hte hpage
      obtain ⟨rv, hts⟩ := hev
      rw [hts] at hte
      rw [List.mem_singleton.1 hte]
      exact ⟨hop, hpending, rfl⟩
    · rcases hroutine with ⟨-, hmem⟩ | ⟨hsetup, -⟩
      · rw [hpage] at hmem
        exact absurd hmem (by decide)
      · rw [hpage] at hsetup
        cases hsetup
  · obtain ⟨ts, hlog, hts⟩ := (cubeioFsm_startup plat p hop).log_eq
    rw [hlog, List.drop_left] at ht
    rcases hts t ht with hconfig | ⟨hsetup, -⟩
    · rw [hpage] at hconfig
      cases hconfig
    · rw [hpage] at hsetup
      cases hsetup

/-- The ranges in the record are those of the last calls. -/
def LastRanges (g : RangeRun) : Prop :=
  ∀ i, ∀ cfg ∈ g.last i, g.sys.dev.pwmRangeCfg i = cfg

theorem LastRanges.step {a : CubeioAction} (h : LastRanges g) (hok : DemandsFit g a)
    (hstep : rangeStep plat g a = some g') : LastRanges g' := by
  cases a with
  | call c =>
      cases hstep
      intro i cfg hcfg
      have hrange : (cubeioCall plat g.sys.dev c).pwmRangeCfg i =
          (c.range i).getD (g.sys.dev.pwmRangeCfg i) := pwmRangeCfg_call hok i
      have hcfg' : (c.range i).or (g.last i) = some cfg := hcfg
      change (cubeioCall plat g.sys.dev c).pwmRangeCfg i = cfg
      rw [hrange]
      cases hc : c.range i with
      | some cfg' =>
          rw [hc, Option.some_or] at hcfg'
          exact Option.some.inj hcfg'
      | none =>
          rw [hc, Option.none_or] at hcfg'
          exact h i cfg hcfg'
  | pass p =>
      cases hstep
      intro i cfg hcfg
      have hsettings : (cubeioFsm plat p g.sys).dev.settings = g.sys.dev.settings := by
        by_cases hop : g.sys.dev.state = .operation
        · obtain ⟨ts, hpass, -⟩ := fsmOperation_spec plat p g.sys
          rw [cubeioFsm_operation plat p hop]
          exact hpass.settings_eq
        · exact (cubeioFsm_startup plat p hop).settings_eq
      have hranges := congrArg CubeioSettings.pwmRangeCfg hsettings
      exact (congrFun hranges i).trans (h i cfg hcfg)

theorem LastRanges.pwmInRange {a : CubeioAction} (h : LastRanges g) (hok : DemandsFit g a) :
    PwmInRange plat g a := by
  cases a with
  | call c => exact pwmRangeCfg_call hok
  | pass p =>
      intro t ht _ hpage i cfg hcfg reg hreg
      obtain ⟨hop, hpending, hregs⟩ := mem_pass_directPwm ht hpage
      rw [hregs, Option.mem_def, List.getElem?_eq_some_iff] at hreg
      obtain ⟨hlen, hreg⟩ := hreg
      rw [List.length_take, lt_min_iff] at hlen
      rw [List.getElem_take, List.getElem_ofFn, Fin.eta, h i cfg hcfg] at hreg
      rw [← hreg]
      exact (hok hop hpending i hlen.1 cfg hcfg).scaled plat

/-- In a run whose steps stay inside the arrays of ranges, and in which the demands fit
the ranges when they are written, every value written for a channel lies in the range last
set for it, and no other call changes that range. -/
theorem pwmInRange_of_demandsFit {as : List CubeioAction}
    (hok : Along DemandsFit (rangeStep plat) rangeInit as) :
    Along (PwmInRange plat) (rangeStep plat) rangeInit as :=
  hok.imp (fun _ _ _ h hok hstep => LastRanges.step h hok hstep)
    (fun _ _ h hok => LastRanges.pwmInRange h hok) fun _ _ h => nomatch h

end Steps

theorem pwmInRange_half :
    Along DemandsFit (rangeStep plainPlatform) rangeInit
        (operationRun [.setRange cubeioPwm 0 0 1000 2000, .setPwm 1 fun _ => 1 / 2]) ∧
      Along (PwmInRange plainPlatform) (rangeStep plainPlatform) rangeInit
        (operationRun [.setRange cubeioPwm 0 0 1000 2000, .setPwm 1 fun _ => 1 / 2]) := by
  have hok : Along DemandsFit (rangeStep plainPlatform) rangeInit
      (operationRun [.setRange cubeioPwm 0 0 1000 2000, .setPwm 1 fun _ => 1 / 2]) := by
    decide +kernel
  exact ⟨hok, pwmInRange_of_demandsFit hok⟩

/-- The demand 2 on a unipolar channel from 1000 to 2000 is written as 3000. -/
theorem not_pwmInRange_two :
    ¬ ∀ (plat : CubeioPlatform) (as : List CubeioAction),
      (∀ type channel channelType min max,
        .call (.setRange type channel channelType min max) ∈ as → min ≤ max) →
      Along (PwmInRange plat) (rangeStep plat) rangeInit as := by
  intro h
  have hrange := h plainPlatform
    (operationRun [.setRange cubeioPwm 0 0 1000 2000, .setPwm 1 fun _ => 2]) ?_
  · exact absurd hrange (by decide +kernel)
  · intro type channel channelType min max hmem
    simp only [operationRun, startRun, List.map_cons, List.map_nil, List.cons_append,
      List.nil_append, List.mem_cons, List.not_mem_nil, reduceCtorEq, or_false, false_or,
      CubeioAction.call.injEq, CubeioCall.setRange.injEq] at hmem
    obtain ⟨-, -, -, rfl, rfl⟩ := hmem
    decide

end Catpilot
