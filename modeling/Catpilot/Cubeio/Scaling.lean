import Catpilot.Cubeio.Range

/-!
# The scaling of the RC channels

`cubeio_scale_input` brings a raw value from the range of its channel to the nominal range,
and `cubeio_scale_output` goes back. The range of a channel whose ends coincide, as those
of a record that is all zero do, makes `cubeio_scale_input` divide by zero. A raw value
outside of the range is read as 0 and does not come back.
-/

namespace Catpilot

/-- What `cubeio_scale_input` has to do with a raw value: it does not divide by zero, the
result is nominal, it does not fall over the range of the channel, and on a range that is not
empty `cubeio_scale_output` undoes it. -/
structure ScalesInput (plat : CubeioPlatform) (cfg : CubeioRangeCfg) (input : UInt16) : Prop where
  defined : ∃ r, cubeioScaleInput input cfg = some r
  unipolar : cfg.type = 0 → ∀ r ∈ cubeioScaleInput input cfg, 0 ≤ r ∧ r ≤ 1
  bipolar : cfg.type = 1 → ∀ r ∈ cubeioScaleInput input cfg, -1 ≤ r ∧ r ≤ 1
  monotone : input ≤ cfg.max → ∀ lower, cfg.min ≤ lower → lower ≤ input →
    ∀ q ∈ cubeioScaleInput lower cfg, ∀ r ∈ cubeioScaleInput input cfg, q ≤ r
  inverse : cfg.min < cfg.max →
    ∀ r ∈ cubeioScaleInput input cfg, cubeioScaleOutput plat r cfg = input

/-- The raw value is both ends of the range of a channel that is scaled. -/
def SpanZero (cfg : CubeioRangeCfg) (input : UInt16) : Prop :=
  (cfg.type = 0 ∨ cfg.type = 1) ∧ cfg.min = input ∧ cfg.max = input

/-- The raw value is in the range of a channel that is scaled, or it is 0. -/
def GivenBack (cfg : CubeioRangeCfg) (input : UInt16) : Prop :=
  if cfg.type = 0 ∨ cfg.type = 1 then cfg.min ≤ input ∧ input ≤ cfg.max else input = 0

/-! ## The share of the range -/

section Share

variable {cfg : CubeioRangeCfg} {input : UInt16}

/-- How much of the range of a channel lies below a raw value. -/
def rangeShare (cfg : CubeioRangeCfg) (input : UInt16) : ℚ :=
  (input.toNat - cfg.min.toNat : ℤ) / (cfg.max.toNat - cfg.min.toNat : ℤ)

theorem rangeShare_nonneg (hlow : cfg.min ≤ input) (hhigh : input ≤ cfg.max) :
    0 ≤ rangeShare cfg input := by
  apply div_nonneg
  · exact @span_nonneg ⟨cfg.type, cfg.min, input⟩ hlow
  · exact span_nonneg (UInt16.le_trans hlow hhigh)

theorem span_pos (h : cfg.min < cfg.max) : (0 : ℚ) < (cfg.max.toNat - cfg.min.toNat : ℤ) := by
  have hlt : cfg.min.toNat < cfg.max.toNat := h
  exact Int.cast_pos.2 (by omega)

theorem rangeShare_mono (h : cfg.min < cfg.max) {lower : UInt16} (hle : lower ≤ input) :
    rangeShare cfg lower ≤ rangeShare cfg input := by
  have hnat : lower.toNat ≤ input.toNat := hle
  apply div_le_div_of_nonneg_right _ (span_pos h).le
  exact Int.cast_le.2 (by omega)

theorem rangeShare_le_one (h : cfg.min < cfg.max) (hhigh : input ≤ cfg.max) :
    rangeShare cfg input ≤ 1 := by
  have hself : rangeShare cfg cfg.max = 1 := div_self (span_pos h).ne'
  rw [← hself]
  exact rangeShare_mono h hhigh

/-- The share, scaled up again, is the raw value. -/
theorem rangeShare_mul_add (h : cfg.min < cfg.max) :
    rangeShare cfg input * (cfg.max.toNat - cfg.min.toNat : ℤ) + cfg.min.toNat = input.toNat := by
  rw [rangeShare, div_mul_cancel₀ _ (span_pos h).ne']
  push_cast
  exact sub_add_cancel _ _

end Share

/-! ## The two scalings -/

section Scalings

variable {cfg : CubeioRangeCfg} {input : UInt16}

/-- Outside the range the result is 0. -/
theorem cubeioScaleInput_outside (h : ¬ (cfg.min ≤ input ∧ input ≤ cfg.max)) :
    cubeioScaleInput input cfg = some 0 := by
  rw [not_and_or, UInt16.not_le, UInt16.not_le] at h
  exact if_pos h

theorem cubeioScaleInput_unipolar (htype : cfg.type = 0) (h : cfg.min < cfg.max)
    (hlow : cfg.min ≤ input) (hhigh : input ≤ cfg.max) :
    cubeioScaleInput input cfg = some (rangeShare cfg input) := by
  have hinside : ¬ (input < cfg.min ∨ cfg.max < input) :=
    not_or.2 ⟨UInt16.not_lt.2 hlow, UInt16.not_lt.2 hhigh⟩
  have hsat : min (max (rangeShare cfg input) 0) 1 = rangeShare cfg input := by
    rw [max_eq_left (rangeShare_nonneg hlow hhigh), min_eq_left (rangeShare_le_one h hhigh)]
  rw [cubeioScaleInput, if_neg hinside, if_pos htype, if_neg (span_pos h).ne']
  exact congrArg some hsat

theorem cubeioScaleInput_bipolar (htype : cfg.type = 1) (h : cfg.min < cfg.max)
    (hlow : cfg.min ≤ input) (hhigh : input ≤ cfg.max) :
    cubeioScaleInput input cfg = some (2 * rangeShare cfg input - 1) := by
  have hinside : ¬ (input < cfg.min ∨ cfg.max < input) :=
    not_or.2 ⟨UInt16.not_lt.2 hlow, UInt16.not_lt.2 hhigh⟩
  have hnonneg := rangeShare_nonneg hlow hhigh
  have hle := rangeShare_le_one h hhigh
  have hsat : min (max (2 * rangeShare cfg input - 1) (-1)) 1 = 2 * rangeShare cfg input - 1 := by
    rw [max_eq_left (by linarith), min_eq_left (by linarith)]
  rw [cubeioScaleInput, if_neg hinside, htype, if_neg (by decide), if_pos rfl,
    if_neg (span_pos h).ne', mul_div_assoc]
  exact congrArg some hsat

/-- A channel that is neither unipolar nor bipolar is read as 0. -/
theorem cubeioScaleInput_other (htype : ¬ (cfg.type = 0 ∨ cfg.type = 1)) :
    cubeioScaleInput input cfg = some 0 := by
  rw [not_or] at htype
  rw [cubeioScaleInput, if_neg htype.1, if_neg htype.2, ite_self]

/-- Both ends of the range of a channel that is scaled divide by zero. -/
theorem SpanZero.eq_none (h : SpanZero cfg input) : cubeioScaleInput input cfg = none := by
  obtain ⟨htype, hmin, hmax⟩ := h
  have hspan : ((cfg.max.toNat - cfg.min.toNat : ℤ) : ℚ) = 0 := by
    rw [hmin, hmax, sub_self, Int.cast_zero]
  have hinside : ¬ (input < cfg.min ∨ cfg.max < input) := by
    rw [hmin, hmax]
    exact not_or.2 ⟨UInt16.lt_irrefl _, UInt16.lt_irrefl _⟩
  rw [cubeioScaleInput, if_neg hinside]
  rcases htype with hunipolar | hbipolar
  · rw [if_pos hunipolar, if_pos hspan]
  · rw [hbipolar, if_neg (by decide), if_pos rfl, if_pos hspan]

variable (plat : CubeioPlatform)

theorem toUInt16_toNat (input : UInt16) : plat.toUInt16 input.toNat = input := by
  have hhigh : (input.toNat : ℚ) < 65536 := by exact_mod_cast input.toNat_lt
  have hlow : (-1 : ℚ) < input.toNat := by
    have hnonneg : (0 : ℚ) ≤ input.toNat := Nat.cast_nonneg _
    linarith
  apply UInt16.toNat_inj.1
  rw [plat.toNat_toUInt16 _ hlow hhigh, Int.floor_natCast, Int.toNat_natCast]

theorem cubeioScaleOutput_unipolar (htype : cfg.type = 0) (h : cfg.min < cfg.max) :
    cubeioScaleOutput plat (rangeShare cfg input) cfg = input := by
  rw [cubeioScaleOutput, if_pos htype, rangeShare_mul_add h, toUInt16_toNat]

theorem cubeioScaleOutput_bipolar (htype : cfg.type = 1) (h : cfg.min < cfg.max) :
    cubeioScaleOutput plat (2 * rangeShare cfg input - 1) cfg = input := by
  have hshare : (2 * rangeShare cfg input - 1 + 1) * (cfg.max.toNat - cfg.min.toNat : ℤ) / 2 =
      rangeShare cfg input * (cfg.max.toNat - cfg.min.toNat : ℤ) := by
    ring
  rw [cubeioScaleOutput, htype, if_neg (by decide), if_pos rfl, hshare, rangeShare_mul_add h,
    toUInt16_toNat]

end Scalings

/-! ## What a raw value becomes -/

section Values

variable (plat : CubeioPlatform) {cfg : CubeioRangeCfg} {input : UInt16}

/-- Raw values outside the range of a channel are not given back. -/
theorem cubeioScaleOutput_outside (htype : cfg.type = 0 ∨ cfg.type = 1) (h : cfg.min < cfg.max)
    (houtside : ¬ (cfg.min ≤ input ∧ input ≤ cfg.max)) : cubeioScaleOutput plat 0 cfg ≠ input := by
  have hfits : DemandFits 0 cfg := by
    rcases htype with hunipolar | hbipolar
    · exact demandFits_unipolar hunipolar (UInt16.le_of_lt h) (le_refl 0) zero_le_one
    · exact demandFits_bipolar hbipolar (UInt16.le_of_lt h) (neg_nonpos.2 zero_le_one) zero_le_one
  intro heq
  have hinside := hfits.scaled plat
  rw [heq] at hinside
  exact houtside hinside

/-- On a range that is not empty, the raw values given back are those of the range, and 0
on a channel that is not scaled. -/
theorem cubeioScaleOutput_eq_iff (h : cfg.min < cfg.max) {r : ℚ}
    (hr : r ∈ cubeioScaleInput input cfg) :
    cubeioScaleOutput plat r cfg = input ↔ GivenBack cfg input := by
  rw [GivenBack]
  by_cases htype : cfg.type = 0 ∨ cfg.type = 1
  · rw [if_pos htype]
    by_cases hinside : cfg.min ≤ input ∧ input ≤ cfg.max
    · refine iff_of_true ?_ hinside
      rcases htype with hunipolar | hbipolar
      · rw [cubeioScaleInput_unipolar hunipolar h hinside.1 hinside.2] at hr
        cases hr
        exact cubeioScaleOutput_unipolar plat hunipolar h
      · rw [cubeioScaleInput_bipolar hbipolar h hinside.1 hinside.2] at hr
        cases hr
        exact cubeioScaleOutput_bipolar plat hbipolar h
    · rw [cubeioScaleInput_outside hinside] at hr
      cases hr
      exact iff_of_false (cubeioScaleOutput_outside plat htype h hinside) hinside
  · rw [if_neg htype]
    rw [cubeioScaleInput_other htype] at hr
    cases hr
    rw [not_or] at htype
    rw [cubeioScaleOutput, if_neg htype.1, if_neg htype.2]
    exact eq_comm

variable {plat} in
theorem inverse_of_givenBack (hback : cfg.min < cfg.max → GivenBack cfg input)
    (h : cfg.min < cfg.max) :
    ∀ r ∈ cubeioScaleInput input cfg, cubeioScaleOutput plat r cfg = input :=
  fun _ hr => (cubeioScaleOutput_eq_iff plat h hr).2 (hback h)

theorem scalesInput_outside (h : ¬ (cfg.min ≤ input ∧ input ≤ cfg.max))
    (hback : cfg.min < cfg.max → GivenBack cfg input) : ScalesInput plat cfg input where
  defined := ⟨0, cubeioScaleInput_outside h⟩
  unipolar := by
    rintro - r hr
    rw [cubeioScaleInput_outside h] at hr
    cases hr
    exact ⟨le_refl 0, zero_le_one⟩
  bipolar := by
    rintro - r hr
    rw [cubeioScaleInput_outside h] at hr
    cases hr
    exact ⟨neg_nonpos.2 zero_le_one, zero_le_one⟩
  monotone := by
    intro hhigh lower hlow hle
    exact absurd ⟨UInt16.le_trans hlow hle, hhigh⟩ h
  inverse := inverse_of_givenBack hback

theorem scalesInput_other (htype : ¬ (cfg.type = 0 ∨ cfg.type = 1))
    (hback : cfg.min < cfg.max → GivenBack cfg input) : ScalesInput plat cfg input where
  defined := ⟨0, cubeioScaleInput_other htype⟩
  unipolar := fun h => absurd (Or.inl h) htype
  bipolar := fun h => absurd (Or.inr h) htype
  monotone := by
    intro _ lower _ _ q hq r hr
    rw [cubeioScaleInput_other htype] at hq hr
    cases hq
    cases hr
    exact le_refl 0
  inverse := inverse_of_givenBack hback

theorem scalesInput_unipolar (htype : cfg.type = 0) (h : cfg.min < cfg.max)
    (hlow : cfg.min ≤ input) (hhigh : input ≤ cfg.max)
    (hback : cfg.min < cfg.max → GivenBack cfg input) : ScalesInput plat cfg input where
  defined := ⟨_, cubeioScaleInput_unipolar htype h hlow hhigh⟩
  unipolar := by
    rintro - r hr
    rw [cubeioScaleInput_unipolar htype h hlow hhigh] at hr
    cases hr
    exact ⟨rangeShare_nonneg hlow hhigh, rangeShare_le_one h hhigh⟩
  bipolar := by
    intro hbipolar
    rw [htype] at hbipolar
    exact absurd hbipolar (by decide)
  monotone := by
    intro _ lower hlower hle q hq r hr
    rw [cubeioScaleInput_unipolar htype h hlower (UInt16.le_trans hle hhigh)] at hq
    rw [cubeioScaleInput_unipolar htype h hlow hhigh] at hr
    cases hq
    cases hr
    exact rangeShare_mono h hle
  inverse := inverse_of_givenBack hback

theorem scalesInput_bipolar (htype : cfg.type = 1) (h : cfg.min < cfg.max)
    (hlow : cfg.min ≤ input) (hhigh : input ≤ cfg.max)
    (hback : cfg.min < cfg.max → GivenBack cfg input) : ScalesInput plat cfg input where
  defined := ⟨_, cubeioScaleInput_bipolar htype h hlow hhigh⟩
  unipolar := by
    intro hunipolar
    rw [htype] at hunipolar
    exact absurd hunipolar (by decide)
  bipolar := by
    rintro - r hr
    rw [cubeioScaleInput_bipolar htype h hlow hhigh] at hr
    cases hr
    have hnonneg := rangeShare_nonneg hlow hhigh
    have hle := rangeShare_le_one h hhigh
    exact ⟨by linarith, by linarith⟩
  monotone := by
    intro _ lower hlower hle q hq r hr
    rw [cubeioScaleInput_bipolar htype h hlower (UInt16.le_trans hle hhigh)] at hq
    rw [cubeioScaleInput_bipolar htype h hlow hhigh] at hr
    cases hq
    cases hr
    have hmono := rangeShare_mono h hle
    linarith
  inverse := inverse_of_givenBack hback

/-- In a range that is not that one value, a raw value that is given back is scaled as it has
to be. -/
theorem scalesInput_of_not_spanZero (h : ¬ SpanZero cfg input)
    (hback : cfg.min < cfg.max → GivenBack cfg input) : ScalesInput plat cfg input := by
  by_cases hinside : cfg.min ≤ input ∧ input ≤ cfg.max
  · obtain ⟨hlow, hhigh⟩ := hinside
    have hspan : cfg.type = 0 ∨ cfg.type = 1 → cfg.min < cfg.max := by
      intro htype
      apply UInt16.lt_of_le_of_ne (UInt16.le_trans hlow hhigh)
      intro heq
      have hmin : cfg.min = input := UInt16.le_antisymm hlow (heq ▸ hhigh)
      exact h ⟨htype, hmin, heq ▸ hmin⟩
    by_cases hunipolar : cfg.type = 0
    · exact scalesInput_unipolar plat hunipolar (hspan (Or.inl hunipolar)) hlow hhigh hback
    · by_cases hbipolar : cfg.type = 1
      · exact scalesInput_bipolar plat hbipolar (hspan (Or.inr hbipolar)) hlow hhigh hback
      · exact scalesInput_other plat (not_or.2 ⟨hunipolar, hbipolar⟩) hback
  · exact scalesInput_outside plat hinside hback

end Values

/-- A raw value is scaled as it has to be unless it is both ends of the range of a channel
that is scaled, or the range is not empty and the value is outside of it (on a channel that is
not scaled: not 0). -/
theorem scalesInput_iff (plat : CubeioPlatform) (cfg : CubeioRangeCfg) (input : UInt16) :
    ScalesInput plat cfg input ↔
      ¬ SpanZero cfg input ∧ (cfg.min < cfg.max → GivenBack cfg input) := by
  constructor
  · intro hscales
    obtain ⟨r, hr⟩ := hscales.defined
    refine ⟨fun hspan => ?_, fun h => ?_⟩
    · rw [hspan.eq_none] at hr
      cases hr
    · exact (cubeioScaleOutput_eq_iff plat h hr).1 (hscales.inverse h r hr)
  · rintro ⟨hspan, hback⟩
    exact scalesInput_of_not_spanZero plat hspan hback

/-- The raw value 0 with the ranges of the cleared record divides by zero, and the raw value
500 is not given back from the range 1000 to 2000. -/
theorem not_scalesInput_zero :
    (¬ ∀ (plat : CubeioPlatform) (i : Fin 16) (input : UInt16),
      ScalesInput plat (cubeioInit.dev.rcRangeCfg i) input) ∧
      ¬ ScalesInput plainPlatform ⟨0, 1000, 2000⟩ 500 := by
  constructor
  · intro h
    obtain ⟨r, hr⟩ := (h plainPlatform 0 0).defined
    have hnone : cubeioScaleInput 0 ⟨0, 0, 0⟩ = none := by decide +kernel
    exact absurd (hr.symm.trans hnone) (Option.some_ne_none r)
  · intro h
    have hlt : (1000 : UInt16) < 2000 := by decide
    have hzero : cubeioScaleInput 500 ⟨0, 1000, 2000⟩ = some 0 :=
      cubeioScaleInput_outside (by decide)
    have hback := (cubeioScaleOutput_eq_iff plainPlatform hlt hzero).1 (h.inverse hlt 0 hzero)
    exact absurd hback (by rw [GivenBack]; decide)

end Catpilot
