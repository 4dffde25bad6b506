import Catpilot.Arith.Calc
import Catpilot.Ms5611.Basic

/-!
# The compensation of the MS5611

`ms5611_process_meas`, with every intermediate value in the type that C computes it in:
16-bit words are promoted to `int`, and an operation with an unsigned operand is done in
`uint32_t`. The result is the temperature in hundredths of a degree and the pressure in
pascal.
-/

namespace Catpilot

open Arith Arith.Calc

/-- The first order: `dT`, `TEMP`, `OFF` and `SENS`. -/
structure FirstOrder where
  dT : ℤ
  temp : ℤ
  off : ℤ
  sens : ℤ

/-- The corrections of the second order: `T2`, `OFF2` and `SENS2`. -/
structure SecondOrder where
  t2 : ℤ
  off2 : ℤ
  sens2 : ℤ

/-- `meas.T` in hundredths, and `meas.P`. -/
structure Compensated where
  temp : ℤ
  p : ℤ
  deriving DecidableEq, Repr

section Calculation

/-- `(uint32_t)word * (1 << shift) + (uint32_t)(factor * dT) / (1 << scale)`. -/
def linear (word : ℤ) (shift : ℕ) (factor dT : ℤ) (scale : ℕ) : Calc ℤ := do
  let base ← hold .uint32 (word * 2 ^ shift)
  let slope ← hold .int32 (factor * dT)
  let slope ← hold .uint32 slope
  let slope ← hold .uint32 (slope.tdiv (2 ^ scale))
  hold .uint32 (base + slope)

/-- `k * x * x`. -/
def quadratic (k x : ℤ) : Calc ℤ := do
  let kx ← hold .int32 (k * x)
  hold .int32 (kx * x)

/-- The first order. -/
def firstOrder (calib : Ms5611Calib) (raw : Ms5611Raw) : Calc FirstOrder := do
  let reference ← hold .uint32 (calib.c5.toNat * 2 ^ 8)
  let difference ← hold .uint32 (raw.d2.toNat - reference)
  let dT ← hold .int32 difference
  let product ← hold .int32 (dT * calib.c6.toNat)
  let quotient ← hold .int32 (product.tdiv (2 ^ 23))
  let temp ← hold .int32 (2000 + quotient)
  let off ← linear calib.c2.toNat 16 calib.c4.toNat dT 7
  let sens ← linear calib.c1.toNat 15 calib.c3.toNat dT 8
  return ⟨dT, temp, off, sens⟩

/-- The second order, at low and at very low temperature. -/
def secondOrder (first : FirstOrder) : Calc SecondOrder := do
  if first.temp < 2000 then
    let square ← hold .int32 (first.dT * first.dT)
    let t2 ← hold .int64 (square.tdiv (2 ^ 31))
    let t2 ← hold .int32 t2
    let low ← hold .int32 (first.temp - 2000)
    let low ← quadratic 5 low
    let off2 ← hold .int32 (low.tdiv 2)
    let sens2 ← hold .int32 (low.tdiv 4)
    if first.temp < -1500 then
      let veryLow ← hold .int32 (first.temp + 1500)
      let veryLowOff ← quadratic 7 veryLow
      let off2 ← hold .int64 (off2 + veryLowOff)
      let veryLowSens ← quadratic 11 veryLow
      let veryLowSens ← hold .int32 (veryLowSens.tdiv 2)
      let sens2 ← hold .int64 (sens2 + veryLowSens)
      return ⟨t2, off2, sens2⟩
    else return ⟨t2, off2, sens2⟩
  else return ⟨0, 0, 0⟩

/-- `ms5611_process_meas`. -/
def ms5611ProcessMeas (calib : Ms5611Calib) (raw : Ms5611Raw) : Calc Compensated := do
  let first ← firstOrder calib raw
  let second ← secondOrder first
  let temp ← hold .int32 (first.temp - second.t2)
  let off ← hold .int64 (first.off - second.off2)
  let sens ← hold .int64 (first.sens - second.sens2)
  let product ← hold .int64 (raw.d1.toNat * sens)
  let quotient ← hold .int64 (product.tdiv (2 ^ 21))
  let difference ← hold .int64 (quotient - off)
  let p ← hold .int64 (difference.tdiv (2 ^ 15))
  let p ← hold .int32 p
  return ⟨temp, p⟩

end Calculation

section Exact

/-- The formulas of the first and of the second order in the integers. -/
def compensation (calib : Ms5611Calib) (raw : Ms5611Raw) : Compensated :=
  let dT : ℤ := raw.d2.toNat - calib.c5.toNat * 2 ^ 8
  let temp := 2000 + (dT * calib.c6.toNat).tdiv (2 ^ 23)
  let off := calib.c2.toNat * 2 ^ 16 + (calib.c4.toNat * dT).tdiv (2 ^ 7)
  let sens := calib.c1.toNat * 2 ^ 15 + (calib.c3.toNat * dT).tdiv (2 ^ 8)
  let low := 5 * (temp - 2000) * (temp - 2000)
  let veryLow := (temp + 1500) * (temp + 1500)
  let t2 := if temp < 2000 then (dT * dT).tdiv (2 ^ 31) else 0
  let off2 :=
    if temp < 2000 then low.tdiv 2 + (if temp < -1500 then 7 * veryLow else 0) else 0
  let sens2 :=
    if temp < 2000 then low.tdiv 4 + (if temp < -1500 then (11 * veryLow).tdiv 2 else 0) else 0
  ⟨temp - t2, ((raw.d1.toNat * (sens - sens2)).tdiv (2 ^ 21) - (off - off2)).tdiv (2 ^ 15)⟩

theorem exact_linear (word : ℤ) (shift : ℕ) (factor dT : ℤ) (scale : ℕ) :
    (linear word shift factor dT scale).exact =
      word * 2 ^ shift + (factor * dT).tdiv (2 ^ scale) := by
  simp [linear]

theorem exact_quadratic (k x : ℤ) : (quadratic k x).exact = k * x * x := by
  simp [quadratic]

theorem exact_secondOrder (first : FirstOrder) : (secondOrder first).exact =
    if first.temp < 2000 then
      ⟨(first.dT * first.dT).tdiv (2 ^ 31),
        (5 * (first.temp - 2000) * (first.temp - 2000)).tdiv 2 +
          (if first.temp < -1500 then 7 * ((first.temp + 1500) * (first.temp + 1500)) else 0),
        (5 * (first.temp - 2000) * (first.temp - 2000)).tdiv 4 +
          (if first.temp < -1500 then
            (11 * ((first.temp + 1500) * (first.temp + 1500))).tdiv 2 else 0)⟩
    else ⟨0, 0, 0⟩ := by
  rw [secondOrder]
  split
  · split
    · simp [exact_quadratic, mul_assoc]
    · simp [exact_quadratic]
  · rfl

/-- The calculation is that of the formulas. -/
theorem exact_ms5611ProcessMeas (calib : Ms5611Calib) (raw : Ms5611Raw) :
    (ms5611ProcessMeas calib raw).exact = compensation calib raw := by
  simp only [ms5611ProcessMeas, firstOrder, exact_bind, exact_hold, exact_linear, exact_pure,
    exact_secondOrder, compensation]
  split
  · rfl
  · rfl

end Exact

section Range

variable {calib : Ms5611Calib} {raw : Ms5611Raw}

theorem noWrap_linear (word : ℤ) (shift : ℕ) (factor dT : ℤ) (scale : ℕ) :
    (linear word shift factor dT scale).NoWrap ↔
      IntType.uint32.Fits (word * 2 ^ shift) ∧ IntType.int32.Fits (factor * dT) ∧
        IntType.uint32.Fits (factor * dT) ∧
        IntType.uint32.Fits ((factor * dT).tdiv (2 ^ scale)) ∧
        IntType.uint32.Fits (word * 2 ^ shift + (factor * dT).tdiv (2 ^ scale)) := by
  simp only [linear, noWrap_bind, noWrap_hold, exact_hold]

/-- `dT` in the integers. -/
def dTOf (calib : Ms5611Calib) (raw : Ms5611Raw) : ℤ := raw.d2.toNat - calib.c5.toNat * 2 ^ 8

/-- The raw temperature is not below the reference, and its distance from there is small
enough for the products and for the offset. -/
def InRange (calib : Ms5611Calib) (raw : Ms5611Raw) : Prop :=
  0 ≤ dTOf calib raw ∧ dTOf calib raw * calib.c6.toNat < 2 ^ 31 ∧
    calib.c4.toNat * dTOf calib raw < 2 ^ 31 ∧ calib.c3.toNat * dTOf calib raw < 2 ^ 31 ∧
    calib.c2.toNat * 2 ^ 16 + (calib.c4.toNat * dTOf calib raw).tdiv (2 ^ 7) < 2 ^ 32

theorem exact_firstOrder (calib : Ms5611Calib) (raw : Ms5611Raw) :
    (firstOrder calib raw).exact =
      ⟨dTOf calib raw, 2000 + (dTOf calib raw * calib.c6.toNat).tdiv (2 ^ 23),
        calib.c2.toNat * 2 ^ 16 + (calib.c4.toNat * dTOf calib raw).tdiv (2 ^ 7),
        calib.c1.toNat * 2 ^ 15 + (calib.c3.toNat * dTOf calib raw).tdiv (2 ^ 8)⟩ := by
  simp only [firstOrder, exact_bind, exact_hold, exact_linear, exact_pure, dTOf]

theorem noWrap_firstOrder (calib : Ms5611Calib) (raw : Ms5611Raw) :
    (firstOrder calib raw).NoWrap ↔
      IntType.uint32.Fits (calib.c5.toNat * 2 ^ 8) ∧ IntType.uint32.Fits (dTOf calib raw) ∧
        IntType.int32.Fits (dTOf calib raw) ∧
        IntType.int32.Fits (dTOf calib raw * calib.c6.toNat) ∧
        IntType.int32.Fits ((dTOf calib raw * calib.c6.toNat).tdiv (2 ^ 23)) ∧
        IntType.int32.Fits (2000 + (dTOf calib raw * calib.c6.toNat).tdiv (2 ^ 23)) ∧
        (linear calib.c2.toNat 16 calib.c4.toNat (dTOf calib raw) 7).NoWrap ∧
        (linear calib.c1.toNat 15 calib.c3.toNat (dTOf calib raw) 8).NoWrap := by
  simp only [firstOrder, noWrap_bind, noWrap_hold, exact_hold, noWrap_pure, and_true, dTOf]

/-- The values of the first order, in terms of the products that it is made of. -/
theorem fits_linear {word p : ℤ} {shift scale : ℕ} (hword : 0 ≤ word * 2 ^ shift)
    (hp : 0 ≤ p) (hlt : p < 2 ^ 31) (hsum : word * 2 ^ shift + p / 2 ^ scale < 2 ^ 32) :
    IntType.uint32.Fits (word * 2 ^ shift) ∧ IntType.int32.Fits p ∧ IntType.uint32.Fits p ∧
      IntType.uint32.Fits (p.tdiv (2 ^ scale)) ∧
      IntType.uint32.Fits (word * 2 ^ shift + p.tdiv (2 ^ scale)) := by
  rw [Int.tdiv_eq_ediv_of_nonneg hp]
  have hquotient : 0 ≤ p / 2 ^ scale := Int.ediv_nonneg hp (by positivity)
  simp only [IntType.Fits]
  omega

theorem fits_firstOrder {dT p : ℤ} (hpos : 0 ≤ dT) (hdT : dT < 2 ^ 24) (hp : 0 ≤ p)
    (hlt : p < 2 ^ 31) :
    IntType.uint32.Fits dT ∧ IntType.int32.Fits dT ∧ IntType.int32.Fits p ∧
      IntType.int32.Fits (p.tdiv (2 ^ 23)) ∧ IntType.int32.Fits (2000 + p.tdiv (2 ^ 23)) := by
  rw [Int.tdiv_eq_ediv_of_nonneg hp]
  simp only [IntType.Fits]
  omega

/-- A division that rounds to zero stays within symmetric bounds. -/
theorem tdiv_bounds {x b : ℤ} (hlo : -b ≤ x) (hhi : x ≤ b) :
    -b ≤ x.tdiv (2 ^ 15) * 2 ^ 15 ∧ x.tdiv (2 ^ 15) * 2 ^ 15 ≤ b := by
  rcases le_total 0 x with h | h
  · rw [Int.tdiv_eq_ediv_of_nonneg h]
    omega
  · have hneg : x.tdiv (2 ^ 15) = -((-x) / 2 ^ 15) := by
      rw [← Int.tdiv_eq_ediv_of_nonneg (Int.neg_nonneg_of_nonpos h), Int.neg_tdiv, neg_neg]
    rw [hneg]
    omega

/-- The pressure of a sensitivity and an offset that are 32-bit words. -/
theorem fits_pressure {d1 sens off : ℤ} (hd1 : 0 ≤ d1 ∧ d1 < 2 ^ 24)
    (hsens : IntType.uint32.Fits sens) (hoff : IntType.uint32.Fits off) :
    IntType.int64.Fits (d1 * sens) ∧ IntType.int64.Fits ((d1 * sens).tdiv (2 ^ 21)) ∧
      IntType.int64.Fits ((d1 * sens).tdiv (2 ^ 21) - off) ∧
      IntType.int64.Fits (((d1 * sens).tdiv (2 ^ 21) - off).tdiv (2 ^ 15)) ∧
      IntType.int32.Fits (((d1 * sens).tdiv (2 ^ 21) - off).tdiv (2 ^ 15)) := by
  have hnonneg : 0 ≤ d1 * sens := mul_nonneg hd1.1 hsens.1
  have hle : d1 * sens ≤ 2 ^ 24 * 2 ^ 32 :=
    mul_le_mul hd1.2.le hsens.2.le hsens.1 (by norm_num)
  rw [Int.tdiv_eq_ediv_of_nonneg hnonneg]
  obtain ⟨hlo, hhi⟩ := hoff
  generalize d1 * sens = product at *
  have hbounds := tdiv_bounds (x := product / 2 ^ 21 - off) (b := 2 ^ 36) (by omega) (by omega)
  simp only [IntType.Fits]
  omega

/-- The first order in range is not negative, and the second order is not needed. -/
theorem noWrap_of_inRange (hd1 : raw.d1.toNat < 2 ^ 24) (hd2 : raw.d2.toNat < 2 ^ 24)
    (h : InRange calib raw) : (ms5611ProcessMeas calib raw).NoWrap := by
  obtain ⟨hpos, h6, h4, h3, hoff⟩ := h
  have hc1 := calib.c1.toNat_lt
  have hc5 := calib.c5.toNat_lt
  have hdT : dTOf calib raw < 2 ^ 24 := by
    rw [dTOf]
    omega
  have hp6 : 0 ≤ dTOf calib raw * calib.c6.toNat := mul_nonneg hpos (Int.natCast_nonneg _)
  have hp4 : 0 ≤ calib.c4.toNat * dTOf calib raw := mul_nonneg (Int.natCast_nonneg _) hpos
  have hp3 : 0 ≤ calib.c3.toNat * dTOf calib raw := mul_nonneg (Int.natCast_nonneg _) hpos
  rw [Int.tdiv_eq_ediv_of_nonneg hp4] at hoff
  have hoffset := fits_linear (by positivity) hp4 h4 hoff
  have hsum : (calib.c1.toNat : ℤ) * 2 ^ 15 + calib.c3.toNat * dTOf calib raw / 2 ^ 8 < 2 ^ 32 := by
    omega
  have hsensitivity := fits_linear (by positivity) hp3 h3 hsum
  have hreference : IntType.uint32.Fits (calib.c5.toNat * 2 ^ 8) := by
    simp only [IntType.Fits]
    omega
  obtain ⟨hu, hi, hproduct, hquotient, htemp⟩ := fits_firstOrder hpos hdT hp6 h6
  have hhigh : ¬ 2000 + (dTOf calib raw * calib.c6.toNat).tdiv (2 ^ 23) < 2000 := by
    rw [Int.tdiv_eq_ediv_of_nonneg hp6]
    omega
  rw [ms5611ProcessMeas, noWrap_bind, noWrap_firstOrder, noWrap_linear, noWrap_linear,
    exact_firstOrder]
  refine ⟨⟨hreference, hu, hi, hproduct, hquotient, htemp, hoffset, hsensitivity⟩, ?_⟩
  simp only [secondOrder, if_neg hhigh, noWrap_bind, noWrap_hold, exact_hold, exact_pure,
    noWrap_pure, sub_zero, and_true, true_and]
  have hd1' : 0 ≤ (raw.d1.toNat : ℤ) ∧ (raw.d1.toNat : ℤ) < 2 ^ 24 :=
    ⟨Int.natCast_nonneg _, by exact_mod_cast hd1⟩
  have hpressure := fits_pressure hd1' hsensitivity.2.2.2.2 hoffset.2.2.2.2
  refine ⟨htemp, ?_, ?_, hpressure⟩
  · obtain ⟨hlo, hhi⟩ := hoffset.2.2.2.2
    simp only [IntType.Fits]
    omega
  · obtain ⟨hlo, hhi⟩ := hsensitivity.2.2.2.2
    simp only [IntType.Fits]
    omega

/-- What is computed is what the formulas give, without a value that wraps around. -/
def Faithful (calib : Ms5611Calib) (raw : Ms5611Raw) : Prop :=
  (ms5611ProcessMeas calib raw).NoWrap ∧
    (ms5611ProcessMeas calib raw).run = compensation calib raw

/-- No value wraps around, and so the result is that of the formulas, exactly in the
range. -/
theorem faithful_iff (hd1 : raw.d1.toNat < 2 ^ 24) (hd2 : raw.d2.toNat < 2 ^ 24) :
    Faithful calib raw ↔ InRange calib raw := by
  constructor
  · rintro ⟨hno, -⟩
    rw [ms5611ProcessMeas, noWrap_bind, noWrap_firstOrder, noWrap_linear, noWrap_linear] at hno
    obtain ⟨⟨-, hpos, -, h6, -, -, ⟨-, h4, -, -, hoff⟩, -, h3, -⟩, -⟩ := hno
    exact ⟨hpos.1, h6.2, h4.2, h3.2, hoff.2⟩
  · intro h
    have hno := noWrap_of_inRange hd1 hd2 h
    exact ⟨hno, (run_eq_exact hno).trans (exact_ms5611ProcessMeas calib raw)⟩

/-- Calibration words of one sensor. -/
def sampleCalib : Ms5611Calib := ⟨40127, 36924, 23317, 23282, 33464, 28312⟩

/-- At 20.07 °C. -/
theorem faithful_iff_above : Faithful sampleCalib ⟨9085466, 8569150⟩ ↔
    InRange sampleCalib ⟨9085466, 8569150⟩ := faithful_iff (by decide) (by decide)

/-- At 19.78 °C the difference to the reference is negative, and its cast to `uint32_t`
makes the pressure 101143 Pa instead of 99949 Pa. -/
theorem not_faithful_below : ¬ ∀ (calib : Ms5611Calib) (raw : Ms5611Raw),
    raw.d1.toNat < 2 ^ 24 → raw.d2.toNat < 2 ^ 24 → Faithful calib raw := by
  intro hall
  have hfaithful := hall sampleCalib ⟨9085466, 8560000⟩ (by decide) (by decide)
  exact absurd hfaithful.2 (by decide +kernel)

end Range

end Catpilot
