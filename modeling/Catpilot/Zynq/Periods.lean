import Mathlib.Algebra.Order.Group.Nat
import Mathlib.Data.BitVec
import Mathlib.Logic.Function.Basic
import Mathlib.Tactic.Ring

/-!
# Periods in ticks

The periods of the SPI block and of the AD7606B are programmed as numbers of ticks of the main
clock. The ticks are counted from the whole number of periods in a second, which is not the
frequency unless the period divides the second, and zero for a period of more than a second.
-/

namespace Catpilot

/-- `SPIPLR_POLL_PERIOD_OFF`. -/
def spiplrPollPeriodOff : BitVec 32 := 0x0004

/-- `AD7606B_DISC_PERIOD_OFF`. -/
def ad7606bDiscPeriodOff : BitVec 32 := 0x000C

/-- The registers of a block, at their offsets. -/
abbrev BlockRegs := BitVec 32 → BitVec 32

/-- `per_reg` of both functions, with `none` for a division by zero. -/
def perReg (periodUs mck : BitVec 32) : Option (BitVec 32) :=
  if periodUs = 0 then none
  else if 1000000 / periodUs = 0 then none
  else some (mck / (1000000 / periodUs))

/-- A function that programs a period: what it returns, and the registers after it. -/
def setPeriod (off : BitVec 32) (regs : BlockRegs) (periodUs mck : BitVec 32) :
    Option (ℤ × BlockRegs) :=
  (perReg periodUs mck).map fun per => (0, Function.update regs off per)

/-- `spiplr_poll_set_period`. -/
def spiplrPollSetPeriod : BlockRegs → BitVec 32 → BitVec 32 → Option (ℤ × BlockRegs) :=
  setPeriod spiplrPollPeriodOff

/-- `adc_ad7606b_set_disc_period`. -/
def adcAd7606bSetDiscPeriod : BlockRegs → BitVec 32 → BitVec 32 → Option (ℤ × BlockRegs) :=
  setPeriod ad7606bDiscPeriodOff

/-- The outcome of a function is that the register at `off`, and no other one, has the whole
number of ticks in the period. -/
def ProgramsTicks (off : BitVec 32) (regs : BlockRegs) (periodUs mck : BitVec 32)
    (outcome : Option (ℤ × BlockRegs)) : Prop :=
  ∃ per : BitVec 32, outcome = some (0, Function.update regs off per) ∧
    per.toNat = mck.toNat * periodUs.toNat / 1000000

/-- The period is at most a second, and what the clock has left of whole periods makes up for
what the second has left of them. -/
def PeriodFits (periodUs mck : BitVec 32) : Prop :=
  0 < periodUs.toNat ∧ periodUs.toNat ≤ 1000000 ∧
    mck.toNat * (1000000 % periodUs.toNat) ≤ 1000000 * (mck.toNat % (1000000 / periodUs.toNat))

/-! ## Ticks -/

/-- A quotient by the whole part of `n / p` is at least the one by `n / p`. -/
theorem mul_div_le_div_div {n p m : ℕ} (hp : 0 < p) (hpn : p ≤ n) : m * p / n ≤ m / (n / p) := by
  have ha : 0 < n / p := Nat.div_pos hpn hp
  rw [Nat.le_div_iff_mul_le ha]
  apply Nat.le_of_mul_le_mul_right _ hp
  calc m * p / n * (n / p) * p = m * p / n * (n / p * p) := Nat.mul_assoc _ _ _
    _ ≤ m * p / n * n := Nat.mul_le_mul_left _ (Nat.div_mul_le_self n p)
    _ ≤ m * p := Nat.div_mul_le_self (m * p) n

/-- They are the same when the one remainder makes up for the other one. -/
theorem div_div_eq_mul_div_iff {n p m : ℕ} (hp : 0 < p) (hpn : p ≤ n) :
    m / (n / p) = m * p / n ↔ m * (n % p) ≤ n * (m % (n / p)) := by
  have ha : 0 < n / p := Nat.div_pos hpn hp
  have hn : 0 < n := Nat.lt_of_lt_of_le hp hpn
  have hclock : n / p * (m / (n / p) * n) + n * (m % (n / p)) = m * n := by
    calc n / p * (m / (n / p) * n) + n * (m % (n / p))
        = (n / p * (m / (n / p)) + m % (n / p)) * n := by ring
      _ = m * n := by rw [Nat.div_add_mod]
  have hsecond : n / p * (m * p) + m * (n % p) = m * n := by
    calc n / p * (m * p) + m * (n % p) = m * (p * (n / p) + n % p) := by ring
      _ = m * n := by rw [Nat.div_add_mod]
  have hle := mul_div_le_div_div (m := m) hp hpn
  calc m / (n / p) = m * p / n ↔ m / (n / p) ≤ m * p / n :=
        ⟨fun h => h.le, fun h => Nat.le_antisymm h hle⟩
    _ ↔ m / (n / p) * n ≤ m * p := Nat.le_div_iff_mul_le hn
    _ ↔ n / p * (m / (n / p) * n) ≤ n / p * (m * p) := (Nat.mul_le_mul_left_iff ha).symm
    _ ↔ m * (n % p) ≤ n * (m % (n / p)) := by omega

theorem toNat_ticks (periodUs mck : BitVec 32) :
    (mck / (1000000 / periodUs)).toNat = mck.toNat / (1000000 / periodUs.toNat) := by
  rw [BitVec.toNat_udiv, BitVec.toNat_udiv]
  rfl

/-- The ticks that are programmed, and when there is no division by zero. -/
theorem perReg_eq_some_iff {periodUs mck per : BitVec 32} :
    perReg periodUs mck = some per ↔
      0 < periodUs.toNat ∧ periodUs.toNat ≤ 1000000 ∧
        per.toNat = mck.toNat / (1000000 / periodUs.toNat) := by
  have hzero : periodUs = 0 ↔ periodUs.toNat = 0 := BitVec.toNat_inj.symm
  have hdiv : 1000000 / periodUs = 0 ↔ 1000000 / periodUs.toNat = 0 := by
    rw [← BitVec.toNat_inj, BitVec.toNat_udiv]
    rfl
  rw [perReg]
  by_cases hp : periodUs = 0
  · rw [if_pos hp, hzero.1 hp]
    constructor
    · intro h
      cases h
    · intro h
      exact absurd h.1 (Nat.lt_irrefl 0)
  · have hpos : 0 < periodUs.toNat := Nat.pos_of_ne_zero fun h => hp (hzero.2 h)
    rw [if_neg hp]
    by_cases hlong : 1000000 / periodUs = 0
    · rw [if_pos hlong]
      have hlt : 1000000 < periodUs.toNat := (Nat.div_eq_zero_iff_lt hpos).1 (hdiv.1 hlong)
      constructor
      · intro h
        cases h
      · intro h
        exact absurd h.2.1 (Nat.not_le.2 hlt)
    · have hle : periodUs.toNat ≤ 1000000 := by
        apply Nat.le_of_not_lt
        intro hlt
        exact hlong (hdiv.2 (Nat.div_eq_of_lt hlt))
      rw [if_neg hlong, Option.some.injEq, ← BitVec.toNat_inj, toNat_ticks]
      constructor
      · intro h
        exact ⟨hpos, hle, h.symm⟩
      · intro h
        exact h.2.2.symm

/-- A function programs the ticks of its period exactly when the period fits. -/
theorem setPeriod_iff (off : BitVec 32) (regs : BlockRegs) (periodUs mck : BitVec 32) :
    ProgramsTicks off regs periodUs mck (setPeriod off regs periodUs mck) ↔
      PeriodFits periodUs mck := by
  constructor
  · rintro ⟨per, hset, hticks⟩
    obtain ⟨per', hper', heq⟩ := Option.map_eq_some_iff.1 hset
    rw [Prod.mk.injEq] at heq
    have hsame : per' = per := by
      have hoff := congrFun heq.2 off
      rwa [Function.update_self, Function.update_self] at hoff
    obtain ⟨hpos, hle, hdiv⟩ := perReg_eq_some_iff.1 hper'
    refine ⟨hpos, hle, (div_div_eq_mul_div_iff hpos hle).1 ?_⟩
    rw [← hdiv, hsame, hticks]
  · rintro ⟨hpos, hle, hrem⟩
    have hper : perReg periodUs mck = some (mck / (1000000 / periodUs)) :=
      perReg_eq_some_iff.2 ⟨hpos, hle, toNat_ticks periodUs mck⟩
    refine ⟨mck / (1000000 / periodUs), ?_, ?_⟩
    · rw [setPeriod, hper, Option.map_some]
    · rw [toNat_ticks, (div_div_eq_mul_div_iff hpos hle).2 hrem]

/-- Both functions program the ticks of a period exactly when it fits. -/
theorem programsTicks_iff (regs : BlockRegs) (periodUs mck : BitVec 32) :
    (ProgramsTicks spiplrPollPeriodOff regs periodUs mck
        (spiplrPollSetPeriod regs periodUs mck) ↔ PeriodFits periodUs mck) ∧
      (ProgramsTicks ad7606bDiscPeriodOff regs periodUs mck
        (adcAd7606bSetDiscPeriod regs periodUs mck) ↔ PeriodFits periodUs mck) :=
  ⟨setPeriod_iff spiplrPollPeriodOff regs periodUs mck,
    setPeriod_iff ad7606bDiscPeriodOff regs periodUs mck⟩

/-- A period of 300 µs is three ticks too long at 100 MHz. -/
theorem not_programsTicks_300 :
    ¬ ∀ (regs : BlockRegs) (periodUs mck : BitVec 32), 1 ≤ periodUs.toNat →
      mck.toNat * periodUs.toNat / 1000000 < 2 ^ 32 →
        ProgramsTicks spiplrPollPeriodOff regs periodUs mck
            (spiplrPollSetPeriod regs periodUs mck) ∧
          ProgramsTicks ad7606bDiscPeriodOff regs periodUs mck
            (adcAd7606bSetDiscPeriod regs periodUs mck) := by
  intro h
  have hticks := (h (fun _ => 0) 300 100000000 (by decide) (by decide)).1
  have hfits := (setPeriod_iff spiplrPollPeriodOff (fun _ => 0) 300 100000000).1 hticks
  exact absurd hfits.2.2 (by decide)

end Catpilot
