import Catpilot.Posix.Errno
import Mathlib.Data.Int.Basic
import Mathlib.Tactic.SplitIfs

/-!
# Times and ticks

The conversions of `FreeRTOS_POSIX_utils.c` between times of seconds and nanoseconds and
ticks of a millisecond, and the clock of `FreeRTOS_POSIX_clock.c`. A wait until a time ends
at the first tick that is not before it.
-/

namespace Catpilot

/-- `struct timespec`. -/
structure Timespec where
  tvSec : Int64
  tvNsec : Int32
  deriving DecidableEq, Repr

/-- `NANOSECONDS_PER_SECOND`. -/
def nanosecondsPerSecond : Int64 := 1000000000

/-- `configTICK_RATE_HZ`. -/
def configTickRateHz : Int64 := 1000

/-- `NANOSECONDS_PER_TICK`. -/
def nanosecondsPerTick : Int64 := nanosecondsPerSecond / configTickRateHz

/-- `TimeOut_t`, as `vTaskSetTimeOutState` sets it. -/
structure TimeOut where
  xOverflowCount : Int32
  xTimeOnEntering : UInt32
  deriving DecidableEq, Repr

/-- `portMAX_DELAY`. -/
def TimeOut.portMaxDelay : UInt32 := 0xFFFFFFFF

/-- The number of ticks since the start. -/
def TimeOut.ticks (now : TimeOut) : ℕ :=
  now.xOverflowCount.toInt.toNat * 4294967296 + now.xTimeOnEntering.toNat

namespace Timespec

/-- `UTILS_ValidateTimespec`. -/
def Valid (t : Timespec) : Prop := 0 ≤ t.tvNsec ∧ t.tvNsec.toInt64 < nanosecondsPerSecond

instance (t : Timespec) : Decidable t.Valid :=
  inferInstanceAs (Decidable (0 ≤ t.tvNsec ∧ t.tvNsec.toInt64 < nanosecondsPerSecond))

/-- `UTILS_TimespecCompare`. -/
def compare (x y : Timespec) : ℤ :=
  if x.tvSec > y.tvSec then 1
  else if x.tvSec < y.tvSec then -1
  else if x.tvNsec > y.tvNsec then 1
  else if x.tvNsec < y.tvNsec then -1
  else 0

/-- `UTILS_TimespecSubtract`: the difference, or the status. -/
def subtract (x y : Timespec) : Except ℤ Timespec :=
  if x.compare y = -1 then .error 1
  else if x.compare y = 0 then .ok ⟨0, 0⟩
  else
    let result : Timespec := ⟨x.tvSec - y.tvSec, x.tvNsec - y.tvNsec⟩
    let result : Timespec :=
      if result.tvNsec < 0 then
        ⟨result.tvSec - 1, result.tvNsec + nanosecondsPerSecond.toInt32⟩
      else result
    if result.tvNsec < 0 then .error (-1) else .ok result

/-- `UTILS_TimespecToTicks`: the status, and what is in `pxResult`. -/
def toTicks (t : Timespec) (result : UInt32) : Errno × UInt32 :=
  if t.Valid then
    let lNanoseconds := t.tvNsec / nanosecondsPerTick.toInt32 +
      (if t.tvNsec % nanosecondsPerTick.toInt32 ≠ 0 then 1 else 0)
    let llTotalTicks := configTickRateHz * t.tvSec + lNanoseconds.toInt64
    (if llTotalTicks < 0 then .einval
      else if llTotalTicks > 0xFFFFFFFF then .einval
      else .ok,
      llTotalTicks.toUInt64.toUInt32)
  else (.einval, result)

/-- `UTILS_AbsoluteTimespecToDeltaTicks`. -/
def toDeltaTicks (absolute current : Timespec) (result : UInt32) : Errno × UInt32 :=
  match absolute.subtract current with
  | .ok difference => difference.toTicks result
  | .error status => (if status = 1 then .etimedout else .einval, result)

/-- `UTILS_NanosecondsToTimespec`. -/
def ofNanoseconds (llSource : Int64) : Timespec :=
  let sec := llSource / nanosecondsPerSecond
  let nsec := (llSource % nanosecondsPerSecond).toInt32
  if nsec < 0 then
    let lCarrySec := nsec / nanosecondsPerSecond.toInt32 + 1
    ⟨sec - lCarrySec.toInt64, nsec + lCarrySec * nanosecondsPerSecond.toInt32⟩
  else ⟨sec, nsec⟩

/-- `clock_gettime`. -/
def clockGettime (now : TimeOut) : Timespec :=
  let ullTickCount := now.xOverflowCount.toInt64.toUInt64 <<< 32 + now.xTimeOnEntering.toUInt64
  ofNanoseconds (ullTickCount.toInt64 * nanosecondsPerTick)

/-- The time in nanoseconds. -/
def ns (t : Timespec) : ℤ := t.tvSec.toInt * 1000000000 + t.tvNsec.toInt

/-! ## Without overflow -/

theorem toInt_add64 {a b : Int64} (hlo : -9223372036854775808 ≤ a.toInt + b.toInt)
    (hhi : a.toInt + b.toInt < 9223372036854775808) : (a + b).toInt = a.toInt + b.toInt := by
  rw [Int64.toInt_add]
  exact Int.bmod_eq_of_le (by omega) (by omega)

theorem toInt_sub64 {a b : Int64} (hlo : -9223372036854775808 ≤ a.toInt - b.toInt)
    (hhi : a.toInt - b.toInt < 9223372036854775808) : (a - b).toInt = a.toInt - b.toInt := by
  rw [Int64.toInt_sub]
  exact Int.bmod_eq_of_le (by omega) (by omega)

theorem toInt_mul64 {a b : Int64} (hlo : -9223372036854775808 ≤ a.toInt * b.toInt)
    (hhi : a.toInt * b.toInt < 9223372036854775808) : (a * b).toInt = a.toInt * b.toInt := by
  rw [Int64.toInt_mul]
  exact Int.bmod_eq_of_le (by omega) (by omega)

theorem toInt_add32 {a b : Int32} (hlo : -2147483648 ≤ a.toInt + b.toInt)
    (hhi : a.toInt + b.toInt < 2147483648) : (a + b).toInt = a.toInt + b.toInt := by
  rw [Int32.toInt_add]
  exact Int.bmod_eq_of_le (by omega) (by omega)

theorem toInt_sub32 {a b : Int32} (hlo : -2147483648 ≤ a.toInt - b.toInt)
    (hhi : a.toInt - b.toInt < 2147483648) : (a - b).toInt = a.toInt - b.toInt := by
  rw [Int32.toInt_sub]
  exact Int.bmod_eq_of_le (by omega) (by omega)

@[simp] theorem toInt_nanosecondsPerSecond : nanosecondsPerSecond.toInt = 1000000000 := rfl

@[simp] theorem toInt_nanosecondsPerTick : nanosecondsPerTick.toInt = 1000000 := rfl

@[simp] theorem toInt_configTickRateHz : configTickRateHz.toInt = 1000 := rfl

@[simp] theorem toInt32_nanosecondsPerSecond :
    nanosecondsPerSecond.toInt32.toInt = 1000000000 := rfl

@[simp] theorem toInt32_nanosecondsPerTick : nanosecondsPerTick.toInt32.toInt = 1000000 := rfl

theorem valid_iff (t : Timespec) : t.Valid ↔ 0 ≤ t.tvNsec.toInt ∧ t.tvNsec.toInt < 1000000000 := by
  rw [Valid, Int32.le_iff_toInt_le, Int64.lt_iff_toInt_lt, Int32.toInt_toInt64,
    toInt_nanosecondsPerSecond, Int32.toInt_zero]

theorem ns_and_valid {sec : Int64} {nsec : Int32} {x : ℤ}
    (hx : sec.toInt * 1000000000 + nsec.toInt = x) (hlo : 0 ≤ nsec.toInt)
    (hhi : nsec.toInt < 1000000000) :
    (Timespec.mk sec nsec).ns = x ∧ (Timespec.mk sec nsec).Valid :=
  ⟨hx, (valid_iff _).2 ⟨hlo, hhi⟩⟩

/-! ## What the functions compute -/

/-- The conversion to a time and back, also of a negative number of nanoseconds. -/
theorem ns_ofNanoseconds (n : Int64) :
    (ofNanoseconds n).ns = n.toInt ∧ (ofNanoseconds n).Valid := by
  have hsec : (n / nanosecondsPerSecond).toInt = n.toInt.tdiv 1000000000 :=
    Int64.toInt_div_of_ne_right n nanosecondsPerSecond (by decide)
  have hmod : (n % nanosecondsPerSecond).toInt = n.toInt.tmod 1000000000 := Int64.toInt_mod n _
  have hsum := Int.mul_tdiv_add_tmod n.toInt 1000000000
  have hlt := Int.tmod_lt_of_pos n.toInt (b := 1000000000) (by decide)
  have hgt := Int.lt_tmod_of_pos n.toInt (b := 1000000000) (by decide)
  have hnsec : (n % nanosecondsPerSecond).toInt32.toInt = n.toInt.tmod 1000000000 := by
    rw [Int64.toInt_toInt32, hmod]
    exact Int.bmod_eq_of_le (by omega) (by omega)
  have hn := n.le_toInt
  have hn' := n.toInt_lt
  rw [ofNanoseconds]
  generalize (n % nanosecondsPerSecond).toInt32 = nsec at hnsec ⊢
  simp only [Int32.lt_iff_toInt_lt, Int32.toInt_zero]
  split_ifs with hneg
  · -- one second is borrowed
    have hcarry : (nsec / nanosecondsPerSecond.toInt32 + 1).toInt = 1 := by
      have hdiv : (nsec / nanosecondsPerSecond.toInt32).toInt = 0 := by
        rw [Int32.toInt_div_of_ne_right _ _ (by decide), toInt32_nanosecondsPerSecond,
          ← Int.neg_neg nsec.toInt, Int.neg_tdiv, Int.tdiv_eq_zero_of_lt (by omega) (by omega)]
        rfl
      rw [toInt_add32 (by rw [hdiv]; decide) (by rw [hdiv]; decide), hdiv]
      rfl
    have hone : nsec / nanosecondsPerSecond.toInt32 + 1 = 1 := Int32.toInt_inj.1 hcarry
    rw [hone]
    have hone64 : (1 : Int32).toInt64.toInt = 1 := rfl
    have hsecond : ((1 : Int32) * nanosecondsPerSecond.toInt32).toInt = 1000000000 := rfl
    have hsub : (n / nanosecondsPerSecond - (1 : Int32).toInt64).toInt =
        n.toInt.tdiv 1000000000 - 1 := by
      rw [toInt_sub64 (by omega) (by omega), hsec, hone64]
    have hadd : (nsec + (1 : Int32) * nanosecondsPerSecond.toInt32).toInt =
        nsec.toInt + 1000000000 := by
      rw [toInt_add32 (by omega) (by omega), hsecond]
    generalize n / nanosecondsPerSecond - (1 : Int32).toInt64 = sec at hsub
    generalize nsec + (1 : Int32) * nanosecondsPerSecond.toInt32 = rest at hadd
    exact ns_and_valid (by omega) (by omega) (by omega)
  · generalize n / nanosecondsPerSecond = sec at hsec
    exact ns_and_valid (by omega) (by omega) (by omega)

theorem compare_eq_neg_one_iff {x y : Timespec} (hx : x.Valid) (hy : y.Valid) :
    x.compare y = -1 ↔ x.ns < y.ns := by
  rw [valid_iff] at hx hy
  rw [compare, ns, ns]
  simp only [gt_iff_lt, Int64.lt_iff_toInt_lt, Int32.lt_iff_toInt_lt]
  split_ifs with h₁ h₂ h₃ h₄
  · exact iff_of_false (by decide) (by omega)
  · exact iff_of_true rfl (by omega)
  · exact iff_of_false (by decide) (by omega)
  · exact iff_of_true rfl (by omega)
  · exact iff_of_false (by decide) (by omega)

theorem compare_eq_zero_iff {x y : Timespec} (hx : x.Valid) (hy : y.Valid) :
    x.compare y = 0 ↔ x.ns = y.ns := by
  rw [valid_iff] at hx hy
  rw [compare, ns, ns]
  simp only [gt_iff_lt, Int64.lt_iff_toInt_lt, Int32.lt_iff_toInt_lt]
  split_ifs with h₁ h₂ h₃ h₄
  · exact iff_of_false (by decide) (by omega)
  · exact iff_of_false (by decide) (by omega)
  · exact iff_of_false (by decide) (by omega)
  · exact iff_of_false (by decide) (by omega)
  · exact iff_of_true rfl (by omega)

/-- The difference of two times, of which the second is not before the epoch. -/
theorem subtract_eq {x y : Timespec} (hx : x.Valid) (hy : y.Valid) (hpos : 0 ≤ y.tvSec.toInt)
    (hle : y.ns ≤ x.ns) :
    ∃ d, x.subtract y = .ok d ∧ d.Valid ∧ d.ns = x.ns - y.ns ∧ d.tvSec.toInt ≤ x.tvSec.toInt := by
  have hneg := mt (compare_eq_neg_one_iff hx hy).1 (Int.not_lt.2 hle)
  have hzero := compare_eq_zero_iff hx hy
  rw [valid_iff] at hx hy
  rw [ns, ns] at hle hzero
  rw [subtract, if_neg hneg]
  have hnsec : (x.tvNsec - y.tvNsec).toInt = x.tvNsec.toInt - y.tvNsec.toInt :=
    toInt_sub32 (by omega) (by omega)
  have hxsec := x.tvSec.toInt_lt
  have hsec : (x.tvSec - y.tvSec).toInt = x.tvSec.toInt - y.tvSec.toInt :=
    toInt_sub64 (by omega) (by omega)
  by_cases heq : x.compare y = 0
  · rw [if_pos heq]
    refine ⟨⟨0, 0⟩, rfl, by decide, ?_, ?_⟩
    · have hns : x.ns - y.ns = 0 := Int.sub_eq_zero.2 (hzero.1 heq)
      rw [hns]
      rfl
    · change 0 ≤ x.tvSec.toInt
      omega
  · rw [if_neg heq]
    have hne := mt hzero.2 heq
    simp only [Int32.lt_iff_toInt_lt, Int32.toInt_zero, hnsec]
    have hone : (1 : Int64).toInt = 1 := rfl
    have hborrow := toInt_sub64 (a := x.tvSec - y.tvSec) (b := 1) (by omega) (by omega)
    have hcarry := toInt_add32 (a := x.tvNsec - y.tvNsec) (b := nanosecondsPerSecond.toInt32)
      (by rw [toInt32_nanosecondsPerSecond]; omega) (by rw [toInt32_nanosecondsPerSecond]; omega)
    rw [toInt32_nanosecondsPerSecond] at hcarry
    generalize x.tvSec - y.tvSec - 1 = sec' at hborrow
    generalize x.tvNsec - y.tvNsec + nanosecondsPerSecond.toInt32 = nsec' at hcarry
    generalize x.tvSec - y.tvSec = sec at hsec hborrow
    generalize x.tvNsec - y.tvNsec = nsec at hnsec hcarry
    rw [ns, ns]
    by_cases hneg : x.tvNsec.toInt - y.tvNsec.toInt < 0
    · rw [if_pos hneg, if_neg (by change ¬ nsec'.toInt < 0; omega)]
      obtain ⟨hd, hv⟩ : (Timespec.mk sec' nsec').ns = _ ∧ (Timespec.mk sec' nsec').Valid :=
        ns_and_valid rfl (by omega) (by omega)
      exact ⟨⟨sec', nsec'⟩, rfl, hv, by rw [hd]; omega, by change sec'.toInt ≤ _; omega⟩
    · rw [if_neg hneg, if_neg (by change ¬ nsec.toInt < 0; omega)]
      obtain ⟨hd, hv⟩ : (Timespec.mk sec nsec).ns = _ ∧ (Timespec.mk sec nsec).Valid :=
        ns_and_valid rfl (by omega) (by omega)
      exact ⟨⟨sec, nsec⟩, rfl, hv, by rw [hd]; omega, by change sec.toInt ≤ _; omega⟩

/-- A length of time in ticks, rounded up. -/
theorem toTicks_eq {t : Timespec} (hv : t.Valid) (hpos : 0 ≤ t.tvSec.toInt)
    (hmax : t.tvSec.toInt ≤ 9007199254740992) (result : UInt32) :
    ∃ n : ℕ, t.ns ≤ n * 1000000 ∧ n * 1000000 < t.ns + 1000000 ∧
      (n ≤ 4294967295 → t.toTicks result = (.ok, UInt32.ofNat n)) ∧
      (4294967295 < n → (t.toTicks result).1 = .einval) := by
  have hrange := (valid_iff t).1 hv
  have hdiv : (t.tvNsec / nanosecondsPerTick.toInt32).toInt = t.tvNsec.toInt / 1000000 := by
    rw [Int32.toInt_div_of_ne_right _ _ (by decide), toInt32_nanosecondsPerTick,
      Int.tdiv_eq_ediv_of_nonneg hrange.1]
  have hmod : (t.tvNsec % nanosecondsPerTick.toInt32).toInt = t.tvNsec.toInt % 1000000 := by
    rw [Int32.toInt_mod, toInt32_nanosecondsPerTick, Int.tmod_eq_emod_of_nonneg hrange.1]
  have hround : (if t.tvNsec % nanosecondsPerTick.toInt32 ≠ 0 then 1 else 0 : Int32).toInt =
      if t.tvNsec.toInt % 1000000 = 0 then 0 else 1 := by
    have hzero : t.tvNsec % nanosecondsPerTick.toInt32 = 0 ↔ t.tvNsec.toInt % 1000000 = 0 := by
      rw [← Int32.toInt_inj, hmod, Int32.toInt_zero]
    split_ifs with h₁ h₂ h₂
    · exact absurd (hzero.2 h₂) h₁
    · rfl
    · rfl
    · exact absurd (hzero.1 (not_not.1 h₁)) h₂
  rw [toTicks, if_pos hv]
  dsimp only
  generalize t.tvNsec / nanosecondsPerTick.toInt32 = whole at hdiv
  generalize (if t.tvNsec % nanosecondsPerTick.toInt32 ≠ 0 then 1 else 0 : Int32) = part at hround
  have hle : part.toInt = 0 ∧ t.tvNsec.toInt % 1000000 = 0 ∨
      part.toInt = 1 ∧ t.tvNsec.toInt % 1000000 ≠ 0 := by
    split_ifs at hround with h
    · exact .inl ⟨hround, h⟩
    · exact .inr ⟨hround, h⟩
  have hnano : (whole + part).toInt = whole.toInt + part.toInt :=
    toInt_add32 (by omega) (by omega)
  have hseconds : (configTickRateHz * t.tvSec).toInt = 1000 * t.tvSec.toInt :=
    toInt_mul64 (by rw [toInt_configTickRateHz]; omega) (by rw [toInt_configTickRateHz]; omega)
  have htotal : (configTickRateHz * t.tvSec + (whole + part).toInt64).toInt =
      1000 * t.tvSec.toInt + (whole.toInt + part.toInt) := by
    rw [toInt_add64, hseconds, Int32.toInt_toInt64, hnano]
    · rw [hseconds, Int32.toInt_toInt64, hnano]
      omega
    · rw [hseconds, Int32.toInt_toInt64, hnano]
      omega
  generalize configTickRateHz * t.tvSec + (whole + part).toInt64 = total at htotal
  have hnonneg : 0 ≤ total.toInt := by omega
  have hticks : total.toUInt64.toUInt32 = UInt32.ofNat total.toInt.toNat := by
    apply UInt32.toNat_inj.1
    have hle : (0 : Int64) ≤ total := Int64.le_iff_toInt_le.2 hnonneg
    rw [UInt64.toNat_toUInt32, Int64.toNat_toUInt64_of_le hle, UInt32.toNat_ofNat']
    rfl
  have hmaxval : (0xFFFFFFFF : Int64).toInt = 4294967295 := rfl
  have hnat : (total.toInt.toNat : ℤ) = total.toInt := Int.toNat_of_nonneg hnonneg
  simp only [gt_iff_lt, Int64.lt_iff_toInt_lt, hmaxval, hticks]
  refine ⟨total.toInt.toNat, ?_, ?_, fun hn => ?_, fun hn => ?_⟩
  · rw [hnat, ns]
    omega
  · rw [hnat, ns]
    omega
  · rw [if_neg (by rw [Int64.toInt_zero]; omega), if_neg (by omega)]
  · rw [if_neg (by rw [Int64.toInt_zero]; omega), if_pos (by omega)]

/-- The time is that of the ticks, for the first 292 years. -/
theorem clockGettime_spec {now : TimeOut} (hpos : 0 ≤ now.xOverflowCount.toInt)
    (hlt : now.xOverflowCount.toInt < 2147) :
    (clockGettime now).ns = now.ticks * 1000000 ∧ (clockGettime now).Valid := by
  have hover : now.xOverflowCount.toInt64.toUInt64.toNat = now.xOverflowCount.toInt.toNat := by
    have hle : (0 : Int64) ≤ now.xOverflowCount.toInt64 := by
      rw [Int64.le_iff_toInt_le, Int32.toInt_toInt64]
      exact hpos
    rw [Int64.toNat_toUInt64_of_le hle, Int64.toNatClampNeg, Int32.toInt_toInt64]
  have hshift (x : UInt64) : (x <<< 32).toNat = x.toNat <<< 32 % 18446744073709551616 :=
    UInt64.toNat_shiftLeft x 32
  have hentering : now.xTimeOnEntering.toNat < 4294967296 := now.xTimeOnEntering.toNat_lt
  have hcount : (now.xOverflowCount.toInt64.toUInt64 <<< 32 +
      now.xTimeOnEntering.toUInt64).toNat = now.ticks := by
    rw [UInt64.toNat_add, hshift, hover, UInt32.toNat_toUInt64, Nat.shiftLeft_eq, TimeOut.ticks]
    omega
  have hticks : now.ticks < 9221294784512 := by
    rw [TimeOut.ticks]
    omega
  rw [clockGettime]
  generalize now.xOverflowCount.toInt64.toUInt64 <<< 32 + now.xTimeOnEntering.toUInt64 = count
    at hcount
  have hsigned : count.toInt64.toInt = now.ticks := by
    have hnat : count.toBitVec.toNat = now.ticks := hcount
    have hint := BitVec.toInt_eq_toNat_of_lt (x := count.toBitVec) (by rw [hnat]; omega)
    rwa [hnat] at hint
  have hns : (count.toInt64 * nanosecondsPerTick).toInt = now.ticks * 1000000 := by
    rw [toInt_mul64, hsigned, toInt_nanosecondsPerTick]
    · rw [hsigned, toInt_nanosecondsPerTick]
      omega
    · rw [hsigned, toInt_nanosecondsPerTick]
      omega
  rw [← hns]
  exact ns_ofNanoseconds _

/-- A wait until a time ends at the first tick that is not before it. A time in the past, and
one that is too far away for a number of ticks, are told apart. -/
theorem toDeltaTicks_deadline {now : TimeOut} (hpos : 0 ≤ now.xOverflowCount.toInt)
    (hlt : now.xOverflowCount.toInt < 2147) {t : Timespec} (hv : t.Valid)
    (hmax : t.tvSec.toInt ≤ 9007199254740992) (result : UInt32) :
    (t.ns < now.ticks * 1000000 →
      t.toDeltaTicks (clockGettime now) result = (.etimedout, result)) ∧
    (now.ticks * 1000000 ≤ t.ns → t.ns ≤ (now.ticks + 4294967295) * 1000000 →
      ∃ d, t.toDeltaTicks (clockGettime now) result = (.ok, d) ∧
        t.ns ≤ (now.ticks + d.toNat) * 1000000 ∧
        ∀ k : ℕ, t.ns ≤ (now.ticks + k) * 1000000 → d.toNat ≤ k) ∧
    ((now.ticks + 4294967295) * 1000000 < t.ns →
      (t.toDeltaTicks (clockGettime now) result).1 = .einval) := by
  obtain ⟨hns, hclock⟩ := clockGettime_spec hpos hlt
  have hsec : 0 ≤ (clockGettime now).tvSec.toInt := by
    have hrange := (valid_iff _).1 hclock
    rw [ns] at hns
    omega
  have hlater : now.ticks * 1000000 ≤ t.ns → ∃ d, t.subtract (clockGettime now) = .ok d ∧
      d.Valid ∧ d.ns = t.ns - now.ticks * 1000000 ∧ 0 ≤ d.tvSec.toInt ∧
      d.tvSec.toInt ≤ 9007199254740992 := by
    intro hle
    obtain ⟨d, hd, hdv, hdns, hdsec⟩ := subtract_eq hv hclock hsec (by omega)
    rw [hns] at hdns
    have hrange := (valid_iff d).1 hdv
    refine ⟨d, hd, hdv, hdns, ?_, Int.le_trans hdsec hmax⟩
    rw [ns] at hdns
    omega
  rw [toDeltaTicks]
  refine ⟨fun hpast => ?_, fun hle hfar => ?_, fun hfar => ?_⟩
  · have hcompare := (compare_eq_neg_one_iff hv hclock).2 (hns ▸ hpast)
    rw [subtract, if_pos hcompare]
    rfl
  · obtain ⟨d, hd, hdv, hdns, hdpos, hdmax⟩ := hlater hle
    obtain ⟨n, hn, hn', hok, -⟩ := toTicks_eq hdv hdpos hdmax result
    rw [hd]
    have hfits : n ≤ 4294967295 := by omega
    have hval : (UInt32.ofNat n).toNat = n := by
      rw [UInt32.toNat_ofNat']
      omega
    refine ⟨UInt32.ofNat n, hok hfits, ?_, fun k hk => ?_⟩
    · rw [hval]
      omega
    · rw [hval]
      omega
  · obtain ⟨d, hd, hdv, hdns, hdpos, hdmax⟩ := hlater (by omega)
    obtain ⟨n, hn, hn', -, herror⟩ := toTicks_eq hdv hdpos hdmax result
    rw [hd]
    exact herror (by omega)

/-- A second and a half after the start, a wait until three seconds and one nanosecond. -/
theorem toDeltaTicks_deadline_three :
    ∃ d, (Timespec.mk 3 1).toDeltaTicks (clockGettime ⟨0, 1500⟩) 0 = (.ok, d) ∧
      (Timespec.mk 3 1).ns ≤ ((TimeOut.mk 0 1500).ticks + d.toNat) * 1000000 ∧
      ∀ k : ℕ, (Timespec.mk 3 1).ns ≤ ((TimeOut.mk 0 1500).ticks + k) * 1000000 → d.toNat ≤ k :=
  (toDeltaTicks_deadline (by decide) (by decide) (by decide) (by decide) 0).2.1
    (by decide) (by decide)

end Timespec

end Catpilot
