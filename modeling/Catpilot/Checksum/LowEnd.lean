import Catpilot.Checksum.Crc

/-!
# Checksums in a register that is filled from its low end

A register may get its bits a few at a time, added to its low end and followed by as many
shifts. Behind the polynomial it divides by there may also be zeros. Where these two make up
for each other, the register holds the checksum of the bits at its high end.
-/

open Polynomial

namespace Checksum

section Register

variable {w : ℕ}

/-- A word added to a register, which is then shifted `n` times. -/
def crcLow (taps : BitVec w) (n : ℕ) (c d : BitVec w) : BitVec w :=
  crcBits taps (c ^^^ d) (List.replicate n false)

/-- The `n` low bits of a word, the most significant of them first. -/
def lowBits (n : ℕ) (d : BitVec w) : List Bool := (List.range n).reverse.map d.getLsbD

@[simp] theorem length_lowBits (n : ℕ) (d : BitVec w) : (lowBits n d).length = n := by
  simp [lowBits]

theorem lowBits_xor (n : ℕ) (c d : BitVec w) :
    lowBits n (c ^^^ d) = List.zipWith xor (lowBits n c) (lowBits n d) := by
  rw [lowBits, lowBits, lowBits, List.zipWith_map, List.zipWith_self]
  apply List.map_congr_left
  intro i _
  exact BitVec.getLsbD_xor

theorem lowBits_add (m n : ℕ) (d : BitVec w) :
    lowBits (m + n) d = lowBits m (d >>> n) ++ lowBits n d := by
  rw [lowBits, lowBits, lowBits, Nat.add_comm m n, List.range_add, List.reverse_append,
    List.map_append, ← List.map_reverse, List.map_map]
  congr 1
  apply List.map_congr_left
  intro i _
  rw [Function.comp_apply, BitVec.getLsbD_ushiftRight]

/-- A word without bits above the `n` low ones, as a polynomial. -/
theorem bitsPoly_lowBits {n : ℕ} {d : BitVec w} (h : ∀ i, n ≤ i → d.getLsbD i = false) :
    bitsPoly (lowBits n d) = regPoly d := by
  ext i
  rw [lowBits, bitsPoly_map_reverse_range, finsetSum_coeff, coeff_regPoly]
  simp only [coeff_C_mul, coeff_X_pow, mul_ite, mul_one, mul_zero, Finset.sum_ite_eq,
    Finset.mem_range]
  by_cases hi : i < n
  · rw [if_pos hi]
  · rw [if_neg hi, h i (Nat.le_of_not_lt hi), bitVal_false]

theorem regPoly_crcLow (taps : BitVec w) (n : ℕ) (c d : BitVec w) :
    regPoly (crcLow taps n c d) = ((regPoly c + regPoly d) * X ^ n) %ₘ generator taps := by
  rw [crcLow, regPoly_crcBits, regPoly_xor, bitsPoly_replicate_false, zero_mul, add_zero,
    List.length_replicate]

/-- What has been added to a register, as the bits that are left of it. -/
theorem regPoly_foldl_crcLow (taps : BitVec w) {n : ℕ} {ds : List (BitVec w)}
    (h : ∀ d ∈ ds, ∀ i, n ≤ i → d.getLsbD i = false) (c : BitVec w) :
    regPoly (ds.foldl (crcLow taps n) c) =
      (regPoly c * X ^ (n * ds.length) + bitsPoly (ds.flatMap (lowBits n)) * X ^ n) %ₘ
        generator taps := by
  induction ds generalizing c with
  | nil =>
      have hself := regPoly_crcBits taps c []
      rw [List.length_nil, pow_zero, mul_one] at hself
      rw [List.foldl_nil, List.length_nil, Nat.mul_zero, pow_zero, mul_one, List.flatMap_nil,
        bitsPoly_nil, zero_mul]
      rw [bitsPoly_nil, zero_mul] at hself
      exact hself
  | cons d ds ih =>
      have hlen : (ds.flatMap (lowBits n)).length = n * ds.length := by
        rw [List.length_flatMap, List.map_congr_left fun d _ => length_lowBits n d,
          List.map_const', List.sum_replicate, smul_eq_mul, Nat.mul_comm]
      rw [List.foldl_cons, ih fun d hd => h d (List.mem_cons_of_mem _ hd), List.flatMap_cons,
        bitsPoly_append, bitsPoly_lowBits (h d List.mem_cons_self), hlen, List.length_cons,
        Nat.mul_succ, regPoly_crcLow]
      apply modByMonic_eq_of_dvd_sub (monic_generator taps)
      -- the remainder and what it is the remainder of
      have hdvd := dvd_modByMonic_sub ((regPoly c + regPoly d) * X ^ n) (generator taps)
      have hmul := hdvd.mul_right (X ^ (n * ds.length))
      have hring : ((regPoly c + regPoly d) * X ^ n %ₘ generator taps -
            (regPoly c + regPoly d) * X ^ n) * X ^ (n * ds.length) =
          (regPoly c + regPoly d) * X ^ n %ₘ generator taps * X ^ (n * ds.length) +
              bitsPoly (ds.flatMap (lowBits n)) * X ^ n -
            (regPoly c * X ^ (n * ds.length + n) +
              (regPoly d * X ^ (n * ds.length) + bitsPoly (ds.flatMap (lowBits n))) * X ^ n) := by
        ring
      rwa [hring] at hmul

end Register

section Padded

variable {v : ℕ} (k : ℕ)

/-- A register at the high end of a wider one. -/
def padReg (c : BitVec v) : BitVec (v + k) := c.setWidth (v + k) <<< k

theorem getLsbD_padReg (c : BitVec v) (i : ℕ) :
    (padReg k c).getLsbD i = (decide (k ≤ i) && c.getLsbD (i - k)) := by
  rw [padReg, BitVec.getLsbD_shiftLeft, BitVec.getLsbD_setWidth]
  by_cases hlow : k ≤ i
  · by_cases hhigh : i < v + k
    · simp [hlow, hhigh, Nat.not_lt.2 hlow]
      omega
    · have hge : v ≤ i - k := by omega
      simp [hhigh, BitVec.getLsbD_of_ge c _ hge]
  · simp [hlow, Nat.lt_of_not_le hlow]

theorem regPoly_padReg (c : BitVec v) : regPoly (padReg k c) = regPoly c * X ^ k := by
  ext i
  rw [coeff_regPoly, getLsbD_padReg, coeff_mul_X_pow']
  by_cases hlow : k ≤ i
  · rw [if_pos hlow, decide_eq_true hlow, Bool.true_and, coeff_regPoly]
  · rw [if_neg hlow, decide_eq_false hlow, Bool.false_and, bitVal_false]

theorem generator_padReg (taps : BitVec v) :
    generator (padReg k taps) = generator taps * X ^ k := by
  rw [generator, generator, regPoly_padReg, add_mul, pow_add]

theorem mul_X_pow_modByMonic (taps : BitVec v) (p : (ZMod 2)[X]) :
    (p * X ^ k) %ₘ generator (padReg k taps) = (p %ₘ generator taps) * X ^ k := by
  have hdiv := modByMonic_add_div p (generator taps)
  have hpad : p %ₘ generator taps * X ^ k + generator (padReg k taps) * (p /ₘ generator taps) =
      p * X ^ k := by
    rw [generator_padReg]
    linear_combination X ^ k * hdiv
  refine (div_modByMonic_unique (p /ₘ generator taps) _ (monic_generator _) ⟨hpad, ?_⟩).2
  have hlt := degree_modByMonic_lt p (monic_generator taps)
  rw [generator_padReg, degree_mul, degree_mul, degree_X_pow]
  exact WithBot.add_lt_add_right (WithBot.natCast_ne_bot k) hlt

/-- Words added to the low end of a padded register, of which the last bits are zeros: where
these and the padding make up for the width, the checksum is at the high end. -/
theorem foldl_crcLow_padReg (taps : BitVec v) {n z : ℕ} (hz : z + n = v + k)
    {ds : List (BitVec (v + k))} (h : ∀ d ∈ ds, ∀ i, n ≤ i → d.getLsbD i = false)
    {bits : List Bool} (hbits : ds.flatMap (lowBits n) = bits ++ List.replicate z false) :
    ds.foldl (crcLow (padReg k taps) n) 0 = padReg k (crc taps bits) := by
  apply regPoly_injective
  rw [regPoly_foldl_crcLow _ h, regPoly_zero, zero_mul, zero_add, hbits, bitsPoly_append,
    bitsPoly_replicate_false, add_zero, List.length_replicate, mul_assoc, ← pow_add, hz, pow_add,
    ← mul_assoc, mul_X_pow_modByMonic, ← regPoly_crc, regPoly_padReg]

end Padded

end Checksum
