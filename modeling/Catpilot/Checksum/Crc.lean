import Mathlib.Algebra.Field.ZMod
import Mathlib.Algebra.Polynomial.Div
import Mathlib.Algebra.Polynomial.FieldDivision
import Mathlib.Tactic.LinearCombination

/-!
# Cyclic redundancy checks

A register of `w` bits divides the bits that are fed into it, most significant first, by a
monic polynomial of degree `w` over the field of two elements. `taps` are the coefficients
below the leading one. The value of the register is the remainder of the bits, followed by
`w` zeros; a change of at most `w` bits in a row therefore changes it, as soon as the
polynomial has a constant term.
-/

open Polynomial

namespace Checksum

/-! ## Bits as coefficients -/

/-- A bit as an element of the field. -/
def bitVal (b : Bool) : ZMod 2 := if b then 1 else 0

@[simp] theorem bitVal_false : bitVal false = 0 := rfl

@[simp] theorem bitVal_true : bitVal true = 1 := rfl

theorem bitVal_xor (a b : Bool) : bitVal (a ^^ b) = bitVal a + bitVal b := by
  cases a with
  | false => simp
  | true =>
      cases b with
      | false => simp
      | true => exact (CharTwo.add_self_eq_zero (1 : ZMod 2)).symm

theorem bitVal_injective : Function.Injective bitVal := by
  intro a b h
  cases a with
  | false =>
      cases b with
      | false => rfl
      | true => exact absurd h zero_ne_one
  | true =>
      cases b with
      | false => exact absurd h one_ne_zero
      | true => rfl

/-- Bits as a polynomial, the coefficient of the highest power first. -/
noncomputable def bitsPoly : List Bool → (ZMod 2)[X]
  | [] => 0
  | b :: bits => C (bitVal b) * X ^ bits.length + bitsPoly bits

@[simp] theorem bitsPoly_nil : bitsPoly [] = 0 := rfl

theorem bitsPoly_cons (b : Bool) (bits : List Bool) :
    bitsPoly (b :: bits) = C (bitVal b) * X ^ bits.length + bitsPoly bits := rfl

theorem bitsPoly_append (l m : List Bool) :
    bitsPoly (l ++ m) = bitsPoly l * X ^ m.length + bitsPoly m := by
  induction l with
  | nil => simp
  | cons b l ih =>
      rw [List.cons_append, bitsPoly_cons, bitsPoly_cons, ih, List.length_append, pow_add]
      ring

@[simp] theorem bitsPoly_replicate_false (n : ℕ) : bitsPoly (List.replicate n false) = 0 := by
  induction n with
  | zero => rfl
  | succ n ih => rw [List.replicate_succ, bitsPoly_cons, ih, bitVal_false, C_0, zero_mul, zero_add]

theorem bitsPoly_zipWith_xor {l m : List Bool} (h : l.length = m.length) :
    bitsPoly (List.zipWith xor l m) = bitsPoly l + bitsPoly m := by
  induction l generalizing m with
  | nil =>
      cases m with
      | nil => simp
      | cons b m => cases h
  | cons a l ih =>
      cases m with
      | nil => cases h
      | cons b m =>
          have hlen : l.length = m.length := Nat.succ.inj h
          rw [List.zipWith_cons_cons, bitsPoly_cons, bitsPoly_cons, bitsPoly_cons, ih hlen,
            List.length_zipWith, hlen, Nat.min_self, bitVal_xor, C_add]
          ring

theorem zipWith_xor_replicate_false {l : List Bool} {n : ℕ} (h : l.length = n) :
    List.zipWith xor l (List.replicate n false) = l := by
  subst h
  induction l with
  | nil => rfl
  | cons b l ih =>
      rw [List.length_cons, List.replicate_succ, List.zipWith_cons_cons, ih, Bool.xor_false]

/-- A way of writing things as bits that respects a sum does so for lists of things. -/
theorem flatMap_zipWith_xor {α : Type*} {f : α → List Bool} {g : α → α → α} {n : ℕ}
    (hlen : ∀ a, (f a).length = n) (hop : ∀ a b, f (g a b) = List.zipWith xor (f a) (f b))
    {l m : List α} (h : l.length = m.length) :
    (List.zipWith g l m).flatMap f = List.zipWith xor (l.flatMap f) (m.flatMap f) := by
  induction l generalizing m with
  | nil => rfl
  | cons a l ih =>
      cases m with
      | nil => cases h
      | cons b m =>
          rw [List.zipWith_cons_cons, List.flatMap_cons, List.flatMap_cons, List.flatMap_cons,
            List.zipWith_append ((hlen a).trans (hlen b).symm), ih (Nat.succ.inj h), hop]

theorem degree_bitsPoly_lt (bits : List Bool) : (bitsPoly bits).degree < bits.length := by
  induction bits with
  | nil => exact (degree_zero (R := ZMod 2)).trans_lt (WithBot.bot_lt_coe _)
  | cons b bits ih =>
      have hlt : ((bits.length : ℕ) : WithBot ℕ) < (b :: bits).length :=
        Nat.cast_lt.2 (Nat.lt_succ_self _)
      apply (degree_add_le _ _).trans_lt
      exact max_lt ((degree_C_mul_X_pow_le _ _).trans_lt hlt) (ih.trans hlt)

/-- Only zeros make the zero polynomial. -/
theorem not_mem_of_bitsPoly_eq_zero {bits : List Bool} (h : bitsPoly bits = 0) :
    true ∉ bits := by
  induction bits with
  | nil => exact List.not_mem_nil
  | cons b bits ih =>
      rw [bitsPoly_cons] at h
      have hlead := congrArg (coeff · bits.length) h
      rw [coeff_add, coeff_C_mul, coeff_X_pow_self, mul_one,
        coeff_eq_zero_of_degree_lt (degree_bitsPoly_lt bits), add_zero, coeff_zero] at hlead
      have hb : b = false := bitVal_injective hlead
      rw [hb, bitVal_false, C_0, zero_mul, zero_add] at h
      rw [hb, List.mem_cons]
      rintro (htrue | hmem)
      · cases htrue
      · exact ih h hmem

section Register

variable {w : ℕ}

/-- A register as a polynomial; bit `i` is the coefficient of `X ^ i`. -/
noncomputable def regPoly (c : BitVec w) : (ZMod 2)[X] :=
  ∑ i ∈ Finset.range w, C (bitVal (c.getLsbD i)) * X ^ i

@[simp] theorem coeff_regPoly (c : BitVec w) (i : ℕ) :
    (regPoly c).coeff i = bitVal (c.getLsbD i) := by
  rw [regPoly, finsetSum_coeff]
  simp only [coeff_C_mul, coeff_X_pow, mul_ite, mul_one, mul_zero, Finset.sum_ite_eq,
    Finset.mem_range]
  by_cases hi : i < w
  · rw [if_pos hi]
  · rw [if_neg hi, BitVec.getLsbD_of_ge c i (Nat.le_of_not_lt hi), bitVal_false]

theorem regPoly_xor (c d : BitVec w) : regPoly (c ^^^ d) = regPoly c + regPoly d := by
  ext i
  rw [coeff_add, coeff_regPoly, coeff_regPoly, coeff_regPoly, BitVec.getLsbD_xor, bitVal_xor]

@[simp] theorem regPoly_zero : regPoly (0 : BitVec w) = 0 := by
  ext i
  simp

theorem regPoly_injective : Function.Injective (regPoly (w := w)) := by
  intro c d h
  apply BitVec.eq_of_getLsbD_eq
  intro i _
  have hcoeff := congrArg (coeff · i) h
  rw [coeff_regPoly, coeff_regPoly] at hcoeff
  exact bitVal_injective hcoeff

theorem degree_regPoly_lt (c : BitVec w) : (regPoly c).degree < w := by
  rw [degree_lt_iff_coeff_zero]
  intro i hi
  rw [coeff_regPoly, BitVec.getLsbD_of_ge c i hi, bitVal_false]

/-- The bits of a register, most significant first. -/
def regBits (c : BitVec w) : List Bool := (List.range w).reverse.map c.getLsbD

@[simp] theorem length_regBits (c : BitVec w) : (regBits c).length = w := by
  simp [regBits]

theorem bitsPoly_map_reverse_range (f : ℕ → Bool) (n : ℕ) :
    bitsPoly ((List.range n).reverse.map f) = ∑ i ∈ Finset.range n, C (bitVal (f i)) * X ^ i := by
  induction n with
  | zero => rfl
  | succ n ih =>
      rw [List.range_succ, List.reverse_append, List.reverse_singleton, List.singleton_append,
        List.map_cons, bitsPoly_cons, ih, List.length_map, List.length_reverse, List.length_range,
        Finset.sum_range_succ, add_comm]

@[simp] theorem bitsPoly_regBits (c : BitVec w) : bitsPoly (regBits c) = regPoly c :=
  bitsPoly_map_reverse_range c.getLsbD w

theorem regBits_xor (c d : BitVec w) :
    regBits (c ^^^ d) = List.zipWith xor (regBits c) (regBits d) := by
  rw [regBits, regBits, regBits, List.zipWith_map, List.zipWith_self]
  apply List.map_congr_left
  intro i _
  exact BitVec.getLsbD_xor

/-! ## Division -/

/-- The polynomial that a register divides by. -/
noncomputable def generator (taps : BitVec w) : (ZMod 2)[X] := X ^ w + regPoly taps

theorem monic_generator (taps : BitVec w) : (generator taps).Monic :=
  monic_X_pow_add (degree_regPoly_lt taps)

theorem degree_generator (taps : BitVec w) : (generator taps).degree = w := by
  rw [generator, degree_add_eq_left_of_degree_lt, degree_X_pow]
  rw [degree_X_pow]
  exact degree_regPoly_lt taps

/-- One bit fed into a register. -/
def crcStep (taps c : BitVec w) (b : Bool) : BitVec w :=
  if c.msb ^^ b then (c <<< 1) ^^^ taps else c <<< 1

/-- Bits fed into a register. -/
def crcBits (taps : BitVec w) : BitVec w → List Bool → BitVec w := List.foldl (crcStep taps)

/-- The checksum of a list of bits, from an empty register. -/
def crc (taps : BitVec w) (bits : List Bool) : BitVec w := crcBits taps 0 bits

variable (taps : BitVec w)

theorem crcBits_cons (c : BitVec w) (b : Bool) (bits : List Bool) :
    crcBits taps c (b :: bits) = crcBits taps (crcStep taps c b) bits := rfl

theorem crcBits_append (c : BitVec w) (l m : List Bool) :
    crcBits taps c (l ++ m) = crcBits taps (crcBits taps c l) m := List.foldl_append

theorem regPoly_shiftLeft (c : BitVec w) :
    X * regPoly c = regPoly (c <<< 1) + C (bitVal c.msb) * X ^ w := by
  ext i
  rw [coeff_add, coeff_C_mul, coeff_X_pow, coeff_regPoly, BitVec.getLsbD_shiftLeft,
    BitVec.msb_eq_getLsbD_last]
  cases i with
  | zero =>
      by_cases hw : w = 0
      · subst hw
        simp
      · simp [Ne.symm hw]
  | succ i =>
      rw [coeff_X_mul, coeff_regPoly]
      by_cases hi : i + 1 < w
      · simp [hi, Nat.ne_of_lt hi]
      · by_cases heq : i + 1 = w
        · subst heq
          simp
        · have hle : w ≤ i := by omega
          simp [hi, heq, BitVec.getLsbD_of_ge c i hle]

/-- A step is one step of the long division. -/
theorem regPoly_crcStep (c : BitVec w) (b : Bool) :
    regPoly c * X + C (bitVal b) * X ^ w =
      regPoly (crcStep taps c b) + C (bitVal (c.msb ^^ b)) * generator taps := by
  have hshift : regPoly c * X + C (bitVal b) * X ^ w =
      regPoly (c <<< 1) + C (bitVal (c.msb ^^ b)) * X ^ w := by
    rw [mul_comm, regPoly_shiftLeft, bitVal_xor, C_add]
    ring
  rw [hshift, crcStep, generator]
  cases c.msb ^^ b with
  | false => simp
  | true =>
      -- the taps are added twice
      have htwice : regPoly taps + regPoly taps = 0 := CharTwo.add_self_eq_zero _
      rw [if_pos rfl, regPoly_xor, bitVal_true, C_1, one_mul, one_mul]
      linear_combination -htwice

/-- The register holds the remainder of what has been fed in. -/
theorem regPoly_crcBits (c : BitVec w) (bits : List Bool) :
    regPoly (crcBits taps c bits) =
      (regPoly c * X ^ bits.length + bitsPoly bits * X ^ w) %ₘ generator taps := by
  suffices h : ∃ q, regPoly (crcBits taps c bits) + generator taps * q =
      regPoly c * X ^ bits.length + bitsPoly bits * X ^ w by
    obtain ⟨q, hq⟩ := h
    have hdegree := degree_regPoly_lt (crcBits taps c bits)
    rw [← degree_generator taps] at hdegree
    exact (div_modByMonic_unique q _ (monic_generator taps) ⟨hq, hdegree⟩).2.symm
  induction bits generalizing c with
  | nil => exact ⟨0, by simp [crcBits]⟩
  | cons b bits ih =>
      obtain ⟨q, hq⟩ := ih (crcStep taps c b)
      have hstep := regPoly_crcStep taps c b
      refine ⟨q + C (bitVal (c.msb ^^ b)) * X ^ bits.length, ?_⟩
      rw [crcBits_cons, bitsPoly_cons, List.length_cons, pow_succ']
      linear_combination hq - X ^ bits.length * hstep

/-- The checksum is the remainder of the bits, followed by `w` zeros. -/
theorem regPoly_crc (bits : List Bool) :
    regPoly (crc taps bits) = (bitsPoly bits * X ^ w) %ₘ generator taps := by
  rw [crc, regPoly_crcBits, regPoly_zero, zero_mul, zero_add]

/-- The bits of a word fed in, or the word added at once and as many zeros fed in. -/
theorem crcBits_regBits (c d : BitVec w) :
    crcBits taps c (regBits d) = crcBits taps (c ^^^ d) (List.replicate w false) := by
  apply regPoly_injective
  rw [regPoly_crcBits, regPoly_crcBits, bitsPoly_regBits, bitsPoly_replicate_false, regPoly_xor,
    length_regBits, List.length_replicate, zero_mul, add_zero, add_mul]

/-- Checksums are linear. -/
theorem crc_zipWith_xor {l m : List Bool} (h : l.length = m.length) :
    crc taps (List.zipWith xor l m) = crc taps l ^^^ crc taps m := by
  apply regPoly_injective
  rw [regPoly_xor, regPoly_crc, regPoly_crc, regPoly_crc, bitsPoly_zipWith_xor h, add_mul,
    add_modByMonic]

/-! ## Bursts -/

/-- Bits that are zero outside of `n` consecutive ones, and not all zero. -/
def IsBurst (n : ℕ) (bits : List Bool) : Prop :=
  true ∈ bits ∧ ∃ k m b, bits = List.replicate k false ++ b ++ List.replicate m false ∧ b.length ≤ n

/-- A burst behind bits that are zero. -/
theorem IsBurst.replicate_append {n : ℕ} {bits : List Bool} (h : IsBurst n bits) (j : ℕ) :
    IsBurst n (List.replicate j false ++ bits) := by
  obtain ⟨hmem, k, m, b, rfl, hlen⟩ := h
  refine ⟨List.mem_append_right _ hmem, j + k, m, b, ?_, hlen⟩
  rw [List.replicate_add, List.append_assoc, List.append_assoc, List.append_assoc]

/-- A burst before bits that are zero. -/
theorem IsBurst.append_replicate {n : ℕ} {bits : List Bool} (h : IsBurst n bits) (j : ℕ) :
    IsBurst n (bits ++ List.replicate j false) := by
  obtain ⟨hmem, k, m, b, rfl, hlen⟩ := h
  refine ⟨List.mem_append_left _ hmem, k, m + j, b, ?_, hlen⟩
  rw [List.replicate_add, List.append_assoc, List.append_assoc]

/-- With a constant term, the polynomial has no factor in common with a power of `X`. -/
theorem isCoprime_generator_X (h : taps.getLsbD 0 = true) : IsCoprime (generator taps) X := by
  have hconst : (generator taps).coeff 0 = 1 := by
    have hw : w ≠ 0 := by
      rintro rfl
      rw [BitVec.getLsbD_of_ge taps 0 (Nat.le_refl 0)] at h
      cases h
    rw [generator, coeff_add, coeff_X_pow, if_neg (Ne.symm hw), coeff_regPoly, h, bitVal_true,
      zero_add]
  have hdiv := divX_mul_X_add (generator taps)
  rw [hconst, C_1] at hdiv
  exact ⟨1, -(generator taps).divX, by linear_combination -hdiv⟩

/-- No burst that fits into the register has the checksum zero. -/
theorem crc_ne_zero_of_isBurst (h : taps.getLsbD 0 = true) {bits : List Bool}
    (hburst : IsBurst w bits) : crc taps bits ≠ 0 := by
  obtain ⟨hmem, k, m, b, rfl, hlen⟩ := hburst
  intro hzero
  have hdvd : generator taps ∣ bitsPoly b * (X ^ m * X ^ w) := by
    rw [← modByMonic_eq_zero_iff_dvd (monic_generator taps), ← mul_assoc]
    have hcrc := regPoly_crc taps (List.replicate k false ++ b ++ List.replicate m false)
    rw [hzero, regPoly_zero, bitsPoly_append, bitsPoly_append, bitsPoly_replicate_false,
      bitsPoly_replicate_false, zero_mul, zero_add, add_zero, List.length_replicate] at hcrc
    exact hcrc.symm
  have hcoprime := isCoprime_generator_X taps h
  have hb : generator taps ∣ bitsPoly b :=
    (hcoprime.pow_right.mul_right hcoprime.pow_right).dvd_of_dvd_mul_right hdvd
  have hdegree : (bitsPoly b).degree < (generator taps).degree := by
    rw [degree_generator]
    exact (degree_bitsPoly_lt b).trans_le (Nat.cast_le.2 hlen)
  have hnot := not_mem_of_bitsPoly_eq_zero (eq_zero_of_dvd_of_degree_lt hb hdegree)
  rw [List.mem_append, List.mem_append] at hmem
  rcases hmem with (hmem | hmem) | hmem
  · cases List.eq_of_mem_replicate hmem
  · exact hnot hmem
  · cases List.eq_of_mem_replicate hmem

/-- A burst that fits into the register changes the checksum. -/
theorem crc_xor_isBurst_ne (h : taps.getLsbD 0 = true) {l bits : List Bool}
    (hlen : l.length = bits.length) (hburst : IsBurst w bits) :
    crc taps (List.zipWith xor l bits) ≠ crc taps l := by
  intro heq
  rw [crc_zipWith_xor taps hlen] at heq
  apply crc_ne_zero_of_isBurst taps h hburst
  have hcancel := congrArg (crc taps l ^^^ ·) heq
  rwa [← BitVec.xor_assoc, BitVec.xor_self, BitVec.zero_xor] at hcancel

end Register

end Checksum
