import Catpilot.Memory.Bits

/-!
# Packed fields

A word as a vector of fields of `b` bits each. Clearing a field by its mask and setting the
bits of a value at its place changes this field and no other one. A word that goes through a
narrower one loses the fields that are not in it.
-/

namespace PackedFields

open Bits

/-- The field of a word with a number. -/
def field {w : ℕ} (b : ℕ) (x : BitVec w) (t : ℕ) : BitVec b := x.extractLsb' (b * t) b

/-- The mask of the field with a number. -/
def mask (w b t : ℕ) : BitVec w := BitVec.ofNat w (2 ^ b - 1) <<< (b * t)

section Fields

variable {w b : ℕ} (x y v : BitVec w) {t d : ℕ}

theorem getLsbD_field {r : ℕ} (hr : r < b) :
    (field b x t).getLsbD r = x.getLsbD (b * t + r) := by
  rw [field, BitVec.getLsbD_extractLsb', decide_eq_true hr, Bool.true_and]

/-- The bit of a field is at a place of no other field. -/
theorem place_iff {r : ℕ} (hr : r < b) :
    b * t ≤ b * d + r ∧ b * d + r - b * t < b ↔ d = t := by
  have hb : 0 < b := Nat.lt_of_le_of_lt (Nat.zero_le r) hr
  have hd : (b * d + r) / b = d := by
    rw [Nat.mul_add_div hb, Nat.div_eq_of_lt hr, Nat.add_zero]
  constructor
  · rintro ⟨hle, hlt⟩
    rw [← hd]
    apply Nat.div_eq_of_lt_le
    · rwa [Nat.mul_comm]
    · rw [Nat.succ_mul, Nat.mul_comm t b]
      omega
  · intro h
    rw [h, Nat.add_sub_cancel_left]
    exact ⟨Nat.le_add_right _ _, hr⟩

theorem field_or : field b (x ||| y) d = field b x d ||| field b y d := by
  apply BitVec.eq_of_getLsbD_eq
  intro r hr
  rw [getLsbD_field _ hr, BitVec.getLsbD_or, BitVec.getLsbD_or, getLsbD_field _ hr,
    getLsbD_field _ hr]

/-- A bit of the mask of a field is set when it is in the field. -/
theorem getLsbD_mask {r : ℕ} (hr : r < b) (hw : b * d + r < w) :
    (mask w b t).getLsbD (b * d + r) = decide (d = t) := by
  rw [mask, BitVec.getLsbD_shiftLeft, BitVec.getLsbD_ofNat, Nat.testBit_two_pow_sub_one,
    decide_eq_true hw, Bool.true_and]
  have hsub : b * d + r - b * t < w := Nat.lt_of_le_of_lt (Nat.sub_le _ _) hw
  rw [decide_eq_true hsub, Bool.true_and, ← decide_not, ← Bool.decide_and, decide_eq_decide,
    Nat.not_lt, place_iff hr]

/-- The field of a mask is cleared. -/
theorem field_clear_self : field b (x &&& ~~~mask w b t) t = 0 := by
  apply BitVec.eq_of_getLsbD_eq
  intro r hr
  rw [getLsbD_field _ hr, BitVec.getLsbD_and, BitVec.getLsbD_not]
  by_cases hw : b * t + r < w
  · rw [getLsbD_mask hr hw, decide_eq_true (rfl : t = t), Bool.not_true, Bool.and_false,
      Bool.and_false]
    exact BitVec.getLsbD_zero.symm
  · rw [decide_eq_false hw, Bool.false_and, Bool.and_false]
    exact BitVec.getLsbD_zero.symm

/-- Another field is kept. -/
theorem field_clear_of_ne (hd : d ≠ t) :
    field b (x &&& ~~~mask w b t) d = field b x d := by
  apply BitVec.eq_of_getLsbD_eq
  intro r hr
  rw [getLsbD_field _ hr, getLsbD_field _ hr, BitVec.getLsbD_and, BitVec.getLsbD_not]
  by_cases hw : b * d + r < w
  · rw [getLsbD_mask hr hw, decide_eq_false hd, decide_eq_true hw]
    exact Bool.and_true _
  · rw [BitVec.getLsbD_of_ge x _ (Nat.le_of_not_lt hw), Bool.false_and]

/-- A value at the place of a field is in this field. -/
theorem field_shift_self (hw : b * (t + 1) ≤ w) :
    field b (v <<< (b * t)) t = v.setWidth b := by
  apply BitVec.eq_of_getLsbD_eq
  intro r hr
  have hlt : b * t + r < w := by
    rw [Nat.mul_succ] at hw
    omega
  have hge : ¬ b * t + r < b * t := Nat.not_lt.2 (Nat.le_add_right _ _)
  rw [getLsbD_field _ hr, BitVec.getLsbD_shiftLeft, BitVec.getLsbD_setWidth,
    decide_eq_true hlt, decide_eq_false hge, decide_eq_true hr, Nat.add_sub_cancel_left]
  rfl

/-- A value at the place of a field is in no other field. -/
theorem field_shift_of_ne (hv : v.toNat < 2 ^ b) (hd : d ≠ t) : field b (v <<< (b * t)) d = 0 := by
  apply BitVec.eq_of_getLsbD_eq
  intro r hr
  have hbit : (v <<< (b * t)).getLsbD (b * d + r) = false := by
    rw [BitVec.getLsbD_shiftLeft]
    by_cases hle : b * t ≤ b * d + r
    · have hout : b ≤ b * d + r - b * t := by
        apply Nat.le_of_not_lt
        intro hin
        exact hd ((place_iff hr).1 ⟨hle, hin⟩)
      rw [getLsbD_eq_false_of_lt hv hout, Bool.and_false]
    · rw [decide_eq_true (Nat.lt_of_not_le hle), Bool.not_true, Bool.and_false, Bool.false_and]
  rw [getLsbD_field _ hr, hbit]
  exact BitVec.getLsbD_zero.symm

/-! ## Narrower words -/

variable {n : ℕ}

theorem field_narrow (hn : b * (d + 1) ≤ n) (hw : n ≤ w) :
    field b ((x.setWidth n).setWidth w) d = field b x d := by
  apply BitVec.eq_of_getLsbD_eq
  intro r hr
  rw [Nat.mul_succ] at hn
  have hlt : b * d + r < n := by omega
  have hlt' : b * d + r < w := by omega
  rw [getLsbD_field _ hr, getLsbD_field _ hr, BitVec.getLsbD_setWidth,
    BitVec.getLsbD_setWidth, decide_eq_true hlt, decide_eq_true hlt', Bool.true_and,
    Bool.true_and]

theorem field_narrow_of_le (hn : n ≤ b * d) :
    field b ((x.setWidth n).setWidth w) d = 0 := by
  apply BitVec.eq_of_getLsbD_eq
  intro r hr
  have hge : ¬ b * d + r < n := by omega
  rw [getLsbD_field _ hr, BitVec.getLsbD_setWidth, BitVec.getLsbD_setWidth,
    decide_eq_false hge, Bool.false_and, Bool.and_false]
  exact BitVec.getLsbD_zero.symm

end Fields

end PackedFields
