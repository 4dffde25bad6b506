import Mathlib.Data.BitVec
import Mathlib.Data.List.Basic

/-!
# Bits of words

The bits of words that are put together with masks, shifts and disjunctions: of a word with a
mask for its low bits, of a wider word, of a value below a power of two, and of the bytes of a
value from the highest one on.
-/

namespace Bits

theorem getLsbD_mask {w n : ℕ} (x : BitVec w) (i : ℕ) :
    (x &&& BitVec.ofNat w (2 ^ n - 1)).getLsbD i = (x.getLsbD i && decide (i < n)) := by
  rw [BitVec.getLsbD_and, BitVec.getLsbD_ofNat, Nat.testBit_two_pow_sub_one]
  by_cases hi : i < w
  · rw [decide_eq_true hi, Bool.true_and]
  · rw [BitVec.getLsbD_of_ge x i (Nat.le_of_not_lt hi), Bool.false_and, Bool.false_and]

theorem getLsbD_setWidth_of_le {v w : ℕ} (h : v ≤ w) (x : BitVec v) (i : ℕ) :
    (x.setWidth w).getLsbD i = x.getLsbD i := by
  rw [BitVec.getLsbD_setWidth]
  by_cases hi : i < w
  · rw [decide_eq_true hi, Bool.true_and]
  · rw [decide_eq_false hi, Bool.false_and, BitVec.getLsbD_of_ge x i (by omega)]

theorem getLsbD_eq_false_of_lt {w n i : ℕ} {x : BitVec w} (hx : x.toNat < 2 ^ n) (hi : n ≤ i) :
    x.getLsbD i = false :=
  Nat.testBit_lt_two_pow (Nat.lt_of_lt_of_le hx (Nat.pow_le_pow_right Nat.two_pos hi))

/-! ## Bytes -/

/-- The value of bytes, the first one the highest. -/
def bytesValue (bytes : List (BitVec 8)) : BitVec 32 :=
  (List.range bytes.length).foldl (fun rv i =>
    rv ||| (bytes.getD i 0).setWidth 32 <<< (8 * (bytes.length - i - 1))) 0

theorem getLsbD_foldl_or {ι : Type*} {w : ℕ} (g : ι → BitVec w) (l : List ι) (r : BitVec w)
    (j : ℕ) : (l.foldl (fun rv i => rv ||| g i) r).getLsbD j =
      (r.getLsbD j || l.any fun i => (g i).getLsbD j) := by
  induction l generalizing r with
  | nil => rw [List.foldl_nil, List.any_nil, Bool.or_false]
  | cons i l ih => rw [List.foldl_cons, ih, BitVec.getLsbD_or, List.any_cons, Bool.or_assoc]

theorem getLsbD_bytesValue_eq_any (bytes : List (BitVec 8)) (j : ℕ) :
    (bytesValue bytes).getLsbD j = (List.range bytes.length).any fun i =>
      ((bytes.getD i 0).setWidth 32 <<< (8 * (bytes.length - i - 1))).getLsbD j := by
  rw [bytesValue, getLsbD_foldl_or]
  exact Bool.or_eq_right_iff_imp.2 fun h => absurd h (by simp)

/-- A bit of the value is a bit of one of the bytes. -/
theorem getLsbD_bytesValue {bytes : List (BitVec 8)} {j : ℕ} (hj : j < 32)
    (hlen : j < 8 * bytes.length) :
    (bytesValue bytes).getLsbD j =
      (bytes.getD (bytes.length - 1 - j / 8) 0).getLsbD (j % 8) := by
  rw [getLsbD_bytesValue_eq_any, Bool.eq_iff_iff, List.any_eq_true]
  constructor
  · rintro ⟨i, hi, hbit⟩
    rw [List.mem_range] at hi
    rw [BitVec.getLsbD_shiftLeft, BitVec.getLsbD_setWidth, Bool.and_eq_true, Bool.and_eq_true,
      Bool.and_eq_true] at hbit
    obtain ⟨⟨-, hge⟩, -, hbit⟩ := hbit
    have hlow : 8 * (bytes.length - i - 1) ≤ j := by simpa using hge
    have h8 := BitVec.lt_of_getLsbD hbit
    have hindex : bytes.length - 1 - j / 8 = i := by omega
    have hplace : j % 8 = j - 8 * (bytes.length - i - 1) := by omega
    rwa [hindex, hplace]
  · intro hbit
    refine ⟨bytes.length - 1 - j / 8, ?_, ?_⟩
    · rw [List.mem_range]
      omega
    · have hlow : 8 * (bytes.length - (bytes.length - 1 - j / 8) - 1) = 8 * (j / 8) := by omega
      have hge : ¬ j < 8 * (j / 8) := by omega
      have hplace : j - 8 * (j / 8) = j % 8 := by omega
      have hlt : j % 8 < 32 := by omega
      rw [BitVec.getLsbD_shiftLeft, BitVec.getLsbD_setWidth, hlow, hplace, hbit,
        decide_eq_true hj, decide_eq_false hge, decide_eq_true hlt]
      rfl

theorem getLsbD_bytesValue_of_le {bytes : List (BitVec 8)} {j : ℕ} (hlen : 8 * bytes.length ≤ j) :
    (bytesValue bytes).getLsbD j = false := by
  rw [getLsbD_bytesValue_eq_any, List.any_eq_false]
  intro i hi
  rw [List.mem_range] at hi
  have h8 : 8 ≤ j - 8 * (bytes.length - i - 1) := by omega
  rw [BitVec.getLsbD_shiftLeft, BitVec.getLsbD_setWidth, BitVec.getLsbD_of_ge _ _ h8]
  simp

end Bits
