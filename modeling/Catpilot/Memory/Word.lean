import Mathlib.Algebra.Order.Group.Nat
import Mathlib.Tactic.Ring

/-!
# Unsigned machine words

A `w`-bit unsigned word is a natural number below `2 ^ w`; `wrap` is the
conversion to it and `wrapSub` the subtraction in it. Both are the plain
operations on numbers wherever the result fits, which is what the lemmas say.
-/

namespace Word

/-- Conversion to a `w`-bit unsigned word. -/
def wrap (w n : ℕ) : ℕ := n % 2 ^ w

/-- Subtraction of `w`-bit unsigned words. -/
def wrapSub (w a b : ℕ) : ℕ := (a + (2 ^ w - b % 2 ^ w)) % 2 ^ w

theorem wrap_of_lt {w n : ℕ} (h : n < 2 ^ w) : wrap w n = n := Nat.mod_eq_of_lt h

/-- The subtraction is the one on numbers when it does not go below zero. -/
theorem wrapSub_of_le {w a b : ℕ} (hb : b ≤ a) (ha : a < 2 ^ w) :
    wrapSub w a b = a - b := by
  have hmod : b % 2 ^ w = b := Nat.mod_eq_of_lt (by omega)
  have hsum : a + (2 ^ w - b) = (a - b) + 2 ^ w := by omega
  rw [wrapSub, hmod, hsum, Nat.add_mod_right, Nat.mod_eq_of_lt (by omega)]

/-- Below zero the subtraction wraps around once. -/
theorem wrapSub_of_lt {w a b : ℕ} (hab : a < b) (hb : b < 2 ^ w) :
    wrapSub w a b = 2 ^ w - (b - a) := by
  have hmod : b % 2 ^ w = b := Nat.mod_eq_of_lt hb
  have hsum : a + (2 ^ w - b) = 2 ^ w - (b - a) := by omega
  rw [wrapSub, hmod, hsum, Nat.mod_eq_of_lt (by omega)]

/-- The `n` bytes of a word in memory. -/
def bytes (n v : ℕ) : List UInt8 := (List.range n).map fun i => UInt8.ofNat (v / 256 ^ i)

@[simp] theorem length_bytes (n v : ℕ) : (bytes n v).length = n := by simp [bytes]

theorem bytes_succ (n v : ℕ) : bytes (n + 1) v = UInt8.ofNat v :: bytes n (v / 256) := by
  simp only [bytes, List.range_succ_eq_map, List.map_cons, List.map_map, pow_zero, Nat.div_one]
  refine congrArg _ (List.map_congr_left fun i _ => ?_)
  rw [Function.comp_apply, pow_succ', Nat.div_div_eq_div_mul]

/-- A word that fits is determined by its bytes. -/
theorem bytes_injective {n v v' : ℕ} (hv : v < 256 ^ n) (hv' : v' < 256 ^ n)
    (h : bytes n v = bytes n v') : v = v' := by
  induction n generalizing v v' with
  | zero => omega
  | succ n ih =>
      rw [bytes_succ, bytes_succ, List.cons.injEq] at h
      have hlow := congrArg UInt8.toNat h.1
      rw [UInt8.toNat_ofNat', UInt8.toNat_ofNat'] at hlow
      have hhigh := ih (Nat.div_lt_of_lt_mul (by rwa [← pow_succ']))
        (Nat.div_lt_of_lt_mul (by rwa [← pow_succ'])) h.2
      omega

end Word
