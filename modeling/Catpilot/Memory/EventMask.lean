import Mathlib.Data.BitVec

/-!
# A mask of pending events

The event with the number `n` is pending when bit `n` of the mask is set. `push` sets
the bit and `clear` clears it; no other event is touched by them.
-/

namespace EventMask

variable {w : ℕ}

/-- Event `n` is pending. -/
def isSet (mask : BitVec w) (n : ℕ) : Bool := mask &&& 1#w <<< n ≠ 0#w

/-- Event `n` becomes pending. -/
def push (mask : BitVec w) (n : ℕ) : BitVec w := mask ||| 1#w <<< n

/-- Event `n` is not pending any more. -/
def clear (mask : BitVec w) (n : ℕ) : BitVec w := mask &&& ~~~(1#w <<< n)

theorem getLsbD_bit {n : ℕ} (hn : n < w) (i : ℕ) :
    (1#w <<< n).getLsbD i = decide (i = n) := by
  rw [BitVec.getLsbD_shiftLeft, BitVec.getLsbD_one]
  by_cases h : i = n
  · subst h
    simp [hn, Nat.zero_lt_of_lt hn]
  · simp only [h, decide_false, Bool.and_eq_false_imp, Bool.and_eq_true, decide_eq_true_eq,
      Bool.not_eq_true', decide_eq_false_iff_not]
    omega

theorem isSet_eq {n : ℕ} (hn : n < w) (mask : BitVec w) : isSet mask n = mask.getLsbD n := by
  rw [Bool.eq_iff_iff, isSet, decide_eq_true_eq]
  constructor
  · intro hne
    by_contra hbit
    refine hne (BitVec.eq_of_getLsbD_eq fun i _ => ?_)
    rw [BitVec.getLsbD_and, getLsbD_bit hn, BitVec.getLsbD_zero]
    by_cases h : i = n
    · rw [h, Bool.eq_false_iff.2 hbit, Bool.false_and]
    · simp [h]
  · intro hbit hzero
    have h := congrArg (fun v => BitVec.getLsbD v n) hzero
    simp [getLsbD_bit hn, hbit] at h

theorem isSet_push {n m : ℕ} (hn : n < w) (hm : m < w) (mask : BitVec w) :
    isSet (push mask n) m = (isSet mask m || decide (m = n)) := by
  rw [isSet_eq hm, isSet_eq hm, push, BitVec.getLsbD_or, getLsbD_bit hn]

theorem isSet_clear {n m : ℕ} (hn : n < w) (hm : m < w) (mask : BitVec w) :
    isSet (clear mask n) m = (isSet mask m && decide (m ≠ n)) := by
  rw [isSet_eq hm, isSet_eq hm, clear, BitVec.getLsbD_and, BitVec.getLsbD_not, getLsbD_bit hn]
  simp [hm]

theorem isSet_zero (n : ℕ) : isSet (0#w) n = false := by simp [isSet]

end EventMask
