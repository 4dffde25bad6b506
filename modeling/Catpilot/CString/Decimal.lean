import Mathlib.Data.Nat.Digits.Lemmas
import Mathlib.Data.UInt

/-!
# Numbers in decimal

The text of a number, followed by a text that does not start with a digit, and cut after `r`
bytes. The numbers of at most `r` digits keep different texts, and every other number is cut
to the text of one of them.
-/

namespace CString

/-- A digit as a character. -/
def digitByte (d : ℕ) : UInt8 := 0x30 + UInt8.ofNat d

/-- `"%d"`, for a number that is not negative. -/
def decimal (n : ℕ) : List UInt8 :=
  if n = 0 then [0x30] else (Nat.digits 10 n).reverse.map digitByte

/-- A character that is a digit. -/
def IsDigit (c : UInt8) : Prop := 0x30 ≤ c ∧ c ≤ 0x39

instance (c : UInt8) : Decidable (IsDigit c) := inferInstanceAs (Decidable (_ ∧ _))

/-- The number that a text of digits stands for. -/
def decimalValue (text : List UInt8) : ℕ :=
  Nat.ofDigits 10 (text.reverse.map fun c => c.toNat - 0x30)

theorem toNat_digitByte {d : ℕ} (h : d < 10) : (digitByte d).toNat = 0x30 + d := by
  have hd : (UInt8.ofNat d).toNat = d := UInt8.toNat_ofNat_of_lt' (h.trans (by decide))
  have hbase : (0x30 : UInt8).toNat = 0x30 := rfl
  rw [digitByte, UInt8.toNat_add, hd, hbase]
  omega

theorem isDigit_digitByte {d : ℕ} (h : d < 10) : IsDigit (digitByte d) := by
  have hlow : (0x30 : UInt8).toNat = 0x30 := rfl
  have hhigh : (0x39 : UInt8).toNat = 0x39 := rfl
  rw [IsDigit, UInt8.le_iff_toNat_le, UInt8.le_iff_toNat_le, toNat_digitByte h, hlow, hhigh]
  omega

theorem isDigit_of_mem_decimal {n : ℕ} {c : UInt8} (h : c ∈ decimal n) : IsDigit c := by
  rw [decimal] at h
  split_ifs at h with hn
  · rw [List.mem_singleton.1 h]
    decide
  · obtain ⟨d, hd, rfl⟩ := List.mem_map.1 h
    exact isDigit_digitByte (Nat.digits_lt_base (by decide) (List.mem_reverse.1 hd))

theorem decimalValue_decimal (n : ℕ) : decimalValue (decimal n) = n := by
  rw [decimal]
  split_ifs with hn
  · rw [hn]
    rfl
  · have hdigits : (Nat.digits 10 n).map (fun d => (digitByte d).toNat - 0x30) =
        Nat.digits 10 n := by
      rw [List.map_congr_left (g := id), List.map_id]
      intro d hd
      rw [toNat_digitByte (Nat.digits_lt_base (by decide) hd), Nat.add_sub_cancel_left]
      rfl
    rw [decimalValue, ← List.map_reverse, List.reverse_reverse, List.map_map]
    exact (congrArg (Nat.ofDigits 10) hdigits).trans (Nat.ofDigits_digits 10 n)

theorem decimal_injective : Function.Injective decimal := by
  intro m n h
  rw [← decimalValue_decimal m, h, decimalValue_decimal]

/-- A number has at most `r` digits when it is less than the power. -/
theorem length_decimal_le_iff {n r : ℕ} (hr : 0 < r) : (decimal n).length ≤ r ↔ n < 10 ^ r := by
  rw [decimal]
  split_ifs with hn
  · rw [hn]
    exact iff_of_true hr (Nat.pow_pos (by decide))
  · rw [List.length_map, List.length_reverse, Nat.digits_length_le_iff (by decide)]

theorem digits_div_pow (n j : ℕ) : Nat.digits 10 (n / 10 ^ j) = (Nat.digits 10 n).drop j := by
  induction j generalizing n with
  | zero => rw [pow_zero, Nat.div_one, List.drop_zero]
  | succ j ih =>
      by_cases hn : n = 0
      · rw [hn, Nat.zero_div, Nat.digits_zero, List.drop_nil]
      · rw [Nat.pow_succ', ← Nat.div_div_eq_div_mul, ih,
          Nat.digits_def' (by decide) (Nat.pos_of_ne_zero hn), List.drop_succ_cons]

theorem pow_le_of_lt_length {n j : ℕ} (hj : 0 < j) (h : j < (decimal n).length) : 10 ^ j ≤ n := by
  by_contra hlt
  exact Nat.not_le.2 h ((length_decimal_le_iff hj).2 (Nat.lt_of_not_le hlt))

/-- The first digits of a number are those of its quotient by a power. -/
theorem decimal_div_pow {n j : ℕ} (h : 10 ^ j ≤ n) :
    decimal (n / 10 ^ j) = (decimal n).take ((decimal n).length - j) := by
  have hquot : n / 10 ^ j ≠ 0 := (Nat.div_pos h (Nat.pow_pos (by decide))).ne'
  have hn : n ≠ 0 := by
    rintro rfl
    exact hquot (Nat.zero_div _)
  rw [decimal, if_neg hquot, decimal, if_neg hn, digits_div_pow, List.length_map,
    List.length_reverse, ← List.map_take, List.reverse_drop]

/-! ## Cut texts -/

section Cut

variable {ext : List UInt8} {m n r : ℕ}

/-- The text of a number and the one behind it, cut after `r` bytes. -/
def cutDecimal (ext : List UInt8) (r n : ℕ) : List UInt8 := (decimal n ++ ext).take r

theorem takeWhile_take_eq_nil (h : ∀ c ∈ ext.head?, ¬ IsDigit c) (k : ℕ) :
    (ext.take k).takeWhile (IsDigit ·) = [] := by
  cases ext with
  | nil => rw [List.take_nil, List.takeWhile_nil]
  | cons c ext =>
      cases k with
      | zero => rfl
      | succ k =>
          have hc : ¬ IsDigit c := h c rfl
          rw [List.take_succ_cons, List.takeWhile_cons_of_neg]
          exact fun hdigit => hc (of_decide_eq_true hdigit)

/-- The digits of a number that is not cut. -/
theorem takeWhile_cutDecimal (h : ∀ c ∈ ext.head?, ¬ IsDigit c) (hn : (decimal n).length ≤ r) :
    (cutDecimal ext r n).takeWhile (IsDigit ·) = decimal n := by
  rw [cutDecimal, List.take_append, List.take_of_length_le hn, List.takeWhile_append_of_pos,
    takeWhile_take_eq_nil h, List.append_nil]
  intro c hc
  exact decide_eq_true (isDigit_of_mem_decimal hc)

/-- The numbers of at most `r` digits keep different texts. -/
theorem cutDecimal_injOn (h : ∀ c ∈ ext.head?, ¬ IsDigit c) (hm : m < 10 ^ r) (hn : n < 10 ^ r)
    (heq : cutDecimal ext r m = cutDecimal ext r n) : m = n := by
  cases r with
  | zero => exact (Nat.lt_one_iff.1 hm).trans (Nat.lt_one_iff.1 hn).symm
  | succ r =>
      apply decimal_injective
      rw [← takeWhile_cutDecimal h ((length_decimal_le_iff r.succ_pos).2 hm), heq,
        takeWhile_cutDecimal h ((length_decimal_le_iff r.succ_pos).2 hn)]

/-- Every number is cut to the text of one of them, which is not greater. -/
theorem exists_cutDecimal_eq (ext : List UInt8) (r n : ℕ) :
    ∃ m < 10 ^ r, m ≤ n ∧ cutDecimal ext r m = cutDecimal ext r n := by
  cases r with
  | zero => exact ⟨0, Nat.one_pos, Nat.zero_le n, rfl⟩
  | succ r =>
      by_cases hn : n < 10 ^ (r + 1)
      · exact ⟨n, hn, le_refl n, rfl⟩
      · -- the first `r + 1` of the digits
        have hlen : r + 1 < (decimal n).length :=
          Nat.lt_of_not_le fun hle => hn ((length_decimal_le_iff r.succ_pos).1 hle)
        have hpow : 10 ^ ((decimal n).length - (r + 1)) ≤ n :=
          pow_le_of_lt_length (by omega) (by omega)
        have hfirst : decimal (n / 10 ^ ((decimal n).length - (r + 1))) =
            (decimal n).take (r + 1) := by
          rw [decimal_div_pow hpow, Nat.sub_sub_self hlen.le]
        have hfirstLen : (decimal (n / 10 ^ ((decimal n).length - (r + 1)))).length = r + 1 := by
          rw [hfirst, List.length_take, Nat.min_eq_left hlen.le]
        refine ⟨_, (length_decimal_le_iff r.succ_pos).1 hfirstLen.le, Nat.div_le_self n _, ?_⟩
        rw [cutDecimal, cutDecimal, List.take_left' hfirstLen, hfirst,
          List.take_append_of_le_length hlen.le]

end Cut

end CString
