import Catpilot.CString.Basic

/-!
# Strings stored in arrays

`strncpy` stores a string in an array. What is read back is the string when the array has zero
bytes behind the copy; in an array that was cleared, this is so exactly when the copy is shorter
than the array.
-/

namespace CString

variable {s t dst src : List UInt8} {n k : ℕ}

theorem cstr_append_zeros (hs : 0 ∉ s) (ht : ∀ c ∈ t, c = 0) : cstr (s ++ t) = s := by
  rw [List.eq_replicate_of_mem ht]
  exact cstr_append_replicate hs t.length

/-- A copy of a string that fits, into memory that ends in zero bytes. -/
theorem cstr_strncpy (hsrc : strlen src ≤ n) (hdst : ∀ c ∈ dst.drop n, c = 0) :
    cstr (strncpy dst src n) = cstr src := by
  rw [strncpy_eq, List.take_of_length_le hsrc, List.append_assoc]
  apply cstr_append_zeros (not_mem_cstr src)
  intro c hc
  rcases List.mem_append.1 hc with hc | hc
  · exact List.eq_of_mem_replicate hc
  · exact hdst c hc

theorem strncmpEq_of_le (hs : strlen s ≤ n) (ht : strlen t ≤ n) :
    strncmpEq s t n = true ↔ cstr s = cstr t := by
  rw [strncmpEq, decide_eq_true_eq, List.take_of_length_le hs, List.take_of_length_le ht]

/-- A cleared array after the copy of the first `n` bytes of a string. -/
theorem take_strncpy_zeros (hn : n ≤ strlen src) :
    (strncpy (List.replicate k 0) src n).take k =
      ((cstr src).take n ++ List.replicate (k - n) 0).take k := by
  have hlen : ((cstr src).take n).length = n := by
    rw [List.length_take]
    exact Nat.min_eq_left hn
  rw [strncpy_eq, hlen, Nat.sub_self, List.replicate_zero, List.append_nil, List.drop_replicate]

/-- The array keeps room for the end of the string exactly when the copy is shorter. -/
theorem zero_mem_take_strncpy_iff (hn : n ≤ strlen src) :
    0 ∈ (strncpy (List.replicate k 0) src n).take k ↔ n < k := by
  have hlen : ((cstr src).take n).length = n := by
    rw [List.length_take]
    exact Nat.min_eq_left hn
  rw [take_strncpy_zeros hn, List.take_append, hlen, List.mem_append]
  constructor
  · rintro (hmem | hmem)
    · exact absurd (List.mem_of_mem_take (List.mem_of_mem_take hmem)) (not_mem_cstr src)
    · by_contra hle
      rw [Nat.sub_eq_zero_of_le (Nat.le_of_not_lt hle), List.take_zero] at hmem
      exact List.not_mem_nil hmem
  · intro hlt
    refine Or.inr (List.mem_take_iff_getElem.2 ⟨0, ?_, List.getElem_replicate _⟩)
    rw [List.length_replicate, Nat.min_self]
    exact Nat.sub_pos_of_lt hlt

end CString
