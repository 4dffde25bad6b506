import Catpilot.CString.Search
import Catpilot.Memory.Copy
import Mathlib.Data.List.TakeWhile

/-!
# C strings

A C string in memory is the run of bytes in front of the first zero byte. The
functions of `string.h` take the memory from their pointer on; a string that is not
terminated within it ends with it.
-/

namespace CString

/-- The string that starts at the front of `mem`. -/
def cstr (mem : List UInt8) : List UInt8 := mem.takeWhile (· ≠ 0)

/-- `strlen`. -/
def strlen (mem : List UInt8) : ℕ := (cstr mem).length

/-- `strnlen`. -/
def strnlen (mem : List UInt8) (n : ℕ) : ℕ := min (strlen mem) n

/-- `strncmp(s, t, n) == 0`. -/
def strncmpEq (s t : List UInt8) (n : ℕ) : Bool := (cstr s).take n = (cstr t).take n

/-- How many bytes of `s` the call `strncmp(s, t, n)` looks at: up to the first
difference, up to the end of the strings or up to `n`. A byte that is looked for behind
the memory counts. -/
def strncmpReads : List UInt8 → List UInt8 → ℕ → ℕ
  | _, _, 0 => 0
  | c :: s, d :: t, n + 1 => if c = d ∧ c ≠ 0 then strncmpReads s t n + 1 else 1
  | _, _, _ + 1 => 1

/-- How many bytes of `src` the call `strncpy(dst, src, n)` looks at. -/
def strncpyReads (src : List UInt8) (n : ℕ) : ℕ := min (strlen src + 1) n

/-- `strncpy(dst, src, n)`: at most `n` bytes of the string, filled up with zero bytes
to `n`. -/
def strncpy (dst src : List UInt8) (n : ℕ) : List UInt8 :=
  let text := (cstr src).take n
  Memory.memcpy dst 0 (text ++ List.replicate (n - text.length) 0)

/-- `strstr`: `haystack` from the first place on at which `needle` occurs. -/
def strstr (haystack needle : List UInt8) : Option (List UInt8) :=
  search (cstr needle) (cstr haystack)

theorem cstr_cons {c : UInt8} (h : c ≠ 0) (mem : List UInt8) : cstr (c :: mem) = c :: cstr mem :=
  List.takeWhile_cons_of_pos (decide_eq_true h)

/-- A string without a zero byte is all of its memory. -/
theorem cstr_of_not_mem {s : List UInt8} (h : 0 ∉ s) : cstr s = s := by
  rw [cstr, List.takeWhile_eq_self_iff]
  intro c hc
  rw [decide_eq_true_eq]
  rintro rfl
  exact h hc

theorem not_mem_cstr (mem : List UInt8) : 0 ∉ cstr mem := by
  intro h
  have hne := List.mem_takeWhile_imp h
  simp at hne

/-- In front of its end a string is the memory. -/
theorem take_of_le_strlen {mem : List UInt8} {n : ℕ} (h : n ≤ strlen mem) :
    mem.take n = (cstr mem).take n := by
  obtain ⟨rest, hrest⟩ : cstr mem <+: mem := List.takeWhile_prefix _
  calc
    mem.take n = (cstr mem ++ rest).take n := by rw [hrest]
    _ = (cstr mem).take n := List.take_append_of_le_length h

/-- A string ends where a zero byte is behind it. -/
theorem cstr_append_zero {s : List UInt8} (h : 0 ∉ s) (rest : List UInt8) :
    cstr (s ++ 0 :: rest) = s := by
  induction s with
  | nil => rfl
  | cons c s ih =>
      rw [List.mem_cons, not_or] at h
      rw [List.cons_append, cstr_cons (Ne.symm h.1), ih h.2]

/-- A string that ends in its array does not go on behind it. -/
theorem cstr_append_of_mem {mem : List UInt8} (h : 0 ∈ mem) (rest : List UInt8) :
    cstr (mem ++ rest) = cstr mem := by
  induction mem with
  | nil => exact absurd h List.not_mem_nil
  | cons c mem ih =>
      by_cases hc : c = 0
      · rw [hc]
        rfl
      · have hmem : 0 ∈ mem := (List.mem_cons.1 h).resolve_left (Ne.symm hc)
        rw [List.cons_append, cstr_cons hc, cstr_cons hc, ih hmem]

/-- A zero byte behind a string ends it. -/
@[simp] theorem cstr_append_nul (s : List UInt8) : cstr (s ++ [0]) = cstr s := by
  by_cases h : 0 ∈ s
  · exact cstr_append_of_mem h [0]
  · rw [cstr_append_zero h, cstr_of_not_mem h]

/-- A string with zero bytes behind it. -/
theorem cstr_append_replicate {s : List UInt8} (h : 0 ∉ s) (k : ℕ) :
    cstr (s ++ List.replicate k 0) = s := by
  have hpos : ∀ c ∈ s, decide (c ≠ 0) = true := by
    intro c hc
    rw [decide_eq_true_eq]
    rintro rfl
    exact h hc
  rw [cstr, List.takeWhile_append_of_pos hpos]
  cases k with
  | zero => exact List.append_nil s
  | succ k => simp [List.replicate_succ]

/-- A copy with room in the destination keeps its length. -/
theorem length_strncpy {dst src : List UInt8} {n : ℕ} (h : n ≤ dst.length) :
    (strncpy dst src n).length = dst.length := by
  have htext : ((cstr src).take n).length ≤ n := List.length_take_le n _
  rw [strncpy, Memory.length_memcpy]
  rw [List.length_append, List.length_replicate]
  omega

/-- What a copy leaves: the string, zero bytes, and the memory behind them. -/
theorem strncpy_eq (dst src : List UInt8) (n : ℕ) : strncpy dst src n =
    (cstr src).take n ++ List.replicate (n - ((cstr src).take n).length) 0 ++ dst.drop n := by
  have htext : ((cstr src).take n).length ≤ n := List.length_take_le n _
  have hlen : ((cstr src).take n ++
      List.replicate (n - ((cstr src).take n).length) 0).length = n := by
    rw [List.length_append, List.length_replicate]
    omega
  rw [strncpy, Memory.memcpy, hlen, List.take_zero, List.nil_append, Nat.zero_add]

/-- The memory behind a copy stays. -/
theorem drop_strncpy (dst src : List UInt8) (n : ℕ) : (strncpy dst src n).drop n = dst.drop n := by
  have htext : ((cstr src).take n).length ≤ n := List.length_take_le n _
  rw [strncpy_eq]
  apply List.drop_left'
  rw [List.length_append, List.length_replicate]
  omega

/-- A string ends in front of memory that is cleared. -/
theorem strlen_le_of_drop {mem : List UInt8} {n : ℕ} (h : ∀ c ∈ mem.drop n, c = 0) :
    strlen mem ≤ n := by
  by_contra hlt
  have hlen : n < (cstr mem).length := Nat.lt_of_not_le hlt
  have hmem : (cstr mem)[n] ∈ mem.drop n := by
    have hprefix : cstr mem <+: mem := List.takeWhile_prefix _
    have hdrop : (cstr mem).drop n <+: mem.drop n := hprefix.drop n
    apply hdrop.subset
    rw [List.mem_drop_iff_getElem]
    exact ⟨0, by omega, by simp⟩
  exact not_mem_cstr mem (h _ hmem ▸ List.getElem_mem hlen)

/-- A string copied with its length into cleared memory. -/
theorem cstr_strncpy_replicate {s : List UInt8} (h : 0 ∉ s) (k : ℕ) :
    cstr (strncpy (List.replicate k 0) s s.length) = s := by
  simp only [strncpy, cstr_of_not_mem h, List.take_length, Nat.sub_self, List.replicate_zero,
    List.append_nil, Memory.memcpy, List.take_zero, List.nil_append, List.drop_replicate]
  exact cstr_append_replicate h _

theorem strncmpReads_le (s t : List UInt8) (n : ℕ) : strncmpReads s t n ≤ n := by
  fun_induction strncmpReads s t n with
  | case1 => exact le_refl 0
  | case2 c s d t n heq ih => exact Nat.succ_le_succ ih
  | case3 c s d t n hne => exact Nat.succ_le_succ (Nat.zero_le n)
  | case4 => exact Nat.succ_le_succ (Nat.zero_le _)

/-- A comparison with a text leaves the memory where that ends inside the text. -/
theorem strncmpReads_concat_le_iff {s t : List UInt8} (ht : 0 ∉ t) (d : UInt8) :
    strncmpReads s (t ++ [d]) (t.length + 1) ≤ s.length ↔ ¬ s <+: t := by
  induction t generalizing s with
  | nil =>
      cases s with
      | nil => simp [strncmpReads]
      | cons c s => simp [strncmpReads]
  | cons e t ih =>
      rw [List.mem_cons, not_or] at ht
      cases s with
      | nil => simp [strncmpReads]
      | cons c s =>
          rw [List.cons_append, List.length_cons, strncmpReads, List.cons_prefix_cons]
          by_cases hc : c = e
          · subst hc
            rw [if_pos ⟨rfl, Ne.symm ht.1⟩, List.length_cons, Nat.succ_le_succ_iff, ih ht.2]
            simp
          · rw [if_neg (fun h => hc h.1)]
            simp [hc]

/-- Equal strings, when one of them has the length that is compared. -/
theorem strncmpEq_length_iff {s t : List UInt8} (ht : 0 ∉ t) :
    (strlen s = t.length ∧ strncmpEq s t t.length = true) ↔ cstr s = t := by
  rw [strncmpEq, strlen, decide_eq_true_eq, cstr_of_not_mem ht, List.take_length]
  constructor
  · rintro ⟨hlen, htake⟩
    rwa [← hlen, List.take_length] at htake
  · intro heq
    exact ⟨by rw [heq], by rw [heq, List.take_length]⟩

end CString
