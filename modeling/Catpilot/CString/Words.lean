import Mathlib.Data.List.TakeWhile

/-!
# Words

The words of a list are its non-empty parts between separators. Separators in front of
a list, and several of them in a row, separate nothing.
-/

namespace CString

section Words

variable {α : Type*} [DecidableEq α] {c : α}

/-- The non-empty parts of a list between the separators `c`. -/
def words (c : α) (s : List α) : List (List α) := (s.splitOn c).filter (· ≠ [])

theorem words_nil (c : α) : words c [] = [] := rfl

theorem words_sep (c : α) (s : List α) : words c (c :: s) = words c s := by
  rw [words, List.splitOn_cons_eq_if_modifyHead, if_pos (beq_self_eq_true c)]
  rfl

theorem words_word {w : List α} (hne : w ≠ []) (hc : c ∉ w) : words c w = [w] := by
  rw [words, List.splitOn_eq_singleton hc]
  simp [hne]

theorem words_word_sep {w : List α} (hne : w ≠ []) (hc : c ∉ w) (s : List α) :
    words c (w ++ c :: s) = w :: words c s := by
  rw [words, List.splitOn_append_cons_self_of_not_mem hc]
  simp [hne, words]

/-- Leading separators separate nothing. -/
theorem words_dropWhile (s : List α) : words c (s.dropWhile (· = c)) = words c s := by
  induction s with
  | nil => rfl
  | cons d s ih =>
      by_cases hd : d = c
      · rw [hd, List.dropWhile_cons_of_pos (by simp), ih, words_sep]
      · rw [List.dropWhile_cons_of_neg (by simpa using hd)]

theorem not_mem_takeWhile_ne (c : α) (s : List α) : c ∉ s.takeWhile (· ≠ c) := by
  intro h
  simpa using List.mem_takeWhile_imp h

/-- What follows a word is empty or starts with a separator. -/
theorem dropWhile_ne_eq (c : α) (s : List α) :
    s.dropWhile (· ≠ c) = [] ∨ ∃ rest, s.dropWhile (· ≠ c) = c :: rest := by
  induction s with
  | nil => exact Or.inl rfl
  | cons d s ih =>
      by_cases hd : d = c
      · rw [hd, List.dropWhile_cons_of_neg (by simp)]
        exact Or.inr ⟨s, rfl⟩
      · rwa [List.dropWhile_cons_of_pos (by simpa using hd)]

/-- No separator is left in front once the leading ones are skipped. -/
theorem head?_dropWhile_sep (c : α) (s : List α) :
    (s.dropWhile (· = c)).head? ≠ some c := by
  induction s with
  | nil => simp
  | cons d s ih =>
      by_cases hd : d = c
      · rwa [hd, List.dropWhile_cons_of_pos (by simp)]
      · rw [List.dropWhile_cons_of_neg (by simpa using hd), List.head?_cons]
        exact fun h => hd (Option.some.inj h)

/-- The first word of a list that does not start with a separator ends at the first
one. -/
theorem words_head {s : List α} (hne : s ≠ []) (hhead : ∀ d ∈ s.head?, d ≠ c) :
    ∃ ws, words c s = s.takeWhile (· ≠ c) :: ws := by
  have hword : s.takeWhile (· ≠ c) ≠ [] := by
    cases s with
    | nil => exact absurd rfl hne
    | cons d s => simp [hhead d rfl]
  have hc := not_mem_takeWhile_ne c s
  have hsplit := List.takeWhile_append_dropWhile (p := (· ≠ c)) (l := s)
  rcases dropWhile_ne_eq c s with hnil | ⟨rest, hrest⟩
  · rw [hnil, List.append_nil] at hsplit
    refine ⟨[], ?_⟩
    rw [hsplit]
    exact words_word hne (hsplit ▸ hc)
  · refine ⟨words c rest, ?_⟩
    rw [hrest] at hsplit
    rw [← hsplit, words_word_sep hword hc, hsplit]

/-- What is behind the last separator. -/
def lastPart (c : α) (s : List α) : List α := (s.splitOn c).getLastD []

theorem lastPart_word {w : List α} (hc : c ∉ w) : lastPart c w = w := by
  rw [lastPart, List.splitOn_eq_singleton hc]
  rfl

theorem lastPart_word_sep {w : List α} (hc : c ∉ w) (s : List α) :
    lastPart c (w ++ c :: s) = lastPart c s := by
  rw [lastPart, List.splitOn_append_cons_self_of_not_mem hc, List.getLastD_cons, lastPart]
  cases hs : s.splitOn c with
  | nil => exact absurd hs (List.splitOn_ne_nil c s)
  | cons p ps => rfl

/-- Leading separators are not behind the last one. -/
theorem lastPart_dropWhile (s : List α) : lastPart c (s.dropWhile (· = c)) = lastPart c s := by
  induction s with
  | nil => rfl
  | cons d s ih =>
      by_cases hd : d = c
      · rw [hd, List.dropWhile_cons_of_pos (by simp), ih]
        exact (lastPart_word_sep List.not_mem_nil s).symm
      · rw [List.dropWhile_cons_of_neg (by simpa using hd)]

end Words

end CString
