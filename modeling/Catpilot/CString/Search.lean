import Mathlib.Data.List.Infix

/-!
# The first occurrence of a list

`search needle s` is `s` from the first place on at which `needle` occurs. A list whose
head is not in `needle` cuts the search: no occurrence reaches into it.
-/

namespace CString

/-- No occurrence reaches across the cut. -/
theorem prefix_append_iff {α : Type*} {needle a b : List α} (hcut : ∀ c ∈ b.head?, c ∉ needle) :
    needle <+: a ++ b ↔ needle <+: a := by
  constructor
  · intro h
    rcases List.prefix_or_prefix_of_prefix h (List.prefix_append a b) with hpre | ⟨t, ht⟩
    · exact hpre
    · rw [← ht, List.prefix_append_right_inj] at h
      cases t with
      | nil => exact ⟨[], by rw [List.append_nil, ← ht, List.append_nil]⟩
      | cons c t =>
          obtain ⟨r, hr⟩ := h
          refine absurd ?_ (hcut c ?_)
          · rw [← ht]
            exact List.mem_append_right a List.mem_cons_self
          · rw [← hr]
            rfl
  · exact fun h => h.trans (List.prefix_append a b)

section Search

variable {α : Type*} [DecidableEq α] {needle s u a b : List α}

/-- `s` from the first place on at which `needle` occurs. -/
def search (needle s : List α) : Option (List α) :=
  s.tails.find? fun t => needle.isPrefixOf t

theorem search_nil_left (s : List α) : search [] s = some s := by
  cases s with
  | nil => rfl
  | cons c s => rfl

theorem search_nil (h : needle ≠ []) : search needle [] = none := by
  cases needle with
  | nil => exact absurd rfl h
  | cons c needle => rfl

theorem search_cons (needle : List α) (c : α) (s : List α) :
    search needle (c :: s) = if needle <+: c :: s then some (c :: s) else search needle s := by
  rw [search, List.tails_cons, List.find?_cons]
  by_cases h : needle <+: c :: s
  · rw [if_pos h, List.isPrefixOf_iff_prefix.2 h]
  · rw [if_neg h, Bool.eq_false_iff.2 fun hp => h (List.isPrefixOf_iff_prefix.1 hp)]
    rfl

/-- What a list starts with is found at its front. -/
theorem search_of_prefix (h : needle <+: s) : search needle s = some s := by
  cases s with
  | nil =>
      rw [List.prefix_nil.1 h]
      rfl
  | cons c s => rw [search_cons, if_pos h]

/-- The search for a single element. -/
theorem search_singleton (c : α) (s : List α) :
    search [c] s = if c ∈ s then some (s.dropWhile (· ≠ c)) else none := by
  induction s with
  | nil => rfl
  | cons d s ih =>
      have hpre : [c] <+: d :: s ↔ c = d := by simp [List.cons_prefix_cons]
      rw [search_cons, ih]
      by_cases hd : c = d
      · simp [hd]
      · simp [hpre, hd, Ne.symm hd]

/-- What does not occur is not found. -/
theorem search_eq_none_iff : search needle s = none ↔ ¬ needle <:+: s := by
  induction s with
  | nil =>
      rw [List.infix_nil]
      cases needle with
      | nil => simp [search_nil_left]
      | cons c needle => simp [search_nil]
  | cons c s ih =>
      rw [search_cons, List.infix_cons_iff]
      by_cases h : needle <+: c :: s
      · simp [h]
      · rw [if_neg h, ih, or_iff_right h]

/-- The place found starts with the list searched for. -/
theorem prefix_of_search (h : search needle s = some u) : needle <+: u :=
  List.isPrefixOf_iff_prefix.1 (by simpa using List.find?_some h)

/-- The search goes on behind the cut where nothing was found in front of it. -/
theorem search_append (hne : needle ≠ []) (hcut : ∀ c ∈ b.head?, c ∉ needle) :
    search needle (a ++ b) =
      match search needle a with
      | some u => some (u ++ b)
      | none => search needle b := by
  induction a with
  | nil => rw [search_nil hne, List.nil_append]
  | cons c a ih =>
      have hiff : needle <+: c :: (a ++ b) ↔ needle <+: c :: a :=
        prefix_append_iff (a := c :: a) hcut
      rw [List.cons_append, search_cons, search_cons]
      by_cases h : needle <+: c :: a
      · rw [if_pos h, if_pos (hiff.2 h)]
        rfl
      · rw [if_neg h, if_neg (mt hiff.1 h), ih]

end Search

end CString
