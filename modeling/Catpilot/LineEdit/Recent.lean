import Mathlib.Data.List.Destutter
import Mathlib.Data.List.GetD

/-!
# Recent entries

`recent n l` are the entries of `l`, the last one first, where an entry that repeats the one
before it does not count, and no more than `n` of them. One more entry goes to the front; what
was at the end is forgotten when there are `n` already.
-/

namespace LineEdit

section Recent

variable {α : Type*} [DecidableEq α] {n : ℕ} {l : List α} {a : α}

/-- The last `n` entries, newest first, with repetitions left out. -/
def recent (n : ℕ) (l : List α) : List α := (l.reverse.destutter (· ≠ ·)).take n

@[simp] theorem recent_nil (n : ℕ) : recent n ([] : List α) = [] := by
  rw [recent, List.reverse_nil, List.destutter_nil, List.take_nil]

theorem length_recent_le (n : ℕ) (l : List α) : (recent n l).length ≤ n := List.length_take_le _ _

theorem destutter_cons_of_head? (h : l.head? = some a) :
    (a :: l).destutter (· ≠ ·) = l.destutter (· ≠ ·) := by
  cases l with
  | nil => cases h
  | cons b l =>
      rw [List.head?_cons, Option.some.injEq] at h
      rw [List.destutter_cons_cons, h, if_neg (not_not.2 rfl), List.destutter_cons']

theorem destutter_cons_of_head?_ne (h : l.head? ≠ some a) :
    (a :: l).destutter (· ≠ ·) = a :: l.destutter (· ≠ ·) := by
  cases l with
  | nil => rfl
  | cons b l =>
      rw [List.head?_cons, ne_eq, Option.some.injEq] at h
      rw [List.destutter_cons_cons, if_pos (Ne.symm h), List.destutter_cons']

/-- The newest entry is the last one. -/
theorem head?_destutter (l : List α) : (l.destutter (· ≠ ·)).head? = l.head? := by
  cases l with
  | nil => rfl
  | cons a l =>
      induction l generalizing a with
      | nil => rfl
      | cons b l ih =>
          by_cases h : a = b
          · rw [h, destutter_cons_of_head? rfl]
            exact ih b
          · rw [destutter_cons_of_head?_ne, List.head?_cons, List.head?_cons]
            rw [List.head?_cons, ne_eq, Option.some.injEq]
            exact fun hba => h hba.symm

theorem head?_recent (hn : 0 < n) (l : List α) : (recent n l).head? = l.getLast? := by
  obtain ⟨n, rfl⟩ := Nat.exists_eq_add_of_le' hn
  rw [recent, ← List.head?_reverse, ← head?_destutter l.reverse]
  cases l.reverse.destutter (· ≠ ·) with
  | nil => rfl
  | cons a l => rfl

/-- One more entry. -/
theorem recent_concat (hn : 0 < n) (l : List α) (a : α) :
    recent n (l ++ [a]) =
      if (recent n l).head? = some a then recent n l else a :: (recent n l).take (n - 1) := by
  obtain ⟨n, rfl⟩ := Nat.exists_eq_add_of_le' hn
  rw [head?_recent hn, ← List.head?_reverse, recent, List.reverse_append, List.reverse_singleton,
    List.singleton_append]
  split
  · rename_i h
    rw [destutter_cons_of_head? h, recent]
  · rename_i h
    rw [destutter_cons_of_head?_ne h, recent, List.take_succ_cons, List.take_take,
      Nat.add_sub_cancel, Nat.min_eq_left (Nat.le_succ n)]

/-- An entry differs from the next one. -/
theorem recent_ne_succ {i : ℕ} (hi : i + 1 < (recent n l).length) :
    (recent n l)[i] ≠ (recent n l)[i + 1] := by
  have hchain : (recent n l).IsChain (· ≠ ·) := (List.isChain_destutter (· ≠ ·) l.reverse).take n
  exact List.isChain_iff_getElem.1 hchain i hi

/-- Only entries are recent. -/
theorem mem_of_mem_recent (h : a ∈ recent n l) : a ∈ l :=
  List.mem_reverse.1 ((List.destutter_sublist (· ≠ ·) l.reverse).subset (List.mem_of_mem_take h))

end Recent

end LineEdit
