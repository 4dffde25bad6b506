import Mathlib.Data.Nat.Basic
import Mathlib.Logic.Function.Iterate

/-!
# Polling

A source is asked again and again until one of its responses is good. A response may also be an
error. Among the first `n` responses there is a first good one, or a first error, or none of
either.
-/

namespace Transition

section Poll

variable {σ ε β : Type*} (next : σ → Except ε β × σ) (good : β → Prop) (s : σ)

/-- The state after a number of responses. -/
def afterResponses (n : ℕ) (s : σ) : σ := (fun s => (next s).2)^[n] s

/-- The response to the question with a number, from zero. -/
def response (i : ℕ) : Except ε β := (next (afterResponses next i s)).1

/-- The first `n` responses are neither errors nor good. -/
def PassesOver (n : ℕ) : Prop := ∀ i < n, ∃ b, response next s i = .ok b ∧ ¬ good b

/-- The first response that is not passed over is a good one. -/
def FirstGood (i : ℕ) (b : β) : Prop :=
  PassesOver next good s i ∧ response next s i = .ok b ∧ good b

/-- The first response that is not passed over is an error. -/
def FirstFailure (i : ℕ) (e : ε) : Prop :=
  PassesOver next good s i ∧ response next s i = .error e

theorem response_succ (i : ℕ) : response next s (i + 1) = response next (next s).2 i := rfl

variable {next good s}

theorem passesOver_zero : PassesOver next good s 0 := fun i hi => absurd hi (Nat.not_lt_zero i)

theorem passesOver_succ_iff {n : ℕ} : PassesOver next good s (n + 1) ↔
    (∃ b, (next s).1 = .ok b ∧ ¬ good b) ∧ PassesOver next good (next s).2 n := by
  constructor
  · intro h
    exact ⟨h 0 n.succ_pos, fun i hi => h (i + 1) (Nat.succ_lt_succ hi)⟩
  · rintro ⟨hfirst, hrest⟩ i hi
    cases i with
    | zero => exact hfirst
    | succ i => exact hrest i (Nat.lt_of_succ_lt_succ hi)

theorem firstGood_zero_iff {b : β} :
    FirstGood next good s 0 b ↔ (next s).1 = .ok b ∧ good b := by
  constructor
  · intro h
    exact h.2
  · intro h
    exact ⟨passesOver_zero, h⟩

theorem firstGood_succ_iff {i : ℕ} {b : β} : FirstGood next good s (i + 1) b ↔
    (∃ b, (next s).1 = .ok b ∧ ¬ good b) ∧ FirstGood next good (next s).2 i b := by
  rw [FirstGood, passesOver_succ_iff, response_succ, FirstGood, and_assoc]

theorem firstFailure_zero_iff {e : ε} :
    FirstFailure next good s 0 e ↔ (next s).1 = .error e := by
  constructor
  · intro h
    exact h.2
  · intro h
    exact ⟨passesOver_zero, h⟩

theorem firstFailure_succ_iff {i : ℕ} {e : ε} : FirstFailure next good s (i + 1) e ↔
    (∃ b, (next s).1 = .ok b ∧ ¬ good b) ∧ FirstFailure next good (next s).2 i e := by
  rw [FirstFailure, passesOver_succ_iff, response_succ, FirstFailure, and_assoc]

/-- What the first `n` responses can be. -/
theorem poll_cases (next : σ → Except ε β × σ) (good : β → Prop) (s : σ) (n : ℕ) :
    PassesOver next good s n ∨ (∃ i < n, ∃ b, FirstGood next good s i b) ∨
      ∃ i < n, ∃ e, FirstFailure next good s i e := by
  induction n with
  | zero => exact Or.inl passesOver_zero
  | succ n ih =>
      rcases ih with hpass | ⟨i, hi, hgood⟩ | ⟨i, hi, hfail⟩
      · cases hn : response next s n with
        | error e => exact Or.inr (Or.inr ⟨n, n.lt_succ_self, e, hpass, hn⟩)
        | ok b =>
            by_cases hb : good b
            · exact Or.inr (Or.inl ⟨n, n.lt_succ_self, b, hpass, hn, hb⟩)
            · refine Or.inl fun i hi => ?_
              rcases Nat.lt_succ_iff_lt_or_eq.1 hi with hlt | rfl
              · exact hpass i hlt
              · exact ⟨b, hn, hb⟩
      · exact Or.inr (Or.inl ⟨i, Nat.lt_succ_of_lt hi, hgood⟩)
      · exact Or.inr (Or.inr ⟨i, Nat.lt_succ_of_lt hi, hfail⟩)

theorem FirstGood.le_of_passesOver {i n : ℕ} {b : β} (h : FirstGood next good s i b)
    (hpass : PassesOver next good s n) : n ≤ i := by
  by_contra hlt
  obtain ⟨c, hc, hbad⟩ := hpass i (Nat.lt_of_not_le hlt)
  rw [h.2.1, Except.ok.injEq] at hc
  exact hbad (hc ▸ h.2.2)

theorem FirstFailure.le_of_passesOver {i n : ℕ} {e : ε} (h : FirstFailure next good s i e)
    (hpass : PassesOver next good s n) : n ≤ i := by
  by_contra hlt
  obtain ⟨c, hc, -⟩ := hpass i (Nat.lt_of_not_le hlt)
  rw [h.2] at hc
  cases hc

/-- There is one first good response at most. -/
theorem FirstGood.unique {i j : ℕ} {b c : β} (h : FirstGood next good s i b)
    (h' : FirstGood next good s j c) : i = j ∧ b = c := by
  have hij : i = j := Nat.le_antisymm (h'.le_of_passesOver h.1) (h.le_of_passesOver h'.1)
  subst hij
  have hok := h.2.1.symm.trans h'.2.1
  exact ⟨rfl, Except.ok.inj hok⟩

theorem FirstGood.not_firstFailure {i j : ℕ} {b : β} {e : ε} (h : FirstGood next good s i b) :
    ¬ FirstFailure next good s j e := by
  intro h'
  have hij : i = j := Nat.le_antisymm (h'.le_of_passesOver h.1) (h.le_of_passesOver h'.1)
  subst hij
  have hbad := h.2.1.symm.trans h'.2
  cases hbad

theorem FirstFailure.unique {i j : ℕ} {e e' : ε} (h : FirstFailure next good s i e)
    (h' : FirstFailure next good s j e') : i = j ∧ e = e' := by
  have hij : i = j := Nat.le_antisymm (h'.le_of_passesOver h.1) (h.le_of_passesOver h'.1)
  subst hij
  have herr := h.2.symm.trans h'.2
  exact ⟨rfl, Except.error.inj herr⟩

end Poll

end Transition
