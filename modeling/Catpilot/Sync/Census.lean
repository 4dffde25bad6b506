import Mathlib.Algebra.BigOperators.Group.Finset.Piecewise
import Mathlib.Algebra.Order.BigOperators.Group.Finset

/-!
# Sums over the threads of a system

A quantity that depends on the places of the threads is summed over all threads; the number
of the threads at places of a kind is such a sum. A move of one thread changes the sum by what
the thread itself counts before and after it, so that a balance between counters and threads
is kept by looking at the thread that moves.
-/

namespace Sync

variable {ι Pc : Type*} [Fintype ι] {f : Pc → ℕ} {P : Pc → Prop} [DecidablePred P]
  {pc : ι → Pc} {i : ι} {p : Pc}

/-- The sum of a quantity over the threads. -/
def total (f : Pc → ℕ) (pc : ι → Pc) : ℕ := Finset.univ.sum fun i => f (pc i)

/-- The number of the threads that are at places where `P` holds. -/
def census (P : Pc → Prop) [DecidablePred P] (pc : ι → Pc) : ℕ :=
  total (fun p => if P p then 1 else 0) pc

theorem total_eq_zero_iff : total f pc = 0 ↔ ∀ i, f (pc i) = 0 := by
  simp [total]

theorem le_total (i : ι) : f (pc i) ≤ total f pc :=
  Finset.single_le_sum (f := fun i => f (pc i)) (fun _ _ => Nat.zero_le _) (Finset.mem_univ i)

/-- Only one thread counts. -/
theorem total_eq_single (i : ι) (h : ∀ j, j ≠ i → f (pc j) = 0) : total f pc = f (pc i) :=
  Finset.sum_eq_single i (fun j _ hj => h j hj) fun hi => absurd (Finset.mem_univ i) hi

theorem census_eq_zero_iff : census P pc = 0 ↔ ∀ i, ¬ P (pc i) := by
  simp [census, total_eq_zero_iff]

theorem census_eq_card : census P pc = (Finset.univ.filter fun i => P (pc i)).card :=
  (Finset.card_filter ..).symm

theorem census_pos (hi : P (pc i)) : 0 < census P pc := by
  apply Nat.pos_of_ne_zero
  intro h
  exact census_eq_zero_iff.1 h i hi

section Moves

variable [DecidableEq ι]

/-- The threads other than the one that moves count as before. -/
theorem total_update (pc : ι → Pc) (i : ι) (p : Pc) :
    total f (Function.update pc i p) + f (pc i) = total f pc + f p := by
  have hsplit : ∀ q : ι → Pc, total f q = f (q i) + (Finset.univ.erase i).sum fun j => f (q j) :=
    fun q => (Finset.add_sum_erase _ _ (Finset.mem_univ i)).symm
  have hrest : ((Finset.univ.erase i).sum fun j => f (Function.update pc i p j)) =
      (Finset.univ.erase i).sum fun j => f (pc j) := by
    apply Finset.sum_congr rfl
    intro j hj
    rw [Function.update_of_ne (Finset.ne_of_mem_erase hj)]
  rw [hsplit (Function.update pc i p), hsplit pc, hrest, Function.update_self]
  omega

theorem census_update (pc : ι → Pc) (i : ι) (p : Pc) :
    census P (Function.update pc i p) + (if P (pc i) then 1 else 0) =
      census P pc + (if P p then 1 else 0) :=
  total_update pc i p

end Moves

end Sync
