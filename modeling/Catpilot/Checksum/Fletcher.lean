import Mathlib.Algebra.BigOperators.Group.List.Basic
import Mathlib.Algebra.Group.Basic
import Mathlib.Algebra.Group.Nat.Even
import Mathlib.Tactic.Abel

/-!
# Fletcher checksums

A Fletcher checksum over a word type is a pair of sums: the sum of the words, and
the sum of all running sums, in which a word counts once for each place from its
own to the end. `fletcherStep` is the incremental form that implementations use.
-/

namespace Checksum

section Fletcher

variable {α : Type*} [AddCommMonoid α]

/-- The sum of the running sums of a list of words. -/
def runningSum : List α → α
  | [] => 0
  | x :: xs => (xs.length + 1) • x + runningSum xs

/-- The checksum of a list of words. -/
def fletcher (l : List α) : α × α := (l.sum, runningSum l)

/-- One word taken into the two sums. -/
def fletcherStep (ck : α × α) (x : α) : α × α := (ck.1 + x, ck.2 + (ck.1 + x))

/-- From any two sums on, a list adds its own checksum and once more the first sum
for each of its words. -/
theorem foldl_fletcherStep (l : List α) (a b : α) :
    l.foldl fletcherStep (a, b) = (a + l.sum, b + l.length • a + runningSum l) := by
  induction l generalizing a b with
  | nil => simp [runningSum]
  | cons x xs ih =>
      rw [List.foldl_cons, fletcherStep, ih]
      simp only [List.sum_cons, List.length_cons, runningSum, Prod.mk.injEq, nsmul_add, add_nsmul,
        one_nsmul]
      constructor
      · abel
      · abel

/-- The incremental form computes the checksum. -/
theorem foldl_fletcherStep_zero (l : List α) : l.foldl fletcherStep (0, 0) = fletcher l := by
  rw [foldl_fletcherStep, fletcher, nsmul_zero, zero_add, zero_add, zero_add]

end Fletcher

end Checksum
