import Mathlib.Order.CompletePartialOrder
import Mathlib.Order.Interval.Set.Disjoint

/-!
# Blocks of memory

A block is a start and a length. Blocks that lie in areas of which one ends before the
other starts have no address in common; an allocator that only moves a break upwards
gives out such blocks, since each one ends where the break is.
-/

namespace Memory

/-- The bytes from `start` on. -/
structure Block where
  start : ℕ
  length : ℕ
  deriving DecidableEq, Repr

namespace Block

variable {b c : Block} {lo hi lo' hi' : ℕ}

/-- The address behind the last byte. -/
def stop (b : Block) : ℕ := b.start + b.length

/-- The addresses of the bytes. -/
def addresses (b : Block) : Set ℕ := Set.Ico b.start b.stop

/-- The block lies wholly between two addresses. -/
def Inside (b : Block) (lo hi : ℕ) : Prop := lo ≤ b.start ∧ b.stop ≤ hi

instance (b : Block) (lo hi : ℕ) : Decidable (b.Inside lo hi) :=
  inferInstanceAs (Decidable (lo ≤ b.start ∧ b.stop ≤ hi))

theorem Inside.mono (h : b.Inside lo hi) (hlo : lo' ≤ lo) (hhi : hi ≤ hi') : b.Inside lo' hi' :=
  ⟨hlo.trans h.1, h.2.trans hhi⟩

/-- A block that ends before another starts has no address in common with it. -/
theorem disjoint_of_stop_le (h : b.stop ≤ c.start) : Disjoint b.addresses c.addresses := by
  apply Set.Ico_disjoint_Ico.2
  exact (min_le_left _ _).trans (h.trans (le_max_right _ _))

/-- Blocks in two areas, of which the first ends before the second starts. -/
theorem Inside.disjoint (hb : b.Inside lo hi) (hc : c.Inside lo' hi') (h : hi ≤ lo') :
    Disjoint b.addresses c.addresses :=
  disjoint_of_stop_le (hb.2.trans (h.trans hc.1))

end Block

end Memory
