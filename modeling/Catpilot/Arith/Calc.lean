import Mathlib.Data.Int.Basic
import Mathlib.Tactic.NormNum

/-!
# Calculations in machine integers

A calculation names each intermediate value together with the type that it is computed in.
`run` does it in these types, where a value that does not fit wraps around; `exact` does it
in the integers. If every value of the run fits its type the two agree. This is stated once
for all calculations, so that of a program only the ranges are left to look at.
-/

universe u

namespace Arith

/-- The integer types of a calculation. -/
inductive IntType where
  | int32
  | uint32
  | int64
  deriving DecidableEq, Repr

namespace IntType

/-- The number of bits. -/
def width : IntType → ℕ
  | int32 | uint32 => 32
  | int64 => 64

/-- The value is in the range of the type. -/
def Fits (x : ℤ) : IntType → Prop
  | int32 => -2 ^ 31 ≤ x ∧ x < 2 ^ 31
  | uint32 => 0 ≤ x ∧ x < 2 ^ 32
  | int64 => -2 ^ 63 ≤ x ∧ x < 2 ^ 63

instance (x : ℤ) (t : IntType) : Decidable (t.Fits x) :=
  match t with
  | int32 | uint32 | int64 => inferInstanceAs (Decidable (_ ∧ _))

/-- The value as the type holds it. -/
def wrap (x : ℤ) : IntType → ℤ
  | int32 => x.bmod (2 ^ 32)
  | uint32 => x % 2 ^ 32
  | int64 => x.bmod (2 ^ 64)

theorem wrap_of_fits {t : IntType} {x : ℤ} (h : t.Fits x) : t.wrap x = x := by
  cases t with
  | int32 =>
      obtain ⟨hlo, hhi⟩ := h
      exact Int.bmod_eq_of_le (by omega) (by omega)
  | uint32 => exact Int.emod_eq_of_lt h.1 h.2
  | int64 =>
      obtain ⟨hlo, hhi⟩ := h
      exact Int.bmod_eq_of_le (by omega) (by omega)

end IntType

/-- A calculation: a result, or an intermediate value and what is done with it. -/
inductive Calc (α : Type u) where
  | ret (a : α)
  | value (t : IntType) (x : ℤ) (next : ℤ → Calc α)

namespace Calc

section Meaning

variable {α β : Type u}

/-- The result in machine integers. -/
def run : Calc α → α
  | ret a => a
  | value t x next => (next (t.wrap x)).run

/-- The result in the integers. -/
def exact : Calc α → α
  | ret a => a
  | value _ x next => (next x).exact

/-- No value of the run is out of the range of its type. -/
def NoWrap : Calc α → Prop
  | ret _ => True
  | value t x next => t.Fits x ∧ (next (t.wrap x)).NoWrap

/-- Without a value that wraps around the result is the one in the integers. -/
theorem run_eq_exact {c : Calc α} (h : c.NoWrap) : c.run = c.exact := by
  induction c with
  | ret a => rfl
  | value t x next ih =>
      obtain ⟨hfits, hnext⟩ := h
      rw [run, exact, ih _ hnext, IntType.wrap_of_fits hfits]

/-- One calculation after another. -/
def bind : Calc α → (α → Calc β) → Calc β
  | ret a, f => f a
  | value t x next, f => value t x fun y => (next y).bind f

instance : Monad Calc where
  pure := ret
  bind := bind

/-- An intermediate value. -/
def hold (t : IntType) (x : ℤ) : Calc ℤ := value t x ret

@[simp] theorem noWrap_pure (a : α) : (pure a : Calc α).NoWrap ↔ True := Iff.rfl

@[simp] theorem exact_pure (a : α) : (pure a : Calc α).exact = a := rfl

@[simp] theorem exact_hold (t : IntType) (x : ℤ) : (hold t x).exact = x := rfl

theorem noWrap_hold (t : IntType) (x : ℤ) : (hold t x).NoWrap ↔ t.Fits x :=
  and_iff_left trivial

@[simp] theorem exact_bind (c : Calc α) (f : α → Calc β) :
    (c >>= f).exact = (f c.exact).exact := by
  induction c with
  | ret a => rfl
  | value t x next ih => exact ih x

/-- No value of two calculations wraps around if none of the first does, nor of the second
from the exact result of the first on. -/
theorem noWrap_bind (c : Calc α) (f : α → Calc β) :
    (c >>= f).NoWrap ↔ c.NoWrap ∧ (f c.exact).NoWrap := by
  induction c with
  | ret a => exact (and_iff_right trivial).symm
  | value t x next ih =>
      have hiff : (value t x next >>= f).NoWrap ↔
          t.Fits x ∧ (next (t.wrap x) >>= f).NoWrap := Iff.rfl
      rw [hiff, ih, NoWrap, exact, and_assoc]
      refine and_congr_right fun hfits => ?_
      rw [IntType.wrap_of_fits hfits]

end Meaning

end Calc

end Arith
