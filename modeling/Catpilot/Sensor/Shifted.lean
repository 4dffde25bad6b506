import Mathlib.Data.List.Basic
import Mathlib.Logic.Function.Basic

/-!
# Chips that shift their registers

A chip takes a command and then shifts the bytes of one register, in or out, the first one
first. How many bytes a register has depends on its address. A transfer of a command and as
many bytes as the register has leaves the chip ready for the next command.
-/

namespace ShiftRegisters

/-- What a command asks of the register at an address. -/
inductive Command (ι : Type*) where
  | write (a : ι)
  | read (a : ι)
  deriving DecidableEq

/-- What a chip expects next: a command, the rest of a register that is written, or a byte
for each one of a register that is left to send. -/
inductive Phase (ι α : Type*) where
  | command
  | writing (a : ι) (got : List α)
  | reading (rest : List α)

/-- Registers with as many bytes as `size` says. -/
abbrev Contents {ι : Type*} (size : ι → ℕ) (α : Type*) :=
  (a : ι) → {bytes : List α // bytes.length = size a}

/-- A chip with registers of `size` bytes. -/
structure Chip {ι : Type*} (size : ι → ℕ) (α : Type*) where
  regs : Contents size α
  phase : Phase ι α

namespace Chip

variable {ι α : Type*} [DecidableEq ι] {size : ι → ℕ} (decode : α → Option (Command ι))
  (idle : α)

/-- The chip takes a byte and sends one. -/
def step (chip : Chip size α) (b : α) : Chip size α × α :=
  match chip.phase with
  | .command => match decode b with
    | none => (chip, idle)
    | some (.write a) => ({ chip with phase := .writing a [] }, idle)
    | some (.read a) => ({ chip with phase := .reading (chip.regs a).1 }, idle)
  | .writing a got =>
      if h : (got ++ [b]).length = size a then
        ({ regs := Function.update chip.regs a ⟨got ++ [b], h⟩, phase := .command }, idle)
      else ({ chip with phase := .writing a (got ++ [b]) }, idle)
  | .reading [] => ({ chip with phase := .command }, idle)
  | .reading [c] => ({ chip with phase := .command }, c)
  | .reading (c :: rest) => ({ chip with phase := .reading rest }, c)

/-- The chip takes the bytes of a transfer. -/
def transfer : Chip size α → List α → Chip size α × List α
  | chip, [] => (chip, [])
  | chip, b :: bs =>
      let next := step decode idle chip b
      let rest := transfer next.1 bs
      (rest.1, next.2 :: rest.2)

theorem transfer_cons (chip : Chip size α) (b : α) (bs : List α) :
    transfer decode idle chip (b :: bs) =
      ((transfer decode idle (step decode idle chip b).1 bs).1,
        (step decode idle chip b).2 :: (transfer decode idle (step decode idle chip b).1 bs).2) :=
  rfl

section Phases

variable {decode idle} (regs : Contents size α)

/-- The last byte of a register is stored with the others. -/
theorem step_writing_last {a : ι} {got : List α} {b : α} (h : (got ++ [b]).length = size a) :
    step decode idle ⟨regs, .writing a got⟩ b =
      (⟨Function.update regs a ⟨got ++ [b], h⟩, .command⟩, idle) :=
  dif_pos h

theorem step_writing_more {a : ι} {got : List α} {b : α} (h : (got ++ [b]).length ≠ size a) :
    step decode idle ⟨regs, .writing a got⟩ b = (⟨regs, .writing a (got ++ [b])⟩, idle) :=
  dif_neg h

/-- The rest of a register that is written. -/
theorem transfer_writing {a : ι} {bs : List α} (hne : bs ≠ []) (got : List α)
    (hlen : (got ++ bs).length = size a) :
    (transfer decode idle ⟨regs, .writing a got⟩ bs).1 =
      ⟨Function.update regs a ⟨got ++ bs, hlen⟩, .command⟩ := by
  induction bs generalizing got with
  | nil => exact absurd rfl hne
  | cons b bs ih =>
      have hsplit : got ++ b :: bs = (got ++ [b]) ++ bs := List.append_cons got b bs
      cases bs with
      | nil =>
          rw [transfer_cons, step_writing_last regs hlen]
          rfl
      | cons c bs =>
          have hmore : ¬ (got ++ [b]).length = size a := by
            rw [← hlen]
            simp
          rw [transfer_cons, step_writing_more regs hmore, ih (List.cons_ne_nil c bs) (got ++ [b])
            (by rw [← hsplit]; exact hlen)]
          simp only [hsplit]

/-- The rest of a register that is read. -/
theorem transfer_reading {bs ds : List α} (hne : bs ≠ []) (hlen : ds.length = bs.length) :
    transfer decode idle ⟨regs, .reading bs⟩ ds = (⟨regs, .command⟩, bs) := by
  induction bs generalizing ds with
  | nil => exact absurd rfl hne
  | cons b bs ih =>
      cases ds with
      | nil => exact absurd hlen.symm (Nat.succ_ne_zero _)
      | cons d ds =>
          rw [List.length_cons, List.length_cons, Nat.succ_inj] at hlen
          cases bs with
          | nil =>
              rw [List.length_eq_zero_iff.1 hlen]
              rfl
          | cons c bs =>
              rw [transfer_cons, step, ih (List.cons_ne_nil c bs) hlen]

/-- A write of a whole register. -/
theorem transfer_write {a : ι} {b : α} {bs : List α} (hb : decode b = some (.write a))
    (hsize : 0 < size a) (hlen : bs.length = size a) :
    (transfer decode idle ⟨regs, .command⟩ (b :: bs)).1 =
      ⟨Function.update regs a ⟨bs, hlen⟩, .command⟩ := by
  have hne : bs ≠ [] := by
    apply List.ne_nil_of_length_pos
    rwa [hlen]
  simp only [transfer_cons, step, hb]
  exact transfer_writing regs hne [] hlen

/-- A read of a whole register. -/
theorem transfer_read {a : ι} {b : α} {bs : List α} (hb : decode b = some (.read a))
    (hsize : 0 < size a) (hlen : bs.length = size a) :
    transfer decode idle ⟨regs, .command⟩ (b :: bs) =
      (⟨regs, .command⟩, idle :: (regs a).1) := by
  have hregs : (regs a).1.length = size a := (regs a).2
  have hne : (regs a).1 ≠ [] := by
    apply List.ne_nil_of_length_pos
    rwa [hregs]
  simp only [transfer_cons, step, hb]
  rw [transfer_reading regs hne (hlen.trans hregs.symm)]

end Phases

end Chip

end ShiftRegisters
