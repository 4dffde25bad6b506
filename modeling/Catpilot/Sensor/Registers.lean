import Mathlib.Data.UInt

/-!
# Register tables of the sensors

The drivers of the sensors configure their chips from tables of registers: the bits of each
entry are set and cleared, and then every register of the table is read back. The chip and
the bus are a parameter, so that a read may return anything.
-/

namespace Catpilot

/-- A chip behind its bus, with registers at addresses of `α`: what a read returns, and what
a read and a write leave. -/
structure RegBus (α σ : Type*) where
  readReg : α → σ → UInt8 × σ
  writeReg : α → UInt8 → σ → σ

/-- `reg_cfg_t`. -/
structure RegCfg where
  reg : UInt8
  setbits : UInt8
  clearbits : UInt8
  deriving DecidableEq, Repr

/-- The two checks on a register that is read back. -/
def RegCfg.check (cfg : RegCfg) (origVal : UInt8) : Bool :=
  origVal &&& cfg.setbits = cfg.setbits ∧ origVal &&& cfg.clearbits = 0

/-! ## Tables -/

section Bus

variable {α σ : Type*} (bus : RegBus α σ)

/-- `icm20649_set_clear_reg`, `icm20948_set_clear_reg` and `ist8310_set_clear_reg`. -/
def setClearReg (a : α) (setbits clearbits : UInt8) (s : σ) : σ :=
  let (origVal, s) := bus.readReg a s
  let val := origVal &&& ~~~clearbits ||| setbits
  if origVal ≠ val then bus.writeReg a val s else s

/-- The loop that sets a table, with the address of each register. -/
def setRegs (addr : UInt8 → α) (table : List RegCfg) (s : σ) : σ :=
  table.foldl (fun s cfg => setClearReg bus (addr cfg.reg) cfg.setbits cfg.clearbits s) s

/-- The loop that checks a table; `rv` stays only when every register passes. -/
def checkRegs (addr : UInt8 → α) (table : List RegCfg) (rv : Bool) (s : σ) : Bool × σ :=
  table.foldl (fun (rv, s) cfg =>
    let (origVal, s) := bus.readReg (addr cfg.reg) s
    (rv && cfg.check origVal, s)) (rv, s)

/-- Both loops. -/
def configureRegs (addr : UInt8 → α) (table : List RegCfg) (rv : Bool) (s : σ) : Bool × σ :=
  checkRegs bus addr table rv (setRegs bus addr table s)

/-- A failed check is not made up for by the registers after it. -/
theorem fst_checkRegs_false (addr : UInt8 → α) (table : List RegCfg) (s : σ) :
    (checkRegs bus addr table false s).1 = false := by
  induction table generalizing s with
  | nil => rfl
  | cons cfg table ih => exact ih (bus.readReg (addr cfg.reg) s).2

end Bus

/-! ## The counter of failed attempts -/

/-- The test of the counter after it is incremented. -/
theorem five_lt_succ_iff {a : UInt8} (h : a.toNat ≤ 5) : (5 : UInt8) < a + 1 ↔ a.toNat = 5 := by
  rw [UInt8.lt_iff_toNat_lt, UInt8.toNat_add]
  have hone : (1 : UInt8).toNat = 1 := rfl
  have hfive : (5 : UInt8).toNat = 5 := rfl
  omega

theorem toNat_succ {a : UInt8} (h : a.toNat ≤ 5) : (a + 1).toNat = a.toNat + 1 := by
  rw [UInt8.toNat_add]
  have hone : (1 : UInt8).toNat = 1 := rfl
  omega

/-! ## Replayed reads -/

/-- A chip whose reads return a given sequence, whatever is read and written; the state is
the number of reads made. -/
def replayBus {α : Type*} (reads : ℕ → UInt8) : RegBus α ℕ where
  readReg _ n := (reads n, n + 1)
  writeReg _ _ n := n

section Replay

variable {α : Type*} {reads : ℕ → UInt8} (addr : UInt8 → α) (table : List RegCfg)

theorem setClearReg_replay (a : α) (setbits clearbits : UInt8) (n : ℕ) :
    setClearReg (replayBus reads) a setbits clearbits n = n + 1 := by
  exact ite_self _

/-- Setting a table reads each register once. -/
theorem setRegs_replay (n : ℕ) :
    setRegs (replayBus reads) addr table n = n + table.length := by
  induction table generalizing n with
  | nil => rfl
  | cons cfg table ih =>
      rw [setRegs, List.foldl_cons, setClearReg_replay, ← setRegs, ih, List.length_cons]
      omega

/-- And so does checking it. -/
theorem snd_checkRegs_replay (rv : Bool) (n : ℕ) :
    (checkRegs (replayBus reads) addr table rv n).2 = n + table.length := by
  induction table generalizing rv n with
  | nil => rfl
  | cons cfg table ih =>
      rw [checkRegs, List.foldl_cons, ← checkRegs]
      refine (ih _ _).trans ?_
      dsimp only [List.length_cons, replayBus]
      omega

theorem snd_configureRegs_replay (rv : Bool) (n : ℕ) :
    (configureRegs (replayBus reads) addr table rv n).2 = n + 2 * table.length := by
  rw [configureRegs, snd_checkRegs_replay, setRegs_replay]
  omega

/-- A configuration fails when the first register that is read back does not pass. -/
theorem fst_configureRegs_replay {cfg : RegCfg} {n : ℕ}
    (h : cfg.check (reads (n + (table.length + 1))) = false) (rv : Bool) :
    (configureRegs (replayBus reads) addr (cfg :: table) rv n).1 = false := by
  rw [configureRegs, setRegs_replay, checkRegs, List.foldl_cons, ← checkRegs, List.length_cons]
  simp only [replayBus, h, Bool.and_false]
  exact fst_checkRegs_false _ _ _ _

end Replay

end Catpilot
