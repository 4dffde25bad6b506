import Catpilot.Sensor.Registers
import Mathlib.Data.List.Nodup
import Mathlib.Logic.Function.Basic

/-!
# Configuring a chip that stores what is written

On a chip whose registers store what is written, setting a table does to each register of
the table what its entry says, and nothing to the others, as long as no register is in the
table twice. Reading the table back then finds every bit as it has been set.
-/

namespace Catpilot

/-! ## Registers that store what is written -/

/-- A chip that stores: in the states of `valid`, the registers at the addresses of `stored`
are read as `contents` has them, and a write changes the one that is written. -/
structure StoresRegs {α σ : Type*} [DecidableEq α] (bus : RegBus α σ) (valid : σ → Prop)
    (stored : α → Prop) (contents : σ → α → UInt8) : Prop where
  read : ∀ {a s}, stored a → valid s → (bus.readReg a s).1 = contents s a ∧
    valid (bus.readReg a s).2 ∧ contents (bus.readReg a s).2 = contents s
  write : ∀ {a s} value, stored a → valid s → valid (bus.writeReg a value s) ∧
    contents (bus.writeReg a value s) = Function.update (contents s) a value

/-- The value that an entry makes of a register. -/
def RegCfg.apply (cfg : RegCfg) (origVal : UInt8) : UInt8 :=
  origVal &&& ~~~cfg.clearbits ||| cfg.setbits

/-- What the entries of a list, each with the address of its register, make of the
registers. -/
def applyRows {α : Type*} [DecidableEq α] (rows : List (α × RegCfg)) (regs : α → UInt8) :
    α → UInt8 :=
  rows.foldl (fun regs row => Function.update regs row.1 (row.2.apply (regs row.1))) regs

section Rows

variable {α : Type*} [DecidableEq α]

theorem applyRows_append (rows rows' : List (α × RegCfg)) (regs : α → UInt8) :
    applyRows (rows ++ rows') regs = applyRows rows' (applyRows rows regs) := List.foldl_append

/-- A register that is not in the list keeps its value. -/
theorem applyRows_of_notMem {rows : List (α × RegCfg)} {a : α} (h : a ∉ rows.map Prod.fst)
    (regs : α → UInt8) : applyRows rows regs a = regs a := by
  induction rows generalizing regs with
  | nil => rfl
  | cons row rows ih =>
      rw [List.map_cons, List.mem_cons, not_or] at h
      rw [applyRows, List.foldl_cons, ← applyRows, ih h.2, Function.update_of_ne h.1]

/-- A register that is in the list once gets the value of its entry. -/
theorem applyRows_of_mem {rows : List (α × RegCfg)} (hnodup : (rows.map Prod.fst).Nodup) {a : α}
    {cfg : RegCfg} (h : (a, cfg) ∈ rows) (regs : α → UInt8) :
    applyRows rows regs a = cfg.apply (regs a) := by
  induction rows generalizing regs with
  | nil => cases h
  | cons row rows ih =>
      rw [List.map_cons, List.nodup_cons] at hnodup
      rw [applyRows, List.foldl_cons, ← applyRows]
      rcases List.mem_cons.1 h with rfl | hmem
      · rw [applyRows_of_notMem hnodup.1, Function.update_self]
      · have hne : a ≠ row.1 := by
          rintro rfl
          exact hnodup.1 (List.mem_map.2 ⟨_, hmem, rfl⟩)
        rw [ih hnodup.2 hmem, Function.update_of_ne hne]

end Rows

/-! ## Bits of an entry -/

namespace RegCfg

variable {cfg : RegCfg}

theorem getLsbD_apply (origVal : UInt8) {i : ℕ} (hi : i < 8) :
    (cfg.apply origVal).toBitVec.getLsbD i =
      (origVal.toBitVec.getLsbD i && !cfg.clearbits.toBitVec.getLsbD i ||
        cfg.setbits.toBitVec.getLsbD i) := by
  rw [RegCfg.apply, UInt8.toBitVec_or, UInt8.toBitVec_and, UInt8.toBitVec_not, BitVec.getLsbD_or,
    BitVec.getLsbD_and, BitVec.getLsbD_not, decide_eq_true hi, Bool.true_and]

/-- The value of an entry has its bits set, and its bits clear if they are not set too. -/
theorem check_apply (h : cfg.setbits &&& cfg.clearbits = 0) (origVal : UInt8) :
    cfg.check (cfg.apply origVal) = true := by
  have hset : cfg.apply origVal &&& cfg.setbits = cfg.setbits := by
    apply UInt8.toBitVec_inj.1
    apply BitVec.eq_of_getLsbD_eq
    intro i hi
    rw [UInt8.toBitVec_and, BitVec.getLsbD_and, getLsbD_apply origVal hi]
    cases cfg.setbits.toBitVec.getLsbD i with
    | false => rw [Bool.and_false]
    | true => rw [Bool.or_true, Bool.and_self]
  have hclear : cfg.apply origVal &&& cfg.clearbits = 0 := by
    rw [← h]
    apply UInt8.toBitVec_inj.1
    apply BitVec.eq_of_getLsbD_eq
    intro i hi
    rw [UInt8.toBitVec_and, UInt8.toBitVec_and, BitVec.getLsbD_and, BitVec.getLsbD_and,
      getLsbD_apply origVal hi]
    cases cfg.clearbits.toBitVec.getLsbD i with
    | false => rw [Bool.and_false, Bool.and_false]
    | true => rw [Bool.not_true, Bool.and_false, Bool.false_or]
  exact decide_eq_true ⟨hset, hclear⟩

/-- A bit that is neither set nor cleared. -/
theorem getLsbD_apply_of_frame {i : ℕ}
    (h : (cfg.setbits ||| cfg.clearbits).toBitVec.getLsbD i = false) (origVal : UInt8) :
    (cfg.apply origVal).toBitVec.getLsbD i = origVal.toBitVec.getLsbD i := by
  by_cases hi : i < 8
  · rw [UInt8.toBitVec_or, BitVec.getLsbD_or, Bool.or_eq_false_iff] at h
    rw [getLsbD_apply origVal hi, h.1, h.2, Bool.not_false, Bool.and_true, Bool.or_false]
  · rw [BitVec.getLsbD_of_ge _ i (Nat.le_of_not_lt hi),
      BitVec.getLsbD_of_ge _ i (Nat.le_of_not_lt hi)]

end RegCfg

/-! ## The loops -/

section Loops

variable {α σ : Type*} [DecidableEq α] {bus : RegBus α σ} {valid : σ → Prop} {stored : α → Prop}
  {contents : σ → α → UInt8} (hbus : StoresRegs bus valid stored contents)
  {addr : UInt8 → α} {table : List RegCfg}

/-- The entries of a table with the addresses of their registers. -/
def tableRows (addr : UInt8 → α) (table : List RegCfg) : List (α × RegCfg) :=
  table.map fun cfg => (addr cfg.reg, cfg)

include hbus

theorem StoresRegs.setClearReg {a : α} (ha : stored a) (cfg : RegCfg) {s : σ} (hs : valid s) :
    valid (setClearReg bus a cfg.setbits cfg.clearbits s) ∧
      contents (setClearReg bus a cfg.setbits cfg.clearbits s) =
        Function.update (contents s) a (cfg.apply (contents s a)) := by
  obtain ⟨hval, hvalid, hcontents⟩ := hbus.read ha hs
  obtain ⟨hwvalid, hwcontents⟩ := hbus.write (cfg.apply (contents s a)) ha hvalid
  rw [Catpilot.setClearReg]
  simp only [hval]
  split_ifs with hne
  · exact ⟨hwvalid, hwcontents.trans (by rw [hcontents])⟩
  · refine ⟨hvalid, hcontents.trans ?_⟩
    rw [← RegCfg.apply, not_not] at hne
    rw [← hne, Function.update_eq_self]

/-- Setting a table. -/
theorem StoresRegs.setRegs (h : ∀ cfg ∈ table, stored (addr cfg.reg)) {s : σ} (hs : valid s) :
    valid (setRegs bus addr table s) ∧
      contents (setRegs bus addr table s) = applyRows (tableRows addr table) (contents s) := by
  induction table generalizing s with
  | nil => exact ⟨hs, rfl⟩
  | cons cfg table ih =>
      obtain ⟨hvalid, hcontents⟩ := hbus.setClearReg (h cfg List.mem_cons_self) cfg hs
      have hrest := ih (fun cfg hmem => h cfg (List.mem_cons_of_mem _ hmem)) hvalid
      rw [hcontents] at hrest
      exact hrest

/-- Reading a table back. -/
theorem StoresRegs.checkRegs (h : ∀ cfg ∈ table, stored (addr cfg.reg)) (rv : Bool) {s : σ}
    (hs : valid s) :
    (checkRegs bus addr table rv s).1 =
        (rv && table.all fun cfg => cfg.check (contents s (addr cfg.reg))) ∧
      valid (checkRegs bus addr table rv s).2 ∧
      contents (checkRegs bus addr table rv s).2 = contents s := by
  induction table generalizing rv s with
  | nil => exact ⟨(Bool.and_true rv).symm, hs, rfl⟩
  | cons cfg table ih =>
      obtain ⟨hval, hvalid, hcontents⟩ := hbus.read (h cfg List.mem_cons_self) hs
      obtain ⟨hrv, hrest, hrestContents⟩ :=
        ih (fun cfg hmem => h cfg (List.mem_cons_of_mem _ hmem))
          (rv && cfg.check (bus.readReg (addr cfg.reg) s).1) hvalid
      refine ⟨hrv.trans ?_, hrest, hrestContents.trans hcontents⟩
      rw [hval, hcontents, List.all_cons, Bool.and_assoc]

/-- Where the registers of a table are different ones, and no bit is both set and cleared,
both loops leave the returned value. -/
theorem StoresRegs.configureRegs (h : ∀ cfg ∈ table, stored (addr cfg.reg))
    (hnodup : ((tableRows addr table).map Prod.fst).Nodup)
    (hbits : ∀ cfg ∈ table, cfg.setbits &&& cfg.clearbits = 0) (rv : Bool) {s : σ}
    (hs : valid s) :
    (configureRegs bus addr table rv s).1 = rv ∧ valid (configureRegs bus addr table rv s).2 ∧
      contents (configureRegs bus addr table rv s).2 =
        applyRows (tableRows addr table) (contents s) := by
  obtain ⟨hvalid, hcontents⟩ := hbus.setRegs h hs
  obtain ⟨hrv, hvalid', hcontents'⟩ := hbus.checkRegs h rv hvalid
  refine ⟨hrv.trans ?_, hvalid', hcontents'.trans hcontents⟩
  have hcheck : (table.all fun cfg =>
      cfg.check (contents (Catpilot.setRegs bus addr table s) (addr cfg.reg))) = true := by
    apply List.all_eq_true.2
    intro cfg hmem
    have hrow : (addr cfg.reg, cfg) ∈ tableRows addr table := List.mem_map.2 ⟨cfg, hmem, rfl⟩
    rw [hcontents, applyRows_of_mem hnodup hrow]
    exact RegCfg.check_apply (hbits cfg hmem) _
  rw [hcheck, Bool.and_true]

/-- The tables of several groups of registers, one after the other. -/
theorem StoresRegs.configureTables {β : Type*} {addr : β → UInt8 → α}
    {tables : List (β × List RegCfg)}
    (h : ∀ table ∈ tables, (∀ cfg ∈ table.2, stored (addr table.1 cfg.reg)) ∧
      ((tableRows (addr table.1) table.2).map Prod.fst).Nodup ∧
        ∀ cfg ∈ table.2, cfg.setbits &&& cfg.clearbits = 0) (rv : Bool) {s : σ} (hs : valid s) :
    let r := tables.foldl (fun (rv, s) (b, table) =>
      Catpilot.configureRegs bus (addr b) table rv s) (rv, s)
    r.1 = rv ∧ valid r.2 ∧ contents r.2 =
      applyRows (tables.flatMap fun table => tableRows (addr table.1) table.2) (contents s) := by
  induction tables generalizing rv s with
  | nil => exact ⟨rfl, hs, rfl⟩
  | cons table tables ih =>
      obtain ⟨hstored, hnodup, hbits⟩ := h table List.mem_cons_self
      obtain ⟨hrv, hvalid, hcontents⟩ := hbus.configureRegs hstored hnodup hbits rv hs
      obtain ⟨hrv', hvalid', hcontents'⟩ :=
        ih (fun table hmem => h table (List.mem_cons_of_mem _ hmem))
          (Catpilot.configureRegs bus (addr table.1) table.2 rv s).1 hvalid
      refine ⟨hrv'.trans hrv, hvalid', hcontents'.trans ?_⟩
      rw [hcontents, List.flatMap_cons, applyRows_append]

end Loops

end Catpilot
