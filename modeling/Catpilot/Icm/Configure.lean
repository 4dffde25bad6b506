import Catpilot.Icm.Bank
import Catpilot.Icm.Registers
import Catpilot.Sensor.Stored

/-!
# Configuring the ICM20649 and the ICM20948

The registers of a chip are in banks, which share their addresses, and an access goes to the
bank that was selected last. On a chip that stores what is written, and that no other sensor
of the driver is mistaken for, the configuration sets and clears the bits of the tables in
their banks and leaves all other bits.
-/

namespace Catpilot

open Icm

/-! ## A chip that stores what is written -/

/-- The bank register, and the registers of each bank. -/
structure IdealIcm where
  bank : UInt8
  regs : UInt8 → UInt8 → UInt8

/-- A transfer: the byte shifted out behind the command, and the chip after it. -/
def IdealIcm.transfer (chip : IdealIcm) : List UInt8 → UInt8 × IdealIcm
  | cmd :: value :: _ =>
      if cmd &&& icmRead ≠ 0 then
        let reg := cmd &&& ~~~icmRead
        (if reg = regBankSel then chip.bank else chip.regs chip.bank reg, chip)
      else if cmd = regBankSel then (0, { chip with bank := value })
      else (0, { chip with
        regs := Function.update chip.regs chip.bank
          (Function.update (chip.regs chip.bank) cmd value) })
  | _ => (0, chip)

/-- The static variable of a driver, and its one chip. -/
structure IcmLink where
  prevBank : UInt8
  chip : IdealIcm

/-- `icm20649_exchange` and `icm20948_exchange`: the byte received behind the first. -/
def icmLinkExchange (access : IcmAccess) (s : IcmLink) : UInt8 × IcmLink :=
  let chip := match setBank s.prevBank access.bank with
    | some tx => (s.chip.transfer tx).2
    | none => s.chip
  let (value, chip) := chip.transfer access.tx
  (value, ⟨access.bank, chip⟩)

/-- `read_reg` and `write_reg` of the two drivers. -/
def icmLinkBus : RegBus (UInt8 × UInt8) IcmLink where
  readReg a s := icmLinkExchange (.readReg a.1 a.2) s
  writeReg a value s := (icmLinkExchange (.writeReg a.1 a.2 value) s).2

/-- A driver before its first access, with its chip. -/
def icmLinkInit (chip : IdealIcm) : IcmLink := ⟨0xFF, chip⟩

/-- Accesses of the driver, one after the other. -/
def icmLinkRun (accesses : List IcmAccess) (s : IcmLink) : IcmLink :=
  accesses.foldl (fun s access => (icmLinkExchange access s).2) s

/-! ## The bank -/

/-- The chip has the bank of the static variable, unless there has been no access. -/
def IcmLink.Coherent (s : IcmLink) : Prop := s.prevBank = 0xFF ∨ s.chip.bank = s.prevBank

/-- The chip when the access itself is transmitted. -/
def IcmLink.selected (s : IcmLink) (bank : UInt8) : IdealIcm :=
  match setBank s.prevBank bank with
  | some tx => (s.chip.transfer tx).2
  | none => s.chip

theorem icmLinkExchange_eq (access : IcmAccess) (s : IcmLink) :
    icmLinkExchange access s =
      (((s.selected access.bank).transfer access.tx).1,
        ⟨access.bank, ((s.selected access.bank).transfer access.tx).2⟩) := rfl

theorem IcmLink.selected_regs (s : IcmLink) (bank : UInt8) :
    (s.selected bank).regs = s.chip.regs := by
  rw [IcmLink.selected, setBank]
  split_ifs with hne
  · rfl
  · rfl

theorem IcmLink.Coherent.selected_bank {s : IcmLink} (h : s.Coherent) {bank : UInt8}
    (hbank : bank ≠ 0xFF) : (s.selected bank).bank = bank := by
  rw [IcmLink.selected, setBank]
  split_ifs with hne
  · rfl
  · have heq : bank = s.prevBank := not_not.1 hne
    rcases h with hstart | hcoherent
    · exact absurd (heq.trans hstart) hbank
    · exact hcoherent.trans heq.symm

theorem or_icmRead_and (reg : UInt8) : (reg ||| icmRead) &&& icmRead ≠ 0 := by
  have hbits : ∀ b : BitVec 8, (b ||| 0x80) &&& 0x80 ≠ 0 := by decide
  intro h
  exact hbits reg.toBitVec (congrArg UInt8.toBitVec h)

/-- The bank register of the chip is the one that a transfer leaves. -/
theorem IdealIcm.transfer_bank (chip : IdealIcm) (tx : List UInt8) :
    (chip.transfer tx).2.bank = chipReceive chip.bank tx := by
  match tx with
  | [] | [_] => rfl
  | cmd :: value :: _ =>
      rw [IdealIcm.transfer, chipReceive]
      by_cases hsel : cmd = regBankSel
      · rw [if_pos hsel, hsel, if_neg (by decide), if_pos rfl]
      · rw [if_neg hsel, if_neg hsel]
        split_ifs with hread
        · rfl
        · rfl

theorem IcmLink.Coherent.exchange {s : IcmLink} (h : s.Coherent) {access : IcmAccess}
    (haccess : access.overwritesBank = false) : (icmLinkExchange access s).2.Coherent := by
  by_cases hbank : access.bank = 0xFF
  · exact Or.inl hbank
  · apply Or.inr
    have htransfer := IdealIcm.transfer_bank (s.selected access.bank) access.tx
    rw [h.selected_bank hbank, chipReceive_tx haccess] at htransfer
    exact htransfer

/-- Accesses that do not write to the bank register keep the chip and the variable
together. -/
theorem IcmLink.Coherent.run {s : IcmLink} (h : s.Coherent) {accesses : List IcmAccess}
    (haccesses : ∀ access ∈ accesses, access.overwritesBank = false) :
    (icmLinkRun accesses s).Coherent := by
  induction accesses generalizing s with
  | nil => exact h
  | cons access accesses ih =>
      exact ih (h.exchange (haccesses access List.mem_cons_self))
        fun access hmem => haccesses access (List.mem_cons_of_mem _ hmem)

/-! ## Registers -/

/-- The registers that the drivers reach: any but the bank register, in a bank that the
static variable does not start with. -/
def IcmStored (a : UInt8 × UInt8) : Prop := a.1 ≠ 0xFF ∧ a.2 < regBankSel

instance (a : UInt8 × UInt8) : Decidable (IcmStored a) := inferInstanceAs (Decidable (_ ∧ _))

/-- The registers of the chip, by bank and number. -/
def IcmLink.contents (s : IcmLink) (a : UInt8 × UInt8) : UInt8 := s.chip.regs a.1 a.2

theorem or_icmRead_and_not {reg : UInt8} (h : reg < regBankSel) :
    (reg ||| icmRead) &&& ~~~icmRead = reg := by
  have hbits : ∀ b : BitVec 8, b < 0x7F → (b ||| 0x80) &&& ~~~0x80 = b := by decide
  exact UInt8.toBitVec_inj.1 (hbits reg.toBitVec h)

theorem or_icmWrite_and {reg : UInt8} (h : reg < regBankSel) :
    ¬ (reg ||| icmWrite) &&& icmRead ≠ 0 := by
  have hbits : ∀ b : BitVec 8, b < 0x7F → (b ||| 0) &&& 0x80 = 0 := by decide
  exact not_not_intro (UInt8.toBitVec_inj.1 (hbits reg.toBitVec h))

theorem or_icmWrite (reg : UInt8) : reg ||| icmWrite = reg := UInt8.or_zero

/-- The chip stores what is written. -/
theorem storesRegs_icmLinkBus :
    StoresRegs icmLinkBus IcmLink.Coherent IcmStored IcmLink.contents where
  read := by
    rintro ⟨bank, reg⟩ s ⟨hbank, hreg⟩ hs
    have hne : ¬ reg = regBankSel := UInt8.ne_of_lt hreg
    have hread : (s.selected bank).transfer (IcmAccess.readReg bank reg).tx =
        (s.chip.regs bank reg, s.selected bank) := by
      rw [IcmAccess.tx, IdealIcm.transfer, if_pos (or_icmRead_and reg)]
      simp only [or_icmRead_and_not hreg, if_neg hne, s.selected_regs, hs.selected_bank hbank]
    have hexchange : icmLinkExchange (.readReg bank reg) s =
        (s.chip.regs bank reg, ⟨bank, s.selected bank⟩) := by
      rw [icmLinkExchange_eq, IcmAccess.bank, hread]
    have hvalid : (icmLinkExchange (.readReg bank reg) s).2.Coherent := hs.exchange rfl
    refine ⟨congrArg Prod.fst hexchange, hvalid, ?_⟩
    change (icmLinkExchange (.readReg bank reg) s).2.contents = s.contents
    rw [hexchange]
    funext a
    exact congrFun (congrFun (s.selected_regs bank) a.1) a.2
  write := by
    rintro ⟨bank, reg⟩ s value ⟨hbank, hreg⟩ hs
    have hne : ¬ reg = regBankSel := UInt8.ne_of_lt hreg
    have hwrite : (s.selected bank).transfer (IcmAccess.writeReg bank reg value).tx =
        (0, ⟨bank, Function.update s.chip.regs bank
          (Function.update (s.chip.regs bank) reg value)⟩) := by
      rw [IcmAccess.tx, IdealIcm.transfer, if_neg (or_icmWrite_and hreg), or_icmWrite, if_neg hne,
        s.selected_regs, hs.selected_bank hbank]
    have hoverwrites : (IcmAccess.writeReg bank reg value).overwritesBank = false := by
      apply decide_eq_false
      rw [or_icmWrite]
      exact fun h => hne h.1
    have hexchange : (icmLinkExchange (.writeReg bank reg value) s).2 =
        ⟨bank, ⟨bank, Function.update s.chip.regs bank
          (Function.update (s.chip.regs bank) reg value)⟩⟩ := by
      rw [icmLinkExchange_eq, IcmAccess.bank, hwrite]
    refine ⟨hs.exchange hoverwrites, ?_⟩
    change (icmLinkExchange (.writeReg bank reg value) s).2.contents = _
    rw [hexchange]
    exact Function.uncurry_update_update s.chip.regs bank reg value

/-! ## The tables -/

namespace BankedSensor

/-- The entries of all tables, with the banks and the numbers of their registers. -/
def rows (sensor : BankedSensor) : List ((UInt8 × UInt8) × RegCfg) :=
  sensor.tables.flatMap fun table => tableRows (fun reg => (table.1, reg)) table.2

theorem nodup_rows (sensor : BankedSensor) : (sensor.rows.map Prod.fst).Nodup := by
  cases sensor with
  | icm20649 => decide
  | icm20948 enableMag =>
      cases enableMag with
      | false => decide
      | true => decide

theorem tables_ok (sensor : BankedSensor) : ∀ table ∈ sensor.tables,
    (∀ cfg ∈ table.2, IcmStored (table.1, cfg.reg)) ∧
      ((tableRows (fun reg => (table.1, reg)) table.2).map Prod.fst).Nodup ∧
        ∀ cfg ∈ table.2, cfg.setbits &&& cfg.clearbits = 0 := by
  cases sensor with
  | icm20649 => decide
  | icm20948 enableMag =>
      cases enableMag with
      | false => decide
      | true => decide

end BankedSensor

/-- The registers of the tables have their bits set and clear, and all other bits are as
before. -/
structure Configured (sensor : BankedSensor) (before after : UInt8 × UInt8 → UInt8) : Prop where
  set : ∀ a cfg, (a, cfg) ∈ sensor.rows → after a &&& cfg.setbits = cfg.setbits
  clear : ∀ a cfg, (a, cfg) ∈ sensor.rows → after a &&& cfg.clearbits = 0
  frame : ∀ a i, (∀ cfg, (a, cfg) ∈ sensor.rows →
      (cfg.setbits ||| cfg.clearbits).toBitVec.getLsbD i = false) →
    (after a).toBitVec.getLsbD i = (before a).toBitVec.getLsbD i

theorem configured_applyRows (sensor : BankedSensor) (regs : UInt8 × UInt8 → UInt8) :
    Configured sensor regs (applyRows sensor.rows regs) := by
  have hcheck : ∀ a cfg, (a, cfg) ∈ sensor.rows →
      applyRows sensor.rows regs a &&& cfg.setbits = cfg.setbits ∧
        applyRows sensor.rows regs a &&& cfg.clearbits = 0 := by
    intro a cfg hrow
    obtain ⟨table, htable, hmem⟩ := List.mem_flatMap.1 hrow
    obtain ⟨cfg', hcfg, heq⟩ := List.mem_map.1 hmem
    obtain rfl : cfg' = cfg := congrArg Prod.snd heq
    have hbits := (sensor.tables_ok table htable).2.2 cfg' hcfg
    rw [applyRows_of_mem sensor.nodup_rows hrow]
    exact of_decide_eq_true (RegCfg.check_apply hbits (regs a))
  refine ⟨fun a cfg h => (hcheck a cfg h).1, fun a cfg h => (hcheck a cfg h).2, ?_⟩
  intro a i hframe
  by_cases hmem : a ∈ sensor.rows.map Prod.fst
  · obtain ⟨⟨b, cfg⟩, hrow, rfl⟩ := List.mem_map.1 hmem
    rw [applyRows_of_mem sensor.nodup_rows hrow]
    exact RegCfg.getLsbD_apply_of_frame (hframe cfg hrow) _
  · rw [applyRows_of_notMem hmem]

/-! ## Configuring -/

section Configure

variable (sensor : BankedSensor) (scaling : IcmScaling) (param : IcmMeasParam) {s : IcmLink}

/-- `accel_configure` and `gyro_configure` read a register each. -/
theorem contents_accelConfigure (hs : s.Coherent) :
    (accelConfigure sensor icmLinkBus scaling param s).2.Coherent ∧
      (accelConfigure sensor icmLinkBus scaling param s).2.contents = s.contents := by
  have hread := storesRegs_icmLinkBus.read (a := (bank2, accelConfig)) (by decide) hs
  rw [accelConfigure]
  dsimp only
  split
  · exact hread.2
  · exact hread.2

theorem contents_gyroConfigure {param : IcmMeasParam} (hs : s.Coherent) :
    (gyroConfigure sensor icmLinkBus scaling param s).2.contents = s.contents :=
  (storesRegs_icmLinkBus.read (a := (bank2, gyroConfig1)) (by decide) hs).2.2

theorem icmConfigure_of_coherent (hs : s.Coherent) :
    (icmConfigure sensor icmLinkBus scaling param s).1 = true ∧
      Configured sensor s.contents
        (icmConfigure sensor icmLinkBus scaling param s).2.2.contents := by
  obtain ⟨hrv, hvalid, hcontents⟩ :=
    storesRegs_icmLinkBus.configureTables sensor.tables_ok true hs
  obtain ⟨haccel, haccelContents⟩ := contents_accelConfigure sensor scaling param hvalid
  have hafter : (icmConfigure sensor icmLinkBus scaling param s).2.2.contents =
      applyRows sensor.rows s.contents :=
    ((contents_gyroConfigure sensor scaling haccel).trans haccelContents).trans hcontents
  refine ⟨hrv, ?_⟩
  rw [hafter]
  exact configured_applyRows sensor s.contents

end Configure

/-- The only chip of a driver, with any contents of its banks and any earlier accesses that
do not write to its bank register: the configuration returns 1, the bits of the tables are
set and clear, and all other bits are as before. -/
theorem icmConfigure_frame (sensor : BankedSensor) (scaling : IcmScaling) (param : IcmMeasParam)
    (chip : IdealIcm) {accesses : List IcmAccess}
    (h : ∀ access ∈ accesses, access.overwritesBank = false) :
    let s := icmLinkRun accesses (icmLinkInit chip)
    let r := icmConfigure sensor icmLinkBus scaling param s
    r.1 = true ∧ Configured sensor s.contents r.2.2.contents := by
  have hstart : (icmLinkInit chip).Coherent := Or.inl rfl
  exact icmConfigure_of_coherent sensor scaling param (hstart.run h)

theorem icmConfigure_frame_reset :
    let s := icmLinkRun [.writeReg bank0 pwrMgmt1 deviceReset] (icmLinkInit ⟨0, fun _ _ => 0x55⟩)
    let r := icmConfigure (.icm20948 true) icmLinkBus
      ⟨fun _ => 0, fun _ => 0, fun _ => 0, fun scale => scale⟩ ⟨0, 0, 0, 0⟩ s
    r.1 = true ∧ Configured (.icm20948 true) s.contents r.2.2.contents := by
  apply icmConfigure_frame
  intro access hmem
  rw [List.mem_singleton.1 hmem]
  decide

end Catpilot
