import Catpilot.Transition.Run
import Mathlib.Data.UInt
import Mathlib.Logic.Function.Basic

/-!
# The register banks of the ICM20948 and the ICM20649

A register access first selects its bank. `set_bank` keeps the bank of the last access in
a static variable and sends nothing when it is the one requested. The variable is one for
all sensors of a driver, and it is set even when the transfer has failed; so the bank of a
chip is the requested one where the select is sent and reaches the chip, or where the last
select of the driver reached this very chip.
-/

namespace Catpilot

open Transition

/-! ## Transfers -/

/-- `REG_BANK_SEL`. -/
def regBankSel : UInt8 := 0x7F

/-- `READ`. -/
def icmRead : UInt8 := 0x80

/-- `WRITE`. -/
def icmWrite : UInt8 := 0x00

/-- The transfer that `set_bank` makes, with the bank of the access before. -/
def setBank (prevBank bank : UInt8) : Option (List UInt8) :=
  if bank ≠ prevBank then some [regBankSel, bank] else none

/-- `icm20948_set_bank`. -/
def icm20948SetBank : UInt8 → UInt8 → Option (List UInt8) := setBank

/-- `icm20649_set_bank`. -/
def icm20649SetBank : UInt8 → UInt8 → Option (List UInt8) := setBank

/-- The drivers whose chips have banks. -/
inductive BankedIcm where
  | icm20948
  | icm20649
  deriving DecidableEq, Repr

/-- `set_bank` of a driver. -/
def BankedIcm.setBank : BankedIcm → UInt8 → UInt8 → Option (List UInt8)
  | icm20948 => icm20948SetBank
  | icm20649 => icm20649SetBank

/-- A register access: `read_reg`, `write_reg`, or a read of several registers with one
exchange. -/
inductive IcmAccess where
  | readReg (bank reg : UInt8)
  | writeReg (bank reg value : UInt8)
  | readRegs (bank reg : UInt8) (rest : List UInt8)
  deriving DecidableEq, Repr

namespace IcmAccess

/-- The bank that is requested. -/
def bank : IcmAccess → UInt8
  | readReg bank _ => bank
  | writeReg bank _ _ => bank
  | readRegs bank _ _ => bank

/-- The bytes transmitted for the access. -/
def tx : IcmAccess → List UInt8
  | readReg _ reg => [reg ||| icmRead, 0]
  | writeReg _ reg value => [reg ||| icmWrite, value]
  | readRegs _ reg rest => (reg ||| icmRead) :: rest

end IcmAccess

/-- The bank register of a chip after a transfer that reaches it. -/
def chipReceive (bank : UInt8) : List UInt8 → UInt8
  | reg :: value :: _ => if reg = regBankSel then value else bank
  | _ => bank

/-! ## Steps -/

section Steps

variable {ι : Type*} [DecidableEq ι]

/-- The static variable of each driver, and the bank register of each chip. -/
structure IcmBus (ι : Type*) where
  prevBank : BankedIcm → UInt8
  bank : ι → UInt8

/-- The statics before the first access, and chips with any bank selected. -/
def icmInit (bank : ι → UInt8) : IcmBus ι := ⟨fun _ => 0xFF, bank⟩

/-- An access to a sensor, and whether the transfers of its bank select and of the access
itself reach the chip. -/
structure IcmAction (ι : Type*) where
  sensor : ι
  access : IcmAccess
  selectOk : Bool
  accessOk : Bool

variable (driver : ι → BankedIcm)

/-- The bank select of an access, if one is sent. -/
def IcmBus.select (s : IcmBus ι) (a : IcmAction ι) : Option (List UInt8) :=
  (driver a.sensor).setBank (s.prevBank (driver a.sensor)) a.access.bank

/-- The bank register of the chip when the access is transmitted. -/
def IcmBus.bankAt (s : IcmBus ι) (a : IcmAction ι) : UInt8 :=
  match s.select driver a with
  | some tx => if a.selectOk then chipReceive (s.bank a.sensor) tx else s.bank a.sensor
  | none => s.bank a.sensor

/-- `icm20948_exchange` and `icm20649_exchange`. -/
def icmExchange (s : IcmBus ι) (a : IcmAction ι) : IcmBus ι where
  prevBank := Function.update s.prevBank (driver a.sensor) a.access.bank
  bank := Function.update s.bank a.sensor
    (if a.accessOk then chipReceive (s.bankAt driver a) a.access.tx else s.bankAt driver a)

/-- An access that reaches its chip finds the requested bank. -/
def IcmBus.Coherent (s : IcmBus ι) (a : IcmAction ι) : Prop :=
  a.accessOk = true → s.bankAt driver a = a.access.bank

/-- A run, with the sensor that the last bank select of each driver reached: none when
that select failed, and none when the bank register of the chip was written since. -/
structure BankRun (ι : Type*) where
  bus : IcmBus ι
  mirrored : BankedIcm → Option ι

/-- A run at its start. -/
def bankInit (bank : ι → UInt8) : BankRun ι := ⟨icmInit bank, fun _ => none⟩

/-- The access writes another bank than its own to the bank register. -/
def IcmAccess.overwritesBank : IcmAccess → Bool
  | writeReg bank reg value => reg ||| icmWrite = regBankSel ∧ value ≠ bank
  | _ => false

/-- The sensor that the last bank select of the driver reached, with the one of this
access. -/
def BankRun.reached (g : BankRun ι) (a : IcmAction ι) : Option ι :=
  if (g.bus.select driver a).isSome then if a.selectOk then some a.sensor else none
  else g.mirrored (driver a.sensor)

/-- The sensor whose chip has the bank of the static variable after an access. -/
def BankRun.nextMirrored (g : BankRun ι) (a : IcmAction ι) : Option ι :=
  if g.reached driver a = some a.sensor ∧ a.accessOk ∧ a.access.overwritesBank then none
  else g.reached driver a

/-- A step of the run. -/
def bankStep (g : BankRun ι) (a : IcmAction ι) : Option (BankRun ι) :=
  some ⟨icmExchange driver g.bus a,
    Function.update g.mirrored (driver a.sensor) (g.nextMirrored driver a)⟩

/-- An access that reaches its chip either sends a bank select that reaches it too, or
finds the chip to be the one that the last bank select of the driver reached. -/
def Selected (g : BankRun ι) (a : IcmAction ι) : Prop :=
  a.accessOk = true →
    if (g.bus.select driver a).isSome then a.selectOk = true
    else g.mirrored (driver a.sensor) = some a.sensor

instance (g : BankRun ι) (a : IcmAction ι) : Decidable (Selected driver g a) :=
  inferInstanceAs (Decidable (_ → if _ = true then _ else _))

instance (s : IcmBus ι) (a : IcmAction ι) : Decidable (s.Coherent driver a) :=
  inferInstanceAs (Decidable (_ → _ = _))

end Steps

/-! ## One access -/

theorem BankedIcm.setBank_eq (d : BankedIcm) (prevBank bank : UInt8) :
    d.setBank prevBank bank = if bank ≠ prevBank then some [regBankSel, bank] else none := by
  cases d with
  | icm20948 => rfl
  | icm20649 => rfl

/-- A read does not reach the bank register. -/
theorem or_icmRead_ne (reg : UInt8) : reg ||| icmRead ≠ regBankSel := by
  intro h
  have hbit := congrArg (fun b : UInt8 => b.toNat.testBit 7) h
  have hread : Nat.testBit 128 7 = true := by decide
  have hsel : Nat.testBit 127 7 = false := by decide
  simp [icmRead, regBankSel, hread, hsel] at hbit

/-- An access leaves the bank that it requests selected, unless it writes another one to
the bank register. -/
theorem chipReceive_tx {access : IcmAccess} (h : access.overwritesBank = false) :
    chipReceive access.bank access.tx = access.bank := by
  cases access with
  | readReg bank reg => exact if_neg (or_icmRead_ne reg)
  | readRegs bank reg rest =>
      cases rest with
      | nil => rfl
      | cons value rest => exact if_neg (or_icmRead_ne reg)
  | writeReg bank reg value =>
      have hvalue : reg ||| icmWrite = regBankSel → value = bank := by
        simpa [IcmAccess.overwritesBank] using h
      rw [IcmAccess.tx, chipReceive, IcmAccess.bank]
      split_ifs with hreg
      · exact hvalue hreg
      · rfl

section Access

variable {ι : Type*} {driver : ι → BankedIcm} {s : IcmBus ι} {a : IcmAction ι}

theorem icmExchange_prevBank [DecidableEq ι] : (icmExchange driver s a).prevBank =
    Function.update s.prevBank (driver a.sensor) a.access.bank := rfl

theorem icmExchange_bank [DecidableEq ι] : (icmExchange driver s a).bank =
    Function.update s.bank a.sensor
      (if a.accessOk then chipReceive (s.bankAt driver a) a.access.tx else s.bankAt driver a) := rfl

theorem IcmBus.select_eq : s.select driver a =
    if a.access.bank ≠ s.prevBank (driver a.sensor) then some [regBankSel, a.access.bank]
    else none :=
  BankedIcm.setBank_eq ..

theorem IcmBus.bankAt_of_select (h : (s.select driver a).isSome = true) (hok : a.selectOk = true) :
    s.bankAt driver a = a.access.bank := by
  by_cases hne : a.access.bank ≠ s.prevBank (driver a.sensor)
  · rw [IcmBus.bankAt, IcmBus.select_eq, if_pos hne]
    simp [hok, chipReceive]
  · rw [IcmBus.select_eq, if_neg hne] at h
    cases h

theorem IcmBus.bankAt_of_not_select (h : ¬ (s.select driver a).isSome = true) :
    s.bankAt driver a = s.bank a.sensor ∧ a.access.bank = s.prevBank (driver a.sensor) := by
  by_cases hne : a.access.bank ≠ s.prevBank (driver a.sensor)
  · rw [IcmBus.select_eq, if_pos hne] at h
    exact absurd rfl h
  · rw [IcmBus.bankAt, IcmBus.select_eq, if_neg hne]
    exact ⟨rfl, not_not.1 hne⟩

end Access

/-! ## Runs -/

section Runs

variable {ι : Type*} {driver : ι → BankedIcm}

/-- The chip that the last bank select of a driver reached has the bank of the static
variable. -/
def MirrorInv (driver : ι → BankedIcm) (g : BankRun ι) : Prop :=
  ∀ d i, g.mirrored d = some i → driver i = d ∧ g.bus.bank i = g.bus.prevBank d

theorem mirrorInv_init (bank : ι → UInt8) : MirrorInv driver (bankInit bank) :=
  fun _ _ h => by cases h

variable {g g' : BankRun ι} {a : IcmAction ι}

/-- Where the condition is met, the chip has the requested bank. -/
theorem MirrorInv.coherent (h : MirrorInv driver g) (hok : Selected driver g a) :
    g.bus.Coherent driver a := by
  intro haccess
  have hselected := hok haccess
  by_cases hsent : (g.bus.select driver a).isSome = true
  · rw [if_pos hsent] at hselected
    exact IcmBus.bankAt_of_select hsent hselected
  · rw [if_neg hsent] at hselected
    obtain ⟨hbank, hprev⟩ := IcmBus.bankAt_of_not_select hsent
    rw [hbank, hprev]
    exact (h _ _ hselected).2

variable [DecidableEq ι]

/-- The sensor that the last select reached is one of the driver, and its chip has the
requested bank, when the access is transmitted if it is the sensor of the access. -/
theorem MirrorInv.reached (h : MirrorInv driver g) {i : ι} (hi : g.reached driver a = some i) :
    driver i = driver a.sensor ∧
      (if i = a.sensor then g.bus.bankAt driver a else g.bus.bank i) = a.access.bank := by
  rw [BankRun.reached] at hi
  by_cases hsent : (g.bus.select driver a).isSome = true
  · rw [if_pos hsent] at hi
    split_ifs at hi with hok
    obtain rfl : a.sensor = i := Option.some.inj hi
    rw [if_pos rfl]
    exact ⟨rfl, IcmBus.bankAt_of_select hsent hok⟩
  · rw [if_neg hsent] at hi
    obtain ⟨hdriver, hbank⟩ := h _ i hi
    obtain ⟨hat, hprev⟩ := IcmBus.bankAt_of_not_select hsent
    refine ⟨hdriver, ?_⟩
    split_ifs with hsensor
    · rw [hat, ← hsensor, hbank, hprev]
    · rw [hbank, hprev]

/-- The chip that is mirrored after an access has the requested bank. -/
theorem MirrorInv.nextMirrored (h : MirrorInv driver g) {i : ι}
    (hi : g.nextMirrored driver a = some i) :
    driver i = driver a.sensor ∧ (icmExchange driver g.bus a).bank i = a.access.bank := by
  rw [BankRun.nextMirrored] at hi
  split_ifs at hi with hover
  obtain ⟨hdriver, hbank⟩ := h.reached hi
  refine ⟨hdriver, ?_⟩
  rw [icmExchange_bank]
  by_cases hsensor : i = a.sensor
  · subst hsensor
    rw [if_pos rfl] at hbank
    rw [Function.update_self, hbank]
    split_ifs with haccess
    · apply chipReceive_tx
      by_contra hwrite
      exact hover ⟨hi, haccess, Bool.not_eq_false _ ▸ hwrite⟩
    · rfl
  · rw [if_neg hsensor] at hbank
    rw [Function.update_of_ne hsensor, hbank]

theorem MirrorInv.step (h : MirrorInv driver g) (hstep : bankStep driver g a = some g') :
    MirrorInv driver g' := by
  cases hstep
  intro d i hi
  change Function.update g.mirrored _ _ d = some i at hi
  change driver i = d ∧
    (icmExchange driver g.bus a).bank i = (icmExchange driver g.bus a).prevBank d
  by_cases hd : d = driver a.sensor
  · subst hd
    rw [Function.update_self] at hi
    obtain ⟨hdriver, hbank⟩ := h.nextMirrored hi
    refine ⟨hdriver, hbank.trans ?_⟩
    rw [icmExchange_prevBank, Function.update_self]
  · rw [Function.update_of_ne hd] at hi
    obtain ⟨hdriver, hbank⟩ := h d i hi
    have hsensor : i ≠ a.sensor := fun heq => hd (hdriver.symm.trans (congrArg driver heq))
    rw [icmExchange_bank, icmExchange_prevBank, Function.update_of_ne hd,
      Function.update_of_ne hsensor]
    exact ⟨hdriver, hbank⟩

/-- In every run in which each access that reaches its chip sends a bank select that
reaches it too, or is one to the chip that the last bank select of the driver reached,
each access finds the requested bank. -/
theorem bank_coherent_of_selected (bank : ι → UInt8) {as : List (IcmAction ι)}
    (hok : Along (Selected driver) (bankStep driver) (bankInit bank) as) :
    Along (fun g => g.bus.Coherent driver) (bankStep driver) (bankInit bank) as :=
  hok.imp (fun _ _ _ h _ hstep => MirrorInv.step h hstep)
    (fun _ _ h hok => MirrorInv.coherent h hok) (mirrorInv_init bank)

end Runs

/-- An access to the bank 2 of a sensor. -/
def readBank2 (sensor selectOk accessOk : Bool) : IcmAction Bool :=
  ⟨sensor, .readReg 0x20 0x01, selectOk, accessOk⟩

theorem bank_coherent_two_drivers :
    Along (fun g => g.bus.Coherent fun i => if i then .icm20948 else .icm20649)
      (bankStep fun i => if i then .icm20948 else .icm20649) (bankInit fun _ => 0)
      [readBank2 true true true, readBank2 false true true, readBank2 true false true] :=
  bank_coherent_of_selected _ (by decide)

/-- Two sensors of one driver: the second one is read with the bank 0 selected. -/
theorem bank_not_coherent :
    ¬ ∀ (driver : Bool → BankedIcm) (bank : Bool → UInt8) (as : List (IcmAction Bool)),
      Along (fun g => g.bus.Coherent driver) (bankStep driver) (bankInit bank) as := by
  intro h
  have hcoherent := h (fun _ => .icm20948) (fun _ => 0)
    [readBank2 true true true, readBank2 false true true]
  exact absurd hcoherent (by decide)

end Catpilot
