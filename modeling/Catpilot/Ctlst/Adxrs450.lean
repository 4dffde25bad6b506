import Catpilot.Ctlst.SpiPdc

/-!
# Requests to the ADXRS450

The macros of `adxrs450.h` that encode a request, and the parity of `adxrs450.c`. A word has its
parity in the bit 0. Its encoding puts the parity there without clearing the bit. The macros send
other words in `ctlst_periph.c`, which defines the word of a transfer again.
-/

namespace Catpilot

/-- What the functions of the driver return. -/
inductive AdxrsStatus where
  | eok
  | ebadmsg
  | eio
  | etime
  deriving DecidableEq, Repr

/-- `adxrs450_parity_calc_32` and `fc_dxrs450_parity_calc_32`. -/
def adxrs450ParityCalc32 (d : BitVec 32) : BitVec 32 :=
  let p := (List.range' 2 30).foldl (fun (p : BitVec 32) (i : ℕ) => p ^^^ (d >>> i &&& 0x01))
    (d >>> 1 &&& 0x00000001)
  if p = 1 then 0 else 1

/-- `adxrs450_parity_check_32` and `fc_dxrs450_parity_check_32`. -/
def adxrs450ParityCheck32 (d : BitVec 32) : AdxrsStatus :=
  if adxrs450ParityCalc32 d ^^^ (d &&& 0x00000001) = 0 then .eok else .ebadmsg

section Macros

/-! The macros that a transfer is made of, with `SPI_PDC_TRANS_DWORD` as it is in the unit that
uses them. -/

variable (transDword : BitVec 32 → BitVec 32 → BitVec 64)

/-- `ADXRS450_REG_ACCESS` and `ADXRS450_READ_OUTPUT__P`. -/
def adxrs450RegAccessWith (cs d : BitVec 32) : BitVec 64 :=
  transDword cs (d ||| adxrs450ParityCalc32 d)

/-- `ADXRS450_REG_READ`. -/
def adxrs450RegReadWith (cs addr : BitVec 32) : BitVec 64 :=
  adxrs450RegAccessWith transDword cs ((1 : BitVec 32) <<< 31 ||| (addr &&& 0x1FF) <<< 17)

/-- `ADXRS450_READ_OUTPUT__`. -/
def adxrs450ReadOutputBits (cs sq2 sq1 sq0 chk : BitVec 32) : BitVec 64 :=
  adxrs450RegAccessWith transDword cs
    (sq2 <<< 28 ||| sq0 <<< 30 ||| sq1 <<< 31 ||| (1 : BitVec 32) <<< 29 ||| (chk &&& 0x01) <<< 1)

/-- `ADXRS450_READ_OUTPUT_`. -/
def adxrs450ReadOutputWith (cs sq chk : BitVec 32) : BitVec 64 :=
  adxrs450ReadOutputBits transDword cs (sq.sshiftRight 2 &&& 0x01) (sq.sshiftRight 1 &&& 0x01)
    (sq.sshiftRight 0 &&& 0x01) chk

end Macros

/-- `ADXRS450_REG_ACCESS` in `adxrs450.c`. -/
def adxrs450RegAccess (cs d : BitVec 32) : BitVec 64 := adxrs450RegAccessWith spiPdcTransDword cs d

/-- `ADXRS450_REG_READ` in `adxrs450.c`. -/
def adxrs450RegRead (cs addr : BitVec 32) : BitVec 64 :=
  adxrs450RegReadWith spiPdcTransDword cs addr

/-- `ADXRS450_REG_WRITE` in `adxrs450.c`. -/
def adxrs450RegWrite (cs addr dat : BitVec 32) : BitVec 64 :=
  adxrs450RegAccess cs ((1 : BitVec 32) <<< 30 ||| (addr &&& 0x1FF) <<< 17 ||| dat &&& 0xFFFF)

/-- `ADXRS450_REG_VALUE`. -/
def adxrs450RegValue (d : BitVec 32) : BitVec 32 := d >>> 5 &&& 0xFFFF

/-- `ADXRS450_READ_OUTPUT` in `adxrs450.c`. -/
def adxrs450ReadOutput (cs sq : BitVec 32) : BitVec 64 :=
  adxrs450ReadOutputWith spiPdcTransDword cs sq 0

/-- `ADXRS450_READ_OUTPUT_CHK` in `adxrs450.c`. -/
def adxrs450ReadOutputChk (cs sq : BitVec 32) : BitVec 64 :=
  adxrs450ReadOutputWith spiPdcTransDword cs sq 1

/-- `ADXRS450_REG_READ` in `ctlst_periph.c`. -/
def fcDxrs450RegRead (cs addr : BitVec 32) : BitVec 64 :=
  adxrs450RegReadWith ctlstPeriphTransDword cs addr

/-- `ADXRS450_READ_OUTPUT` in `ctlst_periph.c`. -/
def fcDxrs450ReadOutput (cs sq : BitVec 32) : BitVec 64 :=
  adxrs450ReadOutputWith ctlstPeriphTransDword cs sq 0

/-- `ADXRS450_READ_OUTPUT_CHK` in `ctlst_periph.c`. -/
def fcDxrs450ReadOutputChk (cs sq : BitVec 32) : BitVec 64 :=
  adxrs450ReadOutputWith ctlstPeriphTransDword cs sq 1

/-! ## Parity -/

section Parity

variable {d e : BitVec 32}

/-- Whether an odd number of the bits above the lowest one are set. -/
def oddBits (d : BitVec 32) : Bool :=
  (List.range' 2 30).foldl (fun p i => p ^^ d.getLsbD i) (d.getLsbD 1)

/-- A bit as an `int`. -/
def boolInt (b : Bool) : BitVec 32 := if b then 1 else 0

theorem boolInt_xor (a b : Bool) : boolInt (a ^^ b) = boolInt a ^^^ boolInt b := by
  decide +revert

theorem shiftRight_and_one (d : BitVec 32) (i : ℕ) : d >>> i &&& 0x01 = boolInt (d.getLsbD i) := by
  have hone : (0x01 : BitVec 32) = BitVec.twoPow 32 0 := by decide
  rw [hone, BitVec.and_twoPow, BitVec.getLsbD_ushiftRight, Nat.add_zero]
  rfl

theorem foldl_boolInt (l : List ℕ) (d : BitVec 32) (b : Bool) :
    l.foldl (fun (p : BitVec 32) (i : ℕ) => p ^^^ (d >>> i &&& 0x01)) (boolInt b) =
      boolInt (l.foldl (fun p i => p ^^ d.getLsbD i) b) := by
  induction l generalizing b with
  | nil => rfl
  | cons i l ih => rw [List.foldl_cons, List.foldl_cons, shiftRight_and_one, ← boolInt_xor, ih]

theorem adxrs450ParityCalc32_eq (d : BitVec 32) :
    adxrs450ParityCalc32 d = boolInt (!oddBits d) := by
  rw [adxrs450ParityCalc32, shiftRight_and_one, foldl_boolInt, ← oddBits]
  cases oddBits d with
  | false => rfl
  | true => rfl

theorem adxrs450ParityCheck32_eq_iff (d : BitVec 32) :
    adxrs450ParityCheck32 d = .eok ↔ d.getLsbD 0 = !oddBits d := by
  have hbit : d &&& 0x00000001 = boolInt (d.getLsbD 0) := by
    have hshift := shiftRight_and_one d 0
    rwa [BitVec.ushiftRight_zero] at hshift
  rw [adxrs450ParityCheck32, adxrs450ParityCalc32_eq, hbit, ← boolInt_xor]
  generalize d.getLsbD 0 = a
  generalize oddBits d = b
  decide +revert

theorem foldl_xor_congr {l : List ℕ} (h : ∀ i ∈ l, d.getLsbD i = e.getLsbD i) (b : Bool) :
    l.foldl (fun p i => p ^^ d.getLsbD i) b = l.foldl (fun p i => p ^^ e.getLsbD i) b := by
  induction l generalizing b with
  | nil => rfl
  | cons i l ih =>
      rw [List.foldl_cons, List.foldl_cons, h i List.mem_cons_self,
        ih fun j hj => h j (List.mem_cons_of_mem i hj)]

theorem oddBits_congr (h : ∀ i, 0 < i → d.getLsbD i = e.getLsbD i) : oddBits d = oddBits e := by
  rw [oddBits, oddBits, h 1 Nat.one_pos]
  apply foldl_xor_congr
  intro i hi
  exact h i (Nat.lt_of_lt_of_le Nat.two_pos (List.left_le_of_mem_range' hi))

theorem getLsbD_boolInt (b : Bool) (i : ℕ) : (boolInt b).getLsbD i = (decide (i = 0) && b) := by
  have hone : (1 : BitVec 32) = BitVec.twoPow 32 0 := by decide
  cases b with
  | false => rw [Bool.and_false]; exact BitVec.getLsbD_zero
  | true =>
      rw [boolInt, if_pos rfl, hone, BitVec.getLsbD_twoPow, Bool.and_true]
      cases i with
      | zero => rfl
      | succ i =>
          rw [decide_eq_false (Nat.succ_ne_zero i), decide_eq_false (Nat.succ_ne_zero i).symm]
          rfl

/-- Only the lowest bit of a word changes with its parity. -/
theorem getLsbD_or_parity (d : BitVec 32) (i : ℕ) :
    (d ||| adxrs450ParityCalc32 d).getLsbD i = (d.getLsbD i || decide (i = 0) && !oddBits d) := by
  rw [BitVec.getLsbD_or, adxrs450ParityCalc32_eq, getLsbD_boolInt]

theorem getLsbD_or_parity_of_pos (d : BitVec 32) {i : ℕ} (hi : 0 < i) :
    (d ||| adxrs450ParityCalc32 d).getLsbD i = d.getLsbD i := by
  rw [getLsbD_or_parity, decide_eq_false hi.ne', Bool.false_and, Bool.or_false]

/-- The parity is right unless the lowest bit is set and has to be clear. -/
theorem adxrs450ParityCheck32_or_parity (d : BitVec 32) :
    adxrs450ParityCheck32 (d ||| adxrs450ParityCalc32 d) = .eok ↔
      (d.getLsbD 0 = true → oddBits d = false) := by
  rw [adxrs450ParityCheck32_eq_iff, oddBits_congr fun i hi => getLsbD_or_parity_of_pos d hi,
    getLsbD_or_parity]
  generalize d.getLsbD 0 = a
  generalize oddBits d = b
  decide +revert

end Parity

end Catpilot
