import Catpilot.Memory.Bits

/-!
# Words of SPI transfers

The macros of `spi_pdc.h`. A word of a transfer has 16 bits of data, the chip select above
them, and a flag for the last word. A double word is sent as two words, the high half first.
The operands are `int`. `ctlst_periph.h` defines the word of a transfer again, as a request of
`spiplr.h`: 24 bits of data, the device above them, and a flag for all words but the last.
-/

namespace Catpilot

open Bits

/-- `SPI_PDC_TRANSMISSION`. -/
def spiPdcTransmission (lst cs data : BitVec 32) : BitVec 32 :=
  (lst &&& 0x01) <<< 24 ||| (cs &&& 0x0F) <<< 16 ||| data &&& 0xffff

/-- `SPI_PDC_TRANS_WORD`. -/
def spiPdcTransWord (cs data : BitVec 32) : BitVec 32 := spiPdcTransmission 1 cs data

/-- `SPI_PDC_TRANS_DUMMY`. -/
def spiPdcTransDummy (cs : BitVec 32) : BitVec 32 := spiPdcTransWord cs 0x0000

/-- `SPI_PDC_TRANS_DWORD`, with the word of a transfer as the unit defines it. -/
def spiPdcTransDwordWith (transmission : BitVec 32 → BitVec 32 → BitVec 32 → BitVec 32)
    (cs data : BitVec 32) : BitVec 64 :=
  (transmission 1 cs (data &&& 0x0000FFFF)).signExtend 64 <<< 32 |||
    (transmission 0 cs (data.sshiftRight 16)).signExtend 64

/-- `SPI_PDC_TRANS_DWORD`. -/
def spiPdcTransDword (cs data : BitVec 32) : BitVec 64 :=
  spiPdcTransDwordWith spiPdcTransmission cs data

/-- `SPI_PDC_EXTRACT_BYTE`. -/
def spiPdcExtractByte (v : BitVec 32) : BitVec 8 := (v &&& 0x000000FF).setWidth 8

/-- `SPI_PDC_EXTRACT_DWORD`. -/
def spiPdcExtractDword (v : BitVec 64) : BitVec 32 :=
  ((v &&& 0x0000FFFF00000000) >>> 32).setWidth 32 |||
    ((v &&& 0x000000000000FFFF) <<< 16).setWidth 32

/-- `SPIPLR_COMPOSE_REQ`. -/
def spiplrComposeReq (id req cons : BitVec 32) : BitVec 32 :=
  (cons &&& 0x01) <<< 30 ||| (id &&& 0x3F) <<< 24 ||| req &&& 0xFFFFFF

/-- `SPI_PDC_TRANSMISSION` in `ctlst_periph.c`. -/
def ctlstPeriphTransmission (lst cs data : BitVec 32) : BitVec 32 :=
  spiplrComposeReq cs data (if lst = 0 then 1 else 0)

/-- `SPI_PDC_TRANS_DWORD` in `ctlst_periph.c`. The sign of the data fills the eight bits above
the high half. -/
def ctlstPeriphTransDword (cs data : BitVec 32) : BitVec 64 :=
  spiPdcTransDwordWith ctlstPeriphTransmission cs data

section Bits

variable (lst cs data : BitVec 32)

/-- The bits of a word of a transfer. -/
theorem getLsbD_spiPdcTransmission (i : ℕ) : (spiPdcTransmission lst cs data).getLsbD i =
    if i < 16 then data.getLsbD i
    else if i < 20 then cs.getLsbD (i - 16)
    else decide (i = 24) && lst.getLsbD 0 := by
  have hlst : lst &&& 0x01 = lst &&& BitVec.ofNat 32 (2 ^ 1 - 1) := rfl
  have hcs : cs &&& 0x0F = cs &&& BitVec.ofNat 32 (2 ^ 4 - 1) := rfl
  have hdata : data &&& 0xffff = data &&& BitVec.ofNat 32 (2 ^ 16 - 1) := rfl
  rw [spiPdcTransmission, hlst, hcs, hdata, BitVec.getLsbD_or, BitVec.getLsbD_or,
    BitVec.getLsbD_shiftLeft, BitVec.getLsbD_shiftLeft, getLsbD_mask, getLsbD_mask, getLsbD_mask]
  by_cases hlow : i < 16
  · have h24 : i < 24 := by omega
    simp [hlow, h24]
  · by_cases hmid : i < 20
    · have h24 : i < 24 := by omega
      have h32 : i < 32 := by omega
      have h4 : i - 16 < 4 := by omega
      simp [hlow, hmid, h24, h32, h4]
    · have h4 : ¬ i - 16 < 4 := by omega
      by_cases hflag : i = 24
      · simp [hflag]
      · have h1 : i < 24 ∨ ¬ i - 24 < 1 := by omega
        rcases h1 with h1 | h1
        · simp [hlow, hmid, h4, hflag, h1]
        · simp [hlow, hmid, h4, hflag, h1]

theorem msb_spiPdcTransmission : (spiPdcTransmission lst cs data).msb = false := by
  rw [BitVec.msb_eq_getLsbD_last, getLsbD_spiPdcTransmission]
  rfl

/-- A word of a transfer as the low half of a double word. -/
theorem getLsbD_signExtend_spiPdcTransmission (i : ℕ) :
    ((spiPdcTransmission lst cs data).signExtend 64).getLsbD i =
      (spiPdcTransmission lst cs data).getLsbD i := by
  rw [BitVec.signExtend_eq_setWidth_of_msb_false (msb_spiPdcTransmission lst cs data),
    BitVec.getLsbD_setWidth]
  by_cases hi : i < 64
  · rw [decide_eq_true hi, Bool.true_and]
  · rw [decide_eq_false hi, Bool.false_and, BitVec.getLsbD_of_ge _ i (by omega)]

/-- The low bits of a word of a transfer in `ctlst_periph.c`. -/
theorem getLsbD_ctlstPeriphTransmission {i : ℕ} (hi : i < 24) :
    (ctlstPeriphTransmission lst cs data).getLsbD i = data.getLsbD i := by
  have hdata : data &&& 0xFFFFFF = data &&& BitVec.ofNat 32 (2 ^ 24 - 1) := rfl
  have h30 : i < 30 := by omega
  rw [ctlstPeriphTransmission, spiplrComposeReq, hdata, BitVec.getLsbD_or, BitVec.getLsbD_or,
    BitVec.getLsbD_shiftLeft, BitVec.getLsbD_shiftLeft, getLsbD_mask]
  simp [hi, h30]

/-- The bits of a double word. -/
theorem getLsbD_spiPdcTransDword {i : ℕ} (hi : i < 32) :
    (spiPdcTransDword cs data).getLsbD i =
        (spiPdcTransmission 0 cs (data.sshiftRight 16)).getLsbD i ∧
      (spiPdcTransDword cs data).getLsbD (i + 32) =
        (spiPdcTransmission 1 cs (data &&& 0x0000FFFF)).getLsbD i := by
  constructor
  · rw [spiPdcTransDword, spiPdcTransDwordWith, BitVec.getLsbD_or, BitVec.getLsbD_shiftLeft,
      getLsbD_signExtend_spiPdcTransmission, decide_eq_true hi, Bool.not_true, Bool.and_false,
      Bool.false_and, Bool.false_or, getLsbD_signExtend_spiPdcTransmission]
  · have hhigh : (spiPdcTransmission 0 cs (data.sshiftRight 16)).getLsbD (i + 32) = false :=
      BitVec.getLsbD_of_ge _ _ (by omega)
    have h64 : i + 32 < 64 := by omega
    have h32 : ¬ i + 32 < 32 := by omega
    rw [spiPdcTransDword, spiPdcTransDwordWith, BitVec.getLsbD_or, BitVec.getLsbD_shiftLeft,
      getLsbD_signExtend_spiPdcTransmission, getLsbD_signExtend_spiPdcTransmission, hhigh,
      Bool.or_false, decide_eq_true h64, decide_eq_false h32, Nat.add_sub_cancel]
    rfl

/-- The chip select is in both words, and the flag in the second one. -/
theorem spiPdcTransDword_frame :
    (∀ i < 4, (spiPdcTransDword cs data).getLsbD (i + 16) = cs.getLsbD i ∧
      (spiPdcTransDword cs data).getLsbD (i + 48) = cs.getLsbD i) ∧
    (spiPdcTransDword cs data).getLsbD 24 = false ∧
      (spiPdcTransDword cs data).getLsbD 56 = true := by
  refine ⟨fun i hi => ?_, ?_, ?_⟩
  · have h16 : ¬ i + 16 < 16 := by omega
    have h20 : i + 16 < 20 := by omega
    obtain ⟨hlow, hhigh⟩ := getLsbD_spiPdcTransDword cs data (i := i + 16) (by omega)
    rw [getLsbD_spiPdcTransmission, if_neg h16, if_pos h20, Nat.add_sub_cancel] at hlow hhigh
    exact ⟨hlow, hhigh⟩
  · rw [(getLsbD_spiPdcTransDword cs data (i := 24) (by decide)).1, getLsbD_spiPdcTransmission]
    rfl
  · rw [(getLsbD_spiPdcTransDword cs data (i := 24) (by decide)).2, getLsbD_spiPdcTransmission]
    rfl

/-- The bits that are extracted from a double word. -/
theorem getLsbD_spiPdcExtractDword (v : BitVec 64) {i : ℕ} (hi : i < 32) :
    (spiPdcExtractDword v).getLsbD i =
      if i < 16 then v.getLsbD (i + 32) else v.getLsbD (i - 16) := by
  have hhigh : (0x0000FFFF00000000 : BitVec 64) = BitVec.ofNat 64 (2 ^ 16 - 1) <<< 32 := by decide
  have hlow : v &&& 0x000000000000FFFF = v &&& BitVec.ofNat 64 (2 ^ 16 - 1) := rfl
  rw [spiPdcExtractDword, hhigh, hlow, BitVec.getLsbD_or, BitVec.getLsbD_setWidth,
    BitVec.getLsbD_setWidth, BitVec.getLsbD_ushiftRight, BitVec.getLsbD_and,
    BitVec.getLsbD_shiftLeft, BitVec.getLsbD_shiftLeft, getLsbD_mask, BitVec.getLsbD_ofNat,
    Nat.testBit_two_pow_sub_one, decide_eq_true hi]
  have h64 : i < 64 := by omega
  have hsum : i + 32 < 64 := by omega
  by_cases h : i < 16
  · simp [h, hsum, h64, Nat.add_comm]
  · have h16 : i - 16 < 16 := by omega
    simp [h, h16, h64]

theorem getLsbD_sshiftRight_sixteen {i : ℕ} (hi : i < 16) :
    (data.sshiftRight 16).getLsbD i = data.getLsbD (i + 16) := by
  have h32 : i < 32 := by omega
  have hsum : 16 + i < 32 := by omega
  rw [BitVec.getLsbD_sshiftRight, decide_eq_false (Nat.not_le.2 h32), if_pos hsum, Nat.add_comm]
  rfl

/-- The double word that was sent is extracted. -/
theorem spiPdcExtractDword_spiPdcTransDword :
    spiPdcExtractDword (spiPdcTransDword cs data) = data := by
  apply BitVec.eq_of_getLsbD_eq
  intro i hi
  rw [getLsbD_spiPdcExtractDword _ hi]
  by_cases h : i < 16
  · have hmask : data &&& 0x0000FFFF = data &&& BitVec.ofNat 32 (2 ^ 16 - 1) := rfl
    rw [if_pos h, (getLsbD_spiPdcTransDword cs data hi).2, getLsbD_spiPdcTransmission, if_pos h,
      hmask, getLsbD_mask, decide_eq_true h, Bool.and_true]
  · have h16 : i - 16 < 16 := by omega
    rw [if_neg h, (getLsbD_spiPdcTransDword cs data (i := i - 16) (by omega)).1,
      getLsbD_spiPdcTransmission, if_pos h16, getLsbD_sshiftRight_sixteen data h16,
      Nat.sub_add_cancel (Nat.le_of_not_lt h)]

end Bits

end Catpilot
