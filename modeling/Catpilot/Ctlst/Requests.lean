import Catpilot.Ctlst.Adxrs450

/-!
# The requests to the ADXRS450

The word of a request has its operation in the bits 31 to 29, an address in the bits 25 to 17,
the data of a register in the bits 20 to 5, and its parity in the bit 0. The encoding of a write
has its data in the bits 15 to 0, so that they are right only when they are met again five bits
further up.
-/

namespace Catpilot

open Bits

/-- A request, with an address below 512 and 16 bits of data. -/
inductive AdxrsRequest where
  | regRead (addr : BitVec 9)
  | regWrite (addr : BitVec 9) (dat : BitVec 16)
  | readOutput (sq : BitVec 32)
  deriving DecidableEq, Repr

/-- The encoding of a request. -/
def AdxrsRequest.encode (cs : BitVec 32) : AdxrsRequest → BitVec 64
  | regRead addr => adxrs450RegRead cs (addr.setWidth 32)
  | regWrite addr dat => adxrs450RegWrite cs (addr.setWidth 32) (dat.setWidth 32)
  | readOutput sq => adxrs450ReadOutput cs sq

/-- The word of a request says what the request does: the bit 29 is set for sensor data, with
the sequence in the bits 28, 31 and 30, and else the bit 31 for a read and the bit 30 for a
write, with the address and the data of a register. -/
def AdxrsRequest.Encodes (w : BitVec 32) : AdxrsRequest → Prop
  | regRead addr => w.extractLsb' 29 3 = 0b100 ∧ w.extractLsb' 17 9 = addr
  | regWrite addr dat => w.extractLsb' 29 3 = 0b010 ∧ w.extractLsb' 17 9 = addr ∧
      adxrs450RegValue w = dat.setWidth 32
  | readOutput sq => w.getLsbD 29 = true ∧ w.getLsbD 28 = sq.getLsbD 2 ∧
      w.getLsbD 31 = sq.getLsbD 1 ∧ w.getLsbD 30 = sq.getLsbD 0

/-- The encoding of a request is sent and decoded as it has to be: its parity is right, it
says what the request does, and it has the chip select in both words and the flag of the last
word in the second one. -/
structure AdxrsRequest.RoundTrips (cs : BitVec 32) (request : AdxrsRequest) : Prop where
  parity : adxrs450ParityCheck32 (spiPdcExtractDword (request.encode cs)) = .eok
  encodes : request.Encodes (spiPdcExtractDword (request.encode cs))
  first : (request.encode cs).extractLsb' 16 4 = cs.extractLsb' 0 4
  second : (request.encode cs).extractLsb' 48 4 = cs.extractLsb' 0 4
  notLast : (request.encode cs).getLsbD 24 = false
  last : (request.encode cs).getLsbD 56 = true

/-- The data that come out of a write of themselves: the low bits of the address, at the
places at which they are met. -/
def adxrs450Echo (addr : BitVec 9) : BitVec 16 :=
  let low := (addr.extractLsb' 0 4).setWidth 16
  low <<< 12 ||| low <<< 7 ||| low <<< 2 ||| low >>> 3

/-- Reads are right, and a write is when its data are the echo of the address and the bit that
this leaves for the parity is right too. -/
def AdxrsRequest.Fits : AdxrsRequest → Prop
  | regRead _ | readOutput _ => True
  | regWrite addr dat => dat = adxrs450Echo addr ∧
      (addr.getLsbD 3 = true → (addr.getLsbD 4 ^^ addr.getLsbD 5 ^^ addr.getLsbD 6 ^^
        addr.getLsbD 7 ^^ addr.getLsbD 8) = true)

/-! ## Words -/

section Words

variable (cs : BitVec 32) (addr : BitVec 9) (dat : BitVec 16)

/-- The word of an access to a register, with the bit of its operation. -/
def regWord (op : ℕ) (addr : BitVec 9) (dat : BitVec 16) : BitVec 32 :=
  BitVec.twoPow 32 op ||| (addr.setWidth 32 &&& 0x1FF) <<< 17 ||| dat.setWidth 32 &&& 0xFFFF

/-- The word of a request for sensor data, from the bits of its sequence. -/
def outputWord (sq0 sq1 sq2 : Bool) : BitVec 32 :=
  boolInt sq2 <<< 28 ||| boolInt sq0 <<< 30 ||| boolInt sq1 <<< 31 ||| (1 : BitVec 32) <<< 29 |||
    (0 &&& 0x01) <<< 1

/-- The word of a request without its parity. -/
def AdxrsRequest.word : AdxrsRequest → BitVec 32
  | regRead addr => regWord 31 addr 0
  | regWrite addr dat => regWord 30 addr dat
  | readOutput sq => outputWord (sq.getLsbD 0) (sq.getLsbD 1) (sq.getLsbD 2)

theorem sshiftRight_and_one (d : BitVec 32) {i : ℕ} (hi : i < 32) :
    d.sshiftRight i &&& 0x01 = boolInt (d.getLsbD i) := by
  have hbit := shiftRight_and_one (d.sshiftRight i) 0
  rw [BitVec.ushiftRight_zero, BitVec.getLsbD_sshiftRight, Nat.add_zero, if_pos hi] at hbit
  exact hbit

theorem AdxrsRequest.encode_eq (request : AdxrsRequest) :
    request.encode cs = adxrs450RegAccess cs request.word := by
  have hread : (1 : BitVec 32) <<< 31 = BitVec.twoPow 32 31 := by decide
  have hwrite : (1 : BitVec 32) <<< 30 = BitVec.twoPow 32 30 := by decide
  have hnone : ((0 : BitVec 16).setWidth 32 &&& 0xFFFF : BitVec 32) = 0 := by decide
  cases request with
  | regRead addr =>
      rw [encode, adxrs450RegRead, adxrs450RegReadWith, word, regWord, hread, hnone]
      exact congrArg (adxrs450RegAccess cs) (BitVec.or_zero).symm
  | regWrite addr dat => rw [encode, adxrs450RegWrite, word, regWord, hwrite]
  | readOutput sq =>
      rw [encode, adxrs450ReadOutput, adxrs450ReadOutputWith, sshiftRight_and_one sq (by decide),
        sshiftRight_and_one sq (by decide), sshiftRight_and_one sq (by decide)]
      rfl

/-- The bits of an access to a register. -/
theorem getLsbD_regWord {op : ℕ} (h26 : 26 ≤ op) (h32 : op < 32) (i : ℕ) :
    (regWord op addr dat).getLsbD i =
      if i < 16 then dat.getLsbD i
      else if i < 17 then false
      else if i < 26 then addr.getLsbD (i - 17)
      else decide (i = op) := by
  have haddr : addr.setWidth 32 &&& 0x1FF = addr.setWidth 32 &&& BitVec.ofNat 32 (2 ^ 9 - 1) := rfl
  have hdat : dat.setWidth 32 &&& 0xFFFF = dat.setWidth 32 &&& BitVec.ofNat 32 (2 ^ 16 - 1) := rfl
  rw [regWord, haddr, hdat, BitVec.getLsbD_or, BitVec.getLsbD_or, BitVec.getLsbD_shiftLeft,
    BitVec.getLsbD_twoPow, getLsbD_mask, getLsbD_mask, getLsbD_setWidth_of_le (by decide),
    getLsbD_setWidth_of_le (by decide)]
  by_cases hlow : i < 16
  · have h17 : i < 17 := by omega
    have hop : ¬ op = i := by omega
    simp [hlow, h17, hop]
  · by_cases hgap : i < 17
    · have hop : ¬ op = i := by omega
      simp [hlow, hgap, hop]
    · by_cases hmid : i < 26
      · have hi : i < 32 := by omega
        have h9 : i - 17 < 9 := by omega
        have hop : ¬ op = i := by omega
        simp [hlow, hgap, hmid, hi, h9, hop]
      · have h9 : ¬ i - 17 < 9 := by omega
        simp [hlow, hgap, hmid, h9, h32, eq_comm]

/-- An access to a register has its operation and its address where they have to be. -/
theorem regWord_fields {op : ℕ} (h29 : 29 ≤ op) (h32 : op < 32) :
    (regWord op addr dat).extractLsb' 29 3 = BitVec.twoPow 3 (op - 29) ∧
      (regWord op addr dat).extractLsb' 17 9 = addr := by
  have hbit := getLsbD_regWord addr dat (by omega : 26 ≤ op) h32
  constructor
  · apply BitVec.eq_of_getLsbD_eq
    intro i hi
    have h16 : ¬ 29 + i < 16 := by omega
    have h17 : ¬ 29 + i < 17 := by omega
    have h26 : ¬ 29 + i < 26 := by omega
    have hop : 29 + i = op ↔ op - 29 = i := by omega
    have h3 : op - 29 < 3 := by omega
    rw [BitVec.getLsbD_extractLsb', decide_eq_true hi, Bool.true_and, hbit, if_neg h16, if_neg h17,
      if_neg h26, BitVec.getLsbD_twoPow, decide_eq_true h3, Bool.true_and, decide_eq_decide.2 hop]
  · apply BitVec.eq_of_getLsbD_eq
    intro i hi
    have h16 : ¬ 17 + i < 16 := by omega
    have h17 : ¬ 17 + i < 17 := by omega
    have h26 : 17 + i < 26 := by omega
    rw [BitVec.getLsbD_extractLsb', decide_eq_true hi, Bool.true_and, hbit, if_neg h16, if_neg h17,
      if_pos h26, Nat.add_sub_cancel_left]

end Words

/-! ## What the words say -/

section Encodes

variable {addr : BitVec 9} {dat dat' : BitVec 16} {w v : BitVec 32}

theorem outputWord_bits (sq0 sq1 sq2 : Bool) :
    (outputWord sq0 sq1 sq2).getLsbD 29 = true ∧ (outputWord sq0 sq1 sq2).getLsbD 28 = sq2 ∧
      (outputWord sq0 sq1 sq2).getLsbD 31 = sq1 ∧ (outputWord sq0 sq1 sq2).getLsbD 30 = sq0 ∧
      (outputWord sq0 sq1 sq2).getLsbD 0 = false := by
  decide +revert

/-- The bits of the data of a register. -/
theorem getLsbD_adxrs450RegValue (w : BitVec 32) (i : ℕ) :
    (adxrs450RegValue w).getLsbD i = (w.getLsbD (5 + i) && decide (i < 16)) := by
  have hmask : adxrs450RegValue w = w >>> 5 &&& BitVec.ofNat 32 (2 ^ 16 - 1) := rfl
  rw [hmask, getLsbD_mask, BitVec.getLsbD_ushiftRight]

theorem extractLsb'_congr (h : ∀ i, 0 < i → w.getLsbD i = v.getLsbD i) {start : ℕ}
    (hstart : 0 < start) (n : ℕ) : w.extractLsb' start n = v.extractLsb' start n := by
  apply BitVec.eq_of_getLsbD_eq
  intro i hi
  rw [BitVec.getLsbD_extractLsb', BitVec.getLsbD_extractLsb', h (start + i) (by omega)]

/-- The parity is no part of what a word says. -/
theorem AdxrsRequest.encodes_congr (h : ∀ i, 0 < i → w.getLsbD i = v.getLsbD i)
    (request : AdxrsRequest) : request.Encodes w ↔ request.Encodes v := by
  have hvalue : adxrs450RegValue w = adxrs450RegValue v := by
    apply BitVec.eq_of_getLsbD_eq
    intro i hi
    rw [getLsbD_adxrs450RegValue, getLsbD_adxrs450RegValue, h (5 + i) (by omega)]
  cases request with
  | regRead addr =>
      rw [Encodes, Encodes, extractLsb'_congr h (by decide), extractLsb'_congr h (by decide)]
  | regWrite addr dat =>
      rw [Encodes, Encodes, extractLsb'_congr h (by decide), extractLsb'_congr h (by decide),
        hvalue]
  | readOutput sq =>
      rw [Encodes, Encodes, h 28 (by decide), h 29 (by decide), h 30 (by decide),
        h 31 (by decide)]

/-- A bit of the data comes back when the bit five places above it is the same. -/
theorem adxrs450RegValue_regWord_iff :
    adxrs450RegValue (regWord 30 addr dat) = dat.setWidth 32 ↔
      ∀ i < 16, dat.getLsbD i = (regWord 30 addr dat).getLsbD (5 + i) := by
  constructor
  · intro hvalue i hi
    rw [← getLsbD_setWidth_of_le (by decide : 16 ≤ 32) dat i, ← hvalue, getLsbD_adxrs450RegValue,
      decide_eq_true hi, Bool.and_true]
  · intro hbits
    apply BitVec.eq_of_getLsbD_eq
    intro i hi
    rw [getLsbD_adxrs450RegValue, getLsbD_setWidth_of_le (by decide)]
    by_cases h : i < 16
    · rw [decide_eq_true h, Bool.and_true, hbits i h]
    · rw [decide_eq_false h, Bool.and_false, BitVec.getLsbD_of_ge dat i (Nat.le_of_not_lt h)]

/-- At most one value of the data comes back from an address. -/
theorem eq_of_regWord_echo (h : ∀ i < 16, dat.getLsbD i = (regWord 30 addr dat).getLsbD (5 + i))
    (h' : ∀ i < 16, dat'.getLsbD i = (regWord 30 addr dat').getLsbD (5 + i)) : dat = dat' := by
  -- by induction on the number of steps of five bits that are left below the address
  have hsteps : ∀ k i, i < 16 → 16 ≤ i + 5 * k → dat.getLsbD i = dat'.getLsbD i := by
    intro k
    induction k with
    | zero =>
        intro i hi hk
        exact absurd hi (Nat.not_lt.2 hk)
    | succ k ih =>
        intro i hi hk
        rw [h i hi, h' i hi, getLsbD_regWord addr dat (by decide) (by decide),
          getLsbD_regWord addr dat' (by decide) (by decide)]
        by_cases hlow : 5 + i < 16
        · rw [if_pos hlow, if_pos hlow, ih (5 + i) hlow (by omega)]
        · rw [if_neg hlow, if_neg hlow]
  apply BitVec.eq_of_getLsbD_eq
  intro i hi
  exact hsteps 4 i hi (by omega)

/-- The echo of an address has its low bits with a clear bit above them, again and again. -/
theorem getLsbD_adxrs450Echo (addr : BitVec 9) {i : ℕ} (hi : i < 16) :
    (adxrs450Echo addr).getLsbD i =
      (decide ((i + 3) % 5 < 4) && addr.getLsbD ((i + 3) % 5)) := by
  have hecho : ∀ low : BitVec 4, ∀ i < 16, (low.setWidth 16 <<< 12 ||| low.setWidth 16 <<< 7 |||
      low.setWidth 16 <<< 2 ||| low.setWidth 16 >>> 3).getLsbD i = low.getLsbD ((i + 3) % 5) := by
    decide
  have hbit := hecho (addr.extractLsb' 0 4) i hi
  rw [BitVec.getLsbD_extractLsb', Nat.zero_add] at hbit
  exact hbit

/-- The echo of an address comes back. -/
theorem regWord_echo (addr : BitVec 9) : ∀ i < 16, (adxrs450Echo addr).getLsbD i =
    (regWord 30 addr (adxrs450Echo addr)).getLsbD (5 + i) := by
  intro i hi
  rw [getLsbD_regWord _ _ (by decide) (by decide), getLsbD_adxrs450Echo addr hi]
  by_cases hlow : 5 + i < 16
  · have hmod : (5 + i + 3) % 5 = (i + 3) % 5 := by omega
    rw [if_pos hlow, getLsbD_adxrs450Echo addr hlow, hmod]
  · by_cases hgap : 5 + i < 17
    · have hmod : ¬ (i + 3) % 5 < 4 := by omega
      rw [if_neg hlow, if_pos hgap, decide_eq_false hmod, Bool.false_and]
    · have hmid : 5 + i < 26 := by omega
      have hmod : (i + 3) % 5 < 4 := by omega
      have hplace : 5 + i - 17 = (i + 3) % 5 := by omega
      rw [if_neg hlow, if_neg hgap, if_pos hmid, hplace, decide_eq_true hmod, Bool.true_and]

/-- The low bits of the address are met an even number of times in such a word. -/
theorem oddBits_regWord_echo (addr : BitVec 9) :
    oddBits (regWord 30 addr (adxrs450Echo addr)) =
      !(addr.getLsbD 4 ^^ addr.getLsbD 5 ^^ addr.getLsbD 6 ^^ addr.getLsbD 7 ^^
        addr.getLsbD 8) := by
  have hbit : ∀ i, (regWord 30 addr (adxrs450Echo addr)).getLsbD i =
      if i < 16 then decide ((i + 3) % 5 < 4) && addr.getLsbD ((i + 3) % 5)
      else if i < 17 then false
      else if i < 26 then addr.getLsbD (i - 17)
      else decide (i = 30) := by
    intro i
    rw [getLsbD_regWord _ _ (by decide) (by decide)]
    by_cases hlow : i < 16
    · rw [if_pos hlow, if_pos hlow, getLsbD_adxrs450Echo addr hlow]
    · rw [if_neg hlow, if_neg hlow]
  simp only [oddBits, hbit]
  generalize addr.getLsbD = a
  simp [List.range']
  generalize a 0 = a0, a 1 = a1, a 2 = a2, a 3 = a3, a 4 = a4, a 5 = a5, a 6 = a6, a 7 = a7,
    a 8 = a8
  clear hbit a
  decide +revert

/-- What a request needs of its word without the parity. -/
theorem AdxrsRequest.roundTrips_iff_word (cs : BitVec 32) (request : AdxrsRequest) :
    request.RoundTrips cs ↔
      (request.word.getLsbD 0 = true → oddBits request.word = false) ∧
        request.Encodes request.word := by
  have hsent : request.encode cs =
      spiPdcTransDword cs (request.word ||| adxrs450ParityCalc32 request.word) := by
    rw [request.encode_eq, adxrs450RegAccess, adxrs450RegAccessWith]
  have hword : spiPdcExtractDword (request.encode cs) =
      request.word ||| adxrs450ParityCalc32 request.word := by
    rw [hsent, spiPdcExtractDword_spiPdcTransDword]
  have hencodes := AdxrsRequest.encodes_congr
    (fun i hi => getLsbD_or_parity_of_pos request.word (i := i) hi) request
  constructor
  · intro h
    have hparity := h.parity
    have hsays := h.encodes
    rw [hword] at hparity hsays
    exact ⟨(adxrs450ParityCheck32_or_parity request.word).1 hparity, hencodes.1 hsays⟩
  · rintro ⟨hparity, hsays⟩
    have hframe := spiPdcTransDword_frame cs (request.word ||| adxrs450ParityCalc32 request.word)
    rw [← hsent] at hframe
    constructor
    · rw [hword]
      exact (adxrs450ParityCheck32_or_parity request.word).2 hparity
    · rw [hword]
      exact hencodes.2 hsays
    · apply BitVec.eq_of_getLsbD_eq
      intro i hi
      rw [BitVec.getLsbD_extractLsb', BitVec.getLsbD_extractLsb', Nat.add_comm 16,
        (hframe.1 i hi).1, Nat.zero_add]
    · apply BitVec.eq_of_getLsbD_eq
      intro i hi
      rw [BitVec.getLsbD_extractLsb', BitVec.getLsbD_extractLsb', Nat.add_comm 48,
        (hframe.1 i hi).2, Nat.zero_add]
    · exact hframe.2.1
    · exact hframe.2.2

/-- A write says what it does when its data are the echo of its address. -/
theorem encodes_regWrite_iff :
    (AdxrsRequest.regWrite addr dat).Encodes (regWord 30 addr dat) ↔ dat = adxrs450Echo addr := by
  have hfields := regWord_fields addr dat (by decide : 29 ≤ 30) (by decide)
  have hvalue := @adxrs450RegValue_regWord_iff addr dat
  constructor
  · intro h
    exact eq_of_regWord_echo (hvalue.1 h.2.2) (regWord_echo addr)
  · intro h
    refine ⟨hfields.1, hfields.2, hvalue.2 ?_⟩
    rw [h]
    exact regWord_echo addr

end Encodes

/-! ## Requests -/

/-- A request for a read or for sensor data is sent and decoded as it has to be, whatever its
chip select, and a write is only for the data that its address asks for. -/
theorem roundTrips_iff_fits (cs : BitVec 32) (request : AdxrsRequest) :
    request.RoundTrips cs ↔ request.Fits := by
  rw [request.roundTrips_iff_word]
  cases request with
  | regRead addr =>
      have hfields := regWord_fields addr 0 (by decide : 29 ≤ 31) (by decide)
      have hlow : (regWord 31 addr 0).getLsbD 0 = false := by
        rw [getLsbD_regWord addr 0 (by decide) (by decide), if_pos (by decide)]
        rfl
      constructor
      · intro _
        trivial
      · intro _
        refine ⟨fun hset => ?_, hfields⟩
        rw [AdxrsRequest.word, hlow] at hset
        exact absurd hset Bool.false_ne_true
  | regWrite addr dat =>
      rw [AdxrsRequest.word, encodes_regWrite_iff, AdxrsRequest.Fits, and_comm]
      apply and_congr_right
      intro hecho
      rw [hecho, oddBits_regWord_echo, getLsbD_regWord _ _ (by decide) (by decide),
        if_pos (by decide), getLsbD_adxrs450Echo addr (by decide), Bool.not_eq_false']
      rfl
  | readOutput sq =>
      have hbits := outputWord_bits (sq.getLsbD 0) (sq.getLsbD 1) (sq.getLsbD 2)
      constructor
      · intro _
        trivial
      · intro _
        refine ⟨fun hset => ?_, hbits.1, hbits.2.1, hbits.2.2.1, hbits.2.2.2.1⟩
        rw [AdxrsRequest.word, hbits.2.2.2.2] at hset
        exact absurd hset Bool.false_ne_true

/-- A write of the fault register comes out with other data. -/
theorem not_roundTrips_regWrite :
    ¬ (AdxrsRequest.regWrite 0x0A 0x1234).RoundTrips 0 := by
  intro h
  have hsays := h.encodes
  revert hsays
  unfold AdxrsRequest.Encodes
  decide

end Catpilot
