import Catpilot.Checksum.LowEnd
import Catpilot.Ms5611.Basic

/-!
# The check of the PROM

`crc4` adds the bytes of the PROM to the low end of a register of 16 bits, and takes its
result from the high end. Since the low byte of the last word is cleared, this is the
remainder of the other 120 bits by `X ^ 4 + X + 1`, so that a change of up to four bits in a
row is found.
-/

namespace Catpilot

open Checksum Polynomial

/-! ## Reading the calibration -/

theorem readProm_eq (word : Prom) (is : List (Fin 8)) (prom : Prom) :
    readProm word is prom =
      if ∃ i ∈ is, 1 < i ∧ word i = 0 then none
      else some fun i => if i ∈ is then word i else prom i := by
  induction is generalizing prom with
  | nil => simp [readProm]
  | cons i is ih =>
      rw [readProm, Function.update_self]
      by_cases hzero : word i = 0 ∧ 1 < i
      · rw [if_pos hzero, if_pos ⟨i, List.mem_cons_self, hzero.symm⟩]
      · have hcons : (∃ j ∈ i :: is, 1 < j ∧ word j = 0) ↔ ∃ j ∈ is, 1 < j ∧ word j = 0 := by
          rw [List.exists_mem_cons_iff]
          exact or_iff_right fun h => hzero h.symm
        have hprom : (fun j => if j ∈ is then word j else Function.update prom i (word i) j) =
            fun j => if j ∈ i :: is then word j else prom j := by
          funext j
          by_cases hj : j = i
          · rw [hj, Function.update_self, ite_self, if_pos List.mem_cons_self]
          · rw [Function.update_of_ne hj]
            simp only [List.mem_cons, hj, false_or]
        rw [if_neg hzero, ih, hprom]
        simp only [hcons]

/-- The record keeps the calibration unless the words are accepted. -/
theorem ms5611ReadCalibDev_eq (dev : Ms5611) (word : Prom) :
    ms5611ReadCalibDev dev word =
      match ms5611ReadCalib word with
      | none => (dev, -1)
      | some calib => ({ dev with calib := calib }, 0) := by
  have hread : readProm word (List.finRange 8) (fun _ => 0) =
      if ∃ i, 1 < i ∧ word i = 0 then none else some word := by
    rw [readProm_eq]
    simp only [List.mem_finRange, true_and, if_true]
  rw [ms5611ReadCalibDev, ms5611ReadCalib, hread]
  by_cases hzero : ∃ i, 1 < i ∧ word i = 0
  · rw [if_pos hzero, if_pos hzero]
  · rw [if_neg hzero, if_neg hzero]
    by_cases hcrc : word 7 &&& 0xF ≠ crc4 (Function.update word 7 (word 7 &&& 0xFF00))
    · simp only [if_pos hcrc]
    · simp only [if_neg hcrc]
      rfl

/-! ## The checksum -/

/-- `X + 1`, the polynomial without its leading term. -/
def crc4Taps : BitVec 4 := 0x3

/-- The constant of `crc4` is that polynomial behind 12 zeros. -/
theorem padReg_crc4Taps : padReg 12 crc4Taps = 0x3000 := by decide

/-- The bits of the words before the last one, and the high byte of the last one. -/
def promBits (prom : Prom) : List Bool :=
  ((promWords prom).flatMap fun w => regBits w.toBitVec) ++ lowBits 8 (promLast prom >>> 8).toBitVec

/-- One shift of `crc4`. -/
def crc4Shift (r : UInt16) : UInt16 :=
  if r &&& 0x8000 ≠ 0 then (r <<< 1) ^^^ 0x3000 else r <<< 1

theorem crc4Shift_toBitVec (r : UInt16) :
    (crc4Shift r).toBitVec = crcStep (padReg 12 crc4Taps) r.toBitVec false := by
  have hmsb : r &&& 0x8000 ≠ 0 ↔ r.toBitVec.msb = true := by
    have hmask : (0x8000 : UInt16).toBitVec = BitVec.twoPow 16 15 := by decide
    rw [ne_eq, ← UInt16.toBitVec_inj, UInt16.toBitVec_and, hmask, BitVec.and_twoPow,
      BitVec.msb_eq_getLsbD_last]
    cases r.toBitVec.getLsbD 15 with
    | false => simp
    | true => simp
  rw [padReg_crc4Taps, crcStep, Bool.xor_false, crc4Shift, apply_ite UInt16.toBitVec]
  simp only [hmsb]
  rfl

theorem foldl_crc4Shift_toBitVec (l : List ℕ) (r : UInt16) :
    (l.foldl (fun r _ => crc4Shift r) r).toBitVec =
      crcBits (padReg 12 crc4Taps) r.toBitVec (List.replicate l.length false) := by
  induction l generalizing r with
  | nil => rfl
  | cons n l ih =>
      rw [List.foldl_cons, ih, crc4Shift_toBitVec, List.length_cons, List.replicate_succ,
        crcBits_cons]

theorem crc4Byte_toBitVec (nRem byte : UInt16) :
    (crc4Byte nRem byte).toBitVec =
      crcLow (padReg 12 crc4Taps) 8 nRem.toBitVec byte.toBitVec := by
  have hshifts := foldl_crc4Shift_toBitVec (List.range 8) (nRem ^^^ byte)
  rw [List.length_range, UInt16.toBitVec_xor] at hshifts
  exact hshifts

theorem foldl_crc4Byte_toBitVec (bytes : List UInt16) (nRem : UInt16) :
    (bytes.foldl crc4Byte nRem).toBitVec =
      (bytes.map UInt16.toBitVec).foldl (crcLow (padReg 12 crc4Taps) 8) nRem.toBitVec := by
  induction bytes generalizing nRem with
  | nil => rfl
  | cons byte bytes ih =>
      rw [List.foldl_cons, ih, crc4Byte_toBitVec, List.map_cons, List.foldl_cons]

/-- The two bytes of a word, the high one first. -/
def wordBytes (w : UInt16) : List UInt16 := [w >>> 8, w &&& 0x00FF]

theorem getLsbD_ofNat_ones {n : ℕ} (hn : n ≤ 16) (i : ℕ) :
    (BitVec.ofNat 16 (2 ^ n - 1)).getLsbD i = decide (i < n) := by
  rw [BitVec.getLsbD_ofNat, Nat.testBit_two_pow_sub_one]
  by_cases hi : i < n
  · rw [decide_eq_true (hi.trans_le hn), Bool.true_and]
  · rw [decide_eq_false hi, Bool.and_false]

theorem getLsbD_lowMask (i : ℕ) : (0x00FF : UInt16).toBitVec.getLsbD i = decide (i < 8) :=
  getLsbD_ofNat_ones (n := 8) (by decide) i

theorem getLsbD_crcMask (i : ℕ) : (0xF : UInt16).toBitVec.getLsbD i = decide (i < 4) :=
  getLsbD_ofNat_ones (n := 4) (by decide) i

theorem getLsbD_highMask {i : ℕ} (hi : i < 16) :
    (0xFF00 : UInt16).toBitVec.getLsbD i = decide (8 ≤ i) := by
  have hmask : (0xFF00 : UInt16).toBitVec = ~~~(0x00FF : UInt16).toBitVec := by decide
  rw [hmask, BitVec.getLsbD_not, getLsbD_lowMask, decide_eq_true hi, Bool.true_and]
  by_cases hlow : i < 8
  · rw [decide_eq_true hlow, decide_eq_false (Nat.not_le.2 hlow)]
    rfl
  · rw [decide_eq_false hlow, decide_eq_true (Nat.le_of_not_lt hlow)]
    rfl

theorem getLsbD_wordBytes {w byte : UInt16} (h : byte ∈ wordBytes w) {i : ℕ} (hi : 8 ≤ i) :
    byte.toBitVec.getLsbD i = false := by
  rw [wordBytes, List.mem_cons, List.mem_singleton] at h
  rcases h with rfl | rfl
  · change (w.toBitVec >>> 8).getLsbD i = false
    rw [BitVec.getLsbD_ushiftRight]
    exact BitVec.getLsbD_of_ge _ _ (by omega)
  · rw [UInt16.toBitVec_and, BitVec.getLsbD_and, getLsbD_lowMask,
      decide_eq_false (Nat.not_lt.2 hi), Bool.and_false]

theorem lowBits_congr {n : ℕ} {c d : BitVec 16} (h : ∀ i < n, c.getLsbD i = d.getLsbD i) :
    lowBits n c = lowBits n d := by
  apply List.map_congr_left
  intro i hi
  exact h i (List.mem_range.1 (List.mem_reverse.1 hi))

theorem lowBits_and_lowMask (w : UInt16) :
    lowBits 8 (w &&& 0x00FF).toBitVec = lowBits 8 w.toBitVec := by
  apply lowBits_congr
  intro i hi
  rw [UInt16.toBitVec_and, BitVec.getLsbD_and, getLsbD_lowMask, decide_eq_true hi, Bool.and_true]

theorem flatMap_lowBits_wordBytes (w : UInt16) :
    (wordBytes w).flatMap (fun byte => lowBits 8 byte.toBitVec) = regBits w.toBitVec := by
  have hword : regBits w.toBitVec = lowBits 8 (w >>> 8).toBitVec ++ lowBits 8 w.toBitVec :=
    lowBits_add 8 8 w.toBitVec
  rw [wordBytes, List.flatMap_cons, List.flatMap_singleton, lowBits_and_lowMask, hword]

/-- With its low byte cleared, a word ends in 8 zeros. -/
theorem flatMap_lowBits_wordBytes_highMask (w : UInt16) :
    (wordBytes (w &&& 0xFF00)).flatMap (fun byte => lowBits 8 byte.toBitVec) =
      lowBits 8 (w >>> 8).toBitVec ++ List.replicate 8 false := by
  rw [wordBytes, List.flatMap_cons, List.flatMap_singleton, lowBits_and_lowMask]
  congr 1
  · apply lowBits_congr
    intro i hi
    change ((w &&& 0xFF00).toBitVec >>> 8).getLsbD i = (w.toBitVec >>> 8).getLsbD i
    rw [BitVec.getLsbD_ushiftRight, BitVec.getLsbD_ushiftRight, UInt16.toBitVec_and,
      BitVec.getLsbD_and, getLsbD_highMask (by omega), decide_eq_true (Nat.le_add_right 8 i),
      Bool.and_true]
  · apply List.eq_replicate_of_mem
    intro b hb
    obtain ⟨i, hi, rfl⟩ := List.mem_map.1 hb
    have hlt : i < 8 := List.mem_range.1 (List.mem_reverse.1 hi)
    rw [UInt16.toBitVec_and, BitVec.getLsbD_and, getLsbD_highMask (by omega),
      decide_eq_false (Nat.not_le.2 hlt), Bool.and_false]

/-- The bytes of the words, with the low byte of the last one cleared. -/
def promBytes (prom : Prom) : List UInt16 :=
  (promWords prom ++ [promLast prom &&& 0xFF00]).flatMap wordBytes

theorem flatMap_lowBits_promBytes (prom : Prom) :
    ((promBytes prom).map UInt16.toBitVec).flatMap (lowBits 8) =
      promBits prom ++ List.replicate 8 false := by
  rw [List.flatMap_map, promBytes, List.flatMap_assoc, List.flatMap_append,
    List.flatMap_singleton, flatMap_lowBits_wordBytes_highMask, promBits, List.append_assoc]
  simp only [flatMap_lowBits_wordBytes]

theorem getLsbD_promBytes {prom : Prom} {byte : UInt16} (h : byte ∈ promBytes prom) {i : ℕ}
    (hi : 8 ≤ i) : byte.toBitVec.getLsbD i = false := by
  obtain ⟨w, -, hmem⟩ := List.mem_flatMap.1 h
  exact getLsbD_wordBytes hmem hi

/-- The high end of the register. -/
theorem padReg_shiftRight (c : BitVec 4) : (padReg 12 c >>> 12) &&& 0xF = c.setWidth 16 := by
  decide +revert

/-- The checksum of the words, with the low byte of the last one cleared. -/
theorem crc4_toBitVec (prom : Prom) :
    (crc4 (Function.update prom 7 (prom 7 &&& 0xFF00))).toBitVec =
      (crc crc4Taps (promBits prom)).setWidth 16 := by
  have hrun : ((promBytes prom).foldl crc4Byte 0).toBitVec =
      padReg 12 (crc crc4Taps (promBits prom)) := by
    rw [foldl_crc4Byte_toBitVec]
    apply foldl_crcLow_padReg 12 crc4Taps (z := 8) rfl _ (flatMap_lowBits_promBytes prom)
    intro d hd i hi
    obtain ⟨byte, hbyte, rfl⟩ := List.mem_map.1 hd
    exact getLsbD_promBytes hbyte hi
  have hcrc : crc4 (Function.update prom 7 (prom 7 &&& 0xFF00)) =
      ((promBytes prom).foldl crc4Byte 0 >>> 12) &&& 0xF := rfl
  rw [hcrc, UInt16.toBitVec_and, ← padReg_shiftRight, ← hrun]
  rfl

/-! ## Errors -/

/-- The words with the bits of a pattern changed. -/
def flipProm (prom pattern : Prom) : Prom := fun i => prom i ^^^ pattern i

/-- A word with a single bit. -/
def singleBit (i : Fin 8) (j : Fin 16) : Prom :=
  Function.update 0 i ((1 : UInt16) <<< j.val.toUInt16)

/-- The changes of the words that have to be found: of a single bit or of up to four bits in
a row, before the low byte of the last word, and of bits of the checksum. -/
inductive PromError : Prom → Prop where
  | bit (i : Fin 8) (j : Fin 16) (h : i ≠ 7 ∨ 8 ≤ j) : PromError (singleBit i j)
  | burst (pattern : Prom) (h : IsBurst 4 (promBits pattern)) (hlow : pattern 7 &&& 0x00FF = 0) :
      PromError pattern
  | crc (pattern : Prom) (hbits : ∀ i ≠ 7, pattern i = 0) (hhigh : pattern 7 &&& 0xFFF0 = 0)
      (h : pattern 7 ≠ 0) : PromError pattern

theorem length_wordsBits (prom pattern : Prom) :
    ((promWords prom).flatMap fun w => regBits w.toBitVec).length =
      ((promWords pattern).flatMap fun w => regBits w.toBitVec).length := by
  simp only [promWords, List.flatMap_cons, List.flatMap_nil, List.length_append, length_regBits]

theorem promWords_flipProm (prom pattern : Prom) :
    promWords (flipProm prom pattern) =
      List.zipWith (· ^^^ ·) (promWords prom) (promWords pattern) := rfl

theorem promBits_flipProm (prom pattern : Prom) :
    promBits (flipProm prom pattern) = List.zipWith xor (promBits prom) (promBits pattern) := by
  have hwords := flatMap_zipWith_xor (f := fun w : UInt16 => regBits w.toBitVec)
    (g := (· ^^^ ·)) (fun w => length_regBits w.toBitVec)
    (fun v w => by rw [UInt16.toBitVec_xor, regBits_xor])
    (l := promWords prom) (m := promWords pattern) rfl
  have hlast : (promLast (flipProm prom pattern) >>> 8).toBitVec =
      (promLast prom >>> 8).toBitVec ^^^ (promLast pattern >>> 8).toBitVec :=
    BitVec.ushiftRight_xor_distrib ..
  rw [promBits, promBits, promBits, List.zipWith_append (length_wordsBits prom pattern),
    promWords_flipProm, hwords, hlast, lowBits_xor]

theorem regBits_singleBit (j : Fin 16) : regBits ((1 : UInt16) <<< j.val.toUInt16).toBitVec =
    List.replicate (15 - j) false ++ [true] ++ List.replicate j false := by
  decide +revert

theorem isBurst_regBits_singleBit (j : Fin 16) :
    IsBurst 4 (regBits ((1 : UInt16) <<< j.val.toUInt16).toBitVec) := by
  rw [regBits_singleBit]
  refine ⟨?_, _, _, [true], rfl, by decide⟩
  exact List.mem_append_left _ (List.mem_append_right _ (List.mem_singleton_self true))

theorem flatMap_regBits_replicate_zero (n : ℕ) :
    (List.replicate n (0 : UInt16)).flatMap (fun w => regBits w.toBitVec) =
      List.replicate (n * 16) false := by
  induction n with
  | zero => rfl
  | succ n ih =>
      have hzero : regBits (0 : UInt16).toBitVec = List.replicate 16 false := by decide
      rw [List.replicate_succ, List.flatMap_cons, ih, hzero, List.replicate_append_replicate,
        Nat.succ_mul, Nat.add_comm]

theorem lowBits_singleBit {j : Fin 16} (h : 8 ≤ j) :
    lowBits 8 (((1 : UInt16) <<< j.val.toUInt16) >>> 8).toBitVec =
      List.replicate (15 - j) false ++ [true] ++ List.replicate (j - 8) false := by
  decide +revert

theorem singleBit_eq_replicate {i : Fin 8} (hi : i ≠ 7) (j : Fin 16) :
    promWords (singleBit i j) =
      List.replicate i 0 ++ [(1 : UInt16) <<< j.val.toUInt16] ++ List.replicate (6 - i) 0 := by
  match i with
  | 0 | 1 | 2 | 3 | 4 | 5 | 6 => rfl
  | 7 => exact absurd rfl hi

/-- A single bit is a burst. -/
theorem isBurst_singleBit {i : Fin 8} {j : Fin 16} (h : i ≠ 7 ∨ 8 ≤ j) :
    IsBurst 4 (promBits (singleBit i j)) := by
  by_cases hi : i = 7
  · have hj : 8 ≤ j := h.resolve_left (not_not_intro hi)
    have hbits : promBits (singleBit i j) =
        List.replicate (7 * 16) false ++
          lowBits 8 (((1 : UInt16) <<< j.val.toUInt16) >>> 8).toBitVec := by
      rw [hi, promBits, ← flatMap_regBits_replicate_zero]
      rfl
    rw [hbits, lowBits_singleBit hj]
    apply IsBurst.replicate_append
    refine ⟨?_, _, _, [true], rfl, by decide⟩
    exact List.mem_append_left _ (List.mem_append_right _ (List.mem_singleton_self true))
  · have hlast : lowBits 8 (promLast (singleBit i j) >>> 8).toBitVec = List.replicate 8 false := by
      rw [promLast, singleBit, Function.update_of_ne (Ne.symm hi)]
      decide
    rw [promBits, singleBit_eq_replicate hi, List.flatMap_append, List.flatMap_append,
      flatMap_regBits_replicate_zero, flatMap_regBits_replicate_zero, List.flatMap_singleton, hlast]
    exact (((isBurst_regBits_singleBit j).replicate_append _).append_replicate _).append_replicate _

/-- The words are accepted when none behind the second one is 0 and the low bits of the
last one are the checksum of the others and of its high byte. -/
theorem ms5611ReadCalib_ne_none_iff (word : Prom) :
    ms5611ReadCalib word ≠ none ↔ (∀ i, 1 < i → word i ≠ 0) ∧
      (word 7 &&& 0xF).toBitVec = (crc crc4Taps (promBits word)).setWidth 16 := by
  rw [ms5611ReadCalib, ← crc4_toBitVec, UInt16.toBitVec_inj]
  by_cases hzero : ∃ i, 1 < i ∧ word i = 0
  · obtain ⟨i, hi, heq⟩ := hzero
    rw [if_pos ⟨i, hi, heq⟩]
    exact iff_of_false (fun h => h rfl) fun h => h.1 i hi heq
  · rw [if_neg hzero]
    by_cases hcrc : word 7 &&& 0xF = crc4 (Function.update word 7 (word 7 &&& 0xFF00))
    · have hwords : ∀ i, 1 < i → word i ≠ 0 := fun i hi heq => hzero ⟨i, hi, heq⟩
      simp only [hcrc, ne_eq, not_true_eq_false, if_false, reduceCtorEq, not_false_eq_true,
        true_iff, and_true]
      exact hwords
    · simp only [ne_eq, hcrc, not_false_eq_true, if_true, not_true_eq_false, and_false]

/-- A bit that a mask selects and that is clear. -/
theorem getLsbD_of_and_eq_zero {w mask : UInt16} (h : w &&& mask = 0) {i : ℕ}
    (hmask : mask.toBitVec.getLsbD i = true) : w.toBitVec.getLsbD i = false := by
  have hbit := congrArg (fun w : UInt16 => w.toBitVec.getLsbD i) h
  simpa [UInt16.toBitVec_and, BitVec.getLsbD_and, hmask] using hbit

/-- A pattern whose low byte is clear leaves the low bits. -/
theorem flipProm_and_low {prom pattern : Prom} (h : pattern 7 &&& 0x00FF = 0) :
    flipProm prom pattern 7 &&& 0xF = prom 7 &&& 0xF := by
  apply UInt16.toBitVec_inj.1
  apply BitVec.eq_of_getLsbD_eq
  intro i _
  rw [flipProm, UInt16.toBitVec_and, UInt16.toBitVec_and, UInt16.toBitVec_xor, BitVec.getLsbD_and,
    BitVec.getLsbD_and, BitVec.getLsbD_xor, getLsbD_crcMask]
  by_cases hi : i < 4
  · have hlow : (0x00FF : UInt16).toBitVec.getLsbD i = true := by
      rw [getLsbD_lowMask, decide_eq_true (hi.trans (by decide))]
    rw [getLsbD_of_and_eq_zero h hlow, Bool.xor_false]
  · rw [decide_eq_false hi, Bool.and_false, Bool.and_false]

theorem length_promBits (prom : Prom) : (promBits prom).length = 120 := by
  simp [promBits, promWords]

theorem setWidth_injective : Function.Injective (BitVec.setWidth 16 : BitVec 4 → BitVec 16) := by
  intro c d h
  have hnarrow := congrArg (BitVec.setWidth 4) h
  rwa [BitVec.setWidth_setWidth_of_le c (by decide), BitVec.setWidth_setWidth_of_le d (by decide),
    BitVec.setWidth_eq, BitVec.setWidth_eq] at hnarrow

/-- A burst changes the checksum of the words, and not the one they hold. -/
theorem ms5611ReadCalib_burst {prom pattern : Prom} (h : ms5611ReadCalib prom ≠ none)
    (hburst : IsBurst 4 (promBits pattern)) (hlow : pattern 7 &&& 0x00FF = 0) :
    ms5611ReadCalib (flipProm prom pattern) = none := by
  by_contra hflip
  have hcrc := ((ms5611ReadCalib_ne_none_iff _).1 h).2
  have hcrcFlip := ((ms5611ReadCalib_ne_none_iff _).1 hflip).2
  rw [flipProm_and_low hlow, hcrc, promBits_flipProm] at hcrcFlip
  have hlen : (promBits prom).length = (promBits pattern).length := by
    rw [length_promBits, length_promBits]
  exact crc_xor_isBurst_ne crc4Taps (by decide) hlen hburst (setWidth_injective hcrcFlip).symm

/-- Above the checksum that the words hold. -/
theorem getLsbD_highCrcMask {i : ℕ} (hlt : i < 16) (hi : 4 ≤ i) :
    (0xFFF0 : UInt16).toBitVec.getLsbD i = true := by
  have hcompl : (0xFFF0 : UInt16).toBitVec = ~~~(0xF : UInt16).toBitVec := by decide
  rw [hcompl, BitVec.getLsbD_not, getLsbD_crcMask, decide_eq_true hlt,
    decide_eq_false (Nat.not_lt.2 hi)]
  rfl

theorem promBits_flipProm_crc {prom pattern : Prom} (hbits : ∀ i ≠ 7, pattern i = 0)
    (hhigh : pattern 7 &&& 0xFFF0 = 0) : promBits (flipProm prom pattern) = promBits prom := by
  have hwords : ∀ i ≠ 7, flipProm prom pattern i = prom i := by
    intro i hi
    rw [flipProm, hbits i hi, UInt16.xor_zero]
  have hlast : lowBits 8 (promLast (flipProm prom pattern) >>> 8).toBitVec =
      lowBits 8 (promLast prom >>> 8).toBitVec := by
    apply lowBits_congr
    intro i hi
    have hclear : (pattern 7).toBitVec.getLsbD (8 + i) = false :=
      getLsbD_of_and_eq_zero hhigh (getLsbD_highCrcMask (by omega) (by omega))
    change ((prom 7 ^^^ pattern 7).toBitVec >>> 8).getLsbD i = ((prom 7).toBitVec >>> 8).getLsbD i
    rw [BitVec.getLsbD_ushiftRight, BitVec.getLsbD_ushiftRight, UInt16.toBitVec_xor,
      BitVec.getLsbD_xor, hclear, Bool.xor_false]
  rw [promBits, promBits, hlast, promWords, promWords, hwords 0 (by decide),
    hwords 1 (by decide), hwords 2 (by decide), hwords 3 (by decide), hwords 4 (by decide),
    hwords 5 (by decide), hwords 6 (by decide)]

/-- Bits of the checksum that the words hold do not change the one they have. -/
theorem ms5611ReadCalib_crc {prom pattern : Prom} (h : ms5611ReadCalib prom ≠ none)
    (hbits : ∀ i ≠ 7, pattern i = 0) (hhigh : pattern 7 &&& 0xFFF0 = 0) (hne : pattern 7 ≠ 0) :
    ms5611ReadCalib (flipProm prom pattern) = none := by
  by_contra hflip
  have hcrc := ((ms5611ReadCalib_ne_none_iff _).1 h).2
  have hcrcFlip := ((ms5611ReadCalib_ne_none_iff _).1 hflip).2
  rw [promBits_flipProm_crc hbits hhigh, ← hcrc] at hcrcFlip
  apply hne
  apply UInt16.toBitVec_inj.1
  apply BitVec.eq_of_getLsbD_eq
  intro i hi
  change _ = (0#16).getLsbD i
  rw [BitVec.getLsbD_zero]
  by_cases hlow : i < 4
  · have hbit := congrArg (BitVec.getLsbD · i) hcrcFlip
    rw [flipProm, UInt16.toBitVec_and, UInt16.toBitVec_and, UInt16.toBitVec_xor,
      BitVec.getLsbD_and, BitVec.getLsbD_and, BitVec.getLsbD_xor, getLsbD_crcMask,
      decide_eq_true hlow, Bool.and_true, Bool.and_true] at hbit
    exact Bool.xor_right_inj.1 (hbit.trans (Bool.xor_false _).symm)
  · exact getLsbD_of_and_eq_zero hhigh (getLsbD_highCrcMask hi (Nat.le_of_not_lt hlow))

theorem singleBit_and_low {i : Fin 8} {j : Fin 16} (h : i ≠ 7 ∨ 8 ≤ j) :
    singleBit i j 7 &&& 0x00FF = 0 := by
  by_cases hi : i = 7
  · have hj : 8 ≤ j := h.resolve_left (not_not_intro hi)
    rw [hi, singleBit, Function.update_self]
    decide +revert
  · rw [singleBit, Function.update_of_ne (Ne.symm hi)]
    rfl

theorem PromError.eq_none {prom pattern : Prom} (herror : PromError pattern)
    (h : ms5611ReadCalib prom ≠ none) : ms5611ReadCalib (flipProm prom pattern) = none := by
  cases herror with
  | bit i j hij => exact ms5611ReadCalib_burst h (isBurst_singleBit hij) (singleBit_and_low hij)
  | burst _ hburst hlow => exact ms5611ReadCalib_burst h hburst hlow
  | crc _ hbits hhigh hne => exact ms5611ReadCalib_crc h hbits hhigh hne

theorem ms5611ReadCalibDev_eq_zero_iff {dev : Ms5611} {prom : Prom} :
    (ms5611ReadCalibDev dev prom).2 = 0 ↔ ms5611ReadCalib prom ≠ none := by
  rw [ms5611ReadCalibDev_eq]
  cases ms5611ReadCalib prom with
  | none => exact iff_of_false (by decide : (-1 : ℤ) ≠ 0) fun h => h rfl
  | some calib => exact iff_of_true rfl (Option.some_ne_none calib)

/-- An error leaves the stored calibration. -/
theorem ms5611ReadCalibDev_frame {dev : Ms5611} {prom : Prom}
    (h : (ms5611ReadCalibDev dev prom).2 ≠ 0) :
    (ms5611ReadCalibDev dev prom).1.calib = dev.calib := by
  have hnone : ms5611ReadCalib prom = none := by
    by_contra hsome
    exact h (ms5611ReadCalibDev_eq_zero_iff.2 hsome)
  rw [ms5611ReadCalibDev_eq, hnone]

/-- A pass of the state machine reads the calibration in this way. -/
theorem fsmReadCalib_dev (sys : Ms5611System) (prom : Prom) :
    (fsmReadCalib sys prom).dev.calib = (ms5611ReadCalibDev sys.dev prom).1.calib := by
  rw [ms5611ReadCalibDev_eq, fsmReadCalib]
  cases ms5611ReadCalib prom with
  | none => exact (apply_ite (fun sys : Ms5611System => sys.dev.calib) ..).trans (ite_self _)
  | some calib => exact (apply_ite (fun sys : Ms5611System => sys.dev.calib) ..).trans (ite_self _)

/-- Words that are accepted are refused with an error in them, and words that are refused
leave the stored calibration. -/
theorem ms5611ReadCalib_error {dev : Ms5611} {prom pattern : Prom}
    (haccept : (ms5611ReadCalibDev dev prom).2 = 0) (herror : PromError pattern) :
    (∀ dev', (ms5611ReadCalibDev dev' (flipProm prom pattern)).2 = -1) ∧
      ∀ dev' prom', (ms5611ReadCalibDev dev' prom').2 ≠ 0 →
        (ms5611ReadCalibDev dev' prom').1.calib = dev'.calib := by
  constructor
  · intro dev'
    rw [ms5611ReadCalibDev_eq, herror.eq_none (ms5611ReadCalibDev_eq_zero_iff.1 haccept)]
  · intro dev' prom' hrefuse
    exact ms5611ReadCalibDev_frame hrefuse

/-- Words with their checksum. -/
def sampleProm : Prom :=
  ![0x3132, 0x3334, 0x3536, 0x3738, 0x3940, 0x4142, 0x4344, 0x450B]

theorem ms5611ReadCalib_error_sample :
    (ms5611ReadCalibDev ms5611Start.dev
      (flipProm sampleProm (singleBit ⟨0, by decide⟩ ⟨3, by decide⟩))).2 = -1 := by
  have haccept : (ms5611ReadCalibDev ms5611Start.dev sampleProm).2 = 0 := by decide +kernel
  exact (ms5611ReadCalib_error haccept (.bit _ _ (Or.inl (by decide)))).1 _

end Catpilot
