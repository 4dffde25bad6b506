import Catpilot.Ctlst.SpiPdc
import Catpilot.Sensor.Shifted

/-!
# The registers of the AD7190

A register of the AD7190 has one, three or four bytes. A write of the driver sends the bits 23
to 0 of its value, and then a zero, as many bytes of them as the register has. A read puts the
bytes of the register together, the first one as the highest. They agree for the registers of
three bytes.
-/

namespace Catpilot

open Bits ShiftRegisters

/-- `AD7190_ADDR_REG_MODE`. -/
def ad7190AddrRegMode : BitVec 8 := 1

/-- `AD7190_ADDR_REG_CFG`. -/
def ad7190AddrRegCfg : BitVec 8 := 2

/-- `AD7190_ADDR_REG_DATA`. -/
def ad7190AddrRegData : BitVec 8 := 3

/-- `AD7190_ADDR_REG_GPOCON`. -/
def ad7190AddrRegGpocon : BitVec 8 := 5

/-- `AD7190_ADDR_REG_OFFSET`. -/
def ad7190AddrRegOffset : BitVec 8 := 6

/-- `AD7190_ADDR_REG_FULL_SCALE`. -/
def ad7190AddrRegFullScale : BitVec 8 := 7

/-- `AD7190_REG_COMM_ADDR`. -/
def ad7190RegCommAddr (a : BitVec 8) : BitVec 8 := (a &&& 0x07) <<< 3

/-- `AD7190_WRITE_REGISTER`. -/
def ad7190WriteRegister (a : BitVec 8) : BitVec 8 :=
  (0 : BitVec 8) <<< 7 ||| (0 : BitVec 8) <<< 6 ||| ad7190RegCommAddr a

/-- `AD7190_READ_REGISTER`. -/
def ad7190ReadRegister (a : BitVec 8) : BitVec 8 :=
  (0 : BitVec 8) <<< 7 ||| (1 : BitVec 8) <<< 6 ||| ad7190RegCommAddr a

/-- `AD7190_EXTRACT_ADDR`. -/
def ad7190ExtractAddr (rq : BitVec 8) : BitVec 8 := rq >>> 3 &&& 0x07

/-- `AD7190_REQ` in `ctlst_periph.c`. -/
def ad7190Req (cs : BitVec 32) (pos size : ℕ) (data : BitVec 32) : BitVec 32 :=
  ctlstPeriphTransmission (if pos = size - 1 then 1 else 0) cs data

/-- `fc_d7190_get_reg_size`. -/
def fcD7190GetRegSize (a : BitVec 8) : ℕ :=
  if a = ad7190AddrRegMode ∨ a = ad7190AddrRegCfg ∨ a = ad7190AddrRegOffset ∨
      a = ad7190AddrRegFullScale then 3
  else if a = ad7190AddrRegData then 4
  else 1

section Driver

variable {σ : Type*} (fcnavSpiTrans : List (BitVec 32) → σ → List (BitVec 32) × σ)
  (cs : BitVec 32)

/-- What `fc_d7190_interact` stores at `resp`. It always succeeds; its message about the last
bit of two values is left out. -/
def fcD7190Interact (req : List (BitVec 8)) (s : σ) : BitVec 32 × σ :=
  let respSize := fcD7190GetRegSize (ad7190ExtractAddr (req.getD 0 0))
  let reqSize := respSize + 1
  let request := (List.range reqSize).map fun i =>
    ad7190Req cs i reqSize ((req.getD i 0).setWidth 32)
  let trans := fcnavSpiTrans request s
  let response := trans.1.drop 1
  let rv := (List.range respSize).foldl (fun rv i =>
    rv ||| (spiPdcExtractByte (response.getD i 0)).setWidth 32 <<< (8 * (respSize - i - 1))) 0
  (rv, trans.2)

/-- `fc_d7190_write_register`. -/
def fcD7190WriteRegister (addr : BitVec 8) (data : BitVec 32) (s : σ) : σ :=
  (fcD7190Interact fcnavSpiTrans cs [ad7190WriteRegister addr,
    (data >>> 16 &&& 0xFF).setWidth 8, (data >>> 8 &&& 0xFF).setWidth 8,
    (data &&& 0xFF).setWidth 8, 0] s).2

/-- `fc_d7190_read_register`. -/
def fcD7190ReadRegister (addr : BitVec 8) (s : σ) : BitVec 32 × σ :=
  fcD7190Interact fcnavSpiTrans cs [ad7190ReadRegister addr, 0xFF, 0xFF, 0xFF, 0xFF] s

end Driver

/-! ## The chip -/

/-- The bytes of the register at an address. -/
def ad7190Size (a : BitVec 3) : ℕ := fcD7190GetRegSize (a.setWidth 8)

/-- What a byte asks of the chip: nothing while its highest bit is set, and else a read when
the next one is, of the register at the address in the bits 5 to 3. -/
def ad7190Command (b : BitVec 8) : Option (Command (BitVec 3)) :=
  if b.getLsbD 7 then none
  else if b.getLsbD 6 then some (.read (b.extractLsb' 3 3))
  else some (.write (b.extractLsb' 3 3))

/-- The chip. -/
abbrev Ad7190 := Chip ad7190Size (BitVec 8)

/-- A transfer to the chip, which takes the low byte of each word. It sends one back in the low
byte of a word with the bits of `upper` above it, and `idle` where it has none to send. -/
def ad7190Trans (idle : BitVec 8) (upper : ℕ → BitVec 24) (words : List (BitVec 32))
    (chip : Ad7190) : List (BitVec 32) × Ad7190 :=
  let next := chip.transfer ad7190Command idle (words.map (BitVec.setWidth 8))
  (next.2.mapIdx fun i b => upper i ++ b, next.1)

section RoundTrip

variable (regs : Contents ad7190Size (BitVec 8)) (idle : BitVec 8)
  (upper upper' : ℕ → BitVec 24) (cs : BitVec 32) (addr : BitVec 8) (data : BitVec 32)

/-- A value that is written to a register of the chip is read back from it, and the other
registers stay as they are. -/
def Ad7190RoundTrips : Prop :=
  let written := fcD7190WriteRegister (ad7190Trans idle upper) cs addr data ⟨regs, .command⟩
  let read := fcD7190ReadRegister (ad7190Trans idle upper') cs addr written
  read.1 = data ∧ ∀ a, a ≠ addr.setWidth 3 → read.2.regs a = regs a

end RoundTrip

/-! ## Transfers -/

section Transfers

variable {idle : BitVec 8} {upper : ℕ → BitVec 24} {cs : BitVec 32} {req : List (BitVec 8)}
  {chip : Ad7190}

theorem setWidth_ad7190Req (cs : BitVec 32) (pos size : ℕ) (b : BitVec 8) :
    (ad7190Req cs pos size (b.setWidth 32)).setWidth 8 = b := by
  apply BitVec.eq_of_getLsbD_eq
  intro i hi
  have h24 : i < 24 := by omega
  have h32 : i < 32 := by omega
  rw [ad7190Req, BitVec.getLsbD_setWidth, getLsbD_ctlstPeriphTransmission _ _ _ h24,
    BitVec.getLsbD_setWidth, decide_eq_true hi, decide_eq_true h32, Bool.true_and, Bool.true_and]

theorem spiPdcExtractByte_append (u : BitVec 24) (b : BitVec 8) :
    spiPdcExtractByte (u ++ b) = b := by
  apply BitVec.eq_of_getLsbD_eq
  intro i hi
  have hmask : spiPdcExtractByte (u ++ b) =
      ((u ++ b) &&& BitVec.ofNat 32 (2 ^ 8 - 1)).setWidth 8 := rfl
  rw [hmask, BitVec.getLsbD_setWidth, getLsbD_mask, BitVec.getLsbD_append, if_pos hi,
    decide_eq_true hi, Bool.true_and, Bool.and_true]

/-- The bytes that a request of the driver sends. -/
def ad7190Sent (req : List (BitVec 8)) : List (BitVec 8) :=
  (List.range (fcD7190GetRegSize (ad7190ExtractAddr (req.getD 0 0)) + 1)).map fun i => req.getD i 0

theorem ad7190Trans_request (m : ℕ) :
    ad7190Trans idle upper
        ((List.range m).map fun i => ad7190Req cs i m ((req.getD i 0).setWidth 32)) chip =
      (((chip.transfer ad7190Command idle ((List.range m).map fun i => req.getD i 0)).2.mapIdx
          fun i b => upper i ++ b),
        (chip.transfer ad7190Command idle ((List.range m).map fun i => req.getD i 0)).1) := by
  rw [ad7190Trans, List.map_map]
  have hbytes : BitVec.setWidth 8 ∘ (fun i => ad7190Req cs i m ((req.getD i 0).setWidth 32)) =
      fun i => req.getD i 0 := by
    funext i
    exact setWidth_ad7190Req cs i m (req.getD i 0)
  rw [hbytes]

theorem fcD7190Interact_chip :
    (fcD7190Interact (ad7190Trans idle upper) cs req chip).2 =
      (chip.transfer ad7190Command idle (ad7190Sent req)).1 := by
  rw [fcD7190Interact, ad7190Trans_request, ad7190Sent]

theorem fcD7190Interact_value {first : BitVec 8} {out : List (BitVec 8)}
    (hsent : (chip.transfer ad7190Command idle (ad7190Sent req)).2 = first :: out)
    (hout : out.length = fcD7190GetRegSize (ad7190ExtractAddr (req.getD 0 0))) :
    (fcD7190Interact (ad7190Trans idle upper) cs req chip).1 = bytesValue out := by
  rw [ad7190Sent] at hsent
  rw [fcD7190Interact, ad7190Trans_request, hsent, ← hout, bytesValue]
  apply List.foldl_ext
  intro rv i hi
  have hi' : i < out.length := List.mem_range.1 hi
  have hbyte : spiPdcExtractByte
      ((((first :: out).mapIdx fun i b => upper i ++ b).drop 1).getD i 0) = out.getD i 0 := by
    rw [List.mapIdx_cons, List.drop_one, List.tail_cons, List.getD_eq_getElem?_getD,
      List.getElem?_mapIdx, List.getElem?_eq_getElem hi', Option.map_some, Option.getD_some,
      spiPdcExtractByte_append, List.getD_eq_getElem?_getD, List.getElem?_eq_getElem hi',
      Option.getD_some]
  rw [hbyte]

end Transfers

/-! ## A write and a read -/

section WriteRead

variable (regs : Contents ad7190Size (BitVec 8)) (idle : BitVec 8)
  (upper upper' : ℕ → BitVec 24) (cs : BitVec 32) (addr : BitVec 8) (data : BitVec 32)

/-- The bytes of a value that a write sends to a register of `n` bytes. -/
def ad7190Written (data : BitVec 32) (n : ℕ) : List (BitVec 8) :=
  (List.range n).map fun i => [(data >>> 16 &&& 0xFF).setWidth 8,
    (data >>> 8 &&& 0xFF).setWidth 8, (data &&& 0xFF).setWidth 8, 0].getD i 0

theorem length_ad7190Written (n : ℕ) : (ad7190Written data n).length = n := by
  rw [ad7190Written, List.length_map, List.length_range]

/-- The low three bits of an address are in a command. -/
theorem ad7190RegCommAddr_eq :
    ad7190RegCommAddr addr = ad7190RegCommAddr ((addr.setWidth 3).setWidth 8) := by
  decide +revert

theorem ad7190Command_write :
    ad7190Command (ad7190WriteRegister addr) = some (.write (addr.setWidth 3)) := by
  rw [ad7190WriteRegister, ad7190RegCommAddr_eq]
  generalize addr.setWidth 3 = a
  decide +revert

theorem ad7190Command_read :
    ad7190Command (ad7190ReadRegister addr) = some (.read (addr.setWidth 3)) := by
  rw [ad7190ReadRegister, ad7190RegCommAddr_eq]
  generalize addr.setWidth 3 = a
  decide +revert

theorem ad7190ExtractAddr_write :
    ad7190ExtractAddr (ad7190WriteRegister addr) = (addr.setWidth 3).setWidth 8 := by
  rw [ad7190WriteRegister, ad7190RegCommAddr_eq]
  generalize addr.setWidth 3 = a
  decide +revert

theorem ad7190ExtractAddr_read :
    ad7190ExtractAddr (ad7190ReadRegister addr) = (addr.setWidth 3).setWidth 8 := by
  rw [ad7190ReadRegister, ad7190RegCommAddr_eq]
  generalize addr.setWidth 3 = a
  decide +revert

theorem ad7190Size_cases (a : BitVec 3) :
    ad7190Size a = 1 ∨ ad7190Size a = 3 ∨ ad7190Size a = 4 := by
  decide +revert

theorem ad7190Size_pos (a : BitVec 3) : 0 < ad7190Size a := by
  rcases ad7190Size_cases a with h | h | h
  · exact h ▸ Nat.one_pos
  · exact h ▸ Nat.succ_pos 2
  · exact h ▸ Nat.succ_pos 3

theorem ad7190Sent_cons (b : BitVec 8) (bs : List (BitVec 8)) :
    ad7190Sent (b :: bs) =
      b :: (List.range (fcD7190GetRegSize (ad7190ExtractAddr b))).map fun i => bs.getD i 0 := by
  rw [ad7190Sent, List.range_succ_eq_map, List.map_cons, List.map_map]
  rfl

/-- A write stores the bytes that it sends. -/
theorem fcD7190WriteRegister_eq :
    fcD7190WriteRegister (ad7190Trans idle upper) cs addr data ⟨regs, .command⟩ =
      ⟨Function.update regs (addr.setWidth 3)
        ⟨ad7190Written data (ad7190Size (addr.setWidth 3)), length_ad7190Written data _⟩,
        .command⟩ := by
  rw [fcD7190WriteRegister, fcD7190Interact_chip, ad7190Sent_cons, ad7190ExtractAddr_write]
  exact Chip.transfer_write regs (ad7190Command_write addr) (ad7190Size_pos _) _

/-- A read puts the bytes of the register together. -/
theorem fcD7190ReadRegister_eq :
    fcD7190ReadRegister (ad7190Trans idle upper) cs addr ⟨regs, .command⟩ =
      (bytesValue (regs (addr.setWidth 3)).1, ⟨regs, .command⟩) := by
  have hsent : Chip.transfer ad7190Command idle ⟨regs, .command⟩
      (ad7190Sent [ad7190ReadRegister addr, 0xFF, 0xFF, 0xFF, 0xFF]) =
        (⟨regs, .command⟩, idle :: (regs (addr.setWidth 3)).1) := by
    rw [ad7190Sent_cons, ad7190ExtractAddr_read]
    apply Chip.transfer_read regs (ad7190Command_read addr) (ad7190Size_pos _)
    rw [List.length_map, List.length_range, ad7190Size]
  apply Prod.ext
  · apply fcD7190Interact_value (congrArg Prod.snd hsent)
    rw [(regs (addr.setWidth 3)).2]
    exact congrArg fcD7190GetRegSize (ad7190ExtractAddr_read addr).symm
  · exact fcD7190Interact_chip.trans (congrArg Prod.fst hsent)

theorem ad7190RoundTrips_iff_bytesValue :
    Ad7190RoundTrips regs idle upper upper' cs addr data ↔
      bytesValue (ad7190Written data (ad7190Size (addr.setWidth 3))) = data := by
  rw [Ad7190RoundTrips, fcD7190WriteRegister_eq, fcD7190ReadRegister_eq]
  dsimp only
  rw [Function.update_self]
  constructor
  · intro h
    exact h.1
  · intro h
    exact ⟨h, fun a ha => Function.update_of_ne ha _ _⟩

end WriteRead

/-! ## What comes back -/

section Back

variable {data : BitVec 32}

/-- A bit of a byte that is sent: the bytes are the bits 23 to 0, and then a zero. -/
theorem getLsbD_ad7190Written {n i r : ℕ} (hi : i < n) (hr : r < 8) :
    ((ad7190Written data n).getD i 0).getLsbD r =
      (decide (i ≤ 2) && data.getLsbD (8 * (2 - i) + r)) := by
  have hmask : ∀ d : BitVec 32, ((d &&& 0xFF).setWidth 8).getLsbD r = d.getLsbD r := by
    intro d
    have h8 : d &&& 0xFF = d &&& BitVec.ofNat 32 (2 ^ 8 - 1) := rfl
    rw [h8, BitVec.getLsbD_setWidth, getLsbD_mask, decide_eq_true hr, Bool.true_and, Bool.and_true]
  have hget : (ad7190Written data n).getD i 0 = [(data >>> 16 &&& 0xFF).setWidth 8,
      (data >>> 8 &&& 0xFF).setWidth 8, (data &&& 0xFF).setWidth 8, 0].getD i 0 := by
    rw [ad7190Written, List.getD_eq_getElem?_getD, List.getElem?_map, List.getElem?_range hi]
    rfl
  rw [hget]
  match i with
  | 0 =>
      rw [List.getD_cons_zero, hmask, BitVec.getLsbD_ushiftRight]
      rfl
  | 1 =>
      rw [List.getD_cons_succ, List.getD_cons_zero, hmask, BitVec.getLsbD_ushiftRight]
      rfl
  | 2 =>
      rw [List.getD_cons_succ, List.getD_cons_succ, List.getD_cons_zero, hmask, Nat.sub_self,
        Nat.mul_zero, Nat.zero_add]
      rfl
  | i + 3 =>
      have hzero : [(data >>> 16 &&& 0xFF).setWidth 8, (data >>> 8 &&& 0xFF).setWidth 8,
          (data &&& 0xFF).setWidth 8, (0 : BitVec 8)].getD (i + 3) 0 = 0 := by
        cases i with
        | zero => rfl
        | succ i => rfl
      have h2 : ¬ i + 3 ≤ 2 := by omega
      rw [hzero, decide_eq_false h2, Bool.false_and]
      exact BitVec.getLsbD_zero

/-- A value comes back shifted by as many bytes as its register has more than three. -/
theorem getLsbD_bytesValue_ad7190Written {n j : ℕ} (hn : n ≤ 4) :
    (bytesValue (ad7190Written data n)).getLsbD j =
      (decide (j < 8 * n) && decide (8 * n ≤ j + 24) && data.getLsbD (j + 24 - 8 * n)) := by
  have hlen := length_ad7190Written data n
  by_cases hj : j < 8 * n
  · have h32 : j < 32 := by omega
    have hlt : n - 1 - j / 8 < n := by omega
    rw [getLsbD_bytesValue h32 (by rwa [hlen]), hlen,
      getLsbD_ad7190Written hlt (Nat.mod_lt j (by decide)), decide_eq_true hj, Bool.true_and]
    by_cases h24 : 8 * n ≤ j + 24
    · have h2 : n - 1 - j / 8 ≤ 2 := by omega
      have hplace : 8 * (2 - (n - 1 - j / 8)) + j % 8 = j + 24 - 8 * n := by omega
      rw [decide_eq_true h24, decide_eq_true h2, hplace]
    · have h2 : ¬ n - 1 - j / 8 ≤ 2 := by omega
      rw [decide_eq_false h24, decide_eq_false h2, Bool.false_and, Bool.false_and]
  · rw [getLsbD_bytesValue_of_le (by rw [hlen]; omega), decide_eq_false hj, Bool.false_and,
      Bool.false_and]

/-- The values that come back from a register of `n` bytes. -/
theorem bytesValue_ad7190Written_iff {n : ℕ} (hn : n = 1 ∨ n = 3 ∨ n = 4)
    (hfits : data.toNat < 256 ^ n) :
    bytesValue (ad7190Written data n) = data ↔ n = 3 ∨ data = 0 := by
  have hzero : ∀ j, (0 : BitVec 32).getLsbD j = false := fun j => BitVec.getLsbD_zero
  have hlow : data.toNat < 2 ^ (8 * n) := by rwa [Nat.pow_mul]
  have hbit : ∀ j, (bytesValue (ad7190Written data n)).getLsbD j =
      (decide (j < 8 * n) && decide (8 * n ≤ j + 24) && data.getLsbD (j + 24 - 8 * n)) :=
    fun j => getLsbD_bytesValue_ad7190Written (by omega)
  constructor
  · intro hvalue
    rw [hvalue] at hbit
    rcases hn with rfl | rfl | rfl
    · right
      apply BitVec.eq_of_getLsbD_eq
      intro j _
      rw [hbit, getLsbD_eq_false_of_lt hlow (by omega), Bool.and_false, hzero]
    · exact Or.inl rfl
    · right
      -- each bit is the one eight places below it
      have hall : ∀ j, data.getLsbD j = false := by
        intro j
        induction j using Nat.strong_induction_on with
        | _ j ih =>
            rw [hbit]
            by_cases h8 : 8 * 4 ≤ j + 24
            · rw [ih (j + 24 - 8 * 4) (by omega), Bool.and_false]
            · rw [decide_eq_false h8, Bool.and_false, Bool.false_and]
      apply BitVec.eq_of_getLsbD_eq
      intro j _
      rw [hall, hzero]
  · rintro (rfl | rfl)
    · apply BitVec.eq_of_getLsbD_eq
      intro j _
      rw [hbit, Nat.add_sub_cancel]
      by_cases h24 : j < 8 * 3
      · have hle : 8 * 3 ≤ j + 24 := by omega
        rw [decide_eq_true h24, decide_eq_true hle, Bool.true_and, Bool.true_and]
      · rw [getLsbD_eq_false_of_lt hlow (Nat.le_of_not_lt h24), Bool.and_false]
    · apply BitVec.eq_of_getLsbD_eq
      intro j _
      rw [hbit, hzero, Bool.and_false, hzero]

end Back

/-- A value that fits a register of the chip is read back after it has been written, with the
other registers as they were, exactly when the register has three bytes or the value is zero. -/
theorem ad7190RoundTrips_iff (regs : Contents ad7190Size (BitVec 8)) (idle : BitVec 8)
    (upper upper' : ℕ → BitVec 24) (cs : BitVec 32) (addr : BitVec 8) {data : BitVec 32}
    (hfits : data.toNat < 256 ^ ad7190Size (addr.setWidth 3)) :
    Ad7190RoundTrips regs idle upper upper' cs addr data ↔
      ad7190Size (addr.setWidth 3) = 3 ∨ data = 0 := by
  rw [ad7190RoundTrips_iff_bytesValue]
  exact bytesValue_ad7190Written_iff (ad7190Size_cases _) hfits

/-- A chip with registers of zeros. -/
def ad7190Zeros : Contents ad7190Size (BitVec 8) :=
  fun a => ⟨List.replicate (ad7190Size a) 0, List.length_replicate⟩

theorem ad7190RoundTrips_cfg :
    (0x123456 : BitVec 32).toNat < 256 ^ ad7190Size (ad7190AddrRegCfg.setWidth 3) ∧
      (Ad7190RoundTrips ad7190Zeros 0 0 0 4 ad7190AddrRegCfg 0x123456 ↔
        ad7190Size (ad7190AddrRegCfg.setWidth 3) = 3 ∨ (0x123456 : BitVec 32) = 0) :=
  ⟨by decide, ad7190RoundTrips_iff ad7190Zeros 0 0 0 4 ad7190AddrRegCfg (by decide)⟩

/-- A one in the register for the general outputs does not come back. -/
theorem not_ad7190RoundTrips_gpocon :
    (1 : BitVec 32).toNat < 256 ^ ad7190Size (ad7190AddrRegGpocon.setWidth 3) ∧
      ¬ Ad7190RoundTrips ad7190Zeros 0 0 0 4 ad7190AddrRegGpocon 1 := by
  refine ⟨by decide, fun h => ?_⟩
  have hvalue := h.1
  revert hvalue
  decide

end Catpilot
