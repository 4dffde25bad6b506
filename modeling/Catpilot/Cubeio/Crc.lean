import Catpilot.Checksum.Crc
import Catpilot.Cubeio.Basic

/-!
# The checksum of the packets

`crc_packet` takes a byte at a time through a table. The table has the remainders of eight
steps of the division by `X ^ 8 + X ^ 2 + X + 1`, so that the checksum is the remainder of the
packet's bytes. The response is checked with its own checksum cleared.
-/

namespace Catpilot

open Checksum Polynomial

/-! ## The table -/

/-- `X ^ 2 + X + 1`. -/
def crc8Taps : BitVec 8 := 0x07

theorem generator_crc8Taps : generator crc8Taps = X ^ 8 + X ^ 2 + X + 1 := by
  rw [generator, regPoly]
  simp only [Finset.sum_range_succ, Finset.sum_range_zero, crc8Taps]
  simp [bitVal]
  ring

theorem map_crc8Tab : crc8Tab.toList.map UInt8.toBitVec =
    (List.range 256).map fun i => crcBits crc8Taps (BitVec.ofNat 8 i) (List.replicate 8 false) := by
  decide +kernel

/-- Each entry of the table is what eight steps make of its index. -/
theorem crc8Tab_eq (b : UInt8) : (crc8Tab.getD b.toNat 0).toBitVec =
    crcBits crc8Taps b.toBitVec (List.replicate 8 false) := by
  have hlt := b.toNat_lt
  have hlen := congrArg List.length map_crc8Tab
  rw [List.length_map, List.length_map, List.length_range, Array.length_toList] at hlen
  have hsize : b.toNat < crc8Tab.size := by omega
  have hentry := congrArg (·[b.toNat]?) map_crc8Tab
  rw [List.getElem?_map, List.getElem?_map, List.getElem?_range hlt, Array.getElem?_toList,
    Array.getElem?_eq_getElem hsize, Option.map_some, Option.map_some, Option.some.injEq] at hentry
  rw [Array.getD_eq_getD_getElem?, Array.getElem?_eq_getElem hsize, Option.getD_some, hentry]
  congr 1
  exact BitVec.ofNat_toNat 8 b.toBitVec

/-- The bits of bytes, the most significant of each first. -/
def byteBits (bytes : List UInt8) : List Bool := bytes.flatMap fun b => regBits b.toBitVec

theorem byteBits_cons (b : UInt8) (bytes : List UInt8) :
    byteBits (b :: bytes) = regBits b.toBitVec ++ byteBits bytes := List.flatMap_cons

theorem length_byteBits (bytes : List UInt8) : (byteBits bytes).length = 8 * bytes.length := by
  induction bytes with
  | nil => rfl
  | cons b bytes ih =>
      rw [byteBits_cons, List.length_append, length_regBits, ih, List.length_cons]
      ring

theorem byteBits_zipWith_xor {l m : List UInt8} (h : l.length = m.length) :
    byteBits (List.zipWith (· ^^^ ·) l m) = List.zipWith xor (byteBits l) (byteBits m) := by
  apply flatMap_zipWith_xor (fun b => length_regBits b.toBitVec) _ h
  intro a b
  rw [UInt8.toBitVec_xor, regBits_xor]

/-- The loop of `crc_packet` feeds the bits of the bytes into the register. -/
theorem foldl_crc8Tab (bytes : List UInt8) (c : UInt8) :
    (bytes.foldl (fun c p => crc8Tab.getD (c ^^^ p).toNat 0) c).toBitVec =
      crcBits crc8Taps c.toBitVec (byteBits bytes) := by
  induction bytes generalizing c with
  | nil => rfl
  | cons b bytes ih =>
      rw [List.foldl_cons, ih, crc8Tab_eq, byteBits_cons, crcBits_append, crcBits_regBits,
        UInt8.toBitVec_xor]

/-! ## Packets -/

/-- What the checksum protects beside the count and the code: the page, the offset and the
registers. -/
structure CubeioPayload where
  page : UInt8
  offset : UInt8
  regs : Fin 22 → UInt16

/-- The two bytes of a register in memory. -/
def regBytes (r : UInt16) : List UInt8 := [r.toUInt8, (r >>> 8).toUInt8]

/-- The bytes in memory. -/
def CubeioPayload.bytes (p : CubeioPayload) : List UInt8 :=
  p.page :: p.offset :: (List.ofFn p.regs).flatMap regBytes

/-- The payload of a packet. -/
def CubeioPacket.payload (pkt : CubeioPacket) : CubeioPayload := ⟨pkt.page, pkt.offset, pkt.regs⟩

/-- The payload with the bits of another one flipped. -/
def CubeioPayload.xor (p e : CubeioPayload) : CubeioPayload where
  page := p.page ^^^ e.page
  offset := p.offset ^^^ e.offset
  regs := fun i => p.regs i ^^^ e.regs i

/-- The packet with bits of its payload flipped. -/
def CubeioPacket.xorPayload (pkt : CubeioPacket) (e : CubeioPayload) : CubeioPacket :=
  { pkt with
    page := (pkt.payload.xor e).page
    offset := (pkt.payload.xor e).offset
    regs := (pkt.payload.xor e).regs }

/-- The bytes that `crc_packet` goes over. -/
def CubeioPacket.crcBytes (pkt : CubeioPacket) : List UInt8 := pkt.bytes.take (4 + 2 * pkt.count)

theorem length_flatMap_regBytes (l : List UInt16) : (l.flatMap regBytes).length = 2 * l.length := by
  induction l with
  | nil => rfl
  | cons r l ih =>
      rw [List.flatMap_cons, List.length_append, ih, List.length_cons]
      simp only [regBytes, List.length_cons, List.length_nil]
      ring

theorem CubeioPayload.length_bytes (p : CubeioPayload) : p.bytes.length = 46 := by
  rw [CubeioPayload.bytes, List.length_cons, List.length_cons, length_flatMap_regBytes,
    List.length_ofFn]

theorem regBytes_xor (r s : UInt16) :
    regBytes (r ^^^ s) = List.zipWith (· ^^^ ·) (regBytes r) (regBytes s) := by
  rw [regBytes, UInt16.shiftRight_xor, UInt16.toUInt8_xor, UInt16.toUInt8_xor]
  rfl

theorem flatMap_regBytes_ofFn_xor {n : ℕ} (f g : Fin n → UInt16) :
    (List.ofFn fun i => f i ^^^ g i).flatMap regBytes =
      List.zipWith (· ^^^ ·) ((List.ofFn f).flatMap regBytes) ((List.ofFn g).flatMap regBytes) := by
  induction n with
  | zero => rfl
  | succ n ih =>
      rw [List.ofFn_succ, List.ofFn_succ, List.ofFn_succ, List.flatMap_cons, List.flatMap_cons,
        List.flatMap_cons, List.zipWith_append, ih, regBytes_xor]
      rfl

theorem CubeioPayload.bytes_xor (p e : CubeioPayload) :
    (p.xor e).bytes = List.zipWith (· ^^^ ·) p.bytes e.bytes := by
  rw [CubeioPayload.bytes, CubeioPayload.xor, flatMap_regBytes_ofFn_xor]
  rfl

theorem CubeioPacket.bytes_eq (pkt : CubeioPacket) :
    pkt.bytes = UInt8.ofNat (pkt.count + 64 * pkt.code) :: pkt.crc :: pkt.payload.bytes := rfl

theorem CubeioPacket.length_bytes (pkt : CubeioPacket) : pkt.bytes.length = 48 := by
  rw [CubeioPacket.bytes_eq, List.length_cons, List.length_cons, CubeioPayload.length_bytes]

theorem CubeioPacket.crcBytes_eq (pkt : CubeioPacket) : pkt.crcBytes =
    UInt8.ofNat (pkt.count + 64 * pkt.code) :: pkt.crc ::
      pkt.payload.bytes.take (2 + 2 * pkt.count) := by
  rw [CubeioPacket.crcBytes, CubeioPacket.bytes_eq,
    show 4 + 2 * (pkt.count : ℕ) = 2 + 2 * (pkt.count : ℕ) + 1 + 1 by ring, List.take_succ_cons,
    List.take_succ_cons]

/-- A packet with at most as many registers as it has room for is checked within its bytes. -/
theorem crcPacket_eq {pkt : CubeioPacket} (h : (pkt.count : ℕ) ≤ 22) (behind : List UInt8) :
    (crcPacket pkt behind).toBitVec = crc crc8Taps (byteBits pkt.crcBytes) := by
  have hle : 4 + 2 * (pkt.count : ℕ) ≤ pkt.bytes.length := by
    rw [pkt.length_bytes]
    omega
  rw [crcPacket, List.take_append_of_le_length hle, foldl_crc8Tab, CubeioPacket.crcBytes, crc]
  rfl

/-! ## Bursts -/

/-- Flipped bits of the payload are flipped in what is checked, behind the two first bytes. -/
theorem CubeioPacket.byteBits_crcBytes_xorPayload (pkt : CubeioPacket) (e : CubeioPayload) :
    byteBits (pkt.xorPayload e).crcBytes = List.zipWith xor (byteBits pkt.crcBytes)
      (List.replicate 16 false ++ byteBits (e.bytes.take (2 + 2 * pkt.count))) := by
  have hpayload : (pkt.xorPayload e).payload.bytes.take (2 + 2 * pkt.count) =
      List.zipWith (· ^^^ ·) (pkt.payload.bytes.take (2 + 2 * pkt.count))
        (e.bytes.take (2 + 2 * pkt.count)) := by
    rw [← List.take_zipWith, ← CubeioPayload.bytes_xor]
    rfl
  have hlen : (pkt.payload.bytes.take (2 + 2 * pkt.count)).length =
      (e.bytes.take (2 + 2 * pkt.count)).length := by
    rw [List.length_take, List.length_take, CubeioPayload.length_bytes,
      CubeioPayload.length_bytes]
  have hzero : List.replicate 16 false = List.replicate 8 false ++ List.replicate 8 false := rfl
  rw [CubeioPacket.crcBytes_eq, CubeioPacket.crcBytes_eq]
  change byteBits (UInt8.ofNat (pkt.count + 64 * pkt.code) :: pkt.crc ::
    (pkt.xorPayload e).payload.bytes.take (2 + 2 * pkt.count)) = _
  rw [hpayload, byteBits_cons, byteBits_cons, byteBits_cons, byteBits_cons,
    byteBits_zipWith_xor hlen, hzero, List.append_assoc, List.zipWith_append,
    List.zipWith_append, zipWith_xor_replicate_false (length_regBits _),
    zipWith_xor_replicate_false (length_regBits _)]
  · rw [length_regBits, List.length_replicate]
  · rw [length_regBits, List.length_replicate]

/-- For every packet with at most 22 registers, the checksum is the remainder of its first
`4 + 2 * count` bytes, by steps of the register and as a polynomial, and a response that passes
the check does not pass it with a burst of at most eight bits flipped in its page, its offset
and its registers. -/
theorem crcPacket_spec (pkt : CubeioPacket) (behind : List UInt8) (h : (pkt.count : ℕ) ≤ 22) :
    (crcPacket pkt behind).toBitVec = crc crc8Taps (byteBits (pkt.bytes.take (4 + 2 * pkt.count))) ∧
      regPoly (crcPacket pkt behind).toBitVec =
        (bitsPoly (byteBits (pkt.bytes.take (4 + 2 * pkt.count))) * X ^ 8) %ₘ
          (X ^ 8 + X ^ 2 + X + 1) ∧
      ∀ (rv : ℤ) (e : CubeioPayload), IsBurst 8 (byteBits (e.bytes.take (2 + 2 * pkt.count))) →
        UsartAnswer.crcOk ⟨rv, pkt, behind⟩ = true →
          UsartAnswer.crcOk ⟨rv, pkt.xorPayload e, behind⟩ = false := by
  have hcrc := crcPacket_eq h behind
  refine ⟨hcrc, ?_, ?_⟩
  · rw [hcrc, regPoly_crc, generator_crc8Taps]
    rfl
  · intro rv e hburst hok
    rw [UsartAnswer.crcOk, decide_eq_true_eq] at hok
    rw [UsartAnswer.crcOk, decide_eq_false_iff_not]
    intro hflip
    -- the packets are checked with their checksum cleared
    let cleared : CubeioPacket := { pkt with crc := 0 }
    have hsame : crcPacket (cleared.xorPayload e) behind = crcPacket cleared behind :=
      hflip.trans hok.symm
    have hbits := congrArg UInt8.toBitVec hsame
    have hclear : (cleared.count : ℕ) ≤ 22 := h
    have hflipped : ((cleared.xorPayload e).count : ℕ) ≤ 22 := h
    rw [crcPacket_eq hflipped, crcPacket_eq hclear,
      CubeioPacket.byteBits_crcBytes_xorPayload] at hbits
    have hlen : (byteBits cleared.crcBytes).length =
        (List.replicate 16 false ++ byteBits (e.bytes.take (2 + 2 * pkt.count))).length := by
      rw [CubeioPacket.crcBytes_eq, length_byteBits, List.length_append, length_byteBits,
        List.length_replicate, List.length_cons, List.length_cons, List.length_take,
        List.length_take, CubeioPayload.length_bytes, CubeioPayload.length_bytes]
      ring
    exact crc_xor_isBurst_ne crc8Taps rfl hlen (hburst.replicate_append 16) hbits

/-- A response with one register, with its checksum. -/
def responseOne : CubeioPacket := ⟨⟨1, by decide⟩, pktCodeSuccess, 41, 0, 0, fun _ => 0⟩

/-- One bit of the page. -/
def pageBit : CubeioPayload := ⟨1, 0, fun _ => 0⟩

/-- The response does not pass with one bit of its page flipped. -/
theorem crcPacket_spec_responseOne :
    UsartAnswer.crcOk ⟨success, responseOne, []⟩ = true ∧
      UsartAnswer.crcOk ⟨success, responseOne.xorPayload pageBit, []⟩ = false := by
  have hok : UsartAnswer.crcOk ⟨success, responseOne, []⟩ = true := by decide +kernel
  have hburst : IsBurst 8 (byteBits (pageBit.bytes.take (2 + 2 * responseOne.count))) :=
    ⟨by decide, 7, 24, [true], by decide, by decide⟩
  exact ⟨hok, (crcPacket_spec responseOne [] (by decide)).2.2 success pageBit hburst hok⟩

end Catpilot
