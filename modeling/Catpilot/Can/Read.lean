import Catpilot.Can.Basic
import Catpilot.Memory.Copy

/-!
# Reading a received frame

What `can_receive` makes of a frame, and what `can_read` makes of it for its caller: the
requested count is not looked at, and the returned value has the size of the header added,
which is not copied.
-/

namespace Catpilot

open Memory

/-- The members of `FDCAN_RxHeaderTypeDef` that `can_receive` uses. -/
structure FdcanRxHeader where
  identifier : UInt32
  rxFrameType : UInt32
  dataLength : UInt32
  deriving DecidableEq, Repr

/-- `can_length_from_hal`. -/
def canLengthFromHal (dlc : UInt32) : UInt32 :=
  if dlc = 0x00000000 then 0
  else if dlc = 0x00010000 then 1
  else if dlc = 0x00020000 then 2
  else if dlc = 0x00030000 then 3
  else if dlc = 0x00040000 then 4
  else if dlc = 0x00050000 then 5
  else if dlc = 0x00060000 then 6
  else if dlc = 0x00070000 then 7
  else if dlc = 0x00080000 then 8
  else 0

/-- `can_frame_type_from_hal`, with `CAN_REMOTE_FRAME` and `CAN_DATA_FRAME`. -/
def canFrameTypeFromHal (frameType : UInt32) : UInt32 := if frameType = 0x20000000 then 1 else 0

/-- The frame that `can_receive` fills in, with the eight bytes of its data. -/
def canReceivedFrame (hal : FdcanRxHeader) (data : List UInt8) : CanFrame where
  header :=
    { id := hal.identifier
      frameType := canFrameTypeFromHal hal.rxFrameType
      size := canLengthFromHal hal.dataLength }
  data := data

theorem toNat_ite_le {p : Prop} [Decidable p] {a b : UInt32} {n : ℕ} (ha : a.toNat ≤ n)
    (hb : b.toNat ≤ n) : (if p then a else b).toNat ≤ n := by
  split
  · exact ha
  · exact hb

theorem canLengthFromHal_le (dlc : UInt32) : (canLengthFromHal dlc).toNat ≤ 8 := by
  rw [canLengthFromHal]
  iterate 9 apply toNat_ite_le (by decide)
  decide

/-- What a read of `count` bytes owes its caller: as many of the frame's bytes as there are, but
no more than asked for, are put into the buffer, and their number is returned; the rest of the
memory, from the buffer on, is as before. -/
structure ReadContract (frame : CanFrame) (count : ℕ) (rv : ℕ) (mem mem' : List UInt8) : Prop where
  rv : rv = min count frame.header.size.toNat
  written : ∀ j < min count frame.header.size.toNat, mem'[j]? = frame.data[j]?
  untouched : ∀ j, min count frame.header.size.toNat ≤ j → mem'[j]? = mem[j]?

section Read

variable {n : ℕ} {can : Can n} {i count : ℕ} {ch : CanChannel n} {frame : CanFrame}
  {q : BoundedQueue CanFrame n}

/-- A read of a channel with a frame. -/
theorem canRead_eq (hch : can.channel[i]?.join = some ch)
    (hq : ch.rxQueue.receive = some (frame, q)) (count : ℕ) :
    canRead can i count = some (can.setChannel i { ch with rxQueue := q },
      sizeofCanHeader + frame.header.size.toNat, frame.data.take frame.header.size.toNat) := by
  rw [canRead, hch]
  simp only [hq]

/-- The returned value is never the one that the contract asks for. -/
theorem not_readContract_of_header (mem mem' : List UInt8) :
    ¬ ReadContract frame count (sizeofCanHeader + frame.header.size.toNat) mem mem' := by
  intro h
  have hrv := h.rv
  rw [sizeofCanHeader] at hrv
  have hle := Nat.min_le_right count frame.header.size.toNat
  omega

/-- A byte behind the requested count keeps its value in every read exactly when the frame is no
longer than that. -/
theorem untouched_iff (hdata : frame.data.length = 8) (hsize : frame.header.size.toNat ≤ 8) :
    (∀ mem : List UInt8, 8 ≤ mem.length → ∀ j, count ≤ j →
        (memcpy mem 0 (frame.data.take frame.header.size.toNat))[j]? = mem[j]?) ↔
      frame.header.size.toNat ≤ count := by
  have hlen : (frame.data.take frame.header.size.toNat).length = frame.header.size.toNat := by
    rw [List.length_take, hdata, Nat.min_eq_left hsize]
  constructor
  · intro h
    by_contra hlt
    have hcount : count < frame.data.length := by omega
    -- memory that differs from the frame at the first byte behind the count
    have hmem := h (List.replicate 8 (frame.data[count] + 1)) (by simp) count (Nat.le_refl _)
    have hinside := @getElem?_memcpy_inside UInt8 (List.replicate 8 (frame.data[count] + 1))
      (frame.data.take frame.header.size.toNat) 0 (Nat.zero_le _) count (by omega)
    rw [Nat.zero_add] at hinside
    rw [hinside, List.getElem?_take_of_lt (by omega), List.getElem?_eq_getElem hcount,
      List.getElem?_replicate, if_pos (by omega), Option.some.injEq] at hmem
    exact absurd hmem (by simp)
  · intro hle mem hmem j hj
    exact getElem?_memcpy_outside (by omega) (Or.inr (by omega))

/-- A read of a received frame meets its contract for no count and no buffer: it writes the whole
frame, so that bytes behind the count are changed where the frame is longer, and it returns the
size of the header on top of that of the frame. -/
theorem canRead_not_readContract (hch : can.channel[i]?.join = some ch) {hal : FdcanRxHeader}
    {data : List UInt8} (hdata : data.length = 8)
    (hq : ch.rxQueue.receive = some (canReceivedFrame hal data, q)) (count : ℕ) :
    ∃ can' rv bytes, canRead can i count = some (can', rv, bytes) ∧
      rv = sizeofCanHeader + (canLengthFromHal hal.dataLength).toNat ∧
      bytes = data.take (canLengthFromHal hal.dataLength).toNat ∧
      ((∀ mem : List UInt8, 8 ≤ mem.length → ∀ j, count ≤ j →
          (memcpy mem 0 bytes)[j]? = mem[j]?) ↔
        (canLengthFromHal hal.dataLength).toNat ≤ count) ∧
      ∀ mem, ¬ ReadContract (canReceivedFrame hal data) count rv mem (memcpy mem 0 bytes) :=
  ⟨_, _, _, canRead_eq hch hq count, rfl, rfl,
    untouched_iff hdata (canLengthFromHal_le hal.dataLength),
    fun mem => not_readContract_of_header mem _⟩

end Read

/-- The header of a data frame of eight bytes. -/
def headerEight : FdcanRxHeader := ⟨0x10, 0, 0x00080000⟩

/-- Eight bytes. -/
def dataEight : List UInt8 := [1, 2, 3, 4, 5, 6, 7, 8]

/-- A channel that has received a frame of eight bytes. -/
def channelEight : CanChannel 1 :=
  ⟨0, 0, canDefaultRxFilterId, 0, ⟨[canReceivedFrame headerEight dataEight], Nat.le_refl 1⟩⟩

/-- An interface with this channel. -/
def canEight : Can 1 := (canInit Nat.zero_lt_one).setChannel 0 channelEight

/-- A read of four bytes writes all eight and returns 20. -/
theorem canRead_canEight : ∃ can', canRead canEight 0 4 = some (can', 20, dataEight) ∧
    ¬ ReadContract (canReceivedFrame headerEight dataEight) 4 20 [] dataEight := by
  obtain ⟨can', rv, bytes, hread, hrv, hbytes, -, hnot⟩ :=
    @canRead_not_readContract 1 canEight 0 channelEight (BoundedQueue.empty CanFrame 1) rfl
      headerEight dataEight rfl rfl 4
  subst hrv hbytes
  exact ⟨can', hread, hnot []⟩

/-- A read does not meet its contract. -/
theorem not_canRead_contract :
    ¬ ∀ (n : ℕ) (can can' : Can n) (i count rv : ℕ) (hal : FdcanRxHeader)
      (data bytes mem : List UInt8) (ch : CanChannel n) (q : BoundedQueue CanFrame n),
        can.channel[i]?.join = some ch →
        ch.rxQueue.receive = some (canReceivedFrame hal data, q) →
        canRead can i count = some (can', rv, bytes) →
          ReadContract (canReceivedFrame hal data) count rv mem (memcpy mem 0 bytes) := by
  intro hall
  have h := hall 1 canEight _ 0 4 _ headerEight dataEight _ [0, 0, 0, 0, 0, 0, 0, 0]
    channelEight (BoundedQueue.empty CanFrame 1) rfl rfl
    (canRead_eq rfl rfl 4)
  exact not_readContract_of_header _ _ h

end Catpilot
