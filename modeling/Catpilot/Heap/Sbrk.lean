import Catpilot.Memory.Block
import Catpilot.Transition.Run
import Mathlib.Data.UInt

/-!
# The break of the heap

`_sbrk_r` of `heap_custom.c`. The heap has two areas: what `.bss` leaves of the AXI
memory, less the stack of the interrupts, and after that the whole of the DTCM. The
addresses are those of the linker script; where the heap starts in the AXI memory depends
on what is linked.
-/

namespace Catpilot

open Memory Transition

/-- `ISR_STACK_LENGTH_BYTES`. -/
def isrStackLengthBytes : UInt32 := 0x100 * 4

/-- `_HeapDTCMStart`. -/
def heapDtcmStart : UInt32 := 0x20000000

/-- `_HeapDTCMLimit`. -/
def heapDtcmLimit : UInt32 := 0x20020000

/-- `__HeapLimit`, which is `_HeapAXILimit`. -/
def heapLimit : UInt32 := 0x24080000

/-- `__HeapBase`, which is `_end`, an address of the AXI memory. -/
structure HeapBase where
  addr : UInt32
  le_addr : 0x24000000 ≤ addr
  addr_le : addr ≤ heapLimit

/-- The variables of `heap_custom.c`. -/
structure Sbrk where
  currentHeapEnd : UInt32
  memorySelector : ℕ
  totalHeapSize : UInt32
  heapBytesRemaining : Int32
  totalBytesProvidedBySBRK : Int32
  deriving DecidableEq, Repr

namespace Sbrk

/-- Before the first call. -/
def init (base : HeapBase) : Sbrk := ⟨base.addr, 0, 0, 0, 0⟩

/-- The first call computes the size of the heap. -/
def measured (base : HeapBase) (s : Sbrk) : Sbrk :=
  if s.totalHeapSize = 0 then
    let size := (heapLimit - base.addr).toInt32 + (heapDtcmLimit - heapDtcmStart).toInt32 -
      isrStackLengthBytes.toInt32
    { s with totalHeapSize := size.toUInt32, heapBytesRemaining := size }
  else s

/-- The local `limit`. -/
def limit (s : Sbrk) : UInt32 :=
  if s.memorySelector = 0 then heapLimit - isrStackLengthBytes
  else if s.memorySelector = 1 then heapDtcmLimit
  else 0

/-- `currentHeapEnd + incr > limit`. -/
def Exceeds (s : Sbrk) (incr : Int32) : Prop := s.currentHeapEnd + incr.toUInt32 > s.limit

instance (s : Sbrk) (incr : Int32) : Decidable (s.Exceeds incr) :=
  inferInstanceAs (Decidable (s.currentHeapEnd + incr.toUInt32 > s.limit))

/-- The break goes over to the DTCM. -/
def switched (s : Sbrk) : Sbrk :=
  { s with currentHeapEnd := heapDtcmStart, memorySelector := 1 }

/-- The break moves by `incr`. -/
def advanced (s : Sbrk) (incr : Int32) : Sbrk :=
  { s with
    currentHeapEnd := s.currentHeapEnd + incr.toUInt32
    heapBytesRemaining := s.heapBytesRemaining - incr
    totalBytesProvidedBySBRK := s.totalBytesProvidedBySBRK + incr }

/-- `_sbrk_r`; a call that fails ends in the hook of the allocator, with nothing
changed. -/
def sbrkR (base : HeapBase) (s : Sbrk) (incr : Int32) : Sbrk × Option UInt32 :=
  let s := s.measured base
  if s.Exceeds incr then
    if s.memorySelector = 0 then
      (s.switched.advanced incr, some s.switched.currentHeapEnd)
    else (s, none)
  else (s.advanced incr, some s.currentHeapEnd)

section Fields

variable (base : HeapBase) (s : Sbrk) (incr : Int32)

@[simp] theorem measured_currentHeapEnd :
    (s.measured base).currentHeapEnd = s.currentHeapEnd := by
  rw [measured]
  split <;> rfl

@[simp] theorem measured_memorySelector :
    (s.measured base).memorySelector = s.memorySelector := by
  rw [measured]
  split <;> rfl

@[simp] theorem measured_limit : (s.measured base).limit = s.limit := by
  rw [limit, limit, measured_memorySelector]

@[simp] theorem measured_exceeds : (s.measured base).Exceeds incr ↔ s.Exceeds incr := by
  rw [Exceeds, Exceeds, measured_currentHeapEnd, measured_limit]

@[simp] theorem advanced_currentHeapEnd :
    (s.advanced incr).currentHeapEnd = s.currentHeapEnd + incr.toUInt32 := rfl

@[simp] theorem advanced_memorySelector :
    (s.advanced incr).memorySelector = s.memorySelector := rfl

@[simp] theorem switched_currentHeapEnd : s.switched.currentHeapEnd = heapDtcmStart := rfl

@[simp] theorem switched_memorySelector : s.switched.memorySelector = 1 := rfl

end Fields

/-- What a call can do: the break goes over to the DTCM, or stays where it is, or moves
within its area. -/
theorem sbrkR_cases (base : HeapBase) (s : Sbrk) (incr : Int32) :
    (s.Exceeds incr ∧ s.memorySelector = 0 ∧ ∃ s', s.sbrkR base incr = (s', some heapDtcmStart) ∧
        s'.currentHeapEnd = heapDtcmStart + incr.toUInt32 ∧ s'.memorySelector = 1) ∨
      (s.Exceeds incr ∧ s.memorySelector ≠ 0 ∧ ∃ s', s.sbrkR base incr = (s', none) ∧
        s'.currentHeapEnd = s.currentHeapEnd ∧ s'.memorySelector = s.memorySelector) ∨
      (¬ s.Exceeds incr ∧ ∃ s', s.sbrkR base incr = (s', some s.currentHeapEnd) ∧
        s'.currentHeapEnd = s.currentHeapEnd + incr.toUInt32 ∧
        s'.memorySelector = s.memorySelector) := by
  simp only [sbrkR, measured_exceeds, measured_memorySelector, measured_currentHeapEnd,
    switched_currentHeapEnd]
  by_cases hexceeds : s.Exceeds incr
  · by_cases hselector : s.memorySelector = 0
    · rw [if_pos hexceeds, if_pos hselector]
      exact Or.inl ⟨hexceeds, hselector, _, rfl, by simp, by simp⟩
    · rw [if_pos hexceeds, if_neg hselector]
      exact Or.inr (Or.inl ⟨hexceeds, hselector, _, rfl, by simp, by simp⟩)
  · rw [if_neg hexceeds]
    exact Or.inr (Or.inr ⟨hexceeds, _, rfl, by simp, by simp⟩)

end Sbrk

end Catpilot
