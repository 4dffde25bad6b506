import Catpilot.Heap.Sbrk

/-!
# The two areas of the heap

A run of requests, with the blocks that they got. `_sbrk_r` compares the break with the end
of the area that it is in, and goes over to the DTCM without a look at its end. So a block
lies in one area unless the request that goes over is longer than the DTCM.
-/

namespace Catpilot

open Memory Transition

/-- An increment that is not negative. -/
structure Increment where
  incr : Int32
  nonneg : 0 ≤ incr

namespace Increment

/-- The number of bytes. -/
def size (n : Increment) : ℕ := n.incr.toInt.toNat

theorem toNat_toUInt32 (n : Increment) : n.incr.toUInt32.toNat = n.size := by
  have hpos : 0 ≤ n.incr.toInt := by
    have h := Int32.le_iff_toInt_le.1 n.nonneg
    rwa [Int32.toInt_zero] at h
  have hcases := BitVec.toInt_eq_toNat_cond n.incr.toBitVec
  have hlt := n.incr.toBitVec.isLt
  rw [size, show n.incr.toUInt32.toNat = n.incr.toBitVec.toNat from rfl]
  rw [show n.incr.toInt = n.incr.toBitVec.toInt from rfl] at hpos ⊢
  split at hcases <;> omega

theorem size_lt (n : Increment) : n.size < 2 ^ 31 := by
  have h := Int32.toInt_lt n.incr
  rw [size]
  omega

end Increment

/-- The break, and the blocks that were granted. -/
structure Heap where
  sbrk : Sbrk
  granted : List Block
  deriving Repr

namespace Heap

/-- Nothing was requested yet. -/
def init (base : HeapBase) : Heap := ⟨Sbrk.init base, []⟩

/-- A call of `_sbrk_r`, as a step of a run. -/
def request (base : HeapBase) (h : Heap) (n : Increment) : Option Heap :=
  match h.sbrk.sbrkR base n.incr with
  | (s, some a) => some ⟨s, h.granted ++ [⟨a.toNat, n.size⟩]⟩
  | (s, none) => some { h with sbrk := s }

/-- The block lies in one of the two areas. -/
def InArea (base : HeapBase) (b : Block) : Prop :=
  b.Inside base.addr.toNat (heapLimit - isrStackLengthBytes).toNat ∨
    b.Inside heapDtcmStart.toNat heapDtcmLimit.toNat

instance (base : HeapBase) (b : Block) : Decidable (InArea base b) :=
  inferInstanceAs (Decidable (_ ∨ _))

/-- The request fails and leaves the break, or it gets a block of one area that has no
address in common with the blocks granted so far. -/
def Served (base : HeapBase) (h : Heap) (n : Increment) : Prop :=
  match h.sbrk.sbrkR base n.incr with
  | (s, none) => s.currentHeapEnd = h.sbrk.currentHeapEnd
  | (_, some a) =>
      InArea base ⟨a.toNat, n.size⟩ ∧
        ∀ b ∈ h.granted, Disjoint b.addresses (Block.mk a.toNat n.size).addresses

/-- A request that makes the break go over to the DTCM fits there. -/
def Fits (h : Heap) (n : Increment) : Prop :=
  h.sbrk.memorySelector = 0 → h.sbrk.Exceeds n.incr →
    n.size ≤ heapDtcmLimit.toNat - heapDtcmStart.toNat

/-- Where the break and the blocks are: while the break is in the AXI memory all blocks end
in front of it; then the blocks of the DTCM do. -/
inductive Laid (base : HeapBase) (h : Heap) : Prop where
  | axi (selector : h.sbrk.memorySelector = 0)
      (le_end : base.addr ≤ h.sbrk.currentHeapEnd)
      (end_le : h.sbrk.currentHeapEnd ≤ heapLimit)
      (blocks : ∀ b ∈ h.granted, b.Inside base.addr.toNat h.sbrk.currentHeapEnd.toNat)
  | dtcm (selector : h.sbrk.memorySelector = 1)
      (le_end : heapDtcmStart ≤ h.sbrk.currentHeapEnd)
      (end_le : h.sbrk.currentHeapEnd ≤ heapDtcmLimit)
      (blocks : ∀ b ∈ h.granted, b.Inside base.addr.toNat heapLimit.toNat ∨
        b.Inside heapDtcmStart.toNat h.sbrk.currentHeapEnd.toNat)

section Addresses

variable {base : HeapBase} {h h' : Heap} {n : Increment} {a : UInt32}

/-- The break does not wrap around from within the memory. -/
theorem toNat_add_increment (ha : a ≤ heapLimit) (n : Increment) :
    (a + n.incr.toUInt32).toNat = a.toNat + n.size := by
  have ha' : a.toNat ≤ heapLimit.toNat := UInt32.le_iff_toNat_le.1 ha
  have hn := n.size_lt
  rw [UInt32.toNat_add, n.toNat_toUInt32]
  refine Nat.mod_eq_of_lt ?_
  rw [show heapLimit.toNat = 0x24080000 from rfl] at ha'
  omega

/-- A block that ends at an address. -/
theorem inside_of_stop_le {lo hi : UInt32} (ha : a ≤ heapLimit) (hlo : lo ≤ a)
    (hhi : a + n.incr.toUInt32 ≤ hi) : (Block.mk a.toNat n.size).Inside lo.toNat hi.toNat := by
  refine ⟨UInt32.le_iff_toNat_le.1 hlo, ?_⟩
  rw [Block.stop, ← toNat_add_increment ha n]
  exact UInt32.le_iff_toNat_le.1 hhi

/-- The DTCM is in front of the AXI memory. -/
theorem dtcmLimit_le (base : HeapBase) : heapDtcmLimit.toNat ≤ base.addr.toNat := by
  have hbase : (0x24000000 : UInt32).toNat ≤ base.addr.toNat :=
    UInt32.le_iff_toNat_le.1 base.le_addr
  exact le_trans (by decide) hbase

/-- A block at the start of the DTCM, where the break goes over to. -/
theorem inside_dtcmStart_iff (n : Increment) :
    (Block.mk heapDtcmStart.toNat n.size).Inside heapDtcmStart.toNat heapDtcmLimit.toNat ↔
      n.size ≤ heapDtcmLimit.toNat - heapDtcmStart.toNat := by
  have hle : heapDtcmStart.toNat ≤ heapDtcmLimit.toNat := by decide
  rw [Block.Inside, and_iff_right (le_refl _), Block.stop, Nat.le_sub_iff_add_le' hle]

theorem not_inside_axi (base : HeapBase) (n : Increment) {hi : ℕ} :
    ¬ (Block.mk heapDtcmStart.toNat n.size).Inside base.addr.toNat hi := by
  rintro ⟨hle, -⟩
  have hlt : heapDtcmStart.toNat < heapDtcmLimit.toNat := by decide
  exact absurd (hlt.trans_le ((dtcmLimit_le base).trans hle)) (lt_irrefl _)

end Addresses

section Step

variable {base : HeapBase} {h h' : Heap} {n : Increment}

theorem laid_init (base : HeapBase) : Laid base (init base) :=
  .axi rfl (UInt32.le_refl _) base.addr_le fun _ hb => absurd hb List.not_mem_nil

theorem limit_axi (hselector : h.sbrk.memorySelector = 0) :
    h.sbrk.limit = heapLimit - isrStackLengthBytes := if_pos hselector

theorem limit_dtcm (hselector : h.sbrk.memorySelector = 1) : h.sbrk.limit = heapDtcmLimit := by
  rw [Sbrk.limit, hselector]
  rfl

theorem Laid.end_le_heapLimit (hl : Laid base h) : h.sbrk.currentHeapEnd ≤ heapLimit := by
  cases hl with
  | axi _ _ hend => exact hend
  | dtcm _ _ hend => exact UInt32.le_trans hend (by decide)

/-- A request that the area of the break has room for. -/
theorem Laid.inArea (hl : Laid base h) (hroom : ¬ h.sbrk.Exceeds n.incr) :
    InArea base ⟨h.sbrk.currentHeapEnd.toNat, n.size⟩ ∧
      ∀ b ∈ h.granted,
        Disjoint b.addresses (Block.mk h.sbrk.currentHeapEnd.toNat n.size).addresses := by
  have hstop : h.sbrk.currentHeapEnd + n.incr.toUInt32 ≤ h.sbrk.limit := UInt32.not_lt.1 hroom
  cases hl with
  | axi hselector hle hend hblocks =>
      rw [limit_axi hselector] at hstop
      exact ⟨Or.inl (inside_of_stop_le hend hle hstop),
        fun b hb => Block.disjoint_of_stop_le (hblocks b hb).2⟩
  | dtcm hselector hle hend hblocks =>
      rw [limit_dtcm hselector] at hstop
      have hnew := inside_of_stop_le (UInt32.le_trans hend (by decide)) hle hstop
      refine ⟨Or.inr hnew, fun b hb => ?_⟩
      rcases hblocks b hb with haxi | hdtcm
      · exact (hnew.disjoint haxi (dtcmLimit_le base)).symm
      · exact Block.disjoint_of_stop_le hdtcm.2

/-- A request that makes the break go over to the DTCM. -/
theorem Laid.inArea_switched (hl : Laid base h) (hselector : h.sbrk.memorySelector = 0) :
    (InArea base ⟨heapDtcmStart.toNat, n.size⟩ ∧
      ∀ b ∈ h.granted, Disjoint b.addresses (Block.mk heapDtcmStart.toNat n.size).addresses) ↔
      n.size ≤ heapDtcmLimit.toNat - heapDtcmStart.toNat := by
  rw [InArea, or_iff_right (not_inside_axi base n), inside_dtcmStart_iff]
  refine and_iff_left_of_imp fun hfits b hb => ?_
  have hnew := (inside_dtcmStart_iff n).2 hfits
  cases hl with
  | axi _ _ _ hblocks => exact (hnew.disjoint (hblocks b hb) (dtcmLimit_le base)).symm
  | dtcm hone => exact absurd (hone.symm.trans hselector) Nat.one_ne_zero

theorem Laid.served_iff (hl : Laid base h) (n : Increment) : Served base h n ↔ Fits h n := by
  rw [Served, Fits]
  rcases h.sbrk.sbrkR_cases base n.incr with ⟨hexceeds, hselector, s', hcall, -, -⟩ |
    ⟨-, hselector, s', hcall, hend, -⟩ | ⟨hroom, s', hcall, -, -⟩
  · simp only [hcall]
    rw [hl.inArea_switched hselector]
    exact ⟨fun hfits _ _ => hfits, fun hfits => hfits hselector hexceeds⟩
  · simp only [hcall]
    exact iff_of_true hend fun hzero => absurd hzero hselector
  · simp only [hcall]
    exact iff_of_true (hl.inArea hroom) fun _ hexceeds => absurd hexceeds hroom

/-- A request that fails leaves the break. -/
theorem Laid.refuse (hl : Laid base h) {s : Sbrk} (hend : s.currentHeapEnd = h.sbrk.currentHeapEnd)
    (hsel : s.memorySelector = h.sbrk.memorySelector) : Laid base { h with sbrk := s } := by
  cases hl with
  | axi hselector hle hend₀ hblocks =>
      exact .axi (hsel.trans hselector) (hend ▸ hle) (hend ▸ hend₀) (hend ▸ hblocks)
  | dtcm hselector hle hend₀ hblocks =>
      exact .dtcm (hsel.trans hselector) (hend ▸ hle) (hend ▸ hend₀) (hend ▸ hblocks)

/-- A request at the start of the DTCM that fits there: the blocks so far are in the AXI
memory. -/
theorem Laid.switch (hl : Laid base h) (hselector : h.sbrk.memorySelector = 0) {s : Sbrk}
    (hsel : s.memorySelector = 1)
    (hend : s.currentHeapEnd = heapDtcmStart + n.incr.toUInt32)
    (hfits : n.size ≤ heapDtcmLimit.toNat - heapDtcmStart.toNat) :
    Laid base ⟨s, h.granted ++ [⟨heapDtcmStart.toNat, n.size⟩]⟩ := by
  have hnew := (inside_dtcmStart_iff n).2 hfits
  have hstop : s.currentHeapEnd.toNat = heapDtcmStart.toNat + n.size := by
    rw [hend, toNat_add_increment (by decide) n]
  refine .dtcm hsel ?_ ?_ fun b hb => ?_
  · rw [UInt32.le_iff_toNat_le, hstop]
    exact Nat.le_add_right _ _
  · rw [UInt32.le_iff_toNat_le, hstop]
    exact hnew.2
  · rcases List.mem_append.1 hb with hold | hb
    · cases hl with
      | axi _ _ hend₀ hblocks =>
          exact Or.inl ((hblocks b hold).mono le_rfl (UInt32.le_iff_toNat_le.1 hend₀))
      | dtcm hone => exact absurd (hone.symm.trans hselector) Nat.one_ne_zero
    · rw [List.mem_singleton.1 hb, hstop]
      exact Or.inr ⟨le_rfl, le_rfl⟩

/-- A request that the area of the break has room for moves the break on. -/
theorem Laid.advance (hl : Laid base h) (hroom : ¬ h.sbrk.Exceeds n.incr) {s : Sbrk}
    (hsel : s.memorySelector = h.sbrk.memorySelector)
    (hend : s.currentHeapEnd = h.sbrk.currentHeapEnd + n.incr.toUInt32) :
    Laid base ⟨s, h.granted ++ [⟨h.sbrk.currentHeapEnd.toNat, n.size⟩]⟩ := by
  have hlimit : h.sbrk.currentHeapEnd + n.incr.toUInt32 ≤ h.sbrk.limit := UInt32.not_lt.1 hroom
  have hstop : s.currentHeapEnd.toNat = h.sbrk.currentHeapEnd.toNat + n.size := by
    rw [hend, toNat_add_increment hl.end_le_heapLimit n]
  have hle' : h.sbrk.currentHeapEnd.toNat ≤ s.currentHeapEnd.toNat := by
    rw [hstop]
    exact Nat.le_add_right _ _
  cases hl with
  | axi hselector hle hend₀ hblocks =>
      refine .axi (hsel.trans hselector) ?_ ?_ fun b hb => ?_
      · exact UInt32.le_trans hle (UInt32.le_iff_toNat_le.2 hle')
      · rw [limit_axi hselector, ← hend] at hlimit
        exact UInt32.le_trans hlimit (by decide)
      · rcases List.mem_append.1 hb with hold | hb
        · exact (hblocks b hold).mono le_rfl hle'
        · rw [List.mem_singleton.1 hb]
          exact ⟨UInt32.le_iff_toNat_le.1 hle, hstop.ge⟩
  | dtcm hselector hle hend₀ hblocks =>
      refine .dtcm (hsel.trans hselector) ?_ ?_ fun b hb => ?_
      · exact UInt32.le_trans hle (UInt32.le_iff_toNat_le.2 hle')
      · rwa [limit_dtcm hselector, ← hend] at hlimit
      · rcases List.mem_append.1 hb with hold | hb
        · exact (hblocks b hold).imp id fun hin => hin.mono le_rfl hle'
        · rw [List.mem_singleton.1 hb]
          exact Or.inr ⟨UInt32.le_iff_toNat_le.1 hle, hstop.ge⟩

/-- What is granted ends at the break again. -/
theorem Laid.request (hl : Laid base h) (hfits : Fits h n)
    (hs : request base h n = some h') : Laid base h' := by
  rw [Heap.request] at hs
  rcases h.sbrk.sbrkR_cases base n.incr with ⟨hexceeds, hselector, s', hcall, hend, hsel⟩ |
    ⟨-, -, s', hcall, hend, hsel⟩ | ⟨hroom, s', hcall, hend, hsel⟩
  · rw [hcall] at hs
    cases hs
    exact hl.switch hselector hsel hend (hfits hselector hexceeds)
  · rw [hcall] at hs
    cases hs
    exact hl.refuse hend hsel
  · rw [hcall] at hs
    cases hs
    exact hl.advance hroom hsel hend

/-- The requests of a run are served as they should be exactly if each of them that makes
the break go over to the DTCM fits there. -/
theorem along_served_iff (base : HeapBase) (requests : List Increment) :
    Along (Served base) (request base) (init base) requests ↔
      Along Fits (request base) (init base) requests :=
  along_congr (fun _ _ _ hl hfits hs => Laid.request hl hfits hs)
    (fun _ n hl => hl.served_iff n) (laid_init base) requests

/-- Nothing but the heap is linked into the AXI memory. -/
def wholeAxi : HeapBase := ⟨0x24000000, by decide, by decide⟩

/-- A request of 600 KiB, of which the AXI memory has 511 KiB and the DTCM 128 KiB. -/
theorem not_served_600KiB : ¬ ∀ (base : HeapBase) (requests : List Increment),
    Along (Served base) (request base) (init base) requests := by
  intro hall
  have hserved := (along_cons.1 (hall wholeAxi [⟨0x96000, by decide⟩])).1
  rw [(laid_init wholeAxi).served_iff] at hserved
  exact absurd (hserved rfl (by decide)) (by decide +kernel)

end Step

end Heap

end Catpilot
