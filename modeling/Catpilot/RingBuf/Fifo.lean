import Catpilot.RingBuf.Basic
import Catpilot.Queue.Bounded
import Catpilot.Transition.Run
import Mathlib.Data.Int.ModEq
import Mathlib.Data.Nat.ModEq

/-!
# The ring buffer is a bounded queue

`Holds rb written delivered` ties a ring buffer to the bytes written into it and
the bytes read from it so far: the cells between the two pointers are the bytes of
`written` that are not yet in `delivered`. The two sections under `rw_mutex` keep
it whatever the offsets, also where a pointer sits at the end of the array, as
long as a write is no longer than the free space and a read no longer than the
data. `contents` lists the bytes the buffer holds.
-/

namespace Catpilot

open Memory Word Transition

/-- The buffer holds the bytes of `written` after those of `delivered`. -/
structure Holds (rb : RingBuf) (written delivered : List UInt8) : Prop where
  size_le : rb.size ≤ ringbufferMaxSize
  length_mem : rb.mem.length = rb.size
  writePtr_le : rb.writePtr ≤ rb.size
  readPtr_le : rb.readPtr ≤ rb.size
  writePtr_mod : rb.writePtr ≡ written.length [MOD rb.size]
  readPtr_mod : rb.readPtr ≡ delivered.length [MOD rb.size]
  count_add : rb.count + delivered.length = written.length
  count_le : rb.count ≤ rb.size
  delivered_prefix : delivered <+: written
  cells : ∀ i < rb.count,
    rb.mem[(rb.readPtr + i) % rb.size]? = written[delivered.length + i]?

theorem exists_ringBufInit {n : ℕ} (h : n ≤ ringbufferMaxSize) :
    ∃ rb, ringBufInit n = some rb :=
  ⟨_, by rw [ringBufInit, if_neg (not_lt.2 h)]⟩

theorem ringBufInit_holds {n : ℕ} {rb : RingBuf} (h : ringBufInit n = some rb) :
    Holds rb [] [] ∧ rb.size = n := by
  unfold ringBufInit at h
  split at h
  · cases h
  · next hle =>
      cases h
      refine ⟨⟨not_lt.1 hle, List.length_replicate, Nat.zero_le _, Nat.zero_le _,
        rfl, rfl, rfl, Nat.zero_le _, List.prefix_refl _, ?_⟩, rfl⟩
      intro i hi
      exact absurd hi (Nat.not_lt_zero i)

/-! ## What the sections do -/

section Sections

variable {rb : RingBuf} {written delivered buf : List UInt8}

@[simp] theorem writeSection_size (rb : RingBuf) (buf : List UInt8) (t : ℕ) :
    (writeSection rb buf t).size = rb.size := by
  unfold writeSection
  dsimp only
  split <;> rfl

@[simp] theorem writeSection_readPtr (rb : RingBuf) (buf : List UInt8) (t : ℕ) :
    (writeSection rb buf t).readPtr = rb.readPtr := by
  unfold writeSection
  dsimp only
  split <;> rfl

@[simp] theorem writeSection_wSem (rb : RingBuf) (buf : List UInt8) (t : ℕ) :
    (writeSection rb buf t).wSem = true := by
  unfold writeSection
  dsimp only

@[simp] theorem writeSection_count (rb : RingBuf) (buf : List UInt8) (t : ℕ) :
    (writeSection rb buf t).count = wrap 16 (rb.count + t) := by
  unfold writeSection
  dsimp only
  split <;> rfl

@[simp] theorem readSection_size (rb : RingBuf) (len : ℕ) :
    (readSection rb len).1.size = rb.size := by
  unfold readSection
  dsimp only
  split <;> rfl

@[simp] theorem readSection_mem (rb : RingBuf) (len : ℕ) :
    (readSection rb len).1.mem = rb.mem := by
  unfold readSection
  dsimp only
  split <;> rfl

@[simp] theorem readSection_writePtr (rb : RingBuf) (len : ℕ) :
    (readSection rb len).1.writePtr = rb.writePtr := by
  unfold readSection
  dsimp only
  split <;> rfl

@[simp] theorem readSection_rSem (rb : RingBuf) (len : ℕ) :
    (readSection rb len).1.rSem = if len > 0 then true else rb.rSem := by
  unfold readSection
  dsimp only
  split
  · rfl
  · split <;> rfl

@[simp] theorem readSection_count (rb : RingBuf) (len : ℕ) :
    (readSection rb len).1.count = wrapSub 16 rb.count len := by
  unfold readSection
  dsimp only
  split <;> rfl

theorem Holds.size_lt (h : Holds rb written delivered) : rb.size < 2 ^ 16 := by
  have := h.size_le
  rw [ringbufferMaxSize] at this
  omega

theorem Holds.freeSize_eq (h : Holds rb written delivered) :
    ringBufGetFreeSize rb = rb.size - rb.count :=
  wrapSub_of_le h.count_le h.size_lt

theorem Holds.sizeToEnd_write (h : Holds rb written delivered) :
    wrapSub 16 rb.size rb.writePtr = rb.size - rb.writePtr :=
  wrapSub_of_le h.writePtr_le h.size_lt

theorem Holds.sizeToEnd_read (h : Holds rb written delivered) :
    wrapSub 16 rb.size rb.readPtr = rb.size - rb.readPtr :=
  wrapSub_of_le h.readPtr_le h.size_lt

/-- The two pieces of a write are one circular write. -/
theorem writeSection_mem (h : Holds rb written delivered) {t : ℕ} (ht : t ≤ buf.length) :
    (writeSection rb buf t).mem = circularWrite rb.mem rb.writePtr (buf.take t) := by
  have hlen : (buf.take t).length = t := by rw [List.length_take]; omega
  unfold writeSection circularWrite
  dsimp only
  rw [h.sizeToEnd_write, hlen, h.length_mem]
  set k := min t (rb.size - rb.writePtr)
  have hfirst : (buf.take t).take k = buf.take k := by
    rw [List.take_take]
    congr 1
    omega
  rw [hfirst, List.drop_take]
  split
  · rfl
  · next hk =>
      rw [show t - k = 0 by omega, List.take_zero, memcpy_nil]

/-- The write pointer moves by `t` places, and falls back to the start of the array
only when it has to. -/
theorem writeSection_writePtr (h : Holds rb written delivered) (buf : List UInt8) (t : ℕ) :
    (writeSection rb buf t).writePtr =
      if rb.writePtr + t ≤ rb.size then rb.writePtr + t else rb.writePtr + t - rb.size := by
  have hle := h.writePtr_le
  unfold writeSection
  dsimp only
  rw [h.sizeToEnd_write]
  split <;> split <;> dsimp only <;> omega

/-- The two pieces of a read are one circular read. -/
theorem readSection_snd (h : Holds rb written delivered) (len : ℕ) :
    (readSection rb len).2 = circularRead rb.mem rb.readPtr len := by
  unfold readSection circularRead
  dsimp only
  rw [h.sizeToEnd_read, h.length_mem]
  split
  · rfl
  · next hk =>
      dsimp only
      have hnone : memread rb.mem 0 0 = [] := List.take_zero
      rw [show len - min len (rb.size - rb.readPtr) = 0 by omega, hnone, List.append_nil]

theorem readSection_readPtr (h : Holds rb written delivered) (len : ℕ) :
    (readSection rb len).1.readPtr =
      if rb.readPtr + len ≤ rb.size then rb.readPtr + len else rb.readPtr + len - rb.size := by
  have hle := h.readPtr_le
  unfold readSection
  dsimp only
  rw [h.sizeToEnd_read]
  split <;> split <;> dsimp only <;> omega

/-- A pointer that moved circularly by `t` places is still the same position modulo
the size. -/
theorem modEq_advance {p t k n : ℕ} (h : p ≡ k [MOD n]) :
    (if p + t ≤ n then p + t else p + t - n) ≡ k + t [MOD n] := by
  split
  · exact h.add_right t
  · next hgt =>
      have hback : p + t - n + n = p + t := by omega
      have : p + t - n ≡ p + t [MOD n] := by
        calc p + t - n ≡ p + t - n + n [MOD n] := by simp [Nat.ModEq]
          _ ≡ p + t [MOD n] := by rw [hback]
      exact this.trans (h.add_right t)

/-- The cell of a byte not yet read, counted from either pointer. -/
theorem Holds.writePtr_mod_cell (h : Holds rb written delivered) (i : ℕ) :
    (rb.writePtr + i) % rb.size = (rb.readPtr + (rb.count + i)) % rb.size := by
  have hw : rb.writePtr + i ≡ written.length + i [MOD rb.size] := h.writePtr_mod.add_right i
  have hr : rb.readPtr + (rb.count + i) ≡ delivered.length + (rb.count + i) [MOD rb.size] :=
    h.readPtr_mod.add_right _
  have hsum : delivered.length + (rb.count + i) = written.length + i := by
    have := h.count_add
    omega
  rw [hsum] at hr
  exact hw.trans hr.symm

/-- The semaphores play no part in what the buffer holds. -/
theorem Holds.of_sems (h : Holds rb written delivered) (r w : Bool) :
    Holds { rb with rSem := r, wSem := w } written delivered :=
  ⟨h.size_le, h.length_mem, h.writePtr_le, h.readPtr_le, h.writePtr_mod, h.readPtr_mod,
    h.count_add, h.count_le, h.delivered_prefix, h.cells⟩

/-- A write of at most the free space appends its bytes to those held. -/
theorem Holds.after_write (h : Holds rb written delivered) {t : ℕ} (ht : t ≤ buf.length)
    (hfree : rb.count + t ≤ rb.size) :
    Holds (writeSection rb buf t) (written ++ buf.take t) delivered := by
  have hlen : (buf.take t).length = t := by rw [List.length_take]; omega
  have hlt := h.size_lt
  have hcount : wrap 16 (rb.count + t) = rb.count + t := wrap_of_lt (by omega)
  have hw := h.writePtr_le
  have hadd := h.count_add
  refine ⟨?_, ?_, ?_, ?_, ?_, ?_, ?_, ?_, ?_, ?_⟩
  · rw [writeSection_size]; exact h.size_le
  · rw [writeSection_mem h ht, writeSection_size,
      length_circularWrite (by rw [h.length_mem]; exact hw) (by rw [hlen, h.length_mem]; omega),
      h.length_mem]
  · rw [writeSection_writePtr h, writeSection_size]
    split <;> omega
  · rw [writeSection_readPtr, writeSection_size]; exact h.readPtr_le
  · rw [writeSection_writePtr h, writeSection_size, List.length_append, hlen]
    exact modEq_advance h.writePtr_mod
  · rw [writeSection_readPtr, writeSection_size]; exact h.readPtr_mod
  · rw [writeSection_count, hcount, List.length_append, hlen]; omega
  · rw [writeSection_count, writeSection_size, hcount]; exact hfree
  · exact h.delivered_prefix.trans (List.prefix_append _ _)
  · intro i hi
    rw [writeSection_count, hcount] at hi
    rw [writeSection_mem h ht, writeSection_readPtr, writeSection_size]
    by_cases hold : i < rb.count
    · -- an old cell: seen from the write pointer it lies behind the written ones
      obtain ⟨j, hj⟩ : ∃ j, (rb.readPtr + i) % rb.size = (rb.writePtr + j) % rb.mem.length ∧
          t ≤ j ∧ j < rb.mem.length := by
        refine ⟨rb.size - rb.count + i, ?_, by omega, by rw [h.length_mem]; omega⟩
        rw [h.length_mem, h.writePtr_mod_cell,
          show rb.readPtr + (rb.count + (rb.size - rb.count + i)) =
            rb.readPtr + i + rb.size by omega, Nat.add_mod_right]
      rw [hj.1, getElem?_circularWrite_of_le (by rw [h.length_mem]; exact hw)
        (by rw [hlen]; exact hj.2.1) hj.2.2, ← hj.1, h.cells i hold,
        List.getElem?_append_left (by omega)]
    · obtain ⟨j, rfl⟩ : ∃ j, i = rb.count + j := ⟨i - rb.count, by omega⟩
      have hcell : (circularWrite rb.mem rb.writePtr (buf.take t))[
          (rb.writePtr + j) % rb.mem.length]? = (buf.take t)[j]? :=
        getElem?_circularWrite (by rw [h.length_mem]; exact hw)
          (by rw [hlen, h.length_mem]; omega) (by rw [hlen]; omega)
      rw [h.length_mem, h.writePtr_mod_cell] at hcell
      rw [hcell, List.getElem?_append_right (by omega)]
      congr 1
      omega

/-- A read of at most the data returns the oldest bytes held. -/
theorem Holds.readSection_snd_eq (h : Holds rb written delivered) {len : ℕ}
    (hlen : len ≤ rb.count) :
    (readSection rb len).2 = (written.drop delivered.length).take len := by
  have hle := h.count_le
  have hadd := h.count_add
  have hr : rb.readPtr ≤ rb.mem.length := by rw [h.length_mem]; exact h.readPtr_le
  have hfit : len ≤ rb.mem.length := by rw [h.length_mem]; omega
  rw [readSection_snd h]
  apply List.ext_getElem?
  intro i
  by_cases hi : i < len
  · rw [getElem?_circularRead hr hfit hi, h.length_mem, h.cells i (by omega),
      List.getElem?_take_of_lt hi, List.getElem?_drop]
  · have hlen₁ := length_circularRead hr hfit
    rw [List.getElem?_eq_none (by omega), List.getElem?_eq_none]
    rw [List.length_take]
    omega

/-- A read of at most the data delivers as many bytes as it is for. -/
theorem Holds.length_readSection (h : Holds rb written delivered) {len : ℕ}
    (hlen : len ≤ rb.count) : (readSection rb len).2.length = len := by
  have hadd := h.count_add
  rw [h.readSection_snd_eq hlen, List.length_take, List.length_drop]
  omega

/-- A read of at most the data moves the oldest bytes held to those delivered. -/
theorem Holds.after_read (h : Holds rb written delivered) {len : ℕ} (hlen : len ≤ rb.count) :
    Holds (readSection rb len).1 written (delivered ++ (readSection rb len).2) := by
  have hadd := h.count_add
  have hle := h.count_le
  have hlt := h.size_lt
  have hout := h.length_readSection hlen
  have hcount : wrapSub 16 rb.count len = rb.count - len := wrapSub_of_le hlen (by omega)
  have hr := h.readPtr_le
  refine ⟨?_, ?_, ?_, ?_, ?_, ?_, ?_, ?_, ?_, ?_⟩
  · rw [readSection_size]; exact h.size_le
  · rw [readSection_mem, readSection_size]; exact h.length_mem
  · rw [readSection_writePtr, readSection_size]; exact h.writePtr_le
  · rw [readSection_readPtr h, readSection_size]
    split <;> omega
  · rw [readSection_writePtr, readSection_size]; exact h.writePtr_mod
  · rw [readSection_readPtr h, readSection_size, List.length_append, hout]
    exact modEq_advance h.readPtr_mod
  · rw [readSection_count, hcount, List.length_append, hout]; omega
  · rw [readSection_count, readSection_size, hcount]; omega
  · rw [h.readSection_snd_eq hlen]
    obtain ⟨rest, hrest⟩ := h.delivered_prefix
    rw [← hrest, List.drop_left, List.prefix_append_right_inj]
    exact List.take_prefix _ _
  · intro i hi
    rw [readSection_count, hcount] at hi
    have hcell := h.cells (len + i) (by omega)
    have hpos : (if rb.readPtr + len ≤ rb.size then rb.readPtr + len
        else rb.readPtr + len - rb.size) + i ≡ rb.readPtr + (len + i) [MOD rb.size] := by
      rw [← Nat.add_assoc]
      exact (modEq_advance (Nat.ModEq.refl rb.readPtr)).add_right i
    rw [readSection_mem, readSection_readPtr h, readSection_size, hpos, hcell,
      List.length_append, hout]
    congr 1
    omega

end Sections

/-! ## The queue of a ring buffer -/

/-- The bytes a ring buffer holds, oldest first. -/
def contents (rb : RingBuf) : List UInt8 := circularRead rb.mem rb.readPtr rb.count

theorem Holds.contents_eq {rb : RingBuf} {written delivered : List UInt8}
    (h : Holds rb written delivered) : contents rb = written.drop delivered.length := by
  have hadd := h.count_add
  have hall : contents rb = (readSection rb rb.count).2 := (readSection_snd h rb.count).symm
  rw [hall, h.readSection_snd_eq le_rfl, List.take_of_length_le]
  rw [List.length_drop]
  omega

theorem Holds.length_contents {rb : RingBuf} {written delivered : List UInt8}
    (h : Holds rb written delivered) : (contents rb).length = rb.count := by
  have hadd := h.count_add
  rw [h.contents_eq, List.length_drop]
  omega

/-- The sections of a write and of a read move the front and the back of the queue. -/
theorem Holds.contents_append {rb rb' : RingBuf} {written delivered bytes : List UInt8}
    (h : Holds rb written delivered) (h' : Holds rb' (written ++ bytes) delivered) :
    contents rb' = contents rb ++ bytes := by
  have hadd := h.count_add
  rw [h'.contents_eq, h.contents_eq, List.drop_append_of_le_length (by omega)]

/-- One pass of the write loop puts the first of the bytes left. -/
theorem Holds.after_chunk {rb rb' : RingBuf} {written delivered buf rest : List UInt8}
    (h : Holds rb written delivered) (hc : ringBufWriteChunk rb buf = some (rb', rest)) :
    Holds rb' (written ++ buf.take (buf.length - rest.length)) delivered ∧
      buf.take (buf.length - rest.length) ++ rest = buf := by
  have hle := h.count_le
  rw [ringBufWriteChunk, h.freeSize_eq] at hc
  split_ifs at hc with hfree
  cases hc
  have hlen : buf.length - (buf.drop (min (rb.size - rb.count) buf.length)).length =
      min (rb.size - rb.count) buf.length := by
    rw [List.length_drop]
    omega
  rw [hlen]
  exact ⟨h.after_write (by omega) (by omega), List.take_append_drop _ _⟩

end Catpilot
