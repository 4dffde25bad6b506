import Mathlib.Data.List.Basic
import Mathlib.Data.List.TakeDrop

/-!
# Copies into and out of an array

An array is the list of its cells. `memcpy dst off src` overwrites the cells of
`dst` from `off` on by `src`, and `memread src off len` reads `len` cells. A
circular array of `n` cells numbers its cells modulo `n`: `circularWrite` and
`circularRead` are the usual two pieces, up to the end of the array and on from
its start. The start position may be `n` itself, where the first piece is empty.
-/

namespace Memory

section Copy

variable {α : Type*}

/-- Overwrite the cells of `dst` from `off` on by `src`. -/
def memcpy (dst : List α) (off : ℕ) (src : List α) : List α :=
  dst.take off ++ src ++ dst.drop (off + src.length)

/-- The `len` cells of `src` from `off` on. -/
def memread (src : List α) (off len : ℕ) : List α := (src.drop off).take len

@[simp] theorem memcpy_nil (dst : List α) (off : ℕ) : memcpy dst off [] = dst := by
  simp [memcpy]

theorem length_memcpy {dst src : List α} {off : ℕ} (h : off + src.length ≤ dst.length) :
    (memcpy dst off src).length = dst.length := by
  simp only [memcpy, List.length_append, List.length_take, List.length_drop]
  omega

theorem getElem?_memcpy_inside {dst src : List α} {off : ℕ} (hoff : off ≤ dst.length)
    {i : ℕ} (hi : i < src.length) : (memcpy dst off src)[off + i]? = src[i]? := by
  have htake : (dst.take off).length = off := by
    rw [List.length_take]
    omega
  rw [memcpy, List.append_assoc, List.getElem?_append_right (by omega), htake,
    Nat.add_sub_cancel_left, List.getElem?_append_left hi]

theorem getElem?_memcpy_outside {dst src : List α} {off j : ℕ}
    (hoff : off + src.length ≤ dst.length) (hj : j < off ∨ off + src.length ≤ j) :
    (memcpy dst off src)[j]? = dst[j]? := by
  have htake : (dst.take off).length = off := by
    rw [List.length_take]
    omega
  rcases hj with hj | hj
  · rw [memcpy, List.append_assoc, List.getElem?_append_left (by omega),
      List.getElem?_take_of_lt hj]
  · rw [memcpy, List.getElem?_append_right (by rw [List.length_append]; omega),
      List.getElem?_drop, List.length_append, htake]
    congr 1
    omega

theorem length_memread {src : List α} {off len : ℕ} (h : off + len ≤ src.length) :
    (memread src off len).length = len := by
  simp only [memread, List.length_take, List.length_drop]
  omega

theorem getElem?_memread {src : List α} {off len i : ℕ} (hi : i < len) :
    (memread src off len)[i]? = src[off + i]? := by
  rw [memread, List.getElem?_take_of_lt hi, List.getElem?_drop]

end Copy

section Circular

variable {α : Type*}

/-- Overwrite `buf.length` cells of a circular array, from the position `w` on. -/
def circularWrite (mem : List α) (w : ℕ) (buf : List α) : List α :=
  let k := min buf.length (mem.length - w)
  memcpy (memcpy mem w (buf.take k)) 0 (buf.drop k)

/-- The `len` cells of a circular array from the position `r` on. -/
def circularRead (mem : List α) (r len : ℕ) : List α :=
  let k := min len (mem.length - r)
  memread mem r k ++ memread mem 0 (len - k)

/-- The cell `i` places after `w` in a circular array, for a start `w` that may be
the end of the array. -/
theorem add_mod_of_le {w i n : ℕ} (hw : w ≤ n) (hi : i < n) :
    (w + i) % n = if w + i < n then w + i else w + i - n := by
  split
  · next h => exact Nat.mod_eq_of_lt h
  · next h =>
      rw [Nat.mod_eq_sub_mod (by omega), Nat.mod_eq_of_lt (by omega)]

theorem length_circularWrite {mem buf : List α} {w : ℕ} (hw : w ≤ mem.length)
    (hbuf : buf.length ≤ mem.length) :
    (circularWrite mem w buf).length = mem.length := by
  unfold circularWrite
  have hfirst : (memcpy mem w (buf.take (min buf.length (mem.length - w)))).length =
      mem.length := length_memcpy (by rw [List.length_take]; omega)
  rw [length_memcpy (by rw [hfirst, List.length_drop]; omega), hfirst]

/-- The written cells hold the source. -/
theorem getElem?_circularWrite {mem buf : List α} {w i : ℕ} (hw : w ≤ mem.length)
    (hbuf : buf.length ≤ mem.length) (hi : i < buf.length) :
    (circularWrite mem w buf)[(w + i) % mem.length]? = buf[i]? := by
  unfold circularWrite
  set k := min buf.length (mem.length - w) with hk
  have hlenk : (buf.take k).length = k := by rw [List.length_take]; omega
  have hfirst : (memcpy mem w (buf.take k)).length = mem.length :=
    length_memcpy (by rw [hlenk]; omega)
  have hfit : 0 + (buf.drop k).length ≤ (memcpy mem w (buf.take k)).length := by
    rw [hfirst, List.length_drop]; omega
  rw [add_mod_of_le hw (by omega)]
  split
  · next h =>
      -- the first piece, which the second one does not reach
      rw [getElem?_memcpy_outside hfit (by rw [List.length_drop]; omega),
        getElem?_memcpy_inside hw (by rw [hlenk]; omega), List.getElem?_take_of_lt (by omega)]
  · next h =>
      have hpos : w + i - mem.length = 0 + (i - k) := by omega
      rw [hpos, getElem?_memcpy_inside (Nat.zero_le _) (by rw [List.length_drop]; omega),
        List.getElem?_drop]
      congr 1
      omega

/-- The other cells keep their contents. -/
theorem getElem?_circularWrite_of_le {mem buf : List α} {w i : ℕ} (hw : w ≤ mem.length)
    (hbuf : buf.length ≤ i) (hi : i < mem.length) :
    (circularWrite mem w buf)[(w + i) % mem.length]? = mem[(w + i) % mem.length]? := by
  unfold circularWrite
  set k := min buf.length (mem.length - w) with hk
  have hlenk : (buf.take k).length = k := by rw [List.length_take]; omega
  have hfit : w + (buf.take k).length ≤ mem.length := by rw [hlenk]; omega
  have hfirst : (memcpy mem w (buf.take k)).length = mem.length := length_memcpy hfit
  rw [add_mod_of_le hw hi]
  split
  · rw [getElem?_memcpy_outside (by rw [hfirst, List.length_drop]; omega)
        (by rw [List.length_drop]; omega),
      getElem?_memcpy_outside hfit (by rw [hlenk]; omega)]
  · rw [getElem?_memcpy_outside (by rw [hfirst, List.length_drop]; omega)
        (by rw [List.length_drop]; omega),
      getElem?_memcpy_outside hfit (by rw [hlenk]; omega)]

theorem length_circularRead {mem : List α} {r len : ℕ} (hr : r ≤ mem.length)
    (hlen : len ≤ mem.length) : (circularRead mem r len).length = len := by
  unfold circularRead
  rw [List.length_append, length_memread (by omega), length_memread (by omega)]
  omega

theorem getElem?_circularRead {mem : List α} {r len i : ℕ} (hr : r ≤ mem.length)
    (hlen : len ≤ mem.length) (hi : i < len) :
    (circularRead mem r len)[i]? = mem[(r + i) % mem.length]? := by
  unfold circularRead
  set k := min len (mem.length - r) with hk
  have hlenk : (memread mem r k).length = k := length_memread (by omega)
  rw [add_mod_of_le hr (by omega)]
  split
  · rw [List.getElem?_append_left (by omega), getElem?_memread (by omega)]
  · rw [List.getElem?_append_right (by omega), hlenk, getElem?_memread (by omega)]
    congr 1
    omega

end Circular

end Memory
