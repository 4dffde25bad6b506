import Mathlib.Algebra.Order.Group.Nat
import Mathlib.Data.UInt
import Mathlib.Tactic.SplitIfs

/-!
# Sectors and the words in them

`ld_word`, `ld_dword`, `st_word` and `st_dword` of `core/ff.c`: words in little-endian order
at any offset of a sector.
-/

namespace Catpilot

/-- `SS`, with `FF_MAX_SS` equal to `FF_MIN_SS`. -/
def ss : UInt32 := 512

/-- A sector, as in the window. -/
abbrev Sector := Vector UInt8 512

namespace Sector

/-- The byte at an offset. -/
def byte (s : Sector) (i : ℕ) : UInt8 := s.toArray.getD i 0

/-- The sector with another byte at an offset. -/
def setByte (s : Sector) (i : ℕ) (b : UInt8) : Sector := s.setIfInBounds i b

theorem byte_setByte {i : ℕ} (hi : i < 512) (s : Sector) (b : UInt8) :
    (s.setByte i b).byte = Function.update s.byte i b := by
  funext j
  rw [byte, setByte, Vector.toArray_setIfInBounds, Array.getD_eq_getD_getElem?,
    Array.getElem?_setIfInBounds, Function.update_apply]
  have hsize : i < s.toArray.size := by rwa [s.size_toArray]
  by_cases hj : i = j
  · rw [if_pos hj, if_pos hsize, if_pos hj.symm, Option.getD_some]
  · rw [if_neg hj, if_neg (Ne.symm hj), byte, Array.getD_eq_getD_getElem?]

end Sector

/-! ## Words in bytes -/

/-- `ld_word`. -/
def ldWord (b : ℕ → UInt8) (i : ℕ) : UInt16 :=
  (b (i + 1)).toUInt16 <<< 8 ||| (b i).toUInt16

/-- `ld_dword`. -/
def ldDword (b : ℕ → UInt8) (i : ℕ) : UInt32 :=
  (((b (i + 3)).toUInt32 <<< 8 ||| (b (i + 2)).toUInt32) <<< 8 ||| (b (i + 1)).toUInt32) <<< 8 |||
    (b i).toUInt32

namespace Sector

/-- `st_word`. -/
def stWord (s : Sector) (i : ℕ) (val : UInt16) : Sector :=
  (s.setByte i val.toUInt8).setByte (i + 1) (val >>> 8).toUInt8

/-- `st_dword`. -/
def stDword (s : Sector) (i : ℕ) (val : UInt32) : Sector :=
  (((s.setByte i val.toUInt8).setByte (i + 1) (val >>> 8).toUInt8).setByte (i + 2)
    (val >>> 8 >>> 8).toUInt8).setByte (i + 3) (val >>> 8 >>> 8 >>> 8).toUInt8

end Sector

theorem toNat_push16 (x : UInt16) (p : UInt8) :
    (x <<< 8 ||| p.toUInt16).toNat = x.toNat % 256 * 256 + p.toNat := by
  have hp : p.toNat < 2 ^ 8 := p.toNat_lt
  have hx : x.toNat <<< 8 % 2 ^ 16 = (x.toNat % 256) <<< 8 := by
    rw [Nat.shiftLeft_eq, Nat.shiftLeft_eq]
    omega
  have hs : (x <<< 8).toNat = x.toNat <<< 8 % 2 ^ 16 := UInt16.toNat_shiftLeft x 8
  rw [UInt16.toNat_or, hs, UInt8.toNat_toUInt16, hx, ← Nat.shiftLeft_add_eq_or_of_lt hp,
    Nat.shiftLeft_eq]

theorem toNat_push32 (x : UInt32) (p : UInt8) :
    (x <<< 8 ||| p.toUInt32).toNat = x.toNat % 16777216 * 256 + p.toNat := by
  have hp : p.toNat < 2 ^ 8 := p.toNat_lt
  have hx : x.toNat <<< 8 % 2 ^ 32 = (x.toNat % 16777216) <<< 8 := by
    rw [Nat.shiftLeft_eq, Nat.shiftLeft_eq]
    omega
  have hs : (x <<< 8).toNat = x.toNat <<< 8 % 2 ^ 32 := UInt32.toNat_shiftLeft x 8
  rw [UInt32.toNat_or, hs, UInt8.toNat_toUInt32, hx, ← Nat.shiftLeft_add_eq_or_of_lt hp,
    Nat.shiftLeft_eq]

theorem toNat_ldWord (b : ℕ → UInt8) (i : ℕ) :
    (ldWord b i).toNat = (b i).toNat + 256 * (b (i + 1)).toNat := by
  have h : (b (i + 1)).toNat < 256 := (b (i + 1)).toNat_lt
  rw [ldWord, toNat_push16, UInt8.toNat_toUInt16]
  omega

theorem toNat_ldDword (b : ℕ → UInt8) (i : ℕ) :
    (ldDword b i).toNat = (b i).toNat + 256 * (b (i + 1)).toNat + 65536 * (b (i + 2)).toNat +
      16777216 * (b (i + 3)).toNat := by
  have h₁ : (b (i + 1)).toNat < 256 := (b (i + 1)).toNat_lt
  have h₂ : (b (i + 2)).toNat < 256 := (b (i + 2)).toNat_lt
  have h₃ : (b (i + 3)).toNat < 256 := (b (i + 3)).toNat_lt
  rw [ldDword, toNat_push32, toNat_push32, toNat_push32, UInt8.toNat_toUInt32]
  omega

/-- The bits of a mask of low ones. -/
theorem toNat_and_low {n : ℕ} {m : UInt32} (hm : m.toNat = 2 ^ n - 1) (x : UInt32) :
    (x &&& m).toNat = x.toNat % 2 ^ n := by
  rw [UInt32.toNat_and, hm, Nat.and_two_pow_sub_one_eq_mod]

/-- The bits of a mask of high ones. -/
theorem and_high {x n m : ℕ} (hx : x < 2 ^ (n + m)) :
    x &&& ((2 ^ m - 1) <<< n) = (x / 2 ^ n) <<< n := by
  apply Nat.eq_of_testBit_eq
  intro i
  rw [Nat.testBit_and, Nat.testBit_shiftLeft, Nat.testBit_shiftLeft, Nat.testBit_div_two_pow,
    Nat.testBit_two_pow_sub_one]
  by_cases hi : n ≤ i
  · rw [Nat.sub_add_cancel hi, decide_eq_true hi, Bool.true_and, Bool.true_and]
    by_cases him : i - n < m
    · rw [decide_eq_true him, Bool.and_true]
    · have hbig : x < 2 ^ i := hx.trans_le (Nat.pow_le_pow_right (by omega) (by omega))
      rw [Nat.testBit_lt_two_pow hbig, Bool.false_and]
  · rw [decide_eq_false hi, Bool.false_and, Bool.false_and, Bool.and_false]

/-- The upper four bits of an entry of 32 bits stay. -/
theorem toNat_keep_reserved (x old : UInt32) :
    ((x &&& 0x0FFFFFFF) ||| (old &&& 0xF0000000)).toNat =
      x.toNat % 268435456 + old.toNat / 268435456 * 268435456 := by
  have hold : (old &&& 0xF0000000).toNat = (old.toNat / 2 ^ 28) <<< 28 := by
    rw [UInt32.toNat_and]
    exact and_high (m := 4) old.toNat_lt
  have hx : x.toNat % 2 ^ 28 < 2 ^ 28 := Nat.mod_lt _ (by decide)
  rw [UInt32.toNat_or, toNat_and_low (n := 28) rfl, hold, Nat.or_comm,
    ← Nat.shiftLeft_add_eq_or_of_lt hx, Nat.shiftLeft_eq, Nat.add_comm]
  rfl

/-- Four bytes at an offset. -/
def putDword (b : ℕ → UInt8) (i : ℕ) (val : UInt32) : ℕ → UInt8 :=
  Function.update (Function.update (Function.update (Function.update b i val.toUInt8) (i + 1)
    (val >>> 8).toUInt8) (i + 2) (val >>> 8 >>> 8).toUInt8) (i + 3) (val >>> 8 >>> 8 >>> 8).toUInt8

/-- Two bytes at an offset. -/
def putWord (b : ℕ → UInt8) (i : ℕ) (val : UInt16) : ℕ → UInt8 :=
  Function.update (Function.update b i val.toUInt8) (i + 1) (val >>> 8).toUInt8

theorem toNat_putWord (b : ℕ → UInt8) (i : ℕ) (val : UInt16) (k : ℕ) :
    (putWord b i val k).toNat =
      if k = i + 1 then val.toNat / 256 else if k = i then val.toNat % 256 else (b k).toNat := by
  have hlt : val.toNat < 65536 := val.toNat_lt
  have hs : (val >>> 8).toNat = val.toNat >>> 8 := UInt16.toNat_shiftRight val 8
  rw [putWord, Function.update_apply, Function.update_apply]
  split_ifs with hk hi
  · rw [UInt16.toNat_toUInt8, hs, Nat.shiftRight_eq_div_pow]
    omega
  · rw [UInt16.toNat_toUInt8]
  · rfl

/-- A word that is stored is loaded again. -/
theorem ldWord_putWord_self (b : ℕ → UInt8) (i : ℕ) (val : UInt16) :
    ldWord (putWord b i val) i = val := by
  apply UInt16.toNat_inj.1
  rw [toNat_ldWord, toNat_putWord, toNat_putWord, if_pos rfl, if_neg (by omega), if_pos rfl]
  omega

theorem ldWord_putWord_of_disjoint (b : ℕ → UInt8) {i j : ℕ} (h : i + 1 < j ∨ j + 1 < i)
    (val : UInt16) : ldWord (putWord b i val) j = ldWord b j := by
  have hk : ∀ k, k ≠ i → k ≠ i + 1 → putWord b i val k = b k := by
    intro k h₀ h₁
    rw [putWord, Function.update_of_ne h₁, Function.update_of_ne h₀]
  rw [ldWord, ldWord, hk j (by omega) (by omega), hk (j + 1) (by omega) (by omega)]

/-- A double word that is stored is loaded again. -/
theorem ldDword_putDword_self (b : ℕ → UInt8) (i : ℕ) (val : UInt32) :
    ldDword (putDword b i val) i = val := by
  have hlt : val.toNat < 4294967296 := val.toNat_lt
  have hs (x : UInt32) : (x >>> 8).toNat = x.toNat / 256 :=
    (UInt32.toNat_shiftRight x 8).trans (Nat.shiftRight_eq_div_pow _ _)
  have h₀ : (putDword b i val i).toNat = val.toNat % 256 := by
    rw [putDword, Function.update_of_ne (by omega), Function.update_of_ne (by omega),
      Function.update_of_ne (by omega), Function.update_self, UInt32.toNat_toUInt8]
  have h₁ : (putDword b i val (i + 1)).toNat = val.toNat / 256 % 256 := by
    rw [putDword, Function.update_of_ne (by omega), Function.update_of_ne (by omega),
      Function.update_self, UInt32.toNat_toUInt8, hs]
  have h₂ : (putDword b i val (i + 2)).toNat = val.toNat / 256 / 256 % 256 := by
    rw [putDword, Function.update_of_ne (by omega), Function.update_self, UInt32.toNat_toUInt8,
      hs, hs]
  have h₃ : (putDword b i val (i + 3)).toNat = val.toNat / 256 / 256 / 256 % 256 := by
    rw [putDword, Function.update_self, UInt32.toNat_toUInt8, hs, hs, hs]
  apply UInt32.toNat_inj.1
  rw [toNat_ldDword, h₀, h₁, h₂, h₃]
  omega

theorem ldDword_putDword_of_disjoint (b : ℕ → UInt8) {i j : ℕ} (h : i + 3 < j ∨ j + 3 < i)
    (val : UInt32) : ldDword (putDword b i val) j = ldDword b j := by
  have hk : ∀ k, k ≠ i → k ≠ i + 1 → k ≠ i + 2 → k ≠ i + 3 → putDword b i val k = b k := by
    intro k h₀ h₁ h₂ h₃
    rw [putDword, Function.update_of_ne h₃, Function.update_of_ne h₂, Function.update_of_ne h₁,
      Function.update_of_ne h₀]
  rw [ldDword, ldDword, hk j (by omega) (by omega) (by omega) (by omega),
    hk (j + 1) (by omega) (by omega) (by omega) (by omega),
    hk (j + 2) (by omega) (by omega) (by omega) (by omega),
    hk (j + 3) (by omega) (by omega) (by omega) (by omega)]

end Catpilot
