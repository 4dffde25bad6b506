import Catpilot.Memory.PackedFields
import Catpilot.Transition.Run

/-!
# The ranges of the AD7606B

The register `CHN_SETUP` has a field of two bits for the range of each of the 16 channels. It
is changed by reading it, changing the field and writing it back. What is read goes through a
variable of 16 bits, so that each change sets the fields of the channels from 8 on to zero.
-/

namespace Catpilot

open Transition

/-- `RANGE_2V5`. -/
def range2V5 : BitVec 32 := 0x0

/-- `RANGE_5V`. -/
def range5V : BitVec 32 := 0x1

/-- `RANGE_10V`. -/
def range10V : BitVec 32 := 0x2

/-- `adc_ad7606b_set_range`: what it returns, and the register `CHN_SETUP` after it. -/
def adcAd7606bSetRange (chnSetup channel range : BitVec 32) : ℤ × BitVec 32 :=
  let reg : BitVec 16 := chnSetup.setWidth 16
  let reg : BitVec 16 :=
    (reg.setWidth 32 &&& ~~~((3 : BitVec 32) <<< (channel * 2).toNat)).setWidth 16
  if range = range2V5 then
    let reg : BitVec 16 := (reg.setWidth 32 ||| range2V5 <<< (channel * 2).toNat).setWidth 16
    (0, reg.setWidth 32)
  else if range = range5V then
    let reg : BitVec 16 := (reg.setWidth 32 ||| range5V <<< (channel * 2).toNat).setWidth 16
    (0, reg.setWidth 32)
  else if range = range10V then
    let reg : BitVec 16 := (reg.setWidth 32 ||| range10V <<< (channel * 2).toNat).setWidth 16
    (0, reg.setWidth 32)
  else (-1, chnSetup)

/-- A call, for one of the 16 channels. -/
structure RangeCall where
  channel : BitVec 32
  range : BitVec 32
  channel_lt : channel.toNat < 16

/-- The range of a channel in the register. -/
def channelRange (chnSetup : BitVec 32) (channel : ℕ) : BitVec 2 :=
  PackedFields.field 2 chnSetup channel

/-- The register after a call. -/
def setRangeStep (chnSetup : BitVec 32) (call : RangeCall) : Option (BitVec 32) :=
  some (adcAd7606bSetRange chnSetup call.channel call.range).2

/-- A call that succeeds sets the range of its channel and keeps the others, and one that does
not changes nothing. -/
def RangeRight (chnSetup : BitVec 32) (call : RangeCall) : Prop :=
  let result := adcAd7606bSetRange chnSetup call.channel call.range
  (result.1 = 0 → (channelRange result.2 call.channel.toNat).setWidth 32 = call.range ∧
    ∀ d < 16, d ≠ call.channel.toNat → channelRange result.2 d = channelRange chnSetup d) ∧
  (result.1 ≠ 0 → result.2 = chnSetup)

/-- The range is refused, or the other channels from 8 on have the range zero, and the channel
of the call is below 8 or gets the range zero. -/
def RangeFits (chnSetup : BitVec 32) (call : RangeCall) : Prop :=
  range10V < call.range ∨
    ((∀ d < 16, 8 ≤ d → d ≠ call.channel.toNat → channelRange chnSetup d = 0) ∧
      (call.channel.toNat < 8 ∨ call.range = range2V5))

section Step

variable {chnSetup : BitVec 32}

/-- The register that a call with a range writes. -/
def rangeWritten (chnSetup : BitVec 32) (channel : ℕ) (range : BitVec 32) : BitVec 32 :=
  let reg := (chnSetup.setWidth 16).setWidth 32 &&& ~~~PackedFields.mask 32 2 channel
  (((reg.setWidth 16).setWidth 32 ||| range <<< (2 * channel)).setWidth 16).setWidth 32

theorem le_range10V_iff {range : BitVec 32} :
    range ≤ range10V ↔ range = range2V5 ∨ range = range5V ∨ range = range10V := by
  rw [BitVec.le_def, ← BitVec.toNat_inj, ← BitVec.toNat_inj, ← BitVec.toNat_inj]
  change range.toNat ≤ 2 ↔ range.toNat = 0 ∨ range.toNat = 1 ∨ range.toNat = 2
  omega

theorem adcAd7606bSetRange_eq (call : RangeCall) :
    adcAd7606bSetRange chnSetup call.channel call.range =
      if call.range ≤ range10V then (0, rangeWritten chnSetup call.channel.toNat call.range)
      else (-1, chnSetup) := by
  have hplace : (call.channel * 2).toNat = 2 * call.channel.toNat := by
    have hlt := call.channel_lt
    have htwo : (2 : BitVec 32).toNat = 2 := rfl
    rw [BitVec.toNat_mul, htwo, Nat.mul_comm]
    exact Nat.mod_eq_of_lt (by omega)
  have hmask : (3 : BitVec 32) <<< (2 * call.channel.toNat) =
      PackedFields.mask 32 2 call.channel.toNat := rfl
  rw [adcAd7606bSetRange, hplace, hmask]
  by_cases h2V5 : call.range = range2V5
  · rw [if_pos h2V5, if_pos (le_range10V_iff.2 (Or.inl h2V5)), h2V5, rangeWritten]
  · by_cases h5V : call.range = range5V
    · rw [if_neg h2V5, if_pos h5V, if_pos (le_range10V_iff.2 (Or.inr (Or.inl h5V))), h5V,
        rangeWritten]
    · by_cases h10V : call.range = range10V
      · rw [if_neg h2V5, if_neg h5V, if_pos h10V,
          if_pos (le_range10V_iff.2 (Or.inr (Or.inr h10V))), h10V, rangeWritten]
      · have hgt : ¬ call.range ≤ range10V := by
          rw [le_range10V_iff]
          rintro (h | h | h)
          · exact h2V5 h
          · exact h5V h
          · exact h10V h
        rw [if_neg h2V5, if_neg h5V, if_neg h10V, if_neg hgt]

/-- The ranges of the channels after a write: those from 8 on are zero. -/
theorem channelRange_rangeWritten {channel : ℕ} {range : BitVec 32} (hr : range ≤ range10V)
    (d : ℕ) : channelRange (rangeWritten chnSetup channel range) d =
      if 8 ≤ d then 0 else if d = channel then range.setWidth 2 else channelRange chnSetup d := by
  have hlt : range.toNat < 2 ^ 2 := Nat.lt_of_le_of_lt hr (by decide)
  rw [channelRange, rangeWritten]
  by_cases h8 : 8 ≤ d
  · rw [if_pos h8]
    exact PackedFields.field_narrow_of_le _ (by omega)
  · have hd : 2 * (d + 1) ≤ 16 := by omega
    rw [if_neg h8, PackedFields.field_narrow _ hd (by decide), PackedFields.field_or,
      PackedFields.field_narrow _ hd (by decide)]
    by_cases hc : d = channel
    · rw [if_pos hc, hc, PackedFields.field_clear_self, PackedFields.field_shift_self _ (by omega)]
      exact BitVec.zero_or
    · rw [if_neg hc, PackedFields.field_clear_of_ne _ hc,
        PackedFields.field_narrow _ hd (by decide), PackedFields.field_shift_of_ne _ hlt hc]
      exact BitVec.or_zero

theorem setWidth_setWidth_of_le {range : BitVec 32} (h : range ≤ range10V) :
    (range.setWidth 2).setWidth 32 = range := by
  have hle : range.toNat ≤ 2 := h
  apply BitVec.eq_of_toNat_eq
  rw [BitVec.toNat_setWidth, BitVec.toNat_setWidth]
  omega

/-- A call is right exactly when it fits. -/
theorem rangeRight_iff (call : RangeCall) : RangeRight chnSetup call ↔ RangeFits chnSetup call := by
  rw [RangeRight, RangeFits, adcAd7606bSetRange_eq]
  by_cases hle : call.range ≤ range10V
  · have hnot : ¬ range10V < call.range := BitVec.not_lt.2 hle
    have hset := @channelRange_rangeWritten chnSetup call.channel.toNat call.range hle
    rw [if_pos hle]
    constructor
    · intro h
      obtain ⟨hself, hothers⟩ := h.1 rfl
      refine Or.inr ⟨fun d hd h8 hne => ?_, ?_⟩
      · rw [← hothers d hd hne, hset, if_pos h8]
      · rcases Nat.lt_or_ge call.channel.toNat 8 with hlow | h8
        · exact Or.inl hlow
        · rw [hset, if_pos h8] at hself
          exact Or.inr hself.symm
    · rintro (hgt | ⟨hzero, hc⟩)
      · exact absurd hgt hnot
      · refine ⟨fun _ => ⟨?_, fun d hd hne => ?_⟩, fun h => absurd rfl h⟩
        · rw [hset]
          by_cases h8 : 8 ≤ call.channel.toNat
          · rw [if_pos h8, hc.resolve_left (Nat.not_lt.2 h8)]
            rfl
          · rw [if_neg h8, if_pos rfl, setWidth_setWidth_of_le hle]
        · rw [hset]
          by_cases h8 : 8 ≤ d
          · rw [if_pos h8, hzero d hd h8 hne]
          · rw [if_neg h8, if_neg hne]
  · have hgt : range10V < call.range := BitVec.not_le.1 hle
    rw [if_neg hle]
    apply iff_of_true _ (Or.inl hgt)
    exact ⟨fun h => absurd h (by decide : ¬ (-1 : ℤ) = 0), fun _ => rfl⟩

end Step

/-- In every sequence of calls, whatever the register is at first, each call is right exactly
when each one fits. -/
theorem along_rangeRight_iff (chnSetup : BitVec 32) (calls : List RangeCall) :
    Along RangeRight setRangeStep chnSetup calls ↔ Along RangeFits setRangeStep chnSetup calls := by
  apply along_congr (fun _ _ _ _ _ _ => trivial) _ trivial
  intro chnSetup call (_ : True)
  exact rangeRight_iff call

/-- The range of a channel from 8 on is not set. -/
theorem not_rangeRight_eight :
    ¬ ∀ (chnSetup : BitVec 32) (calls : List RangeCall),
      Along RangeRight setRangeStep chnSetup calls := by
  intro h
  have hright : RangeRight 0 ⟨8, range5V, by decide⟩ := (h 0 [⟨8, range5V, by decide⟩]).1
  exact absurd (hright.1 (by decide)).1 (by decide)

end Catpilot
