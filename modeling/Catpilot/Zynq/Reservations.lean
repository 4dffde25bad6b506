import Catpilot.Transition.Run
import Catpilot.Zynq.Gpio

/-!
# The reservations of the channels

A mode function either finds its channel taken and changes nothing, or the channel was
free: then its bit of the reservation word is set, and for a shared channel also the bit of
the direction register. All other writes go to other registers.
-/

namespace Catpilot

open EventMask Transition

namespace Gpio

section Aside

variable {s s' s'' : Gpio} {g : GpioInstance} {off value : BitVec 32}

/-- The direction register. -/
def fdio (s : Gpio) : BitVec 32 :=
  match s.gpio with
  | some g => s.mem (g.base + fdioSetupOff)
  | none => 0#32

/-- Nothing has changed that the reservations are about. -/
structure Aside (s s' : Gpio) : Prop where
  gpio_eq : s'.gpio = s.gpio
  channels_eq : s'.channels = s.channels
  fdio_eq : s'.fdio = s.fdio

theorem Aside.refl (s : Gpio) : Aside s s := ⟨rfl, rfl, rfl⟩

theorem Aside.trans (h : Aside s s') (h' : Aside s' s'') : Aside s s'' where
  gpio_eq := h'.gpio_eq.trans h.gpio_eq
  channels_eq := h'.channels_eq.trans h.channels_eq
  fdio_eq := h'.fdio_eq.trans h.fdio_eq

theorem fdio_eq (hg : s.gpio = some g) : s.fdio = s.mem (g.base + fdioSetupOff) := by
  rw [fdio, hg]

theorem writeReg_eq (hg : s.gpio = some g) (off value : BitVec 32) :
    s.writeReg off value = some { s with
      mem := Function.update s.mem (g.base + off) value
      accesses := s.accesses ++ [.out32 (g.base + off) value] } :=
  congrArg (Option.map _) hg

theorem readReg_eq (hg : s.gpio = some g) (off : BitVec 32) :
    s.readReg off = some (s.mem (g.base + off),
      { s with accesses := s.accesses ++ [.in32 (g.base + off)] }) :=
  congrArg (Option.map _) hg

/-- A write to another register. -/
theorem writeReg_aside (hg : s.gpio = some g) (hoff : off ≠ fdioSetupOff) (value : BitVec 32) :
    ∃ s', s.writeReg off value = some s' ∧ Aside s s' := by
  refine ⟨_, writeReg_eq hg off value, rfl, rfl, ?_⟩
  simp only [fdio, hg]
  refine Function.update_of_ne (fun heq => hoff ?_) ..
  exact ((BitVec.add_right_inj g.base).1 heq).symm

theorem modifyReg_eq (hg : s.gpio = some g) (off : BitVec 32) (f : BitVec 32 → BitVec 32) :
    ∃ t, Aside s t ∧ s.modifyReg off f = t.writeReg off (f (s.mem (g.base + off))) := by
  refine ⟨{ s with accesses := s.accesses ++ [.in32 (g.base + off)] }, ⟨rfl, rfl, rfl⟩, ?_⟩
  rw [modifyReg, readReg_eq hg, Option.bind_some]

theorem modifyReg_aside (hg : s.gpio = some g) (hoff : off ≠ fdioSetupOff)
    (f : BitVec 32 → BitVec 32) : ∃ s', s.modifyReg off f = some s' ∧ Aside s s' := by
  obtain ⟨t, ht, hmodify⟩ := modifyReg_eq hg off f
  obtain ⟨s', hs', haside⟩ := writeReg_aside (ht.gpio_eq.trans hg) hoff (f (s.mem (g.base + off)))
  exact ⟨s', hmodify.trans hs', ht.trans haside⟩

/-- The direction register is changed. -/
theorem modifyReg_fdio (hg : s.gpio = some g) (f : BitVec 32 → BitVec 32) :
    ∃ s', s.modifyReg fdioSetupOff f = some s' ∧ s'.gpio = s.gpio ∧
      s'.channels = s.channels ∧ s'.fdio = f s.fdio := by
  obtain ⟨t, ht, hmodify⟩ := modifyReg_eq hg fdioSetupOff f
  have hgt := ht.gpio_eq.trans hg
  rw [← fdio_eq hg, writeReg_eq hgt] at hmodify
  refine ⟨_, hmodify, ht.gpio_eq, ht.channels_eq, ?_⟩
  rw [fdio, hgt]
  exact Function.update_self ..

theorem writeRegs_aside (hg : s.gpio = some g) {regs : List (BitVec 32 × BitVec 32)}
    (hregs : ∀ r ∈ regs, r.1 ≠ fdioSetupOff) : ∃ s', s.writeRegs regs = some s' ∧ Aside s s' := by
  induction regs generalizing s with
  | nil => exact ⟨s, rfl, .refl s⟩
  | cons r regs ih =>
      obtain ⟨hr, hrest⟩ := List.forall_mem_cons.1 hregs
      obtain ⟨t, ht, haside⟩ := writeReg_aside hg hr r.2
      obtain ⟨s', hs', haside'⟩ := ih (haside.gpio_eq.trans hg) hrest
      refine ⟨s', ?_, haside.trans haside'⟩
      rw [writeRegs, ht, Option.bind_some, hs']

theorem cpsFi_aside (hg : s.gpio = some g) (channel : BitVec 32) :
    ∃ s', s.cpsFi channel = some s' ∧ Aside s s' := by
  rw [cpsFi]
  split
  · exact modifyReg_aside hg (by decide) _
  · exact ⟨s, rfl, .refl s⟩

end Aside

section Add

variable {s s' : Gpio} {g : GpioInstance} {dir dir' : Direction} {channel c : BitVec 32}

/-- The channel can be reserved. -/
def Free (s : Gpio) (dir : Direction) (channel : BitVec 32) : Prop :=
  channel < gpioPins ∧ isSet s.channels (dir.bit channel) = false ∧
    (channel ≥ gpioInputOutputOff → isSet s.channels (dir.opposite.bit channel) = false)

/-- What a reservation changes. -/
structure Granted (s s' : Gpio) (dir : Direction) (channel : BitVec 32) : Prop where
  gpio_eq : s'.gpio = s.gpio
  channels_eq : s'.channels = push s.channels (dir.bit channel)
  fdio_eq : s'.fdio =
    if channel ≥ gpioInputOutputOff then
      dir.setup s.fdio (channel - gpioInputOutputOff).toNat
    else s.fdio

theorem Granted.aside {s'' : Gpio} (h : Granted s s' dir channel) (h' : Aside s' s'') :
    Granted s s'' dir channel where
  gpio_eq := h'.gpio_eq.trans h.gpio_eq
  channels_eq := h'.channels_eq.trans h.channels_eq
  fdio_eq := h'.fdio_eq.trans h.fdio_eq

theorem gpioCheckCommon_eq_zero_iff (s : Gpio) (channel : BitVec 32) :
    s.gpioCheckCommon channel = 0 ↔ s.gpio.isSome ∧ channel < gpioPins := by
  rw [gpioCheckCommon]
  split
  · rename_i h
    refine iff_of_false (by decide) fun hok => ?_
    rcases h with hnone | hge
    · rw [Option.isNone_iff_eq_none.1 hnone] at hok
      exact absurd hok.1 Bool.false_ne_true
    · exact BitVec.not_le.2 hok.2 hge
  · rename_i h
    obtain ⟨hsome, hlt⟩ := not_or.1 h
    refine iff_of_true rfl ⟨?_, BitVec.not_le.1 hlt⟩
    exact Option.isSome_iff_ne_none.2 fun hnone => hsome (Option.isNone_iff_eq_none.2 hnone)

theorem gpioCheck_eq_zero_iff (hg : s.gpio = some g) :
    s.gpioCheck dir channel = 0 ↔ s.Free dir channel := by
  rw [gpioCheck, Free]
  by_cases hcommon : s.gpioCheckCommon channel = 0
  · have hlt := ((gpioCheckCommon_eq_zero_iff s channel).1 hcommon).2
    rw [if_neg (not_not.2 hcommon), and_iff_right hlt]
    cases isSet s.channels (dir.bit channel) with
    | true => simp
    | false =>
        cases hother : isSet s.channels (dir.opposite.bit channel) with
        | true => simp [BitVec.not_le]
        | false => simp
  · have hge : ¬ channel < gpioPins := fun hlt =>
      hcommon ((gpioCheckCommon_eq_zero_iff s channel).2 ⟨by rw [hg]; rfl, hlt⟩)
    rw [if_pos hcommon]
    exact iff_of_false (by decide) fun hfree => hge hfree.1

/-- `gpio_add_output` and `gpio_add_input` reserve the channel if it is free. -/
theorem gpioAdd_cases (hg : s.gpio = some g) {check : Gpio → BitVec 32 → ℤ}
    (hcheck : check s channel = s.gpioCheck dir channel) :
    (¬ s.Free dir channel ∧ s.gpioAdd check dir channel = some (s, -1)) ∨
      (s.Free dir channel ∧ ∃ s', s.gpioAdd check dir channel = some (s', 0) ∧
        Granted s s' dir channel) := by
  rw [← gpioCheck_eq_zero_iff hg, gpioAdd, hcheck]
  by_cases hfree : s.gpioCheck dir channel = 0
  · rw [if_neg (not_not.2 hfree)]
    refine Or.inr ⟨hfree, ?_⟩
    by_cases hshared : channel ≥ gpioInputOutputOff
    · obtain ⟨t, ht, hgpio, hchannels, hfdio⟩ := modifyReg_fdio hg fun reg =>
        dir.setup reg (channel - gpioInputOutputOff).toNat
      simp only [if_pos hshared, ht, Option.map_some]
      refine ⟨_, rfl, hgpio, by rw [hchannels], ?_⟩
      rw [if_pos hshared]
      exact hfdio
    · simp only [if_neg hshared, Option.map_some]
      refine ⟨_, rfl, rfl, rfl, ?_⟩
      rw [if_neg hshared]
      rfl
  · rw [if_pos hfree]
    exact Or.inl ⟨hfree, rfl⟩

/-- A mode function changes nothing or reserves the channel. -/
def Reserves (s : Gpio) (dir : Direction) (channel : BitVec 32)
    (result : Option (Gpio × ℤ)) : Prop :=
  (¬ s.Free dir channel ∧ result = some (s, -1)) ∨
    (s.Free dir channel ∧ ∃ s', result = some (s', 0) ∧ Granted s s' dir channel)

theorem setMode_reserves (hg : s.gpio = some g) {add : Gpio → BitVec 32 → Option (Gpio × ℤ)}
    (hadd : s.Reserves dir channel (add s channel)) {rest : Gpio → Option Gpio}
    (hrest : channel < gpioPins → ∀ t, t.gpio = some g → ∃ t', rest t = some t' ∧ Aside t t') :
    s.Reserves dir channel (s.setMode add channel rest) := by
  rw [setMode]
  rcases hadd with ⟨htaken, hadd⟩ | ⟨hfree, t, hadd, hgranted⟩
  · exact Or.inl ⟨htaken, by rw [hadd]; rfl⟩
  · obtain ⟨t', ht', haside⟩ := hrest hfree.1 t (hgranted.gpio_eq.trans hg)
    refine Or.inr ⟨hfree, t', ?_, hgranted.aside haside⟩
    rw [hadd, Option.bind_some]
    simp only [ne_eq, not_true_eq_false, if_false, ht', Option.map_some]

theorem gpioAddOutput_reserves (hg : s.gpio = some g) (channel : BitVec 32) :
    s.Reserves .output channel (s.gpioAddOutput channel) := gpioAdd_cases hg rfl

theorem gpioAddInput_reserves (hg : s.gpio = some g) (channel : BitVec 32) :
    s.Reserves .input channel (s.gpioAddInput channel) := gpioAdd_cases hg rfl

end Add

section Calls

/-- A call of a mode function. -/
inductive ModeCall where
  | discreteOut (channel : BitVec 32)
  | pwmOut (channel : BitVec 32)
  | phaseOut (channel invert timeMode syncChannel tooth phaseOn phaseOff : BitVec 32)
  | discreteIn (channel : BitVec 32)
  | pwmIn (channel : BitVec 32)
  | phaseIn (channel total missing step : BitVec 32)

namespace ModeCall

def direction : ModeCall → Direction
  | discreteOut .. | pwmOut .. | phaseOut .. => .output
  | discreteIn .. | pwmIn .. | phaseIn .. => .input

def channel : ModeCall → BitVec 32
  | discreteOut channel | pwmOut channel | phaseOut channel .. | discreteIn channel |
    pwmIn channel | phaseIn channel .. => channel

end ModeCall

/-- The mode function that is called. -/
def setModeOf (s : Gpio) : ModeCall → Option (Gpio × ℤ)
  | .discreteOut channel => s.gpioSetDiscreteModeOut channel
  | .pwmOut channel => s.gpioSetPwmModeOut channel
  | .phaseOut channel invert timeMode syncChannel tooth phaseOn phaseOff =>
      s.gpioSetPhaseModeOut channel invert timeMode syncChannel tooth phaseOn phaseOff
  | .discreteIn channel => s.gpioSetDiscreteModeIn channel
  | .pwmIn channel => s.gpioSetPwmModeIn channel
  | .phaseIn channel total missing step => s.gpioSetPhaseModeIn channel total missing step

variable {s : Gpio} {g : GpioInstance}

/-- The registers of a channel are not the direction register. -/
theorem off_ne_fdio {off channel k : BitVec 32} (hoff : 0x200#32 ≤ off) (hlt : off < 0x1000#32)
    (hchannel : channel < gpioPins) (hk : k < 0x20#32) :
    off + chOff channel + k ≠ fdioSetupOff := by
  rw [gpioPins] at hchannel
  rw [chOff, bytesInReg, fdioSetupOff]
  bv_omega

theorem off_ne_fdio' {off channel : BitVec 32} (hoff : 0x200#32 ≤ off) (hlt : off < 0x1000#32)
    (hchannel : channel < gpioPins) : off + chOff channel ≠ fdioSetupOff := by
  have h := off_ne_fdio hoff hlt hchannel (k := 0#32) (by decide)
  rwa [BitVec.add_zero] at h

section Registers

variable {channel : BitVec 32} (hchannel : channel < gpioPins)
include hchannel

theorem outSetup_ne : outSetupOff + chOff channel ≠ fdioSetupOff :=
  off_ne_fdio' (by decide) (by decide) hchannel

theorem outValue_ne : outValueOff + chOff channel ≠ fdioSetupOff :=
  off_ne_fdio' (by decide) (by decide) hchannel

theorem inputSetup_ne : inputSetupOff + chOff channel ≠ fdioSetupOff :=
  off_ne_fdio' (by decide) (by decide) hchannel

theorem outSetup_add_ne {k : BitVec 32} (hk : k < 0x20#32) :
    outSetupOff + chOff channel + k ≠ fdioSetupOff :=
  off_ne_fdio (by decide) (by decide) hchannel hk

theorem outValue_add_ne {k : BitVec 32} (hk : k < 0x20#32) :
    outValueOff + chOff channel + k ≠ fdioSetupOff :=
  off_ne_fdio (by decide) (by decide) hchannel hk

theorem inputSetup_add_ne {k : BitVec 32} (hk : k < 0x20#32) :
    inputSetupOff + chOff channel + k ≠ fdioSetupOff :=
  off_ne_fdio (by decide) (by decide) hchannel hk

end Registers

theorem gpioSetDiscreteModeOut_reserves (hg : s.gpio = some g) (channel : BitVec 32) :
    s.Reserves .output channel (s.gpioSetDiscreteModeOut channel) := by
  refine setMode_reserves hg (gpioAddOutput_reserves hg channel) fun hlt t ht => ?_
  apply writeRegs_aside ht
  simp [outSetup_ne hlt]

theorem gpioSetPwmModeOut_reserves (hg : s.gpio = some g) (channel : BitVec 32) :
    s.Reserves .output channel (s.gpioSetPwmModeOut channel) := by
  refine setMode_reserves hg (gpioAddOutput_reserves hg channel) fun hlt t ht => ?_
  apply writeRegs_aside ht
  simp [outSetup_ne hlt, outSetup_add_ne hlt]

theorem gpioSetPhaseModeOut_reserves (hg : s.gpio = some g)
    (channel invert timeMode syncChannel tooth phaseOn phaseOff : BitVec 32) :
    s.Reserves .output channel
      (s.gpioSetPhaseModeOut channel invert timeMode syncChannel tooth phaseOn phaseOff) := by
  refine setMode_reserves hg (gpioAddOutput_reserves hg channel) fun hlt t ht => ?_
  apply writeRegs_aside ht
  simp [outSetup_ne hlt, outSetup_add_ne hlt, outValue_ne hlt, outValue_add_ne hlt, bytesInReg]

/-- Two steps that leave the reservations aside, one after the other. -/
theorem bind_aside {f : Option Gpio} {f' : Gpio → Option Gpio}
    (hf : ∃ t, f = some t ∧ Aside s t)
    (hf' : ∀ t, Aside s t → ∃ t', f' t = some t' ∧ Aside t t') :
    ∃ t', f.bind f' = some t' ∧ Aside s t' := by
  obtain ⟨t, ht, haside⟩ := hf
  obtain ⟨t', ht', haside'⟩ := hf' t haside
  exact ⟨t', by rw [ht, Option.bind_some, ht'], haside.trans haside'⟩

theorem gpioSetDiscreteModeIn_reserves (hg : s.gpio = some g) (channel : BitVec 32) :
    s.Reserves .input channel (s.gpioSetDiscreteModeIn channel) := by
  refine setMode_reserves hg (gpioAddInput_reserves hg channel) fun hlt t ht => ?_
  refine bind_aside (writeRegs_aside ht ?_) fun t' ht' => ?_
  · simp [inputSetup_ne hlt]
  · exact cpsFi_aside (ht'.gpio_eq.trans ht) channel

theorem gpioSetPwmModeIn_reserves (hg : s.gpio = some g) (channel : BitVec 32) :
    s.Reserves .input channel (s.gpioSetPwmModeIn channel) := by
  refine setMode_reserves hg (gpioAddInput_reserves hg channel) fun hlt t ht => ?_
  refine bind_aside (writeRegs_aside ht ?_) fun t' ht' => ?_
  · simp [inputSetup_ne hlt, inputSetup_add_ne hlt]
  · exact cpsFi_aside (ht'.gpio_eq.trans ht) channel

theorem gpioSetPhaseModeIn_reserves (hg : s.gpio = some g)
    (channel total missing step : BitVec 32) :
    s.Reserves .input channel (s.gpioSetPhaseModeIn channel total missing step) := by
  refine setMode_reserves hg (gpioAddInput_reserves hg channel) fun hlt t ht => ?_
  refine bind_aside (cpsFi_aside ht channel) fun t' ht' => ?_
  apply writeRegs_aside (ht'.gpio_eq.trans ht)
  simp [inputSetup_ne hlt, inputSetup_add_ne hlt]

theorem setModeOf_reserves (hg : s.gpio = some g) (call : ModeCall) :
    s.Reserves call.direction call.channel (s.setModeOf call) := by
  cases call with
  | discreteOut => exact gpioSetDiscreteModeOut_reserves hg _
  | pwmOut => exact gpioSetPwmModeOut_reserves hg _
  | phaseOut => exact gpioSetPhaseModeOut_reserves hg ..
  | discreteIn => exact gpioSetDiscreteModeIn_reserves hg _
  | pwmIn => exact gpioSetPwmModeIn_reserves hg _
  | phaseIn => exact gpioSetPhaseModeIn_reserves hg ..

end Calls

section Bits

variable {dir dir' : Direction} {c c' : BitVec 32} {reg : BitVec 32} {k j : ℕ}

theorem bit_lt (hc : c < gpioPins) : dir.bit c < 32 := by
  have h : c.toNat < gpioPins.toNat := hc
  rw [gpioPins] at h
  cases dir
  · exact h.trans (by decide)
  · exact Nat.add_lt_add_right h _

/-- Each direction of each channel has a bit of its own. -/
theorem bit_inj (hc : c < gpioPins) (hc' : c' < gpioPins) :
    dir.bit c = dir'.bit c' ↔ dir = dir' ∧ c = c' := by
  have h : c.toNat < gpioPins.toNat := hc
  have h' : c'.toNat < gpioPins.toNat := hc'
  rw [← BitVec.toNat_inj]
  cases dir <;> cases dir' <;> simp only [Direction.bit, true_and, false_and, reduceCtorEq,
    iff_false, Nat.add_right_cancel_iff] <;> omega

theorem opposite_ne (dir : Direction) : dir.opposite ≠ dir := by cases dir <;> decide

theorem eq_opposite_of_ne (h : dir' ≠ dir) : dir' = dir.opposite := by
  cases dir <;> cases dir' <;> first | rfl | exact absurd rfl h

/-- The bit of a shared channel in the direction register. -/
theorem shared_lt (hc : c < gpioPins) (hshared : c ≥ gpioInputOutputOff) :
    (c - gpioInputOutputOff).toNat < 32 := by
  rw [gpioPins] at hc
  rw [gpioInputOutputOff] at *
  bv_omega

theorem shared_inj (hc : c ≥ gpioInputOutputOff) (hc' : c' ≥ gpioInputOutputOff) :
    (c - gpioInputOutputOff).toNat = (c' - gpioInputOutputOff).toNat ↔ c = c' := by
  rw [gpioInputOutputOff] at *
  constructor <;> intro h <;> bv_omega

theorem isSet_setup (hk : k < 32) (hj : j < 32) :
    isSet (dir.setup reg k) j =
      if j = k then decide (dir = .input) else isSet reg j := by
  cases dir with
  | output =>
      rw [Direction.setup, isSet_clear hk hj]
      by_cases h : j = k <;> simp [h]
  | input =>
      rw [Direction.setup, isSet_push hk hj]
      by_cases h : j = k <;> simp [h]

end Bits

end Gpio

/-- The GPIO block, and the reservations that were made. -/
structure Reservations where
  gpio : Gpio
  granted : List (Direction × BitVec 32)

/-- A call of `gpio_init` or of a mode function. -/
inductive GpioCall where
  | init (channel : BitVec 32) (answers : InitAnswers)
  | mode (call : Gpio.ModeCall)

namespace Reservations

open Gpio

/-- A step of a run. -/
def step (r : Reservations) : GpioCall → Option Reservations
  | .init channel answers => some { r with gpio := (r.gpio.gpioInit channel answers).1 }
  | .mode call =>
      (r.gpio.setModeOf call).map fun (s, rv) =>
        ⟨s, if rv = 0 then r.granted ++ [(call.direction, call.channel)] else r.granted⟩

/-- The reservations are as the word and the direction register tell: no channel is
reserved twice in a direction, no shared channel in both, and the bits of the direction
register that belong to no reserved channel are those of `reg`. -/
structure Sound (reg : BitVec 32) (r : Reservations) : Prop where
  nodup : r.granted.Nodup
  word : ∀ dir c, (dir, c) ∈ r.granted ↔
    c < gpioPins ∧ isSet r.gpio.channels (dir.bit c) = true
  exclusive : ∀ dir, ∀ c ≥ gpioInputOutputOff, (dir, c) ∈ r.granted →
    (dir.opposite, c) ∉ r.granted
  direction : ∀ dir, ∀ c ≥ gpioInputOutputOff, (dir, c) ∈ r.granted →
    isSet r.gpio.fdio (c - gpioInputOutputOff).toNat = decide (dir = .input)
  others : ∀ k < 32, (∀ dir, ∀ c ≥ gpioInputOutputOff, (dir, c) ∈ r.granted →
    (c - gpioInputOutputOff).toNat ≠ k) → isSet r.gpio.fdio k = isSet reg k

section Step

variable {reg : BitVec 32} {r r' : Reservations} {s : Gpio} {dir : Direction} {c : BitVec 32}

/-- A channel that is free was not reserved, nor was it in the other direction if it is
shared. -/
theorem Sound.not_mem_of_free (h : Sound reg r) (hfree : r.gpio.Free dir c) :
    (dir, c) ∉ r.granted ∧ (c ≥ gpioInputOutputOff → (dir.opposite, c) ∉ r.granted) := by
  obtain ⟨-, hown, hother⟩ := hfree
  constructor
  · intro hmem
    rw [((h.word dir c).1 hmem).2] at hown
    cases hown
  · intro hshared hmem
    have hset := hother hshared
    rw [((h.word _ c).1 hmem).2] at hset
    cases hset

/-- The direction register after a reservation, at the bit of another shared channel. -/
theorem isSet_fdio_granted (hs : Granted r.gpio s dir c) (hc : c < gpioPins) {k : ℕ}
    (hk : k < 32) (hne : c ≥ gpioInputOutputOff → (c - gpioInputOutputOff).toNat ≠ k) :
    isSet s.fdio k = isSet r.gpio.fdio k := by
  rw [hs.fdio_eq]
  split
  · rename_i hshared
    rw [isSet_setup (shared_lt hc hshared) hk, if_neg fun heq => hne hshared heq.symm]
  · rfl

theorem Sound.of_granted (h : Sound reg r) (hfree : r.gpio.Free dir c)
    (hs : Granted r.gpio s dir c) : Sound reg ⟨s, r.granted ++ [(dir, c)]⟩ := by
  obtain ⟨hnew, hopposite⟩ := h.not_mem_of_free hfree
  have hc : c < gpioPins := hfree.1
  have hmem : ∀ dir' c', (dir', c') ∈ r.granted ++ [(dir, c)] →
      (dir', c') ∈ r.granted ∨ (dir' = dir ∧ c' = c) := by
    intro dir' c' h'
    simpa using h'
  have hne : ∀ dir', ∀ c' ≥ gpioInputOutputOff, (dir', c') ∈ r.granted →
      c ≥ gpioInputOutputOff → c ≠ c' := by
    rintro dir' c' - hold hshared rfl
    by_cases hdir : dir' = dir
    · exact hnew (hdir ▸ hold)
    · exact hopposite hshared (eq_opposite_of_ne hdir ▸ hold)
  constructor
  case nodup =>
    refine List.nodup_append.2 ⟨h.nodup, List.nodup_singleton _, fun x hx y hy heq => ?_⟩
    exact hnew (List.mem_singleton.1 hy ▸ heq ▸ hx)
  case word =>
    intro dir' c'
    rw [List.mem_append, h.word, List.mem_singleton, Prod.mk.injEq, hs.channels_eq]
    by_cases hc' : c' < gpioPins
    · rw [isSet_push (bit_lt hc) (bit_lt hc'), Bool.or_eq_true, decide_eq_true_eq,
        bit_inj hc' hc, and_iff_right hc', and_iff_right hc']
    · simp only [hc', false_and, false_or, iff_false]
      exact fun heq => hc' (heq.2 ▸ hc)
  case exclusive =>
    intro dir' c' hshared h' h''
    rcases hmem _ _ h' with hold | ⟨rfl, rfl⟩
    · rcases hmem _ _ h'' with hold' | ⟨hdir, rfl⟩
      · exact h.exclusive dir' c' hshared hold hold'
      · refine hopposite hshared ?_
        rw [← hdir]
        cases dir' <;> exact hold
    · rcases hmem _ _ h'' with hold' | ⟨hdir, -⟩
      · exact hopposite hshared hold'
      · exact opposite_ne dir' hdir
  case direction =>
    intro dir' c' hshared h'
    rcases hmem _ _ h' with hold | ⟨rfl, rfl⟩
    · rw [← h.direction dir' c' hshared hold]
      refine isSet_fdio_granted hs hc (shared_lt ((h.word dir' c').1 hold).1 hshared)
        fun hshared₀ => ?_
      rw [Ne, shared_inj hshared₀ hshared]
      exact hne dir' c' hshared hold hshared₀
    · rw [hs.fdio_eq, if_pos hshared, isSet_setup (shared_lt hc hshared) (shared_lt hc hshared),
        if_pos rfl]
  case others =>
    intro k hk hfar
    rw [isSet_fdio_granted hs hc hk fun hshared =>
      hfar dir c hshared (List.mem_append_right _ (List.mem_singleton_self _))]
    exact h.others k hk fun dir' c' hshared hold =>
      hfar dir' c' hshared (List.mem_append_left _ hold)

/-- A later `gpio_init` finds the instance there. -/
theorem gpioInit_of_some {g : GpioInstance} (hg : s.gpio = some g) (channel : BitVec 32)
    (answers : InitAnswers) : (s.gpioInit channel answers).1 = s := by
  rw [gpioInit, hg]
  split <;> rfl

theorem Sound.step {g : GpioInstance} (h : Sound reg r) (hg : r.gpio.gpio = some g)
    (call : GpioCall) :
    ∃ r', r.step call = some r' ∧ Sound reg r' ∧ r'.gpio.gpio = some g := by
  cases call with
  | init channel answers =>
      refine ⟨_, rfl, ?_⟩
      rw [gpioInit_of_some hg]
      exact ⟨h, hg⟩
  | mode call =>
      rcases setModeOf_reserves hg call with ⟨-, hcall⟩ | ⟨hfree, s, hcall, hgranted⟩
      · exact ⟨r, by rw [Reservations.step, hcall]; rfl, h, hg⟩
      · exact ⟨_, by rw [Reservations.step, hcall]; rfl, h.of_granted hfree hgranted,
          hgranted.gpio_eq.trans hg⟩

end Step

section Runs

/-- Before the first `gpio_init`. -/
def fresh (mem : BitVec 32 → BitVec 32) : Gpio := ⟨none, 0#32, mem, []⟩

/-- What a `gpio_init` that succeeds leaves. -/
theorem gpioInit_fresh {mem : BitVec 32 → BitVec 32} {channel : BitVec 32}
    {answers : InitAnswers} {s : Gpio} (h : (fresh mem).gpioInit channel answers = (s, 0)) :
    s = ⟨some ⟨answers.mmapDeviceIo, ioBaseAddr⟩, 0#32, mem, []⟩ := by
  simp only [gpioInit, fresh] at h
  split at h
  · cases h
  · split at h
    · cases h
    · split at h
      · cases h
      · split at h
        · cases h
        · cases h
          rfl

theorem sound_nil {s : Gpio} (h : s.channels = 0#32) : Sound s.fdio ⟨s, []⟩ where
  nodup := List.nodup_nil
  word := by
    intro dir c
    rw [h, isSet_zero]
    simp
  exclusive := fun _ _ _ hmem => absurd hmem List.not_mem_nil
  direction := fun _ _ _ hmem => absurd hmem List.not_mem_nil
  others := fun _ _ _ => rfl

/-- After a `gpio_init` that returned 0 every sequence of calls goes through, the reservations
are sound after each of them, and a call that is refused has changed nothing. -/
theorem run_sound {mem : BitVec 32 → BitVec 32} {channel : BitVec 32} {answers : InitAnswers}
    {s : Gpio} (h : (fresh mem).gpioInit channel answers = (s, 0)) (calls : List GpioCall) :
    ∃ r, run step ⟨s, []⟩ calls = some r ∧ Sound s.fdio r ∧
      ∀ call s' rv, r.gpio.setModeOf call = some (s', rv) → rv ≠ 0 → s' = r.gpio := by
  have hs := gpioInit_fresh h
  have hstep : ∀ (r : Reservations) (call : GpioCall),
      Sound s.fdio r ∧ r.gpio.gpio = some ⟨answers.mmapDeviceIo, ioBaseAddr⟩ →
      ∃ r', r.step call = some r' ∧ Sound s.fdio r' ∧
        r'.gpio.gpio = some ⟨answers.mmapDeviceIo, ioBaseAddr⟩ :=
    fun _ call hr => hr.1.step hr.2 call
  have hstart : Sound s.fdio ⟨s, []⟩ := sound_nil (by rw [hs])
  obtain ⟨r, hr, hsound, hg⟩ := run_total hstep ⟨hstart, by rw [hs]⟩ calls
  refine ⟨r, hr, hsound, fun call s' rv hcall hrv => ?_⟩
  rcases setModeOf_reserves hg call with ⟨-, hrefused⟩ | ⟨-, t, hgranted, -⟩
  · rw [hrefused] at hcall
    cases hcall
    rfl
  · rw [hgranted] at hcall
    cases hcall
    exact absurd rfl hrv

/-- The block is initialised, and the shared channel 12 is asked for in both directions. -/
theorem run_sound_shared : ∃ r,
    run step ⟨⟨some ⟨ioBaseAddr, ioBaseAddr⟩, 0#32, fun _ => 0#32, []⟩, []⟩
      [.mode (.discreteIn 12#32), .mode (.pwmOut 12#32)] = some r ∧ Sound 0#32 r ∧
      ∀ call s' rv, r.gpio.setModeOf call = some (s', rv) → rv ≠ 0 → s' = r.gpio := by
  have hinit : (fresh fun _ => 0#32).gpioInit 12#32 ⟨true, ioBaseAddr, true⟩ =
      (⟨some ⟨ioBaseAddr, ioBaseAddr⟩, 0#32, fun _ => 0#32, []⟩, 0) := rfl
  exact run_sound hinit _

end Runs

end Reservations

end Catpilot
