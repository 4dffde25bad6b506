import Catpilot.Cubeio.Fsm

/-!
# What a pass of the IO board driver does

`EventTransfers` says which register transfers the handling of an event makes. A pass in
OPERATION makes those of the pending events, in the order of `eventOrder`, and a few
routine transfers behind them; it leaves no event pending and keeps the settings.
-/

namespace Catpilot

/-- What the calls of the driver set. -/
structure CubeioSettings where
  numChannels : UInt8
  heaterDuty : UInt8
  safetyMask : UInt16
  rate : CubeioRate
  pwmRangeCfg : Fin 16 → CubeioRangeCfg
  pwm : Fin 16 → ℚ
  failsafePwm : ℚ

/-- The settings in the record. -/
def Cubeio.settings (dev : Cubeio) : CubeioSettings :=
  ⟨dev.pwmOut.numChannels, dev.pwmOut.heaterDuty, dev.pwmOut.safetyMask, dev.rate,
    dev.pwmRangeCfg, dev.pwm, dev.failsafePwm⟩

/-- The event is pending. -/
def Cubeio.pending (dev : Cubeio) (event : CubeioEvent) : Bool :=
  EventMask.isSet dev.eventmask event.num

theorem CubeioEvent.num_lt (event : CubeioEvent) : event.num < 32 := by
  cases event with
  | _ => decide

theorem CubeioEvent.num_inj {e e' : CubeioEvent} : e.num = e'.num ↔ e = e' := by
  constructor
  · intro h
    cases e with
    | _ =>
        cases e' with
        | _ => first | rfl | cases h
  · rintro rfl
    rfl

section Events

variable (dev : Cubeio) (e e' : CubeioEvent)

theorem pending_push :
    (cubeioPushEvent dev e).pending e' = (dev.pending e' || decide (e' = e)) := by
  rw [Cubeio.pending, cubeioPushEvent, EventMask.isSet_push e.num_lt e'.num_lt, Cubeio.pending]
  simp only [CubeioEvent.num_inj]

theorem pending_pop :
    (cubeioPopEvent dev e).1.pending e' = (dev.pending e' && decide (e' ≠ e)) := by
  rw [cubeioPopEvent]
  by_cases h : EventMask.isSet dev.eventmask e.num = true
  · rw [if_pos h, Cubeio.pending, EventMask.isSet_clear e.num_lt e'.num_lt, Cubeio.pending]
    simp only [ne_eq, CubeioEvent.num_inj]
  · rw [if_neg h]
    by_cases he : e' = e
    · subst he
      simpa [Cubeio.pending] using h
    · simp [he]

theorem popEvent_snd : (cubeioPopEvent dev e).2 = dev.pending e := by
  rw [cubeioPopEvent, Cubeio.pending]
  split
  · next h => exact h.symm
  · next h => exact (Bool.eq_false_iff.2 h).symm

theorem settings_pop : (cubeioPopEvent dev e).1.settings = dev.settings := by
  rw [cubeioPopEvent]
  split
  · rfl
  · rfl

theorem state_pop : (cubeioPopEvent dev e).1.state = dev.state := by
  rw [cubeioPopEvent]
  split
  · rfl
  · rfl

end Events

/-- The event of a call that sets something. -/
def CubeioCall.event : CubeioCall → Option CubeioEvent
  | .setRange .. => none
  | .setPwm .. => some .setPwm
  | .setFailsafePwm _ => some .setFailsafePwm
  | .setSafetyMask _ => some .setSafetyMask
  | .setFreq .. => some .setRates
  | .setDefaultFreq _ => some .setDefaultRate
  | .setOneshotMode => some .oneshotOn
  | .setBrushedMode => some .brushedOn
  | .forceSafetyOn => some .forceSafetyOn
  | .forceSafetyOff => some .forceSafetyOff
  | .setImuHeaterDuty _ => some .setImuHeaterDuty
  | .enableSbusOut _ => some .enableSbusOut

/-- The call does not return before it pushes its event. -/
def CubeioCall.Pushes (dev : Cubeio) : CubeioCall → Prop
  | .setPwm channels _ => ¬ channels < 1
  | .setDefaultFreq freq => dev.rate.defaultFreq ≠ freq
  | _ => True

instance (dev : Cubeio) : (c : CubeioCall) → Decidable (c.Pushes dev)
  | .setPwm channels _ => inferInstanceAs (Decidable (¬ channels < 1))
  | .setDefaultFreq freq => inferInstanceAs (Decidable (dev.rate.defaultFreq ≠ freq))
  | .setRange .. | .setFailsafePwm _ | .setSafetyMask _ | .setFreq .. | .setOneshotMode
  | .setBrushedMode | .forceSafetyOn | .forceSafetyOff | .setImuHeaterDuty _ | .enableSbusOut _ =>
      isTrue trivial

section Calls

variable (plat : CubeioPlatform) (dev : Cubeio)

/-- What a call leaves, its event apart. -/
structure CallFrame (dev dev' : Cubeio) : Prop where
  eventmask_eq : dev'.eventmask = dev.eventmask
  state_eq : dev'.state = dev.state
  config_eq : dev'.config = dev.config

theorem CallFrame.refl : CallFrame dev dev := ⟨rfl, rfl, rfl⟩

theorem cubeioSetRange_frame (type : ℤ) (channel : UInt8) (channelType min max : UInt16) :
    CallFrame dev (cubeioSetRange plat dev type channel channelType min max) := by
  rw [cubeioSetRange]
  split_ifs with hrc hlow hend hpwm hlow hend
  all_goals exact ⟨rfl, rfl, rfl⟩

/-- A call that is turned down leaves the record. -/
theorem cubeioCall_of_not_pushes {plat : CubeioPlatform} {dev : Cubeio} {c : CubeioCall}
    (h : ¬ c.Pushes dev) : cubeioCall plat dev c = dev := by
  cases c with
  | setPwm channels pwm =>
      rw [cubeioCall, cubeioSetPwm, if_pos (not_not.1 h)]
  | setDefaultFreq freq =>
      have heq : ¬ dev.rate.defaultFreq ≠ freq := h
      rw [cubeioCall, cubeioSetDefaultFreq, if_neg heq]
  | _ => exact absurd trivial h

/-- A call sets something and pushes its event, or pushes none. -/
theorem cubeioCall_cases (c : CubeioCall) : ∃ dev', CallFrame dev dev' ∧
    (cubeioCall plat dev c = dev' ∧ (∀ e, ¬ (c.event = some e ∧ c.Pushes dev)) ∨
      ∃ e, cubeioCall plat dev c = cubeioPushEvent dev' e ∧ c.event = some e ∧ c.Pushes dev) := by
  by_cases hpush : c.Pushes dev
  · cases c with
    | setRange type channel channelType min max =>
        exact ⟨_, cubeioSetRange_frame plat dev type channel channelType min max,
          Or.inl ⟨rfl, fun e he => nomatch he.1⟩⟩
    | setPwm channels pwm =>
        have hchannels : ¬ channels < 1 := hpush
        refine ⟨_, ?_, Or.inr ⟨.setPwm, if_neg hchannels, rfl, hpush⟩⟩
        exact ⟨rfl, rfl, rfl⟩
    | setDefaultFreq freq =>
        have hfreq : dev.rate.defaultFreq ≠ freq := hpush
        refine ⟨_, ?_, Or.inr ⟨.setDefaultRate, if_pos hfreq, rfl, hpush⟩⟩
        exact ⟨rfl, rfl, rfl⟩
    | _ =>
        refine ⟨_, ?_, Or.inr ⟨_, rfl, rfl, hpush⟩⟩
        exact ⟨rfl, rfl, rfl⟩
  · exact ⟨dev, .refl dev, Or.inl ⟨cubeioCall_of_not_pushes hpush, fun _ he => hpush he.2⟩⟩

/-- A call makes its event pending and no other. -/
theorem pending_call (c : CubeioCall) (e : CubeioEvent) :
    (cubeioCall plat dev c).pending e =
      (dev.pending e || decide (c.event = some e ∧ c.Pushes dev)) := by
  obtain ⟨dev', hframe, ⟨hcall, hnone⟩ | ⟨e', hcall, hevent, hpush⟩⟩ :=
    cubeioCall_cases plat dev c
  · rw [hcall, Cubeio.pending, hframe.eventmask_eq, Cubeio.pending]
    simp [hnone]
  · rw [hcall, pending_push, Cubeio.pending, hframe.eventmask_eq, Cubeio.pending]
    simp [hevent, hpush, eq_comm]

/-- No call changes the state of the machine or the configuration. -/
theorem cubeioCall_state_config (c : CubeioCall) :
    (cubeioCall plat dev c).state = dev.state ∧ (cubeioCall plat dev c).config = dev.config := by
  obtain ⟨dev', hframe, ⟨hcall, -⟩ | ⟨e', hcall, -⟩⟩ := cubeioCall_cases plat dev c
  · rw [hcall]
    exact ⟨hframe.state_eq, hframe.config_eq⟩
  · rw [hcall]
    exact ⟨hframe.state_eq, hframe.config_eq⟩

end Calls

/-- The transfers of `cubeio_set_clear_reg`: after a failed read there is no write. -/
def SetClearTransfers (page offset : UInt8) (setbits clearbits : UInt16)
    (ts : List CubeioTransfer) : Prop :=
  (∃ regs rv, rv ≠ success ∧ ts = [⟨.read, page, offset, regs, rv⟩]) ∨
    ∃ regs rv, ts = [⟨.read, page, offset, regs, success⟩,
      ⟨.write, page, offset, [(regs.headD 0 &&& ~~~clearbits) ||| setbits], rv⟩]

/-- The transfers made for an event. -/
def EventTransfers (plat : CubeioPlatform) (settings : CubeioSettings)
    (ts : List CubeioTransfer) : CubeioEvent → Prop
  | .setPwm => ∃ rv, ts = [⟨.write, pageDirectPwm, 0,
      (List.ofFn fun i => cubeioScaleOutput plat (settings.pwm i) (settings.pwmRangeCfg i)).take
        settings.numChannels.toNat, rv⟩]
  | .setFailsafePwm => ∃ rv, ts = [⟨.write, pageFailsafePwm, 0,
      List.ofFn fun i => cubeioScaleOutput plat settings.failsafePwm (settings.pwmRangeCfg i), rv⟩]
  | .forceSafetyOff => ∃ rv, ts = [⟨.write, pageSetup, regForceSafetyOff, [forceSafetyMagic], rv⟩]
  | .forceSafetyOn => ∃ rv, ts = [⟨.write, pageSetup, regForceSafetyOn, [forceSafetyMagic], rv⟩]
  | .enableSbusOut => ∃ rv ts',
      ts = ⟨.write, pageSetup, regSbusRate, [settings.rate.sbusRateHz], rv⟩ :: ts' ∧
        SetClearTransfers pageSetup regFeatures featuresSbus1Out 0 ts'
  | .setRates => ∃ rv rv', ts = [⟨.write, pageSetup, regAltrate, [settings.rate.freq], rv⟩,
      ⟨.write, pageSetup, regPwmRateMask, [settings.rate.chmask], rv'⟩]
  | .setImuHeaterDuty => ∃ rv,
      ts = [⟨.write, pageSetup, regHeaterDutyCycle, [settings.heaterDuty.toUInt16], rv⟩]
  | .setDefaultRate => ∃ rv,
      ts = [⟨.write, pageSetup, regDefaultrate, [settings.rate.defaultFreq], rv⟩]
  | .brushedOn => SetClearTransfers pageSetup regFeatures featuresBrushed 0 ts
  | .oneshotOn => SetClearTransfers pageSetup regFeatures featuresOneshot 0 ts
  | .setSafetyMask => ∃ rv,
      ts = [⟨.write, pageSetup, regIgnoreSafety, [settings.safetyMask], rv⟩]

section Transfers

variable (bus : CubeioBus) (page offset : UInt8) (s : CubeioSystem)

/-- The system with more transfers in its log. -/
def CubeioSystem.logged (s : CubeioSystem) (ts : List CubeioTransfer) : CubeioSystem :=
  { s with log := s.log ++ ts }

/-- The result of a write. -/
def writeResult (bus : CubeioBus) (n : ℕ) : ℤ := writeAttempts 0 (List.ofFn (bus n))

theorem cubeioWriteRegs_eq (regs : List UInt16) : cubeioWriteRegs bus page offset regs s =
    (s.logged [⟨.write, page, offset, regs, writeResult bus s.log.length⟩],
      writeResult bus s.log.length) := rfl

theorem cubeioWriteReg_eq (reg : UInt16) : cubeioWriteReg bus page offset reg s =
    (s.logged [⟨.write, page, offset, [reg], writeResult bus s.log.length⟩],
      writeResult bus s.log.length) := cubeioWriteRegs_eq bus page offset s [reg]

theorem cubeioReadRegs_spec (regs : List UInt16) : ∃ got rv,
    cubeioReadRegs bus page offset regs s =
      (s.logged [⟨.read, page, offset, got, rv⟩], rv, got) := ⟨_, _, rfl⟩

theorem logged_logged (ts ts' : List CubeioTransfer) :
    (s.logged ts).logged ts' = s.logged (ts ++ ts') := by
  rw [CubeioSystem.logged, CubeioSystem.logged, CubeioSystem.logged, List.append_assoc]

/-- What `cubeio_set_clear_reg` reads. -/
def readReg (bus : CubeioBus) (n : ℕ) : ℤ × List UInt16 :=
  readAttempts 1 [0] 0 (List.ofFn (bus n))

theorem cubeioSetClearReg_of_read (setbits clearbits : UInt16)
    (h : (readReg bus s.log.length).1 = success) :
    cubeioSetClearReg bus page offset setbits clearbits s =
      (s.logged [⟨.read, page, offset, (readReg bus s.log.length).2, success⟩,
        ⟨.write, page, offset,
          [((readReg bus s.log.length).2.headD 0 &&& ~~~clearbits) ||| setbits],
          writeResult bus (s.log.length + 1)⟩], writeResult bus (s.log.length + 1)) := by
  have hread : cubeioReadRegs bus page offset [0] s =
      (s.logged [⟨.read, page, offset, (readReg bus s.log.length).2, success⟩], success,
        (readReg bus s.log.length).2) := by
    rw [← h]
    rfl
  have hlen : (s.logged [⟨.read, page, offset, (readReg bus s.log.length).2, success⟩]).log.length =
      s.log.length + 1 := by
    simp [CubeioSystem.logged]
  rw [cubeioSetClearReg, hread]
  simp only [ne_eq, not_true_eq_false, if_false, cubeioWriteReg_eq, hlen, logged_logged]
  rfl

theorem cubeioSetClearReg_of_not_read (setbits clearbits : UInt16)
    (h : (readReg bus s.log.length).1 ≠ success) :
    cubeioSetClearReg bus page offset setbits clearbits s =
      (s.logged [⟨.read, page, offset, (readReg bus s.log.length).2,
        (readReg bus s.log.length).1⟩], -1) := by
  have hread : cubeioReadRegs bus page offset [0] s =
      (s.logged [⟨.read, page, offset, (readReg bus s.log.length).2,
        (readReg bus s.log.length).1⟩], readReg bus s.log.length) := rfl
  rw [cubeioSetClearReg, hread]
  simp only [ne_eq, h, not_false_eq_true, if_true]

/-- A read-modify-write only logs its transfers. -/
theorem cubeioSetClearReg_spec (setbits clearbits : UInt16) :
    ∃ ts, (cubeioSetClearReg bus page offset setbits clearbits s).1 = s.logged ts ∧
      SetClearTransfers page offset setbits clearbits ts := by
  by_cases h : (readReg bus s.log.length).1 = success
  · rw [cubeioSetClearReg_of_read bus page offset s setbits clearbits h]
    exact ⟨_, rfl, Or.inr ⟨_, _, rfl⟩⟩
  · rw [cubeioSetClearReg_of_not_read bus page offset s setbits clearbits h]
    exact ⟨_, rfl, Or.inl ⟨_, _, h, rfl⟩⟩

end Transfers

section Events

variable (plat : CubeioPlatform) (bus : CubeioBus) (s : CubeioSystem)

theorem take_scalePwm (dev : Cubeio) :
    (List.ofFn (scalePwm plat dev)).take dev.pwmOut.numChannels.toNat =
      (List.ofFn fun i => cubeioScaleOutput plat (dev.pwm i) (dev.pwmRangeCfg i)).take
        dev.pwmOut.numChannels.toNat := by
  apply List.ext_getElem
  · simp
  · intro i hi hi'
    rw [List.length_take, lt_min_iff] at hi
    simp only [List.getElem_take, List.getElem_ofFn, scalePwm, if_pos hi.1]

/-- Handling an event makes its transfers and changes neither the settings nor the
events. -/
theorem onEvent_spec (e : CubeioEvent) :
    (∃ ts, (onEvent plat bus s e).log = s.log ++ ts ∧
      EventTransfers plat s.dev.settings ts e) ∧
    (onEvent plat bus s e).dev.settings = s.dev.settings ∧
    (onEvent plat bus s e).dev.state = s.dev.state ∧
    (onEvent plat bus s e).dev.eventmask = s.dev.eventmask := by
  cases e with
  | setPwm =>
      refine ⟨⟨_, rfl, writeResult bus s.log.length, ?_⟩, rfl, rfl, rfl⟩
      exact congrArg (fun regs => [(⟨.write, pageDirectPwm, 0, regs,
        writeResult bus s.log.length⟩ : CubeioTransfer)]) (take_scalePwm plat s.dev)
  | enableSbusOut =>
      have hwrite := cubeioWriteReg_eq bus pageSetup regSbusRate s s.dev.rate.sbusRateHz
      obtain ⟨ts, hts, hspec⟩ := cubeioSetClearReg_spec bus pageSetup regFeatures
        (cubeioWriteReg bus pageSetup regSbusRate s.dev.rate.sbusRateHz s).1 featuresSbus1Out 0
      rw [onEvent, hts, hwrite]
      refine ⟨⟨_ :: ts, ?_, writeResult bus s.log.length, ts, rfl, hspec⟩, rfl, rfl, rfl⟩
      rw [logged_logged]
      rfl
  | setRates =>
      have hwrite := cubeioWriteReg_eq bus pageSetup regAltrate s s.dev.rate.freq
      rw [onEvent, hwrite, cubeioWriteReg_eq, logged_logged]
      exact ⟨⟨_, rfl, _, _, rfl⟩, rfl, rfl, rfl⟩
  | brushedOn =>
      obtain ⟨ts, hts, hspec⟩ :=
        cubeioSetClearReg_spec bus pageSetup regFeatures s featuresBrushed 0
      rw [onEvent, hts]
      exact ⟨⟨ts, rfl, hspec⟩, rfl, rfl, rfl⟩
  | oneshotOn =>
      obtain ⟨ts, hts, hspec⟩ :=
        cubeioSetClearReg_spec bus pageSetup regFeatures s featuresOneshot 0
      rw [onEvent, hts]
      exact ⟨⟨ts, rfl, hspec⟩, rfl, rfl, rfl⟩
  | setFailsafePwm => exact ⟨⟨_, rfl, writeResult bus s.log.length, rfl⟩, rfl, rfl, rfl⟩
  | forceSafetyOff => exact ⟨⟨_, rfl, writeResult bus s.log.length, rfl⟩, rfl, rfl, rfl⟩
  | forceSafetyOn => exact ⟨⟨_, rfl, writeResult bus s.log.length, rfl⟩, rfl, rfl, rfl⟩
  | setImuHeaterDuty => exact ⟨⟨_, rfl, writeResult bus s.log.length, rfl⟩, rfl, rfl, rfl⟩
  | setDefaultRate => exact ⟨⟨_, rfl, writeResult bus s.log.length, rfl⟩, rfl, rfl, rfl⟩
  | setSafetyMask => exact ⟨⟨_, rfl, writeResult bus s.log.length, rfl⟩, rfl, rfl, rfl⟩

theorem handleEvent_eq (e : CubeioEvent) : handleEvent plat bus s e =
    if s.dev.pending e then onEvent plat bus { s with dev := (cubeioPopEvent s.dev e).1 } e
    else { s with dev := (cubeioPopEvent s.dev e).1 } := by
  rw [handleEvent, ← popEvent_snd]
  cases h : cubeioPopEvent s.dev e with
  | mk dev popped =>
      cases popped with
      | true => rfl
      | false => rfl

/-- What the handling of the events `es` leaves: the transfers of those that were
pending, in this order, and none of them pending. -/
structure Handled (es : List CubeioEvent) (s s' : CubeioSystem)
    (ts : CubeioEvent → List CubeioTransfer) : Prop where
  log_eq : s'.log = s.log ++ es.flatMap ts
  settings_eq : s'.dev.settings = s.dev.settings
  state_eq : s'.dev.state = s.dev.state
  pending_eq : ∀ e, s'.dev.pending e = (s.dev.pending e && decide (e ∉ es))
  served : ∀ e ∈ es, s.dev.pending e = true → EventTransfers plat s.dev.settings (ts e) e
  idle : ∀ e ∈ es, s.dev.pending e = false → ts e = []

theorem handleEvent_spec (e : CubeioEvent) :
    ∃ ts, Handled plat [e] s (handleEvent plat bus s e) fun _ => ts := by
  have hpending : ∀ e', (cubeioPopEvent s.dev e).1.pending e' =
      (s.dev.pending e' && decide (e' ∉ [e])) := by
    intro e'
    rw [pending_pop]
    simp only [List.mem_singleton, ne_eq]
  rw [handleEvent_eq]
  cases hpend : s.dev.pending e with
  | true =>
      obtain ⟨⟨ts, hlog, hts⟩, hsettings, hstate, hmask⟩ :=
        onEvent_spec plat bus { s with dev := (cubeioPopEvent s.dev e).1 } e
      rw [if_pos rfl]
      refine ⟨ts, ?_, hsettings.trans (settings_pop s.dev e), hstate.trans (state_pop s.dev e),
        fun e' => ?_, fun e' he' _ => ?_, fun e' he' hidle => ?_⟩
      · rw [hlog]
        simp
      · rw [Cubeio.pending, hmask]
        exact hpending e'
      · rw [List.mem_singleton.1 he', ← settings_pop s.dev e]
        exact hts
      · rw [List.mem_singleton.1 he', hpend] at hidle
        cases hidle
  | false =>
      rw [if_neg Bool.false_ne_true]
      refine ⟨[], by simp, settings_pop s.dev e, state_pop s.dev e, hpending,
        fun e' he' hserved => ?_, fun _ _ _ => rfl⟩
      rw [List.mem_singleton.1 he', hpend] at hserved
      cases hserved

/-- The event handling in any order that asks for each event once. -/
theorem foldl_handleEvent_spec {es : List CubeioEvent} (hnodup : es.Nodup) :
    ∃ ts, Handled plat es s (es.foldl (handleEvent plat bus) s) ts := by
  induction es generalizing s with
  | nil => exact ⟨fun _ => [], by simp, rfl, rfl, by simp, by simp, by simp⟩
  | cons e es ih =>
      obtain ⟨hnot, hnodup⟩ := List.nodup_cons.1 hnodup
      obtain ⟨ts₁, h₁⟩ := handleEvent_spec plat bus s e
      obtain ⟨ts₂, h₂⟩ := ih (handleEvent plat bus s e) hnodup
      have hrest : ∀ e' ∈ es, e' ≠ e := fun e' he' heq => hnot (heq ▸ he')
      have hpending : ∀ e' ∈ es, (handleEvent plat bus s e).dev.pending e' = s.dev.pending e' := by
        intro e' he'
        rw [h₁.pending_eq]
        simp [hrest e' he']
      have hupdate : es.flatMap (Function.update ts₂ e ts₁) = es.flatMap ts₂ := by
        rw [List.flatMap_def, List.flatMap_def]
        apply congrArg List.flatten
        exact List.map_congr_left fun e' he' => Function.update_of_ne (hrest e' he') ..
      refine ⟨Function.update ts₂ e ts₁, ?_, h₂.settings_eq.trans h₁.settings_eq,
        h₂.state_eq.trans h₁.state_eq, fun e' => ?_, fun e' he' hserved => ?_,
        fun e' he' hidle => ?_⟩
      · rw [List.foldl_cons, h₂.log_eq, h₁.log_eq]
        simp only [List.flatMap_cons, List.flatMap_nil, List.append_nil, Function.update_self,
          hupdate, List.append_assoc]
      · rw [List.foldl_cons, h₂.pending_eq, h₁.pending_eq, Bool.and_assoc]
        by_cases he : e' = e
        · simp [he]
        · simp [he]
      · rcases List.mem_cons.1 he' with rfl | hmem
        · rw [Function.update_self]
          exact h₁.served e' List.mem_cons_self hserved
        · rw [Function.update_of_ne (hrest e' hmem), ← h₁.settings_eq]
          exact h₂.served e' hmem ((hpending e' hmem).trans hserved)
      · rcases List.mem_cons.1 he' with rfl | hmem
        · rw [Function.update_self]
          exact h₁.idle e' List.mem_cons_self hidle
        · rw [Function.update_of_ne (hrest e' hmem)]
          exact h₂.idle e' hmem ((hpending e' hmem).trans hidle)

theorem mem_eventOrder (e : CubeioEvent) : e ∈ eventOrder := by
  cases e with
  | _ => decide

theorem handleEvents_spec : ∃ ts, Handled plat eventOrder s (handleEvents plat bus s) ts :=
  foldl_handleEvent_spec plat bus s (by decide)

end Events

/-! ## The routine transfers -/

/-- A transfer that a pass makes after the events: it reads a page other than the
configuration and the setup, or it is for the arming register or the RC protocols. -/
def RoutineTransfer (t : CubeioTransfer) : Prop :=
  t.kind = .read ∧ t.page ∈ [pageRawRcin, pageStatus, pageServos] ∨
    t.page = pageSetup ∧ t.offset ∈ [regArming, regRcProtocols]

/-- A part of the routine: it makes routine transfers and keeps the settings and the
events. -/
structure RoutineStep (s s' : CubeioSystem) : Prop where
  log_eq : ∃ ts, s'.log = s.log ++ ts ∧ ∀ t ∈ ts, RoutineTransfer t
  settings_eq : s'.dev.settings = s.dev.settings
  state_eq : s'.dev.state = s.dev.state
  eventmask_eq : s'.dev.eventmask = s.dev.eventmask

theorem RoutineStep.refl (s : CubeioSystem) : RoutineStep s s where
  log_eq := ⟨[], by simp, by simp⟩
  settings_eq := rfl
  state_eq := rfl
  eventmask_eq := rfl

theorem RoutineStep.trans {s s' s'' : CubeioSystem} (h : RoutineStep s s')
    (h' : RoutineStep s' s'') : RoutineStep s s'' where
  log_eq := by
    obtain ⟨ts, hlog, hts⟩ := h.log_eq
    obtain ⟨ts', hlog', hts'⟩ := h'.log_eq
    refine ⟨ts ++ ts', by rw [hlog', hlog, List.append_assoc], fun t ht => ?_⟩
    rcases List.mem_append.1 ht with ht | ht
    · exact hts t ht
    · exact hts' t ht
  settings_eq := h'.settings_eq.trans h.settings_eq
  state_eq := h'.state_eq.trans h.state_eq
  eventmask_eq := h'.eventmask_eq.trans h.eventmask_eq

theorem SetClearTransfers.eq_of_mem {page offset : UInt8} {setbits clearbits : UInt16}
    {ts : List CubeioTransfer} (h : SetClearTransfers page offset setbits clearbits ts)
    {t : CubeioTransfer} (ht : t ∈ ts) : t.page = page ∧ t.offset = offset := by
  rcases h with ⟨regs, rv, -, rfl⟩ | ⟨regs, rv, rfl⟩
  · rw [List.mem_singleton.1 ht]
    exact ⟨rfl, rfl⟩
  · simp only [List.mem_cons, List.not_mem_nil, or_false] at ht
    rcases ht with rfl | rfl
    · exact ⟨rfl, rfl⟩
    · exact ⟨rfl, rfl⟩

section Routine

variable (p : CubeioPass) (s : CubeioSystem)

theorem readRc_spec : RoutineStep s (readRc p s) := by
  rw [readRc]
  split
  · exact ⟨⟨_, rfl, by simp [RoutineTransfer]⟩, rfl, rfl, rfl⟩
  · exact .refl s

theorem readStatus_spec : RoutineStep s (readStatus p s) := by
  rw [readStatus]
  split
  · exact ⟨⟨_, rfl, by simp [RoutineTransfer]⟩, rfl, rfl, rfl⟩
  · exact .refl s

theorem readServos_spec : RoutineStep s (readServos p s) := by
  rw [readServos]
  split
  · exact ⟨⟨_, rfl, by simp [RoutineTransfer]⟩, rfl, rfl, rfl⟩
  · exact .refl s

theorem updateSafety_spec : RoutineStep s (updateSafety p s) := by
  rw [updateSafety]
  split
  · obtain ⟨ts, hts, hspec⟩ := cubeioSetClearReg_spec p.bus pageSetup regArming s
      (armingSafetyDisableOff &&& (armingSafetyDisableOff ||| armingSafetyDisableOn))
      (~~~armingSafetyDisableOff &&& (armingSafetyDisableOff ||| armingSafetyDisableOn))
    rw [cubeioUpdateSafetyOptions, hts]
    refine ⟨⟨ts, rfl, fun t ht => Or.inr ?_⟩, rfl, rfl, rfl⟩
    obtain ⟨hpage, hoffset⟩ := hspec.eq_of_mem ht
    rw [hpage, hoffset]
    simp
  · exact .refl s

theorem routine_spec : RoutineStep s (routine p s) := by
  have hprotocols : ∀ s, RoutineStep s
      (cubeioWriteRegs p.bus pageSetup regRcProtocols [1, 0] s).1 := fun s =>
    ⟨⟨_, rfl, by simp [RoutineTransfer]⟩, rfl, rfl, rfl⟩
  have hreads := ((readRc_spec p s).trans (readStatus_spec p (readRc p s))).trans
    (readServos_spec p (readStatus p (readRc p s)))
  have hsafety := hreads.trans (updateSafety_spec p (readServos p (readStatus p (readRc p s))))
  exact hsafety.trans
    (hprotocols (updateSafety p (readServos p (readStatus p (readRc p s)))))

end Routine

/-! ## The RESET pass -/

theorem checkVersion_kept (dev : Cubeio) : (checkVersion dev).settings = dev.settings ∧
    (checkVersion dev).eventmask = dev.eventmask := by
  simp only [checkVersion]
  split
  · split
    · exact ⟨rfl, rfl⟩
    · exact ⟨rfl, rfl⟩
  · exact ⟨rfl, rfl⟩

/-- What a pass outside OPERATION leaves: it reads the configuration and sets the arming
register at most, and keeps the settings and the events. -/
structure StartupPass (s s' : CubeioSystem) : Prop where
  log_eq : ∃ ts, s'.log = s.log ++ ts ∧
    ∀ t ∈ ts, t.page = pageConfig ∨ t.page = pageSetup ∧ t.offset = regArming
  settings_eq : s'.dev.settings = s.dev.settings
  eventmask_eq : s'.dev.eventmask = s.dev.eventmask

/-- A change of the state is not seen. -/
theorem StartupPass.setState {s s' : CubeioSystem} (h : StartupPass s s') (state : CubeioState) :
    StartupPass s { s' with dev := { s'.dev with state := state } } where
  log_eq := h.log_eq
  settings_eq := h.settings_eq
  eventmask_eq := h.eventmask_eq

theorem readVersion_startup (bus : CubeioBus) (s : CubeioSystem) :
    StartupPass s (readVersion bus s) := by
  obtain ⟨got, rv, hread⟩ := cubeioReadRegs_spec bus pageConfig 0
    { s with dev := { s.dev with state := .conf } }
    [s.dev.config.protocolVersion, s.dev.config.protocolVersion2]
  simp only [readVersion, hread]
  obtain ⟨hsettings, hmask⟩ := checkVersion_kept
    { s.dev with state := .conf, config := ⟨got.getD 0 0, got.getD 1 0⟩ }
  exact ⟨⟨_, rfl, by simp⟩, hsettings, hmask⟩

theorem fsmReset_startup (bus : CubeioBus) (s : CubeioSystem) :
    StartupPass s (fsmReset bus s) := by
  have hversion := readVersion_startup bus s
  obtain ⟨ts, hlog, hts⟩ := hversion.log_eq
  obtain ⟨ts', hset, hspec⟩ := cubeioSetClearReg_spec bus pageSetup regArming
    (readVersion bus s) armingBits 0
  have hlogged : StartupPass s ((readVersion bus s).logged ts') := by
    refine ⟨⟨ts ++ ts', ?_, fun t ht => ?_⟩, hversion.settings_eq, hversion.eventmask_eq⟩
    · rw [CubeioSystem.logged, hlog, List.append_assoc]
    · rcases List.mem_append.1 ht with ht | ht
      · exact hts t ht
      · exact Or.inr (hspec.eq_of_mem ht)
  rw [fsmReset]
  cases hresult : cubeioSetClearReg bus pageSetup regArming armingBits 0 (readVersion bus s) with
  | mk s' rv =>
      rw [hresult] at hset
      rw [show s' = _ from hset]
      simp only
      split
      · exact hlogged.setState .fail
      · exact hlogged

theorem cubeioFsm_startup (plat : CubeioPlatform) (p : CubeioPass) {s : CubeioSystem}
    (h : s.dev.state ≠ .operation) : StartupPass s (cubeioFsm plat p s) := by
  have hrefl : ∀ s' : CubeioSystem, s'.log = s.log → s'.dev.settings = s.dev.settings →
      s'.dev.eventmask = s.dev.eventmask → StartupPass s s' := fun s' hlog hsettings hmask =>
    ⟨⟨[], by simp [hlog], by simp⟩, hsettings, hmask⟩
  rw [cubeioFsm]
  cases hs : s.dev.state with
  | reset => exact fsmReset_startup p.bus s
  | conf => exact hrefl _ rfl rfl rfl
  | operation => exact absurd hs h
  | fail => exact hrefl _ rfl rfl rfl

theorem cubeioFsm_operation (plat : CubeioPlatform) (p : CubeioPass) {s : CubeioSystem}
    (h : s.dev.state = .operation) : cubeioFsm plat p s = fsmOperation plat p s := by
  rw [cubeioFsm, h]

/-! ## A pass in OPERATION -/

/-- What a pass in OPERATION leaves: the transfers `ts` of the events and routine
transfers behind them. -/
structure OperationPass (plat : CubeioPlatform) (s s' : CubeioSystem)
    (ts : CubeioEvent → List CubeioTransfer) : Prop where
  log_eq : ∃ rest, s'.log = s.log ++ eventOrder.flatMap ts ++ rest ∧ ∀ t ∈ rest, RoutineTransfer t
  settings_eq : s'.dev.settings = s.dev.settings
  state_eq : s'.dev.state = s.dev.state
  pending_eq : ∀ e, s'.dev.pending e = false
  served : ∀ e, s.dev.pending e = true → EventTransfers plat s.dev.settings (ts e) e
  idle : ∀ e, s.dev.pending e = false → ts e = []

/-- The system at the start of a pass. -/
def CubeioSystem.setNow (s : CubeioSystem) (now : UInt32) : CubeioSystem :=
  { s with dev := { s.dev with sync := { s.dev.sync with now := now } } }

/-- The transfers that a pass makes for events. -/
def eventTransfers (plat : CubeioPlatform) (p : CubeioPass) (s : CubeioSystem) :
    List CubeioTransfer :=
  (handleEvents plat p.bus (s.setNow p.now)).log.drop s.log.length

theorem fsmOperation_eq (plat : CubeioPlatform) (p : CubeioPass) (s : CubeioSystem) :
    fsmOperation plat p s = routine p (handleEvents plat p.bus (s.setNow p.now)) := rfl

theorem fsmOperation_spec (plat : CubeioPlatform) (p : CubeioPass) (s : CubeioSystem) :
    ∃ ts, OperationPass plat s (fsmOperation plat p s) ts ∧
      eventTransfers plat p s = eventOrder.flatMap ts := by
  obtain ⟨ts, hts⟩ := handleEvents_spec plat p.bus (s.setNow p.now)
  have hrest := routine_spec p (handleEvents plat p.bus (s.setNow p.now))
  have hlog : (handleEvents plat p.bus (s.setNow p.now)).log = s.log ++ eventOrder.flatMap ts :=
    hts.log_eq
  rw [fsmOperation_eq, eventTransfers, hlog, List.drop_left]
  refine ⟨ts, ⟨?_, ?_, ?_, fun e => ?_, fun e => ?_, fun e => ?_⟩, rfl⟩
  · obtain ⟨rest, hrestLog, hroutine⟩ := hrest.log_eq
    exact ⟨rest, by rw [hrestLog, hlog], hroutine⟩
  · rw [hrest.settings_eq, hts.settings_eq]
    rfl
  · rw [hrest.state_eq, hts.state_eq]
    rfl
  · rw [Cubeio.pending, hrest.eventmask_eq, ← Cubeio.pending, hts.pending_eq]
    simp [mem_eventOrder]
  · exact hts.served e (mem_eventOrder e)
  · exact hts.idle e (mem_eventOrder e)

/-- The registers that the transfers of an event are for, each with its page. -/
def CubeioEvent.registers : CubeioEvent → List (UInt8 × UInt8)
  | setPwm => [(pageDirectPwm, 0)]
  | setFailsafePwm => [(pageFailsafePwm, 0)]
  | forceSafetyOff => [(pageSetup, regForceSafetyOff)]
  | forceSafetyOn => [(pageSetup, regForceSafetyOn)]
  | enableSbusOut => [(pageSetup, regSbusRate), (pageSetup, regFeatures)]
  | setRates => [(pageSetup, regAltrate), (pageSetup, regPwmRateMask)]
  | setImuHeaterDuty => [(pageSetup, regHeaterDutyCycle)]
  | setDefaultRate => [(pageSetup, regDefaultrate)]
  | brushedOn => [(pageSetup, regFeatures)]
  | oneshotOn => [(pageSetup, regFeatures)]
  | setSafetyMask => [(pageSetup, regIgnoreSafety)]

theorem EventTransfers.register_mem {plat : CubeioPlatform} {settings : CubeioSettings}
    {ts : List CubeioTransfer} {e : CubeioEvent} (h : EventTransfers plat settings ts e)
    {t : CubeioTransfer} (ht : t ∈ ts) : (t.page, t.offset) ∈ e.registers := by
  have hset : ∀ {setbits ts}, SetClearTransfers pageSetup regFeatures setbits 0 ts → t ∈ ts →
      (t.page, t.offset) = (pageSetup, regFeatures) := by
    intro setbits ts hset ht
    obtain ⟨hpage, hoffset⟩ := hset.eq_of_mem ht
    rw [hpage, hoffset]
  cases e with
  | brushedOn => exact List.mem_singleton.2 (hset h ht)
  | oneshotOn => exact List.mem_singleton.2 (hset h ht)
  | enableSbusOut =>
      obtain ⟨rv, ts', rfl, hfeatures⟩ := h
      rcases List.mem_cons.1 ht with rfl | ht
      · exact List.mem_cons_self
      · exact List.mem_cons_of_mem _ (List.mem_singleton.2 (hset hfeatures ht))
  | setRates =>
      obtain ⟨rv, rv', rfl⟩ := h
      simp only [List.mem_cons, List.not_mem_nil, or_false] at ht
      rcases ht with rfl | rfl
      · exact List.mem_cons_self
      · exact List.mem_cons_of_mem _ List.mem_cons_self
  | _ =>
      obtain ⟨rv, rfl⟩ := h
      rw [List.mem_singleton.1 ht]
      exact List.mem_cons_self

/-- The pages that the transfers of an event are for. -/
theorem EventTransfers.page_mem {plat : CubeioPlatform} {settings : CubeioSettings}
    {ts : List CubeioTransfer} {e : CubeioEvent} (h : EventTransfers plat settings ts e)
    {t : CubeioTransfer} (ht : t ∈ ts) : t.page ∈ [pageSetup, pageDirectPwm, pageFailsafePwm] := by
  have hpages : e.registers.all
      (fun r => r.1 ∈ [pageSetup, pageDirectPwm, pageFailsafePwm]) = true := by
    cases e with
    | _ => rfl
  exact of_decide_eq_true (List.all_eq_true.1 hpages _ (h.register_mem ht))

/-- Where the transfers of a pass come from. -/
theorem OperationPass.mem_new {plat : CubeioPlatform} {s s' : CubeioSystem}
    {ts : CubeioEvent → List CubeioTransfer} (h : OperationPass plat s s' ts)
    {t : CubeioTransfer} (ht : t ∈ s'.log.drop s.log.length) :
    (∃ e, s.dev.pending e = true ∧ t ∈ ts e ∧ EventTransfers plat s.dev.settings (ts e) e) ∨
      RoutineTransfer t := by
  obtain ⟨rest, hlog, hrest⟩ := h.log_eq
  rw [hlog, List.append_assoc, List.drop_left] at ht
  rcases List.mem_append.1 ht with ht | ht
  · obtain ⟨e, -, hte⟩ := List.mem_flatMap.1 ht
    cases hpend : s.dev.pending e with
    | true => exact Or.inl ⟨e, hpend, hte, h.served e hpend⟩
    | false =>
        rw [h.idle e hpend] at hte
        cases hte
  · exact Or.inr (hrest t ht)

theorem OperationPass.mem_log {plat : CubeioPlatform} {s s' : CubeioSystem}
    {ts : CubeioEvent → List CubeioTransfer} (h : OperationPass plat s s' ts)
    {t : CubeioTransfer} (ht : t ∈ s'.log) :
    t ∈ s.log ∨ (∃ e, t ∈ ts e ∧ EventTransfers plat s.dev.settings (ts e) e) ∨
      RoutineTransfer t := by
  obtain ⟨rest, hlog, -⟩ := h.log_eq
  have hsplit : s'.log = s.log ++ s'.log.drop s.log.length := by
    rw [hlog, List.append_assoc, List.drop_left]
  rw [hsplit] at ht
  rcases List.mem_append.1 ht with ht | ht
  · exact Or.inl ht
  · exact Or.inr ((h.mem_new ht).imp_left fun ⟨e, _, hte, hev⟩ => ⟨e, hte, hev⟩)

/-- Every transfer stays in the log. -/
theorem OperationPass.subset_log {plat : CubeioPlatform} {s s' : CubeioSystem}
    {ts : CubeioEvent → List CubeioTransfer} (h : OperationPass plat s s' ts) :
    s.log ⊆ s'.log := by
  obtain ⟨rest, hlog, -⟩ := h.log_eq
  rw [hlog]
  intro t ht
  exact List.mem_append_left _ (List.mem_append_left _ ht)

end Catpilot
