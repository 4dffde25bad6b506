import Catpilot.Cubeio.Safety

/-!
# Settings and their acknowledgement

A call that sets something is done when the board has acknowledged a later write of its
value. A pass clears the event first and does not look at the result of the write, so a
setting whose write fails is forgotten. It is kept where the transfers that a pass makes
for events succeed, and no call puts another value in its place before that pass.
-/

namespace Catpilot

open Transition

/-- The record holds the value of the call. -/
def CubeioSettings.Holds (settings : CubeioSettings) : CubeioCall → Prop
  | .setPwm channels pwm =>
      settings.numChannels = (if channels < 16 then channels else 16) ∧ settings.pwm = pwm
  | .setFailsafePwm pwm => settings.failsafePwm = pwm
  | .setSafetyMask safetyMask => settings.safetyMask = safetyMask
  | .setFreq chmask freq => settings.rate.freq = freq ∧ settings.rate.chmask = widenChmask chmask
  | .setDefaultFreq freq => settings.rate.defaultFreq = freq
  | .setImuHeaterDuty duty => settings.heaterDuty = duty
  | .enableSbusOut freq => settings.rate.sbusRateHz = freq
  | .setRange .. | .setOneshotMode | .setBrushedMode | .forceSafetyOn | .forceSafetyOff => True

/-- The log has acknowledged writes that carry the value of the call, scaled by the
ranges where it is a pulse. -/
def Acknowledged (plat : CubeioPlatform) (ranges : Fin 16 → CubeioRangeCfg)
    (log : List CubeioTransfer) : CubeioCall → Prop
  | .setRange .. => False
  | .setPwm channels pwm => ⟨.write, pageDirectPwm, 0,
      (List.ofFn fun i => cubeioScaleOutput plat (pwm i) (ranges i)).take channels.toNat,
      success⟩ ∈ log
  | .setFailsafePwm pwm => ⟨.write, pageFailsafePwm, 0,
      List.ofFn fun i => cubeioScaleOutput plat pwm (ranges i), success⟩ ∈ log
  | .setSafetyMask safetyMask =>
      ⟨.write, pageSetup, regIgnoreSafety, [safetyMask], success⟩ ∈ log
  | .setFreq chmask freq => ⟨.write, pageSetup, regAltrate, [freq], success⟩ ∈ log ∧
      ⟨.write, pageSetup, regPwmRateMask, [widenChmask chmask], success⟩ ∈ log
  | .setDefaultFreq freq => ⟨.write, pageSetup, regDefaultrate, [freq], success⟩ ∈ log
  | .setOneshotMode =>
      ∃ reg, ⟨.write, pageSetup, regFeatures, [reg ||| featuresOneshot], success⟩ ∈ log
  | .setBrushedMode =>
      ∃ reg, ⟨.write, pageSetup, regFeatures, [reg ||| featuresBrushed], success⟩ ∈ log
  | .forceSafetyOn =>
      ⟨.write, pageSetup, regForceSafetyOn, [forceSafetyMagic], success⟩ ∈ log
  | .forceSafetyOff =>
      ⟨.write, pageSetup, regForceSafetyOff, [forceSafetyMagic], success⟩ ∈ log
  | .setImuHeaterDuty duty =>
      ⟨.write, pageSetup, regHeaterDutyCycle, [duty.toUInt16], success⟩ ∈ log
  | .enableSbusOut freq => ⟨.write, pageSetup, regSbusRate, [freq], success⟩ ∈ log ∧
      ∃ reg, ⟨.write, pageSetup, regFeatures, [reg ||| featuresSbus1Out], success⟩ ∈ log

/-- In the run `as` from `s`, the board acknowledges the value of the call in a pass. -/
def AcknowledgedIn (plat : CubeioPlatform) (s : CubeioSystem) (as : List CubeioAction)
    (c : CubeioCall) : Prop :=
  ∃ before p after u, as = before ++ .pass p :: after ∧
    run (cubeioStep plat) s before = some u ∧
    Acknowledged plat u.dev.pwmRangeCfg ((cubeioFsm plat p u).log.drop u.log.length) c

/-- The setting of the call is not lost: after the call at `s` and the run `as` behind it
its event is pending, or the board has acknowledged its value. -/
def NotLost (plat : CubeioPlatform) (s : CubeioSystem) (c : CubeioCall)
    (as : List CubeioAction) : Prop :=
  ∀ e ∈ c.event, ∀ s', run (cubeioStep plat) s (.call c :: as) = some s' →
    s'.dev.pending e = true ∨
      AcknowledgedIn plat { s with dev := cubeioCall plat s.dev c } as c

/-- A step that does not lose the setting of a pending event: a call of the same setter
carries the same value, `cubeio_set_range` does not write over the first demand, and in a
pass in OPERATION the transfers for events succeed. -/
def KeepsSetting (plat : CubeioPlatform) (e : CubeioEvent) (s : CubeioSystem) :
    CubeioAction → Prop
  | .call (.setRange type channel _ _ _) => s.dev.pending e = true → e = .setPwm →
      ¬ (type = cubeioPwm ∧ channel.toNat = cubeioMaxChannels)
  | .call c => s.dev.pending e = true → c.event = some e → s.dev.settings.Holds c
  | .pass p => s.dev.pending e = true → s.dev.state = .operation →
      ∀ t ∈ eventTransfers plat p s, t.rv = success

/-! ## Calls -/

section Calls

variable {plat : CubeioPlatform} {dev : Cubeio} {c c' : CubeioCall}

/-- A call that sets something leaves its value in the record. -/
theorem holds_call (h : c.Pushes dev) : (cubeioCall plat dev c).settings.Holds c := by
  cases c with
  | setPwm channels pwm =>
      rw [cubeioCall, cubeioSetPwm, if_neg h]
      exact ⟨rfl, rfl⟩
  | setDefaultFreq freq =>
      have hne : dev.rate.defaultFreq ≠ freq := h
      rw [cubeioCall, cubeioSetDefaultFreq, if_pos hne]
      exact rfl
  | setFreq chmask freq => exact ⟨rfl, rfl⟩
  | setFailsafePwm pwm => exact rfl
  | setSafetyMask safetyMask => exact rfl
  | setImuHeaterDuty duty => exact rfl
  | enableSbusOut freq => exact rfl
  | _ => trivial

/-- Two calls of one setter that a record holds both carry the value of the record. -/
theorem CubeioSettings.Holds.of_event {settings settings' : CubeioSettings}
    (hevent : c'.event = c.event) (h : settings.Holds c) (h' : settings.Holds c')
    (hholds : settings'.Holds c') : settings'.Holds c := by
  cases c with
  | setPwm channels pwm =>
      cases c' with
      | setPwm channels' pwm' =>
          exact ⟨hholds.1.trans (h'.1.symm.trans h.1), hholds.2.trans (h'.2.symm.trans h.2)⟩
      | _ => cases hevent
  | setFreq chmask freq =>
      cases c' with
      | setFreq chmask' freq' =>
          exact ⟨hholds.1.trans (h'.1.symm.trans h.1), hholds.2.trans (h'.2.symm.trans h.2)⟩
      | _ => cases hevent
  | setFailsafePwm pwm =>
      cases c' with
      | setFailsafePwm pwm' => exact hholds.trans (h'.symm.trans h)
      | _ => cases hevent
  | setSafetyMask safetyMask =>
      cases c' with
      | setSafetyMask safetyMask' => exact hholds.trans (h'.symm.trans h)
      | _ => cases hevent
  | setDefaultFreq freq =>
      cases c' with
      | setDefaultFreq freq' => exact hholds.trans (h'.symm.trans h)
      | _ => cases hevent
  | setImuHeaterDuty duty =>
      cases c' with
      | setImuHeaterDuty duty' => exact hholds.trans (h'.symm.trans h)
      | _ => cases hevent
  | enableSbusOut freq =>
      cases c' with
      | enableSbusOut freq' => exact hholds.trans (h'.symm.trans h)
      | _ => cases hevent
  | _ => trivial

/-- A call does not touch the settings of the other setters. -/
theorem holds_call_of_ne (hne : c'.event ≠ c.event) (hevent : c'.event ≠ none)
    (h : dev.settings.Holds c) : (cubeioCall plat dev c').settings.Holds c := by
  by_cases hpush : c'.Pushes dev
  · cases c' with
    | setRange type channel channelType min max => exact absurd rfl hevent
    | setPwm channels pwm =>
        rw [cubeioCall, cubeioSetPwm, if_neg hpush]
        cases c with
        | setPwm channels' pwm' => exact absurd rfl hne
        | _ => exact h
    | setDefaultFreq freq =>
        have hfreq : dev.rate.defaultFreq ≠ freq := hpush
        rw [cubeioCall, cubeioSetDefaultFreq, if_pos hfreq]
        cases c with
        | setDefaultFreq freq' => exact absurd rfl hne
        | _ => exact h
    | _ =>
        cases c with
        | _ => first | exact h | exact absurd rfl hne
  · rw [cubeioCall_of_not_pushes hpush]
    exact h

/-- `cubeio_set_range` changes no other setting than the ranges, the first demand apart. -/
theorem holds_setRange {type : ℤ} {channel : UInt8} {channelType min max : UInt16}
    (hinside : c.event = some .setPwm → ¬ (type = cubeioPwm ∧ channel.toNat = cubeioMaxChannels))
    (h : dev.settings.Holds c) :
    (cubeioSetRange plat dev type channel channelType min max).settings.Holds c := by
  have hkept : ∀ dev' : Cubeio, dev'.pwmOut = dev.pwmOut → dev'.rate = dev.rate →
      (c.event = some .setPwm → dev'.pwm = dev.pwm) → dev'.failsafePwm = dev.failsafePwm →
        dev'.settings.Holds c := by
    intro dev' hout hrate hpwm hfailsafe
    cases c with
    | _ => simp_all [CubeioSettings.Holds, Cubeio.settings, CubeioCall.event]
  rw [cubeioSetRange]
  split_ifs with hrc hlow hend hpwm hlow hend
  · exact hkept _ rfl rfl (fun _ => rfl) rfl
  · exact hkept _ rfl rfl (fun _ => rfl) rfl
  · exact h
  · exact hkept _ rfl rfl (fun _ => rfl) rfl
  · exact hkept _ rfl rfl (fun he => absurd ⟨hpwm, hend⟩ (hinside he)) rfl
  · exact h
  · exact h

/-- A call keeps the value of a pending event. -/
theorem KeepsSetting.holds_of_pending {s : CubeioSystem} {e : CubeioEvent}
    (hevent : c.event = some e)
    (hpending : s.dev.pending e = true) (h : s.dev.settings.Holds c)
    (hok : KeepsSetting plat e s (.call c')) :
    (cubeioCall plat s.dev c').settings.Holds c := by
  cases hc' : c'.event with
  | none =>
      cases c' with
      | setRange type channel channelType min max =>
          refine holds_setRange (fun he => ?_) h
          exact hok hpending (Option.some.inj (hevent.symm.trans he))
      | _ => cases hc'
  | some e' =>
      by_cases hsame : e' = e
      · have hsame' : c'.event = some e := hc'.trans (congrArg some hsame)
        have hholds : s.dev.settings.Holds c' := by
          cases c' with
          | setRange type channel channelType min max => trivial
          | _ => exact hok hpending hsame'
        by_cases hpush : c'.Pushes s.dev
        · exact h.of_event (hsame'.trans hevent.symm) hholds (holds_call hpush)
        · rw [cubeioCall_of_not_pushes hpush]
          exact h
      · refine holds_call_of_ne ?_ ?_ h
        · rw [hc', hevent, ne_eq, Option.some.injEq]
          exact hsame
        · rw [hc']
          exact Option.some_ne_none e'

end Calls

/-! ## Passes -/

section Passes

variable {plat : CubeioPlatform}

/-- A read-modify-write whose transfers succeed has written. -/
theorem SetClearTransfers.exists_write {page offset : UInt8} {setbits clearbits : UInt16}
    {ts : List CubeioTransfer} (h : SetClearTransfers page offset setbits clearbits ts)
    (hsucc : ∀ t ∈ ts, t.rv = success) :
    ∃ reg, ⟨.write, page, offset, [reg ||| setbits], success⟩ ∈ ts := by
  rcases h with ⟨regs, rv, hrv, rfl⟩ | ⟨regs, rv, rfl⟩
  · exact absurd (hsucc _ List.mem_cons_self) hrv
  · have hwrite := hsucc _ (List.mem_cons_of_mem _ List.mem_cons_self)
    refine ⟨regs.headD 0 &&& ~~~clearbits, ?_⟩
    rw [← show rv = success from hwrite]
    exact List.mem_cons_of_mem _ List.mem_cons_self

/-- Where the transfers of an event succeed, the board has acknowledged the value that the
record holds. -/
theorem EventTransfers.acknowledged {settings : CubeioSettings} {ts : List CubeioTransfer}
    {e : CubeioEvent} (h : EventTransfers plat settings ts e) (hsucc : ∀ t ∈ ts, t.rv = success)
    {c : CubeioCall} (hevent : c.event = some e) (hholds : settings.Holds c) :
    Acknowledged plat settings.pwmRangeCfg ts c := by
  have hwrite : ∀ {page offset : UInt8} {regs regs' : List UInt16} {rv : ℤ},
      ⟨.write, page, offset, regs, rv⟩ ∈ ts → regs = regs' →
        ⟨.write, page, offset, regs', success⟩ ∈ ts := by
    intro page offset regs regs' rv hmem hregs
    rw [← hregs, ← show rv = success from hsucc _ hmem]
    exact hmem
  cases c with
  | setRange type channel channelType min max => cases hevent
  | setPwm channels pwm =>
      cases hevent
      obtain ⟨rv, rfl⟩ := h
      refine hwrite List.mem_cons_self ?_
      rw [hholds.1, hholds.2]
      split_ifs with hlt
      · rfl
      · rw [List.take_of_length_le (by simp), List.take_of_length_le]
        rw [List.length_ofFn]
        exact UInt8.not_lt.1 hlt
  | setFailsafePwm pwm =>
      cases hevent
      obtain ⟨rv, rfl⟩ := h
      exact hwrite List.mem_cons_self (by rw [show settings.failsafePwm = pwm from hholds])
  | setSafetyMask safetyMask =>
      cases hevent
      obtain ⟨rv, rfl⟩ := h
      exact hwrite List.mem_cons_self (congrArg (fun reg => [reg]) hholds)
  | setFreq chmask freq =>
      cases hevent
      obtain ⟨rv, rv', rfl⟩ := h
      exact ⟨hwrite List.mem_cons_self (congrArg (fun reg => [reg]) hholds.1),
        hwrite (List.mem_cons_of_mem _ List.mem_cons_self)
          (congrArg (fun reg => [reg]) hholds.2)⟩
  | setDefaultFreq freq =>
      cases hevent
      obtain ⟨rv, rfl⟩ := h
      exact hwrite List.mem_cons_self (congrArg (fun reg => [reg]) hholds)
  | setOneshotMode =>
      cases hevent
      exact SetClearTransfers.exists_write h hsucc
  | setBrushedMode =>
      cases hevent
      exact SetClearTransfers.exists_write h hsucc
  | forceSafetyOn =>
      cases hevent
      obtain ⟨rv, rfl⟩ := h
      exact hwrite List.mem_cons_self rfl
  | forceSafetyOff =>
      cases hevent
      obtain ⟨rv, rfl⟩ := h
      exact hwrite List.mem_cons_self rfl
  | setImuHeaterDuty duty =>
      cases hevent
      obtain ⟨rv, rfl⟩ := h
      exact hwrite List.mem_cons_self
        (congrArg (fun reg : UInt8 => [reg.toUInt16]) hholds)
  | enableSbusOut freq =>
      cases hevent
      obtain ⟨rv, ts', rfl, hset⟩ := h
      obtain ⟨reg, hreg⟩ := hset.exists_write fun t ht => hsucc t (List.mem_cons_of_mem _ ht)
      exact ⟨hwrite List.mem_cons_self (congrArg (fun reg => [reg]) hholds),
        reg, List.mem_cons_of_mem _ hreg⟩

/-- An acknowledged value stays so in a longer log. -/
theorem Acknowledged.mono {ranges : Fin 16 → CubeioRangeCfg} {log log' : List CubeioTransfer}
    (hsub : log ⊆ log') {c : CubeioCall} (h : Acknowledged plat ranges log c) :
    Acknowledged plat ranges log' c := by
  cases c with
  | setRange type channel channelType min max => exact h
  | setFreq chmask freq => exact ⟨hsub h.1, hsub h.2⟩
  | enableSbusOut freq => exact ⟨hsub h.1, h.2.imp fun reg hreg => hsub hreg⟩
  | setOneshotMode => exact Exists.imp (fun reg hreg => hsub hreg) h
  | setBrushedMode => exact Exists.imp (fun reg hreg => hsub hreg) h
  | _ => exact hsub h

/-- The pass in OPERATION that serves the event of a setting. -/
theorem acknowledged_pass {s : CubeioSystem} {p : CubeioPass} {c : CubeioCall} {e : CubeioEvent}
    (hevent : c.event = some e) (hpending : s.dev.pending e = true)
    (hholds : s.dev.settings.Holds c) (hop : s.dev.state = .operation)
    (hok : KeepsSetting plat e s (.pass p)) :
    Acknowledged plat s.dev.pwmRangeCfg ((cubeioFsm plat p s).log.drop s.log.length) c := by
  obtain ⟨ts, hpass, htransfers⟩ := fsmOperation_spec plat p s
  obtain ⟨rest, hlog, -⟩ := hpass.log_eq
  have hsub : ts e ⊆ eventOrder.flatMap ts := fun t ht =>
    List.mem_flatMap.2 ⟨e, mem_eventOrder e, ht⟩
  have hsucc : ∀ t ∈ ts e, t.rv = success := by
    intro t ht
    apply hok hpending hop t
    rw [htransfers]
    exact hsub ht
  have hack := (hpass.served e hpending).acknowledged hsucc hevent hholds
  rw [cubeioFsm_operation plat p hop, hlog, List.append_assoc, List.drop_left]
  exact hack.mono (List.Subset.trans hsub (List.subset_append_left ..))

end Passes

/-! ## Runs -/

section Runs

variable {plat : CubeioPlatform} {s s' : CubeioSystem} {c : CubeioCall} {e : CubeioEvent}

theorem AcknowledgedIn.cons {a : CubeioAction} {as : List CubeioAction} {t : CubeioSystem}
    (ha : cubeioStep plat s a = some t) (h : AcknowledgedIn plat t as c) :
    AcknowledgedIn plat s (a :: as) c := by
  obtain ⟨before, p, after, u, rfl, hu, hack⟩ := h
  exact ⟨a :: before, p, after, u, rfl, run_cons_eq_some.2 ⟨t, ha, hu⟩, hack⟩

/-- A setting that is still to be written is acknowledged in the run, or still to be
written behind it. -/
theorem pending_or_acknowledgedIn (hevent : c.event = some e) {as : List CubeioAction}
    (hok : Along (KeepsSetting plat e) (cubeioStep plat) s as)
    (hpending : s.dev.pending e = true) (hholds : s.dev.settings.Holds c)
    (hrun : run (cubeioStep plat) s as = some s') :
    s'.dev.pending e = true ∨ AcknowledgedIn plat s as c := by
  induction as generalizing s with
  | nil =>
      cases hrun
      exact Or.inl hpending
  | cons a as ih =>
      obtain ⟨t, ht, hrest⟩ := run_cons_eq_some.1 hrun
      have hok' := hok.2 t ht
      cases a with
      | call c' =>
          have hholds' : t.dev.settings.Holds c := by
            cases ht
            exact KeepsSetting.holds_of_pending hevent hpending hholds hok.1
          have hpending' : t.dev.pending e = true := by
            cases ht
            rw [pending_call, hpending, Bool.true_or]
          exact (ih hok' hpending' hholds' hrest).imp id (AcknowledgedIn.cons ht)
      | pass p =>
          by_cases hop : s.dev.state = .operation
          · exact Or.inr ⟨[], p, as, s, rfl, rfl,
              acknowledged_pass hevent hpending hholds hop hok.1⟩
          · have hkept := cubeioFsm_startup plat p hop
            have hpending' : t.dev.pending e = true := by
              cases ht
              rw [Cubeio.pending, hkept.eventmask_eq]
              exact hpending
            have hholds' : t.dev.settings.Holds c := by
              cases ht
              rw [hkept.settings_eq]
              exact hholds
            exact (ih hok' hpending' hholds' hrest).imp id (AcknowledgedIn.cons ht)

/-- The setting of a call is not lost where the call pushes its event or finds it pending,
and no step loses the setting. -/
theorem notLost_of_keepsSetting {as : List CubeioAction}
    (hpush : c.Pushes s.dev ∨ ∀ e ∈ c.event, s.dev.pending e = true)
    (hok : ∀ e ∈ c.event, Along (KeepsSetting plat e) (cubeioStep plat) s (.call c :: as)) :
    NotLost plat s c as := by
  intro e he s' hrun
  obtain ⟨t, ht, hrest⟩ := run_cons_eq_some.1 hrun
  have hstep := hok e he
  cases ht
  have hkept : (cubeioCall plat s.dev c).pending e = true ∧
      (cubeioCall plat s.dev c).settings.Holds c := by
    rw [pending_call]
    by_cases h : c.Pushes s.dev
    · exact ⟨by simp [h, Option.mem_def.1 he], holds_call h⟩
    · have hpending := hpush.resolve_left h e he
      refine ⟨by rw [hpending, Bool.true_or], ?_⟩
      rw [cubeioCall_of_not_pushes h]
      cases c with
      | setRange type channel channelType min max => trivial
      | _ => exact hstep.1 hpending he
  exact pending_or_acknowledgedIn he (hstep.2 _ rfl) hkept.1 hkept.2 hrest

end Runs

/-- A pass to which the board does not answer. -/
def silentPass : CubeioPass :=
  ⟨fun n i => { versionBus 4 10 n i with rv := resultEinval }, 0, 0, 0, 0, 0⟩

theorem notLost_setSafetyMask :
    ∃ s, run (cubeioStep plainPlatform) cubeioInit startRun = some s ∧
      NotLost plainPlatform s (.setSafetyMask 3) [.pass (versionPass 4 10)] := by
  have hstart : (run (cubeioStep plainPlatform) cubeioInit startRun).map (fun s =>
      let s' : CubeioSystem :=
        { s with dev := cubeioCall plainPlatform s.dev (.setSafetyMask 3) }
      decide (∀ t ∈ eventTransfers plainPlatform (versionPass 4 10) s', t.rv = success) &&
        !s.dev.pending .setSafetyMask) = some true := by
    decide +kernel
  obtain ⟨s, hrun, hsucc⟩ := Option.map_eq_some_iff.1 hstart
  rw [Bool.and_eq_true, decide_eq_true_iff, Bool.not_eq_true'] at hsucc
  refine ⟨s, hrun, notLost_of_keepsSetting (Or.inl trivial) fun e he => ?_⟩
  cases he
  refine ⟨fun hpending => ?_, fun t ht => ⟨fun _ _ => ?_, fun _ _ => trivial⟩⟩
  · rw [hsucc.2] at hpending
    cases hpending
  · cases ht
    exact hsucc.1

/-- A safety mask whose write fails three times is lost. -/
theorem setSafetyMask_lost :
    ¬ ∀ (plat : CubeioPlatform) (as : List CubeioAction) (s : CubeioSystem) (c : CubeioCall)
      (bs : List CubeioAction), run (cubeioStep plat) cubeioInit as = some s →
        NotLost plat s c bs := by
  intro h
  have hlost : (run (cubeioStep plainPlatform) cubeioInit startRun).map (fun s =>
      let t : CubeioSystem :=
        { s with dev := cubeioCall plainPlatform s.dev (.setSafetyMask 3) }
      let u := cubeioFsm plainPlatform silentPass t
      u.dev.pending .setSafetyMask || decide (⟨.write, pageSetup, regIgnoreSafety, [3], success⟩ ∈
        u.log.drop t.log.length)) = some false := by
    decide +kernel
  obtain ⟨s, hrun, hs⟩ := Option.map_eq_some_iff.1 hlost
  rw [Bool.or_eq_false_iff, decide_eq_false_iff_not] at hs
  rcases h plainPlatform startRun s (.setSafetyMask 3) [.pass silentPass] hrun _ rfl _ rfl with
    hpending | ⟨before, p, after, u, hsplit, hu, hack⟩
  · exact absurd (hs.1.symm.trans hpending) Bool.false_ne_true
  · cases before with
    | nil =>
        cases hsplit
        cases hu
        exact hs.2 hack
    | cons a before =>
        rw [List.cons_append, List.cons.injEq] at hsplit
        exact absurd hsplit.2 (by simp)

end Catpilot
