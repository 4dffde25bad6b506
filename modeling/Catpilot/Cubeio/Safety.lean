import Catpilot.Cubeio.Gate

/-!
# Safety commands and their order

A request to switch the safety on or off sets a bit of the event mask, which forgets the
order of the requests; a pass writes the command for off before the one for on. So the
last command on the board is the one of the latest request exactly when no request for
off is the latest one while one for on is pending.
-/

namespace Catpilot

open Transition

/-- The two safety requests, and the commands for them. -/
inductive Safety where
  | on
  | off
  deriving DecidableEq, Repr

/-- The event of a request. -/
def Safety.event : Safety → CubeioEvent
  | on => .forceSafetyOn
  | off => .forceSafetyOff

theorem Safety.ne_event {e : CubeioEvent} (h : e ∉ [.forceSafetyOn, .forceSafetyOff]) (r : Safety) :
    e ≠ r.event := by
  rintro rfl
  cases r with
  | on => exact h List.mem_cons_self
  | off => exact h (List.mem_cons_of_mem _ List.mem_cons_self)

/-- The request that a call makes. -/
def CubeioCall.safety : CubeioCall → Option Safety
  | .forceSafetyOn => some .on
  | .forceSafetyOff => some .off
  | _ => none

/-- The safety command of a successful transfer. -/
def safetyCommand (t : CubeioTransfer) : Option Safety :=
  if t.kind = .write ∧ t.page = pageSetup ∧ t.regs = [forceSafetyMagic] ∧ t.rv = success then
    if t.offset = regForceSafetyOff then some .off
    else if t.offset = regForceSafetyOn then some .on
    else none
  else none

/-- The last safety command that the board has got. -/
def lastCommand (log : List CubeioTransfer) : Option Safety :=
  (log.filterMap safetyCommand).getLast?

/-- A run, with the requests since the last pass in OPERATION and the latest of all
requests. -/
structure SafetyRun where
  sys : CubeioSystem
  gap : List Safety
  latest : Option Safety

/-- A run at its start. -/
def safetyInit : SafetyRun := ⟨cubeioInit, [], none⟩

/-- A step of the run. -/
def safetyStep (plat : CubeioPlatform) (g : SafetyRun) : CubeioAction → Option SafetyRun
  | .call c => some ⟨{ g.sys with dev := cubeioCall plat g.sys.dev c }, g.gap ++ c.safety.toList,
      c.safety.or g.latest⟩
  | .pass p => some ⟨cubeioFsm plat p g.sys,
      if g.sys.dev.state = .operation then [] else g.gap, g.latest⟩

/-- Every transfer of a pass succeeds. -/
def TransfersSucceed (plat : CubeioPlatform) (g : SafetyRun) : CubeioAction → Prop
  | .call _ => True
  | .pass p => ∀ t ∈ (cubeioFsm plat p g.sys).log.drop g.sys.log.length, t.rv = success

/-- After a pass in OPERATION the last safety command on the board is the one of the
latest request. -/
def LatestObeyed (plat : CubeioPlatform) (g : SafetyRun) : CubeioAction → Prop
  | .call _ => True
  | .pass p => g.sys.dev.state = .operation →
      ∀ r, g.latest = some r → lastCommand (cubeioFsm plat p g.sys).log = some r

/-- Where a request for on has come since the last pass in OPERATION, the latest request
is one for on. -/
def OnNotRevoked (g : SafetyRun) : CubeioAction → Prop
  | .call _ => True
  | .pass _ => g.sys.dev.state = .operation → .on ∈ g.gap → g.gap.getLast? = some .on

section Decidable

variable (plat : CubeioPlatform) (g : SafetyRun)

instance : (a : CubeioAction) → Decidable (TransfersSucceed plat g a)
  | .call _ => inferInstanceAs (Decidable True)
  | .pass p => inferInstanceAs
      (Decidable (∀ t ∈ (cubeioFsm plat p g.sys).log.drop g.sys.log.length, t.rv = success))

instance : (a : CubeioAction) → Decidable (LatestObeyed plat g a)
  | .call _ => inferInstanceAs (Decidable True)
  | .pass p => inferInstanceAs (Decidable (g.sys.dev.state = .operation →
      ∀ r ∈ g.latest, lastCommand (cubeioFsm plat p g.sys).log = some r))

instance : (a : CubeioAction) → Decidable (OnNotRevoked g a)
  | .call _ => inferInstanceAs (Decidable True)
  | .pass _ => inferInstanceAs (Decidable
      (g.sys.dev.state = .operation → .on ∈ g.gap → g.gap.getLast? = some .on))

end Decidable

/-! ## The commands of a pass -/

/-- A transfer for another register is no command. -/
theorem safetyCommand_eq_none {t : CubeioTransfer}
    (h : t.page = pageSetup → t.offset ∉ [regForceSafetyOff, regForceSafetyOn]) :
    safetyCommand t = none := by
  rw [safetyCommand]
  split
  · next hwrite =>
      have hnot := h hwrite.2.1
      simp only [List.mem_cons, List.not_mem_nil, or_false, not_or] at hnot
      rw [if_neg hnot.1, if_neg hnot.2]
  · rfl

theorem commands_eq_nil {ts : List CubeioTransfer} (h : ∀ t ∈ ts, t.page = pageSetup →
    t.offset ∉ [regForceSafetyOff, regForceSafetyOn]) : ts.filterMap safetyCommand = [] := by
  rw [List.filterMap_eq_nil_iff]
  exact fun t ht => safetyCommand_eq_none (h t ht)

theorem RoutineTransfer.not_safety {t : CubeioTransfer} (h : RoutineTransfer t)
    (hpage : t.page = pageSetup) : t.offset ∉ [regForceSafetyOff, regForceSafetyOn] := by
  rcases h with ⟨-, hmem⟩ | ⟨-, hmem⟩
  · rw [hpage] at hmem
    exact absurd hmem (by decide)
  · simp only [List.mem_cons, List.not_mem_nil, or_false] at hmem
    rcases hmem with hoffset | hoffset
    · rw [hoffset]
      decide
    · rw [hoffset]
      decide

/-- The commands are written for the safety events only. -/
theorem EventTransfers.not_safety {plat : CubeioPlatform} {settings : CubeioSettings}
    {ts : List CubeioTransfer} {e : CubeioEvent} (h : EventTransfers plat settings ts e)
    (he : ∀ r : Safety, e ≠ r.event) {t : CubeioTransfer} (ht : t ∈ ts)
    (hpage : t.page = pageSetup) : t.offset ∉ [regForceSafetyOff, regForceSafetyOn] := by
  have hregisters : e.registers.all
      (fun r => r.1 = pageSetup → r.2 ∉ [regForceSafetyOff, regForceSafetyOn]) = true := by
    cases e with
    | forceSafetyOff => exact absurd rfl (he .off)
    | forceSafetyOn => exact absurd rfl (he .on)
    | _ => rfl
  exact of_decide_eq_true (List.all_eq_true.1 hregisters _ (h.register_mem ht)) hpage

section Pass

variable {plat : CubeioPlatform} {s s' : CubeioSystem} {ts : CubeioEvent → List CubeioTransfer}

/-- The command of a pending request, where its transfer succeeds. -/
theorem OperationPass.commands_event (h : OperationPass plat s s' ts) (r : Safety)
    (hsucc : ∀ t ∈ ts r.event, t.rv = success) :
    (ts r.event).filterMap safetyCommand = if s.dev.pending r.event then [r] else [] := by
  cases hpend : s.dev.pending r.event with
  | false =>
      rw [h.idle _ hpend]
      rfl
  | true =>
      have hserved := h.served _ hpend
      cases r with
      | on =>
          obtain ⟨rv, hts⟩ := hserved
          rw [hts] at hsucc ⊢
          have hrv : rv = success := hsucc _ List.mem_cons_self
          rw [hrv]
          rfl
      | off =>
          obtain ⟨rv, hts⟩ := hserved
          rw [hts] at hsucc ⊢
          have hrv : rv = success := hsucc _ List.mem_cons_self
          rw [hrv]
          rfl

/-- The commands of the other events. -/
theorem OperationPass.commands_other (h : OperationPass plat s s' ts) {e : CubeioEvent}
    (he : ∀ r : Safety, e ≠ r.event) : (ts e).filterMap safetyCommand = [] := by
  cases hpend : s.dev.pending e with
  | false =>
      rw [h.idle e hpend]
      rfl
  | true => exact commands_eq_nil fun t ht => (h.served e hpend).not_safety he ht

/-- The commands on the board after a pass in OPERATION: one for off and then one for on. -/
theorem OperationPass.commands (h : OperationPass plat s s' ts)
    (hsucc : ∀ t ∈ s'.log.drop s.log.length, t.rv = success) :
    s'.log.filterMap safetyCommand = s.log.filterMap safetyCommand ++
      ((if s.dev.pending .forceSafetyOff then [Safety.off] else []) ++
        if s.dev.pending .forceSafetyOn then [Safety.on] else []) := by
  obtain ⟨rest, hlog, hrest⟩ := h.log_eq
  rw [hlog, List.append_assoc, List.drop_left] at hsucc
  have hevent : ∀ r : Safety, ∀ t ∈ ts r.event, t.rv = success := fun r t ht =>
    hsucc t (List.mem_append_left _ (List.mem_flatMap.2 ⟨r.event, mem_eventOrder _, ht⟩))
  have hon := h.commands_event .on (hevent .on)
  have hoff := h.commands_event .off (hevent .off)
  have hnil : rest.filterMap safetyCommand = [] :=
    commands_eq_nil fun t ht => (hrest t ht).not_safety
  have hother : ∀ e, e ∉ [.forceSafetyOn, .forceSafetyOff] →
      (ts e).filterMap safetyCommand = [] := fun e he => h.commands_other (Safety.ne_event he)
  simp only [Safety.event] at hon hoff
  rw [hlog, List.filterMap_append, List.filterMap_append, hnil, List.append_nil]
  simp (disch := decide) only [eventOrder, List.flatMap_cons, List.flatMap_nil,
    List.filterMap_append, hon, hoff, hother, List.nil_append,
    List.append_nil]
  rfl

/-- A pass outside OPERATION writes no command. -/
theorem StartupPass.commands (h : StartupPass s s') :
    s'.log.filterMap safetyCommand = s.log.filterMap safetyCommand := by
  obtain ⟨ts, hlog, hts⟩ := h.log_eq
  have hnil : ts.filterMap safetyCommand = [] := commands_eq_nil fun t ht hpage => by
    rcases hts t ht with hconfig | ⟨-, hoffset⟩
    · rw [hconfig] at hpage
      cases hpage
    · rw [hoffset]
      decide
  rw [hlog, List.filterMap_append, hnil, List.append_nil]

end Pass

/-! ## Runs -/

/-- What is true between the steps: the pending events are those of the requests since
the last pass, and where there are none, the last command is the one of the latest
request. -/
structure SafetyInv (g : SafetyRun) : Prop where
  pending : ∀ r : Safety, g.sys.dev.pending r.event = decide (r ∈ g.gap)
  latest : g.gap ≠ [] → g.latest = g.gap.getLast?
  obeyed : g.gap = [] → ∀ r, g.latest = some r → lastCommand g.sys.log = some r

theorem safetyInv_init : SafetyInv safetyInit where
  pending := fun r => EventMask.isSet_zero r.event.num
  latest := fun h => absurd rfl h
  obeyed := fun _ _ h => nomatch h

/-- The calls that push a safety event are the requests. -/
theorem CubeioCall.event_eq_safety (dev : Cubeio) (c : CubeioCall) (r : Safety) :
    c.event = some r.event ∧ c.Pushes dev ↔ c.safety = some r := by
  cases c with
  | _ =>
      cases r with
      | _ => simp [CubeioCall.event, CubeioCall.safety, CubeioCall.Pushes, Safety.event]

section Runs

variable {plat : CubeioPlatform} {g g' : SafetyRun}

theorem SafetyInv.call (h : SafetyInv g) (c : CubeioCall) :
    SafetyInv ⟨{ g.sys with dev := cubeioCall plat g.sys.dev c }, g.gap ++ c.safety.toList,
      c.safety.or g.latest⟩ where
  pending := by
    intro r
    rw [pending_call, h.pending, ← Bool.decide_or]
    simp only [CubeioCall.event_eq_safety, List.mem_append, Option.mem_toList]
  latest := by
    intro hne
    cases hc : c.safety with
    | some r => simp
    | none =>
        rw [hc, Option.toList_none, List.append_nil] at hne
        rw [Option.toList_none, List.append_nil, Option.none_or]
        exact h.latest hne
  obeyed := by
    intro hnil r hr
    obtain ⟨hgap, hnone⟩ := List.append_eq_nil_iff.1 hnil
    rw [Option.toList_eq_nil_iff] at hnone
    rw [hnone, Option.none_or] at hr
    exact h.obeyed hgap r hr

/-- What a pass in OPERATION leaves as the last command, for the latest request. -/
theorem SafetyInv.lastCommand_eq (h : SafetyInv g) {p : CubeioPass}
    (hsucc : TransfersSucceed plat g (.pass p)) (hop : g.sys.dev.state = .operation) (r : Safety)
    (hr : g.latest = some r) :
    lastCommand (cubeioFsm plat p g.sys).log = some r ↔
      (.on ∈ g.gap → g.gap.getLast? = some .on) := by
  have hsucc' : ∀ t ∈ (cubeioFsm plat p g.sys).log.drop g.sys.log.length, t.rv = success := hsucc
  rw [cubeioFsm_operation plat p hop] at hsucc' ⊢
  obtain ⟨ts, hpass, -⟩ := fsmOperation_spec plat p g.sys
  have hon : g.sys.dev.pending .forceSafetyOn = decide (.on ∈ g.gap) := h.pending .on
  have hoff : g.sys.dev.pending .forceSafetyOff = decide (.off ∈ g.gap) := h.pending .off
  rw [lastCommand, hpass.commands hsucc', hon, hoff]
  by_cases hgap : g.gap = []
  · simpa [hgap, lastCommand] using h.obeyed hgap r hr
  · have hlast : g.gap.getLast? = some r := (h.latest hgap).symm.trans hr
    by_cases hmem : Safety.on ∈ g.gap
    · simp [hmem, hlast, eq_comm]
    · have hoffMem : Safety.off ∈ g.gap := by
        cases r with
        | on => exact absurd (List.mem_of_getLast? hlast) hmem
        | off => exact List.mem_of_getLast? hlast
      have hr' : r = .off := by
        cases r with
        | on => exact absurd (List.mem_of_getLast? hlast) hmem
        | off => rfl
      simp [hmem, hoffMem, hr']

theorem SafetyInv.step (h : SafetyInv g) {a : CubeioAction} (hsucc : TransfersSucceed plat g a)
    (hok : OnNotRevoked g a) (hstep : safetyStep plat g a = some g') : SafetyInv g' := by
  cases a with
  | call c =>
      cases hstep
      exact h.call c
  | pass p =>
      cases hstep
      by_cases hop : g.sys.dev.state = .operation
      · simp only [if_pos hop]
        refine ⟨fun r => ?_, fun hne => absurd rfl hne, fun _ r hr => ?_⟩
        · obtain ⟨ts, hpass, -⟩ := fsmOperation_spec plat p g.sys
          rw [cubeioFsm_operation plat p hop]
          simpa using hpass.pending_eq r.event
        · exact (h.lastCommand_eq hsucc hop r hr).2 (hok hop)
      · have hpass := cubeioFsm_startup plat p hop
        simp only [if_neg hop]
        refine ⟨fun r => ?_, h.latest, fun hgap r hr => ?_⟩
        · rw [Cubeio.pending, hpass.eventmask_eq]
          exact h.pending r
        · rw [lastCommand, hpass.commands]
          exact h.obeyed hgap r hr

theorem SafetyInv.latestObeyed_iff (h : SafetyInv g) {a : CubeioAction}
    (hsucc : TransfersSucceed plat g a) : LatestObeyed plat g a ↔ OnNotRevoked g a := by
  cases a with
  | call c => exact Iff.rfl
  | pass p =>
      refine forall_congr' fun hop => ?_
      cases hlatest : g.latest with
      | none =>
          have hgap : g.gap = [] := by
            by_contra hne
            have hlast := h.latest hne
            rw [hlatest, eq_comm, List.getLast?_eq_none_iff] at hlast
            exact hne hlast
          simp [hgap]
      | some r =>
          rw [← h.lastCommand_eq hsucc hop r hlatest]
          simp

/-- In a run whose transfers all succeed, the last command on the board is the one of
the latest request after every pass in OPERATION, exactly when no request for on is
followed by one for off before the next pass. -/
theorem lastCommand_latest_iff {as : List CubeioAction}
    (hsucc : Along (TransfersSucceed plat) (safetyStep plat) safetyInit as) :
    Along (LatestObeyed plat) (safetyStep plat) safetyInit as ↔
      Along OnNotRevoked (safetyStep plat) safetyInit as :=
  Along.congr (fun _ _ _ h hsucc hok hstep => h.step hsucc hok hstep)
    (fun _ _ h hsucc => h.latestObeyed_iff hsucc) safetyInv_init hsucc

end Runs

/-- The run that brings the driver to OPERATION. -/
def startRun : List CubeioAction := [.pass (versionPass 4 10), .pass (versionPass 4 10)]

/-- This run, and a pass behind the calls `cs`. -/
def operationRun (cs : List CubeioCall) : List CubeioAction :=
  startRun ++ cs.map .call ++ [.pass (versionPass 4 10)]

theorem lastCommand_latest_off_on :
    Along (TransfersSucceed plainPlatform) (safetyStep plainPlatform) safetyInit
        (operationRun [.forceSafetyOff, .forceSafetyOn]) ∧
      Along (LatestObeyed plainPlatform) (safetyStep plainPlatform) safetyInit
        (operationRun [.forceSafetyOff, .forceSafetyOn]) := by
  have hsucc : Along (TransfersSucceed plainPlatform) (safetyStep plainPlatform) safetyInit
      (operationRun [.forceSafetyOff, .forceSafetyOn]) := by
    decide +kernel
  exact ⟨hsucc, (lastCommand_latest_iff hsucc).2 (by decide +kernel)⟩

/-- Where the safety is switched on and then off between two passes, on is the last
command. -/
theorem lastCommand_not_latest :
    ¬ ∀ (plat : CubeioPlatform) (as : List CubeioAction),
      Along (TransfersSucceed plat) (safetyStep plat) safetyInit as →
        Along (LatestObeyed plat) (safetyStep plat) safetyInit as := by
  intro h
  have hobeyed := h plainPlatform (operationRun [.forceSafetyOn, .forceSafetyOff])
    (by decide +kernel)
  exact absurd hobeyed (by decide +kernel)

end Catpilot
