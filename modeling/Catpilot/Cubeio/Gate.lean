import Catpilot.Cubeio.Passes

/-!
# The way to OPERATION

The RESET pass reads the configuration and then sets the arming register. A wrong
version is reported, but the state stays CONF; only a failed set/clear of the arming
register stops the driver.
-/

namespace Catpilot

open Transition

/-- The first pass of a run. -/
def firstPass : List CubeioAction → Option CubeioPass
  | [] => none
  | .call _ :: as => firstPass as
  | .pass p :: _ => some p

/-- What the configuration read of the RESET pass gives: it is the first transfer, and
the record is still cleared. -/
def configRead (p : CubeioPass) : ℤ × List UInt16 :=
  readAttempts 2 [0, 0] 0 (List.ofFn (p.bus 0))

/-- The transfer of this read. -/
def configTransfer (p : CubeioPass) : CubeioTransfer :=
  ⟨.read, pageConfig, 0, (configRead p).2, (configRead p).1⟩

/-- The configuration was read with both expected protocol versions, and the bits of the
arming register were set. -/
structure GatePassed (log : List CubeioTransfer) : Prop where
  config : ⟨.read, pageConfig, 0, [protocolVersion, protocolVersion2], success⟩ ∈ log
  arming : ∃ reg, ⟨.write, pageSetup, regArming, [reg ||| armingBits], success⟩ ∈ log

/-- After a RESET pass that did not fail: the configuration was read once, and the
arming register was set. -/
structure Gated (p : CubeioPass) (log : List CubeioTransfer) : Prop where
  config : configTransfer p ∈ log
  once : ∀ t ∈ log, t.kind = .read → t.page = pageConfig → t = configTransfer p
  arming : ∃ reg, ⟨.write, pageSetup, regArming, [reg ||| armingBits], success⟩ ∈ log

/-- The driver has left RESET with the pass `p`. -/
structure AfterReset (p : CubeioPass) (s : CubeioSystem) : Prop where
  state : s.dev.state ≠ .reset
  gated : s.dev.state ≠ .fail → Gated p s.log

/-- The driver is still to be reset. -/
structure BeforeReset (s : CubeioSystem) : Prop where
  state : s.dev.state = .reset
  log : s.log = []
  config : s.dev.config = ⟨0, 0⟩

theorem beforeReset_init : BeforeReset cubeioInit := ⟨rfl, rfl, rfl⟩

theorem checkVersion_state (dev : Cubeio) :
    (checkVersion dev).state = .fail ∨ (checkVersion dev).state = dev.state := by
  simp only [checkVersion]
  split
  · split
    · exact Or.inl rfl
    · exact Or.inr rfl
  · exact Or.inr rfl

theorem readVersion_spec {p : CubeioPass} {s : CubeioSystem} (h : BeforeReset s) :
    (readVersion p.bus s).log = [configTransfer p] ∧ (readVersion p.bus s).dev.state ≠ .reset := by
  constructor
  · have hregs : [s.dev.config.protocolVersion, s.dev.config.protocolVersion2] = [0, 0] := by
      rw [h.config]
    have hlog : (readVersion p.bus s).log = (cubeioReadRegs p.bus pageConfig 0
        [s.dev.config.protocolVersion, s.dev.config.protocolVersion2] s).1.log := rfl
    rw [hlog, hregs, cubeioReadRegs, h.log]
    rfl
  · simp only [readVersion]
    rcases checkVersion_state _ with hstate | hstate
    · exact hstate.trans_ne (by decide)
    · have hne : CubeioState.conf ≠ .reset := by decide
      exact hstate.trans_ne hne

/-- The RESET pass. -/
theorem fsmReset_spec {p : CubeioPass} {s : CubeioSystem} (h : BeforeReset s) :
    AfterReset p (fsmReset p.bus s) := by
  obtain ⟨hlog, hstate⟩ := readVersion_spec (p := p) h
  rw [fsmReset]
  generalize readVersion p.bus s = s at hlog hstate
  by_cases hread : (readReg p.bus s.log.length).1 = success
  · rw [cubeioSetClearReg_of_read p.bus pageSetup regArming s armingBits 0 hread]
    by_cases hwrite : writeResult p.bus (s.log.length + 1) = success
    · simp only [hwrite, ne_eq, not_true_eq_false, if_false]
      refine ⟨hstate, fun _ => ⟨?_, ?_, ?_⟩⟩
      · simp [CubeioSystem.logged, hlog]
      · intro t ht hkind hpage
        simp only [CubeioSystem.logged, hlog, List.mem_append, List.mem_cons,
          List.not_mem_nil, or_false] at ht
        rcases ht with rfl | rfl | rfl
        · rfl
        · cases hpage
        · cases hkind
      · exact ⟨_, List.mem_append_right _ (List.mem_cons_of_mem _ List.mem_cons_self)⟩
    · simp only [ne_eq, hwrite, not_false_eq_true, if_true]
      exact ⟨by simp, fun hfail => absurd rfl hfail⟩
  · rw [cubeioSetClearReg_of_not_read p.bus pageSetup regArming s armingBits 0 hread]
    have hne : (-1 : ℤ) ≠ success := by decide
    simp only [ne_eq, hne, not_false_eq_true, if_true]
    exact ⟨by simp, fun hfail => absurd rfl hfail⟩

section Runs

variable {plat : CubeioPlatform} {p : CubeioPass} {s s' : CubeioSystem}

/-- After the RESET pass no step reads the configuration again. -/
theorem AfterReset.step (h : AfterReset p s) (a : CubeioAction)
    (hstep : cubeioStep plat s a = some s') : AfterReset p s' := by
  cases a with
  | call c =>
      cases hstep
      have hstate : (cubeioCall plat s.dev c).state = s.dev.state :=
        (cubeioCall_state_config plat s.dev c).1
      refine ⟨?_, ?_⟩
      · rw [hstate]
        exact h.state
      · rw [hstate]
        exact h.gated
  | pass q =>
      cases hstep
      rw [cubeioFsm]
      cases hs : s.dev.state with
      | reset => exact absurd hs h.state
      | conf => exact ⟨by simp, fun _ => h.gated (hs.trans_ne (by decide))⟩
      | fail => exact ⟨hs.trans_ne (by decide), fun hne => absurd hs hne⟩
      | operation =>
          obtain ⟨ts, hpass, -⟩ := fsmOperation_spec plat q s
          have hgated := h.gated (hs.trans_ne (by decide))
          refine ⟨?_, fun _ => ⟨hpass.subset_log hgated.config, ?_, ?_⟩⟩
          · rw [hpass.state_eq]
            exact h.state
          · intro t ht hkind hpage
            rcases hpass.mem_log ht with hold | ⟨e, hte, hev⟩ | hroutine
            · exact hgated.once t hold hkind hpage
            · have hmem := hev.page_mem hte
              rw [hpage] at hmem
              exact absurd hmem (by decide)
            · rcases hroutine with ⟨-, hmem⟩ | ⟨hsetup, -⟩
              · rw [hpage] at hmem
                exact absurd hmem (by decide)
              · rw [hpage] at hsetup
                exact absurd hsetup (by decide)
          · obtain ⟨reg, hreg⟩ := hgated.arming
            exact ⟨reg, hpass.subset_log hreg⟩

/-- A run from RESET that has left it did so with its first pass. -/
theorem BeforeReset.run (h : BeforeReset s) {as : List CubeioAction}
    (hrun : run (cubeioStep plat) s as = some s') (hstate : s'.dev.state ≠ .reset) :
    ∃ p, firstPass as = some p ∧ AfterReset p s' := by
  induction as generalizing s with
  | nil =>
      cases hrun
      exact absurd h.state hstate
  | cons a as ih =>
      obtain ⟨t, ht, hrest⟩ := run_cons_eq_some.1 hrun
      cases a with
      | call c =>
          cases ht
          obtain ⟨hstate', hconfig⟩ := cubeioCall_state_config plat s.dev c
          have hbefore : BeforeReset { s with dev := cubeioCall plat s.dev c } :=
            ⟨hstate'.trans h.state, h.log, hconfig.trans h.config⟩
          exact ih hbefore hrest
      | pass p =>
          cases ht
          rw [cubeioFsm, h.state] at hrest
          refine ⟨p, rfl, ?_⟩
          exact run_invariant (fun s a s' hs hstep => hs.step a hstep) (fsmReset_spec h) hrest

theorem Gated.gatePassed_iff {log : List CubeioTransfer} (h : Gated p log) :
    GatePassed log ↔ configRead p = (success, [protocolVersion, protocolVersion2]) := by
  constructor
  · intro hpassed
    have heq := h.once _ hpassed.config rfl rfl
    rw [configTransfer, CubeioTransfer.mk.injEq] at heq
    exact Prod.ext heq.2.2.2.2.symm heq.2.2.2.1.symm
  · intro hread
    have hconfig := h.config
    rw [configTransfer, hread] at hconfig
    exact ⟨hconfig, h.arming⟩

/-- A run that is in OPERATION got there through the gate exactly when the configuration
read of its first pass was answered with both expected versions. -/
theorem operation_gatePassed_iff {as : List CubeioAction}
    (hrun : run (cubeioStep plat) cubeioInit as = some s) (hstate : s.dev.state = .operation) :
    GatePassed s.log ↔ ∃ p, firstPass as = some p ∧
      configRead p = (success, [protocolVersion, protocolVersion2]) := by
  obtain ⟨p, hp, hafter⟩ := beforeReset_init.run hrun (hstate.trans_ne (by decide))
  rw [(hafter.gated (hstate.trans_ne (by decide))).gatePassed_iff, hp]
  simp

end Runs

/-- A conversion that truncates what fits. -/
def plainPlatform : CubeioPlatform where
  toUInt16 q := UInt16.ofNat ⌊q⌋.toNat
  toNat_toUInt16 := by
    intro q hlow hhigh
    have hfloor : ⌊q⌋ < 65536 := Int.floor_lt.2 (by exact_mod_cast hhigh)
    rw [UInt16.toNat_ofNat', Nat.mod_eq_of_lt]
    omega
  tear q _ _ := q

/-- A board that answers the configuration read with these versions, and every other
transfer with cleared registers. -/
def versionBus (version version2 : UInt16) : CubeioBus := fun n _ =>
  if n = 0 then boardAnswer 2 fun i => if i = 0 then version else if i = 1 then version2 else 0
  else boardAnswer 1 fun _ => 0

/-- A pass with this board. -/
def versionPass (version version2 : UInt16) : CubeioPass :=
  ⟨versionBus version version2, 0, 0, 0, 0, 0⟩

theorem configRead_versionPass (version version2 : UInt16) :
    configRead (versionPass version version2) = (success, [version, version2]) :=
  readAttempts_boardAnswer [0, 0] 0 2 _ _

/-- Two passes with a board of the wrong version lead to OPERATION. -/
theorem operation_not_gatePassed :
    ¬ ∀ (plat : CubeioPlatform) (as : List CubeioAction) (s : CubeioSystem),
      run (cubeioStep plat) cubeioInit as = some s → s.dev.state = .operation →
        GatePassed s.log := by
  intro h
  have hop : (run (cubeioStep plainPlatform) cubeioInit
      [.pass (versionPass 3 10), .pass (versionPass 3 10)]).map (·.dev.state) =
        some .operation := by
    decide +kernel
  obtain ⟨s, hrun, hstate⟩ := Option.map_eq_some_iff.1 hop
  obtain ⟨p, hp, hafter⟩ := beforeReset_init.run hrun (hstate.trans_ne (by decide))
  cases hp
  have hread := (hafter.gated (hstate.trans_ne (by decide))).gatePassed_iff.1
    (h plainPlatform _ s hrun hstate)
  rw [configRead_versionPass] at hread
  exact absurd hread (by decide)

theorem operation_gatePassed_four :
    ∃ s, run (cubeioStep plainPlatform) cubeioInit
      [.pass (versionPass 4 10), .pass (versionPass 4 10)] = some s ∧
        s.dev.state = .operation ∧ GatePassed s.log := by
  have hop : (run (cubeioStep plainPlatform) cubeioInit
      [.pass (versionPass 4 10), .pass (versionPass 4 10)]).map (·.dev.state) =
        some .operation := by
    decide +kernel
  obtain ⟨s, hrun, hstate⟩ := Option.map_eq_some_iff.1 hop
  exact ⟨s, hrun, hstate,
    (operation_gatePassed_iff hrun hstate).2 ⟨_, rfl, configRead_versionPass 4 10⟩⟩

end Catpilot
