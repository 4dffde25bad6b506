import Catpilot.Cli.Handoff

/-!
# When command lines are handed over

A broadcast without a waiting executor is lost, and a line is executed from `cmd`,
which `cli_echo` goes on editing. Where neither happens, each line is executed once,
in order, with its text.
-/

namespace Catpilot

open Transition CString

namespace Handoff

/-- The invariant of runs in turn. -/
structure Inv (s : Handoff) : Prop where
  /-- The executor is counted or woken while it waits, and neither elsewhere. -/
  waiting : s.iWaitingThreads + s.xCondWaitSemaphore = if s.invoker = .take then 1 else 0
  mutex_echo : s.mutex = some .echo ↔ s.echo.Locked
  mutex_invoker : s.mutex = some .invoker ↔ s.invoker.Locked
  /-- No line is at hand while another one is pending. -/
  one : s.echo.AtHand → ¬ s.Pending
  /-- The line under way is in `cmd`, and all others are executed. -/
  under_way : s.echo.AtHand ∨ s.Pending → s.submitted = s.executed ++ [cstr s.cli.cmd]
  done : ¬ s.echo.AtHand → ¬ s.Pending → s.submitted = s.executed

theorem inv_start (bufSize historySize : ℕ) : (handoffStart bufSize historySize).Inv where
  waiting := rfl
  mutex_echo := by simp [handoffStart, EchoPc.Locked]
  mutex_invoker := by simp [handoffStart, InvokerPc.Locked]
  one := nofun
  under_way := by simp [handoffStart, EchoPc.AtHand, Pending, InvokerPc.Woken]
  done := fun _ _ => rfl

section Steps

variable {s s' : Handoff} {execute : List UInt8 → List UInt8}

/-- A step of `cli_echo` that only moves on between its read and the bytes, without a
change of `cmd`. -/
theorem Inv.of_handle (h : s.Inv) (hecho : ¬ s.echo.AtHand) (hlocked : ¬ s.echo.Locked)
    {cli : CliService} {pc : EchoPc} (hpc : ¬ pc.AtHand) (hpcLocked : ¬ pc.Locked)
    (hcmd : s.Pending → cli.cmd = s.cli.cmd) : Inv { s with cli := cli, echo := pc } where
  waiting := h.waiting
  mutex_echo := h.mutex_echo.trans (iff_of_false hlocked hpcLocked)
  mutex_invoker := h.mutex_invoker
  one := fun hat => absurd hat hpc
  under_way := by
    rintro (hat | hpend)
    · exact absurd hat hpc
    · exact (h.under_way (Or.inr hpend)).trans (by rw [hcmd hpend])
  done := fun _ hpend => h.done hecho hpend

theorem Inv.read (h : s.Inv) {bytes : List UInt8} (hs : s.step execute (.read bytes) = some s') :
    s'.Inv := by
  rw [step] at hs
  split at hs
  · rename_i hread
    cases hs
    refine h.of_handle ?_ ?_ id id (fun _ => rfl)
    · rw [hread.1]
      exact id
    · rw [hread.1]
      exact id
  · cases hs

theorem Inv.handleByte (h : s.Inv) {i : ℕ} (hpc : s.echo = .handle i)
    (hok : s.Pending → ¬ s.cli.Edits i) : (s.handleByte i).Inv := by
  have hecho : ¬ s.echo.AtHand := by rw [hpc]; exact id
  have hlocked : ¬ s.echo.Locked := by rw [hpc]; exact id
  have hcmd : s.Pending → (s.cli.echoByte i).1.cmd = s.cli.cmd :=
    fun hpend => CliService.echoByte_cmd_of_not_edits (hok hpend)
  cases hnext : (s.cli.echoByte i).2 with
  | next =>
      simp only [Handoff.handleByte, hnext]
      exact h.of_handle hecho hlocked id id hcmd
  | leave =>
      simp only [Handoff.handleByte, hnext]
      exact h.of_handle hecho hlocked id id hcmd
  | submit =>
      -- a carriage return is an edit, so no line is pending
      have hidle : ¬ s.Pending := by
        intro hpend
        refine hok hpend ?_
        rw [CliService.Edits, CliService.echoByte_submit hnext]
        trivial
      simp only [Handoff.handleByte, hnext]
      exact {
        waiting := h.waiting
        mutex_echo := h.mutex_echo.trans (iff_of_false hlocked id)
        mutex_invoker := h.mutex_invoker
        one := fun _ => hidle
        under_way := fun _ => by rw [h.done hecho hidle]
        done := fun hat => absurd trivial hat }

theorem Inv.invoker_free (h : s.Inv) (hmutex : s.mutex ≠ some .invoker) : ¬ s.invoker.Locked :=
  fun hlocked => hmutex (h.mutex_invoker.2 hlocked)

/-- A step of `cli_echo` taken in turn keeps the invariant. -/
theorem Inv.echoStep (h : s.Inv) (hok : s.InTurn .echo) (hs : s.echoStep = some s') :
    s'.Inv := by
  cases hpc : s.echo with
  | read => simp only [Handoff.echoStep, hpc, reduceCtorEq] at hs
  | handle i =>
      simp only [Handoff.echoStep, hpc, Option.some.injEq] at hs
      subst hs
      split
      · rename_i hi
        refine h.handleByte hpc ?_
        rw [InTurn, hpc] at hok
        exact hok hi
      · refine h.of_handle ?_ ?_ id id (fun _ => rfl)
        · rw [hpc]; exact id
        · rw [hpc]; exact id
  | lock i =>
      have hat : s.echo.AtHand := by rw [hpc]; trivial
      simp only [Handoff.echoStep, hpc] at hs
      split at hs
      · rename_i hmutex
        cases hs
        have hfree := h.invoker_free (by rw [hmutex]; exact nofun)
        exact {
          waiting := h.waiting
          mutex_echo := iff_of_true rfl trivial
          mutex_invoker := iff_of_false nofun hfree
          one := fun _ => h.one hat
          under_way := fun _ => h.under_way (Or.inl hat)
          done := fun hno => absurd trivial hno }
      · cases hs
  | broadcast i =>
      have hat : s.echo.AtHand := by rw [hpc]; trivial
      have hlocked : s.echo.Locked := by rw [hpc]; trivial
      rw [InTurn, hpc] at hok
      simp only [Handoff.echoStep, hpc, Option.some.injEq] at hs
      subst hs
      exact {
        waiting := by
          rw [Nat.zero_add, Nat.add_comm]
          exact h.waiting
        mutex_echo := h.mutex_echo.trans (iff_of_true hlocked trivial)
        mutex_invoker := h.mutex_invoker
        one := nofun
        under_way := fun _ => h.under_way (Or.inl hat)
        -- the executor is counted, so the broadcast gives its semaphore
        done := fun _ hidle => absurd (Or.inl (Nat.add_pos_right _ hok)) hidle }
  | unlock i =>
      have hat : ¬ s.echo.AtHand := by rw [hpc]; exact id
      have hmutex : s.mutex = some .echo := h.mutex_echo.2 (by rw [hpc]; trivial)
      have hfree := h.invoker_free (by rw [hmutex]; exact nofun)
      simp only [Handoff.echoStep, hpc, Option.some.injEq] at hs
      subst hs
      exact {
        waiting := h.waiting
        mutex_echo := iff_of_false nofun id
        mutex_invoker := iff_of_false nofun hfree
        one := nofun
        under_way := fun hway => h.under_way (Or.inr (hway.resolve_left id))
        done := fun _ hidle => h.done hat hidle }

/-- A step of `cli_invoker` that neither executes a line nor makes one pending. -/
theorem Inv.of_invoker (h : s.Inv) {mutex : Option CliThread} {waiting sem : ℕ} {pc : InvokerPc}
    (hwaiting : waiting + sem = if pc = .take then 1 else 0)
    (hecho : mutex = some .echo ↔ s.echo.Locked) (hinvoker : mutex = some .invoker ↔ pc.Locked)
    (hpend : 0 < sem ∨ pc.Woken ↔ s.Pending) :
    Inv { s with
      mutex := mutex
      iWaitingThreads := waiting
      xCondWaitSemaphore := sem
      invoker := pc } where
  waiting := hwaiting
  mutex_echo := hecho
  mutex_invoker := hinvoker
  one := fun hat hp => h.one hat (hpend.1 hp)
  under_way := fun hway => h.under_way (hway.imp_right hpend.1)
  done := fun hat hp => h.done hat fun hp' => hp (hpend.2 hp')

theorem Inv.echo_free (h : s.Inv) (hmutex : s.mutex ≠ some .echo) : ¬ s.echo.Locked :=
  fun hlocked => hmutex (h.mutex_echo.2 hlocked)

/-- While `cli_invoker` holds the mutex, `cli_echo` does not. -/
theorem Inv.echo_free_of_locked (h : s.Inv) (hlocked : s.invoker.Locked) : ¬ s.echo.Locked := by
  apply h.echo_free
  rw [h.mutex_invoker.2 hlocked]
  exact nofun

/-- A free mutex is held by neither thread. -/
theorem Inv.echo_free_of_none (h : s.Inv) (hmutex : s.mutex = none) : ¬ s.echo.Locked := by
  apply h.echo_free
  rw [hmutex]
  exact nofun

/-- A mutex that neither thread holds is free. -/
theorem Inv.mutex_eq_none (h : s.Inv) (hecho : ¬ s.echo.Locked) (hinvoker : ¬ s.invoker.Locked) :
    s.mutex = none := by
  cases hmutex : s.mutex with
  | none => rfl
  | some thread =>
      cases thread with
      | echo => exact absurd (h.mutex_echo.1 hmutex) hecho
      | invoker => exact absurd (h.mutex_invoker.1 hmutex) hinvoker

/-- The executor executes the line that is pending, and then none is. -/
theorem Inv.executes (h : s.Inv) (hpc : s.invoker = .execute) (cmd : List UInt8) :
    Inv { s with
      executed := s.executed ++ [cstr s.cli.cmd]
      cli := { s.cli with cmd := cmd }
      invoker := .unlock } := by
  have hpend : s.Pending := by
    rw [Pending, hpc]
    exact Or.inr trivial
  have hat : ¬ s.echo.AtHand := fun hat => h.one hat hpend
  have hwait := h.waiting
  rw [hpc, if_neg nofun] at hwait
  have hidle : ¬ (0 < s.xCondWaitSemaphore ∨ InvokerPc.Woken .unlock) := by
    rintro (hsem | hno)
    · omega
    · exact hno
  exact {
    waiting := hwait
    mutex_echo := h.mutex_echo
    mutex_invoker := h.mutex_invoker.trans (iff_of_true (by rw [hpc]; trivial) trivial)
    one := fun hat' => absurd hat' hat
    under_way := by
      rintro (hat' | hpend')
      · exact absurd hat' hat
      · exact absurd hpend' hidle
    done := fun _ _ => h.under_way (Or.inr hpend) }

/-- Every step of `cli_invoker` keeps the invariant. -/
theorem Inv.invokerStep (h : s.Inv) (hs : s.invokerStep execute = some s') : s'.Inv := by
  have hwait := h.waiting
  cases hpc : s.invoker with
  | lock =>
      simp only [Handoff.invokerStep, hpc] at hs
      rw [hpc, if_neg nofun] at hwait
      split at hs
      · rename_i hmutex
        cases hs
        refine h.of_invoker hwait (iff_of_false nofun (h.echo_free_of_none hmutex))
          (iff_of_true rfl trivial) ?_
        rw [Pending, hpc]
        exact Iff.rfl
      · cases hs
  | condWait =>
      have hecho := h.echo_free_of_locked (by rw [hpc]; trivial)
      simp only [Handoff.invokerStep, hpc, Option.some.injEq] at hs
      rw [hpc, if_neg nofun] at hwait
      subst hs
      refine h.of_invoker ?_ (iff_of_false nofun hecho) (iff_of_false nofun id) ?_
      · rw [if_pos rfl]
        omega
      · rw [Pending, hpc]
        exact Iff.rfl
  | take =>
      simp only [Handoff.invokerStep, hpc] at hs
      rw [hpc, if_pos rfl] at hwait
      split at hs
      · rename_i hsem
        cases hs
        refine h.of_invoker ?_ h.mutex_echo ?_ (iff_of_true (Or.inr trivial) (Or.inl hsem))
        · rw [if_neg nofun]
          omega
        · rw [h.mutex_invoker, hpc]
          exact Iff.rfl
      · cases hs
  | relock =>
      simp only [Handoff.invokerStep, hpc] at hs
      rw [hpc, if_neg nofun] at hwait
      split at hs
      · rename_i hmutex
        cases hs
        refine h.of_invoker hwait (iff_of_false nofun (h.echo_free_of_none hmutex))
          (iff_of_true rfl trivial) (iff_of_true (Or.inr trivial) ?_)
        rw [Pending, hpc]
        exact Or.inr trivial
      · cases hs
  | execute =>
      simp only [Handoff.invokerStep, hpc, Option.some.injEq] at hs
      subst hs
      exact h.executes hpc _
  | unlock =>
      have hecho := h.echo_free_of_locked (by rw [hpc]; trivial)
      simp only [Handoff.invokerStep, hpc, Option.some.injEq] at hs
      rw [hpc, if_neg nofun] at hwait
      subst hs
      refine h.of_invoker hwait (iff_of_false nofun hecho) (iff_of_false nofun id) ?_
      rw [Pending, hpc]
      exact Iff.rfl

/-- Every step taken in turn keeps the invariant. -/
theorem Inv.step (h : s.Inv) {a : HandoffStep} (hok : s.InTurn a)
    (hs : s.step execute a = some s') : s'.Inv := by
  cases a with
  | read bytes => exact h.read hs
  | echo => exact h.echoStep hok hs
  | invoke => exact h.invokerStep hs

/-- With a line pending and the mutex not held by `cli_echo`, `cli_invoker` can go on. -/
theorem Inv.invokerStep_ne_none (h : s.Inv) (hpend : s.Pending) (hecho : ¬ s.echo.Locked) :
    s.invokerStep execute ≠ none := by
  have hwait := h.waiting
  cases hpc : s.invoker with
  | take =>
      have hsem : 0 < s.xCondWaitSemaphore := hpend.resolve_right (by rw [hpc]; exact id)
      simp only [Handoff.invokerStep, hpc, if_pos hsem]
      exact nofun
  | relock =>
      have hmutex : s.mutex = none := h.mutex_eq_none hecho (by rw [hpc]; exact id)
      simp only [Handoff.invokerStep, hpc, if_pos hmutex]
      exact nofun
  | execute =>
      simp only [Handoff.invokerStep, hpc]
      exact nofun
  | _ =>
      have hsem : 0 < s.xCondWaitSemaphore := hpend.resolve_right (by rw [hpc]; exact id)
      rw [hpc, if_neg nofun] at hwait
      omega

/-- The invariant says that the lines are handed over. -/
theorem Inv.handedOver (h : s.Inv) : s.HandedOver execute := by
  by_cases hway : s.echo.AtHand ∨ s.Pending
  · rw [HandedOver, h.under_way hway]
    refine ⟨List.prefix_append _ _, ?_⟩
    rintro ⟨hecho, hstep⟩
    have hpend : s.Pending := hway.resolve_left (by rw [hecho]; exact id)
    exact absurd hstep (h.invokerStep_ne_none hpend (by rw [hecho]; exact id))
  · have hdone := h.done (fun hat => hway (Or.inl hat)) (fun hpend => hway (Or.inr hpend))
    rw [HandedOver, hdone]
    exact ⟨List.prefix_rfl, fun _ => rfl⟩

end Steps

end Handoff

end Catpilot
