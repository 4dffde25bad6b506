import Catpilot.Hal.Status
import Catpilot.Sync.Mutex
import Catpilot.Transition.Run

/-!
# The completion of SPI transfers

`spi_transmit`, `spi_receive` and `spi_transmit_receive`, called by any number of tasks on one
bus, and `spi_it_handler`. The HAL refuses to start while it is busy, and its handler sets
it ready when the transfer has completed; every transfer that is started has a number of its
own. The semaphore does not say which transfer it was given for.
-/

namespace Catpilot

open Transition Sync

/-! ## The bus -/

/-- `enum spi_state_t`. -/
inductive SpiState where
  | free
  | transmit
  | receive
  | transmitReceive
  deriving DecidableEq, Repr

/-- A call; a buffer is given by whether it is not `NULL`. -/
inductive SpiCall where
  | transmit (pdata : Bool) (length : ℕ)
  | receive (pdata : Bool) (length : ℕ)
  | transmitReceive (tdata rdata : Bool) (length : ℕ)
  deriving DecidableEq, Repr

/-- The check of the arguments. -/
def SpiCall.valid : SpiCall → Bool
  | transmit pdata length => length ≠ 0 && pdata
  | receive pdata length => length ≠ 0 && pdata
  | transmitReceive tdata rdata length => length ≠ 0 && tdata && rdata

/-- The state of the bus in the call. -/
def SpiCall.state : SpiCall → SpiState
  | transmit _ _ => .transmit
  | receive _ _ => .receive
  | transmitReceive _ _ _ => .transmitReceive

/-- Where a task stands: outside of the calls, or in a call (which sets `state`) before it
takes the mutex, before the semaphore is cleared, before the HAL is started, in the wait for
the transfer `id`, before the state is free again, and before the mutex is given, with the
result and the transfer that the call has started. -/
inductive SpiPc where
  | idle
  | take (state : SpiState)
  | clear (state : SpiState)
  | start
  | wait (id : ℕ)
  | finish (rv : ℕ) (transfer : Option ℕ)
  | give (rv : ℕ) (transfer : Option ℕ)
  deriving DecidableEq, Repr

/-- The result of a call, and the transfer that it has started. -/
structure SpiReturn where
  rv : ℕ
  transfer : Option ℕ
  deriving DecidableEq, Repr

/-- The part of `spi_private_t` that the calls and the handler use; the transfer that the
HAL is busy with, the number of those started, and those that have completed; where the
tasks stand, with their last results. -/
structure SpiBus (ι : Type*) where
  mutex : Option ι
  sem : Bool
  state : SpiState
  current : Option ℕ
  started : ℕ
  completed : List ℕ
  pc : ι → SpiPc
  returned : ι → Option SpiReturn

/-- The bus after `spi_init`, before any call. -/
def SpiBus.init (ι : Type*) : SpiBus ι where
  mutex := none
  sem := false
  state := .free
  current := none
  started := 0
  completed := []
  pc := fun _ => .idle
  returned := fun _ => none

/-- A step: a task calls, goes on, gives up its wait, or starts the HAL, which answers `rv`;
or the handler runs, with the transfer completed or not. -/
inductive SpiAction (ι : Type*) where
  | call (i : ι) (c : SpiCall)
  | next (i : ι)
  | timeout (i : ι)
  | start (i : ι) (rv : HalStatus)
  | handler (done : Bool)

/-- `HAL_SPI_IRQHandler`: a transfer that has completed makes the HAL ready. -/
def SpiBus.halHandler {ι : Type*} (s : SpiBus ι) (done : Bool) : SpiBus ι :=
  match s.current, done with
  | some id, true => { s with current := none, completed := id :: s.completed }
  | _, _ => s

def spiItHandler {ι : Type*} (s : SpiBus ι) (done : Bool) : SpiBus ι :=
  let s := s.halHandler done
  if s.current = none then { s with sem := true } else s

section Steps

variable {ι : Type*} [DecidableEq ι]

def SpiBus.goto (s : SpiBus ι) (i : ι) (pc : SpiPc) : SpiBus ι :=
  { s with pc := Function.update s.pc i pc }

/-- The call returns. -/
def SpiBus.leave (s : SpiBus ι) (i : ι) (rv : ℕ) (transfer : Option ℕ) : SpiBus ι :=
  { s.goto i .idle with returned := Function.update s.returned i (some ⟨rv, transfer⟩) }

/-- The HAL starts a transfer, and the call waits for it. -/
def SpiBus.begin (s : SpiBus ι) (i : ι) : SpiBus ι :=
  { s.goto i (.wait s.started) with current := some s.started, started := s.started + 1 }

/-- A task goes on; it waits at a mutex that is taken, and for the semaphore. -/
def SpiBus.next (s : SpiBus ι) (i : ι) : Option (SpiBus ι) :=
  match s.pc i with
  | .take state =>
      if s.mutex = none then some { s.goto i (.clear state) with mutex := some i } else none
  | .clear state => some { s.goto i .start with sem := false, state := state }
  | .wait id => if s.sem then some { s.goto i (.finish 0 (some id)) with sem := false } else none
  | .finish rv transfer => some { s.goto i (.give rv transfer) with state := .free }
  | .give rv transfer => some { s.leave i rv transfer with mutex := none }
  | .idle | .start => none

def spiStep (s : SpiBus ι) : SpiAction ι → Option (SpiBus ι)
  | .call i c =>
      if s.pc i = .idle then
        some (if c.valid then s.goto i (.take c.state) else s.leave i rvEinval none)
      else none
  | .next i => s.next i
  | .timeout i =>
      match s.pc i with
      | .take _ => if s.mutex = none then none else some (s.leave i rvEtimedout none)
      | .wait id => if s.sem then none else some (s.goto i (.finish rvEtimedout (some id)))
      | _ => none
  | .start i rv =>
      if s.pc i = .start then
        if rv = .ok then if s.current = none then some (s.begin i) else none
        else some (s.goto i (.finish rv.value none))
      else none
  | .handler done => some (spiItHandler s done)

end Steps

/-! ## The transfer of a call -/

/-- The call is between taking the mutex and giving it. -/
def SpiPc.HoldsMutex : SpiPc → Prop
  | .idle | .take _ => False
  | _ => True

/-- A result that is `HAL_OK` is one of a transfer that has completed. -/
def Completed (completed : List ℕ) (rv : ℕ) (transfer : Option ℕ) : Prop :=
  rv = 0 → ∃ id ∈ completed, transfer = some id

theorem Completed.mono {completed completed' : List ℕ} {rv : ℕ} {transfer : Option ℕ}
    (hsub : completed ⊆ completed') (h : Completed completed rv transfer) :
    Completed completed' rv transfer := by
  intro hrv
  obtain ⟨id, hid, htransfer⟩ := h hrv
  exact ⟨id, hsub hid, htransfer⟩

/-- Where the task stands fits the semaphore and the transfers: in the wait the semaphore is
given for the transfer of the call only, which has completed or is the one in progress. -/
def SpiPc.Fits (sem : Bool) (current : Option ℕ) (completed : List ℕ) : SpiPc → Prop
  | .wait id => (sem → id ∈ completed) ∧ (id ∈ completed ∨ current = some id)
  | .finish rv transfer | .give rv transfer => Completed completed rv transfer
  | _ => True

section Matching

variable {ι : Type*}

/-- A call that has returned `HAL_OK` has had its own transfer completed. -/
def SpiBus.Matched (s : SpiBus ι) : Prop :=
  ∀ i r, s.returned i = some r → Completed s.completed r.rv r.transfer

/-- A call starts its transfer with the semaphore not given: no interrupt has given it since
the call cleared it. -/
def NotStale [DecidableEq ι] (s : SpiBus ι) : SpiAction ι → Prop
  | .start i rv => s.pc i = .start → rv = .ok → s.current = none → s.sem = false
  | _ => True

instance [DecidableEq ι] (s : SpiBus ι) : (a : SpiAction ι) → Decidable (NotStale s a)
  | .start i rv =>
      inferInstanceAs
        (Decidable (s.pc i = .start → rv = .ok → s.current = none → s.sem = false))
  | .call _ _ | .next _ | .timeout _ | .handler _ => isTrue trivial

/-- The invariant: the mutex, where the tasks stand, and what has been returned. -/
structure SpiBus.Ordered (s : SpiBus ι) : Prop where
  guarded : Guarded s.mutex SpiPc.HoldsMutex s.pc
  fits : ∀ i, (s.pc i).Fits s.sem s.current s.completed
  matched : s.Matched

/-- A task outside of the mutex fits everything. -/
theorem SpiPc.fits_of_not_holds {pc : SpiPc} (h : ¬ pc.HoldsMutex) (sem : Bool)
    (current : Option ℕ) (completed : List ℕ) : pc.Fits sem current completed := by
  cases pc with
  | idle => trivial
  | take state => trivial
  | _ => exact absurd trivial h

/-- A result does not depend on the semaphore and the transfer in progress; it stays right
when more transfers have completed. -/
theorem SpiPc.Fits.complete {pc : SpiPc} {sem : Bool} {id : ℕ} {completed : List ℕ}
    (h : pc.Fits sem (some id) completed) : pc.Fits true none (id :: completed) := by
  have hsub : completed ⊆ id :: completed := List.subset_cons_self id completed
  cases pc with
  | wait own =>
      have hown : own ∈ id :: completed := by
        obtain hmem | hcurrent := h.2
        · exact hsub hmem
        · rw [Option.some.inj hcurrent]
          exact List.mem_cons_self
      exact ⟨fun _ => hown, .inl hown⟩
  | finish rv transfer => exact Completed.mono hsub h
  | give rv transfer => exact Completed.mono hsub h
  | _ => trivial

/-- The semaphore given while no transfer is in progress. -/
theorem SpiPc.Fits.ready {pc : SpiPc} {sem : Bool} {completed : List ℕ}
    (h : pc.Fits sem none completed) : pc.Fits true none completed := by
  cases pc with
  | wait own => exact ⟨fun _ => h.2.resolve_right (by simp), h.2⟩
  | _ => exact h

variable {s s' : SpiBus ι}

theorem SpiBus.Ordered.init : (SpiBus.init ι).Ordered where
  guarded := .of_free fun _ => id
  fits := fun _ => trivial
  matched := fun _ _ hr => by cases hr

/-- The handler gives the semaphore for the transfer that has completed. -/
theorem SpiBus.Ordered.handler (h : s.Ordered) (done : Bool) : (spiItHandler s done).Ordered := by
  have hfits := h.fits
  cases hcurrent : s.current with
  | none =>
      rw [hcurrent] at hfits
      have heq : spiItHandler s done = { s with sem := true } := by
        simp [spiItHandler, SpiBus.halHandler, hcurrent]
      rw [heq]
      exact ⟨h.guarded, fun i => by rw [hcurrent]; exact (hfits i).ready, h.matched⟩
  | some id =>
      rw [hcurrent] at hfits
      cases done with
      | false =>
          have heq : spiItHandler s false = s := by
            simp [spiItHandler, SpiBus.halHandler, hcurrent]
          rw [heq]
          exact h
      | true =>
          have heq : spiItHandler s true =
              { s with current := none, completed := id :: s.completed, sem := true } := by
            simp [spiItHandler, SpiBus.halHandler, hcurrent]
          rw [heq]
          refine ⟨h.guarded, fun i => (hfits i).complete, fun i r hr => ?_⟩
          exact (h.matched i r hr).mono (List.subset_cons_self id s.completed)

variable [DecidableEq ι] {i : ι} {pc : SpiPc}

/-- The other tasks fit whatever the semaphore and the HAL are, when the task `i` has the
mutex. -/
theorem SpiBus.Ordered.fits_holder (h : s.Ordered) (hi : (s.pc i).HoldsMutex) {sem : Bool}
    {current : Option ℕ} {completed : List ℕ} (hpc : pc.Fits sem current completed) (j : ι) :
    (Function.update s.pc i pc j).Fits sem current completed := by
  by_cases hj : j = i
  · subst hj
    rwa [Function.update_self]
  · rw [Function.update_of_ne hj]
    exact SpiPc.fits_of_not_holds (fun hholds => hj (h.guarded.unique hholds hi)) ..

/-- A move of a task that leaves the semaphore and the HAL. -/
theorem SpiBus.Ordered.fits_goto (h : s.Ordered) (hpc : pc.Fits s.sem s.current s.completed)
    (j : ι) : (Function.update s.pc i pc j).Fits s.sem s.current s.completed := by
  by_cases hj : j = i
  · subst hj
    rwa [Function.update_self]
  · rw [Function.update_of_ne hj]
    exact h.fits j

/-- A move between places that agree about the mutex. -/
theorem SpiBus.Ordered.goto (h : s.Ordered) {q : SpiPc} (hq : s.pc i = q)
    (hmutex : pc.HoldsMutex ↔ q.HoldsMutex) (hpc : pc.Fits s.sem s.current s.completed) :
    (s.goto i pc).Ordered :=
  ⟨h.guarded.moveFrom hq hmutex, h.fits_goto hpc, h.matched⟩

/-- What a call returns is remembered. -/
theorem SpiBus.Ordered.matched_leave (h : s.Ordered) {rv : ℕ} {transfer : Option ℕ}
    (hreturn : Completed s.completed rv transfer) : (s.leave i rv transfer).Matched := by
  intro j r hr
  by_cases hj : j = i
  · subst hj
    simp only [SpiBus.leave, Function.update_self, Option.some.injEq] at hr
    subst hr
    exact hreturn
  · simp only [SpiBus.leave, Function.update_of_ne hj] at hr
    exact h.matched j r hr

/-- A call that returns without the mutex. -/
theorem SpiBus.Ordered.leave (h : s.Ordered) (hmutex : ¬ (s.pc i).HoldsMutex) {rv : ℕ}
    (hrv : rv ≠ 0) : (s.leave i rv none).Ordered where
  guarded := h.guarded.move ⟨False.elim, fun hholds => absurd hholds hmutex⟩
  fits := h.fits_goto trivial
  matched := h.matched_leave fun hzero => absurd hzero hrv

theorem SpiBus.Ordered.next (h : s.Ordered) (hs : s.next i = some s') : s'.Ordered := by
  have hfits := h.fits i
  rw [SpiBus.next] at hs
  cases hpc : s.pc i with
  | idle => simp [hpc] at hs
  | start => simp [hpc] at hs
  | take state =>
      simp only [hpc, Option.ite_none_right_eq_some, Option.some.injEq] at hs
      obtain ⟨hfree, rfl⟩ := hs
      exact ⟨(hfree ▸ h.guarded).take trivial, h.fits_goto trivial, h.matched⟩
  | clear state =>
      simp only [hpc, Option.some.injEq] at hs
      subst hs
      have hholds : (s.pc i).HoldsMutex := by rw [hpc]; trivial
      exact ⟨h.guarded.move (iff_of_true trivial hholds), h.fits_holder hholds trivial, h.matched⟩
  | wait id =>
      simp only [hpc, Option.ite_none_right_eq_some, Option.some.injEq] at hs
      obtain ⟨hsem, rfl⟩ := hs
      have hholds : (s.pc i).HoldsMutex := by rw [hpc]; trivial
      have hdone : Completed s.completed 0 (some id) := by
        rw [hpc] at hfits
        exact fun _ => ⟨id, hfits.1 hsem, rfl⟩
      exact ⟨h.guarded.move (iff_of_true trivial hholds), h.fits_holder hholds hdone, h.matched⟩
  | finish rv transfer =>
      simp only [hpc, Option.some.injEq] at hs
      subst hs
      rw [hpc] at hfits
      exact ⟨h.guarded.moveFrom hpc Iff.rfl, h.fits_goto hfits, h.matched⟩
  | give rv transfer =>
      simp only [hpc, Option.some.injEq] at hs
      subst hs
      rw [hpc] at hfits
      exact ⟨h.guarded.giveFrom hpc trivial id, h.fits_goto trivial, h.matched_leave hfits⟩

/-- The HAL starts a transfer while the semaphore is not given. -/
theorem SpiBus.Ordered.begin (h : s.Ordered) (hpc : s.pc i = .start) (hsem : s.sem = false) :
    (s.begin i).Ordered := by
  have hholds : (s.pc i).HoldsMutex := by rw [hpc]; trivial
  refine ⟨h.guarded.move (iff_of_true trivial hholds), h.fits_holder hholds ?_, h.matched⟩
  exact ⟨fun hgiven => absurd (hsem.symm.trans hgiven) (by decide), .inr rfl⟩

theorem SpiBus.Ordered.step (h : s.Ordered) {a : SpiAction ι} (hok : NotStale s a)
    (hs : spiStep s a = some s') : s'.Ordered := by
  cases a with
  | next i => exact h.next hs
  | handler done =>
      cases hs
      exact h.handler done
  | call i c =>
      simp only [spiStep, Option.ite_none_right_eq_some, Option.some.injEq] at hs
      obtain ⟨hidle, rfl⟩ := hs
      split_ifs
      · exact h.goto hidle Iff.rfl trivial
      · exact h.leave (by rw [hidle]; exact id) (by decide)
  | timeout i =>
      rw [spiStep] at hs
      cases hpc : s.pc i with
      | take state =>
          simp only [hpc, Option.ite_none_left_eq_some, Option.some.injEq] at hs
          obtain ⟨_, rfl⟩ := hs
          exact h.leave (by rw [hpc]; exact id) (by decide)
      | wait id =>
          simp only [hpc, Option.ite_none_left_eq_some, Option.some.injEq] at hs
          obtain ⟨_, rfl⟩ := hs
          exact h.goto hpc Iff.rfl fun hzero => absurd hzero (by decide)
      | _ => simp [hpc] at hs
  | start i rv =>
      simp only [spiStep, Option.ite_none_right_eq_some] at hs
      obtain ⟨hpc, hs⟩ := hs
      split_ifs at hs with hrv hcurrent
      · cases hs
        exact h.begin hpc (hok hpc hrv hcurrent)
      · cases hs
        refine h.goto hpc Iff.rfl fun hzero => absurd hzero ?_
        cases rv with
        | ok => exact absurd rfl hrv
        | _ => decide

/-- In every run in which no call starts its transfer with the semaphore already given, a
call that returns `HAL_OK` has had its own transfer completed. -/
theorem spi_matched {actions : List (SpiAction ι)} {s : SpiBus ι}
    (hok : Along NotStale spiStep (SpiBus.init ι) actions)
    (hrun : run spiStep (SpiBus.init ι) actions = some s) : s.Matched := by
  have hstep : ∀ (s : SpiBus ι) a s', s.Ordered → NotStale s a → spiStep s a = some s' →
      s'.Ordered := fun _ _ _ h hok hs => h.step hok hs
  exact (hok.invariant hstep .init hrun).matched

/-- A call that starts its transfer with the semaphore given returns `HAL_OK` at once. -/
theorem not_matched_of_stale {s : SpiBus ι} {i : ι} (hpc : s.pc i = .start)
    (hcurrent : s.current = none) (hsem : s.sem = true) (hnew : s.started ∉ s.completed) :
    ∃ s', run spiStep s [.start i .ok, .next i, .next i, .next i] = some s' ∧ ¬ s'.Matched := by
  obtain ⟨s', hrun, hreturned, hcompleted⟩ :
      ∃ s', run spiStep s [.start i .ok, .next i, .next i, .next i] = some s' ∧
        s'.returned i = some ⟨0, some s.started⟩ ∧ s'.completed = s.completed := by
    simp [run, spiStep, SpiBus.next, SpiBus.begin, SpiBus.goto, SpiBus.leave, hpc, hcurrent, hsem]
  refine ⟨s', hrun, fun hmatched => ?_⟩
  obtain ⟨id, hid, htransfer⟩ := hmatched i _ hreturned rfl
  rw [hcompleted, ← Option.some.inj htransfer] at hid
  exact hnew hid

/-- A transfer that completes while its call waits. -/
theorem spi_matched_transmit :
    ∃ s : SpiBus Unit, s.returned () = some ⟨0, some 0⟩ ∧ s.Matched := by
  have hok : Along NotStale spiStep (SpiBus.init Unit) [.call () (.transmit true 1), .next (),
      .next (), .start () .ok, .handler true, .next (), .next (), .next ()] := by decide
  exact ⟨_, rfl, spi_matched hok rfl⟩

/-- The first transfer times out; it completes when the second call has cleared the
semaphore and not started yet. -/
theorem not_spi_matched :
    ¬ ∀ (ι : Type) [DecidableEq ι] (actions : List (SpiAction ι)) (s : SpiBus ι),
      run spiStep (SpiBus.init ι) actions = some s → s.Matched := by
  intro hall
  have hmatched := hall Unit [.call () (.transmit true 1), .next (), .next (), .start () .ok,
    .timeout (), .next (), .next (), .call () (.receive true 1), .next (), .next (),
    .handler true, .start () .ok, .next (), .next (), .next ()] _ rfl
  obtain ⟨id, hid, htransfer⟩ := hmatched () _ rfl rfl
  cases htransfer
  revert hid
  decide

end Matching

end Catpilot
