import Catpilot.Sd.Card
import Catpilot.Transition.Run
import Mathlib.Order.BooleanAlgebra.Set

/-!
# The locks of the SD stack

Every program of the SD stack but the three getters is well locked, up to the branch of a
transfer that gives up on the mutex: that one changes the state of the transfer and gives the
mutex of another call. A getter takes the mutex of the card twice.
-/

namespace Catpilot

open Sync Transition

/-! ## The programs -/

/-- What a call of the SD stack does when it gives up on a mutex is not legal. -/
def GivesUp (held : Set SdMutex) (p : SdProgram) : Prop := ¬ p.Legal held

section Programs

variable {held : Set SdMutex} {timeout : UInt32} {k : ℕ → SdProgram}

theorem wellLocked_check (hk : ∀ rv, WellLocked GivesUp held (k rv)) :
    WellLocked GivesUp held (sdioCheckStatusWithTimeout timeout k) := by
  refine .ask fun _ a p hp => ?_
  cases a with
  | readings start readings =>
      obtain ⟨rv, _, rfl⟩ := Option.map_eq_some_iff.1 hp
      exact hk rv
  | _ => cases hp

theorem wellLocked_free (h : SdMutex.sdio ∉ held) (hk : ∀ rv, WellLocked GivesUp held (k rv))
    (rv : ℕ) : WellLocked GivesUp (insert .sdio held) (sdioFree rv k) := by
  refine .assign ?_ (.unlock (Set.mem_insert _ _) ?_)
  · simp
  · rw [Set.insert_sdiff_self_of_notMem h]
    exact hk rv

theorem wellLocked_transferred (h : SdMutex.sdio ∉ held)
    (hk : ∀ rv, WellLocked GivesUp held (k rv)) (rv : ℕ) :
    WellLocked GivesUp (insert .sdio held) (sdioTransferred rv k) := by
  refine .ask fun _ a p hp => ?_
  cases a with
  | errorCode code =>
      cases hp
      exact wellLocked_free h hk _
  | _ => cases hp

theorem wellLocked_transfer (state : SdioState) (h : SdMutex.sdio ∉ held)
    (hk : ∀ rv, WellLocked GivesUp held (k rv)) :
    WellLocked GivesUp (insert .sdio held) (sdioTransfer timeout state k) := by
  refine .assign (by simp) (.assign (by simp) (wellLocked_check fun rv => ?_))
  split_ifs
  · exact wellLocked_free h hk rv
  · refine .ask fun _ a p hp => ?_
    cases a with
    | status rv =>
        rw [Option.some.injEq] at hp
        subst hp
        split_ifs
        · exact wellLocked_free h hk _
        · exact .wait (wellLocked_transferred h hk 0) (wellLocked_transferred h hk rvEtimedout)
    | _ => cases hp

/-- A transfer that has the mutex gives it back; one that gives up on it is at an operation
that is not legal. -/
theorem wellLocked_blocks (state : SdioState) (pdata : Bool) (num : ℕ)
    (h : SdMutex.sdio ∉ held) (hk : ∀ rv, WellLocked GivesUp held (k rv)) :
    WellLocked GivesUp held (sdioBlocks timeout state pdata num k) := by
  rw [sdioBlocks]
  split_ifs
  · exact hk rvEinval
  · exact .lockWithin h (wellLocked_transfer state h hk) fun hlegal => h (hlegal .sdio rfl)

theorem wellLocked_return (rv : ℕ) :
    WellLocked GivesUp (insert .card ∅) (sdcardReturn rv) :=
  .unlock (Set.mem_insert _ _) (.done (by simp))

theorem wellLocked_getInfo (h : SdMutex.card ∉ held)
    (hk : ∀ rv, WellLocked GivesUp held (k rv)) :
    WellLocked GivesUp held (sdcardGetInfo k) := by
  refine .lock h (.ask fun _ a p hp => ?_)
  cases a with
  | info rv info =>
      cases hp
      refine .assign (by simp) (.unlock (Set.mem_insert _ _) ?_)
      rw [Set.insert_sdiff_self_of_notMem h]
      exact hk _
  | _ => cases hp

theorem wellLocked_getStatus (hk : ∀ rv, WellLocked GivesUp held (k rv)) :
    WellLocked GivesUp held (sdioGetStatus k) := by
  refine .ask fun _ a p hp => ?_
  cases a with
  | cardState state =>
      cases hp
      exact hk _
  | _ => cases hp

theorem wellLocked_done (rv : ℕ) : WellLocked GivesUp ∅ (.done rv : SdProgram) :=
  .done fun _ => Set.notMem_empty _

end Programs

/-- The calls that take the mutex of the card and call `sdcard_get_info`. -/
def SdCall.Nested : SdCall → Prop
  | sdcardGetSectorCount | sdcardGetSectorSize | sdcardGetBlockSize => True
  | _ => False

/-- Every call but the getters is well locked. -/
theorem SdCall.wellLocked (timeout : UInt32) {c : SdCall} (h : ¬ c.Nested) :
    WellLocked GivesUp ∅ (c.program timeout) := by
  have hsdio : SdMutex.sdio ∉ (∅ : Set SdMutex) := Set.notMem_empty _
  have hcard : SdMutex.card ∉ (∅ : Set SdMutex) := Set.notMem_empty _
  have hboth : SdMutex.sdio ∉ (insert .card ∅ : Set SdMutex) := by simp
  cases c with
  | sdioReadBlocks pdata num => exact wellLocked_blocks .read pdata num hsdio wellLocked_done
  | sdioWriteBlocks pdata num => exact wellLocked_blocks .write pdata num hsdio wellLocked_done
  | sdioCheckStatusWithTimeout timeout => exact wellLocked_check wellLocked_done
  | sdioGetStatus => exact wellLocked_getStatus wellLocked_done
  | sdioDetect =>
      refine .ask fun _ a p hp => ?_
      cases a with
      | pin reset =>
          cases reset with
          | _ =>
              cases hp
              exact .assign (by simp) (wellLocked_done _)
      | _ => cases hp
  | sdioGetInfo =>
      refine .ask fun _ a p hp => ?_
      cases a with
      | info rv info =>
          cases hp
          exact wellLocked_done _
      | _ => cases hp
  | sdcardInit => exact wellLocked_done 0
  | sdcardRead pdata num =>
      exact .lock hcard (wellLocked_blocks .read pdata num hboth wellLocked_return)
  | sdcardWrite pdata num =>
      exact .lock hcard (wellLocked_blocks .write pdata num hboth wellLocked_return)
  | sdcardGetInfo => exact wellLocked_getInfo hcard wellLocked_done
  | sdcardGetStatus => exact .lock hcard (wellLocked_getStatus wellLocked_return)
  | sdcardGetStatusWithTimeout => exact .lock hcard (wellLocked_check wellLocked_return)
  | sdcardGetSectorCount => exact absurd trivial h
  | sdcardGetSectorSize => exact absurd trivial h
  | sdcardGetBlockSize => exact absurd trivial h

/-- A getter is before the mutex of the card, and then before the same one again. -/
theorem SdCall.Nested.program_eq {c : SdCall} (h : c.Nested) (timeout : UInt32) :
    ∃ next, c.program timeout = .lock .card (.lock .card next) := by
  cases c with
  | sdcardGetSectorCount => exact ⟨_, rfl⟩
  | sdcardGetSectorSize => exact ⟨_, rfl⟩
  | sdcardGetBlockSize => exact ⟨_, rfl⟩
  | _ => exact absurd h id

/-! ## The runs -/

section Runs

variable {ι : Type*} {timeout : UInt32} {s s' : SdSystem ι} {a : SdMove ι} {i : ι}

/-- No call gives up on a mutex that is taken, and no getter takes the mutex of the card. -/
def SdPatient (timeout : UInt32) (s : SdSystem ι) : SdMove ι → Prop
  | .late i => ∀ m, (s.thread i).Hurried m → s.owner m = none
  | .go i => ∀ c : SdCall, c.Nested → s.thread i = c.program timeout → s.owner .card ≠ none
  | _ => True

/-- A task in a well-locked program, or before a getter that has taken nothing. -/
def SdThread (timeout : UInt32) (held : Set SdMutex) (p : SdProgram) : Prop :=
  WellLocked GivesUp held p ∨
    (∀ m, m ∉ held) ∧ ∃ c : SdCall, c.Nested ∧ p = c.program timeout

/-- Every task is so. -/
def SdLocked (timeout : UInt32) (s : SdSystem ι) : Prop :=
  ∀ i, SdThread timeout (s.held i) (s.thread i)

theorem SdThread.legal {held : Set SdMutex} {p : SdProgram} (h : SdThread timeout held p) :
    p.Legal held := by
  obtain h | ⟨hheld, c, hc, rfl⟩ := h
  · exact h.legal
  · obtain ⟨next, hnext⟩ := hc.program_eq timeout
    rw [hnext]
    exact hheld .card

theorem SdLocked.respected (h : SdLocked timeout s) : s.Respected := fun i => (h i).legal

theorem SdLocked.init : SdLocked timeout (SdSystem.init ι) := by
  intro i
  left
  exact .done fun m hm => by cases hm

variable [DecidableEq ι]

/-- After the step every operation that a task is before is legal. -/
def KeepsRespected (timeout : UInt32) (s : SdSystem ι) (a : SdMove ι) : Prop :=
  ∀ s', sdStep timeout s a = some s' → s'.Respected

theorem SdLocked.call (h : SdLocked timeout s) {c : SdCall}
    (hs : sdStep timeout s (.call i c) = some s') : SdLocked timeout s' := by
  rw [sdStep, System.step] at hs
  cases hp : s.thread i with
  | done r =>
      simp only [hp, Option.some.injEq] at hs
      subst hs
      have hnone : ∀ m, m ∉ s.held i := by
        have hlegal := h.respected i
        rwa [hp] at hlegal
      refine (s.goto_frame i _).forall h ?_
      rw [System.goto_thread]
      by_cases hc : c.Nested
      · exact .inr ⟨hnone, c, hc, rfl⟩
      · left
        have hempty : (s.goto i (c.program timeout)).held i = ∅ :=
          Set.eq_empty_of_forall_notMem hnone
        rw [hempty]
        exact c.wellLocked timeout hc
  | _ => simp [hp] at hs

/-- A task that goes on is not before a getter, since the mutex of the card is taken. -/
theorem SdLocked.go (h : SdLocked timeout s) (hok : SdPatient timeout s (.go i))
    (hs : s.go i = some s') : SdLocked timeout s' := by
  refine (System.go_frame (h.respected i) hs).forall h ?_
  obtain hwell | ⟨_, c, hc, hp⟩ := h i
  · exact .inl (hwell.go hs)
  · have htaken := hok c hc hp
    obtain ⟨next, hnext⟩ := hc.program_eq timeout
    simp [System.go, hp, hnext, htaken] at hs

theorem SdLocked.late (h : SdLocked timeout s) (hok : SdPatient timeout s (.late i))
    (hs : s.late i = some s') : SdLocked timeout s' := by
  refine (System.late_frame hs).forall h ?_
  obtain hwell | ⟨_, c, hc, hp⟩ := h i
  · exact .inl (hwell.late hok hs)
  · obtain ⟨next, hnext⟩ := hc.program_eq timeout
    simp [System.late, hp, hnext] at hs

theorem SdLocked.answer (h : SdLocked timeout s) {answer : SdAnswer}
    (hs : s.answer i answer = some s') : SdLocked timeout s' := by
  refine (System.answer_frame hs).forall h ?_
  obtain hwell | ⟨_, c, hc, hp⟩ := h i
  · exact .inl (hwell.answer hs)
  · obtain ⟨next, hnext⟩ := hc.program_eq timeout
    simp [System.answer, hp, hnext] at hs

theorem SdLocked.step (h : SdLocked timeout s) (hok : SdPatient timeout s a)
    (hs : sdStep timeout s a = some s') : SdLocked timeout s' := by
  cases a with
  | call i c => exact h.call hs
  | go i => exact h.go hok hs
  | late i => exact h.late hok hs
  | answer i answer => exact h.answer hs
  | event ready =>
      cases hs
      exact h

/-- A call that gives up on the mutex of the interface is at an operation that is not
legal. -/
theorem SdLocked.not_keeps_late (h : SdLocked timeout s) {m : SdMutex}
    (hhurried : (s.thread i).Hurried m) (htaken : s.owner m ≠ none) :
    ¬ KeepsRespected timeout s (.late i) := by
  intro hkeeps
  obtain hwell | ⟨_, c, hc, hp⟩ := h i
  · obtain ⟨s', hs, hgives⟩ := hwell.hurried hhurried htaken
    exact hgives (hkeeps s' hs i)
  · obtain ⟨next, hnext⟩ := hc.program_eq timeout
    rw [hp, hnext] at hhurried
    exact hhurried

/-- A getter that has taken the mutex of the card is before the same mutex. -/
theorem not_keeps_nested {c : SdCall} (hc : c.Nested) (hp : s.thread i = c.program timeout)
    (hfree : s.owner .card = none) : ¬ KeepsRespected timeout s (.go i) := by
  intro hkeeps
  obtain ⟨next, hnext⟩ := hc.program_eq timeout
  have hs : sdStep timeout s (.go i) = some (s.take i .card (.lock .card next)) := by
    simp [sdStep, System.step, System.go, hp, hnext, hfree]
  have hlegal := hkeeps _ hs i
  rw [System.take_held, System.take, System.goto_thread] at hlegal
  exact hlegal (Set.mem_insert _ _)

theorem SdLocked.keeps_iff (h : SdLocked timeout s) (a : SdMove ι) :
    KeepsRespected timeout s a ↔ SdPatient timeout s a := by
  refine ⟨fun hkeeps => ?_, fun hok s' hs => (h.step hok hs).respected⟩
  cases a with
  | late i =>
      intro m hhurried
      by_contra htaken
      exact h.not_keeps_late hhurried htaken hkeeps
  | go i => exact fun c hc hp hfree => not_keeps_nested hc hp hfree hkeeps
  | _ => trivial

/-- In every run of the tasks, with any results and timeouts, every operation on the mutexes
and on the state of the transfer is legal if and only if no transfer gives up on the mutex of
the interface and no getter takes the mutex of the card. -/
theorem sd_respected_iff (timeout : UInt32) (moves : List (SdMove ι)) :
    Along (KeepsRespected timeout) (sdStep timeout) (SdSystem.init ι) moves ↔
      Along (SdPatient timeout) (sdStep timeout) (SdSystem.init ι) moves := by
  have hstep : ∀ (s : SdSystem ι) a s', SdLocked timeout s → SdPatient timeout s a →
      sdStep timeout s a = some s' → SdLocked timeout s' := fun _ _ _ h hok hs => h.step hok hs
  have hiff : ∀ (s : SdSystem ι) a, SdLocked timeout s →
      (KeepsRespected timeout s a ↔ SdPatient timeout s a) := fun _ a h => h.keeps_iff a
  exact along_congr hstep hiff .init moves

/-- A read of blocks has the mutex, and another one gives up on it: it is about to free the
state of the transfer of the first. -/
theorem not_sd_respected :
    ¬ ∀ (ι : Type) [DecidableEq ι] (timeout : UInt32) (moves : List (SdMove ι)),
      Along (KeepsRespected timeout) (sdStep timeout) (SdSystem.init ι) moves := by
  intro hall
  have hruns := hall Bool 100 ([.call false (.sdioReadBlocks true 1), .go false,
    .call true (.sdioReadBlocks true 1)] ++ [.late true])
  have hkeeps := ((along_append.1 hruns).2 _ rfl).1
  have hlegal := hkeeps _ rfl true
  cases hlegal .sdio rfl

end Runs

end Catpilot
