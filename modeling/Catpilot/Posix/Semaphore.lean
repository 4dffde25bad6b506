import Catpilot.Posix.Timespec
import Catpilot.Sync.Census
import Catpilot.Transition.Run

/-!
# Semaphores

`FreeRTOS_POSIX_semaphore.c` keeps a counter that is changed atomically, and a counting
semaphore of FreeRTOS that threads wait at when the counter is used up. A wait that times out
does not give back what it took from the counter. Still no permit is lost and none is given
twice, in any order of the steps of any number of threads.
-/

namespace Catpilot

open Sync

/-- `SEM_VALUE_MAX`. -/
def semValueMax : ℕ := 0x7FFF

/-- Where a thread is: in no call, in `sem_post` before it gives, or in `sem_timedwait` before
it takes, with the values of `iStatus` and `xDelay`. -/
inductive SemPlace where
  | outside
  | giving
  | taking (status : Errno) (delay : UInt32)
  deriving DecidableEq, Repr

namespace SemPlace

/-- In `sem_post`. -/
def Gives (p : SemPlace) : Prop := p = giving

instance : DecidablePred Gives := fun p => inferInstanceAs (Decidable (p = giving))

/-- In `sem_timedwait`. -/
def Takes : SemPlace → Prop
  | taking _ _ => True
  | _ => False

instance : DecidablePred Takes
  | taking _ _ => isTrue trivial
  | outside => isFalse id
  | giving => isFalse id

@[simp] theorem gives_giving : Gives giving := rfl

@[simp] theorem not_gives_outside : ¬ Gives outside := SemPlace.noConfusion

@[simp] theorem not_gives_taking (status : Errno) (delay : UInt32) :
    ¬ Gives (taking status delay) := SemPlace.noConfusion

@[simp] theorem takes_taking (status : Errno) (delay : UInt32) : Takes (taking status delay) :=
  trivial

@[simp] theorem not_takes_outside : ¬ Takes outside := id

@[simp] theorem not_takes_giving : ¬ Takes giving := id

end SemPlace

/-- `sem_internal_t` with the threads that use it, and what has happened so far: the calls of
`sem_post`, the waits that have returned 0, and those that have timed out. -/
structure PosixSem (ι : Type*) where
  value : Int32
  count : ℕ
  place : ι → SemPlace
  errno : ι → Errno
  posted : ℕ
  granted : ℕ
  expired : ℕ

/-- A step of a thread. `post` and `wait` are the calls up to the change of the counter, `give`,
`take` and `expire` what they do at the semaphore of FreeRTOS. -/
inductive SemMove (ι : Type*) where
  | post (i : ι)
  | give (i : ι)
  | wait (i : ι) (abstime : Option Timespec) (now : TimeOut)
  | take (i : ι)
  | expire (i : ι)

namespace PosixSem

variable {ι : Type*}

/-- `sem_init`; before it the semaphore has no threads. -/
def semInit (value : UInt32) : Option (PosixSem ι) :=
  if value.toNat > semValueMax then none
  else some ⟨value.toInt32, 0, fun _ => .outside, fun _ => .ok, 0, 0, 0⟩

/-- The values of `iStatus` and `xDelay` in `sem_timedwait`. -/
def semDelay (abstime : Option Timespec) (now : TimeOut) : Errno × UInt32 :=
  match abstime with
  | none => (.ok, TimeOut.portMaxDelay)
  | some t =>
      if t.Valid then
        let (status, delay) := t.toDeltaTicks (Timespec.clockGettime now) TimeOut.portMaxDelay
        if status = .etimedout then (status, 0) else (status, delay)
      else (.einval, 0)

variable [DecidableEq ι]

/-- The thread goes on to another place. -/
def goto (s : PosixSem ι) (i : ι) (p : SemPlace) : PosixSem ι :=
  { s with place := Function.update s.place i p }

/-- One step. `xSemaphoreTake` waits until the count is not 0, or gives up after the delay;
`xSemaphoreGive` does nothing when the count is at its maximum. -/
def step (s : PosixSem ι) : SemMove ι → Option (PosixSem ι)
  | .post i =>
      if s.place i = .outside then
        let s' := { s with value := s.value + 1, posted := s.posted + 1 }
        some (if s.value < 0 then s'.goto i .giving else s')
      else none
  | .give i =>
      if s.place i = .giving then
        some { s.goto i .outside with
          count := if s.count < semValueMax then s.count + 1 else s.count }
      else none
  | .wait i abstime now =>
      if s.place i = .outside then
        let s' := { s with value := s.value - 1 }
        some (if s.value > 0 then { s' with granted := s.granted + 1 }
          else s'.goto i (.taking (semDelay abstime now).1 (semDelay abstime now).2))
      else none
  | .take i =>
      match s.place i with
      | .taking _ _ =>
          if 0 < s.count then
            some { s.goto i .outside with count := s.count - 1, granted := s.granted + 1 }
          else none
      | _ => none
  | .expire i =>
      match s.place i with
      | .taking status delay =>
          if s.count = 0 ∧ delay ≠ TimeOut.portMaxDelay then
            some { s.goto i .outside with
              errno := Function.update s.errno i (if status = .ok then .etimedout else status)
              expired := s.expired + 1 }
          else none
      | _ => none

/-- Neither counter is at its end. -/
def WithinRange (s : PosixSem ι) : SemMove ι → Prop
  | .post _ => s.value.toInt < 2147483647
  | .wait _ _ _ => -2147483648 < s.value.toInt
  | .give _ => s.count < semValueMax
  | _ => True

variable [Fintype ι]

/-- The threads in `sem_post` that have still to give. -/
def givers (s : PosixSem ι) : ℕ := census SemPlace.Gives s.place

/-- The threads that wait. -/
def waiters (s : PosixSem ι) : ℕ := census SemPlace.Takes s.place

/-- What is balanced in every state, after a start with `init`. Of every permit it is known
where it is, and every thread that waits or has timed out is one that the counter is short of,
unless a permit is on its way to it. -/
structure Balanced (init : ℕ) (s : PosixSem ι) : Prop where
  permits : s.granted + max s.value.toInt 0 + s.count + s.givers = init + s.posted
  short : s.waiters + s.expired + min s.value.toInt 0 = s.count + s.givers

variable {init : ℕ} {s s' : PosixSem ι}

/-- The ways in which a step goes on. -/
inductive Steps (s : PosixSem ι) : SemMove ι → PosixSem ι → Prop
  | postWaking {i : ι} (hplace : s.place i = .outside) (hvalue : s.value < 0) :
      Steps s (.post i) ({ s with value := s.value + 1, posted := s.posted + 1 }.goto i .giving)
  | postFree {i : ι} (hplace : s.place i = .outside) (hvalue : ¬ s.value < 0) :
      Steps s (.post i) { s with value := s.value + 1, posted := s.posted + 1 }
  | give {i : ι} (hplace : s.place i = .giving) : Steps s (.give i) { s.goto i .outside with
      count := if s.count < semValueMax then s.count + 1 else s.count }
  | waitFree {i : ι} {abstime : Option Timespec} {now : TimeOut} (hplace : s.place i = .outside)
      (hvalue : s.value > 0) :
      Steps s (.wait i abstime now) { s with value := s.value - 1, granted := s.granted + 1 }
  | waitQueued {i : ι} {abstime : Option Timespec} {now : TimeOut} (hplace : s.place i = .outside)
      (hvalue : ¬ s.value > 0) :
      Steps s (.wait i abstime now) ({ s with value := s.value - 1 }.goto i
        (.taking (semDelay abstime now).1 (semDelay abstime now).2))
  | take {i : ι} {status : Errno} {delay : UInt32} (hplace : s.place i = .taking status delay)
      (hcount : 0 < s.count) : Steps s (.take i)
        { s.goto i .outside with count := s.count - 1, granted := s.granted + 1 }
  | expire {i : ι} {status : Errno} {delay : UInt32} (hplace : s.place i = .taking status delay)
      (hcount : s.count = 0) : Steps s (.expire i) { s.goto i .outside with
        errno := Function.update s.errno i (if status = .ok then .etimedout else status)
        expired := s.expired + 1 }

omit [Fintype ι] in
theorem steps_of_step {m : SemMove ι} (h : s.step m = some s') : s.Steps m s' := by
  cases m with
  | post i =>
      rw [step] at h
      by_cases hplace : s.place i = .outside
      · rw [if_pos hplace, Option.some_inj] at h
        subst h
        by_cases hvalue : s.value < 0
        · rw [if_pos hvalue]
          exact .postWaking hplace hvalue
        · rw [if_neg hvalue]
          exact .postFree hplace hvalue
      · rw [if_neg hplace] at h
        cases h
  | give i =>
      rw [step] at h
      by_cases hplace : s.place i = .giving
      · rw [if_pos hplace, Option.some_inj] at h
        exact h ▸ .give hplace
      · rw [if_neg hplace] at h
        cases h
  | wait i abstime now =>
      rw [step] at h
      by_cases hplace : s.place i = .outside
      · rw [if_pos hplace, Option.some_inj] at h
        subst h
        by_cases hvalue : s.value > 0
        · rw [if_pos hvalue]
          exact .waitFree hplace hvalue
        · rw [if_neg hvalue]
          exact .waitQueued hplace hvalue
      · rw [if_neg hplace] at h
        cases h
  | take i =>
      rw [step] at h
      split at h
      · next status delay hplace =>
          rw [Option.ite_none_right_eq_some, Option.some_inj] at h
          exact h.2 ▸ .take hplace h.1
      · cases h
  | expire i =>
      rw [step] at h
      split at h
      · next status delay hplace =>
          rw [Option.ite_none_right_eq_some, Option.some_inj] at h
          exact h.2 ▸ .expire hplace h.1.1
      · cases h

/-- The places of the threads after one of them has gone to another place. -/
theorem census_goto (place : ι → SemPlace) {i : ι} {p q : SemPlace} (hplace : place i = q) :
    (census SemPlace.Gives (Function.update place i p) + (if q.Gives then 1 else 0) =
        census SemPlace.Gives place + if p.Gives then 1 else 0) ∧
      census SemPlace.Takes (Function.update place i p) + (if q.Takes then 1 else 0) =
        census SemPlace.Takes place + if p.Takes then 1 else 0 := by
  subst hplace
  exact ⟨census_update place i p, census_update place i p⟩

theorem toInt_succ {x : Int32} (h : x.toInt < 2147483647) : (x + 1).toInt = x.toInt + 1 := by
  have hle := x.le_toInt
  have hone : (1 : Int32).toInt = 1 := rfl
  rw [Timespec.toInt_add32 (by omega) (by omega), hone]

theorem toInt_pred {x : Int32} (h : -2147483648 < x.toInt) : (x - 1).toInt = x.toInt - 1 := by
  have hlt := x.toInt_lt
  have hone : (1 : Int32).toInt = 1 := rfl
  rw [Timespec.toInt_sub32 (by omega) (by omega), hone]

/-- Every step keeps the balance. -/
theorem Balanced.step (h : s.Balanced init) {m : SemMove ι} (hrange : s.WithinRange m)
    (hstep : s.step m = some s') : s'.Balanced init := by
  obtain ⟨hpermits, hshort⟩ := h
  rw [givers] at hpermits hshort
  rw [waiters] at hshort
  cases steps_of_step hstep with
  | postWaking hplace hvalue =>
      have hval := toInt_succ hrange
      have hneg : s.value.toInt < 0 := Int32.lt_iff_toInt_lt.1 hvalue
      obtain ⟨hgives, htakes⟩ := census_goto s.place hplace (p := .giving)
      simp at hgives htakes
      constructor <;> simp only [goto, givers, waiters, hval] <;> omega
  | postFree hplace hvalue =>
      have hval := toInt_succ hrange
      have hpos : ¬ s.value.toInt < 0 := fun h => hvalue (Int32.lt_iff_toInt_lt.2 h)
      constructor <;> simp only [givers, waiters, hval] <;> omega
  | give hplace =>
      obtain ⟨hgives, htakes⟩ := census_goto s.place hplace (p := .outside)
      simp at hgives htakes
      have hcount : s.count < semValueMax := hrange
      constructor <;> simp only [goto, givers, waiters, if_pos hcount] <;> omega
  | waitFree hplace hvalue =>
      have hval := toInt_pred hrange
      have hpos : 0 < s.value.toInt := Int32.lt_iff_toInt_lt.1 hvalue
      constructor <;> simp only [givers, waiters, hval] <;> omega
  | @waitQueued i abstime now hplace hvalue =>
      have hval := toInt_pred hrange
      have hneg : ¬ 0 < s.value.toInt := fun h => hvalue (Int32.lt_iff_toInt_lt.2 h)
      obtain ⟨hgives, htakes⟩ := census_goto s.place hplace
        (p := .taking (semDelay abstime now).1 (semDelay abstime now).2)
      simp at hgives htakes
      constructor <;> simp only [goto, givers, waiters, hval] <;> omega
  | take hplace hcount =>
      obtain ⟨hgives, htakes⟩ := census_goto s.place hplace (p := .outside)
      simp at hgives htakes
      constructor <;> simp only [goto, givers, waiters] <;> omega
  | expire hplace hcount =>
      obtain ⟨hgives, htakes⟩ := census_goto s.place hplace (p := .outside)
      simp at hgives htakes
      constructor <;> simp only [goto, givers, waiters] <;> omega

omit [DecidableEq ι] in
theorem balanced_semInit {value : UInt32} (h : semInit value = some s) :
    s.Balanced value.toNat := by
  rw [semInit, Option.ite_none_left_eq_some, Option.some_inj] at h
  obtain ⟨hmax, rfl⟩ := h
  have hval : value.toInt32.toInt = value.toNat := by
    have hlt : 2 * value.toBitVec.toNat < 2 ^ 32 := by
      have hnat : value.toBitVec.toNat = value.toNat := rfl
      rw [semValueMax] at hmax
      omega
    exact BitVec.toInt_eq_toNat_of_lt hlt
  have hgives : census SemPlace.Gives (fun _ : ι => SemPlace.outside) = 0 :=
    census_eq_zero_iff.2 fun _ => SemPlace.not_gives_outside
  have htakes : census SemPlace.Takes (fun _ : ι => SemPlace.outside) = 0 :=
    census_eq_zero_iff.2 fun _ => SemPlace.not_takes_outside
  constructor
  · simp only [givers, hgives, hval]
    omega
  · simp only [givers, waiters, hgives, htakes, hval]
    omega

omit [DecidableEq ι] in
/-- A permit that is left is at hand: what is not granted is in the counter, or in the semaphore
of FreeRTOS, where it can be taken. -/
theorem Balanced.at_hand (h : s.Balanced init) (hgivers : s.givers = 0)
    (hleft : s.granted < init + s.posted) : 0 < s.value.toInt ∨ 0 < s.count := by
  have hpermits := h.permits
  omega

omit [DecidableEq ι] in
/-- A thread waits only where the permits are in the semaphore of FreeRTOS. -/
theorem Balanced.count_pos (h : s.Balanced init) (hgivers : s.givers = 0)
    (hleft : s.granted < init + s.posted) (hwaiters : 0 < s.waiters) : 0 < s.count := by
  have hshort := h.short
  rcases h.at_hand hgivers hleft with hvalue | hcount
  · omega
  · exact hcount

omit [Fintype ι] in
theorem step_take_isSome {i : ι} {status : Errno} {delay : UInt32}
    (hplace : s.place i = .taking status delay) (hcount : 0 < s.count) :
    ∃ s', s.step (.take i) = some s' := by
  rw [step, hplace]
  exact ⟨_, if_pos hcount⟩

/-- In every order of the steps of any number of threads in which the counters stay in their
ranges, waits that time out included: no more waits have returned than there were permits; the
counter is short of the permits by the threads that wait or have timed out; and when no thread
is inside `sem_post`, a permit that is left goes to a thread that waits, or to the next
call, without waiting. -/
theorem sem_permits {value : UInt32} {s₀ : PosixSem ι} {moves : List (SemMove ι)}
    (hinit : semInit value = some s₀) (hrange : Transition.Along WithinRange step s₀ moves)
    (hrun : Transition.run step s₀ moves = some s) :
    s.granted ≤ value.toNat + s.posted ∧
      s.value.toInt = value.toNat + s.posted - s.granted - s.waiters - s.expired ∧
      (s.givers = 0 → s.granted < value.toNat + s.posted →
        (∀ i status delay, s.place i = .taking status delay →
          ∃ s', s.step (.take i) = some s') ∧
        ∀ i abstime now, s.place i = .outside → s.WithinRange (.wait i abstime now) →
          ∃ s', s.step (.wait i abstime now) = some s' ∧
            (s'.granted = s.granted + 1 ∨ ∃ s'', s'.step (.take i) = some s'')) := by
  have hbalanced : s.Balanced value.toNat :=
    hrange.invariant (fun _ _ _ h hok hstep => h.step hok hstep) (balanced_semInit hinit) hrun
  have hpermits := hbalanced.permits
  have hshort := hbalanced.short
  refine ⟨by omega, by omega, fun hgivers hleft => ⟨fun i status delay hplace => ?_,
    fun i abstime now hplace hwithin => ?_⟩⟩
  · have hwaiters : 0 < s.waiters := by
      apply census_pos (i := i)
      rw [hplace]
      exact SemPlace.takes_taking status delay
    exact step_take_isSome hplace (hbalanced.count_pos hgivers hleft hwaiters)
  · refine ⟨_, by rw [step, if_pos hplace], ?_⟩
    by_cases hvalue : s.value > 0
    · rw [if_pos hvalue]
      exact .inl rfl
    · have hpos : ¬ 0 < s.value.toInt := fun h => hvalue (Int32.lt_iff_toInt_lt.2 h)
      have hcount := (hbalanced.at_hand hgivers hleft).resolve_left hpos
      rw [if_neg hvalue]
      exact .inr (step_take_isSome (Function.update_self ..) hcount)

/-- A semaphore without permits, for two threads. -/
def noPermits : PosixSem Bool := ⟨0, 0, fun _ => .outside, fun _ => .ok, 0, 0, 0⟩

/-- A wait that times out before a permit comes. -/
def lateWait : List (SemMove Bool) :=
  [.wait true (some ⟨0, 0⟩) ⟨0, 5⟩, .expire true, .post false, .give false]

theorem sem_permits_lateWait : ∃ s, Transition.run step noPermits lateWait = some s ∧
    s.granted ≤ 0 + s.posted ∧ s.count = 1 := by
  have hinit : semInit 0 = some noPermits := rfl
  have hwait : -2147483648 < noPermits.value.toInt := by decide
  have hrange : Transition.Along WithinRange step noPermits lateWait := by
    refine ⟨hwait, fun s₁ h₁ => ⟨trivial, fun s₂ h₂ => ?_⟩⟩
    obtain rfl := Option.some_inj.1 h₁
    obtain rfl := Option.some_inj.1 h₂
    have hpost : (-1 : Int32).toInt < 2147483647 := by decide
    refine ⟨hpost, fun s₃ h₃ => ?_⟩
    obtain rfl := Option.some_inj.1 h₃
    have hgive : 0 < semValueMax := by decide
    exact ⟨hgive, fun _ _ => trivial⟩
  exact ⟨_, rfl, (sem_permits hinit hrange rfl).1, rfl⟩

end PosixSem

end Catpilot
