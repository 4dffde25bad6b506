import Catpilot.Memory.EventMask
import Catpilot.Posix.Errno
import Catpilot.Posix.EventGroup
import Catpilot.Sync.Census
import Catpilot.Transition.Run
import Mathlib.Data.UInt

/-!
# Barriers

`FreeRTOS_POSIX_pthread_barrier.c`: a counting semaphore lets as many threads in as the
barrier is for, each one gets a number and waits for the bits of all in an event group. The
first of them resets the number and lets in the threads of the next cycle, while the others of
its own may still be on their way out. The event group is any that does what `event_groups.h`
says.
-/

namespace Catpilot

open Sync

/-- `posixPTHREAD_BARRIER_MAX_COUNT`. -/
def posixPthreadBarrierMaxCount : UInt32 := 24

/-- Where a thread is in `pthread_barrier_wait`: it has taken the semaphore, has its number
`uThreadNumber`, waits in `xEventGroupSync`, is released from it, or is in the loop that gives
the semaphore. -/
inductive BarrierPlace where
  | outside
  | entered
  | numbered (uThreadNumber : UInt32)
  | syncing (uThreadNumber : UInt32)
  | released (uThreadNumber : UInt32)
  | giving (i : UInt32)
  deriving DecidableEq, Repr

/-- `pthread_barrier_internal_t` with the threads that use it, and what has happened so far:
the times that a thread has taken the semaphore, the cycles, and the calls that have returned
`PTHREAD_BARRIER_SERIAL_THREAD`. -/
structure PosixBarrier (ι G : Type*) where
  uThreadCount : UInt32
  uThreshold : UInt32
  semaphore : ℕ
  group : G
  place : ι → BarrierPlace
  arrived : ℕ
  cycles : ℕ
  serials : ℕ

/-- A step of a thread in `pthread_barrier_wait`. -/
inductive BarrierMove (ι : Type*) where
  | enter (i : ι)
  | number (i : ι)
  | sync (i : ι)
  | wake (i : ι)
  | give (i : ι)
  deriving DecidableEq, Repr

namespace BarrierPlace

/-- `xEventGroupSync` returns. -/
def release : BarrierPlace → BarrierPlace
  | syncing k => released k
  | p => p

/-- What a thread in `xEventGroupSync` waits for. -/
def awaits (all : BitVec 32) : BarrierPlace → Option (BitVec 32)
  | syncing _ => some all
  | _ => none

/-- The number of a thread that has one in the present cycle. -/
def number? : BarrierPlace → Option UInt32
  | numbered k | syncing k => some k
  | _ => none

/-- The thread has a number in the present cycle. -/
def Numbered (p : BarrierPlace) : Prop := p.number? ≠ none

instance : DecidablePred Numbered := fun p => inferInstanceAs (Decidable (p.number? ≠ none))

/-- The thread is in the present cycle. -/
def Inside (p : BarrierPlace) : Prop := p = entered ∨ p.Numbered

instance : DecidablePred Inside := fun p =>
  inferInstanceAs (Decidable (p = entered ∨ p.Numbered))

/-- How often a thread has still to give the semaphore, of `n` times. -/
def owes (n : ℕ) : BarrierPlace → ℕ
  | released k => if k = 0 then n else 0
  | giving i => n - i.toNat
  | _ => 0

/-- The thread will return `PTHREAD_BARRIER_SERIAL_THREAD`. -/
def Serial (n : ℕ) (p : BarrierPlace) : Prop := 0 < p.owes n

instance (n : ℕ) : DecidablePred (Serial n) := fun p => inferInstanceAs (Decidable (0 < p.owes n))

theorem eq_of_awaits {all m : BitVec 32} {p : BarrierPlace} (h : p.awaits all = some m) :
    m = all := by
  cases p with
  | syncing _ => exact (Option.some_inj.1 h).symm
  | _ => cases h

theorem awaits_of_number {p : BarrierPlace} (h : p.number? = none) (all : BitVec 32) :
    p.awaits all = none := by
  cases p with
  | syncing _ => cases h
  | _ => rfl

/-- Only a thread that waits is released. -/
theorem release_of_awaits {all : BitVec 32} {p : BarrierPlace} (h : p.awaits all = none) :
    p.release = p := by
  cases p with
  | syncing _ => cases h
  | _ => rfl

section Kinds

variable (n : ℕ) (k : UInt32)

@[simp] theorem inside_entered : Inside entered := .inl rfl

@[simp] theorem not_inside_outside : ¬ Inside outside := by simp [Inside, Numbered, number?]

@[simp] theorem not_inside_released : ¬ Inside (released k) := by simp [Inside, Numbered, number?]

@[simp] theorem not_inside_giving : ¬ Inside (giving k) := by simp [Inside, Numbered, number?]

@[simp] theorem not_serial_outside : ¬ Serial n outside := lt_irrefl 0

@[simp] theorem not_serial_entered : ¬ Serial n entered := lt_irrefl 0

@[simp] theorem serial_released_iff : Serial n (released k) ↔ k = 0 ∧ 0 < n := by
  rw [Serial, owes]
  split_ifs with hk
  · exact (and_iff_right hk).symm
  · exact iff_of_false (lt_irrefl 0) fun h => hk h.1

@[simp] theorem serial_giving_iff : Serial n (giving k) ↔ k.toNat < n := Nat.sub_pos_iff_lt

end Kinds

end BarrierPlace

namespace PosixBarrier

variable {ι G : Type*} (E : EventGroup ι G)

/-- `pthread_barrier_init`; before it the barrier has no threads. -/
def init (count : UInt32) : Except Errno (PosixBarrier ι G) :=
  if count = 0 then .error .einval
  else if count > posixPthreadBarrierMaxCount then .error .enomem
  else .ok ⟨0, count, count.toNat, E.create, fun _ => .outside, 0, 0, 0⟩

section Code

variable [DecidableEq ι]

/-- The bits that a thread waits for. -/
def allBits (s : PosixBarrier ι G) : BitVec 32 := (1#32 <<< s.uThreshold.toNat) - 1

/-- The thread goes on to another place. -/
def goto (s : PosixBarrier ι G) (i : ι) (p : BarrierPlace) : PosixBarrier ι G :=
  { s with place := Function.update s.place i p }

@[simp] theorem goto_place (s : PosixBarrier ι G) (i : ι) (p : BarrierPlace) :
    (s.goto i p).place = Function.update s.place i p := rfl

/-- `xEventGroupSync` of a thread with the number `k`. The threads that do not wait any more
after it go on; when the thread itself is one of them, a cycle is complete. -/
def eventGroupSync (s : PosixBarrier ι G) (i : ι) (k : UInt32) : PosixBarrier ι G :=
  let group := E.sync s.group i (1#32 <<< k.toNat) s.allBits
  let place := (s.goto i (.syncing k)).place
  { s with
    group
    place := fun j => if E.awaits group j = none then (place j).release else place j
    cycles := if E.awaits group i = none then s.cycles + 1 else s.cycles }

/-- One step. `xSemaphoreTake` waits until the count is not 0; `xSemaphoreGive` does nothing
when it is at its maximum. -/
def step (s : PosixBarrier ι G) : BarrierMove ι → Option (PosixBarrier ι G)
  | .enter i =>
      if s.place i = .outside ∧ 0 < s.semaphore then
        some { s.goto i .entered with semaphore := s.semaphore - 1, arrived := s.arrived + 1 }
      else none
  | .number i =>
      if s.place i = .entered then
        some { s.goto i (.numbered s.uThreadCount) with uThreadCount := s.uThreadCount + 1 }
      else none
  | .sync i =>
      match s.place i with
      | .numbered k => some (s.eventGroupSync E i k)
      | _ => none
  | .wake i =>
      match s.place i with
      | .released k =>
          if k = 0 then some { s.goto i (.giving 0) with uThreadCount := 0 }
          else some (s.goto i .outside)
      | _ => none
  | .give i =>
      match s.place i with
      | .giving j =>
          let semaphore := if s.semaphore < s.uThreshold.toNat then s.semaphore + 1
            else s.semaphore
          if j + 1 < s.uThreshold then some { s.goto i (.giving (j + 1)) with semaphore }
          else some { s.goto i .outside with semaphore, serials := s.serials + 1 }
      | _ => none

end Code

variable [Fintype ι]

/-- What holds of the threads of a barrier for `n` threads. Of the semaphore it is known where
it is: in its count, with the threads of the present cycle, or owed by the first thread of the
cycle before. -/
structure Invariant (n : ℕ) (s : PosixBarrier ι G) : Prop where
  threshold : s.uThreshold.toNat = n
  pos : 0 < n
  le : n ≤ 24
  balance : s.semaphore + census BarrierPlace.Inside s.place +
    total (BarrierPlace.owes n) s.place = n
  counted : (∃ i, s.place i = .released 0) ∨
    s.uThreadCount.toNat = census BarrierPlace.Numbered s.place
  number_lt : ∀ i k, (s.place i).number? = some k → k.toNat < s.uThreadCount.toNat
  number_inj : ∀ i j k, (s.place i).number? = some k → (s.place j).number? = some k → i = j
  bit_iff : ∀ k < 32, EventMask.isSet (E.bits s.group) k = true ↔
    ∃ i c, s.place i = .syncing c ∧ c.toNat = k
  awaits_eq : ∀ i, E.awaits s.group i = (s.place i).awaits s.allBits
  closed : ∃ k < n, EventMask.isSet (E.bits s.group) k = false
  giving_lt : ∀ i j, s.place i = .giving j → j.toNat < n
  serial_unique : ∀ i j, (s.place i).Serial n → (s.place j).Serial n → i = j
  serials : s.serials + census (BarrierPlace.Serial n) s.place = s.cycles
  arrived : s.arrived = n * s.cycles + census BarrierPlace.Inside s.place

variable {E} {n : ℕ} {s s' : PosixBarrier ι G}

theorem census_numbered_le (place : ι → BarrierPlace) :
    census BarrierPlace.Numbered place ≤ census BarrierPlace.Inside place := by
  rw [census_eq_card, census_eq_card]
  apply Finset.card_le_card
  intro i hi
  rw [Finset.mem_filter] at hi ⊢
  exact ⟨hi.1, .inr hi.2⟩

/-- While the first thread of a cycle has not reset the number, no thread is in the next. -/
theorem Invariant.nobody (h : s.Invariant E n) {i : ι} (hi : s.place i = .released 0) :
    s.semaphore = 0 ∧ census BarrierPlace.Inside s.place = 0 := by
  have hbalance := h.balance
  have hle : (s.place i).owes n ≤ total (BarrierPlace.owes n) s.place := le_total i
  rw [hi] at hle
  change n ≤ _ at hle
  omega

theorem Invariant.count_eq (h : s.Invariant E n) {i : ι} (hi : (s.place i).Inside) :
    s.uThreadCount.toNat = census BarrierPlace.Numbered s.place := by
  refine h.counted.resolve_left ?_
  rintro ⟨j, hj⟩
  exact (census_pos hi).ne' (h.nobody hj).2

/-- Nobody has a number when nobody is in the cycle. -/
theorem number_eq_none (hempty : census BarrierPlace.Inside s.place = 0) (i : ι) :
    (s.place i).number? = none := by
  by_contra hne
  exact census_eq_zero_iff.1 hempty i (.inr hne)

variable [DecidableEq ι]

section Quiet

variable {i : ι} {p : BarrierPlace}

/-- What a thread counts for after it has gone from one place to another. -/
theorem place_counts (place : ι → BarrierPlace) (i : ι) (p : BarrierPlace) (n : ℕ) :
    (census BarrierPlace.Inside (Function.update place i p) +
        (if (place i).Inside then 1 else 0) =
      census BarrierPlace.Inside place + if p.Inside then 1 else 0) ∧
    (census BarrierPlace.Numbered (Function.update place i p) +
        (if (place i).Numbered then 1 else 0) =
      census BarrierPlace.Numbered place + if p.Numbered then 1 else 0) ∧
    (total (BarrierPlace.owes n) (Function.update place i p) + (place i).owes n =
      total (BarrierPlace.owes n) place + p.owes n) ∧
    census (BarrierPlace.Serial n) (Function.update place i p) +
        (if (place i).Serial n then 1 else 0) =
      census (BarrierPlace.Serial n) place + if p.Serial n then 1 else 0 :=
  ⟨census_update place i p, census_update place i p, total_update place i p,
    census_update place i p⟩

/-- A step of a thread that neither gets a number nor synchronizes. -/
structure Quiet (n : ℕ) (s s' : PosixBarrier ι G) (i : ι) (p : BarrierPlace) : Prop where
  place : s'.place = Function.update s.place i p
  uThreshold : s'.uThreshold = s.uThreshold
  group : s'.group = s.group
  cycles : s'.cycles = s.cycles
  number : p.number? = none
  number_old : (s.place i).number? = none
  giving : ∀ j, p = .giving j → j.toNat < n
  serial : p.Serial n → (s.place i).Serial n
  counter : (s'.uThreadCount = s.uThreadCount ∧ s.place i ≠ .released 0) ∨
    (s'.uThreadCount = 0 ∧ s.place i = .released 0)
  balance : s'.semaphore + (if p.Inside then 1 else 0) + p.owes n =
    s.semaphore + (if (s.place i).Inside then 1 else 0) + (s.place i).owes n
  serials : s'.serials + (if p.Serial n then 1 else 0) =
    s.serials + (if (s.place i).Serial n then 1 else 0)
  arrived : s'.arrived + (if (s.place i).Inside then 1 else 0) =
    s.arrived + (if p.Inside then 1 else 0)

theorem Quiet.invariant (hq : Quiet n s s' i p) (h : s.Invariant E n) : s'.Invariant E n := by
  have hbalance := h.balance
  have hserials := h.serials
  have harrived := h.arrived
  obtain ⟨hinside, hnumbered, howes, hserial⟩ := place_counts s.place i p n
  rw [← hq.place] at hinside hnumbered howes hserial
  have hnone : ¬ p.Numbered := not_not.2 hq.number
  have hnone' : ¬ (s.place i).Numbered := not_not.2 hq.number_old
  rw [if_neg hnone, if_neg hnone'] at hnumbered
  have hbal := hq.balance
  have hser := hq.serials
  have harr := hq.arrived
  have hcycles := hq.cycles
  have hsame : ∀ j, (s'.place j).number? = (s.place j).number? := by
    intro j
    rw [hq.place]
    by_cases hj : j = i
    · rw [hj, Function.update_self, hq.number, hq.number_old]
    · rw [Function.update_of_ne hj]
  have hserial_of : ∀ j, (s'.place j).Serial n → (s.place j).Serial n := by
    intro j hj
    rw [hq.place] at hj
    by_cases hji : j = i
    · rw [hji, Function.update_self] at hj
      rw [hji]
      exact hq.serial hj
    · rwa [Function.update_of_ne hji] at hj
  have hsyncing : ∀ j c, s'.place j = .syncing c ↔ s.place j = .syncing c := by
    intro j c
    rw [hq.place]
    by_cases hji : j = i
    · rw [hji, Function.update_self]
      refine iff_of_false (fun hp => ?_) fun hp => ?_
      · exact absurd hq.number (hp ▸ Option.some_ne_none c)
      · exact absurd hq.number_old (hp ▸ Option.some_ne_none c)
    · rw [Function.update_of_ne hji]
  have hawaits : ∀ j, E.awaits s'.group j = (s'.place j).awaits s'.allBits := by
    intro j
    have hall : s'.allBits = s.allBits := by rw [allBits, hq.uThreshold, ← allBits]
    rw [hq.group, hq.place, hall, h.awaits_eq]
    by_cases hji : j = i
    · rw [hji, Function.update_self, BarrierPlace.awaits_of_number hq.number,
        BarrierPlace.awaits_of_number hq.number_old]
    · rw [Function.update_of_ne hji]
  refine ⟨hq.uThreshold ▸ h.threshold, h.pos, h.le, by omega, ?_, fun j k hj => ?_,
    fun j j' k hj hj' => ?_, fun k hk => ?_, hawaits, hq.group ▸ h.closed, fun j c hj => ?_,
    fun j j' hj hj' => ?_, by omega, ?_⟩
  · rcases hq.counter with ⟨hcount, hne⟩ | ⟨hcount, heq⟩
    · rcases h.counted with ⟨j, hj⟩ | hcounted
      · refine .inl ⟨j, ?_⟩
        rwa [hq.place, Function.update_of_ne]
        rintro rfl
        exact hne hj
      · exact .inr (by rw [hcount]; omega)
    · have hzero := (h.nobody heq).2
      have hle := census_numbered_le s.place
      refine .inr ?_
      rw [hcount]
      change 0 = _
      omega
  · rw [hsame] at hj
    rcases hq.counter with ⟨hcount, -⟩ | ⟨-, heq⟩
    · rw [hcount]
      exact h.number_lt j k hj
    · rw [number_eq_none (h.nobody heq).2 j] at hj
      cases hj
  · rw [hsame] at hj hj'
    exact h.number_inj j j' k hj hj'
  · rw [hq.group, h.bit_iff k hk]
    simp only [hsyncing]
  · rw [hq.place] at hj
    by_cases hji : j = i
    · rw [hji, Function.update_self] at hj
      exact hq.giving c hj
    · rw [Function.update_of_ne hji] at hj
      exact h.giving_lt j c hj
  · exact h.serial_unique j j' (hserial_of j hj) (hserial_of j' hj')
  · rw [hcycles]
    omega

end Quiet

/-- The thread that has just entered is one more than those with a number. -/
theorem numbered_lt {i : ι} (hi : s.place i = .entered) :
    census BarrierPlace.Numbered s.place < census BarrierPlace.Inside s.place := by
  obtain ⟨hinside, hnumbered, -, -⟩ := place_counts s.place i .outside 0
  rw [hi] at hinside hnumbered
  have hle := census_numbered_le (Function.update s.place i .outside)
  rw [if_pos (by decide), if_neg (by decide)] at hinside
  rw [if_neg (by decide), if_neg (by decide)] at hnumbered
  omega

theorem Invariant.number (h : s.Invariant E n) {i : ι} (hi : s.place i = .entered) :
    Invariant E n { s.goto i (.numbered s.uThreadCount) with
      uThreadCount := s.uThreadCount + 1 } := by
  have hbalance := h.balance
  have hserials := h.serials
  have harrived := h.arrived
  have hcounted := h.count_eq (i := i) (.inl hi)
  have hlt := numbered_lt hi
  have hle := h.le
  have hsucc : (s.uThreadCount + 1).toNat = s.uThreadCount.toNat + 1 := by
    have hone : (1 : UInt32).toNat = 1 := rfl
    rw [UInt32.toNat_add, hone]
    omega
  obtain ⟨hinside, hnumbered, howes, hserial⟩ :=
    place_counts s.place i (.numbered s.uThreadCount) n
  have hout : ¬ (BarrierPlace.numbered s.uThreadCount).Serial n := (lt_irrefl 0 ·)
  have hout' : ¬ (BarrierPlace.entered).Serial n := (lt_irrefl 0 ·)
  have hin : (BarrierPlace.numbered s.uThreadCount).Numbered := Option.some_ne_none _
  have hnew : (BarrierPlace.numbered s.uThreadCount).Inside := .inr hin
  rw [hi, if_pos (by decide), if_pos hnew] at hinside
  rw [hi, if_neg (by decide), if_pos hin] at hnumbered
  rw [hi] at howes
  change _ + 0 = _ + 0 at howes
  rw [hi, if_neg hout, if_neg hout'] at hserial
  have hcase : ∀ j k, (Function.update s.place i (.numbered s.uThreadCount) j).number? = some k →
      j = i ∧ s.uThreadCount = k ∨ j ≠ i ∧ (s.place j).number? = some k := by
    intro j k hj
    by_cases hji : j = i
    · rw [hji, Function.update_self] at hj
      exact .inl ⟨hji, Option.some_inj.1 hj⟩
    · rw [Function.update_of_ne hji] at hj
      exact .inr ⟨hji, hj⟩
  have hother : ∀ j q, .numbered s.uThreadCount ≠ q → .entered ≠ q →
      (Function.update s.place i (.numbered s.uThreadCount) j = q ↔ s.place j = q) := by
    intro j q hq hq'
    by_cases hji : j = i
    · rw [hji, Function.update_self, hi]
      exact iff_of_false hq hq'
    · rw [Function.update_of_ne hji]
  have hserial_of : ∀ j, (Function.update s.place i (.numbered s.uThreadCount) j).Serial n →
      (s.place j).Serial n := by
    intro j hj
    by_cases hji : j = i
    · rw [hji, Function.update_self] at hj
      exact absurd hj hout
    · rwa [Function.update_of_ne hji] at hj
  refine ⟨h.threshold, h.pos, h.le, ?_, .inr ?_, fun j k hj => ?_, fun j j' k hj hj' => ?_,
    fun k hk => ?_, fun j => ?_, h.closed, fun j c hj => ?_, fun j j' hj hj' => ?_, ?_, ?_⟩
  · change s.semaphore + census _ (Function.update _ _ _) + total _ (Function.update _ _ _) = n
    omega
  · change (s.uThreadCount + 1).toNat = census _ (Function.update _ _ _)
    omega
  · change k.toNat < (s.uThreadCount + 1).toNat
    rcases hcase j k hj with ⟨-, rfl⟩ | ⟨-, hj⟩
    · omega
    · have hold := h.number_lt j k hj
      omega
  · rcases hcase j k hj with ⟨rfl, rfl⟩ | ⟨-, hj⟩
    · rcases hcase j' _ hj' with ⟨rfl, -⟩ | ⟨-, hj'⟩
      · rfl
      · exact absurd (h.number_lt j' _ hj') (lt_irrefl _)
    · rcases hcase j' k hj' with ⟨-, rfl⟩ | ⟨-, hj'⟩
      · exact absurd (h.number_lt j _ hj) (lt_irrefl _)
      · exact h.number_inj j j' k hj hj'
  · refine (h.bit_iff k hk).trans ?_
    refine exists_congr fun j => exists_congr fun c => and_congr_left fun _ => ?_
    exact (hother j _ BarrierPlace.noConfusion BarrierPlace.noConfusion).symm
  · change E.awaits s.group j =
      (Function.update s.place i (.numbered s.uThreadCount) j).awaits s.allBits
    rw [h.awaits_eq]
    by_cases hji : j = i
    · rw [hji, Function.update_self, hi]
      rfl
    · rw [Function.update_of_ne hji]
  · exact h.giving_lt j c ((hother j _ BarrierPlace.noConfusion BarrierPlace.noConfusion).1 hj)
  · exact h.serial_unique j j' (hserial_of j hj) (hserial_of j' hj')
  · change s.serials + census _ (Function.update _ _ _) = s.cycles
    omega
  · change s.arrived = n * s.cycles + census _ (Function.update _ _ _)
    omega

/-! ### Synchronization -/

omit [DecidableEq ι] [Fintype ι] in
theorem getLsbD_allBits (hn : s.uThreshold.toNat ≤ 24) (k : ℕ) :
    s.allBits.getLsbD k = decide (k < s.uThreshold.toNat) := by
  have hpow : 2 ^ s.uThreshold.toNat ≤ 2 ^ 24 := Nat.pow_le_pow_right (by decide) hn
  have hpos : 0 < 2 ^ s.uThreshold.toNat := Nat.two_pow_pos _
  have hval : s.allBits.toNat = 2 ^ s.uThreshold.toNat - 1 := by
    rw [allBits, BitVec.toNat_sub, BitVec.toNat_shiftLeft, Nat.shiftLeft_eq]
    change (2 ^ 32 - 1 + 1 * 2 ^ s.uThreshold.toNat % 2 ^ 32) % 2 ^ 32 = _
    omega
  rw [BitVec.getLsbD, hval, Nat.testBit_two_pow_sub_one]

omit [DecidableEq ι] [Fintype ι] in
/-- All bits are set when the bit of every number is. -/
theorem and_allBits_eq_iff (hn : s.uThreshold.toNat ≤ 24) (bits : BitVec 32) :
    bits &&& s.allBits = s.allBits ↔ ∀ k < s.uThreshold.toNat, bits.getLsbD k = true := by
  constructor
  · intro h k hk
    have hbit := congrArg (fun b => BitVec.getLsbD b k) h
    simpa [getLsbD_allBits hn, hk] using hbit
  · intro h
    apply BitVec.eq_of_getLsbD_eq
    intro k _
    rw [BitVec.getLsbD_and, getLsbD_allBits hn]
    by_cases hk : k < s.uThreshold.toNat
    · rw [h k hk, Bool.true_and]
    · rw [decide_eq_false hk, Bool.and_false]

omit [DecidableEq ι] in
/-- The bit of a thread and the bits that it waits for are usable. -/
theorem Invariant.usable (h : s.Invariant E n) {i : ι} {k : UInt32}
    (hi : s.place i = .numbered k) : UsableBits (1#32 <<< k.toNat) ∧ UsableBits s.allBits := by
  have hle := h.le
  have hlt := h.number_lt i k (by rw [hi]; rfl)
  have hin : (s.place i).Inside := .inr (by rw [hi]; exact Option.some_ne_none k)
  have hcount := h.count_eq hin
  have hnumbered := census_numbered_le s.place
  have hbalance := h.balance
  constructor
  · intro m hm
    rw [EventMask.getLsbD_bit (by omega), decide_eq_false_iff_not]
    omega
  · intro m hm
    rw [getLsbD_allBits (by rw [h.threshold]; exact hle), h.threshold, decide_eq_false_iff_not]
    omega

omit [DecidableEq ι] in
theorem Invariant.awaits_same (h : s.Invariant E n) (j : ι) (m : BitVec 32)
    (hj : E.awaits s.group j = some m) : m = s.allBits := by
  rw [h.awaits_eq] at hj
  exact BarrierPlace.eq_of_awaits hj

/-- A thread whose bit is not the last one waits. -/
theorem Invariant.block (h : s.Invariant E n) {i : ι} {k : UInt32} (hi : s.place i = .numbered k)
    (hnotall : EventMask.push (E.bits s.group) k.toNat &&& s.allBits ≠ s.allBits) {group : G}
    (hbits : E.bits group = EventMask.push (E.bits s.group) k.toNat)
    (hawaits : E.awaits group = Function.update (E.awaits s.group) i (some s.allBits)) :
    Invariant E n { s.goto i (.syncing k) with group } := by
  have hbalance := h.balance
  have hserials := h.serials
  have harrived := h.arrived
  have hcounted := h.counted
  have hk := h.number_lt i k (by rw [hi]; rfl)
  have hle := h.le
  have hsame : ∀ j, (Function.update s.place i (.syncing k) j).number? = (s.place j).number? := by
    intro j
    by_cases hji : j = i
    · rw [hji, Function.update_self, hi]
      rfl
    · rw [Function.update_of_ne hji]
  have hother : ∀ j q, .syncing k ≠ q → .numbered k ≠ q →
      (Function.update s.place i (.syncing k) j = q ↔ s.place j = q) := by
    intro j q hq hq'
    by_cases hji : j = i
    · rw [hji, Function.update_self, hi]
      exact iff_of_false hq hq'
    · rw [Function.update_of_ne hji]
  have hserial_of : ∀ j, (Function.update s.place i (.syncing k) j).Serial n →
      (s.place j).Serial n := by
    intro j hj
    by_cases hji : j = i
    · rw [hji, Function.update_self] at hj
      exact absurd hj (lt_irrefl 0)
    · rwa [Function.update_of_ne hji] at hj
  obtain ⟨hinside, hnumbered, howes, hserial⟩ := place_counts s.place i (.syncing k) n
  have hin : (BarrierPlace.syncing k).Numbered := Option.some_ne_none _
  have hin' : (BarrierPlace.numbered k).Numbered := Option.some_ne_none _
  rw [hi, if_pos (.inr hin'), if_pos (.inr hin)] at hinside
  rw [hi, if_pos hin', if_pos hin] at hnumbered
  rw [hi] at howes hserial
  change _ + 0 = _ + 0 at howes
  have hout : ¬ (BarrierPlace.syncing k).Serial n := (lt_irrefl 0 ·)
  have hout' : ¬ (BarrierPlace.numbered k).Serial n := (lt_irrefl 0 ·)
  rw [if_neg hout, if_neg hout'] at hserial
  have hcount := h.count_eq (i := i) (by rw [hi]; exact .inr hin')
  have hlt := census_numbered_le s.place
  have hk32 : k.toNat < 32 := by omega
  refine ⟨h.threshold, h.pos, h.le, ?_, .inr ?_, fun j c hj => ?_, fun j j' c hj hj' => ?_,
    fun m hm => ?_, fun j => ?_, ?_, fun j c hj => ?_, fun j j' hj hj' => ?_, ?_, ?_⟩
  · change s.semaphore + census _ (Function.update _ _ _) + total _ (Function.update _ _ _) = n
    omega
  · change s.uThreadCount.toNat = census _ (Function.update _ _ _)
    omega
  · exact h.number_lt j c ((hsame j).symm.trans hj)
  · exact h.number_inj j j' c ((hsame j).symm.trans hj) ((hsame j').symm.trans hj')
  · change EventMask.isSet (E.bits group) m = true ↔
      ∃ j c, Function.update s.place i (.syncing k) j = .syncing c ∧ c.toNat = m
    rw [hbits, EventMask.isSet_push hk32 hm, Bool.or_eq_true, h.bit_iff m hm, decide_eq_true_eq]
    constructor
    · rintro (⟨j, c, hj, hc⟩ | rfl)
      · refine ⟨j, c, ?_, hc⟩
        rwa [Function.update_of_ne]
        rintro rfl
        rw [hi] at hj
        cases hj
      · exact ⟨i, k, Function.update_self .., rfl⟩
    · rintro ⟨j, c, hj, rfl⟩
      by_cases hji : j = i
      · rw [hji, Function.update_self, BarrierPlace.syncing.injEq] at hj
        exact .inr (by rw [hj])
      · rw [Function.update_of_ne hji] at hj
        exact .inl ⟨j, c, hj, rfl⟩
  · change E.awaits group j = (Function.update s.place i (.syncing k) j).awaits s.allBits
    rw [hawaits]
    by_cases hji : j = i
    · rw [hji, Function.update_self, Function.update_self]
      rfl
    · rw [Function.update_of_ne hji, Function.update_of_ne hji, h.awaits_eq]
  · by_contra hopen
    refine hnotall ((and_allBits_eq_iff (by rw [h.threshold]; exact hle) _).2 fun m hm => ?_)
    rw [h.threshold] at hm
    by_contra hbit
    refine hopen ⟨m, hm, ?_⟩
    change EventMask.isSet (E.bits group) m = false
    rw [hbits, EventMask.isSet_eq (by omega)]
    exact Bool.eq_false_iff.2 hbit
  · exact h.giving_lt j c ((hother j _ BarrierPlace.noConfusion BarrierPlace.noConfusion).1 hj)
  · exact h.serial_unique j j' (hserial_of j hj) (hserial_of j' hj')
  · change s.serials + census _ (Function.update _ _ _) = s.cycles
    omega
  · change s.arrived = n * s.cycles + census _ (Function.update _ _ _)
    omega

/-- The threads of a cycle when all bits are set: as many as the barrier is for, with all
numbers. -/
structure Full (n : ℕ) (s : PosixBarrier ι G) (i : ι) (k : UInt32) : Prop where
  last : s.place i = .numbered k
  nobody : s.semaphore = 0 ∧ total (BarrierPlace.owes n) s.place = 0
  card : census BarrierPlace.Numbered s.place = n ∧ census BarrierPlace.Inside s.place = n
  number : ∀ m < n, ∃ j c, (s.place j).number? = some c ∧ c.toNat = m
  syncing : ∀ j c, (s.place j).number? = some c → j = i ∧ c = k ∨ s.place j = .syncing c
  entered : ∀ j, s.place j ≠ .entered

theorem Invariant.full_of (h : s.Invariant E n) {i : ι} {k : UInt32} (hi : s.place i = .numbered k)
    (hall : EventMask.push (E.bits s.group) k.toNat &&& s.allBits = s.allBits) :
    Full n s i k := by
  have hbalance := h.balance
  have hle := h.le
  have hki : (s.place i).number? = some k := by rw [hi]; rfl
  have hin : (s.place i).Inside := .inr (by rw [hi]; exact Option.some_ne_none k)
  have hcount := h.count_eq hin
  have hk := h.number_lt i k hki
  have hnumbered := census_numbered_le s.place
  have hthreshold : s.uThreshold.toNat ≤ 24 := by rw [h.threshold]; exact hle
  -- every bit is that of a thread that waits, or of this one
  have hbit : ∀ m < n, (∃ j c, s.place j = .syncing c ∧ c.toNat = m) ∨ m = k.toNat := by
    intro m hm
    have hset := (and_allBits_eq_iff hthreshold _).1 hall m (by rwa [h.threshold])
    rw [← EventMask.isSet_eq (by omega), EventMask.isSet_push (by omega) (by omega),
      Bool.or_eq_true, h.bit_iff m (by omega), decide_eq_true_eq] at hset
    exact hset
  have hnumber : ∀ m < n, ∃ j c, (s.place j).number? = some c ∧ c.toNat = m := by
    intro m hm
    rcases hbit m hm with ⟨j, c, hj, hc⟩ | rfl
    · exact ⟨j, c, by rw [hj]; rfl, hc⟩
    · exact ⟨i, k, hki, rfl⟩
  have hcard : n ≤ census BarrierPlace.Numbered s.place := by
    rw [census_eq_card, ← Finset.card_range n]
    apply Finset.card_le_card_of_surjOn fun j => ((s.place j).number?.getD 0).toNat
    intro m hm
    obtain ⟨j, c, hj, hc⟩ := hnumber m (Finset.mem_range.1 hm)
    refine ⟨j, ?_, ?_⟩
    · rw [Finset.mem_coe, Finset.mem_filter]
      exact ⟨Finset.mem_univ j, by rw [BarrierPlace.Numbered, hj]; exact Option.some_ne_none c⟩
    · simp only [hj, Option.getD_some, hc]
  refine ⟨hi, by omega, by omega, hnumber, fun j c hj => ?_, fun j hj => ?_⟩
  · have hc := h.number_lt j c hj
    rcases hbit c.toNat (by omega) with ⟨j', c', hj', hcc⟩ | hck
    · obtain rfl := UInt32.toNat_inj.1 hcc
      obtain rfl := h.number_inj j j' c' hj (by rw [hj']; rfl)
      exact .inr hj'
    · obtain rfl := UInt32.toNat_inj.1 hck
      exact .inl ⟨h.number_inj j i c hj hki, rfl⟩
  · have hlt := numbered_lt hj
    omega

namespace Full

variable {i : ι} {k : UInt32}

/-- The threads of the cycle after the release. -/
theorem place_numbered (h : Full n s i k) {j : ι} {c : UInt32}
    (hj : (s.place j).number? = some c) :
    Function.update (fun j => (s.place j).release) i (.released k) j = .released c := by
  rcases h.syncing j c hj with ⟨rfl, rfl⟩ | hsyncing
  · exact Function.update_self ..
  · rw [Function.update_of_ne, hsyncing]
    · rfl
    · rintro rfl
      rw [h.last] at hsyncing
      cases hsyncing

/-- The other threads after the release. -/
theorem place_other (h : Full n s i k) {j : ι} (hj : (s.place j).number? = none) :
    Function.update (fun j => (s.place j).release) i (.released k) j = s.place j := by
  rw [Function.update_of_ne]
  · cases hp : s.place j with
    | syncing c =>
        rw [hp] at hj
        cases hj
    | _ => rfl
  · rintro rfl
    rw [h.last] at hj
    cases hj

/-- Nobody has a number after the release. -/
theorem number_release (h : Full n s i k) (j : ι) :
    (Function.update (fun j => (s.place j).release) i (.released k) j).number? = none := by
  rcases hj : (s.place j).number? with - | c
  · rw [h.place_other hj, hj]
  · rw [h.place_numbered hj]
    rfl

theorem inside_release (h : Full n s i k) : census BarrierPlace.Inside
    (Function.update (fun j => (s.place j).release) i (.released k)) = 0 := by
  refine census_eq_zero_iff.2 fun j => ?_
  rintro (hentered | hnumbered)
  · rcases hj : (s.place j).number? with - | c
    · rw [h.place_other hj] at hentered
      exact h.entered j hentered
    · rw [h.place_numbered hj] at hentered
      cases hentered
  · exact hnumbered (h.number_release j)

/-- The thread with the number 0 owes the semaphore, and no other one does. -/
theorem owes_release (h : Full n s i k) (j : ι) :
    (Function.update (fun j => (s.place j).release) i (.released k) j).owes n =
      if (s.place j).number? = some 0 then n else 0 := by
  rcases hj : (s.place j).number? with - | c
  · rw [h.place_other hj, if_neg (Option.some_ne_none 0).symm]
    exact total_eq_zero_iff.1 h.nobody.2 j
  · rw [h.place_numbered hj, BarrierPlace.owes]
    exact if_congr Option.some_inj.symm rfl rfl

end Full

omit [DecidableEq ι] in
/-- No bit is left after the release. -/
theorem Invariant.cleared (h : s.Invariant E n) {i : ι} {k : UInt32} (hfull : Full n s i k) (m : ℕ)
    (hm : m < 32) :
    EventMask.isSet (EventMask.push (E.bits s.group) k.toNat &&& ~~~s.allBits) m = false := by
  have hle := h.le
  have hcount := h.count_eq (i := i) (.inr (by rw [hfull.last]; exact Option.some_ne_none k))
  rw [hfull.card.1] at hcount
  have hk := h.number_lt i k (by rw [hfull.last]; rfl)
  have hall := getLsbD_allBits (s := s) (by rw [h.threshold]; exact hle) m
  rw [EventMask.isSet_eq hm, BitVec.getLsbD_and, BitVec.getLsbD_not, hall, h.threshold,
    ← EventMask.isSet_eq hm, EventMask.isSet_push (by omega) hm]
  by_cases hmn : m < n
  · simp [hmn]
  · have hnot : EventMask.isSet (E.bits s.group) m = false := by
      rw [Bool.eq_false_iff, Ne, h.bit_iff m hm]
      rintro ⟨j, c, hj, rfl⟩
      have hlt := h.number_lt j c (by rw [hj]; rfl)
      omega
    have hne : m ≠ k.toNat := by omega
    simp [hnot, hne]

/-- A thread whose bit is the last one releases all threads of the cycle. -/
theorem Invariant.release (h : s.Invariant E n) {i : ι} {k : UInt32} (hi : s.place i = .numbered k)
    (hall : EventMask.push (E.bits s.group) k.toNat &&& s.allBits = s.allBits) {group : G}
    (hbits : E.bits group = EventMask.push (E.bits s.group) k.toNat &&& ~~~s.allBits)
    (hawaits : ∀ j, E.awaits group j = none) :
    Invariant E n { s with
      group
      place := Function.update (fun j => (s.place j).release) i (.released k)
      cycles := s.cycles + 1 } := by
  have hfull := h.full_of hi hall
  obtain ⟨z, c, hz, hc⟩ := hfull.number 0 h.pos
  obtain rfl : c = 0 := UInt32.toNat_inj.1 hc
  have howes := hfull.owes_release
  set place := Function.update (fun j => (s.place j).release) i (.released k) with hplace
  have hserial : ∀ j, (place j).Serial n → j = z := by
    intro j hj
    rw [BarrierPlace.Serial, howes] at hj
    by_cases hnum : (s.place j).number? = some 0
    · exact h.number_inj j z 0 hnum hz
    · rw [if_neg hnum] at hj
      exact absurd hj (lt_irrefl 0)
  have htotal : total (BarrierPlace.owes n) place = n := by
    rw [total_eq_single z fun j hj => ?_, howes, if_pos hz]
    by_contra hne
    exact hj (hserial j (Nat.pos_of_ne_zero hne))
  have hone : census (BarrierPlace.Serial n) place = 1 := by
    have hz' : (place z).Serial n := by
      rw [BarrierPlace.Serial, howes, if_pos hz]
      exact h.pos
    rw [census, total_eq_single z fun j hj => if_neg fun hs => hj (hserial j hs), if_pos hz']
  have hnone : census (BarrierPlace.Serial n) s.place = 0 := by
    refine census_eq_zero_iff.2 fun j hj => ?_
    rw [BarrierPlace.Serial, total_eq_zero_iff.1 hfull.nobody.2 j] at hj
    exact lt_irrefl 0 hj
  have hinside := hfull.inside_release
  have hcleared := h.cleared hfull
  have hserials := h.serials
  have harrived := h.arrived
  refine ⟨h.threshold, h.pos, h.le, ?_, .inl ⟨z, hfull.place_numbered hz⟩, fun j c hj => ?_,
    fun j j' c hj _ => ?_, fun m hm => ?_, fun j => ?_, ⟨0, h.pos, ?_⟩, fun j c hj => ?_,
    fun j j' hj hj' => ?_, ?_, ?_⟩
  · change s.semaphore + census _ place + total _ place = n
    rw [hfull.nobody.1, hinside, htotal]
    omega
  · exact absurd ((hfull.number_release j).symm.trans hj) (Option.some_ne_none c).symm
  · exact absurd ((hfull.number_release j).symm.trans hj) (Option.some_ne_none c).symm
  · change EventMask.isSet (E.bits group) m = true ↔ ∃ j c, place j = .syncing c ∧ c.toNat = m
    refine iff_of_false ?_ ?_
    · rw [hbits, hcleared m hm]
      exact Bool.false_ne_true
    · rintro ⟨j, c, hj, -⟩
      have hnumber := hfull.number_release j
      rw [← hplace, hj] at hnumber
      cases hnumber
  · change E.awaits group j = (place j).awaits s.allBits
    rw [hawaits, BarrierPlace.awaits_of_number (hfull.number_release j)]
  · change EventMask.isSet (E.bits group) 0 = false
    rw [hbits, hcleared 0 (by decide)]
  · change place j = .giving c at hj
    rcases hnum : (s.place j).number? with - | c'
    · rw [hplace, hfull.place_other hnum] at hj
      exact h.giving_lt j c hj
    · rw [hplace, hfull.place_numbered hnum] at hj
      cases hj
  · rw [hserial j hj, hserial j' hj']
  · change s.serials + census _ place = s.cycles + 1
    omega
  · change s.arrived = n * (s.cycles + 1) + census _ place
    have hcard := hfull.card.2
    rw [hinside, Nat.mul_succ]
    omega

/-- With the last bit the call releases all threads that wait. -/
theorem Invariant.sync_of_all (h : s.Invariant E n) {i : ι} {k : UInt32}
    (hi : s.place i = .numbered k)
    (hall : EventMask.push (E.bits s.group) k.toNat &&& s.allBits = s.allBits) :
    ∃ group, s.eventGroupSync E i k = { s with
        group
        place := Function.update (fun j => (s.place j).release) i (.released k)
        cycles := s.cycles + 1 } ∧
      E.bits group = EventMask.push (E.bits s.group) k.toNat &&& ~~~s.allBits ∧
      ∀ j, E.awaits group j = none := by
  obtain ⟨hbit, hbits⟩ := h.usable hi
  have hawaits : ∀ j, E.awaits (E.sync s.group i (1#32 <<< k.toNat) s.allBits) j = none :=
    fun j => E.awaits_sync_of_all hbit hbits h.awaits_same hall
  refine ⟨_, ?_, E.bits_sync_of_all hbit hbits h.awaits_same hall, hawaits⟩
  rw [eventGroupSync]
  simp only [hawaits, if_true]
  congr 1
  funext j
  by_cases hji : j = i
  · rw [hji, Function.update_self, goto_place, Function.update_self]
    rfl
  · rw [Function.update_of_ne hji, goto_place, Function.update_of_ne hji]

/-- Without the last bit only the thread itself begins to wait. -/
theorem Invariant.sync_of_not_all (h : s.Invariant E n) {i : ι} {k : UInt32}
    (hi : s.place i = .numbered k)
    (hnotall : EventMask.push (E.bits s.group) k.toNat &&& s.allBits ≠ s.allBits) :
    ∃ group, s.eventGroupSync E i k = { s.goto i (.syncing k) with group } ∧
      E.bits group = EventMask.push (E.bits s.group) k.toNat ∧
      E.awaits group = Function.update (E.awaits s.group) i (some s.allBits) := by
  obtain ⟨hbit, hbits⟩ := h.usable hi
  have hawaits := E.awaits_sync_of_not_all (i := i) hbit hbits h.awaits_same hnotall
  refine ⟨_, ?_, E.bits_sync_of_not_all hbit hbits h.awaits_same hnotall, hawaits⟩
  rw [eventGroupSync]
  simp only [hawaits, Function.update_self, Option.some_ne_none, if_false]
  congr 1
  funext j
  by_cases hji : j = i
  · rw [hji, Function.update_self, if_neg (Option.some_ne_none _)]
  · rw [Function.update_of_ne hji]
    split_ifs with hj
    · rw [h.awaits_eq] at hj
      rw [goto_place, Function.update_of_ne hji, BarrierPlace.release_of_awaits hj]
    · rfl

/-! ### Steps -/

omit [DecidableEq ι] in
/-- The semaphore has room for what the first thread of a cycle gives. -/
theorem Invariant.semaphore_lt (h : s.Invariant E n) {i : ι} {j : UInt32}
    (hi : s.place i = .giving j) : s.semaphore < s.uThreshold.toNat := by
  have hbalance := h.balance
  have hj := h.giving_lt i j hi
  have hle : (s.place i).owes n ≤ total (BarrierPlace.owes n) s.place := le_total i
  rw [hi] at hle
  change n - j.toNat ≤ _ at hle
  rw [h.threshold]
  omega

omit [DecidableEq ι] in
/-- The counter of the loop does not wrap around. -/
theorem Invariant.toNat_succ (h : s.Invariant E n) {i : ι} {j : UInt32}
    (hi : s.place i = .giving j) : (j + 1).toNat = j.toNat + 1 := by
  have hj := h.giving_lt i j hi
  have hle := h.le
  have hone : (1 : UInt32).toNat = 1 := rfl
  rw [UInt32.toNat_add, hone]
  omega

theorem Invariant.enter (h : s.Invariant E n) {i : ι} (hi : s.place i = .outside)
    (hsem : 0 < s.semaphore) :
    Invariant E n { s.goto i .entered with
      semaphore := s.semaphore - 1, arrived := s.arrived + 1 } := by
  have hquiet : Quiet n s { s.goto i .entered with
      semaphore := s.semaphore - 1, arrived := s.arrived + 1 } i .entered := by
    refine ⟨rfl, rfl, rfl, rfl, rfl, by rw [hi]; rfl, fun j hj => ?_, ?_, .inl ⟨rfl, ?_⟩, ?_,
      ?_, ?_⟩
    · cases hj
    · simp
    · rw [hi]
      exact BarrierPlace.noConfusion
    · simp [hi, BarrierPlace.owes]
      omega
    · simp [hi, goto]
    · simp [hi]
  exact hquiet.invariant h

/-- The first thread of a cycle begins to give the semaphore. -/
theorem Invariant.wakeFirst (h : s.Invariant E n) {i : ι} (hi : s.place i = .released 0) :
    Invariant E n { s.goto i (.giving 0) with uThreadCount := 0 } := by
  have hquiet : Quiet n s { s.goto i (.giving 0) with uThreadCount := 0 } i (.giving 0) := by
    refine ⟨rfl, rfl, rfl, rfl, rfl, by rw [hi]; rfl, fun j hj => ?_, ?_, .inr ⟨rfl, hi⟩, ?_,
      ?_, ?_⟩
    · cases hj
      exact h.pos
    · simp [hi]
    · simp [hi, goto, BarrierPlace.owes]
    · simp [hi, goto]
    · simp [hi, goto]
  exact hquiet.invariant h

/-- The others leave. -/
theorem Invariant.wakeOther (h : s.Invariant E n) {i : ι} {k : UInt32}
    (hi : s.place i = .released k) (hk : k ≠ 0) : Invariant E n (s.goto i .outside) := by
  have hquiet : Quiet n s (s.goto i .outside) i .outside := by
    refine ⟨rfl, rfl, rfl, rfl, rfl, by rw [hi]; rfl, fun j hj => ?_, ?_, .inl ⟨rfl, ?_⟩, ?_,
      ?_, ?_⟩
    · cases hj
    · simp
    · rw [hi, Ne, BarrierPlace.released.injEq]
      exact hk
    · simp [hi, hk, goto, BarrierPlace.owes]
    · simp [hi, hk, goto]
    · simp [hi, goto]
  exact hquiet.invariant h

/-- A pass of the loop that gives the semaphore. -/
theorem Invariant.giveNext (h : s.Invariant E n) {i : ι} {j : UInt32}
    (hi : s.place i = .giving j) (hnext : (j + 1).toNat < n) :
    Invariant E n { s.goto i (.giving (j + 1)) with semaphore := s.semaphore + 1 } := by
  have hj := h.giving_lt i j hi
  have hsucc := h.toNat_succ hi
  have hquiet : Quiet n s { s.goto i (.giving (j + 1)) with
      semaphore := s.semaphore + 1 } i (.giving (j + 1)) := by
    refine ⟨rfl, rfl, rfl, rfl, rfl, by rw [hi]; rfl, fun c hc => ?_, ?_, .inl ⟨rfl, ?_⟩, ?_,
      ?_, ?_⟩
    · cases hc
      exact hnext
    · simp [hi, hj]
    · rw [hi]
      exact BarrierPlace.noConfusion
    · simp [hi, BarrierPlace.owes, hsucc]
      omega
    · rw [hi, if_pos ((BarrierPlace.serial_giving_iff n _).2 hnext),
        if_pos ((BarrierPlace.serial_giving_iff n _).2 hj)]
      rfl
    · simp [hi, goto]
  exact hquiet.invariant h

/-- Its last pass. -/
theorem Invariant.giveLast (h : s.Invariant E n) {i : ι} {j : UInt32}
    (hi : s.place i = .giving j) (hnext : ¬ (j + 1).toNat < n) :
    Invariant E n { s.goto i .outside with
      semaphore := s.semaphore + 1, serials := s.serials + 1 } := by
  have hj := h.giving_lt i j hi
  have hsucc := h.toNat_succ hi
  have hquiet : Quiet n s { s.goto i .outside with
      semaphore := s.semaphore + 1, serials := s.serials + 1 } i .outside := by
    refine ⟨rfl, rfl, rfl, rfl, rfl, by rw [hi]; rfl, fun c hc => ?_, ?_, .inl ⟨rfl, ?_⟩, ?_,
      ?_, ?_⟩
    · cases hc
    · simp
    · rw [hi]
      exact BarrierPlace.noConfusion
    · simp [hi, BarrierPlace.owes]
      omega
    · simp [hi, hj]
    · simp [hi, goto]
  exact hquiet.invariant h

/-- Every step keeps the invariant. -/
theorem Invariant.step (h : s.Invariant E n) {m : BarrierMove ι} (hstep : s.step E m = some s') :
    s'.Invariant E n := by
  cases m with
  | enter i =>
      rw [PosixBarrier.step, Option.ite_none_right_eq_some, Option.some_inj] at hstep
      obtain ⟨⟨hi, hsem⟩, rfl⟩ := hstep
      exact h.enter hi hsem
  | number i =>
      rw [PosixBarrier.step, Option.ite_none_right_eq_some, Option.some_inj] at hstep
      obtain ⟨hi, rfl⟩ := hstep
      exact h.number hi
  | sync i =>
      rw [PosixBarrier.step] at hstep
      split at hstep
      · next k hi =>
          obtain rfl := Option.some_inj.1 hstep
          by_cases hall : EventMask.push (E.bits s.group) k.toNat &&& s.allBits = s.allBits
          · obtain ⟨group, heq, hbits, hawaits⟩ := h.sync_of_all hi hall
            rw [heq]
            exact h.release hi hall hbits hawaits
          · obtain ⟨group, heq, hbits, hawaits⟩ := h.sync_of_not_all hi hall
            rw [heq]
            exact h.block hi hall hbits hawaits
      · cases hstep
  | wake i =>
      rw [PosixBarrier.step] at hstep
      split at hstep
      · next k hi =>
          split_ifs at hstep with hk
          · obtain rfl := Option.some_inj.1 hstep
            exact h.wakeFirst (hk ▸ hi)
          · obtain rfl := Option.some_inj.1 hstep
            exact h.wakeOther hi hk
      · cases hstep
  | give i =>
      rw [PosixBarrier.step] at hstep
      split at hstep
      · next j hi =>
          dsimp only at hstep
          rw [if_pos (h.semaphore_lt hi)] at hstep
          have hiff : j + 1 < s.uThreshold ↔ (j + 1).toNat < n := by
            rw [UInt32.lt_iff_toNat_lt, h.threshold]
          split_ifs at hstep with hnext
          · obtain rfl := Option.some_inj.1 hstep
            exact h.giveNext hi (hiff.1 hnext)
          · obtain rfl := Option.some_inj.1 hstep
            exact h.giveLast hi (mt hiff.2 hnext)
      · cases hstep

omit [DecidableEq ι] in
theorem invariant_init {count : UInt32} (h : init E count = .ok s) :
    s.Invariant E count.toNat := by
  rw [init] at h
  split_ifs at h with hzero hmax
  obtain rfl := Except.ok.inj h
  have hpos : 0 < count.toNat := Nat.pos_of_ne_zero fun h => hzero (UInt32.toNat_inj.1 h)
  have hle : count.toNat ≤ 24 := by
    have hmax' : ¬ (24 : UInt32).toNat < count.toNat := fun h => hmax (UInt32.lt_iff_toNat_lt.2 h)
    exact Nat.not_lt.1 hmax'
  have hinside : census BarrierPlace.Inside (fun _ : ι => BarrierPlace.outside) = 0 :=
    census_eq_zero_iff.2 fun _ => BarrierPlace.not_inside_outside
  have hnumbered : census BarrierPlace.Numbered (fun _ : ι => BarrierPlace.outside) = 0 :=
    census_eq_zero_iff.2 fun _ => not_not.2 rfl
  have howes : total (BarrierPlace.owes count.toNat) (fun _ : ι => BarrierPlace.outside) = 0 :=
    total_eq_zero_iff.2 fun _ => rfl
  have hserial : census (BarrierPlace.Serial count.toNat) (fun _ : ι => BarrierPlace.outside) = 0 :=
    census_eq_zero_iff.2 fun _ => BarrierPlace.not_serial_outside _
  refine ⟨rfl, hpos, hle, ?_, .inr hnumbered.symm, fun i k hi => ?_, fun i j k hi => ?_,
    fun k _ => ?_, E.awaits_create, ⟨0, hpos, ?_⟩, fun i j hi => ?_,
    fun i j hi => ?_, ?_, ?_⟩
  · simp only [hinside, howes, Nat.add_zero]
  · cases hi
  · cases hi
  · refine iff_of_false (ne_true_of_eq_false ?_) ?_
    · rw [E.bits_create, EventMask.isSet_zero]
    · rintro ⟨i, c, hi, -⟩
      cases hi
  · rw [E.bits_create, EventMask.isSet_zero]
  · cases hi
  · exact absurd hi (BarrierPlace.not_serial_outside _)
  · simp only [hserial, Nat.add_zero]
  · simp only [hinside, Nat.mul_zero]

omit [DecidableEq ι] in
/-- The threads of a cycle are too few as long as all of them wait. -/
theorem Invariant.waiting (h : s.Invariant E n)
    (hwait : ∀ i, s.place i = .outside ∨ ∃ k, s.place i = .syncing k) :
    census BarrierPlace.Inside s.place < n ∧ 0 < s.semaphore := by
  have hbalance := h.balance
  have howes : total (BarrierPlace.owes n) s.place = 0 := by
    refine total_eq_zero_iff.2 fun i => ?_
    rcases hwait i with hi | ⟨k, hi⟩
    · rw [hi]
      rfl
    · rw [hi]
      rfl
  have hsame : census BarrierPlace.Numbered s.place = census BarrierPlace.Inside s.place := by
    rw [census_eq_card, census_eq_card]
    congr 1
    refine Finset.filter_congr fun i _ => ⟨.inr, fun hi => hi.resolve_left fun hentered => ?_⟩
    rcases hwait i with hi | ⟨k, hi⟩
    · rw [hi] at hentered
      cases hentered
    · rw [hi] at hentered
      cases hentered
  suffices hlt : census BarrierPlace.Inside s.place < n from ⟨hlt, by omega⟩
  by_contra hfull
  obtain ⟨m, hm, hopen⟩ := h.closed
  have hcount : s.uThreadCount.toNat = n := by
    have hcounted := h.counted.resolve_left ?_
    · omega
    · rintro ⟨i, hi⟩
      rcases hwait i with hi' | ⟨k, hi'⟩
      · rw [hi] at hi'
        cases hi'
      · rw [hi] at hi'
        cases hi'
  -- all numbers are there, so all bits are
  have hsurj : Set.SurjOn (fun i => ((s.place i).number?.getD 0).toNat)
      (Finset.univ.filter fun i => (s.place i).Numbered) (Finset.range n) := by
    apply Finset.surjOn_of_injOn_of_card_le
    · intro i hi
      obtain ⟨c, hc⟩ := Option.ne_none_iff_exists'.1 (Finset.mem_filter.1 hi).2
      simp only [hc, Option.getD_some, Finset.coe_range, Set.mem_Iio]
      exact hcount ▸ h.number_lt i c hc
    · intro i hi j hj heq
      obtain ⟨c, hc⟩ := Option.ne_none_iff_exists'.1 (Finset.mem_filter.1 hi).2
      obtain ⟨d, hd⟩ := Option.ne_none_iff_exists'.1 (Finset.mem_filter.1 hj).2
      simp only [hc, hd, Option.getD_some] at heq
      obtain rfl := UInt32.toNat_inj.1 heq
      exact h.number_inj i j c hc hd
    · rw [Finset.card_range, ← census_eq_card]
      omega
  obtain ⟨i, hi, him⟩ := hsurj (Finset.mem_coe.2 (Finset.mem_range.2 hm))
  obtain ⟨c, hc⟩ := Option.ne_none_iff_exists'.1 (Finset.mem_filter.1 hi).2
  simp only [hc, Option.getD_some] at him
  have hle := h.le
  rcases hwait i with hi' | ⟨k, hi'⟩
  · rw [hi'] at hc
    cases hc
  · rw [hi'] at hc
    obtain rfl := Option.some_inj.1 hc
    have hset := (h.bit_iff m (by omega)).2 ⟨i, k, hi', him⟩
    rw [hopen] at hset
    cases hset

omit [DecidableEq ι] in
theorem Invariant.serial_le_one (h : s.Invariant E n) :
    census (BarrierPlace.Serial n) s.place ≤ 1 := by
  rw [census_eq_card, Finset.card_le_one]
  intro i hi j hj
  exact h.serial_unique i j (Finset.mem_filter.1 hi).2 (Finset.mem_filter.1 hj).2

/-- A step that starts a new cycle releases the threads of the one before. -/
theorem Invariant.released (h : s.Invariant E n) {i : ι} (hstep : s.step E (.sync i) = some s')
    (hcycle : s'.cycles ≠ s.cycles) :
    census BarrierPlace.Inside s.place = n ∧
      (∀ j, (s.place j).Inside → ∃ k, s'.place j = .released k) ∧
      ∃! j, s'.place j = .released 0 := by
  have h' := h.step hstep
  rw [PosixBarrier.step] at hstep
  split at hstep
  · next k hi =>
      obtain rfl := Option.some_inj.1 hstep
      by_cases hall : EventMask.push (E.bits s.group) k.toNat &&& s.allBits = s.allBits
      · obtain ⟨group, heq, -, -⟩ := h.sync_of_all hi hall
        rw [heq] at h' ⊢
        have hfull := h.full_of hi hall
        obtain ⟨z, c, hz, hc⟩ := hfull.number 0 h.pos
        obtain rfl : c = 0 := UInt32.toNat_inj.1 hc
        refine ⟨hfull.card.2, fun j hj => ?_, z, hfull.place_numbered hz, fun j hj => ?_⟩
        · obtain ⟨c, hc⟩ := Option.ne_none_iff_exists'.1 (hj.resolve_left (hfull.entered j))
          exact ⟨c, hfull.place_numbered hc⟩
        · apply h'.serial_unique j z
          · rw [hj]
            exact (BarrierPlace.serial_released_iff n 0).2 ⟨rfl, h.pos⟩
          · have hz' := hfull.place_numbered hz
            simp only [hz']
            exact (BarrierPlace.serial_released_iff n 0).2 ⟨rfl, h.pos⟩
      · obtain ⟨group, heq, -, -⟩ := h.sync_of_not_all hi hall
        rw [heq] at hcycle
        exact absurd rfl hcycle
  · cases hstep

/-- In every order of the steps of any number of threads: the threads are released in groups of
as many as the barrier is for, and exactly one of each group returns
`PTHREAD_BARRIER_SERIAL_THREAD`; nobody is released before that many more threads have come;
and as long as all threads in the barrier wait, they are fewer, and another one can enter. -/
theorem barrier_cycles {count : UInt32} {s₀ : PosixBarrier ι G} {moves : List (BarrierMove ι)}
    (hinit : init E count = .ok s₀) (hrun : Transition.run (step E) s₀ moves = some s) :
    (count.toNat * s.cycles ≤ s.arrived ∧ s.arrived ≤ count.toNat * s.cycles + count.toNat) ∧
      (s.serials ≤ s.cycles ∧ s.cycles ≤ s.serials + 1) ∧
      (∀ i s', s.step E (.sync i) = some s' → s'.cycles ≠ s.cycles →
        census BarrierPlace.Inside s.place = count.toNat ∧
        (∀ j, (s.place j).Inside → ∃ k, s'.place j = .released k) ∧
        ∃! j, s'.place j = .released 0) ∧
      ((∀ i, s.place i = .outside ∨ ∃ k, s.place i = .syncing k) →
        census BarrierPlace.Inside s.place < count.toNat ∧
        ∀ i, s.place i = .outside → ∃ s', s.step E (.enter i) = some s') := by
  have h : s.Invariant E count.toNat :=
    Transition.run_invariant (fun _ _ _ h hstep => h.step hstep) (invariant_init hinit) hrun
  have hbalance := h.balance
  have harrived := h.arrived
  have hserials := h.serials
  have hone := h.serial_le_one
  refine ⟨⟨by omega, by omega⟩, ⟨by omega, by omega⟩, fun i s' => h.released, fun hwait => ?_⟩
  obtain ⟨hlt, hsem⟩ := h.waiting hwait
  exact ⟨hlt, fun i hi => ⟨_, by rw [step, if_pos ⟨hi, hsem⟩]⟩⟩

/-- Two threads meet. -/
def meeting : List (BarrierMove Bool) :=
  [.enter true, .number true, .sync true, .enter false, .number false, .sync false, .wake true,
    .give true, .give true]

theorem barrier_cycles_meeting : ∃ s₀ s, init EventGroup.direct 2 = .ok s₀ ∧
    Transition.run (step EventGroup.direct) s₀ meeting = some s ∧ s.cycles = 1 ∧
    s.serials ≤ s.cycles := by
  obtain ⟨s₀, hinit⟩ : ∃ s₀ : PosixBarrier Bool _, init EventGroup.direct 2 = .ok s₀ := ⟨_, rfl⟩
  obtain ⟨s, hrun, hcycles⟩ : ∃ s, Transition.run (step EventGroup.direct) s₀ meeting = some s ∧
      s.cycles = 1 := by
    cases hinit
    exact ⟨_, rfl, rfl⟩
  exact ⟨s₀, s, hinit, hrun, hcycles, (barrier_cycles hinit hrun).2.1.1⟩

end PosixBarrier

end Catpilot
