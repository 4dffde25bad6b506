import Mathlib.Data.Set.Insert
import Mathlib.Logic.Function.Basic

/-!
# Threads that run programs over mutexes

A call is a `Program`: a tree whose nodes are single operations on mutexes and on shared
data. Threads run their calls in any interleaving. An operation is `Legal` when the thread
does not take a mutex that it holds, gives only a mutex that it holds, changes guarded data
only under the guard, and holds nothing when its call has returned. `WellLocked` is the check
of a whole program, which every step of its thread keeps; the steps of the others leave the
mutexes of a thread.
-/

namespace Sync

/-- What a call does, one operation after the other: it returns, takes a mutex (waiting as
long as it takes, or giving up after some time), gives one, changes the shared data, waits
for the data, or goes on by an answer from outside. -/
inductive Program (M D A R : Type*) where
  | done (r : R)
  | lock (m : M) (next : Program M D A R)
  | lockWithin (m : M) (next late : Program M D A R)
  | unlock (m : M) (next : Program M D A R)
  | assign (guard : Option M) (f : D → D) (next : Program M D A R)
  | wait (ready : D → Bool) (f : D → D) (next late : Program M D A R)
  | ask (next : D → A → Option (Program M D A R))

/-- The shared things and the programs that the threads have still to run. -/
structure System (ι M D A R : Type*) where
  owner : M → Option ι
  data : D
  thread : ι → Program M D A R

/-- A thread that is not in a call starts one; a thread goes on; it gives up its wait; it
gets an answer; or the data change from outside. -/
inductive Move (ι A C E : Type*) where
  | call (i : ι) (c : C)
  | go (i : ι)
  | late (i : ι)
  | answer (i : ι) (a : A)
  | event (e : E)

section Programs

variable {M D A R : Type*} {held : Set M} {p q : Program M D A R}

/-- The next operation of a thread that holds the mutexes `held`. -/
def Program.Legal (held : Set M) : Program M D A R → Prop
  | done _ => ∀ m, m ∉ held
  | lock m _ | lockWithin m _ _ => m ∉ held
  | unlock m _ => m ∈ held
  | assign guard _ _ => ∀ m ∈ guard, m ∈ held
  | wait _ _ _ _ | ask _ => True

/-- The program stands before the mutex `m` and may give up on it. -/
def Program.Hurried (m : M) : Program M D A R → Prop
  | lockWithin n _ _ => n = m
  | _ => False

/-- Every operation that the program comes to is legal, if it starts with the mutexes
`held`; of what it does when it gives up on a mutex `giveUp` tells. -/
inductive WellLocked (giveUp : Set M → Program M D A R → Prop) :
    Set M → Program M D A R → Prop
  | done {held : Set M} {r : R} (h : ∀ m, m ∉ held) : WellLocked giveUp held (.done r)
  | lock {held : Set M} {m : M} {next : Program M D A R} (h : m ∉ held)
      (hnext : WellLocked giveUp (insert m held) next) : WellLocked giveUp held (.lock m next)
  | lockWithin {held : Set M} {m : M} {next late : Program M D A R} (h : m ∉ held)
      (hnext : WellLocked giveUp (insert m held) next) (hlate : giveUp held late) :
      WellLocked giveUp held (.lockWithin m next late)
  | unlock {held : Set M} {m : M} {next : Program M D A R} (h : m ∈ held)
      (hnext : WellLocked giveUp (held \ {m}) next) : WellLocked giveUp held (.unlock m next)
  | assign {held : Set M} {guard : Option M} {f : D → D} {next : Program M D A R}
      (h : ∀ m ∈ guard, m ∈ held) (hnext : WellLocked giveUp held next) :
      WellLocked giveUp held (.assign guard f next)
  | wait {held : Set M} {ready : D → Bool} {f : D → D} {next late : Program M D A R}
      (hnext : WellLocked giveUp held next) (hlate : WellLocked giveUp held late) :
      WellLocked giveUp held (.wait ready f next late)
  | ask {held : Set M} {next : D → A → Option (Program M D A R)}
      (hnext : ∀ d a p, next d a = some p → WellLocked giveUp held p) :
      WellLocked giveUp held (.ask next)

theorem WellLocked.legal {giveUp : Set M → Program M D A R → Prop}
    (h : WellLocked giveUp held p) : p.Legal held := by
  cases h with
  | done h => exact h
  | lock h _ => exact h
  | lockWithin h _ _ => exact h
  | unlock h _ => exact h
  | assign h _ => exact h
  | wait _ _ => trivial
  | ask _ => trivial

end Programs

section Steps

variable {ι M D A R C E : Type*} [DecidableEq ι] [DecidableEq M]

/-- The mutexes of a thread. -/
def System.held (s : System ι M D A R) (i : ι) : Set M := {m | s.owner m = some i}

def System.goto (s : System ι M D A R) (i : ι) (p : Program M D A R) : System ι M D A R :=
  { s with thread := Function.update s.thread i p }

/-- The thread goes on to `p` with one more mutex. -/
def System.take (s : System ι M D A R) (i : ι) (m : M) (p : Program M D A R) :
    System ι M D A R :=
  { s.goto i p with owner := Function.update s.owner m (some i) }

/-- The thread goes on to `p`; the mutex is free, whoever has held it. -/
def System.give (s : System ι M D A R) (i : ι) (m : M) (p : Program M D A R) :
    System ι M D A R :=
  { s.goto i p with owner := Function.update s.owner m none }

/-- A thread goes on; it waits at a mutex that is taken, and for data that are not ready. -/
def System.go (s : System ι M D A R) (i : ι) : Option (System ι M D A R) :=
  match s.thread i with
  | .lock m next | .lockWithin m next _ => if s.owner m = none then some (s.take i m next) else none
  | .unlock m next => some (s.give i m next)
  | .assign _ f next => some { s.goto i next with data := f s.data }
  | .wait ready f next _ =>
      if ready s.data then some { s.goto i next with data := f s.data } else none
  | .done _ | .ask _ => none

/-- A thread gives up its wait. -/
def System.late (s : System ι M D A R) (i : ι) : Option (System ι M D A R) :=
  match s.thread i with
  | .lockWithin m _ late => if s.owner m = none then none else some (s.goto i late)
  | .wait ready _ _ late => if ready s.data then none else some (s.goto i late)
  | _ => none

def System.answer (s : System ι M D A R) (i : ι) (a : A) : Option (System ι M D A R) :=
  match s.thread i with
  | .ask next => (next s.data a).map (s.goto i)
  | _ => none

/-- The steps of the threads whose calls run the programs `program`. -/
def System.step (program : C → Program M D A R) (event : E → D → D) (s : System ι M D A R) :
    Move ι A C E → Option (System ι M D A R)
  | .call i c =>
      match s.thread i with
      | .done _ => some (s.goto i (program c))
      | _ => none
  | .go i => s.go i
  | .late i => s.late i
  | .answer i a => s.answer i a
  | .event e => some { s with data := event e s.data }

/-- The next operation of every thread is legal. -/
def System.Respected (s : System ι M D A R) : Prop :=
  ∀ i, (s.thread i).Legal (s.held i)

section Frame

variable {s s' : System ι M D A R} {i j : ι} {m : M} {p : Program M D A R}

omit [DecidableEq M] in
@[simp] theorem System.goto_thread : (s.goto i p).thread i = p := Function.update_self ..

theorem System.take_held (s : System ι M D A R) (i : ι) (m : M) (p : Program M D A R) :
    (s.take i m p).held i = insert m (s.held i) := by
  ext n
  by_cases hn : n = m
  · subst hn
    simp [System.held, System.take]
  · simp [System.held, System.take, System.goto, hn]

theorem System.give_held (s : System ι M D A R) (i : ι) (m : M) (p : Program M D A R) :
    (s.give i m p).held i = s.held i \ {m} := by
  ext n
  by_cases hn : n = m
  · subst hn
    simp [System.held, System.give]
  · simp [System.held, System.give, System.goto, hn]

/-- The step of the thread `i` leaves the other threads and their mutexes. -/
def System.Frame (i : ι) (s s' : System ι M D A R) : Prop :=
  ∀ j, j ≠ i → s'.thread j = s.thread j ∧ s'.held j = s.held j

omit [DecidableEq M] in
theorem System.goto_frame (s : System ι M D A R) (i : ι) (p : Program M D A R) :
    System.Frame i s (s.goto i p) :=
  fun _ hj => ⟨Function.update_of_ne hj .., rfl⟩

/-- A mutex that was free is none of another thread. -/
theorem System.take_frame (hfree : s.owner m = none) : System.Frame i s (s.take i m p) := by
  refine fun j hj => ⟨Function.update_of_ne hj .., ?_⟩
  ext n
  by_cases hn : n = m
  · subst hn
    simp [System.held, System.take, hfree, hj.symm]
  · simp [System.held, System.take, System.goto, hn]

/-- A mutex that the thread has held is none of another thread. -/
theorem System.give_frame (hheld : m ∈ s.held i) : System.Frame i s (s.give i m p) := by
  have howner : s.owner m = some i := hheld
  refine fun j hj => ⟨Function.update_of_ne hj .., ?_⟩
  ext n
  by_cases hn : n = m
  · subst hn
    simp [System.held, System.give, howner, hj.symm]
  · simp [System.held, System.give, System.goto, hn]

omit [DecidableEq M] in
/-- What holds of every thread and its mutexes still does after the step of one thread, if
it does of that one. -/
theorem System.Frame.forall {T : Set M → Program M D A R → Prop} (hframe : System.Frame i s s')
    (h : ∀ j, T (s.held j) (s.thread j)) (hi : T (s'.held i) (s'.thread i)) (j : ι) :
    T (s'.held j) (s'.thread j) := by
  by_cases hj : j = i
  · exact hj ▸ hi
  · obtain ⟨hthread, hheld⟩ := hframe j hj
    rw [hthread, hheld]
    exact h j

/-- What a thread does when it goes on. -/
inductive System.GoMove (s : System ι M D A R) (i : ι) : System ι M D A R → Prop
  | lock {m : M} {next : Program M D A R} (hp : s.thread i = .lock m next)
      (hfree : s.owner m = none) : GoMove s i (s.take i m next)
  | lockWithin {m : M} {next late : Program M D A R} (hp : s.thread i = .lockWithin m next late)
      (hfree : s.owner m = none) : GoMove s i (s.take i m next)
  | unlock {m : M} {next : Program M D A R} (hp : s.thread i = .unlock m next) :
      GoMove s i (s.give i m next)
  | assign {guard : Option M} {f : D → D} {next : Program M D A R}
      (hp : s.thread i = .assign guard f next) :
      GoMove s i { s.goto i next with data := f s.data }
  | wait {ready : D → Bool} {f : D → D} {next late : Program M D A R}
      (hp : s.thread i = .wait ready f next late) (hready : ready s.data = true) :
      GoMove s i { s.goto i next with data := f s.data }

theorem System.goMove_of_go (hs : s.go i = some s') : s.GoMove i s' := by
  rw [System.go] at hs
  cases hp : s.thread i with
  | done r => simp [hp] at hs
  | ask next => simp [hp] at hs
  | lock m next =>
      simp only [hp, Option.ite_none_right_eq_some, Option.some.injEq] at hs
      exact hs.2 ▸ .lock hp hs.1
  | lockWithin m next late =>
      simp only [hp, Option.ite_none_right_eq_some, Option.some.injEq] at hs
      exact hs.2 ▸ .lockWithin hp hs.1
  | unlock m next =>
      simp only [hp, Option.some.injEq] at hs
      exact hs ▸ .unlock hp
  | assign guard f next =>
      simp only [hp, Option.some.injEq] at hs
      exact hs ▸ .assign hp
  | wait ready f next late =>
      simp only [hp, Option.ite_none_right_eq_some, Option.some.injEq] at hs
      exact hs.2 ▸ .wait hp hs.1

theorem System.go_frame (hlegal : (s.thread i).Legal (s.held i)) (hs : s.go i = some s') :
    System.Frame i s s' := by
  cases System.goMove_of_go hs with
  | lock hp hfree => exact System.take_frame hfree
  | lockWithin hp hfree => exact System.take_frame hfree
  | unlock hp =>
      rw [hp] at hlegal
      exact System.give_frame hlegal
  | assign hp => exact s.goto_frame i _
  | wait hp hready => exact s.goto_frame i _

variable {giveUp : Set M → Program M D A R → Prop}

/-- A thread that goes on in a program that is well locked. -/
theorem WellLocked.go (h : WellLocked giveUp (s.held i) (s.thread i)) (hs : s.go i = some s') :
    WellLocked giveUp (s'.held i) (s'.thread i) := by
  cases System.goMove_of_go hs with
  | lock hp hfree =>
      rw [hp] at h
      cases h with
      | lock _ hnext =>
          rw [System.take_held, System.take, System.goto_thread]
          exact hnext
  | lockWithin hp hfree =>
      rw [hp] at h
      cases h with
      | lockWithin _ hnext _ =>
          rw [System.take_held, System.take, System.goto_thread]
          exact hnext
  | unlock hp =>
      rw [hp] at h
      cases h with
      | unlock _ hnext =>
          rw [System.give_held, System.give, System.goto_thread]
          exact hnext
  | assign hp =>
      rw [hp] at h
      cases h with
      | assign _ hnext =>
          simp only [System.goto_thread]
          exact hnext
  | wait hp hready =>
      rw [hp] at h
      cases h with
      | wait hnext _ =>
          simp only [System.goto_thread]
          exact hnext

omit [DecidableEq M] in
theorem System.late_frame (hs : s.late i = some s') : System.Frame i s s' := by
  rw [System.late] at hs
  cases hp : s.thread i with
  | lockWithin m next late =>
      simp only [hp, Option.ite_none_left_eq_some, Option.some.injEq] at hs
      exact hs.2 ▸ s.goto_frame i late
  | wait ready f next late =>
      simp only [hp, Option.ite_none_left_eq_some, Option.some.injEq] at hs
      exact hs.2 ▸ s.goto_frame i late
  | _ => simp [hp] at hs

omit [DecidableEq M] in
/-- A thread that gives up on data. -/
theorem WellLocked.late (h : WellLocked giveUp (s.held i) (s.thread i))
    (hpatient : ∀ m, (s.thread i).Hurried m → s.owner m = none) (hs : s.late i = some s') :
    WellLocked giveUp (s'.held i) (s'.thread i) := by
  rw [System.late] at hs
  cases hp : s.thread i with
  | wait ready f next late =>
      simp only [hp, Option.ite_none_left_eq_some, Option.some.injEq] at hs
      rw [hp] at h
      cases h with
      | wait _ hlate =>
          obtain ⟨_, rfl⟩ := hs
          rw [System.goto_thread]
          exact hlate
  | lockWithin m next late =>
      simp only [hp, Option.ite_none_left_eq_some] at hs
      rw [hp] at hpatient
      exact absurd (hpatient m rfl) hs.1
  | _ => simp [hp] at hs

omit [DecidableEq M] in
/-- A thread that gives up on a mutex. -/
theorem WellLocked.hurried (h : WellLocked giveUp (s.held i) (s.thread i))
    (hhurried : (s.thread i).Hurried m) (htaken : s.owner m ≠ none) :
    ∃ s', s.late i = some s' ∧ giveUp (s'.held i) (s'.thread i) := by
  cases hp : s.thread i with
  | lockWithin n next late =>
      rw [hp] at h hhurried
      cases hhurried
      cases h with
      | lockWithin _ _ hlate =>
          refine ⟨s.goto i late, ?_, ?_⟩
          · simp [System.late, hp, htaken]
          · rw [System.goto_thread]
            exact hlate
  | _ =>
      rw [hp] at hhurried
      exact absurd hhurried id

omit [DecidableEq M] in
theorem System.answer_frame {a : A} (hs : s.answer i a = some s') : System.Frame i s s' := by
  rw [System.answer] at hs
  cases hp : s.thread i with
  | ask next =>
      simp only [hp, Option.map_eq_some_iff] at hs
      obtain ⟨p, _, rfl⟩ := hs
      exact s.goto_frame i p
  | _ => simp [hp] at hs

omit [DecidableEq M] in
theorem WellLocked.answer {a : A} (h : WellLocked giveUp (s.held i) (s.thread i))
    (hs : s.answer i a = some s') : WellLocked giveUp (s'.held i) (s'.thread i) := by
  rw [System.answer] at hs
  cases hp : s.thread i with
  | ask next =>
      simp only [hp, Option.map_eq_some_iff] at hs
      obtain ⟨p, hnext, rfl⟩ := hs
      rw [hp] at h
      cases h with
      | ask hall =>
          rw [System.goto_thread]
          exact hall _ _ _ hnext
  | _ => simp [hp] at hs

end Frame

end Steps

end Sync
