import Mathlib.Logic.Function.Basic

/-!
# Who holds a mutex

A mutex is the thread that holds it, if any. `Guarded owner holds` ties it to the places of
the threads: a thread holds the mutex exactly when it is at a place where it should. A move
of one thread keeps this when it takes the mutex, gives it, or goes between places that
agree.
-/

namespace Sync

section Guarded

variable {ι Pc : Type*} {owner : Option ι} {holds : Pc → Prop} {pc : ι → Pc}

/-- The mutex is held by the thread whose place says so, and by no other. -/
def Guarded (owner : Option ι) (holds : Pc → Prop) (pc : ι → Pc) : Prop :=
  ∀ i, owner = some i ↔ holds (pc i)

/-- A free mutex, and no thread at a place where it holds it. -/
theorem Guarded.of_free (h : ∀ i, ¬ holds (pc i)) : Guarded none holds pc := by
  intro i
  simp [h i]

theorem Guarded.not_holds (h : Guarded none holds pc) (i : ι) : ¬ holds (pc i) := by
  intro hi
  cases (h i).2 hi

theorem Guarded.unique (h : Guarded owner holds pc) {i j : ι} (hi : holds (pc i))
    (hj : holds (pc j)) : i = j :=
  Option.some.inj (((h i).2 hi).symm.trans ((h j).2 hj))

theorem Guarded.owner_eq (h : Guarded owner holds pc) {i : ι} (hi : holds (pc i)) :
    owner = some i := (h i).2 hi

/-- The thread at `q` that has the mutex. -/
theorem Guarded.owner_of_eq (h : Guarded owner holds pc) {i : ι} {q : Pc} (hpc : pc i = q)
    (hq : holds q) : owner = some i := h.owner_eq (hpc ▸ hq)

section Moves

variable [DecidableEq ι] {i : ι} {p : Pc}

/-- A thread that finds the mutex free takes it. -/
theorem Guarded.take (h : Guarded none holds pc) (hp : holds p) :
    Guarded (some i) holds (Function.update pc i p) := by
  intro j
  by_cases hj : j = i
  · subst hj
    simp [hp]
  · rw [Function.update_of_ne hj, Option.some.injEq]
    exact ⟨fun hij => absurd hij.symm hj, fun hholds => absurd hholds (h.not_holds j)⟩

/-- The holder gives the mutex. -/
theorem Guarded.give (h : Guarded owner holds pc) (hi : holds (pc i)) (hp : ¬ holds p) :
    Guarded none holds (Function.update pc i p) := by
  refine .of_free fun j => ?_
  by_cases hj : j = i
  · subst hj
    rwa [Function.update_self]
  · rw [Function.update_of_ne hj]
    exact fun hholds => hj (h.unique hholds hi)

/-- A move between places that agree leaves the mutex. -/
theorem Guarded.move (h : Guarded owner holds pc) (hp : holds p ↔ holds (pc i)) :
    Guarded owner holds (Function.update pc i p) := by
  intro j
  by_cases hj : j = i
  · subst hj
    rw [Function.update_self, hp]
    exact h j
  · rw [Function.update_of_ne hj]
    exact h j

/-- The forms of `Guarded.give` and `Guarded.move` for a thread that is known to be at `q`. -/
theorem Guarded.giveFrom {q : Pc} (h : Guarded owner holds pc) (hpc : pc i = q) (hq : holds q)
    (hp : ¬ holds p) : Guarded none holds (Function.update pc i p) :=
  h.give (hpc ▸ hq) hp

theorem Guarded.moveFrom {q : Pc} (h : Guarded owner holds pc) (hpc : pc i = q)
    (hp : holds p ↔ holds q) : Guarded owner holds (Function.update pc i p) :=
  h.move (hpc ▸ hp)

/-- A thread that leaves the places where it holds the mutex without giving it breaks the
tie. -/
theorem Guarded.not_of_leave (h : Guarded owner holds pc) (hi : holds (pc i)) (hp : ¬ holds p) :
    ¬ Guarded owner holds (Function.update pc i p) := by
  intro h'
  have hheld := (h' i).1 (h.owner_eq hi)
  rw [Function.update_self] at hheld
  exact hp hheld

end Moves

end Guarded

end Sync
