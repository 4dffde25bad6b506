import Mathlib.Data.List.Basic

/-!
# Runs of a partial step function

A system is a partial step function `step : σ → α → Option σ`: `step s a` is the
state after the action `a`, and `none` where `a` is not enabled at `s` (a thread
that blocks, a call the caller may not make). A run is a list of actions, read
from the left. The induction "true at the start and kept by every step" is stated
once here, with a form whose steps also meet a side condition.
-/

namespace Transition

section Run

variable {σ α : Type*} {step : σ → α → Option σ}

/-- The state after the actions `as`; `none` as soon as one of them is not
enabled. -/
def run (step : σ → α → Option σ) : σ → List α → Option σ
  | s, [] => some s
  | s, a :: as => (step s a).bind fun s' => run step s' as

/-- `s` is reachable from `s₀`: some finite run leads there. -/
def Reachable (step : σ → α → Option σ) (s₀ s : σ) : Prop :=
  ∃ as, run step s₀ as = some s

/-- Every step of the run `as` from `s` meets the condition `ok` in the state it
is taken from. -/
def Along (ok : σ → α → Prop) (step : σ → α → Option σ) : σ → List α → Prop
  | _, [] => True
  | s, a :: as => ok s a ∧ ∀ s', step s a = some s' → Along ok step s' as

@[simp] theorem run_nil (s : σ) : run step s [] = some s := rfl

theorem run_cons (s : σ) (a : α) (as : List α) :
    run step s (a :: as) = (step s a).bind fun s' => run step s' as := rfl

theorem run_cons_eq_some {s s' : σ} {a : α} {as : List α} :
    run step s (a :: as) = some s' ↔
      ∃ t, step s a = some t ∧ run step t as = some s' := by
  rw [run_cons, Option.bind_eq_some_iff]

/-- A run of appended actions goes through the state reached by the first part. -/
theorem run_append (s : σ) (as bs : List α) :
    run step s (as ++ bs) = (run step s as).bind fun s' => run step s' bs := by
  induction as generalizing s with
  | nil => rfl
  | cons a as ih =>
      rw [List.cons_append, run_cons, run_cons]
      cases step s a with
      | none => rfl
      | some t => exact ih t

theorem run_append_eq_some {s s' : σ} {as bs : List α} :
    run step s (as ++ bs) = some s' ↔
      ∃ t, run step s as = some t ∧ run step t bs = some s' := by
  rw [run_append, Option.bind_eq_some_iff]

/-- What every step keeps, every run keeps. -/
theorem run_invariant {Inv : σ → Prop}
    (hstep : ∀ s a s', Inv s → step s a = some s' → Inv s')
    {s s' : σ} {as : List α} (hi : Inv s) (h : run step s as = some s') :
    Inv s' := by
  induction as generalizing s with
  | nil =>
      rw [run_nil, Option.some.injEq] at h
      exact h ▸ hi
  | cons a as ih =>
      obtain ⟨t, ht, hrest⟩ := run_cons_eq_some.1 h
      exact ih (hstep s a t hi ht) hrest

/-- A run whose steps are all enabled and keep an invariant. -/
theorem run_total {Inv : σ → Prop} (hstep : ∀ s a, Inv s → ∃ s', step s a = some s' ∧ Inv s')
    {s : σ} (hi : Inv s) (as : List α) : ∃ s', run step s as = some s' ∧ Inv s' := by
  induction as generalizing s with
  | nil => exact ⟨s, rfl, hi⟩
  | cons a as ih =>
      obtain ⟨t, ht, hi'⟩ := hstep s a hi
      obtain ⟨s', hs', hend⟩ := ih hi'
      exact ⟨s', run_cons_eq_some.2 ⟨t, ht, hs'⟩, hend⟩

/-- The form of `run_total` for runs whose steps all meet `ok`. -/
theorem Along.total {Inv : σ → Prop} {ok : σ → α → Prop}
    (hstep : ∀ s a, Inv s → ok s a → ∃ s', step s a = some s' ∧ Inv s') {s : σ} {as : List α}
    (hi : Inv s) (hok : Along ok step s as) : ∃ s', run step s as = some s' ∧ Inv s' := by
  induction as generalizing s with
  | nil => exact ⟨s, rfl, hi⟩
  | cons a as ih =>
      obtain ⟨t, ht, hi'⟩ := hstep s a hi hok.1
      obtain ⟨s', hs', hend⟩ := ih hi' (hok.2 t ht)
      exact ⟨s', run_cons_eq_some.2 ⟨t, ht, hs'⟩, hend⟩

theorem Reachable.refl (s : σ) : Reachable step s s := ⟨[], rfl⟩

theorem Reachable.tail {s₀ s s' : σ} {a : α} (h : Reachable step s₀ s)
    (ha : step s a = some s') : Reachable step s₀ s' := by
  obtain ⟨as, has⟩ := h
  exact ⟨as ++ [a], run_append_eq_some.2 ⟨s, has, run_cons_eq_some.2 ⟨s', ha, rfl⟩⟩⟩

/-- An invariant of the steps that holds at the start holds in every reachable
state. -/
theorem Reachable.invariant {Inv : σ → Prop}
    (hstep : ∀ s a s', Inv s → step s a = some s' → Inv s')
    {s₀ s : σ} (hi : Inv s₀) (h : Reachable step s₀ s) : Inv s := by
  obtain ⟨as, has⟩ := h
  exact run_invariant hstep hi has

theorem along_cons {ok : σ → α → Prop} {s : σ} {a : α} {as : List α} :
    Along ok step s (a :: as) ↔
      ok s a ∧ ∀ s', step s a = some s' → Along ok step s' as :=
  Iff.rfl

/-- A condition along appended actions holds along the first part, and along the rest
from the state reached. -/
theorem along_append {ok : σ → α → Prop} {s : σ} {as bs : List α} :
    Along ok step s (as ++ bs) ↔
      Along ok step s as ∧ ∀ t, run step s as = some t → Along ok step t bs := by
  induction as generalizing s with
  | nil =>
      constructor
      · intro h
        refine ⟨trivial, fun t ht => ?_⟩
        cases ht
        exact h
      · exact fun h => h.2 s rfl
  | cons a as ih =>
      rw [List.cons_append, along_cons, along_cons, and_assoc]
      refine and_congr_right fun _ => ?_
      constructor
      · intro h
        refine ⟨fun t ht => (ih.1 (h t ht)).1, fun u hu => ?_⟩
        obtain ⟨t, ht, hrest⟩ := run_cons_eq_some.1 hu
        exact (ih.1 (h t ht)).2 u hrest
      · intro h t ht
        refine ih.2 ⟨h.1 t ht, fun u hu => ?_⟩
        exact h.2 u (run_cons_eq_some.2 ⟨t, ht, hu⟩)

/-- A run can be checked for a decidable condition step by step. -/
instance Along.decidable (ok : σ → α → Prop) [∀ s a, Decidable (ok s a)]
    (step : σ → α → Option σ) : (s : σ) → (as : List α) → Decidable (Along ok step s as)
  | _, [] => isTrue trivial
  | s, a :: as =>
      haveI : DecidablePred fun t => Along ok step t as := fun t => Along.decidable ok step t as
      inferInstanceAs (Decidable (ok s a ∧ ∀ t ∈ step s a, Along ok step t as))

/-- A run that does not meet a condition throughout has a first part that meets it and leads
to a step which does not. -/
theorem exists_of_not_along {ok : σ → α → Prop} {s : σ} {as : List α}
    (h : ¬ Along ok step s as) :
    ∃ before a after t, as = before ++ a :: after ∧ Along ok step s before ∧
      run step s before = some t ∧ ¬ ok t a := by
  induction as generalizing s with
  | nil => exact absurd trivial h
  | cons a as ih =>
      by_cases hok : ok s a
      · obtain ⟨t, ht, hrest⟩ : ∃ t, step s a = some t ∧ ¬ Along ok step t as := by
          by_contra hall
          refine h ⟨hok, fun t ht => ?_⟩
          by_contra hrest
          exact hall ⟨t, ht, hrest⟩
        obtain ⟨before, b, after, u, rfl, hbefore, hu, hb⟩ := ih hrest
        refine ⟨a :: before, b, after, u, rfl, ⟨hok, fun t' ht' => ?_⟩,
          run_cons_eq_some.2 ⟨t, ht, hu⟩, hb⟩
        rw [ht] at ht'
        cases ht'
        exact hbefore
      · exact ⟨[], a, as, s, rfl, trivial, rfl, hok⟩

/-- The form of `run_invariant` for runs whose steps all meet `ok`. -/
theorem Along.invariant {Inv : σ → Prop} {ok : σ → α → Prop}
    (hstep : ∀ s a s', Inv s → ok s a → step s a = some s' → Inv s')
    {s s' : σ} {as : List α} (hok : Along ok step s as) (hi : Inv s)
    (h : run step s as = some s') : Inv s' := by
  induction as generalizing s with
  | nil =>
      rw [run_nil, Option.some.injEq] at h
      exact h ▸ hi
  | cons a as ih =>
      obtain ⟨t, ht, hrest⟩ := run_cons_eq_some.1 h
      exact ih (hok.2 t ht) (hstep s a t hi hok.1 ht) hrest

/-- A condition that an invariant of the steps gives holds along every run. -/
theorem Along.of_invariant {Inv : σ → Prop} {ok : σ → α → Prop}
    (hstep : ∀ s a s', Inv s → step s a = some s' → Inv s')
    (hok : ∀ s a, Inv s → ok s a) {s : σ} (hi : Inv s) (as : List α) : Along ok step s as := by
  induction as generalizing s with
  | nil => trivial
  | cons a as ih => exact ⟨hok s a hi, fun t ht => ih (hstep s a t hi ht)⟩

/-- Along a run that meets `ok₀` throughout, two conditions that agree on every state that
keeps `Inv` hold together; a step that breaks the conditions need not keep `Inv`. -/
theorem Along.congr {Inv : σ → Prop} {ok₀ ok ok' : σ → α → Prop}
    (hstep : ∀ s a s', Inv s → ok₀ s a → ok' s a → step s a = some s' → Inv s')
    (hiff : ∀ s a, Inv s → ok₀ s a → (ok s a ↔ ok' s a)) {s : σ} {as : List α} (hi : Inv s)
    (h₀ : Along ok₀ step s as) : Along ok step s as ↔ Along ok' step s as := by
  induction as generalizing s with
  | nil => exact Iff.rfl
  | cons a as ih =>
      rw [along_cons, along_cons, hiff s a hi h₀.1]
      refine and_congr_right fun hok => forall_congr' fun t => ?_
      exact forall_congr' fun ht => ih (hstep s a t hi h₀.1 hok ht) (h₀.2 t ht)

/-- A condition that the states which keep `Inv` and the steps that meet `ok` have holds
along every run whose steps meet `ok`. -/
theorem Along.imp {Inv : σ → Prop} {ok ok' : σ → α → Prop}
    (hstep : ∀ s a s', Inv s → ok s a → step s a = some s' → Inv s')
    (himp : ∀ s a, Inv s → ok s a → ok' s a) {s : σ} {as : List α} (hi : Inv s)
    (hok : Along ok step s as) : Along ok' step s as := by
  induction as generalizing s with
  | nil => trivial
  | cons a as ih =>
      exact ⟨himp s a hi hok.1, fun t ht => ih (hstep s a t hi hok.1 ht) (hok.2 t ht)⟩

theorem along_true (s : σ) (as : List α) : Along (fun _ _ => True) step s as := by
  induction as generalizing s with
  | nil => trivial
  | cons a as ih => exact ⟨trivial, fun t _ => ih t⟩

/-- A condition that every action of the run meets in any state. -/
theorem Along.of_forall_mem {ok : σ → α → Prop} {as : List α} (h : ∀ a ∈ as, ∀ s, ok s a) (s : σ) :
    Along ok step s as := by
  induction as generalizing s with
  | nil => trivial
  | cons a as ih =>
      refine ⟨h a List.mem_cons_self s, fun t _ => ih (fun b hb => ?_) t⟩
      exact h b (List.mem_cons_of_mem a hb)

/-- The form of `Along.congr` for all runs. -/
theorem along_congr {Inv : σ → Prop} {ok ok' : σ → α → Prop}
    (hstep : ∀ s a s', Inv s → ok' s a → step s a = some s' → Inv s')
    (hiff : ∀ s a, Inv s → (ok s a ↔ ok' s a)) {s : σ} (hi : Inv s)
    (as : List α) : Along ok step s as ↔ Along ok' step s as :=
  Along.congr (fun s a s' hs _ => hstep s a s' hs) (fun s a hs _ => hiff s a hs) hi
    (along_true s as)

end Run

section Simulation

variable {σ τ α : Type*} {step : σ → α → Option σ} {step' : τ → α → Option τ}

/-- Step by step simulation carries over to runs: `R`-related states stay related
along the same actions. -/
theorem run_simulation {R : σ → τ → Prop}
    (hstep : ∀ s t a s', R s t → step s a = some s' → ∃ t', step' t a = some t' ∧ R s' t')
    {s s' : σ} {t : τ} {as : List α} (hR : R s t) (h : run step s as = some s') :
    ∃ t', run step' t as = some t' ∧ R s' t' := by
  induction as generalizing s t with
  | nil =>
      rw [run_nil, Option.some.injEq] at h
      exact ⟨t, rfl, h ▸ hR⟩
  | cons a as ih =>
      obtain ⟨u, hu, hrest⟩ := run_cons_eq_some.1 h
      obtain ⟨v, hv, hR'⟩ := hstep s t a u hR hu
      obtain ⟨t', ht', hend⟩ := ih hR' hrest
      exact ⟨t', run_cons_eq_some.2 ⟨v, hv, ht'⟩, hend⟩

end Simulation

end Transition
