import Mathlib.Data.List.Basic

/-!
# Checks in order

A loop checks the items of a list one after the other. An item for which `ok` fails takes it out
of what is defined, one for which `pass` fails stops it. A check is the pair of these two
conditions; those behind the first one that does not pass are not made.
-/

namespace Checks

variable {α β γ δ : Type*} {cs ds : List (Prop × Prop)}

/-- The loop: `none` where it is not defined, `some none` where it is stopped, and else the
values of the items. -/
def checkLoop (ok pass : α → Prop) [DecidablePred ok] [DecidablePred pass] (value : α → β) :
    List α → Option (Option (List β))
  | [] => some (some [])
  | a :: rest =>
      if ¬ ok a then none
      else if ¬ pass a then some none
      else (checkLoop ok pass value rest).map (Option.map (value a :: ·))

/-- All checks that are made are defined. -/
def Defined : List (Prop × Prop) → Prop
  | [] => True
  | c :: cs => c.1 ∧ (c.2 → Defined cs)

/-- All checks pass. -/
def Passes (cs : List (Prop × Prop)) : Prop := ∀ c ∈ cs, c.2

theorem passes_cons {c : Prop × Prop} : Passes (c :: cs) ↔ c.2 ∧ Passes cs :=
  List.forall_mem_cons

theorem passes_append : Passes (cs ++ ds) ↔ Passes cs ∧ Passes ds := List.forall_mem_append

theorem defined_append : Defined (cs ++ ds) ↔ Defined cs ∧ (Passes cs → Defined ds) := by
  induction cs with
  | nil => simp [Defined, Passes]
  | cons c cs ih =>
      rw [List.cons_append, Defined, Defined, ih, passes_cons]
      constructor
      · rintro ⟨hok, hrest⟩
        exact ⟨⟨hok, fun hc => (hrest hc).1⟩, fun hpass => (hrest hpass.1).2 hpass.2⟩
      · rintro ⟨⟨hok, hcs⟩, hds⟩
        exact ⟨hok, fun hc => ⟨hcs hc, fun hpass => hds ⟨hc, hpass⟩⟩⟩

/-- The checks decide what is returned: nothing where they are not defined, something that is
`Refused` where they stop, and `rest` where all of them pass. -/
inductive Decides (cs : List (Prop × Prop)) (Refused : γ → Prop) (rest : Option γ) :
    Option γ → Prop
  | undefined : ¬ Defined cs → Decides cs Refused rest none
  | refused {r : γ} : Defined cs → ¬ Passes cs → Refused r → Decides cs Refused rest (some r)
  | passed : Defined cs → Passes cs → Decides cs Refused rest rest

/-- Checks that are made when the first ones pass. -/
theorem Decides.append {Refused : γ → Prop} {r r' rest : Option γ} (h : Decides cs Refused r' r)
    (h' : Decides ds Refused rest r') : Decides (cs ++ ds) Refused rest r := by
  cases h with
  | undefined hdef => exact .undefined fun hall => hdef (defined_append.1 hall).1
  | refused hdef hstop hr =>
      refine .refused (defined_append.2 ⟨hdef, fun hpass => absurd hpass hstop⟩) ?_ hr
      exact fun hall => hstop (passes_append.1 hall).1
  | passed hdef hpass =>
      cases h' with
      | undefined hdef' => exact .undefined fun hall => hdef' ((defined_append.1 hall).2 hpass)
      | refused hdef' hstop' hr =>
          refine .refused (defined_append.2 ⟨hdef, fun _ => hdef'⟩) ?_ hr
          exact fun hall => hstop' (passes_append.1 hall).2
      | passed hdef' hpass' =>
          exact .passed (defined_append.2 ⟨hdef, fun _ => hdef'⟩) (passes_append.2 ⟨hpass, hpass'⟩)

section Loop

variable (ok pass : α → Prop)

/-- The checks of the loop. -/
def checks (l : List α) : List (Prop × Prop) := l.map fun a => (ok a, pass a)

theorem checks_map (f : δ → α) (l : List δ) :
    checks ok pass (l.map f) = checks (fun a => ok (f a)) (fun a => pass (f a)) l := List.map_map

variable [DecidablePred ok] [DecidablePred pass] (value : α → β)

theorem decides_checkLoop (l : List α) :
    Decides (checks ok pass l) (· = none) (some (some (l.map value)))
      (checkLoop ok pass value l) := by
  induction l with
  | nil => exact .passed trivial fun _ h => absurd h List.not_mem_nil
  | cons a l ih =>
      have hcons : checks ok pass (a :: l) = [(ok a, pass a)] ++ checks ok pass l := rfl
      rw [checkLoop, hcons, List.map_cons]
      by_cases hok : ok a
      · by_cases hpass : pass a
        · rw [if_neg (not_not.2 hok), if_neg (not_not.2 hpass)]
          refine Decides.append (.passed ⟨hok, fun _ => trivial⟩ ?_) ?_
          · exact List.forall_mem_singleton.2 hpass
          · generalize checkLoop ok pass value l = result at ih ⊢
            cases ih with
            | undefined hdef => exact .undefined hdef
            | refused hdef hstop hr =>
                cases hr
                exact .refused hdef hstop rfl
            | passed hdef hall => exact .passed hdef hall
        · rw [if_neg (not_not.2 hok), if_pos hpass]
          refine .refused ⟨hok, fun h => absurd h hpass⟩ ?_ rfl
          exact fun hall => hpass (hall _ List.mem_cons_self)
      · rw [if_pos hok]
        exact .undefined fun hdef => hok hdef.1

/-- A loop that is stopped is answered by a refusal, and the rest goes on with the values. -/
theorem decides_elim_checkLoop {Refused : γ → Prop} {r : γ} (hr : Refused r) (l : List α)
    (rest : List β → Option γ) :
    Decides (checks ok pass l) Refused (rest (l.map value))
      ((checkLoop ok pass value l).elim none fun values => values.elim (some r) rest) := by
  have hloop := decides_checkLoop ok pass value l
  generalize checkLoop ok pass value l = result at hloop ⊢
  cases hloop with
  | undefined hdef => exact .undefined hdef
  | refused hdef hstop hnone =>
      cases hnone
      exact .refused hdef hstop hr
  | passed hdef hpass => exact .passed hdef hpass

end Loop

end Checks
