import Mathlib.Data.List.Basic

/-!
# Linked lists

A linked list is given by the function `next` from a cell to the one after it, and by
the pointer to its first cell, where `none` is the null pointer. `Chain` says which
cells it has; `find`, `last` and `cells` are the usual loops over it. They take a bound
on their turns, and any bound not below the length of the list gives the same result.
-/

namespace LinkedList

section Chain

variable {α : Type*} {next next' : α → Option α}

/-- From the pointer `q` on, the list has the cells `l`. -/
inductive Chain (next : α → Option α) : Option α → List α → Prop
  | nil : Chain next none []
  | cons {a : α} {l : List α} : Chain next (next a) l → Chain next (some a) (a :: l)

/-- The first cell that satisfies `p`. -/
def find (next : α → Option α) (p : α → Bool) : ℕ → Option α → Option α
  | 0, _ => none
  | _ + 1, none => none
  | fuel + 1, some a => if p a then some a else find next p fuel (next a)

/-- The last cell, from the cell `a` on. -/
def last (next : α → Option α) : ℕ → α → α
  | 0, a => a
  | fuel + 1, a =>
      match next a with
      | none => a
      | some b => last next fuel b

/-- The cells from the pointer `q` on. -/
def cells (next : α → Option α) : ℕ → Option α → List α
  | 0, _ => []
  | _ + 1, none => []
  | fuel + 1, some a => a :: cells next fuel (next a)

theorem Chain.cells_eq {q : Option α} {l : List α} (h : Chain next q l) {fuel : ℕ}
    (hfuel : l.length ≤ fuel) : cells next fuel q = l := by
  induction h generalizing fuel with
  | nil =>
      cases fuel with
      | zero => rfl
      | succ fuel => rfl
  | @cons a l _ ih =>
      cases fuel with
      | zero => exact absurd hfuel (Nat.not_succ_le_zero _)
      | succ fuel => rw [cells, ih (Nat.le_of_succ_le_succ hfuel)]

theorem Chain.find_eq {p : α → Bool} {q : Option α} {l : List α} (h : Chain next q l) {fuel : ℕ}
    (hfuel : l.length ≤ fuel) : find next p fuel q = l.find? p := by
  induction h generalizing fuel with
  | nil =>
      cases fuel with
      | zero => rfl
      | succ fuel => rfl
  | @cons a l _ ih =>
      cases fuel with
      | zero => exact absurd hfuel (Nat.not_succ_le_zero _)
      | succ fuel =>
          rw [find, List.find?_cons, ih (Nat.le_of_succ_le_succ hfuel)]
          cases p a with
          | true => rfl
          | false => rfl

theorem chain_none {l : List α} (h : Chain next none l) : l = [] := by
  cases h
  rfl

theorem chain_some {a : α} {l : List α} (h : Chain next (some a) l) :
    ∃ l', l = a :: l' ∧ Chain next (next a) l' := by
  cases h with
  | cons hl => exact ⟨_, rfl, hl⟩

theorem Chain.last_eq {l : List α} {a b : α} (h : Chain next (some a) (l ++ [b])) {fuel : ℕ}
    (hfuel : l.length ≤ fuel) : last next fuel a = b := by
  obtain ⟨l', hl', hrest⟩ := chain_some h
  induction l generalizing a l' fuel with
  | nil =>
      obtain ⟨hba, hnil⟩ := List.cons.inj hl'
      rw [hba]
      cases hn : next a with
      | some c =>
          rw [hn, ← hnil] at hrest
          obtain ⟨_, hcons, -⟩ := chain_some hrest
          cases hcons
      | none =>
          cases fuel with
          | zero => rfl
          | succ fuel => rw [last, hn]
  | cons c l ih =>
      obtain ⟨-, htail⟩ := List.cons.inj hl'
      rw [← htail] at hrest
      cases fuel with
      | zero => exact absurd hfuel (Nat.not_succ_le_zero _)
      | succ fuel =>
          cases hn : next a with
          | none =>
              rw [hn] at hrest
              exact absurd (chain_none hrest) (List.concat_ne_nil b l)
          | some d =>
              rw [hn] at hrest
              obtain ⟨l'', hl'', hrest'⟩ := chain_some hrest
              rw [last, hn]
              exact ih hrest (Nat.le_of_succ_le_succ hfuel) l'' hl'' hrest'

/-- A list none of whose cells is changed stays as it is. -/
theorem Chain.congr {q : Option α} {l : List α} (h : Chain next q l)
    (hsame : ∀ a ∈ l, next' a = next a) : Chain next' q l := by
  induction h with
  | nil => exact .nil
  | @cons a l _ ih =>
      refine .cons ?_
      rw [hsame a List.mem_cons_self]
      exact ih fun b hb => hsame b (List.mem_cons_of_mem a hb)

/-- A cell linked to the last one makes the list longer by it. -/
theorem Chain.append_singleton {q : Option α} {l : List α} {b c : α}
    (h : Chain next q (l ++ [b])) (hsame : ∀ a ∈ l, next' a = next a) (hb : next' b = some c)
    (hc : next' c = none) : Chain next' q (l ++ [b, c]) := by
  induction l generalizing q with
  | nil =>
      cases h with
      | cons _ =>
          refine .cons ?_
          rw [hb]
          refine .cons ?_
          rw [hc]
          exact .nil
  | cons a l ih =>
      cases h with
      | cons hl =>
          refine .cons ?_
          rw [hsame _ List.mem_cons_self]
          exact ih hl fun x hx => hsame x (List.mem_cons_of_mem _ hx)

/-- A list has no cell exactly when its pointer is null. -/
theorem Chain.eq_nil_iff {q : Option α} {l : List α} (h : Chain next q l) :
    l = [] ↔ q = none := by
  cases h with
  | nil => exact iff_of_true rfl rfl
  | cons _ => exact iff_of_false (List.cons_ne_nil _ _) nofun

/-- A cell and the one that it links to are related as the list says. -/
theorem Chain.rel_of_next {R : α → α → Prop} {q : Option α} {l : List α} (h : Chain next q l)
    (hl : l.Pairwise R) {a b : α} (ha : a ∈ l) (hb : next a = some b) : R a b := by
  induction h with
  | nil => exact absurd ha List.not_mem_nil
  | @cons c l hchain ih =>
      obtain ⟨hc, hrest⟩ := List.pairwise_cons.1 hl
      rcases List.mem_cons.1 ha with rfl | hmem
      · rw [hb] at hchain
        obtain ⟨l', rfl, -⟩ := chain_some hchain
        exact hc b List.mem_cons_self
      · exact ih hrest hmem

end Chain

end LinkedList
