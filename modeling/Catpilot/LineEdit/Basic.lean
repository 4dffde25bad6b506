import Mathlib.Data.List.Basic

/-!
# A line editor

The keys of a terminal change a line at its end. `line l ks` is the line after the keys
`ks` on the line `l`, and `submitted l ks` are the lines that were entered on the way.
Both split over appended keys, so what an editor submits does not depend on how its
input is cut into pieces.
-/

namespace LineEdit

section LineEdit

variable {α : Type*}

/-- The keys of a line editor. -/
inductive Key (α : Type*) where
  | char (c : α)
  | delete
  | enter

/-- The line after one key. -/
def Key.edit (l : List α) : Key α → List α
  | .char c => l ++ [c]
  | .delete => l.dropLast
  | .enter => []

/-- The line after keys. -/
def line : List α → List (Key α) → List α
  | l, [] => l
  | l, k :: ks => line (k.edit l) ks

/-- The lines that keys enter. -/
def submitted : List α → List (Key α) → List (List α)
  | _, [] => []
  | l, .enter :: ks => l :: submitted [] ks
  | l, k :: ks => submitted (k.edit l) ks

@[simp] theorem line_nil (l : List α) : line l [] = l := rfl

theorem line_cons (l : List α) (k : Key α) (ks : List (Key α)) :
    line l (k :: ks) = line (k.edit l) ks := rfl

@[simp] theorem submitted_nil (l : List α) : submitted l ([] : List (Key α)) = [] := rfl

theorem submitted_enter (l : List α) (ks : List (Key α)) :
    submitted l (.enter :: ks) = l :: submitted [] ks := rfl

/-- A key that changes the line enters nothing. -/
theorem submitted_cons_of_ne {k : Key α} (hk : k ≠ .enter) (l : List α) (ks : List (Key α)) :
    submitted l (k :: ks) = submitted (k.edit l) ks := by
  cases k with
  | char c => rfl
  | delete => rfl
  | enter => exact absurd rfl hk

theorem line_append (l : List α) (ks ls : List (Key α)) :
    line l (ks ++ ls) = line (line l ks) ls := by
  induction ks generalizing l with
  | nil => rfl
  | cons k ks ih => exact ih (k.edit l)

theorem submitted_append (l : List α) (ks ls : List (Key α)) :
    submitted l (ks ++ ls) = submitted l ks ++ submitted (line l ks) ls := by
  induction ks generalizing l with
  | nil => rfl
  | cons k ks ih =>
      cases k with
      | char c => exact ih (l ++ [c])
      | delete => exact ih l.dropLast
      | enter => exact congrArg (l :: ·) (ih [])

/-- Keys that only add characters. -/
theorem line_map_char (l cs : List α) : line l (cs.map Key.char) = l ++ cs := by
  induction cs generalizing l with
  | nil => exact (List.append_nil l).symm
  | cons c cs ih =>
      rw [List.map_cons, line_cons, ih, Key.edit, List.append_assoc, List.singleton_append]

theorem submitted_map_char (l cs : List α) : submitted l (cs.map Key.char) = [] := by
  induction cs generalizing l with
  | nil => rfl
  | cons c cs ih => exact ih (l ++ [c])

end LineEdit

end LineEdit
