import Mathlib.Data.List.Basic

/-!
# Bounded queues

`BoundedQueue α n` is a queue of at most `n` items, oldest first; the bound is a
field, so an overfull queue cannot be built. `send` and `receive` are the two
operations of a message queue that do not wait: each is `none` where the waiting
form would block. `sendAll` and `receiveMany` move several items at once.
-/

/-- A queue of at most `capacity` items, oldest first. -/
structure BoundedQueue (α : Type*) (capacity : ℕ) where
  items : List α
  length_le : items.length ≤ capacity

namespace BoundedQueue

variable {α : Type*} {n : ℕ}

@[ext] theorem ext {q q' : BoundedQueue α n} (h : q.items = q'.items) : q = q' := by
  cases q
  cases q'
  cases h
  rfl

/-- The queue without items. -/
def empty (α : Type*) (n : ℕ) : BoundedQueue α n := ⟨[], Nat.zero_le n⟩

@[simp] theorem empty_items : (empty α n).items = [] := rfl

/-- Every slot is taken. -/
def IsFull (q : BoundedQueue α n) : Prop := q.items.length = n

instance (q : BoundedQueue α n) : Decidable q.IsFull :=
  inferInstanceAs (Decidable (q.items.length = n))

/-- Append `x`; `none` when the queue is full. -/
def send (q : BoundedQueue α n) (x : α) : Option (BoundedQueue α n) :=
  if h : q.items.length < n then
    some ⟨q.items ++ [x], by rw [List.length_append]; exact h⟩
  else none

/-- Take the oldest item; `none` when there is none. -/
def receive (q : BoundedQueue α n) : Option (α × BoundedQueue α n) :=
  match h : q.items with
  | [] => none
  | x :: rest => some (x, ⟨rest, by
      have := q.length_le
      rw [h, List.length_cons] at this
      exact Nat.le_of_succ_le this⟩)

/-- Append the items `xs`; `none` when they do not all fit. -/
def sendAll (q : BoundedQueue α n) (xs : List α) : Option (BoundedQueue α n) :=
  if h : q.items.length + xs.length ≤ n then
    some ⟨q.items ++ xs, by rw [List.length_append]; exact h⟩
  else none

/-- Take the `k` oldest items, or all of them when there are fewer. -/
def receiveMany (q : BoundedQueue α n) (k : ℕ) : List α × BoundedQueue α n :=
  (q.items.take k, ⟨q.items.drop k, by
    rw [List.length_drop]
    exact Nat.le_trans (Nat.sub_le _ _) q.length_le⟩)

/-- Append `x`, dropping the oldest item when the queue is full. -/
def overwrite (q : BoundedQueue α n) (hn : 0 < n) (x : α) : BoundedQueue α n :=
  if h : q.IsFull then
    ⟨q.items.tail ++ [x], by
      have := q.length_le
      rw [List.length_append, List.length_tail, List.length_singleton]
      omega⟩
  else
    ⟨q.items ++ [x], by
      have := q.length_le
      unfold IsFull at h
      rw [List.length_append, List.length_singleton]
      omega⟩

theorem overwrite_of_isFull {q : BoundedQueue α n} (h : q.IsFull) (hn : 0 < n) (x : α) :
    (q.overwrite hn x).items = q.items.tail ++ [x] := by
  rw [overwrite, dif_pos h]

theorem overwrite_of_not_isFull {q : BoundedQueue α n} (h : ¬ q.IsFull) (hn : 0 < n) (x : α) :
    (q.overwrite hn x).items = q.items ++ [x] := by
  rw [overwrite, dif_neg h]

theorem send_eq_none_iff {q : BoundedQueue α n} {x : α} : q.send x = none ↔ q.IsFull := by
  have hle := q.length_le
  unfold send IsFull
  split
  · next h => simp only [reduceCtorEq, false_iff]; omega
  · next h => simp only [true_iff]; omega

theorem send_items {q q' : BoundedQueue α n} {x : α} (h : q.send x = some q') :
    q'.items = q.items ++ [x] := by
  unfold send at h
  split at h
  · cases h
    rfl
  · cases h

theorem exists_send {q : BoundedQueue α n} (h : ¬ q.IsFull) (x : α) :
    ∃ q', q.send x = some q' ∧ q'.items = q.items ++ [x] := by
  cases hs : q.send x with
  | none => exact absurd (send_eq_none_iff.1 hs) h
  | some q' => exact ⟨q', rfl, send_items hs⟩

theorem receive_eq_none_iff {q : BoundedQueue α n} : q.receive = none ↔ q.items = [] := by
  unfold receive
  split
  · next h => simp [h]
  · next h => simp [h]

theorem receive_items {q q' : BoundedQueue α n} {x : α} (h : q.receive = some (x, q')) :
    q.items = x :: q'.items := by
  unfold receive at h
  split at h
  · cases h
  · next hq =>
      cases h
      exact hq

/-- A full queue of positive capacity has an oldest item. -/
theorem exists_receive_of_isFull {q : BoundedQueue α n} (h : q.IsFull) (hn : 0 < n) :
    ∃ x q', q.receive = some (x, q') ∧ q.items = x :: q'.items := by
  cases hr : q.receive with
  | none =>
      rw [receive_eq_none_iff] at hr
      rw [IsFull, hr, List.length_nil] at h
      exact absurd h (Nat.ne_of_lt hn)
  | some p => exact ⟨p.1, p.2, rfl, receive_items hr⟩

theorem exists_sendAll {q : BoundedQueue α n} {xs : List α}
    (h : q.items.length + xs.length ≤ n) :
    ∃ q', q.sendAll xs = some q' ∧ q'.items = q.items ++ xs := by
  refine ⟨⟨q.items ++ xs, by rw [List.length_append]; exact h⟩, ?_, rfl⟩
  rw [sendAll, dif_pos h]

@[simp] theorem receiveMany_fst (q : BoundedQueue α n) (k : ℕ) :
    (q.receiveMany k).1 = q.items.take k := rfl

@[simp] theorem receiveMany_snd_items (q : BoundedQueue α n) (k : ℕ) :
    (q.receiveMany k).2.items = q.items.drop k := rfl

end BoundedQueue
