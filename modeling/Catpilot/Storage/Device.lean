import Mathlib.Logic.Function.Basic

/-!
# Block devices

A device of blocks whose transfers may fail. A read that fails leaves anything in the
buffer, and a write that fails leaves anything in its block; neither touches another block.
A buffer that stands for one block of the device hides this block: what a user of the
buffer sees is `seen`.
-/

namespace Storage

/-- A device in the state `D`, with addresses `A` and blocks `B`. `read` is given the
buffer and returns whether it succeeded and the buffer; `flush` waits for the writes. -/
structure Device (D A B : Type*) where
  contents : D → A → B
  read : D → A → B → Bool × B × D
  write : D → A → B → Bool × D
  flush : D → Bool × D
  contents_read : ∀ d a b, contents (read d a b).2.2 = contents d
  read_eq : ∀ d a b, (read d a b).1 = true → (read d a b).2.1 = contents d a
  contents_write_of_ne : ∀ d a b c, c ≠ a → contents (write d a b).2 c = contents d c
  contents_write_self : ∀ d a b, (write d a b).1 = true → contents (write d a b).2 a = b
  contents_flush : ∀ d, contents (flush d).2 = contents d

namespace Device

variable {D A B : Type*} [DecidableEq A] (dev : Device D A B) (d : D)

/-- The blocks as they are seen through a buffer `b` for the block `a`. -/
def seen (a : A) (b : B) : A → B := Function.update (dev.contents d) a b

@[simp] theorem seen_self (a : A) (b : B) : dev.seen d a b a = b := by
  rw [seen, Function.update_self]

theorem seen_of_ne {a c : A} (h : c ≠ a) (b : B) : dev.seen d a b c = dev.contents d c := by
  rw [seen, Function.update_of_ne h]

/-- A buffer with the block of the device hides nothing. -/
theorem seen_contents (a : A) : dev.seen d a (dev.contents d a) = dev.contents d := by
  rw [seen, Function.update_eq_self]

/-- Writing the buffer back does not change what is seen through it, whether it succeeds
or not. -/
theorem seen_write (a : A) (b : B) : dev.seen (dev.write d a b).2 a b = dev.seen d a b := by
  funext c
  by_cases h : c = a
  · rw [h, seen_self, seen_self]
  · rw [seen_of_ne _ _ h, seen_of_ne _ _ h, dev.contents_write_of_ne d a b c h]

/-- A write to a block leaves the others, also as seen through a buffer. -/
theorem seen_write_of_ne {a c e : A} (h : e ≠ a) (b b' : B) :
    dev.seen (dev.write d a b).2 c b' e = dev.seen d c b' e := by
  by_cases he : e = c
  · rw [he, seen_self, seen_self]
  · rw [seen_of_ne _ _ he, seen_of_ne _ _ he, dev.contents_write_of_ne d a b e h]

/-- A device that keeps its blocks and never fails. -/
def ofFun : Device (A → B) A B where
  contents d := d
  read d a _ := (true, d a, d)
  write d a b := (true, Function.update d a b)
  flush d := (true, d)
  contents_read _ _ _ := rfl
  read_eq _ _ _ _ := rfl
  contents_write_of_ne d a b c h := by simp only [Function.update_of_ne h]
  contents_write_self d a b _ := by simp only [Function.update_self]
  contents_flush _ := rfl

/-- A device that keeps its blocks and whose transfers succeed or fail as they are scheduled.
Those behind the end of the schedule succeed. -/
def scheduled : Device (List Bool × (A → B)) A B where
  contents d := d.2
  read d a b := if d.1.headD true then (true, d.2 a, d.1.tail, d.2) else (false, b, d.1.tail, d.2)
  write d a b :=
    if d.1.headD true then (true, d.1.tail, Function.update d.2 a b) else (false, d.1.tail, d.2)
  flush d := (d.1.headD true, d.1.tail, d.2)
  contents_read d a b := by
    split
    · rfl
    · rfl
  read_eq d a b h := by
    by_cases hs : d.1.headD true
    · rw [if_pos hs]
    · rw [if_neg hs] at h
      cases h
  contents_write_of_ne d a b c h := by
    split
    · exact Function.update_of_ne h _ _
    · rfl
  contents_write_self d a b h := by
    by_cases hs : d.1.headD true
    · rw [if_pos hs]
      exact Function.update_self a b d.2
    · rw [if_neg hs] at h
      cases h
  contents_flush _ := rfl

end Device

end Storage
