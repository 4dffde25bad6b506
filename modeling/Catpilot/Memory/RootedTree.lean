import Mathlib.Data.List.Induction
import Mathlib.Logic.ExistsUnique
import Mathlib.Order.WellFounded
import Mathlib.Data.Set.Defs

/-!
# Rooted trees

A tree is given by the relation `Child x y`, "`y` is a child of `x`". A path lists the
nodes below its start, each a child of the one before. Where no node has two parents,
the root has none, and going up ends, every node has exactly one path from the root.
-/

namespace RootedTree

section Path

variable {α β : Type*} {Child : α → α → Prop} {x y z : α} {p q : List α}

/-- `p` leads from one node down to another. -/
inductive Path (Child : α → α → Prop) : α → List α → α → Prop
  | nil {x : α} : Path Child x [] x
  | cons {x y z : α} {p : List α} : Child x y → Path Child y p z → Path Child x (y :: p) z

@[simp] theorem path_nil_iff : Path Child x [] y ↔ x = y := by
  constructor
  · intro h
    cases h
    rfl
  · rintro rfl
    exact .nil

theorem path_cons_iff : Path Child x (y :: p) z ↔ Child x y ∧ Path Child y p z := by
  constructor
  · intro h
    cases h with
    | cons hchild hpath => exact ⟨hchild, hpath⟩
  · exact fun h => .cons h.1 h.2

theorem path_append_iff : Path Child x (p ++ q) z ↔ ∃ y, Path Child x p y ∧ Path Child y q z := by
  induction p generalizing x with
  | nil => simp
  | cons a p ih =>
      rw [List.cons_append, path_cons_iff, ih]
      simp only [path_cons_iff, and_assoc, exists_and_left]

theorem path_concat_iff :
    Path Child x (p ++ [y]) z ↔ y = z ∧ ∃ w, Path Child x p w ∧ Child w y := by
  rw [path_append_iff]
  simp only [path_cons_iff, path_nil_iff]
  constructor
  · rintro ⟨w, hpath, hchild, rfl⟩
    exact ⟨rfl, w, hpath, hchild⟩
  · rintro ⟨rfl, w, hpath, hchild⟩
    exact ⟨w, hpath, hchild, rfl⟩

/-- The names of the nodes on some path from `x` to `y`. -/
def Named (Child : α → α → Prop) (name : α → β) (x : α) (names : List β) (y : α) : Prop :=
  ∃ p, Path Child x p y ∧ p.map name = names

variable {name : α → β} {b : β} {names : List β}

@[simp] theorem named_nil_iff : Named Child name x [] y ↔ x = y := by
  simp [Named]

theorem named_cons_iff :
    Named Child name x (b :: names) y ↔
      ∃ z, Child x z ∧ name z = b ∧ Named Child name z names y := by
  constructor
  · rintro ⟨p, hpath, hmap⟩
    cases p with
    | nil => cases hmap
    | cons z p =>
        obtain ⟨hchild, hrest⟩ := path_cons_iff.1 hpath
        obtain ⟨hname, hnames⟩ := List.cons.inj hmap
        exact ⟨z, hchild, hname, p, hrest, hnames⟩
  · rintro ⟨z, hchild, rfl, p, hpath, rfl⟩
    exact ⟨z :: p, .cons hchild hpath, rfl⟩

end Path

section Unique

variable {α : Type*} {Child : α → α → Prop} {root x : α}

/-- A node has at most one path from the root. -/
theorem Path.unique (hparent : ∀ x y z, Child x z → Child y z → x = y)
    (hroot : ∀ x, ¬ Child x root) {p q : List α} (hp : Path Child root p x)
    (hq : Path Child root q x) : p = q := by
  induction p using List.reverseRecOn generalizing q x with
  | nil =>
      obtain rfl := path_nil_iff.1 hp
      cases q using List.reverseRecOn with
      | nil => rfl
      | append_singleton q y =>
          obtain ⟨rfl, w, -, hchild⟩ := path_concat_iff.1 hq
          exact absurd hchild (hroot w)
  | append_singleton p y ih =>
      obtain ⟨rfl, w, hpath, hchild⟩ := path_concat_iff.1 hp
      cases q using List.reverseRecOn with
      | nil =>
          obtain rfl := path_nil_iff.1 hq
          exact absurd hchild (hroot w)
      | append_singleton q y' =>
          obtain ⟨rfl, w', hpath', hchild'⟩ := path_concat_iff.1 hq
          obtain rfl := hparent w w' y' hchild hchild'
          rw [ih hpath hpath']

/-- Every node of `S` has a path from the root where all but the root have parents in `S`
and going up ends. -/
theorem exists_path {S : Set α} (hwf : WellFounded Child)
    (hcover : ∀ x ∈ S, x ≠ root → ∃ y ∈ S, Child y x) (hx : x ∈ S) :
    ∃ p, Path Child root p x := by
  induction x using hwf.induction with
  | h x ih =>
      by_cases hroot : x = root
      · exact ⟨[], path_nil_iff.2 hroot.symm⟩
      · obtain ⟨y, hy, hchild⟩ := hcover x hx hroot
        obtain ⟨p, hp⟩ := ih y hchild hy
        exact ⟨p ++ [x], path_concat_iff.2 ⟨rfl, y, hp, hchild⟩⟩

end Unique

end RootedTree
