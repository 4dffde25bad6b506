import Catpilot.Vfs.Mount
import Mathlib.Order.Bounds.Basic

/-!
# The grammar of paths

What a path means is said without the search: its components name a chain of nodes from
the root down. `Grammar t kids s` says that `node_find` finds for the string `s` what
its components name. It holds for the strings that start with a slash and for no other:
of those `node_get_token` gives no component, and the loop ends at the root it begins with.
-/

namespace Catpilot

open CString RootedTree

namespace NodeTree

section Grammar

variable {F : Type*} {t : NodeTree F} {kids : ℕ → List ℕ} {s : List UInt8}

/-- The numbers of components in front that are an existing path, which is not empty. -/
def existing (t : NodeTree F) (kids : ℕ → List ℕ) (path : List (List UInt8)) : Set ℕ :=
  {k | 0 < k ∧ k ≤ path.length ∧ ∃ n, t.Names kids (path.take k) n}

/-- `node_find` finds for the string `s` what its components name. A string without
components has no first one, and the nearest node is left open there. -/
structure Grammar (t : NodeTree F) (kids : ℕ → List ℕ) (s : List UInt8) : Prop where
  found_iff : (t.nodeFind (some s) .fullPath).1 ≠ none ↔
    Absolute s ∧ ∃ n, t.Names kids (components s) n
  named : ∀ n, (t.nodeFind (some s) .fullPath).1 = some n → t.Names kids (components s) n
  congr : ∀ s' mode, (Absolute s' ↔ Absolute s) → components s' = components s →
    t.nodeFind (some s') mode = t.nodeFind (some s) mode
  nearest : components s ≠ [] → ∀ n, (t.nodeFind (some s) .nearestPath).1 = some n ↔
    ∃ k, IsGreatest (t.existing kids (components s)) k ∧ t.Names kids ((components s).take k) n
  nearest_none : components s ≠ [] → (¬ ∃ n, t.Names kids ((components s).take 1) n) →
    (t.nodeFind (some s) .nearestPath).1 = none

/-- What is found of a path is its longest existing part. -/
theorem TreeOf.isGreatest_existing_iff (h : t.TreeOf kids) {path : List (List UInt8)}
    (hclean : Clean path) {k : ℕ} :
    IsGreatest (t.existing kids path) k ↔ k = t.matched 0 path ∧ 0 < k := by
  have hnames : ∀ j ≤ path.length,
      (∃ n, t.Names kids (path.take j) n) ↔ j ≤ t.matched 0 path := by
    intro j hj
    rw [← lookup_take_ne_none_iff hj, Option.ne_none_iff_exists']
    simp only [h.lookup_eq_some_iff_names (hclean.take j)]
  have hle := t.matched_le 0 path
  constructor
  · rintro ⟨⟨hpos, hlen, hk⟩, hmax⟩
    have hkm := (hnames k hlen).1 hk
    have hmk := hmax ⟨Nat.lt_of_lt_of_le hpos hkm, hle, (hnames _ hle).2 (Nat.le_refl _)⟩
    exact ⟨Nat.le_antisymm hkm hmk, hpos⟩
  · rintro ⟨rfl, hpos⟩
    refine ⟨⟨hpos, hle, (hnames _ hle).2 (Nat.le_refl _)⟩, ?_⟩
    rintro j ⟨-, hlen, hj⟩
    exact (hnames j hlen).1 hj

/-- A string that does not start with a slash has no components for the code. -/
theorem nodeTokens_of_not_absolute (habs : ¬ Absolute s) : nodeTokens s = [] := by
  rw [nodeTokens]
  have htoken : nodeGetToken (cstr s) = none := if_neg habs
  cases (cstr s).length with
  | zero => rfl
  | succ fuel => rw [nodeTokensLoop, htoken]

/-- It is taken for the root. -/
theorem nodeFind_of_not_absolute (t : NodeTree F) (habs : ¬ Absolute s) (mode : NodeMode) :
    t.nodeFind (some s) mode = (some 0, .ok) := by
  rw [nodeFind, nodeTokens_of_not_absolute habs]
  rfl

theorem TreeOf.nearest_of_absolute (h : t.TreeOf kids) (habs : Absolute s)
    (hne : components s ≠ []) (n : ℕ) :
    (t.nodeFind (some s) .nearestPath).1 = some n ↔
      ∃ k, IsGreatest (t.existing kids (components s)) k ∧
        t.Names kids ((components s).take k) n := by
  have hclean := clean_components habs
  rw [nodeFind_nearestPath, nodeTokens_eq habs]
  simp only [h.isGreatest_existing_iff hclean]
  split
  · rename_i hzero
    constructor
    · exact nofun
    · rintro ⟨k, ⟨rfl, hpos⟩, -⟩
      exact absurd hzero.2 (Nat.ne_of_gt hpos)
  · rename_i hpos
    rw [h.lookup_eq_some_iff_names (hclean.take _)]
    constructor
    · intro hn
      refine ⟨_, ⟨rfl, ?_⟩, hn⟩
      exact Nat.pos_of_ne_zero fun hzero => hpos ⟨hne, hzero⟩
    · rintro ⟨k, ⟨rfl, -⟩, hn⟩
      exact hn

theorem TreeOf.grammar_of_absolute (h : t.TreeOf kids) (habs : Absolute s) :
    t.Grammar kids s := by
  have hclean := clean_components habs
  have hfull : ∀ n, (t.nodeFind (some s) .fullPath).1 = some n ↔
      t.Names kids (components s) n := by
    intro n
    rw [nodeFind_fullPath, nodeTokens_eq habs, h.lookup_eq_some_iff_names hclean]
  constructor
  case found_iff =>
    rw [Option.ne_none_iff_exists']
    simp only [hfull, habs, true_and]
  case named => exact fun n hn => (hfull n).1 hn
  case congr =>
    intro s' mode habs' heq
    rw [nodeFind, nodeFind, nodeTokens_eq habs, nodeTokens_eq (habs'.2 habs), heq]
  case nearest => exact h.nearest_of_absolute habs
  case nearest_none =>
    intro hne hnone
    by_contra hsome
    obtain ⟨n, hn⟩ := Option.ne_none_iff_exists'.1 hsome
    obtain ⟨k, hk, -⟩ := (h.nearest_of_absolute habs hne n).1 hn
    obtain ⟨rfl, hpos⟩ := (h.isGreatest_existing_iff hclean).1 hk
    have hfirst := (lookup_take_ne_none_iff (Nat.le_trans hpos (t.matched_le _ _))).2 hpos
    obtain ⟨m, hm⟩ := Option.ne_none_iff_exists'.1 hfirst
    exact hnone ⟨m, (h.lookup_eq_some_iff_names (hclean.take 1)).1 hm⟩

/-- `node_find` follows the grammar of paths for exactly the strings that start with a
slash. -/
theorem TreeOf.grammar_iff (h : t.TreeOf kids) (s : List UInt8) :
    t.Grammar kids s ↔ Absolute s := by
  constructor
  · intro hg
    by_contra habs
    have hroot : (t.nodeFind (some s) .fullPath).1 ≠ none := by
      rw [nodeFind_of_not_absolute t habs]
      exact nofun
    exact habs (hg.found_iff.1 hroot).1
  · exact h.grammar_of_absolute

/-- `//dev/` where `/dev` is mounted. -/
theorem TreeOf.grammar_iff_dev :
    let t := ((init Unit).nodeMount 1 (some [0x2F, 0x64, 0x65, 0x76]) (some ())).tree
    ∃ kids, t.TreeOf kids ∧ (t.Grammar kids [0x2F, 0x2F, 0x64, 0x65, 0x76, 0x2F] ↔
      Absolute [0x2F, 0x2F, 0x64, 0x65, 0x76, 0x2F]) := by
  have hfit : ∀ p ∈ some [0x2F, 0x64, 0x65, 0x76], NamesFit p := by decide
  obtain ⟨kids, h⟩ : ∃ kids, ((init Unit).nodeMount 1 (some [0x2F, 0x64, 0x65, 0x76])
      (some ())).tree.TreeOf kids := (treeOf_init Unit).nodeMount hfit
  exact ⟨kids, h, h.grammar_iff _⟩

/-- `proc` is taken for the root. -/
theorem not_grammar_proc :
    ¬ ∀ s, (init Unit).Grammar (fun _ => []) s := by
  intro hall
  have habs := ((hall [0x70, 0x72, 0x6F, 0x63]).found_iff.1 (by decide)).1
  exact absurd habs (show ([0x70, 0x72, 0x6F, 0x63] : List UInt8).head? ≠ some slash by decide)

end Grammar

end NodeTree

end Catpilot
