import Catpilot.CString.Search
import Catpilot.Vfs.Lookup
import Catpilot.Vfs.Path

/-!
# The nearest node of a path

`node_find` in its nearest mode follows the components that it finds. `remainder` is
what the path has behind those. The last part is about the search for a component in
the path it comes from: it stops at that component only if no component in front of it
contains it.
-/

namespace Catpilot

open CString

theorem clean_nodeTokens (path : List UInt8) : Clean (nodeTokens path) :=
  fun _ hc => not_mem_nodeTokens hc

theorem clean_components {path : List UInt8} (habs : Absolute path) : Clean (components path) :=
  nodeTokens_eq habs ▸ clean_nodeTokens path

namespace NodeTree

section Nearest

variable {F : Type*} {t : NodeTree F} {kids : ℕ → List ℕ}

/-- How many of the components `node_find` finds from the node `x` on. -/
def matched (t : NodeTree F) : ℕ → List (List UInt8) → ℕ
  | _, [] => 0
  | x, c :: path =>
      match t.childNamed x c with
      | some y => matched t y path + 1
      | none => 0

/-- What a path has behind the components that `node_find` finds, without slashes in
front. -/
def remainder (t : NodeTree F) (path : List UInt8) : List UInt8 :=
  (skipComponent^[t.matched 0 (components path)] (cstr path)).dropWhile (· = slash)

/-- `node_find` for the nearest path ends at the last component it finds; where it finds
none it keeps what it has got. -/
theorem nodeFindLoop_nearestPath (t : NodeTree F) (x : ℕ) (prev : Option ℕ)
    (path : List (List UInt8)) :
    t.nodeFindLoop .nearestPath x prev path =
      if path ≠ [] ∧ t.matched x path = 0 then prev
      else t.lookup x (path.take (t.matched x path)) := by
  induction path generalizing x prev with
  | nil => rfl
  | cons c path ih =>
      rw [nodeFindLoop, matched]
      cases hchild : t.childNamed x c with
      | none =>
          rw [childNamed] at hchild
          simp only [hchild]
          rfl
      | some y =>
          have hlook : t.lookup x ((c :: path).take (t.matched y path + 1)) =
              t.lookup y (path.take (t.matched y path)) := by
            rw [List.take_succ_cons, lookup_cons, hchild, Option.bind_some]
          rw [childNamed] at hchild
          simp only [hchild]
          have hpos : ¬ (c :: path ≠ [] ∧ t.matched y path + 1 = 0) :=
            fun h => Nat.succ_ne_zero _ h.2
          rw [ih, hlook, if_neg hpos]
          by_cases hzero : path ≠ [] ∧ t.matched y path = 0
          · rw [if_pos hzero, hzero.2, List.take_zero, lookup_nil]
          · rw [if_neg hzero]

theorem matched_le (t : NodeTree F) (x : ℕ) (path : List (List UInt8)) :
    t.matched x path ≤ path.length := by
  induction path generalizing x with
  | nil => exact Nat.le_refl _
  | cons c path ih =>
      rw [matched]
      cases t.childNamed x c with
      | none => exact Nat.zero_le _
      | some y => exact Nat.succ_le_succ (ih y)

/-- The components that are found are the longest part of the path that is. -/
theorem lookup_take_ne_none_iff {x : ℕ} {path : List (List UInt8)} {k : ℕ} (hk : k ≤ path.length) :
    t.lookup x (path.take k) ≠ none ↔ k ≤ t.matched x path := by
  induction path generalizing x k with
  | nil =>
      obtain rfl := Nat.le_zero.1 hk
      simp
  | cons c path ih =>
      cases k with
      | zero => simp
      | succ k =>
          rw [List.take_succ_cons, lookup_cons, matched]
          cases t.childNamed x c with
          | none => simp
          | some y =>
              rw [Option.bind_some, ih (Nat.le_of_succ_le_succ hk)]
              exact Nat.succ_le_succ_iff.symm

theorem lookup_take_matched_ne_none {x : ℕ} {path : List (List UInt8)} :
    t.lookup x (path.take (t.matched x path)) ≠ none :=
  (lookup_take_ne_none_iff (t.matched_le x path)).2 (Nat.le_refl _)

/-- `node_find` in its nearest mode. -/
theorem nodeFind_nearestPath (t : NodeTree F) (path : List UInt8) :
    (t.nodeFind (some path) .nearestPath).1 =
      if nodeTokens path ≠ [] ∧ t.matched 0 (nodeTokens path) = 0 then none
      else t.lookup 0 ((nodeTokens path).take (t.matched 0 (nodeTokens path))) := by
  rw [nodeFind, nodeFindLoop_nearestPath]
  split
  · rename_i hnone
    exact hnone.symm
  · rename_i hsome
    exact hsome.symm

/-- The node found is the root of an empty path, or it has the name of the last
component found. -/
theorem TreeOf.nearest_cases (h : t.TreeOf kids) {path : List UInt8} (habs : Absolute path) {n : ℕ}
    (hn : (t.nodeFind (some path) .nearestPath).1 = some n) :
    (t.matched 0 (components path) = 0 ∧ t.nodeName n = []) ∨
      ∃ k, t.matched 0 (components path) = k + 1 ∧
        (components path)[k]? = some (t.nodeName n) := by
  rw [nodeFind_nearestPath, nodeTokens_eq habs] at hn
  have hclean := clean_components habs
  split at hn
  · cases hn
  · cases hk : t.matched 0 (components path) with
    | zero =>
        rw [hk, List.take_zero, lookup_nil] at hn
        cases hn
        exact Or.inl ⟨rfl, h.root_name⟩
    | succ k =>
        have hlt : k < (components path).length := by
          have hle := t.matched_le 0 (components path)
          rwa [hk] at hle
        have hc := List.getElem?_eq_getElem hlt
        refine Or.inr ⟨k, rfl, ?_⟩
        rw [hk, List.take_add_one, hc, Option.toList_some, lookup_concat] at hn
        obtain ⟨y, hy, hchild⟩ := Option.bind_eq_some_iff.1 hn
        have hnul := hclean _ (List.getElem_mem hlt)
        rw [hc, (h.childNamed_some (h.lookup_lt h.size_pos (hclean.take k) hy) hnul hchild).2]

end Nearest

end NodeTree

section Components

/-- A path with a component has a first one. -/
theorem nodeGetToken_of_splitPath {s : List UInt8} (hs : s = [] ∨ s.head? = some slash)
    (hne : splitPath s ≠ []) : ∃ token rest, nodeGetToken s = some (token, rest) := by
  cases htoken : nodeGetToken s with
  | some next => exact ⟨next.1, next.2, rfl⟩
  | none =>
      rcases hs with rfl | hhead
      · exact absurd splitPath_nil hne
      · exact absurd (splitPath_of_nodeGetToken_none hhead htoken) hne

theorem splitPath_getElem? {s c : List UInt8} (hs : s = [] ∨ s.head? = some slash) {k : ℕ}
    (hc : (splitPath s)[k]? = some c) : c ≠ [] ∧ slash ∉ c := by
  induction k generalizing s with
  | zero =>
      obtain ⟨d, rest, hd⟩ := nodeGetToken_of_splitPath hs fun hnil => by rw [hnil] at hc; cases hc
      rw [(splitPath_of_nodeGetToken hd).1] at hc
      obtain rfl := Option.some.inj hc
      obtain ⟨hne, hslash, -⟩ := nodeGetToken_eq_some hd
      exact ⟨hne, hslash⟩
  | succ k ih =>
      obtain ⟨d, rest, hd⟩ := nodeGetToken_of_splitPath hs fun hnil => by rw [hnil] at hc; cases hc
      obtain ⟨hsplit, -, hrest, -⟩ := splitPath_of_nodeGetToken hd
      rw [hsplit] at hc
      exact ih hrest hc

/-- Slashes in front of a path hold no component. -/
theorem search_dropWhile_slash {c : List UInt8} (hne : c ≠ []) (hslash : slash ∉ c)
    (s : List UInt8) : search c s = search c (s.dropWhile (· = slash)) := by
  induction s with
  | nil => rfl
  | cons b s ih =>
      by_cases hb : b = slash
      · rw [List.dropWhile_cons_of_pos (by simpa using hb), search_cons, if_neg, ih]
        intro hpre
        cases c with
        | nil => exact hne rfl
        | cons a c =>
            have hab := (List.cons_prefix_cons.1 hpre).1
            exact hslash (by rw [hab, hb]; exact List.mem_cons_self)
      · rw [List.dropWhile_cons_of_neg (by simpa using hb)]

theorem length_skipComponent_le (s : List UInt8) (k : ℕ) :
    (skipComponent^[k] s).length ≤ s.length := by
  induction k generalizing s with
  | zero => exact Nat.le_refl _
  | succ k ih =>
      rw [Function.iterate_succ_apply]
      refine (ih _).trans ?_
      exact ((List.dropWhile_sublist _).trans (List.dropWhile_sublist _)).length_le

/-- Leading bytes that are dropped do not make a list longer. -/
theorem length_dropWhile_le_append {α : Type*} (p : α → Bool) (a b : List α) :
    (b.dropWhile p).length ≤ ((a ++ b).dropWhile p).length := by
  rw [List.dropWhile_append]
  split
  · exact Nat.le_refl _
  · rw [List.length_append]
    exact (List.dropWhile_sublist p).length_le.trans (Nat.le_add_left _ _)

/-- The search for a component in its path: what follows the place found is what the
path has behind the component, exactly if none of the components in front contains it. -/
theorem search_component {s c : List UInt8} (hs : s = [] ∨ s.head? = some slash) {k : ℕ}
    (hc : (splitPath s)[k]? = some c) :
    ∃ u, search c s = some u ∧
      ((u.drop c.length).dropWhile (· = slash) =
          (skipComponent^[k + 1] s).dropWhile (· = slash) ↔
        ∀ d ∈ (splitPath s).take k, ¬ c <:+: d) := by
  obtain ⟨hne, hslash⟩ := splitPath_getElem? hs hc
  induction k generalizing s with
  | zero =>
      obtain ⟨d, rest, hd⟩ := nodeGetToken_of_splitPath hs fun hnil => by rw [hnil] at hc; cases hc
      obtain ⟨-, -, hrest, hdrop⟩ := nodeGetToken_eq_some hd
      rw [(splitPath_of_nodeGetToken hd).1] at hc
      obtain rfl := Option.some.inj hc
      refine ⟨d ++ rest, ?_, iff_of_true ?_ fun e he => absurd he List.not_mem_nil⟩
      · rw [search_dropWhile_slash hne hslash, hdrop]
        exact search_of_prefix (List.prefix_append d rest)
      · rw [List.drop_left, Function.iterate_one, ← hrest]
  | succ k ih =>
      obtain ⟨d, rest, hd⟩ := nodeGetToken_of_splitPath hs fun hnil => by rw [hnil] at hc; cases hc
      obtain ⟨-, -, hrest, hdrop⟩ := nodeGetToken_eq_some hd
      obtain ⟨hsplit, -, hhead, -⟩ := splitPath_of_nodeGetToken hd
      rw [hsplit, List.getElem?_cons_succ] at hc
      have hcut : ∀ b ∈ rest.head?, b ∉ c := by
        intro b hb
        rcases hhead with hnil | hslash'
        · rw [hnil] at hb
          cases hb
        · rw [hslash'] at hb
          exact Option.some.inj hb ▸ hslash
      have hsearch := search_append (a := d) hne hcut
      rw [← hdrop, ← search_dropWhile_slash hne hslash] at hsearch
      rw [Function.iterate_succ_apply, ← hrest, hsplit, List.take_succ_cons, hsearch]
      cases hfound : search c d with
      | none =>
          obtain ⟨u, hu, hiff⟩ := ih hhead hc
          refine ⟨u, hu, hiff.trans ?_⟩
          rw [List.forall_mem_cons, and_iff_right (search_eq_none_iff.1 hfound)]
      | some v =>
          refine ⟨v ++ rest, rfl, iff_of_false ?_ fun hall => ?_⟩
          · -- a component is left in front of the one that is searched for
            obtain ⟨v', rfl⟩ := prefix_of_search hfound
            obtain ⟨e, rest', he⟩ := nodeGetToken_of_splitPath hhead
              fun hnil => by rw [hnil] at hc; cases hc
            obtain ⟨hene, -, hrest', hdrop'⟩ := nodeGetToken_eq_some he
            rw [List.append_assoc, List.drop_left, Function.iterate_succ_apply, ← hrest']
            intro heq
            have hlong := length_dropWhile_le_append (· = slash) v' rest
            have hshort := (List.dropWhile_sublist (· = slash)
              (l := skipComponent^[k] rest')).length_le
            have hskip := length_skipComponent_le rest' k
            have hpos := List.length_pos_iff.2 hene
            rw [heq, hdrop', List.length_append] at hlong
            omega
          · rw [search_eq_none_iff.2 (hall d List.mem_cons_self)] at hfound
            cases hfound

end Components

end Catpilot
