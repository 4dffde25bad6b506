import Catpilot.Vfs.Mount

/-!
# A mount that fails

`node_mount` links a node into the tree as soon as it is created, and nothing in the
module takes one out again. Where `calloc` fails in the middle of a path, the nodes created
so far stay as directories without file operations. The lookups that notice are those
whose path goes through the first of them.
-/

namespace Catpilot

namespace NodeTree

section Maps

variable {F : Type*} {t t' : NodeTree F} {q front : List (List UInt8)}

/-- A path that is not in the tree is not continued in it. -/
theorem lookup_eq_none_of_isPrefix {p : List (List UInt8)} (hpre : p <+: q)
    (hnone : t.lookup 0 p = none) : t.lookup 0 q = none := by
  obtain ⟨rest, rfl⟩ := hpre
  rw [lookup_append, hnone, Option.bind_none]

theorem lookup_ne_none_of_isPrefix {p : List (List UInt8)} (hpre : p <+: q)
    (hsome : t.lookup 0 q ≠ none) : t.lookup 0 p ≠ none :=
  fun hnone => hsome (lookup_eq_none_of_isPrefix hpre hnone)

/-- Two trees that agree on the parts of a path in front agree on the lookups of it. -/
theorem nodeFind_congr_take {path : List UInt8}
    (hsame : ∀ k, t'.lookup 0 ((nodeTokens path).take k) = t.lookup 0 ((nodeTokens path).take k))
    (mode : NodeMode) : t'.nodeFind (some path) mode = t.nodeFind (some path) mode := by
  have hmatched : t'.matched 0 (nodeTokens path) = t.matched 0 (nodeTokens path) := by
    have hle := t.matched_le 0 (nodeTokens path)
    have hle' := t'.matched_le 0 (nodeTokens path)
    apply Nat.le_antisymm
    · rw [← lookup_take_ne_none_iff hle', ← hsame]
      exact lookup_take_matched_ne_none
    · rw [← lookup_take_ne_none_iff hle, hsame]
      exact lookup_take_matched_ne_none
  cases mode with
  | nearestPath =>
      rw [nodeFind, nodeFind, nodeFindLoop_nearestPath, nodeFindLoop_nearestPath, hmatched, hsame]
  | fullPath =>
      apply nodeFind_congr
      have hall := hsame (nodeTokens path).length
      rwa [List.take_length] at hall

/-- Trees with the same links and names answer every lookup alike. -/
theorem TreeOf.nodeFind_sameShape {kids : ℕ → List ℕ} (h : t.TreeOf kids) (hs : SameShape t t')
    (path : Option (List UInt8)) (mode : NodeMode) :
    t'.nodeFind path mode = t.nodeFind path mode := by
  cases path with
  | none => rfl
  | some path =>
      apply nodeFind_congr_take
      exact fun k => h.lookup_sameShape hs h.size_pos ((clean_nodeTokens path).take k)

/-- The nearest node of a path is in the tree. -/
theorem TreeOf.nearest_lt {kids : ℕ → List ℕ} (h : t.TreeOf kids) {path : List UInt8} {n : ℕ}
    (hn : (t.nodeFind (some path) .nearestPath).1 = some n) : n < t.size := by
  rw [nodeFind_nearestPath] at hn
  split at hn
  · cases hn
  · exact h.lookup_lt h.size_pos ((clean_nodeTokens path).take _) hn

/-- The paths that are new are those in front of the one walked. -/
theorem Extended.lookup_eq (hext : Extended front t t') (hq : Clean q)
    (hold : q <+: front → t.lookup 0 q ≠ none) : t'.lookup 0 q = t.lookup 0 q := by
  cases hx : t.lookup 0 q with
  | some x => exact hext.kept q x hq hx
  | none =>
      cases hx' : t'.lookup 0 q with
      | none => rfl
      | some x =>
          rcases hext.new q x hq hx' with hsome | ⟨hpre, -⟩
          · exact hsome.symm.trans hx
          · exact absurd hx (hold hpre)

/-- A node that is found only now is a new one, without file operations. -/
theorem Extended.of_lookup_none {kids' : ℕ → List ℕ} (hext : Extended front t t')
    (h' : t'.TreeOf kids') (hq : Clean q) (hnone : t.lookup 0 q = none) {n : ℕ}
    (hn : t'.lookup 0 q = some n) : t.size ≤ n ∧ (t'.node n).fOp = none := by
  rcases hext.new q n hq hn with hsome | ⟨-, hle⟩
  · rw [hnone] at hsome
    cases hsome
  · exact ⟨hle, hext.fOp_new n hle (h'.lookup_lt h'.size_pos hq hn)⟩

end Maps

section Walk

variable {F : Type*} {t t' : NodeTree F} {kids kids' : ℕ → List ℕ} {allocs : ℕ}
  {point path : List UInt8}

/-- The path of the first node that a mount creates. -/
def firstNew (t : NodeTree F) (point : List UInt8) : List (List UInt8) :=
  (nodeTokens point).take (t.matched 0 (nodeTokens point) + 1)

theorem missing_ne_nil_iff :
    t.missing allocs point ≠ [] ↔
      0 < allocs ∧ t.matched 0 (nodeTokens point) < (nodeTokens point).length := by
  rw [missing, Ne, List.take_eq_nil_iff, List.drop_eq_nil_iff]
  omega

theorem lookup_firstNew (hmissing : t.missing allocs point ≠ []) :
    t.lookup 0 (t.firstNew point) = none := by
  obtain ⟨-, hlt⟩ := missing_ne_nil_iff.1 hmissing
  by_contra hsome
  exact absurd ((lookup_take_ne_none_iff hlt).1 hsome) (Nat.not_succ_le_self _)

theorem firstNew_isPrefix_front (hmissing : t.missing allocs point ≠ []) :
    t.firstNew point <+: t.front allocs point :=
  List.take_prefix_take_left (Nat.add_le_add_left (missing_ne_nil_iff.1 hmissing).1 _)

/-- A path in front of the one walked is in the tree, or it goes through the first new
node. -/
theorem firstNew_isPrefix {q : List (List UInt8)} (hq : q <+: t.front allocs point)
    (hnone : t.lookup 0 q = none) : t.firstNew point <+: q ∧ t.missing allocs point ≠ [] := by
  have hpre : q <+: nodeTokens point := hq.trans (List.take_prefix _ _)
  have heq := List.prefix_iff_eq_take.1 hpre
  have hlen := hpre.length_le
  have hlt : t.matched 0 (nodeTokens point) < q.length := by
    by_contra hle
    rw [heq] at hnone
    exact (lookup_take_ne_none_iff hlen).2 (Nat.le_of_not_lt hle) hnone
  have hfront := hq.length_le
  rw [front, List.length_take] at hfront
  constructor
  · rw [heq]
    exact List.take_prefix_take_left hlt
  · apply missing_ne_nil_iff.2
    omega

/-- What a walk that fails leaves: lookups whose path does not go through the first new
node are as before, and the others, which gave nothing for the full path, find new nodes
without file operations. -/
structure Leaves (t t' : NodeTree F) (passes : List UInt8 → Prop)
    (front : List (List UInt8)) : Prop where
  unchanged : ∀ path mode, (∀ p ∈ path, ¬ passes p) → t'.nodeFind path mode = t.nodeFind path mode
  before : ∀ path, passes path → (t.nodeFind (some path) .fullPath).1 = none
  found_iff : ∀ path, passes path →
    ((t'.nodeFind (some path) .fullPath).1 ≠ none ↔ nodeTokens path <+: front)
  nearest : ∀ path, passes path → (t'.nodeFind (some path) .nearestPath).1 ≠ none
  directory : ∀ path mode n, passes path → (t'.nodeFind (some path) mode).1 = some n →
    t.size ≤ n ∧ (t'.node n).fOp = none
  fOp_eq : ∀ i < t.size, (t'.node i).fOp = (t.node i).fOp

theorem Leaves.refl (t : NodeTree F) {passes : List UInt8 → Prop} (hnone : ∀ p, ¬ passes p)
    (front : List (List UInt8)) : Leaves t t passes front where
  unchanged := fun _ _ _ => rfl
  before := fun p hp => absurd hp (hnone p)
  found_iff := fun p hp => absurd hp (hnone p)
  nearest := fun p hp => absurd hp (hnone p)
  directory := fun p _ _ hp => absurd hp (hnone p)
  fOp_eq := fun _ _ => rfl

/-- A path that goes through the first new node was not in the tree. -/
theorem lookup_through_firstNew (hmissing : t.missing allocs point ≠ [])
    (hpre : t.firstNew point <+: nodeTokens path) : t.lookup 0 (nodeTokens path) = none :=
  lookup_eq_none_of_isPrefix hpre (lookup_firstNew hmissing)

/-- Its components are found as far as that node now. -/
theorem firstNew_isPrefix_take (hmissing : t.missing allocs point ≠ [])
    (hfound : t'.lookup 0 (t.front allocs point) ≠ none)
    (hpre : t.firstNew point <+: nodeTokens path) :
    t.firstNew point <+: (nodeTokens path).take (t'.matched 0 (nodeTokens path)) ∧
      t'.matched 0 (nodeTokens path) ≠ 0 := by
  have hsome := lookup_ne_none_of_isPrefix (firstNew_isPrefix_front hmissing) hfound
  rw [List.prefix_iff_eq_take.1 hpre, lookup_take_ne_none_iff hpre.length_le] at hsome
  refine ⟨List.prefix_take_iff.2 ⟨hpre, hsome⟩, ?_⟩
  obtain ⟨-, hlt⟩ := missing_ne_nil_iff.1 hmissing
  rw [firstNew, List.length_take] at hsome
  omega

/-- So its nearest node is at that node or below. -/
theorem nearestPath_through_firstNew (hmissing : t.missing allocs point ≠ [])
    (hfound : t'.lookup 0 (t.front allocs point) ≠ none)
    (hpre : t.firstNew point <+: nodeTokens path) :
    (t'.nodeFind (some path) .nearestPath).1 =
      t'.lookup 0 ((nodeTokens path).take (t'.matched 0 (nodeTokens path))) := by
  rw [nodeFind_nearestPath, if_neg]
  exact fun hzero => (firstNew_isPrefix_take hmissing hfound hpre).2 hzero.2

theorem Extended.unchanged (hext : Extended (t.front allocs point) t t')
    (hpath : ¬ (t.missing allocs point ≠ [] ∧ t.firstNew point <+: nodeTokens path))
    (mode : NodeMode) : t'.nodeFind (some path) mode = t.nodeFind (some path) mode := by
  apply nodeFind_congr_take
  intro k
  apply hext.lookup_eq ((clean_nodeTokens path).take k)
  intro hpre hnone
  obtain ⟨hfirst, hmissing⟩ := firstNew_isPrefix hpre hnone
  exact hpath ⟨hmissing, hfirst.trans (List.take_prefix _ _)⟩

/-- The tree after the walk. -/
theorem Extended.leaves (h' : t'.TreeOf kids') (hext : Extended (t.front allocs point) t t')
    (hfound : t'.lookup 0 (t.front allocs point) ≠ none) :
    Leaves t t' (fun p => t.missing allocs point ≠ [] ∧ t.firstNew point <+: nodeTokens p)
      (t.front allocs point) := by
  constructor
  case unchanged =>
    intro path mode hpath
    cases path with
    | none => rfl
    | some p => exact hext.unchanged (hpath p rfl) mode
  case before =>
    rintro p ⟨hmissing, hpre⟩
    rw [nodeFind_fullPath, lookup_through_firstNew hmissing hpre]
  case found_iff =>
    rintro p ⟨hmissing, hpre⟩
    rw [nodeFind_fullPath]
    constructor
    · intro hsome
      obtain ⟨n, hn⟩ := Option.ne_none_iff_exists'.1 hsome
      rcases hext.new _ n (clean_nodeTokens p) hn with hold | ⟨hfront, -⟩
      · rw [lookup_through_firstNew hmissing hpre] at hold
        cases hold
      · exact hfront
    · exact fun hfront => lookup_ne_none_of_isPrefix hfront hfound
  case nearest =>
    rintro p ⟨hmissing, hpre⟩
    rw [nearestPath_through_firstNew hmissing hfound hpre]
    exact lookup_take_matched_ne_none
  case directory =>
    rintro p mode n ⟨hmissing, hpre⟩ hn
    cases mode with
    | nearestPath =>
        rw [nearestPath_through_firstNew hmissing hfound hpre] at hn
        have hfirst := (firstNew_isPrefix_take hmissing hfound hpre).1
        exact hext.of_lookup_none h' ((clean_nodeTokens p).take _)
          (lookup_eq_none_of_isPrefix hfirst (lookup_firstNew hmissing)) hn
    | fullPath =>
        rw [nodeFind_fullPath] at hn
        exact hext.of_lookup_none h' (clean_nodeTokens p)
          (lookup_through_firstNew hmissing hpre) hn
  case fOp_eq => exact hext.fOp_eq

end Walk

section Calls

variable {F : Type*} {t : NodeTree F} {kids : ℕ → List ℕ}

/-- `node_mount`, called so. -/
def mount (t : NodeTree F) (call : MountCall F) : MountResult F :=
  t.nodeMount call.allocs call.mountingPoint call.fOp

/-- The components that the call creates nodes for. -/
def created (t : NodeTree F) (call : MountCall F) : List (List UInt8) :=
  match call.mountingPoint, call.fOp with
  | some point, some _ => t.missing call.allocs point
  | _, _ => []

/-- The path goes through the first node that the call creates. -/
def Passes (t : NodeTree F) (call : MountCall F) (path : List UInt8) : Prop :=
  t.created call ≠ [] ∧ ∃ point ∈ call.mountingPoint, t.firstNew point <+: nodeTokens path

/-- The part of the mounting point that the call finds or creates. -/
def reached (t : NodeTree F) (call : MountCall F) : List (List UInt8) :=
  (call.mountingPoint.map (t.front call.allocs)).getD []

/-- A call that is refused creates nothing and returns null; one that is not goes down the
path. -/
theorem mount_cases (t : NodeTree F) (call : MountCall F) :
    (t.created call = [] ∧ (t.mount call).tree = t ∧ (t.mount call).node = some none) ∨
      ∃ allocs point op, call = ⟨allocs, some point, some op⟩ ∧
        t.lookup 0 (nodeTokens point) = none := by
  obtain ⟨allocs, point, op⟩ := call
  cases point with
  | none => exact Or.inl ⟨rfl, rfl, rfl⟩
  | some point =>
      cases op with
      | none => exact Or.inl ⟨rfl, rfl, rfl⟩
      | some op =>
          by_cases hfree : t.lookup 0 (nodeTokens point) = none
          · exact Or.inr ⟨allocs, point, op, rfl, hfree⟩
          · refine Or.inl ⟨?_, ?_⟩
            · by_contra hmissing
              obtain ⟨-, hlt⟩ := missing_ne_nil_iff.1 hmissing
              have hall : (nodeTokens point).length ≤ t.matched 0 (nodeTokens point) :=
                (lookup_take_ne_none_iff (Nat.le_refl _)).1 (by rwa [List.take_length])
              exact absurd hall (Nat.not_le_of_lt hlt)
            · rw [← nodeFind_fullPath] at hfree
              rw [mount, nodeMount_of_found allocs op hfree]
              exact ⟨rfl, rfl⟩

/-- The walk of a call that returns null is all that it does to the tree. -/
theorem nodeMount_tree_of_null {allocs : ℕ} {point : List UInt8} {op : F}
    (hfree : t.lookup 0 (nodeTokens point) = none)
    (hnull : (t.nodeMount allocs (some point) (some op)).node = some none) :
    (t.nodeMount allocs (some point) (some op)).tree =
      (t.nodeMountLoop allocs 0 none (nodeTokens point)).1 := by
  rw [← nodeFind_fullPath] at hfree
  rw [nodeMount, hfree, Option.isSome_none, if_neg Bool.false_ne_true] at hnull ⊢
  generalize t.nodeMountLoop allocs 0 none (nodeTokens point) = walk at hnull ⊢
  obtain ⟨t', _ | _ | n⟩ := walk
  · rfl
  · rfl
  · cases hnull

/-- What a mount leaves that returns null. -/
theorem TreeOf.leaves_mount (h : t.TreeOf kids) {call : MountCall F}
    (hfit : ∀ c ∈ t.created call, c.length < nodeMaxNameLength)
    (hnull : (t.mount call).node = some none) :
    Leaves t (t.mount call).tree (t.Passes call) (t.reached call) := by
  rcases t.mount_cases call with ⟨hcreated, htree, -⟩ | ⟨allocs, point, op, rfl, hfree⟩
  · rw [htree]
    exact .refl t (fun _ hpasses => hpasses.1 hcreated) _
  · have htree : (t.mount ⟨allocs, some point, some op⟩).tree =
        (t.nodeMountLoop allocs 0 none (nodeTokens point)).1 := nodeMount_tree_of_null hfree hnull
    obtain ⟨⟨kids', h', -⟩, hext, n, hn, -⟩ := h.nodeMountLoop_front allocs hfit
    have hleaves := hext.leaves h' (by rw [hn]; exact Option.some_ne_none n)
    have hpasses : t.Passes ⟨allocs, some point, some op⟩ = fun p =>
        t.missing allocs point ≠ [] ∧ t.firstNew point <+: nodeTokens p := by
      funext p
      simp [Passes, created]
    rw [htree, hpasses]
    exact hleaves

/-- A mount that returns null leaves the lookups as they were but for those whose path goes
through the first node it has created; it leaves all of them exactly if it has created none. -/
theorem TreeOf.mount_null (h : t.TreeOf kids) {call : MountCall F}
    (hfit : ∀ c ∈ t.created call, c.length < nodeMaxNameLength)
    (hnull : (t.mount call).node = some none) :
    Leaves t (t.mount call).tree (t.Passes call) (t.reached call) ∧
      ((∀ path mode, (t.mount call).tree.nodeFind path mode = t.nodeFind path mode) ↔
        t.created call = []) := by
  have hleaves := h.leaves_mount hfit hnull
  refine ⟨hleaves, fun hsame => ?_, fun hnone path mode => ?_⟩
  · by_contra hcreated
    rcases t.mount_cases call with ⟨hnone, -⟩ | ⟨allocs, point, op, rfl, -⟩
    · exact hcreated hnone
    · -- the mounting point itself leads to a new node now
      have hpasses : t.Passes ⟨allocs, some point, some op⟩ point :=
        ⟨hcreated, point, rfl, List.take_prefix _ _⟩
      obtain ⟨n, hn⟩ := Option.ne_none_iff_exists'.1 (hleaves.nearest point hpasses)
      have hle := (hleaves.directory point .nearestPath n hpasses hn).1
      rw [hsame] at hn
      exact absurd (h.nearest_lt hn) (Nat.not_lt_of_le hle)
  · exact hleaves.unchanged path mode fun p _ hpasses => hpasses.1 hnone

/-- `/a/b` where the second call of `calloc` fails. -/
theorem TreeOf.mount_null_second :
    let call : MountCall Unit := ⟨1, some [0x2F, 0x61, 0x2F, 0x62], some ()⟩
    Leaves (init Unit) ((init Unit).mount call).tree ((init Unit).Passes call)
        ((init Unit).reached call) ∧
      ((∀ path mode, ((init Unit).mount call).tree.nodeFind path mode =
        (init Unit).nodeFind path mode) ↔ (init Unit).created call = []) :=
  (treeOf_init Unit).mount_null (by decide) (by decide)

/-- Then `/a` is found, and it was not before. -/
theorem not_atomic_second :
    let res := (init Unit).mount ⟨1, some [0x2F, 0x61, 0x2F, 0x62], some ()⟩
    ¬ (res.node = some none → ∀ path mode,
      (res.tree.nodeFind path mode).1 = ((init Unit).nodeFind path mode).1) := by
  intro res hatomic
  have hnull : res.node = some none := by decide
  have hsame := hatomic hnull (some [0x2F, 0x61]) .fullPath
  exact absurd hsame (by decide)

end Calls

end NodeTree

end Catpilot
