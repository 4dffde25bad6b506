import Catpilot.Vfs.Nearest

/-!
# Mounting

`node_mount` walks down the path, creates the nodes that are missing, and gives the
last one its file operations. `Extended` says what the walk leaves: the tree as a map
has got more paths, all of them in front of the path that is mounted.
-/

namespace Catpilot

open CString

namespace NodeTree

section Extended

variable {F : Type*} {t t' t'' : NodeTree F} {path : List (List UInt8)}

/-- `t'` is `t` with new nodes at paths in front of `path`, which carry no file
operations. -/
structure Extended (path : List (List UInt8)) (t t' : NodeTree F) : Prop where
  size_le : t.size ≤ t'.size
  kept : ∀ q x, Clean q → t.lookup 0 q = some x → t'.lookup 0 q = some x
  new : ∀ q x, Clean q → t'.lookup 0 q = some x →
    t.lookup 0 q = some x ∨ (q <+: path ∧ t.size ≤ x)
  fOp_eq : ∀ i < t.size, (t'.node i).fOp = (t.node i).fOp
  fOp_new : ∀ i, t.size ≤ i → i < t'.size → (t'.node i).fOp = none

theorem Extended.refl (path : List (List UInt8)) (t : NodeTree F) : Extended path t t where
  size_le := Nat.le_refl _
  kept := fun _ _ _ h => h
  new := fun _ _ _ h => Or.inl h
  fOp_eq := fun _ _ => rfl
  fOp_new := fun _ hle hlt => absurd hlt (Nat.not_lt_of_le hle)

/-- What is new in front of a path is in front of a longer one. -/
theorem Extended.mono {longer : List (List UInt8)} (h : Extended path t t')
    (hpre : path <+: longer) : Extended longer t t' :=
  { h with new := fun q x hq hx => (h.new q x hq hx).imp_right fun hnew =>
      ⟨hnew.1.trans hpre, hnew.2⟩ }

theorem Extended.trans (h : Extended path t t') (h' : Extended path t' t'') :
    Extended path t t'' where
  size_le := Nat.le_trans h.size_le h'.size_le
  kept := fun q x hq hx => h'.kept q x hq (h.kept q x hq hx)
  new := by
    intro q x hq hx
    rcases h'.new q x hq hx with hx' | ⟨hpre, hle⟩
    · exact h.new q x hq hx'
    · exact Or.inr ⟨hpre, Nat.le_trans h.size_le hle⟩
  fOp_eq := fun i hi =>
    (h'.fOp_eq i (Nat.lt_of_lt_of_le hi h.size_le)).trans (h.fOp_eq i hi)
  fOp_new := by
    intro i hle hlt
    by_cases hi : i < t'.size
    · exact (h'.fOp_eq i hi).trans (h.fOp_new i hle hi)
    · exact h'.fOp_new i (Nat.le_of_not_lt hi) hlt

end Extended

section Mount

variable {F : Type*} {t : NodeTree F} {kids : ℕ → List ℕ}

/-- One node created on the way. -/
theorem TreeOf.extended_childAdded (h : t.TreeOf kids) {r : ℕ} {name : List UInt8}
    (hr : r < t.size) (hnone : t.childNamed r name = none) (hname : 0 ∉ name) {t' : NodeTree F}
    (ha : ChildAdded t t' kids r name) {p₀ : List (List UInt8)} (rest : List (List UInt8))
    (hp₀ : Clean p₀) (hpath : t.lookup 0 p₀ = some r) : Extended (p₀ ++ name :: rest) t t' where
  size_le := by
    rw [ha.size_eq]
    exact Nat.le_succ _
  kept := by
    intro q x hq hx
    rw [h.lookup_childAdded hr hnone hname ha hp₀ hpath hq, if_neg, hx]
    rintro rfl
    rw [lookup_concat, hpath, Option.bind_some, hnone] at hx
    cases hx
  new := by
    intro q x hq hx
    rw [h.lookup_childAdded hr hnone hname ha hp₀ hpath hq] at hx
    split at hx
    · rename_i heq
      cases hx
      refine Or.inr ⟨?_, Nat.le_refl _⟩
      rw [heq, show p₀ ++ name :: rest = (p₀ ++ [name]) ++ rest by
        rw [List.append_assoc, List.singleton_append]]
      exact List.prefix_append _ _
    · exact Or.inl hx
  fOp_eq := ha.fOp_eq
  fOp_new := by
    intro i hle hlt
    rw [ha.size_eq] at hlt
    rw [Nat.le_antisymm (Nat.le_of_lt_succ hlt) hle, ha.new_fOp]

/-- A node without children has none of the names. -/
theorem TreeOf.matched_new (h : t.TreeOf kids) {r : ℕ} {name : List UInt8} {t' : NodeTree F}
    (hr : r < t.size) (hnew : ∀ j ∈ kids r, t.nodeName j ≠ name)
    (ha : ChildAdded t t' kids r name) (path : List (List UInt8)) : t'.matched t.size path = 0 := by
  cases path with
  | nil => rfl
  | cons c path =>
      have hnone := h.lookup_new hr hnew ha [c]
      rw [if_neg (List.cons_ne_nil _ _), lookup_cons] at hnone
      rw [matched]
      cases hchild : t'.childNamed t.size c with
      | none => rfl
      | some y =>
          rw [hchild] at hnone
          cases hnone

/-- The walk of `node_mount` from the node at `p₀` along `path`: it finds what there is,
creates a node for each further component until `calloc` fails, and keeps the tree. The map
gets these paths and no other. -/
theorem TreeOf.nodeMountLoop (h : t.TreeOf kids) (allocs : ℕ) {rnode : ℕ}
    (node : Option (Option ℕ)) {p₀ : List (List UInt8)} (path : List (List UInt8))
    (hclean : Clean (p₀ ++ path))
    (hfit : ∀ c ∈ (path.drop (t.matched rnode path)).take allocs, c.length < nodeMaxNameLength)
    (hpath : t.lookup 0 p₀ = some rnode) :
    let res := t.nodeMountLoop allocs rnode node path
    let front := p₀ ++ path.take (t.matched rnode path + allocs)
    (∃ kids', res.1.TreeOf kids' ∧ (t.Whole kids → res.1.Whole kids')) ∧
      Extended front t res.1 ∧ ∃ n, res.1.lookup 0 front = some n ∧
        (path.length ≤ t.matched rnode path + allocs → node = some (some rnode) ∨ path ≠ [] →
          res.2 = some (some n)) := by
  induction path generalizing t kids allocs rnode node p₀ with
  | nil =>
      refine ⟨⟨kids, h, id⟩, .refl _ t, rnode, ?_, fun _ hnode => ?_⟩
      · rw [List.take_nil, List.append_nil]
        exact hpath
      · exact hnode.resolve_right fun hne => hne rfl
  | cons c path ih =>
      have hsplit : ∀ l, p₀ ++ c :: l = (p₀ ++ [c]) ++ l := by
        intro l
        rw [List.append_assoc, List.singleton_append]
      obtain ⟨hp₀, hcpath⟩ := clean_append.1 hclean
      have hc : 0 ∉ c := (clean_cons.1 hcpath).1
      have hr := h.lookup_lt h.size_pos hp₀ hpath
      rw [hsplit] at hclean
      cases hchild : t.childNamed rnode c with
      | some n =>
          have hn : t.lookup 0 (p₀ ++ [c]) = some n := by
            rw [lookup_concat, hpath]
            exact hchild
          simp only [matched, hchild, List.drop_succ_cons] at hfit
          obtain ⟨htree, hext, m, hm, hend⟩ := ih h allocs (some (some n)) hclean hfit hn
          rw [childNamed] at hchild
          simp only [NodeTree.nodeMountLoop, matched, childNamed, hchild, Nat.add_right_comm _ 1,
            List.take_succ_cons]
          rw [hsplit]
          refine ⟨htree, hext, m, hm, fun hle _ => hend ?_ (Or.inl rfl)⟩
          exact Nat.le_of_succ_le_succ hle
      | none =>
          simp only [matched, hchild, List.drop_zero, Nat.zero_add] at hfit ⊢
          cases allocs with
          | zero =>
              rw [childNamed] at hchild
              simp only [NodeTree.nodeMountLoop, hchild, List.take_zero, List.append_nil]
              refine ⟨⟨kids, h, id⟩, .refl _ t, rnode, hpath, fun hle _ => ?_⟩
              exact absurd hle (Nat.not_succ_le_zero _)
          | succ allocs =>
              have hfit₀ : c.length < nodeMaxNameLength := hfit c List.mem_cons_self
              have ha := h.childAdded hr hc hfit₀
              have hnew := h.childNamed_none hr hc hchild
              have hext₁ := h.extended_childAdded hr hchild hc ha (path.take allocs) hp₀ hpath
              have h' := h.of_childAdded hr hnew ha
              have hn := h.lookup_childAdded hr hchild hc ha hp₀ hpath
                (clean_append.1 hclean).1
              rw [if_pos rfl] at hn
              have hmatched := h.matched_new hr hnew ha path
              obtain ⟨⟨kids', htree, hwhole⟩, hext, m, hm, hend⟩ :=
                ih h' allocs (some (some t.size)) hclean (by
                  rw [hmatched, List.drop_zero]
                  exact fun d hd => hfit d (List.mem_cons_of_mem _ hd)) hn
              rw [hmatched, Nat.zero_add] at hext hm hend
              rw [childNamed] at hchild
              simp only [NodeTree.nodeMountLoop, hchild, List.take_succ_cons]
              rw [hsplit] at hext₁ ⊢
              refine ⟨⟨kids', htree, fun hw => hwhole ?_⟩, hext₁.trans hext, m, hm, ?_⟩
              · exact h.whole_childAdded hr hw hc hfit₀
              · exact fun hle _ => hend (Nat.le_of_succ_le_succ hle) (Or.inl rfl)

end Mount

section FileOperations

variable {F : Type*} {t : NodeTree F} {kids : ℕ → List ℕ}

/-- `node->f_op = *f_op`. -/
def setFOp (t : NodeTree F) (n : ℕ) (op : F) : NodeTree F :=
  t.modify n fun node => { node with fOp := some op }

theorem setFOp_node (t : NodeTree F) (n : ℕ) (op : F) (i : ℕ) :
    ∃ q, (t.setFOp n op).node i = { t.node i with fOp := q } := by
  by_cases hin : i = n
  · rw [hin]
    exact ⟨_, modify_node_self ..⟩
  · exact ⟨_, modify_node_of_ne t _ hin⟩

theorem setFOp_nodeName (t : NodeTree F) (n : ℕ) (op : F) (i : ℕ) :
    (t.setFOp n op).nodeName i = t.nodeName i := by
  obtain ⟨q, hq⟩ := setFOp_node t n op i
  rw [nodeName, hq, nodeName]

/-- Setting file operations changes no link and no name. -/
theorem setFOp_sameShape (t : NodeTree F) (n : ℕ) (op : F) : SameShape t (t.setFOp n op) where
  size_eq := rfl
  child_eq := by
    intro i
    obtain ⟨q, hq⟩ := setFOp_node t n op i
    rw [hq]
  sibling_eq := by
    funext i
    obtain ⟨q, hq⟩ := setFOp_node t n op i
    rw [sibling, hq, sibling]
  parent_eq := by
    intro i
    obtain ⟨q, hq⟩ := setFOp_node t n op i
    rw [hq]
  nodeName_eq := fun i _ => setFOp_nodeName t n op i

theorem TreeOf.setFOp (h : t.TreeOf kids) (n : ℕ) (op : F) : (t.setFOp n op).TreeOf kids :=
  h.sameShape (setFOp_sameShape t n op)

end FileOperations

section Calls

variable {F : Type*}

/-- A call of `node_mount`: how many of its calls of `calloc` can succeed, and its
arguments. -/
structure MountCall (F : Type*) where
  allocs : ℕ
  mountingPoint : Option (List UInt8)
  fOp : Option F

/-- The components of a mounting point fit the array of a name. -/
def NamesFit (path : List UInt8) : Prop := ∀ c ∈ nodeTokens path, c.length < nodeMaxNameLength

instance (path : List UInt8) : Decidable (NamesFit path) :=
  inferInstanceAs (Decidable (∀ c ∈ nodeTokens path, c.length < nodeMaxNameLength))

/-- The components of a mounting point that a mount creates nodes for, as long as `calloc`
succeeds. -/
def missing (t : NodeTree F) (allocs : ℕ) (path : List UInt8) : List (List UInt8) :=
  ((nodeTokens path).drop (t.matched 0 (nodeTokens path))).take allocs

/-- The part of a mounting point that there is after a mount. -/
def front (t : NodeTree F) (allocs : ℕ) (path : List UInt8) : List (List UInt8) :=
  (nodeTokens path).take (t.matched 0 (nodeTokens path) + allocs)

/-- The walk of a mount from the root, where the names of the nodes it creates fit. -/
theorem TreeOf.nodeMountLoop_front {t : NodeTree F} {kids : ℕ → List ℕ} (h : t.TreeOf kids)
    (allocs : ℕ) {path : List UInt8}
    (hfit : ∀ c ∈ t.missing allocs path, c.length < nodeMaxNameLength) :
    let res := t.nodeMountLoop allocs 0 none (nodeTokens path)
    (∃ kids', res.1.TreeOf kids' ∧ (t.Whole kids → res.1.Whole kids')) ∧
      Extended (t.front allocs path) t res.1 ∧
      ∃ n, res.1.lookup 0 (t.front allocs path) = some n ∧
        ((nodeTokens path).length ≤ t.matched 0 (nodeTokens path) + allocs →
          nodeTokens path ≠ [] → res.2 = some (some n)) := by
  obtain ⟨htree, hext, n, hn, hend⟩ := h.nodeMountLoop allocs none (nodeTokens path)
    (clean_nodeTokens path) hfit (show t.lookup 0 [] = some 0 from rfl)
  exact ⟨htree, hext, n, hn, fun hle hne => hend hle (Or.inr hne)⟩

/-- The walk of a mount from the root. -/
theorem TreeOf.nodeMountLoop_root {t : NodeTree F} {kids : ℕ → List ℕ} (h : t.TreeOf kids)
    (allocs : ℕ) {path : List UInt8} (hfit : NamesFit path) :
    let res := t.nodeMountLoop allocs 0 none (nodeTokens path)
    (∃ kids', res.1.TreeOf kids') ∧ Extended (nodeTokens path) t res.1 ∧
      ((nodeTokens path).length ≤ allocs → nodeTokens path ≠ [] →
        ∃ n, res.2 = some (some n) ∧ res.1.lookup 0 (nodeTokens path) = some n) := by
  have hfit' : ∀ c ∈ t.missing allocs path, c.length < nodeMaxNameLength :=
    fun c hc => hfit c (List.mem_of_mem_drop (List.mem_of_mem_take hc))
  obtain ⟨⟨kids', htree, -⟩, hext, n, hn, hend⟩ := h.nodeMountLoop_front allocs hfit'
  refine ⟨⟨kids', htree⟩, hext.mono (List.take_prefix _ _), fun hle hne => ?_⟩
  have hle' := Nat.le_add_left_of_le (k := t.matched 0 (nodeTokens path)) hle
  rw [front, List.take_of_length_le hle'] at hn
  exact ⟨n, hend hle' hne, hn⟩

/-- A free path is mounted by the walk, which then sets the file operations. -/
theorem nodeMount_of_free {t : NodeTree F} {allocs : ℕ} {path : List UInt8} (op : F)
    (hfree : (t.nodeFind (some path) .fullPath).1 = none) {n : ℕ}
    (hloop : (t.nodeMountLoop allocs 0 none (nodeTokens path)).2 = some (some n)) :
    t.nodeMount allocs (some path) (some op) =
      ⟨(t.nodeMountLoop allocs 0 none (nodeTokens path)).1.setFOp n op, some (some n), .ok⟩ := by
  rw [nodeMount, hfree, Option.isSome_none, if_neg Bool.false_ne_true]
  generalize t.nodeMountLoop allocs 0 none (nodeTokens path) = walk at hloop ⊢
  obtain ⟨t', node⟩ := walk
  cases hloop
  rfl

/-- A path that is found is not mounted again. -/
theorem nodeMount_of_found {t : NodeTree F} (allocs : ℕ) {path : List UInt8} (op : F)
    (hfound : (t.nodeFind (some path) .fullPath).1 ≠ none) :
    t.nodeMount allocs (some path) (some op) = ⟨t, some none, .eexist⟩ := by
  rw [nodeMount, if_pos (Option.isSome_iff_ne_none.2 hfound)]

/-- Whatever `node_mount` answers, it leaves the tree it got, what its walk left, or
that with the file operations of one node set. -/
theorem nodeMount_tree_cases (t : NodeTree F) (allocs : ℕ) (path : Option (List UInt8))
    (op : Option F) :
    (t.nodeMount allocs path op).tree = t ∨ ∃ p ∈ path,
      (t.nodeMount allocs path op).tree = (t.nodeMountLoop allocs 0 none (nodeTokens p)).1 ∨
        ∃ n f, (t.nodeMount allocs path op).tree =
          (t.nodeMountLoop allocs 0 none (nodeTokens p)).1.setFOp n f := by
  cases path with
  | none => exact Or.inl rfl
  | some path =>
      cases op with
      | none => exact Or.inl rfl
      | some op =>
          by_cases hfound : (t.nodeFind (some path) .fullPath).1 = none
          · refine Or.inr ⟨path, rfl, ?_⟩
            rw [nodeMount, hfound, Option.isSome_none, if_neg Bool.false_ne_true]
            rcases t.nodeMountLoop allocs 0 none (nodeTokens path) with ⟨t', _ | _ | n⟩
            · exact Or.inl rfl
            · exact Or.inl rfl
            · exact Or.inr ⟨n, op, rfl⟩
          · rw [nodeMount_of_found allocs op hfound]
            exact Or.inl rfl

/-- A mount whose names fit keeps the tree. -/
theorem TreeOf.nodeMount {t : NodeTree F} {kids : ℕ → List ℕ} (h : t.TreeOf kids) {allocs : ℕ}
    {path : Option (List UInt8)} {op : Option F} (hfit : ∀ p ∈ path, NamesFit p) :
    ∃ kids', (t.nodeMount allocs path op).tree.TreeOf kids' := by
  rcases t.nodeMount_tree_cases allocs path op with hsame | ⟨p, hp, hcases⟩
  · rw [hsame]
    exact ⟨kids, h⟩
  · obtain ⟨kids', hwalk⟩ := (h.nodeMountLoop_root allocs (hfit p hp)).1
    rcases hcases with hsame | ⟨n, f, hset⟩
    · rw [hsame]
      exact ⟨kids', hwalk⟩
    · rw [hset]
      exact ⟨kids', hwalk.setFOp n f⟩

end Calls

section Finds

variable {F : Type*}

theorem nodeFind_eq_some {t : NodeTree F} {path : List UInt8} {n : ℕ}
    (h : t.lookup 0 (nodeTokens path) = some n) :
    t.nodeFind (some path) .fullPath = (some n, .ok) := by
  rw [nodeFind, nodeFindLoop_fullPath, h]

theorem nodeFind_congr {t t' : NodeTree F} {path : List UInt8}
    (h : t'.lookup 0 (nodeTokens path) = t.lookup 0 (nodeTokens path)) :
    t'.nodeFind (some path) .fullPath = t.nodeFind (some path) .fullPath := by
  rw [nodeFind, nodeFind, nodeFindLoop_fullPath, nodeFindLoop_fullPath, h]

end Finds

end NodeTree

end Catpilot
