import Catpilot.CString.Store
import Catpilot.Vfs.Shape

/-!
# Names in the nodes

`node_create` stores a component in the array of a node. `Stored t t' cs` says that `t'` has one
more node for each of the components `cs`, in this order. The walk of a mount stores the
components that are missing, whether they fit or not. A mount whose components fit is found
again, after any further mounts whose components fit.
-/

namespace Catpilot

open CString LinkedList Transition

namespace NodeTree

section Stored

variable {F : Type*} {t t' t'' : NodeTree F} {c : List UInt8} {cs ds : List (List UInt8)}

/-- There is one more node for each of the components `cs`, with the name that `node_create`
gives it. -/
structure Stored (t t' : NodeTree F) (cs : List (List UInt8)) : Prop where
  size_eq : t'.size = t.size + cs.length
  old : ∀ i < t.size, (t'.node i).name = (t.node i).name
  new : ∀ k (hk : k < cs.length), (t'.node (t.size + k)).name = (newNode F cs[k]).name

theorem Stored.refl (t : NodeTree F) : Stored t t [] where
  size_eq := rfl
  old := fun _ _ => rfl
  new := fun _ hk => absurd hk (Nat.not_lt_zero _)

theorem Stored.trans (h : Stored t t' cs) (h' : Stored t' t'' ds) : Stored t t'' (cs ++ ds) where
  size_eq := by
    rw [h'.size_eq, h.size_eq, List.length_append, Nat.add_assoc]
  old := by
    intro i hi
    rw [h'.old i (by rw [h.size_eq]; omega), h.old i hi]
  new := by
    intro k hk
    rw [List.length_append] at hk
    by_cases hlt : k < cs.length
    · rw [h'.old _ (by rw [h.size_eq]; omega), h.new k hlt, List.getElem_append_left hlt]
    · have hnew := h'.new (k - cs.length) (by omega)
      rw [h.size_eq, show t.size + cs.length + (k - cs.length) = t.size + k by omega] at hnew
      rw [hnew, List.getElem_append_right (Nat.le_of_not_lt hlt)]

/-- The file operations and the links do not matter. -/
theorem Stored.of_name (h : Stored t t' cs) (hsize : t''.size = t'.size)
    (hname : ∀ i, (t''.node i).name = (t'.node i).name) : Stored t t'' cs where
  size_eq := hsize.trans h.size_eq
  old := fun i hi => (hname i).trans (h.old i hi)
  new := fun k hk => (hname _).trans (h.new k hk)

/-- A component in the array of a new node: it ends there and is read back exactly when it is
shorter than the array. -/
theorem newNode_fits_iff (F : Type*) (hnul : 0 ∉ c) :
    0 ∈ (newNode F c).name ∧ cstr (newNode F c).name = c ↔ c.length < nodeMaxNameLength := by
  have hlen : c.length ≤ strlen c := by rw [strlen, cstr_of_not_mem hnul]
  rw [newNode, Node.zero, zero_mem_take_strncpy_iff hlen, and_iff_left_iff_imp]
  exact cstr_newNode F hnul

end Stored

section Walk

variable {F : Type*} {t : NodeTree F} {kids : ℕ → List ℕ} {c : List UInt8} {rnode : ℕ}

/-- The tree with a new child of `rnode`. -/
def grown (t : NodeTree F) (c : List UInt8) (rnode : ℕ) : NodeTree F :=
  (t.nodeCreate c).1.nodeAddChild rnode t.size

theorem nodeAddChild_size (t : NodeTree F) (parent child : ℕ) :
    (t.nodeAddChild parent child).size = t.size := by
  rw [nodeAddChild]
  split
  · rfl
  · rfl

theorem size_grown (t : NodeTree F) (c : List UInt8) (rnode : ℕ) :
    (t.grown c rnode).size = t.size + 1 := nodeAddChild_size ..

theorem stored_grown (t : NodeTree F) (c : List UInt8) (rnode : ℕ) :
    Stored t (t.grown c rnode) [c] where
  size_eq := size_grown t c rnode
  old := by
    intro i hi
    rw [grown, nodeAddChild_name, nodeCreate_node_of_ne t c (Nat.ne_of_lt hi)]
  new := by
    intro k hk
    obtain rfl : k = 0 := Nat.lt_one_iff.1 hk
    rw [grown, nodeAddChild_name]
    exact congrArg Node.name (nodeCreate_node_self t c)

theorem modify_child (t : NodeTree F) (j : ℕ) {f : Node F → Node F}
    (hf : ∀ node, (f node).child = node.child) (i : ℕ) :
    ((t.modify j f).node i).child = (t.node i).child := by
  by_cases hij : i = j
  · rw [hij, modify_node_self, hf]
  · rw [modify_node_of_ne t f hij]

/-- A node that was linked has no child yet. -/
theorem grown_child (hr : rnode < t.size) : ((t.grown c rnode).node t.size).child = none := by
  have hnew : ((t.nodeCreate c).1.node t.size).child = none := by
    rw [nodeCreate_node_self]
    rfl
  rw [grown, nodeAddChild]
  split
  · rw [modify_child, modify_node_of_ne _ _ (Nat.ne_of_gt hr), hnew]
    exact fun _ => rfl
  · rw [nodeAddSibling, modify_child, modify_child, hnew]
    · exact fun _ => rfl
    · exact fun _ => rfl

/-- A missing component is stored, and the walk goes on at its node. -/
theorem nodeMountLoop_create (allocs : ℕ) (node : Option (Option ℕ)) (path : List (List UInt8))
    (hnone : t.childNamed rnode c = none) : t.nodeMountLoop (allocs + 1) rnode node (c :: path) =
      (t.grown c rnode).nodeMountLoop allocs t.size (some (some t.size)) path := by
  rw [childNamed] at hnone
  rw [nodeMountLoop, hnone]
  rfl

theorem nodeMountLoop_refused (node : Option (Option ℕ)) (path : List (List UInt8))
    (hnone : t.childNamed rnode c = none) :
    t.nodeMountLoop 0 rnode node (c :: path) = (t, some none) := by
  rw [childNamed] at hnone
  rw [nodeMountLoop, hnone]

theorem nodeMountLoop_found {n : ℕ} (allocs : ℕ) (node : Option (Option ℕ))
    (path : List (List UInt8)) (hsome : t.childNamed rnode c = some n) :
    t.nodeMountLoop allocs rnode node (c :: path) =
      t.nodeMountLoop allocs n (some (some n)) path := by
  rw [childNamed] at hsome
  simp only [nodeMountLoop, hsome]

/-- A walk at a component that is missing stores it, and goes on from the new node. -/
theorem stored_of_missing {c : List UInt8} (hnone : t.childNamed rnode c = none) {allocs : ℕ}
    {node : Option (Option ℕ)} {path : List (List UInt8)}
    (hrest : ∀ allocs,
      let walk := (t.grown c rnode).nodeMountLoop allocs t.size (some (some t.size)) path
      Stored (t.grown c rnode) walk.1 (path.take allocs) ∧
        (path.length ≤ allocs ∨ walk.2 = some none)) :
    let walk := t.nodeMountLoop allocs rnode node (c :: path)
    Stored t walk.1 ((c :: path).take allocs) ∧
      ((c :: path).length ≤ allocs ∨ walk.2 = some none) := by
  cases allocs with
  | zero =>
      rw [nodeMountLoop_refused node path hnone]
      exact ⟨.refl t, Or.inr rfl⟩
  | succ allocs =>
      obtain ⟨hstored, hend⟩ := hrest allocs
      rw [nodeMountLoop_create allocs node path hnone]
      exact ⟨(stored_grown t c rnode).trans hstored, hend.imp_left Nat.succ_le_succ⟩

/-- From a node without children the walk stores the whole path. -/
theorem stored_of_childless (allocs : ℕ) (hr : rnode < t.size)
    (hchild : (t.node rnode).child = none) (node : Option (Option ℕ))
    (path : List (List UInt8)) :
    let walk := t.nodeMountLoop allocs rnode node path
    Stored t walk.1 (path.take allocs) ∧ (path.length ≤ allocs ∨ walk.2 = some none) := by
  induction path generalizing t allocs rnode node with
  | nil =>
      rw [List.take_nil]
      exact ⟨.refl t, Or.inl (Nat.zero_le _)⟩
  | cons c path ih =>
      have hnone : t.childNamed rnode c = none := by
        rw [childNamed, nodeFindSibling, hchild]
        cases t.size with
        | zero => rfl
        | succ n => rfl
      apply stored_of_missing hnone
      intro allocs
      apply ih allocs _ (grown_child hr)
      rw [size_grown]
      exact Nat.lt_succ_self _

/-- The walk stores what is missing of the path. -/
theorem TreeOf.stored_nodeMountLoop (h : t.TreeOf kids) (allocs : ℕ) (hr : rnode < t.size)
    (node : Option (Option ℕ)) {path : List (List UInt8)} (hclean : Clean path) :
    let walk := t.nodeMountLoop allocs rnode node path
    Stored t walk.1 ((path.drop (t.matched rnode path)).take allocs) ∧
      (path.length ≤ t.matched rnode path + allocs ∨ walk.2 = some none) := by
  induction path generalizing rnode node with
  | nil =>
      rw [List.drop_nil, List.take_nil]
      exact ⟨.refl t, Or.inl (Nat.zero_le _)⟩
  | cons c path ih =>
      obtain ⟨hnul, hrest⟩ := clean_cons.1 hclean
      cases hchild : t.childNamed rnode c with
      | some n =>
          have hn := (h.lt_size rnode hr n (h.childNamed_some hr hnul hchild).1).2
          obtain ⟨hstored, hend⟩ := ih hn (some (some n)) hrest
          simp only [matched, hchild, List.drop_succ_cons]
          rw [nodeMountLoop_found allocs node path hchild]
          refine ⟨hstored, hend.imp_left fun hle => ?_⟩
          rw [List.length_cons, Nat.add_right_comm]
          exact Nat.succ_le_succ hle
      | none =>
          simp only [matched, hchild, List.drop_zero, Nat.zero_add]
          apply stored_of_missing hchild
          intro allocs
          apply stored_of_childless allocs _ (grown_child hr)
          rw [size_grown]
          exact Nat.lt_succ_self _

end Walk

section Mount

variable {F : Type*} {bytes : Option F → List UInt8} {t t' : NodeTree F} {kids : ℕ → List ℕ}
  {call : MountCall F}

/-- What a mount at a free path makes of its walk. -/
theorem nodeMount_free_cases {allocs : ℕ} {point : List UInt8} (op : F)
    (hfree : t.lookup 0 (nodeTokens point) = none) :
    let walk := t.nodeMountLoop allocs 0 none (nodeTokens point)
    let res := t.nodeMount allocs (some point) (some op)
    (∃ n, walk.2 = some (some n) ∧ res.node = some (some n) ∧ res.tree = walk.1.setFOp n op) ∨
      ((∀ n, walk.2 ≠ some (some n)) ∧ res.node = walk.2 ∧ res.tree = walk.1) := by
  rw [← nodeFind_fullPath] at hfree
  rw [nodeMount, hfree, Option.isSome_none, if_neg Bool.false_ne_true]
  rcases t.nodeMountLoop allocs 0 none (nodeTokens point) with ⟨t', _ | _ | n⟩
  · exact Or.inr ⟨fun n h => (by cases h), rfl, rfl⟩
  · exact Or.inr ⟨fun n h => (by cases h), rfl, rfl⟩
  · exact Or.inl ⟨n, rfl, rfl, rfl⟩

theorem setFOp_name (t : NodeTree F) (n : ℕ) (op : F) (i : ℕ) :
    ((t.setFOp n op).node i).name = (t.node i).name := by
  obtain ⟨q, hq⟩ := setFOp_node t n op i
  rw [hq]

/-- A call stores the components that it creates nodes for. -/
theorem TreeOf.stored_mount (h : t.TreeOf kids) (call : MountCall F) :
    Stored t (t.mount call).tree (t.created call) := by
  rcases t.mount_cases call with ⟨hnone, htree, -⟩ | ⟨allocs, point, op, rfl, hfree⟩
  · rw [hnone, htree]
    exact .refl t
  · obtain ⟨hstored, -⟩ :=
      h.stored_nodeMountLoop allocs h.size_pos none (clean_nodeTokens point)
    rcases nodeMount_free_cases op hfree with ⟨n, -, -, htree⟩ | ⟨-, -, htree⟩
    · rw [mount, htree]
      exact hstored.of_name rfl (setFOp_name _ n op)
    · rw [mount, htree]
      exact hstored

/-- A call that fits leaves what is found, and a node that it returns is found. -/
theorem TreeOf.lookup_mount (h : t.TreeOf kids)
    (hfit : ∀ c ∈ t.created call, c.length < nodeMaxNameLength) :
    (∀ q x, Clean q → t.lookup 0 q = some x → (t.mount call).tree.lookup 0 q = some x) ∧
      ∀ n, (t.mount call).node = some (some n) → ∀ point ∈ call.mountingPoint,
        (t.mount call).tree.lookup 0 (nodeTokens point) = some n := by
  rcases t.mount_cases call with ⟨-, htree, hnode⟩ | ⟨allocs, point, op, rfl, hfree⟩
  · rw [htree, hnode]
    exact ⟨fun _ _ _ hx => hx, nofun⟩
  · obtain ⟨-, hend⟩ := h.stored_nodeMountLoop allocs h.size_pos none (clean_nodeTokens point)
    obtain ⟨⟨kids', h', -⟩, hext, m, hm, hlast⟩ := h.nodeMountLoop_front allocs hfit
    have hne : nodeTokens point ≠ [] := by
      intro hnil
      rw [hnil] at hfree
      cases hfree
    rcases nodeMount_free_cases op hfree with ⟨n, hwalk, hnode, htree⟩ | ⟨hwalk, hnode, htree⟩
    · have hle := hend.resolve_right (by rw [hwalk]; exact nofun)
      rw [hlast hle hne] at hwalk
      rw [front, List.take_of_length_le hle] at hm
      rw [mount, htree, hnode]
      have hsame := fun (q : List (List UInt8)) (hq : Clean q) =>
        h'.lookup_sameShape (setFOp_sameShape _ n op) h'.size_pos hq
      refine ⟨fun q x hq hx => (hsame q hq).trans (hext.kept q x hq hx), ?_⟩
      rintro n' hn' p hp
      cases hp
      cases hn'
      cases hwalk
      exact (hsame _ (clean_nodeTokens point)).trans hm
    · rw [mount, htree, hnode]
      exact ⟨hext.kept, fun n hn => absurd hn (hwalk n)⟩

/-- The call stays in the arrays of the names. It stores a name for each component that it
creates a node for; the name ends in its array and is the component. -/
def StoresNames (bytes : Option F → List UInt8) (t : NodeTree F) (call : MountCall F) : Prop :=
  ∃ t', nodeMountStep bytes t call = some t' ∧
    t'.size = t.size + ((t.readOn bytes).created call).length ∧
    ∀ k (hk : k < ((t.readOn bytes).created call).length),
      0 ∈ (t'.node (t.size + k)).name ∧
        t'.nodeName (t.size + k) = ((t.readOn bytes).created call)[k]

/-- The components that a call creates nodes for have no zero byte. -/
theorem not_mem_of_mem_created {c : List UInt8} (hc : c ∈ t.created call) : 0 ∉ c := by
  obtain ⟨allocs, point, op⟩ := call
  cases point with
  | none => exact absurd hc List.not_mem_nil
  | some point =>
      cases op with
      | none => exact absurd hc List.not_mem_nil
      | some op =>
          exact clean_nodeTokens point c (List.mem_of_mem_drop (List.mem_of_mem_take hc))

/-- The array of a name that `node_create` stores, once more cut at its end. -/
theorem take_newNode (F : Type*) (c : List UInt8) :
    (newNode F c).name.take nodeMaxNameLength = (newNode F c).name := by
  rw [newNode, List.take_take, Nat.min_self]

/-- A call stores its names exactly when they are shorter than their arrays. -/
theorem IsTree.storesNames_iff (h : IsTree t) (bytes : Option F → List UInt8)
    (call : MountCall F) : StoresNames bytes t call ↔ Terminates bytes t call := by
  obtain ⟨kids, htree, hw⟩ := h
  have hstored := (htree.sameShape (hw.readOn_sameShape bytes)).stored_mount call
  have hfits : ∀ k (hk : k < ((t.readOn bytes).created call).length),
      0 ∈ ((((t.readOn bytes).mount call).tree.cut).node (t.size + k)).name ∧
          (((t.readOn bytes).mount call).tree.cut).nodeName (t.size + k) =
            ((t.readOn bytes).created call)[k] ↔
        ((t.readOn bytes).created call)[k].length < nodeMaxNameLength := by
    intro k hk
    have hname : ((((t.readOn bytes).mount call).tree.cut).node (t.size + k)).name =
        (newNode F ((t.readOn bytes).created call)[k]).name := by
      rw [← take_newNode, ← hstored.new k hk]
      rfl
    rw [nodeName, hname]
    exact newNode_fits_iff F (not_mem_of_mem_created (List.getElem_mem hk))
  constructor
  · rintro ⟨t', hstep, -, hnames⟩ c hc
    obtain ⟨k, hk, rfl⟩ := List.getElem_of_mem hc
    have hlen := hnames k hk
    rw [nodeMountStep] at hstep
    split at hstep
    · cases hstep
      exact (hfits k hk).1 hlen
    · cases hstep
  · intro hfit
    exact ⟨_, if_pos fun c hc => Nat.le_of_lt (hfit c hc), hstored.size_eq,
      fun k hk => (hfits k hk).2 (hfit _ (List.getElem_mem hk))⟩

/-- A call that fits leaves what is found, and a node that it returns is found. -/
theorem IsTree.lookup_step (h : IsTree t) (hfit : Terminates bytes t call)
    (hs : nodeMountStep bytes t call = some t') :
    (∀ q x, Clean q → t.lookup 0 q = some x → t'.lookup 0 q = some x) ∧
      ∀ n, ((t.readOn bytes).mount call).node = some (some n) → ∀ point ∈ call.mountingPoint,
        t'.lookup 0 (nodeTokens point) = some n := by
  obtain ⟨kids, htree, hw⟩ := h
  have hread := htree.sameShape (hw.readOn_sameShape bytes)
  obtain ⟨kids', htree', hw'⟩ := hread.mount_whole (hw.readOn bytes) hfit
  obtain ⟨hkept, hfound⟩ := hread.lookup_mount hfit
  rw [nodeMountStep, if_pos fun c hc => Nat.le_of_lt (hfit c hc)] at hs
  cases hs
  have hcut := fun (q : List (List UInt8)) (hq : Clean q) =>
    htree'.lookup_sameShape hw'.cut_sameShape htree'.size_pos hq
  constructor
  · intro q x hq hx
    rw [← htree.lookup_sameShape (hw.readOn_sameShape bytes) htree.size_pos hq] at hx
    exact (hcut q hq).trans (hkept q x hq hx)
  · intro n hn point hpoint
    exact (hcut _ (clean_nodeTokens point)).trans (hfound n hn point hpoint)

/-- What is found is found after any further calls that fit. -/
theorem IsTree.lookup_run (h : IsTree t) {calls : List (MountCall F)}
    (hfit : Along (Terminates bytes) (nodeMountStep bytes) t calls)
    (hrun : run (nodeMountStep bytes) t calls = some t') {q : List (List UInt8)} {x : ℕ}
    (hq : Clean q) (hx : t.lookup 0 q = some x) : IsTree t' ∧ t'.lookup 0 q = some x := by
  have hstep : ∀ s call s', IsTree s ∧ s.lookup 0 q = some x → Terminates bytes s call →
      nodeMountStep bytes s call = some s' → IsTree s' ∧ s'.lookup 0 q = some x := by
    rintro s call s' ⟨hs, hlookup⟩ hcall hnext
    obtain ⟨s'', hs'', htree⟩ := hs.step hcall
    obtain rfl := Option.some.inj (hnext.symm.trans hs'')
    exact ⟨htree, (hs.lookup_step hcall hnext).1 q x hq hlookup⟩
  exact Along.invariant hstep hfit ⟨h, hx⟩ hrun

/-- A node that a call returns is what `node_find` finds for the mounting point, after any
further calls that fit. -/
theorem IsTree.nodeFind_run (h : IsTree t) {calls : List (MountCall F)}
    (hfit : Along (Terminates bytes) (nodeMountStep bytes) t (call :: calls))
    (hrun : run (nodeMountStep bytes) t (call :: calls) = some t') {n : ℕ}
    (hn : ((t.readOn bytes).mount call).node = some (some n)) {point : List UInt8}
    (hpoint : point ∈ call.mountingPoint) :
    (t'.readOn bytes).nodeFind (some point) .fullPath = (some n, .ok) := by
  obtain ⟨t₁, hfirst, hrest⟩ := run_cons_eq_some.1 hrun
  obtain ⟨hcall, hcalls⟩ := along_cons.1 hfit
  obtain ⟨t₂, hsecond, htree⟩ := h.step hcall
  obtain rfl := Option.some.inj (hfirst.symm.trans hsecond)
  have hfound := (h.lookup_step hcall hfirst).2 n hn point hpoint
  have hclean := clean_nodeTokens point
  obtain ⟨⟨kids, htree', hw'⟩, hlookup⟩ :=
    htree.lookup_run (hcalls _ hfirst) hrest hclean hfound
  apply nodeFind_eq_some
  rw [htree'.lookup_sameShape (hw'.readOn_sameShape bytes) htree'.size_pos hclean, hlookup]

end Mount

section FOps

variable {F : Type*} {P : F → Prop} {t t' : NodeTree F}

/-- The file operations of all nodes have a property. -/
def AllFOp (t : NodeTree F) (P : F → Prop) : Prop := ∀ n op, (t.node n).fOp = some op → P op

theorem AllFOp.modify (h : t.AllFOp P) (j : ℕ) {f : Node F → Node F}
    (hf : ∀ node, (f node).fOp = node.fOp) : (t.modify j f).AllFOp P := by
  intro n op hop
  by_cases hnj : n = j
  · rw [hnj, modify_node_self, hf] at hop
    exact h j op hop
  · rw [modify_node_of_ne t f hnj] at hop
    exact h n op hop

theorem AllFOp.grown (h : t.AllFOp P) (c : List UInt8) (rnode : ℕ) :
    (t.grown c rnode).AllFOp P := by
  have hcreated : (t.nodeCreate c).1.AllFOp P := by
    intro n op hop
    by_cases hn : n = t.size
    · rw [hn, nodeCreate_node_self] at hop
      cases hop
    · rw [nodeCreate_node_of_ne t c hn] at hop
      exact h n op hop
  rw [NodeTree.grown, nodeAddChild]
  split
  · apply AllFOp.modify
    · apply hcreated.modify
      exact fun _ => rfl
    · exact fun _ => rfl
  · rw [nodeAddSibling]
    apply AllFOp.modify
    · apply hcreated.modify
      exact fun _ => rfl
    · exact fun _ => rfl

theorem AllFOp.nodeMountLoop (h : t.AllFOp P) (allocs rnode : ℕ) (node : Option (Option ℕ))
    (path : List (List UInt8)) : (t.nodeMountLoop allocs rnode node path).1.AllFOp P := by
  induction path generalizing t allocs rnode node with
  | nil => exact h
  | cons c path ih =>
      cases hchild : t.childNamed rnode c with
      | some n =>
          rw [nodeMountLoop_found allocs node path hchild]
          exact ih h allocs n _
      | none =>
          cases allocs with
          | zero =>
              rw [nodeMountLoop_refused node path hchild]
              exact h
          | succ allocs =>
              rw [nodeMountLoop_create allocs node path hchild]
              exact ih (h.grown c rnode) allocs t.size _

/-- A mount adds no other file operations than its own. -/
theorem AllFOp.mount (h : t.AllFOp P) {call : MountCall F} (hop : ∀ op ∈ call.fOp, P op) :
    (t.mount call).tree.AllFOp P := by
  rcases t.mount_cases call with ⟨-, htree, -⟩ | ⟨allocs, point, op, rfl, hfree⟩
  · rw [htree]
    exact h
  · have hwalk := h.nodeMountLoop allocs 0 none (nodeTokens point)
    rcases nodeMount_free_cases op hfree with ⟨n, -, -, htree⟩ | ⟨-, -, htree⟩
    · rw [NodeTree.mount, htree]
      intro m op' hop'
      by_cases hmn : m = n
      · rw [hmn, setFOp, modify_node_self] at hop'
        exact Option.some.inj hop' ▸ hop op rfl
      · rw [setFOp, modify_node_of_ne _ _ hmn] at hop'
        exact hwalk m op' hop'
    · rw [NodeTree.mount, htree]
      exact hwalk

/-- The tree after mounts. -/
def mountAll (t : NodeTree F) (calls : List (MountCall F)) : NodeTree F :=
  calls.foldl (fun t call => (t.mount call).tree) t

/-- Mounts whose names fit keep the tree. -/
theorem TreeOf.mountAll (h : ∃ kids, t.TreeOf kids) {calls : List (MountCall F)}
    (hfit : ∀ call ∈ calls, ∀ path ∈ call.mountingPoint, NamesFit path) :
    ∃ kids, (t.mountAll calls).TreeOf kids := by
  induction calls generalizing t with
  | nil => exact h
  | cons call calls ih =>
      obtain ⟨kids, htree⟩ := h
      obtain ⟨hcall, hcalls⟩ := List.forall_mem_cons.1 hfit
      exact ih (htree.nodeMount hcall) hcalls

theorem AllFOp.mountAll (h : t.AllFOp P) {calls : List (MountCall F)}
    (hcalls : ∀ call ∈ calls, ∀ op ∈ call.fOp, P op) : (t.mountAll calls).AllFOp P := by
  induction calls generalizing t with
  | nil => exact h
  | cons call calls ih =>
      exact ih (h.mount (hcalls call List.mem_cons_self)) fun c hc =>
        hcalls c (List.mem_cons_of_mem call hc)

end FOps

end NodeTree

end Catpilot
