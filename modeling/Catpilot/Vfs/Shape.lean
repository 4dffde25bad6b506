import Catpilot.Transition.Run
import Catpilot.Vfs.Atomic
import Catpilot.Vfs.Grammar

/-!
# The shape of the tree in every run

A node is read as bytes here: `strlen` and `strncmp` go on behind the array of the name,
into the member `f_op`. `node_create` copies a component with `strncpy` and the length of
the component as its bound, so that a component of 64 bytes fills the array and leaves no
room for the end. As long as the components that nodes are created for are shorter, the
memory is a tree after every sequence of mounts.
-/

namespace Catpilot

open CString LinkedList RootedTree Transition

namespace NodeTree

section WellFormed

variable {F : Type*} {t : NodeTree F} {kids : ℕ → List ℕ}

/-- `i` points to `j`, as to its first child or to its next sibling. -/
def Link (t : NodeTree F) (i j : ℕ) : Prop :=
  i < t.size ∧ ((t.node i).child = some j ∨ t.sibling i = some j)

/-- The memory is a tree with these lists of children. The number of a node says how many
there were before it. -/
structure WellFormed (t : NodeTree F) (kids : ℕ → List ℕ) : Prop where
  children : ∀ x < t.size, Chain t.sibling (t.node x).child (kids x)
  acyclic : ∀ i, ¬ Relation.TransGen t.Link i i
  distinct : ∀ x < t.size, (kids x).Pairwise fun i j => t.nodeName i ≠ t.nodeName j
  path : ∀ j < t.size, ∃! p, Path (t.Child kids) 0 p j
  parent : ∀ x < t.size, ∀ j ∈ kids x, j < t.size ∧ (t.node j).parent = some x
  order : ∀ x < t.size, (kids x).Pairwise (· < ·)

/-- Pointers lead to nodes that were created later. -/
theorem TreeOf.lt_of_link (h : t.TreeOf kids) (hw : t.Whole kids) {i j : ℕ} (hl : t.Link i j) :
    i < j := by
  obtain ⟨hi, hchild | hsibling⟩ := hl
  · exact (h.lt_size i hi j (h.mem_of_child hi hchild)).1
  · by_cases hroot : i = 0
    · rw [hroot, hw.root_sibling] at hsibling
      cases hsibling
    · obtain ⟨x, hx, hmem⟩ := hw.covered i hi hroot
      exact (h.chain x hx).rel_of_next (h.sorted x hx) hmem hsibling

theorem TreeOf.acyclic (h : t.TreeOf kids) (hw : t.Whole kids) (i : ℕ) :
    ¬ Relation.TransGen t.Link i i := by
  intro hcycle
  have hlt : ∀ j, Relation.TransGen t.Link i j → i < j := by
    intro j hj
    induction hj with
    | single hl => exact h.lt_of_link hw hl
    | tail _ hl ih => exact Nat.lt_trans ih (h.lt_of_link hw hl)
  exact absurd (hlt i hcycle) (Nat.lt_irrefl i)

/-- Every node has one path from the root. -/
theorem TreeOf.existsUnique_path (h : t.TreeOf kids) (hw : t.Whole kids) {j : ℕ}
    (hj : j < t.size) : ∃! p, Path (t.Child kids) 0 p j := by
  have hwf : WellFounded (t.Child kids) :=
    Subrelation.wf (fun {x y} hc => (h.lt_size x hc.1 y hc.2).1) Nat.lt_wfRel.wf
  have hcover : ∀ x ∈ {x | x < t.size}, x ≠ 0 → ∃ y ∈ {x | x < t.size}, t.Child kids y x := by
    intro x hx hne
    obtain ⟨y, hy, hmem⟩ := hw.covered x hx hne
    exact ⟨y, hy, hy, hmem⟩
  obtain ⟨p, hp⟩ := exists_path hwf hcover hj
  exact ⟨p, hp, fun q hq => h.path_unique hq hp⟩

theorem TreeOf.wellFormed (h : t.TreeOf kids) (hw : t.Whole kids) : t.WellFormed kids where
  children := h.chain
  acyclic := h.acyclic hw
  distinct := h.distinct
  path := fun _ hj => h.existsUnique_path hw hj
  parent := fun x hx j hj => ⟨(h.lt_size x hx j hj).2, h.parent x hx j hj⟩
  order := h.sorted

end WellFormed

section Bytes

variable {F : Type*} {bytes : Option F → List UInt8} {t : NodeTree F} {kids : ℕ → List ℕ}

/-- The nodes as the string functions read them: behind the array of a name are the bytes
of `f_op`. -/
def readOn (bytes : Option F → List UInt8) (t : NodeTree F) : NodeTree F :=
  { t with node := fun i => { t.node i with name := (t.node i).name ++ bytes (t.node i).fOp } }

/-- The nodes with their names as they are in the arrays. -/
def cut (t : NodeTree F) : NodeTree F :=
  { t with node := fun i => { t.node i with name := (t.node i).name.take nodeMaxNameLength } }

/-- A call of `node_mount`. The names do not change while it runs, and `f_op` only at its
end; in a node that it creates `f_op` is zero until then. What `strncpy` writes of a component
longer than the array lands in the members behind it; what the node is then is left open. -/
def nodeMountStep (bytes : Option F → List UInt8) (t : NodeTree F) (call : MountCall F) :
    Option (NodeTree F) :=
  if ∀ c ∈ (t.readOn bytes).created call, c.length ≤ nodeMaxNameLength then
    some ((t.readOn bytes).mount call).tree.cut
  else none

/-- The components that the call creates nodes for leave room for the end of a string. -/
def Terminates (bytes : Option F → List UInt8) (t : NodeTree F) (call : MountCall F) : Prop :=
  ∀ c ∈ (t.readOn bytes).created call, c.length < nodeMaxNameLength

instance (bytes : Option F → List UInt8) (t : NodeTree F) (call : MountCall F) :
    Decidable (Terminates bytes t call) :=
  inferInstanceAs (Decidable (∀ c ∈ (t.readOn bytes).created call, c.length < nodeMaxNameLength))

/-- Names that end in their arrays are read as far as that. -/
theorem Whole.readOn_sameShape (hw : t.Whole kids) (bytes : Option F → List UInt8) :
    SameShape t (t.readOn bytes) where
  size_eq := rfl
  child_eq := fun _ => rfl
  sibling_eq := rfl
  parent_eq := fun _ => rfl
  nodeName_eq := fun i hi => cstr_append_of_mem (List.mem_of_mem_take (hw.terminated i hi)) _

theorem Whole.readOn (hw : t.Whole kids) (bytes : Option F → List UInt8) :
    (t.readOn bytes).Whole kids where
  root_sibling := hw.root_sibling
  covered := hw.covered
  terminated := by
    intro i hi
    have hpre : (t.node i).name.take nodeMaxNameLength <+:
        ((t.node i).name ++ bytes (t.node i).fOp).take nodeMaxNameLength :=
      List.prefix_take_iff.2 ⟨(List.take_prefix _ _).trans (List.prefix_append _ _),
        List.length_take_le _ _⟩
    exact hpre.subset (hw.terminated i hi)

theorem Whole.cut_sameShape (hw : t.Whole kids) : SameShape t t.cut where
  size_eq := rfl
  child_eq := fun _ => rfl
  sibling_eq := rfl
  parent_eq := fun _ => rfl
  nodeName_eq := by
    intro i hi
    have hall := cstr_append_of_mem (hw.terminated i hi) ((t.node i).name.drop nodeMaxNameLength)
    rw [List.take_append_drop] at hall
    exact hall.symm

theorem Whole.cut (hw : t.Whole kids) : t.cut.Whole kids where
  root_sibling := hw.root_sibling
  covered := hw.covered
  terminated := by
    intro i hi
    rw [NodeTree.cut, List.take_take, Nat.min_self]
    exact hw.terminated i hi

theorem Whole.setFOp (hw : t.Whole kids) (n : ℕ) (op : F) : (t.setFOp n op).Whole kids where
  root_sibling := by
    rw [(setFOp_sameShape t n op).sibling_eq]
    exact hw.root_sibling
  covered := hw.covered
  terminated := by
    intro i hi
    obtain ⟨q, hq⟩ := setFOp_node t n op i
    rw [hq]
    exact hw.terminated i hi

/-- What a state of a run is: a tree whose names end in their arrays. -/
def IsTree (t : NodeTree F) : Prop := ∃ kids, t.TreeOf kids ∧ t.Whole kids

/-- A mount that creates nodes for components that fit keeps the tree. -/
theorem TreeOf.mount_whole (h : t.TreeOf kids) (hw : t.Whole kids) {call : MountCall F}
    (hfit : ∀ c ∈ t.created call, c.length < nodeMaxNameLength) :
    ∃ kids', (t.mount call).tree.TreeOf kids' ∧ (t.mount call).tree.Whole kids' := by
  rcases t.mount_cases call with ⟨-, htree, -⟩ | ⟨allocs, point, op, rfl, hfree⟩
  · rw [htree]
    exact ⟨kids, h, hw⟩
  · obtain ⟨⟨kids', h', hw'⟩, -⟩ := h.nodeMountLoop_front allocs hfit
    rcases t.nodeMount_tree_cases allocs (some point) (some op) with
      hsame | ⟨p, hp, hsame | ⟨n, f, hset⟩⟩
    · rw [mount, hsame]
      exact ⟨kids, h, hw⟩
    · cases hp
      rw [mount, hsame]
      exact ⟨kids', h', hw' hw⟩
    · cases hp
      rw [mount, hset]
      exact ⟨kids', h'.setFOp n f, (hw' hw).setFOp n f⟩

theorem IsTree.step (h : IsTree t) {call : MountCall F} (hfit : Terminates bytes t call) :
    ∃ t', nodeMountStep bytes t call = some t' ∧ IsTree t' := by
  obtain ⟨kids, htree, hw⟩ := h
  have hread := htree.sameShape (hw.readOn_sameShape bytes)
  obtain ⟨kids', htree', hw'⟩ := hread.mount_whole (hw.readOn bytes) hfit
  refine ⟨_, if_pos fun c hc => Nat.le_of_lt (hfit c hc), kids', ?_, hw'.cut⟩
  exact htree'.sameShape hw'.cut_sameShape

/-- Every state that mounts whose new components fit lead to. -/
theorem isTree_run {calls : List (MountCall F)}
    (hfit : Along (Terminates bytes) (nodeMountStep bytes) (init F) calls) :
    ∃ t, run (nodeMountStep bytes) (init F) calls = some t ∧ IsTree t :=
  Along.total (fun _ _ h hok => IsTree.step h hok) ⟨_, treeOf_init F, whole_init F⟩ hfit

/-- Mounts whose new components fit lead to trees, however many there are. -/
theorem wellFormed_run (bytes : Option F → List UInt8) {calls : List (MountCall F)}
    (hfit : Along (Terminates bytes) (nodeMountStep bytes) (init F) calls) :
    ∀ before, before <+: calls → ∃ t, run (nodeMountStep bytes) (init F) before = some t ∧
      ∃ kids, (t.readOn bytes).WellFormed kids := by
  rintro before ⟨after, rfl⟩
  obtain ⟨t, hrun, kids, htree, hw⟩ := isTree_run (along_append.1 hfit).1
  have hread := htree.sameShape (hw.readOn_sameShape bytes)
  exact ⟨t, hrun, kids, hread.wellFormed (hw.readOn bytes)⟩

/-- The bytes of a pointer. -/
def pointerBytes (p : UInt32) : List UInt8 :=
  [p.toUInt8, (p >>> 8).toUInt8, (p >>> 16).toUInt8, (p >>> 24).toUInt8]

/-- The bytes of `struct file_operations`: ten functions and a device. -/
def fileOperationsBytes : Option (Fin 11 → UInt32) → List UInt8
  | none => List.replicate 44 0
  | some pointers => (List.ofFn pointers).flatMap pointerBytes

/-- `/dev/a`, and behind it `/dev/b`. -/
theorem wellFormed_run_dev :
    let calls : List (MountCall (Fin 11 → UInt32)) :=
      [⟨2, some [0x2F, 0x64, 0x65, 0x76, 0x2F, 0x61], some fun _ => 0x08001235⟩,
        ⟨1, some [0x2F, 0x64, 0x65, 0x76, 0x2F, 0x62], some fun _ => 0x08001235⟩]
    ∀ before, before <+: calls →
      ∃ t, run (nodeMountStep fileOperationsBytes) (init (Fin 11 → UInt32)) before = some t ∧
        ∃ kids, (t.readOn fileOperationsBytes).WellFormed kids := by
  apply wellFormed_run
  decide

/-- In these states `node_find` does not look behind a name: it answers as on the tree of
the names alone. -/
theorem nodeFind_readOn_run {calls : List (MountCall F)}
    (hfit : Along (Terminates bytes) (nodeMountStep bytes) (init F) calls) {t : NodeTree F}
    (hrun : run (nodeMountStep bytes) (init F) calls = some t) (path : Option (List UInt8))
    (mode : NodeMode) : (t.readOn bytes).nodeFind path mode = t.nodeFind path mode := by
  obtain ⟨t', hrun', kids, htree, hw⟩ := isTree_run hfit
  obtain rfl := Option.some.inj (hrun.symm.trans hrun')
  exact htree.nodeFind_sameShape (hw.readOn_sameShape bytes) path mode

end Bytes

section Unterminated

/-- The first two children of a node have different names. -/
theorem WellFormed.nodeName_ne {F : Type*} {t : NodeTree F} {kids : ℕ → List ℕ}
    (hw : t.WellFormed kids) {x i j : ℕ} (hx : x < t.size) (hi : (t.node x).child = some i)
    (hj : t.sibling i = some j) : t.nodeName i ≠ t.nodeName j := by
  have hchain := hw.children x hx
  rw [hi] at hchain
  obtain ⟨l, hl, hrest⟩ := chain_some hchain
  rw [hj] at hrest
  obtain ⟨l', rfl, -⟩ := chain_some hrest
  have hdistinct := hw.distinct x hx
  rw [hl] at hdistinct
  exact (List.pairwise_cons.1 hdistinct).1 j List.mem_cons_self

/-- A mount at a path whose component is 64 times the letter `a`. -/
def mountLong : MountCall (Fin 11 → UInt32) :=
  ⟨1, some (slash :: List.replicate 64 0x61), some fun _ => 0x08001235⟩

/-- Twice `/aaa…` with 64 letters: the second mount does not find the node of the first. -/
theorem not_wellFormed_long :
    ¬ ∀ t, run (nodeMountStep fileOperationsBytes) (init _) [mountLong, mountLong] = some t →
      ∃ kids, (t.readOn fileOperationsBytes).WellFormed kids := by
  intro hall
  obtain ⟨kids, hw⟩ := hall _ rfl
  have hne := hw.nodeName_ne (show 0 < 3 by decide) (i := 1) (j := 2) rfl rfl
  exact hne rfl

end Unterminated

end NodeTree

end Catpilot
