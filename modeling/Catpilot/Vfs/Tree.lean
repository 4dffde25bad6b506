import Catpilot.Vfs.Node
import Mathlib.Data.List.Perm.Subperm

/-!
# The shape of the node tree

`TreeOf t kids` says that the memory of `t` is a tree in which the node `x` has the
children `kids x`, in the order of their creation. Adding a child changes the list of
its parent and nothing else.
-/

namespace Catpilot

open CString LinkedList

namespace NodeTree

section Shape

variable {F : Type*} {t : NodeTree F} {kids : ℕ → List ℕ}

/-- The name in the array of a node. -/
def nodeName (t : NodeTree F) (i : ℕ) : List UInt8 := cstr (t.node i).name

/-- The memory is a tree with these lists of children. -/
structure TreeOf (t : NodeTree F) (kids : ℕ → List ℕ) : Prop where
  size_pos : 0 < t.size
  root_name : t.nodeName 0 = []
  chain : ∀ x < t.size, Chain t.sibling (t.node x).child (kids x)
  lt_size : ∀ x < t.size, ∀ j ∈ kids x, x < j ∧ j < t.size
  sorted : ∀ x < t.size, (kids x).Pairwise (· < ·)
  parent : ∀ x < t.size, ∀ j ∈ kids x, (t.node j).parent = some x
  distinct : ∀ x < t.size, (kids x).Pairwise fun i j => t.nodeName i ≠ t.nodeName j

theorem treeOf_init (F : Type*) : (init F).TreeOf fun _ => [] where
  size_pos := Nat.one_pos
  root_name := rfl
  chain := fun _ _ => .nil
  lt_size := fun _ _ _ h => absurd h List.not_mem_nil
  sorted := fun _ _ => .nil
  parent := fun _ _ _ h => absurd h List.not_mem_nil
  distinct := fun _ _ => .nil

/-- The lists of children hold all nodes but the root, and the names end in their arrays. -/
structure Whole (t : NodeTree F) (kids : ℕ → List ℕ) : Prop where
  root_sibling : t.sibling 0 = none
  covered : ∀ j < t.size, j ≠ 0 → ∃ x < t.size, j ∈ kids x
  terminated : ∀ i < t.size, 0 ∈ (t.node i).name.take nodeMaxNameLength

theorem whole_init (F : Type*) : (init F).Whole fun _ => [] where
  root_sibling := rfl
  covered := fun _ hj hne => absurd (Nat.lt_one_iff.1 hj) hne
  terminated := by
    intro i _
    rw [init, Node.zero, List.take_replicate]
    exact List.mem_replicate.2 ⟨by decide, rfl⟩

/-- Two memories with the same links and the same names. -/
structure SameShape (t t' : NodeTree F) : Prop where
  size_eq : t'.size = t.size
  child_eq : ∀ i, (t'.node i).child = (t.node i).child
  sibling_eq : t'.sibling = t.sibling
  parent_eq : ∀ i, (t'.node i).parent = (t.node i).parent
  nodeName_eq : ∀ i < t.size, t'.nodeName i = t.nodeName i

theorem TreeOf.sameShape {t' : NodeTree F} (h : t.TreeOf kids) (hs : SameShape t t') :
    t'.TreeOf kids := by
  constructor
  · rw [hs.size_eq]
    exact h.size_pos
  · rw [hs.nodeName_eq 0 h.size_pos, h.root_name]
  · intro x hx
    rw [hs.child_eq, hs.sibling_eq]
    exact h.chain x (hs.size_eq ▸ hx)
  · intro x hx
    rw [hs.size_eq] at hx ⊢
    exact h.lt_size x hx
  · exact fun x hx => h.sorted x (hs.size_eq ▸ hx)
  · intro x hx j hj
    rw [hs.parent_eq]
    exact h.parent x (hs.size_eq ▸ hx) j hj
  · intro x hx
    rw [hs.size_eq] at hx
    refine (h.distinct x hx).imp_of_mem fun {i j} hi hj hne => ?_
    rwa [hs.nodeName_eq i (h.lt_size x hx i hi).2, hs.nodeName_eq j (h.lt_size x hx j hj).2]

/-- A node is the child of at most one node. -/
theorem TreeOf.unique_parent (h : t.TreeOf kids) {x y j : ℕ} (hx : x < t.size) (hy : y < t.size)
    (hjx : j ∈ kids x) (hjy : j ∈ kids y) : x = y :=
  Option.some.inj ((h.parent x hx j hjx).symm.trans (h.parent y hy j hjy))

/-- A list of children is not longer than the memory. -/
theorem TreeOf.length_le (h : t.TreeOf kids) {x : ℕ} (hx : x < t.size) :
    (kids x).length ≤ t.size := by
  have hnodup : (kids x).Nodup := (h.sorted x hx).imp fun hlt => Nat.ne_of_lt hlt
  have hsub : kids x ⊆ List.range t.size :=
    fun j hj => List.mem_range.2 (h.lt_size x hx j hj).2
  have hle := (List.subperm_of_subset hnodup hsub).length_le
  rwa [List.length_range] at hle

/-- The first child of a node is in its list. -/
theorem TreeOf.mem_of_child (h : t.TreeOf kids) {x j : ℕ} (hx : x < t.size)
    (hchild : (t.node x).child = some j) : j ∈ kids x := by
  obtain ⟨l, hl, -⟩ := chain_some (hchild ▸ h.chain x hx)
  rw [hl]
  exact List.mem_cons_self

/-- `node_find_sibling` on the children of a node. -/
theorem TreeOf.nodeFindSibling_eq (h : t.TreeOf kids) {x : ℕ} (hx : x < t.size)
    (dirName : List UInt8) :
    t.nodeFindSibling (t.node x).child dirName = (kids x).find? (t.nameIs dirName) :=
  (h.chain x hx).find_eq (h.length_le hx)

/-- The comparison with a component compares the whole name. -/
theorem nameIs_iff {dirName : List UInt8} (hnul : 0 ∉ dirName) (i : ℕ) :
    t.nameIs dirName i = true ↔ t.nodeName i = dirName := by
  rw [nameIs, Bool.and_eq_true, decide_eq_true_eq, strncmpEq_length_iff hnul, nodeName]

end Shape

section AddChild

variable {F : Type*} {t t' : NodeTree F} {kids : ℕ → List ℕ} {r : ℕ} {name : List UInt8}

/-- `t'` is `t` with one more node, a child of `r` behind the others. -/
structure ChildAdded (t t' : NodeTree F) (kids : ℕ → List ℕ) (r : ℕ) (name : List UInt8) :
    Prop where
  size_eq : t'.size = t.size + 1
  name_eq : ∀ i < t.size, (t'.node i).name = (t.node i).name
  fOp_eq : ∀ i < t.size, (t'.node i).fOp = (t.node i).fOp
  parent_eq : ∀ i < t.size, (t'.node i).parent = (t.node i).parent
  child_eq : ∀ i < t.size, i ≠ r → (t'.node i).child = (t.node i).child
  sibling_eq : ∀ i < t.size, i ∉ kids r → t'.sibling i = t.sibling i
  chain_parent : Chain t'.sibling (t'.node r).child (kids r ++ [t.size])
  new_name : t'.nodeName t.size = name
  new_fOp : (t'.node t.size).fOp = none
  new_parent : (t'.node t.size).parent = some r
  new_child : (t'.node t.size).child = none

/-- The children after a child `n` is added to `r`. -/
def addKid (kids : ℕ → List ℕ) (r n : ℕ) : ℕ → List ℕ :=
  Function.update (Function.update kids r (kids r ++ [n])) n []

theorem addKid_new (kids : ℕ → List ℕ) (r n : ℕ) : addKid kids r n n = [] :=
  Function.update_self ..

theorem addKid_parent (kids : ℕ → List ℕ) {r n : ℕ} (h : r ≠ n) :
    addKid kids r n r = kids r ++ [n] := by
  rw [addKid, Function.update_of_ne h, Function.update_self]

theorem addKid_of_ne (kids : ℕ → List ℕ) {r n x : ℕ} (hr : x ≠ r) (hn : x ≠ n) :
    addKid kids r n x = kids x := by
  rw [addKid, Function.update_of_ne hn, Function.update_of_ne hr]

theorem modify_node_self (t : NodeTree F) (i : ℕ) (f : Node F → Node F) :
    (t.modify i f).node i = f (t.node i) := Function.update_self ..

theorem modify_node_of_ne (t : NodeTree F) {i j : ℕ} (f : Node F → Node F) (h : j ≠ i) :
    (t.modify i f).node j = t.node j := Function.update_of_ne h ..

theorem nodeCreate_node_of_ne (t : NodeTree F) (name : List UInt8) {i : ℕ} (h : i ≠ t.size) :
    (t.nodeCreate name).1.node i = t.node i := Function.update_of_ne h ..

/-- The array of a new node holds a component that fits. -/
theorem cstr_newNode (F : Type*) (hnul : 0 ∉ name) (hlen : name.length < nodeMaxNameLength) :
    cstr (newNode F name).name = name := by
  have hroom : name.length ≤ (Node.zero F).name.length := by
    rw [Node.zero, List.length_replicate]
    exact Nat.le_of_lt hlen
  rw [newNode, List.take_of_length_le]
  · exact cstr_strncpy_replicate hnul _
  · rw [length_strncpy hroom, Node.zero, List.length_replicate]

theorem nodeCreate_node_self (t : NodeTree F) (name : List UInt8) :
    (t.nodeCreate name).1.node t.size = newNode F name := Function.update_self ..

/-- A new child of `r` that the node `b` links to. -/
def linked (t : NodeTree F) (name : List UInt8) (r b : ℕ) (f : Node F → Node F) : NodeTree F :=
  ((t.nodeCreate name).1.modify b f).modify t.size fun node => { node with parent := some r }

section Linked

variable {b i : ℕ} {f : Node F → Node F}

theorem linked_node_of_ne (hi : i < t.size) (hib : i ≠ b) :
    (t.linked name r b f).node i = t.node i := by
  rw [linked, modify_node_of_ne _ _ (Nat.ne_of_lt hi), modify_node_of_ne _ _ hib,
    nodeCreate_node_of_ne t name (Nat.ne_of_lt hi)]

theorem linked_node_link (hb : b < t.size) : (t.linked name r b f).node b = f (t.node b) := by
  rw [linked, modify_node_of_ne _ _ (Nat.ne_of_lt hb), modify_node_self,
    nodeCreate_node_of_ne t name (Nat.ne_of_lt hb)]

theorem linked_node_new (hb : b < t.size) :
    (t.linked name r b f).node t.size = { newNode F name with parent := some r } := by
  rw [linked, modify_node_self, modify_node_of_ne _ _ (Nat.ne_of_lt hb).symm, nodeCreate_node_self]

/-- The node that links to the new one keeps what is not a link, and so all nodes do. -/
theorem linked_node_old (hb : b < t.size)
    (hf : ∀ node, (f node).name = node.name ∧ (f node).fOp = node.fOp ∧
      (f node).parent = node.parent) (hi : i < t.size) :
    ((t.linked name r b f).node i).name = (t.node i).name ∧
      ((t.linked name r b f).node i).fOp = (t.node i).fOp ∧
      ((t.linked name r b f).node i).parent = (t.node i).parent := by
  by_cases hib : i = b
  · rw [hib, linked_node_link hb]
    exact hf _
  · rw [linked_node_of_ne hi hib]
    exact ⟨rfl, rfl, rfl⟩

/-- A link to the new node makes it a child where the lists of children say so. -/
theorem childAdded_linked (hb : b < t.size) (hnul : 0 ∉ name)
    (hlen : name.length < nodeMaxNameLength)
    (hf : ∀ node, (f node).name = node.name ∧ (f node).fOp = node.fOp ∧
      (f node).parent = node.parent)
    (hchild : ∀ i < t.size, i ≠ r → ((t.linked name r b f).node i).child = (t.node i).child)
    (hsibling : ∀ i < t.size, i ∉ kids r → (t.linked name r b f).sibling i = t.sibling i)
    (hchain : Chain (t.linked name r b f).sibling ((t.linked name r b f).node r).child
      (kids r ++ [t.size])) : ChildAdded t (t.linked name r b f) kids r name where
  size_eq := rfl
  name_eq := fun _ hi => (linked_node_old hb hf hi).1
  fOp_eq := fun _ hi => (linked_node_old hb hf hi).2.1
  parent_eq := fun _ hi => (linked_node_old hb hf hi).2.2
  child_eq := hchild
  sibling_eq := hsibling
  chain_parent := hchain
  new_name := by
    rw [nodeName, linked_node_new hb]
    exact cstr_newNode F hnul hlen
  new_fOp := by rw [linked_node_new hb]; rfl
  new_parent := by rw [linked_node_new hb]
  new_child := by rw [linked_node_new hb]; rfl

end Linked

/-- The first child of a node. -/
theorem TreeOf.childAdded_of_none (h : t.TreeOf kids) (hr : r < t.size) (hnul : 0 ∉ name)
    (hlen : name.length < nodeMaxNameLength) (hchild : (t.node r).child = none) :
    ChildAdded t ((t.nodeCreate name).1.nodeAddChild r t.size) kids r name := by
  have hrn : r ≠ t.size := Nat.ne_of_lt hr
  have hkids : kids r = [] := chain_none (hchild ▸ h.chain r hr)
  have hcreated : ((t.nodeCreate name).1.node r).child = none := by
    rw [nodeCreate_node_of_ne t name hrn, hchild]
  have hadd : (t.nodeCreate name).1.nodeAddChild r t.size =
      t.linked name r r fun node => { node with child := some t.size } := by
    rw [nodeAddChild, hcreated, linked]
  rw [hadd]
  refine childAdded_linked hr hnul hlen ?_ ?_ ?_ ?_
  · exact fun _ => ⟨rfl, rfl, rfl⟩
  · intro i hi hir
    rw [linked_node_of_ne hi hir]
  · intro i hi _
    rw [sibling, sibling]
    by_cases hir : i = r
    · rw [hir, linked_node_link hr]
    · rw [linked_node_of_ne hi hir]
  · rw [linked_node_link hr, hkids]
    apply Chain.cons
    rw [sibling, linked_node_new hr]
    exact .nil

/-- A further child of a node is linked to the last one so far. -/
theorem TreeOf.childAdded_of_some (h : t.TreeOf kids) (hr : r < t.size) (hnul : 0 ∉ name)
    (hlen : name.length < nodeMaxNameLength) {first : ℕ} (hchild : (t.node r).child = some first) :
    ChildAdded t ((t.nodeCreate name).1.nodeAddChild r t.size) kids r name := by
  have hrn : r ≠ t.size := Nat.ne_of_lt hr
  have hchain := h.chain r hr
  have hne : kids r ≠ [] := by
    rw [Ne, hchain.eq_nil_iff, hchild]
    exact nofun
  obtain ⟨front, b, hkids⟩ : ∃ front b, kids r = front ++ [b] :=
    ⟨_, _, (List.dropLast_append_getLast hne).symm⟩
  have hbmem : b ∈ kids r := by
    rw [hkids]
    exact List.mem_append_right front (List.mem_singleton_self b)
  have hb : b < t.size := (h.lt_size r hr b hbmem).2
  have hcreated : ((t.nodeCreate name).1.node r).child = some first := by
    rw [nodeCreate_node_of_ne t name hrn, hchild]
  have hsame : ∀ j ∈ kids r, (t.nodeCreate name).1.sibling j = t.sibling j := by
    intro j hj
    rw [sibling, sibling, nodeCreate_node_of_ne t name (Nat.ne_of_lt (h.lt_size r hr j hj).2)]
  have hlast :
      LinkedList.last (t.nodeCreate name).1.sibling (t.nodeCreate name).1.size first = b := by
    have hchain' := hchain.congr hsame
    rw [hchild, hkids] at hchain'
    refine hchain'.last_eq ?_
    have hle := h.length_le hr
    rw [hkids, List.length_append] at hle
    exact Nat.le_succ_of_le (Nat.le_of_add_right_le hle)
  have hadd : (t.nodeCreate name).1.nodeAddChild r t.size =
      t.linked name r b fun node => { node with sibling := some t.size } := by
    rw [nodeAddChild, hcreated, linked]
    simp only [nodeAddSibling, hlast, modify_node_self,
      nodeCreate_node_of_ne t name (Nat.ne_of_lt hb), h.parent r hr b hbmem]
  rw [hadd]
  refine childAdded_linked hb hnul hlen ?_ ?_ ?_ ?_
  · exact fun _ => ⟨rfl, rfl, rfl⟩
  · intro i hi _
    by_cases hib : i = b
    · rw [hib, linked_node_link hb]
    · rw [linked_node_of_ne hi hib]
  · intro i hi hik
    rw [sibling, sibling, linked_node_of_ne hi fun hib => hik (hib ▸ hbmem)]
  · have hfirst : ((t.linked name r b fun node => { node with sibling := some t.size }).node
        r).child = (t.node r).child := by
      by_cases hrb : r = b
      · rw [hrb, linked_node_link hb]
      · rw [linked_node_of_ne hr hrb]
    rw [hfirst, hkids, List.append_assoc]
    rw [hkids] at hchain
    refine hchain.append_singleton ?_ ?_ ?_
    · intro j hj
      have hlt := (List.pairwise_append.1 (hkids ▸ h.sorted r hr)).2.2 j hj b
        (List.mem_singleton_self b)
      rw [sibling, sibling, linked_node_of_ne (Nat.lt_trans hlt hb) (Nat.ne_of_lt hlt)]
    · rw [sibling, linked_node_link hb]
    · rw [sibling, linked_node_new hb]
      rfl

/-- `node_create` and `node_add_child` add a child. -/
theorem TreeOf.childAdded (h : t.TreeOf kids) (hr : r < t.size) (hnul : 0 ∉ name)
    (hlen : name.length < nodeMaxNameLength) :
    ChildAdded t ((t.nodeCreate name).1.nodeAddChild r t.size) kids r name := by
  cases hchild : (t.node r).child with
  | none => exact h.childAdded_of_none hr hnul hlen hchild
  | some first => exact h.childAdded_of_some hr hnul hlen hchild

theorem ChildAdded.nodeName_eq (ha : ChildAdded t t' kids r name) {i : ℕ} (hi : i < t.size) :
    t'.nodeName i = t.nodeName i := by
  rw [nodeName, nodeName, ha.name_eq i hi]

/-- The node with one child more, the new node, and the others. -/
theorem addKid_cases (kids : ℕ → List ℕ) {r n x : ℕ} (hr : r < n) (hx : x < n + 1) :
    (x = r ∧ addKid kids r n x = kids r ++ [n]) ∨ (x = n ∧ addKid kids r n x = []) ∨
      (x < n ∧ x ≠ r ∧ addKid kids r n x = kids x) := by
  by_cases hxr : x = r
  · exact Or.inl ⟨hxr, by rw [hxr, addKid_parent kids (Nat.ne_of_lt hr)]⟩
  by_cases hxn : x = n
  · exact Or.inr (Or.inl ⟨hxn, by rw [hxn, addKid_new]⟩)
  · exact Or.inr (Or.inr ⟨by omega, hxr, addKid_of_ne kids hxr hxn⟩)

theorem mem_addKid {r n x j : ℕ} (hr : r < n) (hx : x < n + 1) (hj : j ∈ addKid kids r n x) :
    (x = r ∧ j = n) ∨ (x < n ∧ j ∈ kids x) := by
  rcases addKid_cases kids hr hx with ⟨rfl, hk⟩ | ⟨-, hk⟩ | ⟨hlt, -, hk⟩
  · rw [hk] at hj
    rcases List.mem_append.1 hj with hold | hnew
    · exact Or.inr ⟨hr, hold⟩
    · exact Or.inl ⟨rfl, List.mem_singleton.1 hnew⟩
  · rw [hk] at hj
    exact absurd hj List.not_mem_nil
  · rw [hk] at hj
    exact Or.inr ⟨hlt, hj⟩

/-- What holds of any two children of a node in order, and of a child and the new one. -/
theorem pairwise_addKid {R : ℕ → ℕ → Prop} {r n x : ℕ} (hr : r < n) (hx : x < n + 1)
    (hold : ∀ y < n, (kids y).Pairwise R) (hnew : ∀ j ∈ kids r, R j n) :
    (addKid kids r n x).Pairwise R := by
  rcases addKid_cases kids hr hx with ⟨-, hk⟩ | ⟨-, hk⟩ | ⟨hlt, -, hk⟩
  · rw [hk, List.pairwise_append]
    refine ⟨hold r hr, List.pairwise_singleton _ _, fun j hj k hk' => ?_⟩
    rw [List.mem_singleton.1 hk']
    exact hnew j hj
  · rw [hk]
    exact .nil
  · rw [hk]
    exact hold x hlt

/-- The siblings of the new tree. -/
theorem TreeOf.chain_childAdded (h : t.TreeOf kids) (hr : r < t.size)
    (ha : ChildAdded t t' kids r name) {x : ℕ} (hx : x < t.size + 1) :
    Chain t'.sibling (t'.node x).child (addKid kids r t.size x) := by
  rcases addKid_cases kids hr hx with ⟨rfl, hk⟩ | ⟨rfl, hk⟩ | ⟨hlt, hxr, hk⟩
  · rw [hk]
    exact ha.chain_parent
  · rw [hk, ha.new_child]
    exact .nil
  · rw [hk, ha.child_eq x hlt hxr]
    refine (h.chain x hlt).congr fun j hj => ?_
    refine ha.sibling_eq j (h.lt_size x hlt j hj).2 ?_
    exact fun hjr => hxr (h.unique_parent hlt hr hj hjr)

/-- A tree with a child added is a tree. -/
theorem TreeOf.of_childAdded (h : t.TreeOf kids) (hr : r < t.size)
    (hnew : ∀ j ∈ kids r, t.nodeName j ≠ name) (ha : ChildAdded t t' kids r name) :
    t'.TreeOf (addKid kids r t.size) := by
  constructor
  · rw [ha.size_eq]
    exact Nat.succ_pos _
  · rw [ha.nodeName_eq h.size_pos, h.root_name]
  · intro x hx
    rw [ha.size_eq] at hx
    exact h.chain_childAdded hr ha hx
  · intro x hx j hj
    rw [ha.size_eq] at hx ⊢
    rcases mem_addKid hr hx hj with ⟨rfl, rfl⟩ | ⟨hlt, hold⟩
    · exact ⟨hr, Nat.lt_succ_self _⟩
    · obtain ⟨hxj, hj'⟩ := h.lt_size x hlt j hold
      exact ⟨hxj, Nat.lt_succ_of_lt hj'⟩
  · intro x hx
    rw [ha.size_eq] at hx
    exact pairwise_addKid hr hx h.sorted fun j hj => (h.lt_size r hr j hj).2
  · intro x hx j hj
    rw [ha.size_eq] at hx
    rcases mem_addKid hr hx hj with ⟨rfl, rfl⟩ | ⟨hlt, hold⟩
    · exact ha.new_parent
    · rw [ha.parent_eq j (h.lt_size x hlt j hold).2, h.parent x hlt j hold]
  · intro x hx
    rw [ha.size_eq] at hx
    refine pairwise_addKid hr hx (fun y hy => ?_) fun j hj => ?_
    · -- names of children that were there are those of before
      refine (h.distinct y hy).imp_of_mem fun {i j} hi hj hne => ?_
      rw [ha.nodeName_eq (h.lt_size y hy i hi).2, ha.nodeName_eq (h.lt_size y hy j hj).2]
      exact hne
    · rw [ha.new_name, ha.nodeName_eq (h.lt_size r hr j hj).2]
      exact hnew j hj

theorem modify_name (t : NodeTree F) (j : ℕ) {f : Node F → Node F}
    (hf : ∀ node, (f node).name = node.name) (i : ℕ) :
    ((t.modify j f).node i).name = (t.node i).name := by
  by_cases hij : i = j
  · rw [hij, modify_node_self, hf]
  · rw [modify_node_of_ne t f hij]

/-- Linking a node does not touch the names. -/
theorem nodeAddChild_name (t : NodeTree F) (parent child i : ℕ) :
    ((t.nodeAddChild parent child).node i).name = (t.node i).name := by
  rw [nodeAddChild]
  split
  · rw [modify_name, modify_name]
    · exact fun _ => rfl
    · exact fun _ => rfl
  · rw [nodeAddSibling, modify_name, modify_name]
    · exact fun _ => rfl
    · exact fun _ => rfl

/-- A name that fits leaves room for its end. -/
theorem zero_mem_newNode (F : Type*) (hnul : 0 ∉ name) (hlen : name.length < nodeMaxNameLength) :
    0 ∈ (newNode F name).name.take nodeMaxNameLength := by
  have hroom : name.length ≤ (Node.zero F).name.length := by
    rw [Node.zero, List.length_replicate]
    exact Nat.le_of_lt hlen
  have hsize : (newNode F name).name.length = nodeMaxNameLength := by
    rw [newNode, List.length_take, length_strncpy hroom, Node.zero, List.length_replicate,
      Nat.min_self]
  rw [List.take_of_length_le (Nat.le_of_eq hsize)]
  by_contra hno
  have hall := cstr_of_not_mem hno
  rw [cstr_newNode F hnul hlen] at hall
  exact absurd (hall ▸ hsize) (Nat.ne_of_lt hlen)

/-- The new node is in the list of its parent. -/
theorem TreeOf.whole_childAdded (h : t.TreeOf kids) (hr : r < t.size) (hw : t.Whole kids)
    (hnul : 0 ∉ name) (hlen : name.length < nodeMaxNameLength) :
    ((t.nodeCreate name).1.nodeAddChild r t.size).Whole (addKid kids r t.size) := by
  have ha := h.childAdded hr hnul hlen
  constructor
  · rw [ha.sibling_eq 0 h.size_pos, hw.root_sibling]
    exact fun hmem => absurd (h.lt_size r hr 0 hmem).1 (Nat.not_lt_zero r)
  · intro j hj hne
    rw [ha.size_eq] at hj ⊢
    by_cases hjn : j = t.size
    · refine ⟨r, Nat.lt_succ_of_lt hr, ?_⟩
      rw [hjn, addKid_parent kids (Nat.ne_of_lt hr)]
      exact List.mem_append_right _ (List.mem_singleton_self _)
    · obtain ⟨x, hx, hmem⟩ := hw.covered j (by omega) hne
      refine ⟨x, Nat.lt_succ_of_lt hx, ?_⟩
      rcases addKid_cases kids hr (Nat.lt_succ_of_lt hx) with ⟨rfl, hk⟩ | ⟨rfl, -⟩ | ⟨-, -, hk⟩
      · rw [hk]
        exact List.mem_append_left _ hmem
      · exact absurd hx (Nat.lt_irrefl _)
      · rwa [hk]
  · intro i hi
    rw [ha.size_eq] at hi
    rw [nodeAddChild_name]
    by_cases hin : i = t.size
    · rw [hin, nodeCreate_node_self]
      exact zero_mem_newNode F hnul hlen
    · rw [nodeCreate_node_of_ne t name hin]
      exact hw.terminated i (by omega)

end AddChild

end NodeTree

end Catpilot
