import Catpilot.Memory.RootedTree
import Catpilot.Vfs.Tree
import Mathlib.Data.List.Find
import Mathlib.Data.List.Induction
import Mathlib.Data.List.Pairwise

/-!
# The tree as a map from paths to nodes

`lookup` follows a list of components from a node on. In a tree a node has one path
from the root, so that adding a child changes this map at one path only.
-/

namespace Catpilot

open CString LinkedList RootedTree

/-- The components of a C string have no zero byte. -/
def Clean (path : List (List UInt8)) : Prop := ∀ c ∈ path, 0 ∉ c

theorem clean_append {p q : List (List UInt8)} : Clean (p ++ q) ↔ Clean p ∧ Clean q :=
  List.forall_mem_append

theorem Clean.take {p : List (List UInt8)} (h : Clean p) (k : ℕ) : Clean (p.take k) :=
  fun c hc => h c (List.mem_of_mem_take hc)

theorem clean_cons {c : List UInt8} {p : List (List UInt8)} :
    Clean (c :: p) ↔ 0 ∉ c ∧ Clean p := List.forall_mem_cons

namespace NodeTree

section Lookup

variable {F : Type*} {t t' : NodeTree F} {kids : ℕ → List ℕ} {r : ℕ} {name : List UInt8}

/-- The child of a node with a name. -/
def childNamed (t : NodeTree F) (x : ℕ) (c : List UInt8) : Option ℕ :=
  t.nodeFindSibling (t.node x).child c

/-- The node at the end of a path from the node `x`. -/
def lookup (t : NodeTree F) : ℕ → List (List UInt8) → Option ℕ
  | x, [] => some x
  | x, c :: path => (t.childNamed x c).bind fun y => lookup t y path

@[simp] theorem lookup_nil (t : NodeTree F) (x : ℕ) : t.lookup x [] = some x := rfl

theorem lookup_cons (t : NodeTree F) (x : ℕ) (c : List UInt8) (path : List (List UInt8)) :
    t.lookup x (c :: path) = (t.childNamed x c).bind fun y => t.lookup y path := rfl

theorem lookup_append (t : NodeTree F) (x : ℕ) (p q : List (List UInt8)) :
    t.lookup x (p ++ q) = (t.lookup x p).bind fun y => t.lookup y q := by
  induction p generalizing x with
  | nil => rfl
  | cons c p ih =>
      rw [List.cons_append, lookup_cons, lookup_cons]
      cases t.childNamed x c with
      | none => rfl
      | some y => exact ih y

theorem lookup_concat (t : NodeTree F) (x : ℕ) (p : List (List UInt8)) (c : List UInt8) :
    t.lookup x (p ++ [c]) = (t.lookup x p).bind fun y => t.childNamed y c := by
  rw [lookup_append]
  cases t.lookup x p with
  | none => rfl
  | some y => exact Option.bind_fun_some _

/-- `node_find` for the full path follows it. -/
theorem nodeFindLoop_fullPath (t : NodeTree F) (x : ℕ) (prev : Option ℕ)
    (path : List (List UInt8)) : t.nodeFindLoop .fullPath x prev path = t.lookup x path := by
  induction path generalizing x prev with
  | nil => rfl
  | cons c path ih =>
      rw [nodeFindLoop, lookup_cons, childNamed]
      cases t.nodeFindSibling (t.node x).child c with
      | none => rfl
      | some y => exact ih y (some y)

theorem nodeFind_fullPath (t : NodeTree F) (path : List UInt8) :
    (t.nodeFind (some path) .fullPath).1 = t.lookup 0 (nodeTokens path) := by
  rw [nodeFind, nodeFindLoop_fullPath]
  cases t.lookup 0 (nodeTokens path) with
  | none => rfl
  | some x => rfl

/-- A child that is found is one of the children, and has the name. -/
theorem TreeOf.childNamed_some (h : t.TreeOf kids) {x y : ℕ} (hx : x < t.size) {c : List UInt8}
    (hnul : 0 ∉ c) (hy : t.childNamed x c = some y) : y ∈ kids x ∧ t.nodeName y = c := by
  rw [childNamed, h.nodeFindSibling_eq hx] at hy
  exact ⟨List.mem_of_find?_eq_some hy, (nameIs_iff hnul y).1 (List.find?_some hy)⟩

theorem TreeOf.childNamed_none (h : t.TreeOf kids) {x : ℕ} (hx : x < t.size) {c : List UInt8}
    (hnul : 0 ∉ c) (hy : t.childNamed x c = none) : ∀ j ∈ kids x, t.nodeName j ≠ c := by
  rw [childNamed, h.nodeFindSibling_eq hx, List.find?_eq_none] at hy
  intro j hj hname
  exact hy j hj ((nameIs_iff hnul j).2 hname)

theorem TreeOf.lookup_lt (h : t.TreeOf kids) {x y : ℕ} (hx : x < t.size)
    {path : List (List UInt8)} (hclean : Clean path) (hy : t.lookup x path = some y) :
    y < t.size := by
  induction path generalizing x with
  | nil =>
      cases hy
      exact hx
  | cons c path ih =>
      obtain ⟨hnul, hrest⟩ := clean_cons.1 hclean
      obtain ⟨z, hz, hpath⟩ := Option.bind_eq_some_iff.1 hy
      exact ih (h.lt_size x hx z (h.childNamed_some hx hnul hz).1).2 hrest hpath

/-- Only links and names matter for the map. -/
theorem TreeOf.lookup_sameShape (h : t.TreeOf kids) (hs : SameShape t t') {x : ℕ}
    (hx : x < t.size) {path : List (List UInt8)} (hclean : Clean path) :
    t'.lookup x path = t.lookup x path := by
  induction path generalizing x with
  | nil => rfl
  | cons c path ih =>
      obtain ⟨hnul, hrest⟩ := clean_cons.1 hclean
      have hx' : x < t'.size := hs.size_eq ▸ hx
      have hsame : ∀ j ∈ kids x, t'.nameIs c j = t.nameIs c j := by
        intro j hj
        rw [Bool.eq_iff_iff, nameIs_iff hnul, nameIs_iff hnul,
          hs.nodeName_eq j (h.lt_size x hx j hj).2]
      have hchild : t'.childNamed x c = t.childNamed x c := by
        rw [childNamed, childNamed, (h.sameShape hs).nodeFindSibling_eq hx',
          h.nodeFindSibling_eq hx, List.find?_congr hsame]
      rw [lookup_cons, lookup_cons, hchild]
      cases hy : t.childNamed x c with
      | none => rfl
      | some y =>
          have hmem := (h.childNamed_some hx hnul hy).1
          exact ih (h.lt_size x hx y hmem).2 hrest

/-- `y` is a child of `x`. -/
def Child (t : NodeTree F) (kids : ℕ → List ℕ) (x y : ℕ) : Prop := x < t.size ∧ y ∈ kids x

/-- The components name a chain of nodes from the root down to `n`. -/
def Names (t : NodeTree F) (kids : ℕ → List ℕ) (path : List (List UInt8)) (n : ℕ) : Prop :=
  Named (t.Child kids) t.nodeName 0 path n

/-- Siblings with one name are one. -/
theorem TreeOf.eq_of_nodeName_eq (h : t.TreeOf kids) {x y z : ℕ} (hx : x < t.size)
    (hy : y ∈ kids x) (hz : z ∈ kids x) (hname : t.nodeName y = t.nodeName z) : y = z := by
  by_contra hne
  have : Std.Symm fun i j => t.nodeName i ≠ t.nodeName j := ⟨fun _ _ hij => hij.symm⟩
  exact (h.distinct x hx).forall hy hz hne hname

theorem TreeOf.childNamed_eq_some_iff (h : t.TreeOf kids) {x y : ℕ} (hx : x < t.size)
    {c : List UInt8} (hnul : 0 ∉ c) :
    t.childNamed x c = some y ↔ y ∈ kids x ∧ t.nodeName y = c := by
  constructor
  · exact h.childNamed_some hx hnul
  · rintro ⟨hmem, hname⟩
    cases hfound : t.childNamed x c with
    | none => exact absurd hname (h.childNamed_none hx hnul hfound y hmem)
    | some z =>
        obtain ⟨hz, hzname⟩ := h.childNamed_some hx hnul hfound
        rw [h.eq_of_nodeName_eq hx hz hmem (hzname.trans hname.symm)]

/-- The search for a path finds the node that it names. -/
theorem TreeOf.lookup_eq_some_iff (h : t.TreeOf kids) {x y : ℕ} (hx : x < t.size)
    {path : List (List UInt8)} (hclean : Clean path) :
    t.lookup x path = some y ↔ Named (t.Child kids) t.nodeName x path y := by
  induction path generalizing x with
  | nil => rw [lookup_nil, named_nil_iff, Option.some.injEq]
  | cons c path ih =>
      obtain ⟨hnul, hrest⟩ := clean_cons.1 hclean
      rw [lookup_cons, named_cons_iff, Option.bind_eq_some_iff]
      apply exists_congr
      intro z
      rw [h.childNamed_eq_some_iff hx hnul]
      constructor
      · rintro ⟨⟨hmem, hname⟩, hlook⟩
        exact ⟨⟨hx, hmem⟩, hname, (ih (h.lt_size x hx z hmem).2 hrest).1 hlook⟩
      · rintro ⟨⟨-, hmem⟩, hname, hnamed⟩
        exact ⟨⟨hmem, hname⟩, (ih (h.lt_size x hx z hmem).2 hrest).2 hnamed⟩

theorem TreeOf.lookup_eq_some_iff_names (h : t.TreeOf kids) {path : List (List UInt8)}
    (hclean : Clean path) {n : ℕ} : t.lookup 0 path = some n ↔ t.Names kids path n :=
  h.lookup_eq_some_iff h.size_pos hclean

/-- A node has at most one path from the root. -/
theorem TreeOf.path_unique (h : t.TreeOf kids) {p q : List ℕ} {x : ℕ}
    (hp : Path (t.Child kids) 0 p x) (hq : Path (t.Child kids) 0 q x) : p = q := by
  apply Path.unique ?_ ?_ hp hq
  · exact fun x y z hx hy => h.unique_parent hx.1 hy.1 hx.2 hy.2
  · exact fun x hc => absurd (h.lt_size x hc.1 0 hc.2).1 (Nat.not_lt_zero x)

/-- The same for the names on the path. -/
theorem TreeOf.lookup_inj (h : t.TreeOf kids) {p q : List (List UInt8)} (hp : Clean p)
    (hq : Clean q) {x : ℕ} (hpx : t.lookup 0 p = some x) (hqx : t.lookup 0 q = some x) :
    p = q := by
  obtain ⟨nodes, hnodes, rfl⟩ := (h.lookup_eq_some_iff_names hp).1 hpx
  obtain ⟨nodes', hnodes', rfl⟩ := (h.lookup_eq_some_iff_names hq).1 hqx
  rw [h.path_unique hnodes hnodes']

/-- The children by name after one was added. -/
theorem TreeOf.childNamed_childAdded (h : t.TreeOf kids) (hr : r < t.size)
    (hnone : t.childNamed r name = none) (hname : 0 ∉ name) (ha : ChildAdded t t' kids r name)
    {x : ℕ} (hx : x < t.size) {c : List UInt8} (hnul : 0 ∉ c) :
    t'.childNamed x c = if x = r ∧ c = name then some t.size else t.childNamed x c := by
  have h' := h.of_childAdded hr (h.childNamed_none hr hname hnone) ha
  have hx' : x < t'.size := by
    rw [ha.size_eq]
    exact Nat.lt_succ_of_lt hx
  have hold : ∀ j ∈ kids x, t'.nameIs c j = t.nameIs c j := by
    intro j hj
    simp only [nameIs, ha.name_eq j (h.lt_size x hx j hj).2]
  have hfind : (kids x).find? (t'.nameIs c) = t.childNamed x c := by
    rw [childNamed, h.nodeFindSibling_eq hx]
    exact List.find?_congr hold
  rw [childNamed, h'.nodeFindSibling_eq hx']
  by_cases hxr : x = r
  · subst hxr
    rw [addKid_parent kids (Nat.ne_of_lt hr), List.find?_append, hfind, List.find?_singleton]
    by_cases hc : c = name
    · have hself : t'.nameIs c t.size = true := (nameIs_iff hnul _).2 (ha.new_name.trans hc.symm)
      rw [if_pos hself, if_pos ⟨rfl, hc⟩, hc, hnone]
      rfl
    · have hself : ¬ t'.nameIs c t.size = true := by
        rw [nameIs_iff hnul, ha.new_name]
        exact fun hn => hc hn.symm
      rw [if_neg hself, if_neg fun hand => hc hand.2, Option.or_none]
  · rw [addKid_of_ne kids hxr (Nat.ne_of_lt hx), hfind, if_neg fun hc => hxr hc.1]

/-- The new child has no children. -/
theorem TreeOf.lookup_new (h : t.TreeOf kids) (hr : r < t.size)
    (hnew : ∀ j ∈ kids r, t.nodeName j ≠ name) (ha : ChildAdded t t' kids r name)
    (path : List (List UInt8)) :
    t'.lookup t.size path = if path = [] then some t.size else none := by
  cases path with
  | nil => rfl
  | cons c path =>
      have hlt : t.size < t'.size := by
        rw [ha.size_eq]
        exact Nat.lt_succ_self _
      rw [lookup_cons, childNamed, (h.of_childAdded hr hnew ha).nodeFindSibling_eq hlt, addKid_new]
      rfl

/-- Adding a child to the node at the path `p₀` changes the map at its own path only. -/
theorem TreeOf.lookup_childAdded (h : t.TreeOf kids) (hr : r < t.size)
    (hnone : t.childNamed r name = none) (hname : 0 ∉ name) (ha : ChildAdded t t' kids r name)
    {p₀ : List (List UInt8)} (hp₀ : Clean p₀) (hpath : t.lookup 0 p₀ = some r)
    {q : List (List UInt8)} (hq : Clean q) :
    t'.lookup 0 q = if q = p₀ ++ [name] then some t.size else t.lookup 0 q := by
  have hnew := h.childNamed_none hr hname hnone
  have hfresh : t.lookup 0 (p₀ ++ [name]) = none := by
    rw [lookup_concat, hpath]
    exact hnone
  -- from a node `x` at the path `p` on
  have hfrom : ∀ (q p : List (List UInt8)) (x : ℕ), Clean p → Clean q → t.lookup 0 p = some x →
      t'.lookup x q = if p ++ q = p₀ ++ [name] then some t.size else t.lookup x q := by
    intro q
    induction q with
    | nil =>
        intro p x hp _ hx
        rw [if_neg, lookup_nil, lookup_nil]
        intro hpeq
        rw [List.append_nil] at hpeq
        rw [hpeq, hfresh] at hx
        cases hx
    | cons c q ih =>
        intro p x hp hcq hx
        obtain ⟨hc, hq⟩ := clean_cons.1 hcq
        have hxlt := h.lookup_lt h.size_pos hp hx
        rw [lookup_cons, h.childNamed_childAdded hr hnone hname ha hxlt hc, lookup_cons]
        by_cases hxr : x = r ∧ c = name
        · obtain ⟨rfl, rfl⟩ := hxr
          obtain rfl := h.lookup_inj hp hp₀ hx hpath
          rw [if_pos ⟨rfl, rfl⟩, Option.bind_some, h.lookup_new hr hnew ha, hnone, Option.bind_none]
          by_cases hnil : q = []
          · rw [if_pos hnil, if_pos (by rw [hnil])]
          · rw [if_neg hnil, if_neg]
            intro heq
            exact hnil (List.cons.inj (List.append_cancel_left heq)).2
        · rw [if_neg hxr]
          cases hy : t.childNamed x c with
          | none =>
              rw [if_neg, Option.bind_none, Option.bind_none]
              intro heq
              cases q using List.reverseRecOn with
              | nil =>
                  obtain ⟨hpp, hcn⟩ := List.append_inj' heq rfl
                  rw [hpp, hpath] at hx
                  exact hxr ⟨(Option.some.inj hx).symm, List.singleton_injective hcn⟩
              | append_singleton q b =>
                  rw [← List.cons_append, ← List.append_assoc] at heq
                  rw [← (List.append_inj' heq rfl).1, lookup_append, hx, Option.bind_some,
                    lookup_cons, hy] at hpath
                  cases hpath
          | some y =>
              have hpy : t.lookup 0 (p ++ [c]) = some y := by
                rw [lookup_concat, hx]
                exact hy
              have hpc : Clean (p ++ [c]) :=
                clean_append.2 ⟨hp, fun d hd => (List.mem_singleton.1 hd) ▸ hc⟩
              rw [Option.bind_some, Option.bind_some, ih (p ++ [c]) y hpc hq hpy,
                List.append_assoc, List.singleton_append]
  exact hfrom q [] 0 (fun _ hc => absurd hc List.not_mem_nil) hq rfl

end Lookup

end NodeTree

end Catpilot
