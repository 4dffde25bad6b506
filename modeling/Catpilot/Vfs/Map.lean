import Catpilot.Vfs.Shape

/-!
# The tree as a map

For a caller of `node_find` the tree is a map from paths to nodes. A mount at a free path adds
this path and those in front of it, and changes nothing else.
-/

namespace Catpilot

open CString Transition

namespace NodeTree

variable {F : Type*}

/-- What a mount of `op` at a free path makes of the map: `n` is the node there, paths
in front of it have got nodes without file operations, and nothing else is new. -/
structure Mounted (t t' : NodeTree F) (path : List UInt8) (n : ℕ) (op : F) : Prop where
  found : t'.nodeFind (some path) .fullPath = (some n, .ok)
  carries : (t'.node n).fOp = some op
  created : ∀ q, Absolute q → components q <+: components path → components q ≠ components path →
    (t.nodeFind (some q) .fullPath).1 = none →
    ∃ m, t'.nodeFind (some q) .fullPath = (some m, .ok) ∧ (t'.node m).fOp = none
  kept : ∀ q m, Absolute q → (t.nodeFind (some q) .fullPath).1 = some m →
    t'.nodeFind (some q) .fullPath = (some m, .ok) ∧ (t'.node m).fOp = (t.node m).fOp
  unchanged : ∀ q, Absolute q → ¬ components q <+: components path →
    t'.nodeFind (some q) .fullPath = t.nodeFind (some q) .fullPath

/-- The walk along a free path, with the file operations set at its end. -/
theorem Extended.mounted {t t' : NodeTree F} {kids kids' : ℕ → List ℕ} {path : List UInt8} {n : ℕ}
    (op : F) (h : t.TreeOf kids) (h' : t'.TreeOf kids') (habs : Absolute path)
    (hext : Extended (nodeTokens path) t t') (hfree : t.lookup 0 (nodeTokens path) = none)
    (hn : t'.lookup 0 (nodeTokens path) = some n) : Mounted t (t'.setFOp n op) path n op := by
  have hclean := clean_nodeTokens
  have hset : ∀ q, (t'.setFOp n op).lookup 0 (nodeTokens q) = t'.lookup 0 (nodeTokens q) :=
    fun q => h'.lookup_sameShape (setFOp_sameShape t' n op) h'.size_pos (hclean q)
  have hnew : t.size ≤ n := by
    rcases hext.new _ n (hclean path) hn with hold | ⟨-, hle⟩
    · rw [hfree] at hold
      cases hold
    · exact hle
  constructor
  case found =>
    apply nodeFind_eq_some
    rw [hset, hn]
  case carries => rw [setFOp, modify_node_self]
  case created =>
    intro q hq hpre hne hnone
    rw [← nodeTokens_eq hq, ← nodeTokens_eq habs] at hpre hne
    rw [nodeFind_fullPath] at hnone
    obtain ⟨rest, hrest⟩ := hpre
    have hpath := hn
    rw [← hrest, lookup_append] at hpath
    obtain ⟨m, hm, -⟩ := Option.bind_eq_some_iff.1 hpath
    have hmn : m ≠ n := by
      rintro rfl
      exact hne (h'.lookup_inj (hclean q) (hclean path) hm hn)
    refine ⟨m, nodeFind_eq_some (by rw [hset, hm]), ?_⟩
    rw [setFOp, modify_node_of_ne _ _ hmn]
    rcases hext.new _ m (hclean q) hm with hold | ⟨-, hle⟩
    · rw [hnone] at hold
      cases hold
    · exact hext.fOp_new m hle (h'.lookup_lt h'.size_pos (hclean q) hm)
  case kept =>
    intro q m _ hm
    rw [nodeFind_fullPath] at hm
    have hlt := h.lookup_lt h.size_pos (hclean q) hm
    refine ⟨nodeFind_eq_some ?_, ?_⟩
    · rw [hset, hext.kept _ m (hclean q) hm]
    · rw [setFOp, modify_node_of_ne _ _ (Nat.ne_of_lt (Nat.lt_of_lt_of_le hlt hnew)),
        hext.fOp_eq m hlt]
  case unchanged =>
    intro q hq hpre
    rw [← nodeTokens_eq hq, ← nodeTokens_eq habs] at hpre
    apply nodeFind_congr
    rw [hset]
    cases hx : t.lookup 0 (nodeTokens q) with
    | some x => exact hext.kept _ x (hclean q) hx
    | none =>
        cases hx' : t'.lookup 0 (nodeTokens q) with
        | none => rfl
        | some x =>
            rcases hext.new _ x (hclean q) hx' with hold | ⟨hfront, -⟩
            · exact hold.symm.trans hx
            · exact absurd hfront hpre

/-- The tree is a map from paths to nodes, and `node_mount` adds to it: a path that is
found is refused and nothing changes; any other path gets its node, and the node that is
returned is that one. The mounts before have only created nodes for components of less than 64
bytes, and so does this one: of a longer one the array of the name has no end. -/
theorem nodeMount_map {bytes : Option F → List UInt8} {calls : List (MountCall F)}
    (hfit : Along (Terminates bytes) (nodeMountStep bytes) (init F) calls) {t : NodeTree F}
    (hrun : run (nodeMountStep bytes) (init F) calls = some t) {path : List UInt8}
    (habs : Absolute path) (hne : components path ≠ [])
    (hnames : ∀ c ∈ components path, c.length < nodeMaxNameLength) {allocs : ℕ}
    (hallocs : (components path).length ≤ allocs) (op : F) :
    let res := t.nodeMount allocs (some path) (some op)
    ((res.node = some none ∧ res.errno = .eexist ∧ res.tree = t) ↔
        (t.nodeFind (some path) .fullPath).1 ≠ none) ∧
      ((t.nodeFind (some path) .fullPath).1 = none →
        ∃ n, res.node = some (some n) ∧ Mounted t res.tree path n op) := by
  obtain ⟨t', hrun', kids, htree, -⟩ := isTree_run hfit
  obtain rfl := Option.some.inj (hrun.symm.trans hrun')
  rw [← nodeTokens_eq habs] at hne hnames hallocs
  obtain ⟨⟨kids', htree'⟩, hext, hend⟩ := htree.nodeMountLoop_root allocs hnames
  obtain ⟨n, hn, hpath⟩ := hend hallocs hne
  by_cases hfree : (t.nodeFind (some path) .fullPath).1 = none
  · rw [nodeMount_of_free op hfree hn]
    refine ⟨⟨fun hrefused => ?_, fun hfound => absurd hfree hfound⟩, fun _ => ⟨n, rfl, ?_⟩⟩
    · cases hrefused.1
    · rw [nodeFind_fullPath] at hfree
      exact Extended.mounted op htree htree' habs hext hfree hpath
  · rw [nodeMount_of_found allocs op hfree]
    exact ⟨⟨fun _ => hfree, fun _ => ⟨rfl, rfl, rfl⟩⟩, fun hnone => absurd hnone hfree⟩

/-- `/dev` is mounted. -/
def devMounts : List (MountCall (Fin 11 → UInt32)) :=
  [⟨1, some [0x2F, 0x64, 0x65, 0x76], some fun _ => 0x08001235⟩]

/-- `/dev/a` behind it. -/
theorem nodeMount_map_dev :
    ∃ t, run (nodeMountStep fileOperationsBytes) (init _) devMounts = some t ∧
    let path := [0x2F, 0x64, 0x65, 0x76, 0x2F, 0x61]
    let res := t.nodeMount 2 (some path) (some fun _ => 0x08001235)
    ((res.node = some none ∧ res.errno = .eexist ∧ res.tree = t) ↔
        (t.nodeFind (some path) .fullPath).1 ≠ none) ∧
      ((t.nodeFind (some path) .fullPath).1 = none →
        ∃ n, res.node = some (some n) ∧ Mounted t res.tree path n fun _ => 0x08001235) := by
  have hfit : Along (Terminates fileOperationsBytes) (nodeMountStep fileOperationsBytes) (init _)
      devMounts := by decide
  obtain ⟨t, hrun, -⟩ := isTree_run hfit
  refine ⟨t, hrun, nodeMount_map hfit hrun ?_ ?_ ?_ ?_ _⟩
  · exact rfl
  · decide
  · decide
  · decide

end NodeTree

end Catpilot
