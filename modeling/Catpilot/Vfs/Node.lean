import Catpilot.CString.Basic
import Catpilot.Memory.LinkedList
import Catpilot.Posix.Errno
import Mathlib.Logic.Function.Basic

/-!
# The node tree of the VFS

`fsa/node.c`. The nodes are in a memory of cells with numbers; the root is cell 0, and
a cell below `size` is a node that was created. `F` is the type of the file
operations; a node that `calloc` has cleared carries none. Pointers into a path are
the rest of the path from there on.
-/

namespace Catpilot

open CString

/-- The byte `/`. -/
def slash : UInt8 := 0x2F

/-- `NODE_MAX_NAME_LENGTH`. -/
def nodeMaxNameLength : ℕ := 64

/-- `struct node`. -/
structure Node (F : Type*) where
  name : List UInt8
  fOp : Option F
  parent : Option ℕ
  sibling : Option ℕ
  child : Option ℕ
  deriving Repr

/-- A node as `calloc` gives it. -/
def Node.zero (F : Type*) : Node F := ⟨List.replicate nodeMaxNameLength 0, none, none, none, none⟩

/-- The memory of the nodes. -/
structure NodeTree (F : Type*) where
  size : ℕ
  node : ℕ → Node F

/-- `NODE_MODE_NEAREST_PATH` and `NODE_MODE_FULL_PATH`. -/
inductive NodeMode where
  | nearestPath
  | fullPath
  deriving DecidableEq, Repr

/-- `node_get_token`: the next component of the path and what follows it. -/
def nodeGetToken (start : List UInt8) : Option (List UInt8 × List UInt8) :=
  -- any path must start from '/'
  if start.head? = some slash then
    let start := start.dropWhile (· = slash)
    let token := start.takeWhile (· ≠ slash)
    if token = [] then none else some (token, start.dropWhile (· ≠ slash))
  else none

/-- The components that successive calls of `node_get_token` give. -/
def nodeTokensLoop : ℕ → List UInt8 → List (List UInt8)
  | 0, _ => []
  | fuel + 1, start =>
      match nodeGetToken start with
      | none => []
      | some (token, rest) => token :: nodeTokensLoop fuel rest

/-- The components of a path; each call takes at least one byte of it. -/
def nodeTokens (path : List UInt8) : List (List UInt8) :=
  nodeTokensLoop (cstr path).length (cstr path)

namespace NodeTree

section Operations

variable {F : Type*}

/-- The tree with the root alone. -/
def init (F : Type*) : NodeTree F := ⟨1, fun _ => .zero F⟩

/-- A change to one node. -/
def modify (t : NodeTree F) (i : ℕ) (f : Node F → Node F) : NodeTree F :=
  { t with node := Function.update t.node i (f (t.node i)) }

/-- `n->sibling`. -/
def sibling (t : NodeTree F) (i : ℕ) : Option ℕ := (t.node i).sibling

/-- `strlen(n->name) == length && strncmp(n->name, dir_name, length) == 0`. -/
def nameIs (t : NodeTree F) (dirName : List UInt8) (i : ℕ) : Bool :=
  strlen (t.node i).name = dirName.length && strncmpEq (t.node i).name dirName dirName.length

/-- `node_find_sibling`. -/
def nodeFindSibling (t : NodeTree F) (first : Option ℕ) (dirName : List UInt8) : Option ℕ :=
  LinkedList.find t.sibling (t.nameIs dirName) t.size first

/-- The node that `node_create` fills in; what `strncpy` writes behind the array is not
part of the name. -/
def newNode (F : Type*) (name : List UInt8) : Node F :=
  { Node.zero F with
    name := (strncpy (Node.zero F).name name name.length).take nodeMaxNameLength }

/-- `node_create`, when `calloc` succeeds. -/
def nodeCreate (t : NodeTree F) (name : List UInt8) : NodeTree F × ℕ :=
  (⟨t.size + 1, Function.update t.node t.size (newNode F name)⟩, t.size)

/-- `node_add_sibling`. -/
def nodeAddSibling (t : NodeTree F) (first new : ℕ) : NodeTree F :=
  let n := LinkedList.last t.sibling t.size first
  let t := t.modify n fun node => { node with sibling := some new }
  t.modify new fun node => { node with parent := (t.node n).parent }

/-- `node_add_child`. -/
def nodeAddChild (t : NodeTree F) (parent child : ℕ) : NodeTree F :=
  match (t.node parent).child with
  | none =>
      let t := t.modify parent fun node => { node with child := some child }
      t.modify child fun node => { node with parent := some parent }
  | some first => t.nodeAddSibling first child

/-- The loop of `node_find`. -/
def nodeFindLoop (t : NodeTree F) (mode : NodeMode) :
    ℕ → Option ℕ → List (List UInt8) → Option ℕ
  | node, _, [] => some node
  | node, prevNode, dirName :: rest =>
      match t.nodeFindSibling (t.node node).child dirName with
      | some n => nodeFindLoop t mode n (some n) rest
      | none =>
          match mode with
          | .nearestPath => prevNode
          | .fullPath => none

/-- `node_find`; a path that is `none` is a null pointer. -/
def nodeFind (t : NodeTree F) (path : Option (List UInt8)) (mode : NodeMode) :
    Option ℕ × Errno :=
  match path with
  | none => (none, .einval)
  | some path =>
      match t.nodeFindLoop mode 0 none (nodeTokens path) with
      | none => (none, .enoent)
      | some node => (some node, .ok)

/-- The loop of `node_mount`. The local `node` is `none` before it is assigned, and
`some none` is the null pointer. Of the calls of `calloc` the first `allocs` ones
succeed. -/
def nodeMountLoop : NodeTree F → ℕ → ℕ → Option (Option ℕ) → List (List UInt8) →
    NodeTree F × Option (Option ℕ)
  | t, _, _, node, [] => (t, node)
  | t, allocs, rnode, _, dirName :: rest =>
      match t.nodeFindSibling (t.node rnode).child dirName with
      | some n => nodeMountLoop t allocs n (some (some n)) rest
      | none =>
          match allocs with
          | 0 => (t, some none)
          | allocs + 1 =>
              let created := t.nodeCreate dirName
              nodeMountLoop (created.1.nodeAddChild rnode created.2) allocs created.2
                (some (some created.2)) rest

/-- What `node_mount` leaves: the tree, the local `node` it returns, and `errno`. -/
structure MountResult (F : Type*) where
  tree : NodeTree F
  node : Option (Option ℕ)
  errno : Errno

/-- `node_mount`. Where `calloc` fails, the tokens before have set `errno` to 0. -/
def nodeMount (t : NodeTree F) (allocs : ℕ) (mountingPoint : Option (List UInt8))
    (fOp : Option F) : MountResult F :=
  match mountingPoint, fOp with
  | some path, some op =>
      if ((t.nodeFind (some path) .fullPath).1).isSome then ⟨t, some none, .eexist⟩
      else
        match t.nodeMountLoop allocs 0 none (nodeTokens path) with
        | (t, some (some n)) =>
            ⟨t.modify n fun node => { node with fOp := some op }, some (some n), .ok⟩
        | (t, node) => ⟨t, node, .ok⟩
  | _, _ => ⟨t, some none, .einval⟩

end Operations

end NodeTree

end Catpilot
