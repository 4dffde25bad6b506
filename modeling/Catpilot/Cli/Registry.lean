import Catpilot.CString.Basic
import Catpilot.Memory.LinkedList
import Catpilot.Posix.Errno
import Mathlib.Logic.Function.Basic

/-!
# The registry of the CLI commands

`os/freertos/services/cli/node.c`. The nodes are in a memory of cells with numbers; the
root is cell 0, with an empty name and no handler. `H` is the type of the handlers.
Pointers into a string are the rest of the memory from there on.

The registry is an association list of names and handlers in the order of their
registration: `Represents` says so of the nodes.
-/

namespace Catpilot

open CString LinkedList

/-- The byte ` `. -/
def space : UInt8 := 0x20

/-- `CLI_MAX_ARGS`. -/
def cliMaxArgs : ℕ := 10

/-- `CLI_MAX_NAME_LENGTH`. -/
def cliMaxNameLength : ℕ := 64

/-- `CLI_GET_TOKEN_DEFAULT` and `CLI_GET_TOKEN_REPLACE_SPACE`. -/
inductive TokenMode where
  | default
  | replaceSpace
  deriving DecidableEq, Repr

/-- What `cli_cmd_get_token` returns and leaves: the memory from the token on, its
length, and the memory from the context on. -/
structure CliToken where
  start : Option (List UInt8)
  length : ℕ
  context : List UInt8
  deriving DecidableEq, Repr

/-- `cli_cmd_get_token`. -/
def cliCmdGetToken (cmd : List UInt8) (parseContext : Option (List UInt8)) (mode : TokenMode) :
    CliToken :=
  let tokenStart := (parseContext.getD cmd).dropWhile (· = space)
  match strstr tokenStart [space] with
  | none =>
      let length := strnlen tokenStart cliMaxNameLength
      ⟨if length = 0 then none else some tokenStart, length, tokenStart.drop length⟩
  | some tokenEnd =>
      let length := strlen tokenStart - tokenEnd.length
      match mode with
      | .default =>
          ⟨if length = 0 then none else some tokenStart, length, tokenStart.drop length⟩
      | .replaceSpace =>
          ⟨some (tokenStart.set length 0), length + 1, tokenStart.drop (length + 1)⟩

/-- `struct cli_node`. -/
structure CliNode (H : Type*) where
  name : List UInt8
  handler : Option H
  sibling : Option ℕ
  deriving Repr

/-- A node as `calloc` gives it. -/
def CliNode.zero (H : Type*) : CliNode H := ⟨List.replicate cliMaxNameLength 0, none, none⟩

/-- The memory of the nodes. -/
structure CliRegistry (H : Type*) where
  size : ℕ
  node : ℕ → CliNode H

/-- `cli_cmd_check_name` finds no space. -/
def cliCmdCheckName (name : List UInt8) : Bool :=
  space ∉ name.take (strnlen name cliMaxNameLength)

namespace CliRegistry

section Operations

variable {H : Type*}

/-- The registry with the root alone. -/
def init (H : Type*) : CliRegistry H := ⟨1, fun _ => .zero H⟩

/-- A change to one node. -/
def modify (r : CliRegistry H) (i : ℕ) (f : CliNode H → CliNode H) : CliRegistry H :=
  { r with node := Function.update r.node i (f (r.node i)) }

/-- `n->sibling`. -/
def sibling (r : CliRegistry H) (i : ℕ) : Option ℕ := (r.node i).sibling

/-- `strlen(n->name) == length && strncmp(n->name, dir_name, length) == 0`. -/
def nameIs (r : CliRegistry H) (dirName : List UInt8) (length : ℕ) (i : ℕ) : Bool :=
  strlen (r.node i).name = length && strncmpEq (r.node i).name dirName length

/-- `node_find_sibling`, from the root on. -/
def nodeFindSibling (r : CliRegistry H) (dirName : List UInt8) (length : ℕ) : Option ℕ :=
  LinkedList.find r.sibling (r.nameIs dirName length) r.size (some 0)

/-- The node that `node_create` fills in. -/
def newNode (H : Type*) (name : List UInt8) (nameLength : ℕ) : CliNode H :=
  { CliNode.zero H with name := strncpy (CliNode.zero H).name name nameLength }

/-- `node_create`, when `calloc` succeeds. -/
def nodeCreate (r : CliRegistry H) (name : List UInt8) (nameLength : ℕ) : CliRegistry H × ℕ :=
  (⟨r.size + 1, Function.update r.node r.size (newNode H name nameLength)⟩, r.size)

/-- `node_add_sibling`, from the root on. -/
def nodeAddSibling (r : CliRegistry H) (new : ℕ) : CliRegistry H :=
  r.modify (LinkedList.last r.sibling r.size 0) fun n => { n with sibling := some new }

/-- `cli_cmd_find`; a name that is `none` is a null pointer. -/
def cliCmdFind (r : CliRegistry H) (cmdName : Option (List UInt8)) : Option ℕ × Errno :=
  match cmdName with
  | none => (none, .einval)
  | some cmdName =>
      -- the name is compared from its own start, with the length of the token
      match r.nodeFindSibling cmdName (cliCmdGetToken cmdName none .default).length with
      | none => (none, .enoent)
      | some n => (some n, .ok)

/-- What `cli_cmd_reg` leaves: the registry, the node it returns, and `errno`. -/
structure RegResult (H : Type*) where
  registry : CliRegistry H
  node : Option ℕ
  errno : Errno

/-- `cli_cmd_reg`. -/
def cliCmdReg (r : CliRegistry H) (cmdName : Option (List UInt8)) (handler : Option H) :
    RegResult H :=
  match cmdName, handler with
  | some name, some h =>
      if cliCmdCheckName name = false then ⟨r, none, .einval⟩
      else if ((r.cliCmdFind (some name)).1).isSome then ⟨r, none, .eexist⟩
      else
        let created := r.nodeCreate name (strnlen name cliMaxNameLength)
        let linked := created.1.nodeAddSibling created.2
        ⟨linked.modify created.2 fun n => { n with handler := some h }, some created.2, .ok⟩
  | _, _ => ⟨r, none, .einval⟩

/-- The names that `cli_cmd_print` prints, in its order. -/
def cliCmdPrint (r : CliRegistry H) : List (List UInt8) :=
  (LinkedList.cells r.sibling r.size (r.sibling 0)).map fun i => cstr (r.node i).name

end Operations

end CliRegistry

end Catpilot
