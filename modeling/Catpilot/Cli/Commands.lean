import Catpilot.Cli.Registry
import Mathlib.Data.List.Find

/-!
# The registry as an association list

`Represents r cs` says that the nodes behind the root hold the names and handlers `cs`,
in the order of their registration. Looking up a word finds the first entry with
exactly this name, and a registration adds one entry behind the others or changes
nothing.
-/

namespace Catpilot

open CString LinkedList

section Words

variable {mem : List UInt8}

/-- The string is a word: it is not empty and has no space. -/
def IsWord (mem : List UInt8) : Prop := cstr mem ≠ [] ∧ space ∉ cstr mem

theorem cstr_space : cstr [space] = [space] := rfl

/-- The bytes of a string in front of its first space. -/
def firstToken (mem : List UInt8) : List UInt8 := (cstr mem).takeWhile (· ≠ space)

theorem firstToken_of_isWord (h : IsWord mem) : firstToken mem = cstr mem := by
  rw [firstToken, List.takeWhile_eq_self_iff]
  intro c hc
  rw [decide_eq_true_eq]
  rintro rfl
  exact h.2 hc

theorem strstr_space : strstr mem [space] =
    if space ∈ cstr mem then some ((cstr mem).dropWhile (· ≠ space)) else none := by
  rw [strstr, cstr_space, search_singleton]

/-- A string that starts with no space has none skipped. -/
theorem dropWhile_space_of_head? (h : mem.head? ≠ some space) :
    mem.dropWhile (· = space) = mem := by
  cases mem with
  | nil => rfl
  | cons c mem =>
      rw [List.dropWhile_cons_of_neg]
      rintro hc
      exact h (by simpa using hc)

theorem head?_cstr_of_ne_nil (h : cstr mem ≠ []) : (cstr mem).head? = mem.head? := by
  cases mem with
  | nil => rfl
  | cons c mem =>
      by_cases hc : c = 0
      · subst hc
        exact absurd rfl h
      · rw [cstr_cons hc]
        rfl

/-- A string that starts with no space has a first token. -/
theorem firstToken_ne_nil (hne : cstr mem ≠ []) (hhead : mem.head? ≠ some space) :
    firstToken mem ≠ [] := by
  rw [← head?_cstr_of_ne_nil hne] at hhead
  rw [firstToken]
  cases hs : cstr mem with
  | nil => exact absurd hs hne
  | cons c s =>
      rw [hs, List.head?_cons, Ne, Option.some.injEq] at hhead
      simp [hhead]

theorem IsWord.head?_ne (h : IsWord mem) : mem.head? ≠ some space := by
  intro hhead
  rw [← head?_cstr_of_ne_nil h.1] at hhead
  exact h.2 (List.mem_of_mem_head? hhead)

/-- The length of the first token; without a space behind it, it is cut at the longest
name. -/
theorem length_token (hhead : mem.head? ≠ some space) :
    (cliCmdGetToken mem none .default).length = (firstToken mem).length ∨
      (cliCmdGetToken mem none .default).length = cliMaxNameLength ∧
        cliMaxNameLength ≤ (firstToken mem).length := by
  have hskip : (none.getD mem).dropWhile (· = space) = mem := dropWhile_space_of_head? hhead
  have hsplit := congrArg List.length
    (List.takeWhile_append_dropWhile (p := (· ≠ space)) (l := cstr mem))
  rw [List.length_append] at hsplit
  simp only [cliCmdGetToken, hskip, strstr_space]
  by_cases hspace : space ∈ cstr mem
  · rw [if_pos hspace]
    refine Or.inl ?_
    simp only [firstToken, strlen]
    omega
  · have hall : firstToken mem = cstr mem := by
      rw [firstToken, List.takeWhile_eq_self_iff]
      intro c hc
      rw [decide_eq_true_eq]
      rintro rfl
      exact hspace hc
    rw [if_neg hspace, hall]
    simp only [strnlen, strlen]
    omega

/-- A string without its leading spaces. -/
theorem cstr_dropWhile_space (mem : List UInt8) :
    cstr (mem.dropWhile (· = space)) = (cstr mem).dropWhile (· = space) := by
  induction mem with
  | nil => rfl
  | cons c mem ih =>
      by_cases hc : c = space
      · subst hc
        rw [cstr_cons (by decide), List.dropWhile_cons_of_pos (by simp),
          List.dropWhile_cons_of_pos (by simp), ih]
      · rw [List.dropWhile_cons_of_neg (by simpa using hc)]
        by_cases hzero : c = 0
        · subst hzero
          rfl
        · rw [cstr_cons hzero, List.dropWhile_cons_of_neg (by simpa using hc)]

/-- A token is not longer than the string. -/
theorem length_token_le (mem : List UInt8) :
    (cliCmdGetToken mem none .default).length ≤ strlen mem := by
  have hstart : strlen (mem.dropWhile (· = space)) ≤ strlen mem := by
    rw [strlen, strlen, cstr_dropWhile_space]
    exact List.length_dropWhile_le _ _
  simp only [cliCmdGetToken, Option.getD_none, strstr_space]
  split
  · exact (Nat.min_le_left _ _).trans hstart
  · exact (Nat.sub_le _ _).trans hstart

/-- A short name is the compared part of the string exactly when it is the token. -/
theorem eq_take_token_iff (hhead : mem.head? ≠ some space) {name : List UInt8}
    (hname : name.length < cliMaxNameLength) :
    name = (cstr mem).take (cliCmdGetToken mem none .default).length ↔ name = firstToken mem := by
  have hprefix : firstToken mem <+: cstr mem := List.takeWhile_prefix _
  rcases length_token hhead with h | ⟨h, hlong⟩
  · rw [h, ← List.prefix_iff_eq_take.1 hprefix]
  · have hlen : cliMaxNameLength ≤ (cstr mem).length := hlong.trans hprefix.length_le
    rw [h]
    refine iff_of_false ?_ ?_
    · rintro rfl
      rw [List.length_take, Nat.min_eq_left hlen] at hname
      exact Nat.lt_irrefl _ hname
    · rintro rfl
      exact Nat.not_lt_of_le hlong hname

end Words

section Representation

variable {H : Type*} {r : CliRegistry H} {cs : List (List UInt8 × H)} {mem : List UInt8}

namespace CliRegistry

/-- The name and the handler of a node. -/
def entry (r : CliRegistry H) (i : ℕ) : List UInt8 × Option H :=
  (cstr (r.node i).name, (r.node i).handler)

/-- The entry of a command. -/
def commandEntry (e : List UInt8 × H) : List UInt8 × Option H := (e.1, some e.2)

/-- The nodes behind the root hold the commands `cs`. -/
structure Represents (r : CliRegistry H) (cs : List (List UInt8 × H)) : Prop where
  chain : Chain r.sibling (some 0) (List.range r.size)
  entries : (List.range r.size).map r.entry = ([], none) :: cs.map commandEntry
  name_ok : ∀ e ∈ cs, e.1 ≠ [] ∧ space ∉ e.1 ∧ e.1.length < cliMaxNameLength

theorem represents_init (H : Type*) : (init H).Represents [] where
  chain := .cons .nil
  entries := rfl
  name_ok := fun _ h => absurd h List.not_mem_nil

/-- A comparison with the first `length` bytes of a string compares whole names. -/
theorem nameIs_iff {length i : ℕ} (hlen : length ≤ strlen mem) :
    r.nameIs mem length i = true ↔ (r.entry i).1 = (cstr mem).take length := by
  rw [nameIs, Bool.and_eq_true, decide_eq_true_eq, strncmpEq, decide_eq_true_eq, strlen, entry]
  constructor
  · rintro ⟨hname, htake⟩
    rw [← htake, ← hname, List.take_length]
  · intro (hname : cstr (r.node i).name = (cstr mem).take length)
    have hlength : (cstr (r.node i).name).length = length := by
      rw [hname, List.length_take]
      exact Nat.min_eq_left hlen
    exact ⟨hlength, by rw [hname, List.take_take, Nat.min_self]⟩

namespace Represents

theorem size_eq (h : r.Represents cs) : r.size = cs.length + 1 := by
  have hlen := congrArg List.length h.entries
  simpa using hlen

/-- The walk over the nodes finds the first entry with the name that is looked for. -/
theorem nodeFindSibling_map (h : r.Represents cs) {length : ℕ} (hlen : length ≤ strlen mem) :
    (r.nodeFindSibling mem length).map r.entry =
      (([], none) :: cs.map commandEntry).find? fun e => e.1 = (cstr mem).take length := by
  have hname : r.nameIs mem length =
      (fun e : List UInt8 × Option H => decide (e.1 = (cstr mem).take length)) ∘ r.entry := by
    funext i
    rw [Bool.eq_iff_iff, nameIs_iff hlen, Function.comp_apply, decide_eq_true_eq]
  rw [nodeFindSibling, h.chain.find_eq (List.length_range).le, ← h.entries, List.find?_map, hname]

/-- Looking up a string finds the first entry whose name is the compared part of it. -/
theorem cliCmdFind_map_take (h : r.Represents cs) (mem : List UInt8) :
    (r.cliCmdFind (some mem)).1.map r.entry =
      (([], none) :: cs.map commandEntry).find? fun e =>
        e.1 = (cstr mem).take (cliCmdGetToken mem none .default).length := by
  rw [← h.nodeFindSibling_map (length_token_le mem), cliCmdFind]
  cases r.nodeFindSibling mem (cliCmdGetToken mem none .default).length with
  | none => rfl
  | some n => rfl

/-- Looking up a string that starts with no space finds what is registered under exactly
its first token. -/
theorem cliCmdFind_map_firstToken (h : r.Represents cs) (hne : cstr mem ≠ [])
    (hhead : mem.head? ≠ some space) : (r.cliCmdFind (some mem)).1.map r.entry =
      (cs.find? fun e => e.1 = firstToken mem).map commandEntry := by
  have hroot : [] ≠ (cstr mem).take (cliCmdGetToken mem none .default).length := by
    have hnil : ([] : List UInt8).length < cliMaxNameLength := Nat.zero_lt_succ _
    rw [Ne, eq_take_token_iff hhead hnil]
    exact Ne.symm (firstToken_ne_nil hne hhead)
  have hcut : ∀ e ∈ cs,
      decide (e.1 = (cstr mem).take (cliCmdGetToken mem none .default).length) =
        decide (e.1 = firstToken mem) := by
    intro e he
    rw [decide_eq_decide]
    exact eq_take_token_iff hhead (h.name_ok e he).2.2
  rw [h.cliCmdFind_map_take, List.find?_cons_of_neg, List.find?_map]
  · exact congrArg (Option.map commandEntry) (List.find?_congr hcut)
  · simpa using hroot

/-- Looking up a word gives the handler registered under exactly this word. -/
theorem cliCmdFind_map (h : r.Represents cs) (hword : IsWord mem) :
    (r.cliCmdFind (some mem)).1.map r.entry =
      (cs.find? fun e => e.1 = cstr mem).map commandEntry := by
  rw [h.cliCmdFind_map_firstToken hword.1 hword.head?_ne, firstToken_of_isWord hword]

/-- The listing has the names in the order of their registration. -/
theorem cliCmdPrint_eq (h : r.Represents cs) : r.cliCmdPrint = cs.map Prod.fst := by
  have hrange : List.range r.size = 0 :: (List.range cs.length).map Nat.succ := by
    rw [h.size_eq, List.range_succ_eq_map]
  have hchain : Chain r.sibling (r.sibling 0) ((List.range cs.length).map Nat.succ) := by
    have hc := h.chain
    rw [hrange] at hc
    cases hc with
    | cons hrest => exact hrest
  have hcells : cells r.sibling r.size (r.sibling 0) = (List.range cs.length).map Nat.succ :=
    hchain.cells_eq (by simp [h.size_eq])
  have hentries := h.entries
  rw [hrange, List.map_cons, List.cons.injEq] at hentries
  have hnames := congrArg (List.map Prod.fst) hentries.2
  rw [cliCmdPrint, hcells]
  simpa [Function.comp_def, entry, commandEntry] using hnames

end Represents

/-- The registry after a registration that adds a node. -/
def added (r : CliRegistry H) (name : List UInt8) (h : H) : CliRegistry H :=
  let created := r.nodeCreate name (strnlen name cliMaxNameLength)
  (created.1.nodeAddSibling created.2).modify created.2 fun n => { n with handler := some h }

/-- The array of a new node holds a name that fits. -/
theorem cstr_newNode (H : Type*) (hlen : strlen mem < cliMaxNameLength) :
    cstr (newNode H mem (strnlen mem cliMaxNameLength)).name = cstr mem := by
  have hstrnlen : strnlen mem cliMaxNameLength = (cstr mem).length :=
    Nat.min_eq_left (Nat.le_of_lt hlen)
  have hcopy := cstr_strncpy_replicate (not_mem_cstr mem) cliMaxNameLength
  rw [strncpy, cstr_of_not_mem (not_mem_cstr mem)] at hcopy
  rw [newNode, hstrnlen]
  exact hcopy

namespace Represents

/-- The list of the nodes ends at the node created last. -/
theorem last_nodeCreate (h : r.Represents cs) (name : List UInt8) (nameLength : ℕ) :
    let created := r.nodeCreate name nameLength
    LinkedList.last created.1.sibling created.1.size 0 = cs.length := by
  intro created
  have hchain : Chain created.1.sibling (some 0) (List.range cs.length ++ [cs.length]) := by
    rw [← List.range_succ, Nat.succ_eq_add_one, ← h.size_eq]
    refine h.chain.congr fun i hi => ?_
    have hne : i ≠ r.size := Nat.ne_of_lt (List.mem_range.1 hi)
    exact congrArg CliNode.sibling (Function.update_of_ne hne _ _)
  have hsize : created.1.size = cs.length + 2 := congrArg Nat.succ h.size_eq
  apply hchain.last_eq
  rw [List.length_range, hsize]
  exact Nat.le_add_right _ 2

section Added

variable (h : r.Represents cs) (name : List UInt8) (x : H)

include h

theorem added_eq : r.added name x =
    ((r.nodeCreate name (strnlen name cliMaxNameLength)).1.modify cs.length fun n =>
      { n with sibling := some r.size }).modify r.size fun n => { n with handler := some x } := by
  rw [added, nodeAddSibling, h.last_nodeCreate]
  rfl

theorem added_node_new : (r.added name x).node r.size =
    { newNode H name (strnlen name cliMaxNameLength) with handler := some x } := by
  have hne : r.size ≠ cs.length := by
    rw [h.size_eq]
    exact Nat.succ_ne_self _
  rw [h.added_eq, modify, modify]
  simp only [Function.update_self, Function.update_of_ne hne, nodeCreate]

theorem added_node_last : (r.added name x).node cs.length =
    { r.node cs.length with sibling := some r.size } := by
  have hne : cs.length ≠ r.size := by
    rw [h.size_eq]
    exact Nat.ne_of_lt (Nat.lt_succ_self _)
  rw [h.added_eq, modify, modify]
  simp only [Function.update_self, Function.update_of_ne hne, nodeCreate]

theorem added_node_of_lt {i : ℕ} (hi : i < cs.length) :
    (r.added name x).node i = r.node i := by
  have hne : i ≠ r.size := by
    rw [h.size_eq]
    exact Nat.ne_of_lt (Nat.lt_succ_of_lt hi)
  rw [h.added_eq, modify, modify]
  simp only [Function.update_of_ne hne, Function.update_of_ne (Nat.ne_of_lt hi), nodeCreate]

theorem added_entry {i : ℕ} (hi : i < r.size) : (r.added name x).entry i = r.entry i := by
  rw [h.size_eq] at hi
  rcases Nat.lt_succ_iff_lt_or_eq.1 hi with hlt | rfl
  · rw [entry, h.added_node_of_lt name x hlt, entry]
  · rw [entry, h.added_node_last, entry]

/-- A registration of a new word adds one command behind the others. -/
theorem added (hword : IsWord name) (hlen : strlen name < cliMaxNameLength) :
    (r.added name x).Represents (cs ++ [(cstr name, x)]) where
  chain := by
    have hsize : (r.added name x).size = r.size + 1 := rfl
    have hrange : List.range (r.size + 1) = List.range cs.length ++ [cs.length, r.size] := by
      rw [List.range_succ, h.size_eq, List.range_succ, List.append_assoc]
      rfl
    rw [hsize, hrange]
    have hchain := h.chain
    rw [h.size_eq, List.range_succ] at hchain
    apply hchain.append_singleton
    · intro i hi
      rw [sibling, h.added_node_of_lt name x (List.mem_range.1 hi), sibling]
    · rw [sibling, h.added_node_last]
    · rw [sibling, h.added_node_new]
      rfl
  entries := by
    have hnew : (r.added name x).entry r.size = commandEntry (cstr name, x) := by
      rw [entry, h.added_node_new, commandEntry, ← cstr_newNode H hlen]
    have hold : (List.range r.size).map (r.added name x).entry = (List.range r.size).map r.entry :=
      List.map_congr_left fun i hi => h.added_entry name x (List.mem_range.1 hi)
    have hsize : (r.added name x).size = r.size + 1 := rfl
    rw [hsize, List.range_succ, List.map_append, hold, h.entries, List.map_singleton, hnew,
      List.map_append]
    rfl
  name_ok := by
    intro e he
    rcases List.mem_append.1 he with hold | hnew
    · exact h.name_ok e hold
    · rw [List.mem_singleton.1 hnew]
      exact ⟨hword.1, hword.2, hlen⟩

end Added

/-- A word is found exactly when it is registered. -/
theorem isSome_cliCmdFind (h : r.Represents cs) (hword : IsWord mem) :
    (r.cliCmdFind (some mem)).1.isSome = cs.any fun e => e.1 = cstr mem := by
  have hmap := congrArg Option.isSome (h.cliCmdFind_map hword)
  rwa [Option.isSome_map, Option.isSome_map, List.isSome_find?] at hmap

end Represents

end CliRegistry

end Representation

/-! ## Histories of registrations -/

/-- A name that may be registered: a word of at most 63 bytes. -/
structure CmdName where
  mem : List UInt8
  isWord : IsWord mem
  strlen_lt : strlen mem < cliMaxNameLength

/-- The string of a name. -/
def CmdName.text (name : CmdName) : List UInt8 := cstr name.mem

/-- A call of `cli_cmd_reg`; a handler that is `none` is a null pointer. -/
structure RegCall (H : Type*) where
  name : CmdName
  handler : Option H

section Histories

variable {H : Type*} {r : CliRegistry H} {cs : List (List UInt8 × H)} {mem : List UInt8}

/-- What a call adds to the commands. -/
def register (cs : List (List UInt8 × H)) (c : RegCall H) : List (List UInt8 × H) :=
  match c.handler with
  | none => cs
  | some x => if cs.any fun e => e.1 = c.name.text then cs else cs ++ [(c.name.text, x)]

/-- The handler registered under a name by the first call for it. -/
def registeredHandler (calls : List (RegCall H)) (name : List UInt8) : Option H :=
  (calls.find? fun c => c.name.text = name ∧ c.handler.isSome).bind RegCall.handler

namespace CliRegistry

/-- One call of `cli_cmd_reg`. -/
def reg (r : CliRegistry H) (c : RegCall H) : RegResult H :=
  r.cliCmdReg (some c.name.mem) c.handler

/-- The registry after the calls. -/
def regAll (r : CliRegistry H) : List (RegCall H) → CliRegistry H
  | [] => r
  | c :: calls => regAll (r.reg c).registry calls

/-- The names of the calls that returned a node, in the order of the calls. -/
def regNames (r : CliRegistry H) : List (RegCall H) → List (List UInt8)
  | [] => []
  | c :: calls =>
      (if (r.reg c).node.isSome then [c.name.text] else []) ++ regNames (r.reg c).registry calls

/-- `cli_cmd_find` of `cmdName` finds a node with this name and the handler, or fails
with `ENOENT` where there is none. -/
def FindsCommand (r : CliRegistry H) (cmdName : List UInt8) : Option H → Prop
  | none => r.cliCmdFind (some cmdName) = (none, .enoent)
  | some x => ∃ n, r.cliCmdFind (some cmdName) = (some n, .ok) ∧
      cstr (r.node n).name = cstr cmdName ∧ (r.node n).handler = some x

theorem cliCmdFind_eq (r : CliRegistry H) (mem : List UInt8) :
    r.cliCmdFind (some mem) = ((r.cliCmdFind (some mem)).1,
      if (r.cliCmdFind (some mem)).1.isSome then .ok else .enoent) := by
  rw [cliCmdFind]
  cases r.nodeFindSibling mem (cliCmdGetToken mem none .default).length with
  | none => rfl
  | some n => rfl

namespace Represents

theorem findsCommand (h : r.Represents cs) (hword : IsWord mem) :
    r.FindsCommand mem ((cs.find? fun e => e.1 = cstr mem).map Prod.snd) := by
  have hmap := h.cliCmdFind_map hword
  cases hfind : cs.find? fun e => e.1 = cstr mem with
  | none =>
      rw [hfind, Option.map_none, Option.map_eq_none_iff] at hmap
      rw [Option.map_none, FindsCommand, cliCmdFind_eq, hmap]
      rfl
  | some e =>
      rw [hfind, Option.map_some, Option.map_eq_some_iff] at hmap
      obtain ⟨n, hn, hentry⟩ := hmap
      have hname : e.1 = cstr mem := by simpa using List.find?_some hfind
      refine ⟨n, ?_, (congrArg Prod.fst hentry).trans hname, congrArg Prod.snd hentry⟩
      rw [cliCmdFind_eq, hn]
      rfl

theorem findsCommand_iff (h : r.Represents cs) (hword : IsWord mem) {x : Option H} :
    r.FindsCommand mem x ↔ (cs.find? fun e => e.1 = cstr mem).map Prod.snd = x := by
  have hfinds := h.findsCommand hword
  constructor
  · intro hx
    cases hcs : (cs.find? fun e => e.1 = cstr mem).map Prod.snd with
    | none =>
        rw [hcs, FindsCommand] at hfinds
        cases x with
        | none => rfl
        | some x =>
            obtain ⟨n, hn, -, -⟩ := hx
            rw [hfinds, Prod.mk.injEq] at hn
            cases hn.1
    | some y =>
        rw [hcs] at hfinds
        obtain ⟨m, hm, -, hy⟩ := hfinds
        cases x with
        | none =>
            rw [FindsCommand, hm, Prod.mk.injEq] at hx
            cases hx.1
        | some x =>
            obtain ⟨n, hn, -, hx⟩ := hx
            rw [hm, Prod.mk.injEq, Option.some.injEq] at hn
            rw [← hx, ← hn.1, hy]
  · rintro rfl
    exact hfinds

theorem cliCmdCheckName_of_isWord (hword : IsWord mem) : cliCmdCheckName mem = true := by
  rw [cliCmdCheckName, decide_eq_true_eq]
  have hle : strnlen mem cliMaxNameLength ≤ strlen mem := Nat.min_le_left _ _
  rw [take_of_le_strlen hle]
  exact fun hspace => hword.2 (List.mem_of_mem_take hspace)

/-- `cli_cmd_reg` with a handler: it fails with `EEXIST` on a name that is registered,
and adds a node otherwise. -/
theorem reg_eq (h : r.Represents cs) (c : RegCall H) {x : H} (hx : c.handler = some x) :
    r.reg c = if cs.any fun e => e.1 = c.name.text then ⟨r, none, .eexist⟩
      else ⟨r.added c.name.mem x, some r.size, .ok⟩ := by
  rw [reg, hx, cliCmdReg, if_neg (by simp [cliCmdCheckName_of_isWord c.name.isWord]),
    h.isSome_cliCmdFind c.name.isWord]
  rfl

theorem reg_eq_of_none (r : CliRegistry H) {c : RegCall H} (hx : c.handler = none) :
    r.reg c = ⟨r, none, .einval⟩ := by
  rw [reg, hx, cliCmdReg]
  exact fun _ _ _ h => nomatch h

/-- A call leaves the commands that the association list has after it. -/
theorem reg (h : r.Represents cs) (c : RegCall H) :
    (r.reg c).registry.Represents (register cs c) := by
  rw [register]
  cases hx : c.handler with
  | none =>
      rw [reg_eq_of_none r hx]
      exact h
  | some x =>
      simp only
      rw [h.reg_eq c hx]
      split
      · exact h
      · exact h.added c.name.mem x c.name.isWord c.name.strlen_lt

theorem regAll (h : r.Represents cs) (calls : List (RegCall H)) :
    (r.regAll calls).Represents (calls.foldl register cs) := by
  induction calls generalizing r cs with
  | nil => exact h
  | cons c calls ih => exact ih (h.reg c)

/-- The commands are the names of the calls that returned a node. -/
theorem map_fst_foldl (h : r.Represents cs) (calls : List (RegCall H)) :
    (calls.foldl register cs).map Prod.fst = cs.map Prod.fst ++ r.regNames calls := by
  induction calls generalizing r cs with
  | nil => exact (List.append_nil _).symm
  | cons c calls ih =>
      rw [List.foldl_cons, ih (h.reg c), regNames, ← List.append_assoc]
      congr 1
      rw [register]
      cases hx : c.handler with
      | none =>
          rw [reg_eq_of_none r hx]
          simp
      | some x =>
          simp only [h.reg_eq c hx]
          split
          · simp
          · simp

end Represents

end CliRegistry

/-- The first entry with a name, after one more call. -/
theorem find?_register (cs : List (List UInt8 × H)) (c : RegCall H) (name : List UInt8) :
    ((register cs c).find? fun e => e.1 = name).map Prod.snd =
      ((cs.find? fun e => e.1 = name).map Prod.snd).or
        (if c.name.text = name then c.handler else none) := by
  rw [register]
  cases hx : c.handler with
  | none => simp
  | some x =>
      by_cases hname : c.name.text = name
      · simp only [hname, if_true]
        cases hfind : cs.find? fun e => e.1 = name with
        | none =>
            have hany : (cs.any fun e => e.1 = name) = false := by
              rw [← List.isSome_find?, hfind]
              rfl
            simp [hany, hfind]
        | some e =>
            have hany : (cs.any fun e => e.1 = name) = true := by
              rw [← List.isSome_find?, hfind]
              rfl
            simp [hany, hfind]
      · simp only [hname, if_false, Option.or_none]
        split
        · rfl
        · simp [hname]

/-- The first call for a name registers its handler. -/
theorem find?_foldl_register (cs : List (List UInt8 × H)) (calls : List (RegCall H))
    (name : List UInt8) :
    ((calls.foldl register cs).find? fun e => e.1 = name).map Prod.snd =
      ((cs.find? fun e => e.1 = name).map Prod.snd).or (registeredHandler calls name) := by
  induction calls generalizing cs with
  | nil => simp [registeredHandler]
  | cons c calls ih =>
      rw [List.foldl_cons, ih, find?_register, Option.or_assoc]
      congr 1
      simp only [registeredHandler, List.find?_cons]
      by_cases hname : c.name.text = name
      · cases hx : c.handler with
        | none => simp [hname]
        | some x => simp [hname, hx]
      · simp [hname]

/-- After any history of registrations, looking up a word finds the handler that the
first call for exactly this word registered; a further call for a registered name fails
with `EEXIST` and changes nothing; a call for another name registers its handler and
leaves every other lookup; the listing is in the order of the registrations. -/
theorem cliCmdReg_history (calls : List (RegCall H)) :
    (∀ mem, IsWord mem → ((CliRegistry.init H).regAll calls).FindsCommand mem
      (registeredHandler calls (cstr mem))) ∧
    (∀ c : RegCall H, c.handler.isSome → (registeredHandler calls c.name.text).isSome →
      ((CliRegistry.init H).regAll calls).reg c =
        ⟨(CliRegistry.init H).regAll calls, none, .eexist⟩) ∧
    (∀ c : RegCall H, c.handler.isSome → registeredHandler calls c.name.text = none →
      (((CliRegistry.init H).regAll calls).reg c).node.isSome ∧
      (((CliRegistry.init H).regAll calls).reg c).errno = .ok ∧
      (((CliRegistry.init H).regAll calls).reg c).registry.FindsCommand c.name.mem c.handler) ∧
    (∀ c : RegCall H, ∀ mem, IsWord mem → cstr mem ≠ c.name.text → ∀ x,
      ((CliRegistry.init H).regAll calls).FindsCommand mem x →
      (((CliRegistry.init H).regAll calls).reg c).registry.FindsCommand mem x) ∧
    ((CliRegistry.init H).regAll calls).cliCmdPrint = (CliRegistry.init H).regNames calls := by
  have hr : ((CliRegistry.init H).regAll calls).Represents (calls.foldl register []) :=
    (CliRegistry.represents_init H).regAll calls
  have hfind : ∀ name, ((calls.foldl register []).find? fun e => e.1 = name).map Prod.snd =
      registeredHandler calls name := by
    intro name
    rw [find?_foldl_register]
    rfl
  have hany : ∀ name, ((calls.foldl register []).any fun e => e.1 = name) =
      (registeredHandler calls name).isSome := by
    intro name
    rw [← hfind, Option.isSome_map, List.isSome_find?]
  refine ⟨fun mem hword => ?_, fun c hx hdup => ?_, fun c hx hnew => ?_,
    fun c mem hword hne x hx => ?_, ?_⟩
  · rw [← hfind]
    exact hr.findsCommand hword
  · obtain ⟨x, hx⟩ := Option.isSome_iff_exists.1 hx
    rw [hr.reg_eq c hx, hany, if_pos hdup]
  · obtain ⟨x, hx⟩ := Option.isSome_iff_exists.1 hx
    have hreg := hr.reg_eq c hx
    rw [hany, hnew, if_neg (by simp)] at hreg
    refine ⟨by rw [hreg]; rfl, by rw [hreg], ?_⟩
    rw [(hr.reg c).findsCommand_iff c.name.isWord, find?_register, hfind]
    simp only [CmdName.text] at hnew
    simp [CmdName.text, hnew]
  · rw [(hr.reg c).findsCommand_iff hword, find?_register, if_neg (Ne.symm hne), Option.or_none]
    exact (hr.findsCommand_iff hword).1 hx
  · rw [hr.cliCmdPrint_eq, (CliRegistry.represents_init H).map_fst_foldl]
    rfl

/-- The name `pid`. -/
def namePid : CmdName :=
  ⟨[0x70, 0x69, 0x64, 0], ⟨by decide, by decide⟩, by decide⟩

/-- The name `pids`. -/
def namePids : CmdName :=
  ⟨[0x70, 0x69, 0x64, 0x73, 0], ⟨by decide, by decide⟩, by decide⟩

theorem cliCmdReg_history_pid :
    ((CliRegistry.init ℕ).regAll [⟨namePid, some 1⟩]).FindsCommand namePid.mem (some 1) ∧
    ((CliRegistry.init ℕ).regAll [⟨namePid, some 1⟩]).reg ⟨namePid, some 2⟩ =
      ⟨(CliRegistry.init ℕ).regAll [⟨namePid, some 1⟩], none, .eexist⟩ ∧
    (((CliRegistry.init ℕ).regAll [⟨namePid, some 1⟩]).reg ⟨namePids, some 2⟩).node.isSome ∧
    (((CliRegistry.init ℕ).regAll [⟨namePid, some 1⟩]).reg
      ⟨namePids, some 2⟩).registry.FindsCommand namePid.mem (some 1) := by
  have hhistory := cliCmdReg_history [(⟨namePid, some 1⟩ : RegCall ℕ)]
  have hfound := hhistory.1 namePid.mem namePid.isWord
  exact ⟨hfound, hhistory.2.1 ⟨namePid, some 2⟩ rfl rfl,
    (hhistory.2.2.1 ⟨namePids, some 2⟩ rfl rfl).1,
    hhistory.2.2.2.1 ⟨namePids, some 2⟩ namePid.mem namePid.isWord (by decide) (some 1) hfound⟩

end Histories

end Catpilot
