import Catpilot.Cli.Commands
import Catpilot.Vfs.Names

/-!
# Names in the arrays

`node_create` of `cli/node.c` is a copy of the one of `fsa/node.c`; here the length is cut at the
size of the array, and the array is full for a longer name. In both, a name that is accepted is
stored and found again as long as it is shorter than the array.
-/

namespace Catpilot

open CString LinkedList Transition

/-- A call of `cli_cmd_reg`, with any name; `none` is a null pointer. A call in which `calloc`
fails changes nothing and is left out. -/
structure CmdReg (H : Type*) where
  cmdName : Option (List UInt8)
  handler : Option H

namespace CliRegistry

section Names

variable {H : Type*} {r r' : CliRegistry H} {cs ds : List (List UInt8 × H)}
  {mem : List UInt8} {call : CmdReg H} {n : ℕ}

/-- `cli_cmd_reg`, called so. -/
def regCmd (r : CliRegistry H) (call : CmdReg H) : RegResult H :=
  r.cliCmdReg call.cmdName call.handler

/-- A call as a step of a run. -/
def regCmdStep (r : CliRegistry H) (call : CmdReg H) : Option (CliRegistry H) :=
  some (r.regCmd call).registry

/-- A name that is accepted is shorter than the array. -/
def NameFits (r : CliRegistry H) (call : CmdReg H) : Prop :=
  (r.regCmd call).node ≠ none → ∀ name ∈ call.cmdName, strlen name < cliMaxNameLength

/-- A name that is accepted ends in its array and is the name of the command. -/
def StoresName (r : CliRegistry H) (call : CmdReg H) : Prop :=
  ∀ n, (r.regCmd call).node = some n → ∀ name ∈ call.cmdName,
    0 ∈ ((r.regCmd call).registry.node n).name ∧
      cstr ((r.regCmd call).registry.node n).name = cstr name

/-- The array of a new node holds the name exactly when that is shorter. -/
theorem newNode_fits_iff (H : Type*) (mem : List UInt8) :
    0 ∈ (newNode H mem (strnlen mem cliMaxNameLength)).name ∧
        cstr (newNode H mem (strnlen mem cliMaxNameLength)).name = cstr mem ↔
      strlen mem < cliMaxNameLength := by
  have hle : strnlen mem cliMaxNameLength ≤ strlen mem := Nat.min_le_left _ _
  have hroom : strnlen mem cliMaxNameLength ≤
      (List.replicate cliMaxNameLength (0 : UInt8)).length := by
    rw [List.length_replicate]
    exact Nat.min_le_right _ _
  have hall : (newNode H mem (strnlen mem cliMaxNameLength)).name.take cliMaxNameLength =
      (newNode H mem (strnlen mem cliMaxNameLength)).name := by
    apply List.take_of_length_le
    rw [newNode, CliNode.zero, length_strncpy hroom, List.length_replicate]
  have hzero := zero_mem_take_strncpy_iff (k := cliMaxNameLength) hle
  have hlt : strnlen mem cliMaxNameLength < cliMaxNameLength ↔ strlen mem < cliMaxNameLength := by
    rw [strnlen]
    omega
  rw [← hlt, ← hzero]
  change _ ↔ 0 ∈ (newNode H mem (strnlen mem cliMaxNameLength)).name.take cliMaxNameLength
  rw [hall, and_iff_left_iff_imp]
  intro hmem
  rw [← hall] at hmem
  exact cstr_newNode H (hlt.1 (hzero.1 hmem))

/-- A call that is refused changes nothing; any other one adds a node. -/
theorem regCmd_cases (r : CliRegistry H) (call : CmdReg H) :
    ((r.regCmd call).registry = r ∧ (r.regCmd call).node = none) ∨
      ∃ name x, call = ⟨some name, some x⟩ ∧ cliCmdCheckName name = true ∧
        (r.cliCmdFind (some name)).1 = none ∧
        r.regCmd call = ⟨r.added name x, some r.size, .ok⟩ := by
  obtain ⟨name, x⟩ := call
  cases name with
  | none => exact Or.inl ⟨rfl, rfl⟩
  | some name =>
      cases x with
      | none => exact Or.inl ⟨rfl, rfl⟩
      | some x =>
          by_cases hcheck : cliCmdCheckName name = false
          · rw [regCmd, cliCmdReg, if_pos hcheck]
            exact Or.inl ⟨rfl, rfl⟩
          · by_cases hfind : ((r.cliCmdFind (some name)).1).isSome
            · rw [regCmd, cliCmdReg, if_neg hcheck, if_pos hfind]
              exact Or.inl ⟨rfl, rfl⟩
            · refine Or.inr ⟨name, x, rfl, Bool.not_eq_false _ ▸ hcheck, ?_, ?_⟩
              · exact Option.not_isSome_iff_eq_none.1 hfind
              · rw [regCmd, cliCmdReg, if_neg hcheck, if_neg hfind]
                rfl

/-- A short name that is accepted is a word. -/
theorem Represents.isWord (h : r.Represents cs) (hcheck : cliCmdCheckName mem = true)
    (hfree : (r.cliCmdFind (some mem)).1 = none) (hlen : strlen mem < cliMaxNameLength) :
    IsWord mem := by
  constructor
  · intro hnil
    -- the empty string is the name of the root
    have hroot := h.cliCmdFind_map_take mem
    rw [hfree, hnil, List.take_nil, List.find?_cons_of_pos (by simp)] at hroot
    cases hroot
  · rw [cliCmdCheckName, decide_eq_true_eq, strnlen, Nat.min_eq_left (Nat.le_of_lt hlen),
      take_of_le_strlen (Nat.le_refl _)] at hcheck
    rwa [strlen, List.take_length] at hcheck

/-- What the nodes of a run hold. -/
def IsRegistry (r : CliRegistry H) : Prop := ∃ cs, r.Represents cs

theorem IsRegistry.regCmd (h : IsRegistry r) (hfit : NameFits r call) :
    IsRegistry (r.regCmd call).registry := by
  obtain ⟨cs, hr⟩ := h
  rcases r.regCmd_cases call with ⟨hsame, -⟩ | ⟨name, x, rfl, hcheck, hfree, hreg⟩
  · rw [hsame]
    exact ⟨cs, hr⟩
  · have hlen := hfit (by rw [hreg]; exact nofun) name rfl
    rw [hreg]
    exact ⟨_, hr.added name x (hr.isWord hcheck hfree hlen) hlen⟩

/-- A call stores its name exactly when it is shorter than the array. -/
theorem IsRegistry.storesName_iff (h : IsRegistry r) (call : CmdReg H) :
    StoresName r call ↔ NameFits r call := by
  obtain ⟨cs, hr⟩ := h
  rw [StoresName, NameFits]
  rcases r.regCmd_cases call with ⟨-, hnone⟩ | ⟨name, x, rfl, -, -, hreg⟩
  · rw [hnone]
    exact ⟨fun _ hne => absurd rfl hne, fun _ => nofun⟩
  · have hnode := congrArg CliNode.name (hr.added_node_new name x)
    rw [hreg]
    constructor
    · intro hstores _ name' hname'
      cases hname'
      have hfits := hstores r.size rfl name rfl
      rw [hnode] at hfits
      exact (newNode_fits_iff H name).1 hfits
    · intro hfit n hn name' hname'
      cases hname'
      cases hn
      rw [hnode]
      exact (newNode_fits_iff H name).2 (hfit nofun name rfl)

/-- Looking up is a search through the nodes in the order of their numbers. -/
theorem Represents.cliCmdFind_eq_find (h : r.Represents cs) (mem : List UInt8) :
    (r.cliCmdFind (some mem)).1 = (List.range r.size).find?
      (r.nameIs mem (cliCmdGetToken mem none .default).length) := by
  rw [← h.chain.find_eq (List.length_range).le, cliCmdFind]
  change _ = r.nodeFindSibling mem _
  cases r.nodeFindSibling mem (cliCmdGetToken mem none .default).length with
  | none => rfl
  | some n => rfl

theorem nameIs_congr {length i : ℕ} (h : (r'.entry i).1 = (r.entry i).1) :
    r'.nameIs mem length i = r.nameIs mem length i := by
  change cstr (r'.node i).name = cstr (r.node i).name at h
  rw [nameIs, nameIs, strlen, strlen, strncmpEq, strncmpEq, h]

/-- A new node does not come in front of what is found. -/
theorem Represents.cliCmdFind_added (h : r.Represents cs) (name : List UInt8) (x : H)
    (hn : (r.cliCmdFind (some mem)).1 = some n) (hr' : (r.added name x).Represents ds) :
    ((r.added name x).cliCmdFind (some mem)).1 = some n := by
  have hsame : ∀ i ∈ List.range r.size,
      (r.added name x).nameIs mem (cliCmdGetToken mem none .default).length i =
        r.nameIs mem (cliCmdGetToken mem none .default).length i := fun i hi =>
    nameIs_congr (congrArg Prod.fst (h.added_entry name x (List.mem_range.1 hi)))
  have hsize : (r.added name x).size = r.size + 1 := rfl
  rw [h.cliCmdFind_eq_find] at hn
  rw [hr'.cliCmdFind_eq_find, hsize, List.range_succ, List.find?_append, List.find?_congr hsame, hn]
  rfl

/-- A new node is found under its name. -/
theorem Represents.cliCmdFind_new (h : r.Represents cs) (x : H) (hword : IsWord mem)
    (hlen : strlen mem < cliMaxNameLength) (hfree : (r.cliCmdFind (some mem)).1 = none) :
    ((r.added mem x).cliCmdFind (some mem)).1 = some r.size := by
  have hr' := h.added mem x hword hlen
  have hsame : ∀ i ∈ List.range r.size,
      (r.added mem x).nameIs mem (cliCmdGetToken mem none .default).length i =
        r.nameIs mem (cliCmdGetToken mem none .default).length i := fun i hi =>
    nameIs_congr (congrArg Prod.fst (h.added_entry mem x (List.mem_range.1 hi)))
  have hsize : (r.added mem x).size = r.size + 1 := rfl
  have hentry : ((r.added mem x).entry r.size).1 = cstr mem := by
    rw [entry, h.added_node_new]
    exact cstr_newNode H hlen
  have hnew :
      (r.added mem x).nameIs mem (cliCmdGetToken mem none .default).length r.size = true := by
    rw [nameIs_iff (length_token_le mem), hentry, eq_take_token_iff hword.head?_ne hlen,
      firstToken_of_isWord hword]
  rw [h.cliCmdFind_eq_find] at hfree
  rw [hr'.cliCmdFind_eq_find, hsize, List.range_succ, List.find?_append, List.find?_congr hsame,
    hfree, Option.none_or, List.find?_cons_of_pos hnew]

/-- A call that fits leaves what is found, and a node that it returns is found. -/
theorem IsRegistry.cliCmdFind_regCmd (h : IsRegistry r) (hfit : NameFits r call) :
    (∀ mem n, (r.cliCmdFind (some mem)).1 = some n →
        ((r.regCmd call).registry.cliCmdFind (some mem)).1 = some n) ∧
      ∀ n, (r.regCmd call).node = some n → ∀ name ∈ call.cmdName,
        ((r.regCmd call).registry.cliCmdFind (some name)).1 = some n := by
  obtain ⟨cs', hr'⟩ := h.regCmd hfit
  obtain ⟨cs, hr⟩ := h
  rcases r.regCmd_cases call with ⟨hsame, hnone⟩ | ⟨name, x, rfl, hcheck, hfree, hreg⟩
  · rw [hsame, hnone]
    exact ⟨fun _ _ hn => hn, nofun⟩
  · have hlen := hfit (by rw [hreg]; exact nofun) name rfl
    rw [hreg] at hr' ⊢
    refine ⟨fun mem n hn => hr.cliCmdFind_added name x hn hr', fun n hn name' hname' => ?_⟩
    cases hname'
    cases hn
    exact hr.cliCmdFind_new x (hr.isWord hcheck hfree hlen) hlen hfree

/-- What is found is found after any further calls that fit. -/
theorem IsRegistry.cliCmdFind_run (h : IsRegistry r) {calls : List (CmdReg H)}
    (hfit : Along NameFits regCmdStep r calls) (hrun : run regCmdStep r calls = some r')
    (hn : (r.cliCmdFind (some mem)).1 = some n) :
    IsRegistry r' ∧ (r'.cliCmdFind (some mem)).1 = some n := by
  have hstep : ∀ (s : CliRegistry H) call s', IsRegistry s ∧ (s.cliCmdFind (some mem)).1 = some n →
      NameFits s call → regCmdStep s call = some s' →
      IsRegistry s' ∧ (s'.cliCmdFind (some mem)).1 = some n := by
    rintro s call s' ⟨hs, hfind⟩ hcall hnext
    cases hnext
    exact ⟨hs.regCmd hcall, (hs.cliCmdFind_regCmd hcall).1 mem n hfind⟩
  exact Along.invariant hstep hfit ⟨h, hn⟩ hrun

theorem isRegistry_run {calls : List (CmdReg H)}
    (hfit : Along NameFits regCmdStep (init H) calls)
    (hrun : run regCmdStep (init H) calls = some r) : IsRegistry r := by
  have hstep : ∀ (s : CliRegistry H) call s', IsRegistry s → NameFits s call →
      regCmdStep s call = some s' → IsRegistry s' := by
    intro s call s' hs hcall hnext
    cases hnext
    exact hs.regCmd hcall
  exact Along.invariant hstep hfit ⟨[], represents_init H⟩ hrun

end Names

end CliRegistry

section Both

variable {F H : Type*}

open NodeTree CliRegistry

/-- After any mounts and any registrations of names that are shorter than the arrays, a further
call stores its names, ended in their arrays and unchanged, exactly when they are shorter than
the arrays too. The node that it returns is then found under its name, after any further calls
of that kind. -/
theorem storesNames_iff_fits (bytes : Option F → List UInt8) :
    (∀ (calls : List (MountCall F)) (t : NodeTree F),
      Along (Terminates bytes) (nodeMountStep bytes) (NodeTree.init F) calls →
      run (nodeMountStep bytes) (NodeTree.init F) calls = some t → ∀ call,
        (StoresNames bytes t call ↔ Terminates bytes t call) ∧
        ∀ after t' n, Along (Terminates bytes) (nodeMountStep bytes) t (call :: after) →
          run (nodeMountStep bytes) t (call :: after) = some t' →
          ((t.readOn bytes).mount call).node = some (some n) → ∀ point ∈ call.mountingPoint,
            (t'.readOn bytes).nodeFind (some point) .fullPath = (some n, .ok)) ∧
    ∀ (calls : List (CmdReg H)) (r : CliRegistry H),
      Along NameFits regCmdStep (CliRegistry.init H) calls →
      run regCmdStep (CliRegistry.init H) calls = some r → ∀ call,
        (StoresName r call ↔ NameFits r call) ∧
        ∀ after r' n, Along NameFits regCmdStep r (call :: after) →
          run regCmdStep r (call :: after) = some r' →
          (r.regCmd call).node = some n → ∀ name ∈ call.cmdName,
            r'.cliCmdFind (some name) = (some n, .ok) := by
  constructor
  · intro calls t hfit hrun call
    obtain ⟨t', hrun', htree⟩ := isTree_run hfit
    obtain rfl := Option.some.inj (hrun.symm.trans hrun')
    exact ⟨htree.storesNames_iff bytes call,
      fun after t' n hafter hnext hn point hpoint => htree.nodeFind_run hafter hnext hn hpoint⟩
  · intro calls r hfit hrun call
    have hr := isRegistry_run hfit hrun
    refine ⟨hr.storesName_iff call, fun after r' n hafter hnext hn name hname => ?_⟩
    obtain ⟨r₁, hfirst, hrest⟩ := run_cons_eq_some.1 hnext
    obtain ⟨hcall, hcalls⟩ := along_cons.1 hafter
    cases hfirst
    have hfound := (hr.cliCmdFind_regCmd hcall).2 n hn name hname
    have hlast := ((hr.regCmd hcall).cliCmdFind_run (hcalls _ rfl) hrest hfound).2
    rw [cliCmdFind_eq, hlast]
    rfl

/-- `/dev` and the command `pid` are stored and found. -/
theorem storesNames_iff_fits_dev :
    let call : MountCall (Fin 11 → UInt32) :=
      ⟨1, some [0x2F, 0x64, 0x65, 0x76], some fun _ => 0x08001235⟩
    let reg : CmdReg ℕ := ⟨some namePid.mem, some 1⟩
    StoresNames fileOperationsBytes (NodeTree.init _) call ∧
      (∀ t', run (nodeMountStep fileOperationsBytes) (NodeTree.init _) [call] = some t' →
        (t'.readOn fileOperationsBytes).nodeFind (some [0x2F, 0x64, 0x65, 0x76]) .fullPath =
          (some 1, .ok)) ∧
      StoresName (CliRegistry.init ℕ) reg ∧
      ((CliRegistry.init ℕ).regCmd reg).registry.cliCmdFind (some namePid.mem) =
        (some 1, .ok) := by
  intro call reg
  have hspec := storesNames_iff_fits (H := ℕ) fileOperationsBytes
  have hcall : Terminates fileOperationsBytes (NodeTree.init _) call := by decide
  have hreg : NameFits (CliRegistry.init ℕ) reg := by
    intro _ name hname
    cases hname
    exact namePid.strlen_lt
  obtain ⟨hstores, hfound⟩ := hspec.1 [] _ trivial rfl call
  obtain ⟨hstores', hfound'⟩ := hspec.2 [] _ trivial rfl reg
  refine ⟨hstores.2 hcall, fun t' hrun => ?_, hstores'.2 hreg, ?_⟩
  · exact hfound [] t' 1 ⟨hcall, fun _ _ => trivial⟩ hrun rfl _ rfl
  · exact hfound' [] _ 1 ⟨hreg, fun _ _ => trivial⟩ rfl rfl _ rfl

/-- A mount at a component of 64 bytes is accepted; its name does not end in the array. -/
theorem not_storesNames_long :
    ¬ ∀ (t : NodeTree (Fin 11 → UInt32)) (call : MountCall (Fin 11 → UInt32)) n,
      Reachable (nodeMountStep fileOperationsBytes) (NodeTree.init _) t →
      ((t.readOn fileOperationsBytes).mount call).node = some (some n) →
      StoresNames fileOperationsBytes t call ∧
        ∀ t', nodeMountStep fileOperationsBytes t call = some t' →
          ∀ point ∈ call.mountingPoint, (t'.readOn fileOperationsBytes).nodeFind (some point)
            .fullPath = (some n, .ok) := by
  intro hall
  have htree : IsTree (NodeTree.init (Fin 11 → UInt32)) := ⟨_, treeOf_init _, whole_init _⟩
  have hstores := (hall (NodeTree.init _) mountLong 1 (.refl _) (by decide)).1
  have hfits := (htree.storesNames_iff fileOperationsBytes mountLong).1 hstores
  exact absurd hfits (by decide)

end Both

end Catpilot
