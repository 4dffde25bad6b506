import Catpilot.Stdio.Access
import Catpilot.Vfs.Names

/-!
# The null node

`fsa/null.c`, and `std_stream_deinit`, which leads a standard stream to the null node. Once the
three standard streams lead there, reads and writes of them go nowhere else, whatever the threads
read and write; opens take other descriptors.
-/

namespace Catpilot

open CString Transition

section Operations

variable {δ P : Type*}

/-- `null_open`, `null_write`, `null_read` and `null_close`. -/
def nullOperations : FileOperations δ P where
  openOp := some fun s file _ => ⟨0, .ok, file, s⟩
  writeOp := some fun s file buf => some ⟨buf.length, .ok, file, s⟩
  readOp := some fun s file count => some (⟨count, .ok, file, s⟩, [])
  closeOp := some fun s file => some ⟨0, .ok, file, s⟩
  mkdirOp := none
  rmdirOp := none

/-- The names that `std_stream_deinit` knows. -/
inductive StdStream where
  | stdin
  | stdout
  | stderr
  deriving DecidableEq, Repr

/-- The descriptor of a standard stream. -/
def StdStream.fd : StdStream → ℕ
  | stdin => 0
  | stdout => 1
  | stderr => 2

end Operations

namespace Stdio

section Deinit

variable {δ P : Type*} {w w' : Stdio δ P} {null : ℕ}

/-- The cell `null` is `null_node`, which is not in the tree. -/
structure IsNullNode (tree : NodeTree (FileOperations δ P)) (null : ℕ) : Prop where
  fOp : (tree.node null).fOp = some nullOperations
  notFound : ∀ path, (tree.nodeFind path .nearestPath).1 ≠ some null

theorem keepsAccess_nullOperations :
    (nullOperations : FileOperations δ P).KeepsAccess := by
  constructor
  case openOp =>
    intro op hop s file path
    obtain rfl := Option.some.inj hop
    exact file.kept_refl
  case writeOp =>
    intro op hop s file buf a ha
    obtain rfl := Option.some.inj hop
    cases ha
    exact file.kept_refl
  case readOp =>
    intro op hop s file count a ha
    obtain rfl := Option.some.inj hop
    cases ha
    exact file.kept_refl
  case closeOp =>
    intro op hop s file a ha
    obtain rfl := Option.some.inj hop
    cases ha
    exact file.kept_refl

/-- A cell behind the tree can be the null node. -/
theorem isNullNode_setFOp {tree : NodeTree (FileOperations δ P)} {kids : ℕ → List ℕ}
    (h : tree.TreeOf kids) (hnull : tree.size ≤ null) :
    IsNullNode (tree.setFOp null nullOperations) null where
  fOp := by rw [NodeTree.setFOp, NodeTree.modify_node_self]
  notFound := by
    intro path hfind
    cases path with
    | none => cases hfind
    | some path => exact absurd ((h.setFOp null _).nearest_lt hfind) (Nat.not_lt_of_le hnull)

theorem driversKeep_setFOp {tree : NodeTree (FileOperations δ P)}
    (h : tree.AllFOp FileOperations.KeepsAccess) (null : ℕ) :
    DriversKeep (tree.setFOp null nullOperations) := by
  intro n ops hops
  by_cases hn : n = null
  · rw [hn, NodeTree.setFOp, NodeTree.modify_node_self] at hops
    obtain rfl := Option.some.inj hops
    exact keepsAccess_nullOperations
  · rw [NodeTree.setFOp, NodeTree.modify_node_of_ne _ _ hn] at hops
    exact h n ops hops

/-- `std_stream_deinit`. -/
def stdStreamDeinit (w : Stdio δ P) (null : ℕ) (stream : StdStream) : Stdio δ P × ℤ :=
  match w.files stream.fd with
  | none => (w, -1)
  | some i =>
      ({ w with stream := Function.update w.stream i { w.stream i with node := some null } }, 0)

/-- A descriptor is bound to the null node. -/
def NullAt (w : Stdio δ P) (null fd : ℕ) : Prop :=
  w.files fd = some fd ∧ (w.stream fd).node = some null

/-- A descriptor is free or leads elsewhere. -/
def NotNullAt (w : Stdio δ P) (null fd : ℕ) : Prop :=
  w.files fd = none ∨ w.files fd = some fd ∧ (w.stream fd).node ≠ some null

theorem NotNullAt.not_nullAt {fd : ℕ} (h : w.NotNullAt null fd) : ¬ w.NullAt null fd := by
  rintro ⟨hfile, hnode⟩
  rcases h with hnone | ⟨-, hne⟩
  · rw [hnone] at hfile
    cases hfile
  · exact hne hnode

/-- A stream that is in use comes to the null node, and the others stay. -/
theorem stdStreamDeinit_spec (w : Stdio δ P) (null : ℕ) (stream : StdStream) :
    (w.stdStreamDeinit null stream).1.files = w.files ∧
      (w.stdStreamDeinit null stream).1.tree = w.tree ∧
      ∀ j, w.files stream.fd = some j ∨ (w.stream j).node = some null →
        ((w.stdStreamDeinit null stream).1.stream j).node = some null := by
  rw [stdStreamDeinit]
  cases hfile : w.files stream.fd with
  | none => exact ⟨rfl, rfl, fun j hj => hj.resolve_left nofun⟩
  | some i =>
      refine ⟨rfl, rfl, fun j hj => ?_⟩
      simp only
      by_cases hji : j = i
      · rw [hji, Function.update_self]
      · rw [Function.update_of_ne hji]
        exact hj.resolve_left fun h => hji (Option.some.inj h).symm

end Deinit

section Keep

variable {δ P : Type*} {w w' : Stdio δ P} {null fd i : ℕ} {rv : ℤ}

/-- An `open` leaves a descriptor at the null node, and gives another one. -/
theorem NullAt.openFile (h : w.NullAt null fd) {path : Option (List UInt8)} {flags : UInt32}
    (hs : w.openFile path flags = some (w', rv)) : w'.NullAt null fd ∧ rv ≠ fd := by
  have hused : fd ∉ w.free := by
    rintro ⟨-, hfree⟩
    rw [h.1] at hfree
    cases hfree
  rcases openFile_opened hs with ⟨rfl, hfailed⟩ | ⟨i, rfl, hopened⟩
  · rw [NullAt, hfailed.files, hfailed.stream fd fun hleast => hused hleast.1]
    exact ⟨h, by omega⟩
  · have hne : fd ≠ i := by
      rintro rfl
      exact hused hopened.least.1
    rw [NullAt, hopened.files, Function.update_of_ne hne, hopened.stream fd hne]
    exact ⟨h, by omega⟩

/-- An `open` does not lead a descriptor to the null node. -/
theorem NotNullAt.openFile (h : w.NotNullAt null fd) (hkeep : DriversKeep w.tree)
    (hnull : IsNullNode w.tree null) {path : Option (List UInt8)} {flags : UInt32}
    (hs : w.openFile path flags = some (w', rv)) : w'.NotNullAt null fd := by
  rcases openFile_found hs with ⟨e, rfl, -⟩ |
    ⟨n, i, op, relative, a, hfind, hop, hleast, ha, hstream, -, -, hfiles⟩
  · exact h
  · obtain ⟨ops, hops, hopen⟩ := Option.bind_eq_some_iff.1 hop
    have hnode : a.file.node = some n := by
      rw [ha, ((hkeep n ops hops).openOp op hopen _ _ _).node]
      rfl
    have hne : some n ≠ some null := fun heq => hnull.notFound path (hfind.trans heq)
    rw [NotNullAt, hstream]
    by_cases hi : fd = i
    · rw [hi, Function.update_self, hnode]
      rcases hfiles with ⟨-, -, hfiles⟩ | ⟨-, -, hfiles⟩
      · rw [hfiles]
        exact Or.inl hleast.1.2
      · rw [hfiles, Function.update_self]
        exact Or.inr ⟨rfl, hne⟩
    · rw [Function.update_of_ne hi]
      rcases hfiles with ⟨-, -, hfiles⟩ | ⟨-, -, hfiles⟩
      · rw [hfiles]
        exact h
      · rw [hfiles, Function.update_of_ne hi]
        exact h

theorem NullAt.closeFd (h : w.NullAt null fd) (hi : i < maxFiles) (hfile : w.files i = some i)
    (hne : fd ≠ i) (hs : w.closeFd i = some (w', rv)) : w'.NullAt null fd := by
  rcases closeFd_cases hi hfile hs with ⟨e, rfl, -⟩ | ⟨n, a, -, -, -, ⟨-, rfl⟩ | ⟨-, rfl⟩⟩
  · exact h
  · rw [NullAt, answered_stream_of_ne hne]
    exact h
  · change Function.update w.files i none fd = some fd ∧
      ((w.answered (.close n i) i a).stream fd).node = some null
    rw [Function.update_of_ne hne, answered_stream_of_ne hne]
    exact h

theorem NotNullAt.closeFd (h : w.NotNullAt null fd) (hkeep : DriversKeep w.tree)
    (hi : i < maxFiles) (hfile : w.files i = some i) (hs : w.closeFd i = some (w', rv)) :
    w'.NotNullAt null fd := by
  have hsame : ∀ n a, w.closeAnswer i = some a →
      (((w.answered (.close n i) i a).stream fd).node ≠ some null ↔
        (w.stream fd).node ≠ some null) := by
    intro n a ha
    by_cases hfd : fd = i
    · rw [hfd, answered_stream, (hkeep.closeAnswer ha).node]
    · rw [answered_stream_of_ne hfd]
  rcases closeFd_cases hi hfile hs with ⟨e, rfl, -⟩ | ⟨n, a, -, ha, -, ⟨-, rfl⟩ | ⟨-, rfl⟩⟩
  · exact h
  · rw [NotNullAt, hsame n a ha]
    exact h
  · change Function.update w.files i none fd = none ∨ Function.update w.files i none fd = some fd ∧
      ((w.answered (.close n i) i a).stream fd).node ≠ some null
    rw [hsame n a ha]
    by_cases hfd : fd = i
    · rw [hfd, Function.update_self]
      exact Or.inl rfl
    · rw [Function.update_of_ne hfd]
      exact h

end Keep

/-! ## Reads and writes -/

/-- A `read` or a `write` of a thread. -/
inductive FdIo where
  | read (fd : ℤ) (count : ℕ)
  | write (fd : ℤ) (buf : List UInt8)
  deriving DecidableEq, Repr

/-- The descriptor of a call. -/
def FdIo.fd : FdIo → ℤ
  | read fd _ => fd
  | write fd _ => fd

/-- The driver call of a read or a write that gets to the node `n` of a stream. -/
def FdIo.driverCall (n i : ℕ) : FdIo → DriverCall
  | read _ count => .read n i count
  | write _ buf => .write n i buf

section Io

variable {δ P : Type*} {w w' : Stdio δ P} {null : ℕ} {io : FdIo}

/-- A call as a step of a run. -/
def ioStep (w : Stdio δ P) : FdIo → Option (Stdio δ P)
  | .read fd count => (w.readFd fd count).map Prod.fst
  | .write fd buf => (w.writeFd fd buf).map Prod.fst

/-- The standard streams lead to the null node. -/
structure NullStreams (w : Stdio δ P) (null : ℕ) : Prop where
  table : w.TableOk
  fOp : (w.tree.node null).fOp = some nullOperations
  nullAt : ∀ fd < 3, w.NullAt null fd

section FdCall

variable {α : Type*} {member : FileOperations δ P → Option α}
  {answer : α → δ → File P → Option (Answer δ P × List UInt8)} {call : ℕ → ℕ → DriverCall}
  {fd rv : ℤ} {bytes : List UInt8}

/-- What `write` and `read` leave as it is: the table and every stream but their own. -/
theorem TableOk.fdCall_kept (h : w.TableOk)
    (hs : w.fdCall fd member answer call = some (w', rv, bytes)) :
    w'.files = w.files ∧ w'.tree = w.tree ∧ ∀ j : ℕ, fd ≠ j → w'.stream j = w.stream j := by
  rw [fdCall] at hs
  split at hs
  · cases hs
    exact ⟨rfl, rfl, fun _ _ => rfl⟩
  · rename_i hcheck
    split at hs
    · cases hs
      exact ⟨rfl, rfl, fun _ _ => rfl⟩
    · rename_i i hfile
      split at hs
      · cases hs
      · split at hs
        · cases hs
          exact ⟨rfl, rfl, fun _ _ => rfl⟩
        · obtain ⟨r, -, heq⟩ := Option.map_eq_some_iff.1 hs
          cases heq
          refine ⟨rfl, rfl, fun j hj => answered_stream_of_ne ?_ _ _⟩
          rintro rfl
          have hrange := (h _ _ hfile).1
          rw [Catpilot.fdCheck, Bool.or_eq_true, decide_eq_true_eq, decide_eq_true_eq] at hcheck
          omega

/-- A read or a write leaves the standard streams at the null node, and one of them only calls
its operation. -/
theorem NullStreams.fdCall (h : w.NullStreams null) {op : α} (hop : member nullOperations = some op)
    (hkeep : ∀ s file, ∀ r ∈ answer op s file, r.1.file = file)
    (hs : w.fdCall fd member answer call = some (w', rv, bytes)) :
    w'.NullStreams null ∧ ∀ i < 3, fd = (i : ℕ) → w'.calls = w.calls ++ [call null i] := by
  by_cases hfd : ∃ i : ℕ, i < 3 ∧ fd = i
  · obtain ⟨i, hi, rfl⟩ := hfd
    obtain ⟨hfile, hnode⟩ := h.nullAt i hi
    have hmax : i < maxFiles := (h.table i i hfile).2
    have hnull : w.operation member null = some op := by
      rw [operation, h.fOp, Option.bind_some, hop]
    rw [fdCall_of_some hmax hfile hnode hnull] at hs
    obtain ⟨r, hr, heq⟩ := Option.map_eq_some_iff.1 hs
    cases heq
    have hfile' := hkeep _ _ r hr
    refine ⟨⟨h.table, h.fOp, fun j hj => ?_⟩, fun j _ hj => ?_⟩
    · by_cases hji : j = i
      · rw [NullAt, hji, answered_stream, hfile']
        exact ⟨hfile, hnode⟩
      · rw [NullAt, answered_stream_of_ne hji]
        exact h.nullAt j hj
    · rw [Int.natCast_inj.1 hj]
      rfl
  · obtain ⟨hfiles, htree, hstream⟩ := h.table.fdCall_kept hs
    refine ⟨⟨?_, ?_, fun j hj => ?_⟩, fun j hj heq => absurd ⟨j, hj, heq⟩ hfd⟩
    · rw [TableOk, hfiles]
      exact h.table
    · rw [htree]
      exact h.fOp
    · rw [NullAt, hfiles, hstream j fun heq => hfd ⟨j, hj, heq⟩]
      exact h.nullAt j hj

end FdCall

theorem NullStreams.ioStep (h : w.NullStreams null) (hs : ioStep w io = some w') :
    w'.NullStreams null ∧
      ∀ fd < 3, io.fd = (fd : ℕ) → w'.calls = w.calls ++ [io.driverCall null fd] := by
  cases io with
  | read fd count =>
      obtain ⟨⟨w₁, rv, bytes⟩, hread, rfl⟩ := Option.map_eq_some_iff.1 hs
      have hop : (nullOperations : FileOperations δ P).readOp = some _ := rfl
      refine h.fdCall hop (fun s file r hr => ?_) hread
      cases hr
      rfl
  | write fd buf =>
      obtain ⟨⟨w₁, rv, bytes⟩, hwrite, rfl⟩ := Option.map_eq_some_iff.1 hs
      have hop : (nullOperations : FileOperations δ P).writeOp = some _ := rfl
      refine h.fdCall hop (fun s file r hr => ?_) hwrite
      cases hr
      rfl

/-- After any reads and writes of the threads, a read or a write of a standard stream gets to the
null node only. -/
theorem NullStreams.run (h : w.NullStreams null) {ios : List FdIo}
    (hrun : Transition.run Stdio.ioStep w ios = some w') : w'.NullStreams null := by
  have hstep : ∀ (s : Stdio δ P) io s', s.NullStreams null → Stdio.ioStep s io = some s' →
      s'.NullStreams null := fun s io s' hs hio => (hs.ioStep hio).1
  exact run_invariant hstep h hrun

end Io

end Stdio

end Catpilot
