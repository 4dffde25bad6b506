import Catpilot.Fatfs.Leaks
import Catpilot.Stdio.Descriptors

/-!
# Access modes

`fread` and `fwrite` test the flags of a stream with the mask `O_RDWR`, which shares a
bit with `O_RDONLY` and with `O_WRONLY`. So the test lets every stream through that was
opened in one of the three modes, and what is denied is left to the driver.
-/

namespace Catpilot

open Transition

section Keeps

variable {δ P : Type*}

/-- The file has its node and its access mode still. -/
structure File.Kept (file file' : File P) : Prop where
  node : file'.node = file.node
  access : file'.flags &&& oAccmode = file.flags &&& oAccmode

/-- What the operations of the drivers have in common: they do not touch the node nor the
access mode of a file. -/
structure FileOperations.KeepsAccess (ops : FileOperations δ P) : Prop where
  openOp : ∀ op ∈ ops.openOp, ∀ s (file : File P) path, file.Kept (op s file path).file
  writeOp : ∀ op ∈ ops.writeOp, ∀ s file buf, ∀ a ∈ op s file buf, file.Kept a.file
  readOp : ∀ op ∈ ops.readOp, ∀ s file count, ∀ a ∈ op s file count, file.Kept a.1.file
  closeOp : ∀ op ∈ ops.closeOp, ∀ s file, ∀ a ∈ op s file, file.Kept a.file

theorem File.kept_refl (file : File P) : file.Kept file := ⟨rfl, rfl⟩

/-- The FatFs driver changes nothing of a file but what its private data point to. -/
theorem FfApi.keepsAccess_operations {V Φ : Type*} (ff : FfApi V Φ) :
    ff.operations.KeepsAccess := by
  constructor
  case openOp =>
    intro op hop s file path
    obtain rfl := Option.some.inj hop
    have hcases := ff.fatfsOpen_cases (Q := fun _ => True) (fun _ _ _ _ _ => trivial)
      (fun _ _ _ _ => trivial) s file path
    simp only at hcases
    rcases hcases with ⟨-, ha⟩ | ⟨-, ⟨-, hfile, -⟩ | ⟨-, hfile, -⟩⟩
    · rw [ha]
      exact file.kept_refl
    · rw [hfile]
      exact ⟨rfl, rfl⟩
    · rw [hfile]
      exact ⟨rfl, rfl⟩
  case writeOp =>
    intro op hop s file buf a ha
    obtain rfl := Option.some.inj hop
    rw [ff.fatfsWrite_file ha]
    exact file.kept_refl
  case readOp =>
    intro op hop s file count a ha
    obtain rfl := Option.some.inj hop
    rw [ff.fatfsRead_file ha]
    exact file.kept_refl
  case closeOp =>
    intro op hop s file a ha
    obtain rfl := Option.some.inj hop
    rw [ff.fatfsClose_file ha]
    exact file.kept_refl

end Keeps

namespace Stdio

section Io

variable {δ P : Type*} {w w' : Stdio δ P}

/-- What an operation of the node of the stream `i` answers. -/
def ioAnswer {α : Type*} (w : Stdio δ P) (member : FileOperations δ P → Option α)
    (answer : α → δ → File P → Option (Answer δ P × List UInt8)) (i : ℕ) :
    Option (Answer δ P × List UInt8) :=
  (w.stream i).node.bind fun n =>
    (w.operation member n).bind fun op => answer op w.driver (w.stream i)

/-- The call returns without a call of a driver. -/
def Refuses {α : Type*} (w : Stdio δ P) (result : Option (Stdio δ P × α)) : Prop :=
  ∃ w' r, result = some (w', r) ∧ w'.calls = w.calls

/-- The call returns after this call of a driver. -/
def Admits {α : Type*} (w : Stdio δ P) (result : Option (Stdio δ P × α)) (call : DriverCall) :
    Prop :=
  ∃ w' r, result = some (w', r) ∧ w'.calls = w.calls ++ [call]

section FdCall

variable {α : Type*} {member : FileOperations δ P → Option α}
  {answer : α → δ → File P → Option (Answer δ P × List UInt8)} {call : ℕ → ℕ → DriverCall}
  {i n : ℕ}

/-- `write` and `read` on a descriptor in use whose driver lacks the operation. -/
theorem fdCall_of_none (hi : i < maxFiles) (hfile : w.files i = some i)
    (hnode : (w.stream i).node = some n) (hop : w.operation member n = none) :
    w.fdCall i member answer call = some ({ w with errno := .enoent }, -1, []) := by
  simp only [fdCall, fdCheck_eq_false hi, Int.toNat_natCast, hfile, hnode, hop,
    Bool.false_eq_true, if_false]

/-- `write` and `read` on a descriptor in use whose driver has the operation. -/
theorem fdCall_of_some {op : α} (hi : i < maxFiles) (hfile : w.files i = some i)
    (hnode : (w.stream i).node = some n) (hop : w.operation member n = some op) :
    w.fdCall i member answer call = (answer op w.driver (w.stream i)).map fun r =>
      (w.answered (call n i) i r.1, r.1.rv, r.2) := by
  simp only [fdCall, fdCheck_eq_false hi, Int.toNat_natCast, hfile, hnode, hop,
    Bool.false_eq_true, if_false]

end FdCall

section StreamIo

variable {i : ℕ} (access : UInt32) (io : Stdio δ P → ℤ → Option (Stdio δ P × ℤ × List UInt8))

/-- `fread` and `fwrite` on a stream that is not in use. -/
theorem TableOk.streamIo_closed (h : w.TableOk) (hclosed : w.files i ≠ some i) :
    w.streamIo (some i) access io = some ({ w with errno := .ebadf }, 0, []) := by
  simp only [streamIo, h.fileno_closed hclosed, fail]
  rfl

/-- `fread` and `fwrite` on a stream in use whose flags pass the test. -/
theorem TableOk.streamIo_open (h : w.TableOk) (hopen : w.files i = some i)
    (hflags : (w.stream i).flags &&& oRdwr ≠ 0) :
    w.streamIo (some i) access io = (io w i).map fun r =>
      (r.1, if r.2.1 < 0 then 0 else UInt32.ofNat r.2.1.toNat, r.2.2) := by
  have hfd : ¬ (i : ℤ) < 0 := by omega
  simp only [streamIo, h.fileno_eq hopen]
  rw [if_neg hfd, if_neg (not_not.2 (Or.inl hflags))]

end StreamIo

/-- Streams, nodes and access modes are as they were, and no descriptor came into use. -/
structure Steady (w w' : Stdio δ P) : Prop where
  tree : w'.tree = w.tree
  files : ∀ fd i, w'.files fd = some i → w.files fd = some i
  stream : ∀ i, (w.stream i).Kept (w'.stream i)

theorem steady_errno (w : Stdio δ P) (e : Errno) : Steady w { w with errno := e } :=
  ⟨rfl, fun _ _ => id, fun i => (w.stream i).kept_refl⟩

theorem Steady.trans {w'' : Stdio δ P} (h : Steady w w') (h' : Steady w' w'') : Steady w w'' where
  tree := h'.tree.trans h.tree
  files := fun fd i hi => h.files fd i (h'.files fd i hi)
  stream := fun i =>
    ⟨(h'.stream i).node.trans (h.stream i).node, (h'.stream i).access.trans (h.stream i).access⟩

theorem Steady.tableOk (h : Steady w w') (htable : w.TableOk) : w'.TableOk :=
  fun fd i hi => htable fd i (h.files fd i hi)

theorem steady_answered {call : DriverCall} {i : ℕ} {a : Answer δ P}
    (ha : (w.stream i).Kept a.file) : Steady w (w.answered call i a) := by
  refine ⟨rfl, fun _ _ => id, fun j => ?_⟩
  by_cases hj : j = i
  · rw [hj, answered_stream]
    exact ha
  · rw [answered_stream_of_ne hj]
    exact (w.stream j).kept_refl

theorem steady_setFlags {f : UInt32 → UInt32} (hf : ∀ x, f x &&& oAccmode = x &&& oAccmode)
    (i : ℕ) : Steady w (w.setFlags i f) := by
  refine ⟨rfl, fun _ _ => id, fun j => ?_⟩
  by_cases hj : j = i
  · rw [hj, setFlags_stream]
    exact ⟨rfl, hf _⟩
  · rw [setFlags_stream_of_ne hj]
    exact (w.stream j).kept_refl

/-- All drivers in the tree keep the access modes. -/
def DriversKeep (tree : NodeTree (FileOperations δ P)) : Prop :=
  ∀ n ops, (tree.node n).fOp = some ops → ops.KeepsAccess

theorem DriversKeep.closeAnswer (h : DriversKeep w.tree) {i : ℕ} {a : Answer δ P}
    (ha : w.closeAnswer i = some a) : (w.stream i).Kept a.file := by
  obtain ⟨n, op, -, hop, hanswer⟩ := closeAnswer_eq_some_iff.1 ha
  obtain ⟨ops, hops, hclose⟩ := Option.bind_eq_some_iff.1 hop
  exact (h n ops hops).closeOp op hclose _ _ a hanswer

theorem DriversKeep.closeFd (h : DriversKeep w.tree) (htable : w.TableOk) {fd rv : ℤ}
    (hs : w.closeFd fd = some (w', rv)) : Steady w w' := by
  rcases htable.closeFd_cases hs with ⟨e, rfl, -⟩ |
    ⟨i, n, a, -, -, -, ha, -, ⟨-, rfl⟩ | ⟨-, rfl⟩⟩
  · exact w.steady_errno e
  · exact steady_answered (h.closeAnswer ha)
  · have hanswered : Steady w (w.answered (.close n i) i a) := steady_answered (h.closeAnswer ha)
    refine ⟨hanswered.tree, fun fd j hj => ?_, hanswered.stream⟩
    by_cases hfd : fd = i
    · rw [hfd, show ({ w.answered (.close n i) i a with
        files := Function.update w.files i none } : Stdio δ P).files i = none from
          Function.update_self ..] at hj
      cases hj
    · exact (Function.update_of_ne hfd none w.files).symm.trans hj

theorem DriversKeep.fclose (h : DriversKeep w.tree) (htable : w.TableOk) {stream : Option ℕ}
    {rv : ℤ} (hs : w.fclose stream = some (w', rv)) : Steady w w' := by
  cases stream with
  | none =>
      cases hs
      exact w.steady_errno _
  | some i =>
      obtain ⟨n, a, hnode, ha⟩ := closeAnswer_of_fclose hs
      have hanswered : Steady w (w.answered (.close n i) i a) := steady_answered (h.closeAnswer ha)
      rw [fclose_of_closeAnswer hnode ha] at hs
      split at hs
      · cases hs
        exact hanswered.trans (steady_setFlags or_sErr_and_oAccmode i)
      · obtain ⟨e, he⟩ := (w.answered (.close n i) i a).fileno_fst (some i)
        rw [he] at hs
        have herrno := hanswered.trans (steady_errno _ e)
        refine herrno.trans (closeFd ?_ (herrno.tableOk htable) hs)
        rwa [herrno.tree]

theorem steady_fdCall {α : Type*} {member : FileOperations δ P → Option α}
    {answer : α → δ → File P → Option (Answer δ P × List UInt8)} {call : ℕ → ℕ → DriverCall}
    (hanswer : ∀ n op, w.operation member n = some op → ∀ s file, ∀ a ∈ answer op s file,
      file.Kept a.1.file) {fd : ℤ} {r : Stdio δ P × ℤ × List UInt8}
    (hs : w.fdCall fd member answer call = some r) : Steady w r.1 := by
  unfold fdCall at hs
  split at hs
  · cases hs
    exact w.steady_errno _
  · split at hs
    · cases hs
      exact w.steady_errno _
    · rename_i i hfile
      split at hs
      · cases hs
      · rename_i n hnode
        split at hs
        · cases hs
          exact w.steady_errno _
        · rename_i op hop
          obtain ⟨a, ha, rfl⟩ := Option.map_eq_some_iff.1 hs
          exact steady_answered (hanswer n op hop _ _ a ha)

theorem DriversKeep.writeFd (h : DriversKeep w.tree) {fd : ℤ} {buf : List UInt8}
    {r : Stdio δ P × ℤ × List UInt8} (hs : w.writeFd fd buf = some r) : Steady w r.1 := by
  refine steady_fdCall (fun n op hop s file a ha => ?_) hs
  obtain ⟨ops, hops, hwrite⟩ := Option.bind_eq_some_iff.1 hop
  obtain ⟨a', ha', rfl⟩ := Option.map_eq_some_iff.1 ha
  exact (h n ops hops).writeOp op hwrite s file buf a' ha'

theorem DriversKeep.readFd (h : DriversKeep w.tree) {fd : ℤ} {count : ℕ}
    {r : Stdio δ P × ℤ × List UInt8} (hs : w.readFd fd count = some r) : Steady w r.1 := by
  refine steady_fdCall (fun n op hop s file a ha => ?_) hs
  obtain ⟨ops, hops, hread⟩ := Option.bind_eq_some_iff.1 hop
  exact (h n ops hops).readOp op hread s file count a ha

theorem steady_streamIo {access : UInt32}
    {io : Stdio δ P → ℤ → Option (Stdio δ P × ℤ × List UInt8)}
    (hio : ∀ e fd r, io { w with errno := e } fd = some r → Steady w r.1) {stream : Option ℕ}
    {r : Stdio δ P × UInt32 × List UInt8} (hs : w.streamIo stream access io = some r) :
    Steady w r.1 := by
  cases stream with
  | none =>
      cases hs
      exact w.steady_errno _
  | some i =>
      obtain ⟨e, he⟩ := w.fileno_fst (some i)
      unfold streamIo at hs
      simp only [he] at hs
      split at hs
      · cases hs
        exact w.steady_errno _
      · split at hs
        · cases hs
          exact w.steady_errno _
        · obtain ⟨r', hr', rfl⟩ := Option.map_eq_some_iff.1 hs
          exact hio e _ r' hr'

/-- A stream comes into use with the access mode that `open` is called with. -/
theorem DriversKeep.openFile (h : DriversKeep w.tree) {path : Option (List UInt8)}
    {flags : UInt32} {rv : ℤ} (hs : w.openFile path flags = some (w', rv)) :
    w'.tree = w.tree ∧ ∀ i, rv = (i : ℕ) →
      (w'.stream i).node ≠ none ∧ (w'.stream i).flags &&& oAccmode = flags &&& oAccmode := by
  rcases openFile_cases hs with ⟨e, rfl, rfl⟩ |
    ⟨n, j, op, relative, a, hop, -, ha, hstream, -, htree, hfiles⟩
  · exact ⟨rfl, fun i hi => by omega⟩
  · refine ⟨htree, fun i hi => ?_⟩
    obtain ⟨ops, hops, hopen⟩ := Option.bind_eq_some_iff.1 hop
    have hkept := (h n ops hops).openOp op hopen w.driver (w.openedFile j n flags) relative
    rcases hfiles with ⟨-, rfl, -⟩ | ⟨-, rfl, -⟩
    · omega
    · obtain rfl := Int.ofNat.inj hi
      rw [hstream, Function.update_self, ha]
      refine ⟨?_, hkept.access⟩
      rw [hkept.node]
      exact nofun

end Io

end Stdio

/-- A call on descriptors or streams; `other` stands for all calls that leave the nodes
and the access modes of the streams as they are. -/
inductive IoCall (δ P : Type*) where
  | open (pathname : Option (List UInt8)) (flags : UInt32)
  | write (fd : ℤ) (buf : List UInt8)
  | read (fd : ℤ) (count : ℕ)
  | close (fd : ℤ)
  | fopen (uninit : UInt32) (filename : Option (List UInt8)) (mode : List UInt8)
  | fread (size nmemb : UInt32) (stream : Option ℕ)
  | fwrite (ptr : ℕ → UInt8) (size nmemb : UInt32) (stream : Option ℕ)
  | fclose (stream : Option ℕ)
  | other (driver : δ) (status : ℕ → UInt32) (privateData : ℕ → P)

/-- The streams, with the flags that each was opened with at last. -/
structure Streams (δ P : Type*) where
  stdio : Stdio δ P
  opened : ℕ → UInt32

namespace Streams

section Step

variable {δ P : Type*} {s s' : Streams δ P}

/-- No stream was opened yet. -/
def init (tree : NodeTree (FileOperations δ P)) (driver : δ) (stream : ℕ → File P) :
    Streams δ P :=
  ⟨Stdio.init tree driver stream, fun _ => 0⟩

/-- The stream `i` was opened with the flags. -/
def openAt (s : Streams δ P) (w : Stdio δ P) (i : ℕ) (flags : UInt32) : Streams δ P :=
  ⟨w, Function.update s.opened i flags⟩

@[simp] theorem openAt_opened (s : Streams δ P) (w : Stdio δ P) (i : ℕ) (flags : UInt32) :
    (s.openAt w i flags).opened i = flags := Function.update_self ..

theorem openAt_opened_of_ne {i j : ℕ} (h : j ≠ i) (w : Stdio δ P) (flags : UInt32) :
    (s.openAt w i flags).opened j = s.opened j := Function.update_of_ne h ..

/-- A step of a run. -/
def step (s : Streams δ P) : IoCall δ P → Option (Streams δ P)
  | .open pathname flags =>
      (s.stdio.openFile pathname flags).map fun (w, rv) =>
        if rv < 0 then { s with stdio := w } else s.openAt w rv.toNat flags
  | .write fd buf => (s.stdio.writeFd fd buf).map fun r => { s with stdio := r.1 }
  | .read fd count => (s.stdio.readFd fd count).map fun r => { s with stdio := r.1 }
  | .close fd => (s.stdio.closeFd fd).map fun r => { s with stdio := r.1 }
  | .fopen uninit filename mode =>
      (s.stdio.fopen uninit filename mode).map fun (w, stream) =>
        match stream with
        | none => { s with stdio := w }
        | some i => s.openAt w i (Stdio.fopenFlag uninit mode)
  | .fread size nmemb stream =>
      (s.stdio.fread size nmemb stream).map fun r => { s with stdio := r.1 }
  | .fwrite ptr size nmemb stream =>
      (s.stdio.fwrite ptr size nmemb stream).map fun r => { s with stdio := r.1 }
  | .fclose stream => (s.stdio.fclose stream).map fun r => { s with stdio := r.1 }
  | .other driver status privateData =>
      let stream := fun i =>
        { s.stdio.stream i with
          flags := (s.stdio.stream i).flags &&& oAccmode ||| status i &&& ~~~oAccmode
          privateData := privateData i }
      some { s with stdio := { s.stdio with driver, stream } }

/-- The stream was opened in the access mode. -/
def OpenedAs (s : Streams δ P) (i : ℕ) (mode : UInt32) : Prop := s.opened i &&& oAccmode = mode

/-- Every stream in use has a node and the access mode that it was opened in. -/
structure AccessOk (s : Streams δ P) : Prop where
  table : s.stdio.TableOk
  drivers : Stdio.DriversKeep s.stdio.tree
  node : ∀ i, s.stdio.files i = some i → (s.stdio.stream i).node ≠ none
  access : ∀ i, s.stdio.files i = some i → s.OpenedAs i ((s.stdio.stream i).flags &&& oAccmode)

theorem AccessOk.of_steady (h : s.AccessOk) {w : Stdio δ P} (hw : s.stdio.Steady w) :
    AccessOk { s with stdio := w } where
  table := hw.tableOk h.table
  drivers := by
    rw [hw.tree]
    exact h.drivers
  node := fun i hi => by
    rw [(hw.stream i).node]
    exact h.node i (hw.files i i hi)
  access := fun i hi => (h.access i (hw.files i i hi)).trans (hw.stream i).access.symm

/-- A failed open leaves the streams in use. -/
theorem AccessOk.of_openFailed (h : s.AccessOk) {w : Stdio δ P} (hw : s.stdio.OpenFailed w)
    (htree : w.tree = s.stdio.tree) : AccessOk { s with stdio := w } := by
  have hstream : ∀ i, w.files i = some i →
      s.stdio.files i = some i ∧ w.stream i = s.stdio.stream i := by
    intro i hi
    rw [hw.files] at hi
    refine ⟨hi, hw.stream i fun hleast => ?_⟩
    rw [hleast.1.2] at hi
    cases hi
  constructor
  case table => exact h.table.of_files hw.files
  case drivers => exact htree ▸ h.drivers
  case node =>
    intro i hi
    obtain ⟨hopen, hsame⟩ := hstream i hi
    exact hsame ▸ h.node i hopen
  case access =>
    intro i hi
    obtain ⟨hopen, hsame⟩ := hstream i hi
    exact hsame ▸ h.access i hopen

/-- A stream comes into use with a node and its access mode. -/
theorem AccessOk.of_openedAt (h : s.AccessOk) {w : Stdio δ P} {i : ℕ} {flags : UInt32}
    (hw : s.stdio.OpenedAt w i) (htree : w.tree = s.stdio.tree)
    (hnode : (w.stream i).node ≠ none)
    (haccess : (w.stream i).flags &&& oAccmode = flags &&& oAccmode) :
    (s.openAt w i flags).AccessOk := by
  have hother : ∀ j, j ≠ i → w.files j = some j →
      s.stdio.files j = some j ∧ w.stream j = s.stdio.stream j := by
    intro j hji hj
    rw [hw.files, Function.update_of_ne hji] at hj
    exact ⟨hj, hw.stream j hji⟩
  constructor
  case table => exact (h.table.insert hw.least.1.1).of_files hw.files
  case drivers => exact htree ▸ h.drivers
  case node =>
    intro j hj
    by_cases hji : j = i
    · rw [hji]
      exact hnode
    · obtain ⟨hopen, hsame⟩ := hother j hji hj
      exact hsame ▸ h.node j hopen
  case access =>
    intro j hj
    by_cases hji : j = i
    · rw [hji, OpenedAs, openAt_opened]
      exact haccess.symm
    · obtain ⟨hopen, hsame⟩ := hother j hji hj
      rw [OpenedAs, openAt_opened_of_ne hji]
      exact hsame ▸ h.access j hopen

/-- Every step keeps it. -/
theorem AccessOk.step (h : s.AccessOk) {call : IoCall δ P} (hs : s.step call = some s') :
    s'.AccessOk := by
  cases call with
  | «open» pathname flags =>
      obtain ⟨⟨w, rv⟩, hopen, rfl⟩ := Option.map_eq_some_iff.1 hs
      obtain ⟨htree, hstream⟩ := h.drivers.openFile hopen
      rcases Stdio.openFile_opened hopen with ⟨rfl, hfailed⟩ | ⟨i, rfl, hopened⟩
      · exact h.of_openFailed hfailed htree
      · obtain ⟨hnode, haccess⟩ := hstream i rfl
        simp only [if_neg (show ¬ (i : ℤ) < 0 by omega), Int.toNat_natCast]
        exact h.of_openedAt hopened htree hnode haccess
  | write fd buf =>
      obtain ⟨r, hwrite, rfl⟩ := Option.map_eq_some_iff.1 hs
      exact h.of_steady (h.drivers.writeFd hwrite)
  | read fd count =>
      obtain ⟨r, hread, rfl⟩ := Option.map_eq_some_iff.1 hs
      exact h.of_steady (h.drivers.readFd hread)
  | close fd =>
      obtain ⟨⟨w, rv⟩, hclose, rfl⟩ := Option.map_eq_some_iff.1 hs
      exact h.of_steady (h.drivers.closeFd h.table hclose)
  | fopen uninit filename mode =>
      obtain ⟨⟨w, stream⟩, hfopen, rfl⟩ := Option.map_eq_some_iff.1 hs
      obtain ⟨w₁, rv, hopen, hcases⟩ := Stdio.fopen_openedAt hfopen
      obtain ⟨htree, hstream⟩ := h.drivers.openFile hopen
      rcases hcases with ⟨hfailed, rfl, rfl⟩ | ⟨i, rfl, hopened, rfl, rfl⟩
      · exact (h.of_openFailed hfailed htree).of_steady (w₁.steady_errno _)
      · obtain ⟨hnode, haccess⟩ := hstream i rfl
        have h₁ := h.of_openedAt hopened htree hnode haccess
        exact h₁.of_steady (Stdio.steady_setFlags and_compl_sErr_and_oAccmode i)
  | fread size nmemb stream =>
      obtain ⟨r, hfread, rfl⟩ := Option.map_eq_some_iff.1 hs
      refine h.of_steady (Stdio.steady_streamIo (fun e fd r hr => ?_) hfread)
      have hdrivers : Stdio.DriversKeep { s.stdio with errno := e }.tree := h.drivers
      exact (s.stdio.steady_errno e).trans (hdrivers.readFd hr)
  | fwrite ptr size nmemb stream =>
      obtain ⟨r, hfwrite, rfl⟩ := Option.map_eq_some_iff.1 hs
      refine h.of_steady (Stdio.steady_streamIo (fun e fd r hr => ?_) hfwrite)
      have hdrivers : Stdio.DriversKeep { s.stdio with errno := e }.tree := h.drivers
      exact (s.stdio.steady_errno e).trans (hdrivers.writeFd hr)
  | fclose stream =>
      obtain ⟨⟨w, rv⟩, hfclose, rfl⟩ := Option.map_eq_some_iff.1 hs
      exact h.of_steady (h.drivers.fclose h.table hfclose)
  | other driver status privateData =>
      cases hs
      exact h.of_steady ⟨rfl, fun _ _ => id, fun i => ⟨rfl, replace_and_oAccmode _ _⟩⟩

end Step

section Enforced

variable {δ P : Type*} {s : Streams δ P}

/-- A call of `fread` or `fwrite` keeps to the access mode: a stream that was opened in
the mode `denied` is refused, and one that was opened in both reaches its driver. -/
structure Enforces {α : Type*} (s : Streams δ P) (i : ℕ) (denied : UInt32)
    (member : FileOperations δ P → Option α)
    (answer : α → δ → File P → Option (Answer δ P × List UInt8)) (call : ℕ → ℕ → DriverCall)
    (result : Option (Stdio δ P × UInt32 × List UInt8)) : Prop where
  refuses : s.OpenedAs i denied → s.stdio.Refuses result
  admits : s.stdio.files i = some i → s.OpenedAs i oRdwr → ∀ n a,
    (s.stdio.stream i).node = some n → s.stdio.ioAnswer member answer i = some a →
      s.stdio.Admits result (call n i)

/-- The access mode is enforced at the call. -/
def Enforced (s : Streams δ P) : IoCall δ P → Prop
  | .fread size nmemb (some i) =>
      s.Enforces i oWronly FileOperations.readOp
        (fun op driver file => op driver file (size * nmemb).toNat)
        (fun n i => .read n i (size * nmemb).toNat) (s.stdio.fread size nmemb (some i))
  | .fwrite ptr size nmemb (some i) =>
      s.Enforces i oRdonly FileOperations.writeOp
        (fun op driver file => (op driver file (Stdio.bytesAt ptr (size * nmemb))).map fun a =>
          (a, []))
        (fun n i => .write n i (Stdio.bytesAt ptr (size * nmemb)))
        (s.stdio.fwrite ptr size nmemb (some i))
  | _ => True

/-- If the stream is in use and was opened in the mode `denied`, its driver has no such
operation. -/
def Permits {α : Type*} (s : Streams δ P) (i : ℕ) (denied : UInt32)
    (member : FileOperations δ P → Option α) : Prop :=
  s.stdio.files i = some i → s.OpenedAs i denied →
    ∀ n ∈ (s.stdio.stream i).node, (s.stdio.operation member n).isNone

/-- No stream is read that was opened for writing only and whose driver can read, and the
other way round. -/
def Permitted (s : Streams δ P) : IoCall δ P → Prop
  | .fread _ _ (some i) => s.Permits i oWronly FileOperations.readOp
  | .fwrite _ _ _ (some i) => s.Permits i oRdonly FileOperations.writeOp
  | _ => True

instance {α : Type*} (s : Streams δ P) (i : ℕ) (denied : UInt32)
    (member : FileOperations δ P → Option α) : Decidable (s.Permits i denied member) :=
  inferInstanceAs (Decidable (s.stdio.files i = some i → s.opened i &&& oAccmode = denied →
    ∀ n ∈ (s.stdio.stream i).node, (s.stdio.operation member n).isNone))

instance (s : Streams δ P) (call : IoCall δ P) : Decidable (s.Permitted call) :=
  match call with
  | .fread _ _ (some i) =>
      inferInstanceAs (Decidable (s.Permits i oWronly FileOperations.readOp))
  | .fwrite _ _ _ (some i) =>
      inferInstanceAs (Decidable (s.Permits i oRdonly FileOperations.writeOp))
  | .fread _ _ none | .fwrite _ _ _ none | .open .. | .write .. | .read .. | .close .. |
    .fopen .. | .fclose .. | .other .. => isTrue trivial

/-- The test of `fread` and `fwrite` passes in each of the three modes. -/
theorem AccessOk.flags_ne_zero (h : s.AccessOk) {i : ℕ} {mode : UInt32}
    (hmode : mode &&& oRdwr ≠ 0) (hopen : s.stdio.files i = some i) (hopened : s.OpenedAs i mode) :
    (s.stdio.stream i).flags &&& oRdwr ≠ 0 := by
  rw [and_oRdwr, ← h.access i hopen, hopened]
  exact hmode

/-- So a call that should be refused is so only where the driver has no operation. -/
theorem AccessOk.enforces_iff {α : Type*} (h : s.AccessOk) (i : ℕ) {denied : UInt32}
    (hdenied : denied &&& oRdwr ≠ 0) (access : UInt32)
    (member : FileOperations δ P → Option α)
    (answer : α → δ → File P → Option (Answer δ P × List UInt8)) (call : ℕ → ℕ → DriverCall) :
    s.Enforces i denied member answer call
        (s.stdio.streamIo (some i) access fun w fd => w.fdCall fd member answer call) ↔
      s.Permits i denied member := by
  by_cases hopen : s.stdio.files i = some i
  · have hi := (h.table i i hopen).2
    have hpass := fun mode (hmode : mode &&& oRdwr ≠ 0) (hopened : s.OpenedAs i mode) =>
      h.table.streamIo_open access (fun w fd => w.fdCall fd member answer call) hopen
        (h.flags_ne_zero hmode hopen hopened)
    constructor
    · intro henforces _ hopened n hnode
      rw [Option.isNone_iff_eq_none]
      by_contra hop
      obtain ⟨op, hop⟩ := Option.ne_none_iff_exists'.1 hop
      obtain ⟨w', r, hresult, hcalls⟩ := henforces.refuses hopened
      rw [hpass denied hdenied hopened, Stdio.fdCall_of_some hi hopen hnode hop,
        Option.map_map] at hresult
      obtain ⟨a, -, ha⟩ := Option.map_eq_some_iff.1 hresult
      have hw : s.stdio.answered (call n i) i a.1 = w' := congrArg Prod.fst ha
      rw [← hw] at hcalls
      exact absurd (List.append_right_eq_self.1 hcalls) (List.cons_ne_nil _ _)
    · intro hpermits
      constructor
      · intro hopened
        obtain ⟨n, hnode⟩ := Option.ne_none_iff_exists'.1 (h.node i hopen)
        have hop := Option.isNone_iff_eq_none.1 (hpermits hopen hopened n hnode)
        have hresult := hpass denied hdenied hopened
        rw [Stdio.fdCall_of_none hi hopen hnode hop] at hresult
        exact ⟨_, _, hresult, rfl⟩
      · intro _ hopened n a hnode ha
        rw [Stdio.ioAnswer, hnode, Option.bind_some] at ha
        obtain ⟨op, hop, hanswer⟩ := Option.bind_eq_some_iff.1 ha
        have hresult := hpass oRdwr (by decide) hopened
        rw [Stdio.fdCall_of_some hi hopen hnode hop, hanswer] at hresult
        exact ⟨_, _, hresult, rfl⟩
  · have hclosed := h.table.streamIo_closed access
      (fun w fd => w.fdCall fd member answer call) hopen
    constructor
    · exact fun _ hi => absurd hi hopen
    · intro _
      exact ⟨fun _ => ⟨_, _, hclosed, rfl⟩, fun hi => absurd hi hopen⟩

theorem AccessOk.enforced_iff (h : s.AccessOk) (call : IoCall δ P) :
    s.Enforced call ↔ s.Permitted call := by
  rcases call with _ | _ | _ | _ | _ | ⟨size, nmemb, _ | i⟩ | ⟨ptr, size, nmemb, _ | i⟩ | _ | _
  case fread.some => exact h.enforces_iff i (by decide) oRdonly _ _ _
  case fwrite.some => exact h.enforces_iff i (by decide) oWronly _ _ _
  all_goals exact Iff.rfl

theorem accessOk_init {tree : NodeTree (FileOperations δ P)} (htree : Stdio.DriversKeep tree)
    (driver : δ) (stream : ℕ → File P) : (init tree driver stream).AccessOk where
  table := Stdio.tableOk_init tree driver stream
  drivers := htree
  node := fun _ => nofun
  access := fun _ => nofun

/-- The access modes are enforced exactly in the runs in which nobody reads a stream that
was opened for writing only, nor writes one that was opened for reading only, and whose
driver could do it. -/
theorem along_enforced_iff {tree : NodeTree (FileOperations δ P)}
    (htree : Stdio.DriversKeep tree) (driver : δ) (stream : ℕ → File P)
    (calls : List (IoCall δ P)) :
    Along Enforced step (init tree driver stream) calls ↔
      Along Permitted step (init tree driver stream) calls :=
  along_congr (fun _ _ _ h _ hs => AccessOk.step h hs) (fun _ call h => h.enforced_iff call)
    (accessOk_init htree driver stream) calls

end Enforced

section SdCard

open Stdio

theorem driversKeep_sdCardTree : DriversKeep sdCardTree := by
  intro n ops hops
  rw [overFatfs_sdCardTree n ops hops]
  exact sdCard.api.keepsAccess_operations

/-- The card is mounted, and no stream was opened yet. -/
def sdCardStreams : Streams (Fatfs Unit (Fil Unit)) PrivateData :=
  init sdCardTree ⟨fun _ => sdCard.zero, 0, ()⟩ fun _ => ⟨0, none, .null⟩

/-- `/fs/a` is opened in the mode. -/
def fopenA (mode : UInt8) : IoCall (Fatfs Unit (Fil Unit)) PrivateData :=
  .fopen 0 (some [0x2F, 0x66, 0x73, 0x2F, 0x61]) [mode]

/-- `/fs/a` is opened for reading, and read. -/
theorem along_enforced_iff_readA :
    Along Enforced step sdCardStreams [fopenA 0x72, .fread 1 1 (some 0)] ↔
      Along Permitted step sdCardStreams [fopenA 0x72, .fread 1 1 (some 0)] :=
  along_enforced_iff driversKeep_sdCardTree _ _ _

/-- `/fs/a` is opened for writing only, and read: the driver is called. -/
theorem fread_reaches_writeOnly :
    (run step sdCardStreams [fopenA 0x77, .fread 1 1 (some 0)]).map (fun s => s.stdio.calls) =
        some [.open 1 0 [0x61], .read 1 0 1] ∧
      ¬ Along Enforced step sdCardStreams [fopenA 0x77, .fread 1 1 (some 0)] := by
  refine ⟨by decide +kernel, fun henforced => ?_⟩
  obtain ⟨s, hs⟩ : ∃ s, step sdCardStreams (fopenA 0x77) = some s := ⟨_, rfl⟩
  have hok : s.AccessOk := (accessOk_init driversKeep_sdCardTree _ _).step hs
  have hpermitted := (hok.enforced_iff _).1 (henforced.2 s hs).1
  have hdenied : (step sdCardStreams (fopenA 0x77)).map (fun s =>
      decide (s.Permitted (.fread 1 1 (some 0)))) = some false := by decide +kernel
  rw [hs, Option.map_some, decide_eq_true hpermitted] at hdenied
  exact absurd hdenied (by decide)

end SdCard

end Streams

end Catpilot
