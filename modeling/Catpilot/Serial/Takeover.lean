import Catpilot.Serial.Commander
import Catpilot.Serial.Ports
import Catpilot.Stdio.Null

/-!
# The bridge takes the port of the CLI

Before it starts a service on the port of the CLI, `serial_bridge_commander` closes the standard
streams and then calls `std_stream_deinit` for each of them. A close that succeeds frees the
descriptor; `std_stream_deinit` finds nothing there, and the next `open`, which is one of the
bridge, takes the descriptor. The streams come to the null node only where the driver refuses
to close them.
-/

namespace Catpilot

open CString Stdio Transition

namespace Stdio

section Take

variable {δ P : Type*}

/-- `close` of the descriptors in turn; the results are not looked at. -/
def closeAll (w : Stdio δ P) : List ℕ → Option (Stdio δ P)
  | [] => some w
  | fd :: fds => (w.closeFd fd).bind fun (w, _) => closeAll w fds

/-- `std_stream_deinit` of the streams in turn. -/
def deinitAll (w : Stdio δ P) (null : ℕ) : List StdStream → Stdio δ P
  | [] => w
  | s :: ss => deinitAll (w.stdStreamDeinit null s).1 null ss

/-- The CLI is taken from its streams. -/
def takeStreams (w : Stdio δ P) (null : ℕ) : Option (Stdio δ P) :=
  (w.closeAll [0, 1, 2]).map fun w => w.deinitAll null [.stdout, .stdin, .stderr]

/-- What a driver leaves that refuses to close the stream `i`: it has no operation for it, or
that returns an error. -/
def refusal (w : Stdio δ P) (i : ℕ) : Option (Stdio δ P) :=
  (w.stream i).node.bind fun n =>
    match w.operation FileOperations.closeOp n with
    | none => some { w with errno := .enoent }
    | some op => (op w.driver (w.stream i)).bind fun a =>
        if a.rv = 0 then none else some (w.answered (.close n i) i a)

/-- The driver refuses to close the streams, one after the other. -/
def RefusesAll (w : Stdio δ P) : List ℕ → Prop
  | [] => True
  | i :: is => ∃ w', w.refusal i = some w' ∧ RefusesAll w' is

end Take

end Stdio

section Bridge

variable {δ P : Type*}

/-- `tcgetattr`, `cfsetispeed`, `cfsetospeed` and `tcsetattr` of a descriptor that was opened.
`setSpeed` is what setting the speed of the device of a node makes of the drivers. -/
def setBaudrate (setSpeed : δ → ℕ → ℕ → Except Errno δ) (w : Stdio δ P) (fd : ℤ) (baudrate : ℕ) :
    Option (Stdio δ P × ℤ) :=
  if fd < 2 then some (w.fail .ebadf)
  else
    ((w.files fd.toNat).bind fun i => (w.stream i).node).map fun n =>
      match setSpeed w.driver n baudrate with
      | .error errno => w.fail errno
      | .ok driver => ({ w with driver := driver }, 0)

/-- `serial_bridge_open`. -/
def serialBridgeOpen (setSpeed : δ → ℕ → ℕ → Except Errno δ) (w : Stdio δ P) (path : List UInt8)
    (baudrate : ℕ) : Option (Stdio δ P × ℤ) :=
  (w.openFile (some path) oRdwr).bind fun (w, fd) =>
    if fd < 0 then some (w, -1)
    else if baudrate ≠ 0 then
      (setBaudrate setSpeed w fd baudrate).map fun (w, rv) => (w, if rv ≠ 0 then -1 else fd)
    else some (w, fd)

/-- `serial_bridge_start_service`, with the descriptors of the bridge if its threads are created;
`allocated` says that there is memory for it. -/
def serialBridgeStartService (setSpeed : δ → ℕ → ℕ → Except Errno δ) (allocated : Bool)
    (w : Stdio δ P) (path1 path2 : List UInt8) (baudrate1 baudrate2 : ℕ) :
    Option (Stdio δ P × Option (ℤ × ℤ)) :=
  (serialBridgeOpen setSpeed w path1 baudrate1).bind fun (w, fd1) =>
    if fd1 < 0 then some (w, none)
    else
      (serialBridgeOpen setSpeed w path2 baudrate2).bind fun (w, fd2) =>
        if fd2 < 0 then (w.closeFd fd1).map fun (w, _) => (w, none)
        else some (w, if allocated then some (fd1, fd2) else none)

/-- `/dev/`. -/
def devSlash : List UInt8 := [0x2F, 0x64, 0x65, 0x76, 0x2F]

/-- `/dev/` and a name, in an array of `MAX_NAME_LEN` bytes. -/
def devPath (ttyName : List UInt8) : List UInt8 :=
  (devSlash ++ cstr ttyName).take (maxNameLen - 1)

/-- One of the ports is the one of the CLI. -/
def NamesCli (board : Board) (cliPort : List UInt8) (c : BridgeCommand) : Prop :=
  ∃ cli ∈ board.getTtyName cliPort, cstr c.ttyName1 = cstr cli ∨ cstr c.ttyName2 = cstr cli

instance (board : Board) (cliPort : List UInt8) (c : BridgeCommand) :
    Decidable (NamesCli board cliPort c) :=
  inferInstanceAs (Decidable (∃ cli ∈ board.getTtyName cliPort, _))

/-- `serial_bridge_commander` to its end. -/
def serialBridgeRun (board : Board) (cliPort : List UInt8) (null : ℕ)
    (setSpeed : δ → ℕ → ℕ → Except Errno δ) (allocated : Bool) (w : Stdio δ P)
    (argv : List (List UInt8)) : Option (Stdio δ P × Option (ℤ × ℤ)) :=
  match serialBridgeCommander board cliPort argv with
  | none => none
  | some (.start c) =>
      (if NamesCli board cliPort c then w.takeStreams null else some w).bind fun w =>
        serialBridgeStartService setSpeed allocated w (devPath c.ttyName1) (devPath c.ttyName2)
          c.baudrate1 c.baudrate2
  | some _ => some (w, none)

/-- The standard streams lead to the null node, the bridge has other descriptors, and whatever
the threads read and write after that, a read or a write of a standard stream gets to the null
node only. -/
structure Detached (null : ℕ) (w : Stdio δ P) (bridge : Option (ℤ × ℤ)) : Prop where
  nullAt : ∀ fd < 3, w.NullAt null fd
  bridge_ge : ∀ fds ∈ bridge, 3 ≤ fds.1 ∧ 3 ≤ fds.2
  console : ∀ ios w₁, run Stdio.ioStep w ios = some w₁ → ∀ (io : Stdio.FdIo) (fd : ℕ), fd < 3 →
    io.fd = fd → ∀ w₂, Stdio.ioStep w₁ io = some w₂ → w₂.calls = w₁.calls ++ [io.driverCall null fd]

end Bridge

/-! ## Taking the streams -/

namespace Stdio

section Closes

variable {δ P : Type*} {w w' : Stdio δ P} {null : ℕ} {l : List ℕ}

/-- A close is refused, or it frees the descriptor. -/
theorem closeFd_refusal {i : ℕ} (hi : i < maxFiles) (hfile : w.files i = some i) {rv : ℤ}
    (hs : w.closeFd i = some (w', rv)) : w'.tree = w.tree ∧
      (w.refusal i = some w' ∧ w'.files = w.files ∨
        w.refusal i = none ∧ w'.files = Function.update w.files i none) := by
  simp only [closeFd, fdCheck_eq_false hi, Int.toNat_natCast, hfile, Bool.false_eq_true,
    if_false] at hs
  rw [refusal]
  cases hnode : (w.stream i).node with
  | none =>
      simp only [hnode] at hs
      cases hs
  | some n =>
      simp only [hnode] at hs
      rw [Option.bind_some]
      cases hop : w.operation FileOperations.closeOp n with
      | none =>
          simp only [hop] at hs
          cases hs
          exact ⟨rfl, Or.inl ⟨rfl, rfl⟩⟩
      | some op =>
          simp only [hop] at hs
          obtain ⟨a, ha, heq⟩ := Option.map_eq_some_iff.1 hs
          simp only [ha, Option.bind_some]
          by_cases hrv : a.rv = 0
          · rw [if_neg (not_not.2 hrv), fdDelete_of_lt _ hi] at heq
            cases heq
            rw [if_pos hrv]
            exact ⟨rfl, Or.inr ⟨rfl, rfl⟩⟩
          · rw [if_pos hrv] at heq
            cases heq
            rw [if_neg hrv]
            exact ⟨rfl, Or.inl ⟨rfl, rfl⟩⟩

/-- All closes are refused and the table is as before, or one of them has freed its descriptor. -/
theorem closeAll_spec (hnodup : l.Nodup) (hused : ∀ i ∈ l, i < maxFiles ∧ w.files i = some i)
    (hs : w.closeAll l = some w') : w'.tree = w.tree ∧ (∀ j ∉ l, w'.files j = w.files j) ∧
      (w.RefusesAll l ∧ w'.files = w.files ∨
        ¬ w.RefusesAll l ∧ ∃ k ∈ l, w'.files k = none) := by
  induction l generalizing w with
  | nil =>
      cases hs
      exact ⟨rfl, fun _ _ => rfl, Or.inl ⟨trivial, rfl⟩⟩
  | cons i l ih =>
      obtain ⟨hi, hl⟩ := List.nodup_cons.1 hnodup
      obtain ⟨⟨w₁, rv⟩, hclose, hrest⟩ := Option.bind_eq_some_iff.1 hs
      obtain ⟨hmax, hfile⟩ := hused i List.mem_cons_self
      obtain ⟨htree, hcases⟩ := closeFd_refusal hmax hfile hclose
      have hother : ∀ j, j ≠ i → w₁.files j = w.files j := by
        intro j hj
        rcases hcases with ⟨-, hfiles⟩ | ⟨-, hfiles⟩
        · rw [hfiles]
        · rw [hfiles, Function.update_of_ne hj]
      have hused₁ : ∀ j ∈ l, j < maxFiles ∧ w₁.files j = some j := by
        intro j hj
        rw [hother j fun heq => hi (heq ▸ hj)]
        exact hused j (List.mem_cons_of_mem i hj)
      obtain ⟨htree', hother', hend⟩ := ih hl hused₁ hrest
      refine ⟨htree'.trans htree, fun j hj => ?_, ?_⟩
      · obtain ⟨hji, hjl⟩ := not_or.1 (mt List.mem_cons.2 hj)
        rw [hother' j hjl, hother j hji]
      · rcases hcases with ⟨hrefusal, hfiles⟩ | ⟨hrefusal, hfiles⟩
        · rcases hend with ⟨hall, hsame⟩ | ⟨hnot, k, hk, hnone⟩
          · exact Or.inl ⟨⟨w₁, hrefusal, hall⟩, hsame.trans hfiles⟩
          · refine Or.inr ⟨?_, k, List.mem_cons_of_mem i hk, hnone⟩
            rintro ⟨w₂, hw₂, hall⟩
            obtain rfl := Option.some.inj (hrefusal.symm.trans hw₂)
            exact hnot hall
        · refine Or.inr ⟨?_, i, List.mem_cons_self, ?_⟩
          · rintro ⟨w₂, hw₂, -⟩
            rw [hrefusal] at hw₂
            cases hw₂
          · rw [hother' i hi, hfiles, Function.update_self]

theorem deinitAll_spec (w : Stdio δ P) (null : ℕ) (ss : List StdStream) :
    (w.deinitAll null ss).files = w.files ∧ (w.deinitAll null ss).tree = w.tree ∧
      ∀ j, (∃ s ∈ ss, w.files s.fd = some j) ∨ (w.stream j).node = some null →
        ((w.deinitAll null ss).stream j).node = some null := by
  induction ss generalizing w with
  | nil => exact ⟨rfl, rfl, fun j hj => hj.resolve_left fun ⟨s, hs, _⟩ => List.not_mem_nil hs⟩
  | cons s ss ih =>
      obtain ⟨hfiles, htree, hnode⟩ := w.stdStreamDeinit_spec null s
      obtain ⟨hfiles', htree', hnode'⟩ := ih (w.stdStreamDeinit null s).1
      refine ⟨hfiles'.trans hfiles, htree'.trans htree, fun j hj => hnode' j ?_⟩
      rw [hfiles]
      rcases hj with ⟨s', hs', hj⟩ | hj
      · rcases List.mem_cons.1 hs' with rfl | hmem
        · exact Or.inr (hnode j (Or.inl hj))
        · exact Or.inl ⟨s', hmem, hj⟩
      · exact Or.inr (hnode j (Or.inr hj))

/-- The standard streams are in use: they are to be closed and led to the null node. -/
def StreamsOpen (w : Stdio δ P) : Prop := ∀ fd < 3, w.files fd = some fd

/-- The streams come to the null node when the driver refuses the closes, and else one of their
descriptors is free. -/
theorem takeStreams_spec (htable : w.TableOk) (hopen : w.StreamsOpen)
    (hs : w.takeStreams null = some w') : w'.tree = w.tree ∧
      (w.RefusesAll [0, 1, 2] ∧ w'.TableOk ∧ (∀ fd < 3, w'.NullAt null fd) ∨
        ¬ w.RefusesAll [0, 1, 2] ∧ ∃ k < 3, w'.files k = none) := by
  obtain ⟨w₁, hclose, rfl⟩ := Option.map_eq_some_iff.1 hs
  have hmem : ∀ i ∈ [0, 1, 2], i < 3 := by decide
  have hused : ∀ i ∈ [0, 1, 2], i < maxFiles ∧ w.files i = some i := fun i hi =>
    ⟨Nat.lt_of_lt_of_le (hmem i hi) (by decide), hopen i (hmem i hi)⟩
  obtain ⟨htree, -, hcases⟩ := closeAll_spec (by decide) hused hclose
  obtain ⟨hfiles', htree', hnode⟩ := w₁.deinitAll_spec null [.stdout, .stdin, .stderr]
  refine ⟨htree'.trans htree, ?_⟩
  rcases hcases with ⟨hall, hfiles⟩ | ⟨hnot, k, hk, hnone⟩
  · have hstream : ∀ fd < 3, ∃ s ∈ [StdStream.stdout, .stdin, .stderr], s.fd = fd := by decide
    refine Or.inl ⟨hall, ?_, fun fd hfd => ⟨?_, hnode fd (Or.inl ?_)⟩⟩
    · rw [TableOk, hfiles', hfiles]
      exact htable
    · rw [hfiles', hfiles]
      exact hopen fd hfd
    · obtain ⟨s, hs, rfl⟩ := hstream fd hfd
      rw [hfiles]
      exact ⟨s, hs, hopen _ hfd⟩
  · refine Or.inr ⟨hnot, k, hmem k hk, ?_⟩
    rw [hfiles', hnone]

end Closes

end Stdio

/-! ## The service -/

section Service

variable {δ P : Type*} {setSpeed : δ → ℕ → ℕ → Except Errno δ} {w w' : Stdio δ P}

/-- Setting a speed changes no descriptor. -/
theorem setBaudrate_kept {fd rv : ℤ} {baudrate : ℕ}
    (hs : setBaudrate setSpeed w fd baudrate = some (w', rv)) :
    w'.files = w.files ∧ w'.stream = w.stream ∧ w'.tree = w.tree := by
  rw [setBaudrate] at hs
  split at hs
  · cases hs
    exact ⟨rfl, rfl, rfl⟩
  · obtain ⟨n, -, heq⟩ := Option.map_eq_some_iff.1 hs
    cases hspeed : setSpeed w.driver n baudrate with
    | error e =>
        rw [hspeed] at heq
        cases heq
        exact ⟨rfl, rfl, rfl⟩
    | ok driver =>
        rw [hspeed] at heq
        cases heq
        exact ⟨rfl, rfl, rfl⟩

/-- A bridge opens a descriptor, and sets no more than the speed. -/
theorem serialBridgeOpen_cases {path : List UInt8} {baudrate : ℕ} {fd : ℤ}
    (hs : serialBridgeOpen setSpeed w path baudrate = some (w', fd)) :
    ∃ w₁ rv, w.openFile (some path) oRdwr = some (w₁, rv) ∧ w'.files = w₁.files ∧
      w'.stream = w₁.stream ∧ w'.tree = w₁.tree ∧ (0 ≤ fd → fd = rv) := by
  obtain ⟨⟨w₁, rv⟩, hopen, hrest⟩ := Option.bind_eq_some_iff.1 hs
  refine ⟨w₁, rv, hopen, ?_⟩
  simp only at hrest
  split at hrest
  · cases hrest
    exact ⟨rfl, rfl, rfl, fun h => absurd h (by decide)⟩
  · split at hrest
    · obtain ⟨⟨w₂, rv'⟩, hspeed, heq⟩ := Option.map_eq_some_iff.1 hrest
      cases heq
      obtain ⟨hfiles, hstream, htree⟩ := setBaudrate_kept hspeed
      refine ⟨hfiles, hstream, htree, fun h => ?_⟩
      by_cases hrv : rv' = 0
      · rw [if_neg (not_not.2 hrv)]
      · rw [if_pos hrv] at h
        exact absurd h (by decide)
    · cases hrest
      exact ⟨rfl, rfl, rfl, fun _ => rfl⟩

/-- A descriptor that a bridge opens is in the table. -/
theorem serialBridgeOpen_opened {path : List UInt8} {baudrate : ℕ} {fd : ℤ}
    (hs : serialBridgeOpen setSpeed w path baudrate = some (w', fd)) (hfd : ¬ fd < 0) :
    ∃ i : ℕ, fd = i ∧ i < maxFiles ∧ w'.files i = some i := by
  obtain ⟨w₁, rv, hopen, hfiles, -, -, heq⟩ := serialBridgeOpen_cases hs
  obtain rfl := heq (Int.not_lt.1 hfd)
  rcases openFile_opened hopen with ⟨rfl, -⟩ | ⟨i, rfl, hopened⟩
  · exact absurd (by decide) hfd
  · exact ⟨i, rfl, hopened.least.1.1, by rw [hfiles, hopened.files_self]⟩

/-- An open does not touch a descriptor that is taken. -/
theorem serialBridgeOpen_files {path : List UInt8} {baudrate i : ℕ} {fd : ℤ}
    (hs : serialBridgeOpen setSpeed w path baudrate = some (w', fd))
    (hfile : w.files i = some i) : w'.files i = some i := by
  obtain ⟨w₁, rv, hopen, hfiles, -, -, -⟩ := serialBridgeOpen_cases hs
  rw [hfiles]
  rcases openFile_opened hopen with ⟨-, hfailed⟩ | ⟨j, -, hopened⟩
  · rw [hfailed.files, hfile]
  · rw [hopened.files, Function.update_of_ne, hfile]
    rintro rfl
    rw [hopened.least.1.2] at hfile
    cases hfile

section Invariant

variable {Q : Stdio δ P → Prop} {R : ℕ → Prop}
  (hcongr : ∀ w w' : Stdio δ P, w'.files = w.files → w'.stream = w.stream → w'.tree = w.tree →
    Q w → Q w')
  (hopen : ∀ (w w' : Stdio δ P) path rv, Q w → w.openFile path oRdwr = some (w', rv) →
    Q w' ∧ ∀ i : ℕ, rv = i → R i)

include hcongr hopen

/-- A bridge keeps what an open keeps. -/
theorem serialBridgeOpen_invariant {path : List UInt8} {baudrate : ℕ} {fd : ℤ} (h : Q w)
    (hs : serialBridgeOpen setSpeed w path baudrate = some (w', fd)) :
    Q w' ∧ ∀ i : ℕ, fd = i → R i := by
  obtain ⟨w₁, rv, hopened, hfiles, hstream, htree, heq⟩ := serialBridgeOpen_cases hs
  obtain ⟨hq, hr⟩ := hopen _ _ _ _ h hopened
  refine ⟨hcongr _ _ hfiles hstream htree hq, fun i hi => hr i ?_⟩
  rw [← heq (by rw [hi]; exact Int.natCast_nonneg i), hi]

/-- What the service keeps of the descriptors: what opens keep, and the closes of descriptors that
opens give. -/
theorem service_invariant
    (hclose : ∀ (w w' : Stdio δ P) i rv, Q w → R i → i < maxFiles → w.files i = some i →
      w.closeFd i = some (w', rv) → Q w')
    {allocated : Bool} {path1 path2 : List UInt8} {baudrate1 baudrate2 : ℕ}
    {bridge : Option (ℤ × ℤ)} (h : Q w)
    (hs : serialBridgeStartService setSpeed allocated w path1 path2 baudrate1 baudrate2 =
      some (w', bridge)) :
    Q w' ∧ ∀ fds ∈ bridge, ∃ i j : ℕ, fds = ((i : ℤ), (j : ℤ)) ∧ R i ∧ R j := by
  obtain ⟨⟨w₁, fd1⟩, hopen1, hrest⟩ := Option.bind_eq_some_iff.1 hs
  obtain ⟨hq₁, hr1⟩ := serialBridgeOpen_invariant hcongr hopen h hopen1
  simp only at hrest
  by_cases hneg1 : fd1 < 0
  · rw [if_pos hneg1] at hrest
    cases hrest
    exact ⟨hq₁, nofun⟩
  · rw [if_neg hneg1] at hrest
    obtain ⟨i, rfl, hmax, hfile⟩ := serialBridgeOpen_opened hopen1 hneg1
    obtain ⟨⟨w₂, fd2⟩, hopen2, hend⟩ := Option.bind_eq_some_iff.1 hrest
    obtain ⟨hq₂, hr2⟩ := serialBridgeOpen_invariant hcongr hopen hq₁ hopen2
    simp only at hend
    by_cases hneg2 : fd2 < 0
    · rw [if_pos hneg2] at hend
      obtain ⟨⟨w₃, rv⟩, hclosed, heq⟩ := Option.map_eq_some_iff.1 hend
      cases heq
      have hheld := serialBridgeOpen_files hopen2 hfile
      exact ⟨hclose _ _ i rv hq₂ (hr1 i rfl) hmax hheld hclosed, nofun⟩
    · rw [if_neg hneg2] at hend
      cases hend
      refine ⟨hq₂, fun fds hfds => ?_⟩
      obtain ⟨j, rfl, -, -⟩ := serialBridgeOpen_opened hopen2 hneg2
      cases allocated with
      | false => cases hfds
      | true =>
          cases hfds
          exact ⟨i, j, rfl, hr1 i rfl, hr2 j rfl⟩

end Invariant

theorem openFile_tree {path : Option (List UInt8)} {flags : UInt32} {rv : ℤ}
    (hs : w.openFile path flags = some (w', rv)) : w'.tree = w.tree := by
  rcases openFile_found hs with ⟨e, rfl, -⟩ | ⟨n, i, op, relative, a, -, -, -, -, -, -, htree, -⟩
  · rfl
  · exact htree

theorem closeFd_tree {i : ℕ} (hi : i < maxFiles) (hfile : w.files i = some i) {rv : ℤ}
    (hs : w.closeFd i = some (w', rv)) : w'.tree = w.tree := (closeFd_refusal hi hfile hs).1

/-- Once the streams lead to the null node, the service leaves them there and takes other
descriptors. -/
theorem detached_of_nullAt {null : ℕ} (htable : w.TableOk) (hnull : IsNullNode w.tree null)
    (hat : ∀ fd < 3, w.NullAt null fd) {allocated : Bool} {path1 path2 : List UInt8}
    {baudrate1 baudrate2 : ℕ} {bridge : Option (ℤ × ℤ)}
    (hs : serialBridgeStartService setSpeed allocated w path1 path2 baudrate1 baudrate2 =
      some (w', bridge)) : Detached null w' bridge := by
  have hservice := service_invariant (Q := fun w => NullStreams w null) (R := fun i => 3 ≤ i)
    ?_ ?_ ?_ ⟨htable, hnull.fOp, hat⟩ hs
  · obtain ⟨hstreams, hbridge⟩ := hservice
    refine ⟨hstreams.nullAt, fun fds hfds => ?_, ?_⟩
    · obtain ⟨i, j, rfl, hi, hj⟩ := hbridge fds hfds
      exact ⟨Int.ofNat_le.2 hi, Int.ofNat_le.2 hj⟩
    · intro ios w₁ hrun io fd hfd hio w₂ hstep
      exact ((hstreams.run hrun).ioStep hstep).2 fd hfd hio
  · intro w w' hfiles hstream htree h
    refine ⟨?_, by rw [htree]; exact h.fOp, fun fd hfd => ?_⟩
    · rw [TableOk, hfiles]
      exact h.table
    · rw [NullAt, hfiles, hstream]
      exact h.nullAt fd hfd
  · intro w w' path rv h hopen
    refine ⟨⟨h.table.openFile hopen, by rw [openFile_tree hopen]; exact h.fOp,
      fun fd hfd => ((h.nullAt fd hfd).openFile hopen).1⟩, fun i hi => ?_⟩
    by_contra hlt
    exact ((h.nullAt i (Nat.lt_of_not_le hlt)).openFile hopen).2 hi
  · intro w w' i rv h hi hmax hfile hclose
    have hne : ∀ fd < 3, fd ≠ i := fun fd hfd => Nat.ne_of_lt (Nat.lt_of_lt_of_le hfd hi)
    refine ⟨?_, by rw [closeFd_tree hmax hfile hclose]; exact h.fOp,
      fun fd hfd => (h.nullAt fd hfd).closeFd hmax hfile (hne fd hfd) hclose⟩
    rcases closeFd_refusal hmax hfile hclose with ⟨-, ⟨-, hfiles⟩ | ⟨-, hfiles⟩⟩
    · rw [TableOk, hfiles]
      exact h.table
    · rw [TableOk, hfiles]
      exact h.table.delete i

/-- A descriptor that was freed is free or leads to a port when the service is started. -/
theorem notNullAt_of_free {null k : ℕ} (hkeep : DriversKeep w.tree)
    (hnull : IsNullNode w.tree null) (hfree : w.files k = none) {allocated : Bool}
    {path1 path2 : List UInt8} {baudrate1 baudrate2 : ℕ} {bridge : Option (ℤ × ℤ)}
    (hs : serialBridgeStartService setSpeed allocated w path1 path2 baudrate1 baudrate2 =
      some (w', bridge)) : w'.NotNullAt null k := by
  have hservice := service_invariant
    (Q := fun s => s.tree = w.tree ∧ s.NotNullAt null k) (R := fun _ => True) ?_ ?_ ?_
    ⟨rfl, Or.inl hfree⟩ hs
  · exact hservice.1.2
  · rintro s s' hfiles hstream htree ⟨hs, h⟩
    rw [NotNullAt, hfiles, hstream]
    exact ⟨htree.trans hs, h⟩
  · rintro s s' path rv ⟨hs, h⟩ hopen
    rw [← hs] at hkeep hnull
    exact ⟨⟨(openFile_tree hopen).trans hs, h.openFile hkeep hnull hopen⟩, fun _ _ => trivial⟩
  · rintro s s' i rv ⟨hs, h⟩ - hmax hfile hclose
    rw [← hs] at hkeep
    exact ⟨(closeFd_tree hmax hfile hclose).trans hs, h.closeFd hkeep hmax hfile hclose⟩

/-- After a command that names the port of the CLI, the standard streams lead to the null node,
the bridge has other descriptors and reads and writes of the streams stay away from the ports,
exactly when the driver refuses to close the streams. -/
theorem detached_iff {board : Board} {cliPort : List UInt8} {argv : List (List UInt8)}
    {c : BridgeCommand} (hstart : serialBridgeCommander board cliPort argv = some (.start c))
    (hcli : NamesCli board cliPort c) {null : ℕ} (htable : w.TableOk) (hopen : w.StreamsOpen)
    (hkeep : DriversKeep w.tree) (hnull : IsNullNode w.tree null) {allocated : Bool}
    {bridge : Option (ℤ × ℤ)}
    (hrun : serialBridgeRun board cliPort null setSpeed allocated w argv = some (w', bridge)) :
    Detached null w' bridge ↔ w.RefusesAll [0, 1, 2] := by
  simp only [serialBridgeRun, hstart, if_pos hcli] at hrun
  obtain ⟨w₁, htake, hservice⟩ := Option.bind_eq_some_iff.1 hrun
  obtain ⟨htree, hcases⟩ := takeStreams_spec htable hopen htake
  rw [← htree] at hkeep hnull
  rcases hcases with ⟨hall, htable', hat⟩ | ⟨hnot, k, hk, hfree⟩
  · exact iff_of_true (detached_of_nullAt htable' hnull hat hservice) hall
  · refine iff_of_false (fun h => ?_) hnot
    exact (notNullAt_of_free hkeep hnull hfree hservice).not_nullAt (h.nullAt k hk)

/-- A driver whose close returns 0 does not refuse it. -/
theorem refusal_eq_none {i n : ℕ} {op : δ → File P → Option (Answer δ P)}
    (hnode : (w.stream i).node = some n) (hop : w.operation FileOperations.closeOp n = some op)
    (hzero : ∀ s file, ∀ a ∈ op s file, a.rv = 0) : w.refusal i = none := by
  rw [refusal, hnode, Option.bind_some, hop]
  cases hanswer : op w.driver (w.stream i) with
  | none => simp only [hanswer, Option.bind_none]
  | some a => simp only [hanswer, Option.bind_some, if_pos (hzero _ _ a hanswer)]

end Service

/-! ## The USART -/

/-- The open and the close of the USART `dev`. -/
def usartOperations (dev : ℕ) : FileOperations (ℕ → SerialPort) Unit where
  openOp := some fun s file _ =>
    ⟨(usartOpen (s dev)).1, (usartOpen (s dev)).2.1, file,
      Function.update s dev (usartOpen (s dev)).2.2⟩
  closeOp := some fun s file => some
    ⟨(usartClose (s dev)).1, (usartClose (s dev)).2.1, file,
      Function.update s dev (usartClose (s dev)).2.2⟩
  mkdirOp := none
  rmdirOp := none

theorem keepsAccess_usartOperations (dev : ℕ) : (usartOperations dev).KeepsAccess := by
  constructor
  case openOp =>
    intro op hop s file path
    obtain rfl := Option.some.inj hop
    exact file.kept_refl
  case writeOp => exact nofun
  case readOp => exact nofun
  case closeOp =>
    intro op hop s file a ha
    obtain rfl := Option.some.inj hop
    cases ha
    exact file.kept_refl

/-- `usart_close` always returns 0, so that the bridge on the port of a CLI that is a USART never
leaves the streams at the null node. -/
theorem not_refusesAll_usart {w : Stdio (ℕ → SerialPort) Unit} {n dev : ℕ}
    (hnode : (w.stream 0).node = some n) (hop : (w.tree.node n).fOp = some (usartOperations dev))
    (l : List ℕ) : ¬ w.RefusesAll (0 :: l) := by
  rintro ⟨w', hrefusal, -⟩
  have hclose : w.operation FileOperations.closeOp n = (usartOperations dev).closeOp := by
    rw [operation, hop, Option.bind_some]
  rw [refusal_eq_none hnode hclose] at hrefusal
  · cases hrefusal
  · intro s file a ha
    cases ha
    rw [usartClose, serialClose]
    split
    · rfl
    · rfl

/-- The streams at `ttyS1`, and the ports `ttyS0` and `ttyS1`. -/
def cliMounts : List (NodeTree.MountCall (FileOperations (ℕ → SerialPort) Unit)) :=
  [⟨2, some (devSlash ++ [0x73, 0x74, 0x64, 0x69, 0x6E]), some (usartOperations 1)⟩,
    ⟨1, some (devSlash ++ [0x73, 0x74, 0x64, 0x6F, 0x75, 0x74]), some (usartOperations 1)⟩,
    ⟨1, some (devSlash ++ [0x73, 0x74, 0x64, 0x65, 0x72, 0x72]), some (usartOperations 1)⟩,
    ⟨1, some (devSlash ++ ttyS ++ [0x30]), some (usartOperations 0)⟩,
    ⟨1, some (devSlash ++ ttyS ++ [0x31]), some (usartOperations 1)⟩]

/-- The tree after these mounts, with the null node in the cell 9. -/
def cliTree : NodeTree (FileOperations (ℕ → SerialPort) Unit) :=
  ((NodeTree.init _).mountAll cliMounts).setFOp 9 nullOperations

/-- The streams are open on `ttyS1`. -/
def cliState : Stdio (ℕ → SerialPort) Unit where
  errno := .ok
  files := fun i => if i < 3 then some i else none
  stream := fun i => ⟨if i = 0 then oRdonly else oWronly, some (i + 2), ()⟩
  tree := cliTree
  driver := fun i => ⟨512, true, true, i = 1, i = 1, i = 1, 0⟩
  calls := []

theorem isNullNode_cliTree : IsNullNode cliTree 9 := by
  obtain ⟨kids, h⟩ := NodeTree.TreeOf.mountAll ⟨_, NodeTree.treeOf_init _⟩
    (show ∀ call ∈ cliMounts, ∀ path ∈ call.mountingPoint, NodeTree.NamesFit path by decide)
  exact isNullNode_setFOp h (by decide)

theorem driversKeep_cliTree : DriversKeep cliTree := by
  have hinit : (NodeTree.init (FileOperations (ℕ → SerialPort) Unit)).AllFOp
      FileOperations.KeepsAccess := fun _ _ h => by cases h
  apply driversKeep_setFOp
  apply hinit.mountAll
  intro call hcall op hop
  simp only [cliMounts, List.mem_cons, List.not_mem_nil, or_false] at hcall
  rcases hcall with rfl | rfl | rfl | rfl | rfl
  all_goals
    obtain rfl := Option.some.inj hop
    exact keepsAccess_usartOperations _

/-- `serial_bridge ttyS0` on a CLI at `ttyS1`. -/
def bridgeArgv : List (List UInt8) :=
  [[0x73, 0x65, 0x72, 0x69, 0x61, 0x6C, 0x5F, 0x62, 0x72, 0x69, 0x64, 0x67, 0x65], ttyS ++ [0x30]]

theorem tableOk_cliState : cliState.TableOk := by
  intro fd i h
  change (if fd < 3 then some fd else none) = some i at h
  split at h
  · rename_i hlt
    cases h
    exact ⟨rfl, Nat.lt_of_lt_of_le hlt (by decide)⟩
  · cases h

theorem streamsOpen_cliState : cliState.StreamsOpen := fun _ hfd => if_pos hfd

theorem bridge_cliState : (serialBridgeRun cubeBoard (ttyS ++ [0x31]) 9 (fun s _ _ => .ok s) true
    cliState bridgeArgv).map Prod.snd = some (some (0, 1)) := by
  decide +kernel

/-- The driver closes the streams, and they are not at the null node. -/
theorem detached_iff_cliState : ∃ w' bridge,
    serialBridgeRun cubeBoard (ttyS ++ [0x31]) 9 (fun s _ _ => .ok s) true cliState bridgeArgv =
      some (w', bridge) ∧ ¬ Detached 9 w' bridge := by
  obtain ⟨⟨w', bridge⟩, hrun, -⟩ := Option.map_eq_some_iff.1 bridge_cliState
  have hstart : serialBridgeCommander cubeBoard (ttyS ++ [0x31]) bridgeArgv =
      some (.start ⟨ttyS ++ [0x30], ttyS ++ [0x31], 0, 0⟩) := by
    decide
  have hiff := detached_iff hstart (by decide) tableOk_cliState streamsOpen_cliState
    driversKeep_cliTree isNullNode_cliTree hrun
  exact ⟨w', bridge, hrun, fun h => not_refusesAll_usart rfl rfl _ (hiff.1 h)⟩

/-- The bridge takes the descriptors 0 and 1. -/
theorem not_detached :
    ¬ ∀ (board : Board) (cliPort : List UInt8) (argv : List (List UInt8)) (c : BridgeCommand)
      (null : ℕ) (setSpeed : (ℕ → SerialPort) → ℕ → ℕ → Except Errno (ℕ → SerialPort))
      (allocated : Bool) (w w' : Stdio (ℕ → SerialPort) Unit) (bridge : Option (ℤ × ℤ)),
      serialBridgeCommander board cliPort argv = some (.start c) → NamesCli board cliPort c →
      w.TableOk → w.StreamsOpen → DriversKeep w.tree → IsNullNode w.tree null →
      serialBridgeRun board cliPort null setSpeed allocated w argv = some (w', bridge) →
      Detached null w' bridge := by
  intro hall
  obtain ⟨⟨w', bridge⟩, hrun, rfl⟩ := Option.map_eq_some_iff.1 bridge_cliState
  have hstart : serialBridgeCommander cubeBoard (ttyS ++ [0x31]) bridgeArgv =
      some (.start ⟨ttyS ++ [0x30], ttyS ++ [0x31], 0, 0⟩) := by
    decide
  have hdetached := hall _ _ _ _ 9 _ _ _ _ _ hstart (by decide) tableOk_cliState
    streamsOpen_cliState driversKeep_cliTree isNullNode_cliTree hrun
  exact absurd (hdetached.bridge_ge (0, 1) rfl).1 (by decide)

end Catpilot
