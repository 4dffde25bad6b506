import Catpilot.Stdio.Basic
import Catpilot.Vfs.Mount

/-!
# The table of descriptors

A descriptor in use holds the pointer to the stream of its own number, so that
`fileno` finds a stream again. On top of that: what `open`, `close` and `fclose` do,
one lemma for each way through them.
-/

namespace Catpilot

theorem fdCheck_eq_false {i : ℕ} (h : i < maxFiles) : fdCheck i = false := by
  rw [fdCheck, Bool.or_eq_false_iff, decide_eq_false_iff_not, decide_eq_false_iff_not]
  omega

namespace Stdio

section Table

variable {δ P : Type*} {w w' : Stdio δ P}

/-- Every descriptor in use holds its own stream. -/
def TableOk (w : Stdio δ P) : Prop := ∀ fd i, w.files fd = some i → i = fd ∧ fd < maxFiles

/-- The free descriptors. -/
def free (w : Stdio δ P) : Set ℕ := {i | i < maxFiles ∧ w.files i = none}

/-- `fd_new` gives the least free descriptor, if there is one. -/
theorem fdNew_cases (w : Stdio δ P) :
    w.fdNew = -1 ∧ w.free = ∅ ∨ ∃ i : ℕ, w.fdNew = i ∧ IsLeast w.free i := by
  rw [fdNew]
  cases hfind : (List.range maxFiles).find? fun i => (w.files i).isNone with
  | none =>
      refine Or.inl ⟨rfl, Set.eq_empty_of_forall_notMem fun i hi => ?_⟩
      have hused := List.find?_range_eq_none.1 hfind i hi.1
      rw [hi.2] at hused
      cases hused
  | some i =>
      obtain ⟨hfree, hi, hbefore⟩ := List.find?_range_eq_some.1 hfind
      refine Or.inr ⟨i, rfl, ⟨List.mem_range.1 hi, Option.isNone_iff_eq_none.1 hfree⟩, ?_⟩
      intro j hj
      by_contra hlt
      have hused := hbefore j (not_le.1 hlt)
      rw [hj.2] at hused
      cases hused

/-- `fileno` finds an open stream at its own number. -/
theorem TableOk.fileno_eq (h : w.TableOk) {i : ℕ} (hopen : w.files i = some i) :
    w.fileno (some i) = (w, (i : ℤ)) := by
  have hmem : i ∈ List.range maxFiles := List.mem_range.2 (h i i hopen).2
  rw [fileno]
  cases hfind : (List.range maxFiles).find? fun j => w.files j = some i with
  | none =>
      rw [List.find?_eq_none] at hfind
      exact absurd (decide_eq_true hopen) (hfind i hmem)
  | some j =>
      have hj : w.files j = some i := by simpa using List.find?_some hfind
      rw [(h j i hj).1]

/-- It does not find a stream that no descriptor holds. -/
theorem TableOk.fileno_closed (h : w.TableOk) {i : ℕ} (hclosed : w.files i ≠ some i) :
    w.fileno (some i) = w.fail .ebadf := by
  rw [fileno]
  cases hfind : (List.range maxFiles).find? fun j => w.files j = some i with
  | none => rfl
  | some j =>
      have hj : w.files j = some i := by simpa using List.find?_some hfind
      obtain ⟨rfl, -⟩ := h j i hj
      exact absurd hj hclosed

theorem fdDelete_of_lt (w : Stdio δ P) {i : ℕ} (h : i < maxFiles) :
    w.fdDelete i = ({ w with files := Function.update w.files i none }, 0) := by
  have hrange : ¬ ((i : ℤ) ≥ maxFiles ∨ (i : ℤ) < 0) := by omega
  rw [fdDelete, if_neg hrange, Int.toNat_natCast]

theorem TableOk.delete (h : w.TableOk) (i : ℕ) :
    TableOk { w with files := Function.update w.files i none } := by
  intro fd j hfd
  by_cases hi : fd = i
  · have hnone : ({ w with files := Function.update w.files i none } : Stdio δ P).files i = none :=
      Function.update_self ..
    rw [hi, hnone] at hfd
    cases hfd
  · exact h fd j ((Function.update_of_ne hi none w.files).symm.trans hfd)

theorem TableOk.insert (h : w.TableOk) {i : ℕ} (hi : i < maxFiles) :
    TableOk { w with files := Function.update w.files i (some i) } := by
  intro fd j hfd
  by_cases hfi : fd = i
  · rw [hfi, show ({ w with files := Function.update w.files i (some i) } : Stdio δ P).files i =
      some i from Function.update_self ..] at hfd
    rw [hfi]
    exact ⟨(Option.some.inj hfd).symm, hi⟩
  · exact h fd j ((Function.update_of_ne hfi (some i) w.files).symm.trans hfd)

end Table

section Open

variable {δ P : Type*} {w w' : Stdio δ P}

/-- The stream that `open` fills in, as the driver gets it. -/
def openedFile (w : Stdio δ P) (i n : ℕ) (flags : UInt32) : File P :=
  { w.stream i with node := some n, flags := flags }

/-- `open` with a node, its operation, a free descriptor and a relative path. -/
theorem openFile_of_operation {path : List UInt8} {n i : ℕ}
    {op : δ → File P → List UInt8 → Answer δ P} {relative : List UInt8} (flags : UInt32)
    (hfind : (w.tree.nodeFind (some path) .nearestPath).1 = some n)
    (hop : w.operation FileOperations.openOp n = some op) (hfd : w.fdNew = i) (hi : i < maxFiles)
    (hrel : relativePathname path (w.tree.node n).name = some relative) :
    w.openFile (some path) flags =
      let a := op w.driver (w.openedFile i n flags) relative
      let w' := answered { w with files := Function.update w.files i (some i) }
        (.open n i relative) i a
      if a.rv ≠ 0 then
        some ((w'.fdDelete i).1.fail (if a.errno = .ok then .eio else a.errno))
      else some ({ w' with errno := .ok }, (i : ℤ)) := by
  simp only [openFile, hfind, hop, hfd, fdCheck_eq_false hi, Int.toNat_natCast, hrel,
    Bool.false_eq_true, if_false, fdDelete_of_lt _ hi]
  rfl

theorem setFlags_stream (w : Stdio δ P) (i : ℕ) (f : UInt32 → UInt32) :
    (w.setFlags i f).stream i = { w.stream i with flags := f (w.stream i).flags } :=
  Function.update_self ..

theorem setFlags_stream_of_ne {i j : ℕ} (h : j ≠ i) (f : UInt32 → UInt32) :
    (w.setFlags i f).stream j = w.stream j := Function.update_of_ne h ..

/-- What a call of `open` can have done, with the node that it has found. -/
theorem openFile_found {path : Option (List UInt8)} {flags : UInt32} {rv : ℤ}
    (h : w.openFile path flags = some (w', rv)) :
    (∃ e, w' = { w with errno := e } ∧ rv = -1) ∨
      ∃ n i op relative a, (w.tree.nodeFind path .nearestPath).1 = some n ∧
        w.operation FileOperations.openOp n = some op ∧
        IsLeast w.free i ∧ a = op w.driver (w.openedFile i n flags) relative ∧
        w'.stream = Function.update w.stream i a.file ∧ w'.driver = a.driver ∧ w'.tree = w.tree ∧
        (a.rv ≠ 0 ∧ rv = -1 ∧ w'.files = w.files ∨
          a.rv = 0 ∧ rv = i ∧ w'.files = Function.update w.files i (some i)) := by
  cases path with
  | none =>
      cases h
      exact Or.inl ⟨_, rfl, rfl⟩
  | some path =>
      cases hfind : (w.tree.nodeFind (some path) .nearestPath).1 with
      | none =>
          simp only [openFile, hfind] at h
          cases h
          exact Or.inl ⟨_, rfl, rfl⟩
      | some n =>
          cases hop : w.operation FileOperations.openOp n with
          | none =>
              simp only [openFile, hfind, hop] at h
              cases h
              exact Or.inl ⟨_, rfl, rfl⟩
          | some op =>
              rcases w.fdNew_cases with ⟨hfd, -⟩ | ⟨i, hfd, hleast⟩
              · simp only [openFile, hfind, hop, hfd] at h
                cases h
                exact Or.inl ⟨_, rfl, rfl⟩
              · have hi : i < maxFiles := hleast.1.1
                cases hrel : relativePathname path (w.tree.node n).name with
                | none =>
                    simp only [openFile, hfind, hop, hfd, fdCheck_eq_false hi, hrel] at h
                    cases h
                | some relative =>
                    rw [openFile_of_operation flags hfind hop hfd hi hrel] at h
                    simp only at h
                    refine Or.inr ⟨n, i, op, relative, _, rfl, hop, hleast, rfl, ?_⟩
                    split at h
                    · rename_i hrv
                      rw [fdDelete_of_lt _ hi] at h
                      cases h
                      refine ⟨rfl, rfl, rfl, Or.inl ⟨hrv, rfl, ?_⟩⟩
                      simp only [answered, Function.update_idem]
                      rw [← hleast.1.2, Function.update_eq_self]
                    · rename_i hrv
                      cases h
                      exact ⟨rfl, rfl, rfl, Or.inr ⟨not_not.1 hrv, rfl, rfl⟩⟩

/-- What a call of `open` can have done. -/
theorem openFile_cases {path : Option (List UInt8)} {flags : UInt32} {rv : ℤ}
    (h : w.openFile path flags = some (w', rv)) :
    (∃ e, w' = { w with errno := e } ∧ rv = -1) ∨
      ∃ n i op relative a, w.operation FileOperations.openOp n = some op ∧
        IsLeast w.free i ∧ a = op w.driver (w.openedFile i n flags) relative ∧
        w'.stream = Function.update w.stream i a.file ∧ w'.driver = a.driver ∧ w'.tree = w.tree ∧
        (a.rv ≠ 0 ∧ rv = -1 ∧ w'.files = w.files ∨
          a.rv = 0 ∧ rv = i ∧ w'.files = Function.update w.files i (some i)) := by
  rcases openFile_found h with hfail | ⟨n, i, op, relative, a, -, hrest⟩
  · exact Or.inl hfail
  · exact Or.inr ⟨n, i, op, relative, a, hrest⟩

theorem TableOk.openFile (h : w.TableOk) {path : Option (List UInt8)} {flags : UInt32} {rv : ℤ}
    (hs : w.openFile path flags = some (w', rv)) : w'.TableOk := by
  rcases openFile_cases hs with ⟨e, rfl, -⟩ |
    ⟨n, i, op, relative, a, -, hleast, -, -, -, -, ⟨-, -, hfiles⟩ | ⟨-, -, hfiles⟩⟩
  · exact h
  · rw [TableOk, hfiles]
    exact h
  · rw [TableOk, hfiles]
    exact h.insert hleast.1.1

/-- `fopen` fails where `open` does, and else changes the flags of the stream that it
returns. -/
theorem fopen_eq_some {uninit : UInt32} {filename : Option (List UInt8)} {mode : List UInt8}
    {stream : Option ℕ} (h : w.fopen uninit filename mode = some (w', stream)) :
    ∃ w₁ rv, w.openFile filename (fopenFlag uninit mode) = some (w₁, rv) ∧
      (fdCheck rv = true ∧ w' = { w₁ with errno := .ebadf } ∧ stream = none ∨
        fdCheck rv = false ∧ ∃ i, w₁.files rv.toNat = some i ∧
          w' = w₁.setFlags i (· &&& ~~~sErr) ∧ stream = some i) := by
  obtain ⟨⟨w₁, rv⟩, hopen, hrest⟩ := Option.bind_eq_some_iff.1 h
  refine ⟨w₁, rv, hopen, ?_⟩
  simp only at hrest
  split at hrest
  · rename_i hfd
    cases hrest
    exact Or.inl ⟨hfd, rfl, rfl⟩
  · rename_i hfd
    refine Or.inr ⟨Bool.eq_false_of_not_eq_true hfd, ?_⟩
    split at hrest
    · cases hrest
    · rename_i i hfile
      cases hrest
      exact ⟨i, hfile, rfl, rfl⟩

theorem fopen_of_openFile {uninit : UInt32} {filename : Option (List UInt8)} {mode : List UInt8}
    {i : ℕ} (h : w.openFile filename (fopenFlag uninit mode) = some (w', (i : ℤ)))
    (hi : i < maxFiles) (hfile : w'.files i = some i) :
    w.fopen uninit filename mode = some (w'.setFlags i (· &&& ~~~sErr), some i) := by
  rw [fopen, h, Option.bind_some]
  simp only [fdCheck_eq_false hi, Int.toNat_natCast, hfile, Bool.false_eq_true, if_false]

theorem fopen_of_openFile_failed {uninit : UInt32} {filename : Option (List UInt8)}
    {mode : List UInt8} (h : w.openFile filename (fopenFlag uninit mode) = some (w', -1)) :
    w.fopen uninit filename mode = some ({ w' with errno := .ebadf }, none) := by
  rw [fopen, h, Option.bind_some]
  rfl

/-- `fopen` only adds a change of the flags to `open`. -/
theorem fopen_cases {uninit : UInt32} {filename : Option (List UInt8)} {mode : List UInt8}
    {stream : Option ℕ} (h : w.fopen uninit filename mode = some (w', stream)) :
    ∃ w₁ rv, w.openFile filename (fopenFlag uninit mode) = some (w₁, rv) ∧
      w'.files = w₁.files ∧ w'.driver = w₁.driver ∧ w'.tree = w₁.tree ∧
      ∀ i, (w'.stream i).node = (w₁.stream i).node ∧
        (w'.stream i).privateData = (w₁.stream i).privateData := by
  obtain ⟨w₁, rv, hopen, ⟨-, rfl, -⟩ | ⟨-, i, -, rfl, -⟩⟩ := fopen_eq_some h
  · exact ⟨w₁, rv, hopen, rfl, rfl, rfl, fun _ => ⟨rfl, rfl⟩⟩
  · refine ⟨w₁, rv, hopen, rfl, rfl, rfl, fun j => ?_⟩
    by_cases hji : j = i
    · rw [hji]
      simp [setFlags]
    · rw [setFlags_stream_of_ne hji]
      exact ⟨rfl, rfl⟩

end Open

section Close

variable {δ P : Type*} {w w' : Stdio δ P}

/-- What the driver answers to a close of the stream `i`, if there is a driver to
answer. -/
def closeAnswer (w : Stdio δ P) (i : ℕ) : Option (Answer δ P) :=
  (w.stream i).node.bind fun n =>
    (w.operation FileOperations.closeOp n).bind fun op => op w.driver (w.stream i)

theorem closeAnswer_eq_some_iff {i : ℕ} {a : Answer δ P} :
    w.closeAnswer i = some a ↔ ∃ n op, (w.stream i).node = some n ∧
      w.operation FileOperations.closeOp n = some op ∧ op w.driver (w.stream i) = some a := by
  simp only [closeAnswer, Option.bind_eq_some_iff]
  constructor
  · rintro ⟨n, hnode, op, hop, ha⟩
    exact ⟨n, op, hnode, hop, ha⟩
  · rintro ⟨n, op, hnode, hop, ha⟩
    exact ⟨n, hnode, op, hop, ha⟩

theorem answered_stream (w : Stdio δ P) (call : DriverCall) (i : ℕ) (a : Answer δ P) :
    (w.answered call i a).stream i = a.file := Function.update_self ..

theorem answered_stream_of_ne {i j : ℕ} (h : j ≠ i) (call : DriverCall) (a : Answer δ P) :
    (w.answered call i a).stream j = w.stream j := Function.update_of_ne h ..

/-- `close` of a descriptor in use that the driver answers for. -/
theorem closeFd_of_closeAnswer {i j n : ℕ} {a : Answer δ P} (hi : i < maxFiles)
    (hfile : w.files i = some j) (hnode : (w.stream j).node = some n)
    (ha : w.closeAnswer j = some a) :
    w.closeFd i =
      if a.rv ≠ 0 then some (w.answered (.close n j) j a, a.rv)
      else some ({ w.answered (.close n j) j a with files := Function.update w.files i none },
        a.rv) := by
  rw [closeAnswer, hnode, Option.bind_some] at ha
  obtain ⟨op, hop, hanswer⟩ := Option.bind_eq_some_iff.1 ha
  simp only [closeFd, fdCheck_eq_false hi, Int.toNat_natCast, hfile, Bool.false_eq_true,
    if_false, hnode, hop, hanswer, Option.map_some, fdDelete_of_lt _ hi]
  split
  · rfl
  · rfl

/-- What a `close` of a descriptor in use can have done. -/
theorem closeFd_cases {i j : ℕ} (hi : i < maxFiles) (hfile : w.files i = some j) {rv : ℤ}
    (h : w.closeFd i = some (w', rv)) :
    (∃ e, w' = { w with errno := e } ∧ rv = -1) ∨
      ∃ n a, (w.stream j).node = some n ∧ w.closeAnswer j = some a ∧ rv = a.rv ∧
        (a.rv ≠ 0 ∧ w' = w.answered (.close n j) j a ∨
          a.rv = 0 ∧ w' = { w.answered (.close n j) j a with
            files := Function.update w.files i none }) := by
  have h' := h
  simp only [closeFd, fdCheck_eq_false hi, Int.toNat_natCast, hfile, Bool.false_eq_true,
    if_false] at h'
  cases hnode : (w.stream j).node with
  | none =>
      simp only [hnode] at h'
      cases h'
  | some n =>
      cases hop : w.operation FileOperations.closeOp n with
      | none =>
          simp only [hnode, hop] at h'
          cases h'
          exact Or.inl ⟨_, rfl, rfl⟩
      | some op =>
          simp only [hnode, hop] at h'
          obtain ⟨a, hanswer, -⟩ := Option.map_eq_some_iff.1 h'
          have ha : w.closeAnswer j = some a :=
            closeAnswer_eq_some_iff.2 ⟨n, op, hnode, hop, hanswer⟩
          rw [closeFd_of_closeAnswer hi hfile hnode ha] at h
          refine Or.inr ⟨n, a, rfl, ha, ?_⟩
          split at h
          · rename_i hrv
            cases h
            exact ⟨rfl, Or.inl ⟨hrv, rfl⟩⟩
          · rename_i hrv
            cases h
            exact ⟨rfl, Or.inr ⟨not_not.1 hrv, rfl⟩⟩

/-- `fclose` of a stream that the driver answers for. -/
theorem fclose_of_closeAnswer {i n : ℕ} {a : Answer δ P} (hnode : (w.stream i).node = some n)
    (ha : w.closeAnswer i = some a) :
    w.fclose (some i) =
      if a.rv ≠ 0 then some ((w.answered (.close n i) i a).setFlags i (· ||| sErr), a.rv)
      else
        ((w.answered (.close n i) i a).fileno (some i)).1.closeFd
          ((w.answered (.close n i) i a).fileno (some i)).2 := by
  rw [closeAnswer, hnode, Option.bind_some] at ha
  obtain ⟨op, hop, hanswer⟩ := Option.bind_eq_some_iff.1 ha
  simp only [fclose, hnode, hop, hanswer, Option.bind_some]

/-- Without an answer of the driver `fclose` does not return. -/
theorem closeAnswer_of_fclose {i : ℕ} {rv : ℤ} (h : w.fclose (some i) = some (w', rv)) :
    ∃ n a, (w.stream i).node = some n ∧ w.closeAnswer i = some a := by
  cases hnode : (w.stream i).node with
  | none =>
      simp only [fclose, hnode] at h
      cases h
  | some n =>
      cases hop : w.operation FileOperations.closeOp n with
      | none =>
          simp only [fclose, hnode, hop] at h
          cases h
      | some op =>
          simp only [fclose, hnode, hop] at h
          obtain ⟨a, ha, -⟩ := Option.bind_eq_some_iff.1 h
          exact ⟨n, a, rfl, closeAnswer_eq_some_iff.2 ⟨n, op, hnode, hop, ha⟩⟩

end Close

end Stdio

end Catpilot
