import Catpilot.Stdio.Table
import Catpilot.Transition.Run

/-!
# `fclose`

`fclose` asks the driver to close the stream and then calls `close`, which asks it
once more. So it closes a stream exactly once only where the driver's close fails.
-/

namespace Catpilot

open Transition

/-- A call of `fopen`, with what its uninitialised local holds, or of `fclose`. -/
inductive StreamCall where
  | fopen (uninit : UInt32) (filename : Option (List UInt8)) (mode : List UInt8)
  | fclose (stream : Option ℕ)
  deriving DecidableEq, Repr

/-- What can happen to the table: the calls of `stdio.c`, and whatever `node_mount` makes of the
tree and drivers make of their own state and of the streams in between. -/
inductive StdioCall (δ P : Type*) where
  | mount (tree : NodeTree (FileOperations δ P))
  | open (pathname : Option (List UInt8)) (flags : UInt32)
  | close (fd : ℤ)
  | stream (call : StreamCall)
  | mkdir (pathname : Option (List UInt8)) (mode : UInt32)
  | rmdir (pathname : Option (List UInt8))
  | io (driver : δ) (stream : ℕ → File P)

namespace Stdio

section Step

variable {δ P : Type*} {w w' : Stdio δ P}

/-- No descriptor is in use. -/
def init (tree : NodeTree (FileOperations δ P)) (driver : δ) (stream : ℕ → File P) : Stdio δ P :=
  ⟨.ok, fun _ => none, stream, tree, driver, []⟩

/-- `fopen` and `fclose` as steps of a run. -/
def streamStep (w : Stdio δ P) : StreamCall → Option (Stdio δ P)
  | .fopen uninit filename mode => (w.fopen uninit filename mode).map Prod.fst
  | .fclose stream => (w.fclose stream).map Prod.fst

/-- A step of a run. -/
def step (w : Stdio δ P) : StdioCall δ P → Option (Stdio δ P)
  | .mount tree => some { w with tree }
  | .open pathname flags => (w.openFile pathname flags).map Prod.fst
  | .close fd => (w.closeFd fd).map Prod.fst
  | .stream call => w.streamStep call
  | .mkdir pathname mode => (w.mkdir pathname mode).map Prod.fst
  | .rmdir pathname => (w.rmdir pathname).map Prod.fst
  | .io driver stream => some { w with driver, stream }

theorem TableOk.of_files (h : w.TableOk) (hfiles : w'.files = w.files) : w'.TableOk := by
  rw [TableOk, hfiles]
  exact h

/-- What a `close` of any number can have done. -/
theorem TableOk.closeFd_cases (h : w.TableOk) {fd rv : ℤ} (hs : w.closeFd fd = some (w', rv)) :
    (∃ e, w' = { w with errno := e } ∧ rv = -1) ∨
      ∃ (i n : ℕ) (a : Answer δ P), fd = i ∧ w.files i = some i ∧ (w.stream i).node = some n ∧
        w.closeAnswer i = some a ∧ rv = a.rv ∧
        (a.rv ≠ 0 ∧ w' = w.answered (.close n i) i a ∨
          a.rv = 0 ∧ w' = { w.answered (.close n i) i a with
            files := Function.update w.files i none }) := by
  cases hfd : fdCheck fd with
  | true =>
      rw [Stdio.closeFd, if_pos hfd] at hs
      cases hs
      exact Or.inl ⟨_, rfl, rfl⟩
  | false =>
      obtain ⟨i, rfl⟩ : ∃ i : ℕ, fd = i := by
        rw [fdCheck, Bool.or_eq_false_iff, decide_eq_false_iff_not] at hfd
        exact Int.eq_ofNat_of_zero_le (Int.not_lt.1 hfd.1)
      cases hfile : w.files i with
      | none =>
          simp only [Stdio.closeFd, hfd, Int.toNat_natCast, hfile, Bool.false_eq_true,
            if_false] at hs
          cases hs
          exact Or.inl ⟨_, rfl, rfl⟩
      | some j =>
          obtain ⟨rfl, hi⟩ := h i j hfile
          refine (Stdio.closeFd_cases hi hfile hs).imp_right ?_
          rintro ⟨n, a, hcases⟩
          exact ⟨j, n, a, rfl, hfile, hcases⟩

/-- A `close` frees its descriptor exactly when it returns 0. -/
theorem TableOk.closeFd_files (h : w.TableOk) {fd rv : ℤ} (hs : w.closeFd fd = some (w', rv)) :
    rv ≠ 0 ∧ w'.files = w.files ∨
      ∃ i : ℕ, fd = i ∧ rv = 0 ∧ w.files i = some i ∧
        w'.files = Function.update w.files i none := by
  rcases h.closeFd_cases hs with ⟨e, rfl, rfl⟩ |
    ⟨i, n, a, rfl, hfile, -, -, rfl, ⟨hrv, rfl⟩ | ⟨hrv, rfl⟩⟩
  · exact Or.inl ⟨by decide, rfl⟩
  · exact Or.inl ⟨hrv, rfl⟩
  · exact Or.inr ⟨i, rfl, hrv, hfile, rfl⟩

theorem TableOk.closeFd (h : w.TableOk) {fd rv : ℤ} (hs : w.closeFd fd = some (w', rv)) :
    w'.TableOk := by
  rcases h.closeFd_files hs with ⟨-, hfiles⟩ | ⟨i, -, -, -, hfiles⟩
  · exact h.of_files hfiles
  · exact (h.delete i).of_files hfiles

/-- `fileno` changes nothing but `errno`. -/
theorem fileno_fst (w : Stdio δ P) (stream : Option ℕ) :
    ∃ e, (w.fileno stream).1 = { w with errno := e } := by
  rw [fileno]
  split
  · exact ⟨_, rfl⟩
  · exact ⟨_, rfl⟩

theorem fileno_files (w : Stdio δ P) (stream : Option ℕ) :
    (w.fileno stream).1.files = w.files := by
  obtain ⟨e, he⟩ := w.fileno_fst stream
  rw [he]

/-- What `fileno` finds holds the stream. -/
theorem files_of_fileno {stream : Option ℕ} {i : ℕ} (h : (w.fileno stream).2 = i) :
    w.files i = stream := by
  rw [fileno] at h
  cases hfind : (List.range maxFiles).find? fun j => w.files j = stream with
  | none =>
      rw [hfind] at h
      cases h
  | some j =>
      rw [hfind] at h
      obtain rfl := Int.ofNat.inj h
      simpa using List.find?_some hfind

/-- An `fclose` frees the descriptor of its stream exactly when it returns 0. -/
theorem TableOk.fclose_files (h : w.TableOk) {stream : Option ℕ} {rv : ℤ}
    (hs : w.fclose stream = some (w', rv)) :
    rv ≠ 0 ∧ w'.files = w.files ∨
      ∃ i, stream = some i ∧ rv = 0 ∧ w.files i = some i ∧
        w'.files = Function.update w.files i none := by
  cases stream with
  | none =>
      cases hs
      exact Or.inl ⟨by decide, rfl⟩
  | some i =>
      obtain ⟨n, a, hnode, ha⟩ := closeAnswer_of_fclose hs
      rw [fclose_of_closeAnswer hnode ha] at hs
      split at hs
      · rename_i hrv
        cases hs
        exact Or.inl ⟨hrv, rfl⟩
      · set w₁ := w.answered (.close n i) i a with hw₁
        have hfiles : (w₁.fileno (some i)).1.files = w.files := fileno_files w₁ (some i)
        have h₁ : (w₁.fileno (some i)).1.TableOk := h.of_files hfiles
        rcases h₁.closeFd_files hs with ⟨hrv, hsame⟩ | ⟨j, hfd, hrv, -, hfreed⟩
        · exact Or.inl ⟨hrv, hsame.trans hfiles⟩
        · have hfile : w.files j = some i := files_of_fileno (w := w₁) hfd
          obtain ⟨rfl, -⟩ := h j i hfile
          refine Or.inr ⟨i, rfl, hrv, hfile, ?_⟩
          rw [hfreed, hfiles]

theorem TableOk.fclose (h : w.TableOk) {stream : Option ℕ} {rv : ℤ}
    (hs : w.fclose stream = some (w', rv)) : w'.TableOk := by
  rcases h.fclose_files hs with ⟨-, hfiles⟩ | ⟨i, -, -, -, hfiles⟩
  · exact h.of_files hfiles
  · exact (h.delete i).of_files hfiles

theorem TableOk.streamStep (h : w.TableOk) {call : StreamCall}
    (hs : w.streamStep call = some w') : w'.TableOk := by
  cases call with
  | fopen uninit filename mode =>
      obtain ⟨⟨w₁, stream⟩, hfopen, rfl⟩ := Option.map_eq_some_iff.1 hs
      obtain ⟨w₂, rv, hopen, hfiles, -⟩ := fopen_cases hfopen
      exact (h.openFile hopen).of_files hfiles
  | fclose stream =>
      obtain ⟨⟨w₁, rv⟩, hfclose, rfl⟩ := Option.map_eq_some_iff.1 hs
      exact h.fclose hfclose

theorem pathCall_files {α : Type*} {pathname : Option (List UInt8)}
    {member : FileOperations δ P → Option α} {answer : α → List UInt8 → ℤ × Errno × δ}
    {call : ℕ → List UInt8 → DriverCall} {rv : ℤ}
    (h : w.pathCall pathname member answer call = some (w', rv)) : w'.files = w.files := by
  unfold pathCall at h
  split at h
  · split at h
    · cases h
      rfl
    · obtain ⟨relative, -, hres⟩ := Option.map_eq_some_iff.1 h
      cases hres
      rfl
  · cases h
    rfl

theorem TableOk.step (h : w.TableOk) {call : StdioCall δ P} (hs : w.step call = some w') :
    w'.TableOk := by
  cases call with
  | mount tree =>
      cases hs
      exact h
  | «open» pathname flags =>
      obtain ⟨⟨w₁, rv⟩, hopen, rfl⟩ := Option.map_eq_some_iff.1 hs
      exact h.openFile hopen
  | close fd =>
      obtain ⟨⟨w₁, rv⟩, hclose, rfl⟩ := Option.map_eq_some_iff.1 hs
      exact h.closeFd hclose
  | stream call => exact h.streamStep hs
  | mkdir pathname mode =>
      obtain ⟨⟨w₁, rv⟩, hmkdir, rfl⟩ := Option.map_eq_some_iff.1 hs
      exact h.of_files (pathCall_files hmkdir)
  | rmdir pathname =>
      obtain ⟨⟨w₁, rv⟩, hrmdir, rfl⟩ := Option.map_eq_some_iff.1 hs
      exact h.of_files (pathCall_files hrmdir)
  | io driver stream =>
      cases hs
      exact h

theorem tableOk_init (tree : NodeTree (FileOperations δ P)) (driver : δ) (stream : ℕ → File P) :
    (init tree driver stream).TableOk := fun _ _ => nofun

theorem tableOk_of_reachable {tree : NodeTree (FileOperations δ P)} {driver : δ}
    {stream : ℕ → File P} (h : Reachable step (init tree driver stream) w) : w.TableOk :=
  Reachable.invariant (fun _ _ _ h hs => TableOk.step h hs) (tableOk_init tree driver stream) h

end Step

section Once

variable {δ P : Type*} {w w' : Stdio δ P}

/-- `fclose` of the stream `i` calls the driver's close once, and when that succeeds it
returns 0 and the descriptor is free. -/
def ClosesOnce (w : Stdio δ P) (i : ℕ) : Prop :=
  ∃ n a w' rv, (w.stream i).node = some n ∧ w.closeAnswer i = some a ∧
    w.fclose (some i) = some (w', rv) ∧ w'.calls = w.calls ++ [.close n i] ∧
    (a.rv = 0 → rv = 0 ∧ w'.files i = none)

/-- The driver's close fails on the stream `i`. -/
def CloseFails (w : Stdio δ P) (i : ℕ) : Prop := ∃ a, w.closeAnswer i = some a ∧ a.rv ≠ 0

/-- After a close that succeeds `fclose` is `close`. -/
theorem TableOk.fclose_eq_closeFd (h : w.TableOk) {i n : ℕ} {a : Answer δ P}
    (hopen : w.files i = some i) (hnode : (w.stream i).node = some n)
    (ha : w.closeAnswer i = some a) (hrv : a.rv = 0) :
    w.fclose (some i) = (w.answered (.close n i) i a).closeFd i := by
  have h₁ : (w.answered (.close n i) i a).TableOk := h
  rw [fclose_of_closeAnswer hnode ha, if_neg (not_not.2 hrv), h₁.fileno_eq hopen]

theorem TableOk.closesOnce_iff (h : w.TableOk) {i : ℕ} (hopen : w.files i = some i) :
    w.ClosesOnce i ↔ w.CloseFails i := by
  constructor
  · rintro ⟨n, a, w', rv, hnode, ha, hfclose, hcalls, hfreed⟩
    refine ⟨a, ha, fun hrv => ?_⟩
    rw [h.fclose_eq_closeFd hopen hnode ha hrv] at hfclose
    have hopen₁ : (w.answered (.close n i) i a).files i = some i := hopen
    rcases Stdio.closeFd_cases (h i i hopen).2 hopen₁ hfclose with
      ⟨e, -, hrv'⟩ | ⟨n', a', -, -, -, hcases⟩
    · rw [(hfreed hrv).1] at hrv'
      cases hrv'
    · have htwice : w'.calls = w.calls ++ [.close n i] ++ [.close n' i] := by
        rcases hcases with ⟨-, rfl⟩ | ⟨-, rfl⟩
        · rfl
        · rfl
      rw [hcalls] at htwice
      have hlen := congrArg List.length htwice
      simp at hlen
  · rintro ⟨a, ha, hrv⟩
    obtain ⟨n, hnode, -⟩ := Option.bind_eq_some_iff.1 ha
    have hfclose := fclose_of_closeAnswer hnode ha
    rw [if_pos hrv] at hfclose
    exact ⟨n, a, _, _, hnode, ha, hfclose, rfl, fun hzero => absurd hzero hrv⟩

end Once

end Stdio

end Catpilot
