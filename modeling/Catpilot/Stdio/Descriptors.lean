import Catpilot.Stdio.Fclose
import Catpilot.Stdio.Paths

/-!
# Handing out descriptors

`open` and `fopen` take the least free descriptor and put everything back when the
driver refuses. Only a `close` or an `fclose` that returns 0 makes a descriptor free
again; an `fclose` that fails half way keeps it in use.
-/

namespace Catpilot

open Transition

namespace Stdio

section Opened

variable {δ P : Type*} {w w' : Stdio δ P}

/-- The table is as before, and so is every stream but the one that was tried. -/
structure OpenFailed (w w' : Stdio δ P) : Prop where
  files : w'.files = w.files
  stream : ∀ j, ¬ IsLeast w.free j → w'.stream j = w.stream j

/-- The least free descriptor came into use, and no other stream has changed. -/
structure OpenedAt (w w' : Stdio δ P) (i : ℕ) : Prop where
  least : IsLeast w.free i
  files : w'.files = Function.update w.files i (some i)
  stream : ∀ j, j ≠ i → w'.stream j = w.stream j

theorem OpenedAt.files_self {i : ℕ} (h : OpenedAt w w' i) : w'.files i = some i := by
  rw [h.files, Function.update_self]

theorem OpenedAt.fdCheck {i : ℕ} (h : OpenedAt w w' i) : fdCheck i = false :=
  fdCheck_eq_false h.least.1.1

/-- What `open` leaves, with the result that goes with it. -/
theorem openFile_opened {path : Option (List UInt8)} {flags : UInt32} {rv : ℤ}
    (h : w.openFile path flags = some (w', rv)) :
    rv = -1 ∧ OpenFailed w w' ∨ ∃ i : ℕ, rv = i ∧ OpenedAt w w' i := by
  rcases openFile_cases h with ⟨e, rfl, rfl⟩ |
    ⟨n, i, op, relative, a, -, hleast, -, hstream, -, -, hfiles⟩
  · exact Or.inl ⟨rfl, rfl, fun _ _ => rfl⟩
  · have hother : ∀ j, j ≠ i → w'.stream j = w.stream j := by
      intro j hji
      rw [hstream, Function.update_of_ne hji]
    rcases hfiles with ⟨-, hrv, hfiles⟩ | ⟨-, hrv, hfiles⟩
    · refine Or.inl ⟨hrv, hfiles, fun j hj => hother j ?_⟩
      rintro rfl
      exact hj hleast
    · exact Or.inr ⟨i, hrv, hleast, hfiles, hother⟩

/-- `fopen` fails where `open` does; else it clears the error mark of the stream of the
descriptor. -/
theorem fopen_openedAt {uninit : UInt32} {filename : Option (List UInt8)} {mode : List UInt8}
    {stream : Option ℕ} (h : w.fopen uninit filename mode = some (w', stream)) :
    ∃ w₁ rv, w.openFile filename (fopenFlag uninit mode) = some (w₁, rv) ∧
      (OpenFailed w w₁ ∧ stream = none ∧ w' = { w₁ with errno := .ebadf } ∨
        ∃ i : ℕ, rv = i ∧ OpenedAt w w₁ i ∧ stream = some i ∧
          w' = w₁.setFlags i (· &&& ~~~sErr)) := by
  obtain ⟨w₁, rv, hopen, hcases⟩ := fopen_eq_some h
  refine ⟨w₁, rv, hopen, ?_⟩
  rcases openFile_opened hopen with ⟨rfl, hfailed⟩ | ⟨i, rfl, hopened⟩
  · rcases hcases with ⟨-, rfl, rfl⟩ | ⟨hfd, -⟩
    · exact Or.inl ⟨hfailed, rfl, rfl⟩
    · cases hfd
  · rcases hcases with ⟨hfd, -⟩ | ⟨-, j, hfile, rfl, rfl⟩
    · rw [hopened.fdCheck] at hfd
      cases hfd
    · rw [Int.toNat_natCast, hopened.files_self] at hfile
      obtain rfl := Option.some.inj hfile
      exact Or.inr ⟨i, rfl, hopened, rfl, rfl⟩

/-- `fopen` returns the stream of the descriptor that it opens. -/
theorem fopen_opened {uninit : UInt32} {filename : Option (List UInt8)} {mode : List UInt8}
    {stream : Option ℕ} (h : w.fopen uninit filename mode = some (w', stream)) :
    stream = none ∧ OpenFailed w w' ∨ ∃ i, stream = some i ∧ OpenedAt w w' i := by
  rcases fopen_openedAt h with ⟨w₁, rv, -, ⟨hfailed, rfl, rfl⟩ | ⟨i, -, hopened, rfl, rfl⟩⟩
  · exact Or.inl ⟨rfl, hfailed.files, hfailed.stream⟩
  · refine Or.inr ⟨i, rfl, hopened.least, hopened.files, fun k hk => ?_⟩
    rw [setFlags_stream_of_ne hk]
    exact hopened.stream k hk

end Opened

section HandedOut

variable {δ P : Type*} {w w' : Stdio δ P}

/-- The descriptor that a call of `open` or `fopen` gives to its caller. -/
def handsOut (w : Stdio δ P) : StdioCall δ P → Option ℕ
  | .open pathname flags =>
      (w.openFile pathname flags).bind fun r => if r.2 < 0 then none else some r.2.toNat
  | .stream (.fopen uninit filename mode) => (w.fopen uninit filename mode).bind Prod.snd
  | _ => none

/-- The descriptor that a call of `close` or `fclose` has closed: the one that it was
called for, if it returns 0. -/
def closes (w : Stdio δ P) : StdioCall δ P → Option ℕ
  | .close fd => (w.closeFd fd).bind fun r => if r.2 = 0 then some fd.toNat else none
  | .stream (.fclose stream) => (w.fclose stream).bind fun r => if r.2 = 0 then stream else none
  | _ => none

/-- A descriptor is handed out where it was free, and is in use then. -/
theorem handsOut_eq_some {call : StdioCall δ P} {i : ℕ} (h : w.handsOut call = some i) :
    w.files i = none ∧ ∀ w', w.step call = some w' → w'.files i = some i := by
  have hopened : ∀ w', OpenedAt w w' i → w.files i = none ∧ w'.files i = some i :=
    fun w' ho => ⟨ho.least.1.2, ho.files_self⟩
  cases call with
  | «open» pathname flags =>
      obtain ⟨⟨w₁, rv⟩, hopen, hrv⟩ := Option.bind_eq_some_iff.1 h
      rcases openFile_opened hopen with ⟨rfl, -⟩ | ⟨j, rfl, ho⟩
      · cases hrv
      · simp only at hrv
        rw [if_neg (by omega), Int.toNat_natCast] at hrv
        obtain rfl := Option.some.inj hrv
        refine ⟨(hopened w₁ ho).1, fun w' hs => ?_⟩
        rw [step, hopen, Option.map_some] at hs
        exact Option.some.inj hs ▸ (hopened w₁ ho).2
  | stream call =>
      cases call with
      | fopen uninit filename mode =>
          obtain ⟨⟨w₁, stream⟩, hfopen, hstream⟩ := Option.bind_eq_some_iff.1 h
          obtain rfl : stream = some i := hstream
          rcases fopen_opened hfopen with ⟨hnone, -⟩ | ⟨j, hj, ho⟩
          · cases hnone
          · obtain rfl := Option.some.inj hj
            refine ⟨(hopened w₁ ho).1, fun w' hs => ?_⟩
            rw [step, streamStep, hfopen, Option.map_some] at hs
            exact Option.some.inj hs ▸ (hopened w₁ ho).2
      | fclose stream => cases h
  | mount tree => cases h
  | close fd => cases h
  | mkdir pathname mode => cases h
  | rmdir pathname => cases h
  | io driver stream => cases h

/-- A descriptor in use stays in use through an open. -/
theorem files_of_opened {k : ℕ} (huse : w.files k = some k)
    (h : OpenFailed w w' ∨ ∃ i, OpenedAt w w' i) : w'.files k = some k := by
  rcases h with hfailed | ⟨i, hopened⟩
  · rw [hfailed.files, huse]
  · have hki : k ≠ i := by
      rintro rfl
      rw [hopened.least.1.2] at huse
      cases huse
    rw [hopened.files, Function.update_of_ne hki, huse]

/-- A descriptor in use stays in use until it is closed. -/
theorem TableOk.files_of_not_closes (h : w.TableOk) {call : StdioCall δ P} {k : ℕ}
    (huse : w.files k = some k) (hkept : w.closes call ≠ some k) (hs : w.step call = some w') :
    w'.files k = some k := by
  cases call with
  | mount tree =>
      cases hs
      exact huse
  | «open» pathname flags =>
      obtain ⟨⟨w₁, rv⟩, hopen, rfl⟩ := Option.map_eq_some_iff.1 hs
      refine files_of_opened huse ?_
      exact (openFile_opened hopen).imp And.right fun ⟨i, hi⟩ => ⟨i, hi.2⟩
  | close fd =>
      obtain ⟨⟨w₁, rv⟩, hclose, rfl⟩ := Option.map_eq_some_iff.1 hs
      rcases h.closeFd_files hclose with ⟨-, hfiles⟩ | ⟨i, rfl, rfl, -, hfiles⟩
      · rw [hfiles, huse]
      · have hki : k ≠ i := by
          rintro rfl
          refine hkept ?_
          rw [closes, hclose, Option.bind_some, if_pos rfl, Int.toNat_natCast]
        rw [hfiles, Function.update_of_ne hki, huse]
  | stream call =>
      cases call with
      | fopen uninit filename mode =>
          obtain ⟨⟨w₁, stream⟩, hfopen, rfl⟩ := Option.map_eq_some_iff.1 hs
          refine files_of_opened huse ?_
          exact (fopen_opened hfopen).imp And.right fun ⟨i, hi⟩ => ⟨i, hi.2⟩
      | fclose stream =>
          obtain ⟨⟨w₁, rv⟩, hfclose, rfl⟩ := Option.map_eq_some_iff.1 hs
          rcases h.fclose_files hfclose with ⟨-, hfiles⟩ | ⟨i, rfl, rfl, -, hfiles⟩
          · rw [hfiles, huse]
          · have hki : k ≠ i := by
              rintro rfl
              refine hkept ?_
              rw [closes, hfclose, Option.bind_some, if_pos rfl]
            rw [hfiles, Function.update_of_ne hki, huse]
  | mkdir pathname mode =>
      obtain ⟨⟨w₁, rv⟩, hmkdir, rfl⟩ := Option.map_eq_some_iff.1 hs
      rw [pathCall_files hmkdir, huse]
  | rmdir pathname =>
      obtain ⟨⟨w₁, rv⟩, hrmdir, rfl⟩ := Option.map_eq_some_iff.1 hs
      rw [pathCall_files hrmdir, huse]
  | io driver stream =>
      cases hs
      exact huse

/-- Between two calls that hand out the same descriptor it is closed. -/
theorem closes_between (h : w.TableOk) {c d : StdioCall δ P} {w₁ w₂ : Stdio δ P}
    {calls : List (StdioCall δ P)} {i : ℕ} (hc : w.handsOut c = some i)
    (hs : w.step c = some w₁) (hrun : run step w₁ calls = some w₂)
    (hd : w₂.handsOut d = some i) :
    ∃ before e after u, calls = before ++ e :: after ∧ run step w₁ before = some u ∧
      u.closes e = some i := by
  by_contra hnone
  have hkept : Along (fun u e => closes u e ≠ some i) step w₁ calls := by
    by_contra hbroken
    obtain ⟨before, e, after, u, hcalls, -, hu, he⟩ := exists_of_not_along hbroken
    exact hnone ⟨before, e, after, u, hcalls, hu, not_not.1 he⟩
  have hkeep : ∀ (u : Stdio δ P) e u', u.TableOk ∧ u.files i = some i →
      closes u e ≠ some i → step u e = some u' → u'.TableOk ∧ u'.files i = some i := by
    intro u e u' hu he hstep
    exact ⟨hu.1.step hstep, hu.1.files_of_not_closes hu.2 he hstep⟩
  have huse := hkept.invariant hkeep ⟨h.step hs, (handsOut_eq_some hc).2 w₁ hs⟩ hrun
  rw [(handsOut_eq_some hd).1] at huse
  cases huse.2

/-- In every state that is reached a descriptor in use holds the stream of its number,
an open takes the least free descriptor or changes nothing that is in use, and no
descriptor is handed out twice without a close in between. -/
theorem descriptors {tree : NodeTree (FileOperations δ P)} {driver : δ}
    {stream : ℕ → File P} (h : Reachable step (init tree driver stream) w) :
    w.TableOk ∧
      (∀ pathname flags w' rv, w.openFile pathname flags = some (w', rv) →
        rv = -1 ∧ OpenFailed w w' ∨ ∃ i : ℕ, rv = i ∧ OpenedAt w w' i) ∧
      (∀ uninit filename mode w' s, w.fopen uninit filename mode = some (w', s) →
        s = none ∧ OpenFailed w w' ∨ ∃ i, s = some i ∧ OpenedAt w w' i) ∧
      ∀ c w₁ calls w₂ d i, w.handsOut c = some i → w.step c = some w₁ →
        run step w₁ calls = some w₂ → w₂.handsOut d = some i →
        ∃ before e after u, calls = before ++ e :: after ∧ run step w₁ before = some u ∧
          u.closes e = some i := by
  have htable := tableOk_of_reachable h
  refine ⟨htable, fun _ _ _ _ => openFile_opened, fun _ _ _ _ _ => fopen_opened, ?_⟩
  intro c w₁ calls w₂ d i hc hs hrun hd
  exact closes_between htable hc hs hrun hd

end HandedOut

section DevX

/-- `/dev/x` is opened for reading. -/
def openX : StdioCall Unit Unit := .open (some [0x2F, 0x64, 0x65, 0x76, 0x2F, 0x78]) oRdonly

/-- `/dev/x` is opened, closed and opened again. -/
theorem descriptors_openX : ∃ w₁ w₂ : Stdio Unit Unit, devWorld.step openX = some w₁ ∧
    run step w₁ [.close 0] = some w₂ ∧ devWorld.TableOk ∧
      ∃ before e after u, [.close 0] = before ++ e :: after ∧ run step w₁ before = some u ∧
        u.closes e = some 0 := by
  obtain ⟨htable, -, -, hagain⟩ := descriptors (w := devWorld) (Reachable.refl _)
  have hagain := fun w₁ w₂ => hagain openX w₁ [.close 0] w₂ openX 0
  exact ⟨_, _, rfl, rfl, htable, hagain _ _ rfl rfl rfl rfl⟩

end DevX

end Stdio

end Catpilot
