import Catpilot.Fatfs.Driver
import Catpilot.Stdio.Fclose

/-!
# Streams over FatFs

FatFs rejects a close of an object that is closed already. So an `fclose` whose first
close succeeds fails in its second one and keeps the descriptor, whose file is closed
now and never opened again.
-/

namespace Catpilot

open Transition

namespace FfApi

section Close

variable {V D : Type*} (ff : FfCore V D) {s : Fatfs V (Fil D)} {file : File PrivateData}
  {a : Answer (Fatfs V (Fil D)) PrivateData}

/-- A close that fails closes nothing. -/
theorem fatfsClose_fs (ha : ff.api.fatfsClose s file = some a) (hrv : a.rv ≠ 0) :
    a.file = file ∧ ∀ k, (a.driver.files k).fs = (s.files k).fs := by
  rcases ff.api.fatfsClose_cases ha with rfl | ⟨i, -, rfl⟩
  · exact ⟨rfl, fun _ => rfl⟩
  · refine ⟨rfl, fun k => ?_⟩
    by_cases hki : k = i
    · have hfs := ff.fClose_fs s.vol (s.files i)
      rw [if_neg] at hfs
      · simp only [hki, Function.update_self]
        exact hfs
      · intro hres
        exact hrv (if_neg (not_not.2 hres))
    · simp only [Function.update_of_ne hki]

/-- A close of a closed object fails. -/
theorem fatfsClose_closed {k : ℕ} (hdata : file.privateData = .slot k)
    (hfs : (s.files k).fs = none) : ∃ a, ff.api.fatfsClose s file = some a ∧ a.rv = -1 := by
  have hne : (ff.api.fClose s.vol (s.files k)).1 ≠ .ok := by
    rw [show ff.api.fClose = ff.fClose from rfl, ff.fClose_closed s.vol hfs]
    exact nofun
  exact ⟨_, ff.api.fatfsClose_slot s hdata, if_pos hne⟩

/-- A close that succeeds closes the object of the file. -/
theorem fatfsClose_ok (ha : ff.api.fatfsClose s file = some a) (hrv : a.rv = 0) :
    ∃ k, a.file = file ∧ file.privateData = .slot k ∧ (a.driver.files k).fs = none := by
  rcases ff.api.fatfsClose_cases ha with rfl | ⟨i, hdata, rfl⟩
  · cases hrv
  · have hfs := ff.fClose_fs s.vol (s.files i)
    refine ⟨i, rfl, hdata, ?_⟩
    rw [if_pos] at hfs
    · simp only [Function.update_self]
      exact hfs
    · by_contra hres
      exact absurd ((if_pos hres).symm.trans hrv) (by decide)

end Close

end FfApi

namespace Stdio

section Leaks

variable {V D : Type*} {ff : FfCore V D}
  {w w' : Stdio (Fatfs V (Fil D)) PrivateData}

/-- No stream was opened yet, and FatFs has given out no object. -/
def initFatfs (ff : FfCore V D) (tree : NodeTree (FileOperations (Fatfs V (Fil D)) PrivateData))
    (vol : V) : Stdio (Fatfs V (Fil D)) PrivateData :=
  init tree ⟨fun _ => ff.zero, 0, vol⟩ fun _ => ⟨0, none, .null⟩

/-- All operations in the tree are those of FatFs. -/
def OverFatfs (ff : FfCore V D)
    (tree : NodeTree (FileOperations (Fatfs V (Fil D)) PrivateData)) : Prop :=
  ∀ n op, (tree.node n).fOp = some op → op = ff.api.operations

/-- The descriptor is in use by a stream whose file is closed. -/
def Leaked (w : Stdio (Fatfs V (Fil D)) PrivateData) (fd : ℕ) : Prop :=
  ∃ i k, w.files fd = some i ∧ (w.stream i).privateData = .slot k ∧ (w.driver.files k).fs = none

/-- No descriptor is leaked after the call. -/
def LeakFreeAfter (w : Stdio (Fatfs V (Fil D)) PrivateData) (call : StreamCall) : Prop :=
  ∀ w', w.streamStep call = some w' → ∀ fd, ¬ w'.Leaked fd

/-- If the call is an `fclose`, the driver's close of the stream fails. -/
def FcloseFails (w : Stdio (Fatfs V (Fil D)) PrivateData) : StreamCall → Prop
  | .fclose (some i) => ∀ a ∈ w.closeAnswer i, a.rv ≠ 0
  | _ => True

instance (w : Stdio (Fatfs V (Fil D)) PrivateData) (call : StreamCall) :
    Decidable (FcloseFails w call) :=
  match call with
  | .fclose (some i) => inferInstanceAs (Decidable (∀ a ∈ w.closeAnswer i, a.rv ≠ 0))
  | .fclose none => isTrue trivial
  | .fopen _ _ _ => isTrue trivial

/-- The streams in use have an object that is open, and no other stream has one. -/
structure StreamsOk (ff : FfCore V D) (w : Stdio (Fatfs V (Fil D)) PrivateData) : Prop where
  table : w.TableOk
  overFatfs : OverFatfs ff w.tree
  used : ∀ i, w.files i = some i →
    ∃ k, (w.stream i).privateData = .slot k ∧ (w.driver.files k).fs ≠ none
  free : ∀ i, w.files i = none → ∀ k, (w.stream i).privateData ≠ .slot k

theorem StreamsOk.not_leaked (h : StreamsOk ff w) (fd : ℕ) : ¬ w.Leaked fd := by
  rintro ⟨i, k, hfile, hslot, hfs⟩
  obtain ⟨rfl, -⟩ := h.table fd i hfile
  obtain ⟨k', hslot', hfs'⟩ := h.used i hfile
  rw [hslot] at hslot'
  obtain rfl := PrivateData.slot.inj hslot'
  exact hfs' hfs

/-- A stream with an object is in use. -/
theorem StreamsOk.files_eq (h : StreamsOk ff w) {i k : ℕ}
    (hslot : (w.stream i).privateData = .slot k) : w.files i = some i := by
  cases hfile : w.files i with
  | none => exact absurd hslot (h.free i hfile k)
  | some j => rw [(h.table i j hfile).1]

/-- The driver that answers a close is FatFs. -/
theorem StreamsOk.closeAnswer_eq (h : StreamsOk ff w) {i : ℕ}
    {a : Answer (Fatfs V (Fil D)) PrivateData} (ha : w.closeAnswer i = some a) :
    ∃ n, (w.stream i).node = some n ∧
      w.operation FileOperations.closeOp n = some ff.api.fatfsClose ∧
      ff.api.fatfsClose w.driver (w.stream i) = some a := by
  obtain ⟨n, op, hnode, hop, hanswer⟩ := closeAnswer_eq_some_iff.1 ha
  obtain ⟨ops, hops, hclose⟩ := Option.bind_eq_some_iff.1 hop
  rw [h.overFatfs n ops hops] at hclose
  obtain rfl := Option.some.inj hclose
  exact ⟨n, hnode, hop, hanswer⟩

theorem StreamsOk.of_eq (h : StreamsOk ff w) (hfiles : w'.files = w.files)
    (htree : w'.tree = w.tree)
    (hdata : ∀ i, (w'.stream i).privateData = (w.stream i).privateData)
    (hfs : ∀ k, (w'.driver.files k).fs = (w.driver.files k).fs) : StreamsOk ff w' := by
  constructor
  case table => exact h.table.of_files hfiles
  case overFatfs => exact htree ▸ h.overFatfs
  case used => simpa only [hfiles, hdata, hfs] using h.used
  case free => simpa only [hfiles, hdata] using h.free

/-- A stream that is not in use and gets no object does not matter. -/
theorem StreamsOk.of_failed_open (h : StreamsOk ff w) {i : ℕ} (hfree : w.files i = none)
    (hfiles : w'.files = w.files) (htree : w'.tree = w.tree)
    (hdriver : w'.driver.files = w.driver.files) (hother : ∀ j, j ≠ i → w'.stream j = w.stream j)
    (hdata : ∀ k, (w'.stream i).privateData ≠ .slot k) : StreamsOk ff w' := by
  constructor
  case table => exact h.table.of_files hfiles
  case overFatfs => exact htree ▸ h.overFatfs
  case used =>
    intro j hj
    rw [hfiles] at hj
    have hji : j ≠ i := by
      rintro rfl
      rw [hfree] at hj
      cases hj
    rw [hother j hji, hdriver]
    exact h.used j hj
  case free =>
    intro j hj k
    by_cases hji : j = i
    · rw [hji]
      exact hdata k
    · rw [hother j hji]
      exact h.free j (hfiles ▸ hj) k

/-- A stream comes into use with an object that is open. -/
theorem StreamsOk.of_opened (h : StreamsOk ff w) {i m : ℕ} {fil : Fil D} (hi : i < maxFiles)
    (hfiles : w'.files = Function.update w.files i (some i)) (htree : w'.tree = w.tree)
    (hdriver : w'.driver.files = Function.update w.driver.files m fil) (hfil : fil.fs ≠ none)
    (hother : ∀ j, j ≠ i → w'.stream j = w.stream j)
    (hdata : (w'.stream i).privateData = .slot m) : StreamsOk ff w' := by
  constructor
  case table => exact (h.table.insert hi).of_files hfiles
  case overFatfs => exact htree ▸ h.overFatfs
  case used =>
    intro j hj
    by_cases hji : j = i
    · refine ⟨m, by rw [hji, hdata], ?_⟩
      rwa [hdriver, Function.update_self]
    · rw [hfiles, Function.update_of_ne hji] at hj
      obtain ⟨k, hslot, hfs⟩ := h.used j hj
      refine ⟨k, by rw [hother j hji, hslot], ?_⟩
      rw [hdriver]
      by_cases hk : k = m
      · rwa [hk, Function.update_self]
      · rwa [Function.update_of_ne hk]
  case free =>
    intro j hj k
    have hji : j ≠ i := by
      rintro rfl
      rw [hfiles, Function.update_self] at hj
      cases hj
    rw [hfiles, Function.update_of_ne hji] at hj
    rw [hother j hji]
    exact h.free j hj k

/-- An open keeps it, whether it succeeds or not. -/
theorem StreamsOk.openFile (h : StreamsOk ff w) (hff : ff.Validates)
    {path : Option (List UInt8)} {flags : UInt32} {rv : ℤ}
    (hs : w.openFile path flags = some (w', rv)) : StreamsOk ff w' := by
  rcases openFile_cases hs with ⟨e, rfl, -⟩ |
    ⟨n, i, op, relative, a, hop, ⟨⟨hi, hfree⟩, -⟩, ha, hstream, hdriver, htree, hfiles⟩
  · exact h.of_eq rfl rfl (fun _ => rfl) fun _ => rfl
  · obtain ⟨ops, hops, hopen⟩ := Option.bind_eq_some_iff.1 hop
    rw [h.overFatfs n ops hops] at hopen
    obtain rfl := Option.some.inj hopen
    have hother : ∀ j, j ≠ i → w'.stream j = w.stream j := by
      intro j hji
      rw [hstream, Function.update_of_ne hji]
    have hself : w'.stream i = a.file := by
      rw [hstream, Function.update_self]
    have hcases := ff.api.fatfsOpen_cases (Q := fun fil => fil.fs ≠ none) hff.open_fs
      (fun v fil ofs hfil => by rwa [show ff.api.fLseek = ff.lseek from rfl, hff.lseek_fs])
      w.driver (w.openedFile i n flags) relative
    simp only at hcases
    rw [← ha, ← hdriver] at hcases
    rcases hcases with ⟨-, hrefused⟩ |
      ⟨-, ⟨hrv, hfile, -, hsame⟩ | ⟨hrv, hfile, -, fil, hfil, hgiven⟩⟩
    · -- refused before the file was touched
      have hrv : a.rv ≠ 0 := by
        rw [hrefused]
        exact Int.neg_ne_zero.2 one_ne_zero
      have hkept : w'.files = w.files :=
        hfiles.elim (fun hf => hf.2.2) fun ho => absurd ho.1 hrv
      refine h.of_failed_open hfree hkept htree ?_ hother ?_
      · rw [hdriver, hrefused]
      · rw [hself, hrefused]
        exact h.free i hfree
    · have hne : a.rv ≠ 0 := by
        rw [hrv]
        decide
      have hkept : w'.files = w.files :=
        hfiles.elim (fun hf => hf.2.2) fun ho => absurd ho.1 hne
      refine h.of_failed_open hfree hkept htree hsame hother ?_
      rw [hself, hfile]
      exact fun _ => nofun
    · have hused : w'.files = Function.update w.files i (some i) :=
        hfiles.elim (fun hf => absurd hrv hf.1) fun ho => ho.2.2
      refine h.of_opened hi hused htree hgiven hfil hother ?_
      rw [hself, hfile]

/-- An `fclose` whose first close fails changes nothing that matters here. -/
theorem StreamsOk.fclose (h : StreamsOk ff w) {stream : Option ℕ} {rv : ℤ}
    (hfails : FcloseFails w (.fclose stream)) (hs : w.fclose stream = some (w', rv)) :
    StreamsOk ff w' := by
  cases stream with
  | none =>
      cases hs
      exact h.of_eq rfl rfl (fun _ => rfl) fun _ => rfl
  | some i =>
      obtain ⟨n, a, hnode, ha⟩ := closeAnswer_of_fclose hs
      have hrv : a.rv ≠ 0 := hfails a ha
      obtain ⟨-, -, -, hanswer⟩ := h.closeAnswer_eq ha
      obtain ⟨hfile, hfs⟩ := FfApi.fatfsClose_fs ff hanswer hrv
      rw [fclose_of_closeAnswer hnode ha, if_pos hrv] at hs
      cases hs
      refine h.of_eq rfl rfl (fun j => ?_) hfs
      by_cases hji : j = i
      · simp [hji, setFlags, answered, hfile]
      · simp [setFlags, answered, Function.update_of_ne hji]

/-- An `fclose` whose first close succeeds leaks the descriptor. -/
theorem StreamsOk.fclose_leaks (h : StreamsOk ff w) {i : ℕ}
    {a : Answer (Fatfs V (Fil D)) PrivateData} (ha : w.closeAnswer i = some a) (hrv : a.rv = 0) :
    ∃ w', w.streamStep (.fclose (some i)) = some w' ∧ w'.Leaked i := by
  obtain ⟨n, hnode, hop, hanswer⟩ := h.closeAnswer_eq ha
  obtain ⟨k, hfile, hslot, hfs⟩ := FfApi.fatfsClose_ok ff hanswer hrv
  have hopen := h.files_eq hslot
  have hslot' : a.file.privateData = .slot k := by
    rw [hfile, hslot]
  obtain ⟨a', hanswer', hrv'⟩ := FfApi.fatfsClose_closed ff hslot' hfs
  set w₁ := w.answered (.close n i) i a with hw₁
  have hstream : w₁.stream i = a.file := answered_stream ..
  have hopen₁ : w₁.files i = some i := hopen
  have hnode' : (w₁.stream i).node = some n := by
    rw [hstream, hfile, hnode]
  have ha' : w₁.closeAnswer i = some a' :=
    closeAnswer_eq_some_iff.2 ⟨n, ff.api.fatfsClose, hnode', hop, by rw [hstream]; exact hanswer'⟩
  have hne : a'.rv ≠ 0 := by
    rw [hrv']
    decide
  obtain ⟨hfile', hfs'⟩ := FfApi.fatfsClose_fs ff hanswer' hne
  refine ⟨w₁.answered (.close n i) i a', ?_, i, k, hopen, ?_, ?_⟩
  · rw [streamStep, h.table.fclose_eq_closeFd hopen hnode ha hrv,
      closeFd_of_closeAnswer (h.table i i hopen).2 hopen₁ hnode' ha', if_pos hne]
    rfl
  · rw [answered_stream, hfile', hslot']
  · exact (hfs' k).trans hfs

theorem StreamsOk.streamStep (h : StreamsOk ff w) (hff : ff.Validates) {call : StreamCall}
    (hfails : FcloseFails w call) (hs : w.streamStep call = some w') : StreamsOk ff w' := by
  cases call with
  | fopen uninit filename mode =>
      obtain ⟨⟨w₁, stream⟩, hfopen, rfl⟩ := Option.map_eq_some_iff.1 hs
      obtain ⟨w₂, rv, hopen, hfiles, hdriver, htree, hstream⟩ := fopen_cases hfopen
      refine (h.openFile hff hopen).of_eq hfiles htree (fun i => (hstream i).2) fun k => ?_
      rw [hdriver]
  | fclose stream =>
      obtain ⟨⟨w₁, rv⟩, hfclose, rfl⟩ := Option.map_eq_some_iff.1 hs
      exact h.fclose hfails hfclose

/-- At a single call the two conditions are the same. -/
theorem StreamsOk.leakFreeAfter_iff (h : StreamsOk ff w) (hff : ff.Validates)
    (call : StreamCall) : LeakFreeAfter w call ↔ FcloseFails w call := by
  constructor
  · intro hfree
    rcases call with ⟨uninit, filename, mode⟩ | (_ | i)
    · trivial
    · trivial
    · intro a ha hrv
      obtain ⟨w', hs, hleaked⟩ := h.fclose_leaks ha hrv
      exact hfree w' hs i hleaked
  · intro hfails w' hs fd
    exact (h.streamStep hff hfails hs).not_leaked fd

theorem streamsOk_init (ff : FfCore V D)
    {tree : NodeTree (FileOperations (Fatfs V (Fil D)) PrivateData)} (htree : OverFatfs ff tree)
    (vol : V) :
    StreamsOk ff (initFatfs ff tree vol) where
  table := tableOk_init _ _ _
  overFatfs := htree
  used := fun _ => nofun
  free := fun _ _ _ => nofun

theorem along_leakFreeAfter_iff (hff : ff.Validates)
    {tree : NodeTree (FileOperations (Fatfs V (Fil D)) PrivateData)} (htree : OverFatfs ff tree)
    (vol : V) (calls : List StreamCall) :
    Along LeakFreeAfter streamStep (initFatfs ff tree vol) calls ↔
      Along FcloseFails streamStep (initFatfs ff tree vol) calls :=
  along_congr (fun _ _ _ h hfails hs => StreamsOk.streamStep h hff hfails hs)
    (fun _ call h => StreamsOk.leakFreeAfter_iff h hff call) (streamsOk_init ff htree vol) calls

/-- `fclose` of an open stream closes it exactly once if and only if the driver's close
fails; and over FatFs no descriptor is leaked exactly in the runs in which the first
close of every `fclose` fails. -/
theorem fclose_iff {δ P : Type*} {tree₀ : NodeTree (FileOperations δ P)} {driver₀ : δ}
    {stream₀ : ℕ → File P} {x : Stdio δ P} (h : Reachable step (init tree₀ driver₀ stream₀) x)
    {fd i : ℕ} (hopen : x.files fd = some i) (hff : ff.Validates)
    {tree : NodeTree (FileOperations (Fatfs V (Fil D)) PrivateData)} (htree : OverFatfs ff tree)
    (vol : V) (calls : List StreamCall) :
    (x.ClosesOnce i ↔ x.CloseFails i) ∧
      (Along LeakFreeAfter streamStep (initFatfs ff tree vol) calls ↔
        Along FcloseFails streamStep (initFatfs ff tree vol) calls) := by
  have htable := tableOk_of_reachable h
  have hself : x.files i = some i := (htable fd i hopen).1 ▸ hopen
  exact ⟨htable.closesOnce_iff hself, along_leakFreeAfter_iff hff htree vol calls⟩

end Leaks

section SdCard

/-- A volume on which every call succeeds. -/
def sdCard : FfCore Unit Unit where
  fsType := fun _ _ => 3
  fsId := fun _ _ => 1
  lockVolume := fun _ _ => (true, ())
  noInit := fun _ _ => false
  unlockVolume := fun _ _ _ => ()
  writeBack := fun _ fp => (.ok, fp.flag &&& ~~~faModified, ())
  decShare := fun _ _ => (.ok, ())
  openFile := fun _ fp _ mode =>
    (.ok, { fp with fs := some 0, id := 1, lockid := 1, flag := mode }, ())
  lseek := fun _ fp _ => (.ok, fp, ())
  read := fun _ fp _ => (.ok, [], fp, ())
  write := fun _ fp buf => (.ok, buf.length, fp, ())
  mkdir := fun _ _ => (.ok, ())
  unlink := fun _ _ => (.ok, ())
  zero := ⟨none, 0, 0, 0, 0, ()⟩

theorem sdCard_validates : sdCard.Validates where
  open_fs := fun _ _ _ _ _ => nofun
  lseek_fs := fun _ _ _ => rfl

/-- The tree in which it is mounted at `/fs`. -/
def sdCardTree : NodeTree (FileOperations (Fatfs Unit (Fil Unit)) PrivateData) :=
  ((NodeTree.init _).nodeMount 1 (some [0x2F, 0x66, 0x73]) (some sdCard.api.operations)).tree

theorem overFatfs_sdCardTree : OverFatfs sdCard sdCardTree := by
  intro n op hop
  have hmount : sdCardTree =
      ((((NodeTree.init _).nodeCreate [0x66, 0x73]).1.modify 0
          fun node => { node with child := some 1 }).modify 1
        fun node => { node with parent := some 0 }).setFOp 1 sdCard.api.operations := rfl
  by_cases hn : n = 1
  · rw [hn] at hop
    exact (Option.some.inj hop).symm
  · by_cases h0 : n = 0
    · rw [h0] at hop
      cases hop
    · rw [hmount, NodeTree.setFOp, NodeTree.modify_node_of_ne _ _ hn,
        NodeTree.modify_node_of_ne _ _ hn, NodeTree.modify_node_of_ne _ _ h0,
        NodeTree.nodeCreate_node_of_ne _ _ hn] at hop
      cases hop

/-- `/fs/a` is opened for reading. -/
def openA : StreamCall := .fopen 0 (some [0x2F, 0x66, 0x73, 0x2F, 0x61]) [0x72]

/-- The card is mounted and nothing is open. -/
def sdCardInit : Stdio (Fatfs Unit (Fil Unit)) PrivateData :=
  initFatfs sdCard sdCardTree ()

/-- The state with `/fs/a` open, in which its close would succeed. -/
theorem openA_run : ∃ w, Reachable step sdCardInit w ∧ w.files 0 = some 0 ∧
    (w.closeAnswer 0).map Answer.rv = some 0 := by
  obtain ⟨w, hw, hfacts⟩ := Option.map_eq_some_iff.1
    (show (run step sdCardInit [.stream openA]).map
      (fun w => (w.files 0, (w.closeAnswer 0).map Answer.rv)) = some (some 0, some 0) by
        decide +kernel)
  exact ⟨w, ⟨_, hw⟩, congrArg Prod.fst hfacts, congrArg Prod.snd hfacts⟩

/-- `/fs/a` opened and closed. -/
theorem fclose_iff_openA : ∃ w : Stdio (Fatfs Unit (Fil Unit)) PrivateData,
    Reachable step sdCardInit w ∧ w.files 0 = some 0 ∧ (w.ClosesOnce 0 ↔ w.CloseFails 0) ∧
      (Along LeakFreeAfter streamStep sdCardInit [openA, .fclose (some 0)] ↔
        Along FcloseFails streamStep sdCardInit [openA, .fclose (some 0)]) := by
  obtain ⟨w, hw, hopen, -⟩ := openA_run
  have h := fclose_iff hw hopen sdCard_validates overFatfs_sdCardTree ()
    [openA, .fclose (some 0)]
  exact ⟨w, hw, hopen, h.1, h.2⟩

/-- The driver is asked to close `/fs/a` twice, and its descriptor stays in use. -/
theorem fclose_closes_twice :
    (∃ w, Reachable step sdCardInit w ∧ w.files 0 = some 0 ∧ ¬ w.ClosesOnce 0) ∧
      (run streamStep sdCardInit [openA, .fclose (some 0)]).map (fun w => (w.calls, w.files 0)) =
        some ([.open 1 0 [0x61], .close 1 0, .close 1 0], some 0) ∧
      ¬ Along LeakFreeAfter streamStep sdCardInit [openA, .fclose (some 0)] := by
  refine ⟨?_, by decide +kernel, ?_⟩
  · obtain ⟨w, hw, hopen, hanswer⟩ := openA_run
    refine ⟨w, hw, hopen, ?_⟩
    rw [(tableOk_of_reachable hw).closesOnce_iff hopen]
    rintro ⟨a, ha, hrv⟩
    rw [ha] at hanswer
    exact hrv (Option.some.inj hanswer)
  · rw [sdCardInit, along_leakFreeAfter_iff sdCard_validates overFatfs_sdCardTree]
    decide +kernel

end SdCard

end Stdio

end Catpilot
