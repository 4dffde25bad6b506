import Catpilot.Stdio.Table
import Catpilot.Vfs.Shape

/-!
# Paths for the drivers

`open`, `mkdir` and `rmdir` look for the name of the node in the whole path. That gives
the driver the remainder of the path exactly if no component in front of the one that
was found contains the name.
-/

namespace Catpilot

open CString Transition

/-- No component in front of the last one that `node_find` finds contains the name of
the node. -/
def NameFirst {F : Type*} (t : NodeTree F) (path : List UInt8) (n : ℕ) : Prop :=
  ∀ d ∈ (components path).take (t.matched 0 (components path) - 1), ¬ t.nodeName n <:+: d

theorem relativePathname_iff {F : Type*} {t : NodeTree F} {kids : ℕ → List ℕ}
    (h : t.TreeOf kids) {path : List UInt8} (habs : Absolute path) {n : ℕ}
    (hn : (t.nodeFind (some path) .nearestPath).1 = some n) :
    ∃ relative, relativePathname path (t.node n).name = some relative ∧
      (relative = t.remainder path ↔ NameFirst t path n) := by
  rw [relativePathname, strstr, strlen, NodeTree.remainder, NameFirst]
  rw [show cstr (t.node n).name = t.nodeName n from rfl]
  rcases h.nearest_cases habs hn with ⟨hzero, hname⟩ | ⟨k, hk, hc⟩
  · rw [hname, search_nil_left, Option.map_some, hzero]
    refine ⟨_, rfl, iff_of_true rfl ?_⟩
    exact fun d hd => absurd hd List.not_mem_nil
  · obtain ⟨u, hu, hiff⟩ := search_component (Or.inr habs) hc
    rw [hu, Option.map_some, hk]
    exact ⟨_, rfl, hiff⟩

namespace Stdio

section Paths

variable {δ P : Type*} {w : Stdio δ P}

/-- The call returns after it has called the driver exactly so. -/
def Hands (w : Stdio δ P) (result : Option (Stdio δ P × ℤ)) (call : DriverCall) : Prop :=
  ∃ w' rv, result = some (w', rv) ∧ w'.calls = w.calls ++ [call]

theorem hands_iff {w' : Stdio δ P} {rv : ℤ} (call : DriverCall) {call' : DriverCall}
    (h : w'.calls = w.calls ++ [call]) : w.Hands (some (w', rv)) call' ↔ call = call' := by
  constructor
  · rintro ⟨w'', rv', heq, hcalls⟩
    cases heq
    rw [h] at hcalls
    exact List.singleton_injective (List.append_cancel_left hcalls)
  · rintro rfl
    exact ⟨w', rv, rfl, h⟩

theorem hands_openFile_iff {path : List UInt8} {n i : ℕ}
    {op : δ → File P → List UInt8 → Answer δ P} {relative rest : List UInt8} (flags : UInt32)
    (hfind : (w.tree.nodeFind (some path) .nearestPath).1 = some n)
    (hop : w.operation FileOperations.openOp n = some op) (hfd : w.fdNew = i)
    (hrel : relativePathname path (w.tree.node n).name = some relative) :
    w.Hands (w.openFile (some path) flags) (.open n i rest) ↔ relative = rest := by
  have hi : i < maxFiles := by
    rcases w.fdNew_cases with ⟨hfd', -⟩ | ⟨j, hfd', hleast⟩
    · rw [hfd] at hfd'
      cases hfd'
    · rw [hfd] at hfd'
      exact Int.ofNat.inj hfd' ▸ hleast.1.1
  have heq : (DriverCall.open n i relative = .open n i rest) ↔ relative = rest := by
    rw [DriverCall.open.injEq]
    exact ⟨fun h => h.2.2, fun h => ⟨rfl, rfl, h⟩⟩
  rw [openFile_of_operation flags hfind hop hfd hi hrel]
  simp only
  split
  · rw [fdDelete_of_lt _ hi, hands_iff (.open n i relative) rfl, heq]
  · rw [hands_iff (.open n i relative) rfl, heq]

theorem hands_pathCall_iff {α : Type*} {path : List UInt8} {n : ℕ}
    {member : FileOperations δ P → Option α} {answer : α → List UInt8 → ℤ × Errno × δ}
    {call : ℕ → List UInt8 → DriverCall} {op : α} {relative rest : List UInt8}
    (hcall : Function.Injective (call n))
    (hfind : (w.tree.nodeFind (some path) .nearestPath).1 = some n)
    (hop : w.operation member n = some op)
    (hrel : relativePathname path (w.tree.node n).name = some relative) :
    w.Hands (w.pathCall (some path) member answer call) (call n rest) ↔ relative = rest := by
  simp only [pathCall, hfind, hop, hrel, Option.map_some]
  rw [hands_iff (call n relative) rfl]
  exact hcall.eq_iff

/-- `open`, `mkdir` and `rmdir` hand the driver of the nearest node the remainder of the
path exactly where no component in front contains the name of the node. The mounts before have
only created nodes for components of less than 64 bytes. -/
theorem hands_remainder_iff {bytes : Option (FileOperations δ P) → List UInt8}
    {calls : List (NodeTree.MountCall (FileOperations δ P))}
    (hfit : Along (NodeTree.Terminates bytes) (NodeTree.nodeMountStep bytes)
      (NodeTree.init (FileOperations δ P)) calls)
    (hrun : run (NodeTree.nodeMountStep bytes) (NodeTree.init (FileOperations δ P)) calls =
      some w.tree)
    {path : List UInt8} (habs : Absolute path) {n : ℕ}
    (hn : (w.tree.nodeFind (some path) .nearestPath).1 = some n) :
    (∀ op i flags, w.operation FileOperations.openOp n = some op → w.fdNew = (i : ℕ) →
        (w.Hands (w.openFile (some path) flags) (.open n i (w.tree.remainder path)) ↔
          NameFirst w.tree path n)) ∧
      (∀ op mode, w.operation FileOperations.mkdirOp n = some op →
        (w.Hands (w.mkdir (some path) mode) (.mkdir n (w.tree.remainder path) mode) ↔
          NameFirst w.tree path n)) ∧
      (∀ op, w.operation FileOperations.rmdirOp n = some op →
        (w.Hands (w.rmdir (some path)) (.rmdir n (w.tree.remainder path)) ↔
          NameFirst w.tree path n)) := by
  obtain ⟨t, hrun', kids, htree, -⟩ := NodeTree.isTree_run hfit
  obtain rfl := Option.some.inj (hrun.symm.trans hrun')
  obtain ⟨relative, hrel, hiff⟩ := relativePathname_iff htree habs hn
  refine ⟨fun op i flags hop hfd => ?_, fun op mode hop => ?_, fun op hop => ?_⟩
  · rw [hands_openFile_iff flags hn hop hfd hrel, hiff]
  · rw [mkdir, hands_pathCall_iff (fun a b hab => (DriverCall.mkdir.inj hab).2.1) hn hop hrel, hiff]
  · rw [rmdir, hands_pathCall_iff (fun a b hab => (DriverCall.rmdir.inj hab).2) hn hop hrel, hiff]

end Paths

section DevE

/-- A driver that takes every call. -/
def takesAll : FileOperations Unit Unit where
  openOp := some fun _ file _ => ⟨0, .ok, file, ()⟩
  closeOp := some fun _ file => some ⟨0, .ok, file, ()⟩
  mkdirOp := some fun _ _ _ => (0, .ok, ())
  rmdirOp := some fun _ _ => (0, .ok, ())

/-- Bytes for `f_op`: zeros, or addresses. -/
def devBytes : Option (FileOperations Unit Unit) → List UInt8
  | none => List.replicate 44 0
  | some _ => List.replicate 44 0x08

/-- It is mounted at `/dev` and at `/dev/e`. -/
def devCalls : List (NodeTree.MountCall (FileOperations Unit Unit)) :=
  [⟨1, some [0x2F, 0x64, 0x65, 0x76], some takesAll⟩,
    ⟨1, some [0x2F, 0x64, 0x65, 0x76, 0x2F, 0x65], some takesAll⟩]

/-- The tree after these mounts. -/
def devTree : NodeTree (FileOperations Unit Unit) :=
  (run (NodeTree.nodeMountStep devBytes) (NodeTree.init _) devCalls).getD (NodeTree.init _)

theorem devTree_run :
    Along (NodeTree.Terminates devBytes) (NodeTree.nodeMountStep devBytes) (NodeTree.init _)
        devCalls ∧
      run (NodeTree.nodeMountStep devBytes) (NodeTree.init _) devCalls = some devTree :=
  ⟨by decide, rfl⟩

/-- No descriptor is in use. -/
def devWorld : Stdio Unit Unit := ⟨.ok, fun _ => none, fun _ => ⟨0, none, ()⟩, devTree, (), []⟩

/-- `/dev/e/x`, of which `/dev/e` is found. -/
def devEX : List UInt8 := [0x2F, 0x64, 0x65, 0x76, 0x2F, 0x65, 0x2F, 0x78]

/-- The three calls with `/dev/e/x`. -/
theorem hands_remainder_iff_devEX :
    (devWorld.Hands (devWorld.openFile (some devEX) oRdonly)
        (.open 2 0 (devWorld.tree.remainder devEX)) ↔ NameFirst devWorld.tree devEX 2) ∧
      (devWorld.Hands (devWorld.mkdir (some devEX) 0)
        (.mkdir 2 (devWorld.tree.remainder devEX) 0) ↔ NameFirst devWorld.tree devEX 2) ∧
      (devWorld.Hands (devWorld.rmdir (some devEX))
        (.rmdir 2 (devWorld.tree.remainder devEX)) ↔ NameFirst devWorld.tree devEX 2) := by
  have h := hands_remainder_iff (w := devWorld) devTree_run.1 devTree_run.2
    (show Absolute devEX from rfl) (n := 2) (by decide +kernel)
  exact ⟨h.1 _ 0 oRdonly rfl (by decide +kernel), h.2.1 _ 0 rfl, h.2.2 _ rfl⟩

/-- The name `e` is in `dev` already: the driver at `/dev/e` is asked for `v/e/x` in the
place of `x`. -/
theorem open_hands_wrong_path :
    (Along (NodeTree.Terminates devBytes) (NodeTree.nodeMountStep devBytes) (NodeTree.init _)
        devCalls ∧
      run (NodeTree.nodeMountStep devBytes) (NodeTree.init _) devCalls = some devTree) ∧
      Absolute devEX ∧
      (devTree.nodeFind (some devEX) .nearestPath).1 = some 2 ∧ devTree.remainder devEX = [0x78] ∧
      (devWorld.openFile (some devEX) oRdonly).map (fun r => r.1.calls) =
        some [.open 2 0 [0x76, 0x2F, 0x65, 0x2F, 0x78]] ∧
      ¬ devWorld.Hands (devWorld.openFile (some devEX) oRdonly)
        (.open 2 0 (devTree.remainder devEX)) := by
  have hcalls : (devWorld.openFile (some devEX) oRdonly).map (fun r => r.1.calls) =
      some [.open 2 0 [0x76, 0x2F, 0x65, 0x2F, 0x78]] := by decide +kernel
  have hrem : devTree.remainder devEX = [0x78] := by decide +kernel
  refine ⟨devTree_run, rfl, by decide +kernel, hrem, hcalls, ?_⟩
  rintro ⟨w', rv, heq, hw'⟩
  rw [heq, Option.map_some, hw', hrem] at hcalls
  exact absurd (Option.some.inj hcalls) (by decide)

end DevE

end Stdio

end Catpilot
