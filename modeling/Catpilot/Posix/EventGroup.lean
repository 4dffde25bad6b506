import Mathlib.Data.BitVec
import Mathlib.Data.Finset.Fold
import Mathlib.Data.Fintype.Defs
import Mathlib.Logic.Function.Basic

/-!
# Event groups

The repository has `event_groups.h` of FreeRTOS, but not the code behind it, so an event group
is a parameter here: anything whose operations do what the header says of them. A call of
`xEventGroupSync` atomically sets bits and then waits for bits. It returns when all the bits
that it waits for are set, be it by the call itself or later by another one, and these bits are
cleared before it returns: here by the call that sets the last of them.
-/

namespace Catpilot

/-- With 32-bit ticks an event group has 24 usable bits, bit 0 to bit 23. -/
def UsableBits (bits : BitVec 32) : Prop := ∀ k, 24 ≤ k → bits.getLsbD k = false

/-- The thread `j` is in a call that waits for `m`: the one that `i` makes to wait for `all`, or
an earlier one. -/
def InSync {ι : Type*} (awaits : ι → Option (BitVec 32)) (i : ι) (all : BitVec 32) (j : ι)
    (m : BitVec 32) : Prop :=
  j = i ∧ m = all ∨ j ≠ i ∧ awaits j = some m

namespace InSync

variable {ι : Type*} {awaits : ι → Option (BitVec 32)} {i j : ι} {all m : BitVec 32}

theorem eq_all (h : InSync awaits i all j m) (hsame : ∀ j m, awaits j = some m → m = all) :
    m = all :=
  h.elim And.right fun hold => hsame j m hold.2

theorem iff_update [DecidableEq ι] :
    InSync awaits i all j m ↔ Function.update awaits i (some all) j = some m := by
  by_cases hj : j = i
  · rw [hj, Function.update_self, Option.some_inj, InSync]
    exact ⟨fun h => (h.resolve_right fun hold => hold.1 rfl).2.symm, fun h => .inl ⟨rfl, h.symm⟩⟩
  · rw [Function.update_of_ne hj]
    exact ⟨fun h => (h.resolve_left fun hnew => hj hnew.1).2, fun h => .inr ⟨hj, h⟩⟩

end InSync

/-- An event group in the state `G` for the threads `ι`. `sync g i set all` is the call
`xEventGroupSync` of `i` with `portMAX_DELAY`, up to where it returns or blocks, and `awaits` is
what a blocked thread waits for. -/
structure EventGroup (ι G : Type*) where
  create : G
  sync : G → ι → BitVec 32 → BitVec 32 → G
  bits : G → BitVec 32
  awaits : G → ι → Option (BitVec 32)
  /-- In a new event group no bit is set, and nobody waits. -/
  bits_create : bits create = 0#32
  awaits_create : ∀ i, awaits create i = none
  /-- The calls for which a bit is missing wait, and no others. -/
  awaits_sync : ∀ g i set all j m, UsableBits set → UsableBits all →
    (awaits (sync g i set all) j = some m ↔
      InSync (awaits g) i all j m ∧ (bits g ||| set) &&& m ≠ m)
  /-- The bits of the calls that return are cleared, and no others. -/
  bits_sync : ∀ g i set all k, UsableBits set → UsableBits all →
    ((bits (sync g i set all)).getLsbD k = true ↔
      (bits g ||| set).getLsbD k = true ∧
        ∀ j m, InSync (awaits g) i all j m → (bits g ||| set) &&& m = m → m.getLsbD k = false)

namespace EventGroup

variable {ι G : Type*} (E : EventGroup ι G) {g : G} {i j : ι} {set all : BitVec 32}

/-! ### Threads that wait for the same bits -/

section Common

variable (hset : UsableBits set) (hall : UsableBits all)

include hset hall

/-- When all the bits are set, nobody waits any more. -/
theorem awaits_sync_of_all (hsame : ∀ j m, E.awaits g j = some m → m = all)
    (h : (E.bits g ||| set) &&& all = all) : E.awaits (E.sync g i set all) j = none := by
  refine Option.eq_none_iff_forall_ne_some.2 fun m hm => ?_
  obtain ⟨hcall, hne⟩ := (E.awaits_sync g i set all j m hset hall).1 hm
  rw [hcall.eq_all hsame] at hne
  exact hne h

/-- When all the bits are set, they are cleared. -/
theorem bits_sync_of_all (hsame : ∀ j m, E.awaits g j = some m → m = all)
    (h : (E.bits g ||| set) &&& all = all) :
    E.bits (E.sync g i set all) = (E.bits g ||| set) &&& ~~~all := by
  apply BitVec.eq_of_getLsbD_eq
  intro k hk
  rw [Bool.eq_iff_iff, E.bits_sync g i set all k hset hall, BitVec.getLsbD_and,
    BitVec.getLsbD_not, Bool.and_eq_true]
  refine and_congr_right fun _ => ⟨fun hclear => ?_, fun hclear j m hcall _ => ?_⟩
  · rw [hclear i all (.inl ⟨rfl, rfl⟩) h]
    simp [hk]
  · have hm : m = all := hcall.elim And.right fun hold => hsame j m hold.2
    rw [hm]
    simpa [hk] using hclear

/-- As long as a bit is missing, the threads that waited wait, and the one that calls. -/
theorem awaits_sync_of_not_all [DecidableEq ι] (hsame : ∀ j m, E.awaits g j = some m → m = all)
    (h : (E.bits g ||| set) &&& all ≠ all) :
    E.awaits (E.sync g i set all) = Function.update (E.awaits g) i (some all) := by
  funext j
  refine Option.ext fun m => ?_
  rw [E.awaits_sync g i set all j m hset hall, ← InSync.iff_update, and_iff_left_of_imp]
  intro hcall
  rwa [hcall.eq_all hsame]

/-- As long as a bit is missing, none is cleared. -/
theorem bits_sync_of_not_all (hsame : ∀ j m, E.awaits g j = some m → m = all)
    (h : (E.bits g ||| set) &&& all ≠ all) :
    E.bits (E.sync g i set all) = E.bits g ||| set := by
  apply BitVec.eq_of_getLsbD_eq
  intro k _
  rw [Bool.eq_iff_iff, E.bits_sync g i set all k hset hall, and_iff_left]
  intro j m hcall heq
  rw [hcall.eq_all hsame] at heq
  exact absurd heq h

end Common

/-! ### A group that keeps what the threads wait for -/

section Direct

/-- All the bits of some masks. -/
def union (t : Finset ι) (f : ι → BitVec 32) : BitVec 32 :=
  t.fold (fun a b : BitVec 32 => a ||| b) 0 f

theorem getLsbD_union [DecidableEq ι] (t : Finset ι) (f : ι → BitVec 32) (k : ℕ) :
    (union t f).getLsbD k = true ↔ ∃ j ∈ t, (f j).getLsbD k = true := by
  induction t using Finset.induction_on with
  | empty => simp [union]
  | insert j t hj ih =>
      rw [union, Finset.fold_insert hj, ← union, BitVec.getLsbD_or, Bool.or_eq_true, ih,
        Finset.exists_mem_insert]

variable [Fintype ι] [DecidableEq ι]

/-- An event group as a mask and what each thread waits for. -/
def direct : EventGroup ι (BitVec 32 × (ι → Option (BitVec 32))) where
  create := (0, fun _ => none)
  sync g i set all :=
    let bits := g.1 ||| set
    let calls := Function.update g.2 i (some all)
    (bits &&& ~~~union Finset.univ fun j => ((calls j).filter fun m => bits &&& m = m).getD 0,
      fun j => (calls j).filter fun m => bits &&& m ≠ m)
  bits := Prod.fst
  awaits := Prod.snd
  bits_create := rfl
  awaits_create _ := rfl
  awaits_sync g i set all j m _ _ := by
    rw [Option.filter_eq_some_iff, InSync.iff_update, decide_eq_true_eq]
  bits_sync g i set all k _ _ := by
    rw [BitVec.getLsbD_and, BitVec.getLsbD_not, Bool.and_eq_true]
    refine and_congr_right fun hbit => ?_
    rw [decide_eq_true (BitVec.lt_of_getLsbD hbit), Bool.true_and, Bool.not_eq_true',
      ← Bool.not_eq_true, getLsbD_union]
    constructor
    · intro hnone j m hcall heq
      refine Bool.eq_false_iff.2 fun hm => hnone ⟨j, Finset.mem_univ j, ?_⟩
      rwa [InSync.iff_update.1 hcall, Option.filter_some, if_pos (decide_eq_true heq)]
    · rintro hclear ⟨j, -, hj⟩
      rcases hcall : (Function.update g.2 i (some all) j).filter fun m =>
        (g.1 ||| set) &&& m = m with - | m
      · rw [hcall] at hj
        simp at hj
      · rw [hcall, Option.getD_some] at hj
        obtain ⟨hold, heq⟩ := Option.filter_eq_some_iff.1 hcall
        rw [hclear j m (InSync.iff_update.2 hold) (of_decide_eq_true heq)] at hj
        cases hj

end Direct

end EventGroup

end Catpilot
