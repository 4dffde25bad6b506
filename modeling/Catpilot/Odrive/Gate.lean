import Catpilot.Odrive.Protocol
import Catpilot.Transition.Run

/-!
# The gate of the channels

`Gated` is what should hold of the ODrive atomic at any time: it uses no descriptor that is
negative or closed, and once an open has failed it is in the state `FAIL`. The first step
goes on after a failure, so this holds exactly if both opens succeed.
-/

namespace Catpilot

open Transition

namespace OdriveEvent

/-- The descriptor that is used. -/
def uses : OdriveEvent → Option ℤ
  | ioctl fd _ _ | write fd _ | read fd _ => some fd
  | «open» .. | close _ => none

/-- Whether a descriptor is closed after the calls, if it was `closed` before. -/
def closedAfter (fd : ℤ) : Bool → List OdriveEvent → Bool
  | closed, [] => closed
  | closed, .close fd' :: rest => closedAfter fd (closed || fd' = fd) rest
  | closed, .open _ _ rv :: rest => closedAfter fd (closed && rv ≠ fd) rest
  | closed, .ioctl .. :: rest | closed, .write .. :: rest | closed, .read .. :: rest =>
      closedAfter fd closed rest

theorem closedAfter_eq_false {events : List OdriveEvent} (h : ∀ fd, .close fd ∉ events) (fd : ℤ) :
    closedAfter fd false events = false := by
  induction events with
  | nil => rfl
  | cons event events ih =>
      have hrest := ih fun fd hmem => h fd (List.mem_cons_of_mem _ hmem)
      cases event with
      | close fd' => exact absurd List.mem_cons_self (h fd')
      | _ => exact hrest

end OdriveEvent

open OdriveEvent

namespace Odrive

section Gate

variable {R : Type*} {s s' : Odrive R} {scaled : R → UInt32} {p : OdriveParams}
  {tick : OdriveTick R} {events new : List OdriveEvent} {fd : ℤ}

/-- Every descriptor that is used is not negative, and not closed at that time. -/
def Proper (events : List OdriveEvent) : Prop :=
  ∀ before event after, events = before ++ event :: after →
    ∀ fd ∈ event.uses, 0 ≤ fd ∧ closedAfter fd false before = false

/-- One of the opens has failed. -/
def OpenFailed (events : List OdriveEvent) : Prop :=
  ∃ path flags rv, .open path flags rv ∈ events ∧ rv < 0

/-- What should hold at any time. -/
structure Gated (s : Odrive R) : Prop where
  proper : Proper s.events
  fail : OpenFailed s.events → s.state = .fail

/-- No channel was closed, and all the descriptors that were used are not negative. -/
structure Fine (events : List OdriveEvent) : Prop where
  not_closed : ∀ fd, .close fd ∉ events
  opened : ∀ path flags rv, .open path flags rv ∈ events → 0 ≤ rv
  used : ∀ event ∈ events, ∀ fd ∈ event.uses, 0 ≤ fd

theorem fine_nil : Fine [] where
  not_closed := fun _ => List.not_mem_nil
  opened := fun _ _ _ h => absurd h List.not_mem_nil
  used := fun _ h => absurd h List.not_mem_nil

theorem Fine.append (h : Fine events) (h' : Fine new) : Fine (events ++ new) where
  not_closed := fun fd hmem => (List.mem_append.1 hmem).elim (h.not_closed fd) (h'.not_closed fd)
  opened := fun path flags rv hmem =>
    (List.mem_append.1 hmem).elim (h.opened path flags rv) (h'.opened path flags rv)
  used := fun event hmem => (List.mem_append.1 hmem).elim (h.used event) (h'.used event)

theorem Fine.gated (h : Fine s.events) : Gated s where
  proper := by
    intro before event after hsplit fd hfd
    have hmem : event ∈ s.events := by
      rw [hsplit]
      exact List.mem_append_right _ List.mem_cons_self
    refine ⟨h.used event hmem fd hfd, closedAfter_eq_false (fun fd' hclose => ?_) fd⟩
    refine h.not_closed fd' ?_
    rw [hsplit]
    exact List.mem_append_left _ hclose
  fail := by
    rintro ⟨path, flags, rv, hmem, hneg⟩
    exact absurd (h.opened path flags rv hmem) (Int.not_le.2 hneg)

/-- The calls of a step on descriptors that are not negative. -/
theorem fine_odriveRead (hfd : 0 ≤ fd) (id : UInt32) (count : ℕ) :
    Fine (odriveRead fd id count) := by
  constructor <;> simp [odriveRead, uses, hfd]

theorem fine_odriveWrite (hfd : 0 ≤ fd) (id : UInt32) (buf : List UInt8) :
    Fine (odriveWrite fd id buf) := by
  constructor <;> simp [odriveWrite, uses, hfd]

/-- A step of a run. -/
def step (scaled : R → UInt32) (p : OdriveParams) (s : Odrive R) (tick : OdriveTick R) :
    Option (Odrive R) :=
  some (s.odriveProtocolFsm scaled p tick)

/-- If the step opens the channels, both opens succeed. -/
def OpensOk (s : Odrive R) (tick : OdriveTick R) : Prop :=
  s.state = .init → 0 ≤ tick.openMain ∧ 0 ≤ tick.openTm

/-- The atomic before its first step, and after opens that succeeded. -/
structure Started (s : Odrive R) : Prop where
  fine : Fine s.events
  opened : s.state ≠ .init → 0 ≤ s.mainCh ∧ 0 ≤ s.tmCh

theorem Started.odriveInit (h : Started s) (hmain : 0 ≤ tick.openMain)
    (htm : 0 ≤ tick.openTm) : Started (s.odriveInit p tick) := by
  have hopens : Fine [.open (chPath p.canIf 0x31) oRdwr tick.openMain,
      .open (chPath p.canIf 0x32) oRdwr tick.openTm] := by
    constructor
    · simp
    · intro path flags rv hmem
      simp only [List.mem_cons, OdriveEvent.open.injEq, List.not_mem_nil, or_false] at hmem
      rcases hmem with ⟨-, -, rfl⟩ | ⟨-, -, rfl⟩
      · exact hmain
      · exact htm
    · simp [uses]
  have hfilters : ∀ a b c d : UInt32, Fine [.ioctl tick.openMain .setRxFilterIdLow a,
      .ioctl tick.openMain .setRxFilterIdHigh b, .ioctl tick.openTm .setRxFilterIdLow c,
      .ioctl tick.openTm .setRxFilterIdHigh d] := by
    intro a b c d
    constructor <;> simp [uses, hmain, htm]
  simp only [Odrive.odriveInit, did, if_neg (Int.not_lt.2 hmain), if_neg (Int.not_lt.2 htm)]
  exact ⟨((h.fine.append hopens).append (hfilters ..)).append (fine_odriveRead hmain ..),
    fun _ => ⟨hmain, htm⟩⟩

theorem Started.odriveUpdate (h : Started s) (hupdate : s.state = .update) :
    Started (s.odriveUpdate scaled p tick) := by
  obtain ⟨hmain, htm⟩ := h.opened (by rw [hupdate]; decide)
  have hread : Fine [.read s.mainCh 8] := by
    constructor <;> simp [uses, hmain]
  have hfine := ((h.fine.append hread).append (fine_odriveWrite hmain
    (odriveGetCmdId p.axis odriveSetAbsolutePosition)
    (Word.bytes 4 (scaled tick.pos).toNat))).append (fine_odriveRead htm
      (odriveGetCmdId p.axis odriveGetBusVoltageCurrent) 8)
  rw [Odrive.odriveUpdate]
  split
  · exact ⟨hfine, fun _ => ⟨hmain, htm⟩⟩
  · exact ⟨hfine, fun _ => ⟨hmain, htm⟩⟩

theorem Started.fsm (h : Started s) (hok : OpensOk s tick) :
    Started (s.odriveProtocolFsm scaled p tick) := by
  rw [odriveProtocolFsm]
  cases hstate : s.state with
  | init =>
      obtain ⟨hmain, htm⟩ := hok hstate
      exact h.odriveInit hmain htm
  | conf => exact ⟨h.fine, fun _ => h.opened (by rw [hstate]; decide)⟩
  | update => exact h.odriveUpdate hstate
  | fail => exact h

/-- The first step opens the channels before all else, and ends in `ODRIVE_CONF`. -/
theorem odriveInit_events (p : OdriveParams) (s : Odrive R) (tick : OdriveTick R) :
    ∃ rest, (s.odriveInit p tick).events =
      s.events ++ [.open (chPath p.canIf 0x31) oRdwr tick.openMain,
        .open (chPath p.canIf 0x32) oRdwr tick.openTm] ++ rest := by
  by_cases hmain : tick.openMain < 0 <;> by_cases htm : tick.openTm < 0 <;>
    simp only [Odrive.odriveInit, did, hmain, htm, if_true, if_false, List.append_assoc] <;>
    exact ⟨_, rfl⟩

theorem openFailed_odriveInit (hopen : ¬ (0 ≤ tick.openMain ∧ 0 ≤ tick.openTm)) :
    OpenFailed (s.odriveInit p tick).events := by
  obtain ⟨rest, hevents⟩ := odriveInit_events p s tick
  rw [hevents]
  rcases not_and_or.1 hopen with hmain | htm
  · refine ⟨chPath p.canIf 0x31, oRdwr, tick.openMain, ?_, Int.not_le.1 hmain⟩
    simp
  · refine ⟨chPath p.canIf 0x32, oRdwr, tick.openTm, ?_, Int.not_le.1 htm⟩
    simp

/-- A step leaves what should hold exactly if its opens succeed. -/
theorem Started.gated_iff (h : Started s) :
    Gated (s.odriveProtocolFsm scaled p tick) ↔ OpensOk s tick := by
  constructor
  · intro hgated hinit
    by_contra hopen
    have hfsm : s.odriveProtocolFsm scaled p tick = s.odriveInit p tick := by
      rw [odriveProtocolFsm, hinit]
    rw [hfsm] at hgated
    have hstate : OdriveState.conf = .fail := hgated.fail (openFailed_odriveInit hopen)
    exact absurd hstate (by decide)
  · exact fun hok => (h.fsm hok).fine.gated

/-- Before the first step. -/
def start (vol cur : R) : Odrive R := ⟨.init, 0, 0, vol, cur, []⟩

theorem started_start (vol cur : R) : Started (start vol cur) where
  fine := fine_nil
  opened := fun h => absurd rfl h

/-- The gate holds after every step of a run exactly if the opens in it succeed. -/
theorem along_gated_iff (scaled : R → UInt32) (p : OdriveParams) (vol cur : R)
    (ticks : List (OdriveTick R)) :
    Along (fun s tick => Gated (s.odriveProtocolFsm scaled p tick)) (step scaled p)
        (start vol cur) ticks ↔
      Along OpensOk (step scaled p) (start vol cur) ticks := by
  refine along_congr (fun s tick s' h hok hs => ?_) (fun s tick h => h.gated_iff)
    (started_start vol cur) ticks
  cases hs
  exact h.fsm hok

end Gate

/-- Both opens fail in the first step: the atomic is not in `FAIL` after it, and has used
the descriptor -1. -/
theorem not_gated_noCan : ¬ ∀ (R : Type) (scaled : R → UInt32) (p : OdriveParams) (vol cur : R)
    (ticks : List (OdriveTick R)),
    Along (fun s tick => Gated (s.odriveProtocolFsm scaled p tick)) (step scaled p)
      (start vol cur) ticks := by
  intro hall
  have hgated := (along_cons.1 (hall Unit (fun _ => 0) ⟨[], 0⟩ () ()
    [⟨(), -1, -1, -1, ((), ())⟩])).1
  have hstate : OdriveState.conf = .fail := hgated.fail (openFailed_odriveInit (by decide))
  exact absurd hstate (by decide)

end Odrive

end Catpilot
