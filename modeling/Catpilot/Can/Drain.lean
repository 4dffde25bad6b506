import Catpilot.Can.Basic
import Catpilot.Hal.Status
import Catpilot.Sync.Mutex
import Catpilot.Transition.Run

/-!
# The receive FIFO of a CAN interface

`can_receive`, called by any number of tasks, and `can_it_handler`. The controller stores the
frames in its receive FIFO 0 of `n` elements and sets `RF0N` for each; the handler clears the
flag and gives `rx_sem`; a call takes `rx_sem` and fetches one frame. The runs begin after
`can_init`, with an empty FIFO.
-/

namespace Catpilot

open Transition Sync

/-! ## The interface -/

/-- The states of `enum can_state_t` that a reception sets. -/
inductive CanState where
  | free
  | receive
  deriving DecidableEq, Repr

/-- Where a task stands: outside of `can_receive`, or in it before the mutex, before
`rx_sem`, before the FIFO, and before the mutex is given, with the result and the frame. -/
inductive CanRxPc where
  | idle
  | take
  | wait
  | fetch
  | give (rv : ℕ) (frame : Option CanFrame)
  deriving DecidableEq, Repr

/-- What the handler looks at in its copy of the register `IR`: the flag `TC`, and whether
one of `RF0N` and `RF1N` is set. -/
structure CanIr where
  tc : Bool
  rx : Bool
  deriving DecidableEq, Repr

/-- The receive side of an interface: the FIFO 0, the flags of `IR` (`other` stands for the
rest of those that are enabled), the copy of them where the handler is running, the fields of
`can_private_t` that a reception and the handler use, and where the tasks stand, with the
results of their last calls. -/
structure CanRx (ι : Type*) where
  fifo : List CanFrame
  rf0n : Bool
  rf1n : Bool
  tc : Bool
  other : Bool
  handler : Option CanIr
  txSem : Bool
  rxSem : Bool
  rxMutex : Option ι
  state : CanState
  pc : ι → CanRxPc
  returned : ι → Option (ℕ × Option CanFrame)

def CanRx.init (ι : Type*) : CanRx ι where
  fifo := []
  rf0n := false
  rf1n := false
  tc := false
  other := false
  handler := none
  txSem := false
  rxSem := false
  rxMutex := none
  state := .free
  pc := fun _ => .idle
  returned := fun _ => none

/-- What happens: a frame for the FIFO 0 or the FIFO 1 arrives, a transmission completes,
another flag is set, the handler reads `IR` or acts on it, or a task calls `can_receive` (with
arguments that are not `NULL`, or not), goes on or gives up its wait. -/
inductive CanRxAction (ι : Type*) where
  | frame (frame : CanFrame)
  | frame1
  | transmitted
  | flag
  | enter
  | handle
  | call (i : ι) (valid : Bool)
  | next (i : ι)
  | timeout (i : ι)

section Handler

variable {ι : Type*}

/-- A frame that arrives when the FIFO is full is lost (`RF0L`). -/
def CanRx.store (s : CanRx ι) (n : ℕ) (frame : CanFrame) : CanRx ι :=
  if s.fifo.length < n then { s with fifo := s.fifo ++ [frame], rf0n := true }
  else { s with other := true }

/-- `HAL_FDCAN_IRQHandler`: every flag that is set is cleared, and the callbacks are empty. -/
def halFdcanIrqHandler (s : CanRx ι) : CanRx ι :=
  { s with rf0n := false, rf1n := false, tc := false, other := false }

/-- `can_it_handler`, with its copy of `IR`. A frame that arrives between the clear and the
give is as one that arrives after the give. -/
def canItHandler (s : CanRx ι) (ir : CanIr) : CanRx ι :=
  if ir.tc then { s with tc := false, txSem := true }
  else if ir.rx then { s with rf0n := false, rf1n := false, rxSem := true }
  else halFdcanIrqHandler s

end Handler

section Steps

variable {ι : Type*} [DecidableEq ι]

def CanRx.goto (s : CanRx ι) (i : ι) (pc : CanRxPc) : CanRx ι :=
  { s with pc := Function.update s.pc i pc }

def CanRx.leave (s : CanRx ι) (i : ι) (rv : ℕ) (frame : Option CanFrame) : CanRx ι :=
  { s.goto i .idle with returned := Function.update s.returned i (some (rv, frame)) }

/-- `HAL_FDCAN_GetRxMessage` for the FIFO 0, and where the call goes on. -/
def CanRx.fetch (s : CanRx ι) (i : ι) : CanRx ι :=
  match s.fifo with
  | [] => s.goto i (.give HalStatus.error.value none)
  | frame :: rest => { s.goto i (.give HalStatus.ok.value (some frame)) with fifo := rest }

/-- A task goes on in `can_receive`. -/
def CanRx.next (s : CanRx ι) (i : ι) : Option (CanRx ι) :=
  match s.pc i with
  | .take =>
      if s.rxMutex = none then some { s.goto i .wait with rxMutex := some i, state := .receive }
      else none
  | .wait => if s.rxSem then some { s.goto i .fetch with rxSem := false } else none
  | .fetch => some (s.fetch i)
  | .give rv frame => some { s.leave i rv frame with rxMutex := none, state := .free }
  | .idle => none

/-- A task gives up its wait for the mutex, or for `rx_sem`. -/
def CanRx.timeout (s : CanRx ι) (i : ι) : Option (CanRx ι) :=
  match s.pc i with
  | .take => if s.rxMutex = none then none else some (s.leave i rvEtimedout none)
  | .wait => if s.rxSem then none else some (s.goto i (.give rvEtimedout none))
  | _ => none

/-- A step; the tasks stand while the handler runs. -/
def canRxStep (n : ℕ) (s : CanRx ι) : CanRxAction ι → Option (CanRx ι)
  | .frame frame => some (s.store n frame)
  | .frame1 => some { s with rf1n := true }
  | .transmitted => some { s with tc := true }
  | .flag => some { s with other := true }
  | .enter =>
      if s.handler = none ∧ (s.rf0n || s.rf1n || s.tc || s.other) then
        some { s with handler := some ⟨s.tc, s.rf0n || s.rf1n⟩ }
      else none
  | .handle => s.handler.map fun ir => { canItHandler s ir with handler := none }
  | .call i valid =>
      if s.handler = none ∧ s.pc i = .idle then
        some (if valid then s.goto i .take else s.leave i rvEinval none)
      else none
  | .next i => if s.handler = none then s.next i else none
  | .timeout i => if s.handler = none then s.timeout i else none

end Steps

/-! ## What is to hold -/

/-- The call is between taking the mutex and giving it. -/
def CanRxPc.HoldsMutex : CanRxPc → Prop
  | .idle | .take => False
  | .wait | .fetch | .give _ _ => True

section Drain

variable {ι : Type*}

/-- A call has taken `rx_sem` and not fetched its frame. -/
def CanRx.fetching (s : CanRx ι) : Bool := s.rxMutex.any fun i => s.pc i = .fetch

/-- While a call is blocked on `rx_sem` and no receive interrupt is pending, no frame is in
the FIFO. -/
def CanRx.Drained (s : CanRx ι) : Prop :=
  ∀ i, s.pc i = .wait → s.rxSem = false → s.rf0n = false → s.rf1n = false → s.fifo = []

/-- A frame is stored, and the flags of the FIFOs are cleared, only while the FIFO holds no
more frames than there are tokens for: one for `rx_sem` if it is given (as the receive branch
of the handler does), and one for the call that has taken it and not fetched its frame. -/
def CanOk (n : ℕ) (s : CanRx ι) : CanRxAction ι → Prop
  | .frame _ => s.fifo.length < n → s.fifo.length ≤ s.rxSem.toNat + s.fetching.toNat
  | .handle => ∀ ir, s.handler = some ir → ir.tc = false →
      s.fifo.length ≤ (ir.rx || s.rxSem).toNat + s.fetching.toNat
  | _ => True

instance (n : ℕ) (s : CanRx ι) : (a : CanRxAction ι) → Decidable (CanOk n s a)
  | .frame _ =>
      inferInstanceAs (Decidable
        (s.fifo.length < n → s.fifo.length ≤ s.rxSem.toNat + s.fetching.toNat))
  | .handle =>
      inferInstanceAs (Decidable (∀ ir ∈ s.handler, ir.tc = false →
        s.fifo.length ≤ (ir.rx || s.rxSem).toNat + s.fetching.toNat))
  | .frame1 | .transmitted | .flag | .enter | .call _ _ | .next _ | .timeout _ => isTrue trivial

/-- The frames that will still be fetched if no more arrive: for the tokens, and for the
interrupt that is pending. -/
def CanRx.supply (s : CanRx ι) : ℕ :=
  s.rxSem.toNat + s.fetching.toNat + (s.rf0n || s.rf1n).toNat

/-- The mutex is held by the call that has taken it, and the flags that the handler has read
are not cleared before it acts on them. -/
structure CanRx.Sound (s : CanRx ι) : Prop where
  guarded : Guarded s.rxMutex CanRxPc.HoldsMutex s.pc
  pending : ∀ ir, s.handler = some ir → ir.rx = true → (s.rf0n || s.rf1n) = true

variable {s s' : CanRx ι} {i : ι} {pc : CanRxPc}

theorem CanRx.fetching_of_owner (h : s.rxMutex = some i) :
    s.fetching = decide (s.pc i = .fetch) := by
  rw [CanRx.fetching, h, Option.any_some]

/-- A call that waits has fetched its last frame, and no other call is in the FIFO. -/
theorem CanRx.Sound.supply_of_wait (h : s.Sound) (hwait : s.pc i = .wait) (hsem : s.rxSem = false)
    (hrf0n : s.rf0n = false) (hrf1n : s.rf1n = false) : s.supply = 0 := by
  have howner := h.guarded.owner_of_eq hwait trivial
  rw [CanRx.supply, CanRx.fetching_of_owner howner, hwait, hsem, hrf0n, hrf1n]
  rfl

theorem CanRx.Sound.init : (CanRx.init ι).Sound where
  guarded := .of_free fun _ => id
  pending := fun _ hfalse => by cases hfalse

/-! ## The handler and the controller -/

/-- A frame that is stored needs one token more, and the flag stands for one. -/
theorem CanRx.length_store_le {n : ℕ} {frame : CanFrame} (h : s.fifo.length ≤ s.supply)
    (hok : CanOk n s (.frame frame)) :
    (s.store n frame).fifo.length ≤ (s.store n frame).supply := by
  rw [CanRx.store]
  split_ifs with hlt
  · have hle := hok hlt
    simp only [List.length_append, List.length_singleton, CanRx.supply, Bool.true_or]
    exact Nat.add_le_add_right hle 1
  · exact h

/-- A frame never makes up for a missing token. -/
theorem CanRx.supply_store_lt {n : ℕ} {frame : CanFrame} (h : s.supply < s.fifo.length) :
    (s.store n frame).supply < (s.store n frame).fifo.length := by
  rw [CanRx.store]
  split_ifs
  · have hle : s.rxSem.toNat + s.fetching.toNat ≤ s.supply := Nat.le_add_right _ _
    simp only [List.length_append, List.length_singleton, CanRx.supply, Bool.true_or]
    exact Nat.add_lt_add_right (Nat.lt_of_le_of_lt hle h) 1
  · exact h

/-- The tokens behind the handler: it changes them in the branches that clear the flags. -/
theorem CanRx.supply_canItHandler {ir : CanIr} :
    (canItHandler s ir).supply =
      if ir.tc then s.supply else (ir.rx || s.rxSem).toNat + s.fetching.toNat := by
  rw [canItHandler]
  split_ifs with htc hrx
  · rfl
  · rw [hrx, Bool.true_or]
    rfl
  · rw [Bool.eq_false_iff.2 hrx, Bool.false_or]
    rfl

theorem CanRx.fifo_canItHandler {ir : CanIr} : (canItHandler s ir).fifo = s.fifo := by
  rw [canItHandler]
  split_ifs
  all_goals rfl

/-- The handler never makes up for a missing token: it gives one for a flag that is set. -/
theorem CanRx.Sound.supply_canItHandler_le (h : s.Sound) {ir : CanIr} (hir : s.handler = some ir) :
    (canItHandler s ir).supply ≤ s.supply := by
  rw [CanRx.supply_canItHandler]
  split_ifs
  · exact Nat.le_refl _
  · cases hrx : ir.rx with
    | false =>
        rw [Bool.false_or]
        exact Nat.le_add_right _ _
    | true =>
        have hpending := h.pending ir hir hrx
        rw [Bool.true_or, CanRx.supply, hpending, Bool.toNat_true]
        omega

/-! ## The calls -/

/-- A step of a call fetches `d` frames, where there are so many, for `d` tokens. -/
def CanRx.Balanced (s s' : CanRx ι) : Prop :=
  ∃ d ≤ s.supply, s'.fifo.length = s.fifo.length - d ∧ s'.supply = s.supply - d

theorem CanRx.Balanced.of_eq (hfifo : s'.fifo = s.fifo) (hsupply : s'.supply = s.supply) :
    s.Balanced s' :=
  ⟨0, Nat.zero_le _, by rw [hfifo]; rfl, by rw [hsupply]; rfl⟩

variable [DecidableEq ι]

/-- The move of a task that does not have the mutex. -/
theorem CanRx.Sound.supply_goto (h : s.Sound) (hi : ¬ (s.pc i).HoldsMutex) :
    (s.goto i pc).supply = s.supply := by
  have hfetching : (s.goto i pc).fetching = s.fetching := by
    cases howner : s.rxMutex with
    | none => simp [CanRx.fetching, CanRx.goto, howner]
    | some j =>
        have hj : j ≠ i := by
          rintro rfl
          exact hi ((h.guarded j).1 howner)
        simp [CanRx.fetching, CanRx.goto, howner, Function.update_of_ne hj]
  rw [CanRx.supply, hfetching]
  rfl

/-- A call takes the mutex. -/
theorem CanRx.supply_take (hfree : s.rxMutex = none) :
    CanRx.supply { s.goto i .wait with rxMutex := some i, state := .receive } = s.supply := by
  simp [CanRx.supply, CanRx.fetching, CanRx.goto, hfree]

/-- A call takes the token. -/
theorem CanRx.Sound.supply_token (h : s.Sound) (hpc : s.pc i = .wait) (hsem : s.rxSem = true) :
    CanRx.supply { s.goto i .fetch with rxSem := false } = s.supply := by
  have howner := h.guarded.owner_of_eq hpc trivial
  simp [CanRx.supply, CanRx.fetching, CanRx.goto, howner, hpc, hsem]

/-- A call gives up its token for a frame, or for none. -/
theorem CanRx.Sound.balanced_fetch (h : s.Sound) (hpc : s.pc i = .fetch) :
    s.Balanced (s.fetch i) := by
  have howner := h.guarded.owner_of_eq hpc trivial
  have hsupply : s.supply = s.rxSem.toNat + 1 + (s.rf0n || s.rf1n).toNat := by
    rw [CanRx.supply, CanRx.fetching_of_owner howner, hpc]
    rfl
  refine ⟨1, by omega, ?_, ?_⟩
  · rw [CanRx.fetch]
    cases hfifo : s.fifo with
    | nil => simp [CanRx.goto, hfifo]
    | cons frame rest => simp
  · have hafter : (s.fetch i).supply = s.rxSem.toNat + (s.rf0n || s.rf1n).toNat := by
      rw [CanRx.fetch]
      cases s.fifo with
      | nil => simp [CanRx.supply, CanRx.fetching, CanRx.goto, howner]
      | cons frame rest => simp [CanRx.supply, CanRx.fetching, CanRx.goto, howner]
    omega

/-- A call gives up its wait for the token. -/
theorem CanRx.Sound.supply_late (h : s.Sound) (hpc : s.pc i = .wait) {rv : ℕ} :
    (s.goto i (.give rv none)).supply = s.supply := by
  have howner := h.guarded.owner_of_eq hpc trivial
  simp [CanRx.supply, CanRx.fetching, CanRx.goto, howner, hpc]

/-- A call gives the mutex. -/
theorem CanRx.Sound.supply_give (h : s.Sound) {rv : ℕ} {frame : Option CanFrame}
    (hpc : s.pc i = .give rv frame) :
    CanRx.supply { s.leave i rv frame with rxMutex := none, state := .free } = s.supply := by
  have howner := h.guarded.owner_of_eq hpc trivial
  simp [CanRx.supply, CanRx.fetching, CanRx.leave, CanRx.goto, howner, hpc]

/-- What a task does that goes on. -/
theorem CanRx.next_cases (hs : s.next i = some s') :
    (s.pc i = .take ∧ s.rxMutex = none ∧
        s' = { s.goto i .wait with rxMutex := some i, state := .receive }) ∨
      (s.pc i = .wait ∧ s.rxSem = true ∧ s' = { s.goto i .fetch with rxSem := false }) ∨
      (s.pc i = .fetch ∧ s' = s.fetch i) ∨
      ∃ rv frame, s.pc i = .give rv frame ∧
        s' = { s.leave i rv frame with rxMutex := none, state := .free } := by
  rw [CanRx.next] at hs
  cases hpc : s.pc i with
  | idle => simp [hpc] at hs
  | take =>
      simp only [hpc, Option.ite_none_right_eq_some, Option.some.injEq] at hs
      exact .inl ⟨rfl, hs.1, hs.2.symm⟩
  | wait =>
      simp only [hpc, Option.ite_none_right_eq_some, Option.some.injEq] at hs
      exact .inr (.inl ⟨rfl, hs.1, hs.2.symm⟩)
  | fetch =>
      simp only [hpc, Option.some.injEq] at hs
      exact .inr (.inr (.inl ⟨rfl, hs.symm⟩))
  | give rv frame =>
      simp only [hpc, Option.some.injEq] at hs
      exact .inr (.inr (.inr ⟨rv, frame, rfl, hs.symm⟩))

/-- What a task does that gives up. -/
theorem CanRx.timeout_cases (hs : s.timeout i = some s') :
    (s.pc i = .take ∧ s' = s.leave i rvEtimedout none) ∨
      (s.pc i = .wait ∧ s' = s.goto i (.give rvEtimedout none)) := by
  rw [CanRx.timeout] at hs
  cases hpc : s.pc i with
  | take =>
      simp only [hpc, Option.ite_none_left_eq_some, Option.some.injEq] at hs
      exact .inl ⟨rfl, hs.2.symm⟩
  | wait =>
      simp only [hpc, Option.ite_none_left_eq_some, Option.some.injEq] at hs
      exact .inr ⟨rfl, hs.2.symm⟩
  | _ => simp [hpc] at hs

theorem CanRx.Sound.balanced_next (h : s.Sound) (hs : s.next i = some s') : s.Balanced s' := by
  obtain ⟨hpc, hfree, rfl⟩ | ⟨hpc, hsem, rfl⟩ | ⟨hpc, rfl⟩ | ⟨rv, frame, hpc, rfl⟩ :=
    CanRx.next_cases hs
  · exact .of_eq rfl (CanRx.supply_take hfree)
  · exact .of_eq rfl (h.supply_token hpc hsem)
  · exact h.balanced_fetch hpc
  · exact .of_eq rfl (h.supply_give hpc)

theorem CanRx.Sound.balanced_timeout (h : s.Sound) (hs : s.timeout i = some s') :
    s.Balanced s' := by
  obtain ⟨hpc, rfl⟩ | ⟨hpc, rfl⟩ := CanRx.timeout_cases hs
  · have hsupply : (s.goto i .idle).supply = s.supply := h.supply_goto (by rw [hpc]; exact id)
    exact .of_eq rfl hsupply
  · exact .of_eq rfl (h.supply_late hpc)

theorem CanRx.Sound.balanced_call (h : s.Sound) (hidle : s.pc i = .idle) (valid : Bool) :
    s.Balanced (if valid then s.goto i .take else s.leave i rvEinval none) := by
  have hi : ¬ (s.pc i).HoldsMutex := by rw [hidle]; exact id
  have hleave : (s.goto i .idle).supply = s.supply := h.supply_goto hi
  split_ifs
  · exact .of_eq rfl (h.supply_goto hi)
  · exact .of_eq rfl hleave

/-! ## Steps -/

theorem CanRx.Sound.next (h : s.Sound) (hs : s.next i = some s') : s'.Sound := by
  obtain ⟨hpc, hfree, rfl⟩ | ⟨hpc, -, rfl⟩ | ⟨hpc, rfl⟩ | ⟨rv, frame, hpc, rfl⟩ :=
    CanRx.next_cases hs
  · exact ⟨(hfree ▸ h.guarded).take trivial, h.pending⟩
  · exact ⟨h.guarded.moveFrom hpc Iff.rfl, h.pending⟩
  · rw [CanRx.fetch]
    cases s.fifo with
    | nil => exact ⟨h.guarded.moveFrom hpc Iff.rfl, h.pending⟩
    | cons frame rest => exact ⟨h.guarded.moveFrom hpc Iff.rfl, h.pending⟩
  · exact ⟨h.guarded.giveFrom hpc trivial id, h.pending⟩

theorem CanRx.Sound.timeout (h : s.Sound) (hs : s.timeout i = some s') : s'.Sound := by
  obtain ⟨hpc, rfl⟩ | ⟨hpc, rfl⟩ := CanRx.timeout_cases hs
  · exact ⟨h.guarded.moveFrom hpc Iff.rfl, h.pending⟩
  · exact ⟨h.guarded.moveFrom hpc Iff.rfl, h.pending⟩

theorem CanRx.Sound.step {n : ℕ} {a : CanRxAction ι} (h : s.Sound)
    (hs : canRxStep n s a = some s') : s'.Sound := by
  cases a with
  | frame frame =>
      cases hs
      rw [CanRx.store]
      split_ifs
      · exact ⟨h.guarded, fun _ _ _ => rfl⟩
      · exact ⟨h.guarded, h.pending⟩
  | frame1 =>
      cases hs
      exact ⟨h.guarded, fun _ _ _ => Bool.or_true _⟩
  | transmitted =>
      cases hs
      exact ⟨h.guarded, h.pending⟩
  | flag =>
      cases hs
      exact ⟨h.guarded, h.pending⟩
  | enter =>
      simp only [canRxStep, Option.ite_none_right_eq_some, Option.some.injEq] at hs
      obtain ⟨_, rfl⟩ := hs
      refine ⟨h.guarded, fun ir hir hrx => ?_⟩
      cases hir
      exact hrx
  | handle =>
      obtain ⟨ir, hir, rfl⟩ := Option.map_eq_some_iff.1 hs
      refine ⟨?_, fun _ hfalse => by cases hfalse⟩
      rw [canItHandler]
      split_ifs
      all_goals exact h.guarded
  | call i valid =>
      simp only [canRxStep, Option.ite_none_right_eq_some, Option.some.injEq] at hs
      obtain ⟨⟨_, hidle⟩, rfl⟩ := hs
      split_ifs
      · exact ⟨h.guarded.moveFrom hidle Iff.rfl, h.pending⟩
      · exact ⟨h.guarded.moveFrom hidle Iff.rfl, h.pending⟩
  | next i =>
      simp only [canRxStep, Option.ite_none_right_eq_some] at hs
      exact h.next hs.2
  | timeout i =>
      simp only [canRxStep, Option.ite_none_right_eq_some] at hs
      exact h.timeout hs.2

/-- Every step but those of the controller and of the handler is balanced. -/
theorem CanRx.Sound.balanced {n : ℕ} {a : CanRxAction ι} (h : s.Sound)
    (hs : canRxStep n s a = some s') (hframe : ∀ frame, a ≠ .frame frame) (hframe1 : a ≠ .frame1)
    (hhandle : a ≠ .handle) : s.Balanced s' := by
  cases a with
  | frame frame => exact absurd rfl (hframe frame)
  | frame1 => exact absurd rfl hframe1
  | handle => exact absurd rfl hhandle
  | transmitted =>
      cases hs
      exact .of_eq rfl rfl
  | flag =>
      cases hs
      exact .of_eq rfl rfl
  | enter =>
      simp only [canRxStep, Option.ite_none_right_eq_some, Option.some.injEq] at hs
      exact hs.2 ▸ .of_eq rfl rfl
  | call i valid =>
      simp only [canRxStep, Option.ite_none_right_eq_some, Option.some.injEq] at hs
      exact hs.2 ▸ h.balanced_call hs.1.2 valid
  | next i =>
      simp only [canRxStep, Option.ite_none_right_eq_some] at hs
      exact h.balanced_next hs.2
  | timeout i =>
      simp only [canRxStep, Option.ite_none_right_eq_some] at hs
      exact h.balanced_timeout hs.2

/-- Where the condition is met the tokens stay enough. -/
theorem CanRx.Sound.length_le_step {n : ℕ} {a : CanRxAction ι} (h : s.Sound)
    (hle : s.fifo.length ≤ s.supply) (hok : CanOk n s a) (hs : canRxStep n s a = some s') :
    s'.fifo.length ≤ s'.supply := by
  cases a with
  | frame frame =>
      cases hs
      exact CanRx.length_store_le hle hok
  | frame1 =>
      cases hs
      have hone : (s.rf0n || s.rf1n).toNat ≤ (s.rf0n || true).toNat := by
        rw [Bool.or_true]
        exact Bool.toNat_le _
      exact Nat.le_trans hle (Nat.add_le_add_left hone _)
  | handle =>
      obtain ⟨ir, hir, rfl⟩ := Option.map_eq_some_iff.1 hs
      have hsupply : s.fifo.length ≤ (canItHandler s ir).supply := by
        rw [CanRx.supply_canItHandler]
        split_ifs with htc
        · exact hle
        · exact hok ir hir (by simpa using htc)
      rw [← CanRx.fifo_canItHandler (s := s)] at hsupply
      exact hsupply
  | _ =>
      obtain ⟨d, hd, hlength, hsupply⟩ := h.balanced hs (by simp) (by simp) (by simp)
      omega

/-- Once the FIFO holds more frames than there are tokens for, only a frame for the FIFO 1
makes up for it. -/
theorem CanRx.Sound.supply_lt_step {n : ℕ} {a : CanRxAction ι} (h : s.Sound)
    (hlt : s.supply < s.fifo.length) (ha : a ≠ .frame1) (hs : canRxStep n s a = some s') :
    s'.supply < s'.fifo.length := by
  cases a with
  | frame frame =>
      cases hs
      exact CanRx.supply_store_lt hlt
  | frame1 => exact absurd rfl ha
  | handle =>
      obtain ⟨ir, hir, rfl⟩ := Option.map_eq_some_iff.1 hs
      have hsupply := Nat.lt_of_le_of_lt (h.supply_canItHandler_le hir) hlt
      rw [← CanRx.fifo_canItHandler (s := s)] at hsupply
      exact hsupply
  | _ =>
      obtain ⟨d, hd, hlength, hsupply⟩ := h.balanced hs (by simp) (by simp) (by simp)
      omega

/-- A step that does not meet the condition leaves more frames than tokens. -/
theorem supply_lt_of_not_ok {n : ℕ} {a : CanRxAction ι} (hbad : ¬ CanOk n s a)
    (hs : canRxStep n s a = some s') : s'.supply < s'.fifo.length := by
  cases a with
  | frame frame =>
      cases hs
      obtain ⟨hlt, hle⟩ := Classical.not_imp.1 hbad
      rw [CanRx.store, if_pos hlt]
      simp only [List.length_append, List.length_singleton, CanRx.supply, Bool.true_or]
      exact Nat.add_lt_add_right (Nat.lt_of_not_le hle) 1
  | handle =>
      obtain ⟨ir, hir, rfl⟩ := Option.map_eq_some_iff.1 hs
      have hlt : (canItHandler s ir).supply < s.fifo.length := by
        by_contra hle
        refine hbad fun ir' hir' htc => ?_
        obtain rfl := Option.some.inj (hir.symm.trans hir')
        rw [CanRx.supply_canItHandler, htc] at hle
        exact Nat.le_of_not_lt hle
      rw [← CanRx.fifo_canItHandler (s := s)] at hlt
      exact hlt
  | _ => exact absurd trivial hbad

/-! ## Runs -/

variable {n : ℕ}

/-- In every run in which a frame is stored and the flags are cleared only while the FIFO
holds no more frames than there are tokens for, no frame is left when a call is blocked. -/
theorem can_drained {actions : List (CanRxAction ι)} {s : CanRx ι}
    (hok : Along (CanOk n) (canRxStep n) (CanRx.init ι) actions)
    (hrun : run (canRxStep n) (CanRx.init ι) actions = some s) : s.Drained := by
  have hstep : ∀ (s : CanRx ι) a s', s.Sound ∧ s.fifo.length ≤ s.supply → CanOk n s a →
      canRxStep n s a = some s' → s'.Sound ∧ s'.fifo.length ≤ s'.supply :=
    fun _ _ _ h hok hs => ⟨h.1.step hs, h.1.length_le_step h.2 hok hs⟩
  obtain ⟨hsound, hle⟩ := hok.invariant hstep ⟨.init, Nat.zero_le _⟩ hrun
  intro i hwait hsem hrf0n hrf1n
  rw [hsound.supply_of_wait hwait hsem hrf0n hrf1n] at hle
  exact List.length_eq_zero_iff.1 (Nat.le_zero.1 hle)

/-- After a step that does not meet the condition, and as long as no frame arrives for the
FIFO 1, the FIFO 0 is never empty, also when a call is blocked and no interrupt is pending. -/
theorem can_stranded {before after : List (CanRxAction ι)} {a : CanRxAction ι} {t s : CanRx ι}
    (hbefore : run (canRxStep n) (CanRx.init ι) before = some t) (hbad : ¬ CanOk n t a)
    (hafter : ∀ b ∈ after, b ≠ .frame1) (hrun : run (canRxStep n) t (a :: after) = some s) :
    s.fifo ≠ [] := by
  have hsound : ∀ (s : CanRx ι) a s', s.Sound → canRxStep n s a = some s' → s'.Sound :=
    fun _ _ _ h hs => h.step hs
  obtain ⟨u, hu, hrest⟩ := run_cons_eq_some.1 hrun
  have hstart : u.Sound ∧ u.supply < u.fifo.length :=
    ⟨(run_invariant hsound .init hbefore).step hu, supply_lt_of_not_ok hbad hu⟩
  have hstep : ∀ (s : CanRx ι) a s', s.Sound ∧ s.supply < s.fifo.length → a ≠ .frame1 →
      canRxStep n s a = some s' → s'.Sound ∧ s'.supply < s'.fifo.length :=
    fun _ _ _ h ha hs => ⟨h.1.step hs, h.1.supply_lt_step h.2 ha hs⟩
  have halong : Along (fun _ b => b ≠ .frame1) (canRxStep n) u after :=
    .of_forall_mem (fun b hb _ => hafter b hb) u
  obtain ⟨_, hlt⟩ := halong.invariant hstep hstart hrest
  intro hfifo
  rw [hfifo] at hlt
  exact Nat.not_lt_zero _ hlt

/-- A frame that arrives, and a call that fetches it. -/
theorem can_drained_frame : ∃ s : CanRx Unit, s.pc () = .wait ∧ s.Drained := by
  have hok : Along (CanOk 32) (canRxStep 32) (CanRx.init Unit) [.frame ⟨⟨1, 0, 0⟩, []⟩, .enter,
      .handle, .call () true, .next (), .next (), .next (), .next (), .call () true,
      .next ()] := by decide
  exact ⟨_, rfl, can_drained hok rfl⟩

/-- Two frames before the handler runs: one token is given, one frame is fetched, and the next
call is blocked with the other in the FIFO. -/
theorem not_can_drained :
    ¬ ∀ (ι : Type) [DecidableEq ι] (n : ℕ) (actions : List (CanRxAction ι)) (s : CanRx ι),
      run (canRxStep n) (CanRx.init ι) actions = some s → s.Drained := by
  intro hall
  have hdrained := hall Unit 32 [.frame ⟨⟨1, 0, 0⟩, []⟩, .frame ⟨⟨2, 0, 0⟩, []⟩, .enter, .handle,
    .call () true, .next (), .next (), .next (), .next (), .call () true, .next ()] _ rfl
  cases hdrained () rfl rfl rfl rfl

end Drain

end Catpilot
