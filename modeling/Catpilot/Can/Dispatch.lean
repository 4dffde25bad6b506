import Catpilot.Can.Basic
import Catpilot.Transition.Run
import Mathlib.Data.List.Basic

/-!
# Dispatch of received frames

`CanChannel.deliver` is what a received frame should do to a channel: append it
where the filter accepts it, drop the oldest frame when the queue is full, leave
every other channel alone. `can_read_thread` does that exactly when no accepting
channel is full: on a full queue it takes the oldest frame out and puts nothing in,
and the frame it took out is the one the later channels are offered.
-/

namespace Catpilot

open Transition

section Table

variable {n : ℕ}

/-- The open channels are the first slots of the table. -/
def Dense {α : Type*} : List (Option α) → Prop
  | [] => True
  | none :: rest => ∀ slot ∈ rest, slot = none
  | some _ :: rest => Dense rest

/-- What a received frame should do to an open channel. -/
def CanChannel.deliver (hn : 0 < n) (frame : CanFrame) (ch : CanChannel n) : CanChannel n :=
  if ch.accepts frame.header.id then { ch with rxQueue := ch.rxQueue.overwrite hn frame }
  else ch

/-- Some channel of the table accepts the frame and has a full queue. -/
def Overflows (frame : CanFrame) (channels : List (Option (CanChannel n))) : Prop :=
  ∃ ch, some ch ∈ channels ∧ ch.accepts frame.header.id = true ∧ ch.rxQueue.IsFull

theorem dense_replicate_none {α : Type*} (k : ℕ) : Dense (List.replicate k (none : Option α)) := by
  cases k with
  | zero => trivial
  | succ k => exact fun slot h => List.eq_of_mem_replicate h

/-- On a channel with room the code does what it should. -/
theorem dispatchLoop_accept {frame : CanFrame} {ch : CanChannel n}
    (hn : 0 < n) (ha : ch.accepts frame.header.id = true) (hroom : ¬ ch.rxQueue.IsFull)
    (rest : List (Option (CanChannel n))) :
    dispatchLoop frame (some ch :: rest) =
      some (ch.deliver hn frame) :: dispatchLoop frame rest := by
  obtain ⟨q, hq, hitems⟩ := BoundedQueue.exists_send hroom frame
  have hsame : q = ch.rxQueue.overwrite hn frame := by
    apply BoundedQueue.ext
    rw [hitems, BoundedQueue.overwrite_of_not_isFull hroom]
  rw [dispatchLoop, if_pos ha, hq, CanChannel.deliver, if_pos ha, hsame]

theorem dispatchLoop_reject {frame : CanFrame} {ch : CanChannel n}
    (hn : 0 < n) (ha : ¬ ch.accepts frame.header.id = true)
    (rest : List (Option (CanChannel n))) :
    dispatchLoop frame (some ch :: rest) =
      some (ch.deliver hn frame) :: dispatchLoop frame rest := by
  rw [dispatchLoop, if_neg ha, CanChannel.deliver, if_neg ha]

/-- On a full queue the oldest frame is lost and the new one is not enqueued; the
later channels are offered the lost frame. -/
theorem dispatchLoop_full {frame : CanFrame} {ch : CanChannel n} (hn : 0 < n)
    (ha : ch.accepts frame.header.id = true) (hfull : ch.rxQueue.IsFull)
    (rest : List (Option (CanChannel n))) :
    ∃ old q, ch.rxQueue.items = old :: q.items ∧
      dispatchLoop frame (some ch :: rest) =
        some { ch with rxQueue := q } :: dispatchLoop old rest := by
  obtain ⟨old, q, hq, hitems⟩ := BoundedQueue.exists_receive_of_isFull hfull hn
  refine ⟨old, q, hitems, ?_⟩
  rw [dispatchLoop, if_pos ha, BoundedQueue.send_eq_none_iff.2 hfull, hq]

/-- The queue the code leaves on overflow is one frame short. -/
theorem deliver_ne_of_full {frame : CanFrame} {ch : CanChannel n} (hn : 0 < n)
    (ha : ch.accepts frame.header.id = true) (hfull : ch.rxQueue.IsFull)
    {old : CanFrame} {q : BoundedQueue CanFrame n} (hq : ch.rxQueue.items = old :: q.items) :
    ({ ch with rxQueue := q } : CanChannel n) ≠ ch.deliver hn frame := by
  intro heq
  rw [CanChannel.deliver, if_pos ha] at heq
  have hitems : q.items = (ch.rxQueue.overwrite hn frame).items :=
    congrArg (fun c : CanChannel n => c.rxQueue.items) heq
  rw [BoundedQueue.overwrite_of_isFull hfull, hq, List.tail_cons] at hitems
  have hlen := congrArg List.length hitems
  rw [List.length_append, List.length_singleton] at hlen
  omega

/-- The loop delivers a frame to every open channel exactly when no accepting channel
is full. -/
theorem dispatchLoop_eq_map_iff (hn : 0 < n) (frame : CanFrame)
    {channels : List (Option (CanChannel n))} (hd : Dense channels) :
    dispatchLoop frame channels = channels.map (Option.map (CanChannel.deliver hn frame)) ↔
      ¬ Overflows frame channels := by
  induction channels with
  | nil => simp [dispatchLoop, Overflows]
  | cons slot rest ih =>
      cases slot with
      | none =>
          have hrest : rest.map (Option.map (CanChannel.deliver hn frame)) = rest := by
            conv_rhs => rw [← List.map_id rest]
            apply List.map_congr_left
            intro slot hslot
            rw [hd slot hslot]
            rfl
          rw [dispatchLoop, List.map_cons, Option.map_none, hrest]
          refine iff_of_true rfl ?_
          rintro ⟨ch, hmem, -⟩
          rcases List.mem_cons.1 hmem with hch | hch
          · cases hch
          · cases hd _ hch
      | some ch =>
          have hcons : Overflows frame (some ch :: rest) ↔
              (ch.accepts frame.header.id = true ∧ ch.rxQueue.IsFull) ∨
                Overflows frame rest := by
            constructor
            · rintro ⟨c, hmem, hc⟩
              rcases List.mem_cons.1 hmem with hch | hch
              · cases hch
                exact .inl hc
              · exact .inr ⟨c, hch, hc⟩
            · rintro (hc | ⟨c, hmem, hc⟩)
              · exact ⟨ch, List.mem_cons_self, hc⟩
              · exact ⟨c, List.mem_cons_of_mem _ hmem, hc⟩
          rw [hcons, List.map_cons, Option.map_some]
          by_cases ha : ch.accepts frame.header.id = true
          · by_cases hfull : ch.rxQueue.IsFull
            · obtain ⟨old, q, hq, hstep⟩ := dispatchLoop_full hn ha hfull rest
              rw [hstep]
              refine iff_of_false ?_ fun h => h (.inl ⟨ha, hfull⟩)
              intro heq
              rw [List.cons.injEq, Option.some.injEq] at heq
              exact deliver_ne_of_full hn ha hfull hq heq.1
            · rw [dispatchLoop_accept hn ha hfull, List.cons_inj_right, ih hd]
              simp [hfull]
          · rw [dispatchLoop_reject hn ha, List.cons_inj_right, ih hd]
            simp [ha]

theorem dense_dispatchLoop (frame : CanFrame) {channels : List (Option (CanChannel n))}
    (hd : Dense channels) : Dense (dispatchLoop frame channels) := by
  induction channels generalizing frame with
  | nil => exact hd
  | cons slot rest ih =>
      cases slot with
      | none => exact hd
      | some ch =>
          unfold dispatchLoop
          split
          · split
            · exact ih _ hd
            · split
              · exact ih _ hd
              · exact hd
          · exact ih _ hd

end Table

/-! ## Runs of the interface -/

section Runs

variable {n : ℕ}

/-- What happens to an interface: a frame is received, or a task calls. -/
inductive CanEvent where
  | frame (frame : CanFrame)
  | openChannel
  | ioctl (i request : ℕ) (arg : UInt32)
  | read (i count : ℕ)

def canStep (can : Can n) : CanEvent → Option (Can n)
  | .frame frame => some (canReadThread can frame)
  | .openChannel => some (canOpen can).1
  | .ioctl i request arg => some (canIoctl can i request arg).1
  | .read i count => (canRead can i count).map Prod.fst

/-- A received frame reaches the channels as it should. -/
def Delivers (can : Can n) : CanEvent → Prop
  | .frame frame =>
      (canReadThread can frame).channel =
        can.channel.map (Option.map (CanChannel.deliver can.queueSize_pos frame))
  | _ => True

/-- No channel that accepts the received frame is full. -/
def NoOverflow (can : Can n) : CanEvent → Prop
  | .frame frame => ¬ Overflows frame can.channel
  | _ => True

theorem delivers_iff {can : Can n} (hd : Dense can.channel) (e : CanEvent) :
    Delivers can e ↔ NoOverflow can e := by
  cases e with
  | frame frame => exact dispatchLoop_eq_map_iff can.queueSize_pos frame hd
  | _ => exact Iff.rfl

/-- Replacing an open channel keeps the open channels in front. -/
theorem dense_set {α : Type*} {slots : List (Option α)} (hd : Dense slots) {i : ℕ}
    (hi : (slots[i]?.join).isSome ∨ ∀ j < i, (slots[j]?.join).isSome) (x : α) :
    Dense (slots.set i (some x)) := by
  induction slots generalizing i with
  | nil => exact hd
  | cons slot rest ih =>
      cases i with
      | zero =>
          cases slot with
          | none =>
              cases rest with
              | nil => trivial
              | cons next rest =>
                  have hnext : next = none := hd next List.mem_cons_self
                  subst hnext
                  exact fun s hs => hd s (List.mem_cons_of_mem _ hs)
          | some _ => exact hd
      | succ i =>
          cases slot with
          | none =>
              rcases hi with hi | hi
              · rw [List.getElem?_cons_succ] at hi
                cases hr : rest[i]? with
                | none => simp [hr] at hi
                | some s =>
                    have hs : s = none := hd s (List.mem_of_getElem? hr)
                    simp [hr, hs] at hi
              · exact absurd (hi 0 (Nat.succ_pos i)) (by simp)
          | some a =>
              refine ih hd ?_
              rcases hi with hi | hi
              · exact .inl (by simpa using hi)
              · refine .inr fun j hj => ?_
                have := hi (j + 1) (Nat.succ_lt_succ hj)
                rwa [List.getElem?_cons_succ] at this

/-- The search for a free slot passes only open channels. -/
theorem canOpenSlot_spec (can : Can n) (i : ℕ)
    (hi : ∀ j < i, (can.channel[j]?.join).isSome ∨ canMaxChannels ≤ j) :
    ∀ j < canOpenSlot can i, (can.channel[j]?.join).isSome ∨ canMaxChannels ≤ j := by
  induction i using canOpenSlot.induct can with
  | case1 i htaken hgt =>
      rw [canOpenSlot, if_pos htaken, if_pos hgt]
      exact hi
  | case2 i htaken hle ih =>
      rw [canOpenSlot, if_pos htaken, if_neg hle]
      apply ih
      intro j hj
      rcases Nat.lt_succ_iff_lt_or_eq.1 hj with hlt | rfl
      · exact hi j hlt
      · unfold Can.slotTaken at htaken
        split at htaken
        · exact .inl htaken
        · next hge => exact .inr (Nat.not_lt.1 hge)
  | case3 i hfree =>
      rw [canOpenSlot, if_neg hfree]
      exact hi

theorem dense_canStep {can can' : Can n} {e : CanEvent} (hd : Dense can.channel)
    (h : canStep can e = some can') : Dense can'.channel := by
  cases e with
  | frame frame =>
      rw [canStep, Option.some.injEq] at h
      exact h ▸ dense_dispatchLoop frame hd
  | openChannel =>
      rw [canStep, Option.some.injEq] at h
      subst h
      unfold canOpen
      split
      · dsimp only
        split
        · next hlt =>
            refine dense_set hd (.inr fun j hj => ?_) _
            rcases canOpenSlot_spec can 0 (fun j hj => absurd hj (Nat.not_lt_zero j)) j hj with
              hs | hge
            · exact hs
            · omega
        · exact hd
      · exact hd
  | ioctl i request arg =>
      rw [canStep, Option.some.injEq] at h
      subst h
      unfold canIoctl
      cases hch : can.channel[i]?.join with
      | none => exact hd
      | some ch =>
          dsimp only
          split
          · exact hd
          · exact dense_set hd (.inl (by rw [hch]; rfl)) _
  | read i count =>
      obtain ⟨r, hr, rfl⟩ := Option.map_eq_some_iff.1 h
      unfold canRead at hr
      cases hch : can.channel[i]?.join with
      | none => simp [hch] at hr
      | some ch =>
          simp only [hch] at hr
          split at hr
          · cases hr
          · cases hr
            exact dense_set hd (.inl (by rw [hch]; rfl)) _

/-- The open channels are in front in every reachable state. -/
theorem dense_of_reachable (hn : 0 < n) {can : Can n}
    (h : Reachable canStep (canInit hn) can) : Dense can.channel := by
  have hstep : ∀ (s : Can n) e s', Dense s.channel → canStep s e = some s' → Dense s'.channel :=
    fun _ _ _ hd hs => dense_canStep hd hs
  exact Reachable.invariant hstep (dense_replicate_none canMaxChannels) h

/-- Over every run from any open channels, filters and fill levels, received frames
reach the channels as they should if and only if none of them comes while a channel
that accepts it is full. -/
theorem canReadThread_delivers_iff (can : Can n) (hd : Dense can.channel)
    (events : List CanEvent) :
    Along Delivers canStep can events ↔ Along NoOverflow canStep can events := by
  have hstep : ∀ (s : Can n) e s', Dense s.channel → NoOverflow s e → canStep s e = some s' →
      Dense s'.channel :=
    fun _ _ _ hd _ hs => dense_canStep hd hs
  exact along_congr hstep (fun _ e hd => delivers_iff hd e) hd events

/-- One channel with room takes the frame, and a run of that one frame goes as it
should. -/
theorem canReadThread_delivers_one :
    ∃ can : Can 1, can.channel.length = canMaxChannels ∧
      Along Delivers canStep can [.frame ⟨⟨7, 0, 0⟩, List.replicate 8 0⟩] := by
  refine ⟨⟨true, some ⟨0, 0, 0x1FFFFFFF, 0, .empty _ 1⟩ :: List.replicate 31 none, 1, Nat.one_pos,
    rfl⟩, rfl, ?_⟩
  refine (canReadThread_delivers_iff _ (dense_replicate_none 31) _).2 ⟨?_, fun _ _ => trivial⟩
  rintro ⟨ch, hmem, -, hfull⟩
  rcases List.mem_cons.1 hmem with hch | hch
  · cases hch
    cases hfull
  · cases List.eq_of_mem_replicate hch

/-- Two open channels with queues of one frame, the first one full: the frame that
arrives next is lost for both, and the second channel gets the old one instead. -/
theorem canReadThread_loses_frame :
    ∃ (can : Can 1) (old new : CanFrame), old ≠ new ∧ Dense can.channel ∧
      (can.channel.take 2).map (Option.map fun ch => ch.rxQueue.items) = [some [old], some []] ∧
      ((canReadThread can new).channel.take 2).map (Option.map fun ch => ch.rxQueue.items) =
        [some [], some [old]] ∧
      ¬ Along Delivers canStep can [.frame new] := by
  refine ⟨⟨true, some ⟨0, 0, 0x1FFFFFFF, 0,
      ⟨[⟨⟨7, 0, 0⟩, List.replicate 8 0⟩], Nat.le_refl 1⟩⟩ ::
      some ⟨1, 0, 0x1FFFFFFF, 0, .empty _ 1⟩ :: List.replicate 30 none, 2, Nat.one_pos, rfl⟩,
    ⟨⟨7, 0, 0⟩, List.replicate 8 0⟩, ⟨⟨9, 0, 0⟩, List.replicate 8 0⟩, by decide,
    dense_replicate_none 30, rfl, rfl, ?_⟩
  rintro ⟨hdelivers, -⟩
  have hroom := (delivers_iff (dense_replicate_none 30) _).1 hdelivers
  exact hroom ⟨_, List.mem_cons_self, by decide, rfl⟩

end Runs

end Catpilot
