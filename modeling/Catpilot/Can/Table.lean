import Catpilot.Can.Dispatch
import Mathlib.Data.Int.Notation
import Mathlib.Data.List.Nodup
import Mathlib.Data.List.ReduceOption

/-!
# The table of open channels

`can_open` with the memory around the table of channels: the words behind it are the channel
mutex and the transmit queue. Its search for a free slot reads the table up to the first empty
slot. In a full table there is none, and the test in the loop comes after the read and lets the
index `CAN_MAX_CHANNELS` pass, so that the two words behind the table are read as channels.
-/

namespace Catpilot

open Transition

/-! ## Dense tables -/

section DenseTables

variable {α : Type*} {slots : List (Option α)}

theorem reduceOption_of_forall_none (h : ∀ slot ∈ slots, slot = none) :
    slots.reduceOption = [] := by
  rw [List.eq_replicate_of_mem h, List.reduceOption_replicate_none]

/-- The open slots of a dense table are those below their number. -/
theorem Dense.isSome_iff (h : Dense slots) (i : ℕ) :
    (slots[i]?.join).isSome ↔ i < slots.reduceOption.length := by
  induction slots generalizing i with
  | nil => simp
  | cons slot rest ih =>
      cases slot with
      | none =>
          have hall : ∀ slot ∈ none :: rest, slot = none := by
            intro slot hmem
            rcases List.mem_cons.1 hmem with rfl | hrest
            · rfl
            · exact h slot hrest
          rw [reduceOption_of_forall_none hall, List.length_nil,
            iff_false_right (Nat.not_lt_zero i)]
          cases hi : (none :: rest)[i]? with
          | none => simp
          | some slot =>
              rw [hall slot (List.mem_of_getElem? hi)]
              simp
      | some a =>
          rw [List.reduceOption_cons_of_some, List.length_cons]
          cases i with
          | zero => simp
          | succ i =>
              rw [List.getElem?_cons_succ, ih h, Nat.succ_lt_succ_iff]

/-- The first empty slot is taken behind the open ones. -/
theorem Dense.reduceOption_set (h : Dense slots) (a : α)
    (hroom : slots.reduceOption.length < slots.length) :
    (slots.set slots.reduceOption.length (some a)).reduceOption = slots.reduceOption ++ [a] := by
  induction slots with
  | nil => exact absurd hroom (Nat.lt_irrefl 0)
  | cons slot rest ih =>
      cases slot with
      | none =>
          have hrest := reduceOption_of_forall_none h
          rw [List.reduceOption_cons_of_none, hrest, List.length_nil, List.set_cons_zero,
            List.reduceOption_cons_of_some, hrest]
          rfl
      | some b =>
          rw [List.reduceOption_cons_of_some, List.length_cons, List.set_cons_succ,
            List.reduceOption_cons_of_some, List.cons_append]
          rw [List.reduceOption_cons_of_some, List.length_cons, List.length_cons,
            Nat.succ_lt_succ_iff] at hroom
          rw [ih h hroom]

end DenseTables

/-! ## The source -/

/-- What `can_open` fills in of a `can_channel_t`; whether `xQueueCreate` has given it a queue is
not tested. -/
structure CanSlot where
  id : UInt32
  idFilterLow : UInt32
  idFilterHigh : UInt32
  type : UInt32
  rxQueue : Bool
  deriving DecidableEq, Repr

/-- What `can_open` uses of `can_private_t`. `behind` says which of the words behind the table
are not null: the channel mutex, the transmit queue, and what comes after the record. `can_init`
creates the first two before it sets `periph_init`. -/
structure CanPrivate where
  periphInit : Bool
  channel : List (Option CanSlot)
  behind : ℕ → Bool
  length_channel : channel.length = canMaxChannels
  mutex_of_init : periphInit = true → behind 0 = true
  txQueue_of_init : periphInit = true → behind 1 = true

namespace CanPrivate

/-- `cfg->p.tx_queue != NULL`. -/
def txQueue (p : CanPrivate) : Bool := p.behind 1

/-- `cfg->p.channel[i] != NULL`, also behind the table. -/
def word (p : CanPrivate) (i : ℕ) : Bool :=
  if i < canMaxChannels then (p.channel[i]?.join).isSome else p.behind (i - canMaxChannels)

/-- Write a slot of the table. -/
def setChannel (p : CanPrivate) (i : ℕ) (channel : CanSlot) : CanPrivate :=
  { p with
    channel := p.channel.set i (some channel)
    length_channel := by rw [List.length_set]; exact p.length_channel }

/-- The interface without open channels. -/
def cleared (p : CanPrivate) : CanPrivate :=
  { p with
    channel := List.replicate canMaxChannels none
    length_channel := List.length_replicate }

end CanPrivate

/-- The interface with the static `id` of `can_open`, `errno`, how many channels and queues have
been allocated, and how many channels the other interface has opened. -/
structure CanOpens where
  p : CanPrivate
  id : UInt32
  errno : Errno
  channels : ℕ
  queues : ℕ
  elsewhere : ℕ

/-- Which allocations of a call succeed. -/
structure CanOpenCall where
  calloc : Bool
  queueCreate : Bool
  deriving DecidableEq, Repr

/-- What a call returns and leaves, what it stores as the private data of the file, and the
indexes at which it reads and writes the table. -/
structure CanOpenResult where
  rv : ℤ
  state : CanOpens
  privateData : Option CanSlot
  accesses : List ℕ

/-- The search of `can_open` from slot `i` on: where it ends, and the indexes that it reads. -/
def canOpenSearch (p : CanPrivate) (i : ℕ) : ℕ × List ℕ :=
  if p.word i then
    if i > canMaxChannels then (i, [i])
    else ((canOpenSearch p (i + 1)).1, i :: (canOpenSearch p (i + 1)).2)
  else (i, [i])
termination_by canMaxChannels + 1 - i

/-- `can_open`. -/
def canOpenFile (s : CanOpens) (call : CanOpenCall) : CanOpenResult :=
  if s.p.periphInit = false then ⟨-1, { s with errno := .eperm }, none, []⟩
  else if call.calloc = false then ⟨-1, { s with errno := .enomem }, none, []⟩
  else
    let s : CanOpens :=
      { s with
        errno := .ok
        channels := s.channels + 1
        queues := if call.queueCreate then s.queues + 1 else s.queues }
    -- the source tests the transmit queue in place of the new queue
    if s.p.txQueue = false then ⟨-1, { s with errno := .enomem }, none, []⟩
    else
      let search := canOpenSearch s.p 0
      if search.1 < canMaxChannels then
        let channel : CanSlot := ⟨s.id, 0, canDefaultRxFilterId, 0, call.queueCreate⟩
        ⟨0, { s with p := s.p.setChannel search.1 channel, id := s.id + 1 }, some channel,
          search.2 ++ [search.1]⟩
      else ⟨-1, { s with errno := .enomem }, some ⟨0, 0, 0, 0, call.queueCreate⟩, search.2⟩

/-- The indexes at which the loop of `can_read_thread` reads the table, from `i` on. -/
def canReadIndexes (p : CanPrivate) (i : ℕ) : List ℕ :=
  if i < canMaxChannels then
    if p.word i then i :: canReadIndexes p (i + 1) else [i]
  else []
termination_by canMaxChannels - i

/-! ## Runs -/

/-- What happens: a call on the interface, or a channel that is opened on the other one, which
has the same static `id`. -/
inductive CanOpenEvent where
  | openFile (call : CanOpenCall)
  | elsewhere
  deriving DecidableEq, Repr

/-- The state after an event; the other interface has a table of the same size. -/
def canOpensStep (s : CanOpens) : CanOpenEvent → Option CanOpens
  | .openFile call => some (canOpenFile s call).state
  | .elsewhere =>
      if s.elsewhere < canMaxChannels then
        some { s with id := s.id + 1, elsewhere := s.elsewhere + 1 }
      else none

/-- An interface without open channels, whatever else it has. -/
def canOpensStart (p : CanPrivate) (id : UInt32) : CanOpens := ⟨p.cleared, id, .ok, 0, 0, 0⟩

/-- The ids of the open channels. -/
def CanPrivate.ids (p : CanPrivate) : List UInt32 := p.channel.reduceOption.map CanSlot.id

/-- A call gets to the search. -/
def CanOpens.Searches (s : CanOpens) (call : CanOpenCall) : Prop :=
  s.p.periphInit = true ∧ call.calloc = true

/-- All slots of the table are open. -/
def CanPrivate.Full (p : CanPrivate) : Prop := ∀ slot ∈ p.channel, slot ≠ none

/-- After a call the open channels are in front and have ids of their own, the loop over the
channels stays in the table, and a call that finds the table full fails with `ENOMEM` and leaves
the interface and the static `id`. -/
structure TableKept (s : CanOpens) (call : CanOpenCall) : Prop where
  dense : Dense (canOpenFile s call).state.p.channel
  ids : (canOpenFile s call).state.p.ids.Nodup
  reads : ∀ i ∈ canReadIndexes (canOpenFile s call).state.p 0, i < canMaxChannels
  full : s.Searches call → s.p.Full → (canOpenFile s call).rv = -1 ∧
    (canOpenFile s call).state.errno = .enomem ∧ (canOpenFile s call).state.p = s.p ∧
      (canOpenFile s call).state.id = s.id

/-- With that every index at which the call uses the table is in it, and a call that finds the
table full changes nothing but `errno`, so that what it has allocated is given back. -/
structure TableRight (s : CanOpens) (call : CanOpenCall) : Prop extends TableKept s call where
  accesses : ∀ i ∈ (canOpenFile s call).accesses, i < canMaxChannels
  unchanged : s.Searches call → s.p.Full → (canOpenFile s call).state = { s with errno := .enomem }

/-- What holds of every call. -/
def OpenKept (s : CanOpens) : CanOpenEvent → Prop
  | .openFile call => TableKept s call
  | .elsewhere => True

/-- What has to hold of a call. -/
def OpenRight (s : CanOpens) : CanOpenEvent → Prop
  | .openFile call => TableRight s call
  | .elsewhere => True

/-- A call that gets to the search finds an empty slot. -/
def OpenFits (s : CanOpens) : CanOpenEvent → Prop
  | .openFile call => ¬ (s.Searches call ∧ s.p.Full)
  | .elsewhere => True

/-! ## The search -/

section Search

variable {p : CanPrivate} {i : ℕ}

theorem canOpenSearch_of_free (h : p.word i = false) : canOpenSearch p i = (i, [i]) := by
  rw [canOpenSearch, h, if_neg Bool.false_ne_true]

/-- Behind the table the search ends at any word. -/
theorem canOpenSearch_of_lt (hi : canMaxChannels < i) : canOpenSearch p i = (i, [i]) := by
  rw [canOpenSearch, if_pos hi, ite_self]

theorem canOpenSearch_of_taken (h : p.word i = true) (hi : i ≤ canMaxChannels) :
    canOpenSearch p i = ((canOpenSearch p (i + 1)).1, i :: (canOpenSearch p (i + 1)).2) := by
  rw [canOpenSearch, if_pos h, if_neg (Nat.not_lt.2 hi)]

/-- The search passes words that are not null, as far as one behind the table. -/
theorem canOpenSearch_passes (d : ℕ) (h : ∀ j, i ≤ j → j < i + d → p.word j = true)
    (hd : i + d ≤ canMaxChannels + 1) :
    canOpenSearch p i =
      ((canOpenSearch p (i + d)).1, List.range' i d ++ (canOpenSearch p (i + d)).2) := by
  induction d generalizing i with
  | zero => rfl
  | succ d ih =>
      have hnext : canOpenSearch p (i + 1) =
          ((canOpenSearch p (i + 1 + d)).1,
            List.range' (i + 1) d ++ (canOpenSearch p (i + 1 + d)).2) :=
        ih (fun j hij hjd => h j (by omega) (by omega)) (by omega)
      rw [canOpenSearch_of_taken (h i (Nat.le_refl i) (by omega)) (by omega), hnext,
        List.range'_succ, List.cons_append, Nat.add_right_comm, Nat.add_assoc]

/-- Where the search from the first slot ends. -/
theorem canOpenSearch_eq {k : ℕ} (hk : k ≤ canMaxChannels + 1)
    (htaken : ∀ j < k, p.word j = true) (hend : p.word k = false ∨ canMaxChannels < k) :
    canOpenSearch p 0 = (k, List.range (k + 1)) := by
  have hlast : canOpenSearch p k = (k, [k]) := by
    rcases hend with hfree | hlt
    · exact canOpenSearch_of_free hfree
    · exact canOpenSearch_of_lt hlt
  rw [canOpenSearch_passes k (fun j _ hj => htaken j (by omega)) (by omega), Nat.zero_add, hlast,
    ← List.range_eq_range', ← List.range_succ]

end Search

/-! ## Tables -/

namespace CanPrivate

variable {p : CanPrivate}

theorem length_ids : p.ids.length = p.channel.reduceOption.length := List.length_map _

theorem length_ids_le : p.ids.length ≤ canMaxChannels := by
  rw [length_ids, ← p.length_channel]
  exact List.reduceOption_length_le p.channel

theorem full_iff : p.Full ↔ p.ids.length = canMaxChannels := by
  rw [length_ids, ← p.length_channel, List.reduceOption_length_eq_iff]
  exact forall₂_congr fun slot _ => Option.ne_none_iff_isSome

theorem length_ids_lt (h : ¬ p.Full) : p.ids.length < canMaxChannels :=
  Nat.lt_of_le_of_ne length_ids_le fun heq => h (full_iff.2 heq)

/-- In a dense table the words that are not null are the open channels. -/
theorem word_iff (hd : Dense p.channel) {i : ℕ} (hi : i < canMaxChannels) :
    p.word i = true ↔ i < p.ids.length := by
  rw [word, if_pos hi, hd.isSome_iff, length_ids]

theorem dense_setChannel (hd : Dense p.channel) (channel : CanSlot) :
    Dense (p.setChannel p.ids.length channel).channel := by
  refine dense_set hd (Or.inr fun j hj => ?_) channel
  rw [hd.isSome_iff, ← length_ids]
  exact hj

theorem ids_setChannel (hd : Dense p.channel) (channel : CanSlot)
    (hroom : p.ids.length < canMaxChannels) :
    (p.setChannel p.ids.length channel).ids = p.ids ++ [channel.id] := by
  have hlt : p.channel.reduceOption.length < p.channel.length := by
    rw [← length_ids, p.length_channel]
    exact hroom
  rw [ids, setChannel, length_ids, hd.reduceOption_set channel hlt, List.map_append]
  rfl

theorem dense_cleared : Dense p.cleared.channel := dense_replicate_none canMaxChannels

theorem ids_cleared : p.cleared.ids = [] := by
  rw [ids, cleared, List.reduceOption_replicate_none]
  rfl

end CanPrivate

/-! ## Calls -/

section Calls

variable {s : CanOpens} {call : CanOpenCall}

/-- The state after the allocations of a call. -/
def CanOpens.allocated (s : CanOpens) (call : CanOpenCall) (error : Errno) : CanOpens :=
  { s with
    errno := error
    channels := s.channels + 1
    queues := if call.queueCreate then s.queues + 1 else s.queues }

theorem canOpenFile_of_not_init (h : s.p.periphInit = false) :
    canOpenFile s call = ⟨-1, { s with errno := .eperm }, none, []⟩ := if_pos h

/-- A call that does not get to the search leaves all but `errno`, and uses no index. -/
theorem canOpenFile_of_not_searches (h : ¬ s.Searches call) :
    ∃ error, canOpenFile s call = ⟨-1, { s with errno := error }, none, []⟩ := by
  cases hinit : s.p.periphInit with
  | false => exact ⟨.eperm, canOpenFile_of_not_init hinit⟩
  | true =>
      cases hcalloc : call.calloc with
      | false =>
          refine ⟨.enomem, ?_⟩
          rw [canOpenFile, hinit, hcalloc, if_neg Bool.false_ne_true.symm, if_pos rfl]
      | true => exact absurd ⟨hinit, hcalloc⟩ h

/-- An initialised interface has a transmit queue, so that only the search can still fail. -/
theorem canOpenFile_of_searches (h : s.Searches call) :
    canOpenFile s call =
      if (canOpenSearch s.p 0).1 < canMaxChannels then
        ⟨0, { s.allocated call .ok with
              p := s.p.setChannel (canOpenSearch s.p 0).1
                ⟨s.id, 0, canDefaultRxFilterId, 0, call.queueCreate⟩
              id := s.id + 1 },
          some ⟨s.id, 0, canDefaultRxFilterId, 0, call.queueCreate⟩,
          (canOpenSearch s.p 0).2 ++ [(canOpenSearch s.p 0).1]⟩
      else
        ⟨-1, s.allocated call .enomem, some ⟨0, 0, 0, 0, call.queueCreate⟩,
          (canOpenSearch s.p 0).2⟩ := by
  obtain ⟨hinit, hcalloc⟩ := h
  have hqueue : s.p.txQueue = true := s.p.txQueue_of_init hinit
  rw [canOpenFile, hinit, hcalloc, if_neg Bool.false_ne_true.symm]
  simp only [hqueue]
  rfl

/-- With an empty slot the first one is taken, and the search reads up to it. -/
theorem canOpenFile_of_room (hd : Dense s.p.channel) (h : s.Searches call) (hfull : ¬ s.p.Full) :
    canOpenFile s call =
      ⟨0, { s.allocated call .ok with
            p := s.p.setChannel s.p.ids.length
              ⟨s.id, 0, canDefaultRxFilterId, 0, call.queueCreate⟩
            id := s.id + 1 },
        some ⟨s.id, 0, canDefaultRxFilterId, 0, call.queueCreate⟩,
        List.range (s.p.ids.length + 1) ++ [s.p.ids.length]⟩ := by
  have hroom := CanPrivate.length_ids_lt hfull
  have hsearch : canOpenSearch s.p 0 = (s.p.ids.length, List.range (s.p.ids.length + 1)) := by
    refine canOpenSearch_eq (by omega) (fun j hj => ?_) (Or.inl ?_)
    · exact (CanPrivate.word_iff hd (by omega)).2 hj
    · rw [Bool.eq_false_iff, Ne, CanPrivate.word_iff hd hroom]
      exact Nat.lt_irrefl _
  rw [canOpenFile_of_searches h, hsearch, if_pos hroom]

/-- In a full table the search reads the channel mutex and the transmit queue. The channel and
the queue of the call stay allocated, and the file keeps the channel as its private data. -/
theorem canOpenFile_of_full (h : s.Searches call) (hfull : s.p.Full) :
    canOpenFile s call =
      ⟨-1, s.allocated call .enomem, some ⟨0, 0, 0, 0, call.queueCreate⟩,
        List.range (canMaxChannels + 2)⟩ := by
  have htaken : ∀ j < canMaxChannels + 1, s.p.word j = true := by
    intro j hj
    rcases Nat.lt_succ_iff_lt_or_eq.1 hj with hlt | rfl
    · have hlen : j < s.p.channel.length := by
        rw [s.p.length_channel]
        exact hlt
      rw [CanPrivate.word, if_pos hlt, List.getElem?_eq_getElem hlen, Option.join_some]
      exact Option.isSome_iff_ne_none.2 (hfull _ (List.getElem_mem hlen))
    · rw [CanPrivate.word, if_neg (Nat.lt_irrefl _), Nat.sub_self]
      exact s.p.mutex_of_init h.1
  rw [canOpenFile_of_searches h,
    canOpenSearch_eq (Nat.le_refl _) htaken (Or.inr (Nat.lt_succ_self _)),
    if_neg (Nat.not_lt.2 (Nat.le_succ _))]

/-- The loop of `can_read_thread` stays in the table, dense or not. -/
theorem canReadIndexes_lt (p : CanPrivate) (i : ℕ) :
    ∀ j ∈ canReadIndexes p i, j < canMaxChannels := by
  induction i using canReadIndexes.induct p with
  | case1 i hlt htaken ih =>
      rw [canReadIndexes, if_pos hlt, if_pos htaken]
      exact List.forall_mem_cons.2 ⟨hlt, ih⟩
  | case2 i hlt hfree =>
      rw [canReadIndexes, if_pos hlt, if_neg hfree]
      exact List.forall_mem_singleton.2 hlt
  | case3 i hge =>
      rw [canReadIndexes, if_neg hge]
      exact List.forall_mem_nil _

/-- In a dense table the loop of `can_read_thread` gets to every open channel. -/
theorem mem_canReadIndexes {p : CanPrivate} (hd : Dense p.channel) (i : ℕ) :
    ∀ j, i ≤ j → j < p.ids.length → j ∈ canReadIndexes p i := by
  have hle : p.ids.length ≤ canMaxChannels := CanPrivate.length_ids_le
  induction i using canReadIndexes.induct p with
  | case1 i hlt htaken ih =>
      intro j hij hj
      rw [canReadIndexes, if_pos hlt, if_pos htaken]
      rcases Nat.eq_or_lt_of_le hij with rfl | hnext
      · exact List.mem_cons_self
      · exact List.mem_cons_of_mem i (ih j hnext hj)
  | case2 i hlt hfree =>
      intro j hij hj
      exact absurd ((CanPrivate.word_iff hd hlt).2 (by omega)) hfree
  | case3 i hge =>
      intro j hij hj
      omega

end Calls

/-! ## The invariant -/

section Invariant

/-- A counter that is increased by one gets one further from a number behind it. -/
theorem toNat_add_one_sub {a b : UInt32} {n : ℕ} (h : (a - b).toNat ≤ n)
    (hn : n + 1 < UInt32.size) : (a + 1 - b).toNat = (a - b).toNat + 1 := by
  have hsub : a + 1 - b = a - b + 1 := by grind
  rw [hsub, UInt32.toNat_add]
  exact Nat.mod_eq_of_lt (Nat.lt_of_le_of_lt (Nat.succ_le_succ h) hn)

/-- The open channels are in front, they have ids of their own, and the counter is ahead of
each id by at most the number of ids that both interfaces have given out. -/
structure CanOpens.Inv (s : CanOpens) : Prop where
  dense : Dense s.p.channel
  nodup : s.p.ids.Nodup
  ahead : ∀ id ∈ s.p.ids,
    0 < (s.id - id).toNat ∧ (s.id - id).toNat ≤ s.p.ids.length + s.elsewhere
  elsewhere : s.elsewhere ≤ canMaxChannels

theorem inv_canOpensStart (p : CanPrivate) (id : UInt32) : (canOpensStart p id).Inv where
  dense := CanPrivate.dense_cleared
  nodup := by
    rw [canOpensStart, CanPrivate.ids_cleared]
    exact List.nodup_nil
  ahead := by
    intro id hid
    rw [canOpensStart, CanPrivate.ids_cleared] at hid
    exact absurd hid List.not_mem_nil
  elsewhere := Nat.zero_le canMaxChannels

variable {s : CanOpens}

/-- The next id is that of no open channel. -/
theorem CanOpens.Inv.id_notMem (h : s.Inv) : s.id ∉ s.p.ids := by
  intro hmem
  have hpos := (h.ahead s.id hmem).1
  rw [UInt32.sub_self, UInt32.toNat_zero] at hpos
  exact Nat.lt_irrefl 0 hpos

/-- After another id the counter is ahead of each id by one more. -/
theorem CanOpens.Inv.ahead_next (h : s.Inv) {id : UInt32} (hid : id ∈ s.p.ids) :
    0 < (s.id + 1 - id).toNat ∧ (s.id + 1 - id).toNat ≤ s.p.ids.length + s.elsewhere + 1 := by
  obtain ⟨-, hle⟩ := h.ahead id hid
  have hids : s.p.ids.length ≤ 32 := CanPrivate.length_ids_le
  have helsewhere : s.elsewhere ≤ 32 := h.elsewhere
  rw [toNat_add_one_sub hle (show _ < 4294967296 by omega)]
  exact ⟨Nat.succ_pos _, Nat.succ_le_succ hle⟩

/-- The invariant is about the table and the counters alone. -/
theorem CanOpens.Inv.congr {t : CanOpens} (h : s.Inv) (hp : t.p = s.p) (hid : t.id = s.id)
    (helsewhere : t.elsewhere = s.elsewhere) : t.Inv where
  dense := hp ▸ h.dense
  nodup := hp ▸ h.nodup
  ahead := by
    rw [hp, hid, helsewhere]
    exact h.ahead
  elsewhere := helsewhere ▸ h.elsewhere

/-- A new channel behind the open ones, with the next id. -/
theorem CanOpens.Inv.opened {t : CanOpens} (h : s.Inv) {channel : CanSlot}
    (hroom : s.p.ids.length < canMaxChannels) (hchannel : channel.id = s.id)
    (hp : t.p = s.p.setChannel s.p.ids.length channel) (hid : t.id = s.id + 1)
    (helsewhere : t.elsewhere = s.elsewhere) : t.Inv := by
  have hids : t.p.ids = s.p.ids ++ [s.id] := by
    rw [hp, CanPrivate.ids_setChannel h.dense channel hroom, hchannel]
  have hlength : t.p.ids.length = s.p.ids.length + 1 := by
    rw [hids, List.length_append, List.length_singleton]
  refine ⟨?_, ?_, ?_, ?_⟩
  · rw [hp]
    exact CanPrivate.dense_setChannel h.dense channel
  · rw [hids]
    refine List.nodup_append.2 ⟨h.nodup, List.nodup_singleton s.id, fun id hold new hnew => ?_⟩
    rw [List.mem_singleton.1 hnew]
    exact ne_of_mem_of_not_mem hold h.id_notMem
  · intro id hmem
    rw [hids, List.mem_append, List.mem_singleton] at hmem
    rw [hlength, helsewhere, hid]
    rcases hmem with hold | rfl
    · have hnext := h.ahead_next hold
      omega
    · have hone : s.id + 1 - s.id = 1 := by grind
      rw [hone, UInt32.toNat_one]
      omega
  · rw [helsewhere]
    exact h.elsewhere

/-- Every call keeps the invariant, whether it succeeds or not. -/
theorem inv_canOpenFile (h : s.Inv) (call : CanOpenCall) :
    (canOpenFile s call).state.Inv := by
  by_cases hsearches : s.Searches call
  · by_cases hfull : s.p.Full
    · rw [canOpenFile_of_full hsearches hfull]
      exact h.congr rfl rfl rfl
    · rw [canOpenFile_of_room h.dense hsearches hfull]
      exact h.opened (CanPrivate.length_ids_lt hfull) rfl rfl rfl rfl
  · obtain ⟨error, heq⟩ := canOpenFile_of_not_searches hsearches
    rw [heq]
    exact h.congr rfl rfl rfl

theorem inv_canOpensStep {t : CanOpens} {event : CanOpenEvent} (h : s.Inv)
    (hstep : canOpensStep s event = some t) : t.Inv := by
  cases event with
  | openFile call =>
      cases hstep
      exact inv_canOpenFile h call
  | elsewhere =>
      rw [canOpensStep] at hstep
      split at hstep
      · next hroom =>
          cases hstep
          exact ⟨h.dense, h.nodup, fun id hid => h.ahead_next hid, hroom⟩
      · cases hstep

end Invariant

/-! ## Along a run -/

section Runs

variable {s : CanOpens} {call : CanOpenCall}

theorem CanOpens.Inv.tableKept (h : s.Inv) (call : CanOpenCall) : TableKept s call where
  dense := (inv_canOpenFile h call).dense
  ids := (inv_canOpenFile h call).nodup
  reads := canReadIndexes_lt _ 0
  full := by
    intro hsearches hfull
    rw [canOpenFile_of_full hsearches hfull]
    exact ⟨rfl, rfl, rfl, rfl⟩

/-- A call that finds an empty slot uses indexes in the table alone. -/
theorem accesses_lt_of_fits (h : s.Inv) (hfits : ¬ (s.Searches call ∧ s.p.Full)) :
    ∀ i ∈ (canOpenFile s call).accesses, i < canMaxChannels := by
  by_cases hsearches : s.Searches call
  · have hfull : ¬ s.p.Full := fun hfull => hfits ⟨hsearches, hfull⟩
    have hroom := CanPrivate.length_ids_lt hfull
    rw [canOpenFile_of_room h.dense hsearches hfull]
    intro i hi
    rcases List.mem_append.1 hi with hread | hwritten
    · have hle := List.mem_range.1 hread
      omega
    · rw [List.mem_singleton.1 hwritten]
      exact hroom
  · obtain ⟨error, heq⟩ := canOpenFile_of_not_searches hsearches
    rw [heq]
    exact List.forall_mem_nil _

/-- A call is right exactly when it does not search a full table. -/
theorem tableRight_iff (h : s.Inv) : TableRight s call ↔ ¬ (s.Searches call ∧ s.p.Full) := by
  constructor
  · rintro hright ⟨hsearches, hfull⟩
    have hindex := hright.accesses canMaxChannels
    rw [canOpenFile_of_full hsearches hfull] at hindex
    exact Nat.lt_irrefl _ (hindex (List.mem_range.2 (by omega)))
  · intro hfits
    exact
      { h.tableKept call with
        accesses := accesses_lt_of_fits h hfits
        unchanged := fun hsearches hfull => absurd ⟨hsearches, hfull⟩ hfits }

theorem openRight_iff (h : s.Inv) (event : CanOpenEvent) :
    OpenRight s event ↔ OpenFits s event := by
  cases event with
  | openFile call => exact tableRight_iff h
  | elsewhere => exact Iff.rfl

/-- The table is dense and the ids differ in every run, and a call that finds it full fails. -/
theorem along_openKept (p : CanPrivate) (id : UInt32) (events : List CanOpenEvent) :
    Along OpenKept canOpensStep (canOpensStart p id) events := by
  refine Along.of_invariant (fun _ _ _ h hstep => inv_canOpensStep h hstep) ?_
    (inv_canOpensStart p id) events
  intro s event h
  cases event with
  | openFile call => exact h.tableKept call
  | elsewhere => trivial

/-- A run keeps to the table exactly when none of its calls searches a full one. -/
theorem along_openRight_iff (p : CanPrivate) (id : UInt32) (events : List CanOpenEvent) :
    Along OpenRight canOpensStep (canOpensStart p id) events ↔
      Along OpenFits canOpensStep (canOpensStart p id) events :=
  along_congr (fun _ _ _ h _ hstep => inv_canOpensStep h hstep)
    (fun _ event h => openRight_iff h event) (inv_canOpensStart p id) events

/-- A call whose allocations succeed. -/
def CanOpenCall.allocates : CanOpenCall := ⟨true, true⟩

/-- As many calls open as many channels, as long as there is room. -/
theorem exists_run_opens (k : ℕ) (h : s.Inv) (hinit : s.p.periphInit = true)
    (hk : s.p.ids.length + k ≤ canMaxChannels) :
    ∃ t, run canOpensStep s (List.replicate k (.openFile .allocates)) = some t ∧
      t.p.periphInit = true ∧ t.p.ids.length = s.p.ids.length + k := by
  induction k generalizing s with
  | zero => exact ⟨s, rfl, hinit, rfl⟩
  | succ k ih =>
      have hsearches : s.Searches .allocates := ⟨hinit, rfl⟩
      have hroom : s.p.ids.length < canMaxChannels := by omega
      have hfull : ¬ s.p.Full := fun hfull => Nat.ne_of_lt hroom (CanPrivate.full_iff.1 hfull)
      have hopen := canOpenFile_of_room h.dense hsearches hfull
      have hlength : (canOpenFile s .allocates).state.p.ids.length = s.p.ids.length + 1 := by
        rw [hopen, CanPrivate.ids_setChannel h.dense _ hroom, List.length_append,
          List.length_singleton]
      obtain ⟨t, hrun, htinit, htlength⟩ :=
        ih (inv_canOpenFile h .allocates) (by rw [hopen]; exact hinit) (by omega)
      exact ⟨t, run_cons_eq_some.2 ⟨_, rfl, hrun⟩, htinit, by omega⟩

/-- An interface after `can_init`. -/
def canPrivateReady : CanPrivate where
  periphInit := true
  channel := List.replicate canMaxChannels none
  behind := fun i => i < 2
  length_channel := List.length_replicate
  mutex_of_init := fun _ => rfl
  txQueue_of_init := fun _ => rfl

/-- The thirty-third call reads behind the table. -/
theorem not_along_openRight_of_calls :
    ¬ Along OpenRight canOpensStep (canOpensStart canPrivateReady 0)
      (List.replicate 33 (.openFile .allocates)) := by
  intro hright
  have hlength : (canOpensStart canPrivateReady 0).p.ids.length = 0 := by
    rw [canOpensStart, CanPrivate.ids_cleared]
    rfl
  obtain ⟨t, hrun, hinit, hlast⟩ := exists_run_opens canMaxChannels
    (inv_canOpensStart canPrivateReady 0) rfl (by omega)
  have hfull : t.p.Full := CanPrivate.full_iff.2 (by omega)
  rw [show 33 = canMaxChannels + 1 from rfl, List.replicate_succ', along_append] at hright
  have hindex := (hright.2 t hrun).1.accesses canMaxChannels
  rw [canOpenFile_of_full ⟨hinit, rfl⟩ hfull] at hindex
  exact Nat.lt_irrefl _ (hindex (List.mem_range.2 (by omega)))

end Runs

/-! ## The channels with their queues -/

section Channels

variable {n : ℕ}

/-- What the table of this module has of a channel. -/
def CanSlot.ofChannel (channel : CanChannel n) : CanSlot :=
  ⟨channel.id, channel.idFilterLow, channel.idFilterHigh, channel.type, true⟩

/-- The same channels are open, and the next channel gets the same id. -/
structure CanOpens.Shows (s : CanOpens) (can : Can n) : Prop where
  periphInit : s.p.periphInit = can.periphInit
  channel : s.p.channel = can.channel.map (Option.map CanSlot.ofChannel)
  id : s.id = can.nextId

variable {s : CanOpens} {can : Can n}

/-- The words that the searches read are null in the same places. -/
theorem CanOpens.Shows.word_eq (h : s.Shows can) (hinit : s.p.periphInit = true) {i : ℕ}
    (hi : i ≤ canMaxChannels + 1) : s.p.word i = can.slotTaken i := by
  by_cases hlt : i < canMaxChannels
  · rw [CanPrivate.word, Can.slotTaken, if_pos hlt, if_pos hlt, h.channel, List.getElem?_map]
    cases can.channel[i]? with
    | none => rfl
    | some slot =>
        cases slot with
        | none => rfl
        | some channel => rfl
  · rw [CanPrivate.word, Can.slotTaken, if_neg hlt, if_neg hlt]
    obtain rfl | rfl : i = canMaxChannels ∨ i = canMaxChannels + 1 := by omega
    · exact s.p.mutex_of_init hinit
    · exact s.p.txQueue_of_init hinit

/-- Both searches end in the same place. -/
theorem CanOpens.Shows.canOpenSearch_eq (h : s.Shows can) (hinit : s.p.periphInit = true) (i : ℕ)
    (hi : i ≤ canMaxChannels + 1) : (canOpenSearch s.p i).1 = canOpenSlot can i := by
  induction i using canOpenSlot.induct can with
  | case1 i htaken hgt => rw [canOpenSearch_of_lt hgt, canOpenSlot, if_pos htaken, if_pos hgt]
  | case2 i htaken hle ih =>
      have hword : s.p.word i = true := (h.word_eq hinit hi).trans htaken
      rw [canOpenSearch_of_taken hword (Nat.not_lt.1 hle), canOpenSlot, if_pos htaken, if_neg hle]
      exact ih (by omega)
  | case3 i hfree =>
      have hword : s.p.word i = false :=
        (h.word_eq hinit hi).trans (Bool.eq_false_iff.2 hfree)
      rw [canOpenSearch_of_free hword, canOpenSlot, if_neg hfree]

theorem shows_canOpensStart {p : CanPrivate} (hp : p.periphInit = true) (hn : 0 < n) :
    (canOpensStart p canDefaultTxMsgId).Shows (canInit hn) where
  periphInit := hp
  channel := by
    rw [canInit, List.map_replicate]
    rfl
  id := rfl

/-- A call whose allocations succeed is the call on the channels with their queues: it opens the
same channel, or fails with the same error. -/
theorem shows_canOpen (h : s.Shows can) :
    (canOpenFile s .allocates).state.Shows (canOpen can).1 ∧
      ∀ error, (canOpen can).2 = .error error ↔
        (canOpenFile s .allocates).rv = -1 ∧ (canOpenFile s .allocates).state.errno = error := by
  cases hinit : s.p.periphInit with
  | false =>
      have hcan : canOpen can = (can, .error .eperm) := by
        rw [canOpen, ← h.periphInit, hinit, if_neg Bool.false_ne_true]
      rw [canOpenFile_of_not_init hinit, hcan]
      refine ⟨⟨h.periphInit, h.channel, h.id⟩, fun error => ?_⟩
      rw [Except.error.injEq]
      exact ⟨fun heq => ⟨rfl, heq⟩, fun heq => heq.2⟩
  | true =>
      have hsearch := h.canOpenSearch_eq hinit 0 (Nat.zero_le _)
      rw [canOpenFile_of_searches ⟨hinit, rfl⟩, canOpen, ← h.periphInit, if_pos hinit,
        ← hsearch]
      dsimp only
      split
      · refine ⟨⟨h.periphInit, ?_, ?_⟩, fun error => ?_⟩
        · change s.p.channel.set _ _ = (can.channel.set _ _).map _
          rw [h.channel, List.map_set, h.id]
          rfl
        · rw [h.id]
        · refine iff_of_false (fun heq => ?_) fun heq => ?_
          · cases heq
          · exact absurd (show (0 : ℤ) = -1 from heq.1) (by decide)
      · refine ⟨⟨h.periphInit, h.channel, h.id⟩, fun error => ?_⟩
        rw [Except.error.injEq]
        exact ⟨fun heq => ⟨rfl, heq⟩, fun heq => heq.2⟩

/-- Runs of calls whose allocations succeed open the same channels in both. -/
theorem shows_run {can' : Can n} (k : ℕ) (h : s.Shows can)
    (hrun : run canStep can (List.replicate k .openChannel) = some can') :
    ∃ t, run canOpensStep s (List.replicate k (.openFile .allocates)) = some t ∧
      t.Shows can' := by
  induction k generalizing s can with
  | zero =>
      cases hrun
      exact ⟨s, rfl, h⟩
  | succ k ih =>
      obtain ⟨can₁, hopen, hrest⟩ := run_cons_eq_some.1 hrun
      cases hopen
      obtain ⟨t, ht, hshows⟩ := ih (shows_canOpen h).1 hrest
      exact ⟨t, run_cons_eq_some.2 ⟨_, rfl, ht⟩, hshows⟩

end Channels

end Catpilot
