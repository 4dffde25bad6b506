import Catpilot.RingBuf.Moves
import Catpilot.Sync.Mutex

/-!
# The bytes of a write call stay together

`cont_mutex` is held from the first sample of a write call to its return (`Owned`),
so the bytes of the call are the end of the stream while it is inside, and one
block of the stream once it has returned (`Numbered`). Readers play no part in
this, so there may be any number of them.
-/

namespace Catpilot

open Memory Word Transition Sync

section Writers

variable {ι κ : Type*}

/-- The writer inside is the owner of `cont_mutex`. -/
def Owned (s : Threads ι κ) : Prop :=
  ∀ i, (s.writer i).inside = true ↔ s.contMutex = some i

/-- What the stream says about the write calls: nothing yet of a call that has not
entered, all that has been put of the call inside at the end of the stream, and a
block with the whole buffer of a call that has returned. -/
structure Numbered (s : Threads ι κ) : Prop where
  outside : ∀ i c rest, (s.writer i).call? = some (c, rest) → (s.writer i).inside = false →
    s.calls[c]? = some rest ∧ ∀ x ∈ s.stream, x.1 ≠ c
  inside : ∀ i c rest, (s.writer i).call? = some (c, rest) → (s.writer i).inside = true →
    ∃ before bytes, s.calls[c]? = some (bytes ++ rest) ∧
      s.stream = before ++ bytes.map (Prod.mk c) ∧ ∀ x ∈ before, x.1 ≠ c
  unique : ∀ i j c r r', (s.writer i).call? = some (c, r) →
    (s.writer j).call? = some (c, r') → i = j
  finished : ∀ c buf, s.calls[c]? = some buf → (∀ i r, (s.writer i).call? ≠ some (c, r)) →
    Block s.stream c buf
  numbered : ∀ x ∈ s.stream, x.1 < s.calls.length

theorem owned_iff_guarded {s : Threads ι κ} :
    Owned s ↔ Guarded s.contMutex (fun pc => WritePc.inside pc = true) s.writer :=
  forall_congr' fun _ => iff_comm

theorem Owned.eq_of_inside {s : Threads ι κ} (h : Owned s) {i j : ι}
    (hi : (s.writer i).inside = true) (hj : (s.writer j).inside = true) : i = j :=
  (owned_iff_guarded.1 h).unique hi hj

theorem Owned.start (rb : RingBuf) : Owned (Threads.start ι κ rb) := by
  intro i
  simp [Threads.start, WritePc.inside]

theorem Numbered.start (rb : RingBuf) : Numbered (Threads.start ι κ rb) := by
  constructor <;> simp [Threads.start, WritePc.call?]

/-- Only the program points, the buffers and the stream matter. -/
theorem Numbered.congr {s s' : Threads ι κ} (h : Numbered s)
    (hcall : ∀ i, (s'.writer i).call? = (s.writer i).call?)
    (hinside : ∀ i, (s'.writer i).inside = (s.writer i).inside)
    (hcalls : s'.calls = s.calls) (hstream : s'.stream = s.stream) : Numbered s' := by
  constructor
  · intro i c rest hc hi
    rw [hcalls, hstream]
    exact h.outside i c rest (hcall i ▸ hc) (hinside i ▸ hi)
  · intro i c rest hc hi
    rw [hcalls, hstream]
    exact h.inside i c rest (hcall i ▸ hc) (hinside i ▸ hi)
  · intro i j c r r' hi hj
    exact h.unique i j c r r' (hcall i ▸ hi) (hcall j ▸ hj)
  · intro c buf hbuf hno
    rw [hstream]
    exact h.finished c buf (hcalls ▸ hbuf) fun i r => hcall i ▸ hno i r
  · intro x hx
    rw [hcalls]
    exact h.numbered x (hstream ▸ hx)

theorem Owned.congr {s s' : Threads ι κ} (h : Owned s)
    (hinside : ∀ i, (s'.writer i).inside = (s.writer i).inside)
    (hmutex : s'.contMutex = s.contMutex) : Owned s' := by
  intro i
  rw [hinside i, hmutex]
  exact h i

/-- A block stays one when bytes of another call are appended. -/
theorem Block.append {stream : List (ℕ × UInt8)} {c d : ℕ} {bytes more : List UInt8}
    (h : Block stream c bytes) (hd : d ≠ c) : Block (stream ++ more.map (Prod.mk d)) c bytes := by
  obtain ⟨before, after, hstream, hb, ha⟩ := h
  refine ⟨before, after ++ more.map (Prod.mk d), by rw [hstream, List.append_assoc], hb, ?_⟩
  intro x hx
  rcases List.mem_append.1 hx with hx | hx
  · exact ha x hx
  · obtain ⟨y, -, rfl⟩ := List.mem_map.1 hx
    exact hd

/-- What the stream holds of a call, begun at any time. -/
theorem Numbered.block {s : Threads ι κ} (h : Numbered s) {c : ℕ}
    {buf : List UInt8} (hbuf : s.calls[c]? = some buf) :
    ∃ bytes, bytes <+: buf ∧ Block s.stream c bytes ∧
      ((∀ i r, (s.writer i).call? ≠ some (c, r)) → bytes = buf) := by
  by_cases hlive : ∃ i r, (s.writer i).call? = some (c, r)
  · obtain ⟨i, r, hi⟩ := hlive
    cases hin : (s.writer i).inside with
    | false =>
        obtain ⟨-, hnone⟩ := h.outside i c r hi hin
        refine ⟨[], List.nil_prefix, ⟨s.stream, [], by simp, hnone, nofun⟩, ?_⟩
        exact fun hno => absurd hi (hno i r)
    | true =>
        obtain ⟨before, bytes, hcalls, hstream, hb⟩ := h.inside i c r hi hin
        rw [hbuf, Option.some.injEq] at hcalls
        refine ⟨bytes, ⟨r, hcalls.symm⟩,
          ⟨before, [], by rw [List.append_nil]; exact hstream, hb, nofun⟩, ?_⟩
        exact fun hno => absurd hi (hno i r)
  · have hno : ∀ i r, (s.writer i).call? ≠ some (c, r) := fun i r hi => hlive ⟨i, r, hi⟩
    exact ⟨buf, List.prefix_refl _, h.finished c buf hbuf hno, fun _ => rfl⟩

/-- What the buffers and the stream say about one program point. -/
def Accounted (calls : List (List UInt8)) (stream : List (ℕ × UInt8)) (pc : WritePc) : Prop :=
  ∀ c rest, pc.call? = some (c, rest) →
    if pc.inside = true then
      ∃ before bytes, calls[c]? = some (bytes ++ rest) ∧
        stream = before ++ bytes.map (Prod.mk c) ∧ ∀ x ∈ before, x.1 ≠ c
    else calls[c]? = some rest ∧ ∀ x ∈ stream, x.1 ≠ c

theorem Numbered.accounted {s : Threads ι κ} (h : Numbered s) (j : ι) :
    Accounted s.calls s.stream (s.writer j) := by
  intro c rest hc
  split
  · rename_i hi
    exact h.inside j c rest hc hi
  · rename_i hi
    exact h.outside j c rest hc (Bool.not_eq_true _ ▸ hi)

/-- A writer that is in a call has its number. -/
theorem Numbered.call_lt {s : Threads ι κ} (h : Numbered s) {j : ι} {c : ℕ} {rest : List UInt8}
    (hc : (s.writer j).call? = some (c, rest)) : c < s.calls.length := by
  have hacc := h.accounted j c rest hc
  split at hacc
  · obtain ⟨_, bytes, hcalls, -, -⟩ := hacc
    exact (List.getElem?_eq_some_iff.1 hcalls).1
  · exact (List.getElem?_eq_some_iff.1 hacc.1).1

variable [DecidableEq ι]

theorem inside_setWriter {s : Threads ι κ} {i : ι} {pc : WritePc}
    (h : pc.inside = (s.writer i).inside) (j : ι) :
    ((s.setWriter i pc).writer j).inside = (s.writer j).inside := by
  by_cases hj : j = i
  · rw [hj, setWriter_writer_self, h]
  · rw [setWriter_writer_of_ne s hj]

theorem call?_setWriter {s : Threads ι κ} {i : ι} {pc : WritePc}
    (h : pc.call? = (s.writer i).call?) (j : ι) :
    ((s.setWriter i pc).writer j).call? = (s.writer j).call? := by
  by_cases hj : j = i
  · rw [hj, setWriter_writer_self, h]
  · rw [setWriter_writer_of_ne s hj]

theorem Owned.write {s s' : Threads ι κ} {i : ι} (h : Owned s) (hm : WriteMove s i s') :
    Owned s' := by
  rw [owned_iff_guarded] at h ⊢
  cases hm with
  | enter hpc hfree => exact (hfree ▸ h).take rfl
  | leave hpc => exact h.giveFrom hpc rfl Bool.false_ne_true
  | full hpc _ => exact h.moveFrom hpc Iff.rfl
  | room hpc => exact h.moveFrom hpc Iff.rfl
  | woken hpc => exact h.moveFrom hpc Iff.rfl
  | put hpc => exact h.moveFrom hpc Iff.rfl

/-- One writer moves to `pc`, where it is in the same call, in a new one or in none. -/
theorem Numbered.setWriter {s t : Threads ι κ} {i : ι} {pc : WritePc} (h : Numbered s)
    (hwriter : t.writer = s.writer)
    (hcall : ∀ c r, pc.call? = some (c, r) →
      (∃ r', (s.writer i).call? = some (c, r')) ∨ ∀ j r', (s.writer j).call? ≠ some (c, r'))
    (hpc : Accounted t.calls t.stream pc)
    (hothers : ∀ j, j ≠ i → Accounted t.calls t.stream (s.writer j))
    (hfinished : ∀ c buf, t.calls[c]? = some buf → (∀ r, pc.call? ≠ some (c, r)) →
      (∀ j, j ≠ i → ∀ r, (s.writer j).call? ≠ some (c, r)) → Block t.stream c buf)
    (hnumbered : ∀ x ∈ t.stream, x.1 < t.calls.length) : Numbered (t.setWriter i pc) := by
  have hself : (t.setWriter i pc).writer i = pc := setWriter_writer_self t i pc
  have hne : ∀ j, j ≠ i → (t.setWriter i pc).writer j = s.writer j := by
    intro j hj
    rw [setWriter_writer_of_ne t hj, hwriter]
  have hacc : ∀ j, Accounted t.calls t.stream ((t.setWriter i pc).writer j) := by
    intro j
    by_cases hj : j = i
    · rw [hj, hself]
      exact hpc
    · rw [hne j hj]
      exact hothers j hj
  have hclash : ∀ j c r r', j ≠ i → pc.call? = some (c, r) → (s.writer j).call? ≠ some (c, r') := by
    intro j c r r' hj hr hr'
    rcases hcall c r hr with ⟨r'', hi⟩ | hnone
    · exact hj (h.unique j i c r' r'' hr' hi)
    · exact hnone j r' hr'
  refine ⟨?_, ?_, ?_, ?_, hnumbered⟩
  · intro j c rest hc hi
    have hj := hacc j c rest hc
    rw [if_neg (by rw [hi]; exact Bool.false_ne_true)] at hj
    exact hj
  · intro j c rest hc hi
    have hj := hacc j c rest hc
    rw [if_pos hi] at hj
    exact hj
  · intro j k c r r' hj hk
    by_cases hji : j = i
    · by_cases hki : k = i
      · rw [hji, hki]
      · rw [hji, hself] at hj
        rw [hne k hki] at hk
        exact absurd hk (hclash k c r r' hki hj)
    · rw [hne j hji] at hj
      by_cases hki : k = i
      · rw [hki, hself] at hk
        exact absurd hj (hclash j c r' r hji hk)
      · rw [hne k hki] at hk
        exact h.unique j k c r r' hj hk
  · intro c buf hbuf hno
    apply hfinished c buf hbuf
    · exact hself ▸ hno i
    · exact fun j hj => hne j hj ▸ hno j

/-- A call that no writer is in, of those with another number than the call of writer `i`. -/
theorem Numbered.finished_of_ne {s : Threads ι κ} (h : Numbered s) {i : ι} {call c : ℕ}
    {rest buf : List UInt8} (hi : (s.writer i).call? = some (call, rest)) (hc : call ≠ c)
    (hbuf : s.calls[c]? = some buf)
    (hno : ∀ j, j ≠ i → ∀ r, (s.writer j).call? ≠ some (c, r)) : Block s.stream c buf := by
  refine h.finished c buf hbuf fun j r hr => ?_
  by_cases hj : j = i
  · rw [hj, hi, Option.some.injEq, Prod.mk.injEq] at hr
    exact hc hr.1
  · exact hno j hj r hr

/-- What is said of a writer outside of the section holds on when bytes of another call come
to the stream. -/
theorem Accounted.append {calls : List (List UInt8)} {stream : List (ℕ × UInt8)} {pc : WritePc}
    (h : Accounted calls stream pc) (hin : pc.inside = false) {call : ℕ}
    (hne : ∀ r, pc.call? ≠ some (call, r)) (more : List UInt8) :
    Accounted calls (stream ++ more.map (Prod.mk call)) pc := by
  intro c rest hc
  have hout : ¬ pc.inside = true := by
    rw [hin]
    exact Bool.false_ne_true
  have hacc := h c rest hc
  rw [if_neg hout] at hacc ⊢
  refine ⟨hacc.1, fun x hx => ?_⟩
  rcases List.mem_append.1 hx with hx | hx
  · exact hacc.2 x hx
  · obtain ⟨y, -, rfl⟩ := List.mem_map.1 hx
    rintro rfl
    exact hne rest hc

theorem Numbered.write {s s' : Threads ι κ} {i : ι} (h : Numbered s) (ho : Owned s)
    (hm : WriteMove s i s') : Numbered s' := by
  cases hm with
  | @enter call buf hpc hfree =>
      have hcalli : (s.writer i).call? = some (call, buf) := by rw [hpc]; rfl
      obtain ⟨hcalls, hnone⟩ := h.outside i call buf hcalli (by rw [hpc]; rfl)
      refine h.setWriter rfl ?_ ?_ ?_ ?_ ?_
      · rintro c r ⟨⟩
        exact Or.inl ⟨buf, hcalli⟩
      · rintro c rest ⟨⟩
        exact ⟨s.stream, [], hcalls, by simp, hnone⟩
      · exact fun j _ => h.accounted j
      · intro c bytes hbuf hno hothers
        exact h.finished_of_ne hcalli (fun hc => hno buf (by rw [← hc]; rfl)) hbuf hothers
      · exact h.numbered
  | @leave call hpc =>
      have hcalli : (s.writer i).call? = some (call, []) := by rw [hpc]; rfl
      obtain ⟨before, bytes, hcalls, hstream, hb⟩ := h.inside i call [] hcalli (by rw [hpc]; rfl)
      rw [List.append_nil] at hcalls
      refine h.setWriter rfl ?_ ?_ ?_ ?_ ?_
      · exact nofun
      · exact nofun
      · exact fun j _ => h.accounted j
      · intro c buf hbuf _ hothers
        by_cases hc : call = c
        · -- the call that returns: its bytes are the end of the stream
          subst hc
          have hsame : bytes = buf := Option.some.inj (hcalls.symm.trans hbuf)
          subst hsame
          exact ⟨before, [], by rw [List.append_nil]; exact hstream, hb, nofun⟩
        · exact h.finished_of_ne hcalli hc hbuf hothers
      · exact h.numbered
  | full hpc _ =>
      exact h.congr (call?_setWriter (by rw [hpc]; rfl)) (inside_setWriter (by rw [hpc]; rfl))
        rfl rfl
  | room hpc =>
      exact h.congr (call?_setWriter (by rw [hpc]; rfl)) (inside_setWriter (by rw [hpc]; rfl))
        rfl rfl
  | woken hpc =>
      exact h.congr (call?_setWriter (by dsimp only; rw [hpc]; rfl))
        (inside_setWriter (by dsimp only; rw [hpc]; rfl)) rfl rfl
  | @put call buf t hpc =>
      have hin : (s.writer i).inside = true := by rw [hpc]; rfl
      have hcalli : (s.writer i).call? = some (call, buf) := by rw [hpc]; rfl
      obtain ⟨before, bytes, hcalls, hstream, hb⟩ := h.inside i call buf hcalli hin
      refine h.setWriter rfl ?_ ?_ ?_ ?_ ?_
      · rintro c r ⟨⟩
        exact Or.inl ⟨buf, hcalli⟩
      · rintro c rest ⟨⟩
        refine ⟨before, bytes ++ buf.take t, ?_, ?_, hb⟩
        · rw [List.append_assoc, List.take_append_drop]
          exact hcalls
        · rw [hstream, List.map_append, List.append_assoc]
      · intro j hj
        have hout : (s.writer j).inside = false := by
          rw [← Bool.not_eq_true]
          exact fun hjn => hj (ho.eq_of_inside hjn hin)
        exact (h.accounted j).append hout (fun r hr => hj (h.unique j i call r buf hr hcalli)) _
      · intro c bytes' hbuf hno hothers
        have hc : call ≠ c := fun hc => hno (buf.drop t) (by rw [← hc]; rfl)
        exact Block.append (h.finished_of_ne hcalli hc hbuf hothers) hc
      · intro x hx
        rcases List.mem_append.1 hx with hx | hx
        · exact h.numbered x hx
        · obtain ⟨y, -, rfl⟩ := List.mem_map.1 hx
          exact h.call_lt hcalli

/-- What is said of a writer holds on when another call begins. -/
theorem Accounted.append_call {calls : List (List UInt8)} {stream : List (ℕ × UInt8)}
    {pc : WritePc} (h : Accounted calls stream pc) (buf : List UInt8) :
    Accounted (calls ++ [buf]) stream pc := by
  have hold : ∀ {c : ℕ} {rest : List UInt8}, calls[c]? = some rest →
      (calls ++ [buf])[c]? = some rest := by
    intro c rest hc
    rw [List.getElem?_append_left (List.getElem?_eq_some_iff.1 hc).1, hc]
  intro c rest hc
  have hacc := h c rest hc
  split at hacc
  · rename_i hi
    obtain ⟨before, bytes, hcalls, hstream, hb⟩ := hacc
    rw [if_pos hi]
    exact ⟨before, bytes, hold hcalls, hstream, hb⟩
  · rename_i hi
    rw [if_neg hi]
    exact ⟨hold hacc.1, hacc.2⟩

/-- A call of `ring_buf_write` begins: it gets the next number. -/
theorem Numbered.callWrite {s : Threads ι κ} {i : ι} (h : Numbered s)
    (hpc : s.writer i = .idle) (buf : List UInt8) :
    Numbered ({ s with calls := s.calls ++ [buf] }.setWriter i (.enter s.calls.length buf)) := by
  refine h.setWriter rfl ?_ ?_ ?_ ?_ ?_
  · rintro c r ⟨⟩
    exact Or.inr fun j r' hr' => absurd (h.call_lt hr') (lt_irrefl _)
  · rintro c rest ⟨⟩
    refine ⟨?_, fun x hx => (h.numbered x hx).ne⟩
    rw [List.getElem?_append_right le_rfl, Nat.sub_self]
    rfl
  · exact fun j _ => (h.accounted j).append_call buf
  · intro c bytes hb hno hothers
    have hc : c ≠ s.calls.length := fun hc => hno buf (by rw [hc]; rfl)
    have hlast := (List.getElem?_eq_some_iff.1 hb).1
    rw [List.length_append, List.length_singleton] at hlast
    rw [List.getElem?_append_left (by omega)] at hb
    refine h.finished c bytes hb fun j r hr => ?_
    by_cases hj : j = i
    · rw [hj, hpc] at hr
      cases hr
    · exact hothers j hj r hr
  · intro x hx
    rw [List.length_append]
    exact Nat.lt_add_right _ (h.numbered x hx)

end Writers

end Catpilot
