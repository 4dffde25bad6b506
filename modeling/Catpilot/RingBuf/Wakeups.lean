import Catpilot.RingBuf.Readers

/-!
# No lost wake-up with one reader

Any number of writers and one reader. A sampled size stays a lower bound until it
is used, because only the other side moves the count in between; and a thread that
waits on a binary semaphore sampled a full or an empty buffer, so whatever changed
that since has given the semaphore (`Disciplined`).
-/

namespace Catpilot

open Memory Word Transition

section OneReader

variable {ι : Type*}

/-- What holds at the program points of any number of writers and one reader: a
sampled size is still available, and a thread about to wait finds the semaphore
given unless the buffer is as full, or as empty, as it was sampled. -/
structure Disciplined (s : Threads ι Unit) : Prop where
  holds : Holds s.rb (s.stream.map Prod.snd) (s.delivered.map Prod.snd)
  put_fits : ∀ i c buf t, s.writer i = .put c buf t →
    t ≤ buf.length ∧ s.rb.count + t ≤ s.rb.size
  fetch_le : ∀ length dataSize, s.reader () = .fetch length dataSize → dataSize ≤ s.rb.count
  given_room : ∀ i c buf, s.writer i = .takeRSem c buf → s.rb.count < s.rb.size →
    s.rb.rSem = true
  given_data : ∀ length timeout, s.reader () = .takeWSem length timeout → 0 < s.rb.count →
    s.rb.wSem = true

theorem Disciplined.fits {s : Threads ι Unit} (h : Disciplined s) : Fits s := ⟨h.holds, h.put_fits⟩

theorem Disciplined.start {n : ℕ} {rb : RingBuf} (hinit : ringBufInit n = some rb) :
    Disciplined (Threads.start ι Unit rb) := by
  refine ⟨(ringBufInit_holds hinit).1, ?_, ?_, ?_, ?_⟩ <;> simp [Threads.start]

/-- The reader moves: the point that it comes to keeps what is said of the reader. -/
theorem Disciplined.setReader {s : Threads ι Unit} {pc : ReadPc} (hfits : Fits s)
    (hroom : ∀ i c buf, s.writer i = .takeRSem c buf → s.rb.count < s.rb.size →
      s.rb.rSem = true)
    (hfetch : ∀ length dataSize, pc = .fetch length dataSize → dataSize ≤ s.rb.count)
    (hdata : ∀ length timeout, pc = .takeWSem length timeout → 0 < s.rb.count →
      s.rb.wSem = true) : Disciplined (s.setReader () pc) := by
  refine ⟨hfits.holds, hfits.put_fits, ?_, hroom, ?_⟩
  · intro length dataSize hr
    rw [setReader_reader_self] at hr
    exact hfetch length dataSize hr
  · intro length timeout hr
    rw [setReader_reader_self] at hr
    exact hdata length timeout hr

theorem Disciplined.read {s s' : Threads ι Unit} (h : Disciplined s)
    (hm : ReadMove s () s') : Disciplined s' := by
  cases hm with
  | empty hpc hzero =>
      refine Disciplined.setReader h.fits h.given_room nofun ?_
      intro length timeout _ hpos
      exact absurd hzero (Nat.pos_iff_ne_zero.1 hpos)
  | data hpc =>
      refine Disciplined.setReader h.fits h.given_room ?_ nofun
      rintro length dataSize ⟨⟩
      exact le_rfl
  | woken hpc =>
      have hfits : Fits { s with rb := { s.rb with wSem := false } } :=
        ⟨h.holds.of_sems _ false, h.put_fits⟩
      exact .setReader hfits h.given_room nofun nofun
  | @fetch length dataSize hpc =>
      have hlen : min length dataSize ≤ s.rb.count :=
        (min_le_right _ _).trans (h.fetch_le length dataSize hpc)
      have hcount : wrapSub 16 s.rb.count (min length dataSize) =
          s.rb.count - min length dataSize :=
        wrapSub_of_le hlen (by have := h.holds.size_lt; have := h.holds.count_le; omega)
      have hfits := h.fits.fetch () hlen
      refine Disciplined.setReader ⟨hfits.holds, hfits.put_fits⟩ ?_ nofun nofun
      intro j c buf hj hlt
      change (readSection s.rb (min length dataSize)).1.count <
        (readSection s.rb (min length dataSize)).1.size at hlt
      change (readSection s.rb (min length dataSize)).1.rSem = true
      rw [readSection_count, readSection_size, hcount] at hlt
      rw [readSection_rSem]
      split
      · rfl
      · next hzero => exact h.given_room j c buf hj (by omega)

/-- The three invariants together, over the steps of the system. -/
structure Sound (n : ℕ) (s : Threads ι Unit) : Prop where
  owned : Owned s
  numbered : Numbered s
  disciplined : Disciplined s
  size_eq : s.rb.size = n

theorem Sound.start {n : ℕ} {rb : RingBuf} (hinit : ringBufInit n = some rb) :
    Sound n (Threads.start ι Unit rb) :=
  ⟨Owned.start rb, Numbered.start rb, Disciplined.start hinit, (ringBufInit_holds hinit).2⟩

variable [DecidableEq ι]

/-- A writer that moves to a point outside the section leaves the other points as
they were. -/
theorem Disciplined.setWriter {s : Threads ι Unit} {i : ι} {pc : WritePc} (h : Disciplined s)
    (hfits : Fits (s.setWriter i pc))
    (hroom : ∀ c buf, pc = .takeRSem c buf → s.rb.count < s.rb.size → s.rb.rSem = true) :
    Disciplined (s.setWriter i pc) := by
  refine ⟨hfits.holds, hfits.put_fits, h.fetch_le, ?_, h.given_data⟩
  intro j c buf hj
  rcases setWriter_writer_cases hj with hpc | ⟨-, hold⟩
  · exact hroom c buf hpc
  · exact h.given_room j c buf hold

/-- While writer `i` is inside, no other one waits for room. -/
theorem Owned.takeRSem_eq {κ : Type*} {s : Threads ι κ} {i j : ι} {c : ℕ} {buf : List UInt8}
    (ho : Owned s) (hi : (s.writer i).inside = true) (hj : s.writer j = .takeRSem c buf) :
    j = i := by
  by_contra hji
  have hout := ho.outside hi hji
  rw [hj] at hout
  cases hout

/-- A writer that stays inside leaves none that waits for room. -/
theorem Owned.setWriter_ne_takeRSem {κ : Type*} {s : Threads ι κ} {i j : ι} {pc : WritePc}
    (ho : Owned s) (hi : (s.writer i).inside = true) (hpc : ∀ c buf, pc ≠ .takeRSem c buf)
    (c : ℕ) (buf : List UInt8) : (s.setWriter i pc).writer j ≠ .takeRSem c buf := by
  intro hj
  rcases setWriter_writer_cases hj with heq | ⟨hji, hold⟩
  · exact hpc c buf heq
  · exact hji (ho.takeRSem_eq hi hold)

theorem Disciplined.write {s s' : Threads ι Unit} {i : ι} (h : Disciplined s) (ho : Owned s)
    (hm : WriteMove s i s') : Disciplined s' := by
  have hfits := h.fits.write ho hm
  cases hm with
  | enter hpc hfree =>
      have h' : Disciplined { s with contMutex := some i } :=
        ⟨h.holds, h.put_fits, h.fetch_le, h.given_room, h.given_data⟩
      exact h'.setWriter hfits nofun
  | leave hpc =>
      have h' : Disciplined { s with contMutex := none } :=
        ⟨h.holds, h.put_fits, h.fetch_le, h.given_room, h.given_data⟩
      exact h'.setWriter hfits nofun
  | full hpc hzero =>
      refine h.setWriter hfits ?_
      intro c buf _ hlt
      rw [h.holds.freeSize_eq] at hzero
      omega
  | room hpc => exact h.setWriter hfits nofun
  | woken hpc =>
      refine ⟨hfits.holds, hfits.put_fits, h.fetch_le, ?_, h.given_data⟩
      intro j c buf hj
      refine absurd hj (ho.setWriter_ne_takeRSem (by rw [hpc]; rfl) ?_ c buf)
      exact fun _ _ heq => by cases heq
  | @put call buf t hpc =>
      obtain ⟨ht, hroom⟩ := h.put_fits i call buf t hpc
      have hcount : wrap 16 (s.rb.count + t) = s.rb.count + t :=
        wrap_of_lt (by have := h.holds.size_lt; omega)
      refine ⟨hfits.holds, hfits.put_fits, ?_, ?_, ?_⟩
      · intro length dataSize hr
        have hle := h.fetch_le length dataSize hr
        rw [setWriter_rb, writeSection_count, hcount]
        omega
      · intro j c buf' hj
        refine absurd hj (ho.setWriter_ne_takeRSem (by rw [hpc]; rfl) ?_ c buf')
        exact fun _ _ heq => by cases heq
      · intro length timeout _ _
        exact writeSection_wSem s.rb buf t

theorem Sound.step {n : ℕ} {s s' : Threads ι Unit} (h : Sound n s) (hm : ThreadMove s s') :
    Sound n s' := by
  obtain ⟨ho, hn, hd, hsize⟩ := h
  cases hm with
  | @callWrite i buf hpc =>
      have hd' : Disciplined { s with calls := s.calls ++ [buf] } :=
        ⟨hd.holds, hd.put_fits, hd.fetch_le, hd.given_room, hd.given_data⟩
      exact ⟨ho.congr (inside_setWriter (by dsimp only; rw [hpc]; rfl)) rfl, hn.callWrite hpc buf,
        hd'.setWriter (hd'.fits.setWriter nofun) nofun, hsize⟩
  | write hw =>
      refine ⟨ho.write hw, hn.write ho hw, hd.write ho hw, ?_⟩
      cases hw with
      | put hpc => rw [setWriter_rb, writeSection_size]; exact hsize
      | _ => exact hsize
  | callRead length timeout =>
      exact ⟨ho, hn.congr (fun _ => rfl) (fun _ => rfl) rfl rfl,
        .setReader hd.fits hd.given_room nofun nofun, hsize⟩
  | read hr =>
      refine ⟨?_, ?_, hd.read hr, ?_⟩
      · cases hr <;> exact ho
      · cases hr <;> exact hn.congr (fun _ => rfl) (fun _ => rfl) rfl rfl
      · cases hr with
        | fetch hpc => exact (readSection_size s.rb _).trans hsize
        | _ => exact hsize
  | expire =>
      exact ⟨ho, hn.congr (fun _ => rfl) (fun _ => rfl) rfl rfl,
        .setReader hd.fits hd.given_room nofun nofun, hsize⟩

end OneReader

/-- Any number of writers and one reader, in any interleaving: the bytes of each write
call stand together in the order of the buffer, and are its whole buffer once it has
returned; the bytes delivered are the first of that order; the fill count is the
number of bytes put and not delivered, at most the size; the reader does not wait
while there is data, and no writer waits while there is room. -/
theorem ringBuf_no_lost_wakeup {ι : Type*} [DecidableEq ι] {n : ℕ} (hmax : n ≤ 2048) :
    ∃ rb, ringBufInit n = some rb ∧
      ∀ s, Reachable threadStep (Threads.start ι Unit rb) s →
        (∀ c buf, s.calls[c]? = some buf → ∃ bytes, bytes <+: buf ∧ Block s.stream c bytes ∧
          ((∀ i r, (s.writer i).call? ≠ some (c, r)) → bytes = buf)) ∧
        s.delivered.map Prod.snd <+: s.stream.map Prod.snd ∧
        s.rb.count ≤ n ∧ s.rb.count + s.delivered.length = s.stream.length ∧
        ¬ (s.ReaderBlocked () ∧ 0 < s.rb.count) ∧
        ∀ i, ¬ (s.WriterBlocked i ∧ s.rb.count < n) := by
  obtain ⟨rb, hinit⟩ := exists_ringBufInit hmax
  refine ⟨rb, hinit, fun s hs => ?_⟩
  have hsound : Sound n s := Reachable.invariant
    (fun s a s' h ha => h.step (threadMove_of_threadStep ha)) (Sound.start hinit) hs
  obtain ⟨-, hnum, hd, hsize⟩ := hsound
  have hadd := hd.holds.count_add
  rw [List.length_map, List.length_map] at hadd
  refine ⟨fun c buf hbuf => hnum.block hbuf, hd.holds.delivered_prefix,
    hsize ▸ hd.holds.count_le, hadd, ?_, ?_⟩
  · rintro ⟨⟨⟨length, timeout, hpc⟩, hempty⟩, hpos⟩
    rw [hd.given_data length timeout hpc hpos] at hempty
    cases hempty
  · rintro i ⟨⟨⟨c, buf, hpc⟩, hempty⟩, hlt⟩
    rw [hd.given_room i c buf hpc (hsize.symm ▸ hlt)] at hempty
    cases hempty

/-- Two writers on one byte of space: the first has put its byte, the second waits for
`cont_mutex`, and the reader has found the byte. -/
theorem ringBuf_no_lost_wakeup_one :
    ∃ s : Threads Bool Unit,
      run threadStep (Threads.start Bool Unit ⟨[0], 0, 0, 1, 0, false, false⟩)
        [.callWrite false [7, 8], .callWrite true [9], .stepWrite false, .stepWrite false,
          .stepWrite false, .stepWrite false, .callRead () 4, .stepRead ()] = some s ∧
      s.writer false = .takeRSem 0 [8] ∧ s.rb.count = 1 ∧
      ¬ (s.ReaderBlocked () ∧ 0 < s.rb.count) ∧
      ¬ (s.WriterBlocked false ∧ s.rb.count < 1) := by
  obtain ⟨rb, hinit, hall⟩ := ringBuf_no_lost_wakeup (ι := Bool) (n := 1) (by decide)
  have hrb : rb = ⟨[0], 0, 0, 1, 0, false, false⟩ := (Option.some.inj hinit).symm
  subst hrb
  obtain ⟨s, hrun, hpc, hcount⟩ : ∃ s : Threads Bool Unit,
      run threadStep (Threads.start Bool Unit ⟨[0], 0, 0, 1, 0, false, false⟩)
        [.callWrite false [7, 8], .callWrite true [9], .stepWrite false, .stepWrite false,
          .stepWrite false, .stepWrite false, .callRead () 4, .stepRead ()] = some s ∧
      s.writer false = .takeRSem 0 [8] ∧ s.rb.count = 1 := ⟨_, rfl, rfl, rfl⟩
  obtain ⟨-, -, -, -, hreader, hwriter⟩ := hall s ⟨_, hrun⟩
  exact ⟨s, hrun, hpc, hcount, hreader, hwriter false⟩

end Catpilot
