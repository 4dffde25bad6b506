import Catpilot.RingBuf.WriteCalls

/-!
# Several readers on one ring buffer

A read samples the data size in one section and fetches that much in another. With
several readers the bytes may be gone by then, fetched by a reader in between: the
second fetch delivers them again and takes the count below zero. `Fits` is what the
sections keep, for any number of readers, as long as every fetch finds the bytes it
takes.
-/

namespace Catpilot

open Memory Word Transition

section Sections

variable {ι κ : Type*}

/-- The bytes put and fetched so far make up the buffer, and a writer about to put
bytes has room for them. -/
structure Fits (s : Threads ι κ) : Prop where
  holds : Holds s.rb (s.stream.map Prod.snd) (s.delivered.map Prod.snd)
  put_fits : ∀ i c buf t, s.writer i = .put c buf t →
    t ≤ buf.length ∧ s.rb.count + t ≤ s.rb.size

theorem Fits.start {n : ℕ} {rb : RingBuf} (hinit : ringBufInit n = some rb) :
    Fits (Threads.start ι κ rb) := by
  refine ⟨(ringBufInit_holds hinit).1, ?_⟩
  simp [Threads.start]

/-- Only the buffer, the bytes and the writers matter. -/
theorem Fits.congr {s s' : Threads ι κ} (h : Fits s) (hrb : s'.rb = s.rb)
    (hwriter : s'.writer = s.writer) (hstream : s'.stream = s.stream)
    (hdelivered : s'.delivered = s.delivered) : Fits s' := by
  constructor
  · rw [hrb, hstream, hdelivered]
    exact h.holds
  · rw [hrb, hwriter]
    exact h.put_fits

/-- Nor does a semaphore that is taken. -/
theorem Fits.of_sems {s : Threads ι κ} (h : Fits s) (r w : Bool) :
    Fits { s with rb := { s.rb with rSem := r, wSem := w } } :=
  ⟨h.holds.of_sems r w, h.put_fits⟩

/-- No other writer is inside while this one is. -/
theorem Owned.outside {s : Threads ι κ} {i j : ι} (ho : Owned s)
    (hi : (s.writer i).inside = true) (hj : j ≠ i) : (s.writer j).inside = false := by
  rw [Bool.eq_false_iff]
  exact fun hin => hj (ho.eq_of_inside hin hi)

section Write

variable [DecidableEq ι]

/-- A writer that moves to another point, one with room if it is about to put. -/
theorem Fits.setWriter {s : Threads ι κ} {i : ι} {pc : WritePc} (h : Fits s)
    (hput : ∀ c buf t, pc = .put c buf t → t ≤ buf.length ∧ s.rb.count + t ≤ s.rb.size) :
    Fits (s.setWriter i pc) := by
  refine ⟨h.holds, ?_⟩
  intro j c buf t hj
  rcases setWriter_writer_cases hj with hpc | ⟨-, hold⟩
  · exact hput c buf t hpc
  · exact h.put_fits j c buf t hold

theorem Fits.write {s s' : Threads ι κ} {i : ι} (h : Fits s) (ho : Owned s)
    (hm : WriteMove s i s') : Fits s' := by
  cases hm with
  | enter hpc hfree =>
      have h' : Fits { s with contMutex := some i } := h.congr rfl rfl rfl rfl
      exact h'.setWriter nofun
  | leave hpc =>
      have h' : Fits { s with contMutex := none } := h.congr rfl rfl rfl rfl
      exact h'.setWriter nofun
  | full hpc _ => exact h.setWriter nofun
  | room hpc =>
      refine h.setWriter ?_
      intro c buf t heq
      cases heq
      rw [h.holds.freeSize_eq]
      have hle := h.holds.count_le
      omega
  | woken hpc => exact (h.of_sems false s.rb.wSem).setWriter nofun
  | @put call buf t hpc =>
      have hin : (s.writer i).inside = true := by rw [hpc]; rfl
      obtain ⟨ht, hfits⟩ := h.put_fits i call buf t hpc
      constructor
      · change Holds (writeSection s.rb buf t)
          ((s.stream ++ (buf.take t).map (Prod.mk call)).map Prod.snd) _
        rw [List.map_append, List.map_map, Function.comp_def, List.map_id']
        exact h.holds.after_write ht hfits
      · intro j c buf' t' hj
        rcases setWriter_writer_cases hj with heq | ⟨hji, hold⟩
        · cases heq
        · have hout := ho.outside hin hji
          dsimp only at hold
          rw [hold] at hout
          cases hout

end Write

/-- A fetch of bytes that are there. -/
theorem Fits.fetch {s : Threads ι κ} (h : Fits s) (j : κ) {len : ℕ} (hlen : len ≤ s.rb.count) :
    Fits { s with
      rb := (readSection s.rb len).1
      delivered := s.delivered ++ (readSection s.rb len).2.map (Prod.mk j) } := by
  have hcount : wrapSub 16 s.rb.count len = s.rb.count - len :=
    wrapSub_of_le hlen (by have := h.holds.size_lt; have := h.holds.count_le; omega)
  constructor
  · change Holds _ _ ((s.delivered ++ (readSection s.rb len).2.map (Prod.mk j)).map Prod.snd)
    rw [List.map_append, List.map_map, Function.comp_def, List.map_id']
    exact h.holds.after_read hlen
  · intro i c buf t hi
    obtain ⟨ht, hfits⟩ := h.put_fits i c buf t hi
    refine ⟨ht, ?_⟩
    change (readSection s.rb len).1.count + t ≤ (readSection s.rb len).1.size
    rw [readSection_count, readSection_size, hcount]
    omega

section Read

variable [DecidableEq κ]

theorem Fits.read {s s' : Threads ι κ} {j : κ} (h : Fits s)
    (hok : ∀ length dataSize, s.reader j = .fetch length dataSize →
      min length dataSize ≤ s.rb.count) (hm : ReadMove s j s') : Fits s' := by
  cases hm with
  | empty => exact h.congr rfl rfl rfl rfl
  | data => exact h.congr rfl rfl rfl rfl
  | woken => exact (h.of_sems s.rb.rSem false).congr rfl rfl rfl rfl
  | @fetch length dataSize hpc =>
      exact (h.fetch j (hok length dataSize hpc)).congr rfl rfl rfl rfl

end Read

end Sections

section Sharing

variable {ι κ : Type*}

/-- The step does not fetch bytes that are no longer there: a reader about to fetch
finds as many bytes as it takes, the smaller one of its length and of the size it
sampled. -/
def FindsSampled (s : Threads ι κ) : ThreadAction ι κ → Prop
  | .stepRead j =>
      match s.reader j with
      | .fetch length dataSize => min length dataSize ≤ s.rb.count
      | _ => True
  | _ => True

instance (s : Threads ι κ) (a : ThreadAction ι κ) : Decidable (FindsSampled s a) := by
  cases a with
  | stepRead j =>
      simp only [FindsSampled]
      cases s.reader j with
      | fetch length dataSize => exact inferInstanceAs (Decidable (_ ≤ _))
      | _ => exact inferInstanceAs (Decidable True)
  | _ => exact inferInstanceAs (Decidable True)

/-- The readers share the bytes: those delivered, to whatever readers, are the first of
those put, each once, the buffer holds the others, and the count says how many. -/
structure SharedOut (s : Threads ι κ) : Prop where
  delivered : s.delivered.map Prod.snd <+: s.stream.map Prod.snd
  held : contents s.rb = (s.stream.map Prod.snd).drop s.delivered.length
  count : s.rb.count + s.delivered.length = s.stream.length

theorem Fits.sharedOut {s : Threads ι κ} (h : Fits s) : SharedOut s where
  delivered := h.holds.delivered_prefix
  held := by
    rw [h.holds.contents_eq, List.length_map]
  count := by
    have hadd := h.holds.count_add
    rw [List.length_map, List.length_map] at hadd
    exact hadd

/-- What holds as long as every fetch finds its bytes. -/
structure Sharing (s : Threads ι κ) : Prop where
  owned : Owned s
  fits : Fits s
  sampled_le : ∀ j length dataSize, s.reader j = .fetch length dataSize → dataSize ≤ s.rb.size

theorem Sharing.start {n : ℕ} {rb : RingBuf} (hinit : ringBufInit n = some rb) :
    Sharing (Threads.start ι κ rb) := by
  refine ⟨Owned.start rb, Fits.start hinit, ?_⟩
  simp [Threads.start]

variable [DecidableEq κ]

/-- A reader that moves to another point, with a sample that is at most the size. -/
theorem Sharing.setReader {s : Threads ι κ} {j : κ} {pc : ReadPc} (h : Sharing s)
    (hpc : ∀ length dataSize, pc = .fetch length dataSize → dataSize ≤ s.rb.size) :
    Sharing (s.setReader j pc) := by
  refine ⟨h.owned, h.fits.congr rfl rfl rfl rfl, ?_⟩
  intro k length dataSize hk
  by_cases hkj : k = j
  · rw [hkj, setReader_reader_self] at hk
    exact hpc length dataSize hk
  · rw [setReader_reader_of_ne _ hkj] at hk
    exact h.sampled_le k length dataSize hk

theorem Sharing.read {s s' : Threads ι κ} {j : κ} (h : Sharing s)
    (hok : FindsSampled s (.stepRead j)) (hm : ReadMove s j s') : Sharing s' := by
  cases hm with
  | empty => exact h.setReader nofun
  | data =>
      refine h.setReader ?_
      intro length dataSize heq
      cases heq
      exact h.fits.holds.count_le
  | woken =>
      have h' : Sharing { s with rb := { s.rb with wSem := false } } :=
        ⟨h.owned, h.fits.of_sems s.rb.rSem false, h.sampled_le⟩
      exact h'.setReader nofun
  | @fetch length dataSize hpc =>
      rw [FindsSampled, hpc] at hok
      have h' : Sharing { s with
          rb := (readSection s.rb (min length dataSize)).1
          delivered := s.delivered ++
            (readSection s.rb (min length dataSize)).2.map (Prod.mk j) } := by
        refine ⟨h.owned, h.fits.fetch j hok, ?_⟩
        intro k length' dataSize' hk
        rw [readSection_size]
        exact h.sampled_le k length' dataSize' hk
      exact h'.setReader nofun

variable [DecidableEq ι]

theorem Sharing.step {s s' : Threads ι κ} {a : ThreadAction ι κ} (h : Sharing s)
    (hok : FindsSampled s a) (ha : threadStep s a = some s') : Sharing s' := by
  cases actionMove_of_threadStep ha with
  | @callWrite i buf hpc =>
      have hfits : Fits { s with calls := s.calls ++ [buf] } := h.fits.congr rfl rfl rfl rfl
      exact ⟨h.owned.congr (inside_setWriter (by dsimp only; rw [hpc]; rfl)) rfl,
        hfits.setWriter nofun, h.sampled_le⟩
  | write hw =>
      refine ⟨h.owned.write hw, h.fits.write h.owned hw, ?_⟩
      cases hw with
      | put hpc =>
          intro j length dataSize hj
          rw [setWriter_rb, writeSection_size]
          exact h.sampled_le j length dataSize hj
      | _ => exact h.sampled_le
  | callRead length => exact h.setReader nofun
  | callReadTimeout length timeout => exact h.setReader nofun
  | read hm => exact h.read hok hm
  | expire => exact h.setReader nofun

/-- A fetch of more bytes than there are takes the count below zero. -/
theorem Sharing.not_sharedOut {s : Threads ι κ} {j : κ} (h : Sharing s) {length dataSize : ℕ}
    (hpc : s.reader j = .fetch length dataSize) (hlt : s.rb.count < min length dataSize) :
    ∃ s', threadStep s (.stepRead j) = some s' ∧ ¬ SharedOut s' := by
  have hstep : threadStep s (.stepRead j) = some ({ s with
      rb := (readSection s.rb (min length dataSize)).1
      delivered := s.delivered ++
        (readSection s.rb (min length dataSize)).2.map (Prod.mk j)
    }.setReader j .idle) := by
    simp only [threadStep, readStep, hpc]
  refine ⟨_, hstep, fun hshared => ?_⟩
  have hsize := h.fits.holds.size_lt
  have hle := (min_le_right length dataSize).trans (h.sampled_le j length dataSize hpc)
  have hcount := hshared.count
  have hbytes : (readSection s.rb (min length dataSize)).2.length = min length dataSize := by
    rw [readSection_snd h.fits.holds]
    refine length_circularRead ?_ ?_
    · rw [h.fits.holds.length_mem]
      exact h.fits.holds.readPtr_le
    · rw [h.fits.holds.length_mem]
      exact hle
  have hadd := h.fits.sharedOut.count
  change (readSection s.rb (min length dataSize)).1.count + (s.delivered ++
    (readSection s.rb (min length dataSize)).2.map (Prod.mk j)).length = s.stream.length at hcount
  rw [readSection_count, wrapSub_of_lt hlt (hle.trans_lt hsize), List.length_append,
    List.length_map, hbytes] at hcount
  omega

/-- A step leads to a state where the readers share the bytes exactly if it finds the
bytes it fetches. -/
theorem Sharing.sharedOut_iff {s : Threads ι κ} (h : Sharing s) (a : ThreadAction ι κ) :
    (∀ s', threadStep s a = some s' → SharedOut s') ↔ FindsSampled s a := by
  constructor
  · intro hall
    cases a with
    | stepRead j =>
        rw [FindsSampled]
        cases hpc : s.reader j with
        | fetch length dataSize =>
            by_contra hover
            obtain ⟨s', hs', hnot⟩ := h.not_sharedOut hpc (not_le.1 hover)
            exact hnot (hall s' hs')
        | _ => trivial
    | _ => trivial
  · intro hok s' hs'
    exact (h.step hok hs').fits.sharedOut

/-- Any number of writers and of readers, in any interleaving: the readers share the
bytes in every state of a run if and only if every fetch of the run finds the bytes it
takes. -/
theorem ringBuf_shared_iff {n : ℕ} (hmax : n ≤ 2048) :
    ∃ rb, ringBufInit n = some rb ∧ SharedOut (Threads.start ι κ rb) ∧
      ∀ as : List (ThreadAction ι κ),
        Along (fun s a => ∀ s', threadStep s a = some s' → SharedOut s') threadStep
            (Threads.start ι κ rb) as ↔
          Along FindsSampled threadStep (Threads.start ι κ rb) as := by
  obtain ⟨rb, hinit⟩ := exists_ringBufInit hmax
  have hstart : Sharing (Threads.start ι κ rb) := Sharing.start hinit
  refine ⟨rb, hinit, hstart.fits.sharedOut, ?_⟩
  exact along_congr (fun s a s' h hok ha => h.step hok ha) (fun s a h => h.sharedOut_iff a) hstart

end Sharing

/-- Two readers, one byte behind the other, where each has fetched before the next
samples. -/
theorem ringBuf_shared_iff_two :
    ∃ rb, ringBufInit 2 = some rb ∧ SharedOut (Threads.start Unit Bool rb) ∧
      Along (fun s a => ∀ s', threadStep s a = some s' → SharedOut s') threadStep
        (Threads.start Unit Bool rb)
        [.callWrite () [7, 8], .stepWrite (), .stepWrite (), .stepWrite (), .callRead false 1,
          .stepRead false, .stepRead false, .callRead true 1, .stepRead true, .stepRead true] := by
  obtain ⟨rb, hinit, hshared, hiff⟩ := ringBuf_shared_iff (ι := Unit) (κ := Bool) (n := 2)
    (by decide)
  have hrb : rb = ⟨[0, 0], 0, 0, 2, 0, false, false⟩ := (Option.some.inj hinit).symm
  subst hrb
  exact ⟨_, hinit, hshared, (hiff _).2 (by decide)⟩

/-- Two readers that both sample the one byte there is: it is delivered to both, and the
count wraps around. -/
theorem ringBuf_not_shared :
    ∃ s : Threads Unit Bool,
      Reachable threadStep (Threads.start Unit Bool ⟨[0], 0, 0, 1, 0, false, false⟩) s ∧
        s.stream = [(0, 7)] ∧ s.delivered = [(false, 7), (true, 7)] ∧ s.rb.count = 65535 ∧
          ¬ SharedOut s := by
  obtain ⟨s, hrun, hstream, hdelivered, hcount⟩ : ∃ s : Threads Unit Bool,
      run threadStep (Threads.start Unit Bool ⟨[0], 0, 0, 1, 0, false, false⟩)
        [.callWrite () [7], .stepWrite (), .stepWrite (), .stepWrite (), .callRead false 1,
          .callRead true 1, .stepRead false, .stepRead true, .stepRead false, .stepRead true] =
        some s ∧ s.stream = [(0, 7)] ∧ s.delivered = [(false, 7), (true, 7)] ∧
          s.rb.count = 65535 := ⟨_, rfl, rfl, rfl, rfl⟩
  refine ⟨s, ⟨_, hrun⟩, hstream, hdelivered, hcount, fun hshared => ?_⟩
  have hlen := hshared.count
  rw [hstream, hdelivered, hcount] at hlen
  exact absurd hlen (by decide)

end Catpilot
