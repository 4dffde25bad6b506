import Catpilot.Cli.Reads

/-!
# The buffers of the line editor

Each byte of a read may be echoed as three, and nothing compares `wlen` with the size of
`wbuf`. A line may fill `cmd` up to its last byte, and its carriage return then ends it one
byte further. The comparison with the delete sequence starts at any byte of `rbuf` and goes
on behind it. Without these three, everything stays inside the buffers.
-/

namespace Catpilot

open CString Transition

/-- The buffers of a command line. -/
inductive Buffer where
  | cmd
  | wbuf
  | rbuf
  deriving DecidableEq, Repr

/-- `n` bytes of a buffer from `off` on. -/
def span (b : Buffer) (off n : ℕ) : List (Buffer × ℕ) :=
  (List.range n).map fun j => (b, off + j)

theorem forall_span {b : Buffer} {off n m : ℕ} :
    (∀ a ∈ span b off n, a.2 < m) ↔ ∀ j < n, off + j < m := by
  rw [span, List.forall_mem_map]
  simp only [List.mem_range]

/-- What a byte adds to `wlen`, on a line with `len` bytes. -/
def EchoKind.echoed : EchoKind → ℕ → ℕ
  | .printable, _ => 1
  | .rubout, len => if len = 0 then 0 else 3
  | _, _ => 0

/-- The length of a line with `len` bytes after the next byte, if the read goes on. -/
def EchoKind.lineAfter (bufSize len : ℕ) : EchoKind → Option ℕ
  | .carriageReturn => some 0
  | .rubout => if len = 0 then none else some (len - 1)
  | .printable => some (min (len + 1) bufSize)
  | .historyUp | .historyDown | .ignored => none

/-- The bytes of a read that are handled, each with the length of the line in front of
it. -/
def handled (bufSize : ℕ) : ℕ → List EchoKind → List (EchoKind × ℕ)
  | _, [] => []
  | len, k :: ks =>
      (k, len) ::
        match k.lineAfter bufSize len with
        | some len => handled bufSize len ks
        | none => []

theorem handled_cons (bufSize len : ℕ) (k : EchoKind) (ks : List EchoKind) :
    handled bufSize len (k :: ks) =
      (k, len) ::
        match k.lineAfter bufSize len with
        | some len => handled bufSize len ks
        | none => [] := rfl

/-- What handled bytes add to `wlen`. -/
def totalEchoed : List (EchoKind × ℕ) → ℕ
  | [] => 0
  | p :: ks => p.1.echoed p.2 + totalEchoed ks

theorem totalEchoed_cons (p : EchoKind × ℕ) (ks : List (EchoKind × ℕ)) :
    totalEchoed (p :: ks) = p.1.echoed p.2 + totalEchoed ks := rfl

namespace CliService

/-- The bytes of `cmd` that `cli_add_to_history` reads. -/
def historyAccesses (cli : CliService) : List (Buffer × ℕ) :=
  span .cmd 0 (strncmpReads cli.cmd (cli.prev 1) (cli.bufSize - 1)) ++
    if strncmpEq (cli.prev 1) cli.cmd (cli.bufSize - 1) then []
    else span .cmd 0 (strncpyReads cli.cmd (cli.bufSize - 1))

/-- The comparison of a whole read with `text`, and `rest` if they differ. -/
def compareAccesses (cli : CliService) (text : List UInt8) (rest : List (Buffer × ℕ)) :
    List (Buffer × ℕ) :=
  span .rbuf 0 (strncmpReads cli.rbuf text cli.rlen) ++
    if strncmpEq cli.rbuf text cli.rlen then [] else rest

/-- The bytes that the tests on `rbuf[i]` read. -/
def testAccesses (cli : CliService) (i : ℕ) : List (Buffer × ℕ) :=
  let c := cli.rbuf.getD i 0
  (.rbuf, i) ::
    if c = 0x0D ∨ c = 0x08 ∨ c = 0x7F then []
    else
      span .rbuf i (strncmpReads (cli.rbuf.drop i) [0x1B, 0x5B, 0x33, 0x7E] 4) ++
        if strncmpEq [0x1B, 0x5B, 0x33, 0x7E] (cli.rbuf.drop i) 4 then []
        else
          cli.compareAccesses [0x1B, 0x5B, 0x41] <|
          cli.compareAccesses [0x5B, 0x41] <|
          cli.compareAccesses [0x1B, 0x5B, 0x42] <|
          cli.compareAccesses [0x5B, 0x42] [(.rbuf, i)]

/-- The bytes that the branch of `rbuf[i]` reads and writes. -/
def branchAccesses (cli : CliService) (i : ℕ) : List (Buffer × ℕ) :=
  match cli.kind i with
  | .carriageReturn =>
      (.cmd, cli.cmdLen) ::
        if cli.cmdLen ≠ 0 then { cli with cmd := cli.cmd.set cli.cmdLen 0 }.historyAccesses else []
  | .rubout => if cli.cmdLen = 0 then [] else span .wbuf cli.wlen 3
  | .historyUp =>
      if strlen cli.up.getLastCommand = 0 then []
      else span .wbuf 0 cli.bufSize ++ span .cmd 0 cli.bufSize
  | .historyDown => span .wbuf 0 cli.bufSize ++ span .cmd 0 cli.bufSize
  | .ignored => []
  | .printable =>
      (.wbuf, cli.wlen) :: (.rbuf, i) ::
        if cli.cmdLen < cli.bufSize then [(.cmd, cli.cmdLen)] else []

/-- Every index that `cli_echo` uses on `rbuf[i]`. -/
def accesses (cli : CliService) (i : ℕ) : List (Buffer × ℕ) :=
  cli.testAccesses i ++ cli.branchAccesses i

/-- With `n` bytes of a read from `rbuf[i]` on, every index is inside its buffer, `wlen`
does not exceed `wbuf`, and the executor gets a terminated line. -/
def LoopInBounds (execute : List UInt8 → List UInt8) : CliService → ℕ → ℕ → Prop
  | cli, _, 0 => cli.wlen ≤ cli.bufSize
  | cli, i, n + 1 =>
      cli.wlen ≤ cli.bufSize ∧ (∀ a ∈ cli.accesses i, a.2 < cli.bufSize) ∧
        match cli.echoByte i with
        | (cli, .next) => LoopInBounds execute cli (i + 1) n
        | (cli, .leave) => cli.wlen ≤ cli.bufSize
        | (cli, .submit) =>
            0 ∈ cli.cmd.take cli.bufSize ∧ LoopInBounds execute (cli.executed execute) (i + 1) n

/-- The loop can be followed index by index. -/
instance LoopInBounds.decidable (execute : List UInt8 → List UInt8) :
    (cli : CliService) → (i n : ℕ) → Decidable (LoopInBounds execute cli i n)
  | cli, _, 0 => inferInstanceAs (Decidable (cli.wlen ≤ cli.bufSize))
  | cli, i, n + 1 =>
      haveI : ∀ cli', Decidable (LoopInBounds execute cli' (i + 1) n) :=
        fun cli' => LoopInBounds.decidable execute cli' (i + 1) n
      haveI : Decidable
          (match cli.echoByte i with
          | (cli, .next) => LoopInBounds execute cli (i + 1) n
          | (cli, .leave) => cli.wlen ≤ cli.bufSize
          | (cli, .submit) =>
              0 ∈ cli.cmd.take cli.bufSize ∧
                LoopInBounds execute (cli.executed execute) (i + 1) n) :=
        match cli.echoByte i with
        | (cli, .next) => inferInstanceAs (Decidable (LoopInBounds execute cli (i + 1) n))
        | (cli, .leave) => inferInstanceAs (Decidable (cli.wlen ≤ cli.bufSize))
        | (_, .submit) => instDecidableAnd
      inferInstanceAs (Decidable (_ ∧ _ ∧ _))

/-- A read of at least one byte and at most `buf_size` stays inside the buffers. -/
def InBounds (execute : List UInt8 → List UInt8) (cli : CliService) (bytes : List UInt8) : Prop :=
  0 < bytes.length → bytes.length ≤ cli.bufSize →
    (cli.received bytes).LoopInBounds execute 0 bytes.length

instance (execute : List UInt8 → List UInt8) (cli : CliService) (bytes : List UInt8) :
    Decidable (cli.InBounds execute bytes) :=
  inferInstanceAs (Decidable (_ → _ → _))

/-- The bytes from `rbuf[i]` on that are handled of the next `n`. -/
def handledFrom (cli : CliService) (i n : ℕ) : List (EchoKind × ℕ) :=
  handled cli.bufSize cli.cmdLen ((List.range' i n).map cli.kind)

/-- The handled bytes `ks` from `rbuf[i]` on fit: `wbuf` has room for their echo, no line
that ends among them fills `cmd`, and none of them begins a delete sequence that goes on
behind `rbuf`. -/
structure Room (bufSize : ℕ) (rbuf : List UInt8) (wlen i : ℕ) (ks : List (EchoKind × ℕ)) :
    Prop where
  echo : wlen + totalEchoed ks ≤ bufSize
  line : ∀ p ∈ ks, p.1 = .carriageReturn → p.2 < bufSize
  escape : ∀ j < ks.length, ¬ rbuf.drop (i + j) <+: [0x1B, 0x5B, 0x33]

instance (bufSize : ℕ) (rbuf : List UInt8) (wlen i : ℕ) (ks : List (EchoKind × ℕ)) :
    Decidable (Room bufSize rbuf wlen i ks) :=
  decidable_of_iff
    (wlen + totalEchoed ks ≤ bufSize ∧
      (∀ p ∈ ks, p.1 = .carriageReturn → p.2 < bufSize) ∧
      ∀ j < ks.length, ¬ rbuf.drop (i + j) <+: [0x1B, 0x5B, 0x33])
    ⟨fun h => ⟨h.1, h.2.1, h.2.2⟩, fun h => ⟨h.echo, h.line, h.escape⟩⟩

/-- A read whose bytes fit. -/
def Fits (cli : CliService) (bytes : List UInt8) : Prop :=
  0 < bytes.length → bytes.length ≤ cli.bufSize →
    Room cli.bufSize (cli.received bytes).rbuf 0 0 ((cli.received bytes).handledFrom 0 bytes.length)

instance (cli : CliService) (bytes : List UInt8) : Decidable (cli.Fits bytes) :=
  inferInstanceAs (Decidable (_ → _ → _))

section Accesses

variable {cli : CliService} {i n : ℕ}

/-- The history reads a part of `cmd` that ends in front of its last byte. -/
theorem historyAccesses_lt (cli : CliService) : ∀ a ∈ cli.historyAccesses, a.2 < cli.bufSize := by
  have hcmp := strncmpReads_le cli.cmd (cli.prev 1) (cli.bufSize - 1)
  have hcpy : strncpyReads cli.cmd (cli.bufSize - 1) ≤ cli.bufSize - 1 := min_le_right _ _
  rw [historyAccesses, List.forall_mem_append]
  constructor
  · rw [forall_span]
    intro j hj
    omega
  · split
    · exact List.forall_mem_nil _
    · rw [forall_span]
      intro j hj
      omega

/-- The comparison of a whole read stays inside the read. -/
theorem compareAccesses_lt (hrlen : cli.rlen ≤ cli.bufSize) {text : List UInt8}
    {rest : List (Buffer × ℕ)} (hrest : ∀ a ∈ rest, a.2 < cli.bufSize) :
    ∀ a ∈ cli.compareAccesses text rest, a.2 < cli.bufSize := by
  have hle := strncmpReads_le cli.rbuf text cli.rlen
  rw [compareAccesses, List.forall_mem_append]
  constructor
  · rw [forall_span]
    intro j hj
    omega
  · split
    · exact List.forall_mem_nil _
    · exact hrest

/-- The tests on a byte leave `rbuf` where a delete sequence may begin in front of its
end. -/
theorem forall_testAccesses_iff (h : cli.Sized) (hrlen : cli.rlen ≤ cli.bufSize)
    (hi : i < cli.rlen) :
    (∀ a ∈ cli.testAccesses i, a.2 < cli.bufSize) ↔
      ¬ cli.rbuf.drop i <+: [0x1B, 0x5B, 0x33] := by
  have hsize : i < cli.bufSize := hi.trans_le hrlen
  have hbyte : i < cli.rbuf.length := by
    rw [h.rbuf]
    exact hsize
  rw [testAccesses, List.forall_mem_cons]
  simp only [hsize, true_and]
  split
  · rename_i hc
    have hne : cli.rbuf.getD i 0 ≠ 0x1B := by
      rcases hc with hc | hc | hc <;> rw [hc] <;> decide
    rw [rbuf_drop hbyte, List.cons_prefix_cons]
    exact ⟨fun _ hcut => hne hcut.1, fun _ => List.forall_mem_nil _⟩
  · have hreads := strncmpReads_concat_le_iff (s := cli.rbuf.drop i)
      (t := [0x1B, 0x5B, 0x33]) (by decide) 0x7E
    have hlength : (cli.rbuf.drop i).length = cli.bufSize - i := by
      rw [List.length_drop, h.rbuf]
    rw [hlength] at hreads
    have hspan : (∀ a ∈ span .rbuf i (strncmpReads (cli.rbuf.drop i) [0x1B, 0x5B, 0x33, 0x7E] 4),
        a.2 < cli.bufSize) ↔ ¬ cli.rbuf.drop i <+: [0x1B, 0x5B, 0x33] := by
      rw [forall_span, ← hreads]
      constructor
      · intro hall
        by_contra hlt
        have := hall (cli.bufSize - i) (Nat.lt_of_not_le hlt)
        omega
      · intro hle j hj
        have : j < cli.bufSize - i := hj.trans_le hle
        omega
    rw [List.forall_mem_append, hspan, and_iff_left]
    split
    · exact List.forall_mem_nil _
    · apply compareAccesses_lt hrlen
      apply compareAccesses_lt hrlen
      apply compareAccesses_lt hrlen
      apply compareAccesses_lt hrlen
      rw [List.forall_mem_singleton]
      exact hsize

/-- The copies of a command of the history fill the buffers. -/
theorem forall_span_zero (cli : CliService) :
    ∀ a ∈ span .wbuf 0 cli.bufSize ++ span .cmd 0 cli.bufSize, a.2 < cli.bufSize := by
  rw [List.forall_mem_append, forall_span, forall_span]
  simp

/-- The branch of a byte leaves a buffer where its echo has no room, or where a carriage
return ends a line that fills `cmd`. -/
theorem forall_branchAccesses_iff (hwlen : cli.wlen ≤ cli.bufSize) (hi : i < cli.bufSize) :
    (∀ a ∈ cli.branchAccesses i, a.2 < cli.bufSize) ↔
      (cli.kind i = .carriageReturn → cli.cmdLen < cli.bufSize) ∧
        cli.wlen + (cli.kind i).echoed cli.cmdLen ≤ cli.bufSize := by
  rw [branchAccesses]
  cases cli.kind i with
  | carriageReturn =>
      simp only [List.forall_mem_cons, EchoKind.echoed, forall_const, Nat.add_zero, hwlen, and_true]
      apply and_iff_left
      split
      · exact historyAccesses_lt { cli with cmd := cli.cmd.set cli.cmdLen 0 }
      · exact List.forall_mem_nil _
  | rubout =>
      simp only [EchoKind.echoed, reduceCtorEq, false_implies, true_and]
      split
      · simp [hwlen]
      · rw [forall_span]
        constructor
        · intro hall
          exact hall 2 (by decide)
        · intro hle j hj
          omega
  | historyUp =>
      simp only [EchoKind.echoed, reduceCtorEq, false_implies, true_and, Nat.add_zero, hwlen,
        iff_true]
      split
      · exact List.forall_mem_nil _
      · exact forall_span_zero cli
  | historyDown =>
      simp only [EchoKind.echoed, reduceCtorEq, false_implies, true_and, Nat.add_zero, hwlen,
        iff_true]
      exact forall_span_zero cli
  | ignored => simp [EchoKind.echoed, hwlen]
  | printable =>
      simp only [List.forall_mem_cons, EchoKind.echoed, reduceCtorEq, false_implies, true_and, hi]
      apply and_iff_left
      split
      · rename_i hlt
        rw [List.forall_mem_singleton]
        exact hlt
      · exact List.forall_mem_nil _

end Accesses

section Room

variable {bufSize wlen i n : ℕ} {rbuf : List UInt8} {cli : CliService}

theorem room_nil : Room bufSize rbuf wlen i [] ↔ wlen ≤ bufSize := by
  constructor
  · exact fun h => h.echo
  · intro h
    exact ⟨h, fun _ hp => absurd hp List.not_mem_nil, fun j hj => absurd hj (Nat.not_lt_zero j)⟩

theorem room_cons {p : EchoKind × ℕ} {ks : List (EchoKind × ℕ)} :
    Room bufSize rbuf wlen i (p :: ks) ↔
      ¬ rbuf.drop i <+: [0x1B, 0x5B, 0x33] ∧ (p.1 = .carriageReturn → p.2 < bufSize) ∧
        Room bufSize rbuf (wlen + p.1.echoed p.2) (i + 1) ks := by
  constructor
  · intro h
    have hecho := h.echo
    rw [totalEchoed_cons, ← Nat.add_assoc] at hecho
    refine ⟨h.escape 0 (Nat.succ_pos _), h.line p List.mem_cons_self, hecho, fun q hq => ?_,
      fun j hj => ?_⟩
    · exact h.line q (List.mem_cons_of_mem p hq)
    · rw [Nat.add_right_comm]
      exact h.escape (j + 1) (Nat.succ_lt_succ hj)
  · rintro ⟨hescape, hline, h⟩
    refine ⟨?_, fun q hq => ?_, fun j hj => ?_⟩
    · rw [totalEchoed_cons, ← Nat.add_assoc]
      exact h.echo
    · rcases List.mem_cons.1 hq with rfl | hmem
      · exact hline
      · exact h.line q hmem
    · cases j with
      | zero => exact hescape
      | succ j =>
          have := h.escape j (Nat.lt_of_succ_lt_succ hj)
          rwa [Nat.add_right_comm] at this

theorem Room.wlen_le {ks : List (EchoKind × ℕ)} (h : Room bufSize rbuf wlen i ks) :
    wlen ≤ bufSize := (Nat.le_add_right _ _).trans h.echo

theorem Alike.handledFrom {cli' : CliService} (h : Alike cli cli') (i n : ℕ) :
    cli'.handledFrom i n = handled cli.bufSize cli'.cmdLen ((List.range' i n).map cli.kind) := by
  rw [CliService.handledFrom, h.kind, h.bufSize]

/-- A byte that the loop goes on after. -/
def Goes (cli : CliService) (i : ℕ) : Prop :=
  ∃ cli', cli.echoByte i = (cli', .next) ∧
    (cli.kind i).lineAfter cli.bufSize cli.cmdLen = some cli'.cmdLen ∧
    cli'.wlen = cli.wlen + (cli.kind i).echoed cli.cmdLen

/-- A byte that the loop is left on. -/
def Leaves (cli : CliService) (i : ℕ) : Prop :=
  ∃ cli', cli.echoByte i = (cli', .leave) ∧
    (cli.kind i).lineAfter cli.bufSize cli.cmdLen = none ∧
    (cli.kind i).echoed cli.cmdLen = 0 ∧ cli'.wlen ≤ cli.bufSize

theorem goes_of_rubout (hk : cli.kind i = .rubout) (hlen : cli.cmdLen ≠ 0) : cli.Goes i := by
  refine ⟨{ ((cli.echo 0x08).echo 0x20).echo 0x08 with cmdLen := cli.cmdLen - 1 }, ?_, ?_, ?_⟩
  · rw [echoByte, hk]
    exact if_neg hlen
  · rw [hk]
    exact if_neg hlen
  · rw [hk, EchoKind.echoed, if_neg hlen]
    rfl

/-- A rubout of an empty line. -/
theorem echoByte_of_empty (hk : cli.kind i = .rubout) (hlen : cli.cmdLen = 0) :
    cli.echoByte i = (cli, .leave) := by
  rw [echoByte, hk]
  exact if_pos hlen

theorem leaves_of_historyUp (h : cli.Sized) (hwlen : cli.wlen ≤ cli.bufSize)
    (hk : cli.kind i = .historyUp) : cli.Leaves i := by
  have hlast := h.up.strlen_prev (le_of_lt h.up.pos)
  have hsize : cli.up.bufSize = cli.bufSize := by rw [up_eq]
  by_cases hempty : strlen cli.up.getLastCommand = 0
  · refine ⟨{ cli.up with historyPos := cli.up.historyPos - 1 }, ?_, by rw [hk]; rfl,
      by rw [hk]; rfl, ?_⟩
    · rw [echoByte, hk]
      exact if_pos hempty
    · rw [up_eq]
      exact hwlen
  · refine ⟨cli.up.recallCommand cli.up.getLastCommand, ?_, by rw [hk]; rfl, by rw [hk]; rfl, ?_⟩
    · rw [echoByte, hk]
      exact if_neg hempty
    · rw [← hsize]
      exact hlast.trans (Nat.sub_le ..)

theorem leaves_of_historyDown (h : cli.Sized) (hk : cli.kind i = .historyDown) : cli.Leaves i := by
  have hpos : cli.historyPos - 1 ≤ cli.historySize := (Nat.sub_le ..).trans (le_of_lt h.pos)
  refine ⟨cli.historyDown.1, ?_, by rw [hk]; rfl, by rw [hk]; rfl, ?_⟩
  · rw [echoByte, hk]
    rfl
  · exact (h.strlen_prev hpos).trans (Nat.sub_le ..)

theorem goes_of_printable (h : cli.Sized) (hk : cli.kind i = .printable) : cli.Goes i := by
  have hline : (cli.kind i).lineAfter cli.bufSize cli.cmdLen =
      some (min (cli.cmdLen + 1) cli.bufSize) := by
    rw [hk]
    rfl
  by_cases hlt : cli.cmdLen < cli.bufSize
  · refine ⟨{ cli.echo (cli.rbuf.getD i 0) with
      cmd := cli.cmd.set cli.cmdLen (cli.rbuf.getD i 0), cmdLen := cli.cmdLen + 1 }, ?_, ?_, ?_⟩
    · rw [echoByte, hk]
      exact if_pos hlt
    · rw [hline, min_eq_left hlt]
    · rw [hk]
      rfl
  · refine ⟨cli.echo (cli.rbuf.getD i 0), ?_, ?_, ?_⟩
    · rw [echoByte, hk]
      exact if_neg hlt
    · have hfull := h.cmdLen
      rw [hline, min_eq_right (by omega)]
      exact congrArg some (le_antisymm (Nat.le_of_not_lt hlt) hfull)
    · rw [hk]
      rfl

/-- A line that does not fill `cmd` is terminated in it. -/
theorem Sized.zero_mem_carriageReturn (h : cli.Sized) (hlt : cli.cmdLen < cli.bufSize) :
    0 ∈ cli.carriageReturn.cmd.take cli.carriageReturn.bufSize := by
  obtain ⟨prev, hprev, -⟩ := h.carriageReturn_spec
  have hcmd : cli.cmdLen < cli.cmd.length := by
    rw [h.cmd]
    exact hlt
  rw [hprev, List.mem_take_iff_getElem]
  refine ⟨cli.cmdLen, ?_, List.getElem_set_self _⟩
  rw [List.length_set]
  exact lt_min hlt hcmd

theorem Sized.alike_carriageReturn (h : cli.Sized) : Alike cli cli.carriageReturn := by
  obtain ⟨prev, hprev, -⟩ := h.carriageReturn_spec
  rw [hprev]
  exact ⟨rfl, rfl, rfl⟩

theorem Sized.wlen_carriageReturn (h : cli.Sized) : cli.carriageReturn.wlen = cli.wlen := by
  obtain ⟨prev, hprev, -⟩ := h.carriageReturn_spec
  rw [hprev]

/-- What a byte does to the line, to `wbuf` and to the rest of the read. -/
theorem Sized.echoByte_cases (h : cli.Sized) (hwlen : cli.wlen ≤ cli.bufSize) (i : ℕ) :
    cli.kind i = .carriageReturn ∨ cli.Goes i ∨ cli.Leaves i := by
  cases hk : cli.kind i with
  | carriageReturn => exact Or.inl rfl
  | rubout =>
      by_cases hlen : cli.cmdLen = 0
      · refine Or.inr (Or.inr ⟨cli, echoByte_of_empty hk hlen, ?_, ?_, hwlen⟩)
        · rw [hk]
          exact if_pos hlen
        · rw [hk]
          exact if_pos hlen
      · exact Or.inr (Or.inl (goes_of_rubout hk hlen))
  | historyUp => exact Or.inr (Or.inr (leaves_of_historyUp h hwlen hk))
  | historyDown => exact Or.inr (Or.inr (leaves_of_historyDown h hk))
  | ignored =>
      refine Or.inr (Or.inr ⟨cli, ?_, by rw [hk]; rfl, by rw [hk]; rfl, hwlen⟩)
      rw [CliService.echoByte, hk]
  | printable => exact Or.inr (Or.inl (goes_of_printable h hk))

/-- The loop stays inside the buffers exactly where its bytes fit. -/
theorem Sized.loopInBounds_iff (h : cli.Sized) {execute : List UInt8 → List UInt8}
    (hexecute : ∀ cmd, (execute cmd).length = cmd.length) (hrlen : cli.rlen ≤ cli.bufSize)
    (hn : i + n = cli.rlen) :
    cli.LoopInBounds execute i n ↔ Room cli.bufSize cli.rbuf cli.wlen i (cli.handledFrom i n) := by
  induction n generalizing cli i with
  | zero => exact room_nil.symm
  | succ n ih =>
      have hi : i < cli.rlen := by omega
      have hnext : i + 1 + n = cli.rlen := by omega
      -- the rest of the read, from the state after this byte
      have hrest : ∀ cli' : CliService, cli'.Sized → Alike cli cli' →
          (cli'.LoopInBounds execute (i + 1) n ↔ Room cli.bufSize cli.rbuf cli'.wlen (i + 1)
            (handled cli.bufSize cli'.cmdLen ((List.range' (i + 1) n).map cli.kind))) := by
        intro cli' hsized halike
        rw [ih hsized (by rw [halike.rlen, halike.bufSize]; exact hrlen)
          (by rw [halike.rlen]; exact hnext), halike.handledFrom, halike.bufSize, halike.rbuf]
      rw [LoopInBounds, CliService.handledFrom, List.range'_succ, List.map_cons, handled_cons,
        room_cons, accesses, List.forall_mem_append, forall_testAccesses_iff h hrlen hi]
      by_cases hwlen : cli.wlen ≤ cli.bufSize
      · rw [forall_branchAccesses_iff hwlen (hi.trans_le hrlen)]
        simp only [hwlen, true_and, and_assoc]
        refine and_congr_right fun _ => and_congr_right fun hline => ?_
        have hsized := h.echoByte i
        have halike := h.alike_echoByte i
        rcases h.echoByte_cases hwlen i with hk | ⟨cli', hecho, hafter, hwlen'⟩ |
          ⟨cli', hecho, hafter, hechoed, hwlen'⟩
        · have hzero := h.zero_mem_carriageReturn (hline hk)
          have hrun := hrest _ (h.carriageReturn.executed hexecute)
            ((h.alike_carriageReturn).trans (alike_executed execute _))
          rw [executed_cmdLen, executed_wlen, h.wlen_carriageReturn] at hrun
          simp only [CliService.echoByte, hk, hzero, hrun, EchoKind.lineAfter, EchoKind.echoed,
            true_and, Nat.add_zero]
          exact and_iff_right hwlen
        · rw [hecho] at hsized halike ⊢
          simp only [hafter, hrest cli' hsized halike, hwlen']
          exact and_iff_right_of_imp Room.wlen_le
        · rw [hecho] at halike ⊢
          have hsize : cli'.bufSize = cli.bufSize := halike.bufSize
          simp only [hafter, hechoed, room_nil, hsize, hwlen', hwlen, Nat.add_zero, and_self]
      · have hecho : ¬ cli.wlen + (cli.kind i).echoed cli.cmdLen ≤ cli.bufSize :=
          fun hle => hwlen ((Nat.le_add_right _ _).trans hle)
        constructor
        · exact fun hloop => absurd hloop.1 hwlen
        · exact fun hroom => absurd hroom.2.2.wlen_le hecho

end Room

/-- A read stays inside the buffers exactly where its bytes fit. -/
theorem Sized.inBounds_iff {cli : CliService} (h : cli.Sized) {execute : List UInt8 → List UInt8}
    (hexecute : ∀ cmd, (execute cmd).length = cmd.length) (bytes : List UInt8) :
    cli.InBounds execute bytes ↔ cli.Fits bytes := by
  rw [InBounds, Fits]
  refine forall_congr' fun _ => forall_congr' fun hlen => ?_
  exact (h.received hlen).loopInBounds_iff hexecute hlen (Nat.zero_add _)

theorem Sized.along_inBounds {cli : CliService} (h : cli.Sized)
    {execute : List UInt8 → List UInt8} (hexecute : ∀ cmd, (execute cmd).length = cmd.length)
    (reads : List (List UInt8)) :
    Along (InBounds execute) (CliService.readStep execute) cli reads ↔
      Along Fits (CliService.readStep execute) cli reads := by
  have hkeep : ∀ cli bytes cli', Sized cli → Fits cli bytes →
      CliService.readStep execute cli bytes = some cli' → Sized cli' :=
    fun cli bytes cli' h _ hstep => h.readStep hexecute hstep
  apply along_congr hkeep
  · exact fun cli bytes h => h.inBounds_iff hexecute bytes
  · exact h

/-- The line editor stays inside its buffers along the reads whose bytes fit, and along no
others. -/
theorem along_inBounds_iff (bufSize : ℕ) {historySize : ℕ} (htwo : 2 ≤ historySize)
    {execute : List UInt8 → List UInt8} (hexecute : ∀ cmd, (execute cmd).length = cmd.length)
    (reads : List (List UInt8)) :
    Along (InBounds execute) (readStep execute) (cliServiceStart bufSize historySize) reads ↔
      Along Fits (readStep execute) (cliServiceStart bufSize historySize) reads :=
  (cliServiceStart_sized bufSize htwo).along_inBounds hexecute reads

/-- A line typed into a buffer of the size that the boards start with, changed, and ended. -/
theorem along_inBounds_edited :
    Along (InBounds id) (readStep id) (cliServiceStart 256 10)
      [[0x6C, 0x73, 0x78], [0x7F], [0x0D], [0x1B, 0x5B, 0x41]] := by
  have hexecute : ∀ cmd : List UInt8, (id cmd).length = cmd.length := fun _ => rfl
  rw [along_inBounds_iff 256 (by decide) hexecute]
  decide +kernel

/-- A read that erases the characters of the read in front of it leaves `wbuf`. In a small
editor, a carriage return behind a full line leaves `cmd`, and an escape at the end of
`rbuf` is compared with what is behind it. -/
theorem not_along_inBounds :
    ¬ Along (InBounds id) (readStep id) (cliServiceStart 256 10)
        [List.replicate 86 0x61, List.replicate 86 0x7F] ∧
      ¬ Along (InBounds id) (readStep id) (cliServiceStart 4 2)
        [[0x61, 0x61, 0x61, 0x61], [0x0D]] ∧
      ¬ Along (InBounds id) (readStep id) (cliServiceStart 4 2)
        [[0x61, 0x61, 0x61, 0x1B]] := by
  decide +kernel

end CliService

end Catpilot
