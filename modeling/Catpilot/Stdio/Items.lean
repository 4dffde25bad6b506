import Catpilot.Stdio.Access

/-!
# Items and bytes

`fread` and `fwrite` count in items of `size` bytes, and `read` and `write` in bytes. The
byte count of the driver is returned as it is, and -1 where the stream is a null pointer or
fails the test of its flags.
-/

namespace Catpilot

namespace Stdio

section Items

variable {δ P α : Type*} {w : Stdio δ P} {member : FileOperations δ P → Option α}
  {answer : α → δ → File P → Option (Answer δ P × List UInt8)} {call : ℕ → ℕ → DriverCall}
  {stream : Option ℕ} {i : ℕ} {size nmemb access : UInt32}

/-- The flags of the stream `i` pass the test for `access`. -/
def Passes (w : Stdio δ P) (access : UInt32) (i : ℕ) : Prop :=
  (w.stream i).flags &&& oRdwr ≠ 0 ∨ (w.stream i).flags &&& access ≠ 0

/-- What the driver of the stream `i` answers: a byte count, or a negative number, which it
is too where the driver lacks the operation. -/
def driverRv (w : Stdio δ P) (member : FileOperations δ P → Option α)
    (answer : α → δ → File P → Option (Answer δ P × List UInt8)) (i : ℕ) : ℤ :=
  ((w.ioAnswer member answer i).map fun a => a.1.rv).getD (-1)

/-- The drivers of streams in use answer: with a byte count up to the request, or with an
error. -/
structure Answers (w : Stdio δ P) (member : FileOperations δ P → Option α)
    (answer : α → δ → File P → Option (Answer δ P × List UInt8)) (request : ℕ) : Prop where
  node : ∀ i, w.files i = some i → (w.stream i).node ≠ none
  answers : ∀ i n op, (w.stream i).node = some n → w.operation member n = some op →
    answer op w.driver (w.stream i) ≠ none
  le : ∀ i, w.driverRv member answer i ≤ request

instance (w : Stdio δ P) (access : UInt32) (i : ℕ) : Decidable (w.Passes access i) :=
  inferInstanceAs (Decidable ((w.stream i).flags &&& oRdwr ≠ 0 ∨ (w.stream i).flags &&& access ≠ 0))

/-- The bytes that are transferred: those of the driver, if it is asked. -/
def transferred (w : Stdio δ P) (access : UInt32)
    (member : FileOperations δ P → Option α)
    (answer : α → δ → File P → Option (Answer δ P × List UInt8)) (stream : Option ℕ) : ℕ :=
  match stream with
  | none => 0
  | some i =>
      if w.files i = some i ∧ w.Passes access i then (w.driverRv member answer i).toNat else 0

/-- The result is the number of complete items in so many bytes, and not more than
`nmemb`. -/
def ReturnsItems (size nmemb : UInt32) (bytes : ℕ)
    (result : Option (Stdio δ P × UInt32 × List UInt8)) : Prop :=
  ∃ w' count buf, result = some (w', count, buf) ∧ count.toNat = bytes / size.toNat ∧
    count ≤ nmemb

/-- The stream is there, and if it is in use its flags pass and the driver transfers nothing
or the items are bytes. -/
def ItemsAreBytes (w : Stdio δ P) (access size : UInt32) (member : FileOperations δ P → Option α)
    (answer : α → δ → File P → Option (Answer δ P × List UInt8)) (stream : Option ℕ) : Prop :=
  ∃ i ∈ stream, w.files i = some i →
    w.Passes access i ∧ (w.driverRv member answer i ≤ 0 ∨ size = 1)

/-- The result -1 is never a number of items. -/
theorem not_returnsItems_neg (w' : Stdio δ P) (buf : List UInt8) :
    ¬ ReturnsItems size nmemb 0 (some (w', -1, buf)) := by
  rintro ⟨t, count, buf', h, hcount, -⟩
  cases h
  rw [Nat.zero_div] at hcount
  exact absurd hcount (by decide)

theorem returnsItems_zero (w' : Stdio δ P) (buf : List UInt8) :
    ReturnsItems size nmemb 0 (some (w', 0, buf)) :=
  ⟨w', 0, buf, rfl, by rw [Nat.zero_div]; rfl, UInt32.zero_le⟩

/-- A byte count as the number of items. -/
theorem returnsItems_bytes {rv : ℤ} (hpos : 0 ≤ rv) (hle : rv ≤ (size * nmemb).toNat)
    (w' : Stdio δ P) (buf : List UInt8) :
    ReturnsItems size nmemb rv.toNat (some (w', UInt32.ofNat rv.toNat, buf)) ↔
      rv ≤ 0 ∨ size = 1 := by
  have hlt : rv.toNat < 2 ^ 32 := by
    have h := (size * nmemb).toNat_lt
    omega
  have hcount : (UInt32.ofNat rv.toNat).toNat = rv.toNat := UInt32.toNat_ofNat_of_lt' hlt
  constructor
  · rintro ⟨t, count, buf', h, hitems, -⟩
    cases h
    rw [hcount] at hitems
    by_contra hnot
    obtain ⟨hsome, hsize⟩ := not_or.1 hnot
    have hne : size.toNat ≠ 1 := fun hone => hsize (UInt32.toNat_inj.1 hone)
    have hrv : 0 < rv.toNat := by omega
    have hzero : size.toNat ≠ 0 := by
      intro hz
      rw [hz, Nat.div_zero] at hitems
      omega
    have hdiv : rv.toNat / size.toNat < rv.toNat := Nat.div_lt_self hrv (by omega)
    omega
  · rintro (hzero | rfl)
    · rw [show rv.toNat = 0 by omega]
      exact returnsItems_zero w' buf
    · refine ⟨w', _, buf, rfl, by rw [hcount]; exact (Nat.div_one _).symm, ?_⟩
      rw [UInt32.le_iff_toNat_le, hcount]
      rw [UInt32.one_mul] at hle
      omega

/-- `fread` and `fwrite` on a stream in use. -/
theorem TableOk.streamIo_inUse (h : w.TableOk) (hopen : w.files i = some i) (access : UInt32)
    (io : Stdio δ P → ℤ → Option (Stdio δ P × ℤ × List UInt8)) :
    w.streamIo (some i) access io =
      if w.Passes access i then
        (io w i).map fun r => (r.1, if r.2.1 < 0 then 0 else UInt32.ofNat r.2.1.toNat, r.2.2)
      else some ({ w with errno := .eacces }, -1, []) := by
  have hfd : ¬ (i : ℤ) < 0 := Int.not_lt.2 (Int.natCast_nonneg i)
  simp only [streamIo, h.fileno_eq hopen]
  rw [if_neg hfd]
  by_cases hpass : w.Passes access i
  · rw [if_pos hpass]
    exact if_neg (not_not.2 hpass)
  · rw [if_neg hpass]
    exact if_pos hpass

/-- The call of the driver, and the byte count that comes back. -/
theorem returnsItems_fdCall (hlt : i < maxFiles) (hopen : w.files i = some i)
    (ha : w.Answers member answer (size * nmemb).toNat) :
    ReturnsItems size nmemb (w.driverRv member answer i).toNat
        ((w.fdCall i member answer call).map fun r =>
          (r.1, if r.2.1 < 0 then 0 else UInt32.ofNat r.2.1.toNat, r.2.2)) ↔
      w.driverRv member answer i ≤ 0 ∨ size = 1 := by
  obtain ⟨n, hnode⟩ := Option.ne_none_iff_exists'.1 (ha.node i hopen)
  have hle := ha.le i
  cases hop : w.operation member n with
  | none =>
      have hrv : w.driverRv member answer i = -1 := by
        simp [driverRv, ioAnswer, hnode, hop]
      rw [fdCall_of_none hlt hopen hnode hop, hrv]
      exact iff_of_true (returnsItems_zero _ _) (Or.inl (by decide))
  | some op =>
      obtain ⟨a, hanswer⟩ := Option.ne_none_iff_exists'.1 (ha.answers i n op hnode hop)
      have hrv : w.driverRv member answer i = a.1.rv := by
        simp [driverRv, ioAnswer, hnode, hop, hanswer]
      rw [hrv] at hle
      rw [fdCall_of_some hlt hopen hnode hop, hanswer, hrv, Option.map_some, Option.map_some]
      by_cases hneg : a.1.rv < 0
      · rw [if_pos hneg, Int.toNat_of_nonpos hneg.le]
        exact iff_of_true (returnsItems_zero _ _) (Or.inl hneg.le)
      · rw [if_neg hneg]
        exact returnsItems_bytes (Int.not_lt.1 hneg) hle _ _

/-- What is returned is the number of items exactly if bytes are items. -/
theorem TableOk.returnsItems_streamIo_iff (h : w.TableOk) (access : UInt32)
    (stream : Option ℕ) (ha : w.Answers member answer (size * nmemb).toNat) :
    ReturnsItems size nmemb (w.transferred access member answer stream)
        (w.streamIo stream access fun w fd => w.fdCall fd member answer call) ↔
      w.ItemsAreBytes access size member answer stream := by
  cases stream with
  | none => exact iff_of_false (not_returnsItems_neg _ _) fun ⟨i, hi, _⟩ => by cases hi
  | some i =>
      have hbytes : w.ItemsAreBytes access size member answer (some i) ↔
          (w.files i = some i →
            w.Passes access i ∧ (w.driverRv member answer i ≤ 0 ∨ size = 1)) := by
        simp [ItemsAreBytes]
      rw [hbytes, transferred]
      by_cases hopen : w.files i = some i
      · rw [h.streamIo_inUse hopen, forall_prop_of_true hopen]
        by_cases hpass : w.Passes access i
        · rw [if_pos ⟨hopen, hpass⟩, if_pos hpass, and_iff_right hpass]
          exact returnsItems_fdCall (h i i hopen).2 hopen ha
        · rw [if_neg fun hand => hpass hand.2, if_neg hpass]
          exact iff_of_false (not_returnsItems_neg _ _) fun hand => hpass hand.1
      · rw [if_neg fun hand => hopen hand.1, h.streamIo_closed access _ hopen]
        exact iff_of_true (returnsItems_zero _ _) fun hi => absurd hi hopen

end Items

section Calls

variable {δ P : Type*} {w : Stdio δ P}

/-- The operation of `read`, and of `write` with the bytes in its buffer. -/
def readAnswer (request : ℕ) (op : δ → File P → ℕ → Option (Answer δ P × List UInt8))
    (driver : δ) (file : File P) : Option (Answer δ P × List UInt8) :=
  op driver file request

def writeAnswer (buf : List UInt8) (op : δ → File P → List UInt8 → Option (Answer δ P))
    (driver : δ) (file : File P) : Option (Answer δ P × List UInt8) :=
  (op driver file buf).map fun a => (a, [])

/-- `fread` and `fwrite` return the number of complete items exactly if the stream is there,
its flags pass, and nothing is transferred or the items are single bytes. -/
theorem TableOk.items_iff (h : w.TableOk) (size nmemb : UInt32) (stream : Option ℕ)
    (ptr : ℕ → UInt8)
    (hread : w.Answers FileOperations.readOp (readAnswer (size * nmemb).toNat)
      (size * nmemb).toNat)
    (hwrite : w.Answers FileOperations.writeOp (writeAnswer (bytesAt ptr (size * nmemb)))
      (size * nmemb).toNat) :
    (ReturnsItems size nmemb
        (w.transferred oRdonly FileOperations.readOp (readAnswer (size * nmemb).toNat) stream)
        (w.fread size nmemb stream) ↔
      w.ItemsAreBytes oRdonly size FileOperations.readOp (readAnswer (size * nmemb).toNat)
        stream) ∧
      (ReturnsItems size nmemb
        (w.transferred oWronly FileOperations.writeOp
          (writeAnswer (bytesAt ptr (size * nmemb))) stream)
        (w.fwrite ptr size nmemb stream) ↔
      w.ItemsAreBytes oWronly size FileOperations.writeOp
        (writeAnswer (bytesAt ptr (size * nmemb))) stream) :=
  ⟨h.returnsItems_streamIo_iff oRdonly stream hread,
    h.returnsItems_streamIo_iff oWronly stream hwrite⟩

end Calls

section Dev

/-- A driver that transfers all it is asked for. -/
def transfersAll : FileOperations Unit Unit where
  openOp := some fun _ file _ => ⟨0, .ok, file, ()⟩
  writeOp := some fun _ file buf => some ⟨buf.length, .ok, file, ()⟩
  readOp := some fun _ file count => some (⟨count, .ok, file, ()⟩, List.replicate count 0)
  closeOp := some fun _ file => some ⟨0, .ok, file, ()⟩
  mkdirOp := none
  rmdirOp := none

/-- It is mounted at `/dev`, and open for reading and writing as descriptor 0. -/
def devOpen : Stdio Unit Unit where
  errno := .ok
  files := fun fd => if fd = 0 then some 0 else none
  stream := fun _ => ⟨oRdwr, some 1, ()⟩
  tree := ((NodeTree.init _).nodeMount 1 (some [0x2F, 0x64, 0x65, 0x76]) (some transfersAll)).tree
  driver := ()
  calls := []

theorem devOpen_tableOk : devOpen.TableOk := by
  intro fd i hi
  by_cases hfd : fd = 0
  · subst hfd
    cases hi
    exact ⟨rfl, by decide⟩
  · rw [show devOpen.files fd = none from if_neg hfd] at hi
    cases hi

theorem devOpen_reads (count : ℕ) :
    devOpen.Answers FileOperations.readOp (readAnswer count) count where
  node := fun _ _ => Option.some_ne_none 1
  answers := by
    intro i n op hn hop
    cases hn
    cases hop
    exact Option.some_ne_none _
  le := fun _ => le_refl (count : ℤ)

theorem devOpen_writes (buf : List UInt8) :
    devOpen.Answers FileOperations.writeOp (writeAnswer buf) buf.length where
  node := fun _ _ => Option.some_ne_none 1
  answers := by
    intro i n op hn hop
    cases hn
    cases hop
    exact Option.some_ne_none _
  le := fun _ => le_refl (buf.length : ℤ)

/-- Three bytes are read and written. -/
theorem items_iff_threeBytes :
    (ReturnsItems 1 3 (devOpen.transferred oRdonly FileOperations.readOp (readAnswer 3) (some 0))
        (devOpen.fread 1 3 (some 0)) ↔
      devOpen.ItemsAreBytes oRdonly 1 FileOperations.readOp (readAnswer 3) (some 0)) ∧
      (ReturnsItems 1 3
        (devOpen.transferred oWronly FileOperations.writeOp (writeAnswer [0, 0, 0]) (some 0))
        (devOpen.fwrite (fun _ => 0) 1 3 (some 0)) ↔
      devOpen.ItemsAreBytes oWronly 1 FileOperations.writeOp (writeAnswer [0, 0, 0]) (some 0)) :=
  devOpen_tableOk.items_iff 1 3 (some 0) (fun _ => 0) (devOpen_reads 3) (devOpen_writes [0, 0, 0])

/-- Three items of two bytes are read, and 6 is returned. -/
theorem not_returnsItems_pairs : ¬ ∀ (δ P : Type) (w : Stdio δ P), w.TableOk →
    ∀ (size nmemb : UInt32) (stream : Option ℕ),
      w.Answers FileOperations.readOp (readAnswer (size * nmemb).toNat) (size * nmemb).toNat →
      ReturnsItems size nmemb
        (w.transferred oRdonly FileOperations.readOp (readAnswer (size * nmemb).toNat) stream)
        (w.fread size nmemb stream) := by
  intro hall
  obtain ⟨w', count, buf, hresult, -, hle⟩ :=
    hall Unit Unit devOpen devOpen_tableOk 2 3 (some 0) (devOpen_reads 6)
  have hcount : (devOpen.fread 2 3 (some 0)).map (fun r => r.2.1) = some 6 := by decide +kernel
  rw [hresult] at hcount
  obtain rfl : count = 6 := Option.some.inj hcount
  exact absurd hle (by decide)

end Dev

end Stdio

end Catpilot
