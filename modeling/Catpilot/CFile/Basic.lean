import Mathlib.Data.UInt

/-!
# Files and streams in C

What the modes of `fopen` ask for, and what a stream makes of reads and writes, over
files whose elements are of any type. A mode is a letter, which may be followed by a
plus sign and by a `b` in any order; the `b` changes nothing.
-/

namespace CFile

section Mode

/-- The letter of a mode. -/
inductive Base where
  | read
  | write
  | append
  deriving DecidableEq, Repr

/-- A mode; `update` is the plus sign. -/
structure Mode where
  base : Base
  update : Bool
  deriving DecidableEq, Repr

/-- `r`, `w` or `a`. -/
def Base.letter : Base → UInt8
  | .read => 0x72
  | .write => 0x77
  | .append => 0x61

/-- What a letter asks for. -/
def Base.ofLetter (c : UInt8) : Option Base := [.read, .write, .append].find? fun b => b.letter = c

/-- What follows the letter, and whether there is a plus sign in it. -/
def updateOf (s : List UInt8) : Option Bool :=
  if s = [] ∨ s = [0x62] then some false
  else if s = [0x2B] ∨ s = [0x2B, 0x62] ∨ s = [0x62, 0x2B] then some true
  else none

/-- The mode that a string stands for. -/
def Mode.ofString : List UInt8 → Option Mode
  | [] => none
  | c :: s => (Base.ofLetter c).bind fun base => (updateOf s).map fun update => ⟨base, update⟩

theorem Base.letter_of_ofLetter {c : UInt8} {b : Base} (h : ofLetter c = some b) :
    b.letter = c := by
  simpa using List.find?_some h

theorem of_updateOf_eq_false {s : List UInt8} (h : updateOf s = some false) :
    s = [] ∨ s = [0x62] := by
  rw [updateOf] at h
  split at h
  · assumption
  · split at h
    · cases h
    · cases h

theorem of_updateOf_eq_true {s : List UInt8} (h : updateOf s = some true) :
    s = [0x2B] ∨ s = [0x2B, 0x62] ∨ s = [0x62, 0x2B] := by
  rw [updateOf] at h
  split at h
  · cases h
  · split at h
    · assumption
    · cases h

/-- The strings that stand for a mode. -/
theorem Mode.ofString_eq_some {s : List UInt8} {m : Mode} (h : ofString s = some m) :
    ∃ rest, s = m.base.letter :: rest ∧ updateOf rest = some m.update := by
  cases s with
  | nil => cases h
  | cons c rest =>
      obtain ⟨base, hbase, hrest⟩ := Option.bind_eq_some_iff.1 h
      obtain ⟨update, hupdate, rfl⟩ := Option.map_eq_some_iff.1 hrest
      exact ⟨rest, by rw [Base.letter_of_ofLetter hbase], hupdate⟩

/-- Whether a stream of the mode can be read. -/
def Mode.readable (m : Mode) : Bool := m.base = .read || m.update

/-- Whether a stream of the mode can be written. -/
def Mode.writable (m : Mode) : Bool := m.base ≠ .read || m.update

end Mode

section Stream

variable {β : Type*}

/-- The contents of the file once it is open in the mode; `none` where a file is
missing. -/
def Mode.opened (m : Mode) (file : Option (List β)) : Option (List β) :=
  match m.base with
  | .read => file
  | .write => some []
  | .append => some (file.getD [])

/-- Where a stream of the mode begins: at the front of the file, or in append mode at the
end of it if the implementation prefers. -/
def Mode.StartsAt (m : Mode) (contents : List β) (pos : ℕ) : Prop :=
  pos = 0 ∨ m.base = .append ∧ pos = contents.length

/-- Contents with new ones written over them from a position on. -/
def overwrite (contents : List β) (pos : ℕ) (new : List β) : List β :=
  contents.take pos ++ new ++ contents.drop (pos + new.length)

theorem length_overwrite {contents : List β} {pos : ℕ} (h : pos ≤ contents.length)
    (new : List β) : pos + new.length ≤ (overwrite contents pos new).length := by
  simp [overwrite, h]

/-- Writing takes nothing away. -/
theorem le_length_overwrite (contents : List β) (pos : ℕ) (new : List β) :
    contents.length ≤ (overwrite contents pos new).length := by
  simp only [overwrite, List.length_append, List.length_take, List.length_drop]
  omega

theorem overwrite_length (contents new : List β) :
    overwrite contents contents.length new = contents ++ new := by
  simp [overwrite]

/-- A stream, with the contents of its file. -/
structure Stream (β : Type*) where
  mode : Mode
  contents : List β
  pos : ℕ

/-- A read or a write. -/
inductive Op (β : Type*) where
  | read (count : ℕ)
  | write (new : List β)

namespace Stream

/-- Where a write goes to: in append mode always to the end. -/
def writePos (s : Stream β) : ℕ := if s.mode.base = .append then s.contents.length else s.pos

/-- What an operation makes of the stream, and what it reads. Where the mode does not
allow it nothing happens. -/
def play (s : Stream β) : Op β → Stream β × List β
  | .read count =>
      if s.mode.readable then
        let got := (s.contents.drop s.pos).take count
        ({ s with pos := s.pos + got.length }, got)
      else (s, [])
  | .write new =>
      if s.mode.writable then
        ({ s with
          contents := overwrite s.contents s.writePos new
          pos := s.writePos + new.length }, [])
      else (s, [])

/-- The operations one after the other. -/
def playAll (s : Stream β) : List (Op β) → Stream β × List (List β)
  | [] => (s, [])
  | op :: ops =>
      let (s', got) := s.play op
      let (s'', rest) := s'.playAll ops
      (s'', got :: rest)

theorem length_le_play (s : Stream β) (op : Op β) :
    s.contents.length ≤ (s.play op).1.contents.length := by
  cases op with
  | read count =>
      rw [play]
      split
      · exact le_rfl
      · exact le_rfl
  | write new =>
      rw [play]
      split
      · exact le_length_overwrite ..
      · exact le_rfl

theorem length_le_playAll (s : Stream β) (ops : List (Op β)) :
    s.contents.length ≤ (s.playAll ops).1.contents.length := by
  induction ops generalizing s with
  | nil => exact le_rfl
  | cons op ops ih => exact (s.length_le_play op).trans (ih _)

/-- The position is in the file, and in append mode it is at the end. -/
structure Placed (s : Stream β) : Prop where
  le : s.pos ≤ s.contents.length
  append : s.mode.base = .append → s.pos = s.contents.length

theorem Placed.writePos_eq {s : Stream β} (h : s.Placed) : s.writePos = s.pos := by
  rw [writePos]
  split
  · rename_i happend
    exact (h.append happend).symm
  · rfl

theorem Placed.play {s : Stream β} (h : s.Placed) (op : Op β) : (s.play op).1.Placed := by
  cases op with
  | read count =>
      rw [Stream.play]
      split
      · constructor
        · simp only [List.length_take, List.length_drop]
          have := h.le
          omega
        · intro happend
          have hpos : s.pos = s.contents.length := h.append happend
          simp [hpos]
      · exact h
  | write new =>
      rw [Stream.play]
      split
      · rw [h.writePos_eq]
        constructor
        · exact length_overwrite h.le new
        · intro happend
          simp [h.append happend, overwrite_length]
      · exact h

end Stream

/-- A position at which a stream of the mode may begin. -/
def Mode.start (m : Mode) (contents : List β) : ℕ :=
  if m.base = .append then contents.length else 0

theorem Mode.startsAt_start (m : Mode) (contents : List β) :
    m.StartsAt contents (m.start contents) := by
  rw [start]
  split
  · rename_i happend
    exact Or.inr ⟨happend, rfl⟩
  · exact Or.inl rfl

theorem Mode.placed_start (m : Mode) (contents : List β) :
    Stream.Placed ⟨m, contents, m.start contents⟩ := by
  constructor
  · simp only [start]
    split
    · exact le_rfl
    · exact Nat.zero_le _
  · exact fun happend => if_pos happend

end Stream

end CFile
