import Catpilot.CString.Basic

/-!
# Texts formatted into arrays

`sprintf` and `vsnprintf` store a text and a zero byte behind it. Here the text is what the
format gives, and an array that is too short for what is stored gives no result. Texts that
are stored one behind the other, each over the zero byte of the one before, leave one text.
-/

namespace CString

open Memory

/-- `sprintf` from `offset` on. -/
def sprintf (mem : List UInt8) (offset : ℕ) (text : List UInt8) : Option (List UInt8) :=
  if offset + text.length < mem.length then some (memcpy mem offset (text ++ [0])) else none

/-- `vsnprintf` from `offset` on, with room for `n` bytes. -/
def vsnprintf (mem : List UInt8) (offset n : ℕ) (text : List UInt8) : Option (List UInt8) :=
  if n = 0 then some mem else sprintf mem offset (text.take (n - 1))

variable {mem mem' text text' : List UInt8} {offset n : ℕ}

theorem sprintf_eq_some_iff : sprintf mem offset text = some mem' ↔
    offset + text.length < mem.length ∧ memcpy mem offset (text ++ [0]) = mem' := by
  rw [sprintf, Option.ite_none_right_eq_some, Option.some.injEq]

theorem length_sprintf (h : sprintf mem offset text = some mem') : mem'.length = mem.length := by
  obtain ⟨hlen, rfl⟩ := sprintf_eq_some_iff.1 h
  apply length_memcpy
  rw [List.length_append, List.length_singleton]
  omega

theorem length_vsnprintf (h : vsnprintf mem offset n text = some mem') :
    mem'.length = mem.length := by
  rw [vsnprintf] at h
  split_ifs at h with hzero
  · cases h
    rfl
  · exact length_sprintf h

/-- Where a text was stored there is a zero byte. -/
theorem zero_mem_sprintf (h : sprintf mem offset text = some mem') : 0 ∈ mem' := by
  obtain ⟨-, rfl⟩ := sprintf_eq_some_iff.1 h
  rw [memcpy]
  simp

/-- An array that starts with a text and its zero byte. -/
def Starts (mem text : List UInt8) : Prop := text ++ [0] <+: mem

/-- The string in such an array is the one in the text. -/
theorem Starts.cstr_eq (h : Starts mem text) : cstr mem = cstr text := by
  obtain ⟨rest, rfl⟩ := h
  rw [cstr_append_of_mem (List.mem_append_right _ (List.mem_singleton_self 0)), cstr_append_nul]

/-- A text stored at the start. -/
theorem starts_sprintf (h : sprintf mem 0 text = some mem') : Starts mem' text := by
  obtain ⟨-, rfl⟩ := sprintf_eq_some_iff.1 h
  rw [memcpy, List.take_zero, List.nil_append]
  exact List.prefix_append _ _

/-- A text stored over the zero byte of the one before. -/
theorem Starts.sprintf (hstarts : Starts mem text)
    (h : sprintf mem text.length text' = some mem') : Starts mem' (text ++ text') := by
  obtain ⟨-, rfl⟩ := sprintf_eq_some_iff.1 h
  obtain ⟨rest, rfl⟩ := hstarts
  rw [memcpy, List.append_assoc text [0] rest, List.take_left, Starts, List.append_assoc,
    List.append_assoc]
  exact ⟨_, List.append_assoc ..⟩

/-- A text has room behind another one when both of them and a zero byte have. -/
theorem exists_sprintf (h : offset + text.length < mem.length) :
    ∃ mem', sprintf mem offset text = some mem' :=
  ⟨_, sprintf_eq_some_iff.2 ⟨h, rfl⟩⟩

/-- A text that has room is stored as a whole. -/
theorem vsnprintf_of_lt (h : text.length < n) :
    vsnprintf mem offset n text = CString.sprintf mem offset text := by
  have hzero : ¬ n = 0 := by omega
  rw [vsnprintf, if_neg hzero, List.take_of_length_le (by omega)]

end CString
