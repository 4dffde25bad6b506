import Catpilot.CString.Words
import Catpilot.Vfs.Node

/-!
# Paths

The components of a path are its non-empty parts between slashes. They are what
`node_get_token` gives, one after the other, for a path that starts with a slash.
-/

namespace Catpilot

open CString

/-- The path starts with a slash. -/
def Absolute (path : List UInt8) : Prop := (cstr path).head? = some slash

/-- The non-empty parts of a string between slashes. -/
def splitPath (s : List UInt8) : List (List UInt8) := (s.splitOn slash).filter (· ≠ [])

/-- A path behind its first component. -/
def skipComponent (s : List UInt8) : List UInt8 :=
  (s.dropWhile (· = slash)).dropWhile (· ≠ slash)

/-- The components of a path. -/
def components (path : List UInt8) : List (List UInt8) := splitPath (cstr path)

theorem splitPath_nil : splitPath [] = [] := rfl

theorem splitPath_slash (s : List UInt8) : splitPath (slash :: s) = splitPath s :=
  words_sep slash s

theorem splitPath_token {token : List UInt8} (hne : token ≠ []) (hslash : slash ∉ token) :
    splitPath token = [token] := words_word hne hslash

theorem splitPath_token_slash {token : List UInt8} (hne : token ≠ []) (hslash : slash ∉ token)
    (s : List UInt8) : splitPath (token ++ slash :: s) = token :: splitPath s :=
  words_word_sep hne hslash s

/-- Leading slashes separate nothing. -/
theorem splitPath_dropWhile (s : List UInt8) :
    splitPath (s.dropWhile (· = slash)) = splitPath s := words_dropWhile s

/-- What a token and the rest of the path are. -/
theorem nodeGetToken_eq_some {start token rest : List UInt8}
    (h : nodeGetToken start = some (token, rest)) :
    token ≠ [] ∧ slash ∉ token ∧ rest = skipComponent start ∧
      start.dropWhile (· = slash) = token ++ rest := by
  rw [nodeGetToken] at h
  split at h
  · simp only at h
    split at h
    · cases h
    · rename_i hne
      cases h
      exact ⟨hne, not_mem_takeWhile_ne slash _, rfl, List.takeWhile_append_dropWhile.symm⟩
  · cases h

/-- A token and the rest of the path split the path. -/
theorem splitPath_of_nodeGetToken {start token rest : List UInt8}
    (h : nodeGetToken start = some (token, rest)) :
    splitPath start = token :: splitPath rest ∧ rest.length < start.length ∧
      (rest = [] ∨ rest.head? = some slash) ∧ token ⊆ start ∧ rest ⊆ start := by
  obtain ⟨hne, hslash, hrest, hdrop⟩ := nodeGetToken_eq_some h
  have hsublist : (token ++ rest).Sublist start := hdrop ▸ List.dropWhile_sublist (· = slash)
  have hcut : rest = [] ∨ ∃ r, rest = slash :: r := hrest ▸ dropWhile_ne_eq slash _
  refine ⟨?_, ?_, ?_, ?_, ?_⟩
  · rw [← splitPath_dropWhile start, hdrop]
    rcases hcut with hr | ⟨r, hr⟩
    · rw [hr, List.append_nil, splitPath_nil, splitPath_token hne hslash]
    · rw [hr, splitPath_slash, splitPath_token_slash hne hslash]
  · have hlen := hsublist.length_le
    have hpos := List.length_pos_iff.2 hne
    rw [List.length_append] at hlen
    omega
  · rcases hcut with hr | ⟨r, hr⟩
    · exact Or.inl hr
    · exact Or.inr (by rw [hr]; rfl)
  · exact fun c hc => hsublist.subset (List.mem_append_left _ hc)
  · exact fun c hc => hsublist.subset (List.mem_append_right _ hc)

/-- Where no token is left, no component is. -/
theorem splitPath_of_nodeGetToken_none {start : List UInt8} (hhead : start.head? = some slash)
    (h : nodeGetToken start = none) : splitPath start = [] := by
  rw [nodeGetToken, if_pos hhead] at h
  simp only at h
  split at h
  · rename_i htoken
    have happ := List.takeWhile_append_dropWhile (p := (· ≠ slash))
      (l := start.dropWhile (· = slash))
    rw [htoken, List.nil_append] at happ
    rw [← splitPath_dropWhile]
    rcases dropWhile_ne_eq slash (start.dropWhile (· = slash)) with hr | ⟨r, hr⟩
    · rw [← happ, hr, splitPath_nil]
    · rw [happ] at hr
      exact absurd (by rw [hr]; rfl) (head?_dropWhile_sep slash start)
  · cases h

/-- The tokens of a path that starts with a slash are its components. -/
theorem nodeTokensLoop_eq {fuel : ℕ} {start : List UInt8} (hfuel : start.length ≤ fuel)
    (hstart : start = [] ∨ start.head? = some slash) :
    nodeTokensLoop fuel start = splitPath start := by
  induction fuel generalizing start with
  | zero =>
      rw [List.length_eq_zero_iff.1 (Nat.le_zero.1 hfuel)]
      rfl
  | succ fuel ih =>
      rw [nodeTokensLoop]
      cases htoken : nodeGetToken start with
      | none =>
          rcases hstart with rfl | hhead
          · rfl
          · exact (splitPath_of_nodeGetToken_none hhead htoken).symm
      | some token =>
          obtain ⟨hsplit, hlt, hrest, -⟩ := splitPath_of_nodeGetToken htoken
          simp only
          rw [hsplit, ih (by omega) hrest]

/-- `node_get_token` gives the components of an absolute path. -/
theorem nodeTokens_eq {path : List UInt8} (habs : Absolute path) :
    nodeTokens path = components path :=
  nodeTokensLoop_eq (Nat.le_refl _) (Or.inr habs)

theorem nodeTokensLoop_subset {fuel : ℕ} {start token : List UInt8}
    (h : token ∈ nodeTokensLoop fuel start) : token ⊆ start := by
  induction fuel generalizing start with
  | zero => exact absurd h List.not_mem_nil
  | succ fuel ih =>
      rw [nodeTokensLoop] at h
      cases hget : nodeGetToken start with
      | none =>
          rw [hget] at h
          exact absurd h List.not_mem_nil
      | some next =>
          rw [hget] at h
          obtain ⟨-, -, -, htoken, hrest⟩ := splitPath_of_nodeGetToken hget
          rcases List.mem_cons.1 h with rfl | hmem
          · exact htoken
          · exact fun c hc => hrest (ih hmem hc)

/-- The tokens of a path have no zero byte. -/
theorem not_mem_nodeTokens {path token : List UInt8} (h : token ∈ nodeTokens path) :
    0 ∉ token :=
  fun h0 => not_mem_cstr path (nodeTokensLoop_subset h h0)

end Catpilot
