import Mathlib.Data.List.Nodup
import Mathlib.Logic.Function.Basic

/-!
# Link tables

A table that says of each cell whether it is free, the last one of its chain, or which cell
comes after it. `Laid` says that the cells which are not free are exactly those of some
chains, each cell once. Taking a free cell, joining two chains, cutting a chain and freeing
its first cell are changes of one entry each, and keep the table laid out in chains.
-/

namespace LinkTable

/-- An entry of the table. -/
inductive Cell (α : Type*) where
  | free
  | stop
  | link (next : α)
  deriving DecidableEq, Repr

section

variable {α : Type*} {cell cell' : α → Cell α} {q : Cell α}

/-- The entry that leads to the cells `l`, and `q` when there are none. -/
def lead (q : Cell α) : List α → Cell α
  | [] => q
  | a :: _ => .link a

/-- Each of the cells leads to the next one, and the last one has the entry `q`. -/
def Path (cell : α → Cell α) (q : Cell α) : List α → Prop
  | [] => True
  | a :: l => cell a = lead q l ∧ Path cell q l

/-- The cells in use are those of the chains, each once. -/
structure Laid (cell : α → Cell α) (chains : List (List α)) : Prop where
  path : ∀ l ∈ chains, Path cell .stop l
  nodup : chains.flatten.Nodup
  mem_iff : ∀ a, a ∈ chains.flatten ↔ cell a ≠ .free

theorem lead_append (l m : List α) : lead q (l ++ m) = lead (lead q m) l := by
  cases l with
  | nil => rfl
  | cons a l => rfl

theorem path_append {l m : List α} :
    Path cell q (l ++ m) ↔ Path cell (lead q m) l ∧ Path cell q m := by
  induction l with
  | nil => exact (and_iff_right trivial).symm
  | cons a l ih =>
      rw [List.cons_append, Path, Path, ih, lead_append, and_assoc]

theorem Path.congr {l : List α} (h : Path cell q l) (hsame : ∀ a ∈ l, cell' a = cell a) :
    Path cell' q l := by
  induction l with
  | nil => trivial
  | cons a l ih =>
      refine ⟨?_, ih h.2 fun b hb => hsame b (List.mem_cons_of_mem a hb)⟩
      rw [hsame a List.mem_cons_self, h.1]

/-- A link of a path leads to one of its cells. -/
theorem Path.link_mem {l : List α} {a b : α} (h : Path cell .stop l) (ha : a ∈ l)
    (hb : cell a = .link b) : b ∈ l := by
  induction l with
  | nil => exact absurd ha List.not_mem_nil
  | cons c l ih =>
      obtain ⟨hc, hrest⟩ := h
      rcases List.mem_cons.1 ha with rfl | ha
      · cases l with
        | nil => exact absurd (hc.symm.trans hb) (by simp [lead])
        | cons d l =>
            obtain rfl : d = b := Cell.link.inj (hc.symm.trans hb)
            exact List.mem_cons_of_mem _ List.mem_cons_self
      · exact List.mem_cons_of_mem c (ih hrest ha)

/-- No link leads to a free cell. -/
theorem Laid.link_mem {cs : List (List α)} {a b : α} (h : Laid cell cs) (hb : cell a = .link b) :
    b ∈ cs.flatten := by
  have ha : a ∈ cs.flatten := by
    rw [h.mem_iff, hb]
    simp
  obtain ⟨l, hl, hal⟩ := List.mem_flatten.1 ha
  exact List.mem_flatten.2 ⟨l, hl, (h.path l hl).link_mem hal hb⟩

theorem Laid.perm {cs cs' : List (List α)} (h : Laid cell cs) (hp : cs.Perm cs') :
    Laid cell cs' where
  path l hl := h.path l (hp.mem_iff.2 hl)
  nodup := (hp.flatten.nodup_iff).1 h.nodup
  mem_iff a := by rw [← h.mem_iff a, hp.flatten.mem_iff]

/-- Chains without cells do not count. -/
theorem laid_nil_cons {cs : List (List α)} : Laid cell ([] :: cs) ↔ Laid cell cs := by
  constructor
  · intro h
    exact ⟨fun l hl => h.path l (List.mem_cons_of_mem _ hl), h.nodup, h.mem_iff⟩
  · intro h
    refine ⟨fun l hl => ?_, h.nodup, h.mem_iff⟩
    rcases List.mem_cons.1 hl with rfl | hl
    · trivial
    · exact h.path l hl

theorem Laid.congr {cs : List (List α)} (h : Laid cell cs) (hsame : ∀ a, cell' a = cell a) :
    Laid cell' cs where
  path l hl := (h.path l hl).congr fun a _ => hsame a
  nodup := h.nodup
  mem_iff a := by rw [hsame, h.mem_iff]

end

section Update

variable {α : Type*} [DecidableEq α] {cell : α → Cell α} {q : Cell α} {cs : List (List α)}
  {a b : α} {l m : List α}

theorem path_update (ha : a ∉ l) (x : Cell α) :
    Path (Function.update cell a x) q l ↔ Path cell q l := by
  have hsame : ∀ c ∈ l, Function.update cell a x c = cell c := by
    intro c hc
    rw [Function.update_of_ne]
    rintro rfl
    exact ha hc
  exact ⟨fun h => h.congr fun c hc => (hsame c hc).symm, fun h => h.congr hsame⟩

/-- A change of the entry of a cell leaves the chains that do not have it. -/
theorem Laid.path_update (h : Laid cell cs) (ha : a ∉ cs.flatten) (x : Cell α) :
    ∀ l ∈ cs, Path (Function.update cell a x) .stop l := by
  intro l hl
  rw [LinkTable.path_update fun hal => ha (List.mem_flatten.2 ⟨l, hl, hal⟩)]
  exact h.path l hl

/-- A free cell becomes a chain of its own. -/
theorem Laid.alloc (h : Laid cell cs) (ha : cell a = .free) :
    Laid (Function.update cell a .stop) ([a] :: cs) := by
  have hout : a ∉ cs.flatten := fun hmem => (h.mem_iff a).1 hmem ha
  refine ⟨fun l hl => ?_, ?_, fun c => ?_⟩
  · rcases List.mem_cons.1 hl with rfl | hl
    · exact ⟨Function.update_self _ _ _, trivial⟩
    · exact h.path_update hout _ l hl
  · rw [List.flatten_cons, List.singleton_append, List.nodup_cons]
    exact ⟨hout, h.nodup⟩
  · rw [List.flatten_cons, List.singleton_append, List.mem_cons, h.mem_iff]
    by_cases hc : c = a
    · rw [hc, Function.update_self]
      exact iff_of_true (.inl rfl) (by simp)
    · rw [Function.update_of_ne hc, or_iff_right hc]

/-- A change of the entry of a cell in use to one in use. -/
theorem Laid.relink (h : Laid cell cs) {cs' : List (List α)} (hflat : cs'.flatten = cs.flatten)
    (ha : a ∈ cs.flatten) {x : Cell α} (hx : x ≠ .free)
    (hpath : ∀ l ∈ cs', Path (Function.update cell a x) .stop l) :
    Laid (Function.update cell a x) cs' := by
  refine ⟨hpath, ?_, fun c => ?_⟩
  · rw [hflat]
    exact h.nodup
  · rw [hflat, h.mem_iff]
    by_cases hc : c = a
    · rw [hc, Function.update_self]
      exact iff_of_true ((h.mem_iff a).1 ha) hx
    · rw [Function.update_of_ne hc]

/-- The last cell of a chain is linked to the first one of another. -/
theorem Laid.join (h : Laid cell ((l ++ [a]) :: (b :: m) :: cs)) :
    Laid (Function.update cell a (.link b)) ((l ++ a :: b :: m) :: cs) := by
  have hflat : ((l ++ a :: b :: m) :: cs).flatten =
      ((l ++ [a]) :: (b :: m) :: cs).flatten := by
    simp
  have hnodup : (l ++ a :: (b :: m ++ cs.flatten)).Nodup := by
    have hn := h.nodup
    rwa [← hflat, List.flatten_cons, List.append_assoc, List.cons_append] at hn
  have hout : a ∉ l ++ (b :: m ++ cs.flatten) :=
    (List.nodup_cons.1 (List.nodup_middle.1 hnodup)).1
  rw [List.mem_append, List.mem_append, not_or, not_or] at hout
  obtain ⟨hl, hm, hcs⟩ := hout
  refine h.relink hflat (by simp) (by simp) fun k hk => ?_
  rcases List.mem_cons.1 hk with rfl | hk
  · have hold := h.path (l ++ [a]) List.mem_cons_self
    have hnew := h.path (b :: m) (List.mem_cons_of_mem _ List.mem_cons_self)
    rw [path_append] at hold ⊢
    refine ⟨(LinkTable.path_update hl _).2 hold.1, Function.update_self _ _ _, ?_⟩
    exact (LinkTable.path_update hm _).2 hnew
  · rw [LinkTable.path_update fun hak => hcs (List.mem_flatten.2 ⟨k, hk, hak⟩)]
    exact h.path k (List.mem_cons_of_mem _ (List.mem_cons_of_mem _ hk))

/-- A chain is cut after one of its cells. -/
theorem Laid.cut (h : Laid cell ((l ++ a :: m) :: cs)) :
    Laid (Function.update cell a .stop) ((l ++ [a]) :: m :: cs) := by
  have hflat : ((l ++ [a]) :: m :: cs).flatten = ((l ++ a :: m) :: cs).flatten := by
    simp
  have hnodup : (l ++ a :: (m ++ cs.flatten)).Nodup := by
    have hn := h.nodup
    rwa [List.flatten_cons, List.append_assoc, List.cons_append] at hn
  have hout : a ∉ l ++ (m ++ cs.flatten) :=
    (List.nodup_cons.1 (List.nodup_middle.1 hnodup)).1
  rw [List.mem_append, List.mem_append, not_or, not_or] at hout
  obtain ⟨hl, hm, hcs⟩ := hout
  have hold := h.path (l ++ a :: m) List.mem_cons_self
  rw [path_append] at hold
  refine h.relink hflat (by simp) (by simp) fun k hk => ?_
  rcases List.mem_cons.1 hk with rfl | hk
  · rw [path_append]
    exact ⟨(LinkTable.path_update hl _).2 hold.1, Function.update_self _ _ _, trivial⟩
  · rcases List.mem_cons.1 hk with rfl | hk
    · exact (LinkTable.path_update hm _).2 hold.2.2
    · rw [LinkTable.path_update fun hak => hcs (List.mem_flatten.2 ⟨k, hk, hak⟩)]
      exact h.path k (List.mem_cons_of_mem _ hk)

/-- The first cell of a chain becomes free. -/
theorem Laid.drop (h : Laid cell ((a :: m) :: cs)) :
    Laid (Function.update cell a .free) (m :: cs) := by
  have hnodup : (a :: (m ++ cs.flatten)).Nodup := h.nodup
  obtain ⟨hout, hn⟩ := List.nodup_cons.1 hnodup
  refine ⟨fun k hk => ?_, hn, fun c => ?_⟩
  · have hak : a ∉ k := fun hak => hout (List.mem_flatten.2 ⟨k, hk, hak⟩)
    rw [LinkTable.path_update hak]
    rcases List.mem_cons.1 hk with rfl | hk
    · exact (h.path (a :: k) List.mem_cons_self).2
    · exact h.path k (List.mem_cons_of_mem _ hk)
  · by_cases hc : c = a
    · rw [hc, Function.update_self]
      exact iff_of_false hout fun hne => hne rfl
    · rw [Function.update_of_ne hc, ← h.mem_iff]
      exact (List.mem_cons.trans (or_iff_right hc)).symm

end Update

end LinkTable
