import Mathlib.Data.List.DropRight

/-!
# Lines of a text

`linesOf nl text` are the lines of a text without the ends of line behind the last
one, and `textOf nl lines` is the text with one end of line behind each line.

The lines of a text hold no end of line, and the last of them is not empty
(`areLines_linesOf`).  Lines with these two properties are the lines of their text
(`linesOf_textOf`), so a function that edits lines can be read off the text that
it writes.

`splitList` and `joinList` do the same for a list of items in one line.  The empty
text has no items.
-/

namespace Text

variable {α : Type} {sep nl : α}

/-! ## Splitting and joining -/

theorem intercalate_concat {parts : List (List α)} (hne : parts ≠ []) (last : List α) :
    [sep].intercalate (parts ++ [last]) = [sep].intercalate parts ++ sep :: last := by
  induction parts with
  | nil => exact absurd rfl hne
  | cons part parts ih =>
    cases parts with
    | nil => simp
    | cons next parts =>
      have hrest := ih (by simp)
      rw [List.cons_append, List.cons_append, List.intercalate_cons_cons, ← List.cons_append, hrest,
        List.intercalate_cons_cons]
      simp

theorem mem_intercalate_iff {parts : List (List α)} {x : α} (hx : x ≠ sep) :
    x ∈ [sep].intercalate parts ↔ ∃ part ∈ parts, x ∈ part := by
  induction parts with
  | nil => simp
  | cons part parts ih =>
    cases parts with
    | nil => simp
    | cons next parts =>
      rw [List.intercalate_cons_cons, List.mem_append, List.mem_append, ih]
      simp [hx]

/-- A text that ends in a part that is not empty ends as the part does. -/
theorem getLast?_intercalate {parts : List (List α)} {last : List α}
    (hlast : parts.getLast? = some last) (hne : last ≠ []) :
    ([sep].intercalate parts).getLast? = last.getLast? := by
  obtain ⟨init, rfl⟩ := List.getLast?_eq_some_iff.mp hlast
  cases init with
  | nil => simp
  | cons part init =>
    rw [intercalate_concat (by simp), List.getLast?_append, List.getLast?_cons_of_ne_nil hne]
    cases hlast' : last.getLast? with
    | none => exact absurd (List.getLast?_eq_none_iff.mp hlast') hne
    | some c => rfl

variable [DecidableEq α]

theorem not_mem_of_mem_splitOn {l part : List α} (h : part ∈ l.splitOn sep) : sep ∉ part := by
  induction l generalizing part with
  | nil =>
    obtain rfl : part = [] := by simpa using h
    simp
  | cons c l ih =>
    rw [List.splitOn_cons_eq_if_modifyHead] at h
    split at h
    · rcases List.mem_cons.mp h with rfl | hmem
      · simp
      · exact ih hmem
    · rename_i hc
      obtain ⟨first, rest, hsplit⟩ := List.exists_cons_of_ne_nil (List.splitOn_ne_nil sep l)
      rw [hsplit, List.modifyHead_cons] at h
      rcases List.mem_cons.mp h with rfl | hmem
      · have hfirst : sep ∉ first := ih (by rw [hsplit]; exact List.mem_cons_self)
        simp only [beq_iff_eq] at hc
        simp [hfirst, Ne.symm hc]
      · exact ih (by rw [hsplit]; exact List.mem_cons_of_mem _ hmem)

/-! ## Lines -/

/-- The lines of a text, without the ends of line behind the last one. -/
def linesOf (nl : α) (text : List α) : List (List α) :=
  let text := text.rdropWhile (· == nl)
  if text = [] then [] else text.splitOn nl

/-- The text that has the lines. -/
def textOf (nl : α) (lines : List (List α)) : List α := [nl].intercalate lines ++ [nl]

/-- Lines hold no end of line, and the last one is not empty. -/
structure AreLines (nl : α) (lines : List (List α)) : Prop where
  not_mem : ∀ line ∈ lines, nl ∉ line
  last_ne : lines.getLast? ≠ some []

theorem areLines_linesOf (nl : α) (text : List α) : AreLines nl (linesOf nl text) := by
  unfold linesOf
  dsimp only
  split_ifs with hnil
  · exact ⟨by simp, by simp⟩
  · refine ⟨fun line hline => not_mem_of_mem_splitOn hline, fun hlast => ?_⟩
    have hend := List.rdropWhile_last_not (· == nl) text hnil
    generalize text.rdropWhile (· == nl) = t at hnil hlast hend
    obtain ⟨init, hinit⟩ := List.getLast?_eq_some_iff.mp hlast
    have ht : [nl].intercalate (t.splitOn nl) = t := List.intercalate_splitOn nl
    rw [hinit] at ht
    cases init with
    | nil => exact hnil (by simpa using ht.symm)
    | cons part init =>
      -- An empty last part stands behind an end of line.
      rw [intercalate_concat (by simp)] at ht
      subst ht
      simp at hend

theorem linesOf_textOf {lines : List (List α)} (h : AreLines nl lines) :
    linesOf nl (textOf nl lines) = lines := by
  have htrim : (textOf nl lines).rdropWhile (· == nl) = [nl].intercalate lines := by
    rw [textOf, List.rdropWhile_concat_pos _ _ _ (by simp), List.rdropWhile_eq_self_iff]
    intro hne hend
    cases hlast : lines.getLast? with
    | none =>
      rw [List.getLast?_eq_none_iff.mp hlast] at hne
      exact hne rfl
    | some last =>
      have hlast_ne : last ≠ [] := fun heq => h.last_ne (by rw [hlast, heq])
      have hlast' : ([nl].intercalate lines).getLast? = last.getLast? :=
        getLast?_intercalate hlast hlast_ne
      rw [List.getLast?_eq_some_getLast hne, List.getLast?_eq_some_getLast hlast_ne] at hlast'
      rw [Option.some.inj hlast', beq_iff_eq] at hend
      exact h.not_mem last (List.mem_of_getLast? hlast) (hend ▸ List.getLast_mem hlast_ne)
  unfold linesOf
  dsimp only
  rw [htrim]
  by_cases hnil : lines = []
  · subst hnil
    rfl
  · have hsplit := List.splitOn_intercalate nl h.not_mem hnil
    split_ifs with hempty
    · -- Only one empty line has the empty text, and it is not the last line.
      rw [hempty] at hsplit
      exact absurd (by rw [← hsplit]; rfl) h.last_ne
    · exact hsplit

/-! ## Lists in one line -/

/-- The items of a list.  The empty text has none. -/
def splitList (sep : α) (text : List α) : List (List α) :=
  if text = [] then [] else text.splitOn sep

theorem not_mem_of_mem_splitList {text item : List α} (h : item ∈ splitList sep text) :
    sep ∉ item := by
  unfold splitList at h
  split_ifs at h
  · simp at h
  · exact not_mem_of_mem_splitOn h

theorem intercalate_splitList (text : List α) : [sep].intercalate (splitList sep text) = text := by
  unfold splitList
  split_ifs with h
  · subst h
    rfl
  · exact List.intercalate_splitOn sep

/-- The items are read back, unless the only item is empty. -/
theorem splitList_intercalate {items : List (List α)} (h : ∀ item ∈ items, sep ∉ item)
    (hne : items ≠ [[]]) : splitList sep ([sep].intercalate items) = items := by
  by_cases hnil : items = []
  · subst hnil
    rfl
  · have hsplit := List.splitOn_intercalate sep h hnil
    unfold splitList
    split_ifs with hempty
    · rw [hempty] at hsplit
      exact absurd hsplit.symm hne
    · exact hsplit

end Text
