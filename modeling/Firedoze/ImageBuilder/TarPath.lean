import Firedoze.Path.Clean
import Firedoze.Text.Utf8

/-!
# Names of tar entries

`cleanTarPath` of `cmd/firedoze-image-builder/main.go` turns the name of a tar
entry into a path below the root of an image.  It takes one slash off the front,
cleans the rest, and rejects what is not below the root and what holds metadata of
another system.

A name with two slashes in front is still rooted after the first one is gone, and
the cleaned path keeps its root.  `cleanTarPath_eq` says what becomes of all other
names, and `cleanTarPath_of_doubled` what becomes of these.
-/

namespace Firedoze.ImageBuilder

open Text Path

/-- `strings.TrimPrefix(name, "/")`. -/
def trimSlash (name : Bytes) : Bytes := if isRooted name then name.tail else name

/-- The element is metadata of another system. -/
def isMetadata (e : Bytes) : Bool := e == bytes "__MACOSX" || (bytes "._").isPrefixOf e

/-- `cleanTarPath`. -/
def cleanTarPath (name : Bytes) : Option Bytes :=
  let path := clean (trimSlash name)
  if path = here ∨ path = [] ∨ (bytes "../").isPrefixOf path ∨ path = dotdot then none
  else if (path.splitOn slash).any isMetadata then none
  else some path

/-- The name starts with two slashes. -/
def Doubled (name : Bytes) : Prop := isRooted (trimSlash name) = true

instance (name : Bytes) : Decidable (Doubled name) := inferInstanceAs (Decidable (_ = true))

/-! ## Paths below the root -/

/-- A relative path without empty elements, `.` and `..`. -/
def IsRelative (path : Bytes) : Prop := ∀ e ∈ path.splitOn slash, IsName e

theorem isRelative_join {es : List Bytes} (h : ∀ e ∈ es, IsName e) (hne : es ≠ []) :
    IsRelative (join es) := by
  intro e he
  rw [splitOn_join h hne] at he
  exact h e he

theorem not_isRelative_of_rooted (path : Bytes) : ¬ IsRelative (slash :: path) := by
  intro h
  have hsplit : (slash :: path).splitOn slash = [] :: path.splitOn slash := by
    rw [List.splitOn_cons_eq_if_modifyHead, if_pos (by simp)]
  exact (h [] (by rw [hsplit]; exact List.mem_cons_self)).ne_nil rfl

/-! ## What becomes of a name -/

theorem elements_cons_slash (path : Bytes) : elements (slash :: path) = elements path := by
  rw [elements, List.splitOn_cons_eq_if_modifyHead, if_pos (by simp)]
  rfl

theorem elements_trimSlash (name : Bytes) : elements (trimSlash name) = elements name := by
  unfold trimSlash
  split_ifs with h
  · cases name with
    | nil => rfl
    | cons b name =>
      obtain rfl : b = slash := by simpa [isRooted] using h
      exact (elements_cons_slash name).symm
  · rfl

/-- The elements of a name after cleaning. -/
def cleanName (name : Bytes) : List Bytes :=
  cleanElements (isRooted (trimSlash name)) (elements name)

/-- The name is rejected. -/
def Refused (name : Bytes) : Prop :=
  (¬ Doubled name ∧ (cleanName name = [] ∨ (cleanName name).head? = some dotdot)) ∨
    (cleanName name).any isMetadata = true

theorem exists_cleanName (name : Bytes) :
    ∃ n names, cleanName name = List.replicate n dotdot ++ names ∧ (∀ e ∈ names, IsName e) ∧
      (Doubled name → n = 0) := by
  unfold cleanName
  rw [← elements_trimSlash, ← cleanElements_splitOn]
  exact stacked_cleanElements _ _

theorem no_slash_of_mem_cleanName {name e : Bytes} (h : e ∈ cleanName name) : slash ∉ e := by
  obtain ⟨n, names, heq, hnames, -⟩ := exists_cleanName name
  rw [heq] at h
  rcases List.mem_append.mp h with hdots | hname
  · rw [List.eq_of_mem_replicate hdots]
    decide
  · exact (hnames e hname).no_slash

theorem clean_trimSlash (name : Bytes) :
    clean (trimSlash name) = render (isRooted (trimSlash name)) (cleanName name) := by
  rw [clean_eq, elements_trimSlash]
  rfl

/-- The tests of `cleanTarPath`, read off the elements of the path. -/
theorem splitOn_of_test {path : Bytes} :
    (path = here ∨ path = [] ∨ (bytes "../").isPrefixOf path = true ∨ path = dotdot) ↔
      path.splitOn slash = [here] ∨ path.splitOn slash = [[]] ∨
        (path.splitOn slash).head? = some dotdot := by
  have hjoin : [slash].intercalate (path.splitOn slash) = path := List.intercalate_splitOn slash
  constructor
  · rintro (rfl | rfl | hup | rfl)
    · exact Or.inl (by decide)
    · exact Or.inr (Or.inl rfl)
    · obtain ⟨rest, rfl⟩ := List.isPrefixOf_iff_prefix.mp hup
      have happend : bytes "../" ++ rest = dotdot ++ slash :: rest := by
        rw [show bytes "../" = dotdot ++ [slash] by decide, List.append_assoc]
        rfl
      rw [happend, List.splitOn_append_cons_self_of_not_mem (by decide)]
      exact Or.inr (Or.inr rfl)
    · exact Or.inr (Or.inr (by decide))
  · rintro (hsplit | hsplit | hsplit)
    · left
      rw [← hjoin, hsplit]
      rfl
    · right; left
      rw [← hjoin, hsplit]
      rfl
    · right; right
      obtain ⟨rest, hrest⟩ := List.head?_eq_some_iff.mp hsplit
      rw [hrest] at hjoin
      cases rest with
      | nil => exact Or.inr (by rw [← hjoin]; rfl)
      | cons e rest =>
        left
        rw [← hjoin, List.intercalate_cons_cons, List.append_assoc]
        refine List.isPrefixOf_iff_prefix.mpr ⟨[slash].intercalate (e :: rest), ?_⟩
        rw [show bytes "../" = dotdot ++ [slash] by decide, List.append_assoc]

theorem ne_of_mem_cleanName {name e : Bytes} (h : e ∈ cleanName name) : e ≠ [] ∧ e ≠ here := by
  obtain ⟨n, names, heq, hnames, -⟩ := exists_cleanName name
  rw [heq] at h
  rcases List.mem_append.mp h with hdots | hname
  · rw [List.eq_of_mem_replicate hdots]
    decide
  · exact ⟨(hnames e hname).ne_nil, (hnames e hname).ne_dot⟩

theorem splitOn_join_cleanName {name : Bytes} (hne : cleanName name ≠ []) :
    (join (cleanName name)).splitOn slash = cleanName name :=
  List.splitOn_intercalate slash (fun _ he => no_slash_of_mem_cleanName he) hne

/-- A name that does not start with two slashes. -/
theorem cleanTarPath_eq {name : Bytes} (h : ¬ Doubled name) :
    cleanTarPath name =
      if cleanName name = [] ∨ (cleanName name).head? = some dotdot ∨
          (cleanName name).any isMetadata = true then none
      else some (join (cleanName name)) := by
  have hroot : isRooted (trimSlash name) = false := by simpa [Doubled] using h
  unfold cleanTarPath
  simp only [splitOn_of_test]
  rw [clean_trimSlash, hroot]
  by_cases hnil : cleanName name = []
  · have hdot : (render false (cleanName name)).splitOn slash = [here] := by
      rw [hnil]
      decide
    rw [if_pos (Or.inl hdot), if_pos (Or.inl hnil)]
  · have hrender : render false (cleanName name) = join (cleanName name) := by simp [render, hnil]
    have hdot : cleanName name ≠ [here] := fun heq =>
      (ne_of_mem_cleanName (e := here) (by rw [heq]; simp)).2 rfl
    have hempty : cleanName name ≠ [[]] := fun heq =>
      (ne_of_mem_cleanName (e := []) (by rw [heq]; simp)).1 rfl
    rw [hrender, splitOn_join_cleanName hnil]
    by_cases hup : (cleanName name).head? = some dotdot
    · simp [hup]
    · simp [hdot, hempty, hup, hnil]

/-- A name that starts with two slashes keeps one of them. -/
theorem cleanTarPath_of_doubled {name : Bytes} (h : Doubled name) :
    cleanTarPath name =
      if (cleanName name).any isMetadata = true then none
      else some (slash :: join (cleanName name)) := by
  have hroot : isRooted (trimSlash name) = true := h
  have hsplit : (slash :: join (cleanName name)).splitOn slash =
      [] :: (join (cleanName name)).splitOn slash := by
    rw [List.splitOn_cons_eq_if_modifyHead, if_pos (by simp)]
  have hmeta : ((join (cleanName name)).splitOn slash).any isMetadata =
      (cleanName name).any isMetadata := by
    by_cases hnil : cleanName name = []
    · rw [hnil]
      decide
    · rw [splitOn_join_cleanName hnil]
  have hrender : render true (cleanName name) = slash :: join (cleanName name) := rfl
  have hempty : isMetadata [] = false := by decide
  unfold cleanTarPath
  simp only [splitOn_of_test]
  rw [clean_trimSlash, hroot, hrender, hsplit, List.any_cons, hempty, Bool.false_or, hmeta]
  have hne : (join (cleanName name)).splitOn slash ≠ [] := List.splitOn_ne_nil _ _
  have htest : ¬ ([] :: (join (cleanName name)).splitOn slash = [here] ∨
      [] :: (join (cleanName name)).splitOn slash = [[]] ∨
        ([] :: (join (cleanName name)).splitOn slash).head? = some dotdot) := by
    simp [here, dotdot, hne]
  rw [if_neg htest]

theorem cleanTarPath_eq_none_iff (name : Bytes) : cleanTarPath name = none ↔ Refused name := by
  by_cases h : Doubled name
  · rw [cleanTarPath_of_doubled h]
    simp [Refused, h]
  · rw [cleanTarPath_eq h]
    simp only [Refused, h, not_false_eq_true, true_and, or_assoc]
    split_ifs with hrefused
    · simpa using hrefused
    · simpa using hrefused

/-- What a name is turned into, if it does not start with two slashes. -/
theorem exists_names_of_cleanTarPath {name path : Bytes} (h : ¬ Doubled name)
    (hpath : cleanTarPath name = some path) :
    path = join (cleanName name) ∧ (∀ e ∈ cleanName name, IsName e) ∧ cleanName name ≠ [] ∧
      (cleanName name).any isMetadata = false := by
  rw [cleanTarPath_eq h] at hpath
  split_ifs at hpath with hrefused
  push Not at hrefused
  obtain ⟨hnil, hup, hmeta⟩ := hrefused
  refine ⟨(Option.some.inj hpath).symm, ?_, hnil, by simpa using hmeta⟩
  obtain ⟨n, names, heq, hnames, -⟩ := exists_cleanName name
  cases n with
  | zero => simpa [heq] using hnames
  | succ n => exact absurd (by rw [heq]; rfl) hup

theorem elements_join {es : List Bytes} (h : ∀ e ∈ es, IsName e) (hne : es ≠ []) :
    elements (join es) = es := by
  rw [elements, splitOn_join h hne, List.filter_eq_self]
  intro e he
  simpa using ⟨(h e he).ne_nil, (h e he).ne_dot⟩

theorem not_doubled_join {es : List Bytes} (h : ∀ e ∈ es, IsName e) : ¬ Doubled (join es) := by
  rw [Doubled, trimSlash, isRooted_join h]
  simp [isRooted_join h]

theorem cleanName_join {es : List Bytes} (h : ∀ e ∈ es, IsName e) (hne : es ≠ []) :
    cleanName (join es) = es := by
  rw [cleanName, elements_join h hne, cleanElements_of_names h]

/-- A path of names is left alone, unless it holds metadata. -/
theorem cleanTarPath_join {es : List Bytes} (h : ∀ e ∈ es, IsName e) (hne : es ≠ [])
    (hmeta : es.any isMetadata = false) : cleanTarPath (join es) = some (join es) := by
  have hup : es.head? ≠ some dotdot := fun hhead =>
    (h _ (List.mem_of_mem_head? hhead)).ne_dotdot rfl
  rw [cleanTarPath_eq (not_doubled_join h), cleanName_join h hne,
    if_neg (by simp [hne, hup, hmeta])]

/-! ## Canonical names -/

/-- The path of a name that is accepted is relative and is a fixed point. -/
def NameSound (name : Bytes) : Prop :=
  ∀ path, cleanTarPath name = some path → IsRelative path ∧ cleanTarPath path = some path

theorem nameSound_of_not_doubled {name : Bytes} (h : ¬ Doubled name) : NameSound name := by
  intro path hpath
  obtain ⟨rfl, hnames, hne, hmeta⟩ := exists_names_of_cleanTarPath h hpath
  exact ⟨isRelative_join hnames hne, cleanTarPath_join hnames hne hmeta⟩

theorem nameSound_iff (name : Bytes) :
    NameSound name ↔ ¬ Doubled name ∨ (cleanName name).any isMetadata = true := by
  by_cases h : Doubled name
  · unfold NameSound
    rw [cleanTarPath_of_doubled h]
    split_ifs with hmeta
    · simp [hmeta]
    · refine iff_of_false (fun hsound => ?_) (by simp [h, hmeta])
      exact not_isRelative_of_rooted _ (hsound _ rfl).1
  · simp [h, nameSound_of_not_doubled h]

/-- Two spellings of a name are rejected or are turned into the same path, exactly
when both or none of them start with two slashes, or both are rejected. -/
theorem cleanTarPath_eq_iff {a b : Bytes} (h : elements a = elements b) :
    cleanTarPath a = cleanTarPath b ↔ (Doubled a ↔ Doubled b) ∨ Refused a ∧ Refused b := by
  have hsame : (Doubled a ↔ Doubled b) → cleanName a = cleanName b := by
    intro hiff
    unfold cleanName
    rw [h, Bool.eq_iff_iff.mpr hiff]
  constructor
  · intro heq
    by_cases ha : Doubled a <;> by_cases hb : Doubled b
    · exact Or.inl (iff_of_true ha hb)
    · right
      rw [← cleanTarPath_eq_none_iff, ← cleanTarPath_eq_none_iff, ← heq, and_self]
      cases hpath : cleanTarPath a with
      | none => rfl
      | some path =>
        -- One path is rooted, and the other one is not.
        exfalso
        have hrel := (nameSound_of_not_doubled hb path (by rw [← heq, hpath])).1
        rw [cleanTarPath_of_doubled ha] at hpath
        split_ifs at hpath
        cases hpath
        exact not_isRelative_of_rooted _ hrel
    · right
      rw [← cleanTarPath_eq_none_iff, ← cleanTarPath_eq_none_iff, heq, and_self]
      cases hpath : cleanTarPath b with
      | none => rfl
      | some path =>
        exfalso
        have hrel := (nameSound_of_not_doubled ha path (by rw [heq, hpath])).1
        rw [cleanTarPath_of_doubled hb] at hpath
        split_ifs at hpath
        cases hpath
        exact not_isRelative_of_rooted _ hrel
    · exact Or.inl (iff_of_false ha hb)
  · rintro (hiff | ⟨ha, hb⟩)
    · by_cases hd : Doubled a
      · rw [cleanTarPath_of_doubled hd, cleanTarPath_of_doubled (hiff.mp hd), hsame hiff]
      · rw [cleanTarPath_eq hd, cleanTarPath_eq (mt hiff.mpr hd), hsame hiff]
    · rw [(cleanTarPath_eq_none_iff a).mpr ha, (cleanTarPath_eq_none_iff b).mpr hb]

end Firedoze.ImageBuilder
