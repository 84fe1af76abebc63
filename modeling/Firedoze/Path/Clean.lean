import Firedoze.Text.Lines
import Firedoze.Text.Strings

/-!
# Lexical paths

`clean` is `Clean` of the package `path`: slashes are not repeated, an element `.`
is dropped, and an element `..` takes the element before it along.  `dir` and
`base` are `Dir` and `Base`.

A path is taken apart into its elements, and the elements go on a stack.  On a
stack that `push` has built, no element is empty or `.`, and only the lowest
elements are `..` (`Stacked`).  Elements that are names stay as they are
(`foldl_push_of_names`), so a path of names is clean (`clean_join`).  Empty
elements and `.` change nothing, so a clean path depends on the other elements
only (`clean_eq`).
-/

namespace Path

open Text

/-! ## Elements -/

def slash : UInt8 := 47

/-- The element `.`. -/
def here : Bytes := [46]

/-- The element `..`. -/
def dotdot : Bytes := [46, 46]

/-- The elements of a path that count: those that are not empty and not `.`. -/
def elements (path : Bytes) : List Bytes :=
  (path.splitOn slash).filter fun e => e ≠ [] ∧ e ≠ here

/-- The path starts with a slash. -/
def isRooted (path : Bytes) : Bool := path.head? == some slash

/-- The elements with slashes between them. -/
def join (es : List Bytes) : Bytes := [slash].intercalate es

/-- An element that is neither `.` nor `..`. -/
structure IsName (e : Bytes) : Prop where
  ne_nil : e ≠ []
  ne_dot : e ≠ here
  ne_dotdot : e ≠ dotdot
  no_slash : slash ∉ e

/-! ## Cleaning -/

/-- `..` on a stack of elements.  It takes the element below it along, and is
dropped at the root. -/
def pop (rooted : Bool) : List Bytes → List Bytes
  | [] => if rooted then [] else [dotdot]
  | top :: rest => if top = dotdot then dotdot :: top :: rest else rest

/-- One element on a stack of elements. -/
def push (rooted : Bool) (stack : List Bytes) (e : Bytes) : List Bytes :=
  if e = [] ∨ e = here then stack
  else if e = dotdot then pop rooted stack
  else e :: stack

/-- The elements of the clean path. -/
def cleanElements (rooted : Bool) (es : List Bytes) : List Bytes :=
  (es.foldl (push rooted) []).reverse

/-- A path of elements. -/
def render (rooted : Bool) (es : List Bytes) : Bytes :=
  if rooted then slash :: join es else if es = [] then here else join es

/-- `path.Clean`. -/
def clean (path : Bytes) : Bytes :=
  render (isRooted path) (cleanElements (isRooted path) (path.splitOn slash))

/-- `path.Dir`. -/
def dir (path : Bytes) : Bytes := clean (path.rdropWhile (· != slash))

/-- `path.Base`. -/
def base (path : Bytes) : Bytes :=
  if path = [] then here
  else
    let last := (path.rdropWhile (· == slash)).rtakeWhile (· != slash)
    if last = [] then [slash] else last

/-- `path.Join` of two elements. -/
def joinTwo (a b : Bytes) : Bytes :=
  if a = [] then if b = [] then [] else clean b
  else if b = [] then clean a else clean (a ++ slash :: b)

/-! ## The stack -/

/-- Names on top of elements `..`.  At the root there are names only. -/
structure Stacked (rooted : Bool) (stack : List Bytes) : Prop where
  eq : ∃ names n, stack = names ++ List.replicate n dotdot ∧ (∀ e ∈ names, IsName e) ∧
    (rooted = true → n = 0)

variable {es stack : List Bytes} {e : Bytes} {rooted : Bool}

theorem stacked_nil (rooted : Bool) : Stacked rooted [] :=
  ⟨[], 0, by simp, by simp, fun _ => rfl⟩

theorem stacked_pop (h : Stacked rooted stack) :
    Stacked rooted (pop rooted stack) := by
  obtain ⟨names, n, rfl, hnames, hroot⟩ := h
  cases names with
  | nil =>
    cases n with
    | zero =>
      cases rooted with
      | true => exact stacked_nil _
      | false => exact ⟨[], 1, rfl, by simp, by simp⟩
    | succ n =>
      refine ⟨[], n + 2, ?_, by simp, fun hr => absurd (hroot hr) (Nat.succ_ne_zero n)⟩
      simp [pop, List.replicate_succ]
  | cons name names =>
    have hname := hnames name List.mem_cons_self
    refine ⟨names, n, ?_, fun e he => hnames e (List.mem_cons_of_mem _ he), hroot⟩
    simp [pop, hname.ne_dotdot]

theorem stacked_push (h : Stacked rooted stack) (he : slash ∉ e) :
    Stacked rooted (push rooted stack e) := by
  unfold push
  split_ifs with hskip hdots
  · exact h
  · exact stacked_pop h
  · obtain ⟨names, n, rfl, hnames, hroot⟩ := h
    push Not at hskip
    refine ⟨e :: names, n, rfl, ?_, hroot⟩
    intro e' he'
    rcases List.mem_cons.mp he' with rfl | hmem
    · exact ⟨hskip.1, hskip.2, hdots, he⟩
    · exact hnames e' hmem

theorem stacked_foldl (hes : ∀ e ∈ es, slash ∉ e) (h : Stacked rooted stack) :
    Stacked rooted (es.foldl (push rooted) stack) := by
  induction es generalizing stack with
  | nil => exact h
  | cons e es ih =>
    exact ih (fun e' he' => hes e' (List.mem_cons_of_mem _ he'))
      (stacked_push h (hes e List.mem_cons_self))

theorem stacked_cleanElements (rooted : Bool) (path : Bytes) :
    ∃ n names, cleanElements rooted (path.splitOn slash) = List.replicate n dotdot ++ names ∧
      (∀ e ∈ names, IsName e) ∧ (rooted = true → n = 0) := by
  have hparts : ∀ e ∈ path.splitOn slash, slash ∉ e := fun e he => not_mem_of_mem_splitOn he
  obtain ⟨names, n, hstack, hnames, hroot⟩ := (stacked_foldl hparts (stacked_nil rooted)).eq
  refine ⟨n, names.reverse, ?_, fun e he => hnames e (List.mem_reverse.mp he), hroot⟩
  rw [cleanElements, hstack, List.reverse_append, List.reverse_replicate]

/-! ## Names -/

theorem push_name (h : IsName e) :
    push rooted stack e = e :: stack := by
  simp [push, h.ne_nil, h.ne_dot, h.ne_dotdot]

theorem foldl_push_of_names (h : ∀ e ∈ es, IsName e) (stack : List Bytes) :
    es.foldl (push rooted) stack = es.reverse ++ stack := by
  induction es generalizing stack with
  | nil => rfl
  | cons e es ih =>
    rw [List.foldl_cons, push_name (h e List.mem_cons_self),
      ih fun e' he' => h e' (List.mem_cons_of_mem _ he')]
    simp

theorem cleanElements_of_names (h : ∀ e ∈ es, IsName e) :
    cleanElements rooted es = es := by
  rw [cleanElements, foldl_push_of_names h]
  simp

theorem splitOn_join (h : ∀ e ∈ es, IsName e) (hne : es ≠ []) :
    (join es).splitOn slash = es :=
  List.splitOn_intercalate slash (fun e he => (h e he).no_slash) hne

theorem isRooted_join (h : ∀ e ∈ es, IsName e) : isRooted (join es) = false := by
  cases es with
  | nil => rfl
  | cons e es =>
    have he := h e List.mem_cons_self
    cases e with
    | nil => exact absurd rfl he.ne_nil
    | cons b e =>
      have hb : b ≠ slash := fun hb => he.no_slash (by simp [hb])
      cases es with
      | nil => simpa [isRooted, join] using hb
      | cons e' es => simpa [isRooted, join, List.intercalate_cons_cons] using hb

/-- A path of names is clean. -/
theorem clean_join (h : ∀ e ∈ es, IsName e) (hne : es ≠ []) :
    clean (join es) = join es := by
  rw [clean, isRooted_join h, splitOn_join h hne, cleanElements_of_names h]
  simp [render, hne]

/-- A path is clean to names if and only if it is relative and its stack holds
these names. -/
theorem clean_eq_join_iff {path : Bytes} (h : ∀ e ∈ es, IsName e) (hne : es ≠ []) :
    clean path = join es ↔
      isRooted path = false ∧ cleanElements false (path.splitOn slash) = es := by
  obtain ⟨n, names, hstack, hnames, -⟩ := stacked_cleanElements false path
  have hslash : ∀ e ∈ cleanElements false (path.splitOn slash), slash ∉ e := by
    intro e he
    rw [hstack] at he
    rcases List.mem_append.mp he with hdots | hname
    · rw [List.eq_of_mem_replicate hdots]
      decide
    · exact (hnames e hname).no_slash
  unfold clean
  cases hroot : isRooted path with
  | true =>
    have hjoin := isRooted_join h
    refine iff_of_false ?_ (by simp)
    intro heq
    rw [← heq] at hjoin
    cases hjoin
  | false =>
    simp only [render, Bool.false_eq_true, if_false, true_and]
    by_cases hnil : cleanElements false (path.splitOn slash) = []
    · rw [if_pos hnil, hnil]
      refine iff_of_false ?_ (Ne.symm hne)
      intro heq
      have hes : es = [here] := by
        rw [← splitOn_join h hne, ← heq]
        decide
      exact (h here (by simp [hes])).ne_dot rfl
    · rw [if_neg hnil]
      constructor
      · intro heq
        rw [← splitOn_join h hne, ← heq]
        exact (List.splitOn_intercalate slash hslash hnil).symm
      · intro heq
        rw [heq]

theorem joinTwo_join (h : ∀ e' ∈ es, IsName e') (he : IsName e) :
    joinTwo (join es) e = join (es ++ [e]) := by
  have hnames : ∀ e' ∈ es ++ [e], IsName e' := by
    intro e' he'
    rcases List.mem_append.mp he' with hmem | hmem
    · exact h e' hmem
    · rwa [List.mem_singleton.mp hmem]
  unfold joinTwo
  by_cases hes : es = []
  · subst hes
    have hone : join [e] = e := by simp [join]
    rw [if_pos (by rfl), if_neg he.ne_nil, List.nil_append]
    simpa [hone] using clean_join hnames (by simp)
  · have hjoin : join es ++ slash :: e = join (es ++ [e]) := (intercalate_concat hes e).symm
    have hne : join es ≠ [] := by
      intro hnil
      have hsplit := splitOn_join h hes
      rw [hnil] at hsplit
      exact (h [] (by rw [← hsplit]; exact List.mem_cons_self)).ne_nil rfl
    rw [if_neg hne, if_neg he.ne_nil, hjoin, clean_join hnames (by simp)]

theorem join_prefix (es es' : List Bytes) : join es <+: join (es ++ es') := by
  induction es' using List.reverseRecOn with
  | nil => simp
  | append_singleton es' e ih =>
    rw [← List.append_assoc]
    by_cases hnil : es ++ es' = []
    · rw [(List.append_eq_nil_iff.mp hnil).1]
      exact List.nil_prefix
    · refine ih.trans ?_
      rw [join, join, intercalate_concat hnil]
      exact List.prefix_append _ _

/-! ## Elements that do not count -/

theorem foldl_push_filter (rooted : Bool) (es stack : List Bytes) :
    es.foldl (push rooted) stack =
      (es.filter fun e => e ≠ [] ∧ e ≠ here).foldl (push rooted) stack := by
  induction es generalizing stack with
  | nil => rfl
  | cons e es ih =>
    by_cases he : e = [] ∨ e = here
    · have hskip : push rooted stack e = stack := if_pos he
      have hfilter : decide (e ≠ [] ∧ e ≠ here) = false := by
        rw [decide_eq_false_iff_not]
        tauto
      rw [List.foldl_cons, hskip, List.filter_cons_of_neg (by simpa using hfilter), ih]
    · have hfilter : decide (e ≠ [] ∧ e ≠ here) = true := by
        rw [decide_eq_true_iff]
        tauto
      rw [List.foldl_cons, List.filter_cons_of_pos (by simpa using hfilter), List.foldl_cons, ih]

theorem cleanElements_splitOn (rooted : Bool) (path : Bytes) :
    cleanElements rooted (path.splitOn slash) = cleanElements rooted (elements path) := by
  rw [cleanElements, foldl_push_filter]
  rfl

/-- A clean path depends on its root and on the elements that count. -/
theorem clean_eq (path : Bytes) :
    clean path = render (isRooted path) (cleanElements (isRooted path) (elements path)) := by
  rw [clean, cleanElements_splitOn]

/-! ## The last element -/

theorem rdropWhile_element {path e : Bytes} (h : slash ∉ e) :
    (path ++ slash :: e).rdropWhile (· != slash) = path ++ [slash] := by
  have hname : ∀ b ∈ e.reverse, (b != slash) = true := by
    intro b hb
    have hne : b ≠ slash := fun heq => h (heq ▸ List.mem_reverse.mp hb)
    simpa using hne
  rw [List.rdropWhile, List.reverse_append, List.reverse_cons, List.append_assoc,
    List.dropWhile_append_of_pos hname]
  simp

theorem rtakeWhile_element {path e : Bytes} (h : slash ∉ e) :
    (path ++ slash :: e).rtakeWhile (· != slash) = e := by
  have hname : ∀ b ∈ e.reverse, (b != slash) = true := by
    intro b hb
    have hne : b ≠ slash := fun heq => h (heq ▸ List.mem_reverse.mp hb)
    simpa using hne
  rw [List.rtakeWhile, List.reverse_append, List.reverse_cons, List.append_assoc,
    List.takeWhile_append_of_pos hname]
  simp

theorem rdropWhile_of_no_slash (h : slash ∉ e) : e.rdropWhile (· != slash) = [] := by
  rw [List.rdropWhile_eq_nil_iff]
  intro b hb
  have hne : b ≠ slash := fun heq => h (heq ▸ hb)
  simpa using hne

/-- The directory of a single element. -/
theorem dir_of_no_slash (h : slash ∉ e) : dir e = here := by
  rw [dir, rdropWhile_of_no_slash h]
  decide

/-- The directory of a path of names. -/
theorem dir_join_concat (h : ∀ e' ∈ es, IsName e') (hne : es ≠ []) (he : slash ∉ e) :
    dir (join (es ++ [e])) = join es := by
  have hends : join es ++ [slash] = join (es ++ [[]]) := (intercalate_concat hne []).symm
  have hsplit : (join es ++ [slash]).splitOn slash = es ++ [[]] := by
    rw [hends]
    refine List.splitOn_intercalate slash ?_ (by simp)
    intro e' he'
    rcases List.mem_append.mp he' with hmem | hmem
    · exact (h e' hmem).no_slash
    · simp [List.mem_singleton.mp hmem]
  have hroot : isRooted (join es ++ [slash]) = false := by
    rw [← isRooted_join h, isRooted, isRooted, List.head?_append]
    cases hhead : (join es).head? with
    | none =>
      have hnil : join es = [] := List.head?_eq_none_iff.mp hhead
      have hes : es = [[]] := by rw [← splitOn_join h hne, hnil]; rfl
      exact absurd rfl (h [] (by rw [hes]; exact List.mem_cons_self)).ne_nil
    | some b => rfl
  have hclean : cleanElements false (es ++ [[]]) = es := by
    rw [cleanElements, List.foldl_append, foldl_push_of_names h]
    simp [push]
  rw [dir, join, intercalate_concat hne, rdropWhile_element he]
  change clean (join es ++ [slash]) = join es
  rw [clean, hroot, hsplit, hclean]
  simp [render, hne]

/-- The last element of a path of names. -/
theorem base_join_concat (he : IsName e) :
    base (join (es ++ [e])) = e := by
  have hend : ∀ path : Bytes, (path ++ e).rdropWhile (· == slash) = path ++ e := by
    intro path
    rw [List.rdropWhile_eq_self_iff]
    intro hne hlast
    rw [List.getLast_append_of_ne_nil hne he.ne_nil] at hlast
    exact he.no_slash (by rw [← eq_of_beq hlast]; exact List.getLast_mem _)
  unfold base
  by_cases hes : es = []
  · subst hes
    have hname : e.rtakeWhile (· != slash) = e := by
      rw [List.rtakeWhile_eq_self_iff]
      intro b hb
      have hne : b ≠ slash := fun heq => he.no_slash (heq ▸ hb)
      simpa using hne
    have hjoin : join ([] ++ [e]) = e := by simp [join]
    rw [hjoin, if_neg he.ne_nil, show e.rdropWhile (· == slash) = e from hend []]
    simp [hname, he.ne_nil]
  · have hjoin : join (es ++ [e]) = (join es ++ [slash]) ++ e := by
      rw [join, intercalate_concat hes]
      simp [join]
    rw [hjoin, if_neg (by simp), hend]
    simp [rtakeWhile_element he.no_slash, he.ne_nil]

theorem isRooted_clean (path : Bytes) : isRooted (clean path) = isRooted path := by
  unfold clean
  cases hroot : isRooted path with
  | true => rfl
  | false =>
    obtain ⟨n, names, heq, hnames, -⟩ := stacked_cleanElements false path
    rw [heq]
    unfold render
    cases n with
    | zero =>
      by_cases hnil : names = []
      · subst hnil
        rfl
      · simpa [hnil] using isRooted_join hnames
    | succ n => simp [List.replicate_succ, join, isRooted, dotdot, slash]

/-- The directory of a rooted path is rooted. -/
theorem isRooted_dir {path : Bytes} (h : isRooted path = true) : isRooted (dir path) = true := by
  obtain ⟨rest, rfl⟩ : ∃ rest, path = slash :: rest := by
    cases path with
    | nil => exact absurd h (by decide)
    | cons b rest => exact ⟨rest, by rw [show b = slash by simpa [isRooted] using h]⟩
  rw [dir, isRooted_clean]
  obtain ⟨dropped, hdropped⟩ := List.rdropWhile_prefix (· != slash) (slash :: rest)
  cases hkept : (slash :: rest).rdropWhile (· != slash) with
  | nil =>
    have hall := List.rdropWhile_eq_nil_iff.mp hkept slash List.mem_cons_self
    exact absurd hall (by decide)
  | cons b kept =>
    rw [hkept] at hdropped
    obtain rfl : b = slash := (List.cons.inj hdropped).1
    rfl

end Path
