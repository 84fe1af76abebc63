import Mathlib.Algebra.Ring.Int.Defs
import Mathlib.Algebra.Ring.Nat
import Mathlib.Data.List.Forall2

/-!
# The words of a POSIX shell command

`literalCommand` answers the words that a POSIX shell executes for a line, if
the line is one simple command whose words are literal: no operators, no
redirections, no parameter, command, tilde or pathname expansion, and a first
word that is neither an assignment nor a reserved word.  Quoting is allowed, and
quotes are removed.

The reader goes through the line character by character.  `step` is one
character: the mode says inside of which quotes it stands, and the word that is
being read remembers which of its characters were quoted.

Every character makes the words longer by at most one character, or ends a word
(`weight_step`).  So when the words are as long as the line, nothing was quoted
(`tight_run`).  `literalCommand_join_iff` says with that for which words the line
that joins them is read as these words again.

`Writes` says that a line is one word.  Lines that are one word each can be joined
(`reads_join`), and every text can be put between single quotes
(`writes_singleQuote`).
-/

namespace Shell

/-! ## Characters -/

/-- Characters that separate words. -/
def isBlank (c : Char) : Bool := c == ' ' || c == '\t'

/-- Characters that end a word and are operators, or are part of one. -/
def isOperator (c : Char) : Bool := ['|', '&', ';', '<', '>', '(', ')', '\n'].contains c

/-- Characters that start an expansion, also inside of double quotes. -/
def isExpansion (c : Char) : Bool := c == '$' || c.toNat == 96

/-- Characters that stand for themselves outside of quotes. -/
def isPlain (c : Char) : Bool :=
  !(isBlank c || isOperator c || isExpansion c || c == '\\' || c == '\'' || c == '"')

/-- The characters of a line of bytes in the POSIX locale. -/
def ofBytes (line : List UInt8) : List Char := line.map Char.ofUInt8

/-! ## Reading -/

/-- A word with its quotes removed, and which of its characters were quoted. -/
abbrev Word := List (Char × Bool)

/-- Where a character stands. -/
inductive Mode
  | plain
  | escape
  | single
  | double
  | doubleEscape
  | comment
  deriving DecidableEq, Repr

/-- The mode, the word that is being read, and the words before it. -/
structure State where
  mode : Mode
  word : Option Word
  words : List Word
  deriving DecidableEq, Repr

namespace State

variable (s : State)

/-- The start of a line. -/
def start : State := ⟨.plain, none, []⟩

/-- Go on in a mode. -/
def into (mode : Mode) : State := { s with mode := mode }

/-- Go on in a mode inside of a word. -/
def inWord (mode : Mode) : State := { s with mode := mode, word := some (s.word.getD []) }

/-- A character of the word, and the mode after it. -/
def push (mode : Mode) (c : Char) (quoted : Bool) : State :=
  { s with mode := mode, word := some (s.word.getD [] ++ [(c, quoted)]) }

/-- The end of the word. -/
def endWord : State := { s with word := none, words := s.words ++ s.word.toList }

/-- A character outside of quotes. -/
def stepPlain (c : Char) : Option State :=
  if isBlank c then some s.endWord
  else if c = '#' ∧ s.word = none then some (s.into .comment)
  else if c = '\\' then some (s.into .escape)
  else if c = '\'' then some (s.inWord .single)
  else if c = '"' then some (s.inWord .double)
  else if isOperator c || isExpansion c then none
  else some (s.push .plain c false)

/-- A character inside of double quotes. -/
def stepDouble (c : Char) : Option State :=
  if c = '"' then some (s.into .plain)
  else if c = '\\' then some (s.into .doubleEscape)
  else if isExpansion c then none
  else some (s.push .double c true)

/-- A character after a backslash inside of double quotes.  The backslash is
kept, unless the character is special there. -/
def stepDoubleEscape (c : Char) : Option State :=
  if c = '\n' then some (s.into .double)
  else if c = '"' ∨ c = '\\' ∨ isExpansion c then some (s.push .double c true)
  else some ((s.push .double '\\' true).push .double c true)

/-- One character. -/
def step (c : Char) : Option State :=
  match s.mode with
  | .plain => s.stepPlain c
  | .escape => if c = '\n' then some (s.into .plain) else some (s.push .plain c true)
  | .single => if c = '\'' then some (s.into .plain) else some (s.push .single c true)
  | .double => s.stepDouble c
  | .doubleEscape => s.stepDoubleEscape c
  | .comment => if c = '\n' then none else some s

/-- A line. -/
def run (s : State) : List Char → Option State
  | [] => some s
  | c :: line => (s.step c).bind fun s' => run s' line

/-- The words at the end of a line. -/
def finish : Option (List Word) :=
  match s.mode with
  | .plain => some (s.words ++ s.word.toList)
  | .comment => some (s.words ++ s.word.toList)
  | _ => none

end State

/-- The words of a line. -/
def readWords (line : List Char) : Option (List Word) := (State.start.run line).bind State.finish

/-! ## Expansions and reserved words -/

/-- The text of a word. -/
def text (w : Word) : List Char := w.map Prod.fst

/-- A word without quotes. -/
def unquoted (a : List Char) : Word := a.map fun c => (c, false)

/-- The rest of a bracket expression has an end. -/
def closesBracket : Word → Bool
  | [] => false
  | (c, quoted) :: w => c != '/' && ((c == ']' && !quoted) || closesBracket w)

/-- A bracket expression starts before the word.  Its first character, after a
negation, does not close it. -/
def isBracket (w : Word) : Bool :=
  let w := if w.head? = some ('!', false) ∨ w.head? = some ('^', false) then w.drop 1 else w
  match w with
  | [] => false
  | (c, _) :: w => c != '/' && closesBracket w

/-- The word is a pattern for the names of files. -/
def isPattern : Word → Bool
  | [] => false
  | (c, quoted) :: w =>
      (!quoted && (c == '*' || c == '?' || (c == '[' && isBracket w))) || isPattern w

/-- The word is expanded. -/
def expands (w : Word) : Bool := w.head? == some ('~', false) || isPattern w

/-- The reserved words, also those of some shells only. -/
def reservedWords : List (List Char) :=
  ["!", "\x7b", "\x7d", "case", "do", "done", "elif", "else", "esac", "fi", "for", "if", "in",
    "then", "until", "while", "[[", "]]", "function", "namespace", "select", "time"].map
      String.toList

/-- A character of a name. -/
def isNameChar (c : Char) : Bool := c.isAlphanum || c == '_'

/-- The word starts with a name, and the rest of it passes the test. -/
def startsWithName (w : Word) (rest : Word → Bool) : Bool :=
  let p : Char × Bool → Bool := fun c => isNameChar c.1 && !c.2
  (w.head?.any fun c => p c && !c.1.isDigit) && rest (w.dropWhile p)

/-- The first word of a line is not the name of a command: it is an assignment, a
reserved word or a label. -/
def isSpecialFirst (w : Word) : Bool :=
  (startsWithName w fun rest => rest.head? == some ('=', false)) ||
    (startsWithName w fun rest => rest == [(':', false)]) ||
    (w.all (fun c => !c.2) && reservedWords.contains (text w))

/-- The words that a shell executes for a line, if it is a simple command of
literal words. -/
def literalCommand (line : List Char) : Option (List (List Char)) :=
  match readWords line with
  | none => none
  | some ws => if ws.any expands || ws.head?.any isSpecialFirst then none else some (ws.map text)

/-! ## Weights -/

/-- The characters of the words, with one more for each word. -/
def total (ws : List Word) : Nat := (ws.map fun w => w.length + 1).sum

namespace State

variable {s s' : State} {c : Char}

/-- The weight of the words that have been read.  The word that comes next is
counted from its start on. -/
def size (s : State) : Nat := total s.words + ((s.word.map List.length).getD 0 + 1)

/-- A backslash inside of double quotes may still become a character. -/
def weight (s : State) : Nat := s.size + if s.mode = .doubleEscape then 1 else 0

@[simp] theorem size_into (s : State) (m : Mode) : (s.into m).size = s.size := rfl

@[simp] theorem size_inWord (s : State) (m : Mode) : (s.inWord m).size = s.size := by
  unfold size inWord
  cases s.word <;> rfl

@[simp] theorem size_push (s : State) (m : Mode) (c : Char) (q : Bool) :
    (s.push m c q).size = s.size + 1 := by
  unfold size push
  cases s.word
  · simp
  · simp
    omega

theorem size_endWord (s : State) :
    s.endWord.size = s.size + if s.word.isSome then 1 else 0 := by
  unfold size endWord total
  cases s.word <;> simp

theorem weight_of_mode (h : s.mode ≠ .doubleEscape) : s.weight = s.size := by
  unfold weight
  rw [if_neg h]
  rfl

theorem size_le_weight (s : State) : s.size ≤ s.weight := Nat.le_add_right _ _

/-- The eight things that a character does outside of quotes. -/
theorem stepPlain_cases (h : s.stepPlain c = some s') :
    isBlank c = true ∧ s' = s.endWord ∨
      (∃ m, m ≠ .doubleEscape ∧ (s' = s.into m ∨ s' = s.inWord m)) ∨
      isPlain c = true ∧ (c = '#' → s.word ≠ none) ∧ s' = s.push .plain c false := by
  unfold stepPlain at h
  split_ifs at h with hblank hcomment hescape hsingle hdouble hother <;>
    cases h
  · exact Or.inl ⟨hblank, rfl⟩
  · exact Or.inr (Or.inl ⟨.comment, by decide, Or.inl rfl⟩)
  · exact Or.inr (Or.inl ⟨.escape, by decide, Or.inl rfl⟩)
  · exact Or.inr (Or.inl ⟨.single, by decide, Or.inr rfl⟩)
  · exact Or.inr (Or.inl ⟨.double, by decide, Or.inr rfl⟩)
  · refine Or.inr (Or.inr ⟨?_, fun hc hw => hcomment ⟨hc, hw⟩, rfl⟩)
    simp_all [isPlain]

/-- A character adds at most one to the weight. -/
theorem weight_step (h : s.step c = some s') : s'.weight ≤ s.weight + 1 := by
  have hsize := size_le_weight s
  unfold step at h
  split at h
  · -- Outside of quotes.
    rename_i hmode
    rcases stepPlain_cases h with ⟨-, rfl⟩ | ⟨m, hm, rfl | rfl⟩ | ⟨-, -, rfl⟩
    · have hend := size_endWord s
      rw [weight_of_mode (by simp [endWord, hmode])]
      split_ifs at hend <;> omega
    · rw [weight_of_mode hm, size_into]
      omega
    · rw [weight_of_mode hm, size_inWord]
      omega
    · rw [weight_of_mode (by simp [push]), size_push]
      omega
  · split_ifs at h <;> cases h
    · rw [weight_of_mode (by simp [into]), size_into]
      omega
    · rw [weight_of_mode (by simp [push]), size_push]
      omega
  · split_ifs at h <;> cases h
    · rw [weight_of_mode (by simp [into]), size_into]
      omega
    · rw [weight_of_mode (by simp [push]), size_push]
      omega
  · unfold stepDouble at h
    split_ifs at h <;> cases h
    · rw [weight_of_mode (by simp [into]), size_into]
      omega
    · -- The backslash counts until it is known what it stands for.
      have hpending : (s.into .doubleEscape).weight = s.size + 1 := rfl
      omega
    · rw [weight_of_mode (by simp [push]), size_push]
      omega
  · rename_i hmode
    have hpending : s.weight = s.size + 1 := by
      unfold weight
      rw [if_pos hmode]
    unfold stepDoubleEscape at h
    split_ifs at h <;> cases h
    · rw [weight_of_mode (by simp [into]), size_into]
      omega
    · rw [weight_of_mode (by simp [push]), size_push]
      omega
    · rw [weight_of_mode (by simp [push]), size_push, size_push]
      omega
  · split_ifs at h
    cases h
    omega

variable {ws : List Word} {line a : List Char}

theorem weight_run {line : List Char} (h : s.run line = some s') :
    s'.weight ≤ s.weight + line.length := by
  induction line generalizing s with
  | nil =>
    cases h
    exact Nat.le_refl _
  | cons c line ih =>
    obtain ⟨s₁, hstep, hrun⟩ := Option.bind_eq_some_iff.mp h
    have hle := ih hrun
    have hle' := weight_step hstep
    rw [List.length_cons]
    omega

end State

/-! ## Words that were not quoted -/

/-- Characters that stand for themselves, and that start no comment. -/
def IsBareWord (a : List Char) : Prop :=
  a ≠ [] ∧ (∀ c ∈ a, isPlain c = true) ∧ a.head? ≠ some '#'

instance (a : List Char) : Decidable (IsBareWord a) :=
  decidable_of_iff (a ≠ [] ∧ a.all isPlain = true ∧ a.head? ≠ some '#') (by simp [IsBareWord])

namespace State

variable {s s' : State} {c : Char}

/-- Nothing has been quoted so far. -/
def Tight (s : State) : Prop :=
  s.mode = .plain ∧ ∀ w ∈ s.words ++ s.word.toList, ∃ a, IsBareWord a ∧ w = unquoted a

theorem isBareWord_push (ha : IsBareWord a) (hc : isPlain c = true) :
    IsBareWord (a ++ [c]) := by
  obtain ⟨hne, hplain, hhead⟩ := ha
  refine ⟨by simp, ?_, ?_⟩
  · intro d hd
    rcases List.mem_append.mp hd with hd | hd
    · exact hplain d hd
    · rwa [List.mem_singleton.mp hd]
  · rwa [List.head?_append_of_ne_nil _ hne]

theorem tight_endWord (ht : Tight s) : Tight s.endWord := by
  refine ⟨ht.1, fun w hw => ht.2 w ?_⟩
  simpa [endWord] using hw

theorem tight_push (ht : Tight s) (hc : isPlain c = true) (hhash : c = '#' → s.word ≠ none) :
    Tight (s.push .plain c false) := by
  refine ⟨rfl, fun w hw => ?_⟩
  have hmem : w ∈ s.words ∨ w = s.word.getD [] ++ [(c, false)] := by simpa [push] using hw
  rcases hmem with hmem | rfl
  · exact ht.2 w (List.mem_append_left _ hmem)
  · cases hword : s.word with
    | none =>
      refine ⟨[c], ⟨by simp, by simpa using hc, fun hhead => ?_⟩, rfl⟩
      exact hhash (Option.some.inj hhead) hword
    | some v =>
      obtain ⟨a, ha, rfl⟩ := ht.2 v (by simp [hword])
      exact ⟨a ++ [c], isBareWord_push ha hc, by simp [unquoted]⟩

/-- A character that adds one to the weight, and that stands behind nothing but
bare words, is a part of one or ends one. -/
theorem tight_step (ht : Tight s) (h : s.step c = some s') (hw : s'.weight = s.weight + 1) :
    Tight s' := by
  unfold step at h
  rw [ht.1] at h
  have hs : s.weight = s.size := weight_of_mode (by simp [ht.1])
  rcases stepPlain_cases h with ⟨-, rfl⟩ | ⟨m, hm, rfl | rfl⟩ | ⟨hc, hhash, rfl⟩
  · exact tight_endWord ht
  · rw [weight_of_mode hm, size_into] at hw
    omega
  · rw [weight_of_mode hm, size_inWord] at hw
    omega
  · exact tight_push ht hc hhash

/-- When a line is as long as the words that were read from it, then nothing in it
was quoted. -/
theorem tight_run (ht : Tight s) (h : s.run line = some s')
    (hw : s'.weight = s.weight + line.length) : Tight s' := by
  induction line generalizing s with
  | nil =>
    cases h
    exact ht
  | cons c line ih =>
    obtain ⟨s₁, hstep, hrun⟩ := Option.bind_eq_some_iff.mp h
    have hle := weight_run hrun
    have hle' := weight_step hstep
    rw [List.length_cons] at hw
    exact ih (tight_step ht hstep (by omega)) hrun (by omega)

theorem tight_start : Tight start := ⟨rfl, by simp [start]⟩

theorem words_of_finish (h : s.finish = some ws) :
    ws = s.words ++ s.word.toList ∧ s.mode ≠ .doubleEscape := by
  unfold finish at h
  split at h
  · rename_i hmode
    exact ⟨(Option.some.inj h).symm, by simp [hmode]⟩
  · rename_i hmode
    exact ⟨(Option.some.inj h).symm, by simp [hmode]⟩
  · cases h

theorem total_le_size (s : State) : total (s.words ++ s.word.toList) ≤ s.size := by
  unfold size total
  cases s.word <;> simp

end State

/-- The words of a line that is as long as they are, are bare. -/
theorem isBareWord_of_readWords (h : readWords line = some ws)
    (htotal : line.length + 1 ≤ total ws) : ∀ w ∈ ws, ∃ a, IsBareWord a ∧ w = unquoted a := by
  obtain ⟨s, hrun, hfinish⟩ := Option.bind_eq_some_iff.mp h
  obtain ⟨rfl, hmode⟩ := State.words_of_finish hfinish
  have hle := State.weight_run hrun
  have hsize := State.total_le_size s
  have hweight := State.weight_of_mode hmode
  have hstart : State.start.weight = 1 := rfl
  exact (State.tight_run State.tight_start hrun (by omega)).2

/-! ## Joining words -/

/-- The words with a space between them. -/
def join (args : List (List Char)) : List Char := [' '].intercalate args

theorem length_join {args : List (List Char)} (hargs : args ≠ []) :
    (join args).length + 1 = (args.map fun a => a.length + 1).sum := by
  unfold join
  induction args with
  | nil => exact absurd rfl hargs
  | cons a args ih =>
    cases args with
    | nil => simp
    | cons b args =>
      have hrest := ih (by simp)
      rw [List.intercalate_cons_cons, List.map_cons, List.sum_cons, ← hrest]
      simp
      omega

@[simp] theorem text_unquoted (a : List Char) : text (unquoted a) = a := by
  simp [text, unquoted, Function.comp_def]

theorem total_eq_of_text (ws : List Word) :
    total ws = ((ws.map text).map fun a => a.length + 1).sum := by
  simp [total, text, Function.comp_def]

namespace State

theorem run_append (s : State) (line rest : List Char) :
    s.run (line ++ rest) = (s.run line).bind fun s' => s'.run rest := by
  induction line generalizing s with
  | nil => rfl
  | cons c line ih =>
    rw [List.cons_append, run, run, Option.bind_assoc]
    simp only [ih]

theorem step_of_isPlain (w : Option Word) (ws : List Word) {c : Char} (hc : isPlain c = true)
    (hhash : c = '#' → w ≠ none) :
    (State.mk .plain w ws).step c = some ((State.mk .plain w ws).push .plain c false) := by
  simp only [isPlain, Bool.not_eq_true', Bool.or_eq_false_iff, beq_eq_false_iff_ne] at hc
  obtain ⟨⟨⟨⟨⟨hblank, hop⟩, hexp⟩, hescape⟩, hsingle⟩, hdouble⟩ := hc
  have hcomment : ¬(c = '#' ∧ w = none) := fun hboth => hhash hboth.1 hboth.2
  simp [step, stepPlain, hblank, hop, hexp, hescape, hsingle, hdouble, hcomment]

theorem run_plain {w : Word} (ha : ∀ c ∈ a, isPlain c = true) :
    (State.mk .plain (some w) ws).run a = some ⟨.plain, some (w ++ unquoted a), ws⟩ := by
  induction a generalizing w with
  | nil => simp [run, unquoted]
  | cons c a ih =>
    have hstep := step_of_isPlain (some w) ws (ha c List.mem_cons_self) (by simp)
    rw [run, hstep]
    refine (ih fun d hd => ha d (List.mem_cons_of_mem _ hd)).trans ?_
    simp [unquoted]

theorem run_bare (ws : List Word) (ha : IsBareWord a) :
    (State.mk .plain none ws).run a = some ⟨.plain, some (unquoted a), ws⟩ := by
  obtain ⟨hne, hplain, hhead⟩ := ha
  cases a with
  | nil => exact absurd rfl hne
  | cons c a =>
    have hstep := step_of_isPlain none ws (hplain c List.mem_cons_self)
      (fun hc => absurd (congrArg some hc) hhead)
    rw [run, hstep]
    exact run_plain fun d hd => hplain d (List.mem_cons_of_mem _ hd)

end State

/-- The line is read as one word, wherever a word can start. -/
def Writes (line : List Char) (w : Word) : Prop :=
  ∀ ws, (State.mk .plain none ws).run line = some ⟨.plain, some w, ws⟩

/-- The line is read as the words, and ends outside of quotes and comments. -/
def Reads (line : List Char) (ws : List Word) : Prop :=
  ∃ s, State.start.run line = some s ∧ s.mode = .plain ∧ s.finish = some ws

theorem writes_bare (ha : IsBareWord a) : Writes a (unquoted a) :=
  fun ws => State.run_bare ws ha

theorem readWords_of_reads (h : Reads line ws) :
    readWords line = some ws := by
  obtain ⟨s, hrun, -, hfinish⟩ := h
  rw [readWords, hrun]
  exact hfinish

/-- Lines that are one word each, joined. -/
theorem run_join (ws : List Word) {lines : List (List Char)} {words : List Word}
    (h : List.Forall₂ Writes lines words) :
    ∃ s, (State.mk .plain none ws).run (join lines) = some s ∧ s.mode = .plain ∧
      s.finish = some (ws ++ words) := by
  induction h generalizing ws with
  | nil => exact ⟨⟨.plain, none, ws⟩, by simp [join, State.run], rfl, by simp [State.finish]⟩
  | @cons line w lines words hline hrest ih =>
    cases hrest with
    | nil =>
      refine ⟨⟨.plain, some w, ws⟩, ?_, rfl, rfl⟩
      rw [join, List.intercalate_singleton]
      exact hline ws
    | cons hnext hmore =>
      obtain ⟨s, hrun, hmode, hfinish⟩ := ih (ws ++ [w])
      refine ⟨s, ?_, hmode, ?_⟩
      · rw [join, List.intercalate_cons_cons, List.append_assoc, State.run_append, hline ws]
        exact hrun
      · rw [hfinish, List.append_assoc]
        rfl

theorem reads_join {lines : List (List Char)} {words : List Word}
    (h : List.Forall₂ Writes lines words) : Reads (join lines) words := run_join [] h

/-! ## Single quotes -/

/-- A word of which every character is quoted. -/
def quoted (a : List Char) : Word := a.map fun c => (c, true)

/-- A character between single quotes.  A single quote ends the quotes, and starts
them again behind an escaped one. -/
def quoteChar (c : Char) : List Char := if c = '\'' then ['\'', '\\', '\'', '\''] else [c]

/-- The text between single quotes. -/
def singleQuote (a : List Char) : List Char := '\'' :: a.flatMap quoteChar ++ ['\'']

@[simp] theorem text_quoted (a : List Char) : text (quoted a) = a := by
  simp [text, quoted, Function.comp_def]

theorem run_quoteChar (w : Word) (ws : List Word) (c : Char) :
    (State.mk .single (some w) ws).run (quoteChar c) =
      some ⟨.single, some (w ++ [(c, true)]), ws⟩ := by
  unfold quoteChar
  split_ifs with hc
  · subst hc
    rfl
  · simp [State.run, State.step, hc, State.push]

theorem run_quoteChars (w : Word) (ws : List Word) (a : List Char) :
    (State.mk .single (some w) ws).run (a.flatMap quoteChar) =
      some ⟨.single, some (w ++ quoted a), ws⟩ := by
  induction a generalizing w with
  | nil => simp [State.run, quoted]
  | cons c a ih =>
    rw [List.flatMap_cons, State.run_append, run_quoteChar]
    refine (ih _).trans ?_
    simp [quoted]

/-- Any text between single quotes is one word. -/
theorem writes_singleQuote (a : List Char) : Writes (singleQuote a) (quoted a) := by
  intro ws
  have hopen : (State.mk .plain none ws).step '\'' = some ⟨.single, some [], ws⟩ := rfl
  rw [singleQuote, List.cons_append, State.run, hopen, Option.bind_some, State.run_append,
    run_quoteChars]
  rfl

/-- A quoted word is not expanded. -/
theorem expands_quoted (a : List Char) : expands (quoted a) = false := by
  have hpattern : isPattern (quoted a) = false := by
    induction a with
    | nil => rfl
    | cons c a ih => simpa [quoted, isPattern] using ih
  cases a with
  | nil => rfl
  | cons c a =>
    rw [expands, hpattern]
    simp [quoted]

/-- A quoted word is neither an assignment nor a reserved word. -/
theorem isSpecialFirst_quoted (a : List Char) : isSpecialFirst (quoted a) = false := by
  cases a with
  | nil => decide
  | cons c a => simp [quoted, isSpecialFirst, startsWithName]

/-! ## Which words are read again -/

/-- The first word of the line does not name a command. -/
def StartsSpecial (args : List (List Char)) : Prop :=
  ∃ a ∈ args.head?, isSpecialFirst (unquoted a) = true

/-- A bare word that is not expanded. -/
def IsLiteralWord (a : List Char) : Prop := IsBareWord a ∧ expands (unquoted a) = false

instance (args : List (List Char)) : Decidable (StartsSpecial args) :=
  decidable_of_iff (args.head?.any (fun a => isSpecialFirst (unquoted a)) = true) (by
    cases hhead : args.head? <;> simp [StartsSpecial, hhead])

instance (a : List Char) : Decidable (IsLiteralWord a) := inferInstanceAs (Decidable (_ ∧ _))

theorem readWords_join {args : List (List Char)} (hargs : ∀ a ∈ args, IsBareWord a) :
    readWords (join args) = some (args.map unquoted) := by
  refine readWords_of_reads (reads_join ?_)
  rw [List.forall₂_map_right_iff, List.forall₂_same]
  exact fun a ha => writes_bare (hargs a ha)

theorem unquoted_of_readWords (h : readWords (join (ws.map text)) = some ws) :
    ∀ w ∈ ws, IsBareWord (text w) ∧ unquoted (text w) = w := by
  intro w hw
  have hne : ws.map text ≠ [] := by
    intro hnil
    rw [List.map_eq_nil_iff.mp hnil] at hw
    cases hw
  have hlength := length_join hne
  obtain ⟨a, ha, rfl⟩ :=
    isBareWord_of_readWords h (Nat.le_of_eq (hlength.trans (total_eq_of_text ws).symm)) w
      hw
  rw [text_unquoted]
  exact ⟨ha, rfl⟩

/-- A shell executes the words that were joined, exactly when they are literal
words and the first of them names a command. -/
theorem literalCommand_join_iff (args : List (List Char)) :
    literalCommand (join args) = some args ↔
      (∀ a ∈ args, IsLiteralWord a) ∧ ¬StartsSpecial args := by
  constructor
  · intro h
    unfold literalCommand at h
    split at h
    · cases h
    · rename_i ws hread
      split_ifs at h with hspecial
      cases h
      have hbare := unquoted_of_readWords hread
      rw [Bool.not_eq_true, Bool.or_eq_false_iff, List.any_eq_false] at hspecial
      refine ⟨fun a ha => ?_, ?_⟩
      · obtain ⟨w, hw, rfl⟩ := List.mem_map.mp ha
        obtain ⟨hword, heq⟩ := hbare w hw
        refine ⟨hword, ?_⟩
        rw [heq]
        exact Bool.eq_false_iff.mpr (hspecial.1 w hw)
      · rintro ⟨a, ha, hfirst⟩
        obtain ⟨w, hw, rfl⟩ := Option.map_eq_some_iff.mp (List.head?_map.symm.trans ha)
        rw [(hbare w (List.mem_of_mem_head? hw)).2] at hfirst
        rw [hw, Option.any_some, hfirst] at hspecial
        cases hspecial.2
  · rintro ⟨hargs, hfirst⟩
    have hexpands : (args.map unquoted).any expands = false := by
      rw [List.any_eq_false]
      intro w hw
      obtain ⟨a, ha, rfl⟩ := List.mem_map.mp hw
      simp [(hargs a ha).2]
    have hhead : (args.map unquoted).head?.any isSpecialFirst = false := by
      cases hhead : args.head? with
      | none => simp [hhead]
      | some a =>
        rw [List.head?_map, hhead]
        exact Bool.eq_false_iff.mpr fun hspecial => hfirst ⟨a, hhead, hspecial⟩
    unfold literalCommand
    rw [readWords_join fun a ha => (hargs a ha).1]
    simp only [hexpands, hhead, Bool.or_false, Bool.false_eq_true, if_false]
    simp [Function.comp_def]

end Shell
