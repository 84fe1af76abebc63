import Firedoze.Client.Exec
import Firedoze.Text.Lines
import Firedoze.Text.Utf8

/-!
# Quoting for the shell

`shellJoin` writes a list of arguments as one line for a shell, and `ssh` hands
the line of `sshProxyCommand` to one.  An argument is any string of bytes, so
`shellQuoteBytes` and `shellJoinBytes` are the two functions over bytes.
`bytes_shellJoin` says that they agree with the functions over characters.

An argument is left alone if all of its runes are safe, and is put between single
quotes otherwise.  A rune is safe only if it is a byte, and a safe byte stands for
itself in a shell (`isPlain_of_isSafe`).  So each argument is one word
(`writes_shellQuote`), and the line is read as the arguments
(`shellJoin_reads_arguments`).

The shell looks at the first word of a line once more.  It can be an assignment or
a reserved word, and `shellQuote` does not quote `A=b` or `if`
(`literalCommand_shellJoin_iff`).  `ssh` puts `exec` before the line of
`sshProxyCommand` and expands what follows a percent sign, which `shellQuote` does
not protect (`sshProxyCommand_executes`).
-/

namespace Firedoze.Client

open Text Shell

/-! ## The two functions over bytes -/

/-- The runes that `shellQuote` leaves alone. -/
def isSafeRune (r : Nat) : Bool :=
  r == '/'.toNat || r == '.'.toNat || r == '_'.toNat || r == '-'.toNat || r == ':'.toNat ||
    r == '='.toNat || r == '@'.toNat || ('0'.toNat ≤ r && r ≤ '9'.toNat) ||
    ('A'.toNat ≤ r && r ≤ 'Z'.toNat) || ('a'.toNat ≤ r && r ≤ 'z'.toNat)

/-- The byte of the single quote. -/
def singleQuoteByte : UInt8 := 39

/-- `shellQuote`. -/
def shellQuoteBytes (arg : Bytes) : Bytes :=
  if arg = [] then bytes "''"
  else if (runes arg).any (fun r => !isSafeRune r) = false then arg
  else
    bytes "'" ++ arg.flatMap (fun b => if b = singleQuoteByte then bytes "'\\''" else [b]) ++
      bytes "'"

/-- `shellJoin`. -/
def shellJoinBytes (args : List Bytes) : Bytes := (bytes " ").intercalate (args.map shellQuoteBytes)

theorem isSafeRune_toNat (c : Char) : isSafeRune c.toNat = isSafe c := by
  have hle : ∀ d e : Char, decide (d ≤ e) = decide (d.toNat ≤ e.toNat) := fun _ _ => rfl
  have heq : ∀ d : Char, (c.toNat == d.toNat) = (c == d) := by
    intro d
    rw [Bool.eq_iff_iff, beq_iff_eq, beq_iff_eq, Char.toNat_inj]
  simp only [isSafeRune, isSafe, heq, hle]

theorem isSafeRune_of_ge {r : Nat} (h : 128 ≤ r) : (!isSafeRune r) = true := by
  have hs : ∀ d : Char, d.toNat < 128 → (r == d.toNat) = false := by
    intro d hd
    simp
    omega
  have hle : ∀ d : Char, d.toNat < 128 → decide (r ≤ d.toNat) = false := by
    intro d hd
    simp
    omega
  simp (disch := decide) only [isSafeRune, hs, hle, Bool.and_false, Bool.or_false, Bool.not_false]

/-- The argument is left alone. -/
def AllSafe (arg : Bytes) : Prop := arg ≠ [] ∧ ∀ b ∈ arg, isSafeRune b.toNat = true

instance (arg : Bytes) : Decidable (AllSafe arg) :=
  decidable_of_iff (arg ≠ [] ∧ arg.all (fun b => isSafeRune b.toNat) = true) (by simp [AllSafe])

theorem shellQuoteBytes_eq (arg : Bytes) :
    shellQuoteBytes arg =
      if AllSafe arg then arg
      else
        bytes "'" ++ arg.flatMap (fun b => if b = singleQuoteByte then bytes "'\\''" else [b]) ++
          bytes "'" := by
  have hsafe : (runes arg).any (fun r => !isSafeRune r) = false ↔
      ∀ b ∈ arg, isSafeRune b.toNat = true := by
    rw [any_runes (fun r => isSafeRune_of_ge), List.any_eq_false]
    simp
  unfold shellQuoteBytes
  by_cases hnil : arg = []
  · subst hnil
    rw [if_pos rfl, if_neg (fun h => h.1 rfl)]
    decide
  · rw [if_neg hnil]
    exact ite_cond_congr (propext (hsafe.trans ⟨fun h => ⟨hnil, h⟩, fun h => h.2⟩))

/-! ## The functions over characters -/

theorem bytes_shellQuote (arg : String) : bytes (shellQuote arg) = shellQuoteBytes (bytes arg) := by
  have hnil : bytes arg = [] ↔ arg = "" := by
    rw [← bytes_injective.eq_iff]
    exact Iff.rfl
  have hsafe : (runes (bytes arg)).any (fun r => !isSafeRune r) = false ↔
      arg.toList.all isSafe = true := by
    rw [any_runes (fun r => isSafeRune_of_ge), any_bytes (fun r => isSafeRune_of_ge)]
    simp [isSafeRune_toNat]
  unfold shellQuote shellQuoteBytes
  simp only [hnil, hsafe]
  split_ifs
  · rfl
  · rfl
  · rw [bytes_append, bytes_append, bytes_replace (by decide)]
    rfl

/-- The functions over bytes and over characters agree. -/
theorem bytes_shellJoin (args : List String) :
    bytes (shellJoin args) = shellJoinBytes (args.map bytes) := by
  rw [shellJoin, bytes_intercalate, shellJoinBytes, List.map_map, List.map_map]
  exact congrArg _ (List.map_congr_left fun arg _ => bytes_shellQuote arg)

/-! ## One word for each argument -/

/-- The word that a shell reads for an argument. -/
def shellWord (arg : Bytes) : Word :=
  if AllSafe arg then unquoted (ofBytes arg) else quoted (ofBytes arg)

/-- A safe byte stands for itself, and starts no comment and no expansion. -/
theorem isPlain_of_isSafe {b : UInt8} (h : isSafeRune b.toNat = true) :
    isPlain (Char.ofUInt8 b) = true ∧
      ∀ c ∈ ['#', '~', '*', '?', '['], Char.ofUInt8 b ≠ c := by
  have hall : (List.range 256).all (fun n => !isSafeRune n ||
      (isPlain (Char.ofUInt8 (UInt8.ofNat n)) &&
        ['#', '~', '*', '?', '['].all fun c => Char.ofUInt8 (UInt8.ofNat n) != c)) = true := by
    decide +kernel
  have hb := List.all_eq_true.mp hall b.toNat (List.mem_range.mpr b.toNat_lt)
  rw [UInt8.ofNat_toNat, h] at hb
  simpa using hb

@[simp] theorem ofBytes_append (a b : Bytes) : ofBytes (a ++ b) = ofBytes a ++ ofBytes b :=
  List.map_append

theorem isBareWord_of_allSafe {arg : Bytes} (h : AllSafe arg) : IsBareWord (ofBytes arg) := by
  refine ⟨by simpa [ofBytes] using h.1, ?_, ?_⟩
  · intro c hc
    obtain ⟨b, hb, rfl⟩ := List.mem_map.mp hc
    exact (isPlain_of_isSafe (h.2 b hb)).1
  · intro hhead
    obtain ⟨b, hb, heq⟩ := List.mem_map.mp (List.mem_of_mem_head? hhead)
    exact (isPlain_of_isSafe (h.2 b hb)).2 '#' (by decide) heq

theorem expands_of_allSafe {arg : Bytes} (h : AllSafe arg) :
    expands (unquoted (ofBytes arg)) = false := by
  have hpattern : isPattern (unquoted (ofBytes arg)) = false := by
    have hbytes := h.2
    clear h
    induction arg with
    | nil => rfl
    | cons b arg ih =>
      have hb := (isPlain_of_isSafe (hbytes b List.mem_cons_self)).2
      have hrest := ih fun b' hb' => hbytes b' (List.mem_cons_of_mem _ hb')
      simpa [unquoted, ofBytes, isPattern, hb] using hrest
  obtain ⟨hne, hbytes⟩ := h
  cases arg with
  | nil => exact absurd rfl hne
  | cons b arg =>
    have hb := (isPlain_of_isSafe (hbytes b List.mem_cons_self)).2 '~' (by decide)
    rw [expands, hpattern]
    simpa [unquoted, ofBytes] using hb

theorem ofBytes_quote (arg : Bytes) :
    ofBytes (bytes "'" ++
        arg.flatMap (fun b => if b = singleQuoteByte then bytes "'\\''" else [b]) ++ bytes "'") =
      singleQuote (ofBytes arg) := by
  have hchar : ∀ b : UInt8,
      ofBytes (if b = singleQuoteByte then bytes "'\\''" else [b]) =
        quoteChar (Char.ofUInt8 b) := by
    intro b
    have hiff : Char.ofUInt8 b = '\'' ↔ b = singleQuoteByte := by
      rw [← Char.toNat_inj, ← UInt8.toNat_inj]
      exact Iff.rfl
    unfold quoteChar
    simp only [hiff]
    split_ifs
    · decide
    · rfl
  have hflat : ofBytes (arg.flatMap fun b => if b = singleQuoteByte then bytes "'\\''" else [b]) =
      (ofBytes arg).flatMap quoteChar := by
    rw [ofBytes, List.map_flatMap, ofBytes, List.flatMap_map]
    exact List.flatMap_congr fun b _ => hchar b
  rw [ofBytes_append, ofBytes_append, hflat]
  rfl

/-- A shell reads one word for each argument. -/
theorem writes_shellQuote (arg : Bytes) :
    Writes (ofBytes (shellQuoteBytes arg)) (shellWord arg) := by
  rw [shellQuoteBytes_eq]
  unfold shellWord
  split_ifs with hsafe
  · exact writes_bare (isBareWord_of_allSafe hsafe)
  · rw [ofBytes_quote]
    exact writes_singleQuote _

theorem text_shellWord (arg : Bytes) : text (shellWord arg) = ofBytes arg := by
  unfold shellWord
  split_ifs
  · exact text_unquoted _
  · exact text_quoted _

theorem expands_shellWord (arg : Bytes) : expands (shellWord arg) = false := by
  unfold shellWord
  split_ifs with hsafe
  · exact expands_of_allSafe hsafe
  · exact expands_quoted _

theorem ofBytes_shellJoin (args : List Bytes) :
    ofBytes (shellJoinBytes args) = join (args.map fun arg => ofBytes (shellQuoteBytes arg)) := by
  have hflat : ∀ s : Bytes, ofBytes s = s.flatMap fun b => [Char.ofUInt8 b] := fun s =>
    List.map_eq_flatMap
  rw [hflat, shellJoinBytes, flatMap_intercalate, List.map_map, join]
  simp only [hflat]
  rfl

theorem reads_shellJoin (args : List Bytes) :
    Reads (ofBytes (shellJoinBytes args)) (args.map shellWord) := by
  rw [ofBytes_shellJoin]
  refine reads_join ?_
  rw [List.forall₂_map_left_iff, List.forall₂_map_right_iff, List.forall₂_same]
  exact fun arg _ => writes_shellQuote arg

/-- A shell reads the line as the arguments.  The reader stops at an operator and
at an expansion that starts with a dollar or a back quote, so there is none of
them, and no word is a pattern or starts with a tilde. -/
theorem shellJoin_reads_arguments (args : List Bytes) :
    ∃ ws, Reads (ofBytes (shellJoinBytes args)) ws ∧ ws.map text = args.map ofBytes ∧
      ∀ w ∈ ws, expands w = false := by
  refine ⟨args.map shellWord, reads_shellJoin args, ?_, ?_⟩
  · rw [List.map_map]
    exact List.map_congr_left fun arg _ => text_shellWord arg
  · intro w hw
    obtain ⟨arg, -, rfl⟩ := List.mem_map.mp hw
    exact expands_shellWord arg

/-! ## The first word -/

/-- The first argument is left alone, and a shell does not take it for the name of a
command. -/
def StartsSpecialUnquoted (args : List Bytes) : Prop :=
  ∃ arg ∈ args.head?, AllSafe arg ∧ isSpecialFirst (unquoted (ofBytes arg)) = true

/-- A shell executes the arguments, unless the first one is left alone and is an
assignment, a label or a reserved word. -/
theorem literalCommand_shellJoin_iff (args : List Bytes) :
    literalCommand (ofBytes (shellJoinBytes args)) = some (args.map ofBytes) ↔
      ¬StartsSpecialUnquoted args := by
  have hwords := readWords_of_reads (reads_shellJoin args)
  have htext : (args.map shellWord).map text = args.map ofBytes := by
    rw [List.map_map]
    exact List.map_congr_left fun arg _ => text_shellWord arg
  have hexpands : (args.map shellWord).any expands = false := by
    rw [List.any_eq_false]
    intro w hw
    obtain ⟨arg, -, rfl⟩ := List.mem_map.mp hw
    simp [expands_shellWord]
  have hfirst : (args.map shellWord).head?.any isSpecialFirst = true ↔
      StartsSpecialUnquoted args := by
    cases args with
    | nil => simp [StartsSpecialUnquoted]
    | cons arg args =>
      by_cases hsafe : AllSafe arg
      · simp [StartsSpecialUnquoted, shellWord, hsafe]
      · simp [StartsSpecialUnquoted, shellWord, hsafe, isSpecialFirst_quoted]
  unfold literalCommand
  rw [hwords]
  simp only [hexpands, Bool.false_or, htext]
  rw [← hfirst]
  split_ifs with hspecial
  · exact ⟨fun h => absurd h (by simp), fun h => absurd hspecial h⟩
  · exact ⟨fun _ => hspecial, fun _ => rfl⟩

/-! ## The line of a proxy command -/

/-- The expansion of the tokens in a `ProxyCommand`.  A percent sign and a key
stand for the text of the key.  A key without a text is an error, and so is a
percent sign at the end. -/
def percentExpand (tokens : Char → Option (List Char)) : List Char → Option (List Char)
  | [] => some []
  | c :: rest =>
      if c ≠ '%' then (percentExpand tokens rest).map (c :: ·)
      else
        match rest with
        | [] => none
        | key :: rest => (tokens key).bind fun text => (percentExpand tokens rest).map (text ++ ·)

/-- What `ssh` gives to a shell for a `ProxyCommand`: the shell is to execute
the command in its own place. -/
def proxyLine (tokens : Char → Option (List Char)) (command : List Char) : Option (List Char) :=
  percentExpand tokens ("exec ".toList ++ command)

theorem percentExpand_of_notMem {tokens : Char → Option (List Char)} {s : List Char}
    (h : '%' ∉ s) : percentExpand tokens s = some s := by
  induction s with
  | nil => rfl
  | cons c s ih =>
    simp only [List.mem_cons, not_or] at h
    unfold percentExpand
    rw [if_pos (Ne.symm h.1), ih h.2]
    rfl

/-- The byte of the percent sign. -/
def percentByte : UInt8 := 37

theorem percentByte_notMem_shellQuote {arg : Bytes} (h : percentByte ∉ arg) :
    percentByte ∉ shellQuoteBytes arg := by
  have hquote : percentByte ∉ bytes "''" ∧ percentByte ∉ bytes "'" ∧
      percentByte ∉ bytes "'\\''" := by decide
  unfold shellQuoteBytes
  split_ifs
  · exact hquote.1
  · exact h
  · simp only [List.mem_append, List.mem_flatMap, not_or, not_exists, not_and]
    refine ⟨⟨hquote.2.1, fun b hb => ?_⟩, hquote.2.1⟩
    split_ifs
    · exact hquote.2.2
    · rw [List.mem_singleton]
      rintro rfl
      exact h hb

theorem percentByte_notMem_shellJoin {args : List Bytes} (h : ∀ arg ∈ args, percentByte ∉ arg) :
    percentByte ∉ shellJoinBytes args := by
  have hblank : bytes " " = [32] := by decide
  rw [shellJoinBytes, hblank, mem_intercalate_iff (by decide)]
  rintro ⟨part, hpart, hmem⟩
  obtain ⟨arg, harg, rfl⟩ := List.mem_map.mp hpart
  exact percentByte_notMem_shellQuote (h arg harg) hmem

theorem percentExpand_shellJoin {tokens : Char → Option (List Char)} {args : List Bytes}
    (h : ∀ arg ∈ args, percentByte ∉ arg) :
    percentExpand tokens (ofBytes (shellJoinBytes args)) =
      some (ofBytes (shellJoinBytes args)) := by
  refine percentExpand_of_notMem fun hmem => ?_
  obtain ⟨b, hb, heq⟩ := List.mem_map.mp hmem
  obtain rfl : b = percentByte := by
    rw [← UInt8.toNat_inj]
    exact congrArg Char.toNat heq
  exact percentByte_notMem_shellJoin h hb

/-- A shell executes the arguments of `shellJoin` behind `exec`, whatever the
first of them is. -/
theorem proxyLine_shellJoin (tokens : Char → Option (List Char)) (arg : String)
    (args : List String) (h : ∀ s ∈ arg :: args, percentByte ∉ bytes s) :
    (proxyLine tokens (ofBytes (bytes (shellJoin (arg :: args))))).bind literalCommand =
      some (("exec" :: arg :: args).map fun arg => ofBytes (bytes arg)) := by
  -- The word `exec` is one more argument of `shellJoin`.
  have hexec : "exec ".toList ++ ofBytes (shellJoinBytes ((arg :: args).map bytes)) =
      ofBytes (shellJoinBytes (("exec" :: arg :: args).map bytes)) := by
    have hquote : ofBytes (shellQuoteBytes (bytes "exec")) ++ ofBytes (bytes " ") =
        "exec ".toList := by decide +kernel
    simp only [shellJoinBytes, List.map_cons, List.intercalate_cons_cons, ofBytes_append, hquote]
  have hargs : ∀ b ∈ ("exec" :: arg :: args).map bytes, percentByte ∉ b := by
    rw [List.map_cons, List.forall_mem_cons, List.forall_mem_map]
    exact ⟨by decide, h⟩
  rw [proxyLine, bytes_shellJoin, hexec, percentExpand_shellJoin hargs, Option.bind_some,
    ← Function.comp_def, ← List.map_map]
  refine (literalCommand_shellJoin_iff _).mpr ?_
  rintro ⟨first, hfirst, -, hspecial⟩
  obtain rfl : bytes "exec" = first := by simpa using hfirst
  revert hspecial
  decide

end Firedoze.Client
