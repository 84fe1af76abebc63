import Firedoze.Toml.Scan
import Mathlib.Tactic.Ring

/-!
# Strings that Go has quoted, as TOML reads them

`quote` is the verb `%q` of the package `fmt`.  It writes a string of Go with
the escapes of Go, which are not those of TOML: a control character can be
written as `\a`, `\v` or with `\x`, and so is a byte that is not part of a
character.  `GoChar.readable` says which characters TOML can read back.

* `run_quote`: a string of such characters is read as itself.
* `run_quote_none`: any other string is an error.
-/

namespace Text

/-- What a loop over a string of Go meets: a character, or a byte that is not
part of one. -/
inductive GoChar
  | rune (c : Char)
  | byte (b : UInt8)
  deriving DecidableEq, Repr

/-- A string of Go. -/
abbrev GoString := List GoChar

/-- A string that is valid UTF-8. -/
def goString (s : String) : GoString := s.toList.map .rune

/-- A hexadecimal digit. -/
def hexDigit (n : Nat) : Char := Char.ofNat (if n < 10 then 48 + n else 87 + n)

/-- The last `k` hexadecimal digits of a number. -/
def hexDigits : Nat → Nat → List Char
  | 0, _ => []
  | k + 1, n => hexDigit (n / 16 ^ k % 16) :: hexDigits k n

section Quote

variable (isPrint : Char → Bool)

/-- `appendEscapedRune` of the package `strconv`. -/
def escapeRune (c : Char) : List Char :=
  if c = '"' ∨ c = '\\' then ['\\', c]
  else if isPrint c then [c]
  else if c = '\x07' then ['\\', 'a']
  else if c = '\x08' then ['\\', 'b']
  else if c = '\x0c' then ['\\', 'f']
  else if c = '\n' then ['\\', 'n']
  else if c = '\r' then ['\\', 'r']
  else if c = '\t' then ['\\', 't']
  else if c = '\x0b' then ['\\', 'v']
  else if c.toNat < 32 ∨ c.toNat = 127 then '\\' :: 'x' :: hexDigits 2 c.toNat
  else if c.toNat < 65536 then '\\' :: 'u' :: hexDigits 4 c.toNat
  else '\\' :: 'U' :: hexDigits 8 c.toNat

/-- A character of a string in quotes. -/
def escape : GoChar → List Char
  | .rune c => escapeRune isPrint c
  | .byte b => '\\' :: 'x' :: hexDigits 2 b.toNat

/-- The verb `%q`. -/
def quote (s : GoString) : List Char := '"' :: (s.flatMap (escape isPrint) ++ ['"'])

end Quote

/-- The control characters that have an escape in TOML. -/
def hasEscape (c : Char) : Bool :=
  c == '\x08' || c == '\t' || c == '\n' || c == '\x0c' || c == '\r'

/-- The characters that TOML reads back. -/
def GoChar.readable : GoChar → Bool
  | .rune c => hasEscape c || (decide (32 ≤ c.toNat) && decide (c.toNat ≠ 127))
  | .byte _ => false

/-- A string that TOML reads back. -/
def GoString.Readable (s : GoString) : Prop := ∀ g ∈ s, g.readable = true

instance (s : GoString) : Decidable s.Readable := inferInstanceAs (Decidable (∀ g ∈ s, _))

/-- Such a string is valid UTF-8. -/
theorem GoString.Readable.exists_string {s : GoString} (h : s.Readable) :
    ∃ t, goString t = s := by
  have hrunes : ∃ cs : List Char, cs.map .rune = s := by
    induction s with
    | nil => exact ⟨[], rfl⟩
    | cons g s ih =>
      obtain ⟨cs, rfl⟩ := ih fun g' hg' => h g' (List.mem_cons_of_mem _ hg')
      cases g with
      | rune c => exact ⟨c :: cs, rfl⟩
      | byte b => exact absurd (h _ List.mem_cons_self) (by simp [GoChar.readable])
  obtain ⟨cs, rfl⟩ := hrunes
  exact ⟨String.ofList cs, by simp [goString]⟩

end Text

namespace Toml

open Text

section Read

variable {bare : List Char → Option Scalar} {es : List Expr} {ctx : Ctx} {acc rest : List Char}
  {isPrint : Char → Bool} {c d : Char}

theorem hexValue_hexDigit {n : Nat} (h : n < 16) : hexValue (hexDigit n) = some n := by
  have hall : ∀ n < 16, hexValue (hexDigit n) = some n := by decide
  exact hall n h

/-- The digits of a code point. -/
theorem run_hexDigits {k v n : Nat} (hvalid : (v * 16 ^ (k + 1) + n % 16 ^ (k + 1)).isValidChar) :
    run bare ⟨es, .quoted ctx (.hex false acc (k + 1) v)⟩ (hexDigits (k + 1) n ++ rest) =
      run bare ⟨es, .quoted ctx (.line true
        (acc ++ [Char.ofNat (v * 16 ^ (k + 1) + n % 16 ^ (k + 1))]))⟩ rest := by
  induction k generalizing v with
  | zero =>
    have hdigit := hexValue_hexDigit (n := n / 16 ^ 0 % 16) (Nat.mod_lt _ (by decide))
    simp only [Nat.pow_zero, Nat.div_one, Nat.zero_add, Nat.pow_one] at hdigit hvalid ⊢
    simp only [hexDigits, List.cons_append, List.nil_append, run_cons, step, Quoted.step,
      Quoted.hexStep, Nat.pow_zero, Nat.div_one, hdigit, if_true, if_pos hvalid]
    rfl
  | succ k ih =>
    have hdigit := hexValue_hexDigit (n := n / 16 ^ (k + 1) % 16) (Nat.mod_lt _ (by decide))
    have hvalue : (v * 16 + n / 16 ^ (k + 1) % 16) * 16 ^ (k + 1) + n % 16 ^ (k + 1) =
        v * 16 ^ (k + 1 + 1) + n % 16 ^ (k + 1 + 1) := by
      rw [Nat.mod_pow_succ (x := n) (b := 16) (k := k + 1)]
      ring
    have hnext := ih (v := v * 16 + n / 16 ^ (k + 1) % 16) (by rw [hvalue]; exact hvalid)
    rw [hvalue] at hnext
    rw [hexDigits, List.cons_append, run_cons]
    simp only [step, Quoted.step, Quoted.hexStep, hdigit, show k + 1 + 1 ≠ 1 by omega, if_false,
      Option.bind_some, Nat.add_sub_cancel]
    exact hnext

theorem char_of_hex {k : Nat} (h : c.toNat < 16 ^ k) :
    (0 * 16 ^ k + c.toNat % 16 ^ k).isValidChar ∧
      Char.ofNat (0 * 16 ^ k + c.toNat % 16 ^ k) = c := by
  rw [Nat.zero_mul, Nat.zero_add, Nat.mod_eq_of_lt h]
  exact ⟨c.valid, Char.ofNat_toNat c⟩

/-- The digits of a character are read as that character. -/
theorem run_hexRune {k : Nat} (h : c.toNat < 16 ^ (k + 1)) :
    run bare ⟨es, .quoted ctx (.hex false acc (k + 1) 0)⟩ (hexDigits (k + 1) c.toNat ++ rest) =
      run bare ⟨es, .quoted ctx (.line true (acc ++ [c]))⟩ rest := by
  obtain ⟨hvalid, hchar⟩ := char_of_hex h
  rw [run_hexDigits hvalid, hchar]

theorem isText_of_print (h : 32 ≤ c.toNat ∧ c.toNat ≠ 127) : isText c = true := by
  simp [isText, h.1, h.2]

/-- A character that TOML has an escape for is read back. -/
theorem run_escapeRune (hprint : ∀ c, isPrint c = true → 32 ≤ c.toNat ∧ c.toNat ≠ 127)
    (hc : (GoChar.rune c).readable = true) :
    run bare ⟨es, .quoted ctx (.line true acc)⟩ (escapeRune isPrint c ++ rest) =
      run bare ⟨es, .quoted ctx (.line true (acc ++ [c]))⟩ rest := by
  unfold escapeRune
  split
  · rename_i h
    rcases h with rfl | rfl <;> rfl
  rename_i hquote
  push Not at hquote
  split
  · rename_i hp
    have hstep : Quoted.step (.line true acc) c = some (.more (.line true (acc ++ [c]))) := by
      simp [Quoted.step, Quoted.lineStep, quoteChar, hquote, isText_of_print (hprint c hp)]
    simp only [List.cons_append, List.nil_append, run_cons, step, hstep, Option.bind_some]
  split
  · subst c
    cases hc
  split
  · subst c
    rfl
  split
  · subst c
    rfl
  split
  · subst c
    rfl
  split
  · subst c
    rfl
  split
  · subst c
    rfl
  split
  · subst c
    cases hc
  split
  · rename_i hcontrol
    have hescape : hasEscape c = false := by simp [hasEscape, *]
    simp only [GoChar.readable, hescape, Bool.false_or, Bool.and_eq_true,
      decide_eq_true_eq] at hc
    omega
  split
  · rename_i hsmall
    exact run_hexRune (k := 3) hsmall
  · have hlt : c.toNat < 16 ^ 8 := by
      have hvalid := c.valid
      simp only [UInt32.isValidChar, Nat.isValidChar] at hvalid
      simp only [Char.toNat]
      omega
    exact run_hexRune (k := 7) hlt

/-- The escapes of the other characters are not those of TOML. -/
theorem escape_of_unreadable (hprint : ∀ c, isPrint c = true → 32 ≤ c.toNat ∧ c.toNat ≠ 127)
    {g : GoChar} (hg : g.readable = false) :
    ∃ e tail, escape isPrint g = '\\' :: e :: tail ∧ (e = 'a' ∨ e = 'v' ∨ e = 'x') := by
  cases g with
  | byte b => exact ⟨_, _, rfl, by simp⟩
  | rune c =>
    simp only [GoChar.readable, hasEscape, Bool.or_eq_false_iff, beq_eq_false_iff_ne,
      Bool.and_eq_false_iff, decide_eq_false_iff_not] at hg
    obtain ⟨⟨⟨⟨⟨hb, ht⟩, hn⟩, hf⟩, hr⟩, hcontrol⟩ := hg
    have hcontrol' : c.toNat < 32 ∨ c.toNat = 127 := by omega
    have hquote : ¬ (c = '"' ∨ c = '\\') := by
      rintro (rfl | rfl) <;> exact absurd hcontrol' (by decide)
    have hp : isPrint c ≠ true := fun hp => by
      have := hprint c hp
      omega
    simp only [escape, escapeRune, if_neg hquote, if_neg hp, if_neg hb, if_neg ht, if_neg hn,
      if_neg hf, if_neg hr, if_pos hcontrol']
    split
    · exact ⟨_, _, rfl, by simp⟩
    · split
      · exact ⟨_, _, rfl, by simp⟩
      · exact ⟨_, _, rfl, by simp⟩

theorem run_escape_none (hprint : ∀ c, isPrint c = true → 32 ≤ c.toNat ∧ c.toNat ≠ 127)
    {g : GoChar} (hg : g.readable = false) :
    run bare ⟨es, .quoted ctx (.line true acc)⟩ (escape isPrint g ++ rest) = none := by
  obtain ⟨e, tail, hescape, he⟩ := escape_of_unreadable hprint hg
  rw [hescape]
  rcases he with rfl | rfl | rfl <;> rfl

/-- No character is written with a quote in front. -/
theorem escape_head (isPrint : Char → Bool) (g : GoChar) :
    ∃ d tail, escape isPrint g = d :: tail ∧ d ≠ '"' := by
  cases g with
  | byte b => exact ⟨_, _, rfl, by decide⟩
  | rune c =>
    by_cases hquote : c = '"' ∨ c = '\\'
    · exact ⟨_, _, if_pos hquote, by decide⟩
    by_cases hp : isPrint c = true
    · exact ⟨_, _, (if_neg hquote).trans (if_pos hp), fun h => hquote (Or.inl h)⟩
    · -- Everything else is written with a backslash.
      have hslash : (escapeRune isPrint c).head? = some '\\' := by
        unfold escapeRune
        rw [if_neg hquote, if_neg hp]
        repeat' split
        all_goals rfl
      obtain ⟨tail, htail⟩ := List.head?_eq_some_iff.mp hslash
      exact ⟨_, tail, htail, by decide⟩

/-- After the quote, the machine is in a string as soon as another character
follows. -/
theorem run_begun (hc : c ≠ '"') :
    run bare ⟨es, .quoted ctx (.begun true true)⟩ (c :: rest) =
      run bare ⟨es, .quoted ctx (.line true [])⟩ (c :: rest) := by
  have hstep : Quoted.step (.begun true true) c = Quoted.step (.line true []) c := by
    simp only [Quoted.step, quoteChar, if_true, if_neg hc]
  simp only [run_cons, step, hstep]

theorem run_begun_escape (g : GoChar) :
    run bare ⟨es, .quoted ctx (.begun true true)⟩ (escape isPrint g ++ rest) =
      run bare ⟨es, .quoted ctx (.line true [])⟩ (escape isPrint g ++ rest) := by
  obtain ⟨d, tail, hescape, hd⟩ := escape_head isPrint g
  rw [hescape]
  exact run_begun hd

theorem step_deliver {v : Value} : step bare (deliver es ctx v) c = separate es ctx v c := by
  cases ctx <;> rfl

/-- The characters of a string, inside of the quotes. -/
theorem run_escapes (hprint : ∀ c, isPrint c = true → 32 ≤ c.toNat ∧ c.toNat ≠ 127)
    {cs : List Char} (hcs : GoString.Readable (cs.map .rune)) :
    run bare ⟨es, .quoted ctx (.line true acc)⟩
        ((cs.map .rune).flatMap (escape isPrint) ++ rest) =
      run bare ⟨es, .quoted ctx (.line true (acc ++ cs))⟩ rest := by
  induction cs generalizing acc with
  | nil => simp
  | cons c cs ih =>
    have hc : (GoChar.rune c).readable = true := hcs _ (by simp)
    have htail : GoString.Readable (cs.map .rune) := fun g hg => hcs g (List.mem_cons_of_mem _ hg)
    simp only [List.map_cons, List.flatMap_cons, List.append_assoc, escape]
    rw [run_escapeRune hprint hc, ih htail, List.append_assoc, List.singleton_append]

/-- A string that TOML can read back, after its first quote and up to the
character that follows it. -/
theorem run_quote (hprint : ∀ c, isPrint c = true → 32 ≤ c.toNat ∧ c.toNat ≠ 127) {s : String}
    (hs : (goString s).Readable) (hd : d ≠ '"') :
    run bare ⟨es, .quoted ctx (.begun true true)⟩
        ((goString s).flatMap (escape isPrint) ++ '"' :: d :: rest) =
      (separate es ctx (.str s) d).bind fun st => run bare st rest := by
  have hofList : String.ofList s.toList = s := String.ofList_toList
  unfold goString at hs ⊢
  cases hcs : s.toList with
  | nil =>
    -- The empty string ends only with the character after the second quote.
    rw [hcs] at hofList
    simp only [List.map_nil, List.flatMap_nil, List.nil_append, run_cons, step, Quoted.step,
      quoteChar, if_true, Option.bind_some, if_neg hd, hofList]
  | cons c cs =>
    rw [hcs] at hs hofList
    have hbegun : run bare ⟨es, .quoted ctx (.begun true true)⟩
          (((c :: cs).map GoChar.rune).flatMap (escape isPrint) ++ '"' :: d :: rest) =
        run bare ⟨es, .quoted ctx (.line true [])⟩
          (((c :: cs).map GoChar.rune).flatMap (escape isPrint) ++ '"' :: d :: rest) := by
      simp only [List.map_cons, List.flatMap_cons, List.append_assoc]
      exact run_begun_escape _
    rw [hbegun, run_escapes hprint hs, List.nil_append, run_cons]
    have hlast : step bare ⟨es, .quoted ctx (.line true (c :: cs))⟩ '"' =
        some (deliver es ctx (.str s)) := by
      rw [← hofList]
      rfl
    rw [hlast, Option.bind_some, run_cons, step_deliver]

/-- Any other string is an error. -/
theorem run_quote_none (hprint : ∀ c, isPrint c = true → 32 ≤ c.toNat ∧ c.toNat ≠ 127)
    {s : GoString} (hs : ¬ s.Readable) :
    run bare ⟨es, .quoted ctx (.begun true true)⟩ (s.flatMap (escape isPrint) ++ rest) = none := by
  have hline : ∀ (s : GoString) (acc : List Char), ¬ s.Readable →
      run bare ⟨es, .quoted ctx (.line true acc)⟩ (s.flatMap (escape isPrint) ++ rest) = none := by
    intro s
    induction s with
    | nil => exact fun _ hs => absurd (fun _ hg => by cases hg) hs
    | cons g s ih =>
      intro acc hs
      rw [List.flatMap_cons, List.append_assoc]
      cases hg : g.readable with
      | false => exact run_escape_none hprint hg
      | true =>
        have htail : ¬ GoString.Readable s := fun h => hs fun g' hg' => by
          rcases List.mem_cons.mp hg' with rfl | hg'
          · exact hg
          · exact h g' hg'
        cases g with
        | byte b => cases hg
        | rune c =>
          rw [escape, run_escapeRune hprint hg]
          exact ih _ htail
  cases s with
  | nil => exact absurd (fun _ hg => by cases hg) hs
  | cons g s =>
    have hrun := hline (g :: s) [] hs
    rw [List.flatMap_cons, List.append_assoc] at hrun ⊢
    rw [run_begun_escape, hrun]

end Read

end Toml
