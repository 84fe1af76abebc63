import Mathlib.Data.List.Basic

/-!
# The expressions of a TOML document

The grammar of TOML 1.0 as a machine that takes one character at a time.  A
`Mode` says where the machine stands: in a comment, in a key, in a string, in
an array inside of an inline table.  `scan` runs it over a text and answers the
expressions: the table headers, and the keys with their values.

A value without quotes is a token.  What the tokens mean is the parameter
`bare`, which can be any function.

The machine makes it plain what it means to write behind a document.
`step_newline` says that a line break after a complete document leads to the
beginning of a line, whatever the document ends with, and `scan_append` that
the machine then goes on with what follows.
-/

namespace Toml

/-! ## Values -/

/-- The value of a token: an integer, a boolean, or a float or a date. -/
inductive Scalar
  | int (n : Int)
  | bool (b : Bool)
  | other
  deriving DecidableEq, Repr

/-- A value.  The members of an inline table have dotted keys. -/
inductive Value
  | str (s : String)
  | scalar (x : Scalar)
  | arr (elems : List Value)
  | tbl (members : List (List String × Value))

/-- An expression, with its dotted key. -/
inductive Expr
  | keyValue (key : List String) (v : Value)
  | table (key : List String)
  | arrayTable (key : List String)

/-! ## Characters -/

/-- Blanks inside of a line. -/
def isBlank (c : Char) : Bool := c == ' ' || c == '\t'

/-- Characters of a bare key. -/
def isKeyChar (c : Char) : Bool := c.isAlphanum || c == '_' || c == '-'

/-- Characters of a token. -/
def isTokenChar (c : Char) : Bool := isKeyChar c || c == '+' || c == '.' || c == ':'

/-- Characters of a comment, and of a string on one line. -/
def isText (c : Char) : Bool := c == '\t' || (decide (32 ≤ c.toNat) && decide (c.toNat ≠ 127))

/-- The value of a hexadecimal digit. -/
def hexValue (c : Char) : Option Nat :=
  if 48 ≤ c.toNat ∧ c.toNat ≤ 57 then some (c.toNat - 48)
  else if 97 ≤ c.toNat ∧ c.toNat ≤ 102 then some (c.toNat - 87)
  else if 65 ≤ c.toNat ∧ c.toNat ≤ 70 then some (c.toNat - 55)
  else none

/-! ## Strings -/

/-- Where the machine stands in the blanks that a backslash at the end of a
line removes. -/
inductive Fold
  | line
  | cr
  | lines
  deriving DecidableEq, Repr

/-- Where the machine stands in a string.  `basic` is a string in double
quotes, and `multi` one of several lines. -/
inductive Quoted
  | begun (basic multi : Bool)
  | twice (basic : Bool)
  | line (basic : Bool) (acc : List Char)
  | escape (multi : Bool) (acc : List Char)
  | hex (multi : Bool) (acc : List Char) (left value : Nat)
  | opened (basic : Bool)
  | openedCR (basic : Bool)
  | block (basic : Bool) (acc : List Char) (quotes : Nat)
  | blockCR (basic : Bool) (acc : List Char)
  | fold (acc : List Char) (f : Fold)
  deriving DecidableEq, Repr

/-- One character of a string: the string goes on, it ends with the character,
or it has ended before. -/
inductive Step
  | more (q : Quoted)
  | last (text : List Char)
  | before (text : List Char)
  deriving DecidableEq, Repr

/-- The quote of a string. -/
def quoteChar (basic : Bool) : Char := if basic then '"' else '\''

namespace Quoted

/-- Back in the string after an escape. -/
def resume (multi : Bool) (acc : List Char) : Quoted :=
  if multi then .block true acc 0 else .line true acc

/-- In a string on one line. -/
def lineStep (basic : Bool) (acc : List Char) (c : Char) : Option Step :=
  if c = quoteChar basic then some (.last acc)
  else if basic ∧ c = '\\' then some (.more (.escape false acc))
  else if isText c then some (.more (.line basic (acc ++ [c])))
  else none

/-- The escapes of one character. -/
def simpleEscape (c : Char) : Option Char :=
  if c = 'b' then some '\x08'
  else if c = 't' then some '\t'
  else if c = 'n' then some '\n'
  else if c = 'f' then some '\x0c'
  else if c = 'r' then some '\r'
  else if c = '"' ∨ c = '\\' then some c
  else none

/-- In the blanks that a backslash removes, up to the line break. -/
def foldStep (acc : List Char) (c : Char) : Option Step :=
  if isBlank c then some (.more (.fold acc .line))
  else if c = '\n' then some (.more (.fold acc .lines))
  else if c = '\r' then some (.more (.fold acc .cr))
  else none

/-- After a backslash. -/
def escapeStep (multi : Bool) (acc : List Char) (c : Char) : Option Step :=
  match simpleEscape c with
  | some d => some (.more (resume multi (acc ++ [d])))
  | none =>
      if c = 'u' then some (.more (.hex multi acc 4 0))
      else if c = 'U' then some (.more (.hex multi acc 8 0))
      else if multi then foldStep acc c
      else none

/-- In the digits of a code point. -/
def hexStep (multi : Bool) (acc : List Char) (left value : Nat) (c : Char) : Option Step :=
  match hexValue c with
  | none => none
  | some d =>
      if left = 1 then
        if (value * 16 + d).isValidChar then
          some (.more (resume multi (acc ++ [Char.ofNat (value * 16 + d)])))
        else none
      else some (.more (.hex multi acc (left - 1) (value * 16 + d)))

/-- In a string of several lines, after some quotes.  It ends with three of
them, and two more can stand before these. -/
def blockStep (basic : Bool) (acc : List Char) (quotes : Nat) (c : Char) : Option Step :=
  if c = quoteChar basic then
    if quotes = 5 then none else some (.more (.block basic acc (quotes + 1)))
  else if 3 ≤ quotes then some (.before (acc ++ List.replicate (quotes - 3) (quoteChar basic)))
  else
    let acc := acc ++ List.replicate quotes (quoteChar basic)
    if basic ∧ c = '\\' then some (.more (.escape true acc))
    else if c = '\r' then some (.more (.blockCR basic acc))
    else if c = '\n' ∨ isText c then some (.more (.block basic (acc ++ [c]) 0))
    else none

/-- One character of a string. -/
def step : Quoted → Char → Option Step
  | .begun basic multi, c =>
      if c = quoteChar basic then some (if multi then .more (.twice basic) else .last [])
      else lineStep basic [] c
  | .twice basic, c =>
      some (if c = quoteChar basic then .more (.opened basic) else .before [])
  | .line basic acc, c => lineStep basic acc c
  | .escape multi acc, c => escapeStep multi acc c
  | .hex multi acc left value, c => hexStep multi acc left value c
  | .opened basic, c =>
      -- A line break right after the quotes is not part of the string.
      if c = '\n' then some (.more (.block basic [] 0))
      else if c = '\r' then some (.more (.openedCR basic))
      else blockStep basic [] 0 c
  | .openedCR basic, c => if c = '\n' then some (.more (.block basic [] 0)) else none
  | .block basic acc quotes, c => blockStep basic acc quotes c
  | .blockCR basic acc, c =>
      if c = '\n' then some (.more (.block basic (acc ++ ['\r', '\n']) 0)) else none
  | .fold acc .line, c => foldStep acc c
  | .fold acc .cr, c => if c = '\n' then some (.more (.fold acc .lines)) else none
  | .fold acc .lines, c =>
      if isBlank c ∨ c = '\n' then some (.more (.fold acc .lines))
      else if c = '\r' then some (.more (.fold acc .cr))
      else blockStep true acc 0 c

/-- The string, if it is known to be complete at the end of the text. -/
def finish : Quoted → Option (List Char)
  | .twice _ => some []
  | .block basic acc quotes =>
      if 3 ≤ quotes then some (acc ++ List.replicate (quotes - 3) (quoteChar basic)) else none
  | _ => none

theorem newline_ne_quoteChar (basic : Bool) : '\n' ≠ quoteChar basic := by cases basic <;> decide

/-- A string that is complete ends before a line break. -/
theorem step_newline {q : Quoted} {t : List Char} (h : q.finish = some t) :
    q.step '\n' = some (.before t) := by
  cases q with
  | twice basic =>
    cases h
    simp [step, newline_ne_quoteChar]
  | block basic acc quotes =>
    simp only [finish] at h
    split at h
    · rename_i hquotes
      cases h
      simp [step, blockStep, newline_ne_quoteChar, hquotes]
    · cases h
  | begun basic multi | line basic acc | escape multi acc | hex multi acc left value
  | opened basic | openedCR basic | blockCR basic acc | fold acc f => cases h

end Quoted

/-! ## The machine -/

/-- Where a value stands: behind the key of a line, in an array after some
elements, or in an inline table behind a key and after some members. -/
inductive Ctx
  | top (key : List String)
  | arr (elems : List Value) (outer : Ctx)
  | tbl (members : List (List String × Value)) (key : List String) (outer : Ctx)

/-- What a key is for. -/
inductive KeyUse
  | table
  | arrayTable
  | line
  | member (members : List (List String × Value)) (outer : Ctx)

/-- What stands between the elements of an array. -/
inductive Gap
  | plain
  | comment
  | cr

/-- Where the machine stands. -/
inductive Mode
  | start
  | comment
  | cr
  | after
  | bracket
  | key (use : KeyUse) (parts : List String)
  | bareKey (use : KeyUse) (parts : List String) (acc : List Char)
  | quotedKey (use : KeyUse) (parts : List String) (q : Quoted)
  | keyEnd (use : KeyUse) (parts : List String)
  | closing (key : List String)
  | value (ctx : Ctx)
  | token (ctx : Ctx) (acc : List Char)
  | date (ctx : Ctx) (acc : List Char)
  | quoted (ctx : Ctx) (q : Quoted)
  | array (ctx : Ctx) (elems : List Value) (item : Bool) (gap : Gap)
  | brace (ctx : Ctx)
  | member (ctx : Ctx) (members : List (List String × Value))

/-- The expressions so far, and the mode. -/
structure State where
  exprs : List Expr
  mode : Mode

section Machine

variable (bare : List Char → Option Scalar) (es : List Expr)

/-- A value is complete. -/
def deliver : Ctx → Value → State
  | .top key, v => ⟨es ++ [.keyValue key v], .after⟩
  | .arr elems outer, v => ⟨es, .array outer (elems ++ [v]) false .plain⟩
  | .tbl members key outer, v => ⟨es, .member outer (members ++ [(key, v)])⟩

/-- A key begins. -/
def keyStart (use : KeyUse) (parts : List String) (c : Char) : Option State :=
  if c = '"' then some ⟨es, .quotedKey use parts (.begun true false)⟩
  else if c = '\'' then some ⟨es, .quotedKey use parts (.begun false false)⟩
  else if isKeyChar c then some ⟨es, .bareKey use parts [c]⟩
  else none

/-- After a part of a key. -/
def keyEndStep (use : KeyUse) (parts : List String) (c : Char) : Option State :=
  if isBlank c then some ⟨es, .keyEnd use parts⟩
  else if c = '.' then some ⟨es, .key use parts⟩
  else
    match use with
    | .line => if c = '=' then some ⟨es, .value (.top parts)⟩ else none
    | .member members outer =>
        if c = '=' then some ⟨es, .value (.tbl members parts outer)⟩ else none
    | .table => if c = ']' then some ⟨es ++ [.table parts], .after⟩ else none
    | .arrayTable => if c = ']' then some ⟨es, .closing parts⟩ else none

/-- A value begins. -/
def valueStart (ctx : Ctx) (c : Char) : Option State :=
  if c = '"' then some ⟨es, .quoted ctx (.begun true true)⟩
  else if c = '\'' then some ⟨es, .quoted ctx (.begun false true)⟩
  else if c = '[' then some ⟨es, .array ctx [] true .plain⟩
  else if c = '{' then some ⟨es, .brace ctx⟩
  else if isTokenChar c then some ⟨es, .token ctx [c]⟩
  else none

/-- At the end of a line. -/
def afterStep (c : Char) : Option State :=
  if isBlank c then some ⟨es, .after⟩
  else if c = '#' then some ⟨es, .comment⟩
  else if c = '\n' then some ⟨es, .start⟩
  else if c = '\r' then some ⟨es, .cr⟩
  else none

/-- In an array. -/
def arrayStep (ctx : Ctx) (elems : List Value) (item : Bool) : Gap → Char → Option State
  | .comment, c =>
      if c = '\n' then some ⟨es, .array ctx elems item .plain⟩
      else if c = '\r' then some ⟨es, .array ctx elems item .cr⟩
      else if isText c then some ⟨es, .array ctx elems item .comment⟩
      else none
  | .cr, c => if c = '\n' then some ⟨es, .array ctx elems item .plain⟩ else none
  | .plain, c =>
      if isBlank c ∨ c = '\n' then some ⟨es, .array ctx elems item .plain⟩
      else if c = '\r' then some ⟨es, .array ctx elems item .cr⟩
      else if c = '#' then some ⟨es, .array ctx elems item .comment⟩
      else if c = ']' then some (deliver es ctx (.arr elems))
      else if item then valueStart es (.arr elems ctx) c
      else if c = ',' then some ⟨es, .array ctx elems true .plain⟩
      else none

/-- After a member of an inline table. -/
def memberStep (ctx : Ctx) (members : List (List String × Value)) (c : Char) : Option State :=
  if isBlank c then some ⟨es, .member ctx members⟩
  else if c = ',' then some ⟨es, .key (.member members ctx) []⟩
  else if c = '}' then some (deliver es ctx (.tbl members))
  else none

/-- The character after a value. -/
def separate (ctx : Ctx) (v : Value) (c : Char) : Option State :=
  match ctx with
  | .top key => afterStep (es ++ [.keyValue key v]) c
  | .arr elems outer => arrayStep es outer (elems ++ [v]) false .plain c
  | .tbl members key outer => memberStep es outer (members ++ [(key, v)]) c

/-- A token that is a date: a blank and the time can follow. -/
def isDate (token : List Char) : Bool :=
  decide (token.length = 10) && token[4]? == some '-' && token[7]? == some '-'

/-- One character. -/
def step : State → Char → Option State
  | ⟨es, .start⟩, c =>
      if isBlank c ∨ c = '\n' then some ⟨es, .start⟩
      else if c = '\r' then some ⟨es, .cr⟩
      else if c = '#' then some ⟨es, .comment⟩
      else if c = '[' then some ⟨es, .bracket⟩
      else keyStart es .line [] c
  | ⟨es, .comment⟩, c =>
      if c = '\n' then some ⟨es, .start⟩
      else if c = '\r' then some ⟨es, .cr⟩
      else if isText c then some ⟨es, .comment⟩
      else none
  | ⟨es, .cr⟩, c => if c = '\n' then some ⟨es, .start⟩ else none
  | ⟨es, .after⟩, c => afterStep es c
  | ⟨es, .bracket⟩, c =>
      if c = '[' then some ⟨es, .key .arrayTable []⟩
      else if isBlank c then some ⟨es, .key .table []⟩
      else keyStart es .table [] c
  | ⟨es, .key use parts⟩, c =>
      if isBlank c then some ⟨es, .key use parts⟩ else keyStart es use parts c
  | ⟨es, .bareKey use parts acc⟩, c =>
      if isKeyChar c then some ⟨es, .bareKey use parts (acc ++ [c])⟩
      else keyEndStep es use (parts ++ [String.ofList acc]) c
  | ⟨es, .quotedKey use parts q⟩, c =>
      match q.step c with
      | none => none
      | some (.more q) => some ⟨es, .quotedKey use parts q⟩
      | some (.last t) => some ⟨es, .keyEnd use (parts ++ [String.ofList t])⟩
      | some (.before t) => keyEndStep es use (parts ++ [String.ofList t]) c
  | ⟨es, .keyEnd use parts⟩, c => keyEndStep es use parts c
  | ⟨es, .closing key⟩, c =>
      if c = ']' then some ⟨es ++ [.arrayTable key], .after⟩ else none
  | ⟨es, .value ctx⟩, c => if isBlank c then some ⟨es, .value ctx⟩ else valueStart es ctx c
  | ⟨es, .token ctx acc⟩, c =>
      if isTokenChar c then some ⟨es, .token ctx (acc ++ [c])⟩
      else if c = ' ' ∧ isDate acc then some ⟨es, .date ctx acc⟩
      else (bare acc).bind fun x => separate es ctx (.scalar x) c
  | ⟨es, .date ctx acc⟩, c =>
      if c.isDigit then some ⟨es, .token ctx (acc ++ [' ', c])⟩
      else (bare acc).bind fun x => separate es ctx (.scalar x) c
  | ⟨es, .quoted ctx q⟩, c =>
      match q.step c with
      | none => none
      | some (.more q) => some ⟨es, .quoted ctx q⟩
      | some (.last t) => some (deliver es ctx (.str (String.ofList t)))
      | some (.before t) => separate es ctx (.str (String.ofList t)) c
  | ⟨es, .array ctx elems item gap⟩, c => arrayStep es ctx elems item gap c
  | ⟨es, .brace ctx⟩, c =>
      if isBlank c then some ⟨es, .brace ctx⟩
      else if c = '}' then some (deliver es ctx (.tbl []))
      else keyStart es (.member [] ctx) [] c
  | ⟨es, .member ctx members⟩, c => memberStep es ctx members c

/-- The end of the text. -/
def finish : State → Option (List Expr)
  | ⟨es, .start⟩ => some es
  | ⟨es, .comment⟩ => some es
  | ⟨es, .after⟩ => some es
  | ⟨es, .token (.top key) acc⟩ => (bare acc).map fun x => es ++ [.keyValue key (.scalar x)]
  | ⟨es, .date (.top key) acc⟩ => (bare acc).map fun x => es ++ [.keyValue key (.scalar x)]
  | ⟨es, .quoted (.top key) q⟩ =>
      q.finish.map fun t => es ++ [.keyValue key (.str (String.ofList t))]
  | _ => none

/-- Some characters, one after the other. -/
def run (s : State) (text : List Char) : Option State := text.foldlM (step bare) s

/-- The expressions of a document. -/
def scan (text : List Char) : Option (List Expr) :=
  (run bare ⟨[], .start⟩ text).bind (finish bare)

end Machine

section Lemmas

variable {bare : List Char → Option Scalar} {es : List Expr} {s : State} {text rest : List Char}
  {c : Char}

theorem run_cons : run bare s (c :: text) = (step bare s c).bind fun s => run bare s text := rfl

theorem run_append : run bare s (text ++ rest) = (run bare s text).bind fun s => run bare s rest :=
  List.foldlM_append

/-- A line break after a document that is complete. -/
theorem step_newline (h : finish bare s = some es) : step bare s '\n' = some ⟨es, .start⟩ := by
  obtain ⟨es', mode⟩ := s
  -- The modes in which a document can end.
  cases mode with
  | start | comment | after =>
    cases h
    rfl
  | token ctx acc | date ctx acc =>
    cases ctx with
    | top key =>
      obtain ⟨x, hx, rfl⟩ := Option.map_eq_some_iff.mp h
      change (bare acc).bind (fun x => afterStep (es' ++ [.keyValue key (.scalar x)]) '\n') = _
      rw [hx]
      rfl
    | arr elems outer | tbl members key outer => cases h
  | quoted ctx q =>
    cases ctx with
    | top key =>
      obtain ⟨t, ht, rfl⟩ := Option.map_eq_some_iff.mp h
      simp only [step, Quoted.step_newline ht]
      rfl
    | arr elems outer | tbl members key outer => cases h
  | cr | bracket | key use parts | bareKey use parts acc | quotedKey use parts q
  | keyEnd use parts | closing key | value ctx | array ctx elems item gap | brace ctx
  | member ctx members => cases h

/-- What follows a document on a new line is scanned as if a line began
there. -/
theorem scan_append (h : scan bare text = some es) :
    scan bare (text ++ '\n' :: rest) = (run bare ⟨es, .start⟩ rest).bind (finish bare) := by
  obtain ⟨s, hs, hfinish⟩ := Option.bind_eq_some_iff.mp h
  unfold scan
  rw [run_append, hs, Option.bind_some, run_cons, step_newline hfinish, Option.bind_some]

end Lemmas

end Toml
