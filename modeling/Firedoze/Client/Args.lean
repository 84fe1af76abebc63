import Firedoze.Text.Strings

/-!
# The arguments of the server commands

`parseServerAddArgs` and `parseServerImportArgs` of
`cmd/firedoze/client_config.go`, with what they use: `parseNamesAndFlags` of
`main.go`, `FlagSet.Parse` of the package `flag`, `strconv.ParseBool`, and `Base`
and `Ext` of the package `filepath`.  A `FlagSet` is any set of flags over any
variables.

`quote` is the verb `%q` of the package `fmt`.  It shows up in errors only.
-/

namespace Firedoze.Client

open Text

/-! ## Booleans and files -/

/-- `strconv.ParseBool`. -/
def parseBool (s : String) : Option Bool :=
  if s ∈ ["1", "t", "T", "TRUE", "true", "True"] then some true
  else if s ∈ ["0", "f", "F", "FALSE", "false", "False"] then some false
  else none

/-- `filepath.Base`. -/
def fileBase (path : String) : String :=
  if path = "" then "."
  else
    let cleaned := path.toList.reverse.dropWhile (· == '/')
    let last := (cleaned.takeWhile (· != '/')).reverse
    if last = [] then "/" else String.ofList last

/-- `filepath.Ext`. -/
def fileExt (path : String) : String :=
  let last := path.toList.reverse.takeWhile (· != '/')
  if '.' ∈ last then "." ++ String.ofList (last.takeWhile (· != '.')).reverse else ""

/-- `serverNameFromImportPath`. -/
def serverNameFromImportPath (U : Unicode) (inputPath : String) : String :=
  if inputPath = "-" then ""
  else
    let name := trimSpace U (fileBase inputPath)
    trimSpace U (trimSuffix name (fileExt name))

/-! ## The package `flag` -/

variable (quote : String → String) {σ : Type}

/-- A flag: whether it is a boolean, and what its `Set` does to the variables. -/
structure Flag (σ : Type) where
  isBool : Bool
  set : String → σ → Except String σ

/-- The flags that are defined.  `FlagSet.Var` refuses names that start with a dash
or hold an equals sign. -/
structure FlagSet (σ : Type) where
  lookup : String → Option (Flag σ)
  no_dash : ∀ name flag, lookup name = some flag → name.toList.head? ≠ some '-'
  no_equals : ∀ name flag, lookup name = some flag → '=' ∉ name.toList

/-- The name of a flag, and its value if it has one. -/
def splitFlag (name : List Char) : String × Option String :=
  let rest := name.dropWhile (· != '=')
  (String.ofList (name.takeWhile (· != '=')),
    if rest = [] then none else some (String.ofList (rest.drop 1)))

/-- What `FlagSet.Parse` makes of an argument. -/
inductive Token
  | stop
  | terminator
  | bad
  | flag (name : String) (value : Option String)
  deriving DecidableEq, Repr

/-- The first part of `parseOne`. -/
def token (arg : String) : Token :=
  let body := arg.toList.drop 1
  if arg.toList.head? ≠ some '-' ∨ body = [] then .stop
  else if body = ['-'] then .terminator
  else
    let name := if body.head? = some '-' then body.drop 1 else body
    if name = [] ∨ name.head? = some '-' ∨ name.head? = some '=' then .bad
    else .flag (splitFlag name).1 (splitFlag name).2

/-- The words around an error of `Set`. -/
def setError (flag : Flag σ) (name : String) (value : Option String) (err : String) : String :=
  match flag.isBool, value with
  | true, none => "invalid boolean flag " ++ name ++ ": " ++ err
  | true, some v => "invalid boolean value " ++ quote v ++ " for -" ++ name ++ ": " ++ err
  | false, _ => "invalid value " ++ quote (value.getD "") ++ " for flag -" ++ name ++ ": " ++ err

/-- Set a flag.  A boolean without a value is set to `true`. -/
def Flag.assign (flag : Flag σ) (name : String) (value : Option String) (s : σ) :
    Except String σ :=
  match flag.set (value.getD "true") s with
  | .ok s => .ok s
  | .error err => .error (setError quote flag name value err)

/-- The error for a flag that is not defined. -/
def undefinedFlag (name : String) : String :=
  if name = "help" ∨ name = "h" then "flag: help requested"
  else "flag provided but not defined: -" ++ name

namespace FlagSet

variable (flags : FlagSet σ)

/-- `FlagSet.Parse`: the variables, and the arguments behind the flags. -/
def parse : List String → σ → Except String (σ × List String)
  | [], s => .ok (s, [])
  | arg :: args, s =>
    match token arg with
    | .stop => .ok (s, arg :: args)
    | .terminator => .ok (s, args)
    | .bad => .error ("bad flag syntax: " ++ arg)
    | .flag name value =>
      match flags.lookup name with
      | none => .error (undefinedFlag name)
      | some flag =>
        if flag.isBool || value.isSome then do
          let s ← flag.assign quote name value s
          parse args s
        else
          match args with
          | [] => .error ("flag needs an argument: -" ++ name)
          | next :: rest => do
            let s ← flag.assign quote name (some next) s
            parse rest s

/-! ## The source -/

/-- `strings.TrimLeft(arg, "-")`. -/
def trimDashes (arg : String) : String := String.ofList (arg.toList.dropWhile (· == '-'))

/-- `flagConsumesValue`. -/
def flagConsumesValue (arg : String) : Bool :=
  if trimDashes arg = "" then false
  else
    match flags.lookup (trimDashes arg) with
    | none => true
    | some flag => !flag.isBool

/-- The loop of `parseNamesAndFlags`: the names, and the arguments for the flags. -/
def sortArgs : List String → List String × List String
  | [] => ([], [])
  | arg :: args =>
    let (names, flagArgs) := sortArgs args
    if hasPrefix arg "-" then
      match !contains arg "=" && flags.flagConsumesValue arg, args with
      | true, next :: rest =>
        if hasPrefix next "-" then (names, arg :: flagArgs)
        else
          let (names, flagArgs) := sortArgs rest
          (names, arg :: next :: flagArgs)
      | _, _ => (names, arg :: flagArgs)
    else (arg :: names, flagArgs)

/-- `parseNamesAndFlags`. -/
def parseNamesAndFlags (args : List String) (s : σ) : Except String (List String × σ) := do
  if args = [] then throw "missing name"
  let (names, flagArgs) := flags.sortArgs args
  let (s, rest) ← flags.parse quote flagArgs s
  if let arg :: _ := rest then throw ("unexpected argument " ++ quote arg)
  if names = [] then throw "missing name"
  return (names, s)

end FlagSet

/-! ## The two commands with flags -/

/-- The arguments of `firedoze server add`. -/
structure AddArgs where
  name : String
  apiURL : String
  makeDefault : Bool
  deriving DecidableEq, Repr

/-- A boolean variable. -/
def boolFlag : Flag Bool where
  isBool := true
  set := fun value _ =>
    match parseBool value with
    | some b => .ok b
    | none => .error "parse error"

/-- The flags of `firedoze server add`: `-default`. -/
def addFlags : FlagSet Bool where
  lookup := fun name => if name = "default" then some boolFlag else none
  no_dash := by
    intro name flag h
    split_ifs at h with hname
    simp [hname]
  no_equals := by
    intro name flag h
    split_ifs at h with hname
    simp [hname]

/-- `parseServerAddArgs`. -/
def parseServerAddArgs (args : List String) : Except String AddArgs := do
  let (values, makeDefault) ← addFlags.parseNamesAndFlags quote args false
  match values with
  | [name, apiURL] => return ⟨name, apiURL, makeDefault⟩
  | _ => throw "expected name and api-url"

/-- The arguments of `firedoze server import`. -/
structure ImportArgs where
  inputPath : String := ""
  nameOverride : String := ""
  makeDefault : Bool := false
  deriving DecidableEq, Repr

/-- The loop of `parseServerImportArgs`. -/
def parseImportLoop (parsed : ImportArgs) : List String → Except String ImportArgs
  | [] => if parsed.inputPath = "" then .error "missing import file" else .ok parsed
  | arg :: args =>
      if arg = "-default" then parseImportLoop { parsed with makeDefault := true } args
      else if hasPrefix arg "-default=" then
        let value := trimPrefix arg "-default="
        match parseBool value with
        | none => .error ("strconv.ParseBool: parsing " ++ quote value ++ ": invalid syntax")
        | some b => parseImportLoop { parsed with makeDefault := b } args
      else if arg = "-name" then
        match args with
        | [] => .error "-name requires a value"
        | value :: args => parseImportLoop { parsed with nameOverride := value } args
      else if hasPrefix arg "-name=" then
        parseImportLoop { parsed with nameOverride := trimPrefix arg "-name=" } args
      else if hasPrefix arg "-" ∧ arg ≠ "-" then .error ("unknown flag " ++ arg)
      else if parsed.inputPath ≠ "" then .error ("unexpected argument " ++ quote arg)
      else parseImportLoop { parsed with inputPath := arg } args

/-- `parseServerImportArgs`. -/
def parseServerImportArgs (args : List String) : Except String ImportArgs :=
  if args = [] then .error "missing import file" else parseImportLoop quote {} args

end Firedoze.Client
