import Firedoze.Text.Strings
import Firedoze.Toml.Scan

/-!
# Decoding a TOML document into a Go value

`Seen` follows the keys of a document, as TOML 1.0 tells which keys and tables
may be defined again.  `annotate` checks all expressions and marks the array
tables that begin an array.

`Target` describes the Go value that `toml.Unmarshal` fills: the places in it,
the fields of a struct, and how a place is set.  A field is found by its name,
or else by its name in lower case, while the document tells keys apart by
case.  So two tables of a document can end in one field.  An array that begins
is cleared first, and this is decided by the key of the document.

`unmarshal` puts the parts together, and `annotate_append` and `decode_append`
follow it over a document that was continued.
-/

namespace Toml

/-! ## Keys -/

/-- What a key stands for. -/
inductive KeyKind
  | table
  | arrayTable
  | value
  deriving DecidableEq, Repr

/-- A key that was seen.  A table is `explicit` when it cannot be defined
again, and `dotted` when it was made by a dotted key. -/
structure Entry where
  key : List String
  kind : KeyKind
  explicit : Bool
  dotted : Bool
  deriving DecidableEq, Repr

/-- The keys so far, and the current table. -/
structure Seen where
  entries : List Entry
  current : List String
  deriving DecidableEq, Repr

namespace Seen

/-- Before the first expression. -/
def empty : Seen := ⟨[], []⟩

variable (s : Seen)

def find (key : List String) : Option Entry := s.entries.find? fun e => e.key == key

def add (e : Entry) : Seen := { s with entries := e :: s.entries }

/-- Without the keys below the given one. -/
def clear (key : List String) : Seen :=
  { s with entries := s.entries.filter fun e => !(key.isPrefixOf e.key && e.key != key) }

/-- The tables that dotted keys have made are closed with the current table. -/
def leave : Seen :=
  { s with
    entries := s.entries.map fun e =>
      if s.current.isPrefixOf e.key && e.key != s.current && e.dotted then
        { e with explicit := true, dotted := false }
      else e }

/-- The tables on the way to a header. -/
def enter (s : Seen) (above : List String) : List String → Option Seen
  | [] => some s
  | k :: rest =>
      match s.find (above ++ [k]) with
      | none => enter (s.add ⟨above ++ [k], .table, false, false⟩) (above ++ [k]) rest
      | some e => if e.kind = .value then none else enter s (above ++ [k]) rest

/-- The header of a table. -/
def checkTable (key : List String) : Option Seen :=
  (s.leave.enter [] key.dropLast).bind fun s =>
    match s.find key with
    | none => some { s.add ⟨key, .table, true, false⟩ with current := key }
    | some e =>
        if e.kind ≠ .table ∨ e.explicit then none
        else some
          { entries := s.entries.map fun e => if e.key = key then { e with explicit := true } else e
            current := key }

/-- The header of an array table, and whether the array begins with it. -/
def checkArrayTable (key : List String) : Option (Seen × Bool) :=
  (s.leave.enter [] key.dropLast).bind fun s =>
    match s.find key with
    | none => some ({ (s.clear key).add ⟨key, .arrayTable, true, false⟩ with current := key }, true)
    | some e =>
        if e.kind ≠ .arrayTable then none
        else some ({ s.clear key with current := key }, false)

/-- The parts of the key of a value. -/
def checkKey (s : Seen) (above : List String) : List String → Option Seen
  | [] => some s
  | [k] =>
      match s.find (above ++ [k]) with
      | none => some (s.add ⟨above ++ [k], .value, false, true⟩)
      | some _ => none
  | k :: rest =>
      match s.find (above ++ [k]) with
      | none => checkKey (s.add ⟨above ++ [k], .table, false, true⟩) (above ++ [k]) rest
      | some e =>
          if e.kind ≠ .table ∨ e.explicit then none else checkKey s (above ++ [k]) rest

/-! ### Array tables -/

variable {s}

theorem find_clear (key : List String) (k : String) : (s.clear key).find (key ++ [k]) = none := by
  simp only [find, clear, List.find?_eq_none, List.mem_filter]
  rintro e ⟨-, he⟩ heq
  rw [beq_iff_eq] at heq
  have hprefix : key.isPrefixOf (key ++ [k]) = true :=
    List.isPrefixOf_iff_prefix.mpr (List.prefix_append key [k])
  simp [heq, hprefix] at he

theorem find_add {e : Entry} {key : List String} (h : e.key ≠ key) :
    (s.add e).find key = s.find key := by
  simp [find, add, h]

/-- Leaving a table changes no kind. -/
theorem find_leave (key : List String) :
    ∃ f : Entry → Entry, (∀ e, (f e).kind = e.kind) ∧ s.leave.find key = (s.find key).map f := by
  let f : Entry → Entry := fun e =>
    if s.current.isPrefixOf e.key && e.key != s.current && e.dotted then
      { e with explicit := true, dotted := false }
    else e
  have hkey : ∀ e, (f e).key = e.key := fun e => by simp only [f]; split <;> rfl
  refine ⟨f, fun e => by simp only [f]; split <;> rfl, ?_⟩
  change (s.entries.map f).find? _ = _
  rw [List.find?_map]
  congr 1
  exact congrArg (List.find? · s.entries) (funext fun e => by simp [hkey])

/-- An array table leaves no key below its own. -/
theorem checkArrayTable_fresh {key : List String} {s' : Seen} {first : Bool}
    (h : s.checkArrayTable key = some (s', first)) :
    s'.current = key ∧ ∀ k, s'.find (key ++ [k]) = none := by
  obtain ⟨s₁, -, h₁⟩ := Option.bind_eq_some_iff.mp h
  split at h₁
  · cases h₁
    refine ⟨rfl, fun k => ?_⟩
    change ((s₁.clear key).add _).find (key ++ [k]) = none
    rw [find_add (by simp), find_clear]
  · split at h₁
    · cases h₁
    · cases h₁
      exact ⟨rfl, fun k => find_clear key k⟩

/-- The key of two parts is not there, and the first part is no value. -/
def Lacks (s : Seen) (k k' : String) : Prop :=
  (∀ e, s.find [k] = some e → e.kind ≠ .value) ∧ s.find [k, k'] = none

/-- An array begins with a key that is not there. -/
theorem checkArrayTable_first_iff {k k' : String} :
    (∃ s', s.checkArrayTable [k, k'] = some (s', true)) ↔ s.Lacks k k' := by
  obtain ⟨f, hf, hk⟩ := find_leave (s := s) [k]
  obtain ⟨f', -, hk'⟩ := find_leave (s := s) [k, k']
  have hadd : (s.leave.add ⟨[k], .table, false, false⟩).find [k, k'] = s.leave.find [k, k'] :=
    find_add (by simp)
  unfold checkArrayTable Lacks
  simp only [List.dropLast_cons_cons, List.dropLast_singleton, enter, List.nil_append]
  cases hfind : s.find [k] with
  | none =>
    rw [hfind, Option.map_none] at hk
    cases hfind' : s.find [k, k'] with
    | none | some e => simp [hk, hadd, hk', hfind']
  | some e =>
    rw [hfind, Option.map_some] at hk
    by_cases hvalue : e.kind = .value
    · simp [hk, hf, hvalue]
    · cases hfind' : s.find [k, k'] with
      | none | some e' => simp [hk, hf, hvalue, hk', hfind']

end Seen

mutual

/-- The inline tables of a value define no key twice. -/
def Value.wellFormed : Value → Bool
  | .str _ => true
  | .scalar _ => true
  | .arr elems => elemsWellFormed elems
  | .tbl members => membersWellFormed .empty members

def elemsWellFormed : List Value → Bool
  | [] => true
  | v :: rest => v.wellFormed && elemsWellFormed rest

def membersWellFormed (s : Seen) : List (List String × Value) → Bool
  | [] => true
  | m :: rest =>
      memberWellFormed m &&
        match s.checkKey [] m.1 with
        | none => false
        | some s => membersWellFormed s rest

def memberWellFormed : List String × Value → Bool
  | (_, v) => v.wellFormed

end

/-- One expression. -/
def Seen.check (s : Seen) : Expr → Option (Seen × Bool)
  | .keyValue key v =>
      if v.wellFormed then (s.checkKey s.current key).map fun s => (s, false) else none
  | .table key => (s.checkTable key).map fun s => (s, false)
  | .arrayTable key => s.checkArrayTable key

/-- The expressions with the marks of the array tables that begin an array, and
the keys at the end. -/
def Seen.annotate (s : Seen) : List Expr → Option (List (Expr × Bool) × Seen)
  | [] => some ([], s)
  | e :: es => (s.check e).bind fun r => (r.1.annotate es).map fun a => ((e, r.2) :: a.1, a.2)

theorem Seen.annotate_append (s : Seen) (a b : List Expr) :
    s.annotate (a ++ b) = (s.annotate a).bind fun r =>
      (r.2.annotate b).map fun r' => (r.1 ++ r'.1, r'.2) := by
  induction a generalizing s with
  | nil => simp [annotate]
  | cons e a ih =>
    simp only [List.cons_append, annotate]
    cases s.check e with
    | none => rfl
    | some r =>
      simp only [Option.bind_some, ih]
      cases r.1.annotate a with
      | none => rfl
      | some r₁ => cases h : r₁.2.annotate b <;> simp [h]

/-- A value with a key that is not in the current table. -/
theorem Seen.check_keyValue {s : Seen} {k : String} {v : Value} (hv : v.wellFormed = true)
    (hk : s.find (s.current ++ [k]) = none) :
    s.check (.keyValue [k] v) =
      some (s.add ⟨s.current ++ [k], .value, false, true⟩, false) := by
  simp [check, hv, checkKey, hk]

/-- Values with different keys that are not in the current table. -/
theorem Seen.annotate_keyValues {s : Seen} (kvs : List (String × Value))
    (hwell : ∀ kv ∈ kvs, kv.2.wellFormed = true) (hkeys : (kvs.map Prod.fst).Nodup)
    (hfresh : ∀ kv ∈ kvs, s.find (s.current ++ [kv.1]) = none) :
    ∃ s', s.annotate (kvs.map fun kv => .keyValue [kv.1] kv.2) =
      some (kvs.map fun kv => (.keyValue [kv.1] kv.2, false), s') := by
  induction kvs generalizing s with
  | nil => exact ⟨s, rfl⟩
  | cons kv kvs ih =>
    obtain ⟨hhead, htail⟩ := List.nodup_cons.mp hkeys
    have hcheck := check_keyValue (hwell kv List.mem_cons_self) (hfresh kv List.mem_cons_self)
    obtain ⟨s', hs'⟩ := ih (s := s.add ⟨s.current ++ [kv.1], .value, false, true⟩)
      (fun kv' h => hwell kv' (List.mem_cons_of_mem _ h)) htail fun kv' h => by
        have hne : s.current ++ [kv.1] ≠ s.current ++ [kv'.1] := fun heq => by
          have hkey : kv.1 = kv'.1 := by simpa using heq
          exact hhead (hkey ▸ List.mem_map_of_mem h)
        change (s.add _).find (s.current ++ [kv'.1]) = none
        rw [find_add hne]
        exact hfresh kv' (List.mem_cons_of_mem _ h)
    refine ⟨s', ?_⟩
    simp only [List.map_cons, annotate, hcheck, Option.bind_some, hs', Option.map_some]

/-! ## Go values -/

/-- A Go value of type `σ`, with the places `P` in it.  `fields` gives the
fields of a struct, and `elem` the last element of a slice. -/
structure Target (σ P : Type) where
  root : P
  fields : P → Option (List (String × P))
  elem : P → Option P
  isEmpty : P → σ → Bool
  setStr : P → String → σ → Option σ
  setScalar : P → Scalar → σ → Option σ
  clear : P → σ → Option σ
  push : P → σ → Option σ

section Decode

variable {σ P : Type} (U : Text.Unicode) (T : Target σ P)

/-- A field by its name, or by its name in lower case. -/
def fieldOf (fields : List (String × P)) (key : String) : Option P :=
  fields.lookup key <|> fields.lookup (Text.toLower U key)

/-- The place below `p` that a key names.  The answer is `none` for an error,
and `some none` for a key that no field has. -/
def place (p : P) : List String → Option (Option P)
  | [] => some (some p)
  | k :: rest =>
      match T.fields p with
      | none => none
      | some fields =>
          match fieldOf U fields k with
          | none => some none
          | some q => place q rest

/-- The last element of a slice, or the place itself. -/
def lastElem (c : σ) (p : P) : Option P :=
  match T.elem p with
  | none => some p
  | some q => if T.isEmpty p c then none else some q

/-- The place that a header names, through the last elements of slices. -/
def headerPlace (c : σ) (p : P) : List String → Option (Option P)
  | [] => some (some p)
  | k :: rest =>
      (lastElem T c p).bind fun p =>
        match T.fields p with
        | none => none
        | some fields =>
            match fieldOf U fields k with
            | none => some none
            | some q => headerPlace c q rest

mutual

/-- Set a place to a value. -/
def decodeValue (p : P) : Value → σ → Option σ
  | .str s, c => T.setStr p s c
  | .scalar x, c => T.setScalar p x c
  | .arr elems, c => (T.clear p c).bind fun c => decodeElems p elems c
  | .tbl members, c => if (T.fields p).isSome then decodeMembers p members c else none

def decodeElems (p : P) : List Value → σ → Option σ
  | [], c => some c
  | v :: rest, c =>
      (T.push p c).bind fun c =>
        match T.elem p with
        | none => none
        | some q => (decodeValue q v c).bind fun c => decodeElems p rest c

def decodeMembers (p : P) : List (List String × Value) → σ → Option σ
  | [], c => some c
  | m :: rest, c => (decodeMember p m c).bind fun c => decodeMembers p rest c

def decodeMember (p : P) : List String × Value → σ → Option σ
  | (key, v), c =>
      match place U T p key with
      | none => none
      | some none => some c
      | some (some q) => decodeValue q v c

end

/-- The value so far, and the place of the current table.  The keys of a table
that the value does not have are passed over. -/
structure Decoding (σ P : Type) where
  value : σ
  current : Option P

/-- One expression. -/
def decodeExpr (d : Decoding σ P) : Expr × Bool → Option (Decoding σ P)
  | (.keyValue key v, _) =>
      match d.current with
      | none => some d
      | some p => (decodeMember U T p (key, v) d.value).map fun c => { d with value := c }
  | (.table key, _) =>
      match headerPlace U T d.value T.root key with
      | none => none
      | some none => some { d with current := none }
      | some (some p) => (lastElem T d.value p).map fun q => { d with current := some q }
  | (.arrayTable key, first) =>
      match headerPlace U T d.value T.root key with
      | none => none
      | some none => some { d with current := none }
      | some (some p) =>
          (if first then T.clear p d.value else some d.value).bind fun c =>
            (T.push p c).map fun c => ⟨c, T.elem p⟩

/-- All expressions. -/
def decode (d : Decoding σ P) (es : List (Expr × Bool)) : Option (Decoding σ P) :=
  es.foldlM (decodeExpr U T) d

theorem decode_append (d : Decoding σ P) (a b : List (Expr × Bool)) :
    decode U T d (a ++ b) = (decode U T d a).bind fun d => decode U T d b :=
  List.foldlM_append

/-- `toml.Unmarshal`. -/
def unmarshal (bare : List Char → Option Scalar) (text : List Char) (init : σ) : Option σ :=
  (scan bare text).bind fun es => (Seen.empty.annotate es).bind fun a =>
    (decode U T ⟨init, some T.root⟩ a.1).map Decoding.value

variable {U T} {bare : List Char → Option Scalar} {text : List Char} {init v : σ}
  {es es' : List Expr} {a : List (Expr × Bool) × Seen} {d : Decoding σ P}

theorem unmarshal_eq_some (hscan : scan bare text = some es)
    (hkeys : Seen.empty.annotate es = some a) :
    unmarshal U T bare text init = some v ↔
      ∃ d, decode U T ⟨init, some T.root⟩ a.1 = some d ∧ d.value = v := by
  simp only [unmarshal, hscan, hkeys, Option.bind_some, Option.map_eq_some_iff]

/-- A document that is decoded has expressions, and its keys are fine. -/
theorem exists_of_unmarshal (h : unmarshal U T bare text init = some v) :
    ∃ es a, scan bare text = some es ∧ Seen.empty.annotate es = some a := by
  obtain ⟨es, hscan, h⟩ := Option.bind_eq_some_iff.mp h
  obtain ⟨a, hkeys, -⟩ := Option.bind_eq_some_iff.mp h
  exact ⟨es, a, hscan, hkeys⟩

/-- A document that was continued goes on from what the first part has
left. -/
theorem unmarshal_continued (hscan : scan bare text = some (es ++ es'))
    (hkeys : Seen.empty.annotate es = some a)
    (hd : decode U T ⟨init, some T.root⟩ a.1 = some d) :
    unmarshal U T bare text init =
      ((a.2.annotate es').map Prod.fst).bind fun es' => (decode U T d es').map Decoding.value := by
  simp only [unmarshal, hscan, Option.bind_some, Seen.annotate_append, hkeys]
  cases a.2.annotate es' with
  | none => rfl
  | some a' => simp only [Option.map_some, Option.bind_some, decode_append, hd]

end Decode

end Toml
