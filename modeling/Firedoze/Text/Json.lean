import Firedoze.Text.Decimal
import Firedoze.Text.Framing
import Mathlib.Data.List.Forall2

/-!
# JSON texts

The package `encoding/json` as far as a program sees it that writes an object
member by member and reads it back.  A `Codec` holds the functions of the
package.  Its laws say that a reader undoes its writer: what `quote` and
`formatInt` write is read as the same value, and `compact` and `marshalIndent`
change blanks only.

An object is read as the texts of its members, as `json.RawMessage` keeps
them.  `members_marshalIndent` gives the keys back, and texts of the same
values.  `Codec.plain` satisfies the laws with strings that are not escaped.
-/

namespace Json

open Text

/-- The value of a JSON text.  A number that is no integer is kept as it is
written. -/
inductive Value
  | null
  | bool (b : Bool)
  | int (n : Int)
  | num (literal : String)
  | str (s : String)
  | arr (elems : List Value)
  | obj (members : List (String × Value))

/-- The functions of `encoding/json`.  `parse` answers the value of a text
that `json.Valid` accepts, `quoteBytes` writes a string, `compact` removes
blanks, and `members` takes an object apart. -/
structure Codec where
  parse : Bytes → Option Value
  quoteBytes : Bytes → Bytes
  formatInt : Int → Bytes
  compact : Bytes → Bytes
  marshalIndent : List (String × Bytes) → Bytes
  members : Bytes → Option (List (String × Bytes))
  parse_nil : parse [] = none
  parse_null : parse (bytes "null") = some .null
  parse_quoteBytes : ∀ s, parse (quoteBytes (bytes s)) = some (.str s)
  parse_formatInt : ∀ n, parse (formatInt n) = some (.int n)
  parse_compact : ∀ text v, parse text = some v → parse (compact text) = some v
  compact_null : compact (bytes "null") = bytes "null"
  members_marshalIndent : ∀ ms, (∀ m ∈ ms, (parse m.2).isSome = true) →
    ∃ ms', members (marshalIndent ms ++ [10]) = some ms' ∧
      List.Forall₂ (fun m m' => m'.1 = m.1 ∧ parse m'.2 = parse m.2) ms ms'

namespace Codec

variable (J : Codec)

/-- The text of a string. -/
def quote (s : String) : Bytes := J.quoteBytes (bytes s)

/-- A text stored in a column: empty, or a JSON text, or a string that
`MarshalJSON` quotes. -/
def marshalText (text : Bytes) : Bytes :=
  if text = [] then bytes "null"
  else if (J.parse text).isSome then text
  else J.quoteBytes text

variable {J}

@[simp] theorem parse_quote (s : String) : J.parse (J.quote s) = some (.str s) :=
  J.parse_quoteBytes s

/-- A text that has a value other than `null` is not the text `null`. -/
theorem ne_null_of_parse {text : Bytes} {v : Value} (h : J.parse text = some v) (hv : v ≠ .null) :
    text ≠ bytes "null" := by
  rintro rfl
  rw [J.parse_null] at h
  exact hv (Option.some.inj h).symm

theorem ne_nil_of_parse {text : Bytes} {v : Value} (h : J.parse text = some v) : text ≠ [] := by
  rintro rfl
  rw [J.parse_nil] at h
  cases h

end Codec

/-- A list that is related to an appended one is appended itself. -/
theorem forall₂_append {α β : Type} {R : α → β → Prop} {a b : List α} {c : List β}
    (h : List.Forall₂ R (a ++ b) c) :
    ∃ a' b', c = a' ++ b' ∧ List.Forall₂ R a a' ∧ List.Forall₂ R b b' := by
  induction a generalizing c with
  | nil => exact ⟨[], c, rfl, .nil, h⟩
  | cons x a ih =>
    cases h with
    | cons hx h =>
      obtain ⟨a', b', rfl, ha, hb⟩ := ih h
      exact ⟨_ :: a', b', rfl, .cons hx ha, hb⟩

/-! ## A plain format -/

namespace Codec

/-- An integer in decimal. -/
def plainInt : Int → Bytes
  | .ofNat n => Decimal.formatUint n
  | .negSucc n => 45 :: Decimal.formatUint (n + 1)

/-- A member on a line that is indented by two blanks. -/
def memberLine (m : String × Bytes) : Bytes := [32, 32, 34] ++ bytes m.1 ++ 34 :: 58 :: 32 :: m.2

/-- The lines of an object in the layout of `MarshalIndent`. -/
def plainLines : List (String × Bytes) → Bytes
  | [] => [125]
  | m :: ms => memberLine m ++ (if ms = [] then [] else [44]) ++ 10 :: plainLines ms

/-- The key ends at the first quote, and the line at the first line end. -/
abbrev OneLine (m : String × Bytes) : Prop := 34 ∉ bytes m.1 ∧ 10 ∉ memberLine m

/-- Members as pairs of frames. -/
def plainMembers : List (String × Bytes) → Bytes
  | [] => []
  | m :: ms => frame (bytes m.1) ++ (frame m.2 ++ plainMembers ms)

/-- An object whose members fit on lines line by line, and any other as frames. -/
def plainObject (ms : List (String × Bytes)) : Bytes :=
  if ∀ m ∈ ms, OneLine m then 123 :: 10 :: plainLines ms else plainMembers ms

theorem plainInt_ne_cons {n : Int} {c : UInt8} (text : Bytes)
    (hc : Decimal.isDigit c = false ∧ c ≠ 45) : plainInt n ≠ c :: text := by
  cases n with
  | ofNat n => exact Decimal.formatUint_ne_cons text hc.1
  | negSucc n => exact fun h => hc.2 (List.head_eq_of_cons_eq h).symm

theorem plainInt_injective : Function.Injective plainInt := by
  intro a b h
  cases a <;> cases b
  case ofNat.ofNat => rw [Decimal.formatUint_injective h]
  case ofNat.negSucc => exact absurd h (Decimal.formatUint_ne_cons _ rfl)
  case negSucc.ofNat => exact absurd h.symm (Decimal.formatUint_ne_cons _ rfl)
  case negSucc.negSucc =>
    rw [Nat.succ.inj (Decimal.formatUint_injective (List.tail_eq_of_cons_eq h))]

theorem append_inj_of_notMem {sep : UInt8} {a b rest rest' : Bytes} (ha : sep ∉ a) (hb : sep ∉ b)
    (h : a ++ sep :: rest = b ++ sep :: rest') : a = b ∧ rest = rest' := by
  have hlength := congrArg (List.idxOf sep) h
  rw [List.idxOf_append_of_notMem ha, List.idxOf_append_of_notMem hb] at hlength
  simpa using List.append_inj h (by simpa using hlength)

theorem memberLine_inj {m m' : String × Bytes} (hm : OneLine m) (hm' : OneLine m')
    (h : memberLine m = memberLine m') : m = m' := by
  obtain ⟨hkey, hvalue⟩ := append_inj_of_notMem hm.1 hm'.1 (by simpa [memberLine] using h)
  exact Prod.ext (bytes_injective hkey) (by simpa using hvalue)

theorem plainLines_inj {ms ms' : List (String × Bytes)} (hms : ∀ m ∈ ms, OneLine m)
    (hms' : ∀ m ∈ ms', OneLine m) (h : plainLines ms = plainLines ms') : ms = ms' := by
  induction ms generalizing ms' with
  | nil =>
    cases ms' with
    | nil => rfl
    | cons m' ms' => simp [plainLines, memberLine] at h
  | cons m ms ih =>
    cases ms' with
    | nil => simp [plainLines, memberLine] at h
    | cons m' ms' =>
      rw [List.forall_mem_cons] at hms hms'
      obtain ⟨hm, hrest⟩ := append_inj_of_notMem (by split <;> simp [hms.1.2])
        (by split <;> simp [hms'.1.2]) h
      obtain rfl := ih hms.2 hms'.2 hrest
      rw [memberLine_inj hms.1 hms'.1 (List.append_cancel_right hm)]

theorem plainMembers_injective : Function.Injective plainMembers := by
  intro ms ms' h
  induction ms generalizing ms' with
  | nil =>
    cases ms' with
    | nil => rfl
    | cons m' ms' => cases hk : bytes m'.1 <;> simp [plainMembers, frame, hk] at h
  | cons m ms ih =>
    cases ms' with
    | nil => cases hk : bytes m.1 <;> simp [plainMembers, frame, hk] at h
    | cons m' ms' =>
      obtain ⟨hkey, h'⟩ := frame_append_inj h
      obtain ⟨hvalue, hms⟩ := frame_append_inj h'
      rw [Prod.ext (bytes_injective hkey) hvalue, ih hms]

theorem plainMembers_ne_cons (ms : List (String × Bytes)) (text : Bytes) :
    123 :: text ≠ plainMembers ms := by
  cases ms with
  | nil => simp [plainMembers]
  | cons m ms => cases hk : bytes m.1 <;> simp [plainMembers, frame, hk]

theorem plainObject_injective : Function.Injective plainObject := by
  intro ms ms' h
  unfold plainObject at h
  split at h <;> split at h
  next hms hms' => exact plainLines_inj hms hms' (by simpa using h)
  next => exact absurd h (plainMembers_ne_cons _ _)
  next => exact absurd h.symm (plainMembers_ne_cons _ _)
  next => exact plainMembers_injective h

open Classical in
/-- The value of a plain text. -/
noncomputable def plainParse (text : Bytes) : Option Value :=
  if text = bytes "null" then some .null
  else if h : ∃ s, text = 34 :: (bytes s ++ [34]) then some (.str h.choose)
  else if h : ∃ n, text = plainInt n then some (.int h.choose)
  else none

theorem bytes_null : bytes "null" = [110, 117, 108, 108] := by decide

theorem plainParse_quote (s : String) :
    plainParse (34 :: (bytes s ++ [34])) = some (.str s) := by
  have hne : 34 :: (bytes s ++ [34]) ≠ bytes "null" := by simp [bytes_null]
  have hex : ∃ t, 34 :: (bytes s ++ [34]) = 34 :: (bytes t ++ [34]) := ⟨s, rfl⟩
  have heq := List.append_cancel_right (List.tail_eq_of_cons_eq hex.choose_spec)
  unfold plainParse
  rw [if_neg hne, dif_pos hex, ← bytes_injective heq]

theorem plainParse_int (n : Int) : plainParse (plainInt n) = some (.int n) := by
  have hne : plainInt n ≠ bytes "null" := plainInt_ne_cons _ (by decide)
  have hstr : ¬ ∃ s, plainInt n = 34 :: (bytes s ++ [34]) := by
    rintro ⟨s, h⟩
    exact plainInt_ne_cons _ (by decide) h
  have hex : ∃ k, plainInt n = plainInt k := ⟨n, rfl⟩
  unfold plainParse
  rw [if_neg hne, dif_neg hstr, dif_pos hex, ← plainInt_injective hex.choose_spec]

open Classical in
/-- Strings between quotes without escapes, decimal numbers and objects line by
line. -/
noncomputable def plain : Codec where
  parse := plainParse
  quoteBytes b := 34 :: (b ++ [34])
  formatInt := plainInt
  compact := id
  marshalIndent := plainObject
  members data :=
    if h : ∃ ms, data = plainObject ms ++ [10] then some h.choose else none
  parse_nil := by
    have hne : ([] : Bytes) ≠ bytes "null" := by simp [bytes_null]
    have hint : ∀ n, plainInt n ≠ [] := by
      intro n
      cases n <;> simp [plainInt, Decimal.formatUint, Decimal.digits_ne_nil]
    simp [plainParse, hne, hint]
  parse_null := by simp [plainParse]
  parse_quoteBytes := plainParse_quote
  parse_formatInt := plainParse_int
  parse_compact _ _ h := h
  compact_null := rfl
  members_marshalIndent ms _ := by
    have hex : ∃ ms', plainObject ms ++ [10] = plainObject ms' ++ [10] := ⟨ms, rfl⟩
    have heq := plainObject_injective (List.append_cancel_right hex.choose_spec)
    refine ⟨ms, ?_, List.forall₂_same.mpr fun _ _ => ⟨rfl, rfl⟩⟩
    rw [dif_pos hex, ← heq]

end Codec

end Json
