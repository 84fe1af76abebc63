import Firedoze.Text.Base64
import Mathlib.Data.Nat.Digits.Lemmas

/-!
# Decimal numbers

`formatInt` and `parseInt` follow `strconv.FormatInt(i, 10)` and
`strconv.ParseInt(s, 10, 64)` of Go.  The parser accepts a sign of either
kind and any number of leading zeros, so different texts can have the same
answer, but a formatted number is parsed to itself
(`parseInt_formatInt`).
-/

namespace Text

namespace Decimal

/-! ## Digits -/

/-- The character of a digit. -/
def digit (n : Nat) : UInt8 := UInt8.ofNat (48 + n)

/-- Whether the character is a digit. -/
def isDigit (c : UInt8) : Bool := decide (48 ≤ c.toNat ∧ c.toNat ≤ 57)

/-- The value of a digit. -/
def digitValue (c : UInt8) : Nat := c.toNat - 48

theorem toNat_digit {n : Nat} (h : n < 10) : (digit n).toNat = 48 + n := by
  rw [digit, UInt8.toNat_ofNat']
  omega

theorem isDigit_digit {n : Nat} (h : n < 10) : isDigit (digit n) = true := by
  rw [isDigit, toNat_digit h]
  exact decide_eq_true ⟨by omega, by omega⟩

theorem digitValue_digit {n : Nat} (h : n < 10) : digitValue (digit n) = n := by
  rw [digitValue, toNat_digit h]
  omega

/-! ## Unsigned numbers -/

/-- The digits of a number, the first one first. -/
def digits (n : Nat) : List Nat := if n = 0 then [0] else (Nat.digits 10 n).reverse

/-- The text of an unsigned number. -/
def formatUint (n : Nat) : Bytes := (digits n).map digit

/-- The number that a text of digits stands for. -/
def ofText (text : Bytes) : Nat := text.foldl (fun n c => n * 10 + digitValue c) 0

/-- `ParseUint(s, 10, 64)`, with `none` for an error. -/
def parseUint (text : Bytes) : Option Nat :=
  if text = [] then none
  else if text.all isDigit = false then none
  else if 2 ^ 64 ≤ ofText text then none
  else some (ofText text)

theorem digits_lt {n d : Nat} (h : d ∈ digits n) : d < 10 := by
  unfold digits at h
  split at h
  · obtain rfl := List.mem_singleton.mp h
    decide
  · exact Nat.digits_lt_base (by decide) (List.mem_reverse.mp h)

theorem digits_ne_nil (n : Nat) : digits n ≠ [] := by
  unfold digits
  split
  · simp
  · simpa using Nat.digits_ne_nil_iff_ne_zero.mpr ‹_›

theorem foldl_digits (n : Nat) : (digits n).foldl (fun m d => m * 10 + d) 0 = n := by
  unfold digits
  split
  · simp [*]
  · rw [List.foldl_reverse]
    conv_rhs => rw [← Nat.ofDigits_digits 10 n, Nat.ofDigits_eq_foldr]
    simp [add_comm, mul_comm]

theorem ofText_formatUint (n : Nat) : ofText (formatUint n) = n := by
  have hmap : ∀ (l : List Nat), (∀ d ∈ l, d < 10) → ∀ acc,
      (l.map digit).foldl (fun n c => n * 10 + digitValue c) acc =
        l.foldl (fun m d => m * 10 + d) acc := by
    intro l
    induction l with
    | nil => intro _ _; rfl
    | cons d l ih =>
      intro hl acc
      simp only [List.map_cons, List.foldl_cons, digitValue_digit (hl d List.mem_cons_self)]
      exact ih (fun e he => hl e (List.mem_cons_of_mem _ he)) _
  exact (hmap _ (fun d hd => digits_lt hd) 0).trans (foldl_digits n)

theorem isDigit_of_mem_formatUint {n : Nat} {c : UInt8} (h : c ∈ formatUint n) :
    isDigit c = true := by
  obtain ⟨d, hd, rfl⟩ := List.mem_map.mp h
  exact isDigit_digit (digits_lt hd)

theorem formatUint_injective : Function.Injective formatUint :=
  Function.LeftInverse.injective ofText_formatUint

theorem formatUint_ne_cons {n : Nat} {c : UInt8} (text : Bytes) (hc : isDigit c = false) :
    formatUint n ≠ c :: text := by
  intro h
  rw [isDigit_of_mem_formatUint (h ▸ List.mem_cons_self)] at hc
  cases hc

theorem parseUint_formatUint {n : Nat} (h : n < 2 ^ 64) : parseUint (formatUint n) = some n := by
  have hne : formatUint n ≠ [] := by simpa [formatUint] using digits_ne_nil n
  have hall : (formatUint n).all isDigit = true :=
    List.all_eq_true.mpr fun c hc => isDigit_of_mem_formatUint hc
  have hfits : ¬ 2 ^ 64 ≤ n := by omega
  simp only [parseUint, hne, hall, ofText_formatUint, hfits, if_false, Bool.true_eq_false]

/-! ## Signed numbers -/

/-- `FormatInt(i, 10)`. -/
def formatInt (i : Int64) : Bytes :=
  if i < 0 then 45 :: formatUint i.toInt.natAbs else formatUint i.toInt.natAbs

/-- `ParseInt(s, 10, 64)`, with `none` for an error. -/
def parseInt (text : Bytes) : Option Int64 :=
  match text with
  | [] => none
  | c :: rest =>
      let neg := c == 45
      match parseUint (if c = 43 ∨ c = 45 then rest else text) with
      | none => none
      | some un =>
          if !neg && decide (2 ^ 63 ≤ un) then none
          else if neg && decide (2 ^ 63 < un) then none
          else if neg then some (-Int64.ofNat un)
          else some (Int64.ofNat un)

theorem ofNat_natAbs {i : Int64} (h : ¬ i < 0) : Int64.ofNat i.toInt.natAbs = i := by
  have hnonneg : 0 ≤ i.toInt := by
    rw [Int64.lt_iff_toInt_lt] at h
    simpa using h
  rw [← Int64.ofInt_eq_ofNat, Int.natAbs_of_nonneg hnonneg, Int64.ofInt_toInt]

theorem neg_ofNat_natAbs {i : Int64} (h : i < 0) : -Int64.ofNat i.toInt.natAbs = i := by
  have hneg : i.toInt ≤ 0 := by
    rw [Int64.lt_iff_toInt_lt] at h
    exact le_of_lt (by simpa using h)
  rw [← Int64.ofInt_eq_ofNat, Int.ofNat_natAbs_of_nonpos hneg, ← Int64.ofInt_neg, neg_neg,
    Int64.ofInt_toInt]

/-- A formatted number is parsed to itself. -/
theorem parseInt_formatInt (i : Int64) : parseInt (formatInt i) = some i := by
  have hle := i.toInt_lt
  have hge := i.le_toInt
  have hparse : parseUint (formatUint i.toInt.natAbs) = some i.toInt.natAbs :=
    parseUint_formatUint (by omega)
  unfold formatInt
  split
  · rename_i hneg
    have hbound : decide (2 ^ 63 < i.toInt.natAbs) = false := decide_eq_false (by omega)
    simp [parseInt, hparse, -Nat.reducePow, hbound, neg_ofNat_natAbs hneg]
  · rename_i hpos
    obtain ⟨c, rest, htext⟩ :=
      List.exists_cons_of_ne_nil (l := formatUint i.toInt.natAbs) (by
        simpa [formatUint] using digits_ne_nil i.toInt.natAbs)
    have hdigit : isDigit c = true :=
      isDigit_of_mem_formatUint (n := i.toInt.natAbs) (by rw [htext]; exact List.mem_cons_self)
    have hplus : c ≠ 43 := by rintro rfl; cases hdigit
    have hminus : c ≠ 45 := by rintro rfl; cases hdigit
    have hnonneg : 0 ≤ i.toInt := by
      rw [Int64.lt_iff_toInt_lt] at hpos
      simpa using hpos
    have hbound : decide (2 ^ 63 ≤ i.toInt.natAbs) = false := decide_eq_false (by omega)
    rw [htext] at hparse ⊢
    simp [parseInt, hplus, hminus, hparse, -Nat.reducePow, hbound, ofNat_natAbs hpos]

example : parseInt (formatInt (-42)) = some (-42) := by decide

end Decimal

end Text
