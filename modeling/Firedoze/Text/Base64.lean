import Firedoze.Text.Strings

/-!
# Base64 for URLs, without padding

`encode` and `decode` follow `base64.RawURLEncoding` of Go, on the bytes of
strings.

The decoder is lenient in two ways.  It skips line breaks wherever they
stand, and it ignores the bits of the last character that no byte of the
answer needs.  So different texts can have the same answer, but an encoded
text is decoded to what was encoded (`decode_encode`).
-/

namespace Text

namespace Base64

/-! ## Characters -/

/-- The character for a value below 64. -/
def char (n : Nat) : UInt8 :=
  if n < 26 then UInt8.ofNat (65 + n)
  else if n < 52 then UInt8.ofNat (97 + (n - 26))
  else if n < 62 then UInt8.ofNat (48 + (n - 52))
  else if n = 62 then 45
  else 95

/-- The value of a character, `decodeMap`. -/
def value (c : UInt8) : Option Nat :=
  if 65 ≤ c ∧ c ≤ 90 then some (c.toNat - 65)
  else if 97 ≤ c ∧ c ≤ 122 then some (c.toNat - 97 + 26)
  else if 48 ≤ c ∧ c ≤ 57 then some (c.toNat - 48 + 52)
  else if c = 45 then some 62
  else if c = 95 then some 63
  else none

/-- A line break, which the decoder skips. -/
def isBreak (c : UInt8) : Bool := c == 10 || c == 13

theorem value_char {n : Nat} (h : n < 64) : value (char n) = some n := by
  have hall : ∀ n : Fin 64, value (char n) = some n.val := by decide
  exact hall ⟨n, h⟩

theorem isBreak_char {n : Nat} (h : n < 64) : isBreak (char n) = false := by
  have hall : ∀ n : Fin 64, isBreak (char n) = false := by decide
  exact hall ⟨n, h⟩

/-- A full stop is no character of the encoding. -/
theorem char_ne_dot {n : Nat} (h : n < 64) : char n ≠ 46 := by
  have hall : ∀ n : Fin 64, char n ≠ 46 := by decide
  exact hall ⟨n, h⟩

/-! ## Groups of six bits -/

/-- The values of the characters that stand for the given bytes. -/
def sextets : Bytes → List Nat
  | [] => []
  | [a] =>
      let val := a.toNat * 2 ^ 16
      [val / 2 ^ 18 % 64, val / 2 ^ 12 % 64]
  | [a, b] =>
      let val := a.toNat * 2 ^ 16 + b.toNat * 2 ^ 8
      [val / 2 ^ 18 % 64, val / 2 ^ 12 % 64, val / 2 ^ 6 % 64]
  | a :: b :: c :: rest =>
      let val := a.toNat * 2 ^ 16 + b.toNat * 2 ^ 8 + c.toNat
      val / 2 ^ 18 % 64 :: val / 2 ^ 12 % 64 :: val / 2 ^ 6 % 64 :: val % 64 :: sextets rest

/-- The bytes of a list of values, `decodeQuantum` for each group of four.  A
single value is left over from no byte. -/
def unsextets : List Nat → Option Bytes
  | [] => some []
  | [_] => none
  | [a, b] =>
      let val := a * 2 ^ 18 + b * 2 ^ 12
      some [UInt8.ofNat (val / 2 ^ 16)]
  | [a, b, c] =>
      let val := a * 2 ^ 18 + b * 2 ^ 12 + c * 2 ^ 6
      some [UInt8.ofNat (val / 2 ^ 16), UInt8.ofNat (val / 2 ^ 8)]
  | a :: b :: c :: d :: rest =>
      let val := a * 2 ^ 18 + b * 2 ^ 12 + c * 2 ^ 6 + d
      (unsextets rest).map fun bytes =>
        UInt8.ofNat (val / 2 ^ 16) :: UInt8.ofNat (val / 2 ^ 8) :: UInt8.ofNat val :: bytes

theorem sextets_lt (bytes : Bytes) : ∀ n ∈ sextets bytes, n < 64 := by
  fun_induction sextets bytes with
  | case1 => simp
  | case2 a val | case3 a b val => simp; omega
  | case4 a b c rest val ih =>
    simp only [List.mem_cons, forall_eq_or_imp]
    exact ⟨by omega, by omega, by omega, by omega, ih⟩

theorem ofNat_eq {a : UInt8} {n : Nat} (h : n % 256 = a.toNat) : UInt8.ofNat n = a := by
  apply UInt8.toNat_inj.mp
  rw [UInt8.toNat_ofNat']
  exact h

theorem unsextets_sextets (bytes : Bytes) : unsextets (sextets bytes) = some bytes := by
  fun_induction sextets bytes with
  | case1 => rfl
  | case2 a val =>
    have ha := a.toNat_lt
    simp only [unsextets, Option.some.injEq, List.cons.injEq, and_true]
    exact ofNat_eq (by omega)
  | case3 a b val =>
    have ha := a.toNat_lt
    have hb := b.toNat_lt
    simp only [unsextets, Option.some.injEq, List.cons.injEq, and_true]
    exact ⟨ofNat_eq (by omega), ofNat_eq (by omega)⟩
  | case4 a b c rest val ih =>
    have ha := a.toNat_lt
    have hb := b.toNat_lt
    have hc := c.toNat_lt
    simp only [unsextets, ih, Option.map_some, Option.some.injEq, List.cons.injEq, and_true]
    exact ⟨ofNat_eq (by omega), ofNat_eq (by omega), ofNat_eq (by omega)⟩

/-! ## The encoding -/

/-- `RawURLEncoding.EncodeToString`. -/
def encode (bytes : Bytes) : Bytes := (sextets bytes).map char

/-- `RawURLEncoding.DecodeString`, with `none` for an error. -/
def decode (text : Bytes) : Option Bytes :=
  ((text.filter fun c => !isBreak c).mapM value).bind unsextets

theorem dot_not_mem_encode (bytes : Bytes) : 46 ∉ encode bytes := by
  intro h
  obtain ⟨n, hn, hdot⟩ := List.mem_map.mp h
  exact char_ne_dot (sextets_lt bytes n hn) hdot

theorem mapM_value_map_char {l : List Nat} (h : ∀ n ∈ l, n < 64) :
    (l.map char).mapM value = some l := by
  induction l with
  | nil => rfl
  | cons n l ih =>
    simp [value_char (h n List.mem_cons_self), ih fun m hm => h m (List.mem_cons_of_mem _ hm)]

/-- What was encoded is decoded. -/
theorem decode_encode (bytes : Bytes) : decode (encode bytes) = some bytes := by
  have hlt := sextets_lt bytes
  have hfilter : (encode bytes).filter (fun c => !isBreak c) = encode bytes := by
    refine List.filter_eq_self.mpr fun c hc => ?_
    obtain ⟨n, hn, rfl⟩ := List.mem_map.mp hc
    simp [isBreak_char (hlt n hn)]
  unfold decode
  rw [hfilter, encode, mapM_value_map_char hlt]
  exact unsextets_sextets bytes

/-- A line break changes the text, but not what it is decoded to. -/
example : decode (encode [1, 2] ++ [10]) = decode (encode [1, 2]) := by decide

end Base64

end Text
