import Firedoze.Text.Strings

/-!
# Runes

A string of Go is a list of bytes.  A loop over a string, and each function of
the package `strings` that takes a test of runes, decodes it from the left.  A
byte that starts no rune is the rune `runeError` of its own.

Bytes below 128 are runes, and no rune that starts with another byte is below 128
(`decodeRune_of_ge`).  So a test that all other runes pass looks at one byte after
another (`any_runes`).  The bytes of a string of characters have the same two
properties (`any_bytes`, `bytes_replace`).
-/

namespace Text

/-! ## Decoding -/

/-- `utf8.RuneError`. -/
def runeError : Nat := 0xFFFD

/-- The byte is in a range. -/
def inRange (lo hi : Nat) (b : UInt8) : Bool := lo ≤ b.toNat && b.toNat ≤ hi

/-- The byte goes on with a rune. -/
def isContinuation (b : UInt8) : Bool := inRange 0x80 0xBF b

/-- A rune of two bytes. -/
def decodeTwo (b₀ : UInt8) : Bytes → Option Nat
  | b₁ :: _ => if isContinuation b₁ then some (b₀.toNat % 32 * 64 + b₁.toNat % 64) else none
  | [] => none

/-- A rune of three bytes.  The second byte rules out long forms and surrogates. -/
def decodeThree (b₀ : UInt8) : Bytes → Option Nat
  | b₁ :: b₂ :: _ =>
      if inRange (if b₀.toNat = 0xE0 then 0xA0 else 0x80)
          (if b₀.toNat = 0xED then 0x9F else 0xBF) b₁ && isContinuation b₂ then
        some (b₀.toNat % 16 * 4096 + b₁.toNat % 64 * 64 + b₂.toNat % 64)
      else none
  | _ => none

/-- A rune of four bytes. -/
def decodeFour (b₀ : UInt8) : Bytes → Option Nat
  | b₁ :: b₂ :: b₃ :: _ =>
      if inRange (if b₀.toNat = 0xF0 then 0x90 else 0x80)
          (if b₀.toNat = 0xF4 then 0x8F else 0xBF) b₁ && isContinuation b₂ && isContinuation b₃ then
        some (b₀.toNat % 8 * 262144 + b₁.toNat % 64 * 4096 + b₂.toNat % 64 * 64 + b₃.toNat % 64)
      else none
  | _ => none

/-- A rune and its width, or a byte that starts none. -/
def orError (rune : Option Nat) (width : Nat) : Nat × Nat :=
  match rune with
  | some r => (r, width)
  | none => (runeError, 1)

/-- `utf8.DecodeRuneInString`: the first rune of a string, and how many bytes it
has. -/
def decodeRune (b₀ : UInt8) (s : Bytes) : Nat × Nat :=
  if b₀.toNat < 0x80 then (b₀.toNat, 1)
  else if inRange 0xC2 0xDF b₀ then orError (decodeTwo b₀ s) 2
  else if inRange 0xE0 0xEF b₀ then orError (decodeThree b₀ s) 3
  else if inRange 0xF0 0xF4 b₀ then orError (decodeFour b₀ s) 4
  else (runeError, 1)

variable {b : UInt8} {s : Bytes}

theorem decodeRune_of_lt (h : b.toNat < 128) (s : Bytes) : decodeRune b s = (b.toNat, 1) :=
  if_pos h

theorem decodeTwo_ge {r : Nat} (hb : inRange 0xC2 0xDF b = true) (h : decodeTwo b s = some r) :
    128 ≤ r := by
  unfold decodeTwo at h
  split at h
  · split_ifs at h
    cases h
    simp only [inRange, Bool.and_eq_true, decide_eq_true_eq] at hb
    omega
  · cases h

theorem decodeThree_ge {r : Nat} (hb : inRange 0xE0 0xEF b = true)
    (h : decodeThree b s = some r) : 128 ≤ r := by
  unfold decodeThree at h
  split at h
  · obtain ⟨hsecond, hr⟩ := Option.ite_none_right_eq_some.mp h
    cases hr
    simp only [inRange, Bool.and_eq_true, decide_eq_true_eq] at hb hsecond
    obtain ⟨hlo, hhi⟩ := hsecond.1
    split_ifs at hlo hhi <;> omega
  · cases h

theorem decodeFour_ge {r : Nat} (hb : inRange 0xF0 0xF4 b = true)
    (h : decodeFour b s = some r) : 128 ≤ r := by
  unfold decodeFour at h
  split at h
  · obtain ⟨hsecond, hr⟩ := Option.ite_none_right_eq_some.mp h
    cases hr
    simp only [inRange, Bool.and_eq_true, decide_eq_true_eq] at hb hsecond
    obtain ⟨hlo, hhi⟩ := hsecond.1.1
    split_ifs at hlo hhi <;> omega
  · cases h

theorem orError_ge {rune : Option Nat} {width : Nat}
    (h : ∀ r, rune = some r → 128 ≤ r) :
    128 ≤ (orError rune width).1 := by
  cases rune with
  | none => exact show 128 ≤ runeError by decide
  | some r => exact h r rfl

/-- A rune that does not start with a byte below 128 is not below 128. -/
theorem decodeRune_of_ge (h : 128 ≤ b.toNat) (s : Bytes) :
    128 ≤ (decodeRune b s).1 := by
  unfold decodeRune
  rw [if_neg (Nat.not_lt.mpr h)]
  split_ifs with htwo hthree hfour
  · exact orError_ge fun r => decodeTwo_ge htwo
  · exact orError_ge fun r => decodeThree_ge hthree
  · exact orError_ge fun r => decodeFour_ge hfour
  · decide

/-- The runes of a string. -/
def runes : Bytes → List Nat
  | [] => []
  | b :: s => (decodeRune b s).1 :: runes (s.drop ((decodeRune b s).2 - 1))
termination_by s => s.length
decreasing_by
  simp only [List.length_drop, List.length_cons]
  omega

/-- A test that every rune from 128 on passes looks at the bytes. -/
theorem any_runes {p : Nat → Bool} (hp : ∀ r, 128 ≤ r → p r = true) (s : Bytes) :
    (runes s).any p = s.any fun b => p b.toNat := by
  induction s with
  | nil => rw [runes]; rfl
  | cons b s ih =>
    rw [runes, List.any_cons, List.any_cons]
    by_cases h : b.toNat < 128
    · rw [decodeRune_of_lt h, ← ih]
      rfl
    · have hb := Nat.not_lt.mp h
      rw [hp _ hb, hp _ (decodeRune_of_ge hb s)]
      rfl

/-! ## The bytes of characters -/

theorem bytes_eq_flatMap (s : String) : bytes s = s.toList.flatMap String.utf8EncodeChar := by
  have h := String.toByteArray_ofList (l := s.toList)
  rw [String.ofList_toList] at h
  rw [bytes, h, List.utf8Encode]
  simp

/-- The bytes of a character are the character, or are all from 128 on. -/
theorem utf8EncodeChar_cases (c : Char) :
    c.toNat < 128 ∧ String.utf8EncodeChar c = [UInt8.ofNat c.toNat] ∨
      128 ≤ c.toNat ∧ String.utf8EncodeChar c ≠ [] ∧
        ∀ b ∈ String.utf8EncodeChar c, 128 ≤ b.toNat := by
  have hcont : ∀ n m k : Nat, 128 ≤ (UInt8.ofNat (n % m + k)).toNat ↔ 128 ≤ (n % m + k) % 256 := by
    intro n m k
    rw [UInt8.toNat_ofNat']
  have hval : c.val.toNat = c.toNat := rfl
  unfold String.utf8EncodeChar
  dsimp only
  rw [hval]
  split_ifs with h₁ h₂ h₃
  · exact Or.inl ⟨by omega, rfl⟩
  all_goals
    refine Or.inr ⟨by omega, by simp, ?_⟩
    simp only [List.forall_mem_cons, List.not_mem_nil, hcont]
    simp
    omega

/-- A prefix of ASCII characters is a prefix of the bytes. -/
theorem isPrefixOf_bytes (start : List Char) (h : ∀ c ∈ start, c.toNat < 128) (s : List Char) :
    (start.flatMap String.utf8EncodeChar).isPrefixOf (s.flatMap String.utf8EncodeChar) =
      start.isPrefixOf s := by
  induction start generalizing s with
  | nil => simp
  | cons c start ih =>
    have hc := h c List.mem_cons_self
    have hcode : String.utf8EncodeChar c = [UInt8.ofNat c.toNat] :=
      ((utf8EncodeChar_cases c).resolve_right fun hge => by omega).2
    cases s with
    | nil => simp [hcode]
    | cons d s =>
      have hrest := ih (fun c' hc' => h c' (List.mem_cons_of_mem _ hc')) s
      rw [List.flatMap_cons, hcode, List.flatMap_cons, List.isPrefixOf_cons_cons]
      rcases utf8EncodeChar_cases d with ⟨hd, hcode'⟩ | ⟨hd, hne, hall⟩
      · have heq : (UInt8.ofNat c.toNat == UInt8.ofNat d.toNat) = (c == d) := by
          rw [Bool.eq_iff_iff, beq_iff_eq, beq_iff_eq]
          constructor
          · intro hcd
            have hnat := congrArg UInt8.toNat hcd
            rw [UInt8.toNat_ofNat', UInt8.toNat_ofNat', Nat.mod_eq_of_lt (by omega),
              Nat.mod_eq_of_lt (by omega)] at hnat
            exact Char.toNat_inj.mp hnat
          · rintro rfl
            rfl
        rw [hcode', List.singleton_append, List.singleton_append, List.isPrefixOf_cons_cons,
          heq, hrest]
      · cases hcode' : String.utf8EncodeChar d with
        | nil => exact absurd hcode' hne
        | cons b rest =>
          have hb : 128 ≤ b.toNat := hall b (by simp [hcode'])
          have hcb : (UInt8.ofNat c.toNat == b) = false := by
            rw [beq_eq_false_iff_ne]
            rintro rfl
            rw [UInt8.toNat_ofNat', Nat.mod_eq_of_lt (by omega)] at hb
            omega
          have hcd : (c == d) = false := by
            rw [beq_eq_false_iff_ne]
            rintro rfl
            omega
          rw [List.singleton_append, List.cons_append, List.isPrefixOf_cons_cons, hcb, hcd]
          rfl

theorem bytes_append (s t : String) : bytes (s ++ t) = bytes s ++ bytes t := by
  simp only [bytes_eq_flatMap, String.toList_append, List.flatMap_append]

/-- A test that all characters from 128 on pass looks at the bytes. -/
theorem any_bytes {p : Nat → Bool} (hp : ∀ r, 128 ≤ r → p r = true) (s : String) :
    ((bytes s).any fun b => p b.toNat) = s.toList.any fun c => p c.toNat := by
  have hchar : ∀ c : Char, ((String.utf8EncodeChar c).any fun b => p b.toNat) = p c.toNat := by
    intro c
    rcases utf8EncodeChar_cases c with ⟨hlt, henc⟩ | ⟨hge, hne, hall⟩
    · rw [henc, List.any_cons, List.any_nil, Bool.or_false, UInt8.toNat_ofNat',
        Nat.mod_eq_of_lt (by omega)]
    · rw [hp _ hge]
      obtain ⟨b, hb⟩ := List.exists_mem_of_ne_nil _ hne
      exact List.any_eq_true.mpr ⟨b, hb, hp _ (hall b hb)⟩
  rw [bytes_eq_flatMap, List.any_flatMap]
  simp only [hchar]

/-- Another text in the place of a character below 128 is another text in the
place of a byte. -/
theorem bytes_replace {q : Char} (hq : q.toNat < 128) (r : List Char) (s : String) :
    bytes (String.ofList (s.toList.flatMap fun c => if c = q then r else [c])) =
      (bytes s).flatMap fun b =>
        if b = UInt8.ofNat q.toNat then r.flatMap String.utf8EncodeChar else [b] := by
  have hchar : ∀ c : Char, (if c = q then r else [c]).flatMap String.utf8EncodeChar =
      (String.utf8EncodeChar c).flatMap fun b =>
        if b = UInt8.ofNat q.toNat then r.flatMap String.utf8EncodeChar else [b] := by
    intro c
    rcases utf8EncodeChar_cases c with ⟨hlt, henc⟩ | ⟨hge, -, hall⟩
    · have hiff : UInt8.ofNat c.toNat = UInt8.ofNat q.toNat ↔ c = q := by
        rw [← UInt8.toNat_inj, UInt8.toNat_ofNat', UInt8.toNat_ofNat', Nat.mod_eq_of_lt (by omega),
          Nat.mod_eq_of_lt (by omega), Char.toNat_inj]
      rw [henc, List.flatMap_cons, List.flatMap_nil, List.append_nil, ite_cond_congr (propext hiff)]
      split_ifs
      · rfl
      · rw [List.flatMap_cons, List.flatMap_nil, List.append_nil, henc]
    · have hne : c ≠ q := by
        rintro rfl
        omega
      have hbytes : ∀ b ∈ String.utf8EncodeChar c, b ≠ UInt8.ofNat q.toNat := by
        rintro b hb rfl
        have hq' := hall _ hb
        rw [UInt8.toNat_ofNat'] at hq'
        omega
      rw [if_neg hne, List.flatMap_cons, List.flatMap_nil, List.append_nil,
        List.flatMap_congr fun b hb => if_neg (hbytes b hb), List.flatMap_singleton']
  rw [bytes_eq_flatMap, String.toList_ofList, bytes_eq_flatMap, List.flatMap_assoc,
    List.flatMap_assoc]
  simp only [hchar]

theorem flatMap_intercalate {α β : Type} (f : α → List β) (sep : List α) (parts : List (List α)) :
    (sep.intercalate parts).flatMap f =
      (sep.flatMap f).intercalate (parts.map fun part => part.flatMap f) := by
  induction parts with
  | nil => simp
  | cons part parts ih =>
    cases parts with
    | nil => simp
    | cons next parts =>
      rw [List.intercalate_cons_cons, List.flatMap_append, List.flatMap_append, ih]
      simp [List.intercalate_cons_cons]

theorem bytes_intercalate (sep : String) (parts : List String) :
    bytes (sep.intercalate parts) = (bytes sep).intercalate (parts.map bytes) := by
  have hbytes : bytes = fun s => s.toList.flatMap String.utf8EncodeChar := funext bytes_eq_flatMap
  simp only [hbytes, String.toList_intercalate, flatMap_intercalate, List.map_map,
    Function.comp_def]

end Text
