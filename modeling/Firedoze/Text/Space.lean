import Firedoze.Text.Base64

/-!
# White space around byte strings

`trimSpaceBytes` is `strings.TrimSpace` of Go on any bytes.  White space is a list
of encodings, one for each white-space character.  An encoding is dropped from the
front as long as the bytes start with one, and then from the end.  Bytes that are
not valid UTF-8 are never part of an encoding.
-/

namespace Text

/-- The encodings of the white-space characters. -/
def spaceCodes : List Bytes :=
  [[9], [10], [11], [12], [13], [32], [0xC2, 0x85], [0xC2, 0xA0], [0xE1, 0x9A, 0x80],
    [0xE2, 0x80, 0x80], [0xE2, 0x80, 0x81], [0xE2, 0x80, 0x82], [0xE2, 0x80, 0x83],
    [0xE2, 0x80, 0x84], [0xE2, 0x80, 0x85], [0xE2, 0x80, 0x86], [0xE2, 0x80, 0x87],
    [0xE2, 0x80, 0x88], [0xE2, 0x80, 0x89], [0xE2, 0x80, 0x8A], [0xE2, 0x80, 0xA8],
    [0xE2, 0x80, 0xA9], [0xE2, 0x80, 0xAF], [0xE2, 0x81, 0x9F], [0xE3, 0x80, 0x80]]

/-- Drop codes from the front, at most `fuel` of them. -/
def dropCodesFrom (codes : List Bytes) : Nat → Bytes → Bytes
  | 0, s => s
  | fuel + 1, s =>
    match codes.find? (·.isPrefixOf s) with
    | none => s
    | some code => dropCodesFrom codes fuel (s.drop code.length)

def dropCodes (codes : List Bytes) (s : Bytes) : Bytes := dropCodesFrom codes s.length s

/-- `strings.TrimSpace`. -/
def trimSpaceBytes (s : Bytes) : Bytes :=
  (dropCodes (spaceCodes.map List.reverse) (dropCodes spaceCodes s).reverse).reverse

/-- No code stands in front. -/
def StartsFree (codes : List Bytes) (s : Bytes) : Prop := ∀ code ∈ codes, ¬ code <+: s

theorem dropCodes_of_startsFree {codes : List Bytes} {s : Bytes} (h : StartsFree codes s) :
    dropCodes codes s = s := by
  unfold dropCodes
  cases s with
  | nil => rfl
  | cons b s =>
    have hfind : codes.find? (·.isPrefixOf (b :: s)) = none := by
      rw [List.find?_eq_none]
      intro code hcode hpre
      exact h code hcode (List.isPrefixOf_iff_prefix.mp hpre)
    rw [List.length_cons, dropCodesFrom, hfind]

/-- A space in front is dropped, when no other code starts with a space. -/
theorem dropCodes_space {codes : List Bytes} (hmem : [32] ∈ codes)
    (honly : ∀ code ∈ codes, code.head? = some 32 → code = [32]) (hne : [] ∉ codes) (s : Bytes) :
    dropCodes codes (32 :: s) = dropCodes codes s := by
  cases hfind : codes.find? (·.isPrefixOf (32 :: s)) with
  | none =>
    have hpre : [32].isPrefixOf (32 :: s) = true := List.isPrefixOf_iff_prefix.mpr ⟨s, rfl⟩
    exact absurd hpre (List.find?_eq_none.mp hfind [32] hmem)
  | some code =>
    have hcode := List.mem_of_find?_eq_some hfind
    have hstarts : code.isPrefixOf (32 :: s) = true := by simpa using List.find?_some hfind
    have hpre := List.isPrefixOf_iff_prefix.mp hstarts
    obtain rfl : code = [32] := by
      refine honly code hcode ?_
      cases code with
      | nil => exact absurd hcode hne
      | cons b code => rw [List.head?_cons, (List.cons_prefix_cons.mp hpre).1]
    simp only [dropCodes, List.length_cons, dropCodesFrom, hfind]
    rfl

theorem dropCodes_spaces {codes : List Bytes} (hmem : [32] ∈ codes)
    (honly : ∀ code ∈ codes, code.head? = some 32 → code = [32]) (hne : [] ∉ codes) (n : Nat)
    (s : Bytes) : dropCodes codes (List.replicate n 32 ++ s) = dropCodes codes s := by
  induction n with
  | zero => rfl
  | succ n ih => rw [List.replicate_succ, List.cons_append, dropCodes_space hmem honly hne, ih]

/-- The text has no white space at its ends. -/
structure Tight (s : Bytes) : Prop where
  front : StartsFree spaceCodes s
  back : StartsFree (spaceCodes.map List.reverse) s.reverse

/-- Spaces behind a text are trimmed. -/
theorem trimSpaceBytes_spaces {s : Bytes} (h : Tight s) (hne : s ≠ []) (n : Nat) :
    trimSpaceBytes (s ++ List.replicate n 32) = s := by
  have honly : ∀ code ∈ spaceCodes, (32 : UInt8) ∈ code → code.length = 1 := by decide
  have hfront : StartsFree spaceCodes (s ++ List.replicate n 32) := by
    intro code hcode hpre
    rcases List.prefix_or_prefix_of_prefix hpre (List.prefix_append s _) with hshort | ⟨t, rfl⟩
    · exact h.front code hcode hshort
    · -- The code goes on behind the text, so it holds a space.
      have hrest := (List.prefix_append_right_inj s).mp hpre
      cases t with
      | nil => exact h.front (s ++ []) hcode (by simp)
      | cons b t =>
        have hb : b = 32 := List.eq_of_mem_replicate (hrest.subset List.mem_cons_self)
        have hlength := honly _ hcode (by simp [hb])
        have hpos := List.length_pos_of_ne_nil hne
        simp only [List.length_append, List.length_cons] at hlength
        omega
  rw [trimSpaceBytes, dropCodes_of_startsFree hfront, List.reverse_append, List.reverse_replicate,
    dropCodes_spaces (by decide) (by decide) (by decide), dropCodes_of_startsFree h.back,
    List.reverse_reverse]

end Text
