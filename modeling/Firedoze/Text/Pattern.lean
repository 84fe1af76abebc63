import Mathlib.Data.List.Infix
import Mathlib.Data.List.Sublists

/-!
# Patterns with wildcards

A pattern is a list of items: any string, any one character, or a character up to
the case of ASCII letters.  `Item.Matches` says which texts a list of items
matches, and `matchItems` decides it.

`likeItems` reads the pattern language of the operator `like` of SQLite with an
escape character.  Behind the escape character, `%`, `_` and the escape character
stand for themselves.  The documentation says nothing about other characters in
that place, and about an escape character at the end.
-/

namespace Text.Pattern

/-- An item of a pattern. -/
inductive Item
  | any
  | one
  | lit (c : Char)
deriving DecidableEq

/-- The items match the text. -/
inductive Matches : List Item → List Char → Prop
  | nil : Matches [] []
  | any {items : List Item} {text : List Char} (skipped : List Char) (h : Matches items text) :
      Matches (.any :: items) (skipped ++ text)
  | one {items : List Item} {text : List Char} (c : Char) (h : Matches items text) :
      Matches (.one :: items) (c :: text)
  | lit {items : List Item} {text : List Char} {c d : Char} (hc : c.toLower = d.toLower)
      (h : Matches items text) : Matches (.lit c :: items) (d :: text)

/-- Whether the items match the text. -/
def matchItems : List Item → List Char → Bool
  | [], text => text.isEmpty
  | .any :: items, text => text.tails.any (matchItems items)
  | .one :: _, [] => false
  | .one :: items, _ :: text => matchItems items text
  | .lit _ :: _, [] => false
  | .lit c :: items, d :: text => c.toLower == d.toLower && matchItems items text

theorem matchItems_iff {items : List Item} {text : List Char} :
    matchItems items text = true ↔ Matches items text := by
  constructor
  · intro h
    induction items generalizing text with
    | nil =>
      obtain rfl : text = [] := by simpa [matchItems] using h
      exact .nil
    | cons item items ih =>
      cases item with
      | any =>
        obtain ⟨rest, hrest, hmatch⟩ := List.any_eq_true.mp h
        obtain ⟨skipped, rfl⟩ := (List.mem_tails _ _).mp hrest
        exact .any skipped (ih hmatch)
      | one =>
        cases text with
        | nil => cases h
        | cons c text => exact .one c (ih h)
      | lit c =>
        cases text with
        | nil => cases h
        | cons d text =>
          obtain ⟨hc, hrest⟩ := Bool.and_eq_true_iff.mp h
          exact .lit (eq_of_beq hc) (ih hrest)
  · intro h
    induction h with
    | nil => rfl
    | any skipped _ ih =>
      exact List.any_eq_true.mpr ⟨_, (List.mem_tails _ _).mpr ⟨skipped, rfl⟩, ih⟩
    | one c _ ih => exact ih
    | lit hc _ ih => exact Bool.and_eq_true_iff.mpr ⟨by simpa using hc, ih⟩

/-- The items of a pattern for `like` with an escape character. -/
def likeItems (escape : Char) : List Char → Option (List Item)
  | [] => some []
  | c :: pattern =>
    if c = escape then
      match pattern with
      | [] => none
      | d :: rest =>
        if d = '%' ∨ d = '_' ∨ d = escape then (likeItems escape rest).map (.lit d :: ·) else none
    else if c = '%' then (likeItems escape pattern).map (.any :: ·)
    else if c = '_' then (likeItems escape pattern).map (.one :: ·)
    else (likeItems escape pattern).map (.lit c :: ·)

/-- What a character stands for that is not escaped. -/
def likeItem (c : Char) : Item :=
  if c = '%' then .any else if c = '_' then .one else .lit c

theorem likeItems_cons {escape c : Char} (h : c ≠ escape) (pattern : List Char) :
    likeItems escape (c :: pattern) = (likeItems escape pattern).map (likeItem c :: ·) := by
  rw [likeItems.eq_def, likeItem]
  dsimp only
  rw [if_neg h]
  split_ifs <;> rfl

theorem likeItems_escaped {escape c : Char} (h : c = '%' ∨ c = '_' ∨ c = escape)
    (pattern : List Char) :
    likeItems escape (escape :: c :: pattern) = (likeItems escape pattern).map (.lit c :: ·) := by
  rw [likeItems, if_pos rfl, if_pos h]

/-- `text like pattern escape '…'`, for a pattern that the documentation covers. -/
def like (escape : Char) (pattern text : List Char) : Bool :=
  (likeItems escape pattern).any fun items => matchItems items text

end Text.Pattern
