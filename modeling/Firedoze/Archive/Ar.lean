import Firedoze.Text.Decimal

/-!
# Archives of `ar`

An archive is a global header and a list of members.  A member is a header of 60
bytes and its content, and a byte is added to a content of odd length.  The header
holds a name field of 16 bytes, 32 bytes of attributes, the length of the content
in decimal digits, and two closing bytes.
-/

namespace Archive.Ar

open Text Text.Decimal

/-- A member.  Its name field and its attributes are bytes as they stand in the
archive. -/
structure Member where
  nameField : Bytes
  attributes : Bytes
  content : Bytes
  fill : UInt8 := 10
  nameField_length : nameField.length = 16
  attributes_length : attributes.length = 32
  content_length : content.length < 10 ^ 10

def globalHeader : Bytes := [33, 60, 97, 114, 99, 104, 62, 10]

/-- The end of a member's header. -/
def trailer : Bytes := [96, 10]

/-- A text with spaces behind it. -/
def padded (width : Nat) (text : Bytes) : Bytes := text ++ List.replicate (width - text.length) 32

theorem length_padded {width : Nat} {text : Bytes} (h : text.length ≤ width) :
    (padded width text).length = width := by
  simp only [padded, List.length_append, List.length_replicate]
  omega

namespace Member

variable (m : Member)

def sizeField : Bytes := padded 10 (formatUint m.content.length)

def header : Bytes := m.nameField ++ m.attributes ++ m.sizeField ++ trailer

/-- The byte behind a content of odd length. -/
def padding : Bytes := if m.content.length % 2 ≠ 0 then [m.fill] else []

def encode : Bytes := m.header ++ m.content ++ m.padding

theorem length_sizeField : m.sizeField.length = 10 := by
  refine length_padded ?_
  rw [formatUint, List.length_map, digits]
  split_ifs
  · simp
  · rw [List.length_reverse]
    exact (Nat.digits_length_le_iff (by norm_num) _).mpr m.content_length

theorem length_header : m.header.length = 60 := by
  simp [header, m.nameField_length, m.attributes_length, m.length_sizeField, trailer]

end Member

/-- An archive with the given members. -/
def archive (members : List Member) : Bytes := globalHeader ++ members.flatMap Member.encode

end Archive.Ar
