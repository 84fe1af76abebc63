import Mathlib.Data.List.Basic

/-!
# Files with a position, and files with holes

The content of a file is a list of bytes.  An open file has a position, at
which it is written.  A write past the end fills the gap with zeros, and
`ftruncate` cuts the content off or fills it up with zeros.

A `SparseFile` is a file as `SEEK_DATA` and `SEEK_HOLE` see it: some of its
bytes are in holes, and these are zero.  Which ones is up to the file system.
-/

namespace Posix

/-- The errors that are told apart. -/
inductive Errno
  | EINVAL
  | ENOTTY
  | EOPNOTSUPP
  | ENOSYS
  | EXDEV
  | enxio
  | other (n : Nat)
  deriving DecidableEq, Repr

/-! ## Contents -/

/-- `ftruncate`. -/
def resize (content : List UInt8) (size : Nat) : List UInt8 :=
  content.take size ++ List.replicate (size - content.length) 0

theorem length_resize (content : List UInt8) (size : Nat) :
    (resize content size).length = size := by
  simp only [resize, List.length_append, List.length_take, List.length_replicate]
  omega

theorem resize_length (content : List UInt8) : resize content content.length = content := by
  simp [resize]

/-- A content that is long enough keeps its start. -/
theorem prefix_resize_iff {p content : List UInt8} (size : Nat) (h : p.length ≤ content.length) :
    p <+: resize content size ↔ p.length ≤ size ∧ p <+: content := by
  constructor
  · intro hp
    have hlen := hp.length_le
    rw [length_resize] at hlen
    refine ⟨hlen, ?_⟩
    have htake : p <+: content.take size :=
      List.prefix_of_prefix_length_le hp (List.prefix_append _ _) (by
        rw [List.length_take]
        omega)
    exact htake.trans (List.take_prefix _ _)
  · rintro ⟨hlen, hp⟩
    exact ((List.prefix_take_iff).mpr ⟨hp, hlen⟩).trans (List.prefix_append _ _)

/-- An open file. -/
structure OpenFile where
  content : List UInt8
  pos : Nat
  deriving DecidableEq, Repr

namespace OpenFile

/-- `write`.  A write of nothing changes nothing. -/
def write (f : OpenFile) (data : List UInt8) : OpenFile :=
  if data = [] then f
  else
    { content := resize f.content f.pos ++ data ++ f.content.drop (f.pos + data.length)
      pos := f.pos + data.length }

/-- `ftruncate`. -/
def truncate (f : OpenFile) (size : Nat) : OpenFile :=
  { f with content := resize f.content size }

end OpenFile

/-! ## Holes -/

/-- A file, and which of its bytes are data.  The others are zero. -/
structure SparseFile where
  bytes : List UInt8
  isData : Nat → Bool
  hole_zero : ∀ i b, bytes[i]? = some b → isData i = false → b = 0

namespace SparseFile

variable (f : SparseFile)

/-- The size of the file. -/
def size : Nat := f.bytes.length

/-- `lseek` with `SEEK_DATA`: the next data at or after the offset.  There is
none behind the last data (`ENXIO`). -/
def seekData (offset : Nat) : Except Errno Nat :=
  match (List.range' offset (f.size - offset)).find? f.isData with
  | some i => .ok i
  | none => .error .enxio

/-- `lseek` with `SEEK_HOLE`: the next hole at or after the offset.  There is a
hole at the end of the file. -/
def seekHole (offset : Nat) : Except Errno Nat :=
  if f.size ≤ offset then .error .enxio
  else
    match (List.range' offset (f.size - offset)).find? fun i => !f.isData i with
    | some i => .ok i
    | none => .ok f.size

variable {f} {offset i : Nat}

theorem seekData_cases (h : offset < f.size) :
    (∃ d, f.seekData offset = .ok d ∧ offset ≤ d ∧ d < f.size ∧ f.isData d = true ∧
        ∀ i, offset ≤ i → i < d → f.isData i = false) ∨
      (f.seekData offset = .error .enxio ∧ ∀ i, offset ≤ i → i < f.size → f.isData i = false) := by
  unfold seekData
  cases hfind : (List.range' offset (f.size - offset)).find? f.isData with
  | some d =>
    rw [List.find?_range'_eq_some] at hfind
    obtain ⟨hdata, hmem, hbefore⟩ := hfind
    rw [List.mem_range'_1] at hmem
    refine Or.inl ⟨d, rfl, hmem.1, by omega, hdata, fun i hle hlt => ?_⟩
    simpa using hbefore i hle hlt
  | none =>
    rw [List.find?_eq_none] at hfind
    refine Or.inr ⟨rfl, fun i hle hlt => ?_⟩
    simpa using hfind i (List.mem_range'_1.mpr ⟨hle, by omega⟩)

/-- The end of a region of data. -/
theorem seekHole_of_data (h : offset < f.size) (hdata : f.isData offset = true) :
    ∃ hole, f.seekHole offset = .ok hole ∧ offset < hole ∧ hole ≤ f.size ∧
      (∀ i, offset ≤ i → i < hole → f.isData i = true) ∧
      (hole = f.size ∨ f.isData hole = false) := by
  unfold seekHole
  rw [if_neg (by omega)]
  cases hfind : (List.range' offset (f.size - offset)).find? fun i => !f.isData i with
  | some hole =>
    rw [List.find?_range'_eq_some] at hfind
    obtain ⟨hhole, hmem, hbefore⟩ := hfind
    rw [List.mem_range'_1] at hmem
    refine ⟨hole, rfl, ?_, by omega, fun i hle hlt => by simpa using hbefore i hle hlt,
      Or.inr (by simpa using hhole)⟩
    rcases Nat.lt_or_eq_of_le hmem.1 with hlt | rfl
    · exact hlt
    · simp [hdata] at hhole
  | none =>
    rw [List.find?_eq_none] at hfind
    refine ⟨f.size, rfl, h, Nat.le_refl _, fun i hle hlt => ?_, Or.inl rfl⟩
    simpa using hfind i (List.mem_range'_1.mpr ⟨hle, by omega⟩)

/-- The ends of the regions of data behind an offset. -/
def regionEnds (f : SparseFile) (offset : Nat) : List Nat :=
  (List.range' (offset + 1) (f.size - offset)).filter fun i =>
    f.isData (i - 1) && (i == f.size || !f.isData i)

/-- Behind the offset there are only holes. -/
theorem regionEnds_hole (h : ∀ i, offset ≤ i → i < f.size → f.isData i = false) :
    f.regionEnds offset = [] := by
  refine List.filter_eq_nil_iff.mpr fun i hi => ?_
  rw [List.mem_range'_1] at hi
  simp [h (i - 1) (by omega) (by omega)]

/-- Behind the offset there are holes, and then a region. -/
theorem regionEnds_region {data hole : Nat} (hle : offset ≤ data) (hlt : data < hole)
    (hsize : hole ≤ f.size) (hzero : ∀ i, offset ≤ i → i < data → f.isData i = false)
    (hregion : ∀ i, data ≤ i → i < hole → f.isData i = true)
    (hend : hole = f.size ∨ f.isData hole = false) :
    f.regionEnds offset = hole :: f.regionEnds hole := by
  have hsplit : List.range' (offset + 1) (f.size - offset) =
      List.range' (offset + 1) (hole - (offset + 1)) ++
        hole :: List.range' (hole + 1) (f.size - hole) := by
    have happend := List.range'_append_1 (s := offset + 1) (m := hole - (offset + 1))
      (n := f.size - hole + 1)
    rw [show offset + 1 + (hole - (offset + 1)) = hole by omega, List.range'_succ,
      show hole - (offset + 1) + (f.size - hole + 1) = f.size - offset by omega] at happend
    exact happend.symm
  have hbefore : (List.range' (offset + 1) (hole - (offset + 1))).filter (fun i =>
      f.isData (i - 1) && (i == f.size || !f.isData i)) = [] := by
    refine List.filter_eq_nil_iff.mpr fun i hi => ?_
    rw [List.mem_range'_1] at hi
    by_cases hi' : i ≤ data
    · simp [hzero (i - 1) (by omega) (by omega)]
    · simp [hregion i (by omega) (by omega), show i ≠ f.size by omega]
  unfold regionEnds
  rw [hsplit, List.filter_append, hbefore, List.nil_append, List.filter_cons_of_pos]
  simpa [hregion (hole - 1) (by omega) (by omega)] using hend

/-- What has been copied up to an offset can be filled up with zeros as far as
there are only holes. -/
theorem resize_take {k : Nat} (hk : offset ≤ k) (hle : k ≤ f.size)
    (hzero : ∀ i, offset ≤ i → i < k → f.isData i = false) :
    resize (f.bytes.take offset) k = f.bytes.take k := by
  have hsize : f.size = f.bytes.length := rfl
  have hgap : (f.bytes.drop offset).take (k - offset) = List.replicate (k - offset) 0 := by
    rw [List.eq_replicate_iff]
    refine ⟨by rw [List.length_take, List.length_drop]; omega, fun b hb => ?_⟩
    obtain ⟨i, hi⟩ := List.mem_iff_getElem?.mp hb
    have hlt : i < k - offset := by
      have := (List.getElem?_eq_some_iff.mp hi).1
      rw [List.length_take] at this
      omega
    rw [List.getElem?_take_of_lt hlt, List.getElem?_drop] at hi
    exact f.hole_zero _ b hi (hzero _ (by omega) (by omega))
  have hlen : (f.bytes.take offset).length = offset := by
    rw [List.length_take]
    omega
  have hsplit : k = offset + (k - offset) := by omega
  rw [resize, hlen, ← hgap, List.take_of_length_le (by omega), ← List.take_add, ← hsplit]

end SparseFile

end Posix
