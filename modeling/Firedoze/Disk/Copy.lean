import Firedoze.Posix.File

/-!
# The copy of a disk

`copySparseFile` copies the data of a file region by region and leaves the
holes out.  When the file system does not know `SEEK_DATA` and `SEEK_HOLE`, it
falls back to `copyFileDense`, which starts again at the beginning of the
source, but not at the beginning of the destination.

* `copyRegions_ends` is the loop.  The destination holds what comes before the
  offset, and its position is the offset.
* `fallbackOffset` says by the regions of the source and the first seek that
  fails where the loop falls back, and `copiesWell_iff` is the result.
-/

namespace Firedoze

open Posix

/-- How a copy fails.  The loop never gets `stuck`. -/
inductive CopyError
  | errno (e : Errno)
  | stuck
  deriving DecidableEq, Repr

/-- `isSparseSeekUnsupported`. -/
def isSparseSeekUnsupported (e : Errno) : Bool :=
  e == .EINVAL || e == .ENOTTY || e == .EOPNOTSUPP

/-- Which seeks fail, and how.  A seek that does not fail has its documented
answer, and `ENXIO` is a documented answer. -/
structure SeekFaults where
  fault : Nat → Option Errno
  fault_ne : ∀ n, fault n ≠ some .enxio

/-- The `n`-th seek, with its documented answer. -/
def SeekFaults.seek (faults : SeekFaults) (n : Nat) (answer : Except Errno Nat) :
    Except Errno Nat :=
  match faults.fault n with
  | some e => .error e
  | none => answer

/-! ## The copy -/

section Copy

variable (src : SparseFile) (faults : SeekFaults)

/-- `copyFileDense`: the source from its beginning, the destination from its
position on. -/
def copyFileDense (out : OpenFile) : Except CopyError Unit × OpenFile :=
  (.ok (), out.write src.bytes)

/-- A seek that has failed. -/
def seekFailed (out : OpenFile) (e : Errno) : Except CopyError Unit × OpenFile :=
  if isSparseSeekUnsupported e then copyFileDense src out else (.error (.errno e), out)

/-- The loop of `copySparseFile`, after `n` seeks. -/
def copyRegions : Nat → Nat → Nat → OpenFile → Except CopyError Unit × OpenFile
  | 0, _, _, out => (.error .stuck, out)
  | fuel + 1, n, offset, out =>
      if offset < src.size then
        match faults.seek n (src.seekData offset) with
        | .error e =>
            if e = .enxio then (.ok (), out.truncate src.size) else seekFailed src out e
        | .ok data =>
            match faults.seek (n + 1) (src.seekHole data) with
            | .error e => seekFailed src out e
            | .ok hole =>
                let hole := if hole > src.size then src.size else hole
                -- Both files are set to the start of the region before it is copied.
                let out : OpenFile := { out with pos := data }
                let out := out.write ((src.bytes.drop data).take (hole - data))
                copyRegions fuel (n + 2) hole out
      else (.ok (), out.truncate src.size)

/-- `copySparseFile`. -/
def copySparseFile (regular : Bool) (out : OpenFile) : Except CopyError Unit × OpenFile :=
  if src.size = 0 then (.ok (), out)
  else if regular = false then (.ok (), out.write src.bytes)
  else copyRegions src faults (src.size + 1) 0 0 out

/-! ## Where the copy falls back -/

/-- The offsets of the seeks, given the ends of the regions that follow: two seeks
for each region, and one for a hole at the end. -/
def seekOffsets (size : Nat) : Nat → List Nat → List Nat
  | offset, [] => if offset < size then [offset] else []
  | offset, hole :: holes => offset :: offset :: seekOffsets size hole holes

/-- The first seek that fails, from the `n`-th on, and whether it is answered by
`copyFileDense`. -/
def firstFault : Nat → List Nat → Option Nat
  | _, [] => none
  | n, offset :: offsets =>
      match faults.fault n with
      | some e => if isSparseSeekUnsupported e then some offset else none
      | none => firstFault (n + 1) offsets

/-- The offset at which the loop falls back to `copyFileDense`, if it does. -/
def fallbackOffset : Option Nat :=
  firstFault faults 0 (seekOffsets src.size 0 (src.regionEnds 0))

end Copy

/-! ## The loop -/

section Loop

variable {src : SparseFile} {faults : SeekFaults} {fuel n offset : Nat}

theorem seek_cases (faults : SeekFaults) (n : Nat) (answer : Except Errno Nat) :
    (∃ e, e ≠ .enxio ∧ faults.fault n = some e ∧ faults.seek n answer = .error e) ∨
      faults.fault n = none ∧ faults.seek n answer = answer := by
  unfold SeekFaults.seek
  cases h : faults.fault n with
  | none => exact Or.inr ⟨rfl, rfl⟩
  | some e => exact Or.inl ⟨e, fun he => faults.fault_ne n (he ▸ h), rfl, rfl⟩

/-- What the destination holds when the source has been copied up to an
offset. -/
def copiedTo (src : SparseFile) (offset : Nat) : OpenFile := ⟨src.bytes.take offset, offset⟩

theorem length_take_bytes (h : offset ≤ src.size) : (src.bytes.take offset).length = offset :=
  List.length_take_of_le h

theorem write_region {data hole : Nat} (hle : offset ≤ data) (hlt : data < hole)
    (hsize : hole ≤ src.size) (hzero : ∀ i, offset ≤ i → i < data → src.isData i = false) :
    ({ copiedTo src offset with pos := data } : OpenFile).write
      ((src.bytes.drop data).take (hole - data)) = copiedTo src hole := by
  have hbytes : src.size = src.bytes.length := rfl
  have hlen : ((src.bytes.drop data).take (hole - data)).length = hole - data := by
    rw [List.length_take, List.length_drop]
    omega
  have hne : (src.bytes.drop data).take (hole - data) ≠ [] := by
    intro h
    rw [h, List.length_nil] at hlen
    omega
  have hgap := SparseFile.resize_take (f := src) hle (by omega) hzero
  have hsplit : hole = data + (hole - data) := by omega
  unfold OpenFile.write copiedTo
  rw [if_neg hne]
  have hrest : (src.bytes.take offset).drop (data + (hole - data)) = [] :=
    List.drop_eq_nil_of_le (by rw [length_take_bytes (by omega)]; omega)
  simp only [hlen, hgap, hrest]
  rw [List.append_nil, ← List.take_add, ← hsplit]

theorem truncate_copiedTo (h : offset ≤ src.size)
    (hzero : ∀ i, offset ≤ i → i < src.size → src.isData i = false) :
    (copiedTo src offset).truncate src.size = ⟨src.bytes, offset⟩ := by
  have hgap := SparseFile.resize_take (f := src) h (Nat.le_refl _) hzero
  unfold OpenFile.truncate copiedTo
  rw [hgap, show src.size = src.bytes.length from rfl, List.take_length]

/-- The source is written behind what has been copied before. -/
theorem copyFileDense_copiedTo (hpos : 0 < src.size) (h : offset ≤ src.size) :
    copyFileDense src (copiedTo src offset) =
      (.ok (), ⟨src.bytes.take offset ++ src.bytes, offset + src.size⟩) := by
  have hne : src.bytes ≠ [] := List.ne_nil_of_length_pos hpos
  have hlen := length_take_bytes h
  have hresize : resize (src.bytes.take offset) offset = src.bytes.take offset := by
    have h := resize_length (src.bytes.take offset)
    rwa [hlen] at h
  unfold copyFileDense OpenFile.write copiedTo
  rw [if_neg hne]
  simp only [hresize]
  rw [List.drop_eq_nil_of_le (by rw [hlen]; omega), List.append_nil]
  rfl

/-- The three ways the copy can end. -/
inductive CopyEnds (src : SparseFile) (fallback : Option Nat) :
    Except CopyError Unit × OpenFile → Prop
  | whole (pos : Nat) (h : fallback = none) : CopyEnds src fallback (.ok (), ⟨src.bytes, pos⟩)
  | dense (offset : Nat) (h : fallback = some offset) (hle : offset ≤ src.size) :
      CopyEnds src fallback (.ok (), ⟨src.bytes.take offset ++ src.bytes, offset + src.size⟩)
  | failed (e : Errno) (out : OpenFile) (h : fallback = none) :
      CopyEnds src fallback (.error (.errno e), out)

theorem seekFailed_ends (hpos : 0 < src.size) (h : offset ≤ src.size) (e : Errno) :
    CopyEnds src (if isSparseSeekUnsupported e then some offset else none)
      (seekFailed src (copiedTo src offset) e) := by
  unfold seekFailed
  split_ifs
  · rw [copyFileDense_copiedTo hpos h]
    exact .dense offset rfl h
  · exact .failed e _ rfl

/-- The loop, when everything before the offset has been copied. -/
theorem copyRegions_ends (hpos : 0 < src.size) (h : offset ≤ src.size)
    (hfuel : src.size - offset < fuel) :
    CopyEnds src (firstFault faults n (seekOffsets src.size offset (src.regionEnds offset)))
      (copyRegions src faults fuel n offset (copiedTo src offset)) := by
  induction fuel generalizing n offset with
  | zero => omega
  | succ fuel ih =>
    rw [copyRegions]
    by_cases hlt : offset < src.size
    · rw [if_pos hlt]
      rcases SparseFile.seekData_cases hlt with
        ⟨data, hdata, hle, hsize, hisData, hzero⟩ | ⟨hnone, hzero⟩
      · obtain ⟨hole, hhole, hlt', hle', hregion, hend⟩ :=
          SparseFile.seekHole_of_data hsize hisData
        rw [SparseFile.regionEnds_region hle hlt' hle' hzero hregion hend, seekOffsets]
        rcases seek_cases faults n (src.seekData offset) with
          ⟨e, hne, hfault, hseek⟩ | ⟨hfault, hseek⟩
        · simp only [hseek, if_neg hne, firstFault, hfault]
          exact seekFailed_ends hpos h e
        rcases seek_cases faults (n + 1) (src.seekHole data) with
          ⟨e, hne, hfault', hseek'⟩ | ⟨hfault', hseek'⟩
        · simp only [hseek.trans hdata, hseek', firstFault, hfault, hfault']
          exact seekFailed_ends hpos h e
        simp only [hseek.trans hdata, hseek'.trans hhole, if_neg (Nat.not_lt.mpr hle'),
          write_region hle hlt' hle' hzero, firstFault, hfault, hfault']
        exact ih hle' (by omega)
      · -- There is no data behind the offset.
        rw [SparseFile.regionEnds_hole hzero, seekOffsets, if_pos hlt]
        rcases seek_cases faults n (src.seekData offset) with
          ⟨e, hne, hfault, hseek⟩ | ⟨hfault, hseek⟩
        · simp only [hseek, if_neg hne, firstFault, hfault]
          exact seekFailed_ends hpos h e
        simp only [hseek.trans hnone, if_true, truncate_copiedTo h hzero, firstFault, hfault]
        exact .whole offset rfl
    · rw [if_neg hlt, truncate_copiedTo h fun i hi hi' => by omega,
        SparseFile.regionEnds_hole fun i hi hi' => by omega, seekOffsets, if_neg hlt]
      exact .whole offset rfl

end Loop

/-! ## The result -/

/-- The copy into an empty file ends, and if it ends well, the two files are
equal. -/
structure CopiesWell (src : SparseFile) (faults : SeekFaults) : Prop where
  terminates : (copySparseFile src faults true ⟨[], 0⟩).1 ≠ .error .stuck
  equal : (copySparseFile src faults true ⟨[], 0⟩).1 = .ok () →
    (copySparseFile src faults true ⟨[], 0⟩).2.content = src.bytes

theorem copySparseFile_ends (src : SparseFile) (faults : SeekFaults) :
    CopyEnds src (fallbackOffset src faults) (copySparseFile src faults true ⟨[], 0⟩) := by
  unfold copySparseFile fallbackOffset
  by_cases hzero : src.size = 0
  · have hnil : src.bytes = [] := List.length_eq_zero_iff.mp hzero
    rw [if_pos hzero, SparseFile.regionEnds_hole fun i hi hi' => by omega, seekOffsets,
      if_neg (by omega), ← hnil]
    exact .whole 0 rfl
  · rw [if_neg hzero, if_neg (by decide)]
    exact copyRegions_ends (by omega) (Nat.zero_le _) (by omega)

/-- The copy is right exactly when it does not fall back after it has copied a
region. -/
theorem copiesWell_iff (src : SparseFile) (faults : SeekFaults) :
    CopiesWell src faults ↔ ∀ offset, fallbackOffset src faults = some offset → offset = 0 := by
  have hends := copySparseFile_ends src faults
  have hiff : CopiesWell src faults ↔
      (copySparseFile src faults true ⟨[], 0⟩).1 ≠ .error .stuck ∧
        ((copySparseFile src faults true ⟨[], 0⟩).1 = .ok () →
          (copySparseFile src faults true ⟨[], 0⟩).2.content = src.bytes) :=
    ⟨fun h => ⟨h.terminates, h.equal⟩, fun h => ⟨h.1, h.2⟩⟩
  rw [hiff]
  generalize copySparseFile src faults true ⟨[], 0⟩ = r at hends
  cases hends with
  | whole pos h | failed e out h => simp [h]
  | dense offset h hle =>
    simp only [h, Option.some.injEq, forall_eq', ne_eq, reduceCtorEq, not_false_eq_true, true_and,
      forall_const]
    constructor
    · -- The two copies together are longer than the source.
      intro heq
      have hlen := congrArg List.length heq
      rw [List.length_append, length_take_bytes hle] at hlen
      omega
    · rintro rfl
      rfl

/-- A byte of data and a hole of two bytes. -/
def oneByteFile : SparseFile where
  bytes := [1, 0, 0]
  isData i := i == 0
  hole_zero i b h hi := by
    rcases i with _ | _ | _ | i
    · cases hi
    · exact (Option.some.inj h).symm
    · exact (Option.some.inj h).symm
    · cases h

/-- A file system on which the third seek fails. -/
def thirdSeekFails : SeekFaults where
  fault n := if n = 2 then some .EINVAL else none
  fault_ne n := by split_ifs <;> decide

/-- The byte is copied, and then the whole source is written behind it. -/
theorem dense_copy_behind_region :
    copySparseFile oneByteFile thirdSeekFails true ⟨[], 0⟩ = (.ok (), ⟨[1, 1, 0, 0], 4⟩) ∧
      ¬ CopiesWell oneByteFile thirdSeekFails := by
  have hcopy : copySparseFile oneByteFile thirdSeekFails true ⟨[], 0⟩ =
      (.ok (), ⟨[1, 1, 0, 0], 4⟩) := by decide
  refine ⟨hcopy, fun h => ?_⟩
  have hequal := h.equal (by rw [hcopy])
  rw [hcopy] at hequal
  exact absurd hequal (by decide)

end Firedoze
