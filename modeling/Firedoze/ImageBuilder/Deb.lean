import Firedoze.Archive.Ar
import Firedoze.Text.Space

/-!
# Members of a Debian package

`extractBusyBoxFromDeb`, `readDebPackageInfo` and `extractDebDataTarToRootfs` of
`cmd/firedoze-image-builder/main.go` look for a member of a Debian package, which
is an archive of `ar`.  The three functions have the same loop, `findMember`, with
a test for the name of the member and an error for its absence.

Slices are checked, and a slice outside of the buffer ends the search with `panic`.
Offsets are machine integers, so the end of a member can wrap around.
`findMember_ne_panic` says that no slice is outside of the buffer, whatever the
bytes are.  `findMember_archive` says that the search finds the first member with
the right name in an archive.
-/

namespace Firedoze.ImageBuilder

open Text Text.Decimal Archive

/-! ## The source -/

/-- Bytes in memory.  No buffer of Go is larger than the address space. -/
structure Buffer where
  data : Bytes
  fits : data.length < 2 ^ 62

/-- Why the search ends without a member.  `panic` is an index outside of the buffer. -/
inductive Stop
  | panic
  | invalidHeader
  | truncatedHeader
  | invalidSize (text : Bytes)
  | invalidTrailer (name : Bytes)
  | truncatedMember (name : Bytes)
  | missing (text : Bytes)
deriving DecidableEq

/-- The sum of two values of type `int`. -/
def addInt (a b : Int) : Int := (a + b).bmod (2 ^ 64)

/-- `s[lo:hi]`. -/
def slice (s : Bytes) (lo hi : Int) : Except Stop Bytes :=
  if 0 ≤ lo ∧ lo ≤ hi ∧ hi ≤ s.length then .ok ((s.drop lo.toNat).take (hi - lo).toNat)
  else .error .panic

/-- The name of a member, as its name field holds it. -/
def fieldName (field : Bytes) : Bytes :=
  let name := trimSpaceBytes field
  if [47].isSuffixOf name then name.dropLast else name

/-- A member, and the offset behind it. -/
structure Found where
  name : Bytes
  data : Bytes
  next : Int

/-- The name and the size in the header of a member. -/
def readHeader (header : Bytes) : Except Stop (Bytes × Int) := do
  let name := fieldName (← slice header 0 16)
  let sizeText := trimSpaceBytes (← slice header 48 58)
  match parseInt sizeText with
  | none => throw (.invalidSize sizeText)
  | some size =>
    if size < 0 then throw (.invalidSize sizeText)
    if (← slice header 58 60) ≠ Ar.trailer then throw (.invalidTrailer name)
    pure (name, size.toInt)

/-- One round of the loop: the member at the offset. -/
def readMember (deb : Buffer) (offset : Int) : Except Stop Found := do
  let start := addInt offset 60
  if start > deb.data.length then throw .truncatedHeader
  let header ← slice deb.data offset start
  let (name, size) ← readHeader header
  let stop := addInt start size
  if stop < start ∨ stop > deb.data.length then throw (.truncatedMember name)
  let data ← slice deb.data start stop
  pure ⟨name, data, if size % 2 ≠ 0 then addInt stop 1 else stop⟩

/-! ## One member -/

theorem addInt_eq {a b : Int} (h : 0 ≤ a + b) (h' : a + b < 2 ^ 63) : addInt a b = a + b := by
  refine Int.bmod_eq_of_le ?_ ?_ <;> omega

theorem slice_of_le {s : Bytes} {lo hi : Int} (hlo : 0 ≤ lo) (hle : lo ≤ hi) (hhi : hi ≤ s.length) :
    slice s lo hi = .ok ((s.drop lo.toNat).take (hi - lo).toNat) := if_pos ⟨hlo, hle, hhi⟩

theorem length_of_slice {s t : Bytes} {lo hi : Int} (h : slice s lo hi = .ok t) :
    (t.length : Int) = hi - lo := by
  unfold slice at h
  split_ifs at h with hbounds
  obtain ⟨hlo, hle, hhi⟩ := hbounds
  rw [← Except.ok.inj h, List.length_take, List.length_drop]
  omega

/-- A header of 60 bytes is read without a panic, and its size is not negative. -/
theorem readHeader_cases {header : Bytes} (h : header.length = 60) :
    (∃ e, readHeader header = .error e ∧ e ≠ .panic) ∨
      ∃ name size, readHeader header = .ok (name, size) ∧ 0 ≤ size ∧ size < 2 ^ 63 := by
  have hname : slice header 0 16 = .ok _ := slice_of_le (by omega) (by omega) (by omega)
  have hsize : slice header 48 58 = .ok _ := slice_of_le (by omega) (by omega) (by omega)
  have htrailer : slice header 58 60 = .ok _ := slice_of_le (by omega) (by omega) (by omega)
  unfold readHeader
  rw [hname, hsize, htrailer]
  simp only [bind, Except.bind, pure, Except.pure, throw, throwThe, MonadExceptOf.throw]
  split
  · exact Or.inl ⟨_, rfl, by simp⟩
  · rename_i size _
    split_ifs with hneg hbad
    · exact Or.inl ⟨_, rfl, by simp⟩
    · exact Or.inl ⟨_, rfl, by simp⟩
    · refine Or.inr ⟨_, _, rfl, ?_, ?_⟩
      · simpa [Int64.lt_iff_toInt_lt] using hneg
      · exact size.toInt_lt

variable {deb : Buffer} {offset : Int} {wanted : Bytes → Bool}

/-- A member at an offset inside the buffer is read without a panic, and the next
offset is behind it. -/
theorem readMember_cases (deb : Buffer) (hoffset : 0 ≤ offset) (hlt : offset < deb.data.length) :
    (∃ e, readMember deb offset = .error e ∧ e ≠ .panic) ∨
      ∃ found, readMember deb offset = .ok found ∧ offset < found.next := by
  have hfits := deb.fits
  have hstart : addInt offset 60 = offset + 60 := addInt_eq (by omega) (by omega)
  unfold readMember
  simp only [hstart, bind, Except.bind, pure, Except.pure, throw, throwThe, MonadExceptOf.throw]
  by_cases hshort : offset + 60 > deb.data.length
  · exact Or.inl ⟨_, by rw [if_pos hshort], by simp⟩
  · rw [if_neg hshort]
    cases hheader : slice deb.data offset (offset + 60) with
    | error e =>
      rw [slice_of_le hoffset (by omega) (by omega)] at hheader
      cases hheader
    | ok header =>
      have hlength := length_of_slice hheader
      have hsixty : header.length = 60 := by omega
      rcases readHeader_cases hsixty with
        ⟨e, hread, he⟩ | ⟨name, size, hread, hsize, hbound⟩
      · exact Or.inl ⟨e, by simp only [hread], he⟩
      · simp only [hread]
        by_cases hout : addInt (offset + 60) size < offset + 60 ∨
            addInt (offset + 60) size > deb.data.length
        · exact Or.inl ⟨_, by rw [if_pos hout], by simp⟩
        · rw [if_neg hout]
          push Not at hout
          rw [slice_of_le (by omega) hout.1 hout.2]
          refine Or.inr ⟨_, rfl, ?_⟩
          -- The end of the member is in the buffer, so the byte behind it is no overflow.
          have hone : addInt (addInt (offset + 60) size) 1 = addInt (offset + 60) size + 1 :=
            addInt_eq (by omega) (by omega)
          dsimp only
          split_ifs <;> omega

theorem readMember_next_lt {found : Found} (hlt : offset < deb.data.length)
    (h : readMember deb offset = .ok found) :
    offset < found.next := by
  by_cases hoffset : 0 ≤ offset
  · rcases readMember_cases deb hoffset hlt with ⟨e, he, -⟩ | ⟨found', hfound, hnext⟩
    · rw [h] at he
      cases he
    · rw [h] at hfound
      rwa [Except.ok.inj hfound]
  · -- No slice starts in front of the buffer.
    have hpanic : slice deb.data offset (addInt offset 60) = .error .panic :=
      if_neg fun hbounds => hoffset hbounds.1
    unfold readMember at h
    simp only [bind, Except.bind, hpanic] at h
    split at h <;> cases h

/-! ## The search -/

/-- The loop. -/
def searchFrom (deb : Buffer) (wanted : Bytes → Bool) (missing : Bytes) (offset : Int) :
    Except Stop (Bytes × Bytes) :=
  if _hlt : offset < deb.data.length then
    match _hread : readMember deb offset with
    | .error e => .error e
    | .ok found =>
      if wanted found.name then .ok (found.name, found.data)
      else searchFrom deb wanted missing found.next
  else .error (.missing missing)
termination_by (deb.data.length - offset).toNat
decreasing_by
  have := readMember_next_lt _hlt _hread
  omega

theorem searchFrom_of_ok {missing : Bytes} {found : Found} (hlt : offset < deb.data.length)
    (hread : readMember deb offset = .ok found) :
    searchFrom deb wanted missing offset =
      if wanted found.name then .ok (found.name, found.data)
      else searchFrom deb wanted missing found.next := by
  rw [searchFrom, dif_pos hlt]
  split
  · rename_i e he
    rw [hread] at he
    cases he
  · rename_i found' hfound
    rw [hread] at hfound
    rw [Except.ok.inj hfound]

/-- The part that the three functions share. -/
def findMember (deb : Buffer) (wanted : Bytes → Bool) (missing : Bytes) :
    Except Stop (Bytes × Bytes) :=
  if Ar.globalHeader.isPrefixOf deb.data then
    searchFrom deb wanted missing Ar.globalHeader.length
  else .error .invalidHeader

/-- `isDebDataMember`. -/
def isDebDataMember (name : Bytes) : Bool :=
  name == bytes "data.tar" || (bytes "data.tar.").isPrefixOf name

/-- `isDebControlMember`. -/
def isDebControlMember (name : Bytes) : Bool :=
  name == bytes "control.tar" || (bytes "control.tar.").isPrefixOf name

/-- A search ends early, or its member is passed on. -/
inductive Passed (α : Type)
  | stopped (why : Stop)
  | passed (result : α)

def passOn {α : Type} (use : Bytes → Bytes → α) : Except Stop (Bytes × Bytes) → Passed α
  | .error e => .stopped e
  | .ok (name, data) => .passed (use name data)

section Functions

variable {α : Type}

/-- `extractBusyBoxFromDeb`. -/
def extractBusyBoxFromDeb (extractBusyBoxFromDataTar : Bytes → Bytes → α) (deb : Buffer) :
    Passed α :=
  passOn extractBusyBoxFromDataTar
    (findMember deb isDebDataMember (bytes "deb package has no data.tar member"))

/-- `readDebPackageInfo`. -/
def readDebPackageInfo (parseDebControlTar : Bytes → Bytes → α) (deb : Buffer) : Passed α :=
  passOn parseDebControlTar
    (findMember deb isDebControlMember (bytes "deb package has no control.tar member"))

/-- `extractDebDataTarToRootfs`. -/
def extractDebDataTarToRootfs (extractDataTarToRootfs : Bytes → Bytes → α) (deb : Buffer) :
    Passed α :=
  passOn extractDataTarToRootfs
    (findMember deb isDebDataMember (bytes "deb package has no data.tar member"))

end Functions

/-! ## No index outside of the buffer -/

theorem searchFrom_ne_panic {missing : Bytes} (hoffset : 0 ≤ offset) :
    searchFrom deb wanted missing offset ≠ .error .panic := by
  fun_induction searchFrom deb wanted missing offset with
  | case1 offset hlt e hread =>
    rcases readMember_cases deb hoffset hlt with ⟨e', he, hne⟩ | ⟨found, hfound, -⟩
    · rw [hread] at he
      cases he
      simpa using hne
    · rw [hread] at hfound
      cases hfound
  | case2 offset hlt found hread hwanted | case4 offset hlt => simp
  | case3 offset hlt found hread hwanted ih =>
    exact ih (hoffset.trans (readMember_next_lt hlt hread).le)

theorem findMember_ne_panic (deb : Buffer) (wanted : Bytes → Bool) (missing : Bytes) :
    findMember deb wanted missing ≠ .error .panic := by
  unfold findMember
  split_ifs
  · exact searchFrom_ne_panic (Int.natCast_nonneg _)
  · simp

/-! ## Archives -/

theorem slice_append (before middle after : Bytes) :
    slice (before ++ (middle ++ after)) before.length (before.length + middle.length) =
      .ok middle := by
  rw [slice_of_le (by omega) (by omega) (by simp only [List.length_append]; omega)]
  have hlength : ((before.length : Int) + middle.length - before.length).toNat = middle.length := by
    omega
  rw [hlength, Int.toNat_natCast, List.drop_left, List.take_left]

theorem tight_of_digits {s : Bytes} (h : ∀ b ∈ s, isDigit b = true) : Tight s := by
  have hfront : ∀ code ∈ spaceCodes, code ≠ [] ∧ ∀ b ∈ code, isDigit b = false := by
    decide +kernel
  refine ⟨fun code hcode hpre => ?_, fun code hcode hpre => ?_⟩
  · obtain ⟨hne, hcodes⟩ := hfront code hcode
    obtain ⟨b, hb⟩ := List.exists_mem_of_ne_nil code hne
    exact absurd (h b (hpre.subset hb)) (by simp [hcodes b hb])
  · obtain ⟨code', hcode', rfl⟩ := List.mem_map.mp hcode
    obtain ⟨hne, hcodes⟩ := hfront code' hcode'
    obtain ⟨b, hb⟩ := List.exists_mem_of_ne_nil code' hne
    have hmem := List.mem_reverse.mp (hpre.subset (List.mem_reverse.mpr hb))
    exact absurd (h b hmem) (by simp [hcodes b hb])

theorem parseInt_sizeField (m : Ar.Member) :
    parseInt (trimSpaceBytes m.sizeField) = some (Int64.ofNat m.content.length) := by
  have hlt := m.content_length
  have hint : (Int64.ofNat m.content.length).toInt = m.content.length :=
    Int64.toInt_ofNat_of_lt (by omega)
  have hne : formatUint m.content.length ≠ [] := by simp [formatUint, digits_ne_nil]
  have htrim : trimSpaceBytes m.sizeField = formatUint m.content.length :=
    trimSpaceBytes_spaces (tight_of_digits fun _ hb => isDigit_of_mem_formatUint hb) hne _
  have hformat : formatInt (Int64.ofNat m.content.length) = formatUint m.content.length := by
    rw [formatInt, hint, if_neg (by rw [Int64.lt_iff_toInt_lt, hint]; simp)]
    simp
  rw [htrim, ← hformat, parseInt_formatInt]

theorem readHeader_header (m : Ar.Member) :
    readHeader m.header = .ok (fieldName m.nameField, m.content.length) := by
  have hname : slice m.header 0 16 = .ok m.nameField := by
    have h := slice_append [] m.nameField (m.attributes ++ m.sizeField ++ Ar.trailer)
    simpa [Ar.Member.header, m.nameField_length] using h
  have hsize : slice m.header 48 58 = .ok m.sizeField := by
    have h := slice_append (m.nameField ++ m.attributes) m.sizeField Ar.trailer
    simpa [Ar.Member.header, m.nameField_length, m.attributes_length, m.length_sizeField] using h
  have htrailer : slice m.header 58 60 = .ok Ar.trailer := by
    have h := slice_append (m.nameField ++ m.attributes ++ m.sizeField) Ar.trailer []
    simpa [Ar.Member.header, m.nameField_length, m.attributes_length, m.length_sizeField,
      Ar.trailer] using h
  have hlt := m.content_length
  have hint : (Int64.ofNat m.content.length).toInt = m.content.length :=
    Int64.toInt_ofNat_of_lt (by omega)
  have hneg : ¬ Int64.ofNat m.content.length < 0 := by
    rw [Int64.lt_iff_toInt_lt, hint]
    simp
  unfold readHeader
  simp only [hname, hsize, htrailer, bind, Except.bind, parseInt_sizeField, if_neg hneg, hint]
  simp [pure, Except.pure]

/-- A member whose parts can be read. -/
theorem readMember_of_parts {offset start stop size : Int} {header name data : Bytes}
    (hstart : addInt offset 60 = start) (hfits : start ≤ deb.data.length)
    (hheader : slice deb.data offset start = .ok header)
    (hread : readHeader header = .ok (name, size)) (hstop : addInt start size = stop)
    (hle : start ≤ stop) (hend : stop ≤ deb.data.length)
    (hdata : slice deb.data start stop = .ok data) :
    readMember deb offset = .ok ⟨name, data, if size % 2 ≠ 0 then addInt stop 1 else stop⟩ := by
  unfold readMember
  simp only [hstart, hheader, hread, hstop, hdata, bind, Except.bind]
  rw [if_neg (by omega), if_neg (by omega)]
  rfl

/-- The member behind some bytes. -/
theorem readMember_member {before after : Bytes} (m : Ar.Member)
    (hdeb : deb.data = before ++ (m.encode ++ after)) :
    readMember deb before.length =
      .ok ⟨fieldName m.nameField, m.content, (before.length + m.encode.length : Nat)⟩ := by
  have hfits := deb.fits
  have hheader := m.length_header
  have hlength : deb.data.length =
      before.length + (60 + m.content.length + m.padding.length + after.length) := by
    rw [hdeb]
    simp only [List.length_append, Ar.Member.encode, hheader]
  have hstart : addInt before.length 60 = before.length + 60 := addInt_eq (by omega) (by omega)
  have hstop : addInt (before.length + 60) m.content.length =
      before.length + 60 + m.content.length := addInt_eq (by omega) (by omega)
  have hsliceHeader : slice deb.data before.length (before.length + 60) = .ok m.header := by
    have h := slice_append before m.header (m.content ++ m.padding ++ after)
    rw [hheader] at h
    rw [hdeb]
    simpa [Ar.Member.encode] using h
  have hsliceContent : slice deb.data (before.length + 60)
      (before.length + 60 + m.content.length) = .ok m.content := by
    have h := slice_append (before ++ m.header) m.content (m.padding ++ after)
    rw [List.length_append, hheader] at h
    rw [hdeb]
    simpa [Ar.Member.encode] using h
  have hone : addInt (before.length + 60 + m.content.length) 1 =
      before.length + 60 + m.content.length + 1 := addInt_eq (by omega) (by omega)
  have hnext : (if (m.content.length : Int) % 2 ≠ 0 then
      addInt (before.length + 60 + m.content.length) 1
      else before.length + 60 + m.content.length) = (before.length + m.encode.length : Nat) := by
    rw [hone, Ar.Member.encode, List.length_append, List.length_append, hheader, Ar.Member.padding]
    split_ifs <;> simp <;> omega
  rw [readMember_of_parts hstart (by omega) hsliceHeader (readHeader_header m) hstop (by omega)
    (by omega) hsliceContent, hnext]

theorem searchFrom_members {missing before : Bytes} (members : List Ar.Member)
    (hdeb : deb.data = before ++ members.flatMap Ar.Member.encode) :
    searchFrom deb wanted missing before.length =
      match members.find? fun m => wanted (fieldName m.nameField) with
      | some m => .ok (fieldName m.nameField, m.content)
      | none => .error (.missing missing) := by
  induction members generalizing before with
  | nil =>
    rw [searchFrom, dif_neg (by simp [hdeb])]
    rfl
  | cons m members ih =>
    have hread := readMember_member m (by rw [hdeb, List.flatMap_cons])
    have hlt : (before.length : Int) < deb.data.length := by
      have hheader := m.length_header
      simp only [hdeb, List.flatMap_cons, Ar.Member.encode, List.length_append]
      omega
    rw [searchFrom_of_ok hlt hread, List.find?_cons]
    dsimp only
    cases hwanted : wanted (fieldName m.nameField) with
    | true => rfl
    | false =>
      have hrest : deb.data = (before ++ m.encode) ++ members.flatMap Ar.Member.encode := by
        rw [hdeb, List.flatMap_cons, List.append_assoc]
      rw [if_neg (by simp), ← List.length_append, ih hrest]

/-- An archive of `ar` in memory. -/
structure Package where
  members : List Ar.Member
  fits : (Ar.archive members).length < 2 ^ 62

def Package.buffer (p : Package) : Buffer := ⟨Ar.archive p.members, p.fits⟩

/-- The first member whose name passes the test. -/
def Package.first (p : Package) (wanted : Bytes → Bool) : Option Ar.Member :=
  p.members.find? fun m => wanted (fieldName m.nameField)

theorem findMember_archive (p : Package) (wanted : Bytes → Bool) (missing : Bytes) :
    findMember p.buffer wanted missing =
      match p.first wanted with
      | some m => .ok (fieldName m.nameField, m.content)
      | none => .error (.missing missing) := by
  have hheader : Ar.globalHeader.isPrefixOf p.buffer.data = true :=
    List.isPrefixOf_iff_prefix.mpr ⟨_, rfl⟩
  rw [findMember, if_pos hheader]
  exact searchFrom_members p.members rfl

/-! ## Names -/

/-- A name field holds the name with spaces behind it. -/
theorem fieldName_padded {name : Bytes} (h : Tight name) (hne : name ≠ [])
    (hslash : name.getLast? ≠ some 47) (width : Nat) : fieldName (Ar.padded width name) = name := by
  have htrim : trimSpaceBytes (Ar.padded width name) = name := trimSpaceBytes_spaces h hne _
  have hend : [47].isSuffixOf name = false := by
    rw [Bool.eq_false_iff]
    intro hsuffix
    obtain ⟨start, rfl⟩ := List.isSuffixOf_iff_suffix.mp hsuffix
    exact hslash (by simp)
  rw [fieldName, htrim]
  simp [hend]

/-- A name field holds the name, a slash, and spaces behind it. -/
theorem fieldName_slash {name : Bytes} (h : StartsFree spaceCodes name) (width : Nat) :
    fieldName (Ar.padded width (name ++ [47])) = name := by
  have hslash : ∀ code ∈ spaceCodes, (47 : UInt8) ∉ code := by decide
  have htight : Tight (name ++ [47]) := by
    refine ⟨fun code hcode hpre => ?_, fun code hcode hpre => ?_⟩
    · rcases List.prefix_concat_iff.mp hpre with heq | hshort
      · exact hslash code hcode (by simp [heq])
      · exact h code hcode hshort
    · obtain ⟨code', hcode', rfl⟩ := List.mem_map.mp hcode
      have hne' : ∀ code ∈ spaceCodes, code ≠ [] := by decide
      cases hrev : code'.reverse with
      | nil => exact hne' code' hcode' (by simpa using hrev)
      | cons b rest =>
        rw [hrev, List.reverse_concat] at hpre
        have hb : b = 47 := (List.cons_prefix_cons.mp hpre).1
        exact hslash code' hcode' (List.mem_reverse.mp (by rw [hrev, hb]; exact List.mem_cons_self))
  have htrim : trimSpaceBytes (Ar.padded width (name ++ [47])) = name ++ [47] :=
    trimSpaceBytes_spaces htight (by simp) _
  have hend : [47].isSuffixOf (name ++ [47]) = true :=
    List.isSuffixOf_iff_suffix.mpr ⟨name, rfl⟩
  rw [fieldName, htrim]
  simp [hend]

/-! ## The three functions -/

/-- The function never indexes outside of a buffer.  On an archive it passes on the
first member whose name passes the test, and reports that there is none. -/
structure SearchSound {α : Type} (f : Buffer → Passed α) (use : Bytes → Bytes → α)
    (wanted : Bytes → Bool) (missing : Bytes) : Prop where
  ne_panic : ∀ deb, f deb ≠ .stopped .panic
  found : ∀ (p : Package) (m : Ar.Member), p.first wanted = some m →
    f p.buffer = .passed (use (fieldName m.nameField) m.content)
  missing_iff : ∀ p : Package,
    f p.buffer = .stopped (.missing missing) ↔ p.first wanted = none

theorem searchSound_findMember {α : Type} (use : Bytes → Bytes → α) (wanted : Bytes → Bool)
    (missing : Bytes) :
    SearchSound (fun deb => passOn use (findMember deb wanted missing)) use wanted missing := by
  refine ⟨fun deb => ?_, fun p m hm => ?_, fun p => ?_⟩
  · have hne := findMember_ne_panic deb wanted missing
    cases hfind : findMember deb wanted missing with
    | error e =>
      intro h
      rw [hfind] at hne
      exact hne (by rw [Passed.stopped.inj h])
    | ok found => intro h; cases h
  · rw [findMember_archive, hm]
    rfl
  · rw [findMember_archive]
    cases p.first wanted with
    | none | some m => simp [passOn]

/-- All three functions are sound, and the two ways to write a name are read. -/
theorem debMembers_sound {α : Type} (use : Bytes → Bytes → α) :
    SearchSound (extractBusyBoxFromDeb use) use isDebDataMember
      (bytes "deb package has no data.tar member") ∧
    SearchSound (readDebPackageInfo use) use isDebControlMember
      (bytes "deb package has no control.tar member") ∧
    SearchSound (extractDebDataTarToRootfs use) use isDebDataMember
      (bytes "deb package has no data.tar member") ∧
    (∀ name, Tight name → name ≠ [] → name.getLast? ≠ some 47 →
      fieldName (Ar.padded 16 name) = name) ∧
    ∀ name, StartsFree spaceCodes name → fieldName (Ar.padded 16 (name ++ [47])) = name :=
  ⟨searchSound_findMember _ _ _, searchSound_findMember _ _ _, searchSound_findMember _ _ _,
    fun _ h hne hslash => fieldName_padded h hne hslash 16,
    fun _ h => fieldName_slash h 16⟩

end Firedoze.ImageBuilder
