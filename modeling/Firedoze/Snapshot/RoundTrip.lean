import Firedoze.Snapshot.Bundle

/-!
# Bundles that are read back, whole or in part

`import_of_export` is the result: the import of an exported stream makes the
same snapshot, and the import of a part of such a stream either makes it too
or leaves nothing behind.

* `unmarshal_manifestData`: the manifest is read as it was written, up to the
  blanks in the metadata.
* `exportArchive_closed`: the four shapes of an archive that is closed, after an
  export that went well or failed midway.
* `unpackEntries_closed`: the loop of the import over such an archive, or over a
  part of it, comes to an error, to a bundle without a disk, or to the bundle
  that was exported.
* `importSnapshot_cases`: an import under a free name changes nothing unless it
  succeeds.
-/

namespace Firedoze.Bundle

open Text Archive Function

/-! ## The manifest -/

section Manifest

variable {J : Json.Codec} {m : Manifest}

theorem ManifestField.ofKey_key (f : ManifestField) : ofKey f.key = some f := by
  cases f with
  | text f => cases f <;> decide +kernel
  | baseImageMetadata | diskSize => decide +kernel

/-- A member as it is read: the same key, and a text of the same value. -/
def SameMember (J : Json.Codec) (member member' : String × Bytes) : Prop :=
  member'.1 = member.1 ∧ J.parse member'.2 = J.parse member.2

theorem Manifest.setMembers_append (a b : List (String × Bytes)) (m : Manifest) :
    setMembers J (a ++ b) m = (setMembers J a m).bind (setMembers J b) := by
  induction a generalizing m with
  | nil => rfl
  | cons member a ih =>
    simp only [List.cons_append, setMembers]
    cases m.setMember J member with
    | none => rfl
    | some m' => exact ih m'

/-- A string that was written is read. -/
theorem Manifest.setMember_text {f : ManifestText} {s : String} {member : String × Bytes}
    (h : SameMember J ((ManifestField.text f).key, J.quote s) member) :
    m.setMember J member = some { m with text := update m.text f s } := by
  obtain ⟨hkey, hvalue⟩ := h
  have hread : readText J (m.text f) member.2 = some s := by
    unfold readText
    rw [hvalue]
    simp only [Json.Codec.parse_quote]
  unfold setMember
  rw [hkey, ManifestField.ofKey_key]
  simp only [hread, Option.map_some]

/-- A string that was left out because it is empty stays empty. -/
theorem Manifest.setMembers_omitEmpty {f : ManifestText} {s : String}
    {ms : List (String × Bytes)} (h : List.Forall₂ (SameMember J) (omitEmpty J f s) ms)
    (hm : m.text f = "") :
    setMembers J ms m = some { m with text := update m.text f s } := by
  unfold omitEmpty at h
  split at h
  · rename_i hs
    cases h
    simp only [setMembers, hs, ← hm, update_eq_self]
  · cases h with
    | cons hmember hnil =>
      cases hnil
      simp only [setMembers, setMember_text hmember, Option.bind_some]

/-- Metadata with a value is written without blanks. -/
theorem snapshotMetadataJSON_of_parse {metadata : Bytes} {v : Json.Value}
    (h : J.parse metadata = some v) (hv : v ≠ .null) :
    snapshotMetadataJSON J metadata = J.compact metadata := by
  have htext : J.marshalText metadata = metadata := by
    unfold Json.Codec.marshalText
    rw [if_neg (Json.Codec.ne_nil_of_parse h), if_pos (by simp [h])]
  unfold snapshotMetadataJSON
  simp only [htext, if_neg (Json.Codec.ne_null_of_parse (J.parse_compact metadata v h) hv)]

theorem parse_snapshotMetadataJSON {metadata : Bytes} {v : Json.Value}
    (h : J.parse metadata = some v) (hv : v ≠ .null) :
    J.parse (snapshotMetadataJSON J metadata) = some v := by
  rw [snapshotMetadataJSON_of_parse h hv]
  exact J.parse_compact metadata v h

theorem snapshotMetadataJSON_nil : snapshotMetadataJSON J [] = [] := by
  simp [snapshotMetadataJSON, Json.Codec.marshalText, J.compact_null]

/-- Metadata that the writers store: empty, or a JSON text other than
`null`. -/
def StoresMetadata (J : Json.Codec) (metadata : Bytes) : Prop :=
  metadata = [] ∨ ∃ v, J.parse metadata = some v ∧ v ≠ .null

/-- Metadata that is equal as a JSON value, where the empty text stays
empty. -/
def SameMetadata (J : Json.Codec) (metadata metadata' : Bytes) : Prop :=
  metadata = [] ∧ metadata' = [] ∨
    ∃ v, J.parse metadata = some v ∧ J.parse metadata' = some v

/-- The metadata is read as it was written. -/
theorem Manifest.setMembers_metadata {metadata : Bytes} {ms : List (String × Bytes)}
    (hstored : StoresMetadata J metadata)
    (h : List.Forall₂ (SameMember J) (metadataMember J metadata) ms)
    (hm : m.baseImageMetadata = []) :
    ∃ raw, setMembers J ms m = some { m with baseImageMetadata := raw } ∧
      SameMetadata J metadata ({ m with baseImageMetadata := raw } : Manifest).metadata := by
  unfold metadataMember at h
  rcases hstored with rfl | ⟨v, hparse, hv⟩
  · rw [if_pos snapshotMetadataJSON_nil] at h
    cases h
    exact ⟨[], by simp only [setMembers, ← hm], Or.inl ⟨rfl, by simp [Manifest.metadata]⟩⟩
  · have hwritten := parse_snapshotMetadataJSON hparse hv
    rw [if_neg (Json.Codec.ne_nil_of_parse hwritten)] at h
    cases h with
    | @cons _ member _ _ hmember hnil =>
      cases hnil
      obtain ⟨hkey, hvalue⟩ := hmember
      have hraw : J.parse member.2 = some v := hvalue.trans hwritten
      refine ⟨member.2, ?_, Or.inr ⟨v, hparse, ?_⟩⟩
      · simp only [setMembers, setMember, hkey, ManifestField.ofKey_key, Option.bind_some]
      · unfold Manifest.metadata
        rw [if_neg (not_or.mpr ⟨Json.Codec.ne_nil_of_parse hraw,
          Json.Codec.ne_null_of_parse hraw hv⟩)]
        exact hraw

/-- The size that was written is read. -/
theorem Manifest.setMember_diskSize {size : Nat} {member : String × Bytes}
    (h : SameMember J (ManifestField.diskSize.key, J.formatInt size) member)
    (hsize : size < 2 ^ 63) :
    m.setMember J member = some { m with diskSize := size } := by
  obtain ⟨hkey, hvalue⟩ := h
  have hread : readInt J m.diskSize member.2 = some (size : Int) := by
    unfold readInt
    rw [hvalue, J.parse_formatInt]
    exact if_pos (by omega)
  unfold setMember
  rw [hkey, ManifestField.ofKey_key]
  simp only [hread, Option.map_some]

/-- Every member of the manifest has a value. -/
theorem parse_manifestMembers {snap : StoredSnapshot} (size : Nat)
    (hstored : StoresMetadata J snap.baseImageMetadata) :
    ∀ member ∈ manifestMembers J snap size, (J.parse member.2).isSome = true := by
  have hquote {key s : String} : ∀ member ∈ [(key, J.quote s)],
      (J.parse member.2).isSome = true := by simp
  have homit {f : ManifestText} {s : String} : ∀ member ∈ omitEmpty J f s,
      (J.parse member.2).isSome = true := by
    unfold omitEmpty
    split
    · simp
    · exact hquote
  have hmeta : ∀ member ∈ metadataMember J snap.baseImageMetadata,
      (J.parse member.2).isSome = true := by
    unfold metadataMember
    split
    · simp
    · rename_i hne
      rcases hstored with hnil | ⟨v, hparse, hv⟩
      · exact absurd (by rw [hnil, snapshotMetadataJSON_nil]) hne
      · simp [parse_snapshotMetadataJSON hparse hv]
  intro member hmember
  simp only [manifestMembers, List.mem_cons, List.mem_append] at hmember
  rcases hmember with rfl | rfl | h | h | h | h | rfl | rfl | h
  · simp
  · simp
  · exact homit member h
  · exact homit member h
  · exact homit member h
  · exact hmeta member h
  · simp
  · simp [J.parse_formatInt]
  · exact homit member h

/-- The manifest has what the import needs, and what it keeps. -/
structure ReadsBack (J : Json.Codec) (snap : StoredSnapshot) (size : Nat) (m : Manifest) :
    Prop where
  format : m.text .format = snapshotBundleFormat
  disk : m.text .disk = snapshotBundleDiskName
  sourceVM : m.text .sourceVM = snap.sourceVM
  baseImageID : m.text .baseImageID = snap.baseImageID
  kernelID : m.text .kernelID = snap.kernelID
  diskSize : m.diskSize = size
  metadata : SameMetadata J snap.baseImageMetadata m.metadata

/-- The manifest is read as it was written. -/
theorem unmarshal_manifestData {snap : StoredSnapshot} (size : Nat)
    (hstored : StoresMetadata J snap.baseImageMetadata) (hsize : size < 2 ^ 63) :
    ∃ m, Manifest.empty.unmarshal J (manifestData J snap size) = some m ∧
      ReadsBack J snap size m := by
  obtain ⟨ms, hms, hsame⟩ := J.members_marshalIndent _ (parse_manifestMembers size hstored)
  change List.Forall₂ (SameMember J) _ ms at hsame
  unfold manifestMembers at hsame
  -- The members one after the other.
  obtain _ | ⟨hformat, h₁⟩ := hsame
  obtain _ | ⟨hname, h₂⟩ := h₁
  obtain ⟨source, rest₃, rfl, hsource, h₃⟩ := Json.forall₂_append h₂
  obtain ⟨base, rest₄, rfl, hbase, h₄⟩ := Json.forall₂_append h₃
  obtain ⟨kernel, rest₅, rfl, hkernel, h₅⟩ := Json.forall₂_append h₄
  obtain ⟨metadata, rest₆, rfl, hmetadata, h₆⟩ := Json.forall₂_append h₅
  obtain _ | ⟨hdisk, h₇⟩ := h₆
  obtain _ | ⟨hdiskSize, hcreated⟩ := h₇
  let m₀ : Manifest :=
    { Manifest.empty with
      text := update (update (update (update (update
        Manifest.empty.text .format snapshotBundleFormat) .name snap.name) .sourceVM snap.sourceVM)
        .baseImageID snap.baseImageID) .kernelID snap.kernelID }
  obtain ⟨raw, hraw, hmeta⟩ := Manifest.setMembers_metadata (m := m₀) hstored hmetadata rfl
  refine ⟨⟨update (update m₀.text .disk snapshotBundleDiskName) .createdAt
    snap.createdAt, raw, size⟩, ?_, ?_⟩
  · unfold Manifest.unmarshal manifestData
    rw [hms, Option.bind_some, Manifest.setMembers, Manifest.setMember_text hformat,
      Option.bind_some, Manifest.setMembers, Manifest.setMember_text hname, Option.bind_some,
      Manifest.setMembers_append, Manifest.setMembers_omitEmpty hsource rfl, Option.bind_some,
      Manifest.setMembers_append, Manifest.setMembers_omitEmpty hbase rfl, Option.bind_some,
      Manifest.setMembers_append, Manifest.setMembers_omitEmpty hkernel rfl, Option.bind_some,
      Manifest.setMembers_append]
    change (Manifest.setMembers J metadata m₀).bind _ = _
    rw [hraw, Option.bind_some, Manifest.setMembers, Manifest.setMember_text hdisk,
      Option.bind_some, Manifest.setMembers, Manifest.setMember_diskSize hdiskSize hsize,
      Option.bind_some, Manifest.setMembers_omitEmpty hcreated rfl]
  · exact ⟨rfl, rfl, rfl, rfl, rfl, rfl, hmeta⟩

end Manifest

/-! ## The archive -/

section Archive

variable (L : Libraries) (snap : StoredSnapshot) (disk : Bytes) (now modTime : Int)

/-- The header of the manifest. -/
def manifestHeader : Bytes :=
  L.tar.encode (.file (bytes snapshotBundleManifestName)
    (manifestData L.json snap disk.length).length) now

/-- The header of the disk. -/
def diskHeader : Bytes := L.tar.encode (.file (bytes snapshotBundleDiskName) disk.length) modTime

/-- The padding after the manifest. -/
def manifestPadding : Nat := padding (manifestData L.json snap disk.length).length

/-- The archive of an export that went well. -/
def wholeArchive : Bytes :=
  manifestHeader L snap disk now ++ (manifestData L.json snap disk.length ++
    (zeros (manifestPadding L snap disk) ++ (diskHeader L disk modTime ++
      (disk ++ (zeros (padding disk.length) ++ trailer)))))

/-- An archive that was closed: in the middle of the manifest, after it, in the
middle of the disk, or at its end. -/
inductive ClosedArchive : Bytes → Prop
  | inManifest (q : Bytes) : q <+: manifestData L.json snap disk.length →
      q ≠ manifestData L.json snap disk.length →
      ClosedArchive (manifestHeader L snap disk now ++ q)
  | manifestOnly : ClosedArchive (manifestHeader L snap disk now ++
      (manifestData L.json snap disk.length ++ (zeros (manifestPadding L snap disk) ++ trailer)))
  | inDisk (q : Bytes) : q <+: disk → q ≠ disk →
      ClosedArchive (manifestHeader L snap disk now ++ (manifestData L.json snap disk.length ++
        (zeros (manifestPadding L snap disk) ++ (diskHeader L disk modTime ++ q))))
  | whole : ClosedArchive (wholeArchive L snap disk now modTime)

variable {L snap disk now modTime}

/-- An entry of which a part was written. -/
theorem writeTarFile_eq {C : HeaderCodec} {out : Bytes} {pad : Nat} {name : String}
    {time : Int} {src : Source} (full : Bytes) (hsrc : src.data <+: full) :
    writeTarFile C ⟨out, 0, pad⟩ name full.length time src =
      (⟨out ++ zeros pad ++ C.encode (.file (bytes name) full.length) time ++ src.data,
        full.length - src.data.length, padding full.length⟩, !src.failed) := by
  have hle : src.data.length ≤ full.length := hsrc.length_le
  simp [writeTarFile, Writer.writeHeader, Writer.flush, Writer.write, Header.file,
    List.take_of_length_le hle, hle]

theorem left_eq_zero_iff {full q : Bytes} (hq : q <+: full) :
    full.length - q.length = 0 ↔ q = full := by
  constructor
  · intro h
    exact hq.eq_of_length (Nat.le_antisymm hq.length_le (by omega))
  · rintro rfl
    exact Nat.sub_self _

theorem close_of_complete {out : Bytes} {pad : Nat} :
    (⟨out, 0, pad⟩ : Writer).close = (⟨out ++ zeros pad ++ trailer, 0, 0⟩, true) := rfl

theorem close_of_incomplete {out : Bytes} {left pad : Nat} (h : left ≠ 0) :
    (⟨out, left, pad⟩ : Writer).close = (⟨out, left, pad⟩, false) := by
  simp [Writer.close, Writer.flush, h]

/-- The archive after the two entries, or a part of them. -/
theorem exportArchive_closed {manifest src : Source} (now modTime : Int)
    (hm : manifest.data <+: manifestData L.json snap disk.length) (hd : src.data <+: disk) :
    ClosedArchive L snap disk now modTime
      (exportArchive L snap disk.length now modTime manifest src).1 := by
  unfold exportArchive
  rw [show Writer.new = ⟨[], 0, 0⟩ from rfl, writeTarFile_eq _ hm]
  have hout : ([] ++ zeros 0 ++ L.tar.encode (.file (bytes snapshotBundleManifestName)
      (manifestData L.json snap disk.length).length) now) = manifestHeader L snap disk now := rfl
  simp only [hout]
  by_cases hfull : manifest.data = manifestData L.json snap disk.length
  · simp only [hfull, Nat.sub_self]
    split
    · rw [close_of_complete]
      simpa only [List.append_assoc, manifestPadding] using ClosedArchive.manifestOnly
    · rw [writeTarFile_eq _ hd]
      have hclosed : ClosedArchive L snap disk now modTime (Writer.close
          ⟨manifestHeader L snap disk now ++ manifestData L.json snap disk.length ++
            zeros (manifestPadding L snap disk) ++ diskHeader L disk modTime ++ src.data,
            disk.length - src.data.length, padding disk.length⟩).1.out := by
        by_cases hdisk : src.data = disk
        · rw [hdisk, Nat.sub_self, close_of_complete]
          simpa only [List.append_assoc, wholeArchive] using ClosedArchive.whole
        · rw [close_of_incomplete (fun h => hdisk ((left_eq_zero_iff hd).mp h))]
          simpa only [List.append_assoc] using ClosedArchive.inDisk src.data hd hdisk
      split
      · exact hclosed
      · exact hclosed
  · have hleft : (manifestData L.json snap disk.length).length - manifest.data.length ≠ 0 :=
      fun h => hfull ((left_eq_zero_iff hm).mp h)
    have hclosed : ClosedArchive L snap disk now modTime
        (manifestHeader L snap disk now ++ manifest.data) := .inManifest manifest.data hm hfull
    split
    · rwa [close_of_incomplete hleft]
    · simp only [writeTarFile, Writer.writeHeader, Writer.flush, hleft, if_false, Option.map_none]
      rwa [close_of_incomplete hleft]

/-- The archive of an export that went well. -/
theorem exportArchive_whole :
    exportArchive L snap disk.length now modTime
        ⟨manifestData L.json snap disk.length, false⟩ ⟨disk, false⟩ =
      (wholeArchive L snap disk now modTime, true) := by
  unfold exportArchive
  rw [show Writer.new = ⟨[], 0, 0⟩ from rfl,
    writeTarFile_eq (manifestData L.json snap disk.length) (List.prefix_refl _)]
  simp only [Bool.not_false, Bool.true_eq_false, if_false, Nat.sub_self]
  rw [writeTarFile_eq disk (List.prefix_refl _)]
  simp only [Bool.not_false, Bool.true_eq_false, if_false, Nat.sub_self, close_of_complete]
  simp only [wholeArchive, manifestHeader, diskHeader, manifestPadding, List.append_assoc,
    zeros, List.replicate_zero, List.nil_append]

end Archive

/-! ## The loop of the import -/

section Unpack

variable {L : Libraries} {r entry : Reader} {u : Unpacked} {size : Nat}

theorem cleanBundlePath_manifest :
    cleanBundlePath (bytes snapshotBundleManifestName) =
      .ok (bytes snapshotBundleManifestName) := by
  decide +kernel

theorem cleanBundlePath_disk :
    cleanBundlePath (bytes snapshotBundleDiskName) = .ok (bytes snapshotBundleDiskName) := by
  decide +kernel

theorem disk_ne_manifest : bytes snapshotBundleDiskName ≠ bytes snapshotBundleManifestName := by
  decide +kernel

theorem fits_manifest (h : size ≤ 1024 * 1024) :
    Header.Fits (bytes snapshotBundleManifestName) size :=
  ⟨by decide, by decide, by decide +kernel, by omega⟩

theorem fits_disk (h : size < 2 ^ 63) : Header.Fits (bytes snapshotBundleDiskName) size :=
  ⟨by decide, by decide, by decide +kernel, h⟩

theorem unpackEntries_eof (h : r.next L.tar = .error .eof) : unpackEntries L r u = .ok u := by
  rw [unpackEntries]
  split <;> simp_all

theorem unpackEntries_invalid (h : r.next L.tar = .error .invalid) :
    unpackEntries L r u = .error (.invalid "read tar entry") := by
  rw [unpackEntries]
  split <;> simp_all

/-- One round of the loop. -/
theorem unpackEntries_ok {header : Header} (h : r.next L.tar = .ok (header, entry)) :
    unpackEntries L r u =
      match cleanBundlePath header.name with
      | .error e => .error e
      | .ok name =>
          if header.isDir then unpackEntries L entry u
          else if header.isRegular = false then .error (.invalid "unsupported tar entry")
          else if name = bytes snapshotBundleManifestName then
            if u.manifestSeen then .error (.invalid "duplicate manifest")
            else if 1024 * 1024 < header.size then .error (.invalid "manifest is too large")
            else
              match entry.readAll with
              | none => .error .read
              | some (data, rest) =>
                  match u.manifest.unmarshal L.json data with
                  | none => .error (.invalid "parse manifest")
                  | some m => unpackEntries L rest { u with manifest := m, manifestSeen := true }
          else if name = bytes snapshotBundleDiskName then
            if u.disk.isSome then .error (.invalid "duplicate disk")
            else
              match entry.readAll with
              | none => .error .read
              | some (data, rest) => unpackEntries L rest { u with disk := some data }
          else .error (.invalid "unexpected file") := by
  rw [unpackEntries]
  split
  · rename_i hn
    rw [h] at hn
    cases hn
  · rename_i hn
    rw [h] at hn
    cases hn
  · rename_i header' entry' hn
    obtain ⟨rfl, rfl⟩ := Prod.mk.inj (Except.ok.inj (h.symm.trans hn))
    cases entry.readAll <;> rfl

/-- The entry of the manifest. -/
theorem unpackEntries_manifest
    (h : r.next L.tar = .ok (.file (bytes snapshotBundleManifestName) size, entry))
    (hsize : size ≤ 1024 * 1024) (hu : u.manifestSeen = false) :
    unpackEntries L r u =
      match entry.readAll with
      | none => .error .read
      | some (data, rest) =>
          match u.manifest.unmarshal L.json data with
          | none => .error (.invalid "parse manifest")
          | some m => unpackEntries L rest { u with manifest := m, manifestSeen := true } := by
  have hsmall : ¬ 1024 * 1024 < (Header.file (bytes snapshotBundleManifestName) size).size :=
    Nat.not_lt.mpr hsize
  simp only [unpackEntries_ok h, Header.file_name, Header.file_isDir, Header.file_isRegular,
    cleanBundlePath_manifest, Bool.false_eq_true, Bool.true_eq_false, if_false, if_true, hu,
    if_neg hsmall]

/-- The entry of the disk. -/
theorem unpackEntries_disk
    (h : r.next L.tar = .ok (.file (bytes snapshotBundleDiskName) size, entry))
    (hu : u.disk = none) :
    unpackEntries L r u =
      match entry.readAll with
      | none => .error .read
      | some (data, rest) => unpackEntries L rest { u with disk := some data } := by
  simp only [unpackEntries_ok h, Header.file_name, Header.file_isDir, Header.file_isRegular,
    cleanBundlePath_disk, Bool.false_eq_true, Bool.true_eq_false, if_false,
    if_neg disk_ne_manifest, if_true, hu, Option.isSome_none]

/-! ### On an archive that may be cut -/

variable {snap : StoredSnapshot} {disk q rest : Bytes} {now modTime : Int} {pad : Nat}
  {s : Stream} {m : Manifest}

/-- What the loop comes to: an error, a bundle without a disk, or the bundle
that was exported. -/
inductive Reads (L : Libraries) (snap : StoredSnapshot) (disk : Bytes) :
    Except ImportError Unpacked → Prop
  | failed (e : ImportError) : Reads L snap disk (.error e)
  | noDisk (u : Unpacked) : u.disk = none → Reads L snap disk (.ok u)
  | whole (m : Manifest) : ReadsBack L.json snap disk.length m →
      Reads L snap disk (.ok ⟨m, true, some disk⟩)

/-- The end of the archive. -/
theorem unpackEntries_trailer (h : s.Delivers (zeros pad ++ trailer))
    (hu : Reads L snap disk (.ok u)) : Reads L snap disk (unpackEntries L ⟨s, 0, pad⟩ u) := by
  rcases next_delivers_trailer (C := L.tar) h with hnext | hnext
  · rw [unpackEntries_invalid hnext]
    exact .failed _
  · rwa [unpackEntries_eof hnext]

/-- What the archive has after the header of the disk. -/
inductive AfterDiskHeader (disk : Bytes) : Bytes → Prop
  | part (q : Bytes) : q <+: disk → q ≠ disk → AfterDiskHeader disk q
  | whole : AfterDiskHeader disk (disk ++ (zeros (padding disk.length) ++ trailer))

/-- The entry of the disk, and the end. -/
theorem unpackEntries_diskEntry (hrest : AfterDiskHeader disk rest)
    (hsize : disk.length < 2 ^ 63)
    (h : s.Delivers (zeros pad ++ (diskHeader L disk modTime ++ rest)))
    (hm : ReadsBack L.json snap disk.length m) :
    Reads L snap disk (unpackEntries L ⟨s, 0, pad⟩ ⟨m, true, none⟩) := by
  rcases next_delivers_file (fits_disk hsize) h with hnext | ⟨t, ht, hnext⟩
  · rw [unpackEntries_invalid hnext]
    exact .failed _
  rw [unpackEntries_disk hnext rfl]
  cases hrest with
  | part _ hq hne =>
    rw [readAll_delivers_part hq hne ht]
    exact .failed _
  | whole =>
    rcases readAll_delivers (padding disk.length) ht with hread | ⟨t', ht', hread⟩
    · rw [hread]
      exact .failed _
    · simp only [hread]
      exact unpackEntries_trailer ht' (.whole m hm)

/-- What the archive has after the manifest. -/
inductive AfterManifest (L : Libraries) (disk : Bytes) (modTime : Int) (pad : Nat) : Bytes → Prop
  | end : AfterManifest L disk modTime pad (zeros pad ++ trailer)
  | disk (rest : Bytes) : AfterDiskHeader disk rest →
      AfterManifest L disk modTime pad (zeros pad ++ (diskHeader L disk modTime ++ rest))

theorem unpackEntries_afterManifest (hrest : AfterManifest L disk modTime pad rest)
    (hsize : disk.length < 2 ^ 63) (h : s.Delivers rest)
    (hm : ReadsBack L.json snap disk.length m) :
    Reads L snap disk (unpackEntries L ⟨s, 0, pad⟩ ⟨m, true, none⟩) := by
  cases hrest with
  | «end» => exact unpackEntries_trailer h (.noDisk _ rfl)
  | disk rest hrest => exact unpackEntries_diskEntry hrest hsize h hm

/-- An archive that was closed begins with the header of the manifest. -/
theorem ClosedArchive.cases_manifest {out : Bytes}
    (h : ClosedArchive L snap disk now modTime out) :
    ∃ rest, out = manifestHeader L snap disk now ++ rest ∧
      ((rest <+: manifestData L.json snap disk.length ∧
          rest ≠ manifestData L.json snap disk.length) ∨
        ∃ tail, AfterManifest L disk modTime (manifestPadding L snap disk) tail ∧
          rest = manifestData L.json snap disk.length ++ tail) := by
  cases h with
  | inManifest q hq hne => exact ⟨q, rfl, Or.inl ⟨hq, hne⟩⟩
  | manifestOnly => exact ⟨_, rfl, Or.inr ⟨_, .end, rfl⟩⟩
  | inDisk q hq hne => exact ⟨_, rfl, Or.inr ⟨_, .disk _ (.part q hq hne), rfl⟩⟩
  | whole => exact ⟨_, rfl, Or.inr ⟨_, .disk _ .whole, rfl⟩⟩

/-- The whole loop. -/
theorem unpackEntries_closed {out : Bytes} (hstored : StoresMetadata L.json snap.baseImageMetadata)
    (hsize : disk.length < 2 ^ 63)
    (hmanifest : (manifestData L.json snap disk.length).length ≤ 1024 * 1024)
    (hout : ClosedArchive L snap disk now modTime out) (h : s.Delivers out) :
    Reads L snap disk (unpackEntries L (.new s) ⟨.empty, false, none⟩) := by
  obtain ⟨rest, rfl, hrest⟩ := hout.cases_manifest
  change s.Delivers (zeros 0 ++ (manifestHeader L snap disk now ++ rest)) at h
  rcases next_delivers_file (fits_manifest hmanifest) h with hnext | ⟨t, ht, hnext⟩
  · rw [Reader.new, unpackEntries_invalid hnext]
    exact .failed _
  rw [Reader.new, unpackEntries_manifest hnext hmanifest rfl]
  rcases hrest with ⟨hq, hne⟩ | ⟨tail, htail, rfl⟩
  · rw [readAll_delivers_part hq hne ht]
    exact .failed _
  · obtain ⟨m, hm, hback⟩ := unmarshal_manifestData disk.length hstored hsize
    rcases readAll_delivers (manifestPadding L snap disk) ht with hread | ⟨t', ht', hread⟩
    · rw [manifestPadding] at hread
      rw [hread]
      exact .failed _
    · rw [manifestPadding] at hread
      simp only [hread, hm]
      exact unpackEntries_afterManifest htail hsize ht' hback

theorem checkUnpacked_exported (hm : ReadsBack L.json snap disk.length m) :
    checkUnpacked ⟨m, true, some disk⟩ = .ok (m, disk) := by
  simp [checkUnpacked, hm.format, hm.disk, hm.diskSize]

/-- The checks after the loop reject a bundle without a disk, and accept the
one that was exported. -/
theorem checkUnpacked_reads {r : Except ImportError Unpacked} (h : Reads L snap disk r) :
    (∃ e, r.bind checkUnpacked = .error e) ∨
      ∃ m, ReadsBack L.json snap disk.length m ∧ r.bind checkUnpacked = .ok (m, disk) := by
  cases h with
  | failed e => exact Or.inl ⟨e, rfl⟩
  | noDisk u hu =>
    refine Or.inl ?_
    change ∃ e, checkUnpacked u = .error e
    unfold checkUnpacked
    rw [hu]
    split_ifs <;> exact ⟨_, rfl⟩
  | whole m hm => exact Or.inr ⟨m, hm, checkUnpacked_exported hm⟩

theorem unpackSnapshotBundle_of_newReader {stream : Bytes}
    (h : L.gzip.newReader stream = some s) :
    unpackSnapshotBundle L stream =
      (unpackEntries L (.new s) ⟨.empty, false, none⟩).bind checkUnpacked := by
  unfold unpackSnapshotBundle
  simp only [h]
  cases unpackEntries L (.new s) ⟨.empty, false, none⟩ <;> rfl

/-- `unpackSnapshotBundle` of a part of a stream. -/
theorem unpackSnapshotBundle_cut {out p : Bytes}
    (hstored : StoresMetadata L.json snap.baseImageMetadata) (hsize : disk.length < 2 ^ 63)
    (hmanifest : (manifestData L.json snap disk.length).length ≤ 1024 * 1024)
    (hout : ClosedArchive L snap disk now modTime out) (hp : p <+: L.gzip.compress out) :
    (∃ e, unpackSnapshotBundle L p = .error e) ∨
      ∃ m, ReadsBack L.json snap disk.length m ∧ unpackSnapshotBundle L p = .ok (m, disk) := by
  rcases L.gzip.newReader_delivers hp with hnone | ⟨s, hs, hsome⟩
  · exact Or.inl ⟨.invalid "read gzip stream", by simp only [unpackSnapshotBundle, hnone]⟩
  · rw [unpackSnapshotBundle_of_newReader hsome]
    exact checkUnpacked_reads (unpackEntries_closed hstored hsize hmanifest hout hs)

/-- `unpackSnapshotBundle` of the whole stream. -/
theorem unpackSnapshotBundle_whole (now modTime : Int)
    (hstored : StoresMetadata L.json snap.baseImageMetadata) (hsize : disk.length < 2 ^ 63)
    (hmanifest : (manifestData L.json snap disk.length).length ≤ 1024 * 1024) :
    ∃ m, ReadsBack L.json snap disk.length m ∧
      unpackSnapshotBundle L (L.gzip.compress (wholeArchive L snap disk now modTime)) =
        .ok (m, disk) := by
  obtain ⟨m, hm, hback⟩ := unmarshal_manifestData disk.length hstored hsize
  refine ⟨m, hback, ?_⟩
  have hfirst : (⟨⟨wholeArchive L snap disk now modTime, true⟩, 0, 0⟩ : Reader).next L.tar = _ :=
    @next_header L.tar _ _ _ _ _ 0 (fits_manifest hmanifest)
  have hlast : (⟨⟨zeros (padding disk.length) ++ trailer, true⟩, 0, padding disk.length⟩ :
      Reader).next L.tar = .error .eof := by
    rw [← List.append_nil trailer]
    exact next_trailer
  rw [unpackSnapshotBundle_of_newReader (L.gzip.newReader_compress _), Reader.new,
    unpackEntries_manifest hfirst hmanifest rfl, readAll_append]
  simp only [hm]
  rw [manifestPadding, diskHeader, unpackEntries_disk (next_header (fits_disk hsize)) rfl,
    readAll_append]
  simp only
  rw [unpackEntries_eof hlast]
  exact checkUnpacked_exported hback

end Unpack

/-! ## The import -/

section Import

variable {L : Libraries} {h : ImportHost} {name suffix : String} {stream disk : Bytes}
  {fails : ImportCall → Bool} {m : Manifest}

theorem ne_empty_of_validSnapshotName (hname : validSnapshotName name = true) : name ≠ "" := by
  rintro rfl
  simp [validSnapshotName] at hname

theorem slash_notMem_of_validSnapshotName (hname : validSnapshotName name = true) :
    '/' ∉ name.toList := by
  unfold validSnapshotName at hname
  split at hname
  · cases hname
  · rename_i c cs hcs
    simp only [Bool.and_eq_true, List.all_eq_true] at hname
    obtain ⟨⟨hc, -⟩, hall⟩ := hname
    rw [hcs, List.mem_cons]
    rintro (rfl | hmem)
    · exact absurd hc (by decide)
    · exact absurd (hall _ hmem) (by decide)

/-- A temporary directory leaves the directories as they were. -/
theorem removed_temp {dirs : String → Option (Option Bytes)} {tmp : String}
    (htmp : dirs tmp = none) (v : Option (Option Bytes)) :
    update (update dirs tmp v) tmp none = dirs := by
  rw [update_idem, ← htmp, update_eq_self]

theorem filled_temp {dirs : String → Option (Option Bytes)} {tmp : String} (disk : Bytes) :
    update (update dirs tmp (some none)) tmp (some (some disk)) =
      update dirs tmp (some (some disk)) :=
  update_idem _ _ _

/-- An import under a free name fails and changes nothing, or it makes the row
and the directory of what it has unpacked. -/
theorem importSnapshot_cases (L : Libraries) (fails : ImportCall → Bool) (stream : Bytes)
    (hdir : h.dirs name = none)
    (htemp : h.dirs (tempDirName name suffix) = none) :
    (∃ e, importSnapshot L h fails name suffix stream = (.error e, h)) ∨
      ∃ m disk, unpackSnapshotBundle L stream = .ok (m, disk) ∧
        importSnapshot L h fails name suffix stream =
          (.ok (m.row name), ⟨update h.rows name (some (m.row name)),
            update h.dirs name (some (some disk))⟩) := by
  unfold importSnapshot
  simp only [filled_temp, removed_temp htemp, update_self]
  split
  · exact Or.inl ⟨_, rfl⟩
  · split
    · exact Or.inl ⟨_, rfl⟩
    · rename_i m disk hunpack
      split
      · exact Or.inl ⟨_, rfl⟩
      · split
        · exact Or.inl ⟨_, by rw [removed_temp hdir]⟩
        · split at hunpack
          · cases hunpack
          · exact Or.inr ⟨m, disk, hunpack, rfl⟩

/-- An import under a free name whose calls do not fail. -/
theorem importSnapshot_ok (hname : validSnapshotName name = true) (hrow : h.rows name = none)
    (hdir : h.dirs name = none) (htemp : h.dirs (tempDirName name suffix) = none)
    (hunpack : unpackSnapshotBundle L stream = .ok (m, disk)) :
    importSnapshot L h (fun _ => false) name suffix stream =
      (.ok (m.row name), ⟨update h.rows name (some (m.row name)),
        update h.dirs name (some (some disk))⟩) := by
  have hgo : importRefusal h (fun _ => false) name (tempDirName name suffix) = none := by
    simp [importRefusal, ne_empty_of_validSnapshotName hname, hrow, hdir, htemp,
      slash_notMem_of_validSnapshotName hname]
  unfold importSnapshot
  simp only [hgo, Bool.false_eq_true, if_false, hunpack, filled_temp, removed_temp htemp,
    update_self]

/-- A row with the data of a snapshot. -/
structure CopyOf (J : Json.Codec) (snap : StoredSnapshot) (name : String) (row : ImportedSnapshot) :
    Prop where
  name_eq : row.name = name
  disk_eq : row.disk = name
  sourceVM : row.sourceVM = snap.sourceVM
  baseImageID : row.baseImageID = snap.baseImageID
  kernelID : row.kernelID = snap.kernelID
  metadata : SameMetadata J snap.baseImageMetadata row.baseImageMetadata

theorem ReadsBack.copyOf {J : Json.Codec} {snap : StoredSnapshot} {size : Nat}
    (hm : ReadsBack J snap size m) : CopyOf J snap name (m.row name) :=
  ⟨rfl, rfl, hm.sourceVM, hm.baseImageID, hm.kernelID, hm.metadata⟩

/-- An import made a copy of a snapshot: its row, and a directory with its
disk. -/
def Imports (J : Json.Codec) (snap : StoredSnapshot) (disk : Bytes) (h : ImportHost) (name : String)
    (result : Except ImportError ImportedSnapshot × ImportHost) : Prop :=
  ∃ row, CopyOf J snap name row ∧
    result = (.ok row, ⟨update h.rows name (some row),
      update h.dirs name (some (some disk))⟩)

/-- An exported stream is imported, under any free name, as the snapshot it was
made of.  A part of a stream, also of one that an export has closed after a
failure midway, is imported as that snapshot too, or the import fails and
leaves nothing behind. -/
theorem import_of_export (L : Libraries) (snap : StoredSnapshot) (disk : Bytes) (now modTime : Int)
    (h : ImportHost) (name suffix : String) (hstate : snap.statePath = "")
    (hmem : snap.memPath = "")
    (hstored : StoresMetadata L.json snap.baseImageMetadata)
    (hmanifest : (manifestData L.json snap disk.length).length ≤ 1024 * 1024)
    (hsize : disk.length < 2 ^ 63) (hname : validSnapshotName name = true)
    (hrow : h.rows name = none) (hdir : h.dirs name = none)
    (htemp : h.dirs (tempDirName name suffix) = none) :
    (∃ stream, exportSnapshot L snap disk.length now modTime
          ⟨manifestData L.json snap disk.length, false⟩ ⟨disk, false⟩ = (stream, none) ∧
        Imports L.json snap disk h name
          (importSnapshot L h (fun _ => false) name suffix stream)) ∧
      ∀ (manifest src : Source) (fails : ImportCall → Bool) (p : Bytes),
        manifest.data <+: manifestData L.json snap disk.length → src.data <+: disk →
        p <+: (exportSnapshot L snap disk.length now modTime manifest src).1 →
        (∃ e, importSnapshot L h fails name suffix p = (.error e, h)) ∨
          Imports L.json snap disk h name (importSnapshot L h fails name suffix p) := by
  have hdiskOnly : ¬ (snap.statePath ≠ "" ∨ snap.memPath ≠ "") := by simp [hstate, hmem]
  constructor
  · refine ⟨L.gzip.compress (wholeArchive L snap disk now modTime), ?_, ?_⟩
    · unfold exportSnapshot
      rw [if_neg hdiskOnly, exportArchive_whole]
      rfl
    · obtain ⟨m, hm, hunpack⟩ := unpackSnapshotBundle_whole now modTime
        hstored hsize hmanifest
      exact ⟨m.row name, hm.copyOf, importSnapshot_ok hname hrow hdir htemp hunpack⟩
  · intro manifest src fails p hm hd hp
    rcases importSnapshot_cases L fails p hdir htemp with
      hfail | ⟨m, disk', hunpack, himport⟩
    · exact Or.inl hfail
    · unfold exportSnapshot at hp
      rw [if_neg hdiskOnly] at hp
      rcases unpackSnapshotBundle_cut hstored hsize hmanifest
        (exportArchive_closed now modTime hm hd) hp with
        ⟨e, herr⟩ | ⟨m', hm', hok⟩
      · rw [herr] at hunpack
        cases hunpack
      · obtain ⟨rfl, rfl⟩ := Prod.mk.inj (Except.ok.inj (hok.symm.trans hunpack))
        exact Or.inr ⟨m'.row name, hm'.copyOf, himport⟩

/-- The packages with plain formats. -/
noncomputable def Libraries.plain : Libraries := ⟨.plain, .plain, .plain⟩

/-- A snapshot with a text as its metadata. -/
def plainSnapshot : StoredSnapshot :=
  ⟨"daily", "web", "", "", "base", "6.1", 34 :: (bytes "amd64" ++ [34]), "", by decide⟩

theorem parse_plainSnapshot :
    Json.Codec.plain.parse plainSnapshot.baseImageMetadata = some (.str "amd64") :=
  Json.Codec.plainParse_quote "amd64"

theorem stores_plainSnapshot : StoresMetadata .plain plainSnapshot.baseImageMetadata :=
  Or.inr ⟨_, parse_plainSnapshot, nofun⟩

theorem manifest_plainSnapshot : (manifestData .plain plainSnapshot 3).length ≤ 1024 * 1024 := by
  unfold manifestData manifestMembers metadataMember
  rw [snapshotMetadataJSON_of_parse parse_plainSnapshot nofun]
  decide +kernel

/-- A whole stream is imported.  The disk of another one breaks off after its
first byte. -/
theorem import_of_export_plain :
    let manifest := manifestData Json.Codec.plain plainSnapshot 3
    let h : ImportHost := ⟨fun _ => none, fun _ => none⟩
    let run := importSnapshot .plain h (fun _ => false) "copy" "1"
    (∃ stream, exportSnapshot .plain plainSnapshot 3 0 0 ⟨manifest, false⟩ ⟨[7, 8, 9], false⟩ =
        (stream, none) ∧
      Imports Json.Codec.plain plainSnapshot [7, 8, 9] h "copy" (run stream)) ∧
    let cut := (exportSnapshot .plain plainSnapshot 3 0 0 ⟨manifest, false⟩ ⟨[7], true⟩).1
    (∃ e, run cut = (.error e, h)) ∨
      Imports Json.Codec.plain plainSnapshot [7, 8, 9] h "copy" (run cut) := by
  intro manifest h run
  obtain ⟨hwhole, hcut⟩ := import_of_export .plain plainSnapshot [7, 8, 9] 0 0 h "copy" "1"
    rfl rfl stores_plainSnapshot manifest_plainSnapshot (by decide) (by decide) rfl rfl rfl
  exact ⟨hwhole, hcut _ _ _ _ List.prefix_rfl (by decide) List.prefix_rfl⟩

end Import

end Firedoze.Bundle
