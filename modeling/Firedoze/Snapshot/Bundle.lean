import Firedoze.Archive.Tar
import Firedoze.Text.Json

/-!
# Snapshot bundles

`ExportSnapshot` and `ImportSnapshot` of `snapshot_bundle.go`, down to the
bytes.  A bundle is a gzip stream of a tar archive with two entries, a
manifest in JSON and the disk.  The packages are the parameter `Libraries`.

An export reads the manifest and the disk through a reader that can fail: a
`Source` says which bytes it delivers.  Whatever happens, the tar writer and
the gzip writer are closed.  What reaches the other side is a part of the
stream that is written this way.

An import works on the directories below `snapshots` and on the table of the
snapshots.  Each of its calls of the operating system and of the store can
fail, and `fails` says which ones do.
-/

namespace Firedoze.Bundle

open Text Archive Function

/-- The packages that read and write a bundle. -/
structure Libraries where
  json : Json.Codec
  tar : HeaderCodec
  gzip : Gzip

/-! ## The manifest -/

/-- `snapshotBundleFormat`. -/
def snapshotBundleFormat : String := "firedoze.snapshot.v1"

/-- `snapshotBundleManifestName`. -/
def snapshotBundleManifestName : String := "manifest.json"

/-- `snapshotBundleDiskName`. -/
def snapshotBundleDiskName : String := "rootfs.ext4"

/-- The fields of `snapshotBundleManifest` that are strings. -/
inductive ManifestText
  | format
  | name
  | sourceVM
  | baseImageID
  | kernelID
  | disk
  | createdAt
  deriving DecidableEq, Repr

/-- The fields of `snapshotBundleManifest`. -/
inductive ManifestField
  | text (f : ManifestText)
  | baseImageMetadata
  | diskSize
  deriving DecidableEq, Repr

/-- The key of a field. -/
def ManifestField.key : ManifestField → String
  | .text .format => "format"
  | .text .name => "name"
  | .text .sourceVM => "source_vm"
  | .text .baseImageID => "base_image_id"
  | .text .kernelID => "kernel_id"
  | .baseImageMetadata => "base_image_metadata"
  | .text .disk => "disk"
  | .diskSize => "disk_size"
  | .text .createdAt => "created_at"

/-- All fields. -/
def ManifestField.all : List ManifestField :=
  [.text .format, .text .name, .text .sourceVM, .text .baseImageID, .text .kernelID,
    .baseImageMetadata, .text .disk, .diskSize, .text .createdAt]

/-- The field of a key: the one with that key, or else one whose key differs
in case only. -/
def ManifestField.ofKey (key : String) : Option ManifestField :=
  (all.find? fun f => f.key == key) <|> all.find? fun f => equalFold f.key key

/-- `snapshotBundleManifest`. -/
structure Manifest where
  text : ManifestText → String
  baseImageMetadata : Bytes
  diskSize : Int

/-- A manifest before it is read. -/
def Manifest.empty : Manifest := ⟨fun _ => "", [], 0⟩

/-- A string field with `omitempty`. -/
def omitEmpty (J : Json.Codec) (f : ManifestText) (s : String) : List (String × Bytes) :=
  if s = "" then [] else [((ManifestField.text f).key, J.quote s)]

/-- A row of `snapshots`.  The writers reject an empty name. -/
structure StoredSnapshot where
  name : String
  sourceVM : String
  statePath : String
  memPath : String
  baseImageID : String
  kernelID : String
  baseImageMetadata : Bytes
  createdAt : String
  name_ne : name ≠ ""

/-- `snapshotMetadataJSON`, with the empty text for `nil`. -/
def snapshotMetadataJSON (J : Json.Codec) (metadata : Bytes) : Bytes :=
  let data := J.compact (J.marshalText metadata)
  if data = bytes "null" then [] else data

/-- The member for the metadata, with `omitempty`. -/
def metadataMember (J : Json.Codec) (metadata : Bytes) : List (String × Bytes) :=
  if snapshotMetadataJSON J metadata = [] then []
  else [(ManifestField.baseImageMetadata.key, snapshotMetadataJSON J metadata)]

/-- The members of the manifest, in the order of the fields. -/
def manifestMembers (J : Json.Codec) (snap : StoredSnapshot) (diskSize : Nat) :
    List (String × Bytes) :=
  ((ManifestField.text .format).key, J.quote snapshotBundleFormat) ::
    ((ManifestField.text .name).key, J.quote snap.name) ::
    (omitEmpty J .sourceVM snap.sourceVM ++ (omitEmpty J .baseImageID snap.baseImageID ++
      (omitEmpty J .kernelID snap.kernelID ++ (metadataMember J snap.baseImageMetadata ++
        (((ManifestField.text .disk).key, J.quote snapshotBundleDiskName) ::
          (ManifestField.diskSize.key, J.formatInt diskSize) ::
          omitEmpty J .createdAt snap.createdAt)))))

/-- The bytes of the manifest: `json.MarshalIndent`, and a line break. -/
def manifestData (J : Json.Codec) (snap : StoredSnapshot) (diskSize : Nat) : Bytes :=
  J.marshalIndent (manifestMembers J snap diskSize) ++ [10]

/-- `json.Unmarshal` of a member that is a string; `null` leaves the field
alone. -/
def readText (J : Json.Codec) (old : String) (raw : Bytes) : Option String :=
  match J.parse raw with
  | some (.str s) => some s
  | some .null => some old
  | _ => none

/-- `json.Unmarshal` of a member that is an `int64`. -/
def readInt (J : Json.Codec) (old : Int) (raw : Bytes) : Option Int :=
  match J.parse raw with
  | some (.int n) => if -2 ^ 63 ≤ n ∧ n < 2 ^ 63 then some n else none
  | some .null => some old
  | _ => none

/-- `json.Unmarshal` of one member. -/
def Manifest.setMember (J : Json.Codec) (m : Manifest) (member : String × Bytes) :
    Option Manifest :=
  match ManifestField.ofKey member.1 with
  | none => some m
  | some (.text f) =>
      (readText J (m.text f) member.2).map fun s => { m with text := update m.text f s }
  | some .baseImageMetadata => some { m with baseImageMetadata := member.2 }
  | some .diskSize => (readInt J m.diskSize member.2).map fun n => { m with diskSize := n }

/-- `json.Unmarshal` of the members. -/
def Manifest.setMembers (J : Json.Codec) : List (String × Bytes) → Manifest → Option Manifest
  | [], m => some m
  | member :: ms, m => (m.setMember J member).bind (setMembers J ms)

/-- `json.Unmarshal` of a manifest. -/
def Manifest.unmarshal (J : Json.Codec) (m : Manifest) (data : Bytes) : Option Manifest :=
  (J.members data).bind fun ms => setMembers J ms m

/-! ## Export -/

/-- What a reader delivers before it fails, or comes to its end. -/
structure Source where
  data : Bytes
  failed : Bool

/-- `writeTarFile`, and whether it went well. -/
def writeTarFile (C : HeaderCodec) (w : Writer) (name : String) (size : Nat) (modTime : Int)
    (src : Source) : Writer × Bool :=
  match w.writeHeader C (.file (bytes name) size) modTime with
  | none => (w, false)
  | some w =>
      let (w, ok) := w.write src.data
      (w, ok && !src.failed)

/-- The archive that `ExportSnapshot` writes, and whether it went well.  The
archive is closed in any case. -/
def exportArchive (L : Libraries) (snap : StoredSnapshot) (diskSize : Nat) (now modTime : Int)
    (manifest disk : Source) : Bytes × Bool :=
  let (w, ok) := writeTarFile L.tar .new snapshotBundleManifestName
    (manifestData L.json snap diskSize).length now manifest
  if ok = false then (w.close.1.out, false)
  else
    let (w, ok) := writeTarFile L.tar w snapshotBundleDiskName diskSize modTime disk
    if ok = false then (w.close.1.out, false)
    else (w.close.1.out, w.close.2)

/-- The errors of `ExportSnapshot`. -/
inductive ExportError
  | unsupported
  | failed
  deriving DecidableEq, Repr

/-- `ExportSnapshot` of a snapshot that is there: the stream that is written,
and the error.  `manifest` and `disk` are what is read while it is written. -/
def exportSnapshot (L : Libraries) (snap : StoredSnapshot) (diskSize : Nat) (now modTime : Int)
    (manifest disk : Source) : Bytes × Option ExportError :=
  if snap.statePath ≠ "" ∨ snap.memPath ≠ "" then ([], some .unsupported)
  else
    let (archive, ok) := exportArchive L snap diskSize now modTime manifest disk
    (L.gzip.compress archive, if ok then none else some .failed)

/-! ## Import -/

/-- The calls of `ImportSnapshot` that can fail by themselves. -/
inductive ImportCall
  | snapshotExists
  | stat
  | mkdirAll
  | mkdirTemp
  | unpack
  | rename
  | createSnapshot
  deriving DecidableEq, Repr

/-- The errors of `ImportSnapshot`.  `invalid` is `ErrInvalidSnapshotBundle`,
with what follows it up to a value. -/
inductive ImportError
  | msg (text : String)
  | alreadyExists (text : String)
  | invalid (text : String)
  | read
  | failed (call : ImportCall)
  deriving DecidableEq, Repr

/-- `path.Clean` of a path that is not absolute, by its parts. -/
def cleanParts (parts : List Bytes) : List Bytes :=
  (parts.foldl (fun stack part =>
    if part = [] ∨ part = [46] then stack
    else if part = [46, 46] then
      match stack with
      | top :: rest => if top = [46, 46] then part :: stack else rest
      | [] => [part]
    else part :: stack) []).reverse

/-- `cleanBundlePath`. -/
def cleanBundlePath (name : Bytes) : Except ImportError Bytes :=
  if name = [] ∨ name.head? = some 47 then .error (.invalid "unsafe path")
  else
    match cleanParts (name.splitOn 47) with
    | [] => .error (.invalid "unsafe path")
    | part :: parts =>
        if part = [46, 46] then .error (.invalid "unsafe path")
        else .ok ([47].intercalate (part :: parts))

/-- What `unpackSnapshotBundle` has read.  `disk` is the file that it has
made. -/
structure Unpacked where
  manifest : Manifest
  manifestSeen : Bool
  disk : Option Bytes

/-- The loop of `unpackSnapshotBundle`. -/
def unpackEntries (L : Libraries) (r : Reader) (u : Unpacked) : Except ImportError Unpacked :=
  match _hnext : r.next L.tar with
  | .error .eof => .ok u
  | .error .invalid => .error (.invalid "read tar entry")
  | .ok (header, entry) =>
      match cleanBundlePath header.name with
      | .error e => .error e
      | .ok name =>
          if header.isDir then unpackEntries L entry u
          else if header.isRegular = false then .error (.invalid "unsupported tar entry")
          else if name = bytes snapshotBundleManifestName then
            if u.manifestSeen then .error (.invalid "duplicate manifest")
            else if 1024 * 1024 < header.size then .error (.invalid "manifest is too large")
            else
              match _hread : entry.readAll with
              | none => .error .read
              | some (data, rest) =>
                  match u.manifest.unmarshal L.json data with
                  | none => .error (.invalid "parse manifest")
                  | some m => unpackEntries L rest { u with manifest := m, manifestSeen := true }
          else if name = bytes snapshotBundleDiskName then
            if u.disk.isSome then .error (.invalid "duplicate disk")
            else
              match _hread : entry.readAll with
              | none => .error .read
              | some (data, rest) => unpackEntries L rest { u with disk := some data }
          else .error (.invalid "unexpected file")
termination_by r.stream.data.length
decreasing_by
  · exact next_shorter _hnext
  · exact lt_of_le_of_lt (readAll_length_le _hread) (next_shorter _hnext)
  · exact lt_of_le_of_lt (readAll_length_le _hread) (next_shorter _hnext)

/-- The checks of `unpackSnapshotBundle` after its loop. -/
def checkUnpacked (u : Unpacked) : Except ImportError (Manifest × Bytes) :=
  if u.manifestSeen = false then .error (.invalid "missing manifest")
  else if u.manifest.text .format ≠ snapshotBundleFormat then
    .error (.invalid "unsupported format")
  else if u.manifest.text .disk ≠ snapshotBundleDiskName then
    .error (.invalid "manifest disk must be \"rootfs.ext4\"")
  else
    match u.disk with
    | none => .error (.invalid "missing disk")
    | some disk =>
        if u.manifest.diskSize ≠ 0 ∧ disk.length ≠ u.manifest.diskSize then
          .error (.invalid "disk size mismatch")
        else .ok (u.manifest, disk)

/-- `unpackSnapshotBundle`, with the bytes of the disk it has written. -/
def unpackSnapshotBundle (L : Libraries) (stream : Bytes) :
    Except ImportError (Manifest × Bytes) :=
  match L.gzip.newReader stream with
  | none => .error (.invalid "read gzip stream")
  | some s =>
      match unpackEntries L (.new s) ⟨.empty, false, none⟩ with
      | .error e => .error e
      | .ok u => checkUnpacked u

/-- A row that `ImportSnapshot` makes.  `disk` is the directory with the
disk. -/
structure ImportedSnapshot where
  name : String
  sourceVM : String
  baseImageID : String
  kernelID : String
  baseImageMetadata : Bytes
  disk : String
  deriving DecidableEq

/-- The side of the import: the rows of `snapshots`, and the directories below
the directory `snapshots`, each with its disk, if there is one. -/
structure ImportHost where
  rows : String → Option ImportedSnapshot
  dirs : String → Option (Option Bytes)

/-- `validSnapshotName`: the pattern `^[A-Za-z0-9][A-Za-z0-9._-]{0,127}$`, which
the handler of an import asks for. -/
def validSnapshotName (name : String) : Bool :=
  match name.toList with
  | [] => false
  | c :: cs =>
      c.isAlphanum && cs.length ≤ 127 &&
        cs.all fun c => c.isAlphanum || c == '.' || c == '_' || c == '-'

/-- The name of the temporary directory, which `MkdirTemp` completes. -/
def tempDirName (name suffix : String) : String := "." ++ name ++ ".import-" ++ suffix

/-- The metadata of a manifest, where `null` is left out. -/
def Manifest.metadata (m : Manifest) : Bytes :=
  if m.baseImageMetadata = [] ∨ m.baseImageMetadata = bytes "null" then [] else m.baseImageMetadata

/-- The row for a manifest. -/
def Manifest.row (m : Manifest) (name : String) : ImportedSnapshot :=
  { name := name, sourceVM := m.text .sourceVM, baseImageID := m.text .baseImageID,
    kernelID := m.text .kernelID, baseImageMetadata := m.metadata, disk := name }

/-- `ImportSnapshot` up to the temporary directory.  `MkdirTemp` refuses a path
separator, and gives up where it finds no free name. -/
def importRefusal (h : ImportHost) (fails : ImportCall → Bool) (name tmp : String) :
    Option ImportError :=
  if name = "" then some (.msg "snapshot name is required")
  else if fails .snapshotExists then some (.failed .snapshotExists)
  else if (h.rows name).isSome then some (.alreadyExists "snapshot")
  else if fails .stat then some (.failed .stat)
  else if (h.dirs name).isSome then some (.alreadyExists "snapshot directory")
  else if fails .mkdirAll then some (.failed .mkdirAll)
  else if fails .mkdirTemp ∨ '/' ∈ name.toList ∨ (h.dirs tmp).isSome then
    some (.failed .mkdirTemp)
  else none

/-- `ImportSnapshot`. -/
def importSnapshot (L : Libraries) (h : ImportHost) (fails : ImportCall → Bool)
    (name suffix : String) (stream : Bytes) : Except ImportError ImportedSnapshot × ImportHost :=
  let tmp := tempDirName name suffix
  match importRefusal h fails name tmp with
  | some e => (.error e, h)
  | none =>
      let made := update h.dirs tmp (some none)
      match if fails .unpack then .error (.failed .unpack) else unpackSnapshotBundle L stream with
      | .error e => (.error e, { h with dirs := update made tmp none })
      | .ok (m, disk) =>
          let filled := update made tmp (some (some disk))
          if fails .rename then
            (.error (.failed .rename), { h with dirs := update filled tmp none })
          else
            let renamed := update (update filled tmp none) name (filled tmp)
            if fails .createSnapshot then
              (.error (.failed .createSnapshot),
                { h with dirs := update renamed name none })
            else
              (.ok (m.row name),
                { rows := update h.rows name (some (m.row name)), dirs := renamed })

end Firedoze.Bundle
