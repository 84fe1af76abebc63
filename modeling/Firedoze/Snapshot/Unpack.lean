import Firedoze.Path.Clean
import Firedoze.Snapshot.RoundTrip

/-!
# Which bundles are accepted

`unpackSnapshotBundle` over the entries that `archive/tar` delivers, with the
file that it makes at `diskPath`.  `Delivered` is what the packages make of a
byte stream: entries with their content, then the end of the archive, or an
error at any place.

`Accepted` says what a bundle is, without the loop and its flags: all names lie
below the root, and beside directories there are the manifest and the disk, in
either order.  `unpackLoop_ok_iff` reduces the loop to its non-directory
entries, and each of those sets a flag that was not set before, so there are
exactly two (`foldlM_takeFile`).  `unpackSnapshotBundle_accepts_iff` is the
result for every byte stream.

The function of `Snapshot.Bundle`, which knows the disk only by its content, is
this one (`unpackSnapshotBundle_eq`).
-/

namespace Firedoze.Bundle

open Text Archive Function

/-! ## What the packages deliver -/

/-- The entries of a bundle and how they end: with `io.EOF`, with an error of
`Next`, or with an error in the content of an entry, after a part of it. -/
inductive Delivered
  | done
  | broken
  | cut (header : Header) (part : Bytes)
  | entry (header : Header) (content : Bytes) (rest : Delivered)

/-- The entries of a sequence that ends without an error. -/
def Delivered.entries : Delivered → Option (List (Header × Bytes))
  | .done => some []
  | .broken => none
  | .cut _ _ => none
  | .entry header content rest => rest.entries.map ((header, content) :: ·)

/-- What `tar.Reader` delivers. -/
def delivered (C : HeaderCodec) (r : Reader) : Delivered :=
  match _hnext : r.next C with
  | .error .eof => .done
  | .error .invalid => .broken
  | .ok (header, entry) =>
      match _hread : entry.readAll with
      | none => .cut header entry.stream.data
      | some (content, rest) => .entry header content (delivered C rest)
termination_by r.stream.data.length
decreasing_by exact lt_of_le_of_lt (readAll_length_le _hread) (next_shorter _hnext)

/-! ## The loop with its file -/

/-- The variables of `unpackSnapshotBundle`, and the files. -/
structure UnpackState where
  manifest : Manifest
  manifestSeen : Bool
  diskSeen : Bool
  files : String → Option Bytes

section Loop

variable (J : Json.Codec) (diskPath : String)

/-- The loop of `unpackSnapshotBundle`.  `OpenFile` with `O_EXCL` refuses a file
that is there. -/
def unpackLoop : Delivered → UnpackState → Except ImportError Unit × UnpackState
  | .done, s => (.ok (), s)
  | .broken, s => (.error (.invalid "read tar entry"), s)
  | .cut header part, s =>
      match cleanBundlePath header.name with
      | .error e => (.error e, s)
      | .ok name =>
          -- The content of a directory is not read, but `Next` fails then.
          if header.isDir then (.error (.invalid "read tar entry"), s)
          else if header.isRegular = false then (.error (.invalid "unsupported tar entry"), s)
          else if name = bytes snapshotBundleManifestName then
            if s.manifestSeen then (.error (.invalid "duplicate manifest"), s)
            else if 1024 * 1024 < header.size then (.error (.invalid "manifest is too large"), s)
            else (.error .read, s)
          else if name = bytes snapshotBundleDiskName then
            if s.diskSeen then (.error (.invalid "duplicate disk"), s)
            else if (s.files diskPath).isSome then (.error (.failed .unpack), s)
            else (.error .read, { s with files := update s.files diskPath (some part) })
          else (.error (.invalid "unexpected file"), s)
  | .entry header content rest, s =>
      match cleanBundlePath header.name with
      | .error e => (.error e, s)
      | .ok name =>
          if header.isDir then unpackLoop rest s
          else if header.isRegular = false then (.error (.invalid "unsupported tar entry"), s)
          else if name = bytes snapshotBundleManifestName then
            if s.manifestSeen then (.error (.invalid "duplicate manifest"), s)
            else if 1024 * 1024 < header.size then (.error (.invalid "manifest is too large"), s)
            else
              match s.manifest.unmarshal J content with
              | none => (.error (.invalid "parse manifest"), s)
              | some m => unpackLoop rest { s with manifest := m, manifestSeen := true }
          else if name = bytes snapshotBundleDiskName then
            if s.diskSeen then (.error (.invalid "duplicate disk"), s)
            else if (s.files diskPath).isSome then (.error (.failed .unpack), s)
            else
              unpackLoop rest
                { s with
                  diskSeen := true
                  files := update s.files diskPath (some content) }
          else (.error (.invalid "unexpected file"), s)

/-- `unpackSnapshotBundle` after its loop. -/
def checkLoop (s : UnpackState) : Except ImportError Manifest :=
  if s.manifestSeen = false then .error (.invalid "missing manifest")
  else if s.manifest.text .format ≠ snapshotBundleFormat then
    .error (.invalid "unsupported format")
  else if s.manifest.text .disk ≠ snapshotBundleDiskName then
    .error (.invalid "manifest disk must be \"rootfs.ext4\"")
  else if s.diskSeen = false then .error (.invalid "missing disk")
  else
    match s.files diskPath with
    | none => .error (.failed .unpack)
    | some disk =>
        if s.manifest.diskSize ≠ 0 ∧ disk.length ≠ s.manifest.diskSize then
          .error (.invalid "disk size mismatch")
        else .ok s.manifest

/-- `unpackSnapshotBundle` of what the packages deliver, with the files before
and after it. -/
def unpackDelivered (d : Delivered) (files : String → Option Bytes) :
    Except ImportError Manifest × (String → Option Bytes) :=
  match unpackLoop J diskPath d ⟨.empty, false, false, files⟩ with
  | (.error e, s) => (.error e, s.files)
  | (.ok (), s) => (checkLoop diskPath s, s.files)

end Loop

/-- `unpackSnapshotBundle` of a byte stream, with the files before and after
it. -/
def unpackSnapshotBundleTo (L : Libraries) (diskPath : String) (stream : Bytes)
    (files : String → Option Bytes) : Except ImportError Manifest × (String → Option Bytes) :=
  match L.gzip.newReader stream with
  | none => (.error (.invalid "read gzip stream"), files)
  | some s => unpackDelivered L.json diskPath (delivered L.tar (.new s)) files

/-! ## What a bundle is -/

/-- The path, lexically cleaned, is a relative path strictly below the root. -/
def BelowRoot (name : Bytes) : Prop :=
  ∃ es, es ≠ [] ∧ (∀ e ∈ es, Path.IsName e) ∧ Path.clean name = Path.join es

/-- The entry is a regular file with the given name. -/
def IsFile (name : String) (e : Header × Bytes) : Prop :=
  e.1.isRegular = true ∧ Path.clean e.1.name = bytes name

/-- The entry is a manifest of at most 1 MiB that parses to `m`. -/
structure IsManifest (J : Json.Codec) (m : Manifest) (e : Header × Bytes) : Prop where
  file : IsFile snapshotBundleManifestName e
  size : e.1.size ≤ 1024 * 1024
  parses : Manifest.empty.unmarshal J e.2 = some m

/-- The entries that are not directories. -/
def fileEntries (es : List (Header × Bytes)) : List (Header × Bytes) :=
  es.filter fun e => !e.1.isDir

/-- The entries are a bundle with the given manifest and disk. -/
structure Accepted (J : Json.Codec) (es : List (Header × Bytes)) (m : Manifest) (disk : Bytes) :
    Prop where
  names : ∀ e ∈ es, e.1.name ≠ [] ∧ BelowRoot e.1.name
  files : ∃ manifest rootfs, IsManifest J m manifest ∧ IsFile snapshotBundleDiskName rootfs ∧
    rootfs.2 = disk ∧
    (fileEntries es = [manifest, rootfs] ∨ fileEntries es = [rootfs, manifest])
  format : m.text .format = snapshotBundleFormat
  diskName : m.text .disk = snapshotBundleDiskName
  diskSize : m.diskSize = 0 ∨ disk.length = m.diskSize

/-! ## Names -/

section Names

variable {name p : Bytes}

theorem cleanParts_eq (parts : List Bytes) : cleanParts parts = Path.cleanElements false parts := by
  unfold cleanParts Path.cleanElements
  congr 2
  funext stack e
  unfold Path.push Path.pop Path.here Path.dotdot
  by_cases he : e = [46, 46]
  · subst he
    cases stack <;> rfl
  · simp [he]

theorem BelowRoot.ne_nil (h : BelowRoot name) : name ≠ [] := by
  rintro rfl
  obtain ⟨es, hne, hnames, hclean⟩ := h
  have hstack := ((Path.clean_eq_join_iff hnames hne).mp hclean).2
  exact hne (hstack.symm.trans (by decide))

/-- `cleanBundlePath` accepts the paths below the root, and returns them
clean. -/
theorem cleanBundlePath_ok_iff :
    cleanBundlePath name = .ok p ↔ BelowRoot name ∧ p = Path.clean name := by
  have hrooted : name.head? = some 47 ↔ Path.isRooted name = true := by
    simp [Path.isRooted, Path.slash]
  obtain ⟨n, names, hstack, hnames, -⟩ := Path.stacked_cleanElements false name
  -- The stack of a path below the root has a name at its bottom.
  have hbelow : BelowRoot name ↔ Path.isRooted name = false ∧ n = 0 ∧ names ≠ [] := by
    constructor
    · rintro ⟨es, hne, hes, hclean⟩
      obtain ⟨hroot, heq⟩ := (Path.clean_eq_join_iff hes hne).mp hclean
      rw [hstack] at heq
      cases n with
      | zero => exact ⟨hroot, rfl, by simpa [← heq] using hne⟩
      | succ n => exact absurd rfl (hes Path.dotdot (by simp [← heq])).ne_dotdot
    · rintro ⟨hroot, rfl, hne⟩
      exact ⟨names, hne, hnames, (Path.clean_eq_join_iff hnames hne).mpr
        ⟨hroot, by simpa using hstack⟩⟩
  have hparts : cleanParts (name.splitOn 47) = List.replicate n Path.dotdot ++ names := by
    rw [cleanParts_eq]
    exact hstack
  unfold cleanBundlePath
  rw [hbelow, hparts]
  by_cases hroot : Path.isRooted name = true
  · rw [if_pos (.inr (hrooted.mpr hroot))]
    simp [hroot]
  rw [Bool.not_eq_true] at hroot
  by_cases hnil : name = []
  · subst hnil
    have hzero : List.replicate n Path.dotdot ++ names = [] := by
      rw [← hstack]
      decide
    simp [(List.append_eq_nil_iff.mp hzero).2]
  rw [if_neg (by simp [hnil, hrooted, hroot])]
  cases n with
  | succ n => simp [List.replicate_succ, Path.dotdot]
  | zero =>
    cases names with
    | nil => simp
    | cons e es =>
      have he : e ≠ [46, 46] := (hnames e List.mem_cons_self).ne_dotdot
      have hclean : Path.clean name = Path.join (e :: es) :=
        (Path.clean_eq_join_iff hnames (by simp)).mpr ⟨hroot, by simpa using hstack⟩
      simp only [List.replicate_zero, List.nil_append, if_neg he, hclean, hroot]
      simp [Path.join, Path.slash, eq_comm]

theorem cleanBundlePath_of_belowRoot (h : BelowRoot name) :
    cleanBundlePath name = .ok (Path.clean name) :=
  cleanBundlePath_ok_iff.mpr ⟨h, rfl⟩

end Names

/-! ## The loop -/

section Loop

variable {J : Json.Codec} {diskPath : String} {d : Delivered} {s s' : UnpackState}

/-- What the loop does with an entry that is not a directory, when it goes
on. -/
def takeFile (J : Json.Codec) (diskPath : String) (s : UnpackState) (e : Header × Bytes) :
    Option UnpackState :=
  if e.1.isRegular = false then none
  else if Path.clean e.1.name = bytes snapshotBundleManifestName then
    if s.manifestSeen ∨ 1024 * 1024 < e.1.size then none
    else (s.manifest.unmarshal J e.2).map fun m => { s with manifest := m, manifestSeen := true }
  else if Path.clean e.1.name = bytes snapshotBundleDiskName then
    if s.diskSeen ∨ (s.files diskPath).isSome then none
    else some { s with diskSeen := true, files := update s.files diskPath (some e.2) }
  else none

/-- The loop stops at a file, or goes on after it. -/
theorem unpackLoop_file (diskPath : String) {header : Header} (content : Bytes)
    (hname : BelowRoot header.name)
    (hdir : header.isDir = false) :
    (takeFile J diskPath s (header, content) = none ∧
        ∃ e, unpackLoop J diskPath (.entry header content d) s = (.error e, s)) ∨
      ∃ s₁, takeFile J diskPath s (header, content) = some s₁ ∧
        unpackLoop J diskPath (.entry header content d) s = unpackLoop J diskPath d s₁ := by
  rw [unpackLoop, cleanBundlePath_of_belowRoot hname]
  simp only [takeFile, hdir, Bool.false_eq_true, if_false]
  by_cases hregular : header.isRegular = false
  · simp [hregular]
  simp only [if_neg hregular]
  by_cases hmanifest : Path.clean header.name = bytes snapshotBundleManifestName
  · simp only [if_pos hmanifest]
    by_cases hseen : s.manifestSeen = true
    · simp [hseen]
    by_cases hsize : 1024 * 1024 < header.size
    · simp [hseen, hsize]
    cases hm : s.manifest.unmarshal J content <;> simp [hseen, hsize]
  simp only [if_neg hmanifest]
  by_cases hdisk : Path.clean header.name = bytes snapshotBundleDiskName
  · simp only [if_pos hdisk]
    by_cases hseen : s.diskSeen = true
    · simp [hseen]
    cases hfile : s.files diskPath <;> simp [hseen]
  · simp [hdisk]

/-- The loop comes to an end without an error if and only if the entries do, all
names lie below the root, and it can go on after each file. -/
theorem unpackLoop_ok_iff :
    unpackLoop J diskPath d s = (.ok (), s') ↔
      ∃ es, d.entries = some es ∧ (∀ e ∈ es, BelowRoot e.1.name) ∧
        (fileEntries es).foldlM (takeFile J diskPath) s = some s' := by
  induction d generalizing s with
  | done => simp [unpackLoop, Delivered.entries, fileEntries]
  | broken => simp [unpackLoop, Delivered.entries]
  | cut header part =>
    simp only [unpackLoop, Delivered.entries, reduceCtorEq, false_and, exists_false, iff_false]
    cases cleanBundlePath header.name with
    | error e => simp
    | ok name => dsimp only; split_ifs <;> simp
  | entry header content rest ih =>
    have hentries : (∃ es, (Delivered.entry header content rest).entries = some es ∧
        (∀ e ∈ es, BelowRoot e.1.name) ∧
          (fileEntries es).foldlM (takeFile J diskPath) s = some s') ↔
        BelowRoot header.name ∧ ∃ es, rest.entries = some es ∧ (∀ e ∈ es, BelowRoot e.1.name) ∧
          (fileEntries ((header, content) :: es)).foldlM (takeFile J diskPath) s = some s' := by
      simp only [Delivered.entries, Option.map_eq_some_iff]
      constructor
      · rintro ⟨_, ⟨es, hes, rfl⟩, hnames, hfiles⟩
        simp only [List.forall_mem_cons] at hnames
        exact ⟨hnames.1, es, hes, hnames.2, hfiles⟩
      · rintro ⟨hname, es, hes, hnames, hfiles⟩
        exact ⟨_, ⟨es, hes, rfl⟩, List.forall_mem_cons.mpr ⟨hname, hnames⟩, hfiles⟩
    rw [hentries]
    by_cases hname : BelowRoot header.name
    swap
    · cases hclean : cleanBundlePath header.name with
      | error e => simp [unpackLoop, hclean, hname]
      | ok name => exact absurd (cleanBundlePath_ok_iff.mp hclean).1 hname
    simp only [hname, true_and]
    cases hdir : header.isDir with
    | true =>
      rw [unpackLoop, cleanBundlePath_of_belowRoot hname]
      simp [ih, fileEntries, hdir]
    | false =>
      have hcons : ∀ es, fileEntries ((header, content) :: es) =
          (header, content) :: fileEntries es := fun es => by simp [fileEntries, hdir]
      simp only [hcons, List.foldlM_cons]
      rcases unpackLoop_file (J := J) (s := s) (d := rest) diskPath content hname hdir with
        ⟨hnone, e, hloop⟩ | ⟨s₁, hsome, hloop⟩
      · simp [hloop, hnone]
      · simp only [hloop, hsome, ih]
        rfl

/-- The loop makes no file but the disk. -/
theorem unpackLoop_files {path : String} (hpath : path ≠ diskPath) :
    (unpackLoop J diskPath d s).2.files path = s.files path := by
  induction d generalizing s with
  | done | broken => rfl
  | cut header part =>
    rw [unpackLoop]
    cases cleanBundlePath header.name with
    | error e => rfl
    | ok name => dsimp only; split_ifs <;> simp [hpath]
  | entry header content rest ih =>
    rw [unpackLoop]
    cases cleanBundlePath header.name with
    | error e => rfl
    | ok name =>
      cases hm : s.manifest.unmarshal J content <;> dsimp only <;> split_ifs <;> simp [hpath, ih]

/-! ## Two files -/

theorem takeFile_cases {e : Header × Bytes} (h : takeFile J diskPath s e = some s') :
    IsFile snapshotBundleManifestName e ∧ s.manifestSeen = false ∧ e.1.size ≤ 1024 * 1024 ∧
        (∃ m, s.manifest.unmarshal J e.2 = some m ∧
          s' = { s with manifest := m, manifestSeen := true }) ∨
      IsFile snapshotBundleDiskName e ∧ s.diskSeen = false ∧ s.files diskPath = none ∧
        s' = { s with diskSeen := true, files := update s.files diskPath (some e.2) } := by
  unfold takeFile at h
  split_ifs at h with hregular hmanifest hseen hdisk hseen
  · obtain ⟨m, hm, rfl⟩ := Option.map_eq_some_iff.mp h
    push Not at hseen
    exact .inl ⟨⟨by simpa using hregular, hmanifest⟩, by simpa using hseen.1, hseen.2, m, hm, rfl⟩
  · push Not at hseen
    exact .inr ⟨⟨by simpa using hregular, hdisk⟩, by simpa using hseen.1, by simpa using hseen.2,
      (Option.some.inj h).symm⟩

theorem takeFile_manifest {m : Manifest} {e : Header × Bytes} (he : IsManifest J m e)
    (hseen : s.manifestSeen = false) (hs : s.manifest = .empty) :
    takeFile J diskPath s e = some { s with manifest := m, manifestSeen := true } := by
  simp [takeFile, he.file.1, he.file.2, hseen, not_lt.mpr he.size, hs, he.parses]

theorem takeFile_disk {e : Header × Bytes} (he : IsFile snapshotBundleDiskName e)
    (hseen : s.diskSeen = false) (hs : s.files diskPath = none) :
    takeFile J diskPath s e =
      some { s with diskSeen := true, files := update s.files diskPath (some e.2) } := by
  simp [takeFile, he.1, he.2, disk_ne_manifest, hseen, hs]

variable {files : String → Option Bytes} {l : List (Header × Bytes)}

/-- Each file sets a flag that was not set before.  So both flags are set after
the manifest and the disk, in either order, and nothing else. -/
theorem foldlM_takeFile (hfiles : files diskPath = none) :
    (l.foldlM (takeFile J diskPath) ⟨.empty, false, false, files⟩ = some s' ∧
        s'.manifestSeen = true ∧ s'.diskSeen = true) ↔
      ∃ m manifest rootfs, IsManifest J m manifest ∧ IsFile snapshotBundleDiskName rootfs ∧
        (l = [manifest, rootfs] ∨ l = [rootfs, manifest]) ∧
        s' = ⟨m, true, true, update files diskPath (some rootfs.2)⟩ := by
  constructor
  · rintro ⟨hfold, hmanifest, hdisk⟩
    match l with
    | [] =>
      cases hfold
      cases hmanifest
    | [a] =>
      obtain ⟨s₁, ha, hfold⟩ := Option.bind_eq_some_iff.mp hfold
      cases hfold
      rcases takeFile_cases ha with ⟨-, -, -, m, -, rfl⟩ | ⟨-, -, -, rfl⟩
      · cases hdisk
      · cases hmanifest
    | a :: b :: rest =>
      obtain ⟨s₁, ha, hfold⟩ := Option.bind_eq_some_iff.mp hfold
      obtain ⟨s₂, hb, hfold⟩ := Option.bind_eq_some_iff.mp hfold
      have hboth : ∃ m manifest rootfs, IsManifest J m manifest ∧
          IsFile snapshotBundleDiskName rootfs ∧
          (a = manifest ∧ b = rootfs ∨ a = rootfs ∧ b = manifest) ∧
          s₂ = ⟨m, true, true, update files diskPath (some rootfs.2)⟩ := by
        rcases takeFile_cases ha with ⟨hfile, -, hsize, m, hm, rfl⟩ | ⟨hfile, -, -, rfl⟩
        · rcases takeFile_cases hb with ⟨-, hseen, -⟩ | ⟨hfile', -, -, rfl⟩
          · cases hseen
          · exact ⟨m, a, b, ⟨hfile, hsize, hm⟩, hfile', .inl ⟨rfl, rfl⟩, rfl⟩
        · rcases takeFile_cases hb with ⟨hfile', -, hsize, m, hm, rfl⟩ | ⟨-, hseen, -⟩
          · exact ⟨m, b, a, ⟨hfile', hsize, hm⟩, hfile, .inr ⟨rfl, rfl⟩, rfl⟩
          · cases hseen
      obtain ⟨m, manifest, rootfs, hm, hd, horder, rfl⟩ := hboth
      cases rest with
      | nil =>
        cases hfold
        refine ⟨m, manifest, rootfs, hm, hd, ?_, rfl⟩
        rcases horder with ⟨rfl, rfl⟩ | ⟨rfl, rfl⟩
        · exact .inl rfl
        · exact .inr rfl
      | cons c rest =>
        obtain ⟨s₃, hc, -⟩ := Option.bind_eq_some_iff.mp hfold
        rcases takeFile_cases hc with ⟨-, hseen, -⟩ | ⟨-, hseen, -⟩
        · cases hseen
        · cases hseen
  · rintro ⟨m, manifest, rootfs, hm, hd, rfl | rfl, rfl⟩
    · simp [takeFile_manifest hm, takeFile_disk hd, hfiles]
    · simp [takeFile_manifest hm, takeFile_disk hd, hfiles]

/-- The checks after the loop. -/
theorem checkLoop_ok_iff {m : Manifest} :
    checkLoop diskPath s = .ok m ↔
      s.manifestSeen = true ∧ s.diskSeen = true ∧ s.manifest = m ∧
        m.text .format = snapshotBundleFormat ∧ m.text .disk = snapshotBundleDiskName ∧
        ∃ disk, s.files diskPath = some disk ∧ (m.diskSize = 0 ∨ disk.length = m.diskSize) := by
  unfold checkLoop
  constructor
  · intro h
    split_ifs at h with hmanifest hformat hdiskName hdisk
    cases hfile : s.files diskPath with
    | none => simp [hfile] at h
    | some disk =>
      rw [hfile] at h
      dsimp only at h
      split_ifs at h with hsize
      cases h
      refine ⟨by simpa using hmanifest, by simpa using hdisk, rfl, not_not.mp hformat,
        not_not.mp hdiskName, disk, rfl, ?_⟩
      by_cases hzero : s.manifest.diskSize = 0
      · exact .inl hzero
      · exact .inr (not_not.mp fun hne => hsize ⟨hzero, hne⟩)
  · rintro ⟨hmanifest, hdisk, rfl, hformat, hdiskName, disk, hfile, hsize⟩
    have hfits : ¬(s.manifest.diskSize ≠ 0 ∧ disk.length ≠ s.manifest.diskSize) := by tauto
    simp only [hmanifest, hdisk, hformat, hdiskName, hfile, Bool.true_eq_false, if_false, ne_eq,
      not_true_eq_false, if_neg hfits]

/-- A manifest comes out if and only if the loop comes to its end and the
checks pass. -/
theorem unpackDelivered_ok_iff {m : Manifest} {files' : String → Option Bytes} :
    unpackDelivered J diskPath d files = (.ok m, files') ↔
      ∃ s', unpackLoop J diskPath d ⟨.empty, false, false, files⟩ = (.ok (), s') ∧
        checkLoop diskPath s' = .ok m ∧ s'.files = files' := by
  unfold unpackDelivered
  rcases unpackLoop J diskPath d ⟨.empty, false, false, files⟩ with ⟨e | ⟨⟩, s'⟩ <;> simp

theorem unpackDelivered_files {path : String} (hpath : path ≠ diskPath) :
    (unpackDelivered J diskPath d files).2 path = files path := by
  have hkeep := unpackLoop_files (J := J) (d := d) (s := ⟨.empty, false, false, files⟩) hpath
  unfold unpackDelivered
  rcases hloop : unpackLoop J diskPath d ⟨.empty, false, false, files⟩ with ⟨e | ⟨⟩, s'⟩
  · rw [hloop] at hkeep
    exact hkeep
  · rw [hloop] at hkeep
    exact hkeep

/-- A manifest comes out if and only if the entries are a bundle with this
manifest, and the disk of the bundle is at `diskPath` then. -/
theorem unpackDelivered_accepts (hfree : files diskPath = none) {m : Manifest}
    {files' : String → Option Bytes} :
    unpackDelivered J diskPath d files = (.ok m, files') ↔
      ∃ es disk, d.entries = some es ∧ Accepted J es m disk ∧
        files' = update files diskPath (some disk) := by
  rw [unpackDelivered_ok_iff]
  constructor
  · rintro ⟨s', hloop, hcheck, rfl⟩
    obtain ⟨es, hes, hnames, hfold⟩ := unpackLoop_ok_iff.mp hloop
    obtain ⟨hmanifestSeen, hdiskSeen, hm, hformat, hdiskName, disk, hdisk, hsize⟩ :=
      checkLoop_ok_iff.mp hcheck
    obtain ⟨m', manifest, rootfs, hmanifest, hrootfs, horder, rfl⟩ :=
      (foldlM_takeFile hfree).mp ⟨hfold, hmanifestSeen, hdiskSeen⟩
    obtain rfl : m' = m := hm
    obtain rfl : rootfs.2 = disk := by simpa using hdisk
    exact ⟨es, rootfs.2, hes, ⟨fun e he => ⟨(hnames e he).ne_nil, hnames e he⟩,
      ⟨manifest, rootfs, hmanifest, hrootfs, rfl, horder⟩, hformat, hdiskName, hsize⟩, rfl⟩
  · rintro ⟨es, disk, hes, hacc, rfl⟩
    obtain ⟨manifest, rootfs, hmanifest, hrootfs, rfl, horder⟩ := hacc.files
    obtain ⟨hfold, -, -⟩ := (foldlM_takeFile (J := J) hfree).mpr
      ⟨m, manifest, rootfs, hmanifest, hrootfs, horder, rfl⟩
    exact ⟨_, unpackLoop_ok_iff.mpr ⟨es, hes, fun e he => (hacc.names e he).2, hfold⟩,
      checkLoop_ok_iff.mpr ⟨rfl, rfl, rfl, hacc.format, hacc.diskName, rootfs.2, by simp,
        hacc.diskSize⟩, rfl⟩

end Loop

/-! ## The function on the content of the disk -/

section Content

variable {L : Libraries} {r entry rest : Reader} {u : Unpacked} {content : Bytes}
  {header : Header} {diskPath : String} {s : UnpackState}

theorem next_of_readAll (h : entry.readAll = some (content, rest)) :
    entry.next L.tar = rest.next L.tar := by
  unfold Reader.readAll at h
  split_ifs at h with hle
  cases h
  unfold Reader.next
  simp [Stream.skip, hle]

theorem next_of_readAll_none (h : entry.readAll = none) : entry.next L.tar = .error .invalid := by
  unfold Reader.readAll at h
  split_ifs at h with hle
  unfold Reader.next
  simp [Stream.skip, hle]

theorem delivered_eof (h : r.next L.tar = .error .eof) : delivered L.tar r = .done := by
  rw [delivered]
  split <;> simp_all

theorem delivered_invalid (h : r.next L.tar = .error .invalid) :
    delivered L.tar r = .broken := by
  rw [delivered]
  split <;> simp_all

theorem delivered_ok (h : r.next L.tar = .ok (header, entry)) :
    delivered L.tar r =
      match entry.readAll with
      | none => .cut header entry.stream.data
      | some (content, rest) => .entry header content (delivered L.tar rest) := by
  rw [delivered]
  split
  · rename_i hn
    rw [h] at hn
    cases hn
  · rename_i hn
    rw [h] at hn
    cases hn
  · rename_i header' entry' hn
    obtain ⟨rfl, rfl⟩ := Prod.mk.inj (Except.ok.inj (h.symm.trans hn))
    split
    · rename_i hread
      simp only [hread]
    · rename_i content rest hread
      simp only [hread]

/-- The loop depends on the reader only through `Next`. -/
theorem unpackEntries_congr {r' : Reader} (h : r.next L.tar = r'.next L.tar) :
    unpackEntries L r u = unpackEntries L r' u := by
  cases hnext : r'.next L.tar with
  | error e =>
    cases e with
    | eof => rw [unpackEntries_eof hnext, unpackEntries_eof (h.trans hnext)]
    | invalid => rw [unpackEntries_invalid hnext, unpackEntries_invalid (h.trans hnext)]
  | ok a => rw [unpackEntries_ok hnext, unpackEntries_ok (h.trans hnext)]

/-- What the loop on the content of the disk makes of a result of the loop with
the file. -/
def contentOf (diskPath : String) :
    Except ImportError Unit × UnpackState → Except ImportError Unpacked
  | (.error e, _) => .error e
  | (.ok (), s) => .ok ⟨s.manifest, s.manifestSeen, s.files diskPath⟩

/-- The loops agree.  The file is there exactly when the disk has been read. -/
theorem unpackEntries_eq (diskPath : String) (hs : s.diskSeen = (s.files diskPath).isSome) :
    unpackEntries L r ⟨s.manifest, s.manifestSeen, s.files diskPath⟩ =
      contentOf diskPath (unpackLoop L.json diskPath (delivered L.tar r) s) := by
  induction hn : r.stream.data.length using Nat.strong_induction_on generalizing r s with
  | _ n ih =>
    subst hn
    cases hnext : r.next L.tar with
    | error e =>
      cases e with
      | eof =>
        rw [unpackEntries_eof hnext, delivered_eof hnext]
        rfl
      | invalid =>
        rw [unpackEntries_invalid hnext, delivered_invalid hnext]
        rfl
    | ok a =>
      obtain ⟨header, entry⟩ := a
      have hshort := next_shorter hnext
      rw [unpackEntries_ok hnext, delivered_ok hnext]
      cases hread : entry.readAll with
      | none =>
        have hdir : unpackEntries L entry ⟨s.manifest, s.manifestSeen, s.files diskPath⟩ =
            .error (.invalid "read tar entry") := unpackEntries_invalid (next_of_readAll_none hread)
        rw [unpackLoop]
        cases cleanBundlePath header.name with
        | error e => rfl
        | ok name =>
          dsimp only
          rw [hs]
          split_ifs <;> simp_all [contentOf]
      | some a =>
        obtain ⟨content, rest⟩ := a
        have hlen : rest.stream.data.length < r.stream.data.length :=
          lt_of_le_of_lt (readAll_length_le hread) hshort
        have hdir : unpackEntries L entry ⟨s.manifest, s.manifestSeen, s.files diskPath⟩ =
            contentOf diskPath (unpackLoop L.json diskPath (delivered L.tar rest) s) := by
          rw [unpackEntries_congr (next_of_readAll hread)]
          exact ih _ hlen hs rfl
        dsimp only
        rw [unpackLoop]
        cases cleanBundlePath header.name with
        | error e => rfl
        | ok name =>
          dsimp only
          by_cases hisDir : header.isDir = true
          · simp only [if_pos hisDir, hdir]
          by_cases hregular : header.isRegular = false
          · simp only [if_neg hisDir, if_pos hregular, contentOf]
          simp only [if_neg hisDir, if_neg hregular]
          by_cases hmanifest : name = bytes snapshotBundleManifestName
          · simp only [if_pos hmanifest]
            by_cases hseen : s.manifestSeen = true
            · simp only [if_pos hseen, contentOf]
            by_cases hsize : 1024 * 1024 < header.size
            · simp only [if_neg hseen, if_pos hsize, contentOf]
            simp only [if_neg hseen, if_neg hsize]
            cases s.manifest.unmarshal L.json content with
            | none => rfl
            | some m =>
              exact ih _ hlen (s := { s with manifest := m, manifestSeen := true }) hs rfl
          simp only [if_neg hmanifest]
          by_cases hdisk : name = bytes snapshotBundleDiskName
          · simp only [if_pos hdisk]
            cases hfile : s.files diskPath with
            | some disk => simp [hs, hfile, contentOf]
            | none =>
              have hnew := ih _ hlen (r := rest) (s :=
                { s with
                  diskSeen := true
                  files := update s.files diskPath (some content) }) (by simp) rfl
              simpa [hs, hfile] using hnew
          · simp only [if_neg hdisk, contentOf]

theorem foldlM_takeFile_diskSeen {J : Json.Codec} {l : List (Header × Bytes)} {s s' : UnpackState}
    (hs : s.diskSeen = (s.files diskPath).isSome)
    (h : l.foldlM (takeFile J diskPath) s = some s') :
    s'.diskSeen = (s'.files diskPath).isSome := by
  induction l generalizing s with
  | nil =>
    cases h
    exact hs
  | cons e l ih =>
    obtain ⟨s₁, he, hl⟩ := Option.bind_eq_some_iff.mp h
    rcases takeFile_cases he with ⟨-, -, -, m, -, rfl⟩ | ⟨-, -, -, rfl⟩
    · exact ih (s := { s with manifest := m, manifestSeen := true }) hs hl
    · exact ih (by simp) hl

theorem checkUnpacked_eq (hs : s.diskSeen = (s.files diskPath).isSome) {m : Manifest}
    {disk : Bytes} :
    checkUnpacked ⟨s.manifest, s.manifestSeen, s.files diskPath⟩ = .ok (m, disk) ↔
      checkLoop diskPath s = .ok m ∧ s.files diskPath = some disk := by
  unfold checkUnpacked checkLoop
  rw [hs]
  cases s.files diskPath with
  | none => dsimp only; split_ifs <;> simp
  | some disk' => dsimp only; split_ifs <;> simp_all

/-- The function on the content of the disk is the one with the file. -/
theorem unpackSnapshotBundle_eq {stream : Bytes} {files : String → Option Bytes}
    (hfree : files diskPath = none) {m : Manifest} {disk : Bytes} :
    unpackSnapshotBundle L stream = .ok (m, disk) ↔
      unpackSnapshotBundleTo L diskPath stream files =
        (.ok m, update files diskPath (some disk)) := by
  unfold unpackSnapshotBundleTo
  cases hr : L.gzip.newReader stream with
  | none => simp [unpackSnapshotBundle, hr]
  | some r =>
    have hentries := unpackEntries_eq (L := L) (r := .new r) diskPath
      (s := ⟨.empty, false, false, files⟩) (by simp [hfree])
    dsimp only at hentries
    rw [hfree] at hentries
    rw [unpackSnapshotBundle_of_newReader hr, hentries, unpackDelivered_ok_iff]
    rcases hloop : unpackLoop L.json diskPath (delivered L.tar (.new r))
      ⟨.empty, false, false, files⟩ with ⟨e | ⟨⟩, s'⟩
    · simp [contentOf, Except.bind]
    · obtain ⟨es, -, -, hfold⟩ := unpackLoop_ok_iff.mp hloop
      have hseen := foldlM_takeFile_diskSeen (by simp [hfree]) hfold
      have hkeep : ∀ path ≠ diskPath, s'.files path = files path := by
        intro path hpath
        simpa [hloop] using unpackLoop_files (J := L.json) (d := delivered L.tar (.new r))
          (s := ⟨.empty, false, false, files⟩) hpath
      have hfiles : s'.files diskPath = some disk ↔
          s'.files = update files diskPath (some disk) := by
        rw [Function.eq_update_iff]
        exact ⟨fun h => ⟨h, hkeep⟩, And.left⟩
      simp only [contentOf, Except.bind, checkUnpacked_eq hseen, hfiles]
      simp

end Content

/-! ## Every byte stream -/

/-- The entries of a stream that the packages read to its end. -/
def bundleEntries (L : Libraries) (stream : Bytes) : Option (List (Header × Bytes)) :=
  (L.gzip.newReader stream).bind fun s => (delivered L.tar (.new s)).entries

/-- The call succeeds if and only if the entries are a bundle.  The disk of the
bundle is at `diskPath` then, and in every case no other file has changed. -/
structure Unpacks (J : Json.Codec) (entries : Option (List (Header × Bytes))) (diskPath : String)
    (files : String → Option Bytes) (r : Except ImportError Manifest × (String → Option Bytes)) :
    Prop where
  succeeds_iff : (∃ m, r.1 = .ok m) ↔ ∃ es m disk, entries = some es ∧ Accepted J es m disk
  disk : ∀ m, r.1 = .ok m →
    ∃ es disk, entries = some es ∧ Accepted J es m disk ∧ r.2 diskPath = some disk
  others : ∀ path ≠ diskPath, r.2 path = files path

theorem unpacks_unpackDelivered {J : Json.Codec} {diskPath : String} {d : Delivered}
    {files : String → Option Bytes} (hfree : files diskPath = none) :
    Unpacks J d.entries diskPath files (unpackDelivered J diskPath d files) := by
  have haccepts : ∀ m, (unpackDelivered J diskPath d files).1 = .ok m →
      ∃ es disk, d.entries = some es ∧ Accepted J es m disk ∧
        (unpackDelivered J diskPath d files).2 diskPath = some disk := by
    intro m hm
    obtain ⟨es, disk, hes, hacc, hfiles⟩ := (unpackDelivered_accepts hfree).mp (Prod.ext hm rfl)
    exact ⟨es, disk, hes, hacc, by simp [hfiles]⟩
  refine ⟨⟨?_, ?_⟩, haccepts, fun path hpath => unpackDelivered_files hpath⟩
  · rintro ⟨m, hm⟩
    obtain ⟨es, disk, hes, hacc, -⟩ := haccepts m hm
    exact ⟨es, m, disk, hes, hacc⟩
  · rintro ⟨es, m, disk, hes, hacc⟩
    have hok := (unpackDelivered_accepts hfree).mpr ⟨es, disk, hes, hacc, rfl⟩
    exact ⟨m, congrArg Prod.fst hok⟩

/-- `unpackSnapshotBundle` succeeds if and only if the stream is a bundle.  This
holds for whatever entries a tar reader delivers. -/
theorem unpackSnapshotBundle_accepts_iff (L : Libraries) (diskPath : String) (stream : Bytes)
    (files : String → Option Bytes) (hfree : files diskPath = none) :
    Unpacks L.json (bundleEntries L stream) diskPath files
        (unpackSnapshotBundleTo L diskPath stream files) ∧
      ∀ d : Delivered, Unpacks L.json d.entries diskPath files
        (unpackDelivered L.json diskPath d files) := by
  refine ⟨?_, fun d => unpacks_unpackDelivered hfree⟩
  unfold unpackSnapshotBundleTo bundleEntries
  cases L.gzip.newReader stream with
  | none => constructor <;> simp
  | some r => exact unpacks_unpackDelivered hfree

/-- What an export writes is a bundle, and its disk is at `diskPath` after it
was unpacked. -/
theorem unpackSnapshotBundle_accepts_export :
    ∃ stream es m, bundleEntries .plain stream = some es ∧
      Accepted Json.Codec.plain es m [7, 8, 9] ∧
      (unpackSnapshotBundleTo .plain "rootfs.ext4" stream fun _ => none).2 "rootfs.ext4" =
        some [7, 8, 9] := by
  obtain ⟨m, -, hunpack⟩ := @unpackSnapshotBundle_whole .plain plainSnapshot [7, 8, 9] 0 0
    stores_plainSnapshot (by decide) manifest_plainSnapshot
  have hto : unpackSnapshotBundleTo .plain "rootfs.ext4" _ (fun _ => none) =
      (.ok m, update (fun _ => none) "rootfs.ext4" (some [7, 8, 9])) :=
    (unpackSnapshotBundle_eq rfl).mp hunpack
  obtain ⟨es, disk, hes, hacc, hdisk⟩ := (unpackSnapshotBundle_accepts_iff .plain "rootfs.ext4" _
    (fun _ => none) rfl).1.disk m (congrArg Prod.fst hto)
  obtain rfl : disk = [7, 8, 9] := by
    rw [hto] at hdisk
    simpa using hdisk.symm
  exact ⟨_, es, m, hes, hacc, hdisk⟩

end Firedoze.Bundle
