import Firedoze.ImageBuilder.Boot
import Firedoze.ImageBuilder.Overlay

/-!
# The root file system of an image

`populateRootfs` of `cmd/firedoze-image-builder/main.go` writes the entries of a
tar archive into an image.  What the guest overlay owns is left out: the content
of its files is captured, and its links and its empty directories are skipped.
Hard links are kept back until all files are there.

The overlay is asked with the path that `cleanTarPath` has made of the name of an
entry.  `populateRootfs_unowned` says that the image is not touched where the
overlay owns it, from any entry that is no directory.  It needs two things of
those entries: their names do not start with two slashes, since such a path is
asked for with its root, and they are not below a path of the overlay, since the
directories above a file are made with it.
-/

namespace Firedoze.ImageBuilder

open Text Path Conc Conc.Prog Conc.Monitor

/-! ## The source -/

/-- An entry, and what reading its content gives. -/
structure TarEntry extends TarHeader where
  content : Except Bytes Bytes

/-- What the tar reader delivers: entries, and an error at the end if there is one. -/
structure TarStream where
  entries : List TarEntry
  failure : Option Bytes := none

/-- `tarFileMode`. -/
def tarFileMode (hdr : TarHeader) : BitVec 32 :=
  (hdr.mode &&& 0o777).setWidth 32 |||
    (if hdr.mode &&& 0o4000 ≠ 0 then 1 <<< 23 else 0) |||
    (if hdr.mode &&& 0o2000 ≠ 0 then 1 <<< 22 else 0) |||
    (if hdr.mode &&& 0o1000 ≠ 0 then 1 <<< 20 else 0)

def TarHeader.attributes (hdr : TarHeader) : Attributes :=
  ⟨tarFileMode hdr, hdr.uid, hdr.gid, hdr.modTime⟩

/-- `pendingHardlink`. -/
structure PendingHardlink where
  path : Bytes
  target : Bytes
  header : TarHeader

/-- The variables of the loop. -/
structure PopulateState where
  overlay : GuestOverlay
  artifacts : BootArtifacts := {}
  hardlinks : List PendingHardlink := []

/-- A regular file. -/
def populateFile (s : PopulateState) (hdr : TarHeader) (clean data : Bytes) : Image PopulateState :=
  match s.overlay.captureFile clean data with
  | some overlay =>
    pure { s with overlay := overlay, artifacts := s.artifacts.remember clean data }
  | none =>
    if s.overlay.shouldSkip clean then pure s
    else do
      wrap (bytes "write /" ++ clean) (writeFile clean data hdr.attributes)
      pure { s with artifacts := s.artifacts.remember clean data }

def populateDirectory (s : PopulateState) (hdr : TarHeader) (clean : Bytes) :
    Image PopulateState := do
  wrap (bytes "create dir /" ++ clean) (mkdirAll clean hdr.attributes)
  pure s

def populateSymlink (s : PopulateState) (hdr : TarHeader) (clean : Bytes) :
    Image PopulateState :=
  if s.overlay.shouldSkip clean then pure s
  else do
    wrap (bytes "symlink /" ++ clean) (symlink hdr.linkname clean hdr.modTime)
    pure s

/-- A hard link, which is kept for later. -/
def keepHardlink (s : PopulateState) (hdr : TarHeader) (clean : Bytes) : PopulateState :=
  match cleanTarPath hdr.linkname with
  | none => s
  | some target =>
    if s.overlay.shouldSkip clean then s
    else { s with hardlinks := s.hardlinks ++ [⟨clean, target, hdr⟩] }

/-- One round of the loop of `populateRootfs`. -/
def populateEntry (s : PopulateState) (entry : TarEntry) : Image PopulateState :=
  match cleanTarPath entry.name with
  | none => pure s
  | some clean =>
    if entry.isDir then populateDirectory s entry.toTarHeader clean
    else
      match entry.typeflag with
      | .reg =>
        match entry.content with
        | .error text => throw (.wrapped (bytes "read /" ++ clean) (.tar text))
        | .ok data => populateFile s entry.toTarHeader clean data
      | .dir => populateDirectory s entry.toTarHeader clean
      | .symlink => populateSymlink s entry.toTarHeader clean
      | .link => pure (keepHardlink s entry.toTarHeader clean)
      | .other => pure s

/-- The loop of `populateRootfs`. -/
def populateEntries (failure : Option Bytes) : PopulateState → List TarEntry → Image PopulateState
  | s, [] => do
    sect (.next none)
    match failure with
    | none => pure s
    | some text => throw (.tar text)
  | s, entry :: entries => do
    sect (.next (some entry.toTarHeader))
    let s ← populateEntry s entry
    populateEntries failure s entries

/-- The second loop of `populateRootfs`. -/
def writeHardlinks : BootArtifacts → List PendingHardlink → Image BootArtifacts
  | artifacts, [] => pure artifacts
  | artifacts, link :: links => do
    let data ← wrap (bytes "read hardlink target /" ++ link.target ++ bytes " for /" ++ link.path)
      (call (.readFile link.target))
    wrap (bytes "write hardlink copy /" ++ link.path)
      (writeFile link.path data link.header.attributes)
    writeHardlinks (artifacts.remember link.path data) links

/-- `populateRootfs`. -/
def populateRootfs (overlay : GuestOverlay) (stream : TarStream) :
    Image (GuestOverlay × BootArtifacts) := do
  let s ← populateEntries stream.failure { overlay := overlay } stream.entries
  let artifacts ← writeHardlinks s.artifacts s.hardlinks
  pure (s.overlay, artifacts)

/-! ## What is touched -/

/-- `populateRootfs` makes a directory of the entry. -/
def TarHeader.makesDirectory (hdr : TarHeader) : Bool := hdr.isDir || hdr.typeflag == .dir

/-- Nothing that the overlay owns is touched, except by an entry for a directory.
The phase says whether the entry at hand is one. -/
def unowned (overlay : GuestOverlay) : Monitor ImageEff Bool where
  start := false
  ok := fun directory e _ => directory = true ∨ ∀ p, e.touched = some p → ¬ overlay.Owns p
  next := fun directory e _ =>
    match e with
    | .next (some hdr) => hdr.makesDirectory
    | .next none => false
    | _ => directory

/-- The entry is below a file or a link of the overlay. -/
def Below (overlay : GuestOverlay) (name : Bytes) : Prop :=
  ∃ es es', cleanName name = es ++ es' ∧ es' ≠ [] ∧ overlay.hasKey (join es) = true

/-- What `populateRootfs` needs of the name of an entry. -/
structure PlainName (overlay : GuestOverlay) (name : Bytes) : Prop where
  not_doubled : ¬ Doubled name
  not_below : ¬ Below overlay name

variable {overlay : GuestOverlay}

/-- Any answer. -/
abbrev anyAnswer {β : Type} : ImageEff β → β → Prop := fun _ _ => True

theorem unowned_next_of_not {β : Type} {e : ImageEff β} (h : e.isNext = false) (directory : Bool)
    (b : β) : (unowned overlay).next directory e b = directory := by
  cases e <;> first | rfl | exact absurd h (by simp [ImageEff.isNext])

/-- A block that touches unowned paths only keeps the phase. -/
theorem conforms_touches {α : Type} {x : Image α} {directory : Bool}
    {Q : Except ImageError α → Bool → Prop}
    (h : All (Touches fun p => ¬ overlay.Owns p) x.run) (hQ : ∀ r, Q r directory) :
    (unowned overlay).Conforms anyAnswer x.run directory Q := by
  refine conforms_of_all (· = directory) h rfl ?_ ?_
  · rintro β l e b rfl he -
    exact ⟨Or.inr he.2, unowned_next_of_not he.1 l b⟩
  · rintro r l rfl
    exact hQ r

/-- An entry for a directory may touch anything. -/
theorem conforms_directory {α : Type} {x : Image α} {Q : Except ImageError α → Bool → Prop}
    (h : All (Touches fun _ => True) x.run) (hQ : ∀ r, Q r true) :
    (unowned overlay).Conforms anyAnswer x.run true Q := by
  refine conforms_of_all (· = true) h rfl ?_ ?_
  · rintro β l e b rfl he -
    exact ⟨Or.inl rfl, unowned_next_of_not he.1 true b⟩
  · rintro r l rfl
    exact hQ r

/-- The state of the loop: the overlay owns what it owned before, and all hard links
that were kept can be written. -/
structure Ready (overlay : GuestOverlay) (s : PopulateState) : Prop where
  hasKey : ∀ p, s.overlay.hasKey p = overlay.hasKey p
  shouldSkip : ∀ p, s.overlay.shouldSkip p = overlay.shouldSkip p
  links : ∀ link ∈ s.hardlinks, Clear overlay link.path

/-- A path that the overlay lets pass can be written. -/
theorem clear_of_plainName {name clean : Bytes} (h : PlainName overlay name)
    (hclean : cleanTarPath name = some clean) (hskip : overlay.shouldSkip clean = false) :
    Clear overlay clean := by
  obtain ⟨heq, hnames, hne, -⟩ := exists_names_of_cleanTarPath h.not_doubled hclean
  obtain ⟨es, e, hes⟩ := (List.eq_nil_or_concat' (cleanName name)).resolve_left hne
  refine ⟨⟨es, e, by rw [heq, hes], by rwa [← hes], ?_⟩, hskip⟩
  rintro above ⟨rest, rfl⟩
  by_contra hkey
  refine h.not_below ⟨above, rest ++ [e], by rw [hes, List.append_assoc], by simp, ?_⟩
  simpa using hkey

/-- The loop may go on in a state that is ready. -/
def ReadyAfter (overlay : GuestOverlay) (r : Except ImageError PopulateState) : Prop :=
  ∀ s, r = .ok s → Ready overlay s

theorem readyAfter_ok {s : PopulateState} (h : Ready overlay s) : ReadyAfter overlay (.ok s) := by
  rintro s' hs
  rwa [← Except.ok.inj hs]

theorem readyAfter_error (e : ImageError) : ReadyAfter overlay (.error e) := by
  rintro s' hs
  cases hs

section Entry

variable {s : PopulateState} {hdr : TarHeader} {clean data : Bytes}

/-- A block for one entry that is no directory, and then the loop. -/
theorem conforms_entry {x : Image Unit} {f : Unit → PopulateState}
    (h : All (Touches fun p => ¬ overlay.Owns p) x.run) (hf : Ready overlay (f ()))
    (words : Bytes) :
    (unowned overlay).Conforms anyAnswer (wrap words x >>= fun u => pure (f u)).run false
      fun r _ => ReadyAfter overlay r := by
  refine conforms_run_bind.mpr (conforms_touches (all_wrap h words) fun r => ?_)
  match r with
  | .ok () => exact readyAfter_ok hf
  | .error e => exact readyAfter_error e

theorem conforms_populateFile (hs : Ready overlay s)
    (hclear : overlay.shouldSkip clean = false → Clear overlay clean) :
    (unowned overlay).Conforms anyAnswer (populateFile s hdr clean data).run false
      fun r _ => ReadyAfter overlay r := by
  unfold populateFile
  cases hcapture : s.overlay.captureFile clean data with
  | some o =>
    refine readyAfter_ok ⟨fun p => ?_, fun p => ?_, hs.links⟩
    · exact (GuestOverlay.hasKey_captureFile hcapture p).trans (hs.hasKey p)
    · exact (GuestOverlay.shouldSkip_captureFile hcapture p).trans (hs.shouldSkip p)
  | none =>
    dsimp only
    split_ifs with hskip
    · exact readyAfter_ok hs
    · rw [hs.shouldSkip, Bool.not_eq_true] at hskip
      have hc := hclear hskip
      exact conforms_entry (all_writeFile hc.not_owns _ (hc.all_mkdirAbove _))
        ⟨hs.hasKey, hs.shouldSkip, hs.links⟩ _

theorem conforms_populateSymlink (hs : Ready overlay s)
    (hclear : overlay.shouldSkip clean = false → Clear overlay clean) :
    (unowned overlay).Conforms anyAnswer (populateSymlink s hdr clean).run false
      fun r _ => ReadyAfter overlay r := by
  unfold populateSymlink
  split_ifs with hskip
  · exact readyAfter_ok hs
  · rw [hs.shouldSkip, Bool.not_eq_true] at hskip
    have hc := hclear hskip
    exact conforms_entry (all_symlink hc.not_owns (hc.all_mkdirAbove _)) hs _

theorem ready_keepHardlink (hs : Ready overlay s)
    (hclear : overlay.shouldSkip clean = false → Clear overlay clean) :
    Ready overlay (keepHardlink s hdr clean) := by
  unfold keepHardlink
  cases cleanTarPath hdr.linkname with
  | none => exact hs
  | some target =>
    dsimp only
    split_ifs with hskip
    · exact hs
    · rw [hs.shouldSkip, Bool.not_eq_true] at hskip
      refine ⟨hs.hasKey, hs.shouldSkip, fun link hlink => ?_⟩
      rcases List.mem_append.mp hlink with hlink | hlink
      · exact hs.links link hlink
      · rw [List.mem_singleton.mp hlink]
        exact hclear hskip

theorem conforms_populateDirectory (hs : Ready overlay s) :
    (unowned overlay).Conforms anyAnswer (populateDirectory s hdr clean).run true
      fun r _ => ReadyAfter overlay r := by
  have hall : All (Touches fun _ => True) (mkdirAll clean hdr.attributes).run :=
    all_mkdirAll (fun _ _ => trivial) trivial _
  refine conforms_run_bind.mpr (conforms_directory (all_wrap hall _) fun r => ?_)
  match r with
  | .ok () => exact readyAfter_ok hs
  | .error e => exact readyAfter_error e

end Entry

/-- One round. -/
theorem conforms_populateEntry {s : PopulateState} {entry : TarEntry} (hs : Ready overlay s)
    (hname : entry.makesDirectory = false → PlainName overlay entry.name) :
    (unowned overlay).Conforms anyAnswer (populateEntry s entry).run entry.makesDirectory
      fun r _ => ReadyAfter overlay r := by
  unfold populateEntry
  cases hclean : cleanTarPath entry.name with
  | none => exact readyAfter_ok hs
  | some clean =>
    dsimp only
    by_cases hdir : entry.isDir = true
    · have hmakes : entry.makesDirectory = true := by simp [TarHeader.makesDirectory, hdir]
      rw [if_pos hdir, hmakes]
      exact conforms_populateDirectory hs
    · rw [if_neg hdir]
      rw [Bool.not_eq_true] at hdir
      have hclear (hmakes : entry.makesDirectory = false)
          (hskip : overlay.shouldSkip clean = false) :
          Clear overlay clean := clear_of_plainName (hname hmakes) hclean hskip
      cases hflag : entry.typeflag with
      | reg =>
        have hmakes : entry.makesDirectory = false := by
          simp [TarHeader.makesDirectory, hdir, hflag]
        rw [hmakes]
        dsimp only
        cases entry.content with
        | error text => exact readyAfter_error _
        | ok data => exact conforms_populateFile hs (hclear hmakes)
      | dir =>
        have hmakes : entry.makesDirectory = true := by simp [TarHeader.makesDirectory, hflag]
        rw [hmakes]
        exact conforms_populateDirectory hs
      | symlink =>
        have hmakes : entry.makesDirectory = false := by
          simp [TarHeader.makesDirectory, hdir, hflag]
        rw [hmakes]
        exact conforms_populateSymlink hs (hclear hmakes)
      | link =>
        have hmakes : entry.makesDirectory = false := by
          simp [TarHeader.makesDirectory, hdir, hflag]
        rw [hmakes]
        exact readyAfter_ok (ready_keepHardlink hs (hclear hmakes))
      | other => exact readyAfter_ok hs

/-- All rounds.  The second loop starts in the phase after the last entry. -/
theorem conforms_populateEntries {failure : Option Bytes} {s : PopulateState}
    {entries : List TarEntry} {directory : Bool} (hs : Ready overlay s)
    (hnames : ∀ entry ∈ entries, entry.makesDirectory = false → PlainName overlay entry.name) :
    (unowned overlay).Conforms anyAnswer (populateEntries failure s entries).run directory
      fun r l => ReadyAfter overlay r ∧ (∀ s, r = .ok s → l = false) := by
  induction entries generalizing s directory with
  | nil =>
    refine conforms_sect_bind fun _ _ => ⟨Or.inr (by simp [ImageEff.touched]), ?_⟩
    cases failure with
    | none => exact ⟨readyAfter_ok hs, fun _ _ => rfl⟩
    | some text => exact ⟨readyAfter_error _, fun s hs => by cases hs⟩
  | cons entry entries ih =>
    refine conforms_sect_bind fun _ _ => ⟨Or.inr (by simp [ImageEff.touched]), ?_⟩
    refine conforms_run_bind.mpr (conforms_mono ?_
      (conforms_populateEntry hs (hnames entry List.mem_cons_self)))
    intro r l hr
    cases r with
    | ok s' => exact ih (hr s' rfl) fun e he => hnames e (List.mem_cons_of_mem _ he)
    | error e => exact ⟨readyAfter_error e, fun s hs => by cases hs⟩

theorem all_writeHardlinks {artifacts : BootArtifacts} {links : List PendingHardlink}
    (h : ∀ link ∈ links, Clear overlay link.path) :
    All (Touches fun p => ¬ overlay.Owns p) (writeHardlinks artifacts links).run := by
  induction links generalizing artifacts with
  | nil => exact all_run_pure _
  | cons link links ih =>
    have hlink := h link List.mem_cons_self
    refine all_run_bind (all_wrap (all_call (touches_of_untouched rfl rfl)) _) fun data => ?_
    refine all_run_bind (all_wrap
      (all_writeFile hlink.not_owns _ (hlink.all_mkdirAbove _)) _) fun _ => ?_
    exact ih fun l hl => h l (List.mem_cons_of_mem _ hl)

/-- No entry that is not a directory makes `populateRootfs` touch what the overlay
owns. -/
theorem populateRootfs_unowned (overlay : GuestOverlay) (stream : TarStream)
    (hnames : ∀ entry ∈ stream.entries, entry.makesDirectory = false →
      PlainName overlay entry.name) :
    (unowned overlay).Conforms anyAnswer (populateRootfs overlay stream).run false
      fun _ _ => True := by
  have hstart : Ready overlay { overlay := overlay } := ⟨fun _ => rfl, fun _ => rfl, by simp⟩
  refine conforms_run_bind.mpr (conforms_mono ?_ (conforms_populateEntries hstart hnames))
  rintro r l ⟨hready, hl⟩
  cases r with
  | error e => trivial
  | ok s =>
    rw [hl s rfl]
    refine conforms_run_bind.mpr (conforms_touches (all_writeHardlinks (hready s rfl).links) ?_)
    intro r
    cases r with
    | ok artifacts | error e => trivial

/-- Names of tar entries are turned into canonical paths exactly when they do not
start with two slashes, or are rejected anyway.  With such names, only directories
are written where the overlay owns the image. -/
theorem tarNames_sound_iff (name a b : Bytes) (overlay : GuestOverlay) (stream : TarStream) :
    (NameSound name ↔ ¬ Doubled name ∨ (cleanName name).any isMetadata = true) ∧
    (elements a = elements b →
      (cleanTarPath a = cleanTarPath b ↔ (Doubled a ↔ Doubled b) ∨ Refused a ∧ Refused b)) ∧
    ((∀ entry ∈ stream.entries, entry.makesDirectory = false → PlainName overlay entry.name) →
      (unowned overlay).Conforms anyAnswer (populateRootfs overlay stream).run false
        fun _ _ => True) :=
  ⟨nameSound_iff name, cleanTarPath_eq_iff, populateRootfs_unowned overlay stream⟩

/-- An image with a program and a hard link to it. -/
def toolStream : TarStream where
  entries :=
    [⟨⟨bytes "./usr/bin/tool", [], .reg, 0o755, 0, 0, 0, false⟩, .ok [127, 69, 76, 70]⟩,
      ⟨⟨bytes "usr/bin/link", bytes "usr/bin/tool", .link, 0o755, 0, 0, 0, false⟩, .ok []⟩]

theorem tarNames_sound_iff_tool :
    NameSound (bytes "./usr/bin/tool") ∧
      cleanTarPath (bytes "./usr/bin/tool") = cleanTarPath (bytes "/usr/bin/tool") ∧
      (unowned newGuestOverlay).Conforms anyAnswer (populateRootfs newGuestOverlay toolStream).run
        false fun _ _ => True := by
  obtain ⟨hsound, hspellings, hstream⟩ := tarNames_sound_iff (bytes "./usr/bin/tool")
    (bytes "./usr/bin/tool") (bytes "/usr/bin/tool") newGuestOverlay toolStream
  refine ⟨hsound.mpr (by decide), (hspellings (by decide)).mpr (.inl (by decide)), hstream ?_⟩
  rintro entry hentry -
  have hkeys : ∀ entry ∈ toolStream.entries, ¬ Doubled entry.name ∧
      ∀ es ∈ (cleanName entry.name).inits, newGuestOverlay.hasKey (join es) = false := by decide
  refine ⟨(hkeys entry hentry).1, ?_⟩
  rintro ⟨es, es', heq, -, hkey⟩
  rw [(hkeys entry hentry).2 es ((List.mem_inits _ _).mpr ⟨es', heq.symm⟩)] at hkey
  cases hkey

/-- A name with two slashes in front keeps one of them.  The overlay does not know
the path, and owns what it denotes. -/
theorem doubled_passwd_kept :
    cleanTarPath (bytes "//etc/passwd") = some (bytes "/etc/passwd") ∧
      isRooted (bytes "/etc/passwd") = true ∧
      cleanTarPath (bytes "/etc/passwd") = some (bytes "etc/passwd") ∧
      newGuestOverlay.shouldSkip (bytes "/etc/passwd") = false ∧
      newGuestOverlay.Owns (bytes "/etc/passwd") := by
  unfold GuestOverlay.Owns
  decide

end Firedoze.ImageBuilder
