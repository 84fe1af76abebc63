import Firedoze.Model.Types
import Firedoze.Snapshot.RoundTrip

/-!
# What a failed save or import leaves behind

`SaveSnapshot` and `ImportSnapshot` of one call that runs alone, with every
place at which they can fail.  `fails` says which calls of the operating
system and of the store do.  `CreateSnapshot` is two calls of the store: the
insert, and the read of the new row.  A context that is cancelled during the
insert can make the call report an error although the row is there, so
`insertSnapshot` is a failure without the row and `insertReport` one with it.

An import removes what it has made, but not the row.  A save removes nothing.
`leaves_nothing_iff` lists the failures after which something is left.

The function of `Snapshot.Bundle`, where the insert is one step and the
clean-up does not fail, is a case of the one here (`importSnapshot_eq`).
-/

namespace Firedoze.Bundle.Leftovers

open Text Function

/-- The calls that can fail by themselves.  `removeTemp` and `removeDir` are the
calls of `RemoveAll`. -/
inductive SnapshotCall
  | snapshotExists
  | getVM
  | beginVMOperation
  | vmDiskPath
  | stat
  | mkdirAll
  | mkdirTemp
  | copyFile
  | unpack
  | rename
  | insertSnapshot
  | insertReport
  | getSnapshot
  | removeTemp
  | removeDir
  deriving DecidableEq, Repr

/-- The errors of the two calls. -/
inductive SnapshotError
  | msg (text : String)
  | alreadyExists (text : String)
  | running
  | notStopped
  | unique
  | bundle (e : ImportError)
  | failed (call : SnapshotCall)
  deriving DecidableEq, Repr

/-- What `SaveSnapshot` reads of its VM.  `registered` says that the manager has
a process of the VM. -/
structure SourceVM where
  uuid : String
  name : String
  state : VMState
  registered : Bool
  baseImageID : String
  kernelID : String
  baseImageMetadata : Bytes
  disk : Bytes

section Calls

variable (h : ImportHost) (fails : SnapshotCall → Bool)

/-- `Store.CreateSnapshot`. -/
def createSnapshot (row : ImportedSnapshot) :
    Except SnapshotError ImportedSnapshot × ImportHost :=
  if fails .insertSnapshot then (.error (.failed .insertSnapshot), h)
  else if (h.rows row.name).isSome then (.error .unique, h)
  else
    let inserted := { h with rows := update h.rows row.name (some row) }
    if fails .insertReport then (.error (.failed .insertReport), inserted)
    else if fails .getSnapshot then (.error (.failed .getSnapshot), inserted)
    else (.ok row, inserted)

/-! ## Saving -/

/-- `SaveSnapshot` up to the directory. -/
def saveRefusal (name : String) (vm : SourceVM) : Option SnapshotError :=
  if name = "" then some (.msg "snapshot name is required")
  else if vm.uuid = "" then some (.msg "source VM is required")
  else if fails .snapshotExists then some (.failed .snapshotExists)
  else if (h.rows name).isSome then some (.msg "snapshot already exists")
  else if fails .getVM then some (.failed .getVM)
  else if fails .beginVMOperation then some (.failed .beginVMOperation)
  else if vm.state = .running ∨ vm.registered then some .running
  else if vm.state ≠ .stopped then some .notStopped
  else if fails .vmDiskPath then some (.failed .vmDiskPath)
  else if fails .mkdirAll then some (.failed .mkdirAll)
  else none

/-- The row of a saved snapshot. -/
def SourceVM.row (vm : SourceVM) (name : String) : ImportedSnapshot :=
  { name := name, sourceVM := vm.name, baseImageID := vm.baseImageID, kernelID := vm.kernelID,
    baseImageMetadata := vm.baseImageMetadata, disk := name }

/-- `SaveSnapshot`. -/
def saveSnapshot (name : String) (vm : SourceVM) :
    Except SnapshotError ImportedSnapshot × ImportHost :=
  match saveRefusal h fails name vm with
  | some e => (.error e, h)
  | none =>
      -- `MkdirAll` leaves a directory as it is that is there already.
      let made :=
        { h with dirs := update h.dirs name (some ((h.dirs name).getD none)) }
      if fails .copyFile then (.error (.failed .copyFile), made)
      else
        createSnapshot { made with dirs := update made.dirs name (some (some vm.disk)) }
          fails (vm.row name)

/-! ## Importing -/

/-- `ImportSnapshot` up to the temporary directory. -/
def importRefusal (name tmp : String) : Option SnapshotError :=
  if name = "" then some (.msg "snapshot name is required")
  else if fails .snapshotExists then some (.failed .snapshotExists)
  else if (h.rows name).isSome then some (.alreadyExists "snapshot")
  else if fails .stat then some (.failed .stat)
  else if (h.dirs name).isSome then some (.alreadyExists "snapshot directory")
  else if fails .mkdirAll then some (.failed .mkdirAll)
  else if fails .mkdirTemp ∨ '/' ∈ name.toList ∨ (h.dirs tmp).isSome then
    some (.failed .mkdirTemp)
  else none

/-- `unpackSnapshotBundle`, which can also fail by itself. -/
def unpacked (L : Libraries) (stream : Bytes) : Except SnapshotError (Manifest × Bytes) :=
  if fails .unpack then .error (.failed .unpack)
  else
    match unpackSnapshotBundle L stream with
    | .error e => .error (.bundle e)
    | .ok r => .ok r

/-- `RemoveAll` of a directory, whose error is ignored. -/
def removeAll (call : SnapshotCall) (dir : String) : ImportHost :=
  if fails call then h else { h with dirs := update h.dirs dir none }

/-- `ImportSnapshot` after its rename. -/
def recordImport (row : ImportedSnapshot) : Except SnapshotError ImportedSnapshot × ImportHost :=
  match createSnapshot h fails row with
  | (.ok row, h) => (.ok row, h)
  | (.error .unique, h) =>
      (.error (.alreadyExists "snapshot"), removeAll h fails .removeDir row.name)
  | (.error e, h) => (.error e, removeAll h fails .removeDir row.name)

/-- `ImportSnapshot`. -/
def importSnapshot (L : Libraries) (name suffix : String) (stream : Bytes) :
    Except SnapshotError ImportedSnapshot × ImportHost :=
  let tmp := tempDirName name suffix
  match importRefusal h fails name tmp with
  | some e => (.error e, h)
  | none =>
      let made := { h with dirs := update h.dirs tmp (some none) }
      match unpacked fails L stream with
      | .error e => (.error e, removeAll made fails .removeTemp tmp)
      | .ok (m, disk) =>
          let filled :=
            { made with dirs := update made.dirs tmp (some (some disk)) }
          if fails .rename then (.error (.failed .rename), removeAll filled fails .removeTemp tmp)
          else
            recordImport
              { filled with
                dirs := update (update filled.dirs tmp none) name
                  (filled.dirs tmp) }
              fails (m.row name)

end Calls

/-! ## What is left -/

/-- No row, no directory and no temporary directory is there. -/
structure Nothing (h : ImportHost) (name tmp : String) : Prop where
  row : h.rows name = none
  dir : h.dirs name = none
  temp : h.dirs tmp = none

/-- A call that fails leaves nothing. -/
def LeavesNothing (r : Except SnapshotError ImportedSnapshot × ImportHost) (name tmp : String) :
    Prop :=
  ∀ e, r.1 = .error e → Nothing r.2 name tmp

/-- The condition on a save: it is refused before it makes its directory, or
nothing fails after that. -/
def SaveCondition (h : ImportHost) (fails : SnapshotCall → Bool) (name : String) (vm : SourceVM) :
    Prop :=
  saveRefusal h fails name vm ≠ none ∨
    fails .copyFile = false ∧ fails .insertSnapshot = false ∧ fails .insertReport = false ∧
      fails .getSnapshot = false

/-- The condition on an import: it is refused before it makes its directory, or
the clean-up does not fail where it is due, and no error comes after the
insert. -/
def ImportCondition (h : ImportHost) (fails : SnapshotCall → Bool) (L : Libraries)
    (name suffix : String) (stream : Bytes) : Prop :=
  importRefusal h fails name (tempDirName name suffix) ≠ none ∨
    if (unpacked fails L stream).isOk = false ∨ fails .rename then fails .removeTemp = false
    else if fails .insertSnapshot then fails .removeDir = false
    else fails .insertReport = false ∧ fails .getSnapshot = false

section Left

variable {h : ImportHost} {fails : SnapshotCall → Bool} {L : Libraries} {name suffix tmp : String}
  {stream : Bytes} {vm : SourceVM}

theorem tempDirName_ne (name suffix : String) : tempDirName name suffix ≠ name := by
  intro heq
  have hlen := congrArg (fun s => s.toList.length) heq
  simp [tempDirName] at hlen
  omega

/-- A call that is refused leaves everything as it was. -/
theorem leavesNothing_refused {e : SnapshotError} (hfree : Nothing h name tmp) :
    LeavesNothing (.error e, h) name tmp := fun _ _ => hfree

/-- `CreateSnapshot` under a free name. -/
theorem createSnapshot_cases (fails : SnapshotCall → Bool) {row : ImportedSnapshot}
    (hrow : h.rows row.name = none) :
    fails .insertSnapshot = true ∧
        createSnapshot h fails row = (.error (.failed .insertSnapshot), h) ∨
      fails .insertSnapshot = false ∧
        (fails .insertReport = false ∧ fails .getSnapshot = false ∧
            createSnapshot h fails row =
              (.ok row, { h with rows := update h.rows row.name (some row) }) ∨
          (fails .insertReport = true ∨ fails .getSnapshot = true) ∧
            ∃ call, createSnapshot h fails row = (.error (.failed call),
              { h with rows := update h.rows row.name (some row) })) := by
  unfold createSnapshot
  cases hinsert : fails .insertSnapshot <;> cases hreport : fails .insertReport <;>
    cases hget : fails .getSnapshot <;> simp [hrow]

/-- A row that was inserted before an error is left. -/
theorem row_left {row : ImportedSnapshot} {dirs : String → Option (Option Bytes)} :
    ¬Nothing ⟨update h.rows row.name (some row), dirs⟩ row.name tmp := by
  intro hnothing
  have hrow := hnothing.row
  simp at hrow

/-- With the directory in its place, an error of `CreateSnapshot` leaves it. -/
theorem createSnapshot_leaves_iff {row : ImportedSnapshot} (hrow : h.rows row.name = none)
    (hdir : h.dirs row.name ≠ none) :
    LeavesNothing (createSnapshot h fails row) row.name tmp ↔
      fails .insertSnapshot = false ∧ fails .insertReport = false ∧ fails .getSnapshot = false := by
  rcases createSnapshot_cases fails hrow with
    ⟨hinsert, heq⟩ | ⟨hinsert, ⟨hreport, hget, heq⟩ | ⟨hlate, call, heq⟩⟩
  · rw [heq]
    refine iff_of_false (fun hleaves => hdir (hleaves _ rfl).dir) ?_
    simp [hinsert]
  · rw [heq]
    refine iff_of_true ?_ ⟨hinsert, hreport, hget⟩
    intro e he
    cases he
  · rw [heq]
    refine iff_of_false (fun hleaves => row_left (hleaves _ rfl)) ?_
    rcases hlate with hreport | hget
    · simp [hreport]
    · simp [hget]

theorem saveSnapshot_leaves_iff (hfree : Nothing h name tmp) :
    LeavesNothing (saveSnapshot h fails name vm) name tmp ↔ SaveCondition h fails name vm := by
  unfold SaveCondition saveSnapshot
  cases hrefusal : saveRefusal h fails name vm with
  | some e => exact iff_of_true (leavesNothing_refused hfree) (.inl (by simp))
  | none =>
    simp only [ne_eq, not_true_eq_false, false_or]
    by_cases hcopy : fails .copyFile = true
    · rw [if_pos hcopy]
      refine iff_of_false (fun hleaves => ?_) (by simp [hcopy])
      have hdir := (hleaves _ rfl).dir
      simp at hdir
    · rw [if_neg hcopy]
      have hcreate : LeavesNothing (createSnapshot ⟨h.rows, update (update h.dirs
          name (some ((h.dirs name).getD none))) name (some (some vm.disk))⟩ fails (vm.row name))
            (vm.row name).name tmp ↔ _ :=
        createSnapshot_leaves_iff hfree.row (by simp [SourceVM.row])
      have hname : (vm.row name).name = name := rfl
      rw [hname] at hcreate
      simpa [hcopy] using hcreate

/-- What `RemoveAll` of a directory that nothing else needs leaves. -/
theorem removeAll_leaves_iff {call : SnapshotCall} {dir : String} {e : SnapshotError}
    (hrow : h.rows name = none) (hthere : h.dirs dir ≠ none) (hdir : dir = name ∨ dir = tmp)
    (hother : ∀ d, d = name ∨ d = tmp → d ≠ dir → h.dirs d = none) :
    LeavesNothing (.error e, removeAll h fails call dir) name tmp ↔ fails call = false := by
  unfold removeAll
  by_cases hfails : fails call = true
  · rw [if_pos hfails]
    refine iff_of_false (fun hleaves => hthere ?_) (by simp [hfails])
    have hnothing := hleaves _ rfl
    rcases hdir with rfl | rfl
    · exact hnothing.dir
    · exact hnothing.temp
  · rw [if_neg hfails]
    have hgone : ∀ d, d = name ∨ d = tmp → update h.dirs dir none d = none := by
      intro d hd
      by_cases heq : d = dir
      · rw [heq, update_self]
      · rw [update_of_ne heq]
        exact hother d hd heq
    exact iff_of_true (fun _ _ => ⟨hrow, hgone name (.inl rfl), hgone tmp (.inr rfl)⟩)
      (by simpa using hfails)

theorem recordImport_leaves_iff {row : ImportedSnapshot} (hrow : h.rows row.name = none)
    (hdir : h.dirs row.name ≠ none) (htemp : h.dirs tmp = none) :
    LeavesNothing (recordImport h fails row) row.name tmp ↔
      if fails .insertSnapshot then fails .removeDir = false
      else fails .insertReport = false ∧ fails .getSnapshot = false := by
  unfold recordImport
  rcases createSnapshot_cases fails hrow with
    ⟨hinsert, heq⟩ | ⟨hinsert, ⟨hreport, hget, heq⟩ | ⟨hlate, call, heq⟩⟩
  · rw [heq, if_pos hinsert]
    refine removeAll_leaves_iff hrow hdir (.inl rfl) ?_
    rintro d (rfl | rfl) hne
    · exact absurd rfl hne
    · exact htemp
  · rw [heq]
    simp only [hinsert, Bool.false_eq_true, if_false, hreport, hget, and_self, iff_true]
    intro e he
    cases he
  · rw [heq]
    simp only [hinsert, Bool.false_eq_true, if_false]
    refine iff_of_false (fun hleaves => ?_) ?_
    · have hrow := (hleaves _ rfl).row
      unfold removeAll at hrow
      split_ifs at hrow <;> simp at hrow
    · rcases hlate with hreport | hget
      · simp [hreport]
      · simp [hget]

theorem importSnapshot_leaves_iff (hfree : Nothing h name (tempDirName name suffix)) :
    LeavesNothing (importSnapshot h fails L name suffix stream) name (tempDirName name suffix) ↔
      ImportCondition h fails L name suffix stream := by
  unfold ImportCondition importSnapshot
  have hne := tempDirName_ne name suffix
  dsimp only
  cases hrefusal : importRefusal h fails name (tempDirName name suffix) with
  | some e => exact iff_of_true (leavesNothing_refused hfree) (.inl (by simp))
  | none =>
    -- Beside the temporary directory nothing is there until the rename.
    have hother : ∀ v d, d = name ∨ d = tempDirName name suffix → d ≠ tempDirName name suffix →
        update h.dirs (tempDirName name suffix) v d = none := by
      rintro v d (rfl | rfl) hd
      · rw [update_of_ne hd]
        exact hfree.dir
      · exact absurd rfl hd
    simp only [ne_eq, not_true_eq_false, false_or]
    cases hunpacked : unpacked fails L stream with
    | error e =>
      simp only [Except.isOk, Except.toBool, true_or, if_true]
      exact removeAll_leaves_iff hfree.row (by simp) (.inr rfl) (hother _)
    | ok r =>
      obtain ⟨m, disk⟩ := r
      simp only [Except.isOk, Except.toBool, Bool.true_eq_false, false_or]
      by_cases hrename : fails .rename = true
      · rw [if_pos hrename, if_pos hrename]
        exact removeAll_leaves_iff hfree.row (by simp) (.inr rfl) (by simpa using hother _)
      · rw [if_neg hrename, if_neg hrename]
        change LeavesNothing _ (m.row name).name _ ↔ _
        refine recordImport_leaves_iff hfree.row (by simp [Manifest.row]) ?_
        simp [hne]

end Left

/-- A save, or an import, that runs alone under a free name and returns an error
leaves nothing behind, if and only if the failures meet the condition. -/
theorem leaves_nothing_iff (L : Libraries) (h : ImportHost) (fails : SnapshotCall → Bool)
    (name suffix : String) (vm : SourceVM) (stream : Bytes)
    (hfree : Nothing h name (tempDirName name suffix)) :
    (LeavesNothing (saveSnapshot h fails name vm) name (tempDirName name suffix) ↔
        SaveCondition h fails name vm) ∧
      (LeavesNothing (importSnapshot h fails L name suffix stream) name (tempDirName name suffix) ↔
        ImportCondition h fails L name suffix stream) :=
  ⟨saveSnapshot_leaves_iff hfree, importSnapshot_leaves_iff hfree⟩

/-- A host without snapshots. -/
def emptyHost : ImportHost := ⟨fun _ => none, fun _ => none⟩

/-- A VM that can be saved. -/
def stoppedVM : SourceVM := ⟨"0", "web", .stopped, false, "", "6.1", [], [7, 8, 9]⟩

/-- A host with a snapshot. -/
def weeklyHost : ImportHost :=
  ⟨update (fun _ => none) "weekly" (some ⟨"weekly", "web", "", "6.1", [], "weekly"⟩),
    update (fun _ => none) "weekly" (some (some [7]))⟩

/-- A save and an import that fail at their first call of the store, and an import
of a broken bundle beside another snapshot. -/
theorem leaves_nothing_iff_early :
    LeavesNothing (saveSnapshot emptyHost (· == .snapshotExists) "daily" stoppedVM) "daily"
        (tempDirName "daily" "1") ∧
      LeavesNothing (importSnapshot emptyHost (· == .snapshotExists) .plain "daily" "1" []) "daily"
        (tempDirName "daily" "1") ∧
      let broken := importSnapshot weeklyHost (fun _ => false) .plain "daily" "1" [31, 139]
      broken.1 = .error (.bundle (.invalid "read gzip stream")) ∧
        LeavesNothing broken "daily" (tempDirName "daily" "1") := by
  have hiff := leaves_nothing_iff .plain emptyHost (· == .snapshotExists) "daily" "1" stoppedVM []
    ⟨rfl, rfl, rfl⟩
  have hbroken := leaves_nothing_iff .plain weeklyHost (fun _ => false) "daily" "1" stoppedVM
    [31, 139] ⟨by decide, by decide, by decide⟩
  exact ⟨hiff.1.mpr (.inl (by decide)), hiff.2.mpr (.inl (by decide)), rfl,
    hbroken.2.mpr (.inr rfl)⟩

/-- The copy of the disk fails.  The directory stays, and an import under the
name is refused because of it. -/
theorem failed_save_leaves_directory :
    ∃ h, saveSnapshot emptyHost (· == .copyFile) "daily" stoppedVM =
        (.error (.failed .copyFile), h) ∧ h.dirs "daily" = some none ∧
      importRefusal h (fun _ => false) "daily" (tempDirName "daily" "1") =
        some (.alreadyExists "snapshot directory") := by
  refine ⟨{ emptyHost with dirs := update emptyHost.dirs "daily" (some none) }, ?_, ?_, ?_⟩
  · rfl
  · simp
  · decide

/-! ## The function with fewer failures -/

/-- The calls that `Snapshot.Bundle` lets fail. -/
def ImportCall.toCall : ImportCall → SnapshotCall
  | .snapshotExists => .snapshotExists
  | .stat => .stat
  | .mkdirAll => .mkdirAll
  | .mkdirTemp => .mkdirTemp
  | .unpack => .unpack
  | .rename => .rename
  | .createSnapshot => .insertSnapshot

theorem importRefusal_eq_none_iff {h : ImportHost} {fails : SnapshotCall → Bool}
    {name tmp : String} :
    importRefusal h fails name tmp = none ↔
      Bundle.importRefusal h (fun c => fails (ImportCall.toCall c)) name tmp = none := by
  unfold importRefusal Bundle.importRefusal ImportCall.toCall
  dsimp only
  split_ifs <;> simp

/-- Where neither the report of an insert nor the clean-up fails, the two
functions make the same rows and directories and succeed alike. -/
theorem importSnapshot_eq (L : Libraries) (h : ImportHost) (fails : SnapshotCall → Bool)
    (name suffix : String) (stream : Bytes) (hfree : Nothing h name (tempDirName name suffix))
    (hreport : fails .insertReport = false) (hget : fails .getSnapshot = false)
    (htemp : fails .removeTemp = false) (hdir : fails .removeDir = false) :
    (importSnapshot h fails L name suffix stream).2 =
        (Bundle.importSnapshot L h (fun c => fails (ImportCall.toCall c)) name suffix stream).2 ∧
      (importSnapshot h fails L name suffix stream).1.toOption =
        (Bundle.importSnapshot L h (fun c => fails (ImportCall.toCall c)) name suffix
          stream).1.toOption := by
  unfold importSnapshot Bundle.importSnapshot
  dsimp only
  cases hrefusal : importRefusal h fails name (tempDirName name suffix) with
  | some e =>
    cases hrefusal' : Bundle.importRefusal h (fun c => fails (ImportCall.toCall c)) name
        (tempDirName name suffix) with
    | some e' => exact ⟨rfl, rfl⟩
    | none => simp [importRefusal_eq_none_iff.mpr hrefusal'] at hrefusal
  | none =>
    rw [importRefusal_eq_none_iff.mp hrefusal]
    unfold unpacked recordImport createSnapshot removeAll ImportCall.toCall
    have hrow : h.rows name = none := hfree.row
    by_cases hunpack : fails .unpack = true
    · simp [hunpack, htemp, Except.toOption]
    cases unpackSnapshotBundle L stream with
    | error e => simp [hunpack, htemp, Except.toOption]
    | ok r =>
      by_cases hrename : fails .rename = true
      · simp [hunpack, hrename, htemp, Except.toOption]
      by_cases hinsert : fails .insertSnapshot = true
      · simp [hunpack, hrename, hinsert, hdir, Except.toOption, Manifest.row]
      · simp [hunpack, hrename, hinsert, hreport, hget, hrow, Except.toOption, Manifest.row]

end Firedoze.Bundle.Leftovers
