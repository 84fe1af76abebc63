import Firedoze.Manager.Files

/-!
# The base images, and what is recorded of them

`CreateVM` records the hashes of the configured root file system and kernel
in `base_image_id` and `kernel_id`, `SaveSnapshot` and `RestoreSnapshot` copy
them on, and `StartVM` reads the two files again.  `ImageWorld` adds to the
world of the manager what this needs:

* the size and the modification time of the two files, and the cache of
  `baseImageMetadata`, which is keyed by them;
* `replaceRootfs` and `replaceKernel`, the events in which the operator puts
  another file in the place of one of the two;
* a log of the guests that were booted and of the disks that were made, with
  what was read and what was recorded.

The threads run the programs of `Firedoze.Manager.Calls`.  A file stands for
its hash, as in `Disk.origin`.  The initrd is part of the key of the cache and
of no identifier, and nobody replaces it, so it is left out.

`replaced` counts how often the operator has replaced each file.  `recorded`
and `recordedSnapshot` are the counts when the identifiers of a VM or a
snapshot were read from the files, and `reading` those for the identifiers that
a thread has read last.  No action looks at these four.

`lineage` is the monitor for the flow of the identifiers through a program:
what is inserted is what was read last (`lineage_threads`).
-/

namespace Firedoze

open Conc Conc.Prog Conc.Monitor Function

/-! ## The world -/

/-- What `os.Stat` says of a file. -/
structure FileInfo where
  size : Nat
  modTime : Int
  deriving DecidableEq, Repr

/-- The value of `baseImageSignature`: each path with what `os.Stat` says. -/
abbrev Signature := List (Path × FileInfo)

/-- A guest that was booted: the hash of the kernel, and the `kernel_id` of
the VM. -/
structure Boot where
  vm : Uuid
  kernel : Option String
  kernelID : Option String
  deriving DecidableEq, Repr

/-- A disk that was copied from the base image: the hash of the image, and the
`base_image_id` of the VM. -/
structure Provision where
  disk : Path
  rootfs : Option String
  baseImageID : Option String
  deriving DecidableEq, Repr

/-- The world of the manager with the base images. -/
structure ImageWorld where
  world : World
  rootfsInfo : FileInfo
  kernelInfo : FileInfo
  cache : Option (Signature × String × String)
  replaced : Path → Nat
  recorded : Uuid → Option (Path → Nat)
  recordedSnapshot : String → Option (Path → Nat)
  reading : Tid → Option (Path → Nat)
  boots : List Boot
  provisions : List Provision

/-- The hash of a root file system. -/
def File.rootfsHash : File → Option String
  | .image d => some d.origin
  | _ => none

/-- The hash of a kernel. -/
def File.kernelHash : File → Option String
  | .blob id => some id
  | _ => none

namespace ImageWorld

variable (cfg : Config) (w : ImageWorld)

/-- The hash of the configured root file system. -/
def rootfsHash : Option String := (w.world.host.files cfg.baseRootfsPath).bind File.rootfsHash

/-- The hash of the configured kernel. -/
def kernelHash : Option String := (w.world.host.files cfg.baseKernelPath).bind File.kernelHash

/-- The identifiers of the files that are there. -/
def hashes : Option (String × String) :=
  (w.rootfsHash cfg).bind fun rootfs => (w.kernelHash cfg).map fun kernel => (rootfs, kernel)

/-- `baseImageSignature`. -/
def baseImageSignature : Signature :=
  [(cfg.baseRootfsPath, w.rootfsInfo), (cfg.baseKernelPath, w.kernelInfo)]

/-- `baseImageMetadata`, with `applyBaseImageMetadata`: the two hashes, from
the cache when its key is the signature of the files. -/
def baseImageMetadata (t : Tid) : Outcome → Option (Except Err (String × String) × ImageWorld)
  | .ok =>
      match w.hashes cfg with
      | none => none
      | some ids =>
          let w' := { w with reading := update w.reading t (some w.replaced) }
          match w.cache with
          | some (key, cached) =>
              if key = w.baseImageSignature cfg then some (.ok cached, w')
              else some (.ok ids, { w' with cache := some (w.baseImageSignature cfg, ids) })
          | none => some (.ok ids, { w' with cache := some (w.baseImageSignature cfg, ids) })
  | .fail => some (.error .io, w)
  | _ => none

/-- The counts when the identifiers were recorded that the thread now has read
last. -/
def nextReading (t : Tid) : {β : Type} → StoreEff β → β → Option (Path → Nat)
  | _, .getVM _ u, r => if r.isOk then w.recorded u else w.reading t
  | _, .getSnapshot _ name, r => if r.isOk then w.recordedSnapshot name else w.reading t
  | _, _, _ => w.reading t

/-- The world after a call of the store.  A row that is new has the identifiers
that its thread has read last. -/
def noteStore (t : Tid) (w' : World) {β : Type} (e : StoreEff β) (b : β) : ImageWorld :=
  { w with
    world := w'
    reading := update w.reading t (w.nextReading t e b)
    recorded := fun u =>
      if (w'.store.vms u).isNone then none
      else if (w.world.store.vms u).isNone then w.reading t
      else w.recorded u
    recordedSnapshot := fun name =>
      if (w'.store.snapshots name).isNone then none
      else if (w.world.store.snapshots name).isNone then w.reading t
      else w.recordedSnapshot name }

/-- The VM that a disk belongs to. -/
def diskOwner (disk : Path) : Option VM :=
  w.world.store.listVMs.find? fun vm => decide (cfg.diskPath vm.name = disk)

/-- The guest that a call of the host boots. -/
def nextBoots : {β : Type} → HostEff β → β → List Boot
  | _, .cmdStart l, r =>
      if r.isOk && l.bootDisk.isSome then
        ⟨l.uuid, w.kernelHash cfg, (w.world.store.vms l.uuid).map (·.kernelID)⟩ :: w.boots
      else w.boots
  | _, _, _ => w.boots

/-- The disk that a call of the host copies from the base image. -/
def nextProvisions : {β : Type} → HostEff β → β → List Provision
  | _, .copyData _ dst src f, r =>
      if r.isOk && decide (src.path = cfg.baseRootfsPath) then
        ⟨dst.path, if w.world.host.unchanged src f then f.rootfsHash else none,
          (w.diskOwner cfg dst.path).map (·.baseImageID)⟩ :: w.provisions
      else w.provisions
  | _, _, _ => w.provisions

/-- The world after a call of the host. -/
def noteHost (w' : World) {β : Type} (e : HostEff β) (b : β) : ImageWorld :=
  { w with
    world := w'
    boots := w.nextBoots cfg e b
    provisions := w.nextProvisions cfg e b }

end ImageWorld

/-- What a call of the host does. -/
def execImageHost (cfg : Config) (t : Tid) (w : ImageWorld) :
    {β : Type} → HostEff β → Outcome → Option (β × ImageWorld)
  | _, .baseImageMetadata _ _, o =>
      if w.world.current t then w.baseImageMetadata cfg t o else none
  | _, e, o => (exec t w.world (.host e) o).map fun (b, w') => (b, w.noteHost cfg w' e b)

/-- What an action of thread `t` does. -/
def execImage (cfg : Config) (t : Tid) (w : ImageWorld) :
    {β : Type} → Eff β → Outcome → Option (β × ImageWorld)
  | _, .store e, o => (exec t w.world (.store e) o).map fun (b, w') => (b, w.noteStore t w' e b)
  | _, .mem e, o => (exec t w.world (.mem e) o).map fun (b, w') => (b, { w with world := w' })
  | _, .host e, o => execImageHost cfg t w e o

/-- What happens without the manager. -/
inductive ImageEvent
  | manager (v : EnvEvent)
  | replaceRootfs (hash : String) (info : FileInfo)
  | replaceKernel (hash : String) (info : FileInfo)
  deriving DecidableEq, Repr

/-- Another file takes the place of the one that is there. -/
def Host.replaceFile (h : Host) (p : Path) (f : File) : Host :=
  { h with files := update h.files p (some f), gens := update h.gens p (h.gens p + 1) }

/-- The operator replaces the root file system. -/
def ImageWorld.replaceRootfs (cfg : Config) (w : ImageWorld) (hash : String) (info : FileInfo) :
    ImageWorld :=
  { w with
    world := { w.world with
      host := w.world.host.replaceFile cfg.baseRootfsPath
        (.image ⟨hash, info.size, true, false, none, []⟩) }
    rootfsInfo := info
    replaced := update w.replaced cfg.baseRootfsPath (w.replaced cfg.baseRootfsPath + 1) }

/-- The operator replaces the kernel. -/
def ImageWorld.replaceKernel (cfg : Config) (w : ImageWorld) (hash : String) (info : FileInfo) :
    ImageWorld :=
  { w with
    world := { w.world with
      host := w.world.host.replaceFile cfg.baseKernelPath (.blob hash) }
    kernelInfo := info
    replaced := update w.replaced cfg.baseKernelPath (w.replaced cfg.baseKernelPath + 1) }

/-- What an event does.  The cache dies with the daemon. -/
def execImageEnv (cfg : Config) (w : ImageWorld) : ImageEvent → Option ImageWorld
  | .manager v =>
      (execEnv w.world v).map fun w' =>
        { w with world := w', cache := if v = .crash then none else w.cache }
  | .replaceRootfs hash info => some (w.replaceRootfs cfg hash info)
  | .replaceKernel hash info => some (w.replaceKernel cfg hash info)

/-- The manager, its world and the operator. -/
def imageSystem (cfg : Config) : System Tid ImageWorld Outcome ImageEvent Eff where
  exec := fun t w e o => execImage cfg t w e o
  env := fun w v => execImageEnv cfg w v

/-- A state of the manager with the base images. -/
abbrev ImageState := Conc.State Tid ImageWorld (Except Err Unit) Eff

/-- Who takes a step. -/
abbrev ImageLabel := Conc.Label Tid Outcome ImageEvent

/-! ## What an action changes -/

section Exec

variable {cfg : Config} {β : Type} {t : Tid} {w w₁ : ImageWorld} {o : Outcome} {b : β}

theorem execImage_store {e : StoreEff β} (h : execImage cfg t w (.store e) o = some (b, w₁)) :
    ∃ st, execStore w.world t o e = some (b, st) ∧
      w₁ = w.noteStore t { w.world with store := st } e b := by
  obtain ⟨⟨b', w'⟩, he, hw⟩ := Option.map_eq_some_iff.mp h
  cases hw
  obtain ⟨st, hst, rfl⟩ := exec_store he
  exact ⟨st, hst, rfl⟩

theorem execImage_mem {e : MemEff β} (h : execImage cfg t w (.mem e) o = some (b, w₁)) :
    ∃ m, w₁ = { w with world := { w.world with mem := m } } := by
  obtain ⟨⟨b', w'⟩, he, hw⟩ := Option.map_eq_some_iff.mp h
  cases hw
  obtain ⟨m, -, rfl⟩ := exec_mem he
  exact ⟨m, rfl⟩

/-- The call that reads the hashes. -/
def HostEff.readsHashes : {β : Type} → HostEff β → Bool
  | _, .baseImageMetadata _ _ => true
  | _, _ => false

theorem execImage_host {e : HostEff β} (h : execImage cfg t w (.host e) o = some (b, w₁))
    (he : e.readsHashes = false) :
    ∃ hst, execHost w.world t o e = some (b, hst) ∧
      w₁ = w.noteHost cfg { w.world with host := hst } e b := by
  have hmap : (exec t w.world (.host e) o).map (fun (b, w') => (b, w.noteHost cfg w' e b)) =
      some (b, w₁) := by
    cases e with
    | baseImageMetadata r k => cases he
    | _ => exact h
  obtain ⟨⟨b', w'⟩, hexec, hw⟩ := Option.map_eq_some_iff.mp hmap
  cases hw
  obtain ⟨hst, hhost, rfl⟩ := exec_host hexec
  exact ⟨hst, hhost, rfl⟩

/-- The three ways `baseImageMetadata` can go. -/
theorem baseImageMetadata_cases {rootfs kernel : Path} {r : Except Err (String × String)}
    (h : execImage cfg t w (.host (.baseImageMetadata rootfs kernel)) o = some (r, w₁)) :
    (∃ e, r = .error e ∧ w₁ = w) ∨
      ∃ ids, r = .ok ids ∧ ∃ cache,
        w₁ = { w with reading := update w.reading t (some w.replaced), cache := cache } ∧
        ((cache = w.cache ∧ cache = some (w.baseImageSignature cfg, ids)) ∨
          w.hashes cfg = some ids ∧ cache = some (w.baseImageSignature cfg, ids)) := by
  obtain ⟨-, h⟩ := Option.ite_none_right_eq_some.mp h
  cases o with
  | ok =>
    simp only [ImageWorld.baseImageMetadata] at h
    split at h
    · cases h
    · rename_i ids hids
      refine Or.inr ?_
      split at h
      · rename_i key cached hcache
        split at h
        · rename_i hkey
          cases h
          exact ⟨cached, rfl, w.cache, rfl, Or.inl ⟨rfl, by rw [hcache, hkey]⟩⟩
        · cases h
          exact ⟨ids, rfl, _, rfl, Or.inr ⟨hids, rfl⟩⟩
      · cases h
        exact ⟨ids, rfl, _, rfl, Or.inr ⟨hids, rfl⟩⟩
  | fail =>
    cases h
    exact Or.inl ⟨_, rfl, rfl⟩
  | torn | part keep => cases h

end Exec

/-! ## The flow of the identifiers -/

/-- The identifiers that a call of the store answers. -/
def lineageNextStore (l : Option (String × String)) :
    {β : Type} → StoreEff β → β → Option (String × String)
  | _, .getVM _ _, .ok vm => some (vm.baseImageID, vm.kernelID)
  | _, .getVM _ _, .error _ => l
  | _, .getSnapshot _ _, .ok snap => some (snap.baseImageID, snap.kernelID)
  | _, .getSnapshot _ _, .error _ => l
  | _, _, _ => l

/-- The identifiers that a call of the host answers. -/
def lineageNextHost (l : Option (String × String)) :
    {β : Type} → HostEff β → β → Option (String × String)
  | _, .baseImageMetadata _ _, r =>
      match r with
      | .ok ids => some ids
      | .error _ => l
  | _, _, _ => l

/-- The identifiers that a thread has read last. -/
def lineageNext (l : Option (String × String)) :
    {β : Type} → Eff β → β → Option (String × String)
  | _, .store e, b => lineageNextStore l e b
  | _, .mem _, _ => l
  | _, .host e, b => lineageNextHost l e b

/-- What is inserted is what was read last.  A thread that has read nothing
may insert a snapshot from elsewhere. -/
def lineageOk (l : Option (String × String)) : {β : Type} → Eff β → β → Prop
  | _, .store (.insertVM _ params), _ => l = some (params.baseImageID, params.kernelID)
  | _, .store (.insertSnapshot _ snap), _ => l = none ∨ l = some (snap.baseImageID, snap.kernelID)
  | _, _, _ => True

/-- The monitor for the identifiers. -/
def lineage : Monitor Eff (Option (String × String)) where
  start := none
  ok := fun l e b => lineageOk l e b
  next := fun l e b => lineageNext l e b

/-- The action neither reads nor inserts identifiers. -/
def Eff.lineageFree : {β : Type} → Eff β → Prop
  | _, .store (.getVM _ _) => False
  | _, .store (.getSnapshot _ _) => False
  | _, .store (.insertVM _ _) => False
  | _, .store (.insertSnapshot _ _) => False
  | _, .host (.baseImageMetadata _ _) => False
  | _, _ => True

section Programs

variable {cfg : Config} {l : Option (String × String)} {α β : Type} {name : String}
  {p : CreateVMParams}

theorem lineage_of_free {e : Eff β} {b : β} (he : e.lineageFree) :
    lineageOk l e b ∧ lineageNext l e b = l := by
  cases e with
  | store e | host e => cases e <;> first | exact he.elim | exact ⟨trivial, rfl⟩
  | mem e => exact ⟨trivial, rfl⟩

/-- A part that neither reads nor inserts identifiers. -/
theorem lineage_pass {x : Go α} {f : α → Go β} {Q : Except Err β → Option (String × String) → Prop}
    (hx : x.run.All Eff.lineageFree)
    (hf : ∀ a, lineage.Conforms (fun _ _ => True) (f a).run l Q) (herr : ∀ e, Q (.error e) l) :
    lineage.Conforms (fun _ _ => True) (x >>= f).run l Q := by
  refine conforms_skip (· = l) hx rfl ?_ (fun a _ hl => hl ▸ hf a) fun e _ hl => hl ▸ herr e
  rintro β _ e b rfl he -
  exact lineage_of_free he

/-- A program that inserts no VM and no snapshot. -/
theorem lineage_of_uses {p : Prog Eff α} (hp : Uses (fun k => k ≠ .insert ∧ k ≠ .record) p) :
    lineage.Conforms (fun _ _ => True) p l fun _ _ => True := by
  refine conforms_of_all (fun _ => True) hp trivial ?_ fun _ _ _ => trivial
  intro β l e b _ he _
  refine ⟨?_, trivial⟩
  cases e with
  | store e =>
    cases e with
    | insertVM c params => exact absurd rfl he.1
    | insertSnapshot c snap => exact absurd rfl he.2
    | _ => trivial
  | _ => trivial

theorem free_copyFile {dst src : Path} : (copyFile dst src).run.All Eff.lineageFree :=
  all_run_bind (all_call trivial) fun _ =>
    all_run_bind (all_call trivial) fun _ => all_call trivial

theorem free_choosePrivateIP :
    (choosePrivateIP cfg p).run.All Eff.lineageFree := by
  unfold choosePrivateIP
  split
  · trivial
  · refine all_run_bind (all_call trivial) fun vms => ?_
    split <;> trivial

theorem free_restoreDisk {snapshot : Snapshot} {size : Nat} :
    (restoreDisk cfg snapshot size p).run.All Eff.lineageFree := by
  have hgrow : (growDisk cfg size p).run.All Eff.lineageFree := by
    unfold growDisk
    split
    · exact all_call trivial
    · trivial
  exact all_run_bind (all_call trivial) fun _ => all_run_bind free_copyFile fun _ =>
    all_run_bind hgrow fun _ => all_run_bind (all_call trivial) fun _ => all_call trivial

theorem free_vmDiskPath {vm : VM} : (vmDiskPath cfg vm).run.All Eff.lineageFree := by
  unfold vmDiskPath
  refine all_run_bind (all_sect trivial) fun st => ?_
  split
  · trivial
  · trivial
  · split
    · trivial
    · refine all_run_bind (all_sect trivial) fun st => ?_
      split
      · trivial
      · trivial
      · split <;> trivial

theorem free_begin {u : Uuid} :
    (beginVMOperationCancelingColdArchive u).run.All Eff.lineageFree := by
  refine all_forever (all_run_bind (all_call trivial) fun _ =>
    all_run_bind (all_sect trivial) fun answer => ?_)
  split
  · trivial
  · trivial
  · exact all_run_bind (all_call trivial) fun _ => trivial

theorem lineage_storeCreateVM (hl : l = some (p.baseImageID, p.kernelID)) :
    lineage.Conforms (fun _ _ => True) (storeCreateVM p).run l fun _ _ => True := by
  unfold storeCreateVM
  split
  · trivial
  · exact conforms_call_bind
      (fun _ _ => ⟨hl, lineage_of_uses (by grind)⟩) fun _ _ => ⟨hl, trivial⟩

theorem lineage_createVM :
    lineage.Conforms (fun _ _ => True) (createVM cfg p).run l fun _ _ => True := by
  unfold createVM
  refine conforms_call_bind (fun _ _ => ⟨trivial, ?_⟩) fun _ _ => ⟨trivial, trivial⟩
  split
  · trivial
  split
  · trivial
  refine lineage_pass free_choosePrivateIP (fun q => ?_) fun _ => trivial
  exact conforms_call_bind
    (fun ids _ => ⟨trivial, lineage_storeCreateVM rfl⟩) fun _ _ => ⟨trivial, trivial⟩

theorem lineage_restoreSnapshot :
    lineage.Conforms (fun _ _ => True) (restoreSnapshot cfg name p).run l fun _ _ => True := by
  unfold restoreSnapshot
  split
  · trivial
  split
  · trivial
  refine conforms_call_bind (fun _ _ => ⟨trivial, ?_⟩) fun _ _ => ⟨trivial, trivial⟩
  split
  · trivial
  refine conforms_call_bind (fun _ _ => ⟨trivial, ?_⟩) fun _ _ => ⟨trivial, trivial⟩
  split
  · trivial
  refine conforms_call_bind (fun snapshot _ => ⟨trivial, ?_⟩) fun _ _ => ⟨trivial, trivial⟩
  refine conforms_call_bind (fun size _ => ⟨trivial, ?_⟩) fun _ _ => ⟨trivial, trivial⟩
  split
  · trivial
  refine lineage_pass free_choosePrivateIP (fun q => ?_) fun _ => trivial
  exact lineage_pass free_restoreDisk (fun _ => lineage_storeCreateVM rfl) fun _ => trivial

theorem lineage_saveLocked {vm : VM} :
    lineage.Conforms (fun _ _ => True) (saveLocked cfg name vm).run
      (some (vm.baseImageID, vm.kernelID)) fun _ _ => True := by
  unfold saveLocked
  refine conforms_sect_bind fun running _ => ⟨trivial, ?_⟩
  split
  · trivial
  split
  · trivial
  refine lineage_pass free_vmDiskPath (fun source => ?_) fun _ => trivial
  refine lineage_pass (all_call trivial) (fun _ => ?_) fun _ => trivial
  refine lineage_pass free_copyFile (fun _ => ?_) fun _ => trivial
  exact fun _ _ => ⟨Or.inr rfl, trivial⟩

theorem lineage_saveSnapshot {u : Uuid} :
    lineage.Conforms (fun _ _ => True) (saveSnapshot cfg name u).run l fun _ _ => True := by
  unfold saveSnapshot
  split
  · trivial
  refine conforms_call_bind (fun _ _ => ⟨trivial, ?_⟩) fun _ _ => ⟨trivial, trivial⟩
  split
  · trivial
  refine conforms_call_bind (fun vm _ => ⟨trivial, ?_⟩) fun _ _ => ⟨trivial, trivial⟩
  refine lineage_pass free_begin (fun _ => ?_) fun _ => trivial
  refine conforms_deferred.mpr (conforms_mono ?_ lineage_saveLocked)
  exact fun _ _ _ _ _ => ⟨trivial, trivial⟩

/-- A snapshot from elsewhere is recorded by a thread that has read no
identifiers. -/
theorem lineage_recordImport {bundle : Bundle} :
    lineage.Conforms (fun _ _ => True) (recordImport cfg name bundle).run none
      fun _ _ => True := by
  unfold recordImport
  refine conforms_attempt_call_bind fun r _ => ⟨Or.inl rfl, ?_⟩
  split
  · trivial
  · refine lineage_pass (all_run_bind (all_attempt (all_call trivial)) fun _ => trivial)
      (fun _ => ?_) fun _ => trivial
    split <;> trivial

theorem lineage_importSnapshot {bundle : Option Bundle} :
    lineage.Conforms (fun _ _ => True) (importSnapshot cfg name bundle).run none
      fun _ _ => True := by
  unfold importSnapshot
  split
  · trivial
  refine conforms_call_bind (fun _ _ => ⟨trivial, ?_⟩) fun _ _ => ⟨trivial, trivial⟩
  split
  · trivial
  refine conforms_sect_bind fun st _ => ⟨trivial, ?_⟩
  split
  · trivial
  · trivial
  refine lineage_pass (all_call trivial) (fun _ => ?_) fun _ => trivial
  refine lineage_pass (all_call trivial) (fun n => ?_) fun _ => trivial
  have hunpack : ∀ tmp, (attempt (unpackThrough cfg name bundle tmp)).run.All Eff.lineageFree :=
    fun tmp => all_attempt (all_run_bind (all_call trivial) fun _ => all_call trivial)
  refine lineage_pass (hunpack _) (fun r => ?_) fun _ => trivial
  split
  · refine lineage_pass (all_run_bind (all_attempt (all_call trivial)) fun _ => trivial)
      (fun _ => ?_) fun _ => trivial
    trivial
  · split
    · trivial
    · exact lineage_recordImport

theorem lineage_deleteSnapshot :
    lineage.Conforms (fun _ _ => True) (deleteSnapshot cfg name).run l fun _ _ => True := by
  refine conforms_call_bind (fun _ _ => ⟨trivial, ?_⟩) fun _ _ => ⟨trivial, trivial⟩
  refine lineage_pass (all_call trivial) (fun _ => ?_) fun _ => trivial
  exact fun _ _ => ⟨trivial, trivial⟩

/-- Every program inserts the identifiers that it has read last. -/
theorem lineage_threads (cfg : Config) (calls : Calls) (t : Tid) :
    lineage.Conforms (fun _ _ => True) (threads cfg calls t) none fun _ _ => True := by
  refine conforms_threads (M := lineage) (Q := fun _ _ _ => True) (fun p => ?_)
    (fun _ _ => trivial) (fun epoch n op _ => ?_) t
  · exact conforms_finish (lineage_of_uses (by grind))
  · cases op with
    | createVM params => exact conforms_finish lineage_createVM
    | restoreSnapshot name params => exact conforms_finish lineage_restoreSnapshot
    | saveSnapshot name u => exact conforms_finish lineage_saveSnapshot
    | importSnapshot name bundle => exact conforms_finish lineage_importSnapshot
    | deleteSnapshot name => exact conforms_finish lineage_deleteSnapshot
    | _ => exact lineage_of_uses ((uses_op cfg _).mono (by simp [Op.kinds, startKinds]))

end Programs

end Firedoze
