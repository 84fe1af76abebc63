import Firedoze.Manager.Lifecycle

/-!
# The calls of the manager

The operations that make and delete VMs, snapshots and routes, the change of
the settings of a VM, `ReconcileStartup`, the shutdown of the daemon, and
`Op`, the calls that the API, the proxies and the monitors make.  `start` is
the state in which a daemon has just made its manager and a set
of calls is still to be made.
-/

namespace Firedoze

open Conc Conc.Prog

/-! ## VMs and snapshots -/

/-- `store.CreateVM`. -/
def storeCreateVM (params : CreateVMParams) : Go VM :=
  if uuidParses params.name then throw (.msg "vm name must not be UUID-shaped")
  else do
    let u ← db (.insertVM .request params)
    db (.getVM .request u)

/-- The defaults and checks that `CreateVM` and `RestoreSnapshot` share. -/
def completeParams (cfg : Config) (diskBytes : Int) (p : CreateVMParams) :
    Except Err CreateVMParams :=
  let q : CreateVMParams :=
    { p with
      vcpus := if p.vcpus = 0 then cfg.defaultVCPUs else p.vcpus
      memoryMinMiB := if p.memoryMinMiB = 0 then cfg.defaultMemoryMinMiB else p.memoryMinMiB
      memoryMaxMiB := if p.memoryMaxMiB = 0 then cfg.defaultMemoryMaxMiB else p.memoryMaxMiB
      diskBytes := if p.diskBytes = 0 then diskBytes else p.diskBytes
      defaultHTTPPort := if p.defaultHTTPPort = 0 then cfg.defaultHTTPPort else p.defaultHTTPPort
      autoWake := if p.autoWakeSet then p.autoWake else true }
  if q.memoryMinMiB > q.memoryMaxMiB then
    .error (.msg "memory_min_mib must be less than or equal to memory_max_mib")
  else
    match validateMemoryHotplugRange q.memoryMinMiB q.memoryMaxMiB with
    | .error e => .error e
    | .ok _ =>
        if q.idleSleepAfterSeconds < 0 then
          .error (.msg "idle_sleep_after_seconds cannot be negative")
        else .ok q

/-- The address of a new VM: the one asked for, or the next free one. -/
def choosePrivateIP (cfg : Config) (p : CreateVMParams) : Go CreateVMParams :=
  match p.privateIP with
  | some _ => pure p
  | none => do
      let vms ← db (.listVMs .request)
      match nextPrivateIP cfg.subnet vms with
      | .error e => throw e
      | .ok ip => pure { p with privateIP := some ip }

/-- `CreateVM`. -/
def createVM (cfg : Config) (params : CreateVMParams) : Go VM := do
  let routeExists ← db (.routeExists .request params.name)
  if routeExists then throw .alreadyExists
  else
    match completeParams cfg cfg.defaultDiskBytes params with
    | .error e => throw e
    | .ok params => do
        let params ← choosePrivateIP cfg params
        let (rootfsID, kernelID) ←
          sys (.baseImageMetadata cfg.baseRootfsPath cfg.baseKernelPath)
        storeCreateVM { params with baseImageID := rootfsID, kernelID := kernelID }

/-- `RestoreSnapshot` makes a disk larger than its snapshot. -/
def growDisk (cfg : Config) (snapshotSize : Nat) (params : CreateVMParams) : Go Unit :=
  if params.diskBytes > snapshotSize then
    sys (.truncatePath (cfg.diskPath params.name) params.diskBytes)
  else pure ()

/-- The disk of a VM that `RestoreSnapshot` makes. -/
def restoreDisk (cfg : Config) (snapshot : Snapshot) (snapshotSize : Nat)
    (params : CreateVMParams) : Go Unit := do
  sys (.io (.mkdirAll (cfg.vmDir params.name)))
  copyFile (cfg.diskPath params.name) snapshot.diskPath
  growDisk cfg snapshotSize params
  sys (.resizeDiskImage .request (cfg.diskPath params.name))
  sys (.rewriteGuestIdentity .request (cfg.diskPath params.name) params.name)

/-- `RestoreSnapshot`. -/
def restoreSnapshot (cfg : Config) (snapshotName : String) (params : CreateVMParams) : Go VM := do
  if snapshotName = "" then throw (.msg "snapshot name is required")
  else if params.name = "" then throw (.msg "vm name is required")
  else do
    let vmExists ← db (.vmExists .request params.name)
    if vmExists then throw .alreadyExists
    else do
      let routeExists ← db (.routeExists .request params.name)
      if routeExists then throw .alreadyExists
      else do
        let snapshot ← db (.getSnapshot .request snapshotName)
        let size ← sys (.statSize snapshot.diskPath)
        match completeParams cfg size params with
        | .error e => throw e
        | .ok params => do
            let params ← choosePrivateIP cfg params
            restoreDisk cfg snapshot size params
            storeCreateVM
              { params with
                baseImageID := snapshot.baseImageID
                kernelID := snapshot.kernelID
                baseImageMetadata := snapshot.baseImageMetadata }

/-- `DeleteVM` removes the archived disk. -/
def deleteArchivedDisk (vm : VM) : Go Unit :=
  match vm.archivedDiskPath with
  | none => pure ()
  | some archived => removeIfExists archived

/-- `DeleteVM` removes the directory of the VM in cold storage. -/
def deleteColdDir (cfg : Config) (vm : VM) : Go Unit :=
  match cfg.coldVMDir vm.name with
  | none => pure ()
  | some coldDir => sys (.removeAll coldDir)

/-- The files that `DeleteVM` removes. -/
def deleteFiles (cfg : Config) (vm : VM) : Go Unit := do
  sys (.removeAll (cfg.vmDir vm.name))
  deleteArchivedDisk vm
  deleteColdDir cfg vm

/-- `DeleteVM` stops a VM that is running. -/
def stopIfRunning (u : Uuid) : Go Unit := do
  match ← locked (.getRunning u) with
  | none => pure ()
  | some _ => stopVM .request u

/-- `DeleteVM` after its begin.  `vm` is the record read before. -/
def deleteLocked (cfg : Config) (u : Uuid) (vm : VM) : Go Unit := do
  stopIfRunning u
  deleteFiles cfg vm
  db (.deleteRoutesForVM .request u)
  db (.deleteVM .request u)

/-- `DeleteVM`. -/
def deleteVM (cfg : Config) (u : Uuid) : Go Unit := do
  let vm ← db (.getVM .request u)
  beginVMOperationCancelingColdArchive u
  deferred (deleteLocked cfg u vm) (endVMOperation u)

/-- `SaveSnapshot` after its begin.  `vm` is the record read before. -/
def saveLocked (cfg : Config) (name : String) (vm : VM) : Go Unit := do
  let running ← locked (.getRunning vm.uuid)
  if vm.state = .running ∨ running.isSome then throw .running
  else if vm.state ≠ .stopped then throw .notStopped
  else do
    let source ← vmDiskPath cfg vm
    sys (.io (.mkdirAll (cfg.snapshotDir name)))
    copyFile (cfg.snapshotDiskPath name) source
    db (.insertSnapshot .request
      { name := name, sourceVMUUID := some vm.uuid, sourceVM := vm.name,
        diskPath := cfg.snapshotDiskPath name, baseImageID := vm.baseImageID,
        kernelID := vm.kernelID, baseImageMetadata := vm.baseImageMetadata })

/-- `SaveSnapshot`. -/
def saveSnapshot (cfg : Config) (name : String) (u : Uuid) : Go Unit := do
  if name = "" then throw (.msg "snapshot name is required")
  else do
    let snapshotExists ← db (.snapshotExists .request name)
    if snapshotExists then throw (.msg "snapshot already exists")
    else do
      let vm ← db (.getVM .request u)
      beginVMOperationCancelingColdArchive vm.uuid
      deferred (saveLocked cfg name vm) (endVMOperation vm.uuid)

/-- The part of `ImportSnapshot` that fills its directory, and puts it in its
place. -/
def unpackThrough (cfg : Config) (name : String) (bundle : Option Bundle) (tmp : Path) :
    Go Unit := do
  sys (.unpackSnapshotBundle .request bundle (tmp ++ [.name "rootfs.ext4"]))
  sys (.renameDir tmp (cfg.snapshotDir name))

/-- The part of `ImportSnapshot` that records the snapshot.  The directory is
removed when that fails. -/
def recordImport (cfg : Config) (name : String) (bundle : Bundle) : Go Unit := do
  match ← attempt (db (.insertSnapshot .request
      { name := name, sourceVMUUID := none, sourceVM := bundle.sourceVM,
        diskPath := cfg.snapshotDiskPath name, baseImageID := bundle.baseImageID,
        kernelID := bundle.kernelID, baseImageMetadata := bundle.baseImageMetadata })) with
  | .ok _ => pure ()
  | .error e => do
      ignore (sys (.removeAll (cfg.snapshotDir name)))
      match e with
      | .msg _ => throw .alreadyExists
      | e => throw e

/-- `ImportSnapshot`.  `bundle` is what the body of the request holds, with
`none` for a body that is no bundle. -/
def importSnapshot (cfg : Config) (name : String) (bundle : Option Bundle) : Go Unit := do
  if name = "" then throw (.msg "snapshot name is required")
  else do
    let snapshotExists ← db (.snapshotExists .request name)
    if snapshotExists then throw .alreadyExists
    else
      match ← sysDo (.statDir (cfg.snapshotDir name)) with
      | .present => throw .alreadyExists
      | .failed => throw .io
      | .absent => do
          sys (.io (.mkdirAll (cfg.snapshotDir name).dropLast))
          let n ← sys (.mkdirTemp (cfg.snapshotDir name).dropLast)
          match ← attempt (unpackThrough cfg name bundle
              ((cfg.snapshotDir name).dropLast ++ [.temp n])) with
          | .error e => do
              ignore (sys (.removeAll ((cfg.snapshotDir name).dropLast ++ [.temp n])))
              throw e
          | .ok _ =>
              match bundle with
              | none => throw .io
              | some bundle => recordImport cfg name bundle

/-- `DeleteSnapshot`. -/
def deleteSnapshot (cfg : Config) (name : String) : Go Unit := do
  let _ ← db (.getSnapshot .request name)
  sys (.removeAll (cfg.snapshotDir name))
  db (.deleteSnapshot .request name)

/-! ## Settings and routes -/

/-- `UpdateVM`.  The row is read, merged and written back. -/
def updateVM (u : Uuid) (params : UpdateVMParams) : Go VM := do
  if params.defaultHTTPPort.any fun port => decide (port ≤ 0 ∨ 65535 < port) then
    throw (.msg "default_http_port must be between 1 and 65535")
  else if params.idleSleepAfterSeconds.any fun seconds => decide (seconds < 0) then
    throw (.msg "idle_sleep_after_seconds cannot be negative")
  else do
    let vm ← db (.getVM .request u)
    db (.updateSettings .request u (params.merge vm.settings))
    db (.getVM .request u)

/-- `handleCreateRoute` after its checks of the request, with
`store.CreateRoute`. -/
def createRoute (name : String) (u : Uuid) (port : Int) : Go Route := do
  let reserved ← db (.vmExists .request name)
  if reserved then throw .alreadyExists
  else do
    db (.insertRoute .request name u port)
    db (.getRoute .request name)

/-- `store.DeleteRoute`. -/
def deleteRoute (name : String) : Go Unit := db (.deleteRoute .request name)

/-- `ReconcileStartup` marks a VM as lost: whether that failed. -/
def markLost (vm : VM) : Go Bool := do
  if vm.state = .running then
    match ← attempt (db (.setVMState .request vm.uuid .lost)) with
    | .ok _ => pure false
    | .error _ => pure true
  else pure false

/-- The loop of `ReconcileStartup`: whether a VM could not be marked. -/
def reconcileVMs : List VM → Go Bool
  | [] => pure false
  | vm :: vms => do
      ignore (sys (.deleteTap (tapName vm.name)))
      let failed ← markLost vm
      let rest ← reconcileVMs vms
      pure (failed || rest)

/-- `ReconcileStartup`. -/
def reconcileStartup : Go Unit := do
  let vms ← db (.listVMs .request)
  let failed ← reconcileVMs vms
  if failed then throw (.msg "mark lost") else pure ()

/-! ## Shutdown -/

/-- The loop of `SleepRunningVMs`: whether a VM could not be put to sleep. -/
def sleepNames (cfg : Config) : List String → Go Bool
  | [] => pure false
  | name :: names => do
      let r ← attempt do
        let vm ← db (.getVMByName .request name)
        sleepVM cfg vm.uuid
      let rest ← sleepNames cfg names
      pure (!r.isOk || rest)

/-- `SleepRunningVMs`. -/
def sleepRunningVMs (cfg : Config) : Go Unit := do
  let names ← locked .runningVMNames
  let failed ← sleepNames cfg names
  if failed then throw (.msg "sleep") else pure ()

/-- The graceful shutdown of `serveAPI`.  What it logs tells how the sweep
went.  The cancellation of the call is the timeout of `sleepCtx`. -/
def serveAPIShutdown (cfg : Config) : Go Unit := do
  let _ ← locked .runningVMNames
  ignore (sys (.io .writeRestartWakeFile))
  match ← attempt (sleepRunningVMs cfg) with
  | .ok _ => ignore (sys (.io .logSlept))
  | .error _ => ignore (sys (.io .logSleepFailed))
  sys (.io .serverShutdown)

/-! ## Calls -/

/-- A call of the manager. -/
inductive Op
  | startVM (u : Uuid)
  | stopVM (u : Uuid)
  | sleepVM (u : Uuid)
  | rebootVM (u : Uuid)
  | deleteVM (u : Uuid)
  | archiveStoppedVM (u : Uuid) (now : Nat)
  | saveSnapshot (name : String) (u : Uuid)
  | createVM (params : CreateVMParams)
  | restoreSnapshot (snapshotName : String) (params : CreateVMParams)
  | reconcileStartup
  | importSnapshot (name : String) (bundle : Option Bundle)
  | deleteSnapshot (name : String)
  | updateVM (u : Uuid) (params : UpdateVMParams)
  | createRoute (name : String) (u : Uuid) (port : Int)
  | deleteRoute (name : String)
  | serveAPIShutdown
  deriving DecidableEq, Repr

/-- Forget the value that a call returns. -/
def finish {α : Type} (x : Go α) : Prog Eff (Except Err Unit) :=
  x.run.bind fun r => ret (r.map fun _ => ())

/-- The program of a call. -/
def Op.prog (cfg : Config) : Op → Prog Eff (Except Err Unit)
  | .startVM u => finish (Firedoze.startVM cfg u)
  | .stopVM u => finish (Firedoze.stopVM .request u)
  | .sleepVM u => finish (Firedoze.sleepVM cfg u)
  | .rebootVM u => finish (Firedoze.rebootVM cfg u)
  | .deleteVM u => finish (Firedoze.deleteVM cfg u)
  | .archiveStoppedVM u now => finish (Firedoze.archiveStoppedVM cfg u now)
  | .saveSnapshot name u => finish (Firedoze.saveSnapshot cfg name u)
  | .createVM params => finish (Firedoze.createVM cfg params)
  | .restoreSnapshot snapshotName params =>
      finish (Firedoze.restoreSnapshot cfg snapshotName params)
  | .reconcileStartup => finish Firedoze.reconcileStartup
  | .importSnapshot name bundle => finish (Firedoze.importSnapshot cfg name bundle)
  | .deleteSnapshot name => finish (Firedoze.deleteSnapshot cfg name)
  | .updateVM u params => finish (Firedoze.updateVM u params)
  | .createRoute name u port => finish (Firedoze.createRoute name u port)
  | .deleteRoute name => finish (Firedoze.deleteRoute name)
  | .serveAPIShutdown => finish (Firedoze.serveAPIShutdown cfg)

/-- A set of calls: the call that the `n`-th request to the daemon of an
epoch makes, if there is one. -/
abbrev Calls := Nat → Nat → Option Op

/-- The programs of all threads. -/
def threads (cfg : Config) (calls : Calls) : Tid → Prog Eff (Except Err Unit)
  | .call epoch n =>
      match calls epoch n with
      | none => ret (.ok ())
      | some op => op.prog cfg
  | .exit p => finish (exitHandler p)

theorem threads_none {cfg : Config} {calls : Calls} {epoch n : Nat} (h : calls epoch n = none) :
    threads cfg calls (.call epoch n) = ret (.ok ()) := by
  simp only [threads, h]

theorem threads_some {cfg : Config} {calls : Calls} {epoch n : Nat} {op : Op}
    (h : calls epoch n = some op) : threads cfg calls (.call epoch n) = op.prog cfg := by
  simp only [threads, h]

/-- A state of the manager with its calls. -/
abbrev MState := Conc.State Tid World (Except Err Unit) Eff

/-- Who takes a step of the manager. -/
abbrev MLabel := Conc.Label Tid Outcome EnvEvent

/-- The condition that every step of a run meets. -/
def AnyStep : MState → MLabel → Prop := fun _ _ => True

/-- The state before the calls are made. -/
def start (cfg : Config) (calls : Calls) (w : World) : MState := .initial w (threads cfg calls)

/-! ## A small host

The runs on fixed data in the later modules take place on this host. -/

/-- The base image. -/
def Disk.base : Disk where
  origin := "rootfs"
  size := 50
  whole := true
  resized := false
  identity := none
  writes := []

/-- A host with the base images and the given files. -/
def Host.sample (files : List (Path × File)) : Host where
  files p :=
    ((Config.sample.baseRootfsPath, .image .base) ::
      (Config.sample.baseKernelPath, .blob "vmlinux") :: files).lookup p
  gens := fun _ => 0
  nextTemp := 0
  os := fun _ => none
  nextPid := 0
  taps := fun _ => none
  cgroups := fun _ => false
  runs := fun _ => 0
  latest p :=
    match files.lookup p with
    | some (.image d) => some d
    | _ => none

/-- A world with the given rows and files in which the daemon has just made
its manager. -/
def World.sample (rows : List VMRow) (files : List (Path × File)) : World where
  store :=
    { vms := fun u => rows[u]?, nextUuid := rows.length, routes := fun _ => none
      snapshots := fun _ => none }
  mem := .fresh
  host := .sample files
  cancelled := fun _ => false
  epoch := 0
  clock := 0

/-- A process of a VM on that host. -/
def Process.sample (name : String) (u : Uuid) (p : Pid) : Process where
  pid := p
  uuid := u
  name := name
  socketPath := Config.sample.socketPath name
  tapName := Firedoze.tapName name
  cgroupPath := none

/-- The calls of the first daemon. -/
def Calls.ofList (ops : List Op) : Calls := fun epoch n => if epoch = 0 then ops[n]? else none

theorem Calls.mem_of_ofList {ops : List Op} {epoch n : Nat} {op : Op}
    (h : Calls.ofList ops epoch n = some op) : op ∈ ops := by
  unfold Calls.ofList at h
  split at h
  · exact List.mem_of_getElem? h
  · cases h

/-- The steps of a thread that all go well. -/
def steps (t : Tid) (k : Nat) : List MLabel := List.replicate k (.thread t .ok)

end Firedoze
