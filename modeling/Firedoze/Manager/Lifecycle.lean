import Firedoze.Manager.Process

/-!
# Disks, and the operations that start and stop a VM

`hydrateColdDisk` and `ArchiveStoppedVM` of `cold_storage.go`, `ensureDisk`,
`vmDiskPath` and the copies of `manager.go`, and the operations `StartVM`,
`StopVM`, `SleepVM` and `RebootVM`.
-/

namespace Firedoze

open Conc Conc.Prog

/-! ## Copies -/

/-- `copyRegularFile`, the value of `m.copyColdFile`, and `copyFile`, which
runs under no context: the destination is truncated or made, then filled. -/
def copyRegularFile (c : Ctx) (dst src : Path) : Go Unit := do
  let (f, inGen) ← sys (.openRead src)
  let outGen ← sys (.openTrunc dst)
  sys (.copyData c ⟨dst, outGen⟩ ⟨src, inGen⟩ f)

/-- `copyFile`. -/
def copyFile (dst src : Path) : Go Unit := copyRegularFile .background dst src

/-- `ensureDisk`: whether the disk was made. -/
def ensureDisk (path source : Path) (size : Int) : Go Bool := do
  match ← sysDo (.stat path) with
  | .present => pure false
  | .failed => throw .io
  | .absent => do
      let (f, inGen) ← sys (.openRead source)
      let outGen ← sys (.openExcl path)
      sys (.copyData .background ⟨path, outGen⟩ ⟨source, inGen⟩ f)
      sys (.truncate ⟨path, outGen⟩ size)
      sys (.io (.closeFile path))
      pure true

/-- `vmDiskPath`. -/
def vmDiskPath (cfg : Config) (vm : VM) : Go Path := do
  match ← sysDo (.stat (cfg.diskPath vm.name)) with
  | .present => pure (cfg.diskPath vm.name)
  | .failed => throw .io
  | .absent =>
      match vm.archivedDiskPath <|> cfg.coldDiskPath vm.name with
      | none => pure (cfg.diskPath vm.name)
      | some cold => do
          match ← sysDo (.stat cold) with
          | .present => pure cold
          | .failed => throw .io
          | .absent =>
              if vm.archivedDiskPath.isSome then throw .notExist
              else pure (cfg.diskPath vm.name)

/-! ## Cold storage -/

/-- The copy back of `hydrateColdDisk`, through the file `tmp`. -/
def restoreThrough (cfg : Config) (vm : VM) (cold tmp : Path) : Go Unit := do
  copyRegularFile .request tmp cold
  sys (.rename tmp (cfg.diskPath vm.name))
  db (.setVMArchivedDiskPath .request vm.uuid none)
  ignore (sys (.remove cold))
  ignore (sys (.remove cold.dropLast))

/-- The part of `hydrateColdDisk` that brings a disk back. -/
def restoreColdDisk (cfg : Config) (vm : VM) (cold : Path) : Go Unit := do
  sys (.io (.mkdirAll (cfg.vmDir vm.name)))
  let n ← sys (.createTemp (cfg.vmDir vm.name))
  sys (.io (.closeFile (cfg.vmDir vm.name ++ [.temp n])))
  deferred (restoreThrough cfg vm cold (cfg.vmDir vm.name ++ [.temp n]))
    (dropped (sys (.remove (cfg.vmDir vm.name ++ [.temp n]))))

/-- `hydrateColdDisk`. -/
def hydrateColdDisk (cfg : Config) (vm : VM) : Go Unit :=
  if cfg.coldDir.isNone && vm.archivedDiskPath.isNone then pure ()
  else do
    match ← sysDo (.stat (cfg.diskPath vm.name)) with
    | .present =>
        match vm.archivedDiskPath with
        | none => pure ()
        | some archived => do
            db (.setVMArchivedDiskPath .request vm.uuid none)
            ignore (sys (.remove archived))
    | .failed => throw .io
    | .absent =>
        match vm.archivedDiskPath <|> cfg.coldDiskPath vm.name with
        | none => pure ()
        | some cold => do
            match ← sysDo (.stat cold) with
            | .absent => if vm.archivedDiskPath.isSome then throw .notExist else pure ()
            | .failed => throw .io
            | .present => restoreColdDisk cfg vm cold

/-- The copy of `ArchiveStoppedVM`, through the file `tmp`. -/
def archiveThrough (cfg : Config) (vm : VM) (a : ArchiveId) (cold tmp : Path) : Go Unit := do
  copyRegularFile (.archive a) tmp (cfg.diskPath vm.name)
  guarded (.ctxErr (.archive a))
  removeIfExists cold
  sys (.rename tmp cold)
  db (.setVMArchivedDiskPath .background vm.uuid (some cold))
  sys (.remove (cfg.diskPath vm.name))

/-- The part of `ArchiveStoppedVM` that moves a disk. -/
def moveToColdStorage (cfg : Config) (vm : VM) (a : ArchiveId) (coldDir : Path) : Go Unit := do
  sys (.io (.mkdirAll coldDir))
  let n ← sys (.createTemp coldDir)
  sys (.io (.closeFile (coldDir ++ [.temp n])))
  deferred (archiveThrough cfg vm a (coldDir ++ [.name "rootfs.ext4"]) (coldDir ++ [.temp n]))
    (dropped (sys (.remove (coldDir ++ [.temp n]))))

/-- `ArchiveStoppedVM` after its begin. -/
def archiveStopped (cfg : Config) (u : Uuid) (a : ArchiveId) (now : Nat) : Go Unit := do
  let vm ← db (.getVM .request u)
  if cfg.shouldArchiveStoppedVM vm now then do
    match ← locked (.getRunning vm.uuid) with
    | some _ => pure ()
    | none => do
        match ← sysDo (.stat (cfg.diskPath vm.name)) with
        | .absent => pure ()
        | .failed => throw .io
        | .present =>
            match cfg.coldVMDir vm.name with
            | none => pure ()
            | some coldDir => moveToColdStorage cfg vm a coldDir
  else pure ()

/-- `ArchiveStoppedVM`. -/
def archiveStoppedVM (cfg : Config) (u : Uuid) (now : Nat) : Go Unit :=
  if cfg.coldStorageEnabled then do
    let a ← beginColdArchiveOperation u
    deferred (archiveStopped cfg u a now) (endColdArchiveOperation u a)
  else pure ()

/-! ## Stop, sleep and start -/

/-- The request of `StopVM` to the guest; a process that does not take it is
killed. -/
def sendCtrlAltDel (c : Ctx) (proc : Process) : Go Unit := do
  match ← attempt (sys (.fcAction c proc.socketPath)) with
  | .ok _ => pure ()
  | .error _ => sysDo (.kill proc.pid)

/-- `StopVM`. -/
def stopVM (c : Ctx) (u : Uuid) : Go Unit := do
  let _ ← db (.getVM c u)
  match ← locked (.getRunning u) with
  | none => db (.setVMState c u .stopped)
  | some proc => do
      sendCtrlAltDel c proc
      waitForProcessExit c proc
      ignore (cleanupAfterExit proc)
      db (.setVMState c u .stopped)

/-- The snapshot of `SleepVM`; a guest that could not be saved goes on. -/
def saveMemory (cfg : Config) (vm : VM) (proc : Process) : Go Unit := do
  match ← attempt (sys (.fcCreateSnapshot .request proc.socketPath
      (cfg.sleepStatePath vm.name) (cfg.sleepMemPath vm.name))) with
  | .ok _ => pure ()
  | .error e => do
      ignore (sys (.fcResume .background proc.socketPath))
      throw e

/-- `SleepVM`. -/
def sleepVM (cfg : Config) (u : Uuid) : Go VM := do
  let vm ← db (.getVM .request u)
  match ← locked (.getRunning u) with
  | none => if vm.state = .sleeping then pure vm else throw .notRunning
  | some proc => do
      sys (.io (.mkdirAll (cfg.sleepDir vm.name)))
      sys (.fcPause .request proc.socketPath)
      saveMemory cfg vm proc
      stopProcess .request proc .sleeping
      db (.setVMState .request u .sleeping)
      db (.getVM .request u)

/-- A step of `resumeVM` that stops the process when it fails. -/
def orStopProcess (proc : Process) (x : Go Unit) : Go Unit := do
  match ← attempt x with
  | .ok _ => pure ()
  | .error e => do
      ignore (stopProcess .background proc .stopped)
      throw e

/-- `os.Stat` of a file that has to be there. -/
def requireFile (p : Path) : Go Unit := do
  match ← sysDo (.stat p) with
  | .present => pure ()
  | .absent => throw .notExist
  | .failed => throw .io

/-- `resumeVM`. -/
def resumeVM (cfg : Config) (vm : VM) : Go VM := do
  requireFile (cfg.sleepStatePath vm.name)
  requireFile (cfg.sleepMemPath vm.name)
  sys (.io (.mkdirAll (cfg.runtimeDir vm.name)))
  let netdev ← prepareNetwork cfg vm
  ignore (sys (.remove (cfg.socketPath vm.name)))
  match ← attempt (launchProcess cfg vm netdev none) with
  | .error e => do
      ignore (sys (.deleteTap netdev.tapName))
      throw e
  | .ok proc => do
      orStopProcess proc (sys (.waitForSocket .request (cfg.socketPath vm.name)))
      orStopProcess proc (sys (.fcLoadSnapshot .request (cfg.socketPath vm.name)
        (cfg.sleepStatePath vm.name) (cfg.sleepMemPath vm.name)))
      db (.setVMState .request vm.uuid .running)
      db (.getVM .request vm.uuid)

/-- The changes that `StartVM` makes to a disk it has just copied. -/
def provisionNew (cfg : Config) (vm : VM) (diskCreated : Bool) : Go Unit :=
  if diskCreated then do
    sys (.resizeDiskImage .request (cfg.diskPath vm.name))
    sys (.rewriteGuestIdentity .request (cfg.diskPath vm.name) vm.name)
  else pure ()

/-- The part of `StartVM` that makes the disk ready. -/
def provisionDisk (cfg : Config) (vm : VM) : Go Unit := do
  hydrateColdDisk cfg vm
  sys (.io (.mkdirAll (cfg.vmDir vm.name)))
  sys (.io (.mkdirAll (cfg.runtimeDir vm.name)))
  let diskCreated ← ensureDisk (cfg.diskPath vm.name) cfg.baseRootfsPath vm.diskBytes
  provisionNew cfg vm diskCreated
  sys (.rewriteGuestNetwork .request (cfg.diskPath vm.name))

/-- A step of `StartVM` that stops the VM when it fails. -/
def orStopVM (u : Uuid) (x : Go Unit) : Go Unit := do
  match ← attempt x with
  | .ok _ => pure ()
  | .error e => do
      ignore (stopVM .background u)
      throw e

/-- The part of `StartVM` that boots a VM that is not sleeping. -/
def bootVM (cfg : Config) (u : Uuid) (vm : VM) : Go VM := do
  provisionDisk cfg vm
  let netdev ← prepareNetwork cfg vm
  sys (.io (.writeConfig (cfg.configPath vm.name)))
  ignore (sys (.remove (cfg.socketPath vm.name)))
  let _ ← launchProcess cfg vm netdev (some (cfg.diskPath vm.name))
  orStopVM u (sys (.waitForSocket .request (cfg.socketPath vm.name)))
  db (.setVMState .request u .running)
  db (.getVM .request u)

/-- `StartVM` after its begin. -/
def startLocked (cfg : Config) (u : Uuid) : Go VM := do
  let vm ← db (.getVM .request u)
  match memoryConfigForHost cfg vm with
  | .error e => throw e
  | .ok _ => if vm.state = .sleeping then resumeVM cfg vm else bootVM cfg u vm

/-- `StartVM`. -/
def startVM (cfg : Config) (u : Uuid) : Go VM := do
  beginStartOperationCancelingColdArchive u
  deferred (startLocked cfg u) (endVMOperation u)

/-- `RebootVM` drops the snapshot of a VM that is sleeping. -/
def dropSleep (cfg : Config) (u : Uuid) (vm : VM) : Go Unit :=
  if vm.state = .sleeping then do
    sys (.removeAll (cfg.sleepDir vm.name))
    db (.setVMState .request u .stopped)
  else pure ()

/-- `RebootVM`. -/
def rebootVM (cfg : Config) (u : Uuid) : Go VM := do
  let vm ← db (.getVM .request u)
  match ← locked (.getRunning u) with
  | some _ => do
      stopVM .request u
      startVM cfg u
  | none => do
      dropSleep cfg u vm
      startVM cfg u

end Firedoze
