import Firedoze.Model.World

/-!
# Beginning an operation, and running a process

The programs of `internal/firecracker/manager.go` that the operations on a
VM share: the begin and end functions that guard `vmOps`, the network set-up,
the launch of a Firecracker process with the goroutine that waits for its
exit, and the stop of a process.

A program performs the actions of the Go function in the same order.  An
action is a store call, a critical section of `m.mu`, or a call of the
operating system.  Logging is left out.
-/

namespace Firedoze

open Conc Conc.Prog

/-- A function of the manager that can fail. -/
abbrev Go (α : Type) := ExceptT Err (Prog Eff) α

/-- A call of the store. -/
def db {α : Type} (e : StoreEff (Except Err α)) : Go α := call (.store e)

/-- A critical section, or a wait, that can fail. -/
def guarded {α : Type} (e : MemEff (Except Err α)) : Go α := call (.mem e)

/-- A critical section, or a wait, that cannot fail. -/
def locked {α : Type} (e : MemEff α) : Go α := sect (.mem e)

/-- A call of the operating system. -/
def sys {α : Type} (e : HostEff (Except Err α)) : Go α := call (.host e)

/-- A call of the operating system that cannot fail. -/
def sysDo {α : Type} (e : HostEff α) : Go α := sect (.host e)

/-- `_ = f()`. -/
def ignore {α : Type} (x : Go α) : Go Unit := do
  let _ ← attempt x
  pure ()

/-- A deferred call whose error is dropped. -/
def dropped {α : Type} (x : Go α) : Prog Eff Unit := x.run.bind fun _ => ret ()

/-- `os.Remove`, where a missing file is no error. -/
def removeIfExists (p : Path) : Go Unit := do
  match ← attempt (sys (.remove p)) with
  | .ok _ => pure ()
  | .error .notExist => pure ()
  | .error e => throw e

/-! ## Beginning an operation -/

/-- The retry loop of the two begin functions: `enter` is the critical section
that takes the entry of `vmOps`. -/
def cancelingColdArchive (enter : MemEff BeginAnswer) : Go Unit :=
  forever do
    guarded (.ctxErr .request)
    match ← locked enter with
    | .entered => pure (some ())
    | .busy => throw .alreadyRunning
    | .archiving a => do
        guarded (.awaitDone .request a)
        pure none

/-- `beginVMOperationCancelingColdArchive`. -/
def beginVMOperationCancelingColdArchive (u : Uuid) : Go Unit := cancelingColdArchive (.enterVM u)

/-- `beginStartOperationCancelingColdArchive`. -/
def beginStartOperationCancelingColdArchive (u : Uuid) : Go Unit :=
  cancelingColdArchive (.enterStart u)

/-- `endVMOperation`. -/
def endVMOperation (u : Uuid) : Prog Eff Unit := perform (.mem (.endVMOperation u))

/-- `beginColdArchiveOperation`. -/
def beginColdArchiveOperation (u : Uuid) : Go ArchiveId := do
  guarded (.ctxErr .request)
  match ← locked (.enterArchive u) with
  | none => throw .alreadyRunning
  | some a => pure a

/-- The `end` function that `beginColdArchiveOperation` returns. -/
def endColdArchiveOperation (u : Uuid) (a : ArchiveId) : Prog Eff Unit := do
  perform (.mem (.cancelArchive a))
  perform (.mem (.endArchive u a))

/-! ## The network of a VM -/

/-- `preparedNetwork`. -/
structure PreparedNetwork where
  tapName : String
  plan : NetworkPlan

/-- A step of `prepareNetwork` that takes the TAP device down when it fails. -/
def orDeleteTap (tap : String) (step : IOStep) : Go Unit := do
  match ← attempt (sys (.io step)) with
  | .ok _ => pure ()
  | .error e => do
      ignore (sys (.deleteTap tap))
      throw e

/-- `prepareNetwork`. -/
def prepareNetwork (cfg : Config) (vm : VM) : Go PreparedNetwork :=
  match networkPlan cfg vm with
  | .error e => throw e
  | .ok plan => do
      ignore (sys (.deleteTap (tapName vm.name)))
      sys (.linkAdd (tapName vm.name) vm.uuid)
      orDeleteTap (tapName vm.name) .linkByName
      orDeleteTap (tapName vm.name) .addrReplace
      orDeleteTap (tapName vm.name) .addrReplaceIPv4
      orDeleteTap (tapName vm.name) .linkSetUp
      sys (.io .enableIPv6Forwarding)
      sys (.io .enableIPv4Forwarding)
      pure ⟨tapName vm.name, plan⟩

/-! ## Launch and exit of a process -/

/-- `cgroup.Remove`. -/
def removeCgroupPath (path : Option Uuid) : Go Unit :=
  match path with
  | none => pure ()
  | some u => sys (.removeCgroup u)

/-- `cleanupAfterExit`. -/
def cleanupAfterExit (proc : Process) : Go Unit := do
  ignore (sys (.remove proc.socketPath))
  ignore (removeCgroupPath proc.cgroupPath)
  sys (.deleteTap proc.tapName)

/-- The cgroup that is prepared before the process starts. -/
def prepareCgroupPath (cfg : Config) (u : Uuid) : Go (Option Uuid) :=
  if cfg.cgroups then do
    match ← attempt (sys (.prepareCgroup u)) with
    | .ok _ => pure (some u)
    | .error _ => pure none
  else pure none

/-- The cgroup of a process that was started without one. -/
def attachCgroupPath (cfg : Config) (u : Uuid) (p : Pid) (path : Option Uuid) :
    Go (Option Uuid) :=
  if path.isNone && cfg.cgroups then do
    match ← attempt (sys (.attachCgroup u p)) with
    | .ok _ => pure (some u)
    | .error _ => pure none
  else pure path

/-- `launchProcess`.  `bootDisk` is the disk of the `--config-file`, if there
is one. -/
def launchProcess (cfg : Config) (vm : VM) (netdev : PreparedNetwork) (bootDisk : Option Path) :
    Go Process := do
  sys (.io .openStdout)
  sys (.io .openStderr)
  let prepared ← prepareCgroupPath cfg vm.uuid
  match ← attempt (sys (.cmdStart
      { uuid := vm.uuid, socketPath := cfg.socketPath vm.name, cgroupPath := prepared,
        bootDisk := bootDisk })) with
  | .error e => do
      ignore (removeCgroupPath prepared)
      throw e
  | .ok pid => do
      let cgroupPath ← attachCgroupPath cfg vm.uuid pid prepared
      let proc : Process :=
        { pid := pid, uuid := vm.uuid, name := vm.name, socketPath := cfg.socketPath vm.name,
          tapName := netdev.tapName, cgroupPath := cgroupPath }
      locked (.setRunning proc)
      pure proc

/-- The goroutine of `launchProcess` that waits for the process to exit. -/
def exitHandler (p : Pid) : Go Unit := do
  let proc ← locked (.cmdWait p)
  let finalState ← locked (.getFinalState proc.pid)
  ignore (cleanupAfterExit proc)
  ignore (db (.setVMState .background proc.uuid (finalState.getD .stopped)))
  locked (.deleteRunning proc.uuid)

/-- `waitForProcessExit`. -/
def waitForProcessExit (c : Ctx) (proc : Process) : Go Unit :=
  forever do
    match ← locked (.stillRunning proc) with
    | false => pure (some ())
    | true =>
        match ← locked (.selectWait c) with
        | .deadline => do
            sysDo (.kill proc.pid)
            pure none
        | .tick => pure none
        | .done => throw .canceled

/-- `stopProcess`. -/
def stopProcess (c : Ctx) (proc : Process) (finalState : VMState) : Go Unit := do
  locked (.setFinalState proc.pid finalState)
  sysDo (.kill proc.pid)
  waitForProcessExit c proc
  cleanupAfterExit proc

end Firedoze
