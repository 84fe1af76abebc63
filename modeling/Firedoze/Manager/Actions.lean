import Firedoze.Conc.Monitor
import Firedoze.Manager.Calls

/-!
# Kinds of actions

`Eff.kind` sorts the actions of the manager by the part of the world that
they are about.  `Uses ks p` says that the program `p` only performs actions
of the kinds that satisfy `ks`.  The lemmas of this module say this of the functions that
the operations share, so that a proof about one part of the world passes
over a function that has nothing to do with it.
-/

namespace Firedoze

open Conc Conc.Prog

/-- What an action is about. -/
inductive Kind
  /-- a row of `vms`, or another table, that is read -/
  | read
  /-- the `state` column, with another value than `running` and `sleeping` -/
  | state
  /-- the state `running` -/
  | started
  /-- rows of `vms` that are inserted -/
  | insert
  /-- rows of `snapshots` that are inserted or deleted -/
  | record
  /-- one row of `routes` that is inserted or deleted -/
  | route
  /-- the settings of a VM -/
  | setting
  /-- rows that are deleted -/
  | drop
  /-- a context -/
  | ctx
  /-- `vmOps` and `coldArchives` -/
  | lock
  /-- a read of `running`, a wait, a `FinalState` that is set -/
  | watch
  /-- a look whether a process is still registered -/
  | poll
  /-- a snapshot of the memory, and the state `sleeping` -/
  | sleep
  /-- a process that is killed -/
  | kill
  /-- the wait for an exit, and the `FinalState` read then -/
  | exit
  /-- an entry of `running` that is made -/
  | register
  /-- an entry of `running` that is deleted -/
  | unregister
  /-- files other than snapshots of the memory, and the archived path that is
  cleared -/
  | disk
  /-- the archived path that is set -/
  | archive
  /-- files that get the content of other files -/
  | copy
  /-- files of a whole directory -/
  | purge
  /-- a TAP device that is deleted -/
  | net
  /-- a TAP device that is made -/
  | link
  /-- cgroups -/
  | cgroup
  /-- the start of a process -/
  | spawn
  /-- the API of a process -/
  | api
  /-- a snapshot of the memory that is loaded -/
  | load
  deriving DecidableEq, Repr

/-- The kind of a call of the store. -/
def StoreEff.kind : {β : Type} → StoreEff β → Kind
  | _, .getVM _ _ => .read
  | _, .listVMs _ => .read
  | _, .vmExists _ _ => .read
  | _, .routeExists _ _ => .read
  | _, .insertVM _ _ => .insert
  | _, .setVMState _ _ state =>
      if state = .running then .started else if state = .sleeping then .sleep else .state
  | _, .setVMArchivedDiskPath _ _ path => if path.isSome then .archive else .disk
  | _, .deleteRoutesForVM _ _ => .drop
  | _, .deleteVM _ _ => .drop
  | _, .snapshotExists _ _ => .read
  | _, .getSnapshot _ _ => .read
  | _, .insertSnapshot _ _ => .record
  | _, .deleteSnapshot _ _ => .record
  | _, .getVMByName _ _ => .read
  | _, .getRoute _ _ => .read
  | _, .insertRoute _ _ _ _ => .route
  | _, .deleteRoute _ _ => .route
  | _, .updateSettings _ _ _ => .setting

/-- The kind of a critical section. -/
def MemEff.kind : {β : Type} → MemEff β → Kind
  | _, .ctxErr _ => .ctx
  | _, .enterVM _ => .lock
  | _, .enterStart _ => .lock
  | _, .enterArchive _ => .lock
  | _, .awaitDone _ _ => .ctx
  | _, .endVMOperation _ => .lock
  | _, .cancelArchive _ => .ctx
  | _, .endArchive _ _ => .lock
  | _, .getRunning _ => .watch
  | _, .stillRunning _ => .poll
  | _, .setRunning _ => .register
  | _, .deleteRunning _ => .unregister
  | _, .setFinalState _ state =>
      if state = .running then .started else if state = .sleeping then .sleep else .watch
  | _, .getFinalState _ => .exit
  | _, .cmdWait _ => .exit
  | _, .selectWait _ => .watch
  | _, .runningVMNames => .watch

theorem MemEff.kind_setFinalState (p : Pid) (state : VMState) :
    (MemEff.setFinalState p state).kind = .started ∨ (MemEff.setFinalState p state).kind = .sleep ∨
      (MemEff.setFinalState p state).kind = .watch := by
  cases state <;> simp [MemEff.kind]

theorem StoreEff.kind_setVMState (c : Ctx) (u : Uuid) (state : VMState) :
    (StoreEff.setVMState c u state).kind = .started ∨
      (StoreEff.setVMState c u state).kind = .sleep ∨
      (StoreEff.setVMState c u state).kind = .state := by
  cases state <;> simp [StoreEff.kind]

/-- The kind of a call of the host. -/
def HostEff.kind : {β : Type} → HostEff β → Kind
  | _, .io _ => .disk
  | _, .stat _ => .disk
  | _, .statSize _ => .disk
  | _, .remove _ => .disk
  | _, .removeAll _ => .purge
  | _, .rename _ _ => .copy
  | _, .createTemp _ => .disk
  | _, .statDir _ => .disk
  | _, .mkdirTemp _ => .disk
  | _, .unpackSnapshotBundle _ _ _ => .copy
  | _, .renameDir _ _ => .copy
  | _, .openRead _ => .disk
  | _, .openTrunc _ => .disk
  | _, .openExcl _ => .disk
  | _, .copyData _ _ _ _ => .copy
  | _, .truncate _ _ => .disk
  | _, .truncatePath _ _ => .disk
  | _, .resizeDiskImage _ _ => .disk
  | _, .rewriteGuestIdentity _ _ _ => .disk
  | _, .rewriteGuestNetwork _ _ => .disk
  | _, .baseImageMetadata _ _ => .disk
  | _, .deleteTap _ => .net
  | _, .linkAdd _ _ => .link
  | _, .prepareCgroup _ => .cgroup
  | _, .attachCgroup _ _ => .cgroup
  | _, .removeCgroup _ => .cgroup
  | _, .cmdStart _ => .spawn
  | _, .kill _ => .kill
  | _, .waitForSocket _ _ => .api
  | _, .fcAction _ _ => .api
  | _, .fcPause _ _ => .api
  | _, .fcResume _ _ => .api
  | _, .fcCreateSnapshot _ _ _ _ => .sleep
  | _, .fcLoadSnapshot _ _ _ _ => .load

/-- The kind of an action. -/
def Eff.kind : {β : Type} → Eff β → Kind
  | _, .store e => e.kind
  | _, .mem e => e.kind
  | _, .host e => e.kind

/-- Every action of the program is of one of the kinds. -/
def Uses {α : Type} (ks : Kind → Prop) (p : Prog Eff α) : Prop := p.All fun e => ks e.kind

section Uses

variable {α β : Type} {ks ks' : Kind → Prop}

theorem Uses.mono {p : Prog Eff α} (h : Uses ks p) (hks : ∀ k, ks k → ks' k) : Uses ks' p :=
  All.mono h fun _ he => hks _ he

theorem uses_bind {p : Prog Eff α} {f : α → Prog Eff β} (hp : Uses ks p) (hf : ∀ a, Uses ks (f a)) :
    Uses ks (p.bind f) := all_bind hp hf

theorem uses_pure (a : α) : Uses ks (pure a : Go α).run := trivial

theorem uses_throw (e : Err) : Uses ks (throw e : Go α).run := trivial

theorem uses_run_bind {x : Go α} {f : α → Go β} (hx : Uses ks x.run) (hf : ∀ a, Uses ks (f a).run) :
    Uses ks (x >>= f).run := all_run_bind hx hf

theorem uses_db {e : StoreEff (Except Err α)} (h : ks e.kind) : Uses ks (db e).run := all_call h

theorem uses_guarded {e : MemEff (Except Err α)} (h : ks e.kind) : Uses ks (guarded e).run :=
  all_call h

theorem uses_locked {e : MemEff α} (h : ks e.kind) : Uses ks (locked e).run := all_sect h

theorem uses_sys {e : HostEff (Except Err α)} (h : ks e.kind) : Uses ks (sys e).run := all_call h

theorem uses_sysDo {e : HostEff α} (h : ks e.kind) : Uses ks (sysDo e).run := all_sect h

theorem uses_attempt {x : Go α} (hx : Uses ks x.run) : Uses ks (attempt x).run := all_attempt hx

theorem uses_ignore {x : Go α} (hx : Uses ks x.run) : Uses ks (ignore x).run :=
  uses_run_bind (uses_attempt hx) fun _ => uses_pure ()

theorem uses_dropped {x : Go α} (hx : Uses ks x.run) : Uses ks (dropped x) :=
  uses_bind hx fun _ => trivial

theorem uses_deferred {x : Go α} {fin : Prog Eff Unit} (hx : Uses ks x.run) (hfin : Uses ks fin) :
    Uses ks (deferred x fin).run := all_deferred hx hfin

theorem uses_forever {round : Go (Option α)} (h : Uses ks round.run) :
    Uses ks (forever round).run := all_forever h

end Uses

attribute [grind ←] uses_pure uses_throw uses_run_bind uses_db uses_guarded uses_locked uses_sys
  uses_sysDo uses_attempt uses_ignore uses_dropped uses_deferred uses_forever

attribute [grind =] StoreEff.kind MemEff.kind HostEff.kind

/-! ## The functions that the operations share -/

section Functions

variable {ks : Kind → Prop} {cfg : Config} {vm : VM} {u : Uuid} {c : Ctx} {name : String}
  {proc : Process} {params : CreateVMParams}

@[grind ←]
theorem uses_removeIfExists {p : Path} (hd : ks .disk) : Uses ks (removeIfExists p).run := by
  unfold removeIfExists
  grind

@[grind ←]
theorem uses_copyRegularFile {dst src : Path} (hd : ks .disk) (hcp : ks .copy) :
    Uses ks (copyRegularFile c dst src).run := by
  unfold copyRegularFile
  grind

@[grind ←]
theorem uses_copyFile {dst src : Path} (hd : ks .disk) (hcp : ks .copy) :
    Uses ks (copyFile dst src).run := uses_copyRegularFile hd hcp

@[grind ←]
theorem uses_ensureDisk {path source : Path} {size : Int} (hd : ks .disk) (hcp : ks .copy) :
    Uses ks (ensureDisk path source size).run := by
  unfold ensureDisk
  repeat' first | refine uses_run_bind ?_ fun _ => ?_ | split
  all_goals grind

@[grind ←]
theorem uses_vmDiskPath (hd : ks .disk) : Uses ks (vmDiskPath cfg vm).run := by
  unfold vmDiskPath
  grind

@[grind ←]
theorem uses_restoreColdDisk {cold : Path} (hd : ks .disk) (hcp : ks .copy) :
    Uses ks (restoreColdDisk cfg vm cold).run := by
  unfold restoreColdDisk
  repeat' first | refine uses_run_bind ?_ fun _ => ?_ | refine uses_deferred ?_ ?_
  all_goals grind

@[grind ←]
theorem uses_hydrateColdDisk (hd : ks .disk) (hcp : ks .copy) :
    Uses ks (hydrateColdDisk cfg vm).run := by
  unfold hydrateColdDisk
  grind

@[grind ←]
theorem uses_archiveThrough {a : ArchiveId} {cold tmp : Path} (hd : ks .disk) (hcp : ks .copy)
    (har : ks .archive) (hc : ks .ctx) :
    Uses ks (archiveThrough cfg vm a cold tmp).run := by
  unfold archiveThrough
  grind

@[grind ←]
theorem uses_provisionNew {diskCreated : Bool} (hd : ks .disk) :
    Uses ks (provisionNew cfg vm diskCreated).run := by
  unfold provisionNew
  grind

@[grind ←]
theorem uses_provisionDisk (hd : ks .disk) (hcp : ks .copy) :
    Uses ks (provisionDisk cfg vm).run := by
  unfold provisionDisk
  grind

@[grind ←]
theorem uses_growDisk {size : Nat} (hd : ks .disk) :
    Uses ks (growDisk cfg size params).run := by
  unfold growDisk
  grind

@[grind ←]
theorem uses_restoreDisk {snapshot : Snapshot} {size : Nat} (hd : ks .disk) (hcp : ks .copy) :
    Uses ks (restoreDisk cfg snapshot size params).run := by
  unfold restoreDisk
  grind

@[grind ←]
theorem uses_deleteArchivedDisk (hd : ks .disk) : Uses ks (deleteArchivedDisk vm).run := by
  unfold deleteArchivedDisk
  grind

@[grind ←]
theorem uses_deleteColdDir (hp : ks .purge) : Uses ks (deleteColdDir cfg vm).run := by
  unfold deleteColdDir
  grind

@[grind ←]
theorem uses_deleteFiles (hd : ks .disk) (hp : ks .purge) :
    Uses ks (deleteFiles cfg vm).run := by
  unfold deleteFiles
  grind

@[grind ←]
theorem uses_prepareNetwork (hd : ks .disk) (hn : ks .net) (hl : ks .link) :
    Uses ks (prepareNetwork cfg vm).run := by
  unfold prepareNetwork
  repeat' first | refine uses_run_bind ?_ fun _ => ?_ | split
  all_goals grind

@[grind ←]
theorem uses_removeCgroupPath {path : Option Uuid} (hg : ks .cgroup) :
    Uses ks (removeCgroupPath path).run := by
  unfold removeCgroupPath
  grind

@[grind ←]
theorem uses_cleanupAfterExit (hd : ks .disk) (hg : ks .cgroup) (hn : ks .net) :
    Uses ks (cleanupAfterExit proc).run := by
  unfold cleanupAfterExit
  grind

@[grind ←]
theorem uses_prepareCgroupPath (hg : ks .cgroup) :
    Uses ks (prepareCgroupPath cfg u).run := by
  unfold prepareCgroupPath
  grind

@[grind ←]
theorem uses_attachCgroupPath {p : Pid} {path : Option Uuid} (hg : ks .cgroup) :
    Uses ks (attachCgroupPath cfg u p path).run := by
  unfold attachCgroupPath
  grind

@[grind ←]
theorem uses_waitForProcessExit (hw : ks .watch) (hpl : ks .poll) (hk : ks .kill) :
    Uses ks (waitForProcessExit c proc).run := by
  unfold waitForProcessExit
  refine uses_forever ?_
  repeat' first | refine uses_run_bind ?_ fun _ => ?_ | split
  all_goals grind

@[grind ←]
theorem uses_stopProcess {state : VMState} (hst : state ≠ .running)
    (hsl : state = .sleeping → ks .sleep) (hw : ks .watch) (hpl : ks .poll) (hk : ks .kill)
    (hd : ks .disk) (hg : ks .cgroup) (hn : ks .net) :
    Uses ks (stopProcess c proc state).run := by
  unfold stopProcess
  grind

@[grind ←]
theorem uses_sendCtrlAltDel (hk : ks .kill) (ha : ks .api) :
    Uses ks (sendCtrlAltDel c proc).run := by
  unfold sendCtrlAltDel
  grind

@[grind ←]
theorem uses_stopVM (hr : ks .read) (hw : ks .watch) (hpl : ks .poll) (hk : ks .kill)
    (ha : ks .api) (hd : ks .disk) (hg : ks .cgroup) (hn : ks .net)
    (hs : ks .state) : Uses ks (stopVM c u).run := by
  unfold stopVM
  repeat' first | refine uses_run_bind ?_ fun _ => ?_ | split
  all_goals grind

@[grind ←]
theorem uses_saveMemory (ha : ks .api) (hsl : ks .sleep) :
    Uses ks (saveMemory cfg vm proc).run := by
  unfold saveMemory
  grind

@[grind ←]
theorem uses_sleepVM (hr : ks .read) (hw : ks .watch) (hpl : ks .poll) (hk : ks .kill)
    (ha : ks .api) (hsl : ks .sleep) (hd : ks .disk) (hg : ks .cgroup)
    (hn : ks .net) : Uses ks (sleepVM cfg u).run := by
  unfold sleepVM
  repeat' first | refine uses_run_bind ?_ fun _ => ?_ | split
  all_goals grind

@[grind ←]
theorem uses_orStopProcess {x : Go Unit} (hx : Uses ks x.run) (hw : ks .watch) (hpl : ks .poll)
    (hk : ks .kill) (hd : ks .disk) (hg : ks .cgroup) (hn : ks .net) :
    Uses ks (orStopProcess proc x).run := by
  unfold orStopProcess
  grind

@[grind ←]
theorem uses_orStopVM {x : Go Unit} (hx : Uses ks x.run) (hr : ks .read) (hw : ks .watch)
    (hpl : ks .poll) (hk : ks .kill) (ha : ks .api) (hd : ks .disk)
    (hg : ks .cgroup) (hn : ks .net) (hs : ks .state) : Uses ks (orStopVM u x).run := by
  unfold orStopVM
  grind

@[grind ←]
theorem uses_dropSleep (hp : ks .purge) (hs : ks .state) :
    Uses ks (dropSleep cfg u vm).run := by
  unfold dropSleep
  grind

@[grind ←]
theorem uses_requireFile {p : Path} (hd : ks .disk) : Uses ks (requireFile p).run := by
  unfold requireFile
  grind

@[grind ←]
theorem uses_storeCreateVM (hr : ks .read) (hi : ks .insert) :
    Uses ks (storeCreateVM params).run := by
  unfold storeCreateVM
  grind

@[grind ←]
theorem uses_choosePrivateIP (hr : ks .read) :
    Uses ks (choosePrivateIP cfg params).run := by
  unfold choosePrivateIP
  grind

@[grind ←]
theorem uses_createVM (hr : ks .read) (hd : ks .disk) (hi : ks .insert) :
    Uses ks (createVM cfg params).run := by
  unfold createVM
  grind

@[grind ←]
theorem uses_restoreSnapshot (hr : ks .read) (hd : ks .disk) (hcp : ks .copy) (hi : ks .insert) :
    Uses ks (restoreSnapshot cfg name params).run := by
  unfold restoreSnapshot
  repeat' first | refine uses_run_bind ?_ fun _ => ?_ | split
  all_goals grind

@[grind ←]
theorem uses_stopIfRunning (hr : ks .read) (hw : ks .watch) (hpl : ks .poll) (hk : ks .kill)
    (ha : ks .api) (hd : ks .disk) (hg : ks .cgroup) (hn : ks .net)
    (hs : ks .state) : Uses ks (stopIfRunning u).run := by
  unfold stopIfRunning
  grind

@[grind ←]
theorem uses_markLost (hs : ks .state) : Uses ks (markLost vm).run := by
  unfold markLost
  grind

@[grind ←]
theorem uses_reconcileVMs {vms : List VM} (hn : ks .net) (hs : ks .state) :
    Uses ks (reconcileVMs vms).run := by
  induction vms with
  | nil => exact uses_pure _
  | cons vm vms ih =>
    unfold reconcileVMs
    grind

@[grind ←]
theorem uses_reconcileStartup (hr : ks .read) (hn : ks .net) (hs : ks .state) :
    Uses ks reconcileStartup.run := by
  unfold reconcileStartup
  grind

theorem uses_importSnapshot {bundle : Option Bundle} (hr : ks .read) (hd : ks .disk)
    (hcp : ks .copy) (hp : ks .purge) (hrec : ks .record) :
    Uses ks (importSnapshot cfg name bundle).run := by
  unfold importSnapshot unpackThrough recordImport
  repeat' first
    | refine uses_run_bind ?_ fun _ => ?_
    | refine uses_attempt ?_
    | refine uses_ignore ?_
    | split
  all_goals grind

theorem uses_deleteSnapshot (hr : ks .read) (hp : ks .purge) (hrec : ks .record) :
    Uses ks (deleteSnapshot cfg name).run := by
  unfold deleteSnapshot
  grind

theorem uses_updateVM {params : UpdateVMParams} (hr : ks .read) (hs : ks .setting) :
    Uses ks (updateVM u params).run := by
  unfold updateVM
  grind

theorem uses_createRoute {port : Int} (hr : ks .read) (hrt : ks .route) :
    Uses ks (createRoute name u port).run := by
  unfold createRoute
  grind

theorem uses_deleteRoute (hrt : ks .route) : Uses ks (deleteRoute name).run :=
  uses_db hrt

theorem uses_sleepNames {names : List String} (hr : ks .read) (hw : ks .watch) (hpl : ks .poll)
    (hk : ks .kill) (ha : ks .api) (hsl : ks .sleep) (hd : ks .disk) (hg : ks .cgroup)
    (hn : ks .net) : Uses ks (sleepNames cfg names).run := by
  induction names with
  | nil => exact uses_pure _
  | cons name names ih =>
    unfold sleepNames
    grind

theorem uses_serveAPIShutdown (hr : ks .read) (hw : ks .watch) (hpl : ks .poll) (hk : ks .kill)
    (ha : ks .api) (hsl : ks .sleep) (hd : ks .disk) (hg : ks .cgroup)
    (hn : ks .net) : Uses ks (serveAPIShutdown cfg).run := by
  unfold serveAPIShutdown sleepRunningVMs
  refine uses_run_bind (by grind) fun _ => uses_run_bind (by grind) fun _ => ?_
  refine uses_run_bind (uses_attempt (uses_run_bind (by grind) fun names => ?_)) fun r => ?_
  · exact uses_run_bind (uses_sleepNames hr hw hpl hk ha hsl hd hg hn) fun _ => by grind
  · grind

@[grind ←]
theorem uses_launchProcess {netdev : PreparedNetwork} {bootDisk : Option Path} (hd : ks .disk)
    (hg : ks .cgroup) (hp : ks .spawn) (hr : ks .register) :
    Uses ks (launchProcess cfg vm netdev bootDisk).run := by
  unfold launchProcess
  repeat' first | refine uses_run_bind ?_ fun _ => ?_ | split
  all_goals grind

@[grind ←]
theorem uses_begin {enter : MemEff BeginAnswer} (hc : ks .ctx) (hl : ks enter.kind) :
    Uses ks (cancelingColdArchive enter).run := by
  unfold cancelingColdArchive
  grind

@[grind ←]
theorem uses_endVMOperation (hl : ks .lock) : Uses ks (endVMOperation u) :=
  ⟨hl, fun _ => trivial⟩

@[grind ←]
theorem uses_saveLocked (hw : ks .watch) (hd : ks .disk) (hcp : ks .copy) (hrec : ks .record) :
    Uses ks (saveLocked cfg name vm).run := by
  unfold saveLocked
  repeat' first | refine uses_run_bind ?_ fun _ => ?_ | split
  all_goals grind

@[grind ←]
theorem uses_archiveStopped {a : ArchiveId} {now : Nat} (hr : ks .read) (hw : ks .watch)
    (hd : ks .disk) (hcp : ks .copy) (har : ks .archive) (hc : ks .ctx) :
    Uses ks (archiveStopped cfg u a now).run := by
  unfold archiveStopped
  repeat' first | refine uses_run_bind ?_ fun _ => ?_ | split
  all_goals grind

theorem uses_archiveStoppedVM {now : Nat} (hr : ks .read) (hw : ks .watch) (hd : ks .disk)
    (hcp : ks .copy) (har : ks .archive) (hc : ks .ctx) (hl : ks .lock) :
    Uses ks (archiveStoppedVM cfg u now).run := by
  unfold archiveStoppedVM beginColdArchiveOperation
  split
  swap
  · exact uses_pure _
  refine uses_run_bind ?_ fun a => uses_deferred (by grind) ?_
  · repeat' first | refine uses_run_bind ?_ fun _ => ?_ | split
    all_goals grind
  · exact ⟨hc, fun _ => ⟨hl, fun _ => trivial⟩⟩

theorem uses_saveSnapshot (hr : ks .read) (hw : ks .watch) (hd : ks .disk) (hcp : ks .copy)
    (hrec : ks .record) (hc : ks .ctx) (hl : ks .lock) :
    Uses ks (saveSnapshot cfg name u).run := by
  unfold saveSnapshot beginVMOperationCancelingColdArchive
  repeat' first | refine uses_run_bind ?_ fun _ => ?_ | split
  all_goals grind

theorem uses_deleteLocked (hr : ks .read) (hw : ks .watch) (hpl : ks .poll) (hk : ks .kill)
    (ha : ks .api) (hd : ks .disk) (hp : ks .purge) (hg : ks .cgroup) (hn : ks .net)
    (hs : ks .state) (hx : ks .drop) : Uses ks (deleteLocked cfg u vm).run := by
  unfold deleteLocked
  grind

theorem uses_deleteVM (hr : ks .read) (hw : ks .watch) (hpl : ks .poll) (hk : ks .kill)
    (ha : ks .api) (hd : ks .disk) (hp : ks .purge) (hg : ks .cgroup) (hn : ks .net)
    (hs : ks .state) (hx : ks .drop) (hc : ks .ctx) (hl : ks .lock) :
    Uses ks (deleteVM cfg u).run := by
  unfold deleteVM beginVMOperationCancelingColdArchive
  refine uses_run_bind (by grind) fun vm => uses_run_bind (by grind) fun _ => ?_
  exact uses_deferred (uses_deleteLocked hr hw hpl hk ha hd hp hg hn hs hx) (uses_endVMOperation hl)

/-- The kinds of actions that neither take or give back an entry nor register
a process. -/
@[grind =] def LockFree (k : Kind) : Prop := k ≠ .lock ∧ k ≠ .register

/-! A start registers the process that it has launched for its VM. -/

section Registers

variable {P : {β : Type} → Eff β → Prop} {u : Uuid}
  (hfree : ∀ {β : Type} (e : Eff β), LockFree e.kind → P e)
  (hreg : ∀ pid tap path, P (.mem (.setRunning
    ⟨pid, vm.uuid, vm.name, cfg.socketPath vm.name, tap, path⟩)))
include hfree

theorem all_of_lockFree {α : Type} {p : Prog Eff α} (hp : Uses LockFree p) : p.All P :=
  All.mono hp hfree

include hreg

theorem all_launchProcess {netdev : PreparedNetwork} {bootDisk : Option Path} :
    (launchProcess cfg vm netdev bootDisk).run.All P := by
  unfold launchProcess
  refine all_run_bind (all_of_lockFree hfree (by grind)) fun _ => ?_
  refine all_run_bind (all_of_lockFree hfree (by grind)) fun _ => ?_
  refine all_run_bind (all_of_lockFree hfree (by grind)) fun prepared => ?_
  refine all_run_bind (all_of_lockFree hfree (by grind)) fun r => ?_
  cases r with
  | error e => exact all_of_lockFree hfree (by grind)
  | ok pid =>
    refine all_run_bind (all_of_lockFree hfree (by grind)) fun path => ?_
    exact all_run_bind (all_sect (hreg _ _ _)) fun _ => all_run_pure _

theorem all_resumeVM : (resumeVM cfg vm).run.All P := by
  unfold resumeVM
  refine all_run_bind (all_of_lockFree hfree (by grind)) fun _ => ?_
  refine all_run_bind (all_of_lockFree hfree (by grind)) fun _ => ?_
  refine all_run_bind (all_of_lockFree hfree (by grind)) fun _ => ?_
  refine all_run_bind (all_of_lockFree hfree (by grind)) fun netdev => ?_
  refine all_run_bind (all_of_lockFree hfree (by grind)) fun _ => ?_
  refine all_run_bind (all_attempt (all_launchProcess hfree hreg)) fun r => ?_
  cases r with
  | error e | ok proc => exact all_of_lockFree hfree (by grind)

theorem all_bootVM : (bootVM cfg u vm).run.All P := by
  unfold bootVM
  refine all_run_bind (all_of_lockFree hfree (by grind)) fun _ => ?_
  refine all_run_bind (all_of_lockFree hfree (by grind)) fun netdev => ?_
  refine all_run_bind (all_of_lockFree hfree (by grind)) fun _ => ?_
  refine all_run_bind (all_of_lockFree hfree (by grind)) fun _ => ?_
  exact all_run_bind (all_launchProcess hfree hreg) fun _ => all_of_lockFree hfree (by grind)

end Registers

/-- The kinds of actions of an operation that starts or stops a VM. -/
@[grind =] def RunKind (k : Kind) : Prop :=
  k ≠ .exit ∧ k ≠ .unregister ∧ k ≠ .insert ∧ k ≠ .drop ∧ k ≠ .record ∧ k ≠ .archive ∧
    k ≠ .route ∧ k ≠ .setting

/-- The same without the begin and the end. -/
@[grind =] def BodyKind (k : Kind) : Prop := RunKind k ∧ k ≠ .lock

theorem uses_startLocked : Uses BodyKind (startLocked cfg u).run := by
  have hresume : ∀ vm, Uses BodyKind (resumeVM cfg vm).run := by
    intro vm
    unfold resumeVM
    repeat' first | refine uses_run_bind ?_ fun _ => ?_ | split
    all_goals grind
  have hboot : ∀ vm, Uses BodyKind (bootVM cfg u vm).run := by
    intro vm
    unfold bootVM
    repeat' first | refine uses_run_bind ?_ fun _ => ?_ | split
    all_goals grind
  unfold startLocked
  refine uses_run_bind (by grind) fun vm => ?_
  split
  · exact uses_throw _
  · split
    · exact hresume vm
    · exact hboot vm

theorem uses_startVM : Uses RunKind (startVM cfg u).run := by
  unfold startVM beginStartOperationCancelingColdArchive
  refine uses_run_bind (uses_begin ?_ ?_) fun _ =>
    uses_deferred (uses_startLocked.mono fun _ h => h.1) (uses_endVMOperation ?_)
  all_goals simp [RunKind, MemEff.kind]

theorem uses_rebootVM : Uses RunKind (rebootVM cfg u).run := by
  unfold rebootVM
  refine uses_run_bind (by grind) fun vm => uses_run_bind (by grind) fun r => ?_
  cases r with
  | some proc | none => exact uses_run_bind (by grind) fun _ => uses_startVM

/-- The kinds of actions of a call: all but those of an exit handler. -/
def CallKind (k : Kind) : Prop := k ≠ .exit ∧ k ≠ .unregister

/-- The kinds of actions of a start. -/
def startKinds : List Kind :=
  [.read, .state, .started, .ctx, .lock, .watch, .poll, .sleep, .kill, .register, .disk, .copy,
    .purge, .net, .link, .cgroup, .spawn, .api, .load]

theorem RunKind.mem_startKinds {k : Kind} (h : RunKind k) : k ∈ startKinds := by
  obtain ⟨h₁, h₂, h₃, h₄, h₅, h₆, h₇, h₈⟩ := h
  cases k <;> first | contradiction | simp [startKinds]

/-- The kinds of actions of a call. -/
def Op.kinds : Op → List Kind
  | .startVM _ => startKinds
  | .stopVM _ => [.read, .watch, .poll, .kill, .api, .disk, .cgroup, .net, .state]
  | .sleepVM _ => [.read, .watch, .poll, .kill, .api, .sleep, .disk, .cgroup, .net]
  | .rebootVM _ => startKinds
  | .deleteVM _ =>
      [.read, .watch, .poll, .kill, .api, .disk, .purge, .cgroup, .net, .state, .drop, .ctx, .lock]
  | .archiveStoppedVM _ _ => [.read, .watch, .disk, .copy, .archive, .ctx, .lock]
  | .saveSnapshot _ _ => [.read, .watch, .disk, .copy, .record, .ctx, .lock]
  | .createVM _ => [.read, .disk, .insert]
  | .restoreSnapshot _ _ => [.read, .disk, .copy, .insert]
  | .reconcileStartup => [.read, .net, .state]
  | .importSnapshot _ _ => [.read, .disk, .copy, .purge, .record]
  | .deleteSnapshot _ => [.read, .purge, .record]
  | .updateVM _ _ => [.read, .setting]
  | .createRoute _ _ _ => [.read, .route]
  | .deleteRoute _ => [.route]
  | .serveAPIShutdown => [.read, .watch, .poll, .kill, .api, .sleep, .disk, .cgroup, .net]

/-- A call does what its kinds say. -/
theorem uses_op (cfg : Config) (op : Op) : Uses (· ∈ op.kinds) (op.prog cfg) := by
  have hfinish : ∀ {ks : List Kind} {α : Type} {x : Go α}, Uses (· ∈ ks) x.run →
      Uses (· ∈ ks) (finish x) := fun hx => uses_bind hx fun _ => trivial
  cases op with
  | startVM u => exact hfinish (uses_startVM.mono fun _ => RunKind.mem_startKinds)
  | rebootVM u => exact hfinish (uses_rebootVM.mono fun _ => RunKind.mem_startKinds)
  | stopVM u => exact hfinish (by apply uses_stopVM <;> simp [Op.kinds])
  | sleepVM u => exact hfinish (by apply uses_sleepVM <;> simp [Op.kinds])
  | deleteVM u => exact hfinish (by apply uses_deleteVM <;> simp [Op.kinds])
  | archiveStoppedVM u now => exact hfinish (by apply uses_archiveStoppedVM <;> simp [Op.kinds])
  | saveSnapshot name u => exact hfinish (by apply uses_saveSnapshot <;> simp [Op.kinds])
  | createVM params => exact hfinish (by apply uses_createVM <;> simp [Op.kinds])
  | restoreSnapshot name params => exact hfinish (by apply uses_restoreSnapshot <;> simp [Op.kinds])
  | reconcileStartup => exact hfinish (by apply uses_reconcileStartup <;> simp [Op.kinds])
  | importSnapshot name bundle => exact hfinish (by apply uses_importSnapshot <;> simp [Op.kinds])
  | deleteSnapshot name => exact hfinish (by apply uses_deleteSnapshot <;> simp [Op.kinds])
  | updateVM u params => exact hfinish (by apply uses_updateVM <;> simp [Op.kinds])
  | createRoute name u port => exact hfinish (by apply uses_createRoute <;> simp [Op.kinds])
  | deleteRoute name => exact hfinish (uses_deleteRoute (by simp [Op.kinds]))
  | serveAPIShutdown => exact hfinish (by apply uses_serveAPIShutdown <;> simp [Op.kinds])

/-- A call does nothing that only an exit handler does. -/
theorem uses_call (op : Op) : Uses CallKind (op.prog cfg) :=
  (uses_op cfg op).mono (by cases op <;> simp [Op.kinds, startKinds, CallKind])

/-- The kinds of actions of an exit handler. -/
@[grind =] def ExitKind (k : Kind) : Prop :=
  k = .exit ∨ k = .disk ∨ k = .cgroup ∨ k = .net ∨ k = .state ∨ k = .started ∨ k = .sleep ∨
    k = .unregister

@[grind ←]
theorem uses_exitHandler {p : Pid} (he : ks .exit) (hd : ks .disk) (hg : ks .cgroup)
    (hn : ks .net) (hs : ks .state) (hr : ks .started) (hsl : ks .sleep) (hu : ks .unregister) :
    Uses ks (exitHandler p).run := by
  unfold exitHandler
  grind

theorem uses_exit (p : Pid) : Uses ExitKind (finish (exitHandler p)) :=
  uses_bind (by grind) fun _ => trivial

/-- A call forgets the value that it returns. -/
theorem conforms_finish {L : Type} {M : Monitor Eff L} {can : {β : Type} → Eff β → β → Prop}
    {α : Type} {x : Go α} {l : L} {Q : L → Prop} (hx : M.Conforms can x.run l fun _ l' => Q l') :
    M.Conforms can (finish x) l fun _ l' => Q l' := Monitor.conforms_bind.mpr hx

/-- The program of every thread conforms when those of the calls and of the
exit handlers do. -/
theorem conforms_threads {L : Type} {M : Monitor Eff L} {can : {β : Type} → Eff β → β → Prop}
    {calls : Calls} {Q : Tid → Except Err Unit → L → Prop}
    (hexit : ∀ p, M.Conforms can (finish (exitHandler p)) M.start (Q (.exit p)))
    (hnone : ∀ epoch n, Q (.call epoch n) (.ok ()) M.start)
    (hcall : ∀ epoch n op, calls epoch n = some op →
      M.Conforms can (op.prog cfg) M.start (Q (.call epoch n)))
    (t : Tid) : M.Conforms can (threads cfg calls t) M.start (Q t) := by
  cases t with
  | exit p => exact hexit p
  | call epoch n =>
    cases hop : calls epoch n with
    | none =>
      rw [threads_none hop]
      exact hnone epoch n
    | some op =>
      rw [threads_some hop]
      exact hcall epoch n op hop

end Functions

end Firedoze
