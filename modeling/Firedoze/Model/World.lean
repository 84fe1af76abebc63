import Firedoze.Conc.System
import Firedoze.Model.Network
import Mathlib.Data.List.Sort

/-!
# The world the manager acts on

The world has three parts, and every atomic action changes one of them.

* `Store` holds the tables of the SQLite store.  A store call is one
  transaction, and the store has one connection, so it is one step.
* `Mem` holds the fields of `Manager` that `m.mu` guards, together with the
  channels and contexts reached through them.
* `Host` holds the files, the Firecracker processes, the TAP devices and
  the cgroups.

`StoreEff`, `MemEff` and `HostEff` are the actions on the three parts.  An
`Outcome` says how an action goes.  `ok` is success.  `fail` is an error
that changed nothing.  `torn` is an error after the change was made, or
after a part of it was made.  `part keep` is an error of `os.RemoveAll` that
left the files that `keep` names.

A context is done when it is cancelled.  A call under a context that is done
cannot succeed.  Each call of the API has its own request context.

A daemon that dies loses `Mem` and its threads, but not its Firecracker
processes: nothing in `cgroup.Command` ties them to the daemon, and the unit
file sets `KillMode=process`.  The epoch counts the daemons.  A thread of an
earlier epoch takes no step.
-/

namespace Firedoze

open Function (update)

/-- A thread: the `n`-th call of the daemon of the given epoch, or the
goroutine that waits for the process `p` to exit. -/
inductive Tid
  | call (epoch n : Nat)
  | exit (p : Pid)
  deriving DecidableEq, Repr

/-- The context a call runs under: that of the request, one that is never
cancelled, or that of an archive operation, which is derived from that of
the request. -/
inductive Ctx
  | request
  | background
  | archive (a : ArchiveId)
  deriving DecidableEq, Repr

/-- How an action goes. -/
inductive Outcome
  | ok
  | fail
  | torn
  | part (keep : Path → Bool)

/-! ## The three parts -/

/-- The tables `vms`, `routes` and `snapshots`. -/
structure Store where
  vms : Uuid → Option VMRow
  nextUuid : Uuid
  routes : String → Option Route
  snapshots : String → Option Snapshot

/-- `Process`, without `FinalState`, which changes. -/
structure Process where
  pid : Pid
  uuid : Uuid
  name : String
  socketPath : Path
  tapName : String
  cgroupPath : Option Uuid
  deriving DecidableEq, Repr

/-- The state of the manager.  `finalState` is the field of `Process`, with
`none` for the empty string.  `watched` holds the process of each goroutine
that `launchProcess` has started to wait for an exit.  `doneCloses` counts
how often the `done` channel of an archive was closed. -/
structure Mem where
  running : Uuid → Option Process
  vmOps : Uuid → Bool
  coldArchives : Uuid → Option ArchiveId
  nextArchive : ArchiveId
  archiveCancelled : ArchiveId → Bool
  doneCloses : ArchiveId → Nat
  finalState : Pid → Option VMState
  watched : Pid → Option Process

/-- The content of a disk image.  `origin` is the hash of the image it was
copied from, `whole` says that no byte of that image was cut off, `identity`
is the name that `rewriteGuestIdentity` has written, and `writes` are the
later changes in place, the last one first. -/
structure Disk where
  origin : String
  size : Nat
  whole : Bool
  resized : Bool
  identity : Option String
  writes : List Nat
  deriving DecidableEq, Repr

/-- A snapshot bundle: the fields of its manifest that `ImportSnapshot` reads,
and its disk. -/
structure Bundle where
  sourceVM : String
  baseImageID : String
  kernelID : String
  baseImageMetadata : String
  disk : Disk
  deriving DecidableEq, Repr

/-- A memory snapshot: the disk of its VM, and how many times a guest had
started to run on that disk when the snapshot was made. -/
structure MemoryImage where
  disk : Path
  runs : Nat
  deriving DecidableEq, Repr

/-- The content of a file. -/
inductive File
  | image (d : Disk)
  | incomplete
  | memory (m : MemoryImage)
  | vmstate
  | socket (p : Pid)
  | blob (id : String)
  deriving DecidableEq, Repr

/-- An open file: the path it was opened at, and how often the path had
changed its file by then.  A handle whose path has changed its file since
leads to a file that no path leads to. -/
structure Handle where
  path : Path
  gen : Nat
  deriving DecidableEq, Repr

/-- What the guest of a Firecracker process does. -/
inductive Guest
  | fresh
  | running
  | paused
  deriving DecidableEq, Repr

/-- A Firecracker process.  `disk` is the path of its disk, with the number
of times the path had changed its file when the process opened it. -/
structure OSProc where
  epoch : Nat
  uuid : Uuid
  socketPath : Path
  alive : Bool
  bound : Bool
  guest : Guest
  disk : Option (Path × Nat)
  cgroup : Option Uuid
  deriving DecidableEq, Repr

/-- The host.  `gens` counts how often a path was unlinked or renamed over,
`runs` counts how often a guest started to run on a disk, and `latest` is
the content that was last written in place to the disk of a path. -/
structure Host where
  files : Path → Option File
  gens : Path → Nat
  nextTemp : Nat
  os : Pid → Option OSProc
  nextPid : Pid
  taps : String → Option Uuid
  cgroups : Uuid → Bool
  runs : Path → Nat
  latest : Path → Option Disk

/-- The world. -/
structure World where
  store : Store
  mem : Mem
  host : Host
  cancelled : Tid → Bool
  epoch : Nat
  clock : Nat

/-! ## Operations on the store -/

/-- `SetVMState`: the columns that the update sets. -/
def VMRow.withState (r : VMRow) (state : VMState) (now : Nat) : VMRow :=
  { r with
    state := state
    lastStartedAt := if state = .running then some now else r.lastStartedAt
    lastActivityAt := if state = .running then some now else r.lastActivityAt
    stoppedAt := if state = .stopped then some now else none }

/-- `UpdateVM`: the columns that the update sets. -/
def VMRow.withSettings (r : VMRow) (settings : VMSettings) : VMRow :=
  { r with
    defaultHTTPPort := settings.defaultHTTPPort
    idleSleepAfterSeconds := settings.idleSleepAfterSeconds
    autoWake := settings.autoWake
    publicHTTP := settings.publicHTTP }

namespace Store

variable (s : Store)

/-- `GetVM`. -/
def getVM (u : Uuid) : Except Err VM :=
  match s.vms u with
  | none => .error .notFound
  | some r => .ok ⟨r, u⟩

/-- The row with the given name, and its key. -/
def findVM (name : String) : Option VM :=
  (List.range s.nextUuid).findSome? fun u =>
    (s.vms u).bind fun r => if r.name = name then some ⟨r, u⟩ else none

/-- `GetVMByName`. -/
def getVMByName (name : String) : Except Err VM :=
  match s.findVM name with
  | none => .error .notFound
  | some vm => .ok vm

/-- `ListVMs`, ordered by name. -/
def listVMs : List VM :=
  ((List.range s.nextUuid).filterMap fun u => (s.vms u).map fun r => (⟨r, u⟩ : VM)).insertionSort
    fun a b => a.name ≤ b.name

/-- `VMExists`. -/
def vmExists (name : String) : Bool :=
  (List.range s.nextUuid).any fun u => (s.vms u).any fun r => r.name == name

/-- `RouteExists`. -/
def routeExists (name : String) : Bool := (s.routes name).isSome

/-- `GetRoute`, which joins the row of the VM. -/
def getRoute (name : String) : Except Err Route :=
  match s.routes name with
  | none => .error .notFound
  | some r => if (s.vms r.vmUUID).isSome then .ok r else .error .notFound

/-- The row that `CreateVM` inserts. -/
def newRow (p : CreateVMParams) (now : Nat) : VMRow where
  name := p.name
  state := .stopped
  privateIP := p.privateIP
  vcpus := p.vcpus
  memoryMinMiB := p.memoryMinMiB
  memoryMaxMiB := p.memoryMaxMiB
  diskBytes := p.diskBytes
  defaultHTTPPort := p.defaultHTTPPort
  idleSleepAfterSeconds := p.idleSleepAfterSeconds
  lastStartedAt := none
  lastActivityAt := none
  stoppedAt := some now
  archivedDiskPath := none
  baseImageID := p.baseImageID
  kernelID := p.kernelID
  baseImageMetadata := p.baseImageMetadata
  autoWake := p.autoWake
  publicHTTP := p.publicHTTP

/-- The transaction of `CreateVM`.  The `name` column is unique. -/
def insertVM (p : CreateVMParams) (now : Nat) : Except Err (Uuid × Store) :=
  if s.routeExists p.name then .error .alreadyExists
  else if s.vmExists p.name then .error (.msg "UNIQUE constraint failed: vms.name")
  else .ok (s.nextUuid,
    { s with vms := update s.vms s.nextUuid (some (newRow p now)), nextUuid := s.nextUuid + 1 })

/-- An update of one row of `vms`. -/
def updateVM (u : Uuid) (f : VMRow → VMRow) : Except Err (Unit × Store) :=
  match s.vms u with
  | none => .error .notFound
  | some r => .ok ((), { s with vms := update s.vms u (some (f r)) })

/-- The routes that do not point to the VM. -/
def routesWithout (u : Uuid) (name : String) : Option Route :=
  (s.routes name).filter fun r => decide (r.vmUUID ≠ u)

/-- `DeleteVM`; the foreign key of `routes` cascades. -/
def deleteVM (u : Uuid) : Except Err (Unit × Store) :=
  match s.vms u with
  | none => .error .notFound
  | some _ => .ok ((), { s with vms := update s.vms u none, routes := s.routesWithout u })

/-- The transaction of `CreateRoute`.  The `name` column is the key, and the
`port` column has a check. -/
def insertRoute (name : String) (u : Uuid) (port : Int) : Except Err (Unit × Store) :=
  if s.vmExists name then .error .alreadyExists
  else if (s.vms u).isNone then .error .notFound
  else if s.routeExists name then .error (.msg "UNIQUE constraint failed: routes.name")
  else if port < 1 ∨ 65535 < port then
    .error (.msg "CHECK constraint failed: port between 1 and 65535")
  else .ok ((), { s with routes := update s.routes name (some ⟨u, port, false⟩) })

/-- `DeleteRoute`. -/
def deleteRoute (name : String) : Except Err (Unit × Store) :=
  match s.routes name with
  | none => .error .notFound
  | some _ => .ok ((), { s with routes := update s.routes name none })

/-- `DeleteSnapshot`. -/
def deleteSnapshot (name : String) : Except Err (Unit × Store) :=
  match s.snapshots name with
  | none => .error .notFound
  | some _ => .ok ((), { s with snapshots := update s.snapshots name none })

/-- `CreateSnapshot`; the `name` column is the key. -/
def insertSnapshot (snap : Snapshot) : Except Err (Unit × Store) :=
  if (s.snapshots snap.name).isSome then .error (.msg "UNIQUE constraint failed: snapshots.name")
  else .ok ((), { s with snapshots := update s.snapshots snap.name (some snap) })

end Store

/-! ## Operations on the host -/

namespace Host

variable (h : Host)

/-- Unlink a path. -/
def unlink (p : Path) : Host :=
  { h with files := update h.files p none, gens := update h.gens p (h.gens p + 1) }

/-- Unlink the files of a directory that `keep` does not name. -/
def unlinkAll (dir : Path) (keep : Path → Bool) : Host :=
  { h with
    files := fun p => if dir.isPrefixOf p && !keep p then none else h.files p
    gens := fun p => if dir.isPrefixOf p && !keep p then h.gens p + 1 else h.gens p }

/-- Write a file. -/
def write (p : Path) (f : File) : Host := { h with files := update h.files p (some f) }

/-- Write to an open file. -/
def writeTo (dst : Handle) (f : File) : Host :=
  if h.gens dst.path = dst.gen then h.write dst.path f else h

/-- Whether an open file still has the content `f`.  A file that no path
leads to any more is not written to. -/
def unchanged (src : Handle) (f : File) : Bool :=
  h.gens src.path != src.gen || decide (h.files src.path = some f)

/-- Set the size of a disk image. -/
def truncate (p : Path) (size : Int) : Host :=
  match h.files p with
  | some (.image d) =>
      h.write p (.image { d with size := size.toNat, whole := d.whole && decide (d.size ≤ size) })
  | _ => h

/-- `os.Rename`. -/
def rename (src dst : Path) (f : File) : Host :=
  { h with
    files := update (update h.files src none) dst (some f)
    gens := update (update h.gens src (h.gens src + 1)) dst (h.gens dst + 1) }

/-- The disk in the directory of a snapshot. -/
def diskIn (dir : Path) : Option File := h.files (dir ++ [.name "rootfs.ext4"])

/-- `os.Rename` of a directory. -/
def renameDir (src dst : Path) : Host :=
  { h with
    files := fun p =>
      if dst.isPrefixOf p then h.files (src ++ p.drop dst.length)
      else if src.isPrefixOf p then none
      else h.files p
    gens := fun p => if dst.isPrefixOf p || src.isPrefixOf p then h.gens p + 1 else h.gens p }

/-- Change a disk image in place. -/
def modifyDisk (p : Path) (f : Disk → Disk) : Host :=
  match h.files p with
  | some (.image d) =>
      { h with
        files := update h.files p (some (.image (f d)))
        latest := update h.latest p (some (f d)) }
  | _ => h

/-- The live process behind an API socket. -/
def listener (sock : Path) : Option (Pid × OSProc) :=
  match h.files sock with
  | some (.socket p) =>
      match h.os p with
      | some proc => if proc.alive then some (p, proc) else none
      | none => none
  | _ => none

/-- A guest starts to run on its disk. -/
def startGuest (p : Pid) (proc : OSProc) (disk : Path) : Host :=
  { h with
    os := update h.os p
      (some { proc with guest := .running, disk := some (disk, h.gens disk) })
    runs := update h.runs disk (h.runs disk + 1) }

/-- Whether a live process is in the cgroup of a VM. -/
def cgroupBusy (u : Uuid) : Bool :=
  (List.range h.nextPid).any fun p => (h.os p).any fun proc => proc.alive && proc.cgroup == some u

end Host

/-! ## Actions -/

/-- Calls of the store. -/
inductive StoreEff : Type → Type
  | getVM (c : Ctx) (u : Uuid) : StoreEff (Except Err VM)
  | listVMs (c : Ctx) : StoreEff (Except Err (List VM))
  | vmExists (c : Ctx) (name : String) : StoreEff (Except Err Bool)
  | routeExists (c : Ctx) (name : String) : StoreEff (Except Err Bool)
  | insertVM (c : Ctx) (params : CreateVMParams) : StoreEff (Except Err Uuid)
  | setVMState (c : Ctx) (u : Uuid) (state : VMState) : StoreEff (Except Err Unit)
  | setVMArchivedDiskPath (c : Ctx) (u : Uuid) (path : Option Path) : StoreEff (Except Err Unit)
  | deleteRoutesForVM (c : Ctx) (u : Uuid) : StoreEff (Except Err Unit)
  | deleteVM (c : Ctx) (u : Uuid) : StoreEff (Except Err Unit)
  | snapshotExists (c : Ctx) (name : String) : StoreEff (Except Err Bool)
  | getSnapshot (c : Ctx) (name : String) : StoreEff (Except Err Snapshot)
  | insertSnapshot (c : Ctx) (snap : Snapshot) : StoreEff (Except Err Unit)
  | deleteSnapshot (c : Ctx) (name : String) : StoreEff (Except Err Unit)
  | getVMByName (c : Ctx) (name : String) : StoreEff (Except Err VM)
  | getRoute (c : Ctx) (name : String) : StoreEff (Except Err Route)
  | insertRoute (c : Ctx) (name : String) (u : Uuid) (port : Int) : StoreEff (Except Err Unit)
  | deleteRoute (c : Ctx) (name : String) : StoreEff (Except Err Unit)
  | updateSettings (c : Ctx) (u : Uuid) (settings : VMSettings) : StoreEff (Except Err Unit)

/-- The answer of the critical section that begins an operation. -/
inductive BeginAnswer
  | entered
  | busy
  | archiving (a : ArchiveId)
  deriving DecidableEq, Repr

/-- What wakes the `select` of `waitForProcessExit`. -/
inductive WaitEvent
  | deadline
  | tick
  | done
  deriving DecidableEq, Repr

/-- Critical sections of `m.mu`, and waits of a goroutine. -/
inductive MemEff : Type → Type
  | ctxErr (c : Ctx) : MemEff (Except Err Unit)
  | enterVM (u : Uuid) : MemEff BeginAnswer
  | enterStart (u : Uuid) : MemEff BeginAnswer
  | enterArchive (u : Uuid) : MemEff (Option ArchiveId)
  | awaitDone (c : Ctx) (a : ArchiveId) : MemEff (Except Err Unit)
  | endVMOperation (u : Uuid) : MemEff Unit
  | cancelArchive (a : ArchiveId) : MemEff Unit
  | endArchive (u : Uuid) (a : ArchiveId) : MemEff Unit
  | getRunning (u : Uuid) : MemEff (Option Process)
  | stillRunning (proc : Process) : MemEff Bool
  | setRunning (proc : Process) : MemEff Unit
  | deleteRunning (u : Uuid) : MemEff Unit
  | setFinalState (p : Pid) (state : VMState) : MemEff Unit
  | getFinalState (p : Pid) : MemEff (Option VMState)
  | cmdWait (p : Pid) : MemEff Process
  | selectWait (c : Ctx) : MemEff WaitEvent
  | runningVMNames : MemEff (List String)

/-- The answer of `os.Stat`. -/
inductive Stat
  | present
  | absent
  | failed
  deriving DecidableEq, Repr

/-- Steps that only succeed or fail. -/
inductive IOStep
  | mkdirAll (p : Path)
  | closeFile (p : Path)
  | writeConfig (p : Path)
  | openStdout
  | openStderr
  | linkByName
  | addrReplace
  | addrReplaceIPv4
  | linkSetUp
  | enableIPv6Forwarding
  | enableIPv4Forwarding
  | writeRestartWakeFile
  | logSlept
  | logSleepFailed
  | serverShutdown
  deriving DecidableEq, Repr

/-- The arguments of a process to start.  `bootDisk` is the disk of the
configuration file, if there is one. -/
structure Launch where
  uuid : Uuid
  socketPath : Path
  cgroupPath : Option Uuid
  bootDisk : Option Path
  deriving DecidableEq, Repr

/-- Calls of the operating system, of netlink and of the Firecracker API.
`createTemp` answers the name it has made up, and an open of a path answers
the number of times the path has changed its file, with the content for a
reader. -/
inductive HostEff : Type → Type
  | io (s : IOStep) : HostEff (Except Err Unit)
  | stat (p : Path) : HostEff Stat
  | statSize (p : Path) : HostEff (Except Err Nat)
  | remove (p : Path) : HostEff (Except Err Unit)
  | removeAll (dir : Path) : HostEff (Except Err Unit)
  | rename (src dst : Path) : HostEff (Except Err Unit)
  | createTemp (dir : Path) : HostEff (Except Err Nat)
  | statDir (dir : Path) : HostEff Stat
  | mkdirTemp (dir : Path) : HostEff (Except Err Nat)
  | unpackSnapshotBundle (c : Ctx) (bundle : Option Bundle) (p : Path) : HostEff (Except Err Unit)
  | renameDir (src dst : Path) : HostEff (Except Err Unit)
  | openRead (p : Path) : HostEff (Except Err (File × Nat))
  | openTrunc (p : Path) : HostEff (Except Err Nat)
  | openExcl (p : Path) : HostEff (Except Err Nat)
  | copyData (c : Ctx) (dst src : Handle) (f : File) : HostEff (Except Err Unit)
  | truncate (dst : Handle) (size : Int) : HostEff (Except Err Unit)
  | truncatePath (p : Path) (size : Int) : HostEff (Except Err Unit)
  | resizeDiskImage (c : Ctx) (p : Path) : HostEff (Except Err Unit)
  | rewriteGuestIdentity (c : Ctx) (p : Path) (name : String) : HostEff (Except Err Unit)
  | rewriteGuestNetwork (c : Ctx) (p : Path) : HostEff (Except Err Unit)
  | baseImageMetadata (rootfs kernel : Path) : HostEff (Except Err (String × String))
  | deleteTap (tap : String) : HostEff (Except Err Unit)
  | linkAdd (tap : String) (u : Uuid) : HostEff (Except Err Unit)
  | prepareCgroup (u : Uuid) : HostEff (Except Err Unit)
  | attachCgroup (u : Uuid) (p : Pid) : HostEff (Except Err Unit)
  | removeCgroup (u : Uuid) : HostEff (Except Err Unit)
  | cmdStart (l : Launch) : HostEff (Except Err Pid)
  | kill (p : Pid) : HostEff Unit
  | waitForSocket (c : Ctx) (sock : Path) : HostEff (Except Err Unit)
  | fcAction (c : Ctx) (sock : Path) : HostEff (Except Err Unit)
  | fcPause (c : Ctx) (sock : Path) : HostEff (Except Err Unit)
  | fcResume (c : Ctx) (sock : Path) : HostEff (Except Err Unit)
  | fcCreateSnapshot (c : Ctx) (sock state mem : Path) : HostEff (Except Err Unit)
  | fcLoadSnapshot (c : Ctx) (sock state mem : Path) : HostEff (Except Err Unit)

/-- An atomic action of the manager. -/
inductive Eff : Type → Type
  | store {β : Type} (e : StoreEff β) : Eff β
  | mem {β : Type} (e : MemEff β) : Eff β
  | host {β : Type} (e : HostEff β) : Eff β

/-! ## What the actions do -/

namespace World

/-- Whether the context of a call of thread `t` is cancelled. -/
def done (w : World) (t : Tid) : Ctx → Bool
  | .request => w.cancelled t
  | .background => false
  | .archive a => w.cancelled t || w.mem.archiveCancelled a

/-- Whether the thread belongs to the daemon that is running. -/
def current (w : World) : Tid → Bool
  | .call epoch _ => decide (epoch = w.epoch)
  | .exit p => (w.host.os p).any fun proc => decide (proc.epoch = w.epoch)

end World

/-- The error of a call that fails. -/
def failure (done : Bool) : Err := if done then .canceled else .io

/-- A call that reads and answers `x`. -/
def reply {β σ : Type} (done : Bool) (s : σ) (x : Except Err β) :
    Outcome → Option (Except Err β × σ)
  | .ok => if done then none else some (x, s)
  | .fail => some (.error (failure done), s)
  | .torn => none
  | .part _ => none

/-- A call that writes: `x` is its answer with the new state, if it comes
to its end. -/
def commit {β σ : Type} (done : Bool) (s : σ) (x : Except Err (β × σ)) :
    Outcome → Option (Except Err β × σ)
  | .ok =>
      if done then none
      else
        match x with
        | .ok (b, s') => some (.ok b, s')
        | .error e => some (.error e, s)
  | .fail => some (.error (failure done), s)
  | .torn =>
      match x with
      | .ok (_, s') => some (.error (failure done), s')
      | .error _ => none
  | .part _ => none

/-- A call that can succeed in one way, when `x` is there, or fail, with or
without the effect `y`. -/
def attemptOn {β σ : Type} (done : Bool) (s : σ) (x : Option (β × σ)) (y : Option σ) :
    Outcome → Option (Except Err β × σ)
  | .ok =>
      if done then none
      else
        match x with
        | some (b, s') => some (.ok b, s')
        | none => none
  | .fail => some (.error (failure done), s)
  | .torn =>
      match y with
      | some s' => some (.error (failure done), s')
      | none => none
  | .part _ => none

/-- What a call of the store does. -/
def execStore (w : World) (t : Tid) (o : Outcome) :
    {β : Type} → StoreEff β → Option (β × Store)
  | _, .getVM c u => reply (w.done t c) w.store (w.store.getVM u) o
  | _, .listVMs c => reply (w.done t c) w.store (.ok w.store.listVMs) o
  | _, .vmExists c name => reply (w.done t c) w.store (.ok (w.store.vmExists name)) o
  | _, .routeExists c name => reply (w.done t c) w.store (.ok (w.store.routeExists name)) o
  | _, .insertVM c params => commit (w.done t c) w.store (w.store.insertVM params w.clock) o
  | _, .setVMState c u state =>
      commit (w.done t c) w.store (w.store.updateVM u (·.withState state w.clock)) o
  | _, .setVMArchivedDiskPath c u path =>
      commit (w.done t c) w.store
        (w.store.updateVM u fun r => { r with archivedDiskPath := path }) o
  | _, .deleteRoutesForVM c u =>
      commit (w.done t c) w.store (.ok ((), { w.store with routes := w.store.routesWithout u })) o
  | _, .deleteVM c u => commit (w.done t c) w.store (w.store.deleteVM u) o
  | _, .snapshotExists c name =>
      reply (w.done t c) w.store (.ok (w.store.snapshots name).isSome) o
  | _, .getSnapshot c name =>
      reply (w.done t c) w.store
        (match w.store.snapshots name with
          | none => .error .notFound
          | some snap => .ok snap) o
  | _, .insertSnapshot c snap => commit (w.done t c) w.store (w.store.insertSnapshot snap) o
  | _, .deleteSnapshot c name => commit (w.done t c) w.store (w.store.deleteSnapshot name) o
  | _, .getVMByName c name => reply (w.done t c) w.store (w.store.getVMByName name) o
  | _, .getRoute c name => reply (w.done t c) w.store (w.store.getRoute name) o
  | _, .insertRoute c name u port =>
      commit (w.done t c) w.store (w.store.insertRoute name u port) o
  | _, .deleteRoute c name => commit (w.done t c) w.store (w.store.deleteRoute name) o
  | _, .updateSettings c u settings =>
      commit (w.done t c) w.store (w.store.updateVM u (·.withSettings settings)) o

/-- The critical section shared by the two begin functions. -/
def Mem.enter (m : Mem) (u : Uuid) : BeginAnswer × Mem :=
  match m.coldArchives u with
  | some a => (.archiving a, { m with archiveCancelled := update m.archiveCancelled a true })
  | none =>
      if m.vmOps u then (.busy, m)
      else (.entered, { m with vmOps := update m.vmOps u true })

/-- What a critical section or a wait does.  A critical section has no
other outcome than `ok`.  A wait that is not over has none at all. -/
def execMem (w : World) (t : Tid) (o : Outcome) : {β : Type} → MemEff β → Option (β × Mem)
  | _, .ctxErr c =>
      match o with
      | .ok => some (if w.done t c then .error .canceled else .ok (), w.mem)
      | _ => none
  | _, .enterVM u =>
      match o with
      | .ok => some (w.mem.enter u)
      | _ => none
  | _, .enterStart u =>
      match o with
      | .ok => some (if (w.mem.running u).isSome then (.busy, w.mem) else w.mem.enter u)
      | _ => none
  | _, .enterArchive u =>
      match o with
      | .ok =>
          if w.mem.vmOps u then some (none, w.mem)
          else some (some w.mem.nextArchive,
            { w.mem with
              vmOps := update w.mem.vmOps u true
              coldArchives := update w.mem.coldArchives u (some w.mem.nextArchive)
              nextArchive := w.mem.nextArchive + 1 })
      | _ => none
  | _, .awaitDone c a =>
      match o with
      | .ok => if 0 < w.mem.doneCloses a then some (.ok (), w.mem) else none
      | .fail => if w.done t c then some (.error .canceled, w.mem) else none
      | _ => none
  | _, .endVMOperation u =>
      match o with
      | .ok => some ((), { w.mem with vmOps := update w.mem.vmOps u false })
      | _ => none
  | _, .cancelArchive a =>
      match o with
      | .ok =>
          some ((), { w.mem with archiveCancelled := update w.mem.archiveCancelled a true })
      | _ => none
  | _, .endArchive u a =>
      match o with
      | .ok =>
          some ((),
            { w.mem with
              coldArchives :=
                if w.mem.coldArchives u = some a then update w.mem.coldArchives u none
                else w.mem.coldArchives
              vmOps := update w.mem.vmOps u false
              doneCloses := update w.mem.doneCloses a (w.mem.doneCloses a + 1) })
      | _ => none
  | _, .getRunning u =>
      match o with
      | .ok => some (w.mem.running u, w.mem)
      | _ => none
  | _, .stillRunning proc =>
      match o with
      | .ok => some ((w.mem.running proc.uuid).isSome, w.mem)
      | _ => none
  | _, .setRunning proc =>
      match o with
      | .ok =>
          some ((),
            { w.mem with
              running := update w.mem.running proc.uuid (some proc)
              finalState := update w.mem.finalState proc.pid (some .stopped)
              watched := update w.mem.watched proc.pid (some proc) })
      | _ => none
  | _, .deleteRunning u =>
      match o with
      | .ok => some ((), { w.mem with running := update w.mem.running u none })
      | _ => none
  | _, .setFinalState p state =>
      match o with
      | .ok => some ((), { w.mem with finalState := update w.mem.finalState p (some state) })
      | _ => none
  | _, .getFinalState p =>
      match o with
      | .ok => some (w.mem.finalState p, w.mem)
      | _ => none
  | _, .cmdWait p =>
      match o with
      | .ok =>
          match w.mem.watched p with
          | some proc =>
              if (w.host.os p).any fun os => !os.alive then some (proc, w.mem) else none
          | none => none
      | _ => none
  | _, .selectWait c =>
      match o with
      | .ok => some (.tick, w.mem)
      | .torn => some (.deadline, w.mem)
      | .fail => if w.done t c then some (.done, w.mem) else none
      | _ => none
  | _, .runningVMNames =>
      match o with
      | .ok =>
          some (((List.range w.store.nextUuid).filterMap fun u =>
            (w.mem.running u).map fun proc => proc.name).insertionSort (· ≤ ·), w.mem)
      | _ => none

/-- The process that `cmd.Start` makes.  A process with a configuration file
boots its guest if the disk is there. -/
def Host.start (h : Host) (epoch : Nat) (l : Launch) : Host :=
  let proc : OSProc :=
    { epoch := epoch, uuid := l.uuid, socketPath := l.socketPath, alive := true, bound := false,
      guest := .fresh, disk := none, cgroup := l.cgroupPath }
  let h' := { h with os := update h.os h.nextPid (some proc), nextPid := h.nextPid + 1 }
  match l.bootDisk with
  | none => h'
  | some disk => if (h.files disk).isSome then h'.startGuest h.nextPid proc disk else h'

/-- What a call of the operating system, of netlink or of the Firecracker
API does. -/
def execHost (w : World) (t : Tid) (o : Outcome) :
    {β : Type} → HostEff β → Option (β × Host)
  | _, .io _ => attemptOn false w.host (some ((), w.host)) none o
  | _, .stat p =>
      match o with
      | .ok => some (if (w.host.files p).isSome then .present else .absent, w.host)
      | .fail => some (.failed, w.host)
      | _ => none
  | _, .statSize p =>
      reply false w.host
        (match w.host.files p with
          | none => .error .notExist
          | some (.image d) => .ok d.size
          | some _ => .ok 0) o
  | _, .remove p =>
      match o with
      | .ok =>
          if (w.host.files p).isSome then some (.ok (), w.host.unlink p)
          else some (.error .notExist, w.host)
      | .fail => some (.error .io, w.host)
      | _ => none
  | _, .removeAll dir =>
      match o with
      | .ok => some (.ok (), w.host.unlinkAll dir fun _ => false)
      | .fail => some (.error .io, w.host)
      | .part keep => some (.error .io, w.host.unlinkAll dir keep)
      | .torn => none
  | _, .rename src dst =>
      reply false w.host (.ok ()) o |>.bind fun (r, h) =>
        match r, h.files src with
        | .ok _, some f => some (.ok (), h.rename src dst f)
        | .ok _, none => some (.error .notExist, h)
        | .error e, _ => some (.error e, h)
  | _, .createTemp dir =>
      attemptOn false w.host
        (some (w.host.nextTemp,
          { w.host.write (dir ++ [.temp w.host.nextTemp]) .incomplete with
            nextTemp := w.host.nextTemp + 1 })) none o
  | _, .statDir dir =>
      -- A directory can be there without its disk.
      match o with
      | .ok => some (if (w.host.diskIn dir).isSome then .present else .absent, w.host)
      | .torn => some (.present, w.host)
      | .fail => some (.failed, w.host)
      | _ => none
  | _, .mkdirTemp _ =>
      attemptOn false w.host
        (some (w.host.nextTemp, { w.host with nextTemp := w.host.nextTemp + 1 })) none o
  | _, .unpackSnapshotBundle c bundle p =>
      attemptOn (w.done t c) w.host
        (match bundle with
          | none => none
          | some b => some ((), w.host.write p (.image b.disk)))
        (some (w.host.write p .incomplete)) o
  | _, .renameDir src dst =>
      -- A directory takes the place of an empty one only.
      attemptOn false w.host
        (if (w.host.diskIn dst).isSome then none else some ((), w.host.renameDir src dst)) none o
  | _, .openRead p =>
      reply false w.host
        (match w.host.files p with
          | none => .error .notExist
          | some f => .ok (f, w.host.gens p)) o
  | _, .openTrunc p =>
      attemptOn false w.host (some (w.host.gens p, w.host.write p .incomplete)) none o
  | _, .openExcl p =>
      attemptOn false w.host
        (if (w.host.files p).isSome then none
          else some (w.host.gens p, w.host.write p .incomplete)) none o
  | _, .copyData c dst src f =>
      attemptOn (w.done t c) w.host
        (some ((), w.host.writeTo dst (if w.host.unchanged src f then f else .incomplete))) none o
  | _, .truncate dst size =>
      attemptOn false w.host
        (if size < 0 then none
          else if w.host.gens dst.path = dst.gen then some ((), w.host.truncate dst.path size)
          else some ((), w.host)) none o
  | _, .truncatePath p size =>
      attemptOn false w.host
        (if size < 0 ∨ (w.host.files p).isNone then none
          else some ((), w.host.truncate p size)) none o
  | _, .resizeDiskImage c p =>
      attemptOn (w.done t c) w.host
        (some ((), w.host.modifyDisk p fun d =>
          { d with resized := true, writes := 0 :: d.writes }))
        (some (w.host.modifyDisk p fun d => { d with writes := 0 :: d.writes })) o
  | _, .rewriteGuestIdentity c p name =>
      attemptOn (w.done t c) w.host
        (some ((), w.host.modifyDisk p fun d =>
          { d with identity := some name, writes := 0 :: d.writes }))
        (some (w.host.modifyDisk p fun d => { d with writes := 0 :: d.writes })) o
  | _, .rewriteGuestNetwork c p =>
      attemptOn (w.done t c) w.host
        (some ((), w.host.modifyDisk p fun d => { d with writes := 0 :: d.writes }))
        (some (w.host.modifyDisk p fun d => { d with writes := 0 :: d.writes })) o
  | _, .baseImageMetadata rootfs kernel =>
      attemptOn false w.host
        (match w.host.files rootfs, w.host.files kernel with
          | some (.image d), some (.blob id) => some ((d.origin, id), w.host)
          | _, _ => none) none o
  | _, .deleteTap tap =>
      attemptOn false w.host (some ((), { w.host with taps := update w.host.taps tap none })) none o
  | _, .linkAdd tap u =>
      attemptOn false w.host
        (if (w.host.taps tap).isSome then none
          else some ((), { w.host with taps := update w.host.taps tap (some u) })) none o
  | _, .prepareCgroup u =>
      attemptOn false w.host
        (some ((), { w.host with cgroups := update w.host.cgroups u true }))
        (some { w.host with cgroups := update w.host.cgroups u true }) o
  | _, .attachCgroup u p =>
      attemptOn false w.host
        (some ((), { w.host with
          cgroups := update w.host.cgroups u true
          os := update w.host.os p
            ((w.host.os p).map fun proc => { proc with cgroup := some u }) }))
        (some { w.host with cgroups := update w.host.cgroups u true }) o
  | _, .removeCgroup u =>
      -- The kernel refuses to remove a group that has a process in it.
      attemptOn false w.host
        (if w.host.cgroupBusy u then none
          else some ((), { w.host with cgroups := update w.host.cgroups u false })) none o
  | _, .cmdStart l =>
      attemptOn false w.host (some (w.host.nextPid, w.host.start w.epoch l)) none o
  | _, .kill p =>
      match o with
      | .ok => some ((), { w.host with
          os := update w.host.os p ((w.host.os p).map fun proc => { proc with alive := false }) })
      | _ => none
  | _, .waitForSocket _ sock =>
      attemptOn false w.host (if (w.host.files sock).isSome then some ((), w.host) else none) none o
  | _, .fcAction c sock =>
      attemptOn (w.done t c) w.host ((w.host.listener sock).map fun _ => ((), w.host)) none o
  | _, .fcPause c sock =>
      let paused := (w.host.listener sock).bind fun (p, proc) =>
        if proc.guest = .fresh then none
        else some { w.host with os := update w.host.os p (some { proc with guest := .paused }) }
      attemptOn (w.done t c) w.host (paused.map fun h => ((), h)) paused o
  | _, .fcResume c sock =>
      let resumed := (w.host.listener sock).bind fun (p, proc) =>
        match proc.guest, proc.disk with
        | .paused, some (disk, _) => some (w.host.startGuest p proc disk)
        | _, _ => none
      attemptOn (w.done t c) w.host (resumed.map fun h => ((), h)) resumed o
  | _, .fcCreateSnapshot c sock state mem =>
      attemptOn (w.done t c) w.host
        ((w.host.listener sock).bind fun (_, proc) =>
          match proc.guest, proc.disk with
          | .paused, some (disk, _) =>
              some ((), (w.host.write state .vmstate).write mem (.memory ⟨disk, w.host.runs disk⟩))
          | _, _ => none)
        ((w.host.listener sock).map fun _ =>
          (w.host.write state .incomplete).write mem .incomplete) o
  | _, .fcLoadSnapshot c sock state mem =>
      let loaded := (w.host.listener sock).bind fun (p, proc) =>
        match proc.guest, w.host.files state, w.host.files mem with
        | .fresh, some .vmstate, some (.memory image) =>
            if (w.host.files image.disk).isSome then some (w.host.startGuest p proc image.disk)
            else none
        | _, _, _ => none
      attemptOn (w.done t c) w.host (loaded.map fun h => ((), h)) loaded o

/-! ## The system -/

/-- What happens without the manager. -/
inductive EnvEvent
  | exit (p : Pid)
  | cancel (t : Tid)
  | bind (p : Pid)
  | guestWrite (p : Pid) (data : Nat)
  | tick
  | crash
  deriving DecidableEq, Repr

/-- The memory of a manager that has just been made. -/
def Mem.fresh : Mem where
  running := fun _ => none
  vmOps := fun _ => false
  coldArchives := fun _ => none
  nextArchive := 0
  archiveCancelled := fun _ => false
  doneCloses := fun _ => 0
  finalState := fun _ => none
  watched := fun _ => none

/-- A guest writes to its disk.  A guest whose disk was unlinked or renamed
over writes to a file that no path leads to. -/
def Host.guestWrite (h : Host) (disk : Path) (gen data : Nat) : Host :=
  if h.gens disk = gen then h.modifyDisk disk fun d => { d with writes := data :: d.writes }
  else
    { h with
      latest := update h.latest disk
        ((h.latest disk).map fun d => { d with writes := data :: d.writes }) }

/-- What an event of the environment does. -/
def execEnv (w : World) : EnvEvent → Option World
  | .exit p =>
      match w.host.os p with
      | some proc =>
          if proc.alive then
            some { w with host := { w.host with
              os := update w.host.os p (some { proc with alive := false }) } }
          else none
      | none => none
  | .cancel t => some { w with cancelled := update w.cancelled t true }
  | .bind p =>
      match w.host.os p with
      | some proc =>
          if proc.alive && !proc.bound && (w.host.files proc.socketPath).isNone then
            some { w with host := { w.host.write proc.socketPath (.socket p) with
              os := update w.host.os p (some { proc with bound := true }) } }
          else none
      | none => none
  | .guestWrite p data =>
      match w.host.os p with
      | some proc =>
          match proc.disk with
          | some (disk, gen) =>
              if proc.alive && decide (proc.guest = .running) then
                some { w with host := w.host.guestWrite disk gen data }
              else none
          | none => none
      | none => none
  | .tick => some { w with clock := w.clock + 1 }
  | .crash => some { w with mem := .fresh, epoch := w.epoch + 1 }

/-- What an action of thread `t` does. -/
def exec {β : Type} (t : Tid) (w : World) (e : Eff β) (o : Outcome) : Option (β × World) :=
  if w.current t then
    match e with
    | .store e => (execStore w t o e).map fun (b, s) => (b, { w with store := s })
    | .mem e => (execMem w t o e).map fun (b, m) => (b, { w with mem := m })
    | .host e => (execHost w t o e).map fun (b, h) => (b, { w with host := h })
  else none

/-- The manager in its world. -/
def system : Conc.System Tid World Outcome EnvEvent Eff where
  exec := exec
  env := execEnv

end Firedoze
