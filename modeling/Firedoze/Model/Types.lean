import Firedoze.Net.CIDR
import Mathlib.Data.Nat.Size

/-!
# Records, configuration and paths

The data types that the manager of `internal/firecracker` works on: the
rows of the store, the part of the configuration it reads, and the paths
that `Manager.layout`, `coldVMDir`, `coldDiskPath` and `snapshotLayout`
build.

Three representations differ from the Go text.

* A UUID and a process id are numbers.  `uuid.NewString` never repeats, so
  the store hands out the next number.
* A path is the list of its components.  `filepath.Join` of cleaned
  components is then `++`.  A name that `os.CreateTemp` makes up is a
  component of its own kind, so it is never the name of another file.
* An address is its numeric value.  The empty string of an unset field is
  `none`.

The stamps of the store are milliseconds on one clock, an instant is a number
of nanoseconds.
-/

namespace Firedoze

/-- The identity of a VM, `uuid.NewString`. -/
abbrev Uuid := Nat

/-- The id of an operating-system process. -/
abbrev Pid := Nat

/-- The identity of one `coldArchiveOperation`. -/
abbrev ArchiveId := Nat

/-- `time.Second`. -/
def second : Int := 1000000000

/-- `time.Duration(seconds) * time.Second`. -/
def secondsDuration (seconds : Int) : Int := (seconds * second).bmod (2 ^ 64)

/-- `time.Parse` of a stamp. -/
def parseStamp (stamp : Nat) : Nat := stamp * 1000000

/-- A value of Go's `int` or `int64`, after the wrap to 64 bits. -/
def int64 (n : Int) : Int := n.bmod (2 ^ 64)

theorem int64_of_lt {n : Int} (h : -2 ^ 63 ≤ n) (h' : n < 2 ^ 63) : int64 n = n :=
  Int.bmod_eq_of_le (by simpa using h) (by simpa using h')

theorem int64_of_ge {n : Int} (h : 2 ^ 63 ≤ n) (h' : n < 2 ^ 63 + 2 ^ 64) :
    int64 n = n - 2 ^ 64 := by
  have hwrap : int64 (n - 2 ^ 64) = int64 n := Int.sub_bmod_right n (2 ^ 64)
  rw [← hwrap, int64_of_lt (by omega) (by omega)]

/-! ## Errors -/

/-- The errors that the callers of the manager and of the store tell apart.
`msg` carries the text of the errors that are only reported. -/
inductive Err
  | alreadyRunning
  | alreadyExists
  | notRunning
  | running
  | notStopped
  | notFound
  | canceled
  | notExist
  | io
  | msg (text : String)
  deriving DecidableEq, Repr

/-! ## Paths -/

/-- One component of a path. -/
inductive Seg
  | name (s : String)
  | temp (n : Nat)
  deriving DecidableEq, Repr

/-- A cleaned path, from the root down. -/
abbrev Path := List Seg

/-! ## Rows of the store -/

/-- The values of the `state` column. -/
inductive VMState
  | stopped
  | running
  | sleeping
  | lost
  deriving DecidableEq, Repr

/-- The columns of the `vms` table other than its key. -/
structure VMRow where
  name : String
  state : VMState
  privateIP : Option Nat
  vcpus : Int
  memoryMinMiB : Int
  memoryMaxMiB : Int
  diskBytes : Int
  defaultHTTPPort : Int
  idleSleepAfterSeconds : Int
  lastStartedAt : Option Nat
  lastActivityAt : Option Nat
  stoppedAt : Option Nat
  archivedDiskPath : Option Path
  baseImageID : String
  kernelID : String
  baseImageMetadata : String
  autoWake : Bool
  publicHTTP : Bool
  deriving DecidableEq, Repr

/-- A VM that has been stopped at time zero. -/
def VMRow.sample (name : String) (ip : Nat) : VMRow where
  name := name
  state := .stopped
  privateIP := some (0xfd7a * 2 ^ 112 + ip)
  vcpus := 1
  memoryMinMiB := 256
  memoryMaxMiB := 256
  diskBytes := 100
  defaultHTTPPort := 80
  idleSleepAfterSeconds := 0
  lastStartedAt := none
  lastActivityAt := none
  stoppedAt := some 0
  archivedDiskPath := none
  baseImageID := "rootfs"
  kernelID := "vmlinux"
  baseImageMetadata := ""
  autoWake := true
  publicHTTP := false

/-- `store.VM`: a row with its key. -/
structure VM extends VMRow where
  uuid : Uuid
  deriving DecidableEq, Repr

/-- `store.CreateVMParams`. -/
structure CreateVMParams where
  name : String
  privateIP : Option Nat := none
  vcpus : Int := 0
  memoryMinMiB : Int := 0
  memoryMaxMiB : Int := 0
  diskBytes : Int := 0
  defaultHTTPPort : Int := 0
  idleSleepAfterSeconds : Int := 0
  baseImageID : String := ""
  kernelID : String := ""
  baseImageMetadata : String := ""
  autoWake : Bool := false
  autoWakeSet : Bool := false
  publicHTTP : Bool := false
  deriving DecidableEq, Repr

/-- `store.UpdateVMParams`; a pointer that is nil is `none`. -/
structure UpdateVMParams where
  defaultHTTPPort : Option Int := none
  idleSleepAfterSeconds : Option Int := none
  autoWake : Option Bool := none
  publicHTTP : Option Bool := none
  deriving DecidableEq, Repr

/-- The columns that `UpdateVM` writes. -/
structure VMSettings where
  defaultHTTPPort : Int
  idleSleepAfterSeconds : Int
  autoWake : Bool
  publicHTTP : Bool
  deriving DecidableEq, Repr

/-- The settings of a row. -/
def VMRow.settings (r : VMRow) : VMSettings where
  defaultHTTPPort := r.defaultHTTPPort
  idleSleepAfterSeconds := r.idleSleepAfterSeconds
  autoWake := r.autoWake
  publicHTTP := r.publicHTTP

/-- The settings after `UpdateVM` has merged its parameters. -/
def UpdateVMParams.merge (p : UpdateVMParams) (s : VMSettings) : VMSettings where
  defaultHTTPPort := p.defaultHTTPPort.getD s.defaultHTTPPort
  idleSleepAfterSeconds := p.idleSleepAfterSeconds.getD s.idleSleepAfterSeconds
  autoWake := p.autoWake.getD s.autoWake
  publicHTTP := p.publicHTTP.getD s.publicHTTP

/-- `store.Snapshot`.  A snapshot that was imported has no source. -/
structure Snapshot where
  name : String
  sourceVMUUID : Option Uuid
  sourceVM : String
  diskPath : Path
  baseImageID : String
  kernelID : String
  baseImageMetadata : String
  deriving DecidableEq, Repr

/-- A row of the `routes` table. -/
structure Route where
  vmUUID : Uuid
  port : Int
  isDefault : Bool
  deriving DecidableEq, Repr

/-! ## Configuration -/

/-- The fields of `config.Config` that the manager reads.  `coldDir` is
`cold_storage.dir`, with `none` for the empty string.  The two networks are
what `net.ParseCIDR` answers for their texts. `cgroups` tells whether
`NewManager` found a usable cgroup hierarchy, and `physicalBits` is the answer
of `hostPhysicalAddressBits`. -/
structure Config where
  stateDir : Path
  coldDir : Option Path
  archiveStoppedAfterSeconds : Nat
  baseRootfsPath : Path
  baseKernelPath : Path
  subnet : Net.CIDR
  ipv4Subnet : Net.CIDR
  defaultHTTPPort : Int
  defaultVCPUs : Int
  defaultMemoryMinMiB : Int
  defaultMemoryMaxMiB : Int
  defaultDiskBytes : Int
  cgroups : Bool
  physicalBits : Option Nat
  deriving DecidableEq, Repr

/-- A configuration. -/
def Config.sample : Config where
  stateDir := [.name "var"]
  coldDir := some [.name "cold"]
  archiveStoppedAfterSeconds := 60
  baseRootfsPath := [.name "base", .name "rootfs.ext4"]
  baseKernelPath := [.name "base", .name "vmlinux"]
  subnet := { ip := 0xfd7a * 2 ^ 112, bits := 64 }
  ipv4Subnet := { ip := Net.ipv4 0xac100000, bits := 108 }
  defaultHTTPPort := 80
  defaultVCPUs := 1
  defaultMemoryMinMiB := 256
  defaultMemoryMaxMiB := 256
  defaultDiskBytes := 100
  cgroups := false
  physicalBits := none

/-- `Manager.shouldArchiveStoppedVM` for a number of seconds. -/
def shouldArchiveAfter (seconds : Int) (vm : VM) (now : Nat) : Bool :=
  decide (vm.state = .stopped) &&
    match vm.stoppedAt with
    | none => false
    | some stamp => decide ((parseStamp stamp : Int) + secondsDuration seconds ≤ now)

namespace Config

variable (cfg : Config)

/-- `Manager.layout`: the directory of a VM. -/
def vmDir (name : String) : Path := cfg.stateDir ++ [.name "vms", .name name]

/-- `layout.runtimeDir`. -/
def runtimeDir (name : String) : Path := cfg.vmDir name ++ [.name "run"]

/-- `layout.sleepDir`. -/
def sleepDir (name : String) : Path := cfg.vmDir name ++ [.name "sleep"]

/-- `layout.diskPath`, the hot disk. -/
def diskPath (name : String) : Path := cfg.vmDir name ++ [.name "rootfs.ext4"]

/-- `layout.configPath`. -/
def configPath (name : String) : Path := cfg.runtimeDir name ++ [.name "firecracker.json"]

/-- `layout.socketPath`. -/
def socketPath (name : String) : Path := cfg.runtimeDir name ++ [.name "firecracker.sock"]

/-- `layout.sleepStatePath`. -/
def sleepStatePath (name : String) : Path := cfg.sleepDir name ++ [.name "vmstate"]

/-- `layout.sleepMemPath`. -/
def sleepMemPath (name : String) : Path := cfg.sleepDir name ++ [.name "memory"]

/-- `Manager.coldVMDir`. -/
def coldVMDir (name : String) : Option Path :=
  cfg.coldDir.map (· ++ [.name "vms", .name name])

/-- `Manager.coldDiskPath`. -/
def coldDiskPath (name : String) : Option Path :=
  (cfg.coldVMDir name).map (· ++ [.name "rootfs.ext4"])

/-- `Manager.snapshotLayout`: the directory of a snapshot. -/
def snapshotDir (name : String) : Path := cfg.stateDir ++ [.name "snapshots", .name name]

/-- `snapshotLayout.diskPath`. -/
def snapshotDiskPath (name : String) : Path := cfg.snapshotDir name ++ [.name "rootfs.ext4"]

/-- `Manager.coldStorageEnabled`. -/
def coldStorageEnabled : Bool := cfg.coldDir.isSome && decide (0 < cfg.archiveStoppedAfterSeconds)

/-- `Manager.shouldArchiveStoppedVM`. -/
def shouldArchiveStoppedVM (vm : VM) (now : Nat) : Bool :=
  shouldArchiveAfter cfg.archiveStoppedAfterSeconds vm now

end Config

/-! ## Memory ranges -/

/-- `validateMemoryHotplugRange`. -/
def validateMemoryHotplugRange (minMiB maxMiB : Int) : Except Err Unit :=
  if minMiB ≤ 0 ∨ maxMiB ≤ 0 then
    .error (.msg "memory_min_mib and memory_max_mib must be positive")
  else if maxMiB - minMiB = 0 then .ok ()
  else if maxMiB - minMiB < 128 ∨ (maxMiB - minMiB).tmod 128 ≠ 0 then
    .error (.msg "memory_max_mib - memory_min_mib must be zero or a positive multiple of 128")
  else .ok ()

/-- `firecrackerVirtioMemBaseAddress`. -/
def virtioMemBaseAddress : Nat := 512 * 2 ^ 30

/-- `requiredVirtioMemPhysicalAddressBits`, in 64-bit arithmetic. -/
def requiredVirtioMemPhysicalAddressBits (hotplugMiB : Int) : Nat :=
  if hotplugMiB ≤ 0 then 0
  else Nat.size ((virtioMemBaseAddress + hotplugMiB.toNat * 2 ^ 20 + (2 ^ 64 - 1)) % 2 ^ 64)

/-- `virtioMemUsableForVM` with `virtioMemSupportedForRange`. -/
def virtioMemUsableForVM (cfg : Config) (vm : VM) : Bool :=
  if vm.memoryMaxMiB ≤ vm.memoryMinMiB then false
  else
    match validateMemoryHotplugRange vm.memoryMinMiB vm.memoryMaxMiB with
    | .error _ => false
    | .ok _ =>
        match cfg.physicalBits with
        | none => true
        | some bits =>
            decide (requiredVirtioMemPhysicalAddressBits (vm.memoryMaxMiB - vm.memoryMinMiB) ≤ bits)

/-- `hostMemoryConfig`: the memory at boot, and the size of the hotplug
region if there is one. -/
structure HostMemoryConfig where
  bootMiB : Int
  hotplugMiB : Option Int
  degraded : Bool
  deriving DecidableEq, Repr

/-- `memoryConfigForHost`. -/
def memoryConfigForHost (cfg : Config) (vm : VM) : Except Err HostMemoryConfig :=
  match validateMemoryHotplugRange vm.memoryMinMiB vm.memoryMaxMiB with
  | .error e => .error e
  | .ok _ =>
      if vm.memoryMaxMiB ≤ vm.memoryMinMiB then .ok ⟨vm.memoryMaxMiB, none, false⟩
      else if virtioMemUsableForVM cfg vm = false then .ok ⟨vm.memoryMaxMiB, none, true⟩
      else .ok ⟨vm.memoryMinMiB, some (vm.memoryMaxMiB - vm.memoryMinMiB), false⟩

end Firedoze
