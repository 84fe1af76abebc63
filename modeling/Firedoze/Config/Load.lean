import Firedoze.Toml.Decode
import Firedoze.WireGuard.Peers

/-!
# Loading the configuration file

`config.Load`: the defaults, `toml.Unmarshal` into them, the check that the
backend of the firewall is given, the derived defaults and `Validate`.

The fields of `config.Config` are enumerated by their types, and `fields` gives
each of them its key.  The peers stand apart from the other `Settings`, which
nothing but the file changes.  `configTarget` is the struct as `toml.Unmarshal`
sees it.

`load_eq_ok` takes `load` apart, and `LoadedFrom.with_peers` says when a text
is loaded with the same settings as another one, and with other peers.
-/

namespace Firedoze.ConfigFile

open Toml

/-! ## Libraries -/

/-- The functions that a configuration is read with.  `bare` reads the tokens
of TOML, and `firstUsableIP` prints the address that `FirstUsableIP` finds. -/
structure ConfigLib where
  net : NetSyntax
  unicode : Text.Unicode
  bare : List Char → Option Scalar
  parseIP : String → Bool
  joinPath : String → String → String
  firstUsableIP : String → Except String String

/-! ## Fields -/

/-- The sections of the file. -/
inductive Section
  | api
  | caddy
  | metadata
  | wireGuard
  | hostFirewall
  | guestControl
  | vmNetwork
  | dns
  | ssh
  | idle
  | coldStorage
  | firecracker
  deriving DecidableEq, Repr

/-- The fields that are strings. -/
inductive TextField
  | baseDomain
  | stateDir
  | tlsMode
  | metadataPath
  | interface
  | address
  | endpoint
  | privateKeyFile
  | backend
  | subnet
  | ipv4Subnet
  | domain
  | listenIP
  | user
  | coldStorageDir
  | binaryPath
  | baseKernelPath
  | baseInitrdPath
  | baseRootfsPath
  deriving DecidableEq, Repr

/-- The fields that are integers. -/
inductive NumField
  | defaultHTTPPort
  | apiPort
  | httpPort
  | httpsPort
  | internalProxyPort
  | listenPort
  | memoryPort
  | dnsPort
  | ttlSeconds
  | wakeProxyPort
  | checkIntervalSeconds
  | defaultSleepAfterSeconds
  | archiveStoppedAfterSeconds
  | defaultVCPUs
  | defaultMemoryMinMiB
  | defaultMemoryMaxMiB
  | defaultDiskBytes
  deriving DecidableEq, Repr

/-- The fields that are booleans. -/
inductive FlagField
  | firewallEnabled
  | dnsEnabled
  deriving DecidableEq, Repr

/-- `config.Config` without the peers. -/
structure Settings where
  text : TextField → String
  num : NumField → Int
  flag : FlagField → Bool
  upstreamServers : List String

/-- `config.Config`. -/
structure Config where
  settings : Settings
  peers : List WGPeer

/-- `Default`. -/
def Config.default : Config where
  settings :=
    { text := fun
        | .baseDomain => "dev.example.com"
        | .stateDir => "/var/lib/firedoze"
        | .tlsMode => "auto"
        | .metadataPath => "/var/lib/firedoze/firedoze.db"
        | .interface => "fdwg0"
        | .address => "fd7a:115c:a1e1::1/64"
        | .endpoint => ""
        | .privateKeyFile => "/etc/firedoze/wg.key"
        | .backend => "ip6tables"
        | .subnet => "fd7a:115c:a1e0::/64"
        | .ipv4Subnet => "10.88.0.0/16"
        | .domain => "firedoze"
        | .listenIP => ""
        | .user => "ubuntu"
        | .coldStorageDir => ""
        | .binaryPath => "/usr/lib/firedoze/firecracker"
        | .baseKernelPath => "/var/lib/firedoze/images/vmlinux.bin"
        | .baseInitrdPath => ""
        | .baseRootfsPath => "/var/lib/firedoze/images/rootfs.ext4"
      num := fun
        | .defaultHTTPPort => 8080
        | .apiPort => 8081
        | .httpPort => 80
        | .httpsPort => 443
        | .internalProxyPort => 18082
        | .listenPort => 51820
        | .memoryPort => 18084
        | .dnsPort => 53
        | .ttlSeconds => 30
        | .wakeProxyPort => 18022
        | .checkIntervalSeconds => 30
        | .defaultSleepAfterSeconds => 6 * 60 * 60
        | .archiveStoppedAfterSeconds => 30 * 24 * 60 * 60
        | .defaultVCPUs => 1
        | .defaultMemoryMinMiB => 384
        | .defaultMemoryMaxMiB => 1024
        | .defaultDiskBytes => 512 * 1024 * 1024
      flag := fun
        | .firewallEnabled => true
        | .dnsEnabled => true
      upstreamServers := ["1.1.1.1:53", "8.8.8.8:53"] }
  peers := []

/-- The places in `config.Config`.  `peer` is the last element of the peers,
and `upstreamServer` and `peerAllowedIP` are last elements too. -/
inductive Place
  | root
  | sect (s : Section)
  | text (f : TextField)
  | num (f : NumField)
  | flag (f : FlagField)
  | upstreamServers
  | upstreamServer
  | peers
  | peer
  | peerName
  | peerPublicKey
  | peerAllowedIPs
  | peerAllowedIP
  deriving DecidableEq, Repr

/-- The fields of a section, by their keys. -/
def sectionFields : Section → List (String × Place)
  | .api => [("port", .num .apiPort)]
  | .caddy =>
      [("http_port", .num .httpPort), ("https_port", .num .httpsPort),
        ("internal_proxy_port", .num .internalProxyPort), ("tls_mode", .text .tlsMode)]
  | .metadata => [("path", .text .metadataPath)]
  | .wireGuard =>
      [("interface", .text .interface), ("listen_port", .num .listenPort),
        ("address", .text .address), ("endpoint", .text .endpoint),
        ("private_key_file", .text .privateKeyFile), ("peers", .peers)]
  | .hostFirewall => [("enabled", .flag .firewallEnabled), ("backend", .text .backend)]
  | .guestControl => [("memory_port", .num .memoryPort)]
  | .vmNetwork => [("subnet", .text .subnet), ("ipv4_subnet", .text .ipv4Subnet)]
  | .dns =>
      [("enabled", .flag .dnsEnabled), ("domain", .text .domain), ("listen_ip", .text .listenIP),
        ("port", .num .dnsPort), ("ttl_seconds", .num .ttlSeconds),
        ("upstream_servers", .upstreamServers)]
  | .ssh => [("user", .text .user), ("wake_proxy_port", .num .wakeProxyPort)]
  | .idle =>
      [("check_interval_seconds", .num .checkIntervalSeconds),
        ("default_sleep_after_seconds", .num .defaultSleepAfterSeconds)]
  | .coldStorage =>
      [("dir", .text .coldStorageDir),
        ("archive_stopped_after_seconds", .num .archiveStoppedAfterSeconds)]
  | .firecracker =>
      [("binary_path", .text .binaryPath), ("base_kernel_path", .text .baseKernelPath),
        ("base_initrd_path", .text .baseInitrdPath), ("base_rootfs_path", .text .baseRootfsPath),
        ("default_vcpus", .num .defaultVCPUs),
        ("default_memory_min_mib", .num .defaultMemoryMinMiB),
        ("default_memory_max_mib", .num .defaultMemoryMaxMiB),
        ("default_disk_bytes", .num .defaultDiskBytes)]

/-- The fields of a struct, by their keys. -/
def fields : Place → Option (List (String × Place))
  | .root => some
      [("base_domain", .text .baseDomain), ("default_http_port", .num .defaultHTTPPort),
        ("state_dir", .text .stateDir), ("api", .sect .api), ("caddy", .sect .caddy),
        ("metadata", .sect .metadata), ("wireguard", .sect .wireGuard),
        ("host_firewall", .sect .hostFirewall), ("guest_control", .sect .guestControl),
        ("vm_network", .sect .vmNetwork), ("dns", .sect .dns), ("ssh", .sect .ssh),
        ("idle", .sect .idle), ("cold_storage", .sect .coldStorage),
        ("firecracker", .sect .firecracker)]
  | .sect s => some (sectionFields s)
  | .peer => some
      [("name", .peerName), ("public_key", .peerPublicKey), ("allowed_ips", .peerAllowedIPs)]
  | _ => none

/-- The last element of a list, changed. -/
def modifyLast {α : Type} (f : α → α) (l : List α) : List α :=
  match l.getLast? with
  | none => []
  | some a => l.dropLast ++ [f a]

theorem modifyLast_append {α : Type} (f : α → α) (l : List α) (a : α) :
    modifyLast f (l ++ [a]) = l ++ [f a] := by
  simp [modifyLast]

namespace Config

variable (c : Config)

def setText (f : TextField) (s : String) : Config :=
  { c with settings := { c.settings with text := Function.update c.settings.text f s } }

def setNum (f : NumField) (n : Int) : Config :=
  { c with settings := { c.settings with num := Function.update c.settings.num f n } }

def setFlag (f : FlagField) (b : Bool) : Config :=
  { c with settings := { c.settings with flag := Function.update c.settings.flag f b } }

def setUpstreamServers (l : List String) : Config :=
  { c with settings := { c.settings with upstreamServers := l } }

/-- Change the last peer. -/
def modifyPeer (f : WGPeer → WGPeer) : Config := { c with peers := modifyLast f c.peers }

end Config

/-- A struct of the type `config.Config`, as `toml.Unmarshal` fills it. -/
def configTarget : Target Config Place where
  root := .root
  fields := fields
  elem
    | .upstreamServers => some .upstreamServer
    | .peers => some .peer
    | .peerAllowedIPs => some .peerAllowedIP
    | _ => none
  isEmpty p c :=
    match p with
    | .upstreamServers => c.settings.upstreamServers.isEmpty
    | .peers => c.peers.isEmpty
    | .peerAllowedIPs => c.peers.getLast?.all fun peer => peer.allowedIPs.isEmpty
    | _ => false
  setStr p s c :=
    match p with
    | .text f => some (c.setText f s)
    | .upstreamServer =>
        some (c.setUpstreamServers (modifyLast (fun _ => s) c.settings.upstreamServers))
    | .peerName => some (c.modifyPeer fun peer => { peer with name := s })
    | .peerPublicKey => some (c.modifyPeer fun peer => { peer with publicKey := s })
    | .peerAllowedIP =>
        some (c.modifyPeer fun peer =>
          { peer with allowedIPs := modifyLast (fun _ => s) peer.allowedIPs })
    | _ => none
  setScalar p x c :=
    match p, x with
    | .num f, .int n => if -2 ^ 63 ≤ n ∧ n < 2 ^ 63 then some (c.setNum f n) else none
    | .flag f, .bool b => some (c.setFlag f b)
    | _, _ => none
  clear p c :=
    match p with
    | .upstreamServers => some (c.setUpstreamServers [])
    | .peers => some { c with peers := [] }
    | .peerAllowedIPs => some (c.modifyPeer fun peer => { peer with allowedIPs := [] })
    | _ => none
  push p c :=
    match p with
    | .upstreamServers => some (c.setUpstreamServers (c.settings.upstreamServers ++ [""]))
    | .peers => some { c with peers := c.peers ++ [⟨"", "", []⟩] }
    | .peerAllowedIPs =>
        some (c.modifyPeer fun peer => { peer with allowedIPs := peer.allowedIPs ++ [""] })
    | _ => none

/-! ## The firewall -/

/-- The struct of `validateExplicitHostFirewall`: pointers to what the file
sets. -/
structure RawFirewall where
  enabled : Option Bool
  backend : Option String

/-- The places in it. -/
inductive RawPlace
  | root
  | hostFirewall
  | enabled
  | backend

def rawTarget : Target RawFirewall RawPlace where
  root := .root
  fields
    | .root => some [("host_firewall", .hostFirewall)]
    | .hostFirewall => some [("enabled", .enabled), ("backend", .backend)]
    | _ => none
  elem _ := none
  isEmpty _ _ := false
  setStr p s c :=
    match p with
    | .backend => some { c with backend := some s }
    | _ => none
  setScalar p x c :=
    match p, x with
    | .enabled, .bool b => some { c with enabled := some b }
    | _, _ => none
  clear _ _ := none
  push _ _ := none

section Load

variable (L : ConfigLib)

/-- `toml.Unmarshal` into a configuration. -/
def unmarshalConfig (text : List Char) : Option Config :=
  unmarshal L.unicode configTarget L.bare text .default

/-- `toml.Unmarshal` of `validateExplicitHostFirewall`. -/
def unmarshalFirewall (text : List Char) : Option RawFirewall :=
  unmarshal L.unicode rawTarget L.bare text ⟨none, none⟩

/-- `validateExplicitHostFirewall`. -/
def validateExplicitHostFirewall (text : List Char) : Except Err Unit :=
  match unmarshalFirewall L text with
  | none => .error (.msg "toml")
  | some raw =>
      if raw.enabled.getD true ∧ raw.backend = none then
        .error (.msg "host_firewall.backend is required when host_firewall.enabled is true")
      else .ok ()

/-! ## Defaults and checks -/

/-- A string that takes a default if it is empty. -/
def Settings.orText (s : Settings) (f : TextField) (d : String) : Settings :=
  if s.text f = "" then { s with text := Function.update s.text f d } else s

/-- A number that takes a default if it is zero. -/
def Settings.orNum (s : Settings) (f : NumField) (d : Int) : Settings :=
  if s.num f = 0 then { s with num := Function.update s.num f d } else s

/-- `applyDerivedDefaults`. -/
def applyDerivedDefaults (s : Settings) : Except Err Settings :=
  let s := s.orText .stateDir "/var/lib/firedoze"
  let s := s.orText .metadataPath (L.joinPath (s.text .stateDir) "firedoze.db")
  let s := s.orNum .archiveStoppedAfterSeconds (30 * 24 * 60 * 60)
  let s := s.orText .ipv4Subnet "10.88.0.0/16"
  if s.flag .dnsEnabled then
    let s := s.orText .domain "firedoze"
    let s := s.orNum .dnsPort 53
    let s := s.orNum .ttlSeconds 30
    let s :=
      if s.upstreamServers = [] then { s with upstreamServers := ["1.1.1.1:53", "8.8.8.8:53"] }
      else s
    if s.text .listenIP = "" then
      match L.firstUsableIP (s.text .subnet) with
      | .error e => .error (.msg e)
      | .ok ip => .ok { s with text := Function.update s.text .listenIP ip }
    else .ok s
  else .ok s

/-- The first check that does not hold. -/
def firstFailure : List (Bool × String) → Except Err Unit
  | [] => .ok ()
  | (ok, msg) :: rest => if ok then firstFailure rest else .error (.msg msg)

namespace Settings

variable (s : Settings)

def required (f : TextField) (name : String) : Bool × String :=
  (s.text f != "", name ++ " is required")

def port (f : NumField) (name : String) : Bool × String :=
  (decide (0 < s.num f ∧ s.num f ≤ 65535), name ++ " must be between 1 and 65535")

def positive (f : NumField) (name : String) : Bool × String :=
  (decide (0 < s.num f), name ++ " must be positive")

def nonnegative (f : NumField) (name : String) : Bool × String :=
  (decide (0 ≤ s.num f), name ++ " cannot be negative")

def noURL (f : TextField) (name : String) : Bool × String :=
  (!Text.contains (s.text f) "://", name ++ " must be a DNS name, not a URL")

/-- A network of the given kind. -/
def checkSubnet (f : TextField) (name : String) (ipv4 : Bool) : Except Err Unit :=
  match L.net.parseCIDR (s.text f) with
  | .error e => .error (.msg (name ++ " must be CIDR: " ++ e))
  | .ok (ip, _) =>
      if L.net.isIPv4 ip = ipv4 then .ok ()
      else .error (.msg (name ++ " must be " ++ if ipv4 then "IPv4" else "IPv6"))

/-- The upstream servers, from the given position on. -/
def checkUpstreams (i : Nat) : List String → Except Err Unit
  | [] => .ok ()
  | upstream :: rest =>
      match Text.splitHostPort upstream with
      | some (host, port) =>
          if host = "" ∨ port = "" then
            .error (.msg ("dns.upstream_servers[" ++ toString i ++ "] must be host:port"))
          else checkUpstreams (i + 1) rest
      | none => .error (.msg ("dns.upstream_servers[" ++ toString i ++ "] must be host:port"))

/-- `Validate` before the section of WireGuard. -/
def checkServer : Except Err Unit :=
  firstFailure
    [s.required .baseDomain "base_domain", s.noURL .baseDomain "base_domain",
      s.port .defaultHTTPPort "default_http_port", s.required .stateDir "state_dir",
      s.port .apiPort "api.port", s.port .httpPort "caddy.http_port",
      s.port .httpsPort "caddy.https_port", s.port .internalProxyPort "caddy.internal_proxy_port",
      s.required .tlsMode "caddy.tls_mode",
      (s.text .tlsMode == "auto" || s.text .tlsMode == "behind_proxy",
        "caddy.tls_mode must be auto or behind_proxy"),
      s.required .metadataPath "metadata.path"]

/-- `Validate` of the section of the DNS server. -/
def checkDNS : Except Err Unit :=
  if s.flag .dnsEnabled then do
    firstFailure
      [(s.text .domain != "", "dns.domain is required when dns is enabled"),
        s.noURL .domain "dns.domain",
        (L.parseIP (s.text .listenIP), "dns.listen_ip must be an IP address"),
        s.port .dnsPort "dns.port", s.positive .ttlSeconds "dns.ttl_seconds"]
    checkUpstreams 0 s.upstreamServers
  else .ok ()

/-- `Validate` after the section of WireGuard. -/
def checkHost : Except Err Unit := do
  firstFailure
    [(!(s.flag .firewallEnabled && s.text .backend == ""),
        "host_firewall.backend is required when host_firewall.enabled is true"),
      (s.text .backend == "" || s.text .backend == "ip6tables",
        "host_firewall.backend must be ip6tables"),
      s.port .memoryPort "guest_control.memory_port"]
  s.checkSubnet L .subnet "vm_network.subnet" false
  s.checkSubnet L .ipv4Subnet "vm_network.ipv4_subnet" true
  s.checkDNS L
  firstFailure
    [s.required .user "ssh.user", s.port .wakeProxyPort "ssh.wake_proxy_port",
      s.positive .checkIntervalSeconds "idle.check_interval_seconds",
      s.nonnegative .defaultSleepAfterSeconds "idle.default_sleep_after_seconds",
      s.nonnegative .archiveStoppedAfterSeconds "cold_storage.archive_stopped_after_seconds",
      s.required .binaryPath "firecracker.binary_path",
      s.required .baseKernelPath "firecracker.base_kernel_path",
      s.required .baseRootfsPath "firecracker.base_rootfs_path",
      s.positive .defaultVCPUs "firecracker.default_vcpus",
      s.positive .defaultMemoryMinMiB "firecracker.default_memory_min_mib",
      s.positive .defaultMemoryMaxMiB "firecracker.default_memory_max_mib",
      (decide (s.num .defaultMemoryMinMiB ≤ s.num .defaultMemoryMaxMiB),
        "firecracker.default_memory_min_mib must be less than or equal to " ++
          "firecracker.default_memory_max_mib"),
      s.positive .defaultDiskBytes "firecracker.default_disk_bytes"]

end Settings

/-- The section of WireGuard. -/
def Config.wireGuard (c : Config) : WireGuardConfig where
  interface := c.settings.text .interface
  listenPort := c.settings.num .listenPort
  address := c.settings.text .address
  endpoint := c.settings.text .endpoint
  privateKeyFile := c.settings.text .privateKeyFile
  peers := c.peers

/-- `Config.Validate`. -/
def Config.validate (c : Config) : Except Err Unit := do
  c.settings.checkServer
  c.wireGuard.validate L.net
  c.settings.checkHost L

/-- `Load` of a file with the given text. -/
def load (text : List Char) : Except Err Config :=
  match unmarshalConfig L text with
  | none => .error (.msg "toml")
  | some c => do
      validateExplicitHostFirewall L text
      let settings ← applyDerivedDefaults L c.settings
      let c := { c with settings := settings }
      c.validate L
      .ok c

variable {L} {text : List Char} {c cfg : Config}

theorem bind_eq_ok {α β : Type} {x : Except Err α} {f : α → Except Err β} {b : β} :
    (x >>= f) = .ok b ↔ ∃ a, x = .ok a ∧ f a = .ok b := by
  cases x with
  | error e | ok a => simp [bind, Except.bind]

theorem validate_eq_ok : c.validate L = .ok () ↔
    c.settings.checkServer = .ok () ∧ c.wireGuard.validate L.net = .ok () ∧
      c.settings.checkHost L = .ok () := by
  unfold Config.validate
  constructor
  · intro h
    obtain ⟨_, hserver, h⟩ := bind_eq_ok.mp h
    obtain ⟨_, hwireGuard, hhost⟩ := bind_eq_ok.mp h
    exact ⟨hserver, hwireGuard, hhost⟩
  · rintro ⟨hserver, hwireGuard, hhost⟩
    exact bind_eq_ok.mpr ⟨(), hserver, bind_eq_ok.mpr ⟨(), hwireGuard, hhost⟩⟩

/-- What a configuration is loaded from. -/
structure LoadedFrom (L : ConfigLib) (text : List Char) (cfg c : Config) : Prop where
  unmarshal : unmarshalConfig L text = some c
  firewall : validateExplicitHostFirewall L text = .ok ()
  settings : applyDerivedDefaults L c.settings = .ok cfg.settings
  peers : cfg.peers = c.peers
  valid : cfg.validate L = .ok ()

theorem load_eq_ok : load L text = .ok cfg ↔ ∃ c, LoadedFrom L text cfg c := by
  constructor
  · intro h
    unfold load at h
    split at h
    · cases h
    · rename_i c hc
      obtain ⟨_, hfirewall, h⟩ := bind_eq_ok.mp h
      obtain ⟨settings, hsettings, h⟩ := bind_eq_ok.mp h
      obtain ⟨_, hvalid, h⟩ := bind_eq_ok.mp h
      cases h
      exact ⟨c, hc, hfirewall, hsettings, rfl, hvalid⟩
  · rintro ⟨c, h⟩
    obtain ⟨settings, peers⟩ := cfg
    obtain rfl : peers = c.peers := h.peers
    unfold load
    rw [h.unmarshal]
    exact bind_eq_ok.mpr ⟨(), h.firewall, bind_eq_ok.mpr ⟨settings, h.settings,
      bind_eq_ok.mpr ⟨(), h.valid, rfl⟩⟩⟩

/-- A text that is decoded with the same settings is loaded with the same
settings. -/
theorem LoadedFrom.eq_of_load (h : LoadedFrom L text cfg c) {text' : List Char} {cfg' : Config}
    {peers : List WGPeer} (hc : unmarshalConfig L text' = some { c with peers := peers })
    (hload : load L text' = .ok cfg') : cfg' = { cfg with peers := peers } := by
  obtain ⟨c', h'⟩ := load_eq_ok.mp hload
  obtain rfl := Option.some.inj (hc.symm.trans h'.unmarshal)
  have hsettings : cfg'.settings = cfg.settings :=
    Except.ok.inj (h'.settings.symm.trans h.settings)
  have hpeers : cfg'.peers = peers := h'.peers
  obtain ⟨settings', peers'⟩ := cfg'
  simp only at hsettings hpeers
  rw [hsettings, hpeers]

/-- Another text with the same settings, and with other peers. -/
theorem LoadedFrom.with_peers (h : LoadedFrom L text cfg c) {text' : List Char}
    {peers : List WGPeer} (hc : unmarshalConfig L text' = some { c with peers := peers })
    (hfw : unmarshalFirewall L text' = unmarshalFirewall L text)
    (hvalid : ({ cfg with peers := peers } : Config).wireGuard.validate L.net = .ok ()) :
    LoadedFrom L text' { cfg with peers := peers } { c with peers := peers } where
  unmarshal := hc
  firewall := by
    have h' := h.firewall
    unfold validateExplicitHostFirewall at h' ⊢
    rw [hfw]
    exact h'
  settings := h.settings
  peers := rfl
  valid := by
    obtain ⟨hserver, -, hhost⟩ := validate_eq_ok.mp h.valid
    exact validate_eq_ok.mpr ⟨hserver, hvalid, hhost⟩

end Load

/-! ## A library for fixed texts -/

/-- A library that reads decimal numbers, and the networks of the defaults. -/
def plainConfigLib : ConfigLib where
  net := plainNetSyntax
  unicode := .ascii
  bare token :=
    if token = "true".toList then some (.bool true)
    else if token = "false".toList then some (.bool false)
    else if token.all Char.isDigit then
      some (.int (token.foldl (fun n c => n * 10 + (c.toNat - 48 : Nat)) (0 : Nat)))
    else none
  parseIP s := s.toList.contains ':'
  joinPath dir file := dir ++ "/" ++ file
  firstUsableIP _ := .ok "fd7a:115c:a1e0::1"

/-- A file without peers. -/
def noPeersFile : List Char := "[host_firewall]\nbackend = \"ip6tables\"".toList

/-- A file with one peer, under a key for the section. -/
def onePeerFile (key : String) : List Char :=
  ['\n'].intercalate
    [noPeersFile, "[[".toList ++ key.toList ++ ".peers]] # laptop".toList, "name = \"ada\"".toList,
      "public_key = \"AAAAAAAAAAAAAAAAAAAAAAAAAAAAAAAAAAAAAAAAAAA=\"".toList,
      "allowed_ips = [\"fd::2/128\"]".toList]

end Firedoze.ConfigFile
