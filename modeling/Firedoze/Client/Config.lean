import Firedoze.Client.Args
import Firedoze.Slice.Keyed

/-!
# The configuration of the client

`firedoze server` of `cmd/firedoze/client_config.go` keeps the servers of a user
in a file, `config.toml`.  This module is its commands, in the words of the
source.

A command is a `do` block of `Command`: it may fail, and it has the bytes of the
file as its state.  Everything that a command gets from outside of the file is in
its `Invocation`: its arguments, the answers of the file system, the key pair
that it is given, and whether it could print its answer.  `saveClientConfig`
writes to another file and renames it, so a failure leaves the file as it was.

The packages that the commands use are a parameter, `ClientLib`.  The only thing
that is assumed about them is that the TOML package reads back what it has
written, if it reads it at all.
-/

namespace Firedoze.Client

open Text

/-! ## Records -/

/-- `clientWireGuardConfig`. -/
structure ClientWireGuardConfig where
  privateKey : String
  address : String
  serverPublicKey : String
  endpoint : String
  allowedIPs : List String
  deriving DecidableEq, Repr

/-- `clientServerConfig`. -/
structure ClientServerConfig where
  name : String
  apiURL : String
  wireGuard : Option ClientWireGuardConfig := none
  deriving DecidableEq, Repr

/-- `clientPendingRequest`. -/
structure ClientPendingRequest where
  name : String
  privateKey : String
  deriving DecidableEq, Repr

/-- `clientConfig`. -/
structure ClientConfig where
  defaultServer : String := ""
  servers : List ClientServerConfig := []
  pendingPeers : List ClientPendingRequest := []
  deriving DecidableEq, Repr

/-- `clientWireGuardImportConfig`. -/
structure ClientWireGuardImportConfig where
  address : String
  serverPublicKey : String
  endpoint : String
  allowedIPs : List String
  deriving DecidableEq, Repr

/-- `serverImportConfig`. -/
structure ServerImportConfig where
  apiURL : String
  clientPublicKey : String
  wireGuard : ClientWireGuardImportConfig
  deriving DecidableEq, Repr

/-- `wgconfig.ClientKeyPair`. -/
structure ClientKeyPair where
  privateKey : String
  publicKey : String
  deriving DecidableEq, Repr

/-! ## Packages -/

/-- What `url.Parse` finds.  `withHost` is the text of the URL with a host. -/
structure URL where
  scheme : String
  host : String
  hostname : String
  port : String
  withHost : String → String

/-- The packages that the commands use. -/
structure ClientLib where
  unicode : Unicode
  /-- The verb `%q`. -/
  quote : String → String
  marshal : ClientConfig → Except String Bytes
  unmarshal : Bytes → Except String ClientConfig
  unmarshalImport : Bytes → Except String ServerImportConfig
  parseURL : String → Except String URL
  /-- `wgtypes.ParseKey`. -/
  parseKey : String → Except String Bytes
  /-- `Key.PublicKey` and `Key.String`. -/
  publicKey : Bytes → String
  /-- `netip.ParsePrefix`, as far as it fails. -/
  parsePrefix : String → Except String Unit
  /-- What was written is read as it was, or is not read. -/
  unmarshal_marshal : ∀ {cfg cfg' : ClientConfig} {data : Bytes},
    marshal cfg = .ok data → unmarshal data = .ok cfg' → cfg' = cfg

/-- One call of `firedoze server`, with what it gets from outside of the file. -/
structure Invocation where
  args : List String
  /-- The path of the file. -/
  configPath : Except String String
  /-- Errors of reading the file, other than that it is not there. -/
  readConfig : Except String Unit
  /-- Errors of the steps of saving, up to the rename. -/
  writeConfig : Except String Unit
  readInput : String → Except String Bytes
  generateKeyPair : Except String ClientKeyPair
  /-- What printing the answer returns. -/
  print : Except String Unit

/-- A program on the file. -/
abbrev Command := ExceptT String (StateM (Option Bytes))

/-- The answer of a program, and the file after it. -/
def Command.exec {α : Type} (m : Command α) (file : Option Bytes) :
    Except String α × Option Bytes := (StateT.run (ExceptT.run m) file).run

/-! ## Looking things up -/

namespace ClientConfig

variable (cfg : ClientConfig)

/-- `clientConfig.findServer`. -/
def findServer (name : String) : Option ClientServerConfig :=
  cfg.servers.find? fun server => decide (server.name = name)

/-- Write over the server at `findServerIndex`, or append it. -/
def putServer (server : ClientServerConfig) : ClientConfig :=
  { cfg with servers := Slice.put ClientServerConfig.name server cfg.servers }

/-- Write over the request at `findPendingIndexByName`, or append it. -/
def putPending (pending : ClientPendingRequest) : ClientConfig :=
  { cfg with pendingPeers := Slice.put ClientPendingRequest.name pending cfg.pendingPeers }

/-- Make a server the default, if that is asked for or there is none. -/
def chooseDefault (name : String) (makeDefault : Bool) : ClientConfig :=
  if makeDefault ∨ cfg.defaultServer = "" then { cfg with defaultServer := name } else cfg

/-- The servers without one of this name.  It is not the default anymore. -/
def withoutServer (name : String) (servers : List ClientServerConfig) : ClientConfig :=
  { cfg with
    servers := servers
    defaultServer := if cfg.defaultServer = name then "" else cfg.defaultServer }

end ClientConfig

namespace ClientLib

variable (L : ClientLib) (c : Invocation)

/-- `wgconfig.PublicKeyFromPrivateKey`. -/
def publicKeyFromPrivateKey (privateKey : String) : Except String String :=
  match L.parseKey (trimSpace L.unicode privateKey) with
  | .error err => .error ("private key: " ++ err)
  | .ok key => .ok (L.publicKey key)

/-- The public key of a request. -/
def pendingPublicKey (pending : ClientPendingRequest) : Except String String :=
  match L.publicKeyFromPrivateKey pending.privateKey with
  | .error err => .error ("pending WireGuard request " ++ L.quote pending.name ++ ": " ++ err)
  | .ok key => .ok key

/-- The loop of `findPendingByPublicKey`. -/
def findPending (publicKey : String) :
    List ClientPendingRequest → Except String (Option ClientPendingRequest)
  | [] => .ok none
  | pending :: rest => do
      if (← L.pendingPublicKey pending) = publicKey then return some pending
      findPending publicKey rest

/-- `removePendingByPublicKey`. -/
def removePendingByPublicKey (cfg : ClientConfig) (publicKey : String) :
    Except String ClientConfig := do
  let kept ← Slice.filterInPlace
    (fun pending => return (← L.pendingPublicKey pending) ≠ publicKey) cfg.pendingPeers
  return { cfg with pendingPeers := kept }

/-! ## Checks -/

/-- `validateServerName`. -/
def validateServerName (name : String) : Except String Unit :=
  if name = "" then .error "server name is required"
  else if name.toList.any fun r => L.unicode.isSpace r || r == '/' || r == '\\' || r.toNat == 0 then
    .error ("server name " ++ L.quote name ++ " contains an invalid character")
  else .ok ()

/-- An error, unless a condition holds. -/
def ensure (condition : Bool) (err : String) : Except String Unit :=
  if condition then .ok () else .error err

/-- `normalizeAPIURL`. -/
def normalizeAPIURL (rawURL : String) : Except String String := do
  let u ← L.parseURL rawURL
  ensure (u.scheme ≠ "" ∧ u.host ≠ "") ("API URL must include scheme and host: " ++ rawURL)
  let host := if u.port = "" then joinHostPort u.hostname "8081" else u.host
  return String.ofList ((u.withHost host).toList.reverse.dropWhile (· == '/')).reverse

/-- An error with what it is about. -/
def describe {α : Type} (what : String) : Except String α → Except String α
  | .ok a => .ok a
  | .error err => .error (what ++ ": " ++ err)

/-- The loop over the allowed addresses, from an index on. -/
def validateAllowedIPs : Nat → List String → Except String Unit
  | _, [] => .ok ()
  | i, allowedIP :: rest => do
      describe ("wireguard allowed_ips[" ++ toString i ++ "]") (L.parsePrefix allowedIP)
      validateAllowedIPs (i + 1) rest

/-- `Config.Validate` of the package `clientwg`. -/
def validateWireGuard (cfg : ClientWireGuardConfig) : Except String Unit := do
  let _ ← describe "wireguard private key" (L.parseKey cfg.privateKey)
  let _ ← describe "wireguard server public key" (L.parseKey cfg.serverPublicKey)
  describe "wireguard address must be CIDR" (L.parsePrefix cfg.address)
  ensure (trimSpace L.unicode cfg.endpoint ≠ "") "wireguard endpoint is required"
  ensure (cfg.allowedIPs ≠ []) "wireguard allowed_ips is required"
  L.validateAllowedIPs 0 cfg.allowedIPs

/-! ## The file -/

/-- The configuration that the bytes of the file stand for. -/
def decode : Option Bytes → Except String ClientConfig
  | none => .ok {}
  | some data => L.unmarshal data

/-- `loadClientConfig`. -/
def loadClientConfig : Command ClientConfig := do
  let path ← ofExcept c.configPath
  ofExcept c.readConfig
  ofExcept (describe ("read " ++ path) (L.decode (← get)))

/-- `saveClientConfig`. -/
def saveClientConfig (cfg : ClientConfig) : Command Unit := do
  let _ ← ofExcept c.configPath
  let data ← ofExcept (L.marshal cfg)
  ofExcept c.writeConfig
  set (some data)

/-! ## The commands -/

/-- `firedoze server request`. -/
def request (name : String) : Command Unit := do
  ofExcept (L.validateServerName name)
  let keyPair ← ofExcept c.generateKeyPair
  let cfg ← L.loadClientConfig c
  L.saveClientConfig c (cfg.putPending ⟨name, keyPair.privateKey⟩)
  ofExcept c.print

/-- What `firedoze server import` was asked to import. -/
structure ImportInput extends ImportArgs where
  config : ServerImportConfig

/-- The usage behind an error. -/
def withUsage {α : Type} (usage : String) : Except String α → Except String α
  | .ok a => .ok a
  | .error err => .error (err ++ "\nusage: " ++ usage)

/-- The arguments and the file of an import. -/
def readImport (args : List String) : Except String ImportInput := do
  let parsed ← withUsage "firedoze server import <file> [-name NAME] [-default]"
    (parseServerImportArgs L.quote args)
  let data ← c.readInput parsed.inputPath
  let config ← describe "read server import" (L.unmarshalImport data)
  return { parsed with config := config }

/-- The name under which a server is imported: the one that was given, else the
one of the file, else the one of the request. -/
def importName (input : ImportInput) (pending : ClientPendingRequest) : String :=
  let name := trimSpace L.unicode input.nameOverride
  let name := if name = "" then serverNameFromImportPath L.unicode input.inputPath else name
  if name = "" then pending.name else name

/-- The part of an entry that comes from the import file and the request. -/
def importWireGuard (input : ImportInput) (pending : ClientPendingRequest) :
    ClientWireGuardConfig where
  privateKey := pending.privateKey
  address := input.config.wireGuard.address
  serverPublicKey := input.config.wireGuard.serverPublicKey
  endpoint := input.config.wireGuard.endpoint
  allowedIPs := input.config.wireGuard.allowedIPs

/-- `firedoze server import`. -/
def importServer (args : List String) : Command Unit := do
  let input ← ofExcept (L.readImport c args)
  let cfg ← L.loadClientConfig c
  let some pending ← ofExcept (L.findPending input.config.clientPublicKey cfg.pendingPeers)
    | throw ("no matching pending WireGuard request: run \"firedoze server request <name>\" on " ++
        "this client and ask the admin to add that public key")
  let name := L.importName input pending
  ofExcept (L.validateServerName name)
  let normalizedAPIURL ← ofExcept (L.normalizeAPIURL input.config.apiURL)
  let wireGuardConfig := importWireGuard input pending
  ofExcept (L.validateWireGuard wireGuardConfig)
  let cfg := cfg.putServer ⟨name, normalizedAPIURL, some wireGuardConfig⟩
  let cfg ← ofExcept (L.removePendingByPublicKey cfg input.config.clientPublicKey)
  L.saveClientConfig c (cfg.chooseDefault name input.makeDefault)
  ofExcept c.print

/-- `firedoze server add`. -/
def addServer (args : List String) : Command Unit := do
  let parsed ← ofExcept (withUsage "firedoze server add <name> <api-url> [-default]"
    (parseServerAddArgs L.quote args))
  ofExcept (L.validateServerName parsed.name)
  let normalized ← ofExcept (L.normalizeAPIURL parsed.apiURL)
  let cfg ← L.loadClientConfig c
  let cfg := cfg.putServer ⟨parsed.name, normalized, none⟩
  L.saveClientConfig c (cfg.chooseDefault parsed.name parsed.makeDefault)
  ofExcept c.print

/-- `firedoze server use`. -/
def useServer (name : String) : Command Unit := do
  let cfg ← L.loadClientConfig c
  ofExcept (ensure (cfg.findServer name).isSome ("unknown firedoze server " ++ L.quote name))
  L.saveClientConfig c { cfg with defaultServer := name }
  ofExcept c.print

/-- The loop of `firedoze server remove`. -/
def removeServers : List String → ClientConfig → Except String ClientConfig
  | [], cfg => .ok cfg
  | name :: names, cfg =>
      match Slice.cut ClientServerConfig.name name cfg.servers with
      | none => .error ("unknown firedoze server " ++ L.quote name)
      | some servers => removeServers names (cfg.withoutServer name servers)

/-- `firedoze server remove`. -/
def remove (names : List String) : Command Unit := do
  ofExcept (ensure (names ≠ []) "usage: firedoze server remove <name> [name...]")
  let cfg ← L.loadClientConfig c
  let cfg ← ofExcept (L.removeServers names cfg)
  L.saveClientConfig c cfg
  ofExcept c.print

/-- `firedoze server list`. -/
def list : Command Unit := do
  let _ ← L.loadClientConfig c
  ofExcept c.print

/-- `firedoze server current`. -/
def current : Command Unit := do
  let cfg ← L.loadClientConfig c
  let path ← ofExcept c.configPath
  let name :=
    match cfg.defaultServer, cfg.servers with
    | "", [server] => server.name
    | name, _ => name
  ofExcept (ensure (name ≠ "") ("no default firedoze server configured at " ++ path))
  ofExcept (ensure (cfg.findServer name).isSome
    ("default firedoze server " ++ L.quote name ++ " is not configured in " ++ path))
  ofExcept c.print

/-- `firedoze server path`. -/
def path : Command Unit := do
  let _ ← ofExcept c.configPath
  ofExcept c.print

/-- `app.server`. -/
def server : List String → Command Unit
  | [] => throw "usage: firedoze server <request|import|add|list|use|remove|current|path>"
  | "request" :: [name] => L.request c name
  | "request" :: _ => throw "usage: firedoze server request <name>"
  | "import" :: args => L.importServer c args
  | "add" :: args => L.addServer c args
  | "list" :: _ => L.list c
  | "ls" :: _ => L.list c
  | "use" :: [name] => L.useServer c name
  | "use" :: _ => throw "usage: firedoze server use <name>"
  | "remove" :: names => L.remove c names
  | "rm" :: names => L.remove c names
  | "current" :: _ => L.current c
  | "path" :: _ => path c
  | command :: _ => throw ("unknown server command " ++ L.quote command)

/-- One call: its answer, and the file after it. -/
def call (file : Option Bytes) : Except String Unit × Option Bytes :=
  (L.server c c.args).exec file

/-- The file after a sequence of calls. -/
def calls (file : Option Bytes) (history : List Invocation) : Option Bytes :=
  history.foldl (fun file c => (L.call c file).2) file

end ClientLib

end Firedoze.Client
