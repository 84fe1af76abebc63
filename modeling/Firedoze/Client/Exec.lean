import Firedoze.Proxy.Hosts
import Firedoze.Shell.Words

/-!
# Commands in a VM

`firedoze exec` of `cmd/firedoze/main.go` runs a command in a VM.  It starts
`ssh` with the arguments of the command behind the destination, and `ssh` joins
what stands there to one line for the shell of the guest.

* `App.exec` answers the arguments that it starts `ssh` with.
* `sshOperands` is how `ssh` reads its arguments: options, the destination,
  options again, and the command.
* `remoteWords` are the words that the shell of the guest executes.

`exec` does not quote the arguments.  `executesArguments_iff` says for which
arguments the shell executes the words that were given.  The functions that
quote, `shellJoin` and `shellQuote`, stand in the same file.  They are used for the
`ProxyCommand` option and for `rsync`.
-/

namespace Firedoze.Client

open Text

variable (U : Unicode)

/-! ## What the API tells about a VM -/

/-- The part of the answer of the API that the commands read. -/
structure VMInfo where
  name : String
  privateIP : String
  ssh : String
  deriving DecidableEq, Repr

/-- The part of the configuration of the daemon that names a VM. -/
structure NameConfig where
  baseDomain : String
  sshUser : String
  deriving DecidableEq, Repr

namespace NameConfig

variable (cfg : NameConfig)

/-- What `ssh` is told to connect to. -/
def destination (name : String) : String :=
  cfg.sshUser ++ "@" ++ defaultHostname cfg.baseDomain name

/-- `Server.vmInfo`. -/
def vmInfo (name privateIP : String) : VMInfo where
  name := name
  privateIP := privateIP
  ssh := "ssh" ++ " " ++ cfg.destination name

/-- The destination is one word, and is not an option. -/
structure Names (name : String) : Prop where
  no_space : ∀ c ∈ (cfg.destination name).toList, U.isSpace c = false
  user_ne : cfg.sshUser ≠ ""
  no_option : cfg.sshUser.toList.head? ≠ some '-'

end NameConfig

/-! ## Quoting -/

/-- The characters that `shellQuote` leaves alone. -/
def isSafe (c : Char) : Bool :=
  c == '/' || c == '.' || c == '_' || c == '-' || c == ':' || c == '=' || c == '@' ||
    ('0' ≤ c && c ≤ '9') || ('A' ≤ c && c ≤ 'Z') || ('a' ≤ c && c ≤ 'z')

/-- `shellQuote`. -/
def shellQuote (arg : String) : String :=
  if arg = "" then "''"
  else if arg.toList.all isSafe then arg
  else
    "'" ++ String.ofList
      (arg.toList.flatMap fun c => if c = '\'' then "'\\''".toList else [c]) ++ "'"

/-- `shellJoin`. -/
def shellJoin (args : List String) : String := " ".intercalate (args.map shellQuote)

/-! ## The arguments of ssh -/

/-- `sshTransportCommand`. -/
def sshTransportCommand (proxyCommand : String) : List String :=
  ["ssh",
    "-o", "StrictHostKeyChecking=no",
    "-o", "UserKnownHostsFile=/dev/null",
    "-o", "LogLevel=ERROR",
    "-o", "PubkeyAuthentication=no",
    "-o", "PreferredAuthentications=none,password",
    "-o", "NumberOfPasswordPrompts=1"] ++
  if proxyCommand ≠ "" then ["-o", "ProxyCommand=" ++ proxyCommand] else []

/-- The part of a destination up to the last `@`, and another host behind it. -/
def withHost (userHost host : String) : Option String :=
  (lastIndexOf '@' userHost.toList).map fun i =>
    String.ofList (userHost.toList.take (i + 1)) ++ host

/-- `sshCommandWithProxy`. -/
def sshCommandWithProxy (vm : VMInfo) (proxyCommand : String) : List String :=
  match fields U vm.ssh with
  | [] => []
  | [_] => sshTransportCommand ""
  | _ :: userHost :: rest =>
      if proxyCommand ≠ "" then
        sshTransportCommand proxyCommand ++ ((withHost userHost vm.name).getD vm.name :: rest)
      else
        -- An address goes in the place of the host, if there is a user.
        let target := if vm.privateIP ≠ "" then withHost userHost vm.privateIP else none
        sshTransportCommand "" ++ (target.getD userHost :: rest)

/-- `remoteExecCommandWithProxy`. -/
def remoteExecCommandWithProxy (vm : VMInfo) (commandArgs : List String) (proxyCommand : String) :
    List String :=
  sshCommandWithProxy U vm proxyCommand ++ ["--"] ++ commandArgs

/-! ## The command -/

/-- What the commands of the client work with. -/
structure App where
  serverName : String
  usesEmbeddedWireGuard : Bool
  firedozeCommandPath : String
  /-- The VM that a name or a UUID stands for, after it has been started. -/
  ensureVMReadyForSSH : String → Except String VMInfo
  closeWireGuard : Except String Unit

namespace App

variable (a : App)

/-- `app.sshProxyCommand`. -/
def sshProxyCommand (vmName : String) : String :=
  if a.usesEmbeddedWireGuard then
    shellJoin ([a.firedozeCommandPath] ++
      (if a.serverName ≠ "" then ["-server", a.serverName] else []) ++ ["ssh-proxy", vmName])
  else ""

/-- `app.remoteExecCommand`. -/
def remoteExecCommand (vm : VMInfo) (commandArgs : List String) : List String :=
  remoteExecCommandWithProxy U vm commandArgs (a.sshProxyCommand vm.name)

/-- `app.closeEmbeddedWireGuardBeforeProxyCommand`. -/
def closeEmbeddedWireGuardBeforeProxyCommand : Except String Unit :=
  if a.usesEmbeddedWireGuard then a.closeWireGuard else .ok ()

/-- The answer to arguments that are not a VM and a command. -/
def execUsage : String := "usage: firedoze exec <vm> -- <command> [args...]"

/-- `app.exec`, up to the arguments of the process that it starts. -/
def exec : List String → Except String (List String)
  | vmName :: first :: rest =>
      let commandArgs := if first = "--" then rest else first :: rest
      if commandArgs = [] then .error execUsage
      else do
        let vm ← a.ensureVMReadyForSSH vmName
        let sshArgs := a.remoteExecCommand U vm commandArgs
        a.closeEmbeddedWireGuardBeforeProxyCommand
        return sshArgs
  | _ => .error execUsage

end App

/-! ## The other side -/

/-- The options at the front of a list of arguments: what stands behind them, and
whether they were ended by `--`.  `-o` is the only option that is passed here. -/
def sshOptions : List String → Option (Bool × List String)
  | "-o" :: _ :: args => sshOptions args
  | "--" :: args => some (true, args)
  | arg :: args => if arg.toList.head? = some '-' then none else some (false, arg :: args)
  | [] => some (false, [])

/-- The command that `ssh` sends.  Options may also stand behind the destination,
unless they were ended before it. -/
def sshOperands : List String → Option (List String)
  | _ :: args =>
      match sshOptions args with
      | some (true, _ :: command) => some command
      | some (false, _ :: rest) => (sshOptions rest).map Prod.snd
      | _ => none
  | [] => none

/-- The words that the shell of the guest executes, if it executes the words of
one command as they are. -/
def remoteWords (argv : List String) : Option (List (List Char)) :=
  (sshOperands argv).bind fun command =>
    Shell.literalCommand (Shell.join (command.map String.toList))

/-- `firedoze exec <vm> -- args...` makes the guest execute the arguments. -/
def ExecutesArguments (a : App) (vm : String) (args : List String) : Prop :=
  ∃ argv, a.exec U (vm :: "--" :: args) = .ok argv ∧
    remoteWords argv = some (args.map String.toList)

/-! ## What ssh is started with -/

variable {U}

theorem sshOptions_transport (proxyCommand : String) (args : List String) :
    sshOptions ((sshTransportCommand proxyCommand).tail ++ args) = sshOptions args := by
  unfold sshTransportCommand
  split_ifs <;> rfl

theorem sshOptions_operand {arg : String} (h : arg.toList.head? ≠ some '-') (args : List String) :
    sshOptions (arg :: args) = some (false, arg :: args) := by
  unfold sshOptions
  split
  · rename_i heq
    cases heq
    exact absurd (by decide) h
  · rename_i heq
    cases heq
    exact absurd (by decide) h
  · rename_i heq
    cases heq
    exact if_neg h
  · rename_i heq
    cases heq

/-- `ssh` sends what stands behind the `--` that stands behind the destination. -/
theorem sshOperands_transport {proxyCommand target : String} (h : target.toList.head? ≠ some '-')
    (args : List String) :
    sshOperands (sshTransportCommand proxyCommand ++ target :: "--" :: args) = some args := by
  have hfirst : sshOptions ((sshTransportCommand proxyCommand).tail ++ target :: "--" :: args) =
      some (false, target :: "--" :: args) :=
    (sshOptions_transport _ _).trans (sshOptions_operand h _)
  have hcons : sshTransportCommand proxyCommand =
      "ssh" :: (sshTransportCommand proxyCommand).tail :=
    rfl
  rw [hcons, List.cons_append, sshOperands, hfirst]
  rfl

/-- Another host leaves the user alone. -/
theorem withHost_eq {user : String} (hne : user ≠ "") (host host' : String) :
    ∃ target, withHost (user ++ "@" ++ host) host' = some target ∧
      target.toList.head? = user.toList.head? := by
  have hlist : (user ++ "@" ++ host).toList = user.toList ++ '@' :: host.toList := by simp
  obtain ⟨i, hi⟩ := exists_lastIndexOf (c := '@') (l := (user ++ "@" ++ host).toList) (by simp)
  refine ⟨_, by rw [withHost, hi, Option.map_some], ?_⟩
  cases huser : user.toList with
  | nil => exact absurd (String.toList_eq_nil_iff.mp huser) hne
  | cons c rest => simp [huser]

/-- Behind the options of the transport stands a destination of the same user. -/
theorem sshCommandWithProxy_vmInfo {cfg : NameConfig} {name : String} (hnames : cfg.Names U name)
    (privateIP proxyCommand : String) :
    ∃ target, sshCommandWithProxy U (cfg.vmInfo name privateIP) proxyCommand =
        sshTransportCommand proxyCommand ++ [target] ∧ target.toList.head? ≠ some '-' := by
  have hne : cfg.destination name ≠ "" := by simp [NameConfig.destination]
  have hssh : ∀ c ∈ "ssh".toList, U.isSpace c = false := by
    intro c hc
    have hmem : c = 's' ∨ c = 'h' := by simpa using hc
    rcases hmem with rfl | rfl <;> exact (U.isSpace_ascii _ (by decide)).trans (by decide)
  have hfields : fields U (cfg.vmInfo name privateIP).ssh = ["ssh", cfg.destination name] := by
    rw [NameConfig.vmInfo, fields_append (by decide) hssh, fields_of_no_space hne hnames.no_space]
  have hother := fun host =>
    withHost_eq hnames.user_ne (defaultHostname cfg.baseDomain name) host
  have hoption := hnames.no_option
  unfold sshCommandWithProxy
  rw [hfields]
  dsimp only
  split_ifs with hproxy hip
  · obtain ⟨target, htarget, hhead⟩ := hother (cfg.vmInfo name privateIP).name
    exact ⟨target, by rw [NameConfig.destination, htarget]; rfl, by rwa [hhead]⟩
  · obtain ⟨target, htarget, hhead⟩ := hother (cfg.vmInfo name privateIP).privateIP
    rw [not_not.mp hproxy]
    exact ⟨target, by rw [NameConfig.destination, htarget]; rfl, by rwa [hhead]⟩
  · rw [not_not.mp hproxy]
    refine ⟨cfg.destination name, rfl, ?_⟩
    cases huser : cfg.sshUser.toList with
    | nil => exact absurd (String.toList_eq_nil_iff.mp huser) hnames.user_ne
    | cons c rest => simpa [NameConfig.destination, huser] using hoption

/-! ## What the guest executes -/

theorem exec_eq_ok {a : App} {vm : String} {info : VMInfo} {args : List String} (hargs : args ≠ [])
    (hready : a.ensureVMReadyForSSH vm = .ok info)
    (hclose : a.closeEmbeddedWireGuardBeforeProxyCommand = .ok ()) :
    a.exec U (vm :: "--" :: args) = .ok (a.remoteExecCommand U info args) := by
  simp [App.exec, hargs, hready, hclose, bind, Except.bind, pure, Except.pure]

theorem remoteWords_remoteExecCommand {cfg : NameConfig} {name : String}
    (hnames : cfg.Names U name) (a : App) (privateIP : String) (args : List String) :
    remoteWords (a.remoteExecCommand U (cfg.vmInfo name privateIP) args) =
      Shell.literalCommand (Shell.join (args.map String.toList)) := by
  obtain ⟨target, hssh, hhead⟩ := sshCommandWithProxy_vmInfo hnames privateIP
    (a.sshProxyCommand (cfg.vmInfo name privateIP).name)
  have hargv : a.remoteExecCommand U (cfg.vmInfo name privateIP) args =
      sshTransportCommand (a.sshProxyCommand (cfg.vmInfo name privateIP).name) ++
        target :: "--" :: args := by
    rw [App.remoteExecCommand, remoteExecCommandWithProxy, hssh]
    simp
  rw [remoteWords, hargv, sshOperands_transport hhead, Option.bind_some]

/-- The guest executes the arguments, exactly when the shell takes each of them
for a literal word and the first of them for the name of a command. -/
theorem executesArguments_iff {a : App} {cfg : NameConfig} {vm name privateIP : String}
    {args : List String} (hargs : args ≠ []) (hnames : cfg.Names U name)
    (hready : a.ensureVMReadyForSSH vm = .ok (cfg.vmInfo name privateIP))
    (hclose : a.closeEmbeddedWireGuardBeforeProxyCommand = .ok ()) :
    ExecutesArguments U a vm args ↔
      (∀ arg ∈ args, Shell.IsLiteralWord arg.toList) ∧
        ¬Shell.StartsSpecial (args.map String.toList) := by
  have hexec := exec_eq_ok (U := U) hargs hready hclose
  have hwords : ExecutesArguments U a vm args ↔
      Shell.literalCommand (Shell.join (args.map String.toList)) =
        some (args.map String.toList) := by
    rw [← remoteWords_remoteExecCommand hnames a privateIP args]
    constructor
    · rintro ⟨argv, hargv, hremote⟩
      rw [hexec] at hargv
      rwa [Except.ok.inj hargv]
    · exact fun hremote => ⟨_, hexec, hremote⟩
  rw [hwords, Shell.literalCommand_join_iff]
  simp

/-- The daemon of the user guide. -/
def sampleConfig : NameConfig := ⟨"dev.example.com", "ubuntu"⟩

/-- A client without a tunnel of its own, and a VM that is running. -/
def sampleApp : App where
  serverName := "default"
  usesEmbeddedWireGuard := false
  firedozeCommandPath := "/usr/local/bin/firedoze"
  ensureVMReadyForSSH _ := .ok (sampleConfig.vmInfo "demo" "10.88.0.2")
  closeWireGuard := .ok ()

theorem sampleConfig_names : sampleConfig.Names Unicode.ascii "demo" where
  no_space c hc := by
    have hall : (sampleConfig.destination "demo").toList.all (fun c => !Unicode.ascii.isSpace c) =
        true := by decide
    simpa using List.all_eq_true.mp hall c hc
  user_ne := by decide
  no_option := by decide

/-- A command of plain words reaches the guest. -/
theorem executesArguments_uname :
    ExecutesArguments Unicode.ascii sampleApp "demo" ["uname", "-a"] :=
  (executesArguments_iff (by decide) sampleConfig_names rfl rfl).mpr (by decide)

/-- The command of the user guide is `sh -lc 'uname -a && uptime'`.  The shell of
the guest finds the operator `&&` in it. -/
theorem guide_example_not_executed :
    ¬ExecutesArguments Unicode.ascii sampleApp "demo" ["sh", "-lc", "uname -a && uptime"] := by
  rintro ⟨argv, hargv, hremote⟩
  have hexec : sampleApp.exec Unicode.ascii ["demo", "--", "sh", "-lc", "uname -a && uptime"] =
      .ok (sampleApp.remoteExecCommand Unicode.ascii (sampleConfig.vmInfo "demo" "10.88.0.2")
        ["sh", "-lc", "uname -a && uptime"]) := exec_eq_ok (by decide) rfl rfl
  rw [hexec] at hargv
  rw [← Except.ok.inj hargv, remoteWords_remoteExecCommand sampleConfig_names] at hremote
  revert hremote
  decide

end Firedoze.Client
