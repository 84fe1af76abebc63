import Firedoze.Conc.Monitor
import Firedoze.WireGuard.Peers

/-!
# The watch loop of the daemon

`run` loads the configuration, installs its peers with `EnsureWireGuard`,
and starts `watchWireGuardPeerConfig` much later.  The watch loop takes a
first signature of the file, and then, on every tick, compares the signature
of the file with the last one, loads the file when they differ, and applies
the difference of the peers to the device.

An edit of the file is a step of its own, between any two actions of the
daemon.  It changes the signature of the file.  `ConfigureDevice` succeeds or
leaves the device as it was.

The two variables of the loop, `current` and `lastSig`, are kept in the world.
What is logged without an effect on the loop is left out.

The phase of the daemon is what it has read and not yet acted on.
`following_runDaemon` says which actions the daemon performs in which phase.
-/

namespace Firedoze

open Conc Conc.Prog Conc.Monitor WireGuard

/-! ## The configuration file -/

/-- `fileSignature`. -/
structure FileSignature where
  modTime : Nat
  size : Nat
  deriving DecidableEq, Repr

/-- What the file was at one time. -/
structure FileVersion where
  modTime : Nat
  text : List Char
  deriving DecidableEq, Repr

/-- The signature that `configFileSignature` gives. -/
def FileVersion.signature (v : FileVersion) : FileSignature :=
  ⟨v.modTime, (v.text.map Char.utf8Size).sum⟩

/-- The parts of `config.Load` that are not about WireGuard: `parse` is
`toml.Unmarshal` and the checks of the other sections, `defaults` is
`Default` with its derived values, and `isDefaultPath` says whether the file
is the one of `DefaultPath`. -/
structure ConfigSyntax (lib : NetSyntax) where
  parse : List Char → Except Err WireGuardConfig
  defaults : Except Err WireGuardConfig
  isDefaultPath : Bool

section Load

variable {lib : NetSyntax}

/-- The check of the WireGuard section at the end of `Load`. -/
def validated (lib : NetSyntax) : Except Err WireGuardConfig → Except Err WireGuardConfig
  | .error e => .error e
  | .ok cfg =>
      match cfg.validate lib with
      | .error e => .error e
      | .ok _ => .ok cfg

/-- `config.Load`, from what `os.ReadFile` answers. -/
def ConfigSyntax.load (cs : ConfigSyntax lib) :
    Except Err (List Char) → Except Err WireGuardConfig
  | .error e =>
      if e = .notExist ∧ cs.isDefaultPath then validated lib cs.defaults else .error e
  | .ok data => validated lib (cs.parse data)

theorem validPeers_of_validated {x : Except Err WireGuardConfig} {cfg : WireGuardConfig}
    (h : validated lib x = .ok cfg) : lib.ValidPeers cfg.peers := by
  cases x with
  | error e => cases h
  | ok cfg' =>
    simp only [validated] at h
    split at h
    · cases h
    · rename_i hvalid
      cases h
      exact validPeers_of_validate hvalid

theorem validPeers_of_load {cs : ConfigSyntax lib} {r : Except Err (List Char)}
    {cfg : WireGuardConfig} (h : cs.load r = .ok cfg) : lib.ValidPeers cfg.peers := by
  cases r with
  | ok data => exact validPeers_of_validated h
  | error e =>
    simp only [ConfigSyntax.load] at h
    split_ifs at h
    exact validPeers_of_validated h

end Load

/-! ## The world of the daemon -/

/-- The file with all the versions it has had, the device, and the variables
of the watch loop.  The zero value of a signature is `none`: no file has it,
since its time has no location. -/
structure WatchWorld (lib : NetSyntax) where
  file : Option FileVersion
  versions : List FileVersion
  recorded : ∀ v, file = some v → v ∈ versions
  device : Device lib.Key lib.IPNet
  current : WireGuardConfig
  lastSig : Option FileSignature

/-- The other operations on the host, in the order in which they are made. -/
inductive HostStep
  | ensureKSM
  | privateKey
  | link
  | parseAddress
  | assignAddress
  | openWgctrl
  | linkUp
  | startup
  deriving DecidableEq, Repr

/-- The actions of the daemon.  `select` answers whether a tick came; the
context is done otherwise.  `mapOrder` is the start of an iteration over a
map. -/
inductive WatchEff (lib : NetSyntax) : Type → Type
  | readFile : WatchEff lib (Except Err (List Char))
  | stat : WatchEff lib (Except Err FileSignature)
  | host (step : HostStep) : WatchEff lib (Except String Unit)
  | mapOrder : WatchEff lib (MapOrder (String × RuntimeWGPeer lib))
  | configureDevice (replacePeers : Bool) (peers : List (PeerConfig lib.Key lib.IPNet)) :
      WatchEff lib (Except String Unit)
  | getCurrent : WatchEff lib WireGuardConfig
  | setCurrent (cfg : WireGuardConfig) : WatchEff lib Unit
  | getLastSig : WatchEff lib (Option FileSignature)
  | setLastSig (sig : Option FileSignature) : WatchEff lib Unit
  | select : WatchEff lib Bool
  | warn (text : String) : WatchEff lib Unit

/-- How an action goes. -/
inductive WatchOutcome (lib : NetSyntax)
  | ok
  | fail (text : String)
  | order (o : MapOrder (String × RuntimeWGPeer lib))

/-- What happens to the file. -/
inductive FileEvent
  | edit (v : FileVersion)
  | remove

section System

variable {lib : NetSyntax}

/-- What an action of the daemon does. -/
def execWatch (w : WatchWorld lib) :
    {β : Type} → WatchEff lib β → WatchOutcome lib → Option (β × WatchWorld lib)
  | _, .readFile, .ok =>
      match w.file with
      | some v => some (.ok v.text, w)
      | none => some (.error .notExist, w)
  | _, .readFile, _ => some (.error .io, w)
  | _, .stat, .ok =>
      match w.file with
      | some v => some (.ok v.signature, w)
      | none => some (.error .notExist, w)
  | _, .stat, _ => some (.error .io, w)
  | _, .host _, .ok => some (.ok (), w)
  | _, .host _, .fail text => some (.error text, w)
  | _, .host _, .order _ => none
  | _, .mapOrder, .order o => some (o, w)
  | _, .mapOrder, _ => none
  | _, .configureDevice replacePeers peers, .ok =>
      some (.ok (), { w with device := w.device.configureDevice replacePeers peers })
  | _, .configureDevice _ _, .fail text => some (.error text, w)
  | _, .configureDevice _ _, .order _ => none
  | _, .getCurrent, _ => some (w.current, w)
  | _, .setCurrent cfg, _ => some ((), { w with current := cfg })
  | _, .getLastSig, _ => some (w.lastSig, w)
  | _, .setLastSig sig, _ => some ((), { w with lastSig := sig })
  | _, .select, .ok => some (true, w)
  | _, .select, _ => some (false, w)
  | _, .warn _, _ => some ((), w)

/-- What an event does to the file.  Every edit changes the signature. -/
def execFileEvent (w : WatchWorld lib) : FileEvent → Option (WatchWorld lib)
  | .edit v =>
      if w.file.map (·.signature) = some v.signature then none
      else
        some { w with
          file := some v
          versions := v :: w.versions
          recorded := fun v' h => by
            cases h
            exact List.mem_cons_self }
  | .remove => some { w with file := none, recorded := fun _ h => by cases h }

/-- The daemon and the edits of its configuration file. -/
def watchSystem (lib : NetSyntax) :
    System Unit (WatchWorld lib) (WatchOutcome lib) FileEvent (WatchEff lib) where
  exec := fun _ w e o => execWatch w e o
  env := execFileEvent

end System

/-! ## The daemon -/

section Daemon

variable {lib : NetSyntax} (cs : ConfigSyntax lib)

/-- An operation on the host, with the text that its error is given. -/
def hostStep (context : String) (step : HostStep) : ExceptT Err (Prog (WatchEff lib)) Unit :=
  ExceptT.mk do
    match ← perform (.host step) with
    | .ok _ => ret (.ok ())
    | .error e => ret (.error (.msg (context ++ e)))

/-- A call of `ConfigureDevice`. -/
def configureDevice (replacePeers : Bool) (peers : List (PeerConfig lib.Key lib.IPNet)) :
    ExceptT Err (Prog (WatchEff lib)) Unit :=
  ExceptT.mk do
    match ← perform (.configureDevice replacePeers peers) with
    | .ok _ => ret (.ok ())
    | .error e => ret (.error (.msg ("configure device: " ++ e)))

/-- A computation that can fail. -/
def orThrow {α : Type} (x : Except Err α) : ExceptT Err (Prog (WatchEff lib)) α :=
  ExceptT.mk (ret x)

/-- `config.Load`. -/
def loadConfig : ExceptT Err (Prog (WatchEff lib)) WireGuardConfig :=
  ExceptT.mk do
    let data ← perform .readFile
    ret (cs.load data)

/-- `LinuxOps.EnsureWireGuard`. -/
def ensureWireGuard (cfg : WireGuardConfig) : ExceptT Err (Prog (WatchEff lib)) Unit := do
  orThrow (cfg.validate lib)
  hostStep "private key: " .privateKey
  hostStep "link: " .link
  hostStep ("parse address " ++ lib.quote cfg.address ++ ": ") .parseAddress
  hostStep ("assign address " ++ lib.quote cfg.address ++ ": ") .assignAddress
  hostStep "open wgctrl: " .openWgctrl
  let peers ← orThrow (ensureWireGuardPeers cfg.peers)
  configureDevice true peers
  hostStep "set link up: " .linkUp

/-- `LinuxOps.ReconcileWireGuardPeers`. -/
def reconcileWireGuardPeers (oldCfg newCfg : WireGuardConfig) :
    ExceptT Err (Prog (WatchEff lib)) Unit := do
  let order ← sect .mapOrder
  let order' ← sect .mapOrder
  let diff ← orThrow (wireGuardPeerDiff order order' oldCfg.peers newCfg.peers)
  if diff.1.isEmpty then pure ()
  else do
    hostStep "open wgctrl: " .openWgctrl
    configureDevice false diff.1

/-- `reloadWireGuardPeerConfig`. -/
def reloadWireGuardPeerConfig (current : WireGuardConfig) :
    ExceptT Err (Prog (WatchEff lib)) WireGuardConfig := do
  let reloaded ← loadConfig cs
  let target := { current with peers := reloaded.peers }
  reconcileWireGuardPeers current target
  pure target

/-- One round of the loop of `watchWireGuardPeerConfig`. -/
def watchRound : Prog (WatchEff lib) (Option Unit) := do
  match ← perform .select with
  | false => ret (some ())
  | true =>
      match ← perform .stat with
      | .error _ =>
          perform (.warn "stat config for wireguard peer reload")
          ret none
      | .ok nextSig =>
          let lastSig ← perform .getLastSig
          if some nextSig = lastSig then ret none
          else
            let current ← perform .getCurrent
            match ← (reloadWireGuardPeerConfig cs current).run with
            | .error _ =>
                perform (.warn "reload wireguard peers")
                ret none
            | .ok next =>
                perform (.setCurrent next)
                perform (.setLastSig (some nextSig))
                ret none

/-- `watchWireGuardPeerConfig`. -/
def watchWireGuardPeerConfig (initial : WireGuardConfig) : Prog (WatchEff lib) Unit := do
  perform (.setCurrent initial)
  match ← perform .stat with
  | .error _ =>
      perform (.warn "watch wireguard config")
      perform (.setLastSig none)
  | .ok sig => perform (.setLastSig (some sig))
  loop (watchRound cs) ret

/-- `run` with `-serve` and `-setup-wireguard`.  `startup` stands for what
`run` does from `EnsureFirewall` to the start of the monitors. -/
def runDaemon : Prog (WatchEff lib) Unit := do
  match ← (loadConfig cs).run with
  | .error _ => ret ()
  | .ok cfg =>
      let _ ← perform (.host .ensureKSM)
      match ← (ensureWireGuard cfg).run with
      | .error _ => ret ()
      | .ok _ =>
          match ← perform (.host .startup) with
          | .error _ => ret ()
          | .ok _ => watchWireGuardPeerConfig cs cfg

/-- The state of the daemon and the file. -/
abbrev WatchState (lib : NetSyntax) := State Unit (WatchWorld lib) Unit (WatchEff lib)

/-- The state before the daemon runs, with any file and any device. -/
def startDaemon (file : Option FileVersion) (device : Device lib.Key lib.IPNet) : WatchState lib :=
  .initial
    { file := file
      versions := file.toList
      recorded := fun v h => by simp [h]
      device := device
      current := ⟨"", 0, "", "", "", []⟩
      lastSig := none }
    fun _ => runDaemon cs

end Daemon

/-! ## What the daemon has read -/

/-- The phase of the daemon.  `watching` has the signature that the last tick
has seen, if the tick found no error. -/
inductive WatchPhase
  | start
  | loaded (cfg : WireGuardConfig)
  | ensured (cfg : WireGuardConfig)
  | assigned (cfg : WireGuardConfig)
  | signed (cfg : WireGuardConfig) (sig : Option FileSignature)
  | watching (seen : Option FileSignature)
  | ticked
  | compared (sig : FileSignature)
  | changed (sig : FileSignature)
  | reloading (sig : FileSignature) (current : WireGuardConfig)
  | reloaded (sig : FileSignature) (current : WireGuardConfig) (peers : List WGPeer)
  | reconciled (sig : FileSignature) (target : WireGuardConfig)
  | updated (sig : FileSignature)
  deriving DecidableEq

section Phases

variable {lib : NetSyntax} (cs : ConfigSyntax lib)

/-- The phase after an action. -/
def watchNext (l : WatchPhase) : {β : Type} → WatchEff lib β → β → WatchPhase
  | _, .readFile, data =>
      match l, cs.load data with
      | .start, .ok cfg => .loaded cfg
      | .reloading sig current, .ok cfg => .reloaded sig current cfg.peers
      | l, _ => l
  | _, .stat, r =>
      match l, r with
      | .assigned cfg, r => .signed cfg r.toOption
      | _, .ok sig => .compared sig
      | l, .error _ => l
  | _, .configureDevice _ _, r =>
      match l, r with
      | .loaded cfg, .ok _ => .ensured cfg
      | .reloaded sig current peers, .ok _ => .reconciled sig { current with peers := peers }
      | l, _ => l
  | _, .getLastSig, lastSig =>
      match l with
      | .compared sig => if some sig = lastSig then .watching (some sig) else .changed sig
      | l => l
  | _, .getCurrent, current =>
      match l with
      | .changed sig => .reloading sig current
      | l => l
  | _, .setCurrent _, _ =>
      match l with
      | .ensured cfg => .assigned cfg
      | .reloaded sig _ _ => .updated sig
      | .reconciled sig _ => .updated sig
      | l => l
  | _, .setLastSig _, _ =>
      match l with
      | .signed _ _ => .watching none
      | .updated sig => .watching (some sig)
      | l => l
  | _, .select, _ => .ticked
  | _, .warn _, _ =>
      match l with
      | .signed cfg sig => .signed cfg sig
      | _ => .watching none
  | _, .host _, _ => l
  | _, .mapOrder, _ => l

/-- The actions that are in order in each phase. -/
def watchOk (l : WatchPhase) : {β : Type} → WatchEff lib β → β → Prop
  | _, .select, _ => ∃ seen, l = .watching seen
  | _, .readFile, _ => l = .start ∨ ∃ sig current, l = .reloading sig current
  | _, .stat, _ => (∃ cfg, l = .assigned cfg) ∨ l = .ticked
  | _, .configureDevice replacePeers configs, _ =>
      (∃ cfg, l = .loaded cfg ∧ replacePeers = true ∧
        ensureWireGuardPeers cfg.peers = .ok configs) ∨
      ∃ sig current peers order order' diff, l = .reloaded sig current peers ∧
        replacePeers = false ∧ wireGuardPeerDiff order order' current.peers peers = .ok diff ∧
        configs = diff.1
  | _, .getLastSig, _ => ∃ sig, l = .compared sig
  | _, .getCurrent, _ => ∃ sig, l = .changed sig
  | _, .setCurrent cfg, _ =>
      l = .ensured cfg ∨ (∃ sig, l = .reconciled sig cfg) ∨
      ∃ sig current peers order order' diff, l = .reloaded sig current peers ∧
        cfg = { current with peers := peers } ∧
        @wireGuardPeerDiff lib order order' current.peers peers = .ok diff ∧ diff.1 = []
  | _, .setLastSig sig, _ =>
      (∃ cfg, l = .signed cfg sig) ∨ ∃ sig', l = .updated sig' ∧ sig = some sig'
  | _, .warn _, _ =>
      (∃ cfg sig, l = .signed cfg sig) ∨ l = .ticked ∨ (∃ sig current, l = .reloading sig current) ∨
        ∃ sig current peers, l = .reloaded sig current peers
  | _, .host _, _ => True
  | _, .mapOrder, _ => True

/-- The monitor of the daemon. -/
def following : Monitor (WatchEff lib) WatchPhase where
  start := .start
  ok := fun l e b => watchOk l e b
  next := fun l e b => watchNext cs l e b

variable {cs} {can : {β : Type} → WatchEff lib β → β → Prop} {l : WatchPhase}

/-- An operation on the host does not change the phase. -/
theorem following_hostStep {α : Type} {context : String} {step : HostStep}
    {f : Unit → ExceptT Err (Prog (WatchEff lib)) α} {Q : Except Err α → WatchPhase → Prop}
    (hf : (following cs).Conforms can (f ()).run l Q) (herr : ∀ e, Q (.error e) l) :
    (following cs).Conforms can (hostStep context step >>= f).run l Q := by
  refine conforms_run_bind.mpr fun r _ => ⟨trivial, ?_⟩
  cases r with
  | ok _ => exact hf
  | error e => exact herr _

theorem following_orThrow {α β : Type} {x : Except Err α}
    {f : α → ExceptT Err (Prog (WatchEff lib)) β} {Q : Except Err β → WatchPhase → Prop}
    (hf : ∀ a, x = .ok a → (following cs).Conforms can (f a).run l Q)
    (herr : ∀ e, Q (.error e) l) :
    (following cs).Conforms can (orThrow x >>= f).run l Q := by
  cases x with
  | ok a => exact hf a rfl
  | error e => exact herr e

theorem following_ensureWireGuard {cfg : WireGuardConfig} :
    (following cs).Conforms can (ensureWireGuard cfg).run (.loaded cfg)
      fun r l => ∀ u, r = .ok u → l = .ensured cfg := by
  refine following_orThrow (fun _ _ => ?_) (fun _ _ h => by cases h)
  refine following_hostStep ?_ (fun _ _ h => by cases h)
  refine following_hostStep ?_ (fun _ _ h => by cases h)
  refine following_hostStep ?_ (fun _ _ h => by cases h)
  refine following_hostStep ?_ (fun _ _ h => by cases h)
  refine following_hostStep ?_ (fun _ _ h => by cases h)
  refine following_orThrow (fun peers hpeers => ?_) (fun _ _ h => by cases h)
  refine conforms_run_bind.mpr fun r _ => ⟨.inl ⟨cfg, rfl, rfl, hpeers⟩, ?_⟩
  cases r with
  | error e => exact fun _ h => by cases h
  | ok _ =>
    intro r _
    refine ⟨trivial, ?_⟩
    cases r with
    | ok _ => exact fun _ _ => rfl
    | error e => exact fun _ h => by cases h

/-- The device is what the new list asks for: it was configured, or there was
nothing to configure. -/
def Reconciled (lib : NetSyntax) (sig : FileSignature) (current : WireGuardConfig)
    (peers : List WGPeer) (l : WatchPhase) : Prop :=
  l = .reconciled sig { current with peers := peers } ∨
    l = .reloaded sig current peers ∧ ∃ order order' diff,
      @wireGuardPeerDiff lib order order' current.peers peers = .ok diff ∧ diff.1 = []

theorem following_reconcile {current target : WireGuardConfig} {sig : FileSignature} :
    (following cs).Conforms can (reconcileWireGuardPeers current target).run
      (.reloaded sig current target.peers)
      fun r l => match r with
        | .error _ => l = .reloaded sig current target.peers
        | .ok _ => Reconciled lib sig current target.peers l := by
  refine conforms_sect_bind fun order _ => ⟨trivial, ?_⟩
  refine conforms_sect_bind fun order' _ => ⟨trivial, ?_⟩
  refine following_orThrow (fun diff hdiff => ?_) (fun _ => rfl)
  split
  · rename_i hempty
    exact .inr ⟨rfl, order, order', diff, hdiff, List.isEmpty_iff.mp hempty⟩
  · refine following_hostStep ?_ (fun _ => rfl)
    intro r _
    refine ⟨.inr ⟨sig, current, target.peers, order, order', diff, rfl, rfl, hdiff, rfl⟩, ?_⟩
    cases r with
    | ok _ => exact .inl rfl
    | error e => exact rfl

theorem following_reload {current : WireGuardConfig} {sig : FileSignature} :
    (following cs).Conforms can (reloadWireGuardPeerConfig cs current).run (.reloading sig current)
      fun r l => match r with
        | .error _ => l = .reloading sig current ∨ ∃ peers, l = .reloaded sig current peers
        | .ok next => ∃ peers, next = { current with peers := peers } ∧
            Reconciled lib sig current peers l := by
  refine conforms_run_bind.mpr fun data _ => ⟨.inr ⟨sig, current, rfl⟩, ?_⟩
  cases hload : cs.load data with
  | error e =>
    have hphase : watchNext cs (.reloading sig current) .readFile data =
        .reloading sig current := by
      simp [watchNext, hload]
    change (following cs).Conforms can (ret (cs.load data)) _ _
    rw [hload]
    exact .inl hphase
  | ok reloaded =>
    have hphase : watchNext cs (.reloading sig current) .readFile data =
        .reloaded sig current reloaded.peers := by
      simp [watchNext, hload]
    change (following cs).Conforms can (ret (cs.load data)) (watchNext cs _ .readFile data) _
    rw [hphase, hload]
    exact conforms_then following_reconcile (fun _ _ h => ⟨_, rfl, h⟩) fun _ _ h => .inr ⟨_, h⟩

theorem following_watchRound {seen : Option FileSignature} :
    (following cs).Conforms can (watchRound cs) (.watching seen)
      fun r l => r = none → ∃ seen, l = .watching seen := by
  intro r _
  refine ⟨⟨seen, rfl⟩, ?_⟩
  cases r with
  | false => exact fun h => by cases h
  | true =>
    intro r _
    refine ⟨.inr rfl, ?_⟩
    cases r with
    | error e => exact fun _ _ => ⟨.inr (.inl rfl), fun _ => ⟨none, rfl⟩⟩
    | ok nextSig =>
      intro lastSig _
      refine ⟨⟨nextSig, rfl⟩, ?_⟩
      change (following cs).Conforms can (if _ then _ else _)
        (if some nextSig = lastSig then .watching (some nextSig) else .changed nextSig) _
      split
      · exact fun _ => ⟨_, rfl⟩
      · refine fun current _ => ⟨⟨nextSig, rfl⟩, ?_⟩
        refine (conforms_bind (p := (reloadWireGuardPeerConfig cs current).run)).mpr
          (conforms_mono ?_ following_reload)
        intro r l h
        cases r with
        | error e =>
          rcases h with rfl | ⟨peers, rfl⟩
          · exact fun _ _ => ⟨.inr (.inr (.inl ⟨_, _, rfl⟩)), fun _ => ⟨none, rfl⟩⟩
          · exact fun _ _ => ⟨.inr (.inr (.inr ⟨_, _, _, rfl⟩)), fun _ => ⟨none, rfl⟩⟩
        | ok next =>
          obtain ⟨peers, rfl, rfl | ⟨rfl, order, order', diff, hdiff, hempty⟩⟩ := h
          · exact fun _ _ => ⟨.inr (.inl ⟨nextSig, rfl⟩), fun _ _ =>
              ⟨.inr ⟨nextSig, rfl, rfl⟩, fun _ => ⟨_, rfl⟩⟩⟩
          · exact fun _ _ => ⟨.inr (.inr ⟨nextSig, current, peers, order, order', diff, rfl, rfl,
              hdiff, hempty⟩), fun _ _ => ⟨.inr ⟨nextSig, rfl, rfl⟩, fun _ => ⟨_, rfl⟩⟩⟩

theorem following_watch {cfg : WireGuardConfig} :
    (following cs).Conforms can (watchWireGuardPeerConfig cs cfg) (.ensured cfg)
      fun _ _ => True := by
  have hloop {l : WatchPhase} (hl : ∃ seen, l = .watching seen) :
      (following cs).Conforms can (loop (watchRound cs) ret) l fun _ _ => True := by
    refine ⟨fun l => ∃ seen, l = .watching seen, hl, ?_⟩
    rintro l ⟨seen, rfl⟩
    refine conforms_mono ?_ following_watchRound
    intro r l h
    cases r with
    | none => exact h rfl
    | some _ => trivial
  refine fun _ _ => ⟨.inl rfl, ?_⟩
  intro r _
  refine ⟨.inl ⟨cfg, rfl⟩, ?_⟩
  cases r with
  | error e =>
    exact fun _ _ => ⟨.inl ⟨cfg, none, rfl⟩, fun _ _ => ⟨.inl ⟨cfg, rfl⟩, hloop ⟨none, rfl⟩⟩⟩
  | ok sig => exact fun _ _ => ⟨.inl ⟨cfg, rfl⟩, hloop ⟨none, rfl⟩⟩

theorem following_loadConfig :
    (following cs).Conforms can (loadConfig cs).run .start
      fun r l => ∀ cfg, r = .ok cfg → l = .loaded cfg := by
  refine fun data _ => ⟨.inl rfl, fun cfg hload => ?_⟩
  change watchNext cs .start .readFile data = _
  simp [watchNext, hload]

theorem following_runDaemon :
    (following cs).Conforms can (runDaemon cs) .start fun _ _ => True := by
  refine (conforms_bind (p := (loadConfig cs).run)).mpr
    (conforms_mono ?_ following_loadConfig)
  intro r l h
  cases r with
  | error e => trivial
  | ok cfg =>
    obtain rfl := h cfg rfl
    refine fun _ _ => ⟨trivial, ?_⟩
    refine (conforms_bind (p := (ensureWireGuard cfg).run)).mpr
      (conforms_mono ?_ following_ensureWireGuard)
    intro r l h
    cases r with
    | error e => trivial
    | ok u =>
      obtain rfl := h u rfl
      intro r _
      refine ⟨trivial, ?_⟩
      cases r with
      | error e => trivial
      | ok _ => exact following_watch

end Phases

end Firedoze
