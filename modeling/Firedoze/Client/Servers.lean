import Firedoze.Client.Config

/-!
# What the server commands keep

The commands of `firedoze server` change two lists and a name that refers into
one of them.  `Change` is what a command does to the configuration, and
`call_cases` says that a call leaves the file as it was or makes one `Change`.
Everything else is proved from that.

* `ClientConfig.Valid`: the names of the servers are distinct, the names of the
  requests are distinct, and the default is the name of a server.
* `Imported`: an entry with WireGuard data was made by an import, and holds the
  private key of the public key in its import file.
* `KeepsOthers`: the entries that a command does not name or consume stay.

`commandsSound` is the result about sequences of calls.
-/

namespace Firedoze.Client

open Text

namespace ClientLib

variable {L : ClientLib} {c : Invocation} {file : Option Bytes}

/-! ## Running a command -/

section Exec

variable {α β : Type}

theorem exec_ofExcept (x : Except String α) : (ofExcept x : Command α).exec file = (x, file) := by
  cases x <;> rfl

theorem exec_bind (m : Command α) (f : α → Command β) :
    (m >>= f).exec file =
      match m.exec file with
      | (.ok a, file') => (f a).exec file'
      | (.error err, file') => (.error err, file') := by
  have hstep : (m >>= f).exec file =
      Command.exec (ExceptT.mk (ExceptT.bindCont f (m.exec file).1)) (m.exec file).2 := rfl
  rw [hstep]
  rcases m.exec file with ⟨r, file'⟩
  cases r <;> rfl

end Exec

/-! ## How a call ends -/

/-- The call ends without a change of the file, or it has saved a configuration
and answers what printing returns. -/
def Ends (L : ClientLib) (c : Invocation) (file : Option Bytes) (m : Command Unit)
    (saved : ClientConfig → Prop) : Prop :=
  (m.exec file).2 = file ∨
    ∃ cfg data, saved cfg ∧ L.marshal cfg = .ok data ∧ m.exec file = (c.print, some data)

variable {saved : ClientConfig → Prop} {α : Type}

theorem ends_throw (err : String) : L.Ends c file (throw err) saved := Or.inl rfl

theorem ends_ofExcept (x : Except String Unit) : L.Ends c file (ofExcept x) saved := by
  rw [Ends, exec_ofExcept]
  exact Or.inl rfl

/-- A step that only computes. -/
theorem ends_bind {x : Except String α} {f : α → Command Unit}
    (h : ∀ a, x = .ok a → L.Ends c file (f a) saved) : L.Ends c file (ofExcept x >>= f) saved := by
  rw [Ends, exec_bind, exec_ofExcept]
  cases x with
  | error err => exact Or.inl rfl
  | ok a => exact h a rfl

theorem exec_loadClientConfig :
    (L.loadClientConfig c).exec file =
      (do
        let path ← c.configPath
        c.readConfig
        describe ("read " ++ path) (L.decode file), file) := by
  unfold loadClientConfig
  rw [exec_bind, exec_ofExcept]
  cases c.configPath with
  | error err => rfl
  | ok path =>
    dsimp only
    rw [exec_bind, exec_ofExcept]
    cases c.readConfig with
    | error err => rfl
    | ok _ => exact exec_ofExcept _

theorem eq_ok_of_describe {what : String} {x : Except String α} {a : α}
    (h : describe what x = .ok a) : x = .ok a := by
  cases x with
  | error err => cases h
  | ok b => exact h

/-- A configuration that was loaded is the one of the file. -/
theorem ends_load {f : ClientConfig → Command Unit}
    (h : ∀ cfg, L.decode file = .ok cfg → L.Ends c file (f cfg) saved) :
    L.Ends c file (L.loadClientConfig c >>= f) saved := by
  rw [Ends, exec_bind, exec_loadClientConfig]
  cases hpath : c.configPath with
  | error err => exact Or.inl rfl
  | ok path =>
    cases hread : c.readConfig with
    | error err => exact Or.inl rfl
    | ok _ =>
      cases hdecode : describe ("read " ++ path) (L.decode file) with
      | error err =>
        left
        simp [bind, Except.bind, hdecode]
      | ok cfg =>
        have hends := h cfg (eq_ok_of_describe hdecode)
        simpa [Ends, bind, Except.bind, hdecode] using hends

/-- Saving fails and changes nothing, or the file is what was marshaled. -/
theorem saveClientConfig_cases (L : ClientLib) (c : Invocation) (file : Option Bytes)
    (cfg : ClientConfig) :
    (∃ err, (L.saveClientConfig c cfg).exec file = (.error err, file)) ∨
      ∃ data, L.marshal cfg = .ok data ∧
        (L.saveClientConfig c cfg).exec file = (.ok (), some data) := by
  unfold saveClientConfig
  rw [exec_bind, exec_ofExcept]
  cases c.configPath with
  | error err => exact Or.inl ⟨err, rfl⟩
  | ok path =>
    dsimp only
    rw [exec_bind, exec_ofExcept]
    cases hdata : L.marshal cfg with
    | error err => exact Or.inl ⟨err, rfl⟩
    | ok data =>
      dsimp only
      rw [exec_bind, exec_ofExcept]
      cases c.writeConfig with
      | error err => exact Or.inl ⟨err, rfl⟩
      | ok _ => exact Or.inr ⟨data, rfl, rfl⟩

/-- Saving is the last step but the printing. -/
theorem ends_save {cfg : ClientConfig} (h : saved cfg) :
    L.Ends c file (do L.saveClientConfig c cfg; ofExcept c.print) saved := by
  rw [Ends, exec_bind]
  rcases saveClientConfig_cases L c file cfg with ⟨err, hexec⟩ | hexec
  · rw [hexec]
    exact Or.inl rfl
  · obtain ⟨data, hdata, hexec⟩ := hexec
    rw [hexec]
    exact Or.inr ⟨cfg, data, h, hdata, exec_ofExcept _⟩

/-! ## What a command changes -/

/-- What a command does to the configuration that it has loaded. -/
inductive Change (L : ClientLib) (c : Invocation) :
    List String → ClientConfig → ClientConfig → Prop
  | request {name : String} {keyPair : ClientKeyPair} {cfg : ClientConfig} :
      Change L c ["request", name] cfg (cfg.putPending ⟨name, keyPair.privateKey⟩)
  | importServer {args : List String} {cfg : ClientConfig} (input : ImportInput)
      (pending : ClientPendingRequest) (apiURL : String) (cfg' : ClientConfig)
      (hinput : L.readImport c args = .ok input)
      (hpending : L.findPending input.config.clientPublicKey cfg.pendingPeers = .ok (some pending))
      (hremove : L.removePendingByPublicKey
        (cfg.putServer
          ⟨L.importName input pending, apiURL, some (importWireGuard input pending)⟩)
        input.config.clientPublicKey = .ok cfg') :
      Change L c ("import" :: args) cfg
        (cfg'.chooseDefault (L.importName input pending) input.makeDefault)
  | addServer {args : List String} {cfg : ClientConfig} (parsed : AddArgs) (apiURL : String)
      (hparsed : parseServerAddArgs L.quote args = .ok parsed) :
      Change L c ("add" :: args) cfg
        ((cfg.putServer ⟨parsed.name, apiURL, none⟩).chooseDefault parsed.name parsed.makeDefault)
  | useServer {name : String} {cfg : ClientConfig} (hserver : (cfg.findServer name).isSome = true) :
      Change L c ["use", name] cfg { cfg with defaultServer := name }
  | remove {command : String} {names : List String} {cfg cfg' : ClientConfig}
      (hcommand : command = "remove" ∨ command = "rm")
      (hremove : L.removeServers names cfg = .ok cfg') : Change L c (command :: names) cfg cfg'

/-- The configurations that a call may save. -/
def Saves (L : ClientLib) (c : Invocation) (file : Option Bytes) (args : List String)
    (cfg' : ClientConfig) : Prop :=
  ∃ cfg, L.decode file = .ok cfg ∧ Change L c args cfg cfg'

theorem ends_request (name : String) :
    L.Ends c file (L.request c name) (L.Saves c file ["request", name]) :=
  ends_bind fun _ _ => ends_bind fun _ _ => ends_load fun cfg hcfg =>
    ends_save ⟨cfg, hcfg, .request⟩

theorem eq_ok_of_withUsage {usage : String} {x : Except String α} {a : α}
    (h : withUsage usage x = .ok a) : x = .ok a := by
  cases x with
  | error err => cases h
  | ok b => exact h

theorem ends_importServer (args : List String) :
    L.Ends c file (L.importServer c args) (L.Saves c file ("import" :: args)) := by
  refine ends_bind fun input hinput => ends_load fun cfg hcfg => ends_bind fun found hfound => ?_
  cases found with
  | none => exact ends_throw _
  | some pending =>
    refine ends_bind fun _ _ => ends_bind fun apiURL _ => ends_bind fun _ _ => ?_
    refine ends_bind fun cfg' hremove => ends_save ⟨cfg, hcfg, ?_⟩
    exact .importServer input pending apiURL cfg' hinput hfound hremove

theorem ends_addServer (args : List String) :
    L.Ends c file (L.addServer c args) (L.Saves c file ("add" :: args)) := by
  refine ends_bind fun parsed hparsed => ends_bind fun _ _ => ends_bind fun apiURL _ => ?_
  refine ends_load fun cfg hcfg => ends_save ⟨cfg, hcfg, ?_⟩
  exact .addServer parsed apiURL (eq_ok_of_withUsage hparsed)

theorem eq_true_of_ensure {condition : Bool} {err : String} (h : ensure condition err = .ok ()) :
    condition = true := by
  cases condition with
  | false => cases h
  | true => rfl

theorem ends_useServer (name : String) :
    L.Ends c file (L.useServer c name) (L.Saves c file ["use", name]) :=
  ends_load fun cfg hcfg => ends_bind fun _ hserver =>
    ends_save ⟨cfg, hcfg, .useServer (eq_true_of_ensure hserver)⟩

theorem ends_remove {command : String} (hcommand : command = "remove" ∨ command = "rm")
    (names : List String) :
    L.Ends c file (L.remove c names) (L.Saves c file (command :: names)) :=
  ends_bind fun _ _ => ends_load fun cfg hcfg => ends_bind fun _ hremove =>
    ends_save ⟨cfg, hcfg, .remove hcommand hremove⟩

theorem ends_list : L.Ends c file (L.list c) saved := by
  unfold list
  exact ends_load fun _ _ => ends_ofExcept _

theorem ends_server (L : ClientLib) (c : Invocation) (file : Option Bytes) (args : List String) :
    L.Ends c file (L.server c args) (L.Saves c file args) := by
  unfold server
  split
  · exact ends_throw _
  · exact ends_request _
  · exact ends_throw _
  · exact ends_importServer _
  · exact ends_addServer _
  · exact ends_list
  · exact ends_list
  · exact ends_useServer _
  · exact ends_throw _
  · exact ends_remove (Or.inl rfl) _
  · exact ends_remove (Or.inr rfl) _
  · refine ends_load fun _ _ => ends_bind fun _ _ => ends_bind fun _ _ => ends_bind fun _ _ => ?_
    exact ends_ofExcept _
  · exact ends_bind fun _ _ => ends_ofExcept _
  · exact ends_throw _

/-- A call leaves the file as it was, or saves one change of what it has loaded.
After that it can fail only by printing. -/
theorem call_cases (L : ClientLib) (c : Invocation) (file : Option Bytes) :
    (L.call c file).2 = file ∨
      ∃ cfg cfg' data, L.decode file = .ok cfg ∧ Change L c c.args cfg cfg' ∧
        L.marshal cfg' = .ok data ∧ L.call c file = (c.print, some data) := by
  rcases ends_server L c file c.args with hsame | hsaved
  · exact Or.inl hsame
  · obtain ⟨cfg', data, ⟨cfg, hcfg, hchange⟩, hdata, hcall⟩ := hsaved
    exact Or.inr ⟨cfg, cfg', data, hcfg, hchange, hdata, hcall⟩

end ClientLib

/-! ## Names -/

/-- Names are distinct, and the default is the name of a server. -/
structure ClientConfig.Valid (cfg : ClientConfig) : Prop where
  servers : (cfg.servers.map ClientServerConfig.name).Nodup
  pendingPeers : (cfg.pendingPeers.map ClientPendingRequest.name).Nodup
  defaultServer : cfg.defaultServer = "" ∨ ∃ server ∈ cfg.servers, server.name = cfg.defaultServer

namespace ClientConfig

variable {cfg : ClientConfig}

theorem valid_empty : ({} : ClientConfig).Valid := ⟨List.nodup_nil, List.nodup_nil, Or.inl rfl⟩

theorem Valid.putPending (h : cfg.Valid) (pending : ClientPendingRequest) :
    (cfg.putPending pending).Valid := { h with pendingPeers := Slice.nodup_put h.pendingPeers }

theorem Valid.putServer (h : cfg.Valid) (server : ClientServerConfig) :
    (cfg.putServer server).Valid where
  servers := Slice.nodup_put h.servers
  pendingPeers := h.pendingPeers
  defaultServer := by
    refine h.defaultServer.imp_right ?_
    rintro ⟨other, hother, hname⟩
    by_cases hsame : other.name = server.name
    · exact ⟨server, Slice.mem_put_self _ _, hsame.symm.trans hname⟩
    · exact ⟨other, (Slice.mem_put_iff_of_ne hsame).mpr hother, hname⟩

theorem Valid.chooseDefault {server : ClientServerConfig} (h : cfg.Valid)
    (hserver : server ∈ cfg.servers) (makeDefault : Bool) :
    (cfg.chooseDefault server.name makeDefault).Valid := by
  unfold ClientConfig.chooseDefault
  split_ifs
  · exact { h with defaultServer := Or.inr ⟨server, hserver, rfl⟩ }
  · exact h

theorem Valid.useServer {name : String} (h : cfg.Valid)
    (hserver : (cfg.findServer name).isSome = true) : { cfg with defaultServer := name }.Valid := by
  obtain ⟨server, hfind⟩ := Option.isSome_iff_exists.mp hserver
  have hname : server.name = name := by simpa using List.find?_some hfind
  exact { h with defaultServer := Or.inr ⟨server, List.mem_of_find?_eq_some hfind, hname⟩ }

theorem Valid.withoutServer {name : String} {servers : List ClientServerConfig} (h : cfg.Valid)
    (hcut : Slice.cut ClientServerConfig.name name cfg.servers = some servers) :
    (cfg.withoutServer name servers).Valid where
  servers := h.servers.sublist ((Slice.sublist_of_cut hcut).map _)
  pendingPeers := h.pendingPeers
  defaultServer := by
    unfold ClientConfig.withoutServer
    split_ifs with hdefault
    · exact Or.inl rfl
    · refine h.defaultServer.imp_right ?_
      rintro ⟨server, hserver, hname⟩
      exact ⟨server, (Slice.mem_iff_of_cut hcut (by rwa [hname])).mpr hserver, hname⟩

end ClientConfig

namespace ClientLib

variable {L : ClientLib} {c : Invocation} {file : Option Bytes} {args : List String}
  {cfg cfg' : ClientConfig}

theorem publicKey_of_pendingPublicKey {pending : ClientPendingRequest} {key : String}
    (h : L.pendingPublicKey pending = .ok key) :
    L.publicKeyFromPrivateKey pending.privateKey = .ok key := by
  unfold pendingPublicKey at h
  split at h
  · cases h
  · rename_i hkey
    rw [hkey, ← h]

/-- Removing requests leaves everything but the requests with the key alone. -/
theorem removePending_spec {publicKey : String}
    (h : L.removePendingByPublicKey cfg publicKey = .ok cfg') :
    cfg' = { cfg with pendingPeers := cfg'.pendingPeers } ∧
      cfg'.pendingPeers.Sublist cfg.pendingPeers ∧
      ∀ pending, L.publicKeyFromPrivateKey pending.privateKey ≠ .ok publicKey →
        (pending ∈ cfg'.pendingPeers ↔ pending ∈ cfg.pendingPeers) := by
  unfold removePendingByPublicKey at h
  cases hkept : Slice.filterInPlace
      (fun pending => return (← L.pendingPublicKey pending) ≠ publicKey) cfg.pendingPeers with
  | error err =>
    rw [hkept] at h
    cases h
  | ok kept =>
    rw [hkept] at h
    cases h
    obtain rfl := Slice.filterInPlace_eq hkept
    refine ⟨rfl, List.filter_sublist, fun pending hkey => ?_⟩
    rw [List.mem_filter, and_iff_left_iff_imp]
    intro _
    cases hpublic : L.pendingPublicKey pending with
    | error err => simp [Slice.passes, hpublic, bind, Except.bind]
    | ok key =>
      have hne : key ≠ publicKey := by
        rintro rfl
        exact hkey (publicKey_of_pendingPublicKey hpublic)
      simpa [Slice.passes, hpublic, bind, Except.bind, pure, Except.pure] using hne

/-- What removing one server keeps, removing several keeps. -/
theorem removeServers_induction {P : ClientConfig → Prop} {names : List String}
    (h : L.removeServers names cfg = .ok cfg')
    (hstep : ∀ cfg name servers, name ∈ names →
      Slice.cut ClientServerConfig.name name cfg.servers = some servers →
      P cfg → P (cfg.withoutServer name servers))
    (hcfg : P cfg) : P cfg' := by
  induction names generalizing cfg with
  | nil => rwa [← Except.ok.inj h]
  | cons name names ih =>
    unfold removeServers at h
    split at h
    · cases h
    · rename_i servers hcut
      refine ih h ?_ (hstep cfg name servers List.mem_cons_self hcut hcfg)
      exact fun cfg name servers hname => hstep cfg name servers (List.mem_cons_of_mem _ hname)

theorem valid_removePending {publicKey : String}
    (h : L.removePendingByPublicKey cfg publicKey = .ok cfg')
    (hvalid : cfg.Valid) : cfg'.Valid := by
  obtain ⟨heq, hsub, -⟩ := removePending_spec h
  rw [heq]
  exact { hvalid with pendingPeers := hvalid.pendingPeers.sublist (hsub.map _) }

theorem valid_change (h : Change L c args cfg cfg') (hvalid : cfg.Valid) : cfg'.Valid := by
  cases h with
  | request => exact hvalid.putPending _
  | importServer input pending apiURL cfg₁ hinput hpending hremove =>
    have hserver : (⟨L.importName input pending, apiURL, some (importWireGuard input pending)⟩ :
        ClientServerConfig) ∈ cfg₁.servers := by
      rw [(removePending_spec hremove).1]
      exact Slice.mem_put_self _ _
    have hremoved := valid_removePending hremove (hvalid.putServer _)
    simpa only using hremoved.chooseDefault hserver input.makeDefault
  | addServer parsed apiURL hparsed =>
    have hserver : (⟨parsed.name, apiURL, none⟩ : ClientServerConfig) ∈
        (cfg.putServer ⟨parsed.name, apiURL, none⟩).servers := Slice.mem_put_self _ _
    exact (hvalid.putServer _).chooseDefault hserver _
  | useServer hserver => exact hvalid.useServer hserver
  | remove hcommand hremove =>
    exact removeServers_induction hremove (fun _ _ _ _ hcut h => h.withoutServer hcut) hvalid

/-! ## Keys of imported servers -/

/-- The call is an import, and this is the WireGuard part of its entry: the data
of the import file, with the private key of the public key in it. -/
def Imported (L : ClientLib) (c : Invocation) (wireGuard : ClientWireGuardConfig) : Prop :=
  ∃ args input, c.args = "import" :: args ∧ L.readImport c args = .ok input ∧
    L.publicKeyFromPrivateKey wireGuard.privateKey = .ok input.config.clientPublicKey ∧
    wireGuard = importWireGuard input ⟨"", wireGuard.privateKey⟩

/-- A request that was found has the key that was looked for. -/
theorem publicKey_of_findPending {publicKey : String} {requests : List ClientPendingRequest}
    {pending : ClientPendingRequest} (h : L.findPending publicKey requests = .ok (some pending)) :
    L.publicKeyFromPrivateKey pending.privateKey = .ok publicKey := by
  induction requests with
  | nil => cases h
  | cons request requests ih =>
    unfold findPending at h
    cases hkey : L.pendingPublicKey request with
    | error err =>
      rw [hkey] at h
      cases h
    | ok key =>
      rw [hkey] at h
      change (if key = publicKey then pure (some request) else L.findPending publicKey requests) =
        .ok (some pending) at h
      split_ifs at h with hsame
      · obtain rfl : request = pending := Option.some.inj (Except.ok.inj h)
        rw [← hsame]
        exact publicKey_of_pendingPublicKey hkey
      · exact ih h

theorem sublist_of_removeServers {names : List String} (h : L.removeServers names cfg = .ok cfg') :
    cfg'.servers.Sublist cfg.servers :=
  removeServers_induction (P := fun cfg' => cfg'.servers.Sublist cfg.servers) h
    (fun _ _ _ _ hcut hsub => (Slice.sublist_of_cut hcut).trans hsub) (List.Sublist.refl _)

theorem servers_chooseDefault (cfg : ClientConfig) (name : String) (makeDefault : Bool) :
    (cfg.chooseDefault name makeDefault).servers = cfg.servers := by
  unfold ClientConfig.chooseDefault
  split_ifs <;> rfl

theorem pendingPeers_chooseDefault (cfg : ClientConfig) (name : String) (makeDefault : Bool) :
    (cfg.chooseDefault name makeDefault).pendingPeers = cfg.pendingPeers := by
  unfold ClientConfig.chooseDefault
  split_ifs <;> rfl

/-- A server with WireGuard data was there before, or the call has imported it. -/
theorem imported_change (h : Change L c args cfg cfg') (hargs : args = c.args)
    {server : ClientServerConfig} {wireGuard : ClientWireGuardConfig}
    (hserver : server ∈ cfg'.servers) (hwg : server.wireGuard = some wireGuard) :
    server ∈ cfg.servers ∨ L.Imported c wireGuard := by
  cases h with
  | request | useServer => exact Or.inl hserver
  | importServer input pending apiURL cfg₁ hinput hpending hremove =>
    rw [servers_chooseDefault, (removePending_spec hremove).1] at hserver
    rcases Slice.mem_of_mem_put hserver with rfl | hserver
    · cases hwg
      exact Or.inr ⟨_, input, hargs.symm, hinput, publicKey_of_findPending hpending, rfl⟩
    · exact Or.inl hserver
  | addServer parsed apiURL hparsed =>
    rw [servers_chooseDefault] at hserver
    rcases Slice.mem_of_mem_put hserver with rfl | hserver
    · cases hwg
    · exact Or.inl hserver
  | remove hcommand hremove => exact Or.inl ((sublist_of_removeServers hremove).subset hserver)

/-! ## Entries that a command is not about -/

/-- The command names the server. -/
def NamesServer (L : ClientLib) (c : Invocation) (cfg : ClientConfig) (name : String) : Prop :=
  (∃ args input pending, c.args = "import" :: args ∧ L.readImport c args = .ok input ∧
      L.findPending input.config.clientPublicKey cfg.pendingPeers = .ok (some pending) ∧
      name = L.importName input pending) ∨
    (∃ args parsed, c.args = "add" :: args ∧ parseServerAddArgs L.quote args = .ok parsed ∧
      name = parsed.name) ∨
    ∃ names, (c.args = "remove" :: names ∨ c.args = "rm" :: names) ∧ name ∈ names

/-- The command names the request, or consumes it. -/
def NamesPending (L : ClientLib) (c : Invocation) (pending : ClientPendingRequest) : Prop :=
  c.args = ["request", pending.name] ∨
    ∃ args input, c.args = "import" :: args ∧ L.readImport c args = .ok input ∧
      L.publicKeyFromPrivateKey pending.privateKey = .ok input.config.clientPublicKey

/-- The entries that a command does not name or consume are the same after it. -/
structure KeepsOthers (L : ClientLib) (c : Invocation) (cfg cfg' : ClientConfig) : Prop where
  servers : ∀ server, ¬L.NamesServer c cfg server.name →
    (server ∈ cfg'.servers ↔ server ∈ cfg.servers)
  pendingPeers : ∀ pending, ¬L.NamesPending c pending →
    (pending ∈ cfg'.pendingPeers ↔ pending ∈ cfg.pendingPeers)

theorem keepsOthers_refl (L : ClientLib) (c : Invocation) (cfg : ClientConfig) :
    L.KeepsOthers c cfg cfg := ⟨fun _ _ => Iff.rfl, fun _ _ => Iff.rfl⟩

theorem mem_removeServers {names : List String} (h : L.removeServers names cfg = .ok cfg')
    {server : ClientServerConfig} (hname : server.name ∉ names) :
    server ∈ cfg'.servers ↔ server ∈ cfg.servers := by
  refine removeServers_induction (P := fun cfg' => server ∈ cfg'.servers ↔ server ∈ cfg.servers) h
    (fun cfg₁ name servers hmem hcut hkept => ?_) Iff.rfl
  have hne : server.name ≠ name := by
    rintro rfl
    exact hname hmem
  exact (Slice.mem_iff_of_cut hcut hne).trans hkept

theorem pendingPeers_removeServers {names : List String}
    (h : L.removeServers names cfg = .ok cfg') : cfg'.pendingPeers = cfg.pendingPeers :=
  removeServers_induction (P := fun cfg' => cfg'.pendingPeers = cfg.pendingPeers) h
    (fun _ _ _ _ _ hkept => hkept) rfl

theorem keepsOthers_change (h : Change L c args cfg cfg') (hargs : args = c.args) :
    L.KeepsOthers c cfg cfg' := by
  cases h with
  | request =>
    refine ⟨fun _ _ => Iff.rfl, fun pending hnames => Slice.mem_put_iff_of_ne ?_⟩
    rintro rfl
    exact hnames (Or.inl hargs.symm)
  | importServer input pending apiURL cfg₁ hinput hpending hremove =>
    obtain ⟨heq, -, hkept⟩ := removePending_spec hremove
    refine ⟨fun server hnames => ?_, fun request hnames => ?_⟩
    · rw [servers_chooseDefault, heq]
      refine Slice.mem_put_iff_of_ne fun hname => hnames ?_
      dsimp only at hname
      exact Or.inl ⟨_, input, pending, hargs.symm, hinput, hpending, hname⟩
    · rw [pendingPeers_chooseDefault]
      exact hkept request fun hkey => hnames (Or.inr ⟨_, input, hargs.symm, hinput, hkey⟩)
  | addServer parsed apiURL hparsed =>
    refine ⟨fun server hnames => ?_, fun request _ => ?_⟩
    · rw [servers_chooseDefault]
      refine Slice.mem_put_iff_of_ne fun hname => hnames ?_
      exact Or.inr (Or.inl ⟨_, parsed, hargs.symm, hparsed, hname⟩)
    · rw [pendingPeers_chooseDefault]
      rfl
  | useServer => exact ⟨fun _ _ => Iff.rfl, fun _ _ => Iff.rfl⟩
  | remove hcommand hremove =>
    refine ⟨fun server hnames => mem_removeServers hremove fun hname => hnames ?_, fun _ _ => ?_⟩
    · rcases hcommand with rfl | rfl
      · exact Or.inr (Or.inr ⟨_, Or.inl hargs.symm, hname⟩)
      · exact Or.inr (Or.inr ⟨_, Or.inr hargs.symm, hname⟩)
    · rw [pendingPeers_removeServers hremove]

/-! ## Sequences of calls -/

/-- What holds of a configuration after some calls. -/
structure Holds (L : ClientLib) (history : List Invocation) (cfg : ClientConfig) : Prop where
  valid : cfg.Valid
  imported : ∀ server ∈ cfg.servers, ∀ wireGuard, server.wireGuard = some wireGuard →
    ∃ c ∈ history, L.Imported c wireGuard

theorem calls_append (L : ClientLib) (file : Option Bytes) (history : List Invocation)
    (c : Invocation) : L.calls file (history ++ [c]) = (L.call c (L.calls file history)).2 := by
  simp [calls]

theorem Holds.append {history : List Invocation} (h : L.Holds history cfg) (c : Invocation) :
    L.Holds (history ++ [c]) cfg where
  valid := h.valid
  imported server hserver wireGuard hwg := by
    obtain ⟨c', hc', himported⟩ := h.imported server hserver wireGuard hwg
    exact ⟨c', List.mem_append_left _ hc', himported⟩

theorem Holds.change {history : List Invocation} (h : L.Holds history cfg)
    (hchange : Change L c c.args cfg cfg') : L.Holds (history ++ [c]) cfg' where
  valid := valid_change hchange h.valid
  imported server hserver wireGuard hwg := by
    rcases imported_change hchange rfl hserver hwg with hold | himported
    · exact (h.append c).imported server hold wireGuard hwg
    · exact ⟨c, by simp, himported⟩

/-- What can be read after a call was there before it, or is one change of it. -/
theorem eq_or_change (h : L.decode (L.call c file).2 = .ok cfg') :
    (L.call c file).2 = file ∨ ∃ cfg, L.decode file = .ok cfg ∧ Change L c c.args cfg cfg' := by
  rcases call_cases L c file with hsame | hsaved
  · exact Or.inl hsame
  · obtain ⟨cfg, cfg₁, data, hcfg, hchange, hdata, hcall⟩ := hsaved
    rw [hcall] at h
    obtain rfl := L.unmarshal_marshal hdata h
    exact Or.inr ⟨cfg, hcfg, hchange⟩

theorem holds_calls {history : List Invocation} (hstart : L.decode file = .ok {})
    (hcfg : L.decode (L.calls file history) = .ok cfg) : L.Holds history cfg := by
  induction history using List.reverseRecOn generalizing cfg with
  | nil =>
    obtain rfl := Except.ok.inj (hstart.symm.trans hcfg)
    exact ⟨ClientConfig.valid_empty, fun _ hserver => absurd hserver (by simp)⟩
  | append_singleton history c ih =>
    rw [calls_append] at hcfg
    rcases eq_or_change hcfg with hsame | ⟨cfg₀, hcfg₀, hchange⟩
    · rw [hsame] at hcfg
      exact (ih hcfg).append c
    · exact (ih hcfg₀).change hchange

/-- What the commands promise after some calls, and for one more call. -/
structure CommandsSound (L : ClientLib) (file : Option Bytes) (history : List Invocation)
    (c : Invocation) : Prop where
  /-- Names are distinct, and the default is the name of a server. -/
  valid : ∀ cfg, L.decode (L.calls file history) = .ok cfg → cfg.Valid
  /-- An imported server has the private key that belongs to its import file. -/
  imported : ∀ cfg, L.decode (L.calls file history) = .ok cfg →
    ∀ server ∈ cfg.servers, ∀ wireGuard, server.wireGuard = some wireGuard →
      ∃ c' ∈ history, L.Imported c' wireGuard
  /-- The call leaves the other entries alone. -/
  keeps : ∀ cfg cfg', L.decode (L.calls file history) = .ok cfg →
    L.decode (L.calls file (history ++ [c])) = .ok cfg' → L.KeepsOthers c cfg cfg'
  /-- A call that fails, not only to print its answer, leaves the file alone. -/
  fails : ∀ err, (L.call c (L.calls file history)).1 = .error err → c.print = .ok () →
    L.calls file (history ++ [c]) = L.calls file history

/-- From an empty configuration on, every sequence of calls is sound. -/
theorem commandsSound {L : ClientLib} {file : Option Bytes} (hstart : L.decode file = .ok {})
    (history : List Invocation) (c : Invocation) : L.CommandsSound file history c where
  valid _ hcfg := (holds_calls hstart hcfg).valid
  imported _ hcfg := (holds_calls hstart hcfg).imported
  keeps cfg cfg' hcfg hcfg' := by
    rw [calls_append] at hcfg'
    rcases eq_or_change hcfg' with hsame | ⟨cfg₀, hcfg₀, hchange⟩
    · rw [hsame, hcfg] at hcfg'
      cases hcfg'
      exact keepsOthers_refl L c cfg
    · obtain rfl := Except.ok.inj (hcfg.symm.trans hcfg₀)
      exact keepsOthers_change hchange rfl
  fails err herr hprint := by
    rw [calls_append]
    rcases call_cases L c (L.calls file history) with hsame | hsaved
    · exact hsame
    · obtain ⟨_, _, _, _, _, _, hcall⟩ := hsaved
      rw [hcall, hprint] at herr
      cases herr

/-! ## An import -/

/-- The key pair of a client, and the public key of a server. -/
def laptopKeys : ClientKeyPair :=
  ⟨"WOwNxBmqgze/cl8Cb9qceMHLHGQu6v+dbhES83eD6UI=", "5Etvk/ES3eAuhqM0s9Chj/hKACutr3TwfoeQyNJ/7mY="⟩

def workKey : String := "rxhVyV5WGzRkxs5GodeRTeYYPPsWKc7PnOH4qCUzJ2s="

/-- The bytes that the texts of the two keys stand for. -/
def laptopKeyBytes : Bytes :=
  [88, 236, 13, 196, 25, 170, 131, 55, 191, 114, 95, 2, 111, 218, 156, 120,
    193, 203, 28, 100, 46, 234, 255, 157, 110, 17, 18, 243, 119, 131, 233, 66]

def workKeyBytes : Bytes :=
  [175, 24, 85, 201, 94, 86, 27, 52, 100, 198, 206, 70, 161, 215, 145, 77,
    230, 24, 60, 251, 22, 41, 206, 207, 156, 225, 248, 168, 37, 51, 39, 107]

/-- An import file, and the server that it becomes. -/
def workImport : ServerImportConfig :=
  ⟨"http://[fd7a:115c:a1e1::1]", laptopKeys.publicKey, ⟨"fd7a:115c:a1e1::2/128", workKey,
    "example.com:51820", ["fd7a:115c:a1e1::1/128", "fd7a:115c:a1e0::/64"]⟩⟩

def workServer : ClientServerConfig :=
  ⟨"work", "http://[fd7a:115c:a1e1::1]:8081", some ⟨laptopKeys.privateKey, "fd7a:115c:a1e1::2/128",
    workKey, "example.com:51820", ["fd7a:115c:a1e1::1/128", "fd7a:115c:a1e0::/64"]⟩⟩

/-- A text of these lines. -/
def textOf (lines : List String) : Bytes := lines.flatMap fun line => bytes line ++ [10]

/-- What `wgconfig.PeerConfig` writes for the import, without its comments. -/
def workImportText : Bytes :=
  textOf ["api_url = \"http://[fd7a:115c:a1e1::1]\"",
    "client_public_key = \"" ++ laptopKeys.publicKey ++ "\"", "", "[wireguard]",
    "address = \"fd7a:115c:a1e1::2/128\"", "server_public_key = \"" ++ workKey ++ "\"",
    "endpoint = \"example.com:51820\"",
    "allowed_ips = [\"fd7a:115c:a1e1::1/128\", \"fd7a:115c:a1e0::/64\"]"]

/-- Configurations, and what `toml.Marshal` writes for them. -/
def workTexts : List (ClientConfig × Bytes) :=
  [({}, []),
    ({ pendingPeers := [⟨"laptop", laptopKeys.privateKey⟩] },
      textOf ["[[pending_wireguard_requests]]", "name = 'laptop'",
        "private_key = '" ++ laptopKeys.privateKey ++ "'"]),
    (⟨"work", [workServer], []⟩,
      textOf ["default_server = 'work'", "", "[[servers]]", "name = 'work'",
        "api_url = 'http://[fd7a:115c:a1e1::1]:8081'", "", "[servers.wireguard]",
        "private_key = '" ++ laptopKeys.privateKey ++ "'", "address = 'fd7a:115c:a1e1::2/128'",
        "server_public_key = '" ++ workKey ++ "'", "endpoint = 'example.com:51820'",
        "allowed_ips = ['fd7a:115c:a1e1::1/128', 'fd7a:115c:a1e0::/64']"])]

/-- The entry of a table. -/
def entry {α β : Type} [DecidableEq α] (table : List (α × β)) (a : α) : Except String β :=
  match table.lookup a with
  | some b => .ok b
  | none => .error "not in the table"

theorem mem_of_entry {α β : Type} [DecidableEq α] {table : List (α × β)} {a : α} {b : β}
    (h : entry table a = .ok b) : (a, b) ∈ table := by
  unfold entry at h
  split at h
  · rename_i b' hlookup
    cases h
    obtain ⟨before, after, rfl, -⟩ := List.lookup_eq_some_iff.mp hlookup
    simp
  · cases h

/-- What the packages answer on the texts of the import. -/
def workLib : ClientLib where
  unicode := Unicode.ascii
  quote s := "\"" ++ s ++ "\""
  marshal := entry workTexts
  unmarshal := entry (workTexts.map Prod.swap)
  unmarshalImport := entry [(workImportText, workImport)]
  parseURL := entry [("http://[fd7a:115c:a1e1::1]",
    ⟨"http", "[fd7a:115c:a1e1::1]", "fd7a:115c:a1e1::1", "", fun host => "http://" ++ host⟩)]
  parseKey := entry [(laptopKeys.privateKey, laptopKeyBytes), (workKey, workKeyBytes)]
  publicKey key := if key = laptopKeyBytes then laptopKeys.publicKey else "another key"
  parsePrefix := entry (["fd7a:115c:a1e1::2/128", "fd7a:115c:a1e1::1/128",
    "fd7a:115c:a1e0::/64"].map fun text => (text, ()))
  unmarshal_marshal := by
    intro cfg cfg' data hdata hcfg'
    have hinj : ∀ p ∈ workTexts, ∀ q ∈ workTexts, p.2 = q.2 → p.1 = q.1 := by decide +kernel
    obtain ⟨q, hq, hswap⟩ := List.mem_map.mp (mem_of_entry hcfg')
    cases hswap
    exact hinj q hq (cfg, q.2) (mem_of_entry hdata) rfl

/-- A call where nothing outside of the program fails. -/
def workCall (args : List String) : Invocation where
  args := args
  configPath := .ok "/home/user/.config/firedoze/config.toml"
  readConfig := .ok ()
  writeConfig := .ok ()
  readInput _ := .ok workImportText
  generateKeyPair := .ok laptopKeys
  print := .ok ()

def workHistory : List Invocation :=
  [workCall ["request", "laptop"], workCall ["import", "./work.toml", "-default"]]

example : (workLib.decode (workLib.calls none workHistory)).toOption =
    some ⟨"work", [workServer], []⟩ := by decide +kernel

theorem commandsSound_sample :
    workLib.CommandsSound none workHistory (workCall ["remove", "work"]) :=
  commandsSound rfl workHistory _

end ClientLib

end Firedoze.Client
