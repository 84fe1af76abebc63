import Firedoze.Manager.Address
import Firedoze.Manager.Routes

/-!
# The Caddy configuration

A public hostname is written in three places.  The API reports it in the URL
of a VM or a route (`reported`), `caddyConfig` puts it into the host matcher
of a Caddy route, and `routeForHost` takes it apart again.

The three places treat `base_domain` differently.  The API cuts a trailing
dot off, `caddyConfig` does not, and `routeForHost` lowers it and takes
everything after a lone colon of the host for a port.  `Config.Validate`
accepts a base domain of either kind.

`hostnames_agree_iff` says that these are the only two kinds of base domain
for which the three places disagree.
-/

namespace Firedoze

open Conc Conc.Prog Text

/-! ## The configuration -/

/-- `caddy.tls_mode`. -/
inductive TLSMode
  | auto
  | behindProxy
  | other (text : String)
  deriving DecidableEq, Repr

/-- The part of the configuration that the public hostnames depend on. -/
structure ProxyConfig where
  baseDomain : String
  httpPort : Int
  httpsPort : Int
  internalProxyPort : Int
  tlsMode : TLSMode
  deriving DecidableEq, Repr

/-- The check that `Config.Validate` makes of a port. -/
def checkPort (field : String) (port : Int) : Except Err Unit :=
  if port ≤ 0 ∨ 65535 < port then .error (.msg (field ++ " must be between 1 and 65535"))
  else .ok ()

namespace ProxyConfig

variable (c : ProxyConfig)

/-- `Config.Validate`, as far as it is about these fields. -/
def validate : Except Err Unit := do
  if c.baseDomain = "" then throw (.msg "base_domain is required")
  if contains c.baseDomain "://" then throw (.msg "base_domain must be a DNS name, not a URL")
  checkPort "caddy.http_port" c.httpPort
  checkPort "caddy.https_port" c.httpsPort
  checkPort "caddy.internal_proxy_port" c.internalProxyPort
  match c.tlsMode with
  | .auto => pure ()
  | .behindProxy => pure ()
  | .other "" => throw (.msg "caddy.tls_mode is required")
  | .other _ => throw (.msg "caddy.tls_mode must be auto or behind_proxy")

/-! ## The API -/

/-- `publicURL`. -/
def publicURL (hostname : String) : String :=
  if c.httpsPort = 443 then "https://" ++ hostname
  else "https://" ++ joinHostPort hostname (toString c.httpsPort)

/-- What `vmInfo` and `routeInfo` report about a name: the hostname and the
URL. -/
def reported (name : String) : String × String :=
  let hostname := defaultHostname c.baseDomain name
  (hostname, c.publicURL hostname)

/-! ## Routes of Caddy -/

/-- `wakeProxyUpstream`. -/
def wakeProxyUpstream : String := joinHostPort "127.0.0.1" (toString c.internalProxyPort)

end ProxyConfig

/-- The handlers that the configuration uses. -/
inductive Handler
  | reverseProxy (dial : String)
  | staticResponse (statusCode body : String)
  | redirect (statusCode location : String)
  deriving DecidableEq, Repr

/-- A route of Caddy.  A matcher that a route does not have is empty. -/
structure CaddyRoute where
  host : List String
  path : List String
  handler : Handler
  deriving DecidableEq, Repr

/-- `reverseProxyRoute`. -/
def reverseProxyRoute (host upstream : String) : CaddyRoute :=
  ⟨[host], [], .reverseProxy upstream⟩

/-- `routeAuthRoute`. -/
def routeAuthRoute (upstream : String) : CaddyRoute :=
  ⟨[], ["/_firedoze/auth"], .reverseProxy upstream⟩

/-- `baseDomainRoute`. -/
def baseDomainRoute (host : String) : CaddyRoute :=
  ⟨[host], [], .staticResponse "200" "firedoze is running\n"⟩

/-- `routeNotFoundRoute`. -/
def routeNotFoundRoute : CaddyRoute :=
  ⟨[], [], .staticResponse "404" "firedoze route not found\n"⟩

/-- `redirectToHTTPSRoute`. -/
def redirectToHTTPSRoute (host : String) : CaddyRoute :=
  ⟨[host], [], .redirect "308" "https://\x7bhttp.request.host\x7d\x7bhttp.request.uri\x7d"⟩

/-- `store.Route` as `ListRoutes` returns it. -/
structure Alias where
  name : String
  vmName : String
  route : Route
  deriving DecidableEq, Repr

/-- What the loops of `caddyConfig` collect.  The map `publicHostSet` has the
entries of `publicHosts`. -/
structure Building where
  routes : List CaddyRoute
  publicHosts : List String
  routeCount : Nat

/-- Adds a host to `publicHosts` unless it is there. -/
def Building.publish (b : Building) (host : String) : Building :=
  if host ∈ b.publicHosts then b else { b with publicHosts := b.publicHosts ++ [host] }

/-- Whether `caddyConfig` routes to the VM. -/
def VMRow.routed (r : VMRow) : Bool := r.privateIP.isSome && r.publicHTTP

/-- An assignment to `vmsByName`. -/
def addByName (byName : String → Option VM) (vm : VM) : String → Option VM :=
  Function.update byName vm.name (some vm)

/-- `vmsByName`, in which a later VM replaces an earlier one. -/
def vmsByName (vms : List VM) : String → Option VM := vms.foldl addByName fun _ => none

/-- A server of the HTTP app. -/
structure CaddyServer where
  listen : String
  routes : List CaddyRoute
  tls : Bool

/-- The servers `firedoze_http` and `firedoze_https`. -/
structure CaddyServers where
  http : CaddyServer
  https : Option CaddyServer

namespace ProxyConfig

variable (c : ProxyConfig)

/-- The host of a name in the Caddy configuration. -/
def caddyHost (name : String) : String := name ++ "." ++ c.baseDomain

/-- The body of the loops over the VMs and the routes. -/
def addPublic (b : Building) (name : String) (vm : VM) : Building :=
  if vm.routed then
    let b := b.publish (c.caddyHost name)
    { b with
      routes := b.routes ++ [reverseProxyRoute (c.caddyHost name) c.wakeProxyUpstream]
      routeCount := b.routeCount + 1 }
  else b

/-- The body of the loop over the routes. -/
def addAlias (byName : String → Option VM) (b : Building) (a : Alias) : Building :=
  match byName a.vmName with
  | none => b
  | some vm => c.addPublic b a.name vm

/-- The body of the loop over the protected hosts. -/
def addProtected (b : Building) (host : String) : Building :=
  if host ∈ b.publicHosts then b
  else
    { b.publish host with routes := b.routes ++ [reverseProxyRoute host c.wakeProxyUpstream] }

/-- The loops of `caddyConfig`. -/
def build (vms : List VM) (aliases : List Alias) (protectedHosts : List String) : Building :=
  let b : Building :=
    { routes := [routeAuthRoute c.wakeProxyUpstream, baseDomainRoute c.baseDomain]
      publicHosts := [c.baseDomain]
      routeCount := 0 }
  let b := vms.foldl (fun b vm => c.addPublic b vm.name vm) b
  let b := aliases.foldl (c.addAlias (vmsByName vms)) b
  protectedHosts.foldl c.addProtected b

/-- `caddyConfig`, which also answers the number of routes. -/
def caddyConfig (vms : List VM) (aliases : List Alias) (protectedHosts : List String) :
    CaddyServers × Nat :=
  let b := c.build vms aliases protectedHosts
  let routes := b.routes ++ [routeNotFoundRoute]
  let listenHTTP := ":" ++ toString c.httpPort
  if c.tlsMode = .behindProxy then (⟨⟨listenHTTP, routes, false⟩, none⟩, b.routeCount)
  else
    let redirectRoutes := b.publicHosts.map redirectToHTTPSRoute ++ [routeNotFoundRoute]
    (⟨⟨listenHTTP, redirectRoutes, false⟩,
      some ⟨":" ++ toString c.httpsPort, routes, true⟩⟩, b.routeCount)

end ProxyConfig

/-! ## What Caddy does with a host -/

/-- The host matcher of a route. -/
def CaddyRoute.matchesHost (r : CaddyRoute) (host : String) : Bool := r.host.any (equalFold · host)

/-- Caddy takes the first route whose host matcher has the host, up to the
case of ASCII letters. -/
def CaddyServer.route (s : CaddyServer) (host : String) : Option CaddyRoute :=
  s.routes.find? (·.matchesHost host)

/-- The server that answers for the VMs. -/
def CaddyServers.sites (s : CaddyServers) : CaddyServer := s.https.getD s.http

/-- The handler sends a client to HTTPS. -/
def Handler.isRedirect : Handler → Bool
  | .redirect _ _ => true
  | _ => false

/-- The host is proxied to the wake proxy, and in the mode `auto` it is
redirected from HTTP. -/
structure Proxied (c : ProxyConfig) (servers : CaddyServers) (host : String) : Prop where
  sites : (servers.sites.route host).map (·.handler) = some (.reverseProxy c.wakeProxyUpstream)
  http : c.tlsMode = .auto → ∃ r, servers.http.route host = some r ∧ r.handler.isRedirect = true

/-! ## Agreement -/

/-- The rows that `ListRoutes` returns. -/
def Store.ListsRoutes (s : Store) (aliases : List Alias) : Prop :=
  ∀ a, a ∈ aliases ↔ s.routes a.name = some a.route ∧
    ∃ r, s.vms a.route.vmUUID = some r ∧ a.vmName = r.name

/-- The API, the Caddy configuration and `routeForHost` agree on the hostnames
of the store. -/
structure HostnamesAgree (U : Unicode) (c : ProxyConfig) (s : Store) (aliases : List Alias)
    (protectedHosts : List String) : Prop where
  proxied : ∀ name vm port, s.Resolves name vm port → vm.publicHTTP = true →
    Proxied c (c.caddyConfig s.listVMs aliases protectedHosts).1 (c.reported name).1
  found : ∀ name vm port, s.Resolves name vm port → vm.publicHTTP = true →
    routeForHost U s c.baseDomain (c.reported name).1 = some (vm, port)
  hidden : ∀ name vm port, s.Resolves name vm port → vm.publicHTTP = false →
    ∀ server, server = (c.caddyConfig s.listVMs aliases protectedHosts).1.http ∨
      server = (c.caddyConfig s.listVMs aliases protectedHosts).1.sites →
    (server.route (c.reported name).1).isSome = true →
    ∃ p ∈ protectedHosts, equalFold p (c.reported name).1 = true

/-! ## The routes that are built -/

/-- A loop that adds to a list. -/
theorem mem_foldl_iff {α β γ : Type} {f : β → α → β} {g : β → List γ} {P : α → γ → Prop}
    (h : ∀ b x y, y ∈ g (f b x) ↔ y ∈ g b ∨ P x y) (xs : List α) (b : β) (y : γ) :
    y ∈ g (xs.foldl f b) ↔ y ∈ g b ∨ ∃ x ∈ xs, P x y := by
  induction xs generalizing b with
  | nil => simp
  | cons x xs ih =>
    rw [List.foldl_cons, ih, h, List.exists_mem_cons_iff, or_assoc]

section Build

variable {c : ProxyConfig} {b : Building} {vms : List VM} {aliases : List Alias}
  {protectedHosts : List String} {name host : String} {vm : VM} {r : CaddyRoute}

theorem Building.mem_publish : name ∈ (b.publish host).publicHosts ↔
    name ∈ b.publicHosts ∨ name = host := by
  unfold Building.publish
  split_ifs with h
  · exact ⟨Or.inl, fun hname => hname.elim id fun heq => heq ▸ h⟩
  · simp

theorem Building.routes_publish : (b.publish host).routes = b.routes := by
  unfold Building.publish
  split_ifs <;> rfl

theorem ProxyConfig.mem_routes_addPublic : r ∈ (c.addPublic b name vm).routes ↔
    r ∈ b.routes ∨
      (vm.routed = true ∧ r = reverseProxyRoute (c.caddyHost name) c.wakeProxyUpstream) := by
  unfold ProxyConfig.addPublic
  split_ifs with h <;> simp [h, Building.routes_publish]

theorem ProxyConfig.mem_hosts_addPublic : host ∈ (c.addPublic b name vm).publicHosts ↔
    host ∈ b.publicHosts ∨ (vm.routed = true ∧ host = c.caddyHost name) := by
  unfold ProxyConfig.addPublic
  split_ifs with h <;> simp [h, Building.mem_publish]

/-- The VM is listed under its name, or under that of a route. -/
def Lists (vms : List VM) (aliases : List Alias) (name : String) : Prop :=
  (∃ vm ∈ vms, vm.routed = true ∧ vm.name = name) ∨
    ∃ a ∈ aliases, a.name = name ∧ ∃ vm, vmsByName vms a.vmName = some vm ∧ vm.routed = true

/-- What the first two loops have collected. -/
def ProxyConfig.listed (c : ProxyConfig) (vms : List VM) (aliases : List Alias) : Building :=
  aliases.foldl (c.addAlias (vmsByName vms)) (vms.foldl (fun b vm => c.addPublic b vm.name vm)
    { routes := [routeAuthRoute c.wakeProxyUpstream, baseDomainRoute c.baseDomain]
      publicHosts := [c.baseDomain]
      routeCount := 0 })

theorem ProxyConfig.mem_routes_listed : r ∈ (c.listed vms aliases).routes ↔
    r = routeAuthRoute c.wakeProxyUpstream ∨ r = baseDomainRoute c.baseDomain ∨
      ∃ name, Lists vms aliases name ∧
        r = reverseProxyRoute (c.caddyHost name) c.wakeProxyUpstream := by
  unfold ProxyConfig.listed
  rw [mem_foldl_iff (g := Building.routes)
      (P := fun a r => ∃ vm, vmsByName vms a.vmName = some vm ∧ vm.routed = true ∧
        r = reverseProxyRoute (c.caddyHost a.name) c.wakeProxyUpstream),
    mem_foldl_iff (g := Building.routes)
      (P := fun vm r => vm.routed = true ∧
        r = reverseProxyRoute (c.caddyHost vm.name) c.wakeProxyUpstream)]
  · simp only [List.mem_cons, List.not_mem_nil, or_false, Lists]
    grind
  · exact fun b vm r => ProxyConfig.mem_routes_addPublic
  · intro b a r
    unfold ProxyConfig.addAlias
    split
    · rename_i hnone
      simp [hnone]
    · rename_i vm hvm
      simp [hvm, ProxyConfig.mem_routes_addPublic]

theorem ProxyConfig.mem_hosts_listed : host ∈ (c.listed vms aliases).publicHosts ↔
    host = c.baseDomain ∨ ∃ name, Lists vms aliases name ∧ host = c.caddyHost name := by
  unfold ProxyConfig.listed
  rw [mem_foldl_iff (g := Building.publicHosts)
      (P := fun a host => ∃ vm, vmsByName vms a.vmName = some vm ∧ vm.routed = true ∧
        host = c.caddyHost a.name),
    mem_foldl_iff (g := Building.publicHosts)
      (P := fun vm host => vm.routed = true ∧ host = c.caddyHost vm.name)]
  · simp only [List.mem_cons, List.not_mem_nil, or_false, Lists]
    grind
  · exact fun b vm host => ProxyConfig.mem_hosts_addPublic
  · intro b a host
    unfold ProxyConfig.addAlias
    split
    · rename_i hnone
      simp [hnone]
    · rename_i vm hvm
      simp [hvm, ProxyConfig.mem_hosts_addPublic]

/-- The last loop keeps the routes, and adds routes of protected hosts. -/
theorem ProxyConfig.routes_addProtected (b : Building) :
    b.routes ⊆ (protectedHosts.foldl c.addProtected b).routes ∧
      ∀ r ∈ (protectedHosts.foldl c.addProtected b).routes, r ∈ b.routes ∨
        ∃ p ∈ protectedHosts, r = reverseProxyRoute p c.wakeProxyUpstream := by
  induction protectedHosts generalizing b with
  | nil => exact ⟨fun _ h => h, fun _ h => Or.inl h⟩
  | cons p ps ih =>
    rw [List.foldl_cons]
    obtain ⟨hsub, hmem⟩ := ih (c.addProtected b p)
    have hstep : b.routes ⊆ (c.addProtected b p).routes ∧
        ∀ r ∈ (c.addProtected b p).routes, r ∈ b.routes ∨
          r = reverseProxyRoute p c.wakeProxyUpstream := by
      unfold ProxyConfig.addProtected
      split_ifs
      · exact ⟨fun _ h => h, fun _ h => Or.inl h⟩
      · exact ⟨List.subset_append_left _ _, fun r hr => by simpa using hr⟩
    refine ⟨fun r hr => hsub (hstep.1 hr), fun r hr => ?_⟩
    rcases hmem r hr with hr | ⟨q, hq, rfl⟩
    · rcases hstep.2 r hr with hr | rfl
      · exact Or.inl hr
      · exact Or.inr ⟨p, List.mem_cons_self, rfl⟩
    · exact Or.inr ⟨q, List.mem_cons_of_mem _ hq, rfl⟩

theorem ProxyConfig.mem_hosts_addProtected (b : Building) :
    host ∈ (protectedHosts.foldl c.addProtected b).publicHosts ↔
      host ∈ b.publicHosts ∨ host ∈ protectedHosts := by
  rw [mem_foldl_iff (g := Building.publicHosts) (P := fun p host => host = p)]
  · simp
  · intro b p host
    unfold ProxyConfig.addProtected
    split_ifs with hp
    · exact ⟨Or.inl, fun h => h.elim id fun heq => heq ▸ hp⟩
    · exact Building.mem_publish

end Build

/-! ## The names of the store -/

/-- What the code keeps about the tables: names are unique and valid, and
every VM has an address. -/
structure Store.Kept (s : Store) : Prop where
  directory : s.Directory
  names : s.ValidNames
  addresses : ∀ u r, s.vms u = some r → r.privateIP.isSome = true

/-- Every run of calls that have passed the checks of the API keeps it. -/
theorem kept_reach {cfg : Config} {calls : Calls} {w : World} {s : MState}
    {K : MState → MLabel → Prop} (hvalid : calls.Validated) (hleave : calls.LeaveAddress)
    (hw : w.store.Kept) (h : system.Reach K (start cfg calls w) s) : s.world.store.Kept := by
  refine ⟨directory_reach hw.directory h, names_valid_reach hvalid hw.names h,
    addresses_reach (P := fun ip => ip.isSome = true) hleave ?_ hw.addresses h⟩
  rintro l params ⟨_, _, -, -, hip⟩
  exact Option.isSome_of_eq_some hip

section Names

variable {s : Store} {aliases : List Alias} {name : String} {vm : VM} {port : Int}

theorem Store.mem_listVMs_iff_row (h : s.Directory) :
    vm ∈ s.listVMs ↔ s.vms vm.uuid = some vm.toVMRow := by
  rw [Store.mem_listVMs_iff, and_iff_right_iff_imp]
  exact h.bound _ _

theorem vmsByName_eq_some {vms : List VM} (h : vmsByName vms name = some vm) :
    vm ∈ vms ∧ vm.name = name := by
  have hfold : ∀ (vms : List VM) (m : String → Option VM),
      (vms.foldl addByName m) name = some vm →
      (vm ∈ vms ∧ vm.name = name) ∨ m name = some vm := by
    intro vms
    induction vms with
    | nil => exact fun m h => Or.inr h
    | cons v vms ih =>
      intro m h
      rcases ih _ h with ⟨hmem, hname⟩ | h
      · exact Or.inl ⟨List.mem_cons_of_mem _ hmem, hname⟩
      · by_cases hv : name = v.name
        · obtain rfl : v = vm := by simpa [addByName, hv] using h
          exact Or.inl ⟨List.mem_cons_self, hv.symm⟩
        · exact Or.inr (by simpa [addByName, hv] using h)
  exact (hfold vms _ h).resolve_right (by simp)

theorem exists_vmsByName {vms : List VM} (h : vm ∈ vms) :
    ∃ vm', vmsByName vms vm.name = some vm' := by
  have hfold : ∀ (vms : List VM) (m : String → Option VM),
      vm ∈ vms ∨ (m vm.name).isSome = true →
      ((vms.foldl addByName m) vm.name).isSome = true := by
    intro vms
    induction vms with
    | nil => exact fun m h => h.resolve_left List.not_mem_nil
    | cons v vms ih =>
      intro m h
      refine ih _ ?_
      by_cases hv : vm.name = v.name
      · exact Or.inr (by simp [addByName, hv])
      · refine h.imp (fun hmem => (List.mem_cons.mp hmem).resolve_left ?_) fun hm => ?_
        · rintro rfl
          exact hv rfl
        · simpa [addByName, hv] using hm
  exact Option.isSome_iff_exists.mp (hfold vms _ (Or.inl h))

/-- The names that are listed are those of the VMs that are routed. -/
theorem lists_iff (h : s.Directory) (ha : s.ListsRoutes aliases) :
    Lists s.listVMs aliases name ↔
      ∃ vm port, s.Resolves name vm port ∧ vm.routed = true := by
  constructor
  · rintro (⟨vm, hvm, hrouted, hname⟩ | ⟨a, hmem, rfl, vm, hvm, hrouted⟩)
    · exact ⟨vm, _, ⟨(Store.mem_listVMs_iff_row h).mp hvm, Or.inl ⟨hname, rfl⟩⟩, hrouted⟩
    · obtain ⟨hroute, r, hr, hname⟩ := (ha a).mp hmem
      obtain ⟨hmem', hname'⟩ := vmsByName_eq_some hvm
      have hrow := (Store.mem_listVMs_iff_row h).mp hmem'
      have huuid := h.unique _ _ _ _ hr hrow (hname.symm.trans hname'.symm)
      exact ⟨vm, _, ⟨hrow, Or.inr ⟨a.route, hroute, huuid, rfl⟩⟩, hrouted⟩
  · rintro ⟨vm, port, ⟨hrow, ⟨hname, -⟩ | ⟨route, hroute, huuid, -⟩⟩, hrouted⟩
    · exact Or.inl ⟨vm, (Store.mem_listVMs_iff_row h).mpr hrow, hrouted, hname⟩
    · have hmem := (Store.mem_listVMs_iff_row h).mpr hrow
      obtain ⟨vm', hvm'⟩ := exists_vmsByName hmem
      obtain ⟨hmem', hname'⟩ := vmsByName_eq_some hvm'
      have hrow' := (Store.mem_listVMs_iff_row h).mp hmem'
      have huuid' := h.unique _ _ _ _ hrow' hrow hname'
      -- The VM is found under its name, since names are unique.
      have heq : vm'.toVMRow = vm.toVMRow := by
        rw [huuid', hrow] at hrow'
        exact (Option.some.inj hrow').symm
      refine Or.inr ⟨⟨name, vm.name, route⟩, (ha _).mpr ⟨hroute, vm.toVMRow, ?_, rfl⟩, rfl, vm',
        hvm', ?_⟩
      · rw [huuid]
        exact hrow
      · rw [heq]
        exact hrouted

/-- A name that stands for something is valid. -/
theorem Store.Kept.validRouteName (h : s.Kept) (hr : s.Resolves name vm port) :
    validRouteName name = true := by
  rcases hr with ⟨hrow, ⟨rfl, -⟩ | ⟨route, hroute, -, -⟩⟩
  · exact validRouteName_of_validVMName (h.names.vms _ _ hrow)
  · exact h.names.routes name (by rw [hroute]; rfl)

theorem Store.Kept.routed (h : s.Kept) (hr : s.Resolves name vm port) :
    vm.routed = vm.publicHTTP := by
  rw [VMRow.routed, h.addresses _ _ hr.1, Bool.true_and]

end Names

/-! ## Which hosts are equal -/

section Hosts

variable {c : ProxyConfig} {name name' : String}

theorem length_of_equalFold {s t : String} (h : equalFold s t = true) :
    s.toList.length = t.toList.length := by
  simpa using congrArg List.length (of_decide_eq_true h)

theorem equalFold_refl (s : String) : equalFold s s = true := decide_eq_true rfl

/-- Lowering leaves a valid name alone. -/
theorem map_toLower_of_validRouteName (h : validRouteName name = true) :
    name.toList.map Char.toLower = name.toList := by
  refine (List.map_congr_left fun c hc => ?_).trans (List.map_id _)
  apply Char.toNat_inj.mp
  rw [toNat_toLower]
  rcases toNat_of_validRouteName h hc with rfl | hnat
  · rfl
  · rw [if_neg (by omega)]
    rfl

theorem ne_empty_of_validRouteName (h : validRouteName name = true) : name ≠ "" := by
  rintro rfl
  revert h
  decide

/-- Names below the same domain are told apart. -/
theorem eq_of_equalFold_caddyHost (hn : validRouteName name = true)
    (hn' : validRouteName name' = true)
    (h : equalFold (c.caddyHost name) (c.caddyHost name') = true) : name = name' := by
  have hmap := of_decide_eq_true h
  simp only [ProxyConfig.caddyHost, String.toList_append, List.map_append, List.append_assoc,
    map_toLower_of_validRouteName hn, map_toLower_of_validRouteName hn'] at hmap
  have hlen : name.toList.length = name'.toList.length := by
    simpa using congrArg List.length hmap
  exact String.toList_inj.mp (List.append_inj_left hmap hlen)

/-- The base domain is no host below it. -/
theorem equalFold_baseDomain :
    equalFold c.baseDomain (c.caddyHost name) = false := by
  refine Bool.eq_false_iff.mpr fun h => ?_
  have hlen := length_of_equalFold h
  simp only [ProxyConfig.caddyHost, String.toList_append, List.length_append] at hlen
  exact absurd hlen (by simp)

theorem reported_of_not_dot (hdot : hasSuffix c.baseDomain "." = false) :
    (c.reported name).1 = c.caddyHost name := by
  simp only [ProxyConfig.reported, defaultHostname, trimSuffix_of_not hdot]
  rfl

end Hosts

/-! ## What a host matches -/

section Matching

variable {c : ProxyConfig} {vms : List VM} {aliases : List Alias} {protectedHosts : List String}
  {name host : String} {r : CaddyRoute}

theorem CaddyServer.route_isSome_iff {server : CaddyServer} :
    (server.route host).isSome = true ↔ ∃ r ∈ server.routes, r.matchesHost host = true :=
  List.find?_isSome

/-- A host that some route matches is routed by a route that matches it. -/
theorem CaddyServer.exists_route {server : CaddyServer} (host : String) (hr : r ∈ server.routes)
    (h : r.matchesHost host = true) :
    ∃ r', server.route host = some r' ∧ r' ∈ server.routes ∧ r'.matchesHost host = true := by
  obtain ⟨r', hr'⟩ := Option.isSome_iff_exists.mp (route_isSome_iff.mpr ⟨r, hr, h⟩)
  exact ⟨r', hr', List.mem_of_find?_eq_some hr',
    List.find?_some (p := fun r : CaddyRoute => r.matchesHost host) hr'⟩

theorem sites_routes : (c.caddyConfig vms aliases protectedHosts).1.sites.routes =
    (c.build vms aliases protectedHosts).routes ++ [routeNotFoundRoute] := by
  unfold ProxyConfig.caddyConfig
  simp only
  split_ifs <;> rfl

variable (c vms aliases protectedHosts) in
/-- The plain server has the routes of the sites, or one redirect for each
public host. -/
theorem http_routes : (c.caddyConfig vms aliases protectedHosts).1.http =
      (c.caddyConfig vms aliases protectedHosts).1.sites ∧ c.tlsMode = .behindProxy ∨
    (c.caddyConfig vms aliases protectedHosts).1.http.routes =
      (c.build vms aliases protectedHosts).publicHosts.map redirectToHTTPSRoute ++
        [routeNotFoundRoute] := by
  unfold ProxyConfig.caddyConfig
  simp only
  split_ifs with h
  · exact Or.inl ⟨rfl, h⟩
  · exact Or.inr rfl

/-- The host is the base domain, that of a listed name, or a protected one. -/
def Claims (c : ProxyConfig) (vms : List VM) (aliases : List Alias) (protectedHosts : List String)
    (host : String) : Prop :=
  equalFold c.baseDomain host = true ∨
    (∃ name, Lists vms aliases name ∧ equalFold (c.caddyHost name) host = true) ∨
    ∃ p ∈ protectedHosts, equalFold p host = true

/-- A route of the sites that matches a host. -/
theorem site_of_matches
    (hr : r ∈ (c.caddyConfig vms aliases protectedHosts).1.sites.routes)
    (h : r.matchesHost host = true) :
    r = baseDomainRoute c.baseDomain ∧ equalFold c.baseDomain host = true ∨
      r.handler = .reverseProxy c.wakeProxyUpstream ∧
        ((∃ name, Lists vms aliases name ∧ equalFold (c.caddyHost name) host = true) ∨
          ∃ p ∈ protectedHosts, equalFold p host = true) := by
  rw [sites_routes, List.mem_append, List.mem_singleton] at hr
  rcases hr with hr | rfl
  · rcases (ProxyConfig.routes_addProtected (c.listed vms aliases)).2 r hr with hr | ⟨p, hp, rfl⟩
    · rcases ProxyConfig.mem_routes_listed.mp hr with rfl | rfl | ⟨name, hname, rfl⟩
      · cases h
      · exact Or.inl ⟨rfl, by simpa [CaddyRoute.matchesHost, baseDomainRoute] using h⟩
      · exact Or.inr ⟨rfl, Or.inl ⟨name, hname,
          by simpa [CaddyRoute.matchesHost, reverseProxyRoute] using h⟩⟩
    · exact Or.inr ⟨rfl, Or.inr ⟨p, hp,
        by simpa [CaddyRoute.matchesHost, reverseProxyRoute] using h⟩⟩
  · cases h

/-- Both servers only route hosts that are claimed. -/
theorem claims_of_route {server : CaddyServer}
    (hserver : server = (c.caddyConfig vms aliases protectedHosts).1.http ∨
      server = (c.caddyConfig vms aliases protectedHosts).1.sites)
    (h : (server.route host).isSome = true) : Claims c vms aliases protectedHosts host := by
  obtain ⟨r, hr, hmatch⟩ := CaddyServer.route_isSome_iff.mp h
  have hsites : r ∈ (c.caddyConfig vms aliases protectedHosts).1.sites.routes →
      Claims c vms aliases protectedHosts host := fun hr =>
    (site_of_matches hr hmatch).imp (·.2) (·.2)
  rcases hserver with rfl | rfl
  · rcases http_routes c vms aliases protectedHosts with ⟨heq, -⟩ | heq
    · exact hsites (heq ▸ hr)
    · rw [heq, List.mem_append, List.mem_singleton, List.mem_map] at hr
      rcases hr with ⟨p, hp, rfl⟩ | rfl
      · have hfold : equalFold p host = true := by
          simpa [CaddyRoute.matchesHost, redirectToHTTPSRoute] using hmatch
        rcases (ProxyConfig.mem_hosts_addProtected _).mp hp with hp | hp
        · rcases ProxyConfig.mem_hosts_listed.mp hp with rfl | ⟨name, hname, rfl⟩
          · exact Or.inl hfold
          · exact Or.inr (Or.inl ⟨name, hname, hfold⟩)
        · exact Or.inr (Or.inr ⟨p, hp, hfold⟩)
      · cases hmatch
  · exact hsites hr

/-- The host of a listed name is proxied. -/
theorem proxied_of_lists (h : Lists vms aliases name) :
    Proxied c (c.caddyConfig vms aliases protectedHosts).1 (c.caddyHost name) := by
  refine ⟨?_, fun hauto => ?_⟩
  · have hmem : reverseProxyRoute (c.caddyHost name) c.wakeProxyUpstream ∈
        (c.caddyConfig vms aliases protectedHosts).1.sites.routes := by
      rw [sites_routes]
      refine List.mem_append_left _ ((ProxyConfig.routes_addProtected (c.listed vms aliases)).1 ?_)
      exact ProxyConfig.mem_routes_listed.mpr (Or.inr (Or.inr ⟨name, h, rfl⟩))
    obtain ⟨r, hr, hr', hmatch⟩ := CaddyServer.exists_route (c.caddyHost name) hmem
      (by simp [CaddyRoute.matchesHost, reverseProxyRoute, equalFold_refl])
    rw [hr]
    rcases site_of_matches hr' hmatch with ⟨-, hbase⟩ | ⟨hproxy, -⟩
    · rw [equalFold_baseDomain] at hbase
      cases hbase
    · exact congrArg some hproxy
  · rcases http_routes c vms aliases protectedHosts with ⟨-, hmode⟩ | hroutes
    · cases hauto.symm.trans hmode
    · have hmem : redirectToHTTPSRoute (c.caddyHost name) ∈
          (c.caddyConfig vms aliases protectedHosts).1.http.routes := by
        rw [hroutes]
        refine List.mem_append_left _ (List.mem_map_of_mem ?_)
        exact (ProxyConfig.mem_hosts_addProtected _).mpr
          (Or.inl (ProxyConfig.mem_hosts_listed.mpr (Or.inr ⟨name, h, rfl⟩)))
      obtain ⟨r, hr, hr', hmatch⟩ := CaddyServer.exists_route (c.caddyHost name) hmem
        (by simp [CaddyRoute.matchesHost, redirectToHTTPSRoute, equalFold_refl])
      rw [hroutes, List.mem_append, List.mem_singleton, List.mem_map] at hr'
      refine ⟨r, hr, ?_⟩
      rcases hr' with ⟨p, -, rfl⟩ | rfl
      · rfl
      · cases hmatch

end Matching

/-! ## Taking a hostname apart -/

section Apart

variable {U : Unicode} {base name : String}

theorem toLower_hostname (hn : validRouteName name = true) :
    toLower U (name ++ "." ++ base) = name ++ "." ++ toLower U base := by
  rw [toLower_append, toLower_append, toLower_dot, toLower_of_lowered]
  intro c hc
  have hnat := nameChar_of_validRouteName hn hc
  have hsmall := List.map_eq_map_iff.mp
    ((map_toLower_of_validRouteName hn).trans (List.map_id _).symm) c hc
  refine (U.toLower_ascii c ?_).trans hsmall
  rcases hnat with hname | rfl
  · unfold NameChar at hname
    omega
  · decide

/-- Only the base domain decides whether a hostname has a port. -/
theorem looksLikePort_hostname (hU : U.Punctual) (hn : validRouteName name = true) :
    looksLikePort (name ++ "." ++ toLower U base) = looksLikePort base := by
  have hnot : ∀ p ∈ [':', '[', ']'], p ∉ name.toList ++ ['.'] := by
    intro p hp hmem
    rw [List.mem_append, List.mem_singleton] at hmem
    rcases hmem with hmem | rfl
    · rcases nameChar_of_validRouteName hn hmem with hname | rfl
      · unfold NameChar at hname
        simp only [List.mem_cons, List.not_mem_nil, or_false] at hp
        rcases hp with rfl | rfl | rfl <;> revert hname <;> decide
      · revert hp
        decide
    · revert hp
      decide
  have hlist : (name ++ "." ++ toLower U base).toList =
      (name.toList ++ ['.']) ++ base.toList.map U.toLower := by
    simp
  have hmem : ∀ p ∈ [':', '[', ']'],
      (p ∈ (name ++ "." ++ toLower U base).toList ↔ p ∈ base.toList) := by
    intro p hp
    rw [hlist, List.mem_append, hU.mem_map_iff (List.mem_cons_of_mem _ hp)]
    exact or_iff_right (hnot p hp)
  have hcount : (name ++ "." ++ toLower U base).toList.count ':' = base.toList.count ':' := by
    rw [hlist, List.count_append, hU.count_map (by decide),
      List.count_eq_zero_of_not_mem (hnot ':' (by decide)), Nat.zero_add]
  simp only [looksLikePort, hcount, hmem '[' (by decide), hmem ']' (by decide)]

theorem hasSuffix_dot_toLower (hU : U.Punctual) (hbase : base ≠ "")
    (hdot : hasSuffix base "." = false) (front : String) :
    hasSuffix (front ++ toLower U base) "." = false := by
  refine Bool.eq_false_iff.mpr fun h => ?_
  have hlast := hasSuffix_dot_iff.mp h
  obtain ⟨c, hc⟩ := Option.ne_none_iff_exists'.mp
    (List.getLast?_eq_none_iff.not.mpr (by simpa using hbase : base.toList ≠ []))
  rw [String.toList_append, List.getLast?_append, toList_toLower, List.getLast?_map, hc] at hlast
  have hdot' : U.toLower c = '.' := Option.some.inj hlast
  rw [hU c '.' (by decide) hdot'] at hc
  rw [hasSuffix_dot_iff.mpr hc] at hdot
  cases hdot

theorem head?_hostname (hn : validRouteName name = true) {rest : String} :
    (name ++ "." ++ rest).toList.head? ≠ some '[' := by
  intro hhead
  obtain ⟨d, ds, hds⟩ := List.exists_cons_of_ne_nil
    (l := name.toList) (by simpa using ne_empty_of_validRouteName hn)
  obtain rfl : d = '[' := by simpa [hds] using hhead
  rcases nameChar_of_validRouteName hn (c := '[') (by simp [hds]) with hname | hname
  · revert hname
    unfold NameChar
    decide
  · cases hname

variable (hU : U.Punctual) (hbase : base ≠ "") (hdot : hasSuffix base "." = false)
  (hn : validRouteName name = true)

include hU hbase hdot hn

/-- A hostname below a base domain without a port is taken apart into the
name. -/
theorem routeName_hostname (hport : looksLikePort base = false) :
    routeName U base (name ++ "." ++ base) = some name := by
  have hsplit : splitHostPort (name ++ "." ++ toLower U base) = none := by
    refine Option.not_isSome_iff_eq_none.mp fun h => ?_
    rw [splitHostPort_isSome_iff (head?_hostname hn), looksLikePort_hostname hU hn, hport] at h
    cases h
  have hhost : routeHost U (name ++ "." ++ base) = name ++ ("." ++ toLower U base) := by
    unfold routeHost
    simp only [toLower_hostname hn, hsplit]
    rw [trimSuffix_of_not (hasSuffix_dot_toLower hU hbase hdot _), String.append_assoc]
  have hbase' : routeBase U base = toLower U base := by
    refine trimSuffix_of_not ?_
    simpa using hasSuffix_dot_toLower hU hbase hdot ""
  unfold routeName
  simp only [hhost, hbase', hasSuffix_append, trimSuffix_append, Bool.true_eq_false, if_false,
    ne_empty_of_validRouteName hn]

/-- A hostname below a base domain with a port is not found. -/
theorem routeName_of_port (hport : looksLikePort base = true) :
    routeName U base (name ++ "." ++ base) = none := by
  have hsome : (splitHostPort (name ++ "." ++ toLower U base)).isSome = true := by
    rw [splitHostPort_isSome_iff (head?_hostname hn), looksLikePort_hostname hU hn, hport]
  obtain ⟨⟨h, port⟩, hsplit⟩ := Option.isSome_iff_exists.mp hsome
  have hnot : ':' ∉ (routeHost U (name ++ "." ++ base)).toList := by
    unfold routeHost
    simp only [toLower_hostname hn, hsplit]
    exact fun hmem => colon_not_mem_of_splitHostPort (head?_hostname hn) hsplit
      (mem_trimSuffix hmem)
  have hcolon : ':' ∈ (routeBase U base).toList := by
    have hbase' : routeBase U base = toLower U base := by
      refine trimSuffix_of_not ?_
      simpa using hasSuffix_dot_toLower hU hbase hdot ""
    rw [hbase', toList_toLower, hU.mem_map_iff (by decide), ← List.count_pos_iff,
      (of_decide_eq_true hport).1]
    exact Nat.one_pos
  refine Option.eq_none_iff_forall_ne_some.mpr fun n hname => hnot ?_
  rw [(routeHost_of_routeName hname).2]
  simp [hcolon]

end Apart

/-! ## The three places -/

theorem ProxyConfig.baseDomain_ne {c : ProxyConfig} (h : c.validate = .ok ()) :
    c.baseDomain ≠ "" := by
  intro hempty
  unfold ProxyConfig.validate at h
  rw [if_pos hempty] at h
  cases h

/-- A VM named `a` that is public. -/
def Store.onePublic : Store :=
  (World.sample [{ VMRow.sample "a" 3 with publicHTTP := true }] []).store

theorem kept_onePublic : Store.onePublic.Kept := by
  refine ⟨directory_sample (by decide), validNames_sample (by decide), fun u r hr => ?_⟩
  have hmem := List.mem_of_getElem? hr
  obtain rfl := List.mem_singleton.mp hmem
  rfl

theorem listsRoutes_onePublic : Store.onePublic.ListsRoutes [] := by
  intro a
  refine ⟨fun h => (List.not_mem_nil h).elim, ?_⟩
  rintro ⟨h, -⟩
  cases h

theorem resolves_onePublic : ∃ vm port, Store.onePublic.Resolves "a" vm port ∧
    vm.publicHTTP = true :=
  ⟨⟨{ VMRow.sample "a" 3 with publicHTTP := true }, 0⟩, 80, ⟨rfl, Or.inl ⟨rfl, rfl⟩⟩, rfl⟩

/-- A trailing dot is in the Caddy configuration, and not in the URL. -/
theorem not_proxied_of_dot {c : ProxyConfig} (hdot : hasSuffix c.baseDomain "." = true) :
    ¬ Proxied c (c.caddyConfig Store.onePublic.listVMs [] []).1 (c.reported "a").1 := by
  intro h
  have hsome : ((c.caddyConfig Store.onePublic.listVMs [] []).1.sites.route
      (c.reported "a").1).isSome = true := by
    cases hroute : (c.caddyConfig Store.onePublic.listVMs [] []).1.sites.route
        (c.reported "a").1 with
    | none => simpa [hroute] using h.sites
    | some r => rfl
  have hone : ".".toList.length = 1 := by decide
  have hone' : "a".toList.length = 1 := by decide
  have hbase := congrArg (fun s : String => s.toList.length) (trimSuffix_append_of_hasSuffix hdot)
  simp only [String.toList_append, List.length_append, hone] at hbase
  -- No host of the configuration has the length of the one that is reported.
  have hlen : ((c.reported "a").1).toList.length =
      1 + 1 + (trimSuffix c.baseDomain ".").toList.length := by
    simp only [ProxyConfig.reported, defaultHostname, String.toList_append, List.length_append,
      hone, hone']
  rcases claims_of_route (Or.inr rfl) hsome with h | ⟨name, hname, h⟩ | ⟨p, hp, -⟩
  · have := length_of_equalFold h
    omega
  · obtain ⟨vm, port, hr, -⟩ := (lists_iff kept_onePublic.directory listsRoutes_onePublic).mp hname
    have hne := ne_empty_of_validRouteName (kept_onePublic.validRouteName hr)
    have hpos : 0 < name.toList.length :=
      List.length_pos_iff.mpr (by simpa using hne)
    have := length_of_equalFold h
    simp only [ProxyConfig.caddyHost, String.toList_append, List.length_append, hone] at this
    omega
  · cases hp

/-- For a configuration that `Config.Validate` accepts, the API, the Caddy
configuration and `routeForHost` agree on the hostnames of every store if and
only if `base_domain` neither ends in a dot nor has a single colon and no
brackets. -/
theorem hostnames_agree_iff {U : Unicode} (hU : U.Punctual) (c : ProxyConfig)
    (hc : c.validate = .ok ()) :
    (∀ s aliases protectedHosts, s.Kept → s.ListsRoutes aliases →
      HostnamesAgree U c s aliases protectedHosts) ↔
    hasSuffix c.baseDomain "." = false ∧ looksLikePort c.baseDomain = false := by
  have hbase := ProxyConfig.baseDomain_ne hc
  constructor
  · intro h
    have hagree := h Store.onePublic [] [] kept_onePublic listsRoutes_onePublic
    obtain ⟨vm, port, hr, hpublic⟩ := resolves_onePublic
    have hdot : hasSuffix c.baseDomain "." = false := Bool.eq_false_iff.mpr fun hdot =>
      not_proxied_of_dot hdot (hagree.proxied "a" vm port hr hpublic)
    refine ⟨hdot, Bool.eq_false_iff.mpr fun hport => ?_⟩
    have hfound := hagree.found "a" vm port hr hpublic
    rw [reported_of_not_dot hdot, routeForHost, ProxyConfig.caddyHost,
      routeName_of_port hU hbase hdot (kept_onePublic.validRouteName hr) hport] at hfound
    cases hfound
  · rintro ⟨hdot, hport⟩ s aliases protectedHosts hs ha
    refine ⟨fun name vm port hr hpublic => ?_, fun name vm port hr hpublic => ?_,
      fun name vm port hr hpublic server hserver hroute => ?_⟩
    · rw [reported_of_not_dot hdot]
      exact proxied_of_lists
        ((lists_iff hs.directory ha).mpr ⟨vm, port, hr, (hs.routed hr).trans hpublic⟩)
    · rw [reported_of_not_dot hdot, routeForHost, ProxyConfig.caddyHost,
        routeName_hostname hU hbase hdot (hs.validRouteName hr) hport]
      exact (Store.lookup_eq_some_iff hs.directory).mpr hr
    · rw [reported_of_not_dot hdot] at hroute ⊢
      rcases claims_of_route hserver hroute with h | ⟨name', hname', h⟩ | h
      · rw [equalFold_baseDomain] at h
        cases h
      · -- A name that is routed under the same host is the same name.
        obtain ⟨vm', port', hr', hrouted⟩ := (lists_iff hs.directory ha).mp hname'
        obtain rfl := eq_of_equalFold_caddyHost (hs.validRouteName hr') (hs.validRouteName hr) h
        obtain ⟨rfl, -⟩ := hs.directory.resolves_unique hr hr'
        rw [hs.routed hr, hpublic] at hrouted
        cases hrouted
      · exact h

/-- The configuration of the examples. -/
def ProxyConfig.sample (baseDomain : String) : ProxyConfig where
  baseDomain := baseDomain
  httpPort := 80
  httpsPort := 443
  internalProxyPort := 8081
  tlsMode := .auto

/-- With the base domain `example.com` the VM is proxied, redirected and
found. -/
theorem hostnames_agree_iff_plain :
    HostnamesAgree .ascii (.sample "example.com") .onePublic [] [] ∧
      ((ProxyConfig.sample "example.com").reported "a").2 = "https://a.example.com" :=
  ⟨(hostnames_agree_iff Unicode.punctual_ascii (.sample "example.com") (by decide)).mpr
    ⟨by decide, by decide⟩ .onePublic [] [] kept_onePublic listsRoutes_onePublic,
    by decide⟩

/-- With the base domain `example.com.`, which `Config.Validate` accepts, the
URL of the VM has the hostname `a.example.com`, but no route of Caddy matches
this host: the one of the VM is for `a.example.com.`. -/
theorem trailing_dot_unrouted :
    (ProxyConfig.sample "example.com.").validate = .ok () ∧
    Store.onePublic.Kept ∧ Store.onePublic.ListsRoutes [] ∧
    ((ProxyConfig.sample "example.com.").reported "a") =
      ("a.example.com", "https://a.example.com") ∧
    ((ProxyConfig.sample "example.com.").caddyConfig
      Store.onePublic.listVMs [] []).1.sites.route "a.example.com" = none ∧
    (((ProxyConfig.sample "example.com.").caddyConfig
      Store.onePublic.listVMs [] []).1.sites.route "a.example.com.").isSome = true ∧
    routeForHost .ascii Store.onePublic "example.com." "a.example.com" =
      some (⟨{ VMRow.sample "a" 3 with publicHTTP := true }, 0⟩, 80) :=
  ⟨by decide, kept_onePublic, listsRoutes_onePublic, by decide +kernel,
    by decide +kernel, by decide, by decide⟩

end Firedoze
