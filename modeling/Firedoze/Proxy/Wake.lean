import Firedoze.Conc.Monitor
import Firedoze.Proxy.Hosts
import Firedoze.Proxy.Token

/-!
# The wake proxy and the requests about protected hostnames

`WakeProxy.ServeHTTP` looks a request up, checks whether its hostname is
protected, and wakes the VM if it sleeps.  Two grants share one cookie: a
signed URL that is redeemed at `/_firedoze/auth`, and a captcha that is
passed before a sleeping VM is woken.

The world `Web` holds what these requests share: the tables of the store, the
protected hostnames, the key of the route authentication and the clock.
`issued` records the calls of `Token`, the last one first, with the place in
the source that made the call.  A call of the store, a call of `Token` or
`Validate` and a call of `StartVM` is one step each, so a request is
interleaved with the others between any two of them.  The programs whose
branches depend on the text of a hostname are irreducible, so that no proof
evaluates them on it.

The environment changes VMs and routes as it likes, and the clock does not go
back.
-/

namespace Firedoze

open Text Conc Conc.Prog

/-! ## Requests -/

/-- What a daemon is given: the tables for lowering, the keyed hash and the
base domain. -/
structure Site where
  unicode : Unicode
  mac : Key → Bytes → Bytes
  baseDomain : String

/-- The methods that the proxy tells apart. -/
inductive Method
  | get
  | post
  | other
  deriving DecidableEq, Repr

/-- The form of a captcha. -/
structure CaptchaForm where
  id : String
  answer : String
  next : String
  deriving DecidableEq, Repr

/-- A request to the wake proxy.  `cookie` is the value of the cookie named
`CookieName`, `token` and `nextQuery` are parameters of the query, and `form`
is `none` when `ParseForm` fails. -/
structure Request where
  method : Method
  host : String
  path : String
  uri : String
  cookie : Option Bytes
  token : Bytes
  nextQuery : String
  form : Option CaptchaForm
  deriving DecidableEq, Repr

/-- What is answered.  `error` is `http.Error` and `apiError` is
`writeError`. -/
inductive Response
  | error (status : Nat) (text : String)
  | apiError (status : Nat) (err : Err)
  | status (hostname status : String)
  | signed (hostname : String) (token : Bytes) (ttl : Int64)
  | redirect (location : String) (cookie : Bytes) (expires : Time)
  | challenge (id next : String)
  | image
  | proxied
  | token (answer : Except Err Bytes)
  | validated (expires : Option Time)
  deriving DecidableEq

/-! ## The world -/

/-- Where `Token` was called: by `SignedURL`, after a captcha, after a token
was redeemed, or by another caller. -/
inductive Grant
  | signedURL
  | captcha
  | redeemed
  | direct
  deriving DecidableEq, Repr

/-- A call of `Token` that made a token. -/
structure Issue where
  grant : Grant
  host : Bytes
  expires : Time
  deriving DecidableEq

/-- The world of the requests.  `protections` is the table
`route_protections`, and `source` is where a key can come from. -/
structure Web where
  store : Store
  protections : List String
  auth : AuthManager
  source : KeySource
  now : Time
  issued : List Issue

/-- The actions of requests. -/
inductive WebEff : Type → Type
  | getVMByName (name : String) : WebEff (Except Err VM)
  | getRoute (name : String) : WebEff (Except Err Route)
  | getVM (u : Uuid) : WebEff (Except Err VM)
  | isRouteHostnameProtected (hostname : String) : WebEff (Except Err Bool)
  | protectRouteHostname (hostname : String) : WebEff (Except Err Unit)
  | unprotectRouteHostname (hostname : String) : WebEff (Except Err Unit)
  | touchVMActivity (u : Uuid) : WebEff (Except Err Unit)
  | startVM (u : Uuid) : WebEff (Except Err VM)
  | reconcile : WebEff (Except Err Unit)
  | now : WebEff Time
  | token (grant : Grant) (host : Bytes) (expires : Time) : WebEff (Except Err Bytes)
  | validate (token host : Bytes) : WebEff (Option Time)
  | newCaptcha : WebEff String
  | writeImage (id : String) : WebEff Bool
  | verifyString (id answer : String) : WebEff Bool
  | proxy (u : Uuid) (ip : Nat) (port : Int) : WebEff Unit

/-- How an action goes.  `answers` are those that the world does not fix. -/
inductive WebOutcome
  | ok
  | fail
  | started (answer : Except Err VM)
  | text (s : String)
  | flag (b : Bool)

/-- What the environment does: VMs and routes change, and time passes. -/
inductive WebEvent
  | change (store : Store)
  | tick (now : Time)

/-- `IsRouteHostnameProtected`, when the call does not fail. -/
def Web.isProtected (site : Site) (w : Web) (hostname : String) : Bool :=
  w.protections.contains (normalizeHostname site.unicode hostname)

/-- `ProtectRouteHostname`. -/
def Web.protect (site : Site) (w : Web) (hostname : String) : Web :=
  { w with
    protections :=
      if w.isProtected site hostname then w.protections
      else normalizeHostname site.unicode hostname :: w.protections }

/-- `UnprotectRouteHostname`. -/
def Web.unprotect (site : Site) (w : Web) (hostname : String) : Web :=
  { w with protections := w.protections.filter (· ≠ normalizeHostname site.unicode hostname) }

/-- `Token`, which is recorded. -/
def Web.token (site : Site) (w : Web) (grant : Grant) (host : Bytes) (expires : Time) :
    Except Err Bytes × Web :=
  match w.auth.token site.mac w.source host expires with
  | (.error e, auth) => (.error e, { w with auth := auth })
  | (.ok token, auth) =>
      (.ok token, { w with auth := auth, issued := ⟨grant, host, expires⟩ :: w.issued })

/-- `Validate`. -/
def Web.validate (site : Site) (w : Web) (token host : Bytes) : Option Time × Web :=
  let (answer, auth) := w.auth.validate site.mac w.source w.now token host
  (answer, { w with auth := auth })

/-- A call of the store that may fail. -/
def storeAnswer {α : Type} (w : Web) (answer : Except Err α) (w' : Web) :
    WebOutcome → Option (Except Err α × Web)
  | .ok => some (answer, w')
  | .fail => some (.error .io, w)
  | _ => none

/-- What an action does. -/
def execWeb (site : Site) (w : Web) : {β : Type} → WebEff β → WebOutcome → Option (β × Web)
  | _, .getVMByName name, o => storeAnswer w (w.store.getVMByName name) w o
  | _, .getRoute name, o => storeAnswer w (w.store.getRoute name) w o
  | _, .getVM u, o => storeAnswer w (w.store.getVM u) w o
  | _, .isRouteHostnameProtected hostname, o =>
      storeAnswer w (.ok (w.isProtected site hostname)) w o
  | _, .protectRouteHostname hostname, o => storeAnswer w (.ok ()) (w.protect site hostname) o
  | _, .unprotectRouteHostname hostname, o => storeAnswer w (.ok ()) (w.unprotect site hostname) o
  | _, .touchVMActivity _, o => storeAnswer w (.ok ()) w o
  | _, .startVM _, .started answer => some (answer, w)
  | _, .startVM _, _ => none
  | _, .reconcile, o => storeAnswer w (.ok ()) w o
  | _, .now, _ => some (w.now, w)
  | _, .token grant host expires, _ => some (w.token site grant host expires)
  | _, .validate token host, _ => some (w.validate site token host)
  | _, .newCaptcha, .text id => some (id, w)
  | _, .newCaptcha, _ => none
  | _, .writeImage _, .flag b => some (b, w)
  | _, .writeImage _, _ => none
  | _, .verifyString _ _, .flag b => some (b, w)
  | _, .verifyString _ _, _ => none
  | _, .proxy _ _ _, _ => some ((), w)

/-- The interleavings of requests. -/
def web (site : Site) : System Nat Web WebOutcome WebEvent WebEff where
  exec := fun _ w e o => execWeb site w e o
  env := fun w v =>
    match v with
    | .change store => some { w with store := store }
    | .tick now => if w.now.after now then none else some { w with now := now }

/-! ## The wake proxy -/

/-- `wakeGateCookieTTL`, in nanoseconds. -/
def wakeGateCookieTTL : Int := 30 * 24 * 60 * 60 * 1000000000

/-- The local path that a redirect leads to. -/
def localNext (next : String) : String :=
  if next = "" ∨ hasPrefix next "/" = false ∨ hasPrefix next "//" = true then "/" else next

/-- `wakeGate.approved`. -/
def approved (r : Request) (host : String) : Prog WebEff Bool :=
  match r.cookie with
  | none => ret false
  | some token => do
      let expires ← perform (.validate token (bytes host))
      ret expires.isSome

/-- `wakeGate.serveCaptcha`. -/
def serveCaptcha (r : Request) : Prog WebEff Response := do
  let name := trimPrefix r.path "/_firedoze/wake-captcha/"
  let written ← perform (.writeImage (trimSuffix name ".png"))
  ret (if written then .image else .error 404 "captcha not found")

/-- `wakeGate.verify`. -/
def verify (r : Request) (host : String) : Prog WebEff Response :=
  match r.form with
  | none => ret (.error 400 "invalid captcha form")
  | some form => do
      let passed ← perform (.verifyString form.id form.answer)
      if passed = false then ret (.error 403 "captcha failed")
      else
        let now ← perform .now
        let expires := now.add wakeGateCookieTTL
        match ← perform (.token .captcha (bytes host) expires) with
        | .error _ => ret (.error 503 "wake gate unavailable")
        | .ok token => ret (.redirect (localNext form.next) token expires)

/-- `wakeGate.challenge`. -/
def challenge (r : Request) : Prog WebEff Response := do
  let id ← perform .newCaptcha
  ret (.challenge id r.uri)

/-- `wakeGate.handle`. -/
def gateHandle (r : Request) (host : String) : Prog WebEff Response :=
  if r.method = .get ∧ hasPrefix r.path "/_firedoze/wake-captcha/" = true then serveCaptcha r
  else if r.method = .post ∧ r.path = "/_firedoze/wake" then verify r host
  else if r.method = .get then challenge r
  else ret (.error 403 "firedoze wake captcha required")

/-- `WakeProxy.handleSignedAuthURL`. -/
def handleSignedAuthURL (r : Request) (host : String) : Prog WebEff Response := do
  match ← perform (.validate r.token (bytes host)) with
  | none => ret (.error 403 "firedoze auth token invalid or expired")
  | some expires =>
      match ← perform (.token .redeemed (bytes host) expires) with
      | .error _ => ret (.error 503 "firedoze route auth unavailable")
      | .ok token => ret (.redirect (localNext r.nextQuery) token expires)

/-- `WakeProxy.routeForHost`. -/
@[irreducible]
def routeFor (site : Site) (hostport : String) : Prog WebEff (Option (VM × Int)) :=
  match routeName site.unicode site.baseDomain hostport with
  | none => ret none
  | some name => do
      match ← perform (.getVMByName name) with
      | .ok vm => ret (some (vm, vm.defaultHTTPPort))
      | .error _ =>
          match ← perform (.getRoute name) with
          | .error _ => ret none
          | .ok route =>
              match ← perform (.getVM route.vmUUID) with
              | .error _ => ret none
              | .ok vm => ret (some (vm, route.port))

/-- The end of `ServeHTTP`, where the request goes to the VM. -/
def proxyTo (vm : VM) (port : Int) : Prog WebEff Response :=
  if vm.state ≠ .running then ret (.error 503 "firedoze vm is not running")
  else
    match vm.privateIP with
    | none => ret (.error 503 "firedoze vm has no private ip")
    | some ip => do
        let _ ← perform (.touchVMActivity vm.uuid)
        perform (.proxy vm.uuid ip port)
        ret .proxied

/-- The part of `ServeHTTP` that wakes a sleeping VM. -/
def wake (r : Request) (host : String) (vm : VM) (port : Int) : Prog WebEff Response :=
  if vm.autoWake = false then ret (.error 503 "firedoze vm auto wake is disabled")
  else do
    let ok ← approved r host
    if ok = false then gateHandle r host
    else
      match ← perform (.startVM vm.uuid) with
      | .ok started => proxyTo started port
      | .error .alreadyRunning =>
          match ← perform (.getVM vm.uuid) with
          | .ok refreshed => proxyTo refreshed port
          | .error _ => proxyTo vm port
      | .error _ => ret (.error 503 "firedoze wake failed")

/-- The part of `ServeHTTP` after the check of the protection. -/
def serveVM (r : Request) (host : String) (vm : VM) (port : Int) : Prog WebEff Response :=
  if vm.state = .sleeping then wake r host vm port else proxyTo vm port

/-- The answer of `ServeHTTP` for a hostname that leads nowhere. -/
def routeNotFound : Response := .error 404 "firedoze route not found"

/-- The part of `ServeHTTP` after the hostname has been resolved. -/
def serveFound (r : Request) (host : String) (vm : VM) (port : Int) : Prog WebEff Response :=
  if vm.state ≠ .running ∧ vm.state ≠ .sleeping then ret routeNotFound
  else if vm.publicHTTP = false then ret routeNotFound
  else do
    match ← perform (.isRouteHostnameProtected host) with
    | .error _ => ret (.error 503 "firedoze route auth unavailable")
    | .ok false => serveVM r host vm port
    | .ok true =>
        let ok ← approved r host
        if ok = false then ret (.error 403 "firedoze route is protected")
        else serveVM r host vm port

/-- `WakeProxy.ServeHTTP`. -/
def serveHTTP (site : Site) (r : Request) : Prog WebEff Response :=
  let host := routeHost site.unicode r.host
  if r.method = .get ∧ r.path = "/_firedoze/auth" then handleSignedAuthURL r host
  else do
    match ← routeFor site r.host with
    | none => ret routeNotFound
    | some (vm, port) => serveFound r host vm port

/-! ## The API -/

/-- `handleProtectRoute`; `none` is a body that is not decoded. -/
@[irreducible]
def handleProtectRoute (site : Site) (body : Option String) : Prog WebEff Response :=
  match body with
  | none => ret (.apiError 400 (.msg "invalid JSON"))
  | some hostname =>
      match normalizeRouteAuthHostname site.unicode site.baseDomain hostname with
      | .error e => ret (.apiError 400 e)
      | .ok hostname => do
          match ← perform (.protectRouteHostname hostname) with
          | .error e => ret (.apiError 500 e)
          | .ok _ =>
              match ← perform .reconcile with
              | .error e => ret (.apiError 500 e)
              | .ok _ => ret (.status hostname "protected")

/-- `handleUnprotectRoute`. -/
@[irreducible]
def handleUnprotectRoute (site : Site) (hostname : String) : Prog WebEff Response :=
  match normalizeRouteAuthHostname site.unicode site.baseDomain hostname with
  | .error e => ret (.apiError 400 e)
  | .ok hostname => do
      match ← perform (.unprotectRouteHostname hostname) with
      | .error e => ret (.apiError 500 e)
      | .ok _ =>
          match ← perform .reconcile with
          | .error e => ret (.apiError 500 e)
          | .ok _ => ret (.status hostname "unprotected")

/-- `Manager.SignedURL`, which answers the token of the URL. -/
@[irreducible]
def signedURL (host : String) (ttl : Int64) : Prog WebEff (Except Err Bytes) :=
  if ttl ≤ 0 then ret (.error (.msg "ttl must be positive"))
  else do
    let now ← perform .now
    perform (.token .signedURL (bytes host) (now.add ttl.toInt))

/-- `handleRouteSignedURL`. -/
@[irreducible]
def handleRouteSignedURL (site : Site) (body : Option (String × Int64)) : Prog WebEff Response :=
  match body with
  | none => ret (.apiError 400 (.msg "invalid JSON"))
  | some (hostname, ttlSeconds) =>
      match normalizeRouteAuthHostname site.unicode site.baseDomain hostname with
      | .error e => ret (.apiError 400 e)
      | .ok hostname =>
          let ttlSeconds := if ttlSeconds = 0 then 24 * 60 * 60 else ttlSeconds
          if ttlSeconds < 0 then ret (.apiError 400 (.msg "ttl_seconds must be positive"))
          else do
            let ttl := ttlSeconds * 1000000000
            match ← signedURL hostname ttl with
            | .error e => ret (.apiError 500 e)
            | .ok token => ret (.signed hostname token (ttl / 1000000000))

/-! ## Calls -/

/-- A request, or a call of the route authentication by other code. -/
inductive WebOp
  | serveHTTP (r : Request)
  | protectRoute (body : Option String)
  | unprotectRoute (hostname : String)
  | routeSignedURL (body : Option (String × Int64))
  | token (host : Bytes) (expires : Time)
  | validate (token host : Bytes)

/-- The program of a call. -/
def WebOp.prog (site : Site) : WebOp → Prog WebEff Response
  | .serveHTTP r => Firedoze.serveHTTP site r
  | .protectRoute body => handleProtectRoute site body
  | .unprotectRoute hostname => handleUnprotectRoute site hostname
  | .routeSignedURL body => handleRouteSignedURL site body
  | .token host expires => do
      let answer ← perform (.token .direct host expires)
      ret (.token answer)
  | .validate text host => do
      let expires ← perform (.validate text host)
      ret (.validated expires)

/-- The calls of a run. -/
abbrev WebCalls := Nat → Option WebOp

/-- The program of each thread. -/
def webThreads (site : Site) (calls : WebCalls) (n : Nat) : Prog WebEff Response :=
  match calls n with
  | none => ret (.error 404 "")
  | some op => op.prog site

/-- A state of the requests. -/
abbrev WebState := State Nat Web Response WebEff

/-- A step of the requests. -/
abbrev WebLabel := Label Nat WebOutcome WebEvent

/-- The start of a run. -/
def startWeb (site : Site) (calls : WebCalls) (w : Web) : WebState :=
  .initial w (webThreads site calls)

end Firedoze
