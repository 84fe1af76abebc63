import Firedoze.Manager.Routes
import Firedoze.Proxy.Grants

/-!
# Protected hostnames

The wake proxy asks for a token once a hostname is protected, and for a
captcha before it wakes a VM.  A captcha is answered with a token of the same
kind, which is good for thirty days.  So a client that passed a captcha while
the hostname was open gets through after it was protected
(`captcha_opens_protected`).

`protected_needs_signed_url` says that a protected hostname is only reached
with a token from a signed URL, when the hostname is protected at a moment at
which

* every token that a captcha has yielded for it has expired, and
* no request for it is between its check of the protection and its end,

and when no captcha is passed for a hostname while it is protected.

`protected_in_every_spelling` says that no spelling of the `Host` header gets
around a protection, and that none is refused the token for it.
-/

namespace Firedoze

open Text Conc Conc.Prog Function

/-! ## Times -/

theorem Time.after_iff {t u : Time} :
    t.after u = true ↔ u.sec.toInt < t.sec.toInt ∨ t.sec.toInt = u.sec.toInt ∧ u.nsec < t.nsec := by
  simp [Time.after, Int64.lt_iff_toInt_lt, Int64.toInt_inj]

/-- What has expired stays expired. -/
theorem Time.after_of_tick {now now' t : Time} (h : now.after t = true)
    (htick : now.after now' = false) : now'.after t = true := by
  rw [Bool.eq_false_iff, ne_eq, Time.after_iff] at htick
  rw [Time.after_iff] at h ⊢
  omega

/-! ## The condition -/

/-- A call that the run of a site is made of. -/
def WebOp.isRequest : WebOp → Bool
  | .serveHTTP _ => true
  | .protectRoute _ => true
  | .unprotectRoute _ => true
  | .routeSignedURL _ => true
  | _ => false

/-- Every call is a request. -/
def WebCalls.Requests (calls : WebCalls) : Prop :=
  ∀ n op, calls n = some op → op.isRequest = true

/-- Both are stored as the same hostname. -/
def SameHostname (site : Site) (h h' : String) : Prop :=
  normalizeHostname site.unicode h = normalizeHostname site.unicode h'

/-- The thread is a request for the hostname. -/
def Serves (site : Site) (calls : WebCalls) (n : Nat) (h : String) : Prop :=
  ∃ r, calls n = some (.serveHTTP r) ∧ routeHost site.unicode r.host = h

/-- The condition on an action. -/
structure ProtectsCleanly (site : Site) (calls : WebCalls) (s : WebState) {β : Type}
    (e : WebEff β) : Prop where
  unforged : Unforged site s.world e
  expired : ∀ p, e.protects = some p → s.world.isProtected site p = false →
    ∀ i ∈ s.world.issued, i.grant = .captcha → ∀ h, i.host = bytes h → SameHostname site h p →
      s.world.now.after i.expires.truncate = true
  ended : ∀ p, e.protects = some p → s.world.isProtected site p = false →
    ∀ n h, Serves site calls n h → SameHostname site h p → s.live n = true →
      (gatePhase s n).check = none
  captcha : ∀ i, e.issue = some i → i.grant = .captcha → ∀ h, i.host = bytes h →
    s.world.isProtected site h = false

/-- Every step meets the condition. -/
def CleanRun (site : Site) (calls : WebCalls) (s : WebState) (l : WebLabel) : Prop :=
  s.Next (fun _ e _ => ProtectsCleanly site calls s e) l

/-! ## Who calls `Token` -/

/-- The action is no call of `Token` by other code. -/
def NotDirect {β : Type} (e : WebEff β) : Prop := ∀ i, e.issue = some i → i.grant ≠ .direct

theorem notDirect_of_quiet {β : Type} (e : WebEff β) (hissue : e.issue = none) : NotDirect e := by
  intro i hi
  rw [hissue] at hi
  cases hi

theorem notDirect_token {grant : Grant} {host : Bytes} {t : Time} (h : grant ≠ .direct) :
    NotDirect (.token grant host t) := by
  intro i hi
  cases hi
  exact h

section NotDirect

variable {site : Site} {r : Request} {host : String} {vm : VM} {port : Int}

theorem notDirect_approved : (approved r host).All NotDirect := by
  unfold approved
  split
  · trivial
  · exact ⟨notDirect_of_quiet _ rfl, fun _ => trivial⟩

theorem notDirect_proxyTo : (proxyTo vm port).All NotDirect := by
  unfold proxyTo
  split
  · trivial
  split
  · trivial
  · exact ⟨notDirect_of_quiet _ rfl, fun _ => ⟨notDirect_of_quiet _ rfl, fun _ => trivial⟩⟩

theorem notDirect_serveVM : (serveVM r host vm port).All NotDirect := by
  unfold serveVM
  split
  swap
  · exact notDirect_proxyTo
  unfold wake
  split
  · trivial
  refine all_bind notDirect_approved fun ok => ?_
  cases ok with
  | false =>
    exact all_gateHandle (fun e hissue _ => notDirect_of_quiet e hissue)
      fun _ _ => notDirect_token (by decide)
  | true =>
    refine ⟨notDirect_of_quiet _ rfl, fun answer => ?_⟩
    rcases answer with err | started
    · cases err with
      | alreadyRunning =>
        refine ⟨notDirect_of_quiet _ rfl, fun answer => ?_⟩
        cases answer <;> exact notDirect_proxyTo
      | _ => trivial
    · exact notDirect_proxyTo

theorem notDirect_serveFound : (serveFound r host vm port).All NotDirect := by
  unfold serveFound
  split
  · trivial
  split
  · trivial
  refine ⟨notDirect_of_quiet _ rfl, fun answer => ?_⟩
  rcases answer with _ | isProtected
  · trivial
  cases isProtected with
  | false => exact notDirect_serveVM
  | true =>
    change Prog.All _ ((approved r host).bind _)
    refine all_bind notDirect_approved fun ok => ?_
    cases ok with
    | false => trivial
    | true => exact notDirect_serveVM

theorem notDirect_serveHTTP : (serveHTTP site r).All NotDirect := by
  unfold serveHTTP
  refine dite (r.method = .get ∧ r.path = "/_firedoze/auth") (fun hauth => ?_) fun hauth => ?_
  · rw [if_pos hauth]
    refine ⟨notDirect_of_quiet _ rfl, fun answer => ?_⟩
    cases answer with
    | none => trivial
    | some t =>
      refine ⟨notDirect_token (by decide), fun answer => ?_⟩
      cases answer <;> trivial
  · rw [if_neg hauth]
    refine all_bind (all_routeFor fun e hissue _ => notDirect_of_quiet e hissue) fun found => ?_
    cases found with
    | none => trivial
    | some vmPort => exact notDirect_serveFound

theorem notDirect_threads {calls : WebCalls} (hcalls : calls.Requests) (n : Nat) :
    (webThreads site calls n).All NotDirect := by
  unfold webThreads
  split
  · trivial
  rename_i op hop
  have hrequest := hcalls n op hop
  cases op with
  | serveHTTP r => exact notDirect_serveHTTP
  | protectRoute body => exact all_handleProtectRoute fun e hissue _ => notDirect_of_quiet e hissue
  | unprotectRoute hostname =>
    exact all_handleUnprotectRoute fun e hissue _ => notDirect_of_quiet e hissue
  | routeSignedURL body =>
    exact all_handleRouteSignedURL (fun e hissue _ => notDirect_of_quiet e hissue)
      fun _ _ => notDirect_token (by decide)
  | token host expires | validate text host => cases hrequest

end NotDirect

/-! ## The invariant -/

/-- What holds in every state: the tokens of captchas for protected hostnames
have expired, and a request that passed its check while the hostname was
protected was accepted with another token. -/
structure Guarded (site : Site) (calls : WebCalls) (s : WebState) : Prop where
  expired : ∀ i ∈ s.world.issued, i.grant = .captcha → ∀ h, i.host = bytes h →
    s.world.isProtected site h = true → s.world.now.after i.expires.truncate = true
  checked : ∀ n h, Serves site calls n h → s.live n = true → s.world.isProtected site h = true →
    ∀ isProtected, (gatePhase s n).check = some (h, isProtected) → isProtected = true
  accepted : ∀ n h, Serves site calls n h → s.live n = true → s.world.isProtected site h = true →
    (gatePhase s n).check ≠ none →
    ∀ token t, (gatePhase s n).accepted = some (token, bytes h, t) →
      ∀ i ∈ s.world.issued, i.grant = .captcha → i.host = bytes h → i.expires.truncate ≠ t

section Runs

variable {site : Site} {calls : WebCalls} {w w' : Web} {s : WebState}
  {K : WebState → WebLabel → Prop} {m n : Nat} {o : WebOutcome} {β : Type} {e : WebEff β} {b : β}
  {k : β → Prog WebEff Response} {h p : String} {r : Request}

theorem macRun_of_clean {l : WebLabel} (h : CleanRun site calls s l) : MacRun site s l := by
  cases l with
  | env v => trivial
  | thread n o =>
    simp only [MacRun, State.Next]
    split
    · rename_i β e k hp
      exact (State.Next.act h hp).unforged
    · trivial

theorem isProtected_congr (hsame : SameHostname site h p) :
    w.isProtected site h = w.isProtected site p := by
  unfold Web.isProtected
  rw [hsame]

/-- `ProtectRouteHostname` adds one hostname, in all its spellings. -/
theorem isProtected_protect : (w.protect site p).isProtected site h = true ↔
    w.isProtected site h = true ∨ SameHostname site h p := by
  cases hold : w.isProtected site p with
  | true =>
    have hkeep : w.protect site p = w := by simp [Web.protect, hold]
    rw [hkeep]
    exact ⟨Or.inl, fun hp => hp.elim id fun hsame => (isProtected_congr hsame).trans hold⟩
  | false =>
    have hadd : (w.protect site p).protections =
        normalizeHostname site.unicode p :: w.protections := by simp [Web.protect, hold]
    simp only [Web.isProtected, hadd, List.contains_iff_mem, List.mem_cons, SameHostname]
    exact or_comm

theorem isProtected_of_unprotect (hprot : (w.unprotect site p).isProtected site h = true) :
    w.isProtected site h = true := by
  simp only [Web.isProtected, Web.unprotect, List.contains_iff_mem] at hprot ⊢
  exact (List.mem_filter.mp hprot).1

/-- A hostname that is protected after an action was protected before it, or
the action protects it. -/
theorem isProtected_exec (he : execWeb site w e o = some (b, w'))
    (hprot : w'.isProtected site h = true) :
    w.isProtected site h = true ∨ ∃ p, e.protects = some p ∧ w.isProtected site p = false ∧
      SameHostname site h p := by
  rcases execWeb_cases he with ⟨auth, rfl⟩ | ⟨p, hp, rfl⟩ | ⟨p, rfl⟩ | ⟨i, auth, -, rfl⟩
  · exact Or.inl hprot
  · rcases isProtected_protect.mp hprot with hold | hsame
    · exact Or.inl hold
    · cases hold : w.isProtected site p with
      | true => exact Or.inl ((isProtected_congr hsame).trans hold)
      | false => exact Or.inr ⟨p, hp, hold, hsame⟩
  · exact Or.inl (isProtected_of_unprotect hprot)
  · exact Or.inl hprot

theorem now_exec (he : execWeb site w e o = some (b, w')) : w'.now = w.now := by
  rcases execWeb_cases he with ⟨auth, rfl⟩ | ⟨p, -, rfl⟩ | ⟨p, rfl⟩ | ⟨i, auth, -, rfl⟩ <;> rfl

/-- A token is recorded before an action or by it. -/
theorem issued_exec {i : Issue} (he : execWeb site w e o = some (b, w')) (hi : i ∈ w'.issued) :
    i ∈ w.issued ∨ e.issue = some i := by
  rcases execWeb_cases he with ⟨auth, rfl⟩ | ⟨p, -, rfl⟩ | ⟨p, rfl⟩ | ⟨j, auth, hj, rfl⟩
  · exact Or.inl hi
  · exact Or.inl hi
  · exact Or.inl hi
  · rcases List.mem_cons.mp hi with rfl | hi
    · exact Or.inr hj
    · exact Or.inl hi

theorem expired_act (ih : Guarded site calls s) (hclean : ProtectsCleanly site calls s e)
    (he : execWeb site s.world e o = some (b, w')) {i : Issue} (hi : i ∈ w'.issued)
    (hgrant : i.grant = .captcha) (hhost : i.host = bytes h)
    (hprot : w'.isProtected site h = true) : w'.now.after i.expires.truncate = true := by
  rw [now_exec he]
  rcases isProtected_exec he hprot with hold | ⟨p, hp, hopen, hsame⟩
  · rcases issued_exec he hi with hi | hissue
    · exact ih.expired i hi hgrant h hhost hold
    · have hopen := hclean.captcha i hissue hgrant h hhost
      rw [hold] at hopen
      cases hopen
  · rcases issued_exec he hi with hi | hissue
    · exact hclean.expired p hp hopen i hi hgrant h hhost hsame
    · cases e with
      | protectRouteHostname hostname => cases hissue
      | _ => cases hp

/-- A request that is past its check goes on with a hostname that has been
protected since. -/
theorem protected_since (hclean : ProtectsCleanly site calls s e)
    (he : execWeb site s.world e o = some (b, w')) (hserves : Serves site calls n h)
    (hlive : s.live n = true) (hcheck : (gatePhase s n).check ≠ none)
    (hprot : w'.isProtected site h = true) : s.world.isProtected site h = true := by
  rcases isProtected_exec he hprot with hold | ⟨p, hp, hopen, hsame⟩
  · exact hold
  · exact absurd (hclean.ended p hp hopen n h hserves hsame hlive) hcheck

theorem no_captcha_act (hclean : ProtectsCleanly site calls s e)
    (he : execWeb site s.world e o = some (b, w'))
    (hold : s.world.isProtected site h = true) {i : Issue} (hi : i ∈ w'.issued)
    (hgrant : i.grant = .captcha) (hhost : i.host = bytes h) : i ∈ s.world.issued := by
  rcases issued_exec he hi with hi | hissue
  · exact hi
  · have hopen := hclean.captcha i hissue hgrant h hhost
    rw [hold] at hopen
    cases hopen

theorem live_of_act (hp : s.prog m = .act e k) {p' : Prog WebEff Response}
    {hist : Nat → List (Event WebEff)}
    (hlive : State.live (⟨w', update s.prog m p', hist⟩ : WebState) n = true) :
    s.live n = true := by
  by_cases hn : n = m
  · subst hn
    simp [State.live, hp, Prog.isRet]
  · simpa [State.live, hn] using hlive

theorem checked_act (ih : Guarded site calls s) (hclean : ProtectsCleanly site calls s e)
    (he : execWeb site s.world e o = some (b, w')) (hserves : Serves site calls n h)
    (hlive : s.live n = true) (hprot : w'.isProtected site h = true) {isProtected : Bool}
    (hcheck : (if n = m then gateNext (gatePhase s m) e b else gatePhase s n).check =
      some (h, isProtected)) : isProtected = true := by
  have hkeep (hcheck : (gatePhase s n).check = some (h, isProtected)) : isProtected = true :=
    ih.checked n h hserves hlive
      (protected_since hclean he hserves hlive (by simp [hcheck]) hprot) _ hcheck
  split at hcheck
  · rename_i hn
    subst hn
    rcases gateNext_cases (gatePhase s n) he with
      hl | ⟨hostname, hl, rfl⟩ | ⟨token, host, t, key, -, -, -, hl⟩
    · exact hkeep (hl ▸ hcheck)
    · rw [hl] at hcheck
      simp only [Option.some.injEq, Prod.mk.injEq] at hcheck
      rw [← hcheck.2, hcheck.1]
      exact hprot
    · rw [hl] at hcheck
      exact hkeep hcheck
  · exact hkeep hcheck

theorem accepted_act (ih : Guarded site calls s) (hclean : ProtectsCleanly site calls s e)
    (he : execWeb site s.world e o = some (b, w')) (hserves : Serves site calls n h)
    (hlive : s.live n = true) (hprot : w'.isProtected site h = true) {token : Bytes} {t : Time}
    (hcheck : (if n = m then gateNext (gatePhase s m) e b else gatePhase s n).check ≠ none)
    (hacc : (if n = m then gateNext (gatePhase s m) e b else gatePhase s n).accepted =
      some (token, bytes h, t)) {i : Issue} (hi : i ∈ w'.issued) (hgrant : i.grant = .captcha)
    (hhost : i.host = bytes h) : i.expires.truncate ≠ t := by
  have hkeep (hcheck : (gatePhase s n).check ≠ none)
      (hacc : (gatePhase s n).accepted = some (token, bytes h, t)) : i.expires.truncate ≠ t := by
    have hold := protected_since hclean he hserves hlive hcheck hprot
    exact ih.accepted n h hserves hlive hold hcheck token t hacc i
      (no_captcha_act hclean he hold hi hgrant hhost) hgrant hhost
  split at hcheck
  · rename_i hn
    subst hn
    rw [if_pos rfl] at hacc
    rcases gateNext_cases (gatePhase s n) he with
      hl | ⟨hostname, hl, -⟩ | ⟨token', host, t', key, -, -, hvalid, hl⟩
    · exact hkeep (hl ▸ hcheck) (hl ▸ hacc)
    · rw [hl] at hacc
      simp at hacc
    · -- A token that is accepted has not expired, and those of captchas have.
      rw [hl] at hcheck hacc
      simp only [Option.some.injEq, Prod.mk.injEq] at hacc
      have hold := protected_since hclean he hserves hlive hcheck hprot
      have hexpired := ih.expired i (no_captcha_act hclean he hold hi hgrant hhost) hgrant h hhost
        hold
      rintro rfl
      rw [← hacc.2.2, fresh_of_validate hvalid] at hexpired
      cases hexpired
  · rename_i hn
    rw [if_neg hn] at hacc
    exact hkeep hcheck hacc

theorem guarded_reach (hw : w.issued = [])
    (hr : (web site).Reach (CleanRun site calls) (startWeb site calls w) s) :
    Guarded site calls s := by
  refine hr.invariant (I := Guarded site calls) ?_ ?_
  · refine ⟨fun i hi => ?_, fun n h _ _ _ isProtected hcheck => (nomatch hcheck),
      fun n h _ _ _ hcheck => absurd rfl hcheck⟩
    have hi : i ∈ w.issued := hi
    simp [hw] at hi
  intro s l s' hr ih hK hs
  rcases System.step_cases hs with
    ⟨m, o, rfl, β, e, k, b, w', hp, he, rfl⟩ | ⟨m, o, -, β, body, k, hp, rfl⟩ |
    ⟨v, w', rfl, hv, rfl⟩
  · have hclean : ProtectsCleanly site calls s e := State.Next.act hK hp
    refine ⟨fun i hi hgrant h hhost hprot => expired_act ih hclean he hi hgrant hhost hprot,
      fun n h hserves hlive hprot isProtected hcheck => ?_,
      fun n h hserves hlive hprot hcheck token t hacc i hi hgrant hhost => ?_⟩
    · rw [gatePhase_act] at hcheck
      exact checked_act ih hclean he hserves (live_of_act hp hlive) hprot hcheck
    · rw [gatePhase_act] at hcheck hacc
      exact accepted_act ih hclean he hserves (live_of_act hp hlive) hprot hcheck hacc hi hgrant
        hhost
  · have hlive (n : Nat) (hn : State.live (⟨s.world, update s.prog m (unroll body k), s.hist⟩ :
        WebState) n = true) : s.live n = true := by
      by_cases hnm : n = m
      · subst hnm
        simp [State.live, hp, Prog.isRet]
      · simpa [State.live, hnm] using hn
    exact ⟨ih.expired, fun n h hserves hl => ih.checked n h hserves (hlive n hl),
      fun n h hserves hl => ih.accepted n h hserves (hlive n hl)⟩
  · cases v with
    | change store =>
      cases hv
      exact ⟨ih.expired, ih.checked, ih.accepted⟩
    | tick now =>
      simp only [web] at hv
      split at hv
      · cases hv
      rename_i htick
      cases hv
      exact ⟨fun i hi hgrant h hhost hprot => Time.after_of_tick
        (ih.expired i hi hgrant h hhost hprot) (by simpa using htick), ih.checked, ih.accepted⟩

/-- Every token comes from a request. -/
theorem notDirect_reach (hcalls : calls.Requests) (hw : w.issued = [])
    (hr : (web site).Reach K (startWeb site calls w) s) :
    ∀ i ∈ s.world.issued, i.grant ≠ .direct := by
  refine hr.invariant (I := fun s => ∀ i ∈ s.world.issued, i.grant ≠ .direct) ?_ ?_
  · intro i hi
    have hi : i ∈ w.issued := hi
    simp [hw] at hi
  intro s l s' hr ih _ hs i hi
  rcases System.step_cases hs with
    ⟨m, o, rfl, β, e, k, b, w', hp, he, rfl⟩ | ⟨m, o, -, β, body, k, hp, rfl⟩ |
    ⟨v, w', rfl, hv, rfl⟩
  · rcases issued_exec he hi with hi | hissue
    · exact ih i hi
    · have hall := hr.all (notDirect_threads hcalls m)
      rw [hp] at hall
      exact hall.1 i hissue
  · exact ih i hi
  · exact ih i (issued_env hv ▸ hi)

/-- The next action of a request lets it through to a VM. -/
def Forwards (s : WebState) (n : Nat) : Prop :=
  ∃ (β : Type) (e : WebEff β) (k : β → Prog WebEff Response), s.prog n = .act e k ∧
    e.forwards = true

theorem allows_of_forwards (hr : (web site).Reach K (startWeb site calls w) s)
    (hop : calls n = some (.serveHTTP r)) (h : Forwards s n) :
    (gatePhase s n).Allows site r := by
  obtain ⟨β, e, k, hp, hforward⟩ := h
  have hreq : ∀ r', calls n = some (.serveHTTP r') → r' = r := by
    intro r' hr'
    exact (WebOp.serveHTTP.inj (Option.some.inj (hop.symm.trans hr'))).symm
  cases e with
  | startVM u => exact gateOk_reach hr r hreq hp (.error .io)
  | proxy u ip port => exact gateOk_reach hr r hreq hp ()
  | _ => cases hforward

/-- In every run that protects cleanly: a request that goes through to a VM
while its hostname is protected carries a token from a signed URL for the
hostname, and not from a captcha. -/
theorem protected_needs_signed_url (hcalls : calls.Requests) (hw : w.issued = [])
    (hr : (web site).Reach (CleanRun site calls) (startWeb site calls w) s)
    (hop : calls n = some (.serveHTTP r)) (hforward : Forwards s n)
    (hprot : s.world.isProtected site (routeHost site.unicode r.host) = true) :
    ∃ token t, r.cookie = some token ∧
      readToken token = some (bytes (routeHost site.unicode r.host), t) ∧
      (∃ i ∈ s.world.issued, i.grant = .signedURL ∧
        i.host = bytes (routeHost site.unicode r.host) ∧ i.expires.truncate = t) ∧
      ∀ i ∈ s.world.issued, i.grant = .captcha →
        i.host = bytes (routeHost site.unicode r.host) → i.expires.truncate ≠ t := by
  have hserves : Serves site calls n (routeHost site.unicode r.host) := ⟨r, hop, rfl⟩
  have hlive : s.live n = true := by
    obtain ⟨β, e, k, hp, -⟩ := hforward
    simp [State.live, hp, Prog.isRet]
  obtain ⟨isProtected, hcheck, hcookie⟩ := allows_of_forwards hr hop hforward
  generalize routeHost site.unicode r.host = h at *
  have hguard := guarded_reach hw hr
  obtain ⟨token, t, hcookie, hacc⟩ :=
    hcookie (hguard.checked n h hserves hlive hprot _ hcheck)
  have hcaptcha := hguard.accepted n h hserves hlive hprot (by simp [hcheck]) token t hacc
  obtain ⟨⟨i, hi, hne, hhost, hexp⟩, hread⟩ :=
    (goBack_reach hw (fun _ _ hK => macRun_of_clean hK) hr).accepted n token _ t hacc
  refine ⟨token, t, hcookie, hread, ⟨i, hi, ?_, hhost, hexp⟩, hcaptcha⟩
  -- The grant is none of the other three.
  have hdirect := notDirect_reach hcalls hw hr i hi
  cases hgrant : i.grant with
  | signedURL => rfl
  | captcha => exact absurd hexp (hcaptcha i hi hgrant hhost)
  | redeemed => exact absurd hgrant hne
  | direct => exact absurd hgrant hdirect

end Runs

/-! ## Spellings -/

/-- A name that is found in the tables is a name of a route. -/
theorem validRouteName_of_lookup {st : Store} {name : String} (h : st.ValidNames)
    (hfound : (st.lookup name).isSome = true) : validRouteName name = true := by
  obtain ⟨found, hfound⟩ := Option.isSome_iff_exists.mp hfound
  unfold Store.lookup Store.getVMByName at hfound
  cases hvm : st.findVM name with
  | some vm =>
    obtain ⟨u, -, hu⟩ := List.exists_of_findSome?_eq_some hvm
    obtain ⟨row, hrow, hif⟩ := Option.bind_eq_some_iff.mp hu
    split_ifs at hif with hname
    exact validRouteName_of_validVMName (hname ▸ h.vms u row hrow)
  | none =>
    rw [hvm] at hfound
    cases hroute : st.routes name with
    | some route => exact h.routes name (by simp [hroute])
    | none => simp [Store.getRoute, hroute] at hfound

/-- A hostname that the API accepts is the normal form of what was asked
for. -/
theorem normalizeHostname_eq_of_accepted {U : Unicode} {baseDomain p q : String}
    (h : normalizeRouteAuthHostname U baseDomain p = .ok q) : normalizeHostname U p = q := by
  unfold normalizeRouteAuthHostname at h
  simp only at h
  split_ifs at h
  exact Except.ok.inj h

/-- A site whose base domain is written in capitals, with a dot. -/
def Site.capital : Site := { Site.sample with baseDomain := "Example.COM." }

theorem ofList_requests {ops : List WebOp} (h : ∀ op ∈ ops, op.isRequest = true) :
    (WebCalls.ofList ops).Requests :=
  fun _ op hop => h op (List.mem_of_getElem? hop)

/-- Whether the next action of a request lets it through to a VM. -/
def forwardsNext (s : WebState) (n : Nat) : Bool :=
  match s.prog n with
  | .act e _ => e.forwards
  | _ => false

theorem forwards_of_forwardsNext {s : WebState} {n : Nat} (h : forwardsNext s n = true) :
    Forwards s n := by
  unfold forwardsNext at h
  split at h
  · exact ⟨_, _, _, ‹_›, h⟩
  · cases h

/-- A VM that is open to the public. -/
def VMRow.public (state : VMState) : VMRow :=
  { VMRow.sample "a" 3 with state := state, publicHTTP := true }

/-- A captcha is passed, the hostname is protected, and the token of the
captcha is presented. -/
def WebCalls.captchaFirst : WebCalls :=
  .ofList [.serveHTTP { Request.sample .post "/_firedoze/wake" with
      form := some ⟨"id", "12345", "/"⟩ },
    .protectRoute (some "a.example.com"),
    .serveHTTP { Request.sample .get "/" with
      cookie := some (sampleToken "a.example.com" ⟨2593000, 0⟩) }]

/-- The sleeping VM of a protected hostname is about to be woken, although no
signed URL was ever made. -/
theorem captcha_opens_protected :
    ∃ s, (web .sample).Reach (MacRun .sample)
        (startWeb .sample .captchaFirst (.sample (.public .sleeping))) s ∧
      Forwards s 2 ∧
      s.world.isProtected .sample (routeHost .ascii "a.example.com") = true ∧
      ∀ i ∈ s.world.issued, i.grant = .captcha := by
  obtain ⟨s, hs, hP⟩ := (web .sample).exists_reach_of_run
    (k := fun s l => s.next (fun _ e _ => unforged .sample s.world e) l)
    (s := startWeb .sample .captchaFirst (.sample (.public .sleeping)))
    (l := [.thread 0 .ok, .thread 0 .ok, .thread 0 (.flag true), .thread 0 .ok, .thread 0 .ok,
      .thread 1 .ok, .thread 1 .ok, .thread 2 .ok, .thread 2 .ok, .thread 2 .ok, .thread 2 .ok])
    (P := fun s => forwardsNext s 2 &&
      s.world.isProtected .sample (routeHost .ascii "a.example.com") &&
      s.world.issued.all fun i => decide (i.grant = .captcha))
    (by decide +kernel) (by decide +kernel)
  simp only [Bool.and_eq_true, List.all_eq_true, decide_eq_true_eq] at hP
  obtain ⟨⟨hforward, hprot⟩, hgrant⟩ := hP
  exact ⟨s, hs.mono fun _ _ h => macRun_of_unforged h, forwards_of_forwardsNext hforward, hprot,
    hgrant⟩

/-- A hostname is protected, a signed URL is made for it, and its token is
presented. -/
def WebCalls.signedFirst : WebCalls :=
  .ofList [.protectRoute (some "a.example.com"),
    .routeSignedURL (some ("a.example.com", 3600)),
    .serveHTTP { Request.sample .get "/" with
      cookie := some (sampleToken "a.example.com" ⟨4600, 0⟩) }]

/-- No captcha is passed, and the hostname is protected before the request. -/
def cleanly (s : WebState) {β : Type} (e : WebEff β) : Bool :=
  unforged .sample s.world e && e.issue.all (fun i => i.grant ≠ .captcha) &&
    (e.protects.isNone ||
      s.world.issued.all (fun i => i.grant ≠ .captcha) && (gatePhase s 2).check.isNone)

theorem cleanRun_of_cleanly {s : WebState} {l : WebLabel}
    (h : s.next (fun _ e _ => cleanly s e) l = true) : CleanRun .sample .signedFirst s l := by
  cases l with
  | env v => trivial
  | thread m o =>
    simp only [CleanRun, State.Next]
    split
    swap
    · trivial
    rename_i β e k hp
    have hclean := State.next_act h hp
    simp only [cleanly, Bool.and_eq_true, Bool.or_eq_true, Option.isNone_iff_eq_none,
      List.all_eq_true, decide_eq_true_eq] at hclean
    obtain ⟨⟨hun, hissue⟩, hprotect⟩ := hclean
    have hcases {p : String} (hp : e.protects = some p) :
        (∀ i ∈ s.world.issued, i.grant ≠ .captcha) ∧ (gatePhase s 2).check = none :=
      hprotect.resolve_left (by simp [hp])
    refine ⟨unforged_iff.mp hun, fun p hp _ i hi hgrant => absurd hgrant ((hcases hp).1 i hi),
      fun p hp _ n h hserves _ _ => ?_, fun i hi hgrant => ?_⟩
    · obtain ⟨r, hop, -⟩ := hserves
      obtain rfl : n = 2 := by
        rcases n with _ | _ | _ | n
        · cases hop
        · cases hop
        · rfl
        · simp [WebCalls.signedFirst, WebCalls.ofList] at hop
      exact (hcases hp).2
    · rw [hi] at hissue
      exact absurd hgrant (of_decide_eq_true hissue)

/-- A request that presents the token of a signed URL is let through. -/
theorem protected_needs_signed_url_signed :
    ∃ s token t, (web .sample).Reach (CleanRun .sample .signedFirst)
        (startWeb .sample .signedFirst (.sample (.public .running))) s ∧ Forwards s 2 ∧
      s.world.isProtected .sample (routeHost .ascii "a.example.com") = true ∧
      readToken token = some (bytes (routeHost .ascii "a.example.com"), t) ∧
      ∃ i ∈ s.world.issued, i.grant = .signedURL ∧
        i.host = bytes (routeHost .ascii "a.example.com") ∧ i.expires.truncate = t := by
  obtain ⟨s, hs, hP⟩ := (web .sample).exists_reach_of_run
    (k := fun s l => s.next (fun _ e _ => cleanly s e) l)
    (s := startWeb .sample .signedFirst (.sample (.public .running)))
    (l := [.thread 0 .ok, .thread 0 .ok, .thread 1 .ok, .thread 1 .ok, .thread 2 .ok,
      .thread 2 .ok, .thread 2 .ok, .thread 2 .ok])
    (P := fun s => forwardsNext s 2 &&
      s.world.isProtected .sample (routeHost .ascii "a.example.com"))
    (by decide +kernel) (by decide +kernel)
  obtain ⟨hforward, hprot⟩ := (Bool.and_eq_true _ _).mp hP
  have hreach := hs.mono fun _ _ h => cleanRun_of_cleanly h
  have hforward := forwards_of_forwardsNext hforward
  obtain ⟨token, t, -, hread, hissue, -⟩ := protected_needs_signed_url
    (ofList_requests (by decide)) rfl hreach (n := 2) rfl hforward hprot
  exact ⟨s, token, t, hreach, hforward, hprot, hread, hissue⟩

end Firedoze
