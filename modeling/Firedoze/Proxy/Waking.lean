import Firedoze.Manager.Frame
import Firedoze.Proxy.Wake

/-!
# Requests that wake a VM together

`Firedoze.Proxy.Wake` treats `StartVM` as one step.  Here the part of
`ServeHTTP` behind the captcha runs on the manager itself, so that the steps
of several `StartVM` calls interleave.  The requests carry a cookie that is
valid, so the checks of the cookie only pass, and they are left out together
with `TouchVMActivity`, which reads and writes nothing that the answer depends
on.

`StartVM` answers `ErrAlreadyRunning` for a VM that runs and also for one that
another call is starting.  The request then reads the VM again.  The phase of
a thread, `WakePhase`, records that answer and what the second read found.

* `waking_serveApproved` is the control flow of a request: it answers that
  the VM is not running only when no start was refused, or when the second
  read found another state than `running`.
* `findsRunning_reach` is the invariant: under the condition `Settled` the
  second read finds `running`.
* `refused_request_not_turned_away` puts the two together.

Without the condition the request reads the VM while the other start is still
loading its memory (`turned_away_while_starting`).
-/

namespace Firedoze

open Conc Conc.Prog Conc.Monitor

/-! ## The request -/

/-- `WakeProxy.routeForHost`, where the hostname has been mapped to a name. -/
def routeForName (name : String) : Prog Eff (Option (VM × Int)) := do
  match ← (db (.getVMByName .request name)).run with
  | .ok vm => ret (some (vm, vm.defaultHTTPPort))
  | .error _ =>
      match ← (db (.getRoute .request name)).run with
      | .error _ => ret none
      | .ok route =>
          match ← (db (.getVM .request route.vmUUID)).run with
          | .error _ => ret none
          | .ok vm => ret (some (vm, route.port))

/-- The answer to a request for a VM that does not run. -/
def vmNotRunning : Response := .error 503 "firedoze vm is not running"

/-- The end of `ServeHTTP`. -/
def proxyAnswer (vm : VM) : Response :=
  if vm.state ≠ .running then vmNotRunning
  else
    match vm.privateIP with
    | none => .error 503 "firedoze vm has no private ip"
    | some _ => .proxied

/-- The part of `ServeHTTP` that wakes a sleeping VM, for a request that the
gate has approved. -/
def wakeApproved (cfg : Config) (vm : VM) : Prog Eff Response :=
  if vm.autoWake = false then ret (.error 503 "firedoze vm auto wake is disabled")
  else do
    match ← (startVM cfg vm.uuid).run with
    | .ok started => ret (proxyAnswer started)
    | .error .alreadyRunning =>
        match ← (db (.getVM .request vm.uuid)).run with
        | .ok refreshed => ret (proxyAnswer refreshed)
        | .error _ => ret (proxyAnswer vm)
    | .error _ => ret (.error 503 "firedoze wake failed")

/-- `WakeProxy.ServeHTTP` for a request with a valid cookie. -/
def serveApproved (cfg : Config) (name : String) : Prog Eff Response := do
  match ← routeForName name with
  | none => ret routeNotFound
  | some (vm, _) =>
      if vm.state ≠ .running ∧ vm.state ≠ .sleeping then ret routeNotFound
      else if vm.publicHTTP = false then ret routeNotFound
      else if vm.state = .sleeping then wakeApproved cfg vm
      else ret (proxyAnswer vm)

/-- A request to the proxy, or another call of the manager. -/
inductive WakeCall
  | request (name : String)
  | op (op : Op)

/-- The calls of a run, as in `Calls`. -/
abbrev WakeCalls := Nat → Nat → Option WakeCall

/-- The programs of all threads. -/
def wakeThreads (cfg : Config) (calls : WakeCalls) : Tid → Prog Eff (Option Response)
  | .call epoch n =>
      match calls epoch n with
      | none => ret none
      | some (.request name) => (serveApproved cfg name).bind fun r => ret (some r)
      | some (.op op) => (op.prog cfg).bind fun _ => ret none
  | .exit p => (finish (exitHandler p)).bind fun _ => ret none

/-- Whether a thread is a request to the proxy. -/
def WakeCalls.isRequest (calls : WakeCalls) : Tid → Bool
  | .call epoch n =>
      match calls epoch n with
      | some (.request _) => true
      | _ => false
  | .exit _ => false

/-- A state of the manager with requests to the proxy. -/
abbrev WakeState := Conc.State Tid World (Option Response) Eff

/-- The state before the calls are made. -/
def startWaking (cfg : Config) (calls : WakeCalls) (w : World) : WakeState :=
  .initial w (wakeThreads cfg calls)

/-! ## The phase of a request -/

/-- What a thread knows of a start that was refused. -/
inductive WakePhase
  | idle
  | refused (u : Uuid)
  | refreshed (state : Option VMState)
  deriving DecidableEq

/-- The phase after a call of the store. -/
def wakeNextStore (l : WakePhase) : {β : Type} → StoreEff β → β → WakePhase
  | _, .getVM _ v, r =>
      match l with
      | .refused u => if v = u then .refreshed (r.toOption.map (·.state)) else .refused u
      | l => l
  | _, _, _ => l

/-- The phase after a critical section. -/
def wakeNextMem (l : WakePhase) : {β : Type} → MemEff β → β → WakePhase
  | _, .enterStart u, b => if b = .busy then .refused u else l
  | _, _, _ => l

/-- The phase after an action. -/
def wakeNext : {β : Type} → WakePhase → Eff β → β → WakePhase
  | _, l, .store e, b => wakeNextStore l e b
  | _, l, .mem e, b => wakeNextMem l e b
  | _, l, .host _, _ => l

/-- The monitor that follows a start that is refused. -/
def waking : Monitor Eff WakePhase where
  start := .idle
  ok := fun _ _ _ => True
  next := wakeNext

/-- Whether a start of the thread was refused. -/
def wasRefused : List (Event Eff) → Bool
  | [] => false
  | ⟨.mem (.enterStart _), .busy⟩ :: _ => true
  | _ :: h => wasRefused h

theorem wasRefused_of_idle {h : List (Event Eff)} (hidle : waking.phase h = .idle) :
    wasRefused h = false := by
  induction h with
  | nil => rfl
  | cons ev h ih =>
    obtain ⟨e, b⟩ := ev
    change wakeNext (waking.phase h) e b = .idle at hidle
    cases e with
    | host e => exact ih hidle
    | store e =>
      refine ih ?_
      cases e with
      | getVM c v =>
        simp only [wakeNext, wakeNextStore] at hidle
        split at hidle
        · split at hidle <;> cases hidle
        · exact hidle
      | _ => exact hidle
    | mem e =>
      cases e with
      | enterStart u =>
        simp only [wakeNext, wakeNextMem] at hidle
        cases b with
        | busy => simp at hidle
        | entered | archiving a => exact ih (by simpa using hidle)
      | _ => exact ih hidle

/-! ## The control flow of a request -/

section Conforms

variable {cfg : Config} {u : Uuid}

theorem wakeNext_idle {β : Type} {e : Eff β} (b : β) (he : e.kind ≠ .lock) :
    wakeNext .idle e b = .idle := by
  cases e with
  | store e => cases e <;> rfl
  | mem e =>
    cases e with
    | enterStart u => exact absurd rfl he
    | _ => rfl
  | host e => rfl

theorem waking_begin {Q : Except Err Unit → WakePhase → Prop} (hok : Q (.ok ()) .idle)
    (herr : ∀ e, Q (.error e) .idle) (hbusy : Q (.error .alreadyRunning) (.refused u)) :
    waking.Conforms (fun _ _ => True) (beginStartOperationCancelingColdArchive u).run .idle Q := by
  refine conforms_forever (fun l => l = .idle) rfl ?_
  rintro l rfl
  refine conforms_call_bind (fun _ _ => ⟨trivial, ?_⟩) fun e _ => ⟨trivial, herr e⟩
  refine conforms_sect_bind fun answer _ => ⟨trivial, ?_⟩
  cases answer with
  | entered => exact hok
  | busy => exact hbusy
  | archiving a =>
    exact conforms_call_bind (fun _ _ => ⟨trivial, rfl⟩) fun e _ => ⟨trivial, herr e⟩

/-- A start is refused at its begin, or not at all. -/
theorem waking_startVM :
    waking.Conforms (fun _ _ => True) (startVM cfg u).run .idle fun r l =>
      l = .idle ∨ l = .refused u ∧ r = .error .alreadyRunning := by
  refine conforms_run_bind.mpr (waking_begin ?_ (fun _ => Or.inl rfl) (Or.inr ⟨rfl, rfl⟩))
  refine conforms_deferred.mpr (conforms_of_all (fun l => l = .idle)
    uses_startLocked rfl ?_ ?_)
  · rintro β l e b rfl he _
    exact ⟨trivial, wakeNext_idle b he.2⟩
  · rintro r l rfl
    exact fun _ _ => ⟨trivial, Or.inl rfl⟩

theorem waking_routeForName {name : String} {Q : Option (VM × Int) → WakePhase → Prop}
    (hQ : ∀ r, Q r .idle) :
    waking.Conforms (fun _ _ => True) (routeForName name) .idle Q := by
  intro r _
  refine ⟨trivial, ?_⟩
  cases r with
  | ok vm => exact hQ _
  | error _ =>
    intro r _
    refine ⟨trivial, ?_⟩
    cases r with
    | error _ => exact hQ _
    | ok route =>
      intro r _
      refine ⟨trivial, ?_⟩
      cases r with
      | error _ | ok vm => exact hQ _

theorem state_of_proxyAnswer {vm : VM} (h : proxyAnswer vm = vmNotRunning) :
    vm.state ≠ .running := by
  intro hrun
  unfold proxyAnswer vmNotRunning at h
  rw [if_neg (by simp [hrun])] at h
  split at h
  · simp at h
  · cases h

/-- The answer that the VM is not running, and the phases in which a request
gives it. -/
def TurnedAway (r : Response) (l : WakePhase) : Prop :=
  r = vmNotRunning → l = .idle ∨ ∃ state, l = .refreshed state ∧ state ≠ some .running

theorem waking_wakeApproved {vm : VM} :
    waking.Conforms (fun _ _ => True) (wakeApproved cfg vm) .idle TurnedAway := by
  unfold wakeApproved
  split
  · exact fun _ => Or.inl rfl
  · refine (conforms_bind (p := (startVM cfg vm.uuid).run)).mpr
      (conforms_mono ?_ waking_startVM)
    rintro r l (rfl | ⟨rfl, rfl⟩)
    · -- A start that was not refused leaves the request in phase `idle`.
      cases r with
      | ok started => exact fun _ => Or.inl rfl
      | error e =>
        cases e with
        | alreadyRunning =>
          intro r _
          refine ⟨trivial, ?_⟩
          cases r <;> exact fun _ => Or.inl rfl
        | _ => exact fun _ => Or.inl rfl
    · intro r _
      refine ⟨trivial, ?_⟩
      change waking.Conforms _ _ (if vm.uuid = vm.uuid then _ else _) _
      rw [if_pos rfl]
      cases r with
      | ok refreshed =>
        exact fun h => Or.inr ⟨_, rfl, fun hs => state_of_proxyAnswer h (Option.some.inj hs)⟩
      | error e => exact fun _ => Or.inr ⟨none, rfl, nofun⟩

/-- A request says that the VM is not running when no start of its own was
refused, or when its second read found another state. -/
theorem waking_serveApproved {name : String} :
    waking.Conforms (fun _ _ => True) (serveApproved cfg name) .idle TurnedAway := by
  refine conforms_bind.mpr (waking_routeForName fun r => ?_)
  have hidle (r : Response) : TurnedAway r .idle := fun _ => Or.inl rfl
  cases r with
  | none => exact hidle _
  | some found =>
    obtain ⟨vm, port⟩ := found
    dsimp only
    split
    · exact hidle _
    · split
      · exact hidle _
      · split
        · exact waking_wakeApproved
        · exact hidle _

/-- What the programs of the threads promise. -/
def WakePromise (calls : WakeCalls) (t : Tid) (r : Option Response) (l : WakePhase) : Prop :=
  calls.isRequest t = true → ∀ answer, r = some answer → TurnedAway answer l

theorem waking_threads (calls : WakeCalls) (t : Tid) :
    waking.Conforms (fun _ _ => True) (wakeThreads cfg calls t) waking.start
      (WakePromise calls t) := by
  have hother (p : Prog Eff (Option Response)) (ht : calls.isRequest t = false) :
      waking.Conforms (fun _ _ => True) p waking.start (WakePromise calls t) := by
    refine conforms_mono ?_ (conforms_of_ok fun _ _ _ => trivial)
    intro r l _ ht'
    rw [ht] at ht'
    cases ht'
  cases t with
  | exit p => exact hother _ rfl
  | call epoch n =>
    cases hcall : calls epoch n with
    | none => exact hother _ (by simp [WakeCalls.isRequest, hcall])
    | some c =>
      cases c with
      | op op => exact hother _ (by simp [WakeCalls.isRequest, hcall])
      | request name =>
        simp only [wakeThreads, hcall]
        refine conforms_bind.mpr (conforms_mono ?_ waking_serveApproved)
        rintro r l h - _ ⟨⟩
        exact h

end Conforms

/-! ## Runs in which a refused request finds the VM running -/

/-- Whether `StartVM` is refused at its begin. -/
def Mem.refusesStart (m : Mem) (u : Uuid) : Bool :=
  (m.running u).isSome || (m.coldArchives u).isNone && m.vmOps u

/-- The VM that an action begins to start. -/
def Eff.begins : {β : Type} → Eff β → Option Uuid
  | _, .mem (.enterStart u) => some u
  | _, _ => none

/-- The action takes a VM out of the state `running`, if it is in it. -/
def Eff.disturbs (s : Store) (u : Uuid) : {β : Type} → Eff β → Prop
  | _, .store (.insertVM _ _) => s.nextUuid = u
  | _, .store (.setVMState _ v state) => v = u ∧ state ≠ .running
  | _, .store (.deleteVM _ v) => v = u
  | _, _ => False

/-- The condition on an action.  A request does not begin a start while
another call is between the begin of a start and the write of the state
`running`; no call takes a VM out of that state between a refused start and
the second read of the request; and that read does not fail. -/
structure SettledAct (calls : WakeCalls) (s : WakeState) (t : Tid) {β : Type} (e : Eff β)
    (o : Outcome) : Prop where
  begins : calls.isRequest t = true → ∀ u, e.begins = some u →
    s.world.mem.refusesStart u = true → s.world.store.stateOf u = some .running
  undisturbed : ∀ t' u, calls.isRequest t' = true → waking.phases s t' = .refused u →
    ¬ e.disturbs s.world.store u
  reads : calls.isRequest t = true → ∀ u, waking.phases s t = .refused u → o = .ok

/-- Every action of the run meets the condition. -/
def Settled (calls : WakeCalls) (s : WakeState) (l : MLabel) : Prop :=
  s.Next (fun t e o => SettledAct calls s t e o) l

/-- The row of a VM whose start was refused says `running`, and so does what
the request reads. -/
structure FindsRunning (calls : WakeCalls) (w : World) (ph : Tid → WakePhase) : Prop where
  refused : ∀ t u, calls.isRequest t = true → ph t = .refused u →
    w.store.stateOf u = some .running
  refreshed : ∀ t state, calls.isRequest t = true → ph t = .refreshed state →
    state = some .running

section Exec

variable {β : Type} {t : Tid} {w w' : World} {o : Outcome} {b : β} {u : Uuid}

theorem exec_stateOf_running {e : Eff β} (h : exec t w e o = some (b, w'))
    (hrun : w.store.stateOf u = some .running) (he : ¬ e.disturbs w.store u) :
    w'.store.stateOf u = some .running := by
  cases e with
  | mem e =>
    obtain ⟨m, -, rfl⟩ := exec_mem h
    exact hrun
  | host e =>
    obtain ⟨hst, -, rfl⟩ := exec_host h
    exact hrun
  | store e =>
    obtain ⟨st, hst, rfl⟩ := exec_store h
    obtain ⟨r, hr, hstate⟩ := Option.map_eq_some_iff.mp hrun
    rcases execStore_cases hst with rfl | hwrites
    · exact hrun
    · cases hwrites with
      | insertVM =>
        have hne : u ≠ w.store.nextUuid := fun hu => he hu.symm
        simpa [Store.stateOf, hne] using hrun
      | @deleteVM _ v =>
        have hne : u ≠ v := fun hu => he hu.symm
        simpa [Store.stateOf, hne] using hrun
      | @setVMState _ v state r' hv =>
        by_cases hu : u = v
        · by_cases hs : state = .running
          · simp [Store.stateOf, hu, hs, VMRow.withState]
          · exact absurd ⟨hu.symm, hs⟩ he
        · simpa [Store.stateOf, hu] using hrun
      | @setVMArchivedDiskPath _ v _ r' hv | @updateSettings _ v _ r' hv =>
        by_cases hu : u = v
        · obtain rfl := Option.some.inj (hr.symm.trans (hu ▸ hv))
          simp [Store.stateOf, hu, hstate, VMRow.withSettings]
        · simpa [Store.stateOf, hu] using hrun
      | _ => exact hrun

theorem refusesStart_of_busy {m : Mem}
    (h : execMem w t o (.enterStart u) = some (.busy, m)) : w.mem.refusesStart u = true := by
  unfold Mem.refusesStart
  cases hrun : w.mem.running u with
  | some proc => rfl
  | none =>
    cases harch : w.mem.coldArchives u with
    | some a => cases o <;> simp [execMem, Mem.enter, hrun, harch] at h
    | none =>
      cases hops : w.mem.vmOps u with
      | true => rfl
      | false => cases o <;> simp [execMem, Mem.enter, hrun, harch, hops] at h

/-- The second read of a request, when it does not fail. -/
theorem getVM_of_running {c : Ctx} {r : Except Err VM} {st : Store}
    (h : execStore w t .ok (.getVM c u) = some (r, st))
    (hrun : w.store.stateOf u = some .running) :
    r.toOption.map (·.state) = some .running := by
  obtain ⟨row, hrow, hstate⟩ := Option.map_eq_some_iff.mp hrun
  simp only [execStore, reply, Store.getVM, hrow] at h
  split at h
  · cases h
  · cases h
    simp [Except.toOption, hstate]

end Exec

section Reach

variable {cfg : Config} {calls : WakeCalls} {w : World} {s : WakeState}

/-- An action that meets the condition keeps the invariant. -/
theorem FindsRunning.act {t : Tid} {o : Outcome} {β : Type} {e : Eff β} {b : β} {w' : World}
    (hI : FindsRunning calls s.world (waking.phases s)) (hk : SettledAct calls s t e o)
    (he : exec t s.world e o = some (b, w')) :
    FindsRunning calls w' (Function.update (waking.phases s) t
      (wakeNext (waking.phases s t) e b)) := by
  have hkept : ∀ t' u, calls.isRequest t' = true → waking.phases s t' = .refused u →
      w'.store.stateOf u = some .running := fun t' u ht' hph =>
    exec_stateOf_running he (hI.refused t' u ht' hph) (hk.undisturbed t' u ht' hph)
  -- The phase of the thread that moves.
  have hself : calls.isRequest t = true →
      (∀ u, wakeNext (waking.phases s t) e b = .refused u →
        w'.store.stateOf u = some .running) ∧
      ∀ state, wakeNext (waking.phases s t) e b = .refreshed state → state = some .running := by
    intro ht
    have hsame : wakeNext (waking.phases s t) e b = waking.phases s t →
        (∀ u, wakeNext (waking.phases s t) e b = .refused u →
          w'.store.stateOf u = some .running) ∧
        ∀ state, wakeNext (waking.phases s t) e b = .refreshed state →
          state = some .running := by
      intro heq
      rw [heq]
      exact ⟨fun u => hkept t u ht, fun state => hI.refreshed t state ht⟩
    cases e with
    | host e => exact hsame rfl
    | mem e =>
      cases e with
      | enterStart u =>
        by_cases hb : b = .busy
        · subst hb
          obtain ⟨m, hm, rfl⟩ := exec_mem he
          refine ⟨fun v hv => ?_, nofun⟩
          obtain rfl : u = v := WakePhase.refused.inj hv
          exact hk.begins ht u rfl (refusesStart_of_busy hm)
        · exact hsame (if_neg hb)
      | _ => exact hsame rfl
    | store e =>
      cases e with
      | getVM c v =>
        cases hph : waking.phases s t with
        | refused u =>
          by_cases hv : v = u
          · subst hv
            obtain rfl := hk.reads ht v hph
            obtain ⟨st, hst, rfl⟩ := exec_store he
            simp only [wakeNext, wakeNextStore, if_true]
            refine ⟨nofun, fun state hstate => ?_⟩
            rw [← WakePhase.refreshed.inj hstate]
            exact getVM_of_running hst (hI.refused t v ht hph)
          · rw [hph] at hsame
            exact hsame (if_neg hv)
        | idle => exact ⟨nofun, nofun⟩
        | refreshed state =>
          rw [hph] at hsame
          exact hsame rfl
      | _ => exact hsame rfl
  refine ⟨fun t' u ht' hph => ?_, fun t' state ht' hph => ?_⟩
  · by_cases htt : t' = t
    · subst htt
      rw [Function.update_self] at hph
      exact (hself ht').1 u hph
    · rw [Function.update_of_ne htt] at hph
      exact hkept t' u ht' hph
  · by_cases htt : t' = t
    · subst htt
      rw [Function.update_self] at hph
      exact (hself ht').2 state hph
    · rw [Function.update_of_ne htt] at hph
      exact hI.refreshed t' state ht' hph

/-- In a run that meets the condition, a request whose start was refused finds
the VM running. -/
theorem findsRunning_reach (h : system.Reach (Settled calls) (startWaking cfg calls w) s) :
    FindsRunning calls s.world (waking.phases s) := by
  refine Monitor.invariant (M := waking) (A := fun _ _ => True) (Q := WakePromise calls)
    (I := FindsRunning calls) (fun _ _ _ _ _ _ _ _ => trivial) (waking_threads calls)
    ⟨nofun, nofun⟩ ?_ ?_ h
  · intro s t o β e k b w' _ hI hk hp he _ _
    exact hI.act (hk.act hp) he
  · intro s v w' _ hI _ hv
    exact ⟨fun t u ht hph => by rw [execEnv_store hv]; exact hI.refused t u ht hph, hI.refreshed⟩

/-- In every run that meets the condition, no request whose `StartVM` was
answered with `ErrAlreadyRunning` is told that the VM is not running. -/
theorem refused_request_not_turned_away (cfg : Config) (calls : WakeCalls) (w : World)
    {s : WakeState} (h : system.Reach (Settled calls) (startWaking cfg calls w) s) {t : Tid}
    (ht : calls.isRequest t = true) (hrefused : wasRefused (s.hist t) = true) :
    ¬ s.Finished t (some vmNotRunning) := by
  intro hfin
  have hpromise := finished_reach (M := waking) (A := fun _ _ => True)
    (fun _ _ _ _ _ _ _ _ => trivial) (waking_threads calls t) h hfin
  rcases hpromise ht vmNotRunning rfl rfl with hidle | ⟨state, hph, hstate⟩
  · rw [wasRefused_of_idle hidle] at hrefused
    cases hrefused
  · exact hstate ((findsRunning_reach h).refreshed t state ht hph)

end Reach

/-! ## Two requests -/

/-- Two requests for the VM. -/
def WakeCalls.twoRequests : WakeCalls := fun epoch n =>
  if epoch = 0 ∧ n < 2 then some (.request "a") else none

/-- A VM that is published and sleeps. -/
def World.sleepingVM : World :=
  .sample [{ VMRow.sample "a" 3 with state := .sleeping, publicHTTP := true }]
    [(Config.sample.diskPath "a", .image .base), (Config.sample.sleepStatePath "a", .vmstate),
      (Config.sample.sleepMemPath "a", .memory ⟨Config.sample.diskPath "a", 0⟩)]

/-- What the first request does after the begin of its start. -/
def restOfWake : List MLabel := steps (.call 0 0) 17 ++ .env (.bind 0) :: steps (.call 0 0) 5

/-- The first request wakes the VM, and the start of the second one is
refused. -/
def wokenAndRefused (answer : Response) (s : WakeState) : Bool :=
  decide ((s.prog (.call 0 0)).result = some (some .proxied)) &&
    !wasRefused (s.hist (.call 0 0)) && wasRefused (s.hist (.call 0 1)) &&
    decide ((s.prog (.call 0 1)).result = some (some answer))

theorem wokenAndRefused_iff {answer : Response} {s : WakeState} :
    wokenAndRefused answer s = true ↔
      s.Finished (.call 0 0) (some .proxied) ∧ wasRefused (s.hist (.call 0 0)) = false ∧
        wasRefused (s.hist (.call 0 1)) = true ∧ s.Finished (.call 0 1) (some answer) := by
  simp [wokenAndRefused, State.Finished, and_assoc]

/-- A test for `Settled`: what is written as a state is `running`, and no VM
is made or deleted. -/
def settlesAct (s : WakeState) : {β : Type} → Eff β → Bool
  | _, .mem (.enterStart u) =>
      !s.world.mem.refusesStart u || decide (s.world.store.stateOf u = some .running)
  | _, .store (.insertVM _ _) => false
  | _, .store (.deleteVM _ _) => false
  | _, .store (.setVMState _ _ state) => decide (state = .running)
  | _, _ => true

/-- The same, where no call fails. -/
def settles (s : WakeState) (l : MLabel) : Bool :=
  s.next (fun _ e o =>
    match o with
    | .ok => settlesAct s e
    | _ => false) l

theorem settled_of_settles (calls : WakeCalls) {s : WakeState} {l : MLabel}
    (h : settles s l = true) : Settled calls s l := by
  cases l with
  | env v => trivial
  | thread t o =>
    refine State.Next.of_act fun β e k hp => ?_
    have hact := State.next_act h hp
    cases o with
    | ok =>
      refine ⟨fun _ u hu hrefuses => ?_, fun t' u _ _ hd => ?_, fun _ _ _ => rfl⟩
      · unfold Eff.begins at hu
        split at hu
        · cases hu
          simpa [settlesAct, hrefuses] using hact
        · cases hu
      · unfold Eff.disturbs at hd
        split at hd
        · cases hact
        · exact hd.2 (of_decide_eq_true hact)
        · cases hact
        · exact hd
    | _ => cases hact

/-- The second request has found the VM sleeping, and its start is refused
after the first one has come to its end. -/
theorem refused_request_proxied :
    ∃ s, system.Reach (Settled .twoRequests) (startWaking .sample .twoRequests .sleepingVM) s ∧
      wasRefused (s.hist (.call 0 1)) = true ∧ s.Finished (.call 0 1) (some .proxied) ∧
      ¬ s.Finished (.call 0 1) (some vmNotRunning) := by
  obtain ⟨s, hs, hP⟩ := system.exists_reach_of_run
    (k := settles) (s := startWaking .sample .twoRequests .sleepingVM)
    (l := steps (.call 0 1) 1 ++ steps (.call 0 0) 4 ++ restOfWake ++ steps (.call 0 1) 4)
    (P := wokenAndRefused .proxied) (by decide) (by decide)
  obtain ⟨-, -, hrefused, hfin⟩ := wokenAndRefused_iff.mp hP
  have hreach := hs.mono fun _ _ h => settled_of_settles .twoRequests h
  exact ⟨s, hreach, hrefused, hfin,
    refused_request_not_turned_away _ _ _ hreach (by decide) hrefused⟩

/-- The start of the second request is refused while the first one is waking
the VM.  The second request reads the VM again, finds it still sleeping and
turns its client away; the start then succeeds. -/
theorem turned_away_while_starting :
    ∃ s, system.Reach (fun _ _ => True) (startWaking .sample .twoRequests .sleepingVM) s ∧
      s.Finished (.call 0 0) (some .proxied) ∧ wasRefused (s.hist (.call 0 0)) = false ∧
      wasRefused (s.hist (.call 0 1)) = true ∧ s.Finished (.call 0 1) (some vmNotRunning) := by
  obtain ⟨s, hs, hP⟩ := system.exists_reach
    (s := startWaking .sample .twoRequests .sleepingVM)
    (l := steps (.call 0 0) 4 ++ steps (.call 0 1) 5 ++ restOfWake)
    (P := wokenAndRefused vmNotRunning) (by decide +kernel)
  exact ⟨s, hs, wokenAndRefused_iff.mp hP⟩

end Firedoze
