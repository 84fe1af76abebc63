import Firedoze.Broker.Lock

/-!
# The lock of the broker and the phases of the processes

`Excl` relates the lock directory to the phases of the processes that are
alive: a process that owns the lock is its maker, and a process that checks
the lock has seen of it what is still true of its owner.  `Excl.act` says that
every action keeps the invariant, as long as no process makes the lock or
writes its pid while another one checks or removes it (`orderlyAct`).  There
is one lemma for each kind of action: `mkdir`, `write`, `look`, `removePid`,
`removeLock` and `serves`.
-/

namespace Firedoze

open Conc Conc.Prog Text Function

variable {T : Type} {P : Processes T}

/-! ## The condition on the runs -/

/-- No process that is alive checks the lock or removes a stale one. -/
def NoCheck (w : BrokerWorld T) (ph : T → BrokerPhase) : Prop :=
  ∀ u, w.alive u = true → (ph u).checks = false

/-- The condition on one action. -/
def orderlyAct (w : BrokerWorld T) (ph : T → BrokerPhase) :
    {β : Type} → T → BrokerEff β → BrokerOutcome → Prop
  | _, _, .mkdirLock, _ => w.lock = none → NoCheck w ph
  | _, _, .writePid, _ => NoCheck w ph
  | _, _, .readPid, o => o = .ok
  | _, _, .statLock, o => o = .ok
  | _, t, .now, _ => ∀ modTime, ph t = .statted modTime → ∀ u,
      w.alive u = true → (ph u).unnamed = true → w.clock ≤ modTime + 2000000000
  | _, _, _, _ => True

/-- The condition on the steps.  No process makes the lock or writes its pid
while another one checks the lock or removes a stale one; the files of the
lock can be read; and when a check goes by the age of the lock, a process that
is alive has had the lock without its pid in it for at most two seconds. -/
def Orderly (P : Processes T) (s : BrokerState T) :
    Label T BrokerOutcome (BrokerEvent T) → Prop :=
  s.Next (orderlyAct s.world ((locking P).phases s))

/-! ## The invariant -/

/-- The lock is the process's own, and holds its pid or none. -/
structure OwnLock (P : Processes T) (lock : Option (LockDir T)) (t : T) (l : BrokerPhase) :
    Prop where
  exists_lock : ∃ L, lock = some L ∧ L.maker = some t ∧
    (l.unnamed = false → L.pid = some (pidFile (P.pid t))) ∧
    (l.unnamed = true → ∀ text, L.pid = some text → text = [])

/-- What a process in phase `l` has seen is true of an owner with the given
pid in phase `l'`. -/
def SeesRight (pid : Int64) (l' : BrokerPhase) : BrokerPhase → Prop
  | .read p => p = pid
  | .unread => l'.unnamed = true
  | .statted _ => l'.unnamed = true
  | .removing own _ => own = true
  | _ => True

/-- The lock and the phases fit together. -/
structure Excl (P : Processes T) (w : BrokerWorld T) (ph : T → BrokerPhase) : Prop where
  own : ∀ t, w.alive t = true → (ph t).owns = true → OwnLock P w.lock t (ph t)
  sees : ∀ u t, w.alive u = true → w.alive t = true → (ph t).owns = true →
    SeesRight (P.pid t) (ph t) (ph u)
  client : ∀ t, w.client t = (ph t).client
  listening : ∀ t, w.listening t = (ph t).listening

theorem OwnLock.maker_eq {L : LockDir T} {t : T} {l : BrokerPhase} (h : OwnLock P (some L) t l) :
    L.maker = some t := by
  obtain ⟨L', hL, hmaker, -⟩ := h.exists_lock
  cases hL
  exact hmaker

theorem seesRight_of_not_checks {pid : Int64} {l l' : BrokerPhase} (h : l.checks = false) :
    SeesRight pid l' l := by
  cases l with
  | unread | read p | statted m => cases h
  | removing own tried =>
    change own = true
    simpa [BrokerPhase.checks] using h
  | _ => trivial

theorem SeesRight.congr {pid : Int64} {l l' l'' : BrokerPhase} (h : SeesRight pid l' l)
    (hname : l''.unnamed = l'.unnamed) : SeesRight pid l'' l := by
  cases l with
  | unread | statted m => exact hname.trans h
  | read p | removing own tried => exact h
  | _ => trivial

theorem BrokerPhase.checks_of_owns {l : BrokerPhase} (h : l.owns = true) : l.checks = false := by
  cases l with
  | removing own tried =>
    obtain rfl : own = true := h
    rfl
  | made | holding c l | released r => rfl
  | _ => cases h

theorem BrokerPhase.owns_of_holds {l : BrokerPhase} (h : l.holds = true) : l.owns = true := by
  cases l with
  | holding c li | released r => rfl
  | _ => cases h

theorem BrokerPhase.owns_of_client {l : BrokerPhase} (h : l.client = true) : l.owns = true := by
  cases l with
  | holding c li => rfl
  | _ => cases h

theorem BrokerPhase.owns_of_listening {l : BrokerPhase} (h : l.listening = true) :
    l.owns = true := by
  cases l with
  | holding c li => rfl
  | _ => cases h

namespace Excl

variable {w w' : BrokerWorld T} {ph : T → BrokerPhase} {t : T} {l : BrokerPhase}

theorem congr (h : Excl P w ph) (hlock : w'.lock = w.lock) (halive : w'.alive = w.alive)
    (hclient : w'.client = w.client) (hlistening : w'.listening = w.listening) : Excl P w' ph := by
  constructor
  · rw [hlock, halive]
    exact h.own
  · rw [halive]
    exact h.sees
  · rw [hclient]
    exact h.client
  · rw [hlistening]
    exact h.listening

/-- A process that owns the lock is the only one that does. -/
theorem eq_of_owns (h : Excl P w ph) {u : T} (ht : w.alive t = true) (hu : w.alive u = true)
    (hl : (ph t).owns = true) (hl' : (ph u).owns = true) : t = u := by
  obtain ⟨L, hL, hmaker, -⟩ := (h.own t ht hl).exists_lock
  have hown := h.own u hu hl'
  rw [hL] at hown
  exact Option.some.inj (hmaker.symm.trans hown.maker_eq)

variable [DecidableEq T]

theorem client_keep (h : Excl P w ph) (hc : l.client = (ph t).client) :
    w.client = update w.client t l.client := by
  rw [hc, ← h.client t, update_eq_self]

theorem listening_keep (h : Excl P w ph) (hli : l.listening = (ph t).listening) :
    w.listening = update w.listening t l.listening := by
  rw [hli, ← h.listening t, update_eq_self]

/-- A step of a process that is alive to the phase `l`. -/
theorem step (h : Excl P w ph) (halive : w'.alive = w.alive)
    (hown : l.owns = true → OwnLock P w'.lock t l)
    (hothers : ∀ u, u ≠ t → w.alive u = true → (ph u).owns = true → OwnLock P w'.lock u (ph u))
    (hsees : ∀ u, u ≠ t → w.alive u = true → (ph u).owns = true → SeesRight (P.pid u) (ph u) l)
    (hseen : l.owns = true → ∀ u, u ≠ t → w.alive u = true → SeesRight (P.pid t) l (ph u))
    (hclient : w'.client = update w.client t l.client)
    (hlistening : w'.listening = update w.listening t l.listening) :
    Excl P w' (update ph t l) := by
  constructor
  · intro u hu hl
    rw [halive] at hu
    by_cases hut : u = t
    · subst hut
      rw [update_self] at hl ⊢
      exact hown hl
    · rw [update_of_ne hut] at hl ⊢
      exact hothers u hut hu hl
  · intro u v hu hv hl
    rw [halive] at hu hv
    by_cases hvt : v = t
    · subst hvt
      rw [update_self] at hl ⊢
      by_cases hut : u = v
      · subst hut
        rw [update_self]
        exact seesRight_of_not_checks (BrokerPhase.checks_of_owns hl)
      · rw [update_of_ne hut]
        exact hseen hl u hut hu
    · rw [update_of_ne hvt] at hl ⊢
      by_cases hut : u = t
      · subst hut
        rw [update_self]
        exact hsees v hvt hv hl
      · rw [update_of_ne hut]
        exact h.sees u v hu hv hl
  · intro u
    rw [hclient]
    by_cases hut : u = t
    · subst hut
      simp
    · simp [hut, h.client u]
  · intro u
    rw [hlistening]
    by_cases hut : u = t
    · subst hut
      simp
    · simp [hut, h.listening u]

/-- A step to a phase in which the process does not own the lock; the lock
stays as it is. -/
theorem leave (h : Excl P w ph) (hl : l.owns = false)
    (hsees : ∀ u, w.alive u = true → (ph u).owns = true → SeesRight (P.pid u) (ph u) l)
    (hclient : l.client = (ph t).client) (hlistening : l.listening = (ph t).listening) :
    Excl P w (update ph t l) :=
  h.step rfl (fun h => by rw [hl] at h; cases h) (fun u _ => h.own u) (fun u _ => hsees u)
    (fun h => by rw [hl] at h; cases h) (h.client_keep hclient) (h.listening_keep hlistening)

/-- A step of the owner that changes the lock. -/
theorem stepOwner (h : Excl P w ph) (halive : w'.alive = w.alive) (ht : w.alive t = true)
    (howner : (ph t).owns = true) (hown : l.owns = true → OwnLock P w'.lock t l)
    (hnocheck : l.checks = false)
    (hseen : l.owns = true → ∀ u, u ≠ t → w.alive u = true → SeesRight (P.pid t) l (ph u))
    (hclient : w'.client = update w.client t l.client)
    (hlistening : w'.listening = update w.listening t l.listening) :
    Excl P w' (update ph t l) := by
  refine h.step halive hown (fun u hu hau hl => ?_)
    (fun _ _ _ _ => seesRight_of_not_checks hnocheck) hseen hclient hlistening
  exact absurd (h.eq_of_owns hau ht hl howner) hu

/-- The removal of a stale lock hits nobody who is alive. -/
theorem stepRemover (h : Excl P w ph) {tried : Bool} (ht : w.alive t = true)
    (hl : ph t = .removing false tried) (halive : w'.alive = w.alive)
    (hl' : l = .idle ∨ ∃ tried, l = .removing false tried)
    (hclient : w'.client = w.client) (hlistening : w'.listening = w.listening) :
    Excl P w' (update ph t l) := by
  have hnobody : ∀ u, w.alive u = true → (ph u).owns = true → False := by
    intro u hu howns
    have hsees := h.sees t u ht hu howns
    rw [hl] at hsees
    cases hsees
  have hprofile : l.owns = false ∧ l.client = (ph t).client ∧ l.listening = (ph t).listening := by
    rw [hl]
    rcases hl' with rfl | ⟨tried, rfl⟩ <;> exact ⟨rfl, rfl, rfl⟩
  obtain ⟨howns, hc, hli⟩ := hprofile
  exact h.step halive (fun h => by rw [howns] at h; cases h)
    (fun u _ hu hl => (hnobody u hu hl).elim) (fun u _ hu hl => (hnobody u hu hl).elim)
    (fun h => by rw [howns] at h; cases h) (hclient.trans (h.client_keep hc))
    (hlistening.trans (h.listening_keep hli))

/-- A process starts. -/
theorem start (h : Excl P w ph) (hl : ph t = .idle) :
    Excl P { w with alive := update w.alive t true } ph := by
  have halive : ∀ u, ph u ≠ .idle → update w.alive t true u = true →
      w.alive u = true := by
    intro u hne hu
    rwa [update_of_ne (fun hut => hne (by rw [hut, hl]))] at hu
  have hne : ∀ {l : BrokerPhase}, l.owns = true → l ≠ .idle := by
    rintro l howns rfl
    cases howns
  refine ⟨fun u hu howns => h.own u (halive u (hne howns) hu) howns, ?_, h.client, h.listening⟩
  intro u v hu hv howns
  by_cases hidle : ph u = .idle
  · rw [hidle]
    trivial
  · exact h.sees u v (halive u hidle hu) (halive v (hne howns) hv) howns

/-- A process dies. -/
theorem die (h : Excl P w ph) :
    Excl P { w with alive := update w.alive t false } ph := by
  have halive : ∀ u, update w.alive t false u = true → w.alive u = true := by
    intro u hu
    by_cases hut : u = t
    · subst hut
      simp at hu
    · rwa [update_of_ne hut] at hu
  exact ⟨fun u hu => h.own u (halive u hu), fun u v hu hv => h.sees u v (halive u hu) (halive v hv),
    h.client, h.listening⟩

/-- A process makes the lock directory. -/
theorem mkdirLock (h : Excl P w ph) (hl : ph t = .idle) (hlock : w.lock = none)
    (hcheck : NoCheck w ph) :
    Excl P { w with lock := some ⟨some t, none, w.clock⟩ } (update ph t .made) := by
  have hnobody : ∀ u, w.alive u = true → (ph u).owns = true → False := by
    intro u hu howns
    obtain ⟨L, hL, -⟩ := (h.own u hu howns).exists_lock
    rw [hlock] at hL
    cases hL
  exact h.step rfl (fun _ => ⟨⟨_, rfl, rfl, nofun, fun _ => nofun⟩⟩)
    (fun u _ hu hl => (hnobody u hu hl).elim) (fun _ _ _ _ => trivial)
    (fun _ u _ hu => seesRight_of_not_checks (hcheck u hu)) (h.client_keep (by rw [hl]; rfl))
    (h.listening_keep (by rw [hl]; rfl))

/-- The maker of the lock writes its pid, or fails to. -/
theorem writePid (h : Excl P w ph) (ht : w.alive t = true) (hl : ph t = .made)
    (hcheck : NoCheck w ph) {L : LockDir T} (hlock : w.lock = some L) {text : Bytes}
    (hl' : l = .holding false false ∧ text = pidFile (P.pid t) ∨
      l = .removing true false ∧ text = []) :
    Excl P { w with lock := some (L.write text w.clock) } (update ph t l) := by
  have hown := h.own t ht (by rw [hl]; rfl)
  rw [hlock] at hown
  have hmaker := hown.maker_eq
  have hprofile : l.client = (ph t).client ∧ l.listening = (ph t).listening ∧ l.checks = false := by
    rw [hl]
    rcases hl' with ⟨rfl, -⟩ | ⟨rfl, -⟩ <;> exact ⟨rfl, rfl, rfl⟩
  obtain ⟨hc, hli, hno⟩ := hprofile
  refine h.stepOwner rfl ht (by rw [hl]; rfl) (fun _ => ⟨⟨_, rfl, hmaker, ?_, ?_⟩⟩) hno
    (fun _ u _ hu => seesRight_of_not_checks (hcheck u hu)) (h.client_keep hc)
    (h.listening_keep hli)
  · rcases hl' with ⟨rfl, rfl⟩ | ⟨rfl, rfl⟩
    · exact fun _ => rfl
    · exact nofun
  · rcases hl' with ⟨rfl, rfl⟩ | ⟨rfl, rfl⟩
    · exact nofun
    · exact fun _ text htext => (Option.some.inj htext).symm

/-- What a read of the pid file tells about the owner. -/
theorem readPid (h : Excl P w ph) (hl : ph t = .idle) {r : Except Err Bytes}
    (hr : ∀ L, w.lock = some L → ∀ text, L.pid = some text → r = .ok text)
    (hnone : (∀ L, w.lock = some L → L.pid = none) → ∃ e, r = .error e) :
    Excl P w (update ph t (lockNext P .idle .readPid r)) := by
  -- An owner whose pid is in the file is found by its pid.
  have howner : ∀ u, w.alive u = true → (ph u).owns = true →
      (ph u).unnamed = true ∧ (∀ text, r = .ok text → text = []) ∨
        r = .ok (pidFile (P.pid u)) := by
    intro u hu howns
    obtain ⟨L, hL, -, hnamed, hunnamed⟩ := (h.own u hu howns).exists_lock
    cases hname : (ph u).unnamed with
    | false => exact .inr (hr L hL _ (hnamed hname))
    | true =>
      refine .inl ⟨rfl, fun text htext => ?_⟩
      cases hpid : L.pid with
      | none =>
        obtain ⟨e, rfl⟩ := hnone fun L' hL' => by rwa [Option.some.inj (hL'.symm.trans hL)]
        cases htext
      | some text' =>
        obtain rfl : text' = text := Except.ok.inj ((hr L hL _ hpid).symm.trans htext)
        exact hunnamed hname _ hpid
  have hkeep {l : BrokerPhase} (hc : l.owns = false) (hclient : l.client = false)
      (hlistening : l.listening = false)
      (hsees : ∀ u, w.alive u = true → (ph u).owns = true → SeesRight (P.pid u) (ph u) l) :
      Excl P w (update ph t l) :=
    h.leave hc hsees (by rw [hl, hclient]; rfl) (by rw [hl, hlistening]; rfl)
  cases r with
  | error e =>
    refine hkeep rfl rfl rfl fun u hu howns => ?_
    rcases howner u hu howns with ⟨hname, -⟩ | hread
    · exact hname
    · cases hread
  | ok text =>
    cases hatoi : P.atoi text with
    | none =>
      simp only [lockNext, hatoi]
      refine hkeep rfl rfl rfl fun u hu howns => ?_
      rcases howner u hu howns with ⟨hname, -⟩ | hread
      · exact hname
      · rw [Except.ok.inj hread, P.atoi_pidFile] at hatoi
        cases hatoi
    | some pid =>
      have hpid : ∀ u, w.alive u = true → (ph u).owns = true → pid = P.pid u := by
        intro u hu howns
        rcases howner u hu howns with ⟨-, hempty⟩ | hread
        · rw [hempty text rfl, P.atoi_nil] at hatoi
          cases hatoi
        · rw [Except.ok.inj hread, P.atoi_pidFile] at hatoi
          exact (Option.some.inj hatoi).symm
      simp only [lockNext, hatoi]
      split
      · rename_i hle
        refine hkeep rfl rfl rfl fun u hu howns => ?_
        rw [hpid u hu howns] at hle
        exact absurd (P.pid_pos u) (Int64.not_lt.mpr hle)
      · exact hkeep rfl rfl rfl hpid

/-- The owner removes the pid from its lock. -/
theorem removeOwnPid (h : Excl P w ph) (ht : w.alive t = true) {L : LockDir T}
    (hlock : w.lock = some L)
    (hl : (ph t = .removing true true ∧ l = .removing true true) ∨
      (ph t = .holding false false ∧ l = .released true)) :
    Excl P { w with lock := some { L with pid := none, modTime := w.clock } }
      (update ph t l) := by
  have hprofile : (ph t).owns = true ∧ l.unnamed = true ∧ l.checks = false ∧
      l.client = (ph t).client ∧ l.listening = (ph t).listening := by
    rcases hl with ⟨hl, rfl⟩ | ⟨hl, rfl⟩ <;> rw [hl] <;> exact ⟨rfl, rfl, rfl, rfl, rfl⟩
  obtain ⟨howns, hname, hno, hc, hli⟩ := hprofile
  have hown := h.own t ht howns
  rw [hlock] at hown
  refine h.stepOwner rfl ht howns (fun _ => ⟨⟨_, rfl, hown.maker_eq, ?_, fun _ => nofun⟩⟩) hno
    ?_ (h.client_keep hc) (h.listening_keep hli)
  · exact fun h => by rw [hname] at h; cases h
  · -- Who has seen no pid, sees none now; who has seen the pid, has seen the right one.
    intro _ u _ hu
    have hsees := h.sees u t hu ht howns
    cases hlu : ph u with
    | unread | statted m => exact hname
    | read p | removing own tried =>
      rw [hlu] at hsees
      exact hsees
    | _ => trivial

/-- The owner removes the directory, or gives up. -/
theorem removeOwnLock (h : Excl P w ph) (ht : w.alive t = true)
    (hl : (∃ tried, ph t = .removing true tried) ∨ ∃ removed, ph t = .released removed)
    (halive : w'.alive = w.alive) (hclient : w'.client = w.client)
    (hlistening : w'.listening = w.listening) :
    Excl P w' (update ph t .idle) := by
  have hprofile : (ph t).owns = true ∧ (ph t).client = false ∧ (ph t).listening = false := by
    rcases hl with ⟨tried, hl⟩ | ⟨removed, hl⟩ <;> rw [hl] <;> exact ⟨rfl, rfl, rfl⟩
  obtain ⟨howns, hc, hli⟩ := hprofile
  exact h.stepOwner halive ht howns nofun rfl nofun
    (hclient.trans (h.client_keep (by rw [hc]; rfl)))
    (hlistening.trans (h.listening_keep (by rw [hli]; rfl)))

/-- A step of the owner to a phase that means the same for the others. -/
theorem stayOwner (h : Excl P w ph) {l : BrokerPhase} (ht : w.alive t = true)
    (howns : (ph t).owns = true) (howns' : l.owns = true) (hname : l.unnamed = (ph t).unnamed)
    (hclient : l.client = (ph t).client) (hlistening : l.listening = (ph t).listening) :
    Excl P w (update ph t l) := by
  refine h.stepOwner rfl ht howns (fun _ => ?_) (BrokerPhase.checks_of_owns howns')
    (fun _ u _ hu => ?_) (h.client_keep hclient) (h.listening_keep hlistening)
  · obtain ⟨L, hL, hmaker, hnamed, hunnamed⟩ := (h.own t ht howns).exists_lock
    exact ⟨⟨L, hL, hmaker, by rwa [hname], by rwa [hname]⟩⟩
  · exact (h.sees u t hu ht howns).congr hname

/-- A holder opens or closes its client or its listener. -/
theorem serve (h : Excl P w ph) (ht : w.alive t = true) {c li c' li' : Bool}
    (hl : ph t = .holding c li) (halive : w'.alive = w.alive) (hlock : w'.lock = w.lock)
    (hclient : w'.client = update w.client t c')
    (hlistening : w'.listening = update w.listening t li') :
    Excl P w' (update ph t (.holding c' li')) := by
  have howns : (ph t).owns = true := by rw [hl]; rfl
  refine h.stepOwner halive ht howns (fun _ => ?_) rfl (fun _ u _ hu => ?_) hclient hlistening
  · rw [hlock]
    have hown := h.own t ht howns
    rw [hl] at hown
    exact ⟨hown.exists_lock⟩
  · exact (h.sees u t hu ht howns).congr (by rw [hl]; rfl)

end Excl

/-! ## Actions -/

/-- The actions that leave the lock and the phases alone. -/
def BrokerEff.quiet : {β : Type} → BrokerEff β → Bool
  | _, .ensureSocketDir => true
  | _, .ping => true
  | _, .sleep => true
  | _, .removeSocket => true
  | _, .chmodSocket => true
  | _, .accept => true
  | _, _ => false

/-- The actions that only look. -/
def BrokerEff.looks : {β : Type} → BrokerEff β → Bool
  | _, .now => true
  | _, .readPid => true
  | _, .kill _ => true
  | _, .statLock => true
  | _, .readLockDir => true
  | _, _ => false

/-- The actions on the client and the listener. -/
def BrokerEff.serves : {β : Type} → BrokerEff β → Bool
  | _, .newClient => true
  | _, .closeClient => true
  | _, .listen => true
  | _, .closeListener => true
  | _, _ => false

/-- The first action of a process. -/
def BrokerEff.isStart : {β : Type} → BrokerEff β → Bool
  | _, .start => true
  | _, _ => false

section Actions

variable [DecidableEq T] [Fintype T] {t : T} {w w' : BrokerWorld T} {β : Type} {e : BrokerEff β}
  {o : BrokerOutcome} {b : β}

attribute [local simp] execAlive

theorem execAlive_quiet (hq : e.quiet = true) (he : execAlive P t w e o = some (b, w')) :
    w'.lock = w.lock ∧ w'.alive = w.alive ∧ w'.client = w.client ∧ w'.listening = w.listening := by
  cases e with
  | ensureSocketDir | sleep | chmodSocket | accept =>
    cases o <;> obtain ⟨-, rfl⟩ := Prod.mk.inj (Option.some.inj he) <;> simp
  | ping =>
    cases o with
    | ok =>
      simp only [execAlive] at he
      split at he
      · split at he
        · cases he
          simp
        · cases he
      · cases he
    | _ =>
      cases he
      simp
  | removeSocket =>
    cases o with
    | ok =>
      simp only [execAlive] at he
      split at he <;> obtain ⟨-, rfl⟩ := Prod.mk.inj (Option.some.inj he) <;> simp
    | _ =>
      cases he
      simp
  | _ => cases hq

theorem execAlive_looks (hq : e.looks = true) (he : execAlive P t w e o = some (b, w')) :
    w' = w := by
  cases e with
  | now => exact (Prod.mk.inj (Option.some.inj he)).2.symm
  | readPid | statLock =>
    cases o with
    | ok =>
      simp only [execAlive] at he
      split at he <;> exact (Prod.mk.inj (Option.some.inj he)).2.symm
    | _ => exact (Prod.mk.inj (Option.some.inj he)).2.symm
  | kill pid =>
    cases o with
    | ok => exact (Prod.mk.inj (Option.some.inj he)).2.symm
    | _ =>
      simp only [execAlive] at he
      split at he
      · exact (Prod.mk.inj (Option.some.inj he)).2.symm
      · cases he
  | readLockDir => cases o <;> exact (Prod.mk.inj (Option.some.inj he)).2.symm
  | _ => cases hq

omit [DecidableEq T] [Fintype T] in
theorem lockNext_quiet {l : BrokerPhase} (hq : e.quiet = true) : lockNext P l e b = l := by
  cases e with
  | ensureSocketDir | ping | sleep | removeSocket | chmodSocket | accept => rfl
  | _ => cases hq

theorem execBroker_eq (hne : e.isStart = false) :
    execBroker P t w e o = if w.alive t then execAlive P t w e o else none := by
  cases e with
  | start => cases hne
  | _ => rfl

theorem execAlive_removePid {r : Except Err Unit}
    (he : execAlive P t w .removePid o = some (r, w')) :
    (∃ L, w.lock = some L ∧ (∃ u, r = .ok u) ∧
        w' = { w with lock := some { L with pid := none, modTime := w.clock } }) ∨
      (∃ e, r = .error e) ∧ w' = w := by
  cases o with
  | ok =>
    cases hlock : w.lock with
    | none =>
      simp only [execAlive, hlock, Option.some.injEq, Prod.mk.injEq] at he
      obtain ⟨rfl, rfl⟩ := he
      exact .inr ⟨⟨_, rfl⟩, rfl⟩
    | some L =>
      simp only [execAlive, hlock] at he
      split at he
      · cases he
        exact .inl ⟨L, rfl, ⟨_, rfl⟩, rfl⟩
      · cases he
        exact .inr ⟨⟨_, rfl⟩, rfl⟩
  | _ =>
    cases he
    exact .inr ⟨⟨_, rfl⟩, rfl⟩

theorem execAlive_removeLock {r : Except Err Unit}
    (he : execAlive P t w .removeLock o = some (r, w')) :
    w'.alive = w.alive ∧ w'.client = w.client ∧ w'.listening = w.listening ∧
      ∀ e, r = .error e → w' = w := by
  cases o with
  | ok =>
    cases hlock : w.lock with
    | none =>
      simp only [execAlive, hlock, Option.some.injEq, Prod.mk.injEq] at he
      obtain ⟨-, rfl⟩ := he
      exact ⟨rfl, rfl, rfl, fun _ _ => rfl⟩
    | some L =>
      simp only [execAlive, hlock] at he
      split at he
      · cases he
        exact ⟨rfl, rfl, rfl, fun _ _ => rfl⟩
      · cases he
        exact ⟨rfl, rfl, rfl, nofun⟩
  | _ =>
    cases he
    exact ⟨rfl, rfl, rfl, fun _ _ => rfl⟩

namespace Excl

variable {ph : T → BrokerPhase} {l : BrokerPhase} {r : Except Err Unit} {L : LockDir T}

/-- A process looks at the lock. -/
theorem look (h : Excl P w ph) (hq : e.looks = true) (ht : w.alive t = true)
    (he : execAlive P t w e o = some (b, w)) (hok : lockOk (ph t) e b)
    (hk : orderlyAct w ph t e o) : Excl P w (update ph t (lockNext P (ph t) e b)) := by
  cases e with
  | readPid =>
    obtain rfl : o = .ok := hk
    have hl : ph t = .idle := hok
    rw [hl]
    refine h.readPid hl ?_ ?_
    · intro L hL text htext
      simp only [execAlive, hL, Option.bind_some, htext, Option.some.injEq, Prod.mk.injEq] at he
      exact he.1.symm
    · intro hnone
      have hpid : w.lock.bind (·.pid) = none := by
        cases hlock : w.lock with
        | none => rfl
        | some L => exact hnone L hlock
      simp only [execAlive, hpid, Option.some.injEq, Prod.mk.injEq] at he
      exact ⟨_, he.1.symm⟩
  | kill pid =>
    have hl : ph t = .read pid := hok
    rw [hl]
    cases b with
    | true => exact h.leave rfl (fun _ _ _ => trivial) (by rw [hl]; rfl) (by rw [hl]; rfl)
    | false =>
      -- The owner has the pid that was read, and is alive.
      refine h.leave rfl (fun u hu howns => ?_) (by rw [hl]; rfl) (by rw [hl]; rfl)
      have hsees := h.sees t u ht hu howns
      rw [hl] at hsees
      have hdead : ∀ u, P.pid u = pid → w.alive u = false := by
        cases o with
        | ok => simp [execAlive] at he
        | _ =>
          simp only [execAlive] at he
          split at he
          · assumption
          · cases he
      rw [hdead u hsees.symm] at hu
      cases hu
  | statLock =>
    obtain rfl : o = .ok := hk
    have hl : ph t = .unread := hok
    rw [hl]
    cases hlock : w.lock with
    | none =>
      simp only [execAlive, hlock, Option.some.injEq, Prod.mk.injEq] at he
      obtain rfl := he.1
      refine h.leave rfl (fun u hu howns => ?_) (by rw [hl]; rfl) (by rw [hl]; rfl)
      obtain ⟨L, hL, -⟩ := (h.own u hu howns).exists_lock
      rw [hlock] at hL
      cases hL
    | some L =>
      simp only [execAlive, hlock, Option.some.injEq, Prod.mk.injEq] at he
      obtain rfl := he.1
      refine h.leave rfl (fun u hu howns => ?_) (by rw [hl]; rfl) (by rw [hl]; rfl)
      have hsees := h.sees t u ht hu howns
      rw [hl] at hsees
      exact hsees
  | now =>
    rcases hok with hl | ⟨modTime, hl⟩
    · rw [hl]
      exact h.leave rfl (fun _ _ _ => trivial) (by rw [hl]; rfl) (by rw [hl]; rfl)
    · obtain rfl : w.clock = b := by
        simp only [execAlive, Option.some.injEq, Prod.mk.injEq] at he
        exact he.1
      rw [hl]
      simp only [lockNext]
      split
      · -- The lock is old, so nobody who is alive has it without a pid.
        rename_i hold
        refine h.leave rfl (fun u hu howns => ?_) (by rw [hl]; rfl) (by rw [hl]; rfl)
        have hsees := h.sees t u ht hu howns
        rw [hl] at hsees
        have hyoung := hk modTime hl u hu hsees
        omega
      · exact h.leave rfl (fun _ _ _ => trivial) (by rw [hl]; rfl) (by rw [hl]; rfl)
  | readLockDir =>
    obtain ⟨own, hl⟩ := hok
    rw [hl]
    cases own with
    | false => exact h.stepRemover ht hl rfl (.inr ⟨true, rfl⟩) rfl rfl
    | true =>
      exact h.stayOwner ht (by rw [hl]; rfl) rfl (by rw [hl]; rfl) (by rw [hl]; rfl)
        (by rw [hl]; rfl)
  | _ => cases hq

/-- A process removes the pid from the lock. -/
theorem removePid (h : Excl P w ph) (ht : w.alive t = true)
    (he : execAlive P t w .removePid o = some (r, w')) (hok : lockOk (ph t) .removePid r) :
    Excl P w' (update ph t (lockNext P (ph t) .removePid r)) := by
  have hcases := execAlive_removePid he
  rcases hok with ⟨own, hl⟩ | hl
  · have hnext : lockNext P (ph t) .removePid r = .removing own true := by
      rw [hl]
      rfl
    rw [hnext]
    cases own with
    | false =>
      obtain ⟨L, -, -, rfl⟩ | ⟨-, rfl⟩ := hcases
      · exact h.stepRemover ht hl rfl (.inr ⟨true, rfl⟩) rfl rfl
      · exact h.stepRemover ht hl rfl (.inr ⟨true, rfl⟩) rfl rfl
    | true =>
      obtain ⟨L, hL, -, rfl⟩ | ⟨-, rfl⟩ := hcases
      · exact h.removeOwnPid ht hL (.inl ⟨hl, rfl⟩)
      · exact h.stayOwner ht (by rw [hl]; rfl) rfl (by rw [hl]) (by rw [hl]) (by rw [hl])
  · rw [hl]
    obtain ⟨L, hL, ⟨u, rfl⟩, rfl⟩ | ⟨⟨e, rfl⟩, rfl⟩ := hcases
    · exact h.removeOwnPid ht hL (.inr ⟨hl, rfl⟩)
    · exact h.stayOwner ht (by rw [hl]; rfl) rfl (by rw [hl]; rfl) (by rw [hl]; rfl)
        (by rw [hl]; rfl)

/-- A process removes the lock directory. -/
theorem removeLock (h : Excl P w ph) (ht : w.alive t = true)
    (he : execAlive P t w .removeLock o = some (r, w')) (hok : lockOk (ph t) .removeLock r) :
    Excl P w' (update ph t (lockNext P (ph t) .removeLock r)) := by
  obtain ⟨halive, hclient, hlistening, hsame⟩ := execAlive_removeLock he
  have hnext : lockNext P (ph t) .removeLock r = .idle ∨
      (∃ e, r = .error e) ∧ ∃ own, ph t = .removing own false ∧
        lockNext P (ph t) .removeLock r = .removing own false := by
    rcases hok with ⟨own, tried, hl⟩ | ⟨removed, hl⟩
    · rw [hl]
      cases r with
      | ok _ => cases tried <;> exact .inl rfl
      | error e =>
        cases tried with
        | true => exact .inl rfl
        | false =>
          simp only [lockNext]
          split
          · exact .inl rfl
          · exact .inr ⟨⟨e, rfl⟩, own, rfl, rfl⟩
    · rw [hl]
      exact .inl rfl
  rcases hnext with hidle | ⟨⟨e, rfl⟩, own, hl, hagain⟩
  · rw [hidle]
    rcases hok with ⟨own, tried, hl⟩ | ⟨removed, hl⟩
    · cases own with
      | false => exact h.stepRemover ht hl halive (.inl rfl) hclient hlistening
      | true => exact h.removeOwnLock ht (.inl ⟨tried, hl⟩) halive hclient hlistening
    · exact h.removeOwnLock ht (.inr ⟨removed, hl⟩) halive hclient hlistening
  · obtain rfl := hsame e rfl
    rw [hagain, ← hl, update_eq_self]
    exact h

/-- A process makes the lock directory, or finds it made. -/
theorem mkdir (h : Excl P w ph) (he : execAlive P t w .mkdirLock o = some (r, w'))
    (hok : lockOk (ph t) .mkdirLock r)
    (hk : orderlyAct w ph t .mkdirLock o) :
    Excl P w' (update ph t (lockNext P (ph t) .mkdirLock r)) := by
  have hl : ph t = .idle := hok
  have hfailed (e : Err) :
      Excl P w (update ph t (lockNext P (ph t) .mkdirLock (.error e))) := by
    have hnext : lockNext P (ph t) .mkdirLock (.error e) = ph t := by rw [hl]; rfl
    rw [hnext, update_eq_self]
    exact h
  cases o with
  | ok =>
    cases hlock : w.lock with
    | some L =>
      simp only [execAlive, hlock, Option.some.injEq, Prod.mk.injEq] at he
      obtain ⟨rfl, rfl⟩ := he
      exact hfailed _
    | none =>
      simp only [execAlive, hlock, Option.some.injEq, Prod.mk.injEq] at he
      obtain ⟨rfl, rfl⟩ := he
      rw [hl]
      exact h.mkdirLock hl hlock (hk hlock)
  | _ =>
    cases he
    exact hfailed _

/-- A process writes its pid. -/
theorem write (h : Excl P w ph) (ht : w.alive t = true)
    (he : execAlive P t w .writePid o = some (r, w')) (hok : lockOk (ph t) .writePid r)
    (hk : orderlyAct w ph t .writePid o) :
    Excl P w' (update ph t (lockNext P (ph t) .writePid r)) := by
  have hl : ph t = .made := hok
  obtain ⟨L, hL, -⟩ := (h.own t ht (by rw [hl]; rfl)).exists_lock
  have hfailed (e : Err) :
      Excl P w (update ph t (lockNext P (ph t) .writePid (.error e))) := by
    rw [hl]
    exact h.stayOwner ht (by rw [hl]; rfl) rfl (by rw [hl]; rfl) (by rw [hl]; rfl)
      (by rw [hl]; rfl)
  cases o with
  | ok =>
    simp only [execAlive, hL, Option.some.injEq, Prod.mk.injEq] at he
    obtain ⟨rfl, rfl⟩ := he
    rw [hl]
    exact h.writePid ht hl hk hL (.inl ⟨rfl, rfl⟩)
  | created =>
    simp only [execAlive, hL, Option.some.injEq, Prod.mk.injEq] at he
    obtain ⟨rfl, rfl⟩ := he
    rw [hl]
    exact h.writePid ht hl hk hL (.inr ⟨rfl, rfl⟩)
  | _ =>
    cases he
    exact hfailed _

/-- A holder opens or closes its client or its listener. -/
theorem serves (h : Excl P w ph) (ht : w.alive t = true) (hq : e.serves = true)
    (he : execAlive P t w e o = some (b, w')) (hok : lockOk (ph t) e b) :
    Excl P w' (update ph t (lockNext P (ph t) e b)) := by
  have hkeep : ∀ {l : BrokerPhase}, l = ph t → Excl P w (update ph t l) := by
    rintro l rfl
    rw [update_eq_self]
    exact h
  have hstay {c li : Bool} (hl : ph t = .holding c li) :
      w.client = update w.client t c ∧ w.listening = update w.listening t li :=
    ⟨h.client_keep (l := .holding c li) (by rw [hl]),
      h.listening_keep (l := .holding c li) (by rw [hl])⟩
  cases e with
  | newClient =>
    obtain ⟨c, li, hl⟩ := hok
    cases o with
    | ok =>
      cases he
      rw [hl]
      exact h.serve ht hl rfl rfl rfl (hstay hl).2
    | _ =>
      cases he
      exact hkeep (by rw [hl]; rfl)
  | closeClient =>
    obtain ⟨c, li, hl⟩ := hok
    cases he
    rw [hl]
    exact h.serve ht hl rfl rfl rfl (hstay hl).2
  | listen =>
    obtain ⟨c, li, hl⟩ := hok
    cases o with
    | ok =>
      cases hsocket : w.socket with
      | some u =>
        simp only [execAlive, hsocket, Option.some.injEq, Prod.mk.injEq] at he
        obtain ⟨rfl, rfl⟩ := he
        exact hkeep (by rw [hl]; rfl)
      | none =>
        simp only [execAlive, hsocket, Option.some.injEq, Prod.mk.injEq] at he
        obtain ⟨rfl, rfl⟩ := he
        rw [hl]
        exact h.serve ht hl rfl rfl (hstay hl).1 rfl
    | _ =>
      cases he
      exact hkeep (by rw [hl]; rfl)
  | closeListener =>
    obtain ⟨c, li, hl⟩ := hok
    cases he
    rw [hl]
    exact h.serve ht hl rfl rfl (hstay hl).1 rfl
  | _ => cases hq

/-- An action keeps the invariant. -/
theorem act (h : Excl P w ph) (he : execBroker P t w e o = some (b, w')) (hok : lockOk (ph t) e b)
    (hk : orderlyAct w ph t e o) : Excl P w' (update ph t (lockNext P (ph t) e b)) := by
  -- Every action but the first is one of a process that is alive.
  have halive (hne : e.isStart = false) :
      w.alive t = true ∧ execAlive P t w e o = some (b, w') := by
    rw [execBroker_eq hne] at he
    split at he
    · exact ⟨‹_›, he⟩
    · cases he
  have hquiet (hq : e.quiet = true) (hne : e.isStart = false) :
      Excl P w' (update ph t (lockNext P (ph t) e b)) := by
    obtain ⟨hlock, halive, hclient, hlistening⟩ := execAlive_quiet hq (halive hne).2
    rw [lockNext_quiet hq, update_eq_self]
    exact h.congr hlock halive hclient hlistening
  have hlook (hq : e.looks = true) (hne : e.isStart = false) :
      Excl P w' (update ph t (lockNext P (ph t) e b)) := by
    obtain ⟨ht, he'⟩ := halive hne
    obtain rfl := execAlive_looks hq he'
    exact h.look hq ht he' hok hk
  cases e with
  | start =>
    cases he
    change Excl P _ (update ph t (ph t))
    rw [update_eq_self]
    exact h.start hok
  | mkdirLock => exact h.mkdir (halive rfl).2 hok hk
  | writePid => exact h.write (halive rfl).1 (halive rfl).2 hok hk
  | removePid => exact h.removePid (halive rfl).1 (halive rfl).2 hok
  | removeLock => exact h.removeLock (halive rfl).1 (halive rfl).2 hok
  | newClient | closeClient | listen | closeListener =>
    exact h.serves (halive rfl).1 rfl (halive rfl).2 hok
  | readPid | kill pid | statLock | now | readLockDir => exact hlook rfl rfl
  | _ => exact hquiet rfl rfl

end Excl

end Actions

end Firedoze
