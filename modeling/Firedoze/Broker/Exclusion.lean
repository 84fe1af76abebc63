import Firedoze.Broker.Ownership

/-!
# At most one broker holds the lock

`excl_reach` is the invariant of `Firedoze.Broker.Ownership` over whole runs,
and `one_broker` the result for the runs that are `Orderly`.

Without the condition two processes that find the same stale lock both get
past it: the second one removes the lock that the first one has just made
(`two_brokers_after_crash`).
-/

namespace Firedoze

open Conc Conc.Prog Conc.Monitor Text

variable {T : Type} {P : Processes T}

/-! ## Runs -/

/-- Whether the process is past `acquireBrokerLock` and has not released the
lock. -/
def holdsLock : List (Event BrokerEff) → Bool
  | [] => false
  | ⟨.writePid, .ok _⟩ :: _ => true
  | ⟨.removeLock, _⟩ :: _ => false
  | _ :: h => holdsLock h

theorem holds_phase (hist : List (Event BrokerEff)) :
    ((locking P).phase hist).holds = holdsLock hist := by
  induction hist with
  | nil => rfl
  | cons ev hist ih =>
    obtain ⟨e, b⟩ := ev
    change (lockNext P ((locking P).phase hist) e b).holds = _
    generalize (locking P).phase hist = l at ih
    cases e with
    | removeLock =>
      simp only [lockNext]
      split
      · split <;> rfl
      · rfl
    | writePid =>
      cases b with
      | ok _ => cases l <;> rfl
      | error e => exact Eq.trans (by cases l <;> rfl) ih
    | readPid =>
      refine Eq.trans ?_ ih
      simp only [lockNext]
      split
      · rfl
      · split
        · rfl
        · split <;> rfl
      · rfl
    | kill pid | now =>
      refine Eq.trans ?_ ih
      simp only [lockNext]
      split
      · split <;> rfl
      · rfl
    | mkdirLock | statLock | removePid | newClient | listen =>
      exact Eq.trans (by cases l <;> cases b <;> rfl) ih
    | readLockDir | closeClient | closeListener => exact Eq.trans (by cases l <;> rfl) ih
    | _ => exact ih

/-- Whether the next action of a broker unlinks the socket. -/
def unlinksSocket : Prog BrokerEff (Except Err Unit) → Bool
  | .act .removeSocket _ => true
  | .act .closeListener _ => true
  | _ => false

section Runs

variable [DecidableEq T] [Fintype T] {socketPath : String} {lock : Option (Option Bytes × Nat)}
  {socket : Bool} {clock : Nat} {s : BrokerState T}

theorem excl_reach
    (h : (brokerSystem P).Reach (Orderly P) (startBrokers P socketPath lock socket clock) s) :
    Excl P s.world ((locking P).phases s) := by
  refine Monitor.invariant (M := locking P) (A := fun _ _ => True) (Q := fun _ _ _ => True)
    (I := fun w ph => Excl P w ph) (fun _ _ _ _ _ _ _ _ => trivial)
    (fun _ => conforms_mono (fun _ _ _ => trivial) locking_runBroker)
    ⟨nofun, nofun, fun _ => rfl, fun _ => rfl⟩ ?_ ?_ h
  · intro s t o β e k b w hr hI hk hp he _ hok
    exact hI.act he hok (hk.act hp)
  · intro s v w hr hI hk hv
    obtain rfl : execBrokerEvent s.world v = w := Option.some.inj hv
    cases v with
    | die t => exact hI.die
    | wait duration => exact hI.congr rfl rfl rfl rfl

/-- A broker that unlinks the socket owns the lock. -/
theorem owns_of_unlinks {t : T}
    (h : (brokerSystem P).Reach (Orderly P) (startBrokers P socketPath lock socket clock) s)
    (hu : unlinksSocket (s.prog t) = true) : ((locking P).phases s t).owns = true := by
  have hok {β : Type} {e : BrokerEff β} {k : β → Prog BrokerEff (Except Err Unit)} {b : β}
      (hp : s.prog t = .act e k) : lockOk ((locking P).phases s t) e b :=
    ok_reach (M := locking P) (A := fun _ _ => True) (Q := fun _ _ => True)
      (fun _ _ _ _ _ _ _ _ => trivial)
      (conforms_mono (fun _ _ _ => trivial) locking_runBroker) h hp trivial
  unfold unlinksSocket at hu
  split at hu
  · rename_i k hp
    obtain ⟨c, li, hl⟩ : lockOk ((locking P).phases s t) .removeSocket (.ok ()) := hok hp
    rw [hl]
    rfl
  · rename_i k hp
    obtain ⟨c, li, hl⟩ : lockOk ((locking P).phases s t) .closeListener () := hok hp
    rw [hl]
    rfl
  · cases hu

/-- In every orderly run at most one process that is alive holds the lock, at
most one has a WireGuard client, and none unlinks the socket on which another
one listens. -/
theorem one_broker (P : Processes T) (socketPath : String) (lock : Option (Option Bytes × Nat))
    (socket : Bool) (clock : Nat) {s : BrokerState T}
    (h : (brokerSystem P).Reach (Orderly P) (startBrokers P socketPath lock socket clock) s)
    {t u : T} (ht : s.world.alive t = true) (hu : s.world.alive u = true) :
    (holdsLock (s.hist t) = true → holdsLock (s.hist u) = true → t = u) ∧
      (s.world.client t = true → s.world.client u = true → t = u) ∧
      (unlinksSocket (s.prog t) = true → s.world.listening u = true → t = u) := by
  have hexcl := excl_reach h
  have hheld {v : T} (hv : holdsLock (s.hist v) = true) :
      ((locking P).phases s v).owns = true := by
    rw [← holds_phase (P := P)] at hv
    exact BrokerPhase.owns_of_holds hv
  refine ⟨fun h₁ h₂ => hexcl.eq_of_owns ht hu (hheld h₁) (hheld h₂), fun h₁ h₂ => ?_,
    fun h₁ h₂ => ?_⟩
  · rw [hexcl.client] at h₁ h₂
    exact hexcl.eq_of_owns ht hu (BrokerPhase.owns_of_client h₁) (BrokerPhase.owns_of_client h₂)
  · rw [hexcl.listening] at h₂
    exact hexcl.eq_of_owns ht hu (owns_of_unlinks h h₁) (BrokerPhase.owns_of_listening h₂)

end Runs

/-! ## Two processes -/

/-- White space of ASCII. -/
def isSpaceByte (c : UInt8) : Bool := c = 32 ∨ 9 ≤ c ∧ c ≤ 13

/-- Two processes, with the pids 100 and 101. -/
def twoProcesses : Processes Bool where
  pid t := if t then 101 else 100
  pid_pos t := by cases t <;> decide
  atoi text :=
    Decimal.parseInt (((text.dropWhile isSpaceByte).reverse.dropWhile isSpaceByte).reverse)
  atoi_nil := rfl
  atoi_pidFile t := by cases t <;> decide

/-- An action that is orderly when nobody checks the lock (`quiet`), or in any
case. -/
def orderlyWhen (quiet : Bool) : {β : Type} → BrokerEff β → BrokerOutcome → Bool
  | _, .mkdirLock, _ => quiet
  | _, .writePid, _ => quiet
  | _, .now, _ => quiet
  | _, .readPid, o => o == .ok
  | _, .statLock, _ => false
  | _, _, _ => true

/-- Nobody checks the lock. -/
def quiet (s : BrokerState Bool) : Bool :=
  decide (∀ u, ((locking twoProcesses).phases s u).checks = false)

theorem orderly_of_orderlyWhen {s : BrokerState Bool}
    {l : Label Bool BrokerOutcome (BrokerEvent Bool)}
    (h : s.next (fun _ e o => orderlyWhen (quiet s) e o) l = true) : Orderly twoProcesses s l := by
  cases l with
  | env v => trivial
  | thread t o =>
    refine State.Next.of_act fun β e k hp => ?_
    have he := State.next_act h hp
    cases e with
    | mkdirLock => exact fun _ u _ => of_decide_eq_true he u
    | writePid => exact fun u _ => of_decide_eq_true he u
    | now =>
      intro modTime hl
      have hcheck := of_decide_eq_true he t
      rw [hl] at hcheck
      cases hcheck
    | readPid => exact eq_of_beq he
    | statLock => cases he
    | _ => trivial

/-- A process starts, and finds the lock stale. -/
def checkStale (t : Bool) : List (Label Bool BrokerOutcome (BrokerEvent Bool)) :=
  [.thread t .ok, .thread t .ok, .thread t .fail, .thread t .ok, .thread t .ok, .thread t .ok,
    .thread t .fail, .thread t .ok, .thread t .fail]

/-- It removes the lock and takes it. -/
def takeLock (t : Bool) : List (Label Bool BrokerOutcome (BrokerEvent Bool)) :=
  List.replicate 7 (.thread t .ok)

/-- A process removes the lock of one that has died, and takes it.  The next one
finds it held, until its time is up. -/
theorem one_broker_second_refused :
    ∃ s : BrokerState Bool,
      (brokerSystem twoProcesses).Reach (Orderly twoProcesses)
        (startBrokers twoProcesses "wg.sock" (some (some (pidFile 7), 0)) false 0) s ∧
      holdsLock (s.hist false) = true ∧
      s.Finished true (.error (.msg "wireguard broker lock is held: wg.sock.lock")) ∧
      (holdsLock (s.hist true) = true → true = false) := by
  obtain ⟨s, hs, hP⟩ := (brokerSystem twoProcesses).exists_reach_of_run
    (s := startBrokers twoProcesses "wg.sock" (some (some (pidFile 7), 0)) false 0)
    (k := fun s => s.next fun _ e o => orderlyWhen (quiet s) e o)
    (l := checkStale false ++ takeLock false ++ (checkStale true).dropLast ++
      [.thread true .ok, .env (.wait 11000000000), .thread true .ok])
    (P := fun s => holdsLock (s.hist false) && s.world.alive false && s.world.alive true &&
      decide ((s.prog true).result =
        some (.error (.msg "wireguard broker lock is held: wg.sock.lock"))))
    (by decide) (by decide +kernel)
  have hreach := hs.mono (J := Orderly twoProcesses) fun _ _ => orderly_of_orderlyWhen
  simp only [Bool.and_eq_true, decide_eq_true_eq, and_assoc] at hP
  obtain ⟨hholds, halive, halive', hresult⟩ := hP
  have hone := one_broker twoProcesses "wg.sock" _ false 0 hreach halive' halive
  exact ⟨s, hreach, hholds, hresult, fun h => hone.1 h hholds⟩

/-- A lock is left behind by a process that has died.  Two processes find it
stale.  The first one removes it and takes the lock; the second one removes
the lock of the first one and takes it too, opens a second client, and unlinks
the socket of the first one. -/
theorem two_brokers_after_crash :
    ∃ s : BrokerState Bool,
      (brokerSystem twoProcesses).Reach (fun _ _ => True)
        (startBrokers twoProcesses "wg.sock" (some (some (pidFile 7), 0)) false 0) s ∧
      s.world.alive false = true ∧ s.world.alive true = true ∧
      holdsLock (s.hist false) = true ∧ holdsLock (s.hist true) = true ∧
      s.world.client false = true ∧ s.world.client true = true ∧
      unlinksSocket (s.prog true) = true ∧ s.world.listening false = true ∧
      s.world.socket = some (some false) := by
  obtain ⟨s, hs, hP⟩ := (brokerSystem twoProcesses).exists_reach_of_run
    (s := startBrokers twoProcesses "wg.sock" (some (some (pidFile 7), 0)) false 0)
    (k := fun _ _ => true)
    (l := checkStale false ++ checkStale true ++ takeLock false ++
      List.replicate 3 (.thread false .ok) ++ takeLock true ++ [.thread true .ok])
    (P := fun s => s.world.alive false && s.world.alive true && holdsLock (s.hist false) &&
      holdsLock (s.hist true) && s.world.client false && s.world.client true &&
      unlinksSocket (s.prog true) && s.world.listening false &&
      decide (s.world.socket = some (some false)))
    (by decide) (by decide)
  simp only [Bool.and_eq_true, decide_eq_true_eq, and_assoc] at hP
  exact ⟨s, hs.mono fun _ _ _ => trivial, hP⟩

end Firedoze
