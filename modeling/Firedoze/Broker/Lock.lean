import Firedoze.Conc.Monitor
import Firedoze.Model.Types
import Firedoze.Text.Decimal

/-!
# The lock of the WireGuard broker

Any number of processes run `RunBroker` on one socket path.  Each of them
first pings the socket, then takes the lock next to it, and only then opens
its WireGuard client and listens on the socket.  The lock is a directory with
a file `pid` that is written in a second step, and a lock that looks stale is
removed by whoever finds it.

Every call of the operating system is one step, and a process may die between
any two of them.  `os.RemoveAll` is several calls: it tries to remove the
directory, and when that fails reads the directory, removes the file, and
removes the directory.  The connections that a broker serves are left out.

The phase of a process is what it has done to the lock and what it knows
about it.  `locking_runBroker` says which actions a broker performs in which
phase.
-/

namespace Firedoze

open Conc Conc.Prog Conc.Monitor Text

/-! ## Processes and files -/

/-- What the file `pid` of a process holds. -/
def pidFile (pid : Int64) : Bytes := Decimal.formatInt pid ++ [10]

/-- The processes.  `atoi` is `strconv.Atoi` of the text without the space
around it. -/
structure Processes (T : Type) where
  pid : T → Int64
  pid_pos : ∀ t, 0 < pid t
  atoi : Bytes → Option Int64
  atoi_nil : atoi [] = none
  atoi_pidFile : ∀ t, atoi (pidFile (pid t)) = some (pid t)

/-- The lock directory: the process that made it, if it is one of those that
run here, the file `pid`, and the time of the last change. -/
structure LockDir (T : Type) where
  maker : Option T
  pid : Option Bytes
  modTime : Nat
  deriving DecidableEq

/-- The files, the processes, and the clock in nanoseconds.  `socket` is the
process that bound the socket file, if it is one of those that run here. -/
structure BrokerWorld (T : Type) where
  lock : Option (LockDir T)
  socket : Option (Option T)
  alive : T → Bool
  client : T → Bool
  listening : T → Bool
  clock : Nat

/-- The actions of a broker.  `ping` answers whether a broker answered,
`kill` whether the process exists, `readLockDir` whether the directory holds
the file `pid`, and `sleep` is `false` when the context is done.  `accept`
answers what `RunBroker` returns, or `none` when it goes on. -/
inductive BrokerEff : Type → Type
  | start : BrokerEff Unit
  | ensureSocketDir : BrokerEff (Except Err Unit)
  | ping : BrokerEff Bool
  | now : BrokerEff Nat
  | mkdirLock : BrokerEff (Except Err Unit)
  | writePid : BrokerEff (Except Err Unit)
  | readPid : BrokerEff (Except Err Bytes)
  | kill (pid : Int64) : BrokerEff Bool
  | statLock : BrokerEff (Except Err Nat)
  | readLockDir : BrokerEff Bool
  | removePid : BrokerEff (Except Err Unit)
  | removeLock : BrokerEff (Except Err Unit)
  | sleep : BrokerEff Bool
  | newClient : BrokerEff (Except Err Unit)
  | closeClient : BrokerEff Unit
  | removeSocket : BrokerEff (Except Err Unit)
  | listen : BrokerEff (Except Err Unit)
  | chmodSocket : BrokerEff (Except Err Unit)
  | accept : BrokerEff (Option (Except Err Unit))
  | closeListener : BrokerEff Unit

/-- How an action goes.  `created` is a write that fails when the file is
already there, and `idle` the end of a broker that has nothing to do. -/
inductive BrokerOutcome
  | ok
  | fail
  | created
  | idle
  deriving DecidableEq

/-- What happens besides the calls of the processes. -/
inductive BrokerEvent (T : Type)
  | die (t : T)
  | wait (duration : Nat)

section System

variable {T : Type} [DecidableEq T] [Fintype T] (P : Processes T)

/-- The file `pid` is written: the directory changes when the file is new. -/
def LockDir.write (L : LockDir T) (text : Bytes) (clock : Nat) : LockDir T :=
  { L with pid := some text, modTime := if L.pid.isSome then L.modTime else clock }

/-- What an action of a process that is alive does. -/
def execAlive (t : T) (w : BrokerWorld T) :
    {β : Type} → BrokerEff β → BrokerOutcome → Option (β × BrokerWorld T)
  | _, .start, _ => none
  | _, .ensureSocketDir, .ok => some (.ok (), w)
  | _, .ensureSocketDir, _ => some (.error .io, w)
  | _, .ping, .ok =>
      match w.socket with
      | some (some u) => if w.alive u && w.listening u then some (true, w) else none
      | _ => none
  | _, .ping, _ => some (false, w)
  | _, .now, _ => some (w.clock, w)
  | _, .mkdirLock, .ok =>
      match w.lock with
      | some _ => some (.error .alreadyExists, w)
      | none => some (.ok (), { w with lock := some ⟨some t, none, w.clock⟩ })
  | _, .mkdirLock, _ => some (.error .io, w)
  | _, .writePid, .ok =>
      match w.lock with
      | none => some (.error .notExist, w)
      | some L => some (.ok (), { w with lock := some (L.write (pidFile (P.pid t)) w.clock) })
  | _, .writePid, .created =>
      match w.lock with
      | none => some (.error .notExist, w)
      | some L => some (.error .io, { w with lock := some (L.write [] w.clock) })
  | _, .writePid, _ => some (.error .io, w)
  | _, .readPid, .ok =>
      match w.lock.bind (·.pid) with
      | none => some (.error .notExist, w)
      | some text => some (.ok text, w)
  | _, .readPid, _ => some (.error .io, w)
  | _, .kill _, .ok => some (true, w)
  -- A process that runs a broker exists.
  | _, .kill pid, _ => if ∀ u, P.pid u = pid → w.alive u = false then some (false, w) else none
  | _, .statLock, .ok =>
      match w.lock with
      | none => some (.error .notExist, w)
      | some L => some (.ok L.modTime, w)
  | _, .statLock, _ => some (.error .io, w)
  | _, .readLockDir, .ok => some ((w.lock.bind (·.pid)).isSome, w)
  | _, .readLockDir, _ => some (false, w)
  | _, .removePid, .ok =>
      match w.lock with
      | none => some (.error .notExist, w)
      | some L =>
          if L.pid.isSome then
            some (.ok (), { w with lock := some { L with pid := none, modTime := w.clock } })
          else some (.error .notExist, w)
  | _, .removePid, _ => some (.error .io, w)
  | _, .removeLock, .ok =>
      match w.lock with
      | none => some (.error .notExist, w)
      | some L =>
          if L.pid.isSome then some (.error .io, w) else some (.ok (), { w with lock := none })
  | _, .removeLock, _ => some (.error .io, w)
  | _, .sleep, .ok => some (true, w)
  | _, .sleep, _ => some (false, w)
  | _, .newClient, .ok => some (.ok (), { w with client := Function.update w.client t true })
  | _, .newClient, _ => some (.error .io, w)
  | _, .closeClient, _ => some ((), { w with client := Function.update w.client t false })
  | _, .removeSocket, .ok =>
      match w.socket with
      | none => some (.error .notExist, w)
      | some _ => some (.ok (), { w with socket := none })
  | _, .removeSocket, _ => some (.error .io, w)
  | _, .listen, .ok =>
      match w.socket with
      | some _ => some (.error .io, w)
      | none =>
          some (.ok (),
            { w with socket := some (some t), listening := Function.update w.listening t true })
  | _, .listen, _ => some (.error .io, w)
  | _, .chmodSocket, .ok => some (.ok (), w)
  | _, .chmodSocket, _ => some (.error .io, w)
  | _, .accept, .ok => some (none, w)
  | _, .accept, .idle => some (some (.ok ()), w)
  | _, .accept, _ => some (some (.error .io), w)
  -- The listener of Go removes the socket file.
  | _, .closeListener, _ =>
      some ((), { w with socket := none, listening := Function.update w.listening t false })

/-- What an action does.  Only a process that is alive acts. -/
def execBroker (t : T) (w : BrokerWorld T) {β : Type} (e : BrokerEff β) (o : BrokerOutcome) :
    Option (β × BrokerWorld T) :=
  match e with
  | .start => some ((), { w with alive := Function.update w.alive t true })
  | e => if w.alive t then execAlive P t w e o else none

/-- What an event does. -/
def execBrokerEvent (w : BrokerWorld T) : BrokerEvent T → BrokerWorld T
  | .die t => { w with alive := Function.update w.alive t false }
  | .wait duration => { w with clock := w.clock + duration }

/-- The processes on one socket path. -/
def brokerSystem : System T (BrokerWorld T) BrokerOutcome (BrokerEvent T) BrokerEff where
  exec := fun t w e o => execBroker P t w e o
  env := fun w v => some (execBrokerEvent w v)

end System

/-! ## The broker -/

section Broker

variable {T : Type} (P : Processes T) (socketPath : String)

/-- `os.RemoveAll(lockPath)`. -/
def removeAllLock : Prog BrokerEff Unit := do
  match ← perform .removeLock with
  | .ok _ => ret ()
  | .error .notExist => ret ()
  | .error _ =>
      if ← perform .readLockDir then
        let _ ← perform .removePid
        let _ ← perform .removeLock
        ret ()
      else
        let _ ← perform .removeLock
        ret ()

/-- `brokerLockOlderThan(lockPath, 2*time.Second)`. -/
def brokerLockOlderThan : Prog BrokerEff Bool := do
  match ← perform .statLock with
  | .error _ => ret true
  | .ok modTime =>
      let now ← perform .now
      ret (decide (modTime + 2000000000 < now))

/-- `brokerProcessAlive`. -/
def brokerProcessAlive (pid : Int64) : Prog BrokerEff Bool :=
  if pid ≤ 0 then ret false else perform (.kill pid)

/-- `staleBrokerLock`. -/
def staleBrokerLock : Prog BrokerEff Bool := do
  match ← perform .readPid with
  | .error _ => brokerLockOlderThan
  | .ok text =>
      match P.atoi text with
      | none => brokerLockOlderThan
      | some pid =>
          let alive ← brokerProcessAlive pid
          ret (!alive)

/-- `ErrBrokerAlreadyRunning`. -/
def errBrokerAlreadyRunning : Err := .msg "wireguard broker already running"

/-- One round of the loop of `acquireBrokerLock`. -/
def acquireRound (deadline : Nat) : ExceptT Err (Prog BrokerEff) (Option Unit) := do
  match ← attempt (call .mkdirLock) with
  | .ok _ =>
      match ← attempt (call .writePid) with
      | .error e => do
          ExceptT.lift removeAllLock
          throw e
      | .ok _ => pure (some ())
  | .error e =>
      if e ≠ .alreadyExists then throw e
      else if ← sect .ping then throw errBrokerAlreadyRunning
      else if ← ExceptT.lift (staleBrokerLock P) then do
        ExceptT.lift removeAllLock
        pure none
      else do
        let now ← sect .now
        if deadline < now then
          throw (.msg ("wireguard broker lock is held: " ++ socketPath ++ ".lock"))
        else if ← sect .sleep then pure none
        else throw .canceled

/-- `acquireBrokerLock`. -/
def acquireBrokerLock : ExceptT Err (Prog BrokerEff) Unit := do
  let now ← sect .now
  forever (acquireRound P socketPath (now + 10000000000))

/-- The function that `acquireBrokerLock` answers. -/
def releaseBrokerLock : Prog BrokerEff Unit := do
  let _ ← perform .removePid
  let _ ← perform .removeLock
  ret ()

/-- The loop of `RunBroker`. -/
def acceptRound : ExceptT Err (Prog BrokerEff) (Option Unit) := do
  match ← sect .accept with
  | none => pure none
  | some (.ok _) => pure (some ())
  | some (.error e) => throw e

/-- `RunBroker` from `net.Listen` on. -/
def listenAndAccept : ExceptT Err (Prog BrokerEff) Unit := do
  call .listen
  deferred
    (do
      call .chmodSocket
      forever acceptRound)
    (do
      perform .closeListener
      let _ ← perform .removeSocket
      ret ())

/-- `RunBroker` from the removal of the socket on. -/
def serveBroker : ExceptT Err (Prog BrokerEff) Unit := do
  match ← attempt (call .removeSocket) with
  | .ok _ => listenAndAccept
  | .error e => if e = .notExist then listenAndAccept else throw e

/-- `RunBroker`. -/
def runBroker : ExceptT Err (Prog BrokerEff) Unit := do
  sect .start
  call .ensureSocketDir
  if ← sect .ping then throw errBrokerAlreadyRunning
  else do
    acquireBrokerLock P socketPath
    deferred
      (do
        call .newClient
        deferred serveBroker (perform .closeClient))
      releaseBrokerLock

/-- The state of the processes. -/
abbrev BrokerState (T : Type) := State T (BrokerWorld T) (Except Err Unit) BrokerEff

/-- The state before any process has started, with any lock and any socket
that earlier processes have left behind. -/
def startBrokers (lock : Option (Option Bytes × Nat)) (socket : Bool) (clock : Nat) :
    BrokerState T :=
  .initial
    { lock := lock.map fun l => ⟨none, l.1, l.2⟩
      socket := if socket then some none else none
      alive := fun _ => false
      client := fun _ => false
      listening := fun _ => false
      clock := clock }
    fun _ => (runBroker P socketPath).run

end Broker

/-! ## What a process has done to the lock -/

/-- The phase of a process.  `holding` says whether the process has a client
and whether it listens, and `released` whether its pid could be removed.
`removing` says whether the process removes its own lock, after a failed
write, or one that it has found to be stale, and whether it has tried to
remove the directory. -/
inductive BrokerPhase
  | idle
  | made
  | holding (client listening : Bool)
  | released (removed : Bool)
  | unread
  | read (pid : Int64)
  | statted (modTime : Nat)
  | removing (own tried : Bool)
  deriving DecidableEq

namespace BrokerPhase

/-- The lock directory is the process's own. -/
def owns : BrokerPhase → Bool
  | .made => true
  | .holding _ _ => true
  | .released _ => true
  | .removing own _ => own
  | _ => false

/-- The lock directory is the process's own, and does not hold its pid. -/
def unnamed : BrokerPhase → Bool
  | .holding _ _ => false
  | .released removed => removed
  | l => l.owns

/-- The process is past `acquireBrokerLock` and has not released the lock. -/
def holds : BrokerPhase → Bool
  | .holding _ _ => true
  | .released _ => true
  | _ => false

/-- The process checks whether the lock is stale, or removes a stale one. -/
def checks : BrokerPhase → Bool
  | .unread => true
  | .read _ => true
  | .statted _ => true
  | .removing own _ => !own
  | _ => false

/-- The process has a client. -/
def client : BrokerPhase → Bool
  | .holding client _ => client
  | _ => false

/-- The process listens. -/
def listening : BrokerPhase → Bool
  | .holding _ listening => listening
  | _ => false

end BrokerPhase

section Phases

variable {T : Type} (P : Processes T)

/-- The phase after an action. -/
def lockNext (l : BrokerPhase) : {β : Type} → BrokerEff β → β → BrokerPhase
  | _, .mkdirLock, r =>
      match l, r with
      | .idle, .ok _ => .made
      | l, _ => l
  | _, .writePid, r =>
      match l, r with
      | _, .ok _ => .holding false false
      | .made, .error _ => .removing true false
      | l, .error _ => l
  | _, .readPid, r =>
      match l, r with
      | .idle, .error _ => .unread
      | .idle, .ok text =>
          match P.atoi text with
          | none => .unread
          | some pid => if pid ≤ 0 then .removing false false else .read pid
      | l, _ => l
  | _, .kill _, alive =>
      match l with
      | .read _ => if alive then .idle else .removing false false
      | l => l
  | _, .statLock, r =>
      match l, r with
      | .unread, .error _ => .removing false false
      | .unread, .ok modTime => .statted modTime
      | l, _ => l
  | _, .now, now =>
      match l with
      | .statted modTime => if modTime + 2000000000 < now then .removing false false else .idle
      | l => l
  | _, .removeLock, r =>
      match l, r with
      | .removing own false, .error e => if e = .notExist then .idle else .removing own false
      | _, _ => .idle
  | _, .readLockDir, _ =>
      match l with
      | .removing own _ => .removing own true
      | l => l
  | _, .removePid, r =>
      match l, r with
      | .holding _ _, .ok _ => .released true
      | .holding _ _, .error _ => .released false
      | l, _ => l
  | _, .newClient, r =>
      match l, r with
      | .holding _ listening, .ok _ => .holding true listening
      | l, _ => l
  | _, .closeClient, _ =>
      match l with
      | .holding _ listening => .holding false listening
      | l => l
  | _, .listen, r =>
      match l, r with
      | .holding client _, .ok _ => .holding client true
      | l, _ => l
  | _, .closeListener, _ =>
      match l with
      | .holding client _ => .holding client false
      | l => l
  | _, .start, _ => l
  | _, .ensureSocketDir, _ => l
  | _, .ping, _ => l
  | _, .sleep, _ => l
  | _, .removeSocket, _ => l
  | _, .chmodSocket, _ => l
  | _, .accept, _ => l

/-- The actions that are in order in each phase. -/
def lockOk (l : BrokerPhase) : {β : Type} → BrokerEff β → β → Prop
  | _, .start, _ => l = .idle
  | _, .mkdirLock, _ => l = .idle
  | _, .writePid, _ => l = .made
  | _, .readPid, _ => l = .idle
  | _, .kill pid, _ => l = .read pid
  | _, .statLock, _ => l = .unread
  | _, .now, _ => l = .idle ∨ ∃ modTime, l = .statted modTime
  | _, .readLockDir, _ => ∃ own, l = .removing own false
  | _, .removePid, _ => (∃ own, l = .removing own true) ∨ l = .holding false false
  | _, .removeLock, _ => (∃ own tried, l = .removing own tried) ∨ ∃ removed, l = .released removed
  | _, .newClient, _ => ∃ client listening, l = .holding client listening
  | _, .closeClient, _ => ∃ client listening, l = .holding client listening
  | _, .removeSocket, _ => ∃ client listening, l = .holding client listening
  | _, .listen, _ => ∃ client listening, l = .holding client listening
  | _, .closeListener, _ => ∃ client listening, l = .holding client listening
  | _, .ensureSocketDir, _ => True
  | _, .ping, _ => True
  | _, .sleep, _ => True
  | _, .chmodSocket, _ => True
  | _, .accept, _ => True

/-- The monitor of the lock. -/
def locking : Monitor BrokerEff BrokerPhase where
  start := .idle
  ok := fun l e b => lockOk l e b
  next := fun l e b => lockNext P l e b

variable {P} {can : {β : Type} → BrokerEff β → β → Prop} {socketPath : String}

/-- A removal of the whole directory ends in the idle phase. -/
theorem locking_removeAllLock {own : Bool} :
    (locking P).Conforms can removeAllLock (.removing own false) fun _ l => l = .idle := by
  intro r _
  refine ⟨.inl ⟨own, false, rfl⟩, ?_⟩
  -- The rest of the removal, when the first attempt has failed.
  have hrest : (locking P).Conforms can
      (do
        if ← perform .readLockDir then
          let _ ← perform .removePid
          let _ ← perform .removeLock
          ret ()
        else
          let _ ← perform .removeLock
          ret ())
      (.removing own false) fun _ l => l = .idle := by
    intro found _
    refine ⟨⟨own, rfl⟩, ?_⟩
    cases found with
    | false => exact fun _ _ => ⟨.inl ⟨own, true, rfl⟩, rfl⟩
    | true =>
      exact fun _ _ => ⟨.inl ⟨own, rfl⟩, fun _ _ => ⟨.inl ⟨own, true, rfl⟩, rfl⟩⟩
  cases r with
  | ok _ => rfl
  | error e =>
    cases e with
    | notExist => rfl
    | _ => exact hrest

theorem locking_brokerLockOlderThan :
    (locking P).Conforms can brokerLockOlderThan .unread
      fun r l => l = if r then .removing false false else .idle := by
  intro r _
  refine ⟨rfl, ?_⟩
  cases r with
  | error e => rfl
  | ok modTime =>
    refine fun now _ => ⟨.inr ⟨modTime, rfl⟩, ?_⟩
    change (if modTime + 2000000000 < now then BrokerPhase.removing false false else .idle) = _
    simp only [decide_eq_true_eq]

theorem locking_staleBrokerLock :
    (locking P).Conforms can (staleBrokerLock P) .idle
      fun r l => l = if r then .removing false false else .idle := by
  intro r _
  refine ⟨rfl, ?_⟩
  cases r with
  | error e => exact locking_brokerLockOlderThan
  | ok text =>
    change (locking P).Conforms can (match P.atoi text with | none => _ | some pid => _)
      (match P.atoi text with
        | none => .unread
        | some pid => if pid ≤ 0 then .removing false false else .read pid) _
    cases P.atoi text with
    | none => exact locking_brokerLockOlderThan
    | some pid =>
      dsimp only [brokerProcessAlive]
      split
      · rfl
      · refine fun alive _ => ⟨rfl, ?_⟩
        cases alive <;> rfl

theorem locking_acquireRound {deadline : Nat} :
    (locking P).Conforms can (acquireRound P socketPath deadline).run .idle
      fun r l => match r with
        | .ok none => l = .idle
        | .ok (some _) => l = .holding false false
        | .error _ => l = .idle := by
  refine conforms_attempt_call_bind fun r _ => ⟨rfl, ?_⟩
  cases r with
  | ok _ =>
    refine conforms_attempt_call_bind fun r _ => ⟨rfl, ?_⟩
    cases r with
    | ok _ => rfl
    | error e =>
      refine conforms_run_bind.mpr (conforms_bind.mpr ?_)
      exact conforms_mono (fun _ l h => h) locking_removeAllLock
  | error e =>
    dsimp only
    split
    · rfl
    refine conforms_sect_bind fun answered _ => ⟨trivial, ?_⟩
    cases answered with
    | true => rfl
    | false =>
      refine conforms_run_bind.mpr (conforms_bind.mpr ?_)
      refine conforms_mono ?_ locking_staleBrokerLock
      rintro stale l rfl
      cases stale with
      | true =>
        refine conforms_run_bind.mpr (conforms_bind.mpr ?_)
        exact conforms_mono (fun _ l h => h) locking_removeAllLock
      | false =>
        refine conforms_sect_bind fun now _ => ⟨.inl rfl, ?_⟩
        split
        · rfl
        refine conforms_sect_bind fun awake _ => ⟨trivial, ?_⟩
        cases awake <;> rfl

theorem locking_acquireBrokerLock :
    (locking P).Conforms can (acquireBrokerLock P socketPath).run .idle
      fun r l => match r with
        | .ok _ => l = .holding false false
        | .error _ => l = .idle := by
  refine conforms_sect_bind fun now _ => ⟨.inl rfl, ?_⟩
  refine conforms_forever (· = .idle) rfl ?_
  rintro l rfl
  refine conforms_mono ?_ locking_acquireRound
  intro r l h
  cases r with
  | error e => exact h
  | ok r =>
    cases r with
    | none | some _ => exact h

theorem locking_listenAndAccept {client : Bool} :
    (locking P).Conforms can listenAndAccept.run (.holding client false)
      fun _ l => l = .holding client false := by
  refine conforms_call_bind (fun _ _ => ⟨⟨_, _, rfl⟩, ?_⟩) fun _ _ => ⟨⟨_, _, rfl⟩, rfl⟩
  refine conforms_deferred.mpr (conforms_mono (Q := fun _ l =>
    l = .holding client true) ?_ ?_)
  · rintro r l rfl
    exact fun _ _ => ⟨⟨_, _, rfl⟩, fun _ _ => ⟨⟨_, _, rfl⟩, rfl⟩⟩
  · refine conforms_call_bind (fun _ _ => ⟨trivial, ?_⟩) fun _ _ => ⟨trivial, rfl⟩
    refine conforms_forever (· = .holding client true) rfl ?_
    rintro l rfl
    refine conforms_sect_bind fun r _ => ⟨trivial, ?_⟩
    cases r with
    | none => rfl
    | some r => cases r <;> rfl

theorem locking_serveBroker {client : Bool} :
    (locking P).Conforms can serveBroker.run (.holding client false)
      fun _ l => l = .holding client false := by
  refine conforms_attempt_call_bind fun r _ => ⟨⟨_, _, rfl⟩, ?_⟩
  cases r with
  | ok _ => exact locking_listenAndAccept
  | error e =>
    dsimp only
    split
    · exact locking_listenAndAccept
    · rfl

theorem locking_runBroker :
    (locking P).Conforms can (runBroker P socketPath).run .idle fun _ l => l = .idle := by
  refine conforms_sect_bind fun _ _ => ⟨rfl, ?_⟩
  refine conforms_call_bind (fun _ _ => ⟨trivial, ?_⟩) fun _ _ => ⟨trivial, rfl⟩
  refine conforms_sect_bind fun answered _ => ⟨trivial, ?_⟩
  cases answered with
  | true => rfl
  | false =>
    refine conforms_run_bind.mpr (conforms_mono ?_ locking_acquireBrokerLock)
    intro r l h
    cases r with
    | error e => exact h
    | ok _ =>
      obtain rfl := h
      refine conforms_deferred.mpr (conforms_mono (Q := fun _ l =>
        l = .holding false false) ?_ ?_)
      · rintro r l rfl
        intro r _
        refine ⟨.inr rfl, ?_⟩
        cases r with
        | ok _ => exact fun _ _ => ⟨.inr ⟨true, rfl⟩, rfl⟩
        | error e => exact fun _ _ => ⟨.inr ⟨false, rfl⟩, rfl⟩
      · refine conforms_call_bind (fun _ _ => ⟨⟨_, _, rfl⟩, ?_⟩)
          fun _ _ => ⟨⟨_, _, rfl⟩, rfl⟩
        refine conforms_deferred.mpr (conforms_mono ?_ locking_serveBroker)
        rintro r l rfl
        exact fun _ _ => ⟨⟨_, _, rfl⟩, rfl⟩

end Phases

end Firedoze
