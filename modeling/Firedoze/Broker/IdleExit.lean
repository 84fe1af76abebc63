import Mathlib.Data.List.Basic
import Mathlib.Logic.Relation

/-!
# When the broker leaves because it is idle

The accept loop of `RunBroker` counts its connections in `active` and keeps the
time of the last activity in `lastActive`.  Each connection is handled by a
goroutine of its own.  Time passes, clients connect, the loop and the
goroutines take their steps in any order.  Loads and stores of the two atomic
variables are one step each.

The goroutine stores into `lastActive` when it ends, but the argument of the
deferred call is evaluated when it starts.  So the end of a connection is
recorded with the time of its start, and a broker can leave a moment after a
long connection (`leaves_after_long_connection`).

The listener is closed by a deferred call, so a client can still connect when
the loop has decided to leave.

`Steady` is the condition: when the loop has found no connection, none waits
for `Accept`, and none was being handled at the instant one timeout ago; and no
client connects from then on.
`Tracked.covered` is the invariant that carries the proof: what `lastActive`
holds is not before a connection was made, or it comes from a goroutine that
ended after that.
-/

namespace Firedoze.Broker

open Relation

/-! ## The state -/

/-- How far a connection is.  `accepted` and `counted` belong to the accept
loop, what follows to the goroutine.  `stamp` is the argument of the deferred
store. -/
inductive ConnPhase
  | pending
  | accepted
  | counted
  | spawned
  | handling (stamp : Nat)
  | closed (stamp closedAt : Nat)
  | stored (stamp closedAt storedAt : Nat)
  | done (stamp closedAt storedAt : Nat)
  deriving DecidableEq, Repr

/-- A connection of a client, with the time at which it was made. -/
structure BrokerConn where
  connectedAt : Nat
  phase : ConnPhase
  deriving DecidableEq, Repr

/-- Where the accept loop is.  `leaving` is the decision to return because of
idleness, `idle` the end of the deferred calls, with its time, and `failed` the
return because of an error. -/
inductive AcceptLoop
  | top
  | accepting (deadline : Nat)
  | accepted (i : Nat)
  | counted (i : Nat)
  | timedOut
  | noneActive
  | loaded (last : Nat)
  | leaving
  | idle (returned : Nat)
  | failed
  deriving DecidableEq, Repr

/-- The state of the broker.  Times are nanoseconds. -/
structure BrokerRun where
  clock : Nat
  loop : AcceptLoop
  active : Int
  lastActive : Nat
  conns : List BrokerConn
  deriving DecidableEq, Repr

/-- The state before the loop. -/
def BrokerRun.start (clock : Nat) : BrokerRun := ⟨clock, .top, 0, clock, []⟩

/-! ## The steps -/

/-- What happens next.  `accept`, `timeout` and `fail` are the ways in which
`Accept` returns. -/
inductive BrokerStep
  | wait (duration : Nat)
  | connect
  | accept (i : Nat)
  | timeout
  | fail
  | loop
  | conn (i : Nat)
  deriving DecidableEq, Repr

namespace BrokerRun

variable (idleTimeout : Nat) (s : BrokerRun)

/-- The listener is open. -/
def listens : Bool :=
  match s.loop with
  | .idle _ => false
  | .failed => false
  | _ => true

/-- `Accept` returns a connection. -/
def accept (i : Nat) : Option BrokerRun :=
  match s.loop, s.conns[i]? with
  | .accepting _, some ⟨t, .pending⟩ =>
      some { s with loop := .accepted i, conns := s.conns.set i ⟨t, .accepted⟩ }
  | _, _ => none

/-- `Accept` returns an error, at its deadline or for another reason. -/
def acceptError (timeout : Bool) : Option BrokerRun :=
  match s.loop with
  | .accepting deadline =>
      if timeout = false then some { s with loop := .failed }
      else if deadline ≤ s.clock then some { s with loop := .timedOut }
      else none
  | _ => none

/-- The other steps of the accept loop. -/
def loopStep : Option BrokerRun :=
  match s.loop with
  | .top => some { s with loop := .accepting (s.clock + 30 * 1000000000) }
  | .accepted i =>
      match s.conns[i]? with
      | some ⟨t, .accepted⟩ =>
          some
            { s with
              loop := .counted i
              active := s.active + 1
              conns := s.conns.set i ⟨t, .counted⟩ }
      | _ => none
  | .counted i =>
      match s.conns[i]? with
      | some ⟨t, .counted⟩ =>
          some
            { s with
              loop := .top
              lastActive := s.clock
              conns := s.conns.set i ⟨t, .spawned⟩ }
      | _ => none
  | .timedOut => some { s with loop := if s.active = 0 then .noneActive else .top }
  | .noneActive => some { s with loop := .loaded s.lastActive }
  | .loaded last =>
      some { s with loop := if last + idleTimeout < s.clock then .leaving else .top }
  | .leaving => some { s with loop := .idle s.clock }
  | _ => none

/-- A step of the goroutine of a connection.  The handler ends whenever it
likes. -/
def connStep (i : Nat) : Option BrokerRun :=
  match s.conns[i]? with
  | some ⟨t, .spawned⟩ => some { s with conns := s.conns.set i ⟨t, .handling s.clock⟩ }
  | some ⟨t, .handling stamp⟩ =>
      some { s with conns := s.conns.set i ⟨t, .closed stamp s.clock⟩ }
  | some ⟨t, .closed stamp closedAt⟩ =>
      some
        { s with
          lastActive := stamp
          conns := s.conns.set i ⟨t, .stored stamp closedAt s.clock⟩ }
  | some ⟨t, .stored stamp closedAt storedAt⟩ =>
      some
        { s with
          active := s.active - 1
          conns := s.conns.set i ⟨t, .done stamp closedAt storedAt⟩ }
  | _ => none

def step : BrokerStep → Option BrokerRun
  | .wait duration => some { s with clock := s.clock + duration }
  | .connect =>
      if s.listens then some { s with conns := s.conns ++ [⟨s.clock, .pending⟩] } else none
  | .accept i => s.accept i
  | .timeout => s.acceptError true
  | .fail => s.acceptError false
  | .loop => s.loopStep idleTimeout
  | .conn i => s.connStep i

end BrokerRun

/-! ## The condition and the property -/

/-- When the client side is closed. -/
def BrokerConn.closedAt (c : BrokerConn) : Option Nat :=
  match c.phase with
  | .closed _ e => some e
  | .stored _ e _ => some e
  | .done _ e _ => some e
  | _ => none

/-- What the goroutine has stored, and when. -/
def BrokerConn.store (c : BrokerConn) : Option (Nat × Nat) :=
  match c.phase with
  | .stored stamp _ t => some (stamp, t)
  | .done stamp _ t => some (stamp, t)
  | _ => none

/-- The accept loop is about to compare the time with `lastActive`. -/
def AcceptLoop.isLoaded : AcceptLoop → Bool
  | .loaded _ => true
  | _ => false

/-- The condition on a step.  When the loop has found no connection, none
waits, and each one that has been handled ended more than one timeout ago, or
was made within it.  No client connects when the loop has decided to leave. -/
def Steady (idleTimeout : Nat) (s : BrokerRun) : BrokerStep → Prop
  | .connect => s.loop ≠ .leaving
  | .loop => s.loop.isLoaded = true → ∀ c ∈ s.conns, c.phase ≠ .pending ∧
      ∀ a ∈ c.store, a.2 + idleTimeout < s.clock ∨ s.clock ≤ c.connectedAt + idleTimeout
  | _ => True

instance (idleTimeout : Nat) (s : BrokerRun) : DecidablePred (Steady idleTimeout s)
  | .loop => inferInstanceAs (Decidable (_ → _))
  | .wait _ => inferInstanceAs (Decidable True)
  | .connect => inferInstanceAs (Decidable (_ ≠ _))
  | .accept _ => inferInstanceAs (Decidable True)
  | .timeout => inferInstanceAs (Decidable True)
  | .fail => inferInstanceAs (Decidable True)
  | .conn _ => inferInstanceAs (Decidable True)

/-- The states that a run reaches when all of its steps meet a condition. -/
def BrokerRun.Reaches (idleTimeout : Nat) (K : BrokerRun → BrokerStep → Prop) :
    BrokerRun → BrokerRun → Prop :=
  ReflTransGen fun s s' => ∃ e, K s e ∧ s.step idleTimeout e = some s'

/-! ## The invariant -/

/-- The times of a connection are in order. -/
def BrokerConn.Ordered (clock : Nat) (c : BrokerConn) : Prop :=
  match c.phase with
  | .handling stamp => c.connectedAt ≤ stamp ∧ stamp ≤ clock
  | .closed stamp e => c.connectedAt ≤ stamp ∧ stamp ≤ e ∧ e ≤ clock
  | .stored stamp e t => c.connectedAt ≤ stamp ∧ stamp ≤ e ∧ e ≤ t ∧ t ≤ clock
  | .done stamp e t => c.connectedAt ≤ stamp ∧ stamp ≤ e ∧ e ≤ t ∧ t ≤ clock
  | _ => c.connectedAt ≤ clock

/-- The connection is counted in `active`. -/
def ConnPhase.busy : ConnPhase → Bool
  | .pending => false
  | .accepted => false
  | .done _ _ _ => false
  | _ => true

/-- The goroutine of the connection has been started. -/
def ConnPhase.started : ConnPhase → Bool
  | .pending => false
  | .accepted => false
  | .counted => false
  | _ => true

/-- The connection that the accept loop holds and that has no goroutine yet. -/
def AcceptLoop.held : AcceptLoop → Option Nat
  | .accepted i => some i
  | .counted i => some i
  | _ => none

/-- The accept loop has found no connection. -/
def AcceptLoop.quiet : AcceptLoop → Bool
  | .noneActive => true
  | .loaded _ => true
  | .leaving => true
  | .idle _ => true
  | _ => false

/-- The time at which the loop has left, or leaves if it does so now. -/
def AcceptLoop.leftAt (clock : Nat) : AcceptLoop → Option Nat
  | .leaving => some clock
  | .idle returned => some returned
  | _ => none

theorem AcceptLoop.leftAt_eq_none {loop : AcceptLoop} (clock : Nat) (h : loop.quiet = false) :
    loop.leftAt clock = none := by
  cases loop <;> first | rfl | cases h

/-- `lastActive` is not before the given time, or comes from a goroutine that
ended after it. -/
def BrokerRun.Covers (s : BrokerRun) (time : Nat) : Prop :=
  time ≤ s.lastActive ∨ ∃ d ∈ s.conns, ∃ t, d.store = some (s.lastActive, t) ∧ time ≤ t

/-- The invariant of the broker. -/
structure Tracked (idleTimeout : Nat) (s : BrokerRun) : Prop where
  ordered : ∀ c ∈ s.conns, c.Ordered s.clock
  active : s.active = s.conns.countP (·.phase.busy)
  held : ∀ i c, s.conns[i]? = some c → c.phase.started = false →
    c.phase = .pending ∨ s.loop.held = some i
  quiet : s.loop.quiet = true → ∀ c ∈ s.conns, c.phase.busy = false
  loaded : ∀ last, s.loop = .loaded last → last = s.lastActive
  covered : ∀ c ∈ s.conns, c.phase.started = true → s.Covers c.connectedAt
  left : ∀ returned, s.loop.leftAt s.clock = some returned →
    ∀ c ∈ s.conns, ∃ e, c.closedAt = some e ∧ e + idleTimeout < returned

section Invariant

variable {idleTimeout : Nat} {s s' : BrokerRun} {c c' d : BrokerConn} {i clock clock' : Nat}

theorem BrokerConn.Ordered.connectedAt_le (h : c.Ordered clock) : c.connectedAt ≤ clock := by
  unfold Ordered at h
  split at h <;> omega

theorem BrokerConn.Ordered.later (h : c.Ordered clock) (hle : clock ≤ clock') :
    c.Ordered clock' := by
  unfold Ordered at h ⊢
  split at h <;> simp_all <;> omega

/-- The goroutine of a connection stores no earlier than the client side is
closed, and stores a time that is not before the connection. -/
theorem BrokerConn.Ordered.of_store {stamp t : Nat} (h : c.Ordered clock)
    (hstore : c.store = some (stamp, t)) :
    c.connectedAt ≤ stamp ∧ ∃ e, c.closedAt = some e ∧ e ≤ t := by
  unfold Ordered at h
  unfold store at hstore
  unfold closedAt
  split at h <;> simp_all

/-- A member stays when another place is set. -/
theorem mem_set_or (c' : BrokerConn) {l : List BrokerConn} (hd : d ∈ l) (hi : l[i]? = some c) :
    d ∈ l.set i c' ∨ d = c := by
  obtain ⟨j, hj⟩ := List.mem_iff_getElem?.mp hd
  by_cases hij : i = j
  · subst hij
    exact .inr (Option.some.inj (hj.symm.trans hi))
  · exact .inl (List.mem_of_getElem? (by rw [List.getElem?_set_ne hij]; exact hj))

theorem countP_set_of_getElem? (c' : BrokerConn) {l : List BrokerConn}
    {p : BrokerConn → Bool} (hi : l[i]? = some c) :
    (l.set i c').countP p + (if p c then 1 else 0) = l.countP p + if p c' then 1 else 0 := by
  obtain ⟨hlt, hget⟩ := List.getElem?_eq_some_iff.mp hi
  have hpos : p c = true → 0 < l.countP p := fun hc =>
    List.countP_pos_iff.mpr ⟨c, List.mem_of_getElem? hi, hc⟩
  rw [List.countP_set hlt, hget]
  by_cases hc : p c = true
  · have := hpos hc
    simp only [hc, if_true]
    omega
  · simp [hc]

/-- Old stores are still there after a step of a connection that keeps its
store. -/
theorem BrokerRun.Covers.set {time : Nat} (h : s.Covers time) (hi : s.conns[i]? = some c)
    (hstore : ∀ a, c.store = some a → c'.store = some a) {loop : AcceptLoop} {active : Int} :
    BrokerRun.Covers ⟨s.clock, loop, active, s.lastActive, s.conns.set i c'⟩ time := by
  refine h.imp id ?_
  rintro ⟨d, hd, t, hdt, hle⟩
  rcases mem_set_or c' hd hi with hmem | rfl
  · exact ⟨d, hmem, t, hdt, hle⟩
  · exact ⟨c', List.mem_set (List.getElem?_eq_some_iff.mp hi).1 c', t, hstore _ hdt, hle⟩

/-- One connection takes a step, in the accept loop or in its goroutine. -/
theorem Tracked.move (h : Tracked idleTimeout s) (hi : s.conns[i]? = some c)
    {loop : AcceptLoop} {active : Int} {lastActive : Nat} (hordered : c'.Ordered s.clock)
    (hactive : active + (if c.phase.busy then 1 else 0) =
      s.active + if c'.phase.busy then 1 else 0)
    (hkeep : ∀ j, j ≠ i → s.loop.held = some j → loop.held = some j)
    (hheld : c'.phase.started = false → loop.held = some i) (hquiet : loop.quiet = false)
    (hcovered : ∀ d ∈ s.conns.set i c', d.phase.started = true →
      BrokerRun.Covers ⟨s.clock, loop, active, lastActive, s.conns.set i c'⟩ d.connectedAt) :
    Tracked idleTimeout ⟨s.clock, loop, active, lastActive, s.conns.set i c'⟩ where
  ordered := by
    intro d hd
    rcases List.mem_or_eq_of_mem_set hd with hmem | rfl
    · exact h.ordered d hmem
    · exact hordered
  active := by
    have hcount := countP_set_of_getElem? c' (p := fun c => c.phase.busy) hi
    have hbefore := h.active
    dsimp only
    split_ifs at hactive hcount <;> omega
  held := by
    intro j d hd hstarted
    by_cases hij : i = j
    · subst hij
      rw [List.getElem?_set_self (List.getElem?_eq_some_iff.mp hi).1] at hd
      cases hd
      exact .inr (hheld hstarted)
    · rw [List.getElem?_set_ne hij] at hd
      exact (h.held j d hd hstarted).imp_right (hkeep j (Ne.symm hij))
  quiet := by
    intro hq
    rw [hquiet] at hq
    cases hq
  loaded := by
    rintro last rfl
    cases hquiet
  covered := hcovered
  left := by
    intro returned hleft
    rw [AcceptLoop.leftAt_eq_none _ hquiet] at hleft
    cases hleft

/-- The accept loop goes on without a change to the connections. -/
theorem Tracked.goto (h : Tracked idleTimeout s) {loop : AcceptLoop} (hheld : s.loop.held = none)
    (hquiet : loop.quiet = true → ∀ c ∈ s.conns, c.phase.busy = false)
    (hloaded : ∀ last, loop = .loaded last → last = s.lastActive)
    (hleft : ∀ returned, loop.leftAt s.clock = some returned →
      ∀ c ∈ s.conns, ∃ e, c.closedAt = some e ∧ e + idleTimeout < returned) :
    Tracked idleTimeout { s with loop := loop } where
  ordered := h.ordered
  active := h.active
  held := by
    intro i c hi hstarted
    refine .inl ((h.held i c hi hstarted).resolve_right ?_)
    rw [hheld]
    simp
  quiet := hquiet
  loaded := hloaded
  covered := h.covered
  left := hleft

theorem Tracked.wait (h : Tracked idleTimeout s) (duration : Nat) :
    Tracked idleTimeout { s with clock := s.clock + duration } :=
  { h with
    ordered := fun c hc => (h.ordered c hc).later (Nat.le_add_right _ _)
    left := by
      intro returned hleft c hc
      cases hloop : s.loop with
      | leaving =>
        obtain rfl : s.clock + duration = returned := by
          simpa [hloop, AcceptLoop.leftAt] using hleft
        obtain ⟨e, he, hlt⟩ := h.left s.clock (by rw [hloop]; rfl) c hc
        exact ⟨e, he, by omega⟩
      | idle t => exact h.left returned (by simpa [hloop, AcceptLoop.leftAt] using hleft) c hc
      | _ => simp [hloop, AcceptLoop.leftAt] at hleft }

theorem Tracked.connect (h : Tracked idleTimeout s) (hlistens : s.listens = true)
    (hstays : s.loop ≠ .leaving) :
    Tracked idleTimeout { s with conns := s.conns ++ [⟨s.clock, .pending⟩] } where
  ordered := by
    intro c hc
    rcases List.mem_append.mp hc with hmem | hnew
    · exact h.ordered c hmem
    · rw [List.mem_singleton.mp hnew]
      exact Nat.le_refl _
  active := by
    rw [List.countP_append]
    simpa [ConnPhase.busy] using h.active
  held := by
    intro i c hi hstarted
    rw [List.getElem?_append] at hi
    split_ifs at hi with hlt
    · exact h.held i c hi hstarted
    · obtain rfl : c = ⟨s.clock, .pending⟩ := List.mem_singleton.mp (List.mem_of_getElem? hi)
      exact .inl rfl
  quiet := by
    intro hquiet c hc
    rcases List.mem_append.mp hc with hmem | hnew
    · exact h.quiet hquiet c hmem
    · rw [List.mem_singleton.mp hnew]
      rfl
  loaded := h.loaded
  covered := by
    intro c hc hstarted
    rcases List.mem_append.mp hc with hmem | hnew
    · refine (h.covered c hmem hstarted).imp id ?_
      rintro ⟨d, hd, hstore⟩
      exact ⟨d, List.mem_append_left _ hd, hstore⟩
    · rw [List.mem_singleton.mp hnew] at hstarted
      cases hstarted
  left := by
    intro returned hleft
    unfold BrokerRun.listens at hlistens
    cases hloop : s.loop <;> simp_all [AcceptLoop.leftAt]

/-- A connection that is handed on without a store. -/
theorem Tracked.pass (h : Tracked idleTimeout s) (hi : s.conns[i]? = some c)
    {loop : AcceptLoop} {active : Int} (hordered : c'.Ordered s.clock)
    (hactive : active + (if c.phase.busy then 1 else 0) =
      s.active + if c'.phase.busy then 1 else 0)
    (hkeep : ∀ j, j ≠ i → s.loop.held = some j → loop.held = some j)
    (hheld : c'.phase.started = false → loop.held = some i) (hquiet : loop.quiet = false)
    (hstore : ∀ a, c.store = some a → c'.store = some a)
    (hstarted : c'.phase.started = true → c.phase.started = true ∧ c'.connectedAt = c.connectedAt) :
    Tracked idleTimeout ⟨s.clock, loop, active, s.lastActive, s.conns.set i c'⟩ := by
  refine h.move hi hordered hactive hkeep hheld hquiet ?_
  intro d hd hd'
  refine BrokerRun.Covers.set ?_ hi hstore
  rcases List.mem_or_eq_of_mem_set hd with hmem | rfl
  · exact h.covered d hmem hd'
  · obtain ⟨hc, hsame⟩ := hstarted hd'
    rw [hsame]
    exact h.covered c (List.mem_of_getElem? hi) hc

/-- After a store, `lastActive` covers the whole past if it holds the present,
or if the store is that of a goroutine. -/
theorem Tracked.covers_past (h : Tracked idleTimeout s) {loop : AcceptLoop} {active : Int}
    {lastActive : Nat} (hi : s.conns[i]? = some c) (hordered : c'.Ordered s.clock)
    (hnew : lastActive = s.clock ∨ c'.store = some (lastActive, s.clock)) :
    ∀ d ∈ s.conns.set i c', d.phase.started = true →
      BrokerRun.Covers ⟨s.clock, loop, active, lastActive, s.conns.set i c'⟩ d.connectedAt := by
  intro d hd _
  have hpast : d.connectedAt ≤ s.clock := by
    rcases List.mem_or_eq_of_mem_set hd with hmem | rfl
    · exact (h.ordered d hmem).connectedAt_le
    · exact hordered.connectedAt_le
  rcases hnew with rfl | hstore
  · exact .inl hpast
  · exact .inr ⟨c', List.mem_set (List.getElem?_eq_some_iff.mp hi).1 c', s.clock, hstore, hpast⟩

theorem Tracked.accept (h : Tracked idleTimeout s) (hs : s.accept i = some s') :
    Tracked idleTimeout s' := by
  unfold BrokerRun.accept at hs
  split at hs
  case h_2 => cases hs
  rename_i deadline t hloop hi
  cases hs
  have hord := h.ordered _ (List.mem_of_getElem? hi)
  exact h.pass hi hord (by simp [ConnPhase.busy]) (by simp [hloop, AcceptLoop.held]) (fun _ => rfl)
    rfl (by simp [BrokerConn.store]) (by simp [ConnPhase.started])

theorem Tracked.acceptError {timeout : Bool} (h : Tracked idleTimeout s)
    (hs : s.acceptError timeout = some s') : Tracked idleTimeout s' := by
  unfold BrokerRun.acceptError at hs
  split at hs
  case h_2 => cases hs
  rename_i deadline hloop
  split_ifs at hs
  all_goals
    cases hs
    exact h.goto (by rw [hloop]; rfl) (by simp [AcceptLoop.quiet]) (by simp) nofun

/-- A goroutine that takes a step is counted, so the accept loop has not found
that there is none. -/
theorem Tracked.quiet_eq_false (h : Tracked idleTimeout s) (hi : s.conns[i]? = some c)
    (hbusy : c.phase.busy = true) : s.loop.quiet = false := by
  by_contra hquiet
  have := h.quiet (by simpa using hquiet) c (List.mem_of_getElem? hi)
  rw [hbusy] at this
  cases this

theorem Tracked.connStep (h : Tracked idleTimeout s) (hs : s.connStep i = some s') :
    Tracked idleTimeout s' := by
  unfold BrokerRun.connStep at hs
  split at hs
  case h_5 => cases hs
  all_goals
    rename_i hi
    have hord := h.ordered _ (List.mem_of_getElem? hi)
    have hquiet := h.quiet_eq_false hi rfl
    cases hs
  case h_1 =>
    exact h.pass hi ⟨hord, (Nat.le_refl _)⟩ (by simp [ConnPhase.busy]) (fun _ _ => id)
      (by simp [ConnPhase.started]) hquiet (by simp [BrokerConn.store]) (fun _ => ⟨rfl, rfl⟩)
  case h_2 =>
    exact h.pass hi ⟨hord.1, hord.2, (Nat.le_refl _)⟩ (by simp [ConnPhase.busy]) (fun _ _ => id)
      (by simp [ConnPhase.started]) hquiet (by simp [BrokerConn.store]) (fun _ => ⟨rfl, rfl⟩)
  case h_3 t stamp closedAt =>
    have hord' : BrokerConn.Ordered s.clock ⟨t, .stored stamp closedAt s.clock⟩ :=
      ⟨hord.1, hord.2.1, hord.2.2, Nat.le_refl _⟩
    exact h.move hi hord' (by simp [ConnPhase.busy]) (fun _ _ => id) (by simp [ConnPhase.started])
      hquiet (h.covers_past hi hord' (.inr rfl))
  case h_4 =>
    exact h.pass hi hord (by simp [ConnPhase.busy]) (fun _ _ => id) (by simp [ConnPhase.started])
      hquiet (by simp [BrokerConn.store]) (fun _ => ⟨rfl, rfl⟩)

/-- The loop leaves.  A connection that was closed within the timeout was made
within it, so `lastActive` comes from a goroutine that ended later still, and
that one was made within the timeout too. -/
theorem Tracked.leaves (h : Tracked idleTimeout s) {last : Nat} (hloop : s.loop = .loaded last)
    (hk : Steady idleTimeout s .loop) (hidle : last + idleTimeout < s.clock) :
    ∀ c ∈ s.conns, ∃ e, c.closedAt = some e ∧ e + idleTimeout < s.clock := by
  obtain rfl := h.loaded last hloop
  have hsteady := hk (by rw [hloop]; rfl)
  have hdone : ∀ c ∈ s.conns, ∃ stamp t, c.store = some (stamp, t) := by
    intro c hc
    have hbusy := h.quiet (by rw [hloop]; rfl) c hc
    have hpending := (hsteady c hc).1
    obtain ⟨i, hi⟩ := List.mem_iff_getElem?.mp hc
    have hheld := h.held i c hi
    rw [hloop] at hheld
    unfold BrokerConn.store
    cases hphase : c.phase <;>
      simp_all [ConnPhase.busy, ConnPhase.started, AcceptLoop.held]
  intro c hc
  obtain ⟨stamp, t, hstore⟩ := hdone c hc
  obtain ⟨hstamp, e, hclosed, het⟩ := (h.ordered c hc).of_store hstore
  refine ⟨e, hclosed, ?_⟩
  by_contra hlate
  have hmade : s.clock ≤ c.connectedAt + idleTimeout :=
    ((hsteady c hc).2 _ hstore).resolve_left fun hearly => hlate (by dsimp only at hearly; omega)
  have hstarted : c.phase.started = true := by
    unfold BrokerConn.store at hstore
    cases hphase : c.phase <;> simp_all [ConnPhase.started]
  rcases h.covered c hc hstarted with hlast | ⟨d, hd, t', hstore', hle⟩
  · omega
  · obtain ⟨hstamp', -⟩ := (h.ordered d hd).of_store hstore'
    have hmade' : s.clock ≤ d.connectedAt + idleTimeout :=
      ((hsteady d hd).2 _ hstore').resolve_left fun hearly => by dsimp only at hearly; omega
    omega

theorem Tracked.loopStep (h : Tracked idleTimeout s) (hk : Steady idleTimeout s .loop)
    (hs : s.loopStep idleTimeout = some s') : Tracked idleTimeout s' := by
  unfold BrokerRun.loopStep at hs
  split at hs
  case h_1 hloop =>
    cases hs
    exact h.goto (by rw [hloop]; rfl) (by simp [AcceptLoop.quiet]) (by simp) nofun
  case h_2 i hloop =>
    split at hs
    case h_2 => cases hs
    rename_i t hi
    cases hs
    have hord := h.ordered _ (List.mem_of_getElem? hi)
    exact h.pass hi hord (by simp [ConnPhase.busy]) (by simp [hloop, AcceptLoop.held])
      (fun _ => rfl) rfl (by simp [BrokerConn.store]) (by simp [ConnPhase.started])
  case h_3 i hloop =>
    split at hs
    case h_2 => cases hs
    rename_i t hi
    cases hs
    have hord := h.ordered _ (List.mem_of_getElem? hi)
    refine h.move hi hord (by simp [ConnPhase.busy]) ?_ (by simp [ConnPhase.started]) rfl
      (h.covers_past hi hord (.inl rfl))
    intro j hj hheld
    rw [hloop] at hheld
    exact absurd (Option.some.inj hheld).symm hj
  case h_4 hloop =>
    cases hs
    refine h.goto (by rw [hloop]; rfl) ?_ (by intro last; split_ifs <;> simp)
      (by intro returned; split_ifs <;> simp [AcceptLoop.leftAt])
    split_ifs with hactive
    · intro _ c hc
      have hcount : s.conns.countP (·.phase.busy) = 0 := by
        have := h.active
        omega
      simpa using List.countP_eq_zero.mp hcount c hc
    · simp [AcceptLoop.quiet]
  case h_5 hloop =>
    cases hs
    exact h.goto (by rw [hloop]; rfl) (fun _ => h.quiet (by rw [hloop]; rfl))
      (by simp [eq_comm]) nofun
  case h_6 last hloop =>
    cases hs
    refine h.goto (by rw [hloop]; rfl) (fun _ => h.quiet (by rw [hloop]; rfl))
      (by intro last; split_ifs <;> simp) ?_
    split_ifs with hidle
    · rintro returned hreturned
      cases hreturned
      exact h.leaves hloop hk hidle
    · exact nofun
  case h_7 hloop =>
    cases hs
    exact h.goto (by rw [hloop]; rfl) (fun _ => h.quiet (by rw [hloop]; rfl)) (by simp)
      fun returned hreturned => h.left returned (by rw [hloop]; exact hreturned)
  case h_8 => cases hs

theorem Tracked.step {e : BrokerStep} (h : Tracked idleTimeout s) (hk : Steady idleTimeout s e)
    (hs : s.step idleTimeout e = some s') : Tracked idleTimeout s' := by
  cases e with
  | wait duration =>
    cases hs
    exact h.wait duration
  | connect =>
    unfold BrokerRun.step at hs
    split_ifs at hs with hlistens
    cases hs
    exact h.connect hlistens hk
  | accept i => exact h.accept hs
  | timeout | fail => exact h.acceptError hs
  | loop => exact h.loopStep hk hs
  | conn i => exact h.connStep hs

theorem tracked_start (idleTimeout clock : Nat) : Tracked idleTimeout (.start clock) where
  ordered := by simp [BrokerRun.start]
  active := by simp [BrokerRun.start]
  held := by simp [BrokerRun.start]
  quiet := by simp [BrokerRun.start]
  loaded := by simp [BrokerRun.start]
  covered := by simp [BrokerRun.start]
  left := by simp [BrokerRun.start, AcceptLoop.leftAt]

theorem tracked_reaches (h : BrokerRun.Reaches idleTimeout (Steady idleTimeout) (.start clock) s) :
    Tracked idleTimeout s := by
  induction h with
  | refl => exact tracked_start idleTimeout clock
  | tail _ hstep ih =>
    obtain ⟨e, hk, hs⟩ := hstep
    exact ih.step hk hs

end Invariant

/-! ## The result -/

/-- In every run whose steps all meet the condition: when the broker has
returned because it was idle, every connection had been closed for more than
the timeout. -/
theorem leaves_only_when_idle (idleTimeout clock : Nat) (s : BrokerRun) (returned : Nat)
    (h : BrokerRun.Reaches idleTimeout (Steady idleTimeout) (.start clock) s)
    (hidle : s.loop = .idle returned) :
    ∀ c ∈ s.conns, ∃ e, c.closedAt = some e ∧ e + idleTimeout < returned :=
  (tracked_reaches h).left returned (by rw [hidle]; rfl)

/-- The run that takes the given steps, as long as they pass a test. -/
def BrokerRun.run (idleTimeout : Nat) (k : BrokerRun → BrokerStep → Bool) (s : BrokerRun) :
    List BrokerStep → Option BrokerRun
  | [] => some s
  | e :: es => if k s e then (s.step idleTimeout e).bind fun s' => run idleTimeout k s' es else none

theorem BrokerRun.reaches_run {idleTimeout : Nat} {k : BrokerRun → BrokerStep → Bool}
    {K : BrokerRun → BrokerStep → Prop} (hk : ∀ s e, k s e = true → K s e) {s s' : BrokerRun}
    {es : List BrokerStep} (h : s.run idleTimeout k es = some s') : s.Reaches idleTimeout K s' := by
  induction es generalizing s with
  | nil =>
    cases h
    exact .refl
  | cons e es ih =>
    unfold run at h
    split_ifs at h with he
    obtain ⟨s₁, hs, hrest⟩ := Option.bind_eq_some_iff.mp h
    exact (ReflTransGen.single ⟨e, hk s e he, hs⟩).trans (ih hrest)

/-- A client that connects at once, is handled for the given time, and then the
broker waits for its next deadline. -/
def oneConnection (handled waits : Nat) : List BrokerStep :=
  [.loop, .connect, .accept 0, .loop, .loop, .conn 0, .loop, .wait handled, .conn 0, .conn 0,
    .conn 0, .wait waits, .timeout, .loop, .loop, .loop, .loop]

/-- A connection of ten seconds, and a broker that leaves more than a minute
after it. -/
theorem leaves_only_when_idle_short :
    ∃ s, BrokerRun.Reaches 60000000000 (Steady 60000000000) (.start 0) s ∧
      s.loop = .idle 90000000000 ∧
      ∀ c ∈ s.conns, ∃ e, c.closedAt = some e ∧ e + 60000000000 < 90000000000 := by
  have hrun : ((BrokerRun.start 0).run 60000000000
      (fun s e => decide (Steady 60000000000 s e))
      (oneConnection 10000000000 80000000000)).any (·.loop == .idle 90000000000) = true := by
    decide
  obtain ⟨s, hs, hloop⟩ := (Option.any_eq_true _ _).mp hrun
  have hreach := BrokerRun.reaches_run (fun _ _ => of_decide_eq_true) hs
  have hidle : s.loop = .idle 90000000000 := by simpa using hloop
  exact ⟨s, hreach, hidle, leaves_only_when_idle 60000000000 0 s _ hreach hidle⟩

/-- A connection of a hundred seconds, and a broker with a timeout of a minute
that leaves one second after it. -/
theorem leaves_after_long_connection :
    ∃ s, BrokerRun.Reaches 60000000000 (fun _ _ => True) (.start 0) s ∧
      s.loop = .idle 101000000000 ∧ ∃ c ∈ s.conns, c.closedAt = some 100000000000 := by
  have hrun : ((BrokerRun.start 0).run 60000000000 (fun _ _ => true)
      (oneConnection 100000000000 1000000000)).any (fun s =>
        s.loop == .idle 101000000000 && s.conns.any (·.closedAt == some 100000000000)) = true := by
    decide
  obtain ⟨s, hs, htest⟩ := (Option.any_eq_true _ _).mp hrun
  simp only [Bool.and_eq_true, beq_iff_eq, List.any_eq_true] at htest
  exact ⟨s, BrokerRun.reaches_run (fun _ _ _ => trivial) hs, htest⟩

end Firedoze.Broker
