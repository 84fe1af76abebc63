import Firedoze.Idle.Check

/-!
# Client sessions and the idle monitor

A client that opens a session touches the VM, and then again at every tick of
`activityHeartbeatInterval`.  The client computes the interval from the
threshold that `Server.vmInfo` reports, and the daemon computes its own
threshold.  `Session` is a session on one clock with the row of its VM.  A
heartbeat is recorded at the instant it fires, so time does not pass it.
Everything else that records activity may happen at any instant: traffic of
the session, other clients, the proxies, a start.

`Session.Recent` is the invariant: the last stamp is no older than one
interval and one millisecond.  `session_stays_awake_iff` says for which
thresholds this is enough.  The floor of one second in the interval leaves no
room for a threshold of one second (`heartbeat_too_late`), and neither for one
that wraps around to little more than a second.
-/

namespace Firedoze

open Relation

/-! ## The session -/

/-- `activityHeartbeatInterval` of a VM that is reported with the given
threshold. -/
def activityHeartbeatInterval (seconds : Int) : Int :=
  if seconds ≤ 0 then 0
  else if (secondsDuration seconds).tdiv 4 < second then second
  else (secondsDuration seconds).tdiv 4

/-- A session that is alive: the clock, the row of the VM, and the instant of
the next heartbeat. -/
structure Session where
  clock : Nat
  vm : IdleVM
  nextTick : Nat
  deriving DecidableEq, Repr

/-- What happens while a session is alive. -/
inductive SessionEvent
  | wait (duration : Nat)
  | heartbeat
  | touch
  | setVMState (state : VMState)
  deriving DecidableEq, Repr

namespace Session

variable (cfg : IdleConfig)

/-- The interval of the heartbeats, in nanoseconds. -/
def interval (vm : IdleVM) : Nat := (activityHeartbeatInterval (cfg.thresholdSeconds vm)).toNat

/-- `activitySession`: the first touch, and the start of the ticker. -/
def opened (vm : IdleVM) (clock : Nat) : Session where
  clock := clock
  vm := vm.touch clock
  nextTick := clock + interval cfg vm

/-- One event. -/
def step (s : Session) : SessionEvent → Option Session
  | .wait duration =>
      if s.clock + duration ≤ s.nextTick then some { s with clock := s.clock + duration } else none
  | .heartbeat =>
      if s.clock = s.nextTick then
        some { s with vm := s.vm.touch s.clock, nextTick := s.nextTick + interval cfg s.vm }
      else none
  | .touch => some { s with vm := s.vm.touch s.clock }
  | .setVMState state => some { s with vm := s.vm.setState state s.clock }

/-- The states of a session after any number of events. -/
def Reaches : Session → Session → Prop := ReflTransGen fun s s' => ∃ e, step cfg s e = some s'

/-! ## The age of the last stamp -/

/-- The next heartbeat is at most one interval away, and the last stamp is no
older than one interval and one millisecond when it comes. -/
structure Recent (vm₀ : IdleVM) (s : Session) : Prop where
  setting : s.vm.idleSleepAfterSeconds = vm₀.idleSleepAfterSeconds
  ahead : s.clock ≤ s.nextTick
  near : s.nextTick ≤ s.clock + interval cfg vm₀
  stamp : ∃ last, s.vm.lastActivity = some last ∧
    s.nextTick < last + interval cfg vm₀ + 1000000

variable {cfg} {vm₀ : IdleVM} {s s' : Session}

theorem interval_congr {vm vm' : IdleVM}
    (h : vm.idleSleepAfterSeconds = vm'.idleSleepAfterSeconds) :
    interval cfg vm = interval cfg vm' := by
  simp only [interval, IdleConfig.thresholdSeconds, h]

/-- A stamp that is written now is recent enough. -/
theorem lt_of_stamped {clock nextTick d : Nat} (h : nextTick ≤ clock + d) :
    nextTick < parseStamp (strftimeNow clock) + d + 1000000 := by
  have := (parseStamp_strftimeNow clock).2
  omega

theorem recent_opened (clock : Nat) : Recent cfg vm₀ (opened cfg vm₀ clock) where
  setting := rfl
  ahead := Nat.le_add_right _ _
  near := le_rfl
  stamp := ⟨_, vm₀.lastActivity_touch clock, lt_of_stamped le_rfl⟩

/-- Every event keeps the last stamp recent. -/
theorem Recent.step {e : SessionEvent} (h : Recent cfg vm₀ s) (hs : step cfg s e = some s') :
    Recent cfg vm₀ s' := by
  cases e with
  | wait duration =>
    simp only [Session.step, Option.ite_none_right_eq_some, Option.some.injEq] at hs
    obtain ⟨hle, rfl⟩ := hs
    exact ⟨h.setting, hle, h.near.trans (by simp only; omega), h.stamp⟩
  | heartbeat =>
    simp only [Session.step, Option.ite_none_right_eq_some, Option.some.injEq] at hs
    obtain ⟨htick, rfl⟩ := hs
    have hint : interval cfg s.vm = interval cfg vm₀ := interval_congr h.setting
    have hnear : s.nextTick + interval cfg s.vm ≤ s.clock + interval cfg vm₀ := by
      rw [hint, htick]
    exact ⟨h.setting, h.ahead.trans (Nat.le_add_right _ _), hnear,
      ⟨_, s.vm.lastActivity_touch s.clock, lt_of_stamped hnear⟩⟩
  | touch =>
    obtain rfl : _ = s' := Option.some.inj hs
    exact ⟨h.setting, h.ahead, h.near,
      ⟨_, s.vm.lastActivity_touch s.clock, lt_of_stamped h.near⟩⟩
  | setVMState state =>
    obtain rfl : _ = s' := Option.some.inj hs
    refine ⟨h.setting, h.ahead, h.near, ?_⟩
    by_cases hr : state = .running
    · exact ⟨_, by simp [IdleVM.setState, IdleVM.lastActivity, hr], lt_of_stamped h.near⟩
    · obtain ⟨last, hlast, hlt⟩ := h.stamp
      exact ⟨last, by simpa [IdleVM.setState, IdleVM.lastActivity, hr] using hlast, hlt⟩

theorem recent_reaches {clock : Nat} (h : Reaches cfg (opened cfg vm₀ clock) s) :
    Recent cfg vm₀ s := by
  induction h with
  | refl => exact recent_opened clock
  | tail _ hs ih =>
    obtain ⟨e, he⟩ := hs
    exact ih.step he

end Session

/-! ## Which thresholds a session can keep up with -/

/-- The interval of a threshold that is in force. -/
theorem activityHeartbeatInterval_cases {seconds : Int} (h : 1 ≤ seconds) :
    (activityHeartbeatInterval seconds = 1000000000 ∧ secondsDuration seconds < 4000000000) ∨
      (activityHeartbeatInterval seconds = secondsDuration seconds / 4 ∧
        4000000000 ≤ secondsDuration seconds) := by
  unfold activityHeartbeatInterval second
  rw [if_neg (by omega)]
  generalize secondsDuration seconds = d
  have hdiv : 0 ≤ d → d.tdiv 4 = d / 4 := fun hd => Int.tdiv_eq_ediv_of_nonneg hd
  have hneg : d < 0 → d.tdiv 4 = -(-d / 4) := fun hd => by
    rw [← Int.tdiv_eq_ediv_of_nonneg (by omega : 0 ≤ -d), Int.neg_tdiv, neg_neg]
  by_cases hd : 0 ≤ d
  · rw [hdiv hd]
    split_ifs <;> omega
  · have := hneg (by omega)
    rw [if_pos (by omega)]
    omega

theorem threshold_cases (cfg : IdleConfig) (vm : IdleVM) :
    cfg.threshold vm = cfg.thresholdSeconds vm * 1000000000 % 2 ^ 64 ∧
        cfg.threshold vm < 2 ^ 63 ∨
      cfg.threshold vm < 0 ∧ 2 ^ 63 ≤ cfg.thresholdSeconds vm * 1000000000 % 2 ^ 64 := by
  rcases secondsDuration_eq (cfg.thresholdSeconds vm) with ⟨he, hlt⟩ | hneg
  · exact .inl ⟨he, by rw [IdleConfig.threshold, he]; exact hlt⟩
  · exact .inr hneg

/-- The thresholds that are long enough: after the wrap to 64 bits they are
not positive, or they are longer than a heartbeat interval and the
millisecond that a stamp can lose. -/
theorem outlasts_iff {cfg : IdleConfig} {vm : IdleVM} (hn : 1 ≤ cfg.thresholdSeconds vm) :
    (0 < cfg.threshold vm → Session.interval cfg vm + 999999 < cfg.threshold vm) ↔
      (cfg.thresholdSeconds vm * 1000000000 % 2 ^ 64 = 0 ∨
        1001000000 ≤ cfg.thresholdSeconds vm * 1000000000 % 2 ^ 64) := by
  have hmod : 0 ≤ cfg.thresholdSeconds vm * 1000000000 % 2 ^ 64 :=
    Int.emod_nonneg _ (by norm_num)
  have hint := activityHeartbeatInterval_cases hn
  rw [← IdleConfig.threshold] at hint
  unfold Session.interval
  rcases threshold_cases cfg vm with ⟨he, -⟩ | ⟨hneg, hge⟩
  · rw [← he] at hmod ⊢
    omega
  · norm_num at hge
    omega

/-- A session keeps its VM from being found idle, whatever the schedule of
the checks, exactly when the threshold is, after the wrap to 64 bits, not
positive or longer than one second and one millisecond.  A check may take
place in any state of the session, and its `now` may be older than the
listing. -/
theorem session_stays_awake_iff (cfg : IdleConfig) (vm : IdleVM)
    (hn : 1 ≤ cfg.thresholdSeconds vm) :
    (∀ clock s, Session.Reaches cfg (.opened cfg vm clock) s →
        ∀ now ≤ s.clock, cfg.idleFor s.vm now = none) ↔
      (cfg.thresholdSeconds vm * 1000000000 % 2 ^ 64 = 0 ∨
        1001000000 ≤ cfg.thresholdSeconds vm * 1000000000 % 2 ^ 64) := by
  rw [← outlasts_iff hn]
  constructor
  · intro hawake hpos
    by_contra hlong
    -- The session is opened at the end of a millisecond, and the check takes
    -- place at the instant of the first heartbeat, before it is recorded.
    let s : Session := .opened cfg vm 999999
    have hwait : Session.Reaches cfg s
        ⟨s.nextTick, s.vm.setState .running s.clock, s.nextTick⟩ := by
      refine .tail (.tail .refl ⟨.setVMState .running, rfl⟩)
        ⟨.wait (Session.interval cfg vm), ?_⟩
      simp only [Session.step, s, Session.opened, le_refl, if_true]
    have hnone := hawake 999999 _ hwait s.nextTick le_rfl
    have hsome : (cfg.idleFor (s.vm.setState .running s.clock) s.nextTick).isSome := by
      have hstamp : parseStamp (strftimeNow 999999) = 0 := by decide
      refine IdleConfig.idleFor_isSome_iff.mpr ⟨rfl, hpos, 0, congrArg some hstamp, ?_⟩
      simp only [s, Session.opened, Nat.cast_zero, zero_add]
      change cfg.threshold vm ≤ _
      push_cast
      omega
    simp [hnone] at hsome
  · intro hlong clock s hs now hnow
    by_contra hidle
    obtain ⟨-, hpos, last, hlast, hle⟩ :=
      IdleConfig.idleFor_isSome_iff.mp (Option.isSome_iff_ne_none.mpr hidle)
    have hrec := Session.recent_reaches hs
    obtain ⟨last', hlast', hlt⟩ := hrec.stamp
    obtain rfl : last = last' := Option.some.inj (hlast.symm.trans hlast')
    have hthr : cfg.threshold s.vm = cfg.threshold vm := by
      simp only [IdleConfig.threshold, IdleConfig.thresholdSeconds, hrec.setting]
    rw [hthr] at hpos hle
    have := hlong hpos
    have := hrec.ahead
    omega

/-- Two seconds are long enough, and the session is not disturbed. -/
theorem session_stays_awake_iff_two :
    IdleConfig.thresholdSeconds ⟨2⟩ ⟨0, .running, 0, none, none⟩ = 2 ∧
      ∀ clock s, Session.Reaches ⟨2⟩ (.opened ⟨2⟩ ⟨0, .running, 0, none, none⟩ clock) s →
        ∀ now ≤ s.clock, IdleConfig.idleFor ⟨2⟩ s.vm now = none :=
  ⟨by decide,
    (session_stays_awake_iff ⟨2⟩ ⟨0, .running, 0, none, none⟩ (by decide)).mpr (by decide)⟩

/-- With a threshold of one second, a check at the instant of the first
heartbeat finds the VM of a live session idle. -/
theorem heartbeat_too_late :
    ∃ s, Session.Reaches ⟨300⟩ (.opened ⟨300⟩ ⟨0, .running, 1, none, none⟩ 0) s ∧
      IdleConfig.idleFor ⟨300⟩ s.vm s.clock = some 1000000000 :=
  ⟨⟨1000000000, ⟨0, .running, 1, none, some 0⟩, 1000000000⟩,
    .tail .refl ⟨.wait 1000000000, by decide⟩, by decide⟩

end Firedoze
