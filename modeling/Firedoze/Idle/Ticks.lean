import Firedoze.Idle.Monitor

/-!
# What the idle monitor does at every tick

`IdleMonitor.Run` makes one check at once and one at every tick.  An
`IdleRound` is what the monitor meets in one of them: the time, the listing,
and how the calls of `SleepVM` and `Reconcile` end.  `IdleSettings.handed`
runs the program over any number of rounds and collects the VMs that each one
hands to `SleepVM`.

The purpose of the monitor is `due`: the running VMs whose threshold, in whole
seconds, is positive and not greater than the time since their last activity.
`handed_eq_due_iff` says for which VMs the monitor does this.  There are two
obstacles.  A threshold or an interval can wrap around on its way to
nanoseconds, and `Run` gives up when the global threshold is zero, although a
VM can have a threshold of its own (`override_ignored`).
-/

namespace Firedoze

open Conc Conc.Prog

/-! ## The settings -/

/-- `config.IdleConfig`, with the interval of the checks. -/
structure IdleSettings extends IdleConfig where
  checkIntervalSeconds : Int
  deriving DecidableEq, Repr

namespace IdleSettings

variable (c : IdleSettings)

/-- `Config.Validate` of the section `idle`. -/
def validate : Except Err Unit :=
  if c.checkIntervalSeconds ≤ 0 then
    .error (.msg "idle.check_interval_seconds must be positive")
  else if c.defaultSleepAfterSeconds < 0 then
    .error (.msg "idle.default_sleep_after_seconds cannot be negative")
  else .ok ()

/-- `IdleMonitor.Run`.  There is no program when `time.NewTicker` panics, which
it does on an interval that is not positive. -/
def run : Option (Prog IdleEff Unit) :=
  if c.defaultSleepAfterSeconds = 0 then some (ret ())
  else if secondsDuration c.checkIntervalSeconds ≤ 0 then none
  else some (runIdleMonitor c.toIdleConfig)

end IdleSettings

/-! ## Rounds -/

/-- What the monitor meets in one round. -/
structure IdleRound where
  now : Nat
  vms : List IdleVM
  slept : Uuid → Except Err Unit
  reconciled : Except Err Unit

namespace IdleRound

variable (r : IdleRound) {α : Type}

/-- The answer to an action of the monitor. -/
def answer : {β : Type} → IdleEff β → β
  | _, .now => r.now
  | _, .tick => some r.now
  | _, .listVMs => .ok r.vms
  | _, .sleepVM u => r.slept u
  | _, .reconcile => r.reconciled

/-- The VMs that a program hands to `SleepVM` before it is at its `select`
again, and the program that is left then. -/
def untilSelect : {α : Type} → Prog IdleEff α → List Uuid × Prog IdleEff α
  | _, .ret a => ([], .ret a)
  | _, .loop body k => ([], .loop body k)
  | _, .act e k =>
      (e.sleeps.toList ++ (untilSelect (k (r.answer e))).1, (untilSelect (k (r.answer e))).2)

/-- What a program that is at its `select` does on a tick. -/
def onTick : Prog IdleEff α → List Uuid × Prog IdleEff α
  | .loop body k => r.untilSelect (unroll body k)
  | p => ([], p)

end IdleRound

/-- The VMs that a program at its `select` hands to `SleepVM` in each round. -/
def handedOnTicks (p : Prog IdleEff Unit) : List IdleRound → List (List Uuid)
  | [] => []
  | r :: rounds => (r.onTick p).1 :: handedOnTicks (r.onTick p).2 rounds

/-- The VMs that the monitor hands to `SleepVM` in each round.  The first round
is the check that `Run` makes at once. -/
def IdleSettings.handed (c : IdleSettings) : List IdleRound → List (List Uuid)
  | [] => []
  | r :: rounds =>
      match c.run with
      | none => [] :: rounds.map fun _ => []
      | some p => (r.untilSelect p).1 :: handedOnTicks (r.untilSelect p).2 rounds

section Rounds

variable {cfg : IdleConfig} {r : IdleRound} {α β : Type}

/-- A program that ends before the next `select` hands over its VMs, and the
rest of the program goes on from its result. -/
theorem untilSelect_bind {p : Prog IdleEff α} {f : α → Prog IdleEff β} {us : List Uuid} {a : α}
    (h : r.untilSelect p = (us, ret a)) :
    r.untilSelect (p.bind f) = (us ++ (r.untilSelect (f a)).1, (r.untilSelect (f a)).2) := by
  induction p generalizing us with
  | ret a' =>
    obtain ⟨rfl, hret⟩ := Prod.mk.inj h
    obtain rfl : a' = a := by simpa using hret
    rfl
  | loop body k => cases (Prod.mk.inj h).2
  | act e k ih =>
    obtain ⟨rfl, hret⟩ := Prod.mk.inj h
    simp [Prog.bind, IdleRound.untilSelect, ih _ (Prod.ext rfl hret)]

theorem untilSelect_sleepIdleVM (u : Uuid) : r.untilSelect (sleepIdleVM u) = ([u], ret ()) := by
  -- `SleepVM` may fail, and then there is no call of `Reconcile`.
  cases hslept : r.slept u with
  | error e | ok _ =>
    simp [sleepIdleVM, perform, Prog.bind, IdleRound.untilSelect, IdleRound.answer, hslept,
      IdleEff.sleeps]

theorem untilSelect_checkVMs {now : Nat} (vms : List IdleVM) :
    r.untilSelect (checkVMs cfg now vms) = (idleOf cfg now vms, ret ()) := by
  induction vms with
  | nil => rfl
  | cons vm vms ih =>
    rw [checkVMs, idleOf_cons]
    cases cfg.idleFor vm now with
    | none => exact ih
    | some d =>
      simpa [ih] using untilSelect_bind (f := fun _ => checkVMs cfg now vms)
        (untilSelect_sleepIdleVM (r := r) vm.uuid)

theorem untilSelect_check (cfg : IdleConfig) (r : IdleRound) :
    r.untilSelect (check cfg r.now) = (idleOf cfg r.now r.vms, ret ()) :=
  untilSelect_checkVMs r.vms

/-- A tick makes one check, and the program is at its `select` again. -/
theorem onTick_loop :
    r.onTick (loop (checkOnTick cfg) ret) =
      (idleOf cfg r.now r.vms, (loop (checkOnTick cfg) ret : Prog IdleEff Unit)) := by
  have hround : r.untilSelect (checkOnTick cfg) = (idleOf cfg r.now r.vms, ret none) := by
    have hcheck := untilSelect_bind (f := fun _ => (ret none : Prog IdleEff (Option Unit)))
      (untilSelect_check cfg r)
    simp only [IdleRound.untilSelect, List.append_nil] at hcheck
    exact hcheck
  unfold IdleRound.onTick unroll
  simp [untilSelect_bind hround, IdleRound.untilSelect]

theorem handedOnTicks_loop (rounds : List IdleRound) :
    handedOnTicks (loop (checkOnTick cfg) ret) rounds =
      rounds.map fun r => idleOf cfg r.now r.vms := by
  induction rounds with
  | nil => rfl
  | cons r rounds ih => simp [handedOnTicks, onTick_loop, ih]

theorem handedOnTicks_ret (rounds : List IdleRound) :
    handedOnTicks (ret ()) rounds = rounds.map fun _ => [] := by
  induction rounds with
  | nil => rfl
  | cons r rounds ih => simp [handedOnTicks, IdleRound.onTick, ih]

end Rounds

/-! ## When the monitor runs at all -/

namespace IdleSettings

variable {c : IdleSettings}

/-- The global threshold is not zero, and the interval is positive after the
wrap. -/
def Ticks (c : IdleSettings) : Prop :=
  c.defaultSleepAfterSeconds ≠ 0 ∧
    0 < c.checkIntervalSeconds * 1000000000 % 2 ^ 64 ∧
    c.checkIntervalSeconds * 1000000000 % 2 ^ 64 < 2 ^ 63

instance : Decidable c.Ticks := inferInstanceAs (Decidable (_ ∧ _ ∧ _))

theorem secondsDuration_pos_iff {seconds : Int} :
    0 < secondsDuration seconds ↔
      0 < seconds * 1000000000 % 2 ^ 64 ∧ seconds * 1000000000 % 2 ^ 64 < 2 ^ 63 := by
  rcases secondsDuration_eq seconds with ⟨he, hlt⟩ | ⟨hneg, hge⟩
  · rw [he]
    exact ⟨fun h => ⟨h, hlt⟩, And.left⟩
  · omega

theorem handed_of_ticks (h : c.Ticks) (rounds : List IdleRound) :
    c.handed rounds = rounds.map fun r => idleOf c.toIdleConfig r.now r.vms := by
  have hpos : ¬secondsDuration c.checkIntervalSeconds ≤ 0 :=
    not_le.mpr (secondsDuration_pos_iff.mpr h.2)
  have hrun : c.run = some (runIdleMonitor c.toIdleConfig) := by simp [run, h.1, hpos]
  cases rounds with
  | nil => rfl
  | cons r rounds =>
    have hstart : r.untilSelect (runIdleMonitor c.toIdleConfig) =
        (idleOf c.toIdleConfig r.now r.vms, loop (checkOnTick c.toIdleConfig) ret) := by
      unfold runIdleMonitor
      rw [if_neg h.1]
      have hcheck := untilSelect_bind
        (f := fun _ => (loop (checkOnTick c.toIdleConfig) ret : Prog IdleEff Unit))
        (untilSelect_check c.toIdleConfig r)
      simp only [IdleRound.untilSelect, List.append_nil] at hcheck
      exact hcheck
    simp [handed, hrun, hstart, handedOnTicks_loop]

theorem handed_of_not_ticks (h : ¬c.Ticks) (rounds : List IdleRound) :
    c.handed rounds = rounds.map fun _ => [] := by
  cases rounds with
  | nil => rfl
  | cons r rounds =>
    by_cases hzero : c.defaultSleepAfterSeconds = 0
    · simp [handed, run, hzero, IdleRound.untilSelect, handedOnTicks_ret]
    · have hpanic : secondsDuration c.checkIntervalSeconds ≤ 0 := by
        by_contra hpos
        exact h ⟨hzero, secondsDuration_pos_iff.mp (not_le.mp hpos)⟩
      simp [handed, run, hzero, hpanic]

end IdleSettings

/-! ## What the monitor is for -/

/-- The VM is running, its threshold is positive, and it has been idle for its
threshold. -/
def isDue (cfg : IdleConfig) (now : Nat) (vm : IdleVM) : Bool :=
  vm.state = .running && 0 < cfg.thresholdSeconds vm &&
    vm.lastActivity.any fun last : Nat => last + cfg.thresholdSeconds vm * 1000000000 ≤ (now : Int)

/-- The VMs of a listing that are to be put to sleep. -/
def due (cfg : IdleConfig) (now : Nat) (vms : List IdleVM) : List Uuid :=
  (vms.filter (isDue cfg now)).map (·.uuid)

/-- The monitor puts exactly the VMs that are due to sleep, whatever the rounds
show of the given rows.  A larger threshold does not make a VM sleep
earlier. -/
structure IdleSettings.Exact (c : IdleSettings) (rows : Set IdleVM) : Prop where
  handed_eq : ∀ rounds : List IdleRound, (∀ r ∈ rounds, ∀ vm ∈ r.vms, vm ∈ rows) →
    c.handed rounds = rounds.map fun r => due c.toIdleConfig r.now r.vms
  monotone : ∀ vm ∈ rows, ∀ seconds, 0 < c.thresholdSeconds vm →
    c.thresholdSeconds vm ≤ c.thresholdSeconds { vm with idleSleepAfterSeconds := seconds } →
    { vm with idleSleepAfterSeconds := seconds } ∈ rows → ∀ r : IdleRound,
    c.handed [{ r with vms := [{ vm with idleSleepAfterSeconds := seconds }] }] = [[vm.uuid]] →
    c.handed [{ r with vms := [vm] }] = [[vm.uuid]]

/-- The condition on a VM.  A positive threshold needs a monitor that ticks, and
has to fit into a duration.  One that is not positive must not become positive
in the wrap. -/
structure IdleSettings.Honours (c : IdleSettings) (vm : IdleVM) : Prop where
  fits : 0 < c.thresholdSeconds vm → c.Ticks ∧ c.thresholdSeconds vm * 1000000000 < 2 ^ 63
  never : c.thresholdSeconds vm ≤ 0 → c.Ticks →
    c.thresholdSeconds vm * 1000000000 % 2 ^ 64 = 0 ∨
      2 ^ 63 ≤ c.thresholdSeconds vm * 1000000000 % 2 ^ 64

section Exact

variable {c : IdleSettings} {cfg : IdleConfig} {vm : IdleVM}

theorem isDue_iff {now : Nat} :
    isDue cfg now vm = true ↔
      vm.state = .running ∧ 0 < cfg.thresholdSeconds vm ∧
        ∃ last, vm.lastActivity = some last ∧
          last + cfg.thresholdSeconds vm * 1000000000 ≤ now := by
  simp [isDue, Option.any_eq_true, and_assoc]

/-- For a VM that meets the condition the check of a monitor that ticks and the
purpose agree. -/
theorem idleFor_isSome_eq_isDue (ht : c.Ticks)
    (h : vm.state = .running → vm.lastActivity ≠ none → c.Honours vm) (now : Nat) :
    (c.idleFor vm now).isSome = isDue c.toIdleConfig now vm := by
  rw [Bool.eq_iff_iff, IdleConfig.idleFor_isSome_iff, isDue_iff]
  refine and_congr_right fun hrun => ?_
  cases hlast : vm.lastActivity with
  | none => simp
  | some last =>
    have hvm := h hrun (by simp [hlast])
    rcases lt_or_ge 0 (c.thresholdSeconds vm) with hpos | hneg
    · have hd : c.threshold vm = c.thresholdSeconds vm * 1000000000 :=
        secondsDuration_of_lt hpos.le (hvm.fits hpos).2
      rw [hd]
      have hpos' : 0 < c.thresholdSeconds vm * 1000000000 := by omega
      simp [hpos, hpos']
    · have hd : ¬0 < c.threshold vm := by
        intro hd
        have := IdleSettings.secondsDuration_pos_iff.mp hd
        have := hvm.never hneg ht
        omega
      simp [hd, not_lt.mpr hneg]

/-- No VM that meets the condition is due when the monitor does not tick. -/
theorem isDue_eq_false_of_not_ticks (ht : ¬c.Ticks)
    (h : vm.state = .running → vm.lastActivity ≠ none → c.Honours vm) (now : Nat) :
    isDue c.toIdleConfig now vm = false := by
  rw [Bool.eq_false_iff, Ne, isDue_iff]
  rintro ⟨hrun, hpos, last, hlast, -⟩
  exact ht ((h hrun (by simp [hlast])).fits hpos).1

theorem due_singleton {now : Nat} :
    due cfg now [vm] = if isDue cfg now vm then [vm.uuid] else [] := by
  cases h : isDue cfg now vm <;> simp [due, h]

theorem idleOf_singleton {now : Nat} :
    idleOf cfg now [vm] = if (cfg.idleFor vm now).isSome then [vm.uuid] else [] := by
  cases h : (cfg.idleFor vm now).isSome <;> simp [idleOf, h]

/-- A monitor that is exact for a VM agrees with its purpose at every time. -/
theorem IdleSettings.Exact.idleFor_iff {rows : Set IdleVM} (h : c.Exact rows) (hvm : vm ∈ rows)
    (now : Nat) : (c.Ticks ∧ (c.idleFor vm now).isSome) ↔ isDue c.toIdleConfig now vm = true := by
  have hround := h.handed_eq [⟨now, [vm], fun _ => .ok (), .ok ()⟩] (by simpa using hvm)
  by_cases ht : c.Ticks
  · rw [handed_of_ticks ht] at hround
    simp only [List.map_cons, List.map_nil, List.cons.injEq, and_true, idleOf_singleton,
      due_singleton] at hround
    simp only [ht, true_and]
    split_ifs at hround with h1 h2 h2 <;> simp_all
  · rw [handed_of_not_ticks ht] at hround
    simp only [List.map_cons, List.map_nil, List.cons.injEq, and_true, due_singleton] at hround
    simp only [ht, false_and, false_iff]
    split_ifs at hround with hdue
    simpa using hdue

/-- A monitor that is exact for a VM meets the condition.  The times at which
the threshold, with the wrap and without it, has just passed tell the two
apart. -/
theorem IdleSettings.Exact.honours {rows : Set IdleVM} (h : c.Exact rows) (hvm : vm ∈ rows)
    (hrun : vm.state = .running) {last : Nat} (hlast : vm.lastActivity = some last) :
    c.Honours vm := by
  have hiff : ∀ now : Nat, (c.Ticks ∧ 0 < c.threshold vm ∧ last + c.threshold vm ≤ now) ↔
      (0 < c.thresholdSeconds vm ∧ last + c.thresholdSeconds vm * 1000000000 ≤ now) := by
    intro now
    have := h.idleFor_iff hvm now
    rw [IdleConfig.idleFor_isSome_iff, isDue_iff] at this
    simpa [hrun, hlast] using this
  constructor
  · intro hpos
    obtain ⟨ht, hd, hle⟩ := (hiff (last + c.thresholdSeconds vm * 1000000000).toNat).mpr
      ⟨hpos, by omega⟩
    obtain ⟨-, hge⟩ := (hiff (last + c.threshold vm).toNat).mp ⟨ht, hd, by omega⟩
    refine ⟨ht, ?_⟩
    obtain ⟨-, hfit⟩ := secondsDuration_pos_iff.mp hd
    have heq : c.threshold vm = c.thresholdSeconds vm * 1000000000 := by omega
    rcases secondsDuration_eq (c.thresholdSeconds vm) with ⟨he, -⟩ | ⟨hneg, -⟩
    · rw [← heq, IdleConfig.threshold, he]
      exact hfit
    · exact absurd hd (not_lt.mpr hneg.le)
  · intro hneg ht
    have hd : ¬0 < c.threshold vm := fun hd =>
      absurd ((hiff (last + c.threshold vm).toNat).mp ⟨ht, hd, by omega⟩).1 (not_lt.mpr hneg)
    have := mt secondsDuration_pos_iff.mpr hd
    have := Int.emod_nonneg (c.thresholdSeconds vm * 1000000000) (b := 2 ^ 64) (by norm_num)
    omega

end Exact

/-- The monitor hands exactly the VMs that are due to `SleepVM`, at every tick
and for every listing of the given rows, if and only if every running row with
a recorded activity meets the condition. -/
theorem handed_eq_due_iff (c : IdleSettings) (rows : Set IdleVM) :
    c.Exact rows ↔
      ∀ vm ∈ rows, vm.state = .running → vm.lastActivity ≠ none → c.Honours vm := by
  constructor
  · intro h vm hvm hrun hlast
    obtain ⟨last, hlast⟩ := Option.ne_none_iff_exists'.mp hlast
    exact h.honours hvm hrun hlast
  · intro h
    have hexact : ∀ rounds : List IdleRound, (∀ r ∈ rounds, ∀ vm ∈ r.vms, vm ∈ rows) →
        c.handed rounds = rounds.map fun r => due c.toIdleConfig r.now r.vms := by
      intro rounds hrows
      by_cases ht : c.Ticks
      · rw [IdleSettings.handed_of_ticks ht]
        refine List.map_congr_left fun r hr => ?_
        unfold idleOf due
        rw [List.filter_congr fun vm hvm =>
          idleFor_isSome_eq_isDue ht (h vm (hrows r hr vm hvm)) r.now]
      · rw [IdleSettings.handed_of_not_ticks ht]
        refine List.map_congr_left fun r hr => ?_
        unfold due
        rw [List.filter_eq_nil_iff.mpr fun vm hvm => ?_, List.map_nil]
        simpa using isDue_eq_false_of_not_ticks ht (h vm (hrows r hr vm hvm)) r.now
    refine ⟨hexact, ?_⟩
    intro vm hvm seconds hpos hle hlong r hr
    rw [hexact _ (by simpa using hlong)] at hr
    rw [hexact _ (by simpa using hvm)]
    simp only [List.map_cons, List.map_nil, List.cons.injEq, and_true, due_singleton] at hr ⊢
    have hdue : isDue c.toIdleConfig r.now { vm with idleSleepAfterSeconds := seconds } = true := by
      by_contra hno
      simp [hno] at hr
    obtain ⟨hrun, -, last, hlast, hover⟩ := isDue_iff.mp hdue
    have hshort : isDue c.toIdleConfig r.now vm = true :=
      isDue_iff.mpr ⟨hrun, hpos, last, hlast, by omega⟩
    rw [if_pos hshort]

/-- An accepted configuration without a global threshold, and a VM with a
threshold of a minute that has been idle for an hour.  No round puts the VM to
sleep, although it is due. -/
theorem override_ignored :
    IdleSettings.validate ⟨⟨0⟩, 30⟩ = .ok () ∧
      IdleSettings.handed ⟨⟨0⟩, 30⟩
        [⟨3600000000000, [⟨0, .running, 60, some 0, some 0⟩], fun _ => .ok (), .ok ()⟩] = [[]] ∧
      due ⟨0⟩ 3600000000000 [⟨0, .running, 60, some 0, some 0⟩] = [0] := by
  refine ⟨rfl, ?_, by decide⟩
  exact IdleSettings.handed_of_not_ticks (by decide) _

end Firedoze
