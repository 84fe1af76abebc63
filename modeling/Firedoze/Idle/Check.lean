import Firedoze.Model.Types
import Mathlib.Tactic.NormNum

/-!
# What the idle monitor decides about a VM

`IdleMonitor.check` compares the time since the last activity of a VM with
a threshold.  `IdleConfig.idleFor` is this comparison, for one row of the
listing and one value of `now`.

An instant is a number of nanoseconds.  The store keeps the stamps that
`strftime('%Y-%m-%dT%H:%M:%fZ', 'now')` writes.  They end in milliseconds, so
a stamp is a number of milliseconds, and `time.Parse` never fails on one.  A
duration has 64 bits: `secondsDuration` can wrap, and `timeSub` stops at the
longest duration.

* `secondsDuration_eq` says what a product of seconds is after the wrap.
* `idleFor_isSome_iff` is the comparison without the 64 bits.
-/

namespace Firedoze

/-! ## Instants and durations -/

/-- `t.Sub(u)`. -/
def timeSub (t u : Nat) : Int := max (-2 ^ 63) (min (2 ^ 63 - 1) ((t : Int) - u))

/-- The stamp that `strftime` writes at an instant. -/
def strftimeNow (clock : Nat) : Nat := clock / 1000000

/-- A product of seconds is the remainder of the product, or a negative
number. -/
theorem secondsDuration_eq (seconds : Int) :
    secondsDuration seconds = seconds * 1000000000 % 2 ^ 64 ∧
        seconds * 1000000000 % 2 ^ 64 < 2 ^ 63 ∨
      secondsDuration seconds < 0 ∧ 2 ^ 63 ≤ seconds * 1000000000 % 2 ^ 64 := by
  unfold secondsDuration second Int.bmod
  simp only [Nat.cast_pow, Nat.cast_ofNat]
  have hpos : 0 ≤ seconds * 1000000000 % 2 ^ 64 := Int.emod_nonneg _ (by norm_num)
  have hlt : seconds * 1000000000 % 2 ^ 64 < 2 ^ 64 := Int.emod_lt_of_pos _ (by norm_num)
  generalize seconds * 1000000000 % 2 ^ 64 = r at hpos hlt ⊢
  norm_num at hlt ⊢
  split_ifs <;> omega

/-- The product does not wrap when it fits. -/
theorem secondsDuration_of_lt {seconds : Int} (h0 : 0 ≤ seconds)
    (h : seconds * 1000000000 < 2 ^ 63) : secondsDuration seconds = seconds * 1000000000 := by
  have hmod : seconds * 1000000000 % 2 ^ 64 = seconds * 1000000000 :=
    Int.emod_eq_of_lt (by omega) (by norm_num at h ⊢; omega)
  rcases secondsDuration_eq seconds with ⟨he, -⟩ | ⟨-, hge⟩
  · rw [he, hmod]
  · omega

theorem timeSub_lt_iff {t u : Nat} {d : Int} (hpos : 0 < d) (hd : d < 2 ^ 63) :
    timeSub t u < d ↔ (t : Int) < u + d := by
  unfold timeSub
  norm_num at hd ⊢
  omega

/-- A stamp is less than a millisecond old when it is written. -/
theorem parseStamp_strftimeNow (clock : Nat) :
    parseStamp (strftimeNow clock) ≤ clock ∧ clock < parseStamp (strftimeNow clock) + 1000000 := by
  unfold parseStamp strftimeNow
  omega

/-! ## Rows and thresholds -/

/-- The columns of `vms` that the idle monitor reads.  An empty stamp is
`none`. -/
structure IdleVM where
  uuid : Uuid
  state : VMState
  idleSleepAfterSeconds : Int
  lastStartedAt : Option Nat
  lastActivityAt : Option Nat
  deriving DecidableEq, Repr

/-- `config.IdleConfig`, without the interval of the checks. -/
structure IdleConfig where
  defaultSleepAfterSeconds : Int
  deriving DecidableEq, Repr

namespace IdleVM

variable (vm : IdleVM)

/-- `TouchVMActivity` on the row. -/
def touch (clock : Nat) : IdleVM := { vm with lastActivityAt := some (strftimeNow clock) }

/-- `SetVMState` on the row. -/
def setState (state : VMState) (clock : Nat) : IdleVM :=
  { vm with
    state := state
    lastStartedAt := if state = .running then some (strftimeNow clock) else vm.lastStartedAt
    lastActivityAt := if state = .running then some (strftimeNow clock) else vm.lastActivityAt }

/-- `vmLastActivity`. -/
def lastActivity : Option Nat := (vm.lastActivityAt <|> vm.lastStartedAt).map parseStamp

@[simp] theorem lastActivity_touch (clock : Nat) :
    (vm.touch clock).lastActivity = some (parseStamp (strftimeNow clock)) := rfl

end IdleVM

namespace IdleConfig

variable (cfg : IdleConfig) (vm : IdleVM)

/-- The seconds of the threshold that is in force for a VM.  `Server.vmInfo`
reports this number to the client. -/
def thresholdSeconds : Int :=
  if vm.idleSleepAfterSeconds = 0 then cfg.defaultSleepAfterSeconds
  else vm.idleSleepAfterSeconds

/-- `IdleMonitor.threshold`. -/
def threshold : Int := secondsDuration (cfg.thresholdSeconds vm)

/-- What `check` decides about a VM: the time it has been idle, when that is
long enough to put it to sleep. -/
def idleFor (now : Nat) : Option Int :=
  if vm.state ≠ .running then none
  else if cfg.threshold vm ≤ 0 then none
  else
    match vm.lastActivity with
    | none => none
    | some last =>
        if timeSub now last < cfg.threshold vm then none else some (timeSub now last)

variable {cfg vm}

/-- The comparison of `check`, without the 64 bits of a duration. -/
theorem idleFor_isSome_iff {now : Nat} :
    (cfg.idleFor vm now).isSome ↔
      vm.state = .running ∧ 0 < cfg.threshold vm ∧
        ∃ last, vm.lastActivity = some last ∧ last + cfg.threshold vm ≤ now := by
  have hfit : cfg.threshold vm < 2 ^ 63 := by
    unfold threshold
    rcases secondsDuration_eq (cfg.thresholdSeconds vm) with ⟨he, hlt⟩ | ⟨hneg, -⟩
    · rw [he]; exact hlt
    · exact hneg.trans (by norm_num)
  unfold idleFor
  by_cases hs : vm.state = .running
  swap
  · simp [hs]
  by_cases ht : cfg.threshold vm ≤ 0
  · simp [hs, ht]
  have hpos : 0 < cfg.threshold vm := not_le.mp ht
  cases hl : vm.lastActivity with
  | none => simp [hs, ht]
  | some last =>
    simp only [hs, ne_eq, not_true_eq_false, if_false, if_neg ht, timeSub_lt_iff hpos hfit]
    split_ifs with h
    · simp [hpos, h]
    · simpa [hpos] using not_lt.mp h

end IdleConfig

end Firedoze
