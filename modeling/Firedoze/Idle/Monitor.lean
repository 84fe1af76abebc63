import Firedoze.Conc.Monitor
import Firedoze.Idle.Check
import Mathlib.Data.List.Nodup

/-!
# The idle monitor among the writers of the store

`IdleMonitor.check` lists the VMs once, and then calls `SleepVM` for each VM
that was idle in the listing, one after another.  A call of the store, a call
of `SleepVM` and a call of `Reconcile` is one step each.  Between two steps
of the monitor time passes, and `TouchVMActivity`, `SetVMState` and `UpdateVM`
change the rows.

The phase of the monitor is its `now` and the VMs that it still has to put to
sleep.  `over_reach` is the invariant: a VM that is still to be put to sleep
has been idle for its threshold, as long as nothing disturbs it after the
listing.  Without that condition a VM that was touched after the listing is
put to sleep all the same (`touched_vm_put_to_sleep`).
-/

namespace Firedoze

open Conc Conc.Prog Conc.Monitor

/-! ## The rows -/

/-- The rows of `vms`, ordered by name.  The UUID is the key. -/
structure IdleTable where
  rows : List IdleVM
  key : (rows.map (·.uuid)).Nodup

namespace IdleTable

variable (t : IdleTable) (u : Uuid)

/-- Change the row of a VM. -/
def modify (f : IdleVM → IdleVM) (hf : ∀ vm, (f vm).uuid = vm.uuid) : IdleTable where
  rows := t.rows.map fun vm => if vm.uuid = u then f vm else vm
  key := by
    have hkey : ((t.rows.map fun vm => if vm.uuid = u then f vm else vm).map (·.uuid)) =
        t.rows.map (·.uuid) := by
      rw [List.map_map]
      refine List.map_congr_left fun vm _ => ?_
      simp only [Function.comp_apply]
      split_ifs
      · exact hf vm
      · rfl
    rw [hkey]
    exact t.key

variable {t u}

theorem eq_of_uuid_eq {vm vm' : IdleVM} (h : vm ∈ t.rows) (h' : vm' ∈ t.rows)
    (hu : vm.uuid = vm'.uuid) : vm = vm' :=
  List.inj_on_of_nodup_map t.key h h' hu

theorem mem_modify {f : IdleVM → IdleVM} (hf : ∀ vm, (f vm).uuid = vm.uuid) {vm : IdleVM}
    (h : vm ∈ (t.modify u f hf).rows) :
    ∃ vm₀ ∈ t.rows, vm₀.uuid = vm.uuid ∧
      (vm₀.uuid = u ∧ vm = f vm₀ ∨ vm₀.uuid ≠ u ∧ vm = vm₀) := by
  obtain ⟨vm₀, hmem, rfl⟩ := List.mem_map.mp h
  refine ⟨vm₀, hmem, ?_⟩
  split_ifs with hu
  · exact ⟨(hf vm₀).symm, .inl ⟨hu, rfl⟩⟩
  · exact ⟨rfl, .inr ⟨hu, rfl⟩⟩

end IdleTable

/-! ## The world of the monitor -/

/-- The rows and the clock. -/
structure IdleWorld where
  table : IdleTable
  clock : Nat

/-- The actions of the monitor.  `tick` is the `select` of `Run`: it answers
the time that the ticker sends, or `none` when the context is done. -/
inductive IdleEff : Type → Type
  | now : IdleEff Nat
  | tick : IdleEff (Option Nat)
  | listVMs : IdleEff (Except Err (List IdleVM))
  | sleepVM (u : Uuid) : IdleEff (Except Err Unit)
  | reconcile : IdleEff (Except Err Unit)

/-- How an action goes.  `sent` is the time that the ticker sent. -/
inductive IdleOutcome
  | ok
  | fail
  | sent (now : Nat)

/-- What happens besides the monitor. -/
inductive IdleEvent
  | touchVMActivity (u : Uuid)
  | setVMState (u : Uuid) (state : VMState)
  | updateVM (u : Uuid) (idleSleepAfterSeconds : Int)
  | wait (duration : Nat)

/-- What an action of the monitor does.  The ticker sends a time that is not
ahead of the clock, and the monitor may receive it late. -/
def execIdle (w : IdleWorld) : {β : Type} → IdleEff β → IdleOutcome → Option (β × IdleWorld)
  | _, .now, _ => some (w.clock, w)
  | _, .tick, .sent now => if now ≤ w.clock then some (some now, w) else none
  | _, .tick, .fail => some (none, w)
  | _, .tick, .ok => none
  | _, .listVMs, .ok => some (.ok w.table.rows, w)
  | _, .listVMs, _ => some (.error .io, w)
  | _, .sleepVM u, .ok =>
      some (.ok (),
        { w with table := w.table.modify u (·.setState .sleeping w.clock) fun _ => rfl })
  | _, .sleepVM _, _ => some (.error .io, w)
  | _, .reconcile, .ok => some (.ok (), w)
  | _, .reconcile, _ => some (.error .io, w)

/-- What an event does. -/
def execIdleEvent (w : IdleWorld) : IdleEvent → IdleWorld
  | .touchVMActivity u => { w with table := w.table.modify u (·.touch w.clock) fun _ => rfl }
  | .setVMState u state =>
      { w with table := w.table.modify u (·.setState state w.clock) fun _ => rfl }
  | .updateVM u seconds =>
      { w with
        table := w.table.modify u (fun vm => { vm with idleSleepAfterSeconds := seconds })
          fun _ => rfl }
  | .wait duration => { w with clock := w.clock + duration }

/-- The monitor and the writers of the store. -/
def idleSystem : System Unit IdleWorld IdleOutcome IdleEvent IdleEff where
  exec := fun _ w e o => execIdle w e o
  env := fun w v => some (execIdleEvent w v)

/-! ## The monitor -/

/-- `IdleMonitor.sleepIdleVM`. -/
def sleepIdleVM (u : Uuid) : Prog IdleEff Unit := do
  match ← perform (.sleepVM u) with
  | .error _ => ret ()
  | .ok _ =>
      let _ ← perform .reconcile
      ret ()

/-- The loop of `IdleMonitor.check`. -/
def checkVMs (cfg : IdleConfig) (now : Nat) : List IdleVM → Prog IdleEff Unit
  | [] => ret ()
  | vm :: vms =>
      match cfg.idleFor vm now with
      | none => checkVMs cfg now vms
      | some _ => do
          sleepIdleVM vm.uuid
          checkVMs cfg now vms

/-- `IdleMonitor.check`. -/
def check (cfg : IdleConfig) (now : Nat) : Prog IdleEff Unit := do
  match ← perform .listVMs with
  | .error _ => ret ()
  | .ok vms => checkVMs cfg now vms

/-- One round of the loop of `IdleMonitor.Run`. -/
def checkOnTick (cfg : IdleConfig) : Prog IdleEff (Option Unit) := do
  match ← perform .tick with
  | none => ret (some ())
  | some now =>
      check cfg now
      ret none

/-- `IdleMonitor.Run`. -/
def runIdleMonitor (cfg : IdleConfig) : Prog IdleEff Unit :=
  if cfg.defaultSleepAfterSeconds = 0 then ret ()
  else do
    let now ← perform .now
    check cfg now
    loop (checkOnTick cfg) ret

/-- The state of the monitor and the rows. -/
abbrev IdleState := State Unit IdleWorld Unit IdleEff

/-- The state before the monitor runs. -/
def startIdle (cfg : IdleConfig) (w : IdleWorld) : IdleState :=
  .initial w fun _ => runIdleMonitor cfg

/-! ## What the monitor still has to do -/

/-- The `now` of a check, and the VMs it still has to put to sleep. -/
structure CheckPhase where
  now : Nat
  pending : List Uuid

/-- The VMs of a listing that are to be put to sleep. -/
def idleOf (cfg : IdleConfig) (now : Nat) (vms : List IdleVM) : List Uuid :=
  (vms.filter fun vm => (cfg.idleFor vm now).isSome).map (·.uuid)

theorem idleOf_cons (cfg : IdleConfig) (now : Nat) (vm : IdleVM) (vms : List IdleVM) :
    idleOf cfg now (vm :: vms) =
      if (cfg.idleFor vm now).isSome then vm.uuid :: idleOf cfg now vms
      else idleOf cfg now vms := by
  unfold idleOf
  rw [List.filter_cons]
  split <;> rfl

/-- The phase after an action. -/
def checkNext (cfg : IdleConfig) (l : CheckPhase) : {β : Type} → IdleEff β → β → CheckPhase
  | _, .now, now => ⟨now, []⟩
  | _, .tick, some now => ⟨now, []⟩
  | _, .listVMs, .ok vms => { l with pending := idleOf cfg l.now vms }
  | _, .sleepVM _, _ => { l with pending := l.pending.tail }
  | _, _, _ => l

/-- The next VM that is put to sleep is the first one that is pending. -/
def checkOk (l : CheckPhase) : {β : Type} → IdleEff β → β → Prop
  | _, .sleepVM u, _ => l.pending.head? = some u
  | _, _, _ => True

/-- The monitor of the checks. -/
def checking (cfg : IdleConfig) : Monitor IdleEff CheckPhase where
  start := ⟨0, []⟩
  ok := fun l e b => checkOk l e b
  next := fun l e b => checkNext cfg l e b

section Programs

variable {cfg : IdleConfig} {can : {β : Type} → IdleEff β → β → Prop} {l : CheckPhase}

theorem checking_checkVMs {now : Nat} (vms : List IdleVM) :
    (checking cfg).Conforms can (checkVMs cfg now vms) ⟨now, idleOf cfg now vms⟩
      fun _ _ => True := by
  induction vms with
  | nil => trivial
  | cons vm vms ih =>
    rw [checkVMs, idleOf_cons]
    cases cfg.idleFor vm now with
    | none => exact ih
    | some d =>
      refine conforms_bind.mpr ?_
      intro r _
      refine ⟨rfl, ?_⟩
      cases r with
      | error e => exact ih
      | ok _ => exact fun _ _ => ⟨trivial, ih⟩

theorem checking_check : (checking cfg).Conforms can (check cfg l.now) l fun _ _ => True := by
  intro r _
  refine ⟨trivial, ?_⟩
  cases r with
  | error e => trivial
  | ok vms => exact checking_checkVMs vms

theorem checking_runIdleMonitor :
    (checking cfg).Conforms can (runIdleMonitor cfg) l fun _ _ => True := by
  unfold runIdleMonitor
  split
  · trivial
  · refine fun now _ => ⟨trivial, (conforms_bind (p := check cfg now)).mpr ?_⟩
    refine conforms_mono ?_ (checking_check (l := ⟨now, []⟩))
    -- One round of the loop starts in any phase.
    refine fun _ l _ => ⟨fun _ => True, trivial, fun l _ => ?_⟩
    intro r _
    refine ⟨trivial, ?_⟩
    cases r with
    | none => trivial
    | some now =>
      exact (conforms_bind (p := check cfg now)).mpr
        (conforms_mono (fun _ _ _ => trivial) (checking_check (l := ⟨now, []⟩)))

end Programs

/-! ## Runs that are not disturbed -/

/-- The VM has been idle for its threshold. -/
def Over (cfg : IdleConfig) (clock : Nat) (vm : IdleVM) : Prop :=
  ∃ last, vm.lastActivity = some last ∧ last + cfg.thresholdSeconds vm * 1000000000 ≤ clock

/-- The VMs that the monitor still has to put to sleep. -/
def IdleState.pending (cfg : IdleConfig) (s : IdleState) : List Uuid :=
  ((checking cfg).phases s ()).pending

/-- The condition on the steps.  A VM that is pending is not touched, not
started and not given a threshold that it has not been idle for.  The threshold
of a running VM is not cut short when it is made a duration. -/
def Undisturbed (cfg : IdleConfig) (s : IdleState) : Label Unit IdleOutcome IdleEvent → Prop
  | .thread _ _ => ∀ vm ∈ s.world.table.rows, vm.state = .running →
      cfg.thresholdSeconds vm * 1000000000 ≤ cfg.threshold vm
  | .env (.touchVMActivity u) => u ∉ IdleState.pending cfg s
  | .env (.setVMState u state) => state = .running → u ∉ IdleState.pending cfg s
  | .env (.updateVM u seconds) => u ∈ IdleState.pending cfg s → ∀ vm ∈ s.world.table.rows,
      vm.uuid = u → Over cfg s.world.clock vm →
        Over cfg s.world.clock { vm with idleSleepAfterSeconds := seconds }
  | .env (.wait _) => True

/-- The VMs that are pending have been idle for their threshold. -/
structure Waiting (cfg : IdleConfig) (w : IdleWorld) (l : CheckPhase) : Prop where
  now : l.now ≤ w.clock
  due : ∀ u ∈ l.pending, ∀ vm ∈ w.table.rows, vm.uuid = u → Over cfg w.clock vm

section Runs

variable {cfg : IdleConfig} {w w' : IdleWorld} {l : CheckPhase}

theorem Over.later {vm : IdleVM} {clock clock' : Nat} (h : Over cfg clock vm)
    (hle : clock ≤ clock') : Over cfg clock' vm := by
  obtain ⟨last, hlast, hover⟩ := h
  exact ⟨last, hlast, hover.trans (by exact_mod_cast hle)⟩

/-- A VM that a check finds idle has been idle for its threshold. -/
theorem over_of_idleFor {vm : IdleVM} {now : Nat}
    (hfit : vm.state = .running → cfg.thresholdSeconds vm * 1000000000 ≤ cfg.threshold vm)
    (h : (cfg.idleFor vm now).isSome) : Over cfg now vm := by
  obtain ⟨hrunning, -, last, hlast, hle⟩ := IdleConfig.idleFor_isSome_iff.mp h
  have := hfit hrunning
  exact ⟨last, hlast, by omega⟩

/-- A change of a row that keeps the VM over its threshold if it is pending
keeps the invariant. -/
theorem Waiting.modify (h : Waiting cfg w l) {u : Uuid} {f : IdleVM → IdleVM}
    {hf : ∀ vm, (f vm).uuid = vm.uuid}
    (hover : u ∈ l.pending → ∀ vm ∈ w.table.rows, vm.uuid = u → Over cfg w.clock vm →
      Over cfg w.clock (f vm)) :
    Waiting cfg { w with table := w.table.modify u f hf } l where
  now := h.now
  due := by
    intro v hv vm hvm huuid
    obtain ⟨vm₀, hmem, hsame, ⟨hu, rfl⟩ | ⟨-, rfl⟩⟩ := IdleTable.mem_modify hf hvm
    · have hv' : vm₀.uuid = v := hsame.trans huuid
      have hpend : u ∈ l.pending := by rw [← hu, hv']; exact hv
      exact hover hpend vm₀ hmem hu (h.due v hv vm₀ hmem hv')
    · exact h.due v hv vm hmem huuid

/-- A state other than `running` does not change the last activity. -/
theorem over_setState {vm : IdleVM} {state : VMState} {clock : Nat} (hs : state ≠ .running)
    (h : Over cfg clock vm) : Over cfg clock (vm.setState state clock) := by
  simpa [Over, IdleVM.setState, IdleVM.lastActivity, IdleConfig.thresholdSeconds, hs] using h

theorem Waiting.tail (h : Waiting cfg w l) :
    Waiting cfg w { l with pending := l.pending.tail } :=
  ⟨h.now, fun u hu => h.due u (List.mem_of_mem_tail hu)⟩

/-- An action of the monitor. -/
theorem Waiting.act (h : Waiting cfg w l)
    (hfit : ∀ vm ∈ w.table.rows, vm.state = .running →
      cfg.thresholdSeconds vm * 1000000000 ≤ cfg.threshold vm)
    {β : Type} {e : IdleEff β} {o : IdleOutcome} {b : β} (he : execIdle w e o = some (b, w')) :
    Waiting cfg w' (checkNext cfg l e b) := by
  cases e with
  | now =>
    obtain ⟨rfl, rfl⟩ : w.clock = b ∧ w = w' := by simpa [execIdle] using he
    exact ⟨le_rfl, by simp [checkNext]⟩
  | tick =>
    cases o with
    | ok => simp [execIdle] at he
    | fail =>
      obtain ⟨rfl, rfl⟩ : none = b ∧ w = w' := by simpa [execIdle] using he
      exact h
    | sent now =>
      obtain ⟨hle, rfl, rfl⟩ : now ≤ w.clock ∧ some now = b ∧ w = w' := by
        simpa [execIdle] using he
      exact ⟨hle, by simp [checkNext]⟩
  | listVMs =>
    have hw : w = w' ∧ ∀ vms, b = .ok vms → vms = w.table.rows := by
      cases o <;> simp only [execIdle, Option.some.injEq, Prod.mk.injEq] at he <;>
        obtain ⟨rfl, rfl⟩ := he <;> simp
    obtain ⟨rfl, hrows⟩ := hw
    cases b with
    | error e => exact h
    | ok vms =>
      obtain rfl := hrows vms rfl
      refine ⟨h.now, ?_⟩
      intro u hu vm hvm huuid
      simp only [checkNext, idleOf, List.mem_map, List.mem_filter] at hu
      obtain ⟨vm', ⟨hmem, hidle⟩, huuid'⟩ := hu
      obtain rfl := IdleTable.eq_of_uuid_eq hvm hmem (huuid.trans huuid'.symm)
      exact (over_of_idleFor (hfit vm hvm) hidle).later h.now
  | sleepVM u =>
    cases o with
    | ok =>
      cases he
      exact (h.modify fun _ _ _ _ hover => over_setState (by decide) hover).tail
    | fail | sent now =>
      cases he
      exact h.tail
  | reconcile =>
    have hw : w = w' := by cases o <;> exact (Prod.mk.inj (Option.some.inj he)).2
    subst hw
    exact h

/-- An event that meets the condition. -/
theorem Waiting.event {s : IdleState} (h : Waiting cfg s.world ((checking cfg).phases s ()))
    {v : IdleEvent} (hk : Undisturbed cfg s (.env v)) :
    Waiting cfg (execIdleEvent s.world v) ((checking cfg).phases s ()) := by
  cases v with
  | touchVMActivity u => exact h.modify fun hpend => absurd hpend hk
  | setVMState u state =>
    refine h.modify fun hpend vm _ _ hover => over_setState ?_ hover
    exact fun hr => hk hr hpend
  | updateVM u seconds => exact h.modify hk
  | wait duration =>
    exact ⟨h.now.trans (Nat.le_add_right _ _),
      fun u hu vm hvm huuid => (h.due u hu vm hvm huuid).later (Nat.le_add_right _ _)⟩

theorem over_reach {w₀ : IdleWorld} {s : IdleState}
    (h : idleSystem.Reach (Undisturbed cfg) (startIdle cfg w₀) s) :
    Waiting cfg s.world ((checking cfg).phases s ()) := by
  refine Monitor.invariant (M := checking cfg) (A := fun _ _ => True) (Q := fun _ _ _ => True)
    (I := fun w ph => Waiting cfg w (ph ())) (fun _ _ _ _ _ _ _ _ => trivial)
    (fun _ => checking_runIdleMonitor) ⟨Nat.zero_le _, by simp [checking]⟩ ?_ ?_ h
  · intro s t o β e k b w hr hI hk hp he _ _
    rw [Function.update_self]
    exact hI.act hk he
  · intro s v w hr hI hk hv
    obtain rfl : execIdleEvent s.world v = w := Option.some.inj hv
    exact hI.event hk

end Runs

/-- The VM that an action puts to sleep. -/
def IdleEff.sleeps : {β : Type} → IdleEff β → Option Uuid
  | _, .sleepVM u => some u
  | _, _ => none

/-- The VM that the monitor puts to sleep next. -/
def IdleState.sleeps (s : IdleState) : Option Uuid :=
  match s.prog () with
  | .act e _ => e.sleeps
  | _ => none

theorem IdleState.exists_sleepVM {s : IdleState} {u : Uuid} (h : IdleState.sleeps s = some u) :
    ∃ k, s.prog () = .act (.sleepVM u) k := by
  unfold IdleState.sleeps at h
  cases hp : s.prog () with
  | ret a | loop body k => simp [hp] at h
  | act e k =>
    rw [hp] at h
    cases e with
    | sleepVM v =>
      obtain rfl : v = u := Option.some.inj h
      exact ⟨k, rfl⟩
    | _ => cases h

/-- Two VMs that have been idle for a thousand seconds. -/
def IdleWorld.sample : IdleWorld where
  table := ⟨[⟨0, .running, 60, some 0, some 0⟩, ⟨1, .running, 60, some 0, some 0⟩], by decide⟩
  clock := 1000000000000

/-- Whenever the monitor calls `SleepVM` on a VM in a run that is not
disturbed, the last recorded activity of the VM is at least its threshold in
the past. -/
theorem sleeps_only_idle_vms (cfg : IdleConfig) (w₀ : IdleWorld) {s : IdleState}
    (h : idleSystem.Reach (Undisturbed cfg) (startIdle cfg w₀) s) {u : Uuid}
    {k : Except Err Unit → Prog IdleEff Unit} (hp : s.prog () = .act (.sleepVM u) k) :
    ∀ vm ∈ s.world.table.rows, vm.uuid = u → Over cfg s.world.clock vm := by
  have hhead : checkOk ((checking cfg).phases s ()) (.sleepVM u) (.ok ()) :=
    ok_reach (M := checking cfg) (t := ()) (b := .ok ()) (A := fun _ _ => True)
      (Q := fun _ _ => True) (fun _ _ _ _ _ _ _ _ => trivial) checking_runIdleMonitor h hp trivial
  exact (over_reach h).due u (List.mem_of_mem_head? hhead)

/-- A check that is not disturbed comes to its second call of `SleepVM`. -/
theorem sleeps_only_idle_vms_second :
    ∃ s : IdleState, idleSystem.Reach (Undisturbed ⟨300⟩) (startIdle ⟨300⟩ .sample) s ∧
      IdleState.sleeps s = some 1 ∧
      ∀ vm ∈ s.world.table.rows, vm.uuid = 1 → Over ⟨300⟩ s.world.clock vm := by
  obtain ⟨s, hs, hsleeps⟩ := idleSystem.exists_reach_of_run
    (s := startIdle ⟨300⟩ .sample)
    (k := fun s l => match l with
      | .thread _ _ => decide (∀ vm ∈ s.world.table.rows, vm.state = .running →
          IdleConfig.thresholdSeconds ⟨300⟩ vm * 1000000000 ≤ IdleConfig.threshold ⟨300⟩ vm)
      | .env _ => false)
    (l := List.replicate 4 (.thread () .ok))
    (P := fun s => IdleState.sleeps s == some 1) (by decide +kernel) (by decide)
  have hreach : idleSystem.Reach (Undisturbed ⟨300⟩) (startIdle ⟨300⟩ .sample) s := by
    refine hs.mono fun s l hk => ?_
    cases l with
    | thread t o =>
      simp only [decide_eq_true_eq] at hk
      exact hk
    | env v => cases hk
  have hnext : IdleState.sleeps s = some 1 := by simpa using hsleeps
  obtain ⟨k, hp⟩ := IdleState.exists_sleepVM hnext
  exact ⟨s, hreach, hnext, sleeps_only_idle_vms ⟨300⟩ .sample hreach hp⟩

/-- While the monitor puts one VM to sleep, another VM of its listing is
touched.  The monitor goes on to put that VM to sleep. -/
theorem touched_vm_put_to_sleep :
    ∃ s : IdleState, idleSystem.Reach (fun _ _ => True) (startIdle ⟨300⟩ .sample) s ∧
      IdleState.sleeps s = some 1 ∧
      ∃ vm ∈ s.world.table.rows, vm.uuid = 1 ∧ vm.lastActivity = some s.world.clock ∧
        IdleConfig.thresholdSeconds ⟨300⟩ vm = 60 := by
  obtain ⟨s, hs, hP⟩ := idleSystem.exists_reach_of_run
    (s := startIdle ⟨300⟩ .sample) (k := fun _ _ => true)
    (l := List.replicate 4 (.thread () .ok) ++
      [.env (.wait 30000000000), .env (.touchVMActivity 1)])
    (P := fun s => decide (IdleState.sleeps s = some 1 ∧
      ∃ vm ∈ s.world.table.rows, vm.uuid = 1 ∧ vm.lastActivity = some s.world.clock ∧
        IdleConfig.thresholdSeconds ⟨300⟩ vm = 60)) (by decide +kernel) (by decide)
  exact ⟨s, hs.mono fun _ _ _ => trivial, of_decide_eq_true hP⟩

end Firedoze
