import Firedoze.Manager.StoredState

/-!
# Snapshots of a VM that is stopped

`SaveSnapshot` reads the row of its VM, begins its operation, looks for a
process of the VM, and then judges the state it has read at first.  The row
may have changed by then: a `StartVM` and a `SleepVM` that both come to their
end between the read and the begin leave a VM that is asleep, and its disk is
copied (`sleeping_vm_saved`).  A `SleepVM` takes no entry of `vmOps`, so one
that is still at work can also write `sleeping` during the copy.

`saved_while_stopped` says that these are the only ways.  The entry of
`vmOps` keeps every start away from the copy, and an exit handler only writes
while its process is registered.
-/

namespace Firedoze

open Conc Conc.Prog Conc.Monitor Function

/-! ## What a call of `SaveSnapshot` has seen -/

/-- What a call of `SaveSnapshot` knows of its VM: nothing, the state it has
read, or that no process was registered under its entry for a VM that was
read as stopped. -/
inductive SavePhase
  | idle
  | read (state : VMState)
  | checked
  deriving DecidableEq, Repr

/-- The phase of a call that holds `l` after an action. -/
def saveNext (u : Uuid) (l : LockPhase) (p : SavePhase) : {β : Type} → Eff β → β → SavePhase
  | _, .store (.getVM _ _), .ok vm => .read vm.state
  | _, .mem (.getRunning v), none =>
      if v = u ∧ l = .vm u ∧ p = .read .stopped then .checked else p
  | _, _, _ => p

/-- A call forgets its check when it gives its entry back. -/
def SavePhase.under (p : SavePhase) (u : Uuid) (l : LockPhase) : SavePhase :=
  if p = .checked ∧ l ≠ .vm u then .idle else p

/-- The actions of a copy. -/
def copies : {β : Type} → Eff β → Bool
  | _, .host (.openRead _) => true
  | _, .host (.openTrunc _) => true
  | _, .host (.copyData _ _ _ _) => true
  | _, _ => false

/-- The monitor of a call of `SaveSnapshot` for the VM `u`: it copies after
its check only. -/
def saving (u : Uuid) : Monitor Eff (LockPhase × SavePhase) :=
  lock.above .idle
    (fun l e _ => copies e = false ∨ l.2 = .checked)
    (fun l e b => (saveNext u l.1 l.2 e b).under u (lock.next l.1 e b))

/-- What the thread knows of the VM. -/
def savePhase (s : MState) (u : Uuid) (t : Tid) : SavePhase := ((saving u).phases s t).2

theorem SavePhase.under_checked {p : SavePhase} {u : Uuid} {l : LockPhase}
    (h : p.under u l = .checked) : p = .checked ∧ l = .vm u := by
  unfold SavePhase.under at h
  split at h
  · cases h
  · rename_i hn
    exact ⟨h, by_contra fun hl => hn ⟨h, hl⟩⟩

/-- A call that knows that no process is registered holds its entry. -/
theorem holds_of_checked {s : MState} {u : Uuid} {t : Tid} (h : savePhase s u t = .checked) :
    lock.phases s t = .vm u := by
  have hfst : ((saving u).phases s t).1 = lock.phases s t := above_phases s t
  rw [← hfst]
  unfold savePhase Monitor.phases at h
  unfold Monitor.phases
  cases hh : s.hist t with
  | nil =>
    rw [hh] at h
    cases h
  | cons ev past =>
    rw [hh] at h
    exact (SavePhase.under_checked h).2

/-- The kinds of actions that leave a call where it is after its check. -/
def AfterCheck (k : Kind) : Prop := LockFree k ∧ k ≠ .read

section Programs

variable {cfg : Config} {u : Uuid}

theorem saveNext_of_kind {l : LockPhase} {p : SavePhase} {β : Type} {e : Eff β} {b : β}
    (hr : e.kind ≠ .read) (hw : p = .read .stopped → e.kind ≠ .watch) :
    saveNext u l p e b = p := by
  cases e with
  | host e => rfl
  | store e =>
    cases e with
    | getVM c v => exact absurd rfl hr
    | _ => rfl
  | mem e =>
    cases e with
    | getRunning v =>
      cases b with
      | some proc => rfl
      | none => exact if_neg fun h => hw h.2.2 rfl
    | _ => rfl

theorem saving_afterCheck {β : Type} (e : Eff β) (b : β) (he : AfterCheck e.kind) :
    (saving u).next (.vm u, .checked) e b = (.vm u, .checked) := by
  have hlock : lock.next (.vm u) e b = .vm u := by
    have hbase := (lock_free (l := .vm u) e b he.1).2
    cases hl : lock.next (.vm u) e b <;> simp_all [LockPhase.base]
  have hsave : saveNext u (.vm u) .checked e b = .checked := saveNext_of_kind he.2 fun hp => by
    cases hp
  simp [saving, Monitor.above, hlock, hsave, SavePhase.under]

/-- The copy of `SaveSnapshot` takes place after the check. -/
theorem saving_saveLocked {name : String} {vm : VM} (hu : vm.uuid = u) :
    (saving u).Conforms Answers (saveLocked cfg name vm).run (.vm u, .read vm.state)
      fun _ _ => True := by
  unfold saveLocked
  refine conforms_sect_bind fun running _ => ⟨Or.inl rfl, ?_⟩
  split
  · trivial
  split
  · trivial
  rename_i hrun hstate
  obtain rfl : running = none := by
    cases running with
    | none => rfl
    | some proc => exact absurd (Or.inr rfl) hrun
  have hstopped : vm.state = .stopped := not_not.mp hstate
  have hnext : (saving u).next (.vm u, .read vm.state) (.mem (.getRunning vm.uuid)) none =
      (.vm u, .checked) := by
    have hsave : saveNext u (.vm u) (.read vm.state) (.mem (.getRunning vm.uuid)) none = .checked :=
      if_pos ⟨hu, rfl, by rw [hstopped]⟩
    simp [saving, Monitor.above, lock, lockNextMem, SavePhase.under, hsave]
  rw [hnext]
  refine conforms_of_all (P := fun e => AfterCheck e.kind) (· = (.vm u, .checked)) ?_ rfl ?_
    fun _ _ _ => trivial
  · show Uses AfterCheck _
    unfold AfterCheck LockFree
    grind
  · rintro β _ e b rfl he -
    exact ⟨Or.inr rfl, saving_afterCheck e b he⟩

/-- The begin of the operation leaves what the call has read alone. -/
theorem saving_begin {state : VMState} :
    (saving u).Conforms Answers (beginVMOperationCancelingColdArchive u).run (.out, .read state)
      fun r l => l.1 = (if r.isOk then .vm u else .out) ∧ l.2 = .read state := by
  refine conforms_above (M := lock) (l := (.out, SavePhase.read state))
    (G := fun _ l => l.2 = SavePhase.read state) lock_beginVMOperation ?_
  refine conforms_of_all (P := fun e => e.kind = .ctx ∨ e.kind = .lock)
    (fun l => l.2 = .read state) ?_ rfl ?_ fun _ _ hl => hl
  · show Uses (fun k => k = .ctx ∨ k = .lock) (beginVMOperationCancelingColdArchive u).run
    exact uses_begin (Or.inl rfl) (Or.inr rfl)
  · intro β l e b hl he _
    have hsave : saveNext u l.1 l.2 e b = l.2 := by
      apply saveNext_of_kind <;> rcases he with hk | hk <;> simp [hk]
    refine ⟨Or.inl ?_, ?_⟩
    · cases e with
      | host e => cases e <;> simp_all [Eff.kind, HostEff.kind]
      | _ => rfl
    · show (saveNext u l.1 l.2 e b).under u _ = _
      rw [hsave, hl]
      simp [SavePhase.under]

theorem saving_saveSnapshot {name : String} :
    (saving u).Conforms Answers (saveSnapshot cfg name u).run (.out, .idle) fun _ _ => True := by
  unfold saveSnapshot
  split
  · trivial
  refine conforms_call_bind (fun present _ => ⟨Or.inl rfl, ?_⟩)
    fun _ _ => ⟨Or.inl rfl, trivial⟩
  split
  · trivial
  refine conforms_call_bind (fun vm hvm => ⟨Or.inl rfl, ?_⟩)
    fun _ _ => ⟨Or.inl rfl, trivial⟩
  obtain rfl : vm.uuid = u := hvm vm rfl
  refine conforms_run_bind.mpr (conforms_mono ?_ saving_begin)
  rintro r ⟨l, p⟩ ⟨hl, hp⟩
  cases r with
  | error x => trivial
  | ok _ =>
    obtain ⟨rfl, rfl⟩ : l = .vm vm.uuid ∧ p = .read vm.state := ⟨hl, hp⟩
    refine conforms_deferred.mpr (conforms_mono ?_ (saving_saveLocked rfl))
    exact fun _ _ _ _ _ => ⟨Or.inl rfl, trivial⟩

end Programs

/-! ## Who writes which state -/

/-- The call writes no other state than `running` and `stopped`. -/
def WritesAwake : {β : Type} → Eff β → Prop
  | _, .store (.setVMState _ _ state) => state = .running ∨ state = .stopped
  | _, _ => True

/-- The call writes no other state than `sleeping`. -/
def WritesAsleep : {β : Type} → Eff β → Prop
  | _, .store (.setVMState _ _ state) => state = .sleeping
  | _, _ => True

section Writes

variable {cfg : Config} {u : Uuid} {vm : VM} {c : Ctx}

theorem writesAwake_of_kind {β : Type} (e : Eff β) (hk : e.kind ≠ .state ∧ e.kind ≠ .sleep) :
    WritesAwake e := by
  cases e with
  | mem e | host e => trivial
  | store e =>
    cases e with
    | setVMState c v state => cases state <;> simp_all [Eff.kind, StoreEff.kind, WritesAwake]
    | _ => trivial

theorem writesAsleep_of_kind {β : Type} (e : Eff β) (hk : e.kind ≠ .state ∧ e.kind ≠ .started) :
    WritesAsleep e := by
  cases e with
  | mem e | host e => trivial
  | store e =>
    cases e with
    | setVMState c v state => cases state <;> simp_all [Eff.kind, StoreEff.kind, WritesAsleep]
    | _ => trivial

theorem writesAwake_of_uses {α : Type} {p : Prog Eff α}
    (h : Uses (fun k => k ≠ .state ∧ k ≠ .sleep) p) : p.All WritesAwake :=
  All.mono h writesAwake_of_kind

theorem writesAwake_stopVM : (stopVM c u).run.All WritesAwake := by
  unfold stopVM
  refine all_run_bind (all_call trivial) fun _ => all_run_bind (all_sect trivial) fun r => ?_
  cases r with
  | none => exact all_call (Or.inr rfl)
  | some proc =>
    refine all_run_bind (writesAwake_of_uses (by grind)) fun _ => ?_
    refine all_run_bind (writesAwake_of_uses (by grind)) fun _ => ?_
    exact all_run_bind (writesAwake_of_uses (by grind)) fun _ => all_call (Or.inr rfl)

theorem writesAwake_resumeVM : (resumeVM cfg vm).run.All WritesAwake := by
  refine writesAwake_of_uses ?_
  unfold resumeVM
  repeat' first | refine uses_run_bind ?_ fun _ => ?_ | split
  all_goals grind

theorem writesAwake_bootVM : (bootVM cfg u vm).run.All WritesAwake := by
  unfold bootVM orStopVM
  refine all_run_bind (writesAwake_of_uses (by grind)) fun _ => ?_
  refine all_run_bind (writesAwake_of_uses (by grind)) fun netdev => ?_
  refine all_run_bind (all_call trivial) fun _ => ?_
  refine all_run_bind (writesAwake_of_uses (by grind)) fun _ => ?_
  refine all_run_bind (writesAwake_of_uses (by grind)) fun _ => ?_
  refine all_run_bind (all_run_bind (all_attempt (all_call trivial)) fun r => ?_) fun _ => ?_
  · cases r with
    | ok _ => exact all_run_pure _
    | error x =>
      exact all_run_bind (all_run_bind (all_attempt writesAwake_stopVM) fun _ => all_run_pure _)
        fun _ => all_run_throw _
  · exact all_run_bind (all_call (Or.inl rfl)) fun _ => all_call trivial

theorem writesAwake_startVM : (startVM cfg u).run.All WritesAwake := by
  unfold startVM startLocked beginStartOperationCancelingColdArchive
  refine all_run_bind (writesAwake_of_uses (by grind)) fun _ =>
    all_deferred (all_run_bind (all_call trivial) fun vm => ?_) ⟨trivial, fun _ => trivial⟩
  split
  · exact all_run_throw _
  · split
    · exact writesAwake_resumeVM
    · exact writesAwake_bootVM

theorem writesAwake_rebootVM : (rebootVM cfg u).run.All WritesAwake := by
  unfold rebootVM dropSleep
  refine all_run_bind (all_call trivial) fun vm => all_run_bind (all_sect trivial) fun r => ?_
  cases r with
  | some proc => exact all_run_bind writesAwake_stopVM fun _ => writesAwake_startVM
  | none =>
    refine all_run_bind ?_ fun _ => writesAwake_startVM
    split
    · exact all_run_bind (all_call trivial) fun _ => all_call (Or.inr rfl)
    · exact all_run_pure _

end Writes

/-- The call saves a snapshot, starts or stops a VM, or archives its disk. -/
def Op.saves : Op → Bool
  | .saveSnapshot _ _ => true
  | .startVM _ => true
  | .stopVM _ => true
  | .sleepVM _ => true
  | .rebootVM _ => true
  | .archiveStoppedVM _ _ => true
  | _ => false

/-- Every call saves a snapshot, starts or stops a VM, or archives its disk. -/
def Calls.Save (calls : Calls) : Prop := ∀ epoch n op, calls epoch n = some op → op.saves = true

/-- The call is one of `SleepVM`. -/
def Op.sleeps : Op → Bool
  | .sleepVM _ => true
  | _ => false

theorem writes_of_op (cfg : Config) {op : Op} (hop : op.saves = true) :
    if op.sleeps then (op.prog cfg).All WritesAsleep else (op.prog cfg).All WritesAwake := by
  have hfinish : ∀ {P : {β : Type} → Eff β → Prop} {α : Type} {x : Go α}, x.run.All P →
      (finish x).All P := fun hx => all_bind hx fun _ => trivial
  cases op with
  | startVM u => exact hfinish writesAwake_startVM
  | stopVM u => exact hfinish writesAwake_stopVM
  | rebootVM u => exact hfinish writesAwake_rebootVM
  | sleepVM u =>
    have huses : Uses (fun k => k ≠ .state ∧ k ≠ .started) ((Op.sleepVM u).prog cfg) :=
      (uses_op cfg (.sleepVM u)).mono (by simp [Op.kinds])
    exact All.mono huses writesAsleep_of_kind
  | saveSnapshot name u =>
    exact writesAwake_of_uses ((uses_op cfg (.saveSnapshot name u)).mono (by simp [Op.kinds]))
  | archiveStoppedVM u now =>
    exact writesAwake_of_uses ((uses_op cfg (.archiveStoppedVM u now)).mono (by simp [Op.kinds]))
  | _ => cases hop

theorem uses_of_saves {cfg : Config} {op : Op} (hop : op.saves = true) :
    Uses (fun k => k ≠ .insert ∧ k ≠ .drop) (op.prog cfg) :=
  (uses_op cfg op).mono (by cases op <;> simp_all [Op.saves, Op.kinds, startKinds])

/-! ## The condition -/

/-- No call of `SleepVM` in progress has found a process of the VM. -/
def NoSleeper (calls : Calls) (s : MState) (u : Uuid) : Prop :=
  ∀ k op, calls s.world.epoch k = some op → op.sleeps = true →
    s.live (.call s.world.epoch k) = true →
      ∀ q, (life.phases s (.call s.world.epoch k)).2.stop.proc = some q → q.uuid ≠ u

/-- When a call of `SaveSnapshot` that has read the state `stopped` finds no
process of its VM, the VM still has that state, and no call of `SleepVM` is at
work on a process of the VM. -/
def SavesInOrder (calls : Calls) (s : MState) (t : Tid) : {β : Type} → Eff β → Prop
  | _, .mem (.getRunning u) =>
      ∀ epoch n name, t = .call epoch n → calls epoch n = some (.saveSnapshot name u) →
        savePhase s u t = .read .stopped → s.world.mem.running u = none →
          s.world.store.stateOf u = some .stopped ∧ NoSleeper calls s u
  | _, _ => True

/-! ## The invariant -/

/-- The VM is stopped, and stays so as long as no start begins. -/
structure Rests (calls : Calls) (s : MState) (u : Uuid) : Prop where
  empty : s.world.mem.running u = none
  stopped : s.world.store.stateOf u = some .stopped
  noSleeper : NoSleeper calls s u

section Step

variable {w : World} {t : Tid} {o : Outcome} {β : Type} {b : β}

theorem StopStage.proc_save (st : StopStage) : st.save.proc = st.proc := by cases st <;> rfl

/-- A stop goes on with the process it has, or finds one in `running`. -/
theorem stop_proc_next {w' : World} {e : Eff β} {l : LockPhase × LifePhase} {q : Process}
    (hkeyed : w.mem.Keyed) (he : exec t w e o = some (b, w')) (hok : life.ok l e b)
    (h : (life.next l e b).2.stop.proc = some q) :
    l.2.stop.proc = some q ∨ l.1 = .start q.uuid ∨ w.mem.running q.uuid = some q := by
  cases e with
  | store e =>
    cases e with
    | setVMState c v state => cases h
    | getVM c v =>
      have hstop : (lifeNextStore l.2 (.getVM c v) b).stop = l.2.stop := by
        simp only [lifeNextStore]
        split <;> rfl
      exact Or.inl (hstop ▸ h)
    | _ => exact Or.inl h
  | host e =>
    cases e with
    | fcCreateSnapshot c sock state mem =>
      refine Or.inl (Eq.trans ?_ h)
      show l.2.stop.proc = (if b.isOk then l.2.stop.save else l.2.stop).proc
      split
      · exact (StopStage.proc_save _).symm
      · rfl
    | linkAdd tap v | cmdStart c => cases b <;> exact Or.inl h
    | _ => exact Or.inl h
  | mem e =>
    cases e with
    | endVMOperation v => cases h
    | getFinalState p =>
      have hstop : (lifeNextMem l.2 (.getFinalState p) b).stop = l.2.stop := by
        simp only [lifeNextMem]
        split <;> rfl
      exact Or.inl (hstop ▸ h)
    | getRunning v =>
      obtain ⟨m, hm, -⟩ := exec_mem he
      obtain ⟨rfl, -⟩ := section_eq hm
      cases hrun : w.mem.running v with
      | none => simp [life, Monitor.above, lifeNextMem, hrun, StopStage.proc] at h
      | some proc =>
        obtain rfl : proc = q := by
          simpa [life, Monitor.above, lifeNextMem, hrun, StopStage.proc] using h
        obtain rfl := hkeyed.running v proc hrun
        exact Or.inr (Or.inr hrun)
    | stillRunning proc =>
      cases b with
      | true => exact Or.inl h
      | false =>
        obtain rfl : proc = q := Option.some.inj h
        refine hok.imp ?_ fun hstart => Or.inl hstart.1
        rintro ⟨saved, hfound⟩
        rw [hfound]
        rfl
    | _ => exact Or.inl h

end Step

section Reach

variable {cfg : Config} {calls : Calls} {w w' : World} {s : MState} {K : MState → MLabel → Prop}
  {t : Tid} {o : Outcome} {u : Uuid} {n : Nat} {β : Type} {e : Eff β} {b : β}
  {k : β → Prog Eff (Except Err Unit)}

/-- While an operation that is no start holds the entry of the VM, no start of
the VM has begun. -/
theorem no_start_of_held (hw : w.Booted) (hr : system.Reach K (start cfg calls w) s)
    (hheld : lock.phases s (.call s.world.epoch n) = .vm u) (hcur : s.world.current t = true) :
    (life.phases s t).1 ≠ .start u := by
  intro hstart
  rw [life_phases_fst] at hstart
  have hsole : t = .call s.world.epoch n := (lockInv_reach hw.mem hr).sole (u := u)
    ⟨hcur, by rw [hstart]; rfl⟩ ⟨current_call s n, by rw [hheld]; rfl⟩
  rw [hsole, hheld] at hstart
  cases hstart

theorem rests_running (h : Rests calls s u) (hstart : (life.phases s t).1 ≠ .start u)
    (hok : life.ok (life.phases s t) e b) (he : exec t s.world e o = some (b, w')) :
    w'.mem.running u = none := by
  cases e with
  | store e =>
    obtain ⟨_, -, rfl⟩ := exec_store he
    exact h.empty
  | host e =>
    obtain ⟨_, -, rfl⟩ := exec_host he
    exact h.empty
  | mem e =>
    obtain ⟨m, hm, rfl⟩ := exec_mem he
    by_contra hne
    obtain ⟨q, hq⟩ := Option.ne_none_iff_exists'.mp hne
    rcases execMem_running hm hq with hold | ⟨hreg, rfl⟩
    · rw [h.empty] at hold
      cases hold
    · exact hstart (start_of_registers hok hreg)

theorem rests_sleepers (hw : w.Booted) (hr : system.Reach K (start cfg calls w) s)
    (h : Rests calls s u) (hstart : (life.phases s t).1 ≠ .start u)
    (hok : life.ok (life.phases s t) e b) (hp : s.prog t = .act e k)
    (he : exec t s.world e o = some (b, w')) :
    NoSleeper calls
      ⟨w', update s.prog t (k b), update s.hist t (⟨e, b⟩ :: s.hist t)⟩ u := by
  intro i op hop hsleeps hlive q hq
  simp only [exec_epoch he] at hop hlive hq
  by_cases ht : Tid.call s.world.epoch i = t
  · subst ht
    have hlive : s.live (.call s.world.epoch i) = true := by simp [State.live, hp, Prog.isRet]
    rw [phases_update, update_self] at hq
    rcases stop_proc_next (keyed_reach hw.mem hr) he hok hq with hold | hst | hrun
    · exact h.noSleeper i op hop hsleeps hlive q hold
    · rintro rfl
      exact hstart hst
    · rintro rfl
      rw [h.empty] at hrun
      cases hrun
  · rw [phases_update, update_of_ne ht] at hq
    refine h.noSleeper i op hop hsleeps ?_ q hq
    simpa [State.live, ht] using hlive

/-- An exit handler writes the state of a VM that has a process registered. -/
theorem exit_writes (hw : w.Booted) (hr : system.Reach K (start cfg calls w) s) {p : Pid}
    {e : StoreEff β} {state : VMState} {k : β → Prog Eff (Except Err Unit)}
    (hp : s.prog (.exit p) = .act (.store e) k) (hcur : s.world.current (.exit p) = true)
    (hok : lifeOkStore (life.phases s (.exit p)) e b) (hwrites : e.writesState u = some state) :
    s.world.mem.running u ≠ none := by
  have hwait : (life.phases s (.exit p)).2.exit ≠ .waiting := by
    intro hwait
    have hprog := exit_prog_of_waiting hr hwait
    rw [hp] at hprog
    cases hprog
  cases e with
  | setVMState c v state' =>
    obtain rfl : v = u := by
      by_contra hv
      simp [StoreEff.writesState, hv] at hwrites
    cases hstage : (life.phases s (.exit p)).2.exit with
    | waiting => exact absurd hstage hwait
    | read proc final =>
      simp only [lifeOkStore, hstage] at hok
      obtain ⟨-, hrun, -⟩ := (registry_reach hw hr).at_work hcur (by rw [hstage]; rfl)
      rw [hok.2.1, hrun]
      simp
    | _ => simp [lifeOkStore, hstage] at hok
  | _ => cases hwrites

/-- While the VM rests, a call writes no other state than `stopped`. -/
theorem call_writes (hcalls : calls.Save) (hr : system.Reach K (start cfg calls w) s)
    (h : Rests calls s u) {i : Nat} {e : StoreEff β} {state : VMState}
    {k : β → Prog Eff (Except Err Unit)}
    (hp : s.prog (.call s.world.epoch i) = .act (.store e) k)
    (hstart : (life.phases s (.call s.world.epoch i)).1 ≠ .start u)
    (hok : lifeOkStore (life.phases s (.call s.world.epoch i)) e b)
    (hwrites : e.writesState u = some state) : state = .stopped := by
  obtain ⟨op, hop⟩ := call_of_act hr hp
  have hsaves := hcalls _ _ _ hop
  cases e with
  | setVMState c v state' =>
    obtain ⟨rfl, rfl⟩ : v = u ∧ state' = state := by
      simpa [StoreEff.writesState] using hwrites
    simp only [lifeOkStore, call_exit_waiting hr] at hok
    have hall := writes_of_op cfg hsaves
    split at hall
    · -- A call of `SleepVM` has found the process before.
      rename_i hsleeps
      obtain rfl : state' = .sleeping := act_of_op hr hop hall hp
      obtain ⟨proc, hseen, hu⟩ := hok.2 rfl
      have hlive : s.live (.call s.world.epoch i) = true := by simp [State.live, hp, Prog.isRet]
      exact absurd hu (h.noSleeper i op hop hsleeps hlive proc (by rw [hseen]; rfl))
    · rcases act_of_op hr hop hall hp with rfl | rfl
      · exact absurd (hok.1 rfl).1 hstart
      · rfl
  | _ => cases hwrites

theorem rests_state (hcalls : calls.Save) (hw : w.Booted)
    (hr : system.Reach K (start cfg calls w) s) (h : Rests calls s u)
    (hstart : (life.phases s t).1 ≠ .start u) (hok : life.ok (life.phases s t) e b)
    (hp : s.prog t = .act e k) (he : exec t s.world e o = some (b, w')) :
    w'.store.stateOf u = some .stopped := by
  cases e with
  | mem e =>
    obtain ⟨_, -, rfl⟩ := exec_mem he
    exact h.stopped
  | host e =>
    obtain ⟨_, -, rfl⟩ := exec_host he
    exact h.stopped
  | store e =>
    obtain ⟨st, hs, rfl⟩ := exec_store he
    cases t with
    | exit p =>
      have hkind : Uses (fun k => k ≠ .insert ∧ k ≠ .drop) (s.prog (.exit p)) :=
        (exitKind_reach hr p).mono (by simp [ExitKind])
      rw [hp] at hkind
      rcases execStore_stateOf (u := u) hs hkind.1 with hsame | ⟨state, hwrites, -⟩
      · exact hsame.trans h.stopped
      · exact absurd h.empty (exit_writes hw hr hp (exec_current he) hok hwrites)
    | call epoch i =>
      obtain rfl := epoch_of_current (exec_current he)
      obtain ⟨op, hop⟩ := call_of_act hr hp
      have hkind := act_of_op hr hop (uses_of_saves (hcalls _ _ _ hop)) hp
      rcases execStore_stateOf (u := u) hs hkind with hsame | ⟨state, hwrites, hstate⟩
      · exact hsame.trans h.stopped
      · rw [call_writes hcalls hr h hp hstart hok hwrites] at hstate
        exact hstate

/-- A VM that rests goes on to rest while its entry is held. -/
theorem rests_act (hcalls : calls.Save) (hw : w.Booted)
    (hr : system.Reach K (start cfg calls w) s) (h : Rests calls s u)
    (hheld : lock.phases s (.call s.world.epoch n) = .vm u) (hp : s.prog t = .act e k)
    (he : exec t s.world e o = some (b, w')) :
    Rests calls ⟨w', update s.prog t (k b), update s.hist t (⟨e, b⟩ :: s.hist t)⟩ u := by
  have hstart := no_start_of_held hw hr hheld (exec_current he)
  have hok := life_ok_reach hw.mem hr hp he
  exact ⟨rests_running h hstart hok he, rests_state hcalls hw hr h hstart hok hp he,
    rests_sleepers hw hr h hstart hok hp he⟩

/-- A call whose check comes out well has found its VM at rest. -/
theorem rests_of_check {name : String} (hop : calls s.world.epoch n = some (.saveSnapshot name u))
    (hcond : SavesInOrder calls s (.call s.world.epoch n) e)
    (he : exec (.call s.world.epoch n) s.world e o = some (b, w'))
    (hold : savePhase s u (.call s.world.epoch n) ≠ .checked)
    (hnew : saveNext u (lock.phases s (.call s.world.epoch n))
      (savePhase s u (.call s.world.epoch n)) e b = .checked) :
    Rests calls s u ∧ lock.phases s (.call s.world.epoch n) = .vm u := by
  cases e with
  | host e => exact absurd hnew hold
  | store e =>
    cases e with
    | getVM c v =>
      cases b with
      | ok vm => cases hnew
      | error x => exact absurd hnew hold
    | _ => exact absurd hnew hold
  | mem e =>
    cases e with
    | getRunning v =>
      cases b with
      | some proc => exact absurd hnew hold
      | none =>
        have hif : v = u ∧ lock.phases s (.call s.world.epoch n) = .vm u ∧
            savePhase s u (.call s.world.epoch n) = .read .stopped := by
          by_contra hn
          exact hold ((if_neg hn).symm.trans hnew)
        obtain ⟨rfl, hheld, hread⟩ := hif
        obtain ⟨m, hm, -⟩ := exec_mem he
        cases o <;> simp only [execMem, Option.some.injEq, reduceCtorEq] at hm
        have hempty := (Prod.mk.inj hm).1
        obtain ⟨hstate, hsleeper⟩ := hcond _ n name rfl hop hread hempty
        exact ⟨⟨hempty, hstate, hsleeper⟩, hheld⟩
    | _ => exact absurd hnew hold

/-- Every step of the run is in order, and the daemon does not die. -/
def SaveRun (calls : Calls) (s : MState) (l : MLabel) : Prop :=
  survives l = true ∧ s.Next (fun t e _ => SavesInOrder calls s t e) l

/-- In every run that saves in order, the VM of a call that has made its check
rests. -/
theorem rests_reach (hcalls : calls.Save) (hw : w.Booted)
    (h : system.Reach (SaveRun calls) (start cfg calls w) s) :
    ∀ n name u, calls s.world.epoch n = some (.saveSnapshot name u) →
      savePhase s u (.call s.world.epoch n) = .checked → Rests calls s u := by
  refine h.invariant (I := fun s => ∀ n name u,
    calls s.world.epoch n = some (.saveSnapshot name u) →
      savePhase s u (.call s.world.epoch n) = .checked → Rests calls s u) ?_ ?_
  · intro n name u _ hchecked
    cases hchecked
  intro s l s' hr ih hK hs n name u hop hchecked
  rcases System.step_cases hs with
    ⟨t, o, rfl, β, e, k, b, w', hp, he, rfl⟩ | ⟨t, o, -, β, body, k, hp, rfl⟩ |
    ⟨v, w', rfl, hv, rfl⟩
  · simp only [exec_epoch he] at hop hchecked
    simp only [savePhase, phases_update] at hchecked
    by_cases ht : Tid.call s.world.epoch n = t
    · subst ht
      rw [update_self] at hchecked
      have hnew := (SavePhase.under_checked hchecked).1
      have hfst : ((saving u).phases s (.call s.world.epoch n)).1 = lock.phases s _ :=
        above_phases s _
      rw [hfst] at hnew
      by_cases hold : savePhase s u (.call s.world.epoch n) = .checked
      · exact rests_act hcalls hw hr (ih n name u hop hold) (holds_of_checked hold) hp he
      · obtain ⟨hrests, hheld⟩ := rests_of_check hop (hK.2.act hp) he hold hnew
        exact rests_act hcalls hw hr hrests hheld hp he
    · rw [update_of_ne ht] at hchecked
      exact rests_act hcalls hw hr (ih n name u hop hchecked) (holds_of_checked hchecked) hp he
  · obtain ⟨hempty, hstopped, hsleeper⟩ := ih n name u hop hchecked
    refine ⟨hempty, hstopped, fun i op hi hsleeps hlive => hsleeper i op hi hsleeps ?_⟩
    by_cases ht : Tid.call s.world.epoch i = t
    · simp [State.live, ht, hp, Prog.isRet]
    · simpa [State.live, ht] using hlive
  · have hne : v ≠ .crash := by
      rintro rfl
      cases hK.1
    obtain ⟨-, hmem, hepoch⟩ := (execEnv_mem hv).resolve_left fun hc => hne hc.1
    simp only [hepoch] at hop hchecked
    obtain ⟨hempty, hstopped, hsleeper⟩ := ih n name u hop hchecked
    refine ⟨by rw [hmem]; exact hempty, by rw [execEnv_store hv]; exact hstopped, ?_⟩
    simp only [NoSleeper, hepoch]
    exact hsleeper

/-- The thread is about to perform an action of a copy. -/
def Copying (s : MState) (t : Tid) : Prop :=
  s.world.current t = true ∧
    ∃ (β : Type) (e : Eff β) (k : β → Prog Eff (Except Err Unit)),
      s.prog t = .act e k ∧ copies e = true

theorem exists_answer_of_copies (h : copies e = true) : ∃ b, Answers e b := by
  cases e with
  | store e | mem e => cases h
  | host e =>
    cases e with
    | openRead p | openTrunc p | copyData c dst src f => exact ⟨.error .io, trivial⟩
    | _ => cases h

/-- In every run of `SaveSnapshot`, `StartVM`, `StopVM`, `SleepVM`, `RebootVM`
and `ArchiveStoppedVM` that saves in order, while a call of `SaveSnapshot`
copies the disk of its VM, the VM is stored as stopped and no process is
registered for it. -/
theorem saved_while_stopped {epoch : Nat} {name : String} (hcalls : calls.Save) (hw : w.Booted)
    (h : system.Reach (SaveRun calls) (start cfg calls w) s)
    (hop : calls epoch n = some (.saveSnapshot name u)) (hcopy : Copying s (.call epoch n)) :
    (∃ r, s.world.store.vms u = some r ∧ r.state = .stopped) ∧ s.world.mem.running u = none := by
  obtain ⟨hcur, β, e, k, hp, hcopies⟩ := hcopy
  obtain rfl := epoch_of_current hcur
  have hconf : (saving u).Conforms Answers (threads cfg calls (.call s.world.epoch n))
      (saving u).start fun _ _ => True := by
    simp only [threads, hop]
    exact conforms_bind.mpr saving_saveSnapshot
  obtain ⟨b, hb⟩ := exists_answer_of_copies hcopies
  have hchecked : savePhase s u (.call s.world.epoch n) = .checked := by
    rcases ok_reach (A := Answers) (answers_reach hw.mem) hconf h hp hb with hne | hl
    · rw [hcopies] at hne
      cases hne
    · exact hl
  obtain ⟨hempty, hstopped, -⟩ := rests_reach hcalls hw h n name u hop hchecked
  exact ⟨Option.map_eq_some_iff.mp hstopped, hempty⟩

end Reach

theorem ofList_save {ops : List Op} (h : ∀ op ∈ ops, op.saves = true) :
    (Calls.ofList ops).Save := by
  intro epoch n op hop
  simp only [Calls.ofList] at hop
  split at hop
  · exact h op (List.mem_of_getElem? hop)
  · cases hop

/-- Whether the next action of the thread is one of a copy. -/
def copiesNext (s : MState) (t : Tid) : Bool :=
  match s.prog t with
  | .act e _ => copies e
  | _ => false

theorem copying_of_copiesNext {s : MState} {t : Tid} (hcur : s.world.current t = true)
    (h : copiesNext s t = true) : Copying s t := by
  unfold copiesNext at h
  split at h
  · exact ⟨hcur, _, _, _, ‹_›, h⟩
  · cases h

/-- A call that saves a snapshot of a VM, and two others that start the VM and
put it to sleep. -/
def Calls.saveAsleep : Calls := .ofList [.saveSnapshot "snap" 0, .startVM 0, .sleepVM 0]

/-- `SaveSnapshot` reads that the VM is stopped.  Before it begins its
operation the VM is started and put to sleep.  The disk of the sleeping VM is
then copied. -/
theorem sleeping_vm_saved :
    ∃ s r, system.Reach (fun _ l => survives l = true) (start .sample .saveAsleep .oneVM) s ∧
      Copying s (.call 0 0) ∧ s.world.store.vms 0 = some r ∧ r.state = .sleeping := by
  obtain ⟨s, hs, hP⟩ := system.exists_reach_of_run (k := fun _ l => survives l)
    (s := start .sample .saveAsleep .oneVM)
    (l := steps (.call 0 0) 2 ++ steps (.call 0 1) 23 ++ .env (.bind 0) :: steps (.call 0 1) 4 ++
      steps (.call 0 2) 7 ++ steps (.exit 0) 6 ++ steps (.call 0 2) 6 ++ steps (.call 0 0) 6)
    (P := fun s => s.world.current (.call 0 0) && copiesNext s (.call 0 0) &&
      (s.world.store.vms 0).any fun (r : VMRow) => decide (r.state = .sleeping))
    (by decide) (by decide)
  obtain ⟨hcopy, hrow⟩ := (Bool.and_eq_true _ _).mp hP
  obtain ⟨hcur, hnext⟩ := (Bool.and_eq_true _ _).mp hcopy
  obtain ⟨r, hr, hst⟩ := (Option.any_eq_true _ _).mp hrow
  exact ⟨s, r, hs, copying_of_copiesNext hcur hnext, hr, of_decide_eq_true hst⟩

/-- One call that saves a snapshot. -/
def Calls.oneSave : Calls := .ofList [.saveSnapshot "snap" 0]

/-- When a call looks for a process, the VM is stopped. -/
def readHolds (s : MState) : {β : Type} → Eff β → Bool
  | _, .mem (.getRunning u) => decide (s.world.store.stateOf u = some .stopped)
  | _, _ => true

theorem saveRun_of_readHolds {s : MState} {l : MLabel} (hl : survives l = true)
    (h : s.next (fun _ e _ => readHolds s e) l = true) : SaveRun .oneSave s l := by
  refine ⟨hl, ?_⟩
  cases l with
  | env v => trivial
  | thread t o =>
    simp only [State.Next]
    split
    · rename_i β e k hp
      have hread := State.next_act h hp
      cases e with
      | store e | host e => trivial
      | mem e =>
        cases e with
        | getRunning u =>
          intro epoch n name _ hop _ _
          refine ⟨of_decide_eq_true hread, fun i op hi hsleeps => ?_⟩
          have hop : op = .saveSnapshot "snap" 0 := by
            simp only [Calls.oneSave, Calls.ofList] at hi
            split at hi
            · cases i <;> simp_all
            · cases hi
          rw [hop] at hsleeps
          cases hsleeps
        | _ => trivial
    · trivial

/-- A VM that nobody starts. -/
theorem saved_while_stopped_alone :
    ∃ s, system.Reach (SaveRun .oneSave) (start .sample .oneSave .oneVM) s ∧
      Copying s (.call 0 0) ∧ (∃ r, s.world.store.vms 0 = some r ∧ r.state = .stopped) ∧
      s.world.mem.running 0 = none := by
  obtain ⟨s, hs, hP⟩ := system.exists_reach_of_run
    (k := fun s l => survives l && s.next (fun _ e _ => readHolds s e) l)
    (s := start .sample .oneSave .oneVM)
    (l := steps (.call 0 0) 8)
    (P := fun s => s.world.current (.call 0 0) && copiesNext s (.call 0 0))
    (by decide) (by decide)
  obtain ⟨hcur, hnext⟩ := (Bool.and_eq_true _ _).mp hP
  have hreach : system.Reach (SaveRun .oneSave) (start .sample .oneSave .oneVM) s :=
    hs.mono fun s l hl =>
      saveRun_of_readHolds ((Bool.and_eq_true _ _).mp hl).1 ((Bool.and_eq_true _ _).mp hl).2
  have hcopy := copying_of_copiesNext hcur hnext
  exact ⟨s, hreach, hcopy, saved_while_stopped (ofList_save (by decide)) (World.booted_sample _ _)
    hreach (show Calls.oneSave 0 0 = some (.saveSnapshot "snap" 0) from rfl) hcopy⟩

end Firedoze
