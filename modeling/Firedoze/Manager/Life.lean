import Firedoze.Manager.Lock

/-!
# The life of a process
-/

namespace Firedoze

open Conc Conc.Prog Conc.Monitor Function

/-- How far a start has come: nothing made, a TAP device made, a process
started, the process registered, the state `running` written, the process
gone from `running`, or a clean-up that could not read the VM. -/
inductive Progress
  | idle
  | linked
  | spawned (p : Pid)
  | registered (proc : Process)
  | written (proc : Process)
  | gone (proc : Process)
  | lost (proc : Process)
  deriving DecidableEq, Repr

/-- The start has not registered its process yet. -/
@[simp, grind =]
def Progress.early : Progress → Bool
  | .idle => true
  | .linked => true
  | .spawned _ => true
  | .registered _ => false
  | .written _ => false
  | .gone _ => false
  | .lost _ => false

/-- How far an exit handler has come: it waits, it has a process that has
exited, it has read its final state, it has written the state, it has
deleted the entry. -/
inductive ExitStage
  | waiting
  | woken (proc : Process)
  | read (proc : Process) (final : Option VMState)
  | wrote (proc : Process)
  | done
  deriving DecidableEq, Repr

/-- How far a stop has come: it has found a process, and it has seen that the
process is gone from `running`.  `saved` says that it has made a snapshot of
the memory. -/
inductive StopStage
  | idle
  | found (proc : Process) (saved : Bool)
  | seen (proc : Process) (saved : Bool)
  deriving DecidableEq, Repr

/-- Whether the stop has made a snapshot of the memory. -/
def StopStage.saved : StopStage → Bool
  | .idle => false
  | .found _ saved => saved
  | .seen _ saved => saved

/-- The stop after it has made a snapshot of the memory. -/
def StopStage.save : StopStage → StopStage
  | .idle => .idle
  | .found proc _ => .found proc true
  | .seen proc _ => .seen proc true

/-- The process that a stop has found. -/
def StopStage.proc : StopStage → Option Process
  | .idle => none
  | .found proc _ => some proc
  | .seen proc _ => some proc

/-- What a thread has done to processes. -/
structure LifePhase where
  progress : Progress
  exit : ExitStage
  stop : StopStage
  deriving DecidableEq, Repr

/-- The thread has found no process, has registered none, and has waited for
none. -/
def LifePhase.Quiet (l : LifePhase) : Prop :=
  l.stop = .idle ∧ l.exit = .waiting ∧ l.progress.early = true

/-- The thread cleans up after the process: it is an exit handler that has
read the final state, or a stop that has seen that the process is gone. -/
def LifePhase.Cleans (l : LifePhase) (proc : Process) : Prop :=
  (∃ final, l.exit = .read proc final) ∨ ∃ saved, l.stop = .seen proc saved

/-- A thread that has to do with a process removes in the clean-up after it
only, and only what belongs to it. -/
def LifePhase.MayRemove (l : LifePhase) (own : Process → Prop) : Prop :=
  l.Quiet ∨ ∃ proc, l.Cleans proc ∧ own proc

/-- A read of `running` for VM `u` that found nothing. -/
def Progress.unseen (g : Progress) (u : Uuid) : Progress :=
  match g with
  | .registered proc => if proc.uuid = u then .gone proc else g
  | g => g

/-- The phase after a call of the store. -/
def lifeNextStore (l : LifePhase) : {β : Type} → StoreEff β → β → LifePhase
  | _, .getVM c u, r =>
      match c, r, l.progress with
      | .background, .error _, .registered proc =>
          { l with progress := if proc.uuid = u then .lost proc else .registered proc }
      | _, _, _ => l
  | _, .setVMState _ _ state, _ =>
      { progress :=
          match l.progress with
          | .registered proc => if state = .running then .written proc else .registered proc
          | g => g
        exit :=
          match l.exit with
          | .read proc _ => .wrote proc
          | x => x
        stop := .idle }
  | _, _, _ => l

/-- The phase after a critical section. -/
def lifeNextMem (l : LifePhase) : {β : Type} → MemEff β → β → LifePhase
  | _, .endVMOperation _, _ => { l with progress := .idle, stop := .idle }
  | _, .getRunning u, r =>
      match r with
      | some proc => { l with stop := .found proc false }
      | none => { l with progress := l.progress.unseen u, stop := .idle }
  | _, .stillRunning proc, r =>
      if r then l
      else { l with progress := l.progress.unseen proc.uuid, stop := .seen proc l.stop.saved }
  | _, .setRunning proc, _ => { l with progress := .registered proc }
  | _, .cmdWait _, proc => { l with exit := .woken proc }
  | _, .getFinalState _, r =>
      match l.exit with
      | .woken proc => { l with exit := .read proc r }
      | _ => l
  | _, .deleteRunning _, _ => { l with exit := .done }
  | _, _, _ => l

/-- The phase after a call of the host. -/
def lifeNextHost (l : LifePhase) : {β : Type} → HostEff β → β → LifePhase
  | _, .linkAdd _ _, r => if r.isOk then { l with progress := .linked } else l
  | _, .cmdStart _, r => r.toOption.elim l fun p => { l with progress := .spawned p }
  | _, .fcCreateSnapshot _ _ _ _, r => { l with stop := if r.isOk then l.stop.save else l.stop }
  | _, _, _ => l

/-- When a call of the store is in order: only a start whose process is
registered writes `running`, only a stop that has made a snapshot writes
`sleeping`, and an exit handler writes what it has read. -/
def lifeOkStore (l : LockPhase × LifePhase) : {β : Type} → StoreEff β → β → Prop
  | _, .setVMState c u state, _ =>
      match l.2.exit with
      | .waiting =>
          (state = .running →
            l.1 = .start u ∧ ∃ proc, l.2.progress = .registered proc ∧ proc.uuid = u) ∧
          (state = .sleeping → ∃ proc, l.2.stop = .seen proc true ∧ proc.uuid = u)
      | .read proc final => c = .background ∧ u = proc.uuid ∧ state = final.getD .stopped
      | _ => False
  | _, _, _ => True

/-- When a critical section is in order. -/
def lifeOkMem (l : LockPhase × LifePhase) : {β : Type} → MemEff β → β → Prop
  | _, .endVMOperation _, _ =>
      (∀ p, l.2.progress ≠ .spawned p) ∧ ∀ proc, l.2.progress ≠ .registered proc
  | _, .setRunning proc, _ => l.1 = .start proc.uuid ∧ l.2.progress = .spawned proc.pid
  | _, .deleteRunning u, _ => ∃ proc, l.2.exit = .wrote proc ∧ proc.uuid = u
  | _, .stillRunning proc, _ =>
      (∃ saved, l.2.stop = .found proc saved) ∨
        l.1 = .start proc.uuid ∧ l.2.progress = .registered proc
  | _, .setFinalState p state, _ =>
      state ≠ .running ∧
        (state = .sleeping → ∃ proc, l.2.stop = .found proc true ∧ proc.pid = p)
  | _, .cmdWait _, _ => l.2.exit = .waiting
  | _, .getFinalState p, _ => ∃ proc, l.2.exit = .woken proc ∧ proc.pid = p
  | _, _, _ => True

/-- When a call of the host is in order. -/
def lifeOkHost (l : LockPhase × LifePhase) : {β : Type} → HostEff β → β → Prop
  | _, .linkAdd _ u, _ => l.1 = .start u ∧ l.2.progress = .idle
  | _, .cmdStart c, _ => l.1 = .start c.uuid ∧ l.2.progress = .linked
  | _, .fcCreateSnapshot _ sock _ _, _ =>
      ∃ proc saved, l.2.stop = .found proc saved ∧ sock = proc.socketPath
  | _, .remove p, _ => l.2.MayRemove fun proc => proc.socketPath = p
  | _, .deleteTap tap, _ => l.2.MayRemove fun proc => proc.tapName = tap
  | _, .removeCgroup u, _ => l.2.MayRemove fun proc => proc.cgroupPath = some u
  | _, _, _ => True

/-- The monitor of processes. -/
def life : Monitor Eff (LockPhase × LifePhase) :=
  lock.above ⟨.idle, .waiting, .idle⟩
    (fun l e b =>
      match e with
      | .store e => lifeOkStore l e b
      | .mem e => lifeOkMem l e b
      | .host e => lifeOkHost l e b)
    (fun l e b =>
      match e with
      | .store e => lifeNextStore l.2 e b
      | .mem e => lifeNextMem l.2 e b
      | .host e => lifeNextHost l.2 e b)

theorem life_phases_fst (s : MState) (t : Tid) : (life.phases s t).1 = lock.phases s t :=
  above_phases s t

/-- Only a start registers a process. -/
theorem start_of_registers {l : LockPhase × LifePhase} {β : Type} {e : MemEff β} {b : β}
    {proc : Process} (hok : life.ok l (.mem e) b) (h : e.registers = some proc) :
    l.1 = .start proc.uuid := by
  cases e <;> cases h
  exact hok.1

/-! ## Calls that start no process -/

/-- The thread has no start under way. -/
def Idle (l : LockPhase × LifePhase) : Prop := l.2.progress = .idle ∧ l.2.exit = .waiting

/-- The same for a thread that has found no process either. -/
def Calm (l : LockPhase × LifePhase) : Prop := Idle l ∧ l.2.stop = .idle

/-- The kinds of actions of a thread that has no start under way. -/
@[grind =] def IdleKind (k : Kind) : Prop :=
  k ≠ .started ∧ k ≠ .register ∧ k ≠ .unregister ∧ k ≠ .spawn ∧ k ≠ .link ∧ k ≠ .exit ∧
    k ≠ .poll ∧ k ≠ .sleep

/-- The kinds of actions that can remove something. -/
@[grind =] def RemoveKind (k : Kind) : Prop := k = .disk ∨ k = .net ∨ k = .cgroup

/-- The kinds of actions that keep a thread calm. -/
@[grind =] def CalmKind (k : Kind) : Prop := IdleKind k ∧ k ≠ .watch

theorem idle_action {l : LockPhase × LifePhase} {β : Type} (e : Eff β) (b : β) (hl : Idle l)
    (he : IdleKind e.kind) (hq : l.2.stop = .idle ∨ ¬ RemoveKind e.kind) :
    life.ok l e b ∧ Idle (life.next l e b) ∧
      (l.2.stop = .idle → e.kind ≠ .watch → (life.next l e b).2.stop = .idle) := by
  obtain ⟨l, g, x, st⟩ := l
  obtain ⟨rfl, rfl⟩ : g = .idle ∧ x = .waiting := hl
  obtain ⟨hstarted, hreg, hunreg, hspawn, hlink, hexit, hpoll, hsleep⟩ := he
  have hquiet : RemoveKind e.kind → LifePhase.Quiet ⟨.idle, .waiting, st⟩ :=
    fun hr => ⟨hq.resolve_right (not_not_intro hr), rfl, rfl⟩
  cases e with
  | store e =>
    cases e with
    | getVM c u => cases c <;> cases b <;> exact ⟨trivial, ⟨rfl, rfl⟩, fun h _ => h⟩
    | setVMState c u state =>
      refine ⟨⟨fun hst => absurd ?_ hstarted, fun hst => absurd ?_ hsleep⟩, ⟨rfl, rfl⟩,
        fun _ _ => rfl⟩ <;> simp [Eff.kind, StoreEff.kind, hst]
    | _ => exact ⟨trivial, ⟨rfl, rfl⟩, fun h _ => h⟩
  | mem e =>
    cases e with
    | endVMOperation u => exact ⟨⟨by simp, by simp⟩, ⟨rfl, rfl⟩, fun _ _ => rfl⟩
    | getRunning u => cases b <;> exact ⟨trivial, ⟨rfl, rfl⟩, fun _ h => absurd rfl h⟩
    | stillRunning proc => exact absurd rfl hpoll
    | setRunning proc => exact absurd rfl hreg
    | deleteRunning u => exact absurd rfl hunreg
    | cmdWait p | getFinalState p => exact absurd rfl hexit
    | setFinalState p state =>
      refine ⟨⟨fun hst => absurd ?_ hstarted, fun hst => absurd ?_ hsleep⟩, ⟨rfl, rfl⟩,
        fun h _ => h⟩ <;> simp [Eff.kind, MemEff.kind, hst]
    | _ => exact ⟨trivial, ⟨rfl, rfl⟩, fun h _ => h⟩
  | host e =>
    cases e with
    | linkAdd tap u => exact absurd rfl hlink
    | cmdStart c => exact absurd rfl hspawn
    | fcCreateSnapshot c sock state mem => exact absurd rfl hsleep
    | remove p => exact ⟨.inl (hquiet (.inl rfl)), ⟨rfl, rfl⟩, fun h _ => h⟩
    | deleteTap tap => exact ⟨.inl (hquiet (.inr (.inl rfl))), ⟨rfl, rfl⟩, fun h _ => h⟩
    | removeCgroup u => exact ⟨.inl (hquiet (.inr (.inr rfl))), ⟨rfl, rfl⟩, fun h _ => h⟩
    | _ => exact ⟨trivial, ⟨rfl, rfl⟩, fun h _ => h⟩

/-- A program of a thread that has no start under way, and that removes
nothing. -/
theorem life_conforms_of_idle {α : Type} {p : Prog Eff α} {l : LockPhase × LifePhase}
    {Q : α → LockPhase × LifePhase → Prop} (hp : Uses (fun k => IdleKind k ∧ ¬ RemoveKind k) p)
    (hl : Idle l) (hQ : ∀ a l, Idle l → Q a l) : life.Conforms Answers p l Q := by
  refine conforms_of_all Idle hp hl (fun _ e b hl he _ => ?_) hQ
  obtain ⟨hok, hnext, -⟩ := idle_action e b hl he.1 (.inr he.2)
  exact ⟨hok, hnext⟩

theorem calm_action {l : LockPhase × LifePhase} {β : Type} (e : Eff β) (b : β) (hl : Calm l)
    (he : CalmKind e.kind) : life.ok l e b ∧ Calm (life.next l e b) := by
  obtain ⟨hok, hnext, hstop⟩ := idle_action e b hl.1 he.1 (.inl hl.2)
  exact ⟨hok, hnext, hstop hl.2 he.2⟩

/-- A program of a thread that has to do with no process. -/
theorem life_conforms_of_calm {α : Type} {p : Prog Eff α} {l : LockPhase × LifePhase}
    {Q : α → LockPhase × LifePhase → Prop} (hp : Uses CalmKind p) (hl : Calm l)
    (hQ : ∀ a l, Calm l → Q a l) : life.Conforms Answers p l Q :=
  conforms_of_all Calm hp hl (fun _ e b hl he _ => calm_action e b hl he) hQ

/-! ## A start -/

/-- The thread has the entry of a start and has come to `g`. -/
def Starting (u : Uuid) (g : Progress) (l : LockPhase × LifePhase) : Prop :=
  l.1 = .start u ∧ l.2.progress = g ∧ l.2.exit = .waiting

/-- The same for a start that stops nothing. -/
def launching (u : Uuid) (g : Progress) : LockPhase × LifePhase := (.start u, ⟨g, .waiting, .idle⟩)

/-- The kinds of actions that do not change how far a start has come. -/
@[grind =] def PassKind (k : Kind) : Prop :=
  k = .disk ∨ k = .copy ∨ k = .net ∨ k = .cgroup ∨ k = .api ∨ k = .load ∨ k = .kill

theorem pass_action {l : LockPhase × LifePhase} {β : Type} (e : Eff β) (b : β)
    (he : PassKind e.kind) :
    (l.2.Quiet ∨ ¬ RemoveKind e.kind → life.ok l e b) ∧ life.next l e b = l := by
  cases e with
  | store e =>
    cases e with
    | setVMArchivedDiskPath c u path => exact ⟨fun _ => trivial, rfl⟩
    | setVMState c u state => cases state <;> simp [Eff.kind, StoreEff.kind, PassKind] at he
    | _ => simp [Eff.kind, StoreEff.kind, PassKind] at he
  | mem e =>
    cases e with
    | setFinalState p state => cases state <;> simp [Eff.kind, MemEff.kind, PassKind] at he
    | _ => simp [Eff.kind, MemEff.kind, PassKind] at he
  | host e =>
    cases e with
    | linkAdd tap v | cmdStart c | fcCreateSnapshot c sock state mem =>
      simp [Eff.kind, HostEff.kind, PassKind] at he
    | remove p => exact ⟨fun hq => .inl (hq.resolve_right (not_not_intro (.inl rfl))), rfl⟩
    | deleteTap tap =>
      exact ⟨fun hq => .inl (hq.resolve_right (not_not_intro (.inr (.inl rfl)))), rfl⟩
    | removeCgroup u =>
      exact ⟨fun hq => .inl (hq.resolve_right (not_not_intro (.inr (.inr rfl)))), rfl⟩
    | _ => exact ⟨fun _ => trivial, rfl⟩

section Start

variable {u v : Uuid} {g : Progress} {l : LockPhase × LifePhase} {cfg : Config} {vm : VM} {c : Ctx}
  {q : Process}
  {α β : Type} {proc : Process}

theorem pass_launching (hg : g.early = true) (e : Eff α) (b : α) (hl : l = launching u g)
    (he : PassKind e.kind) :
    life.ok l e b ∧ life.next l e b = launching u g := by
  subst hl
  exact ⟨(pass_action e b he).1 (.inl ⟨rfl, rfl, hg⟩), (pass_action e b he).2⟩

/-- A program of a start before it registers its process. -/
theorem life_conforms_of_pass {p : Prog Eff α} {Q : α → LockPhase × LifePhase → Prop}
    (hg : g.early = true) (hp : Uses PassKind p) (hQ : ∀ a, Q a (launching u g)) :
    life.Conforms Answers p (launching u g) Q :=
  conforms_of_all (· = launching u g) hp rfl
    (fun _ e b hl he _ => pass_launching hg e b hl he) fun a _ hl => hl ▸ hQ a

theorem life_pass {x : Go α} {f : α → Go β} {Q : Except Err β → LockPhase × LifePhase → Prop}
    (hg : g.early = true) (hx : Uses PassKind x.run)
    (hf : ∀ a, life.Conforms Answers (f a).run (launching u g) Q)
    (herr : ∀ e, Q (.error e) (launching u g)) :
    life.Conforms Answers (x >>= f).run (launching u g) Q :=
  conforms_skip (· = launching u g) hx rfl
    (fun _ e b hl he _ => pass_launching hg e b hl he) (fun a _ hl => hl ▸ hf a)
    fun e _ hl => hl ▸ herr e

theorem life_prepareNetwork :
    life.Conforms Answers (prepareNetwork cfg vm).run (launching vm.uuid .idle) fun r l =>
      match r with
      | .ok _ => l = launching vm.uuid .linked
      | .error _ => l = launching vm.uuid .idle ∨ l = launching vm.uuid .linked := by
  unfold prepareNetwork
  split
  · exact Or.inl rfl
  refine life_pass rfl (by grind) (fun _ => ?_) fun _ => Or.inl rfl
  refine conforms_call_bind (fun _ _ => ⟨⟨rfl, rfl⟩, ?_⟩)
    fun _ _ => ⟨⟨rfl, rfl⟩, Or.inl rfl⟩
  refine life_conforms_of_pass (g := .linked) rfl ?_ fun r => ?_
  · unfold PassKind
    repeat' first | refine uses_run_bind ?_ fun _ => ?_ | split
    all_goals grind
  · cases r with
    | ok a => rfl
    | error e => exact Or.inr rfl

/-- A process without a cgroup is no error. -/
theorem life_attachCgroupPath {p : Pid} {path : Option Uuid} :
    life.Conforms Answers (attachCgroupPath cfg vm.uuid p path).run l fun r l' =>
      (∃ path, r = .ok path) ∧ l' = l := by
  unfold attachCgroupPath
  split
  · refine conforms_attempt_call_bind fun r _ => ⟨trivial, ?_⟩
    cases r with
    | ok _ | error _ => exact ⟨⟨_, rfl⟩, rfl⟩
  · exact ⟨⟨_, rfl⟩, rfl⟩

theorem life_launchProcess {netdev : PreparedNetwork} {bootDisk : Option Path} :
    life.Conforms Answers (launchProcess cfg vm netdev bootDisk).run (launching vm.uuid .linked)
      fun r l =>
        match r with
        | .ok proc => proc.uuid = vm.uuid ∧ l = launching vm.uuid (.registered proc)
        | .error _ => l = launching vm.uuid .linked := by
  unfold launchProcess
  refine life_pass rfl (by grind) (fun _ => ?_) fun _ => rfl
  refine life_pass rfl (by grind) (fun _ => ?_) fun _ => rfl
  refine life_pass rfl (by grind) (fun prepared => ?_) fun _ => rfl
  refine conforms_attempt_call_bind fun r _ => ⟨⟨rfl, rfl⟩, ?_⟩
  cases r with
  | error e => exact life_pass rfl (by grind) (fun _ => rfl) fun _ => rfl
  | ok pid =>
    refine conforms_run_bind.mpr (conforms_mono ?_
      (life_attachCgroupPath (l := launching vm.uuid (.spawned pid))))
    rintro _ _ ⟨⟨path, rfl⟩, rfl⟩
    exact conforms_sect_bind fun _ _ => ⟨⟨rfl, rfl⟩, rfl, rfl⟩

/-- A wait that nothing cancels ends with the process gone. -/
theorem life_waitForProcessExit (hl : Starting proc.uuid (.registered proc) l)
    (hp : q.uuid = proc.uuid) (hq : (∃ saved, l.2.stop = .found q saved) ∨ q = proc) :
    life.Conforms Answers (waitForProcessExit .background q).run l fun r l =>
      r = .ok () ∧ Starting proc.uuid (.gone proc) l ∧ l.2.Cleans q := by
  unfold waitForProcessExit
  refine conforms_forever (fun l => Starting proc.uuid (.registered proc) l ∧
    ((∃ saved, l.2.stop = .found q saved) ∨ q = proc)) ⟨hl, hq⟩ ?_
  rintro l ⟨hl, hq⟩
  refine conforms_sect_bind fun r _ => ⟨?_, ?_⟩
  · refine hq.imp_right ?_
    rintro rfl
    exact ⟨hl.1, hl.2.1⟩
  cases r with
  | false =>
    refine ⟨rfl, ⟨hl.1, ?_, hl.2.2⟩, .inr ⟨_, rfl⟩⟩
    show l.2.progress.unseen q.uuid = .gone proc
    rw [hl.2.1]
    exact if_pos hp.symm
  | true =>
    refine conforms_sect_bind fun ev hev => ⟨trivial, ?_⟩
    cases ev with
    | deadline => exact conforms_sect_bind fun _ _ => ⟨trivial, hl, hq⟩
    | tick => exact ⟨hl, hq⟩
    | done => exact absurd rfl hev

/-- The clean-up removes what belongs to the process. -/
theorem life_cleanup {J : LockPhase × LifePhase → Prop} (hl : J l) (hq : l.2.Cleans q) :
    life.Conforms Answers (cleanupAfterExit q).run l fun _ l => J l := by
  unfold cleanupAfterExit removeCgroupPath
  refine conforms_run_bind.mpr (conforms_attempt_call_bind fun _ _ => ⟨.inr ⟨q, hq, rfl⟩, ?_⟩)
  split
  · exact fun _ _ => ⟨.inr ⟨q, hq, rfl⟩, hl⟩
  · rename_i u hu
    refine conforms_run_bind.mpr (conforms_attempt_call_bind fun _ _ => ⟨.inr ⟨q, hq, hu⟩, ?_⟩)
    exact fun _ _ => ⟨.inr ⟨q, hq, rfl⟩, hl⟩

theorem life_ignore {x : Go α} {f : Unit → Go β} {J : LockPhase × LifePhase → Prop}
    {Q : Except Err β → LockPhase × LifePhase → Prop}
    (hx : life.Conforms Answers x.run l fun _ l => J l)
    (hf : ∀ l, J l → life.Conforms Answers (f ()).run l Q) :
    life.Conforms Answers (ignore x >>= f).run l Q := by
  refine conforms_run_bind.mpr (conforms_attempt_bind (conforms_mono ?_ hx))
  exact fun _ l hl => hf l hl

theorem life_stopProcess (hl : Starting proc.uuid (.registered proc) l) :
    life.Conforms Answers (stopProcess .background proc .stopped).run l fun _ l =>
      Starting proc.uuid (.gone proc) l := by
  unfold stopProcess
  refine conforms_sect_bind fun _ _ => ⟨⟨VMState.noConfusion, VMState.noConfusion⟩, ?_⟩
  refine conforms_sect_bind fun _ _ => ⟨trivial, ?_⟩
  refine conforms_run_bind.mpr (conforms_mono ?_
    (life_waitForProcessExit hl rfl (Or.inr rfl)))
  rintro _ l ⟨rfl, hl, hq⟩
  exact life_cleanup hl hq

/-- The state `stopped` can be written whenever no exit handler is at work. -/
theorem life_setStopped (hl : Starting u (.gone proc) l) :
    life.Conforms Answers (db (.setVMState c v .stopped)).run l fun _ l =>
      Starting u (.gone proc) l := by
  intro r _
  obtain ⟨l, g, x, st⟩ := l
  obtain ⟨rfl, rfl, rfl⟩ : l = .start u ∧ g = .gone proc ∧ x = .waiting := hl
  exact ⟨⟨VMState.noConfusion, VMState.noConfusion⟩, rfl, rfl, rfl⟩

/-- A guest that does not take the request is no error. -/
theorem life_sendCtrlAltDel :
    life.Conforms Answers (sendCtrlAltDel c q).run l fun r l' => r = .ok () ∧ l' = l := by
  unfold sendCtrlAltDel
  refine conforms_attempt_call_bind fun r _ => ⟨trivial, ?_⟩
  cases r with
  | ok _ => exact ⟨rfl, rfl⟩
  | error _ => exact fun _ _ => ⟨trivial, rfl, rfl⟩

/-- The clean-up of a start ends with the process gone, or with the start
unable to read the VM. -/
theorem life_stopVM (hl : Starting proc.uuid (.registered proc) l) :
    life.Conforms Answers (stopVM .background proc.uuid).run l fun _ l =>
      Starting proc.uuid (.gone proc) l ∨ Starting proc.uuid (.lost proc) l := by
  obtain ⟨l, g, x, st⟩ := l
  obtain ⟨rfl, rfl, rfl⟩ : l = .start proc.uuid ∧ g = .registered proc ∧ x = .waiting := hl
  unfold stopVM
  refine conforms_call_bind (fun _ _ => ⟨trivial, ?_⟩)
    fun _ _ => ⟨trivial, Or.inr ⟨rfl, if_pos rfl, rfl⟩⟩
  refine conforms_sect_bind fun r hr => ⟨trivial, ?_⟩
  cases r with
  | none =>
    exact conforms_mono (fun _ _ hl => Or.inl hl)
      (life_setStopped ⟨rfl, if_pos rfl, rfl⟩)
  | some q =>
    refine conforms_run_bind.mpr (conforms_mono ?_ life_sendCtrlAltDel)
    rintro _ _ ⟨rfl, rfl⟩
    refine conforms_run_bind.mpr (conforms_mono ?_
      (life_waitForProcessExit ⟨rfl, rfl, rfl⟩ (hr q rfl) (Or.inl ⟨false, rfl⟩)))
    rintro _ l ⟨rfl, hl, hq⟩
    refine life_ignore (life_cleanup hl hq) fun l hl => ?_
    exact conforms_mono (fun _ _ hl => Or.inl hl) (life_setStopped hl)

/-- A start that may give its entry back: no process is on its way, and the
process that it has registered has had its state written or is gone. -/
def Started (u : Uuid) (l : LockPhase × LifePhase) : Prop :=
  ∃ g, Starting u g l ∧ (∀ p, g ≠ .spawned p) ∧ ∀ proc, g ≠ .registered proc

theorem Starting.started (hl : Starting u g l) (hs : ∀ p, g ≠ .spawned p)
    (hr : ∀ proc, g ≠ .registered proc) : Started u l := ⟨g, hl, hs, hr⟩

/-- The end of a start: the state is written, and the VM is read. -/
theorem life_setRunning (hl : Starting proc.uuid (.registered proc) l) :
    life.Conforms Answers
      (db (.setVMState .request proc.uuid .running) >>= fun _ =>
        db (.getVM .request proc.uuid)).run l fun _ l => Started proc.uuid l := by
  obtain ⟨l, g, x, st⟩ := l
  obtain ⟨rfl, rfl, rfl⟩ : l = .start proc.uuid ∧ g = .registered proc ∧ x = .waiting := hl
  have hend : Started proc.uuid (.start proc.uuid, ⟨.written proc, .waiting, .idle⟩) :=
    Starting.started (g := .written proc) ⟨rfl, rfl, rfl⟩ (by simp) (by simp)
  refine conforms_call_bind (fun _ _ => ⟨?_, ?_⟩) fun _ _ => ⟨?_, hend⟩
  · exact ⟨fun _ => ⟨rfl, proc, rfl, rfl⟩, VMState.noConfusion⟩
  · intro r _
    exact ⟨trivial, hend⟩
  · exact ⟨fun _ => ⟨rfl, proc, rfl, rfl⟩, VMState.noConfusion⟩

/-- The kinds of actions of the Firecracker API. -/
@[grind =] def ApiKind (k : Kind) : Prop := k = .api ∨ k = .load

theorem life_conforms_of_api {p : Prog Eff α} {Q : α → LockPhase × LifePhase → Prop}
    (hp : Uses ApiKind p) (hQ : ∀ a, Q a l) : life.Conforms Answers p l Q := by
  refine conforms_of_all (· = l) hp rfl ?_ fun a _ hl => hl ▸ hQ a
  rintro β l' e b rfl he -
  have hpass := pass_action (l := l') e b (by rcases he with he | he <;> simp [PassKind, he])
  exact ⟨hpass.1 (.inr (by rcases he with he | he <;> simp [RemoveKind, he])), hpass.2⟩

theorem life_orStopVM {x : Go Unit} (hx : Uses ApiKind x.run)
    (hl : Starting proc.uuid (.registered proc) l) :
    life.Conforms Answers (orStopVM proc.uuid x).run l fun r l =>
      match r with
      | .ok _ => Starting proc.uuid (.registered proc) l
      | .error _ => Started proc.uuid l := by
  unfold orStopVM
  refine conforms_attempt_bind (life_conforms_of_api hx fun r => ?_)
  cases r with
  | ok _ => exact hl
  | error e =>
    refine life_ignore (life_stopVM hl) fun l hl => ?_
    rcases hl with hl | hl
    · exact hl.started (by simp) (by simp)
    · exact hl.started (by simp) (by simp)

theorem life_orStopProcess {x : Go Unit} (hx : Uses ApiKind x.run)
    (hl : Starting proc.uuid (.registered proc) l) :
    life.Conforms Answers (orStopProcess proc x).run l fun r l =>
      match r with
      | .ok _ => Starting proc.uuid (.registered proc) l
      | .error _ => Started proc.uuid l := by
  unfold orStopProcess
  refine conforms_attempt_bind (life_conforms_of_api hx fun r => ?_)
  cases r with
  | ok _ => exact hl
  | error e => exact life_ignore (life_stopProcess hl) fun l hl => hl.started (by simp) (by simp)

theorem started_launching (hs : ∀ p, g ≠ .spawned p) (hr : ∀ proc, g ≠ .registered proc) :
    Started u (launching u g) :=
  Starting.started (g := g) ⟨rfl, rfl, rfl⟩ hs hr

/-- A step of a start that has launched no process may be the last one. -/
theorem start_pass {x : Go α} {f : α → Go β} (hg : g = .idle ∨ g = .linked)
    (hx : Uses PassKind x.run)
    (hf : ∀ a, life.Conforms Answers (f a).run (launching u g) fun _ l => Started u l) :
    life.Conforms Answers (x >>= f).run (launching u g) fun _ l => Started u l := by
  rcases hg with rfl | rfl
  · exact life_pass rfl hx hf fun _ => started_launching (by simp) (by simp)
  · exact life_pass rfl hx hf fun _ => started_launching (by simp) (by simp)

theorem start_prepareNetwork {f : PreparedNetwork → Go β}
    (hf : ∀ netdev, life.Conforms Answers (f netdev).run (launching vm.uuid .linked)
      fun _ l => Started vm.uuid l) :
    life.Conforms Answers (prepareNetwork cfg vm >>= f).run (launching vm.uuid .idle)
      fun _ l => Started vm.uuid l := by
  refine conforms_then life_prepareNetwork (fun netdev l hl => hl ▸ hf netdev) fun _ _ hl => ?_
  rcases hl with rfl | rfl
  · exact started_launching (by simp) (by simp)
  · exact started_launching (by simp) (by simp)

theorem life_resumeVM :
    life.Conforms Answers (resumeVM cfg vm).run (launching vm.uuid .idle)
      fun _ l => Started vm.uuid l := by
  unfold resumeVM
  refine start_pass (.inl rfl) (by grind) fun _ => ?_
  refine start_pass (.inl rfl) (by grind) fun _ => ?_
  refine start_pass (.inl rfl) (by grind) fun _ => ?_
  refine start_prepareNetwork fun netdev => start_pass (.inr rfl) (by grind) fun _ => ?_
  refine conforms_attempt_bind (conforms_mono ?_ life_launchProcess)
  intro r l hl
  cases r with
  | error e =>
    obtain rfl := hl
    exact start_pass (.inr rfl) (by grind) fun _ => started_launching (by simp) (by simp)
  | ok proc =>
    obtain ⟨hp, rfl⟩ := hl
    rw [← hp]
    refine conforms_then (life_orStopProcess (by grind) ⟨rfl, rfl, rfl⟩) (fun _ l hl => ?_)
      fun _ _ hl => hl
    exact conforms_then (life_orStopProcess (by grind) hl) (fun _ _ hl => life_setRunning hl)
      fun _ _ hl => hl

theorem life_bootVM :
    life.Conforms Answers (bootVM cfg vm.uuid vm).run (launching vm.uuid .idle)
      fun _ l => Started vm.uuid l := by
  unfold bootVM
  refine start_pass (.inl rfl) (by grind) fun _ => start_prepareNetwork fun netdev => ?_
  refine start_pass (.inr rfl) (by grind) fun _ => start_pass (.inr rfl) (by grind) fun _ => ?_
  refine conforms_then life_launchProcess (fun proc l hl => ?_)
    fun _ _ hl => hl ▸ started_launching (by simp) (by simp)
  obtain ⟨hp, rfl⟩ := hl
  rw [← hp]
  exact conforms_then (life_orStopVM (by grind) ⟨rfl, rfl, rfl⟩) (fun _ _ hl => life_setRunning hl)
    fun _ _ hl => hl

theorem life_startLocked :
    life.Conforms Answers (startLocked cfg u).run (launching u .idle) fun _ l => Started u l := by
  have hidle : Started u (launching u .idle) := started_launching (by simp) (by simp)
  unfold startLocked
  refine conforms_call_bind (fun vm hvm => ⟨trivial, ?_⟩) fun _ _ => ⟨trivial, hidle⟩
  obtain rfl : vm.uuid = u := hvm vm rfl
  split
  · exact hidle
  · split
    · exact life_resumeVM
    · exact life_bootVM

theorem life_startVM (hout : l.1 = .out) (hl : Calm l) :
    life.Conforms Answers (startVM cfg u).run l fun _ l => Idle l := by
  have hbegin : Uses CalmKind (beginStartOperationCancelingColdArchive u).run := by
    unfold beginStartOperationCancelingColdArchive cancelingColdArchive CalmKind IdleKind
    grind
  unfold startVM
  refine conforms_then (conforms_above (hout ▸ lock_beginStartOperation)
    (life_conforms_of_calm hbegin hl fun _ _ hl => hl)) ?_ fun _ _ hl => hl.2.1
  rintro _ ⟨l, g, x, st⟩ ⟨hlock, hl⟩
  obtain ⟨⟨rfl, rfl⟩, rfl⟩ : (g = .idle ∧ x = .waiting) ∧ st = .idle := hl
  obtain rfl : l = .start u := hlock
  refine conforms_deferred.mpr (conforms_mono ?_ life_startLocked)
  rintro _ l ⟨_, ⟨-, rfl, hx⟩, hs, hr⟩
  exact fun _ _ => ⟨⟨hs, hr⟩, rfl, hx⟩

/-! ## Stops -/

/-- The thread has no start under way and has found the process `q`. -/
def Stopping (q : Process) (saved : Bool) (l : LockPhase × LifePhase) : Prop :=
  Idle l ∧ l.2.stop = .found q saved

theorem stopping_wait (saved : Bool) (hl : Stopping q saved l) :
    life.Conforms Answers (waitForProcessExit c q).run l fun r l =>
      Idle l ∧ (r = .ok () → l.2.stop = .seen q saved) := by
  unfold waitForProcessExit
  refine conforms_forever (Stopping q saved) hl ?_
  rintro ⟨l, g, x, st⟩ ⟨⟨hg, hx⟩, hst⟩
  obtain ⟨rfl, rfl, rfl⟩ : g = .idle ∧ x = .waiting ∧ st = .found q saved := ⟨hg, hx, hst⟩
  refine conforms_sect_bind fun r _ => ⟨Or.inl ⟨saved, rfl⟩, ?_⟩
  cases r with
  | false => exact ⟨⟨rfl, rfl⟩, fun _ => rfl⟩
  | true =>
    refine conforms_sect_bind fun ev _ => ⟨trivial, ?_⟩
    cases ev with
    | deadline => exact conforms_sect_bind fun _ _ => ⟨trivial, ⟨rfl, rfl⟩, rfl⟩
    | tick => exact ⟨⟨rfl, rfl⟩, rfl⟩
    | done => exact ⟨⟨rfl, rfl⟩, fun hr => by cases hr⟩

theorem idle_setVMState {state : VMState} (hl : Idle l) (hrun : state ≠ .running)
    (hsleep : state = .sleeping → ∃ q, l.2.stop = .seen q true ∧ q.uuid = v) :
    life.Conforms Answers (db (.setVMState c v state)).run l fun _ l => Calm l := by
  intro r _
  obtain ⟨l, g, x, st⟩ := l
  obtain ⟨rfl, rfl⟩ : g = .idle ∧ x = .waiting := hl
  exact ⟨⟨fun h => absurd h hrun, hsleep⟩, ⟨rfl, rfl⟩, rfl⟩

theorem idle_stopVM (hl : Idle l) :
    life.Conforms Answers (stopVM c u).run l fun r l => Idle l ∧ (r = .ok () → Calm l) := by
  obtain ⟨l, g, x, st⟩ := l
  obtain ⟨rfl, rfl⟩ : g = .idle ∧ x = .waiting := hl
  have hset : ∀ {l : LockPhase × LifePhase}, Idle l →
      life.Conforms Answers (db (.setVMState c u .stopped)).run l fun r l =>
        Idle l ∧ (r = .ok () → Calm l) := fun hl =>
    conforms_mono (fun _ _ hl => ⟨hl.1, fun _ => hl⟩) (idle_setVMState hl (by simp) (by simp))
  unfold stopVM
  refine conforms_call_bind (fun vm _ => ⟨trivial, ?_⟩) fun _ _ => ⟨trivial, ?_, nofun⟩
  · refine conforms_sect_bind fun r _ => ⟨trivial, ?_⟩
    cases r with
    | none => exact hset (by cases c <;> exact ⟨rfl, rfl⟩)
    | some q =>
      refine conforms_run_bind.mpr (conforms_mono ?_ life_sendCtrlAltDel)
      rintro _ _ ⟨rfl, rfl⟩
      refine conforms_then (stopping_wait (q := q) false ⟨by cases c <;> exact ⟨rfl, rfl⟩, rfl⟩)
        (fun _ l hl => ?_) fun _ _ hl => ⟨hl.1, nofun⟩
      exact life_ignore (life_cleanup hl.1 (.inr ⟨_, hl.2 rfl⟩)) fun l hl => hset hl
  · cases c <;> exact ⟨rfl, rfl⟩

theorem idle_sleepVM (hl : Idle l) :
    life.Conforms Answers (sleepVM cfg u).run l fun _ l => Idle l := by
  obtain ⟨l, g, x, st⟩ := l
  obtain ⟨rfl, rfl⟩ : g = .idle ∧ x = .waiting := hl
  unfold sleepVM
  refine conforms_call_bind (fun vm _ => ⟨trivial, ?_⟩) fun _ _ => ⟨trivial, rfl, rfl⟩
  refine conforms_sect_bind fun r hr => ⟨trivial, ?_⟩
  cases r with
  | none =>
    show life.Conforms Answers
      (if vm.state = .sleeping then pure vm else throw .notRunning : Go VM).run _ _
    split
    · exact ⟨rfl, rfl⟩
    · exact ⟨rfl, rfl⟩
  | some q =>
    have hq : q.uuid = u := hr q rfl
    refine conforms_call_bind (fun _ _ => ⟨trivial, ?_⟩) fun _ _ => ⟨trivial, rfl, rfl⟩
    refine conforms_call_bind (fun _ _ => ⟨trivial, ?_⟩) fun _ _ => ⟨trivial, rfl, rfl⟩
    -- The snapshot is made, or the guest goes on.
    unfold saveMemory
    refine conforms_run_bind.mpr (conforms_attempt_call_bind fun r _ =>
      ⟨⟨q, false, rfl, rfl⟩, ?_⟩)
    cases r with
    | error e =>
      exact life_ignore (J := Idle) (fun _ _ => ⟨trivial, rfl, rfl⟩) fun _ hl => hl
    | ok _ =>
      unfold stopProcess
      refine conforms_run_bind.mpr (conforms_sect_bind fun _ _ =>
        ⟨⟨VMState.noConfusion, fun _ => ⟨q, rfl, rfl⟩⟩, ?_⟩)
      refine conforms_sect_bind fun _ _ => ⟨trivial, ?_⟩
      refine conforms_run_bind.mpr (conforms_mono ?_
        (stopping_wait (q := q) true ⟨⟨rfl, rfl⟩, rfl⟩))
      rintro r l ⟨hl, hseen⟩
      cases r with
      | error e => exact hl
      | ok _ =>
        refine conforms_mono ?_ (life_cleanup
          (J := fun l => Idle l ∧ l.2.stop = .seen q true) ⟨hl, hseen rfl⟩
          (.inr ⟨true, hseen rfl⟩))
        rintro r l ⟨hl, hst⟩
        cases r with
        | error e => exact hl
        | ok _ =>
          exact conforms_then (idle_setVMState hl (by simp) fun _ => ⟨q, hst, hq⟩)
            (fun _ l hl => life_conforms_of_calm (by grind) hl fun _ _ hl => hl.1)
            fun _ _ hl => hl.1

/-- The part of a block before `f` neither starts a process nor stops one,
and removes nothing. -/
theorem idle_bind {x : Go α} {f : α → Go β} (hx : Uses (fun k => IdleKind k ∧ ¬ RemoveKind k) x.run)
    (hl : Idle l) (hf : ∀ a l, Idle l → life.Conforms Answers (f a).run l fun _ l => Idle l) :
    life.Conforms Answers (x >>= f).run l fun _ l => Idle l :=
  conforms_then (life_conforms_of_idle hx hl fun _ _ hl => hl) hf fun _ _ hl => hl

/-- The part of a block before `f` has to do with no process. -/
theorem calm_bind {x : Go α} {f : α → Go β} (hx : Uses CalmKind x.run) (hl : Calm l)
    (hf : ∀ a l, Calm l → life.Conforms Answers (f a).run l fun _ l => Idle l) :
    life.Conforms Answers (x >>= f).run l fun _ l => Idle l :=
  conforms_then (life_conforms_of_calm hx hl fun _ _ hl => hl) hf fun _ _ hl => hl.1

/-- A thread that is calm is so after it has found no process. -/
theorem Calm.unseen (hl : Calm l) :
    Calm (l.1, ⟨l.2.progress.unseen v, l.2.exit, .idle⟩) :=
  ⟨⟨congrArg (Progress.unseen · v) hl.1.1, hl.1.2⟩, rfl⟩

theorem idle_sleepNames {names : List String} (hl : Idle l) :
    life.Conforms Answers (sleepNames cfg names).run l fun _ l => Idle l := by
  induction names generalizing l with
  | nil => exact hl
  | cons name names ih =>
    unfold sleepNames
    refine conforms_attempt_bind (conforms_mono ?_
      (idle_bind (by grind) hl fun vm l hl => idle_sleepVM hl))
    intro r l hl
    exact conforms_then (ih hl) (fun _ _ hl => hl) fun _ _ hl => hl

theorem idle_serveAPIShutdown (hl : Idle l) :
    life.Conforms Answers (serveAPIShutdown cfg).run l fun _ l => Idle l := by
  unfold serveAPIShutdown sleepRunningVMs
  refine idle_bind (by grind) hl fun _ l hl => ?_
  refine life_ignore (J := Idle) (fun _ _ => ⟨trivial, hl⟩) fun l hl => ?_
  refine conforms_attempt_bind (conforms_mono ?_ (idle_bind (by grind) hl fun names l hl =>
    conforms_then (idle_sleepNames hl) (fun failed l hl => ?_) fun _ _ hl => hl))
  · intro r l hl
    cases r <;>
      exact life_ignore (J := Idle) (fun _ _ => ⟨trivial, hl⟩) fun _ hl _ _ => ⟨trivial, hl⟩
  · cases failed <;> exact hl

/-- An operation gives its entry back. -/
theorem idle_deferred {x : Go α} (hx : life.Conforms Answers x.run l fun _ l => Idle l) :
    life.Conforms Answers (deferred x (endVMOperation v)).run l fun _ l => Idle l := by
  refine conforms_deferred.mpr (conforms_mono ?_ hx)
  intro _ l hl
  exact life_conforms_of_idle (uses_endVMOperation (by simp [IdleKind, RemoveKind])) hl
    fun _ _ hl => hl

theorem idle_deleteVM (hl : Calm l) :
    life.Conforms Answers (deleteVM cfg u).run l fun _ l => Idle l := by
  have hrest : ∀ (vm : VM) (l : LockPhase × LifePhase), Calm l →
      life.Conforms Answers (do
        deleteFiles cfg vm
        db (.deleteRoutesForVM .request u)
        db (.deleteVM .request u) : Go Unit).run l fun _ l => Idle l :=
    fun vm l hl => life_conforms_of_calm (by grind) hl fun _ _ hl => hl.1
  unfold deleteVM
  refine calm_bind (by grind) hl fun vm l hl => ?_
  refine calm_bind (by unfold beginVMOperationCancelingColdArchive; grind) hl
    fun _ l hl => idle_deferred ?_
  unfold deleteLocked stopIfRunning
  refine conforms_run_bind.mpr (conforms_sect_bind fun r _ => ⟨trivial, ?_⟩)
  cases r with
  | none => exact hrest vm _ hl.unseen
  | some q =>
    refine conforms_mono ?_ (idle_stopVM hl.1)
    rintro r l ⟨hl, hcalm⟩
    cases r with
    | error e => exact hl
    | ok _ => exact hrest vm l (hcalm rfl)

theorem idle_archiveStoppedVM {now : Nat} (hl : Calm l) :
    life.Conforms Answers (archiveStoppedVM cfg u now).run l fun _ l => Idle l := by
  unfold archiveStoppedVM
  split
  · refine calm_bind (by unfold beginColdArchiveOperation; grind) hl fun a l hl => ?_
    refine conforms_deferred.mpr (conforms_mono (Q := fun _ l => Idle l)
      (fun _ l hl _ _ => ⟨trivial, fun _ _ => ⟨trivial, hl⟩⟩) ?_)
    unfold archiveStopped
    refine calm_bind (by grind) hl fun vm l hl => ?_
    split
    · refine conforms_sect_bind fun r _ => ⟨trivial, ?_⟩
      cases r with
      | some q => exact hl.1
      | none =>
        refine life_conforms_of_calm ?_ hl.unseen fun _ _ hl => hl.1
        repeat' first | refine uses_run_bind ?_ fun _ => ?_ | split
        all_goals grind
    · exact hl.1
  · exact hl.1

theorem idle_saveSnapshot {name : String} (hl : Calm l) :
    life.Conforms Answers (saveSnapshot cfg name u).run l fun _ l => Idle l := by
  unfold saveSnapshot
  split
  · exact hl.1
  · refine calm_bind (by grind) hl fun vm l hl => ?_
    split
    · exact hl.1
    · refine calm_bind (by grind) hl fun vm l hl => ?_
      refine calm_bind (by unfold beginVMOperationCancelingColdArchive; grind) hl
        fun _ l hl => idle_deferred ?_
      unfold saveLocked
      refine conforms_sect_bind fun r _ => ⟨trivial, ?_⟩
      cases r with
      | some q =>
        simp only [Option.isSome_some, or_true, if_true]
        exact hl.1
      | none =>
        refine life_conforms_of_calm ?_ hl.unseen fun _ _ hl => hl.1
        repeat' first | refine uses_run_bind ?_ fun _ => ?_ | split
        all_goals grind

theorem life_rebootVM (hout : l.1 = .out) (hl : Calm l) :
    life.Conforms Answers (rebootVM cfg u).run l fun _ l => Idle l := by
  -- Whatever stands before the start neither takes an entry nor starts a process.
  have hthen : ∀ {x : Go Unit} {l : LockPhase × LifePhase}, Uses LockFree x.run →
      life.Conforms Answers x.run l (fun r l => Idle l ∧ (r = .ok () → Calm l)) → l.1 = .out →
      life.Conforms Answers (x >>= fun _ => startVM cfg u).run l fun _ l => Idle l := by
    intro x l hfree hidle hout
    exact conforms_then (conforms_above (lock_conforms_of_uses (Q := fun _ l => l = .out) hfree
        fun _ l' hl' => LockPhase.eq_out (hl'.trans (by rw [hout]; rfl))) hidle)
      (fun _ _ hl => life_startVM hl.1 (hl.2.2 rfl)) fun _ _ hl => hl.2.1
  obtain ⟨l, g, x, st⟩ := l
  obtain ⟨⟨rfl, rfl⟩, rfl⟩ : (g = .idle ∧ x = .waiting) ∧ st = .idle := hl
  obtain rfl : l = .out := hout
  unfold rebootVM
  refine conforms_call_bind (fun vm _ => ⟨trivial, ?_⟩) fun _ _ => ⟨trivial, rfl, rfl⟩
  refine conforms_sect_bind fun r _ => ⟨trivial, ?_⟩
  cases r with
  | some proc => exact hthen (by grind) (idle_stopVM ⟨rfl, rfl⟩) rfl
  | none =>
    exact hthen (by grind) (life_conforms_of_calm (by grind) ⟨⟨rfl, rfl⟩, rfl⟩
      fun _ _ hl => ⟨hl.1, fun _ => hl⟩) rfl

end Start

/-! ## The exit handler -/

/-- An exit handler writes the state it has read, and then deletes the
entry. -/
theorem life_exitHandler {p : Pid} {l : LockPhase × LifePhase} (hl : Idle l) :
    life.Conforms Answers (exitHandler p).run l fun _ l =>
      l.2.progress = .idle ∧ l.2.exit = .done := by
  obtain ⟨l, g, x, st⟩ := l
  obtain ⟨rfl, rfl⟩ : g = .idle ∧ x = .waiting := hl
  unfold exitHandler
  refine conforms_sect_bind fun proc _ => ⟨rfl, ?_⟩
  refine conforms_sect_bind fun final _ => ⟨⟨proc, rfl, rfl⟩, ?_⟩
  refine life_ignore (life_cleanup (J := (· = (l, ⟨.idle, .read proc final, st⟩))) rfl
    (.inl ⟨final, rfl⟩)) ?_
  rintro _ rfl
  refine life_ignore (J := fun l => l.2.progress = .idle ∧ l.2.exit = .wrote proc) ?_ ?_
  · intro r _
    exact ⟨⟨rfl, rfl, rfl⟩, rfl, rfl⟩
  · intro l hl
    exact fun _ _ => ⟨⟨proc, hl.2, rfl⟩, hl.1, rfl⟩

/-- The phase in which a thread comes to its end. -/
def AtEnd (t : Tid) (l : LockPhase × LifePhase) : Prop :=
  l.2.progress = .idle ∧
    match t with
    | .call _ _ => l.2.exit = .waiting
    | .exit _ => l.2.exit = .done

/-- Every thread conforms, and a thread that has come to its end has no
start and no exit under way. -/
theorem life_threads (cfg : Config) (calls : Calls) (t : Tid) :
    life.Conforms Answers (threads cfg calls t) life.start fun _ l => AtEnd t l := by
  refine conforms_threads (M := life) (Q := fun t _ l => AtEnd t l) (fun p => ?_)
    (fun _ _ => ⟨rfl, rfl⟩) (fun epoch n op hop => ?_) t
  · exact conforms_bind.mpr (life_exitHandler ⟨rfl, rfl⟩)
  · have hcalm : Calm life.start := ⟨⟨rfl, rfl⟩, rfl⟩
    cases op with
    | startVM u => exact conforms_finish (life_startVM rfl hcalm)
    | rebootVM u => exact conforms_finish (life_rebootVM rfl hcalm)
    | stopVM u => exact conforms_finish (conforms_mono (fun _ _ hl => hl.1) (idle_stopVM hcalm.1))
    | sleepVM u => exact conforms_finish (idle_sleepVM hcalm.1)
    | deleteVM u => exact conforms_finish (idle_deleteVM hcalm)
    | archiveStoppedVM u now => exact conforms_finish (idle_archiveStoppedVM hcalm)
    | saveSnapshot name u => exact conforms_finish (idle_saveSnapshot hcalm)
    | serveAPIShutdown => exact conforms_finish (idle_serveAPIShutdown hcalm.1)
    | _ =>
      exact life_conforms_of_calm ((uses_op cfg _).mono (by simp [Op.kinds, CalmKind, IdleKind]))
        hcalm fun _ _ hl => hl.1

end Firedoze
