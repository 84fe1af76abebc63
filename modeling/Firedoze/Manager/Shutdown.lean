import Firedoze.Manager.Names
import Firedoze.Manager.Routes

/-!
# The graceful shutdown

On a signal `serveAPI` puts the VMs to sleep that `SleepRunningVMs` finds in
`running`, and shuts its server down after that.  The API and the wake proxy
go on to serve requests meanwhile, so a `StartVM` that begins after the look
at `running` leaves a process behind the sweep, although `SleepRunningVMs`
returns nil (`start_behind_sweep`).

`shutdown_leaves_no_process` says that this is the only way.  When no start is
under way at the look and none begins afterwards, every process is gone once
`SleepRunningVMs` has returned nil, and no VM that had one is stored as
running.
-/

namespace Firedoze

open Conc Conc.Prog Conc.Monitor Function

/-! ## The calls -/

/-- The call starts a VM, or is a shutdown. -/
def Op.duringShutdown : Op → Bool
  | .startVM _ => true
  | .serveAPIShutdown => true
  | _ => false

/-- Every call starts a VM or is a shutdown. -/
def Calls.Shutdown (calls : Calls) : Prop :=
  ∀ epoch n op, calls epoch n = some op → op.duringShutdown = true

theorem Calls.Shutdown.keepVMs {calls : Calls} (h : calls.Shutdown) : calls.KeepVMs := by
  intro epoch n op hop
  have hop := h epoch n op hop
  cases op <;> first | rfl | cases hop

/-! ## Names of processes -/

/-- A process is registered under the name of its VM. -/
def RegistersNamed (ν : Uuid → Option String) : {β : Type} → Eff β → Prop
  | _, .mem (.setRunning proc) => ν proc.uuid = some proc.name
  | _, _ => True

/-- The rows that are read have the names `ν`. -/
def ReadsNamed (ν : Uuid → Option String) : {β : Type} → Eff β → β → Prop
  | _, .store (.getVM _ u), r => ∀ vm, r = .ok vm → vm.uuid = u ∧ ν u = some vm.name
  | _, _, _ => True

section Registered

variable {cfg : Config} {calls : Calls} {ν : Uuid → Option String} {u : Uuid}

theorem registersNamed_of_kind {β : Type} (e : Eff β) (hk : e.kind ≠ .register) :
    RegistersNamed ν e := by
  cases e with
  | store e | host e => trivial
  | mem e =>
    cases e with
    | setRunning proc => exact absurd rfl hk
    | _ => trivial

theorem registersNamed_of_uses {α : Type} {p : Prog Eff α} (hp : Uses (· ≠ .register) p) :
    (Monitor.always (RegistersNamed ν)).Conforms (ReadsNamed ν) p () fun _ _ => True :=
  always_of_all hp registersNamed_of_kind

theorem registersNamed_startVM :
    (Monitor.always (RegistersNamed ν)).Conforms (ReadsNamed ν) (startVM cfg u).run ()
      fun _ _ => True := by
  unfold startVM startLocked beginStartOperationCancelingColdArchive
  refine always_bind (R := fun _ => True) ?_ (fun _ _ => ?_) fun _ => trivial
  · exact conforms_mono (fun _ _ _ _ _ => trivial)
      (registersNamed_of_uses (uses_begin (by simp) (by simp [MemEff.kind])))
  refine conforms_deferred.mpr (conforms_mono (Q := fun _ _ => True)
    (fun _ _ _ => registersNamed_of_uses (uses_endVMOperation (by simp))) ?_)
  refine conforms_call_bind (fun vm hvm => ⟨trivial, ?_⟩) fun _ _ => ⟨trivial, trivial⟩
  obtain ⟨rfl, hname⟩ := hvm vm rfl
  have hfree : ∀ {β : Type} (e : Eff β), LockFree e.kind → RegistersNamed ν e :=
    fun e he => registersNamed_of_kind e he.2
  split
  · trivial
  · split
    · exact always_of_all (all_resumeVM hfree fun _ _ _ => hname) fun _ he => he
    · exact always_of_all (all_bootVM hfree fun _ _ _ => hname) fun _ he => he

theorem registersNamed_threads (hcalls : calls.Shutdown) (t : Tid) :
    (Monitor.always (RegistersNamed ν)).Conforms (ReadsNamed ν) (threads cfg calls t) ()
      fun _ _ => True := by
  refine conforms_threads (M := Monitor.always (RegistersNamed ν)) (Q := fun _ _ _ => True)
    (fun p => ?_) (fun _ _ => trivial) (fun epoch n op hop => ?_) t
  · exact registersNamed_of_uses ((uses_exit p).mono fun _ hk => hk.lockFree.2)
  · cases op with
    | startVM u => exact conforms_finish registersNamed_startVM
    | serveAPIShutdown => exact registersNamed_of_uses ((uses_op cfg _).mono (by simp [Op.kinds]))
    | _ => cases hcalls epoch n _ hop

theorem readsNamed_exec {w w' : World} {t : Tid} {o : Outcome} {β : Type} {e : Eff β} {b : β}
    (hkeyed : w.mem.Keyed) (hn : w.store.names = ν) (h : exec t w e o = some (b, w')) :
    ReadsNamed ν e b := by
  cases e with
  | mem e | host e => trivial
  | store e =>
    cases e with
    | getVM c u => exact getVM_named hkeyed hn h
    | _ => trivial

/-- The processes that are registered have the names of their VMs. -/
theorem registered_names_reach {w : World} {s : MState} {K : MState → MLabel → Prop}
    (hcalls : calls.Shutdown) (hw : w.mem = .fresh) (h : system.Reach K (start cfg calls w) s)
    {proc : Process} (hrun : s.world.mem.running u = some proc) :
    s.world.store.names u = some proc.name := by
  have hfresh : ∀ u proc, Mem.fresh.running u = some proc → w.store.names u = some proc.name :=
    fun u proc hr => by cases hr
  have hinv := always_invariant (A := ReadsNamed w.store.names)
    (P := fun _ => RegistersNamed w.store.names)
    (I := fun w' => ∀ u proc, w'.mem.running u = some proc → w.store.names u = some proc.name)
    (fun s t o _ e k b w' hr _ _ _ he =>
      readsNamed_exec (keyed_reach hw hr) (names_reach hcalls.keepVMs hr) he)
    (registersNamed_threads hcalls) (hw ▸ hfresh) ?_ ?_ h
  · rw [names_reach hcalls.keepVMs h]
    exact hinv.1 u proc hrun
  · intro s t o β e k b w' hr hI hp he hP
    cases e with
    | store e => obtain ⟨_, -, rfl⟩ := exec_store he; exact hI
    | host e => obtain ⟨_, -, rfl⟩ := exec_host he; exact hI
    | mem e =>
      obtain ⟨m, hm, rfl⟩ := exec_mem he
      intro u proc hu
      rcases execMem_running hm hu with hold | ⟨hreg, rfl⟩
      · exact hI u proc hold
      · cases e <;> cases hreg
        exact hP
  · intro s v w' _ hI hv
    rcases execEnv_mem hv with ⟨-, hmem, -⟩ | ⟨-, hmem, -⟩
    · exact hmem ▸ hfresh
    · exact hmem ▸ hI

end Registered

/-! ## The sweep -/

/-- How far a sweep has come with a VM: its row was found, the row was read as
sleeping, or its process was seen to be gone. -/
inductive SweepStage
  | found
  | asleep
  | gone
  deriving DecidableEq, Repr

/-- The VM that a sweep is at. -/
structure SweepTarget where
  name : String
  uuid : Uuid
  stage : SweepStage
  deriving DecidableEq, Repr

/-- What a shutdown has done.  `looks` counts its looks at `running`: the first
one is for the file of the VMs to wake, the second one is that of
`SleepRunningVMs`.  `left` holds the names that are still to be put to sleep,
and `slept` says that `SleepRunningVMs` has returned nil. -/
structure SweepPhase where
  looks : Nat
  left : List String
  target : Option SweepTarget
  slept : Bool
  deriving DecidableEq, Repr

/-- The VM at another stage. -/
def SweepPhase.at (l : SweepPhase) (u : Uuid) (stage : SweepStage) : SweepPhase :=
  { l with target := l.target.map fun c => if c.uuid = u then { c with stage := stage } else c }

/-- The VM is done with, if the sweep has come to the given stage with it. -/
def SweepPhase.done (l : SweepPhase) (u : Uuid) (stage : SweepStage) : SweepPhase :=
  match l.target with
  | none => l
  | some c =>
      if c.uuid = u ∧ c.stage = stage then { l with left := l.left.filter (· ≠ c.name) } else l

/-- The phase after a call of the store. -/
def sweepNextStore (l : SweepPhase) : {β : Type} → StoreEff β → β → SweepPhase
  | _, .getVMByName _ name, r =>
      { l with target := r.toOption.map fun vm => ⟨name, vm.uuid, .found⟩ }
  | _, .getVM _ u, r =>
      match r with
      | .ok vm => if vm.state = .sleeping then l.at u .asleep else l
      | .error _ => l
  | _, .setVMState _ u state, r =>
      match r with
      | .ok _ => if state = .sleeping then l.done u .gone else l
      | .error _ => l
  | _, _, _ => l

/-- The phase after a critical section. -/
def sweepNextMem (l : SweepPhase) : {β : Type} → MemEff β → β → SweepPhase
  | _, .runningVMNames, names => { l with looks := l.looks + 1, left := names, target := none }
  | _, .getRunning u, r => if r.isNone then l.done u .asleep else l
  | _, .stillRunning proc, r => if r then l else l.at proc.uuid .gone
  | _, _, _ => l

/-- The phase after an action. -/
def sweepNext (l : SweepPhase) : {β : Type} → Eff β → β → SweepPhase
  | _, .store e, b => sweepNextStore l e b
  | _, .mem e, b => sweepNextMem l e b
  | _, .host (.io .logSlept), _ => { l with slept := true }
  | _, _, _ => l

/-- When an action of a shutdown is in order: it looks at `running` twice, and
`SleepRunningVMs` returns nil when no name is left. -/
def sweepOk (l : SweepPhase) : {β : Type} → Eff β → Prop
  | _, .mem .runningVMNames => l.looks < 2 ∧ l.slept = false
  | _, .host (.io .logSlept) => 2 ≤ l.looks ∧ l.left = []
  | _, _ => True

/-- The monitor of a shutdown. -/
def sweep : Monitor Eff SweepPhase where
  start := ⟨0, [], none, false⟩
  ok := fun l e _ => sweepOk l e
  next := fun l e b => sweepNext l e b

/-- What a thread has done as a shutdown. -/
def sweepPhase (s : MState) (t : Tid) : SweepPhase := sweep.phases s t

/-- The action leaves a sweep where it is. -/
def SweepSkips {β : Type} (e : Eff β) : Prop := ∀ l b, sweepOk l e ∧ sweepNext l e b = l

section Programs

variable {cfg : Config} {l : SweepPhase} {u : Uuid} {name : String} {left : List String}
  {α β : Type}

theorem sweep_skip {x : Go α} {f : α → Go β} {Q : Except Err β → SweepPhase → Prop}
    (hx : x.run.All SweepSkips) (hf : ∀ a, sweep.Conforms Answers (f a).run l Q)
    (herr : ∀ e, Q (.error e) l) : sweep.Conforms Answers (x >>= f).run l Q := by
  refine conforms_skip (· = l) hx rfl ?_ (fun a _ hl => hl ▸ hf a) fun e _ hl => hl ▸ herr e
  rintro γ _ e b rfl he -
  exact he _ b

theorem sweepSkips_ignore {x : Go α} (hx : x.run.All SweepSkips) :
    (ignore x).run.All SweepSkips :=
  all_run_bind (all_attempt hx) fun _ => all_run_pure _

theorem sweepSkips_cleanup {proc : Process} : (cleanupAfterExit proc).run.All SweepSkips := by
  unfold cleanupAfterExit removeCgroupPath
  refine all_run_bind (sweepSkips_ignore (all_call fun _ _ => ⟨trivial, rfl⟩)) fun _ => ?_
  refine all_run_bind (sweepSkips_ignore ?_) fun _ => all_call fun _ _ => ⟨trivial, rfl⟩
  split
  · exact all_run_pure _
  · exact all_call fun _ _ => ⟨trivial, rfl⟩

theorem sweepSkips_saveMemory {vm : VM} {proc : Process} :
    (saveMemory cfg vm proc).run.All SweepSkips := by
  unfold saveMemory
  refine all_run_bind (all_attempt (all_call fun _ _ => ⟨trivial, rfl⟩)) fun r => ?_
  cases r with
  | ok _ => exact all_run_pure _
  | error e =>
    exact all_run_bind (sweepSkips_ignore (all_call fun _ _ => ⟨trivial, rfl⟩)) fun _ =>
      all_run_throw _

/-- The sweep is at the VM. -/
def AtVM (left : List String) (name : String) (u : Uuid) (l : SweepPhase) : Prop :=
  l.looks = 2 ∧ l.left = left ∧ l.slept = false ∧ ∃ stage, l.target = some ⟨name, u, stage⟩

/-- The sweep has not added to the names that are left. -/
def SweptFrom (left : List String) (l : SweepPhase) : Prop :=
  l.looks = 2 ∧ l.slept = false ∧ l.left ⊆ left

theorem AtVM.sweptFrom (h : AtVM left name u l) : SweptFrom left l :=
  ⟨h.1, h.2.2.1, by rw [h.2.1]; exact List.Subset.refl _⟩

theorem AtVM.at (h : AtVM left name u l) (stage : SweepStage) :
    AtVM left name u (l.at u stage) ∧ (l.at u stage).target = some ⟨name, u, stage⟩ := by
  obtain ⟨hlooks, hleft, hslept, st, htarget⟩ := h
  have hnew : (l.at u stage).target = some ⟨name, u, stage⟩ := by simp [SweepPhase.at, htarget]
  exact ⟨⟨hlooks, hleft, hslept, stage, hnew⟩, hnew⟩

theorem AtVM.done {stage : SweepStage} (h : AtVM left name u l)
    (htarget : l.target = some ⟨name, u, stage⟩) :
    SweptFrom left (l.done u stage) ∧ name ∉ (l.done u stage).left := by
  obtain ⟨hlooks, hleft, hslept, -⟩ := h
  have hdone : l.done u stage = { l with left := l.left.filter (· ≠ name) } := by
    simp [SweepPhase.done, htarget]
  rw [hdone]
  refine ⟨⟨hlooks, hslept, ?_⟩, by simp⟩
  rw [← hleft]
  exact List.filter_subset_self _

theorem AtVM.sweptFrom_done (h : AtVM left name u l) (stage : SweepStage) :
    SweptFrom left (l.done u stage) := by
  obtain ⟨hlooks, hleft, hslept, st, htarget⟩ := h
  by_cases hst : st = stage
  · exact (AtVM.done ⟨hlooks, hleft, hslept, st, htarget⟩ (hst ▸ htarget)).1
  · have hdone : l.done u stage = l := by simp [SweepPhase.done, htarget, hst]
    rw [hdone]
    exact AtVM.sweptFrom ⟨hlooks, hleft, hslept, st, htarget⟩

/-- A read of a row changes the stage of the target only. -/
theorem sweepNextStore_getVM (l : SweepPhase) (c : Ctx) (u : Uuid) (r : Except Err VM) :
    ∃ target, sweepNextStore l (.getVM c u) r = { l with target := target } := by
  cases r with
  | error x => exact ⟨l.target, rfl⟩
  | ok vm =>
    simp only [sweepNextStore]
    split
    · exact ⟨_, rfl⟩
    · exact ⟨l.target, rfl⟩

/-- A wait that ends well has seen that the process is gone. -/
theorem sweep_waitForProcessExit {c : Ctx} {proc : Process} (h : AtVM left name proc.uuid l) :
    sweep.Conforms Answers (waitForProcessExit c proc).run l fun r l =>
      AtVM left name proc.uuid l ∧ (r = .ok () → l.target = some ⟨name, proc.uuid, .gone⟩) := by
  unfold waitForProcessExit
  refine conforms_forever (AtVM left name proc.uuid) h ?_
  intro l hl
  refine conforms_sect_bind fun r _ => ⟨trivial, ?_⟩
  cases r with
  | false => exact ⟨(hl.at .gone).1, fun _ => (hl.at .gone).2⟩
  | true =>
    refine conforms_sect_bind fun ev _ => ⟨trivial, ?_⟩
    cases ev with
    | deadline => exact conforms_sect_bind fun _ _ => ⟨trivial, hl⟩
    | tick => exact hl
    | done => exact ⟨hl, fun hr => by cases hr⟩

theorem sweep_stopProcess {c : Ctx} {proc : Process} {state : VMState}
    (h : AtVM left name proc.uuid l) :
    sweep.Conforms Answers (stopProcess c proc state).run l fun r l =>
      AtVM left name proc.uuid l ∧ (r = .ok () → l.target = some ⟨name, proc.uuid, .gone⟩) := by
  unfold stopProcess
  refine conforms_sect_bind fun _ _ => ⟨trivial, ?_⟩
  refine conforms_sect_bind fun _ _ => ⟨trivial, ?_⟩
  refine conforms_run_bind.mpr (conforms_mono ?_ (sweep_waitForProcessExit h))
  rintro r l ⟨hl, hgone⟩
  cases r with
  | error x => exact ⟨hl, fun hr => by cases hr⟩
  | ok _ =>
    refine conforms_of_all (P := SweepSkips) (· = l) sweepSkips_cleanup rfl ?_ ?_
    · rintro γ _ e b rfl he -
      exact he _ b
    · rintro r _ rfl
      exact ⟨hl, fun _ => hgone rfl⟩

/-- A call of `SleepVM` that succeeds is done with its VM. -/
theorem sweep_sleepVM (h : AtVM left name u l) :
    sweep.Conforms Answers (sleepVM cfg u).run l fun r l =>
      SweptFrom left l ∧ ∀ vm, r = .ok vm → name ∉ l.left := by
  have herr : ∀ {l : SweepPhase} {x : Err}, SweptFrom left l →
      SweptFrom left l ∧ ∀ vm, (Except.error x : Except Err VM) = .ok vm → name ∉ l.left :=
    fun hl => ⟨hl, fun _ hr => by cases hr⟩
  unfold sleepVM
  refine conforms_call_bind (fun vm _ => ⟨trivial, ?_⟩) fun _ _ =>
    ⟨trivial, herr h.sweptFrom⟩
  obtain ⟨l₁, hnext, hl₁, hasleep⟩ : ∃ l₁, sweep.next l (.store (.getVM .request u)) (.ok vm) = l₁ ∧
      AtVM left name u l₁ ∧ (vm.state = .sleeping → l₁.target = some ⟨name, u, .asleep⟩) := by
    by_cases hst : vm.state = .sleeping
    · exact ⟨l.at u .asleep, if_pos hst, (h.at .asleep).1, fun _ => (h.at .asleep).2⟩
    · exact ⟨l, if_neg hst, h, fun hs => absurd hs hst⟩
  rw [hnext]
  refine conforms_sect_bind fun r hr => ⟨trivial, ?_⟩
  cases r with
  | none =>
    show sweep.Conforms Answers
      (if vm.state = .sleeping then pure vm else throw .notRunning : Go VM).run
      (l₁.done u .asleep) _
    split
    · rename_i hst
      obtain ⟨hswept, hnot⟩ := hl₁.done (hasleep hst)
      exact ⟨hswept, fun _ _ => hnot⟩
    · exact herr (hl₁.sweptFrom_done .asleep)
  | some proc =>
    obtain rfl : proc.uuid = u := hr proc rfl
    show sweep.Conforms Answers _ l₁ _
    refine sweep_skip (all_call fun _ _ => ⟨trivial, rfl⟩) (fun _ => ?_) fun _ => herr hl₁.sweptFrom
    refine sweep_skip (all_call fun _ _ => ⟨trivial, rfl⟩) (fun _ => ?_) fun _ => herr hl₁.sweptFrom
    refine sweep_skip sweepSkips_saveMemory (fun _ => ?_) fun _ => herr hl₁.sweptFrom
    refine conforms_run_bind.mpr (conforms_mono ?_ (sweep_stopProcess hl₁))
    rintro r l₂ ⟨hl₂, hgone⟩
    cases r with
    | error x => exact herr hl₂.sweptFrom
    | ok _ =>
      -- The write of `sleeping` is the last step that the sweep needs.
      refine conforms_call_bind (fun _ _ => ⟨trivial, ?_⟩) fun _ _ =>
        ⟨trivial, herr hl₂.sweptFrom⟩
      obtain ⟨hswept, hnot⟩ := hl₂.done (hgone rfl)
      intro r _
      obtain ⟨target, hget⟩ := sweepNextStore_getVM (l₂.done proc.uuid .gone) .request proc.uuid r
      refine ⟨trivial, ?_⟩
      show SweptFrom left (sweepNextStore (l₂.done proc.uuid .gone) _ r) ∧
        ∀ vm, r = .ok vm → name ∉ (sweepNextStore (l₂.done proc.uuid .gone) _ r).left
      rw [hget]
      exact ⟨hswept, fun _ _ => hnot⟩

/-- A sweep of names that does not fail is done with all of them. -/
theorem sweep_sleepNames {names : List String} (hlooks : l.looks = 2) (hslept : l.slept = false) :
    sweep.Conforms Answers (sleepNames cfg names).run l fun r l' =>
      SweptFrom l.left l' ∧ (r = .ok false → ∀ name ∈ names, name ∉ l'.left) := by
  induction names generalizing l with
  | nil => exact ⟨⟨hlooks, hslept, List.Subset.refl _⟩, fun _ _ hmem => by simp at hmem⟩
  | cons name names ih =>
    unfold sleepNames
    refine conforms_attempt_bind ?_
    refine conforms_mono (Q := fun r l' => SweptFrom l.left l' ∧
      ∀ vm, r = .ok vm → name ∉ l'.left) ?_ ?_
    · rintro r l₁ ⟨⟨hlooks₁, hslept₁, hsub₁⟩, hdone⟩
      refine conforms_run_bind.mpr (conforms_mono ?_ (ih hlooks₁ hslept₁))
      rintro rest l₂ ⟨⟨hlooks₂, hslept₂, hsub₂⟩, hrest⟩
      have hswept : SweptFrom l.left l₂ := ⟨hlooks₂, hslept₂, fun x hx => hsub₁ (hsub₂ hx)⟩
      cases rest with
      | error x => exact ⟨hswept, fun hr => by cases hr⟩
      | ok failed =>
        refine ⟨hswept, fun hr x hx => ?_⟩
        obtain ⟨hok, rfl⟩ : r.isOk = true ∧ failed = false := by
          simpa using Except.ok.inj hr
        rcases List.mem_cons.mp hx with rfl | hx
        · cases r with
          | error e => cases hok
          | ok vm => exact fun hmem => hdone vm rfl (hsub₂ hmem)
        · exact hrest rfl x hx
    · refine conforms_call_bind (fun vm _ => ⟨trivial, ?_⟩) fun x _ => ⟨trivial, ?_⟩
      · exact sweep_sleepVM ⟨hlooks, rfl, hslept, .found, rfl⟩
      · exact ⟨⟨hlooks, hslept, List.Subset.refl _⟩, fun _ hr => by cases hr⟩

theorem sweep_serveAPIShutdown :
    sweep.Conforms Answers (serveAPIShutdown cfg).run ⟨0, [], none, false⟩ fun _ _ => True := by
  unfold serveAPIShutdown sleepRunningVMs
  refine conforms_sect_bind fun _ _ => ⟨⟨by simp, rfl⟩, ?_⟩
  refine sweep_skip (sweepSkips_ignore (all_call fun _ _ => ⟨trivial, rfl⟩)) (fun _ => ?_)
    fun _ => trivial
  refine conforms_attempt_bind ?_
  refine conforms_sect_bind fun names _ => ⟨⟨by simp [sweep, sweepNext, sweepNextMem], rfl⟩, ?_⟩
  refine conforms_run_bind.mpr (conforms_mono ?_ (sweep_sleepNames rfl rfl))
  rintro r l ⟨⟨hlooks, -, hsub⟩, hdone⟩
  -- What the shutdown does after the sweep, when it has failed.
  have hfailed : ∀ x, sweep.Conforms Answers (do
      match (.error x : Except Err Unit) with
      | .ok _ => ignore (sys (.io .logSlept))
      | .error _ => ignore (sys (.io .logSleepFailed))
      sys (.io .serverShutdown) : Go Unit).run l fun _ _ => True := by
    intro x
    refine sweep_skip (sweepSkips_ignore (all_call fun _ _ => ⟨trivial, rfl⟩)) (fun _ => ?_)
      fun _ => trivial
    exact fun _ _ => ⟨trivial, trivial⟩
  cases r with
  | error x => exact hfailed x
  | ok failed =>
    cases failed with
    | true => exact hfailed (.msg "sleep")
    | false =>
      have hnil : l.left = [] :=
        List.eq_nil_iff_forall_not_mem.mpr fun x hx => hdone rfl x (hsub hx) hx
      refine conforms_run_bind.mpr (conforms_attempt_bind fun r _ => ?_)
      exact ⟨⟨hlooks.ge, hnil⟩, fun _ _ => ⟨trivial, trivial⟩⟩

end Programs

/-! ## Final states -/

/-- No exit handler writes `running`. -/
structure Finals (w : World) (ph : Tid → LockPhase × LifePhase) : Prop where
  final : ∀ p, w.mem.finalState p ≠ some .running
  read : ∀ p proc final, (ph (.exit p)).2.exit = .read proc final → final ≠ some .running

section Reach

variable {cfg : Config} {calls : Calls} {w w' : World} {s s' : MState} {K : MState → MLabel → Prop}
  {t : Tid} {o : Outcome} {u : Uuid} {n : Nat} {β : Type} {e : Eff β} {b : β}
  {k : β → Prog Eff (Except Err Unit)}

/-- An exit handler that has read a final state has read it now, or had read
it before. -/
theorem exit_read_next {l : LockPhase × LifePhase} {proc : Process} {final : Option VMState}
    (he : exec t w e o = some (b, w')) (h : (life.next l e b).2.exit = .read proc final) :
    l.2.exit = .read proc final ∨ ∃ p, final = w.mem.finalState p := by
  cases e with
  | store e =>
    cases e with
    | setVMState c v state =>
      cases hx : l.2.exit <;> simp [life, Monitor.above, lifeNextStore, hx] at h
    | getVM c v =>
      have hexit : (lifeNextStore l.2 (.getVM c v) b).exit = l.2.exit := by
        simp only [lifeNextStore]
        split <;> rfl
      exact Or.inl (hexit ▸ h)
    | _ => exact Or.inl h
  | host e =>
    cases e with
    | linkAdd tap v | cmdStart c => cases b <;> exact Or.inl h
    | _ => exact Or.inl h
  | mem e =>
    cases e with
    | getFinalState p =>
      obtain ⟨m, hm, -⟩ := exec_mem he
      obtain ⟨rfl, -⟩ := section_eq hm
      cases hx : l.2.exit with
      | woken q =>
        simp only [life, Monitor.above, lifeNextMem, hx, ExitStage.read.injEq] at h
        exact Or.inr ⟨p, h.2.symm⟩
      | _ =>
        simp only [life, Monitor.above, lifeNextMem, hx] at h
        exact Or.inl h
    | cmdWait p | deleteRunning v => cases h
    | getRunning v | stillRunning q => cases b <;> exact Or.inl h
    | _ => exact Or.inl h

theorem finals_exec {ph : Tid → LockPhase × LifePhase} (h : Finals w ph)
    (hok : life.ok (ph t) e b) (he : exec t w e o = some (b, w')) :
    Finals w' (update ph t (life.next (ph t) e b)) := by
  refine ⟨?_, fun p proc final hp => ?_⟩
  · cases e with
    | store e => obtain ⟨_, -, rfl⟩ := exec_store he; exact h.final
    | host e => obtain ⟨_, -, rfl⟩ := exec_host he; exact h.final
    | mem e =>
      obtain ⟨m, hm, rfl⟩ := exec_mem he
      refine execMem_final hm (fun hk => ?_) h.final
      cases e with
      | setFinalState p state =>
        cases state <;> simp_all [MemEff.kind, life, Monitor.above, lifeOkMem]
      | _ => cases hk
  · by_cases ht : Tid.exit p = t
    · subst ht
      rw [update_self] at hp
      rcases exit_read_next he hp with hold | ⟨q, rfl⟩
      · exact h.read p proc final hold
      · exact h.final q
    · rw [update_of_ne ht] at hp
      exact h.read p proc final hp

theorem finals_reach (hw : w.Booted) (h : system.Reach K (start cfg calls w) s) :
    Finals s.world (life.phases s) := by
  have hinit : Finals w fun _ => life.start := by
    refine ⟨?_, ?_⟩
    all_goals simp [hw.mem, Mem.fresh, life, Monitor.above]
  refine Monitor.invariant (A := Answers) (answers_reach hw.mem) (life_threads cfg calls) hinit
    ?_ ?_ h
  · intro s t o β e k b w' _ ih _ _ he _ hok
    exact finals_exec ih hok he
  · intro s v w' _ ih _ hv
    refine ⟨?_, ih.read⟩
    rcases execEnv_mem hv with ⟨-, hmem, -⟩ | ⟨-, hmem, -⟩
    · rw [hmem]
      simp [Mem.fresh]
    · rw [hmem]
      exact ih.final

end Reach

/-! ## The condition -/

/-- When `SleepRunningVMs` looks at `running`, no call of `StartVM` has begun
its operation and not ended it, and no call of `StartVM` begins its operation
afterwards. -/
def SweepsAlone (calls : Calls) (s : MState) (t : Tid) : {β : Type} → Eff β → Prop
  | _, .mem .runningVMNames => (sweepPhase s t).looks = 1 →
      ∀ n v, calls s.world.epoch n = some (.startVM v) →
        ∀ u, lock.phases s (.call s.world.epoch n) ≠ .start u
  | _, .mem (.enterStart u) => s.world.mem.grants u = true →
      ∀ n, calls s.world.epoch n = some .serveAPIShutdown →
        (sweepPhase s (.call s.world.epoch n)).looks < 2
  | _, _ => True

/-- Every step of the run meets the condition, and the daemon does not die. -/
def ShutdownRun (calls : Calls) (s : MState) (l : MLabel) : Prop :=
  survives l = true ∧ s.Next (fun t e _ => SweepsAlone calls s t e) l

/-! ## The invariant -/

/-- What holds from the look of `SleepRunningVMs` at `running` on: no start is
under way, and the processes that are registered are those of the names that
are left. -/
structure Sweeping (s : MState) (l : SweepPhase) : Prop where
  starts : ∀ n u, lock.phases s (.call s.world.epoch n) ≠ .start u
  left : ∀ u proc, s.world.mem.running u = some proc → proc.name ∈ l.left
  named : ∀ c, l.target = some c → s.world.store.names c.uuid = some c.name
  asleep : ∀ c, l.target = some c → c.stage = .asleep →
    s.world.store.stateOf c.uuid ≠ some .running
  gone : ∀ c, l.target = some c → c.stage = .gone → s.world.mem.running c.uuid = none
  slept : l.slept = true → l.left = []

/-- What holds for every shutdown that has looked at `running` for its sweep. -/
def Calls.Sweeping (calls : Calls) (s : MState) : Prop :=
  ∀ n, calls s.world.epoch n = some .serveAPIShutdown →
    2 ≤ (sweepPhase s (.call s.world.epoch n)).looks →
    Firedoze.Sweeping s (sweepPhase s (.call s.world.epoch n))

section Sweep

variable {cfg : Config} {calls : Calls} {w w' : World} {s s' : MState} {K : MState → MLabel → Prop}
  {t : Tid} {o : Outcome} {u v : Uuid} {n : Nat} {β : Type} {e : Eff β} {b : β} {l : SweepPhase}
  {k : β → Prog Eff (Except Err Unit)}

/-- Only a call of `StartVM` begins a start. -/
theorem startVM_of_start (hcalls : calls.Shutdown) (hr : system.Reach K (start cfg calls w) s)
    {epoch : Nat} (h : lock.phases s (.call epoch n) = .start u) :
    ∃ v, calls epoch n = some (.startVM v) := by
  have hout : ∀ {P : {β : Type} → Eff β → Prop}, (threads cfg calls (.call epoch n)).All P →
      (∀ {β : Type} (e : Eff β) (b : β), P e → lock.next .out e b = .out) →
      lock.phases s (.call epoch n) = .out := by
    intro P hall hnext
    refine phase_reach (M := lock) (J := (· = .out)) rfl hall ?_ hr
    rintro β _ e b rfl he
    exact hnext e b he
  cases hop : calls epoch n with
  | none =>
    rw [hout (P := fun _ => False) (by simp only [threads, hop]; trivial)
      (fun _ _ hf => hf.elim)] at h
    cases h
  | some op =>
    cases op with
    | startVM v => exact ⟨v, rfl⟩
    | serveAPIShutdown =>
      have hall : (threads cfg calls (.call epoch n)).All (fun e => LockFree e.kind) := by
        simp only [threads, hop]
        exact (uses_op cfg .serveAPIShutdown).mono (by simp [Op.kinds, LockFree])
      rw [hout hall fun e b he => LockPhase.eq_out (lock_free e b he).2] at h
      cases h
    | _ => cases hcalls epoch n _ hop

/-- No thread is at a start. -/
theorem Sweeping.thread (h : Sweeping s l) (hw : w.mem = .fresh)
    (hr : system.Reach K (start cfg calls w) s) (hcur : s.world.current t = true) (u : Uuid) :
    (life.phases s t).1 ≠ .start u := by
  rw [life_phases_fst]
  cases t with
  | call epoch n =>
    obtain rfl := epoch_of_current hcur
    exact h.starts n u
  | exit p =>
    rw [(lockInv_reach hw hr).exits p]
    simp

/-- Nothing is registered while no start is under way. -/
theorem running_of_no_start (hstart : ∀ u, (life.phases s t).1 ≠ .start u)
    (hok : life.ok (life.phases s t) e b) (he : exec t s.world e o = some (b, w')) {q : Process}
    (hq : w'.mem.running u = some q) : s.world.mem.running u = some q := by
  cases e with
  | store e => obtain ⟨_, -, rfl⟩ := exec_store he; exact hq
  | host e => obtain ⟨_, -, rfl⟩ := exec_host he; exact hq
  | mem e =>
    obtain ⟨m, hm, rfl⟩ := exec_mem he
    rcases execMem_running hm hq with hold | ⟨hreg, rfl⟩
    · exact hold
    · exact absurd (start_of_registers hok hreg) (hstart _)

/-- Nothing is stored as running while no start is under way. -/
theorem state_of_no_start (hcalls : calls.Shutdown) (hw : w.Booted)
    (hr : system.Reach K (start cfg calls w) s) (hstart : ∀ u, (life.phases s t).1 ≠ .start u)
    (hok : life.ok (life.phases s t) e b) (hp : s.prog t = .act e k)
    (he : exec t s.world e o = some (b, w'))
    (hst : w'.store.stateOf u = some .running) : s.world.store.stateOf u = some .running := by
  cases e with
  | mem e => obtain ⟨_, -, rfl⟩ := exec_mem he; exact hst
  | host e => obtain ⟨_, -, rfl⟩ := exec_host he; exact hst
  | store e =>
    obtain ⟨st, hs, rfl⟩ := exec_store he
    have hkind : Uses KeepKind (s.prog t) := hr.all (keepKind_threads cfg hcalls.keepVMs t)
    rw [hp] at hkind
    rcases execStore_stateOf (u := u) hs hkind.1 with hsame | ⟨state, hwrites, hnew⟩
    · exact hsame ▸ hst
    · obtain rfl : state = .running := Option.some.inj (hnew.symm.trans hst)
      cases e with
      | setVMState c v state =>
        obtain ⟨rfl, rfl⟩ : v = u ∧ state = .running := by
          simpa [StoreEff.writesState] using hwrites
        have hok : lifeOkStore (life.phases s t) (.setVMState c v .running) b := hok
        cases hstage : (life.phases s t).2.exit with
        | waiting =>
          simp only [lifeOkStore, hstage] at hok
          exact absurd (hok.1 trivial).1 (hstart v)
        | read proc final =>
          simp only [lifeOkStore, hstage] at hok
          cases t with
          | call epoch m =>
            rw [call_exit_waiting hr] at hstage
            cases hstage
          | exit p =>
            have hne := (finals_reach hw hr).read p proc final hstage
            cases final with
            | none => cases hok.2.2
            | some state => exact absurd (congrArg some hok.2.2).symm hne
        | _ => simp [lifeOkStore, hstage] at hok
      | _ => cases hwrites

/-- No start begins once a shutdown has looked at `running`. -/
theorem starts_next (hstarts : ∀ m u, lock.phases s (.call s.world.epoch m) ≠ .start u)
    (hop : calls s.world.epoch n = some .serveAPIShutdown)
    (hlooks : 2 ≤ (sweepPhase s (.call s.world.epoch n)).looks) (hK : SweepsAlone calls s t e)
    (he : exec t s.world e o = some (b, w')) (m : Nat) (u : Uuid) :
    update (lock.phases s) t (lock.next (lock.phases s t) e b) (.call s.world.epoch m) ≠
      .start u := by
  by_cases ht : Tid.call s.world.epoch m = t
  · subst ht
    rw [update_self]
    intro hnext
    refine hstarts m u ?_
    generalize lock.phases s (.call s.world.epoch m) = l at hnext ⊢
    cases e with
    | store e | host e => exact hnext
    | mem e =>
      cases e with
      | enterStart v =>
        obtain ⟨_, hm, -⟩ := exec_mem he
        simp only [lock, lockNextMem] at hnext
        split at hnext
        · rename_i hb
          exact absurd (hK (grants_of_entered (hb ▸ hm)) n hop) (by omega)
        · exact hnext
      | enterVM v =>
        simp only [lock, lockNextMem] at hnext
        split at hnext
        · cases hnext
        · exact hnext
      | enterArchive v => cases b <;> first | exact hnext | cases hnext
      | endVMOperation v | endArchive v a => cases hnext
      | getRunning v =>
        cases l with
        | archive v a checked => cases hnext
        | _ => exact hnext
      | _ => exact hnext
  · rw [update_of_ne ht]
    exact hstarts m u

/-- A step that registers nothing, writes no `running` and begins no start. -/
theorem Sweeping.keep (h : Sweeping s l)
    (hstarts : ∀ n u, lock.phases s' (.call s'.world.epoch n) ≠ .start u)
    (hrun : ∀ u q, s'.world.mem.running u = some q → s.world.mem.running u = some q)
    (hstate : ∀ u, s'.world.store.stateOf u = some .running →
      s.world.store.stateOf u = some .running)
    (hnames : s'.world.store.names = s.world.store.names) : Sweeping s' l where
  starts := hstarts
  left u q hq := h.left u q (hrun u q hq)
  named c hc := by
    rw [hnames]
    exact h.named c hc
  asleep c hc hst hrunning := h.asleep c hc hst (hstate _ hrunning)
  gone c hc hst := by
    by_contra hne
    obtain ⟨q, hq⟩ := Option.ne_none_iff_exists'.mp hne
    have hnone := h.gone c hc hst
    rw [hrun _ q hq] at hnone
    cases hnone
  slept := h.slept

/-- The sweep comes to another stage with its VM. -/
theorem Sweeping.at (h : Sweeping s l) {stage : SweepStage}
    (hasleep : stage = .asleep → s.world.store.stateOf u ≠ some .running)
    (hgone : stage = .gone → s.world.mem.running u = none) : Sweeping s (l.at u stage) := by
  have hcase : ∀ c, (l.at u stage).target = some c →
      l.target = some c ∨
        ∃ c', l.target = some c' ∧ c.uuid = u ∧ c = { c' with stage := stage } := by
    intro c hc
    obtain ⟨c', hc', heq⟩ := Option.map_eq_some_iff.mp hc
    split at heq
    · rename_i hu
      subst heq
      exact Or.inr ⟨c', hc', hu, rfl⟩
    · exact Or.inl (heq ▸ hc')
  refine ⟨h.starts, h.left, fun c hc => ?_, fun c hc hst => ?_, fun c hc hst => ?_, h.slept⟩
  · rcases hcase c hc with hold | ⟨c', hold, -, rfl⟩
    · exact h.named c hold
    · exact h.named c' hold
  · rcases hcase c hc with hold | ⟨c', hold, hu, rfl⟩
    · exact h.asleep c hold hst
    · rw [hu]
      exact hasleep hst
  · rcases hcase c hc with hold | ⟨c', hold, hu, rfl⟩
    · exact h.gone c hold hst
    · rw [hu]
      exact hgone hst

/-- A name that is left is still left, or is the one of the VM that the sweep is
done with. -/
theorem SweepPhase.left_done {name : String} (h : name ∈ l.left) (u : Uuid) (stage : SweepStage) :
    name ∈ (l.done u stage).left ∨
      ∃ c, l.target = some c ∧ c.uuid = u ∧ c.stage = stage ∧ c.name = name := by
  unfold SweepPhase.done
  split
  · exact Or.inl h
  · rename_i c hc
    split
    · rename_i hcu
      by_cases hname : c.name = name
      · exact Or.inr ⟨c, hc, hcu.1, hcu.2, hname⟩
      · exact Or.inl (List.mem_filter.mpr ⟨h, decide_eq_true (Ne.symm hname)⟩)
    · exact Or.inl h

theorem Store.Directory.names_unique {st : Store} (h : st.Directory) {x : String}
    (hu : st.names u = some x) (hv : st.names v = some x) : u = v := by
  obtain ⟨r, hr, hname⟩ := Option.map_eq_some_iff.mp hu
  obtain ⟨r', hr', hname'⟩ := Option.map_eq_some_iff.mp hv
  exact h.unique u v r r' hr hr' (hname.trans hname'.symm)

/-- The sweep is done with its VM. -/
theorem Sweeping.done (h : Sweeping s l) {stage : SweepStage}
    (hdir : s.world.store.Directory)
    (hprocs : ∀ u proc, s.world.mem.running u = some proc →
      s.world.store.names u = some proc.name)
    (hnone : ∀ c, l.target = some c → c.uuid = u → c.stage = stage →
      s.world.mem.running u = none) : Sweeping s (l.done u stage) := by
  unfold SweepPhase.done
  split
  · exact h
  · rename_i c hc
    split
    · rename_i hcu
      refine ⟨h.starts, fun v proc hv => ?_, h.named, h.asleep, h.gone, fun hs => ?_⟩
      · refine List.mem_filter.mpr ⟨h.left v proc hv, decide_eq_true fun hname => ?_⟩
        have hvc := hdir.names_unique (hname ▸ hprocs v proc hv) (h.named c hc)
        rw [hvc, hcu.1, hnone c hc hcu.1 hcu.2] at hv
        cases hv
      · show List.filter _ l.left = []
        rw [h.slept hs]
        rfl
    · exact h

theorem Store.names_of_getVMByName {st : Store} (h : st.Directory) {name : String} {vm : VM}
    (hget : st.getVMByName name = .ok vm) : st.names vm.uuid = some name := by
  unfold Store.getVMByName at hget
  split at hget
  · cases hget
  · rename_i vm' hfind
    cases hget
    obtain ⟨hrow, hname⟩ := (Store.findVM_eq_some_iff h).mp hfind
    simp [Store.names, hrow, hname]

theorem Store.stateOf_of_getVM {st : Store} {vm : VM} (h : st.getVM u = .ok vm) :
    st.stateOf u = some vm.state := by
  unfold Store.getVM at h
  split at h
  · cases h
  · rename_i r hr
    cases h
    simp [Store.stateOf, hr]

/-- The step of the shutdown itself. -/
theorem Sweeping.next (h : Sweeping s' l) (hdir : s.world.store.Directory)
    (hprocs : ∀ u proc, s'.world.mem.running u = some proc →
      s'.world.store.names u = some proc.name)
    (hdir' : s'.world.store.Directory) (hlooks : 2 ≤ l.looks) (hok : sweepOk l e)
    (he : exec t s.world e o = some (b, s'.world)) : Sweeping s' (sweepNext l e b) := by
  cases e with
  | host e =>
    cases e with
    | io step =>
      cases step with
      | logSlept => exact ⟨h.starts, h.left, h.named, h.asleep, h.gone, fun _ => hok.2⟩
      | _ => exact h
    | _ => exact h
  | store e =>
    obtain ⟨st, hs, hst⟩ := exec_store he
    cases e with
    | getVMByName c name =>
      refine ⟨h.starts, h.left, fun c' hc => ?_, fun c' hc hstage => ?_, fun c' hc hstage => ?_,
        h.slept⟩
      all_goals
        obtain ⟨vm, hvm, rfl⟩ := Option.map_eq_some_iff.mp hc
      · obtain ⟨rfl, hb⟩ := reply_eq hs
        cases b with
        | error x => cases hvm
        | ok vm' =>
          obtain rfl : vm' = vm := Option.some.inj hvm
          rw [hst]
          exact Store.names_of_getVMByName hdir (hb.resolve_right (by simp)).symm
      · cases hstage
      · cases hstage
    | getVM c v =>
      cases b with
      | error x => exact h
      | ok vm =>
        show Sweeping s' (if vm.state = .sleeping then l.at v .asleep else l)
        split
        · rename_i hsleeping
          refine h.at (fun _ => ?_) fun hstage => by cases hstage
          obtain ⟨rfl, hb⟩ := reply_eq hs
          rw [hst]
          show s.world.store.stateOf v ≠ some .running
          rw [Store.stateOf_of_getVM (hb.resolve_right (by simp)).symm, hsleeping]
          simp
        · exact h
    | setVMState c v state =>
      cases b with
      | error x => exact h
      | ok _ =>
        show Sweeping s' (if state = .sleeping then l.done v .gone else l)
        split
        · exact h.done hdir' hprocs fun c hc hu hstage => hu ▸ h.gone c hc hstage
        · exact h
    | _ => exact h
  | mem e =>
    obtain ⟨m, hm, hm'⟩ := exec_mem he
    cases e with
    | runningVMNames => exact absurd hok.1 (by omega)
    | getRunning v =>
      obtain ⟨rfl, rfl⟩ := section_eq hm
      show Sweeping s' (if (s.world.mem.running v).isNone then l.done v .asleep else l)
      split
      · rename_i hnone
        refine h.done hdir' hprocs fun _ _ _ _ => ?_
        rw [hm']
        exact Option.isNone_iff_eq_none.mp hnone
      · exact h
    | stillRunning proc =>
      obtain ⟨rfl, rfl⟩ := section_eq hm
      show Sweeping s' (if (s.world.mem.running proc.uuid).isSome then l else l.at proc.uuid .gone)
      split
      · exact h
      · rename_i hnone
        refine h.at (fun hstage => by cases hstage) fun _ => ?_
        rw [hm']
        exact Option.not_isSome_iff_eq_none.mp hnone
    | _ => exact h

/-- The look of `SleepRunningVMs` at `running`. -/
theorem sweeping_of_look (hcalls : calls.Shutdown) (hr : system.Reach K (start cfg calls w) s)
    (hdir : s.world.store.Directory)
    (hprocs : ∀ u proc, s.world.mem.running u = some proc → s.world.store.names u = some proc.name)
    {names : List String} {m : Mem}
    (hm : execMem s.world t o .runningVMNames = some (names, m))
    (hstarts : ∀ n v, calls s.world.epoch n = some (.startVM v) →
      ∀ u, lock.phases s (.call s.world.epoch n) ≠ .start u) :
    Sweeping s ⟨2, names, none, false⟩ ∧ m = s.world.mem := by
  obtain ⟨rfl, rfl⟩ := section_eq hm
  refine ⟨⟨fun n u hu => ?_, fun u proc hu => ?_, ?_, ?_, ?_, ?_⟩, rfl⟩
  · obtain ⟨v, hop⟩ := startVM_of_start hcalls hr hu
    exact hstarts n v hop u hu
  · obtain ⟨r, hrow, -⟩ := Option.map_eq_some_iff.mp (hprocs u proc hu)
    refine (List.mem_insertionSort _).mpr (List.mem_filterMap.mpr ⟨u, ?_, by rw [hu]; rfl⟩)
    exact List.mem_range.mpr (hdir.bound u r hrow)
  all_goals simp

/-- The action is a look at the names of all processes. -/
def looks : {β : Type} → Eff β → Bool
  | _, .mem .runningVMNames => true
  | _, _ => false

theorem SweepPhase.done_eq (l : SweepPhase) (u : Uuid) (stage : SweepStage) :
    ∃ left, l.done u stage = { l with left := left } := by
  unfold SweepPhase.done
  split
  · exact ⟨l.left, rfl⟩
  · split
    · exact ⟨_, rfl⟩
    · exact ⟨l.left, rfl⟩

/-- An action moves the names and the VM of a sweep, is a look, or reports that
`SleepRunningVMs` has returned nil. -/
theorem sweepNext_cases (l : SweepPhase) (e : Eff β) (b : β) :
    (∃ left target, sweepNext l e b = { l with left := left, target := target }) ∨
      (looks e = true ∧ (sweepNext l e b).looks = l.looks + 1 ∧
        (sweepNext l e b).slept = l.slept) ∨
      (sweepNext l e b = { l with slept := true } ∧ (sweepOk l e → 2 ≤ l.looks)) := by
  have hkeep : ∃ left target, l = { l with left := left, target := target } :=
    ⟨l.left, l.target, rfl⟩
  have hdone (u : Uuid) (stage : SweepStage) :
      ∃ left target, l.done u stage = { l with left := left, target := target } := by
    obtain ⟨left, h⟩ := l.done_eq u stage
    exact ⟨left, l.target, h⟩
  cases e with
  | host e =>
    cases e with
    | io step =>
      cases step with
      | logSlept => exact Or.inr (Or.inr ⟨rfl, fun hok => hok.1⟩)
      | _ => exact Or.inl hkeep
    | _ => exact Or.inl hkeep
  | store e =>
    cases e with
    | getVMByName c name => exact Or.inl ⟨l.left, _, rfl⟩
    | getVM c v =>
      obtain ⟨target, hget⟩ := sweepNextStore_getVM l c v b
      exact Or.inl ⟨l.left, target, hget⟩
    | setVMState c v state =>
      left
      cases b with
      | error x => exact hkeep
      | ok _ =>
        simp only [sweepNext, sweepNextStore]
        split
        · exact hdone v .gone
        · exact hkeep
    | _ => exact Or.inl hkeep
  | mem e =>
    cases e with
    | runningVMNames => exact Or.inr (Or.inl ⟨rfl, rfl, rfl⟩)
    | getRunning v =>
      left
      simp only [sweepNext, sweepNextMem]
      split
      · exact hdone v .asleep
      · exact hkeep
    | stillRunning proc =>
      left
      cases b with
      | true => exact hkeep
      | false => exact ⟨l.left, _, rfl⟩
    | _ => exact Or.inl hkeep

theorem looks_next (h : looks e = false) : (sweepNext l e b).looks = l.looks := by
  rcases sweepNext_cases l e b with ⟨left, target, hl⟩ | ⟨hlook, -⟩ | ⟨hl, -⟩
  · rw [hl]
  · simp [h] at hlook
  · rw [hl]

theorem looks_mono (l : SweepPhase) (e : Eff β) (b : β) : l.looks ≤ (sweepNext l e b).looks := by
  rcases sweepNext_cases l e b with ⟨left, target, hl⟩ | ⟨-, hlooks, -⟩ | ⟨hl, -⟩
  · rw [hl]
  · omega
  · rw [hl]

theorem slept_next (hok : sweepOk l e) (h : (sweepNext l e b).slept = true) :
    l.slept = true ∨ 2 ≤ l.looks := by
  rcases sweepNext_cases l e b with ⟨left, target, hl⟩ | ⟨-, -, hslept⟩ | ⟨-, hlook⟩
  · rw [hl] at h
    exact Or.inl h
  · exact Or.inl (hslept ▸ h)
  · exact Or.inr (hlook hok)

theorem sweepPhase_act (n : Nat) (e : Eff β) (b : β) (k : β → Prog Eff (Except Err Unit))
    (w' : World) : sweepPhase (s.acted t e b k w') (.call s.world.epoch n) =
      if .call s.world.epoch n = t then sweepNext (sweepPhase s t) e b
      else sweepPhase s (.call s.world.epoch n) := by
  unfold sweepPhase
  rw [phases_update, update_apply]
  rfl

/-- The actions of a shutdown are in order. -/
theorem sweepOk_reach (hw : w.Booted) (hr : system.Reach K (start cfg calls w) s)
    (hop : calls s.world.epoch n = some .serveAPIShutdown)
    (hp : s.prog (.call s.world.epoch n) = .act e k)
    (he : exec (.call s.world.epoch n) s.world e o = some (b, w')) :
    sweepOk (sweepPhase s (.call s.world.epoch n)) e := by
  have hconf : sweep.Conforms Answers (threads cfg calls (.call s.world.epoch n)) sweep.start
      fun _ _ => True := by
    simp only [threads, hop]
    exact conforms_bind.mpr sweep_serveAPIShutdown
  exact ok_reach (M := sweep) (A := Answers) (answers_reach hw.mem) hconf hr hp
    (answers_reach hw.mem s _ e o b w' hr he)

theorem sweeping_act (hcalls : calls.Shutdown) (hw : w.Booted) (hdir : w.store.Directory)
    (hr : system.Reach K (start cfg calls w) s)
    (ih : calls.Sweeping s)
    (hr' : system.Reach K (start cfg calls w) (s.acted t e b k w'))
    (hK : s.Next (V := EnvEvent) (fun t e _ => SweepsAlone calls s t e) (.thread t o))
    (hp : s.prog t = .act e k) (he : exec t s.world e o = some (b, w')) :
    calls.Sweeping (s.acted t e b k w') := by
  have hepoch := exec_epoch he
  intro n hop hlooks
  simp only [hepoch] at hop hlooks ⊢
  have halone : SweepsAlone calls s t e := hK.act hp
  have hnames : w'.store.names = s.world.store.names :=
    (names_reach hcalls.keepVMs hr').trans (names_reach hcalls.keepVMs hr).symm
  have hprocs : ∀ u proc, w'.mem.running u = some proc → w'.store.names u = some proc.name :=
    fun _ _ hu => registered_names_reach hcalls hw.mem hr' hu
  by_cases hold : 2 ≤ (sweepPhase s (.call s.world.epoch n)).looks
  · -- The sweep has looked before: nothing is registered or begun any more.
    have hsweep := ih n hop hold
    have hstart := hsweep.thread (t := t) hw.mem hr (exec_current he)
    have hok := life_ok_reach hw.mem hr hp he
    have hkeep : Sweeping (s.acted t e b k w') (sweepPhase s (.call s.world.epoch n)) := by
      refine hsweep.keep (fun m u => ?_) (fun u q hq => running_of_no_start hstart hok he hq)
        (fun u hu => state_of_no_start hcalls hw hr hstart hok hp he hu) hnames
      simp only [hepoch, phases_update]
      exact starts_next hsweep.starts hop hold halone he m u
    rw [sweepPhase_act]
    split
    · rename_i ht
      subst ht
      exact hkeep.next (directory_reach hdir hr) hprocs (directory_reach hdir hr') hold
        (sweepOk_reach hw hr hop hp he) he
    · exact hkeep
  · -- The step is the look of the sweep.
    rw [sweepPhase_act] at hlooks ⊢
    split at hlooks
    swap
    · exact absurd hlooks hold
    rename_i ht
    subst ht
    rw [if_pos rfl]
    have hsok := sweepOk_reach hw hr hop hp he
    cases hlook : looks e with
    | false => exact absurd (looks_next (b := b) hlook ▸ hlooks) hold
    | true =>
      cases e with
      | store e | host e => cases hlook
      | mem e =>
        cases e with
        | runningVMNames =>
          obtain ⟨m, hm, rfl⟩ := exec_mem he
          have hone : (sweepPhase s (.call s.world.epoch n)).looks = 1 := by
            have htwo : 2 ≤ (sweepPhase s (.call s.world.epoch n)).looks + 1 := hlooks
            omega
          have hprocs₀ : ∀ u proc, s.world.mem.running u = some proc →
              s.world.store.names u = some proc.name :=
            fun _ _ hu => registered_names_reach hcalls hw.mem hr hu
          obtain ⟨hsweep, rfl⟩ :=
            sweeping_of_look hcalls hr (directory_reach hdir hr) hprocs₀ hm (halone hone)
          have hphase : sweepNext (sweepPhase s (.call s.world.epoch n)) (.mem .runningVMNames) b =
              ⟨2, b, none, false⟩ := by
            simp only [sweepNext, sweepNextMem, hone, hsok.2]
          rw [hphase]
          refine hsweep.keep (fun m u => ?_) (fun _ _ hq => hq) (fun _ hu => hu) rfl
          rw [phases_update]
          have hsame : lock.next (lock.phases s (.call s.world.epoch n)) (.mem .runningVMNames) b =
              lock.phases s (.call s.world.epoch n) := rfl
          rw [hsame, update_eq_self]
          exact hsweep.starts m u
        | _ => cases hlook

/-- In every run that sweeps alone, what a sweep relies on holds from its look
at `running` on. -/
theorem sweep_reach (hcalls : calls.Shutdown) (hw : w.Booted) (hdir : w.store.Directory)
    (h : system.Reach (ShutdownRun calls) (start cfg calls w) s) : calls.Sweeping s := by
  refine h.invariant (I := fun s => calls.Sweeping s) ?_ ?_
  · intro n _ hlooks
    exact absurd hlooks
      (by simp [sweepPhase, Monitor.phases, Monitor.phase, start, State.initial, sweep])
  intro s l s' hr ih hK hs n hop hlooks
  have hr' := hr.tail hK hs
  rcases System.step_cases hs with
    ⟨t, o, rfl, β, e, k, b, w', hp, he, rfl⟩ | ⟨t, o, -, β, body, k, hp, rfl⟩ |
    ⟨v, w', rfl, hv, rfl⟩
  · exact sweeping_act hcalls hw hdir hr ih hr' hK.2 hp he n hop hlooks
  · obtain ⟨starts, left, named, asleep, gone, slept⟩ := ih n hop hlooks
    exact ⟨starts, left, named, asleep, gone, slept⟩
  · have hne : v ≠ .crash := by
      rintro rfl
      cases hK.1
    obtain ⟨-, hmem, hepoch⟩ := (execEnv_mem hv).resolve_left fun hc => hne hc.1
    simp only [hepoch] at hop hlooks ⊢
    have hstore := execEnv_store hv
    refine (ih n hop hlooks).keep (fun m u => ?_) (fun u q hq => ?_) (fun u hu => ?_) ?_
    · simp only [hepoch]
      exact (ih n hop hlooks).starts m u
    · rw [← hmem]
      exact hq
    · rw [← hstore]
      exact hu
    · rw [hstore]

/-- A VM that had a process when the sweep had looked at `running` is still to
be put to sleep, or is not stored as running. -/
theorem swept_act (hcalls : calls.Shutdown) (hw : w.Booted) (hdir : w.store.Directory)
    (hr : system.Reach (ShutdownRun calls) (start cfg calls w) s)
    (hop : calls s.world.epoch n = some .serveAPIShutdown)
    (hlooks : 2 ≤ (sweepPhase s (.call s.world.epoch n)).looks) {name : String}
    (hname : s.world.store.names u = some name)
    (hp : s.prog t = .act e k) (he : exec t s.world e o = some (b, w'))
    (h : name ∈ (sweepPhase s (.call s.world.epoch n)).left ∨
      s.world.store.stateOf u ≠ some .running) :
    name ∈ (sweepPhase (s.acted t e b k w') (.call s.world.epoch n)).left ∨
      w'.store.stateOf u ≠ some .running := by
  have hsweep := sweep_reach hcalls hw hdir hr n hop hlooks
  have hstart := hsweep.thread (t := t) hw.mem hr (exec_current he)
  have hok := life_ok_reach hw.mem hr hp he
  rcases h with hleft | hst
  swap
  · exact Or.inr fun hrun => hst (state_of_no_start hcalls hw hr hstart hok hp he hrun)
  rw [sweepPhase_act]
  split
  swap
  · exact Or.inl hleft
  rename_i ht
  subst ht
  have hsok := sweepOk_reach hw hr hop hp he
  have hdirectory := directory_reach hdir hr
  -- The VM that the sweep is done with is the one in question.
  have huuid : ∀ c, (sweepPhase s (.call s.world.epoch n)).target = some c → c.name = name →
      c.uuid = u := by
    rintro c hc rfl
    exact hdirectory.names_unique (hsweep.named c hc) hname
  cases e with
  | host e =>
    cases e with
    | io step => cases step <;> exact Or.inl hleft
    | _ => exact Or.inl hleft
  | store e =>
    obtain ⟨st, hs, rfl⟩ := exec_store he
    cases e with
    | getVM c v =>
      obtain ⟨target, hget⟩ := sweepNextStore_getVM (sweepPhase s (.call s.world.epoch n)) c v b
      refine Or.inl ?_
      show name ∈ (sweepNextStore _ _ b).left
      rw [hget]
      exact hleft
    | setVMState c v state =>
      cases b with
      | error x => exact Or.inl hleft
      | ok _ =>
        show name ∈ (if state = .sleeping then _ else _ : SweepPhase).left ∨ _
        split
        · rename_i hst
          refine (SweepPhase.left_done hleft v .gone).imp_right ?_
          rintro ⟨target, htarget, rfl, -, hnm⟩
          obtain rfl := huuid target htarget hnm
          obtain ⟨r, -, rfl⟩ := Store.updateVM_ok (commit_written hs)
          simp [Store.stateOf, VMRow.withState, hst]
        · exact Or.inl hleft
    | _ => exact Or.inl hleft
  | mem e =>
    obtain ⟨m, hm, rfl⟩ := exec_mem he
    cases e with
    | runningVMNames => exact absurd hsok.1 (by omega)
    | getRunning v =>
      show name ∈ (if b.isNone then _ else _ : SweepPhase).left ∨ _
      split
      · refine (SweepPhase.left_done hleft v .asleep).imp_right ?_
        rintro ⟨target, htarget, -, hstage, hnm⟩
        obtain rfl := huuid target htarget hnm
        exact hsweep.asleep target htarget hstage
      · exact Or.inl hleft
    | stillRunning proc => cases b <;> exact Or.inl hleft
    | _ => exact Or.inl hleft

/-- From the look of the sweep on, every VM that had a process then is still to
be put to sleep, or is not stored as running. -/
theorem swept_reach {s₁ : MState} (hcalls : calls.Shutdown) (hw : w.Booted)
    (hdir : w.store.Directory) (h₁ : system.Reach (ShutdownRun calls) (start cfg calls w) s₁)
    (hop : calls s₁.world.epoch n = some .serveAPIShutdown)
    (hlook : 2 ≤ (sweepPhase s₁ (.call s₁.world.epoch n)).looks)
    (h : system.Reach (ShutdownRun calls) s₁ s) :
    ∀ u, s₁.world.mem.running u ≠ none → ∀ name, s.world.store.names u = some name →
      name ∈ (sweepPhase s (.call s₁.world.epoch n)).left ∨
        s.world.store.stateOf u ≠ some .running := by
  have hinv : 2 ≤ (sweepPhase s (.call s₁.world.epoch n)).looks ∧
      ∀ u, s₁.world.mem.running u ≠ none → ∀ name, s.world.store.names u = some name →
        name ∈ (sweepPhase s (.call s₁.world.epoch n)).left ∨
          s.world.store.stateOf u ≠ some .running := by
    refine h.invariant (I := fun s => 2 ≤ (sweepPhase s (.call s₁.world.epoch n)).looks ∧
      ∀ u, s₁.world.mem.running u ≠ none → ∀ name, s.world.store.names u = some name →
        name ∈ (sweepPhase s (.call s₁.world.epoch n)).left ∨
          s.world.store.stateOf u ≠ some .running) ?_ ?_
    · refine ⟨hlook, fun u hu name hname => Or.inl ?_⟩
      obtain ⟨proc, hproc⟩ := Option.ne_none_iff_exists'.mp hu
      have hleft := (sweep_reach hcalls hw hdir h₁ n hop hlook).left u proc hproc
      have hproc := registered_names_reach hcalls hw.mem h₁ hproc
      exact Option.some.inj (hproc.symm.trans hname) ▸ hleft
    rintro s l s' hr ⟨hlooks, ih⟩ hK hs
    have hreach := h₁.trans hr
    have hepoch : s.world.epoch = s₁.world.epoch := epoch_reach (fun _ _ hK => hK.1) hr
    rw [← hepoch] at hop hlooks ih ⊢
    rcases System.step_cases hs with
      ⟨t, o, rfl, β, e, k, b, w', hp, he, rfl⟩ | ⟨t, o, -, β, body, k, hp, rfl⟩ |
      ⟨v, w', rfl, hv, rfl⟩
    · have hnames : w'.store.names = s.world.store.names :=
        (names_reach hcalls.keepVMs (hreach.tail hK hs)).trans
          (names_reach hcalls.keepVMs hreach).symm
      refine ⟨?_, fun u hu name hname => ?_⟩
      · rw [sweepPhase_act]
        split
        · rename_i ht
          rw [← ht]
          exact hlooks.trans (looks_mono _ e b)
        · exact hlooks
      · rw [hnames] at hname
        exact swept_act hcalls hw hdir hreach hop hlooks hname hp he (ih u hu name hname)
    · exact ⟨hlooks, ih⟩
    · refine ⟨hlooks, ?_⟩
      simp only [execEnv_store hv]
      exact ih
  exact hinv.2

/-- A sweep that has returned nil has looked at `running`. -/
theorem looks_of_slept (hw : w.Booted) (hK : ∀ s l, K s l → survives l = true)
    (h : system.Reach K (start cfg calls w) s) :
    ∀ n, calls s.world.epoch n = some .serveAPIShutdown →
      (sweepPhase s (.call s.world.epoch n)).slept = true →
      2 ≤ (sweepPhase s (.call s.world.epoch n)).looks := by
  refine h.invariant (I := fun s => ∀ n, calls s.world.epoch n = some .serveAPIShutdown →
    (sweepPhase s (.call s.world.epoch n)).slept = true →
      2 ≤ (sweepPhase s (.call s.world.epoch n)).looks) ?_ ?_
  · intro n _ hslept
    cases hslept
  intro s l s' hr ih hk hs n hop hslept
  rcases System.step_cases hs with
    ⟨t, o, rfl, β, e, k, b, w', hp, he, rfl⟩ | ⟨t, o, -, β, body, k, hp, rfl⟩ |
    ⟨v, w', rfl, hv, rfl⟩
  · simp only [exec_epoch he] at hop hslept ⊢
    rw [sweepPhase_act] at hslept ⊢
    split at hslept
    · rename_i ht
      subst ht
      rw [if_pos rfl]
      refine le_trans ?_ (looks_mono _ e b)
      exact (slept_next (sweepOk_reach hw hr hop hp he) hslept).elim (ih n hop) id
    · rename_i ht
      rw [if_neg ht]
      exact ih n hop hslept
  · exact ih n hop hslept
  · rcases execEnv_mem hv with ⟨rfl, -⟩ | ⟨-, -, hepoch⟩
    · cases hK _ _ hk
    · simp only [hepoch] at hop hslept ⊢
      exact ih n hop hslept

/-- In every run of `StartVM` calls and a shutdown that sweeps alone: once
`SleepRunningVMs` has returned nil, no process is registered, and no VM that
had a process at the look of `SleepRunningVMs` at `running`, or later, is
stored as running. -/
theorem shutdown_leaves_no_process (hcalls : calls.Shutdown) (hw : w.Booted)
    (hdir : w.store.Directory) (h : system.Reach (ShutdownRun calls) (start cfg calls w) s)
    (hop : calls s.world.epoch n = some .serveAPIShutdown)
    (hslept : (sweepPhase s (.call s.world.epoch n)).slept = true) :
    (∀ u, s.world.mem.running u = none) ∧
      ∀ s₁ u r, system.Reach (ShutdownRun calls) (start cfg calls w) s₁ →
        system.Reach (ShutdownRun calls) s₁ s →
        2 ≤ (sweepPhase s₁ (.call s.world.epoch n)).looks → s₁.world.mem.running u ≠ none →
        s.world.store.vms u = some r → r.state ≠ .running := by
  have hsweep := sweep_reach hcalls hw hdir h n hop
    (looks_of_slept hw (fun _ _ hK => hK.1) h n hop hslept)
  have hnil := hsweep.slept hslept
  refine ⟨fun u => ?_, fun s₁ u r h₁ h₂ hlook hu hr hrun => ?_⟩
  · by_contra hne
    obtain ⟨proc, hproc⟩ := Option.ne_none_iff_exists'.mp hne
    have hmem := hsweep.left u proc hproc
    simp [hnil] at hmem
  · have hepoch : s.world.epoch = s₁.world.epoch := epoch_reach (fun _ _ hK => hK.1) h₂
    rw [hepoch] at hop hlook hnil
    rcases swept_reach hcalls hw hdir h₁ hop hlook h₂ u hu r.name (by simp [Store.names, hr]) with
      hmem | hst
    · simp [hnil] at hmem
    · exact hst (by simp [Store.stateOf, hr, hrun])

end Sweep

/-! ## Two runs -/

theorem ofList_shutdown {ops : List Op} (h : ∀ op ∈ ops, op.duringShutdown = true) :
    (Calls.ofList ops).Shutdown := by
  intro epoch n op hop
  simp only [Calls.ofList] at hop
  split at hop
  · exact h op (List.mem_of_getElem? hop)
  · cases hop

/-- A call that starts a VM, and a shutdown. -/
def Calls.startAndShutdown : Calls := .ofList [.startVM 0, .serveAPIShutdown]

/-- The steps of a start of the VM. -/
def startSteps : List MLabel := steps (.call 0 0) 23 ++ .env (.bind 0) :: steps (.call 0 0) 4

/-- Whether the thread has returned. -/
def returned (s : MState) (t : Tid) : Bool :=
  match s.prog t with
  | .ret _ => true
  | _ => false

/-- The sweep finds no process and returns nil.  The VM is started before the
server is shut down, and it is running when `serveAPI` returns. -/
theorem start_behind_sweep :
    ∃ s r proc, system.Reach (fun _ l => survives l = true)
        (start .sample .startAndShutdown .oneVM) s ∧
      (sweepPhase s (.call 0 1)).slept = true ∧ returned s (.call 0 1) = true ∧
      s.world.mem.running 0 = some proc ∧ s.world.store.vms 0 = some r ∧ r.state = .running := by
  obtain ⟨s, hs, hP⟩ := system.exists_reach_of_run (k := fun _ l => survives l)
    (s := start .sample .startAndShutdown .oneVM)
    (l := steps (.call 0 1) 4 ++ startSteps ++ steps (.call 0 1) 1)
    (P := fun s => (sweepPhase s (.call 0 1)).slept && returned s (.call 0 1) &&
      (s.world.mem.running 0).isSome &&
      (s.world.store.vms 0).any fun (r : VMRow) => decide (r.state = .running))
    (by decide) (by decide +kernel)
  simp only [Bool.and_eq_true] at hP
  obtain ⟨⟨⟨hslept, hret⟩, hrun⟩, hrow⟩ := hP
  obtain ⟨proc, hproc⟩ := Option.isSome_iff_exists.mp hrun
  obtain ⟨r, hr, hst⟩ := (Option.any_eq_true _ _).mp hrow
  exact ⟨s, r, proc, hs, hslept, hret, hproc, hr, of_decide_eq_true hst⟩

/-- The start is over when the shutdown looks, and it does not begin
afterwards. -/
def startEndsFirst (s : MState) (t : Tid) : {β : Type} → Eff β → Bool
  | _, .mem .runningVMNames =>
      (sweepPhase s t).looks = 0 || lock.phases s (.call s.world.epoch 0) = .out
  | _, .mem (.enterStart u) =>
      !s.world.mem.grants u || (sweepPhase s (.call s.world.epoch 1)).looks < 2
  | _, _ => true

theorem startAndShutdown_start {epoch n : Nat} {v : Uuid}
    (h : Calls.startAndShutdown epoch n = some (.startVM v)) : n = 0 := by
  simp only [Calls.startAndShutdown, Calls.ofList] at h
  split at h
  · rcases n with _ | _ | n
    · rfl
    · cases h
    · simp at h
  · cases h

theorem startAndShutdown_shutdown {epoch n : Nat}
    (h : Calls.startAndShutdown epoch n = some .serveAPIShutdown) : n = 1 := by
  simp only [Calls.startAndShutdown, Calls.ofList] at h
  split at h
  · rcases n with _ | _ | n
    · cases h
    · rfl
    · simp at h
  · cases h

theorem shutdownRun_of_startEndsFirst {s : MState} {l : MLabel} (hl : survives l = true)
    (h : s.next (fun t e _ => startEndsFirst s t e) l = true) :
    ShutdownRun .startAndShutdown s l := by
  refine ⟨hl, ?_⟩
  cases l with
  | env v => trivial
  | thread t o =>
    simp only [State.Next]
    split
    · rename_i β e k hp
      have hfirst := State.next_act h hp
      cases e with
      | store e | host e => trivial
      | mem e =>
        cases e with
        | runningVMNames =>
          intro hone n v hop u
          obtain rfl := startAndShutdown_start hop
          have hout : lock.phases s (.call s.world.epoch 0) = .out := by
            simpa [startEndsFirst, hone] using hfirst
          simp [hout]
        | enterStart u =>
          intro hgrants n hop
          obtain rfl := startAndShutdown_shutdown hop
          simpa [startEndsFirst, hgrants] using hfirst
        | _ => trivial
    · trivial

/-- A VM that was started before the shutdown is put to sleep by it. -/
theorem shutdown_leaves_no_process_one :
    ∃ s₁ s proc r, system.Reach (ShutdownRun .startAndShutdown)
        (start .sample .startAndShutdown .oneVM) s₁ ∧
      system.Reach (ShutdownRun .startAndShutdown) s₁ s ∧ s₁.world.mem.running 0 = some proc ∧
      (sweepPhase s (.call 0 1)).slept = true ∧ returned s (.call 0 1) = true ∧
      (∀ u, s.world.mem.running u = none) ∧ s.world.store.vms 0 = some r ∧
      r.state ≠ .running := by
  let k (s : MState) (l : MLabel) : Bool :=
    survives l && s.next (fun t e _ => startEndsFirst s t e) l
  have hk (s : MState) (l : MLabel) (h : k s l = true) : ShutdownRun .startAndShutdown s l :=
    shutdownRun_of_startEndsFirst ((Bool.and_eq_true _ _).mp h).1 ((Bool.and_eq_true _ _).mp h).2
  let rest : List MLabel := steps (.call 0 1) 8 ++ steps (.exit 0) 6 ++ steps (.call 0 1) 8
  obtain ⟨s₁, h₁, hP₁⟩ := system.exists_reach_of_run (k := k)
    (s := start .sample .startAndShutdown .oneVM) (l := startSteps ++ steps (.call 0 1) 3)
    (P := fun s₁ => (s₁.world.mem.running 0).isSome &&
      decide (2 ≤ (sweepPhase s₁ (.call 0 1)).looks) && system.runMeets k s₁ rest &&
      (system.run s₁ rest).any fun s => (sweepPhase s (.call 0 1)).slept &&
        returned s (.call 0 1) && decide (s.world.epoch = 0) && (s.world.store.vms 0).isSome)
    (by decide +kernel) (by decide +kernel)
  simp only [Bool.and_eq_true] at hP₁
  obtain ⟨⟨⟨hrun, hlooks⟩, hmeets⟩, hrest⟩ := hP₁
  obtain ⟨s, h, hP⟩ := system.exists_reach_of_run hmeets hrest
  simp only [Bool.and_eq_true] at hP
  obtain ⟨⟨⟨hslept, hret⟩, hepoch⟩, hrow⟩ := hP
  obtain ⟨proc, hproc⟩ := Option.isSome_iff_exists.mp hrun
  obtain ⟨r, hr⟩ := Option.isSome_iff_exists.mp hrow
  have hepoch : s.world.epoch = 0 := of_decide_eq_true hepoch
  have hall := shutdown_leaves_no_process (n := 1) (ofList_shutdown (by decide))
    (World.booted_sample _ _) (directory_sample (by decide)) ((h₁.mono hk).trans (h.mono hk))
    (by rw [hepoch]; rfl) (by rw [hepoch]; exact hslept)
  refine ⟨s₁, s, proc, r, h₁.mono hk, h.mono hk, hproc, hslept, hret, hall.1, hr, ?_⟩
  refine hall.2 s₁ 0 r (h₁.mono hk) (h.mono hk) ?_ (by simp [hproc]) hr
  rw [hepoch]
  exact of_decide_eq_true hlooks

end Firedoze
