import Firedoze.Manager.Cleanup

/-!
# The names of VMs, and what is named after them

The sockets and the TAP devices of a VM are found by its name, not by its
UUID.  As long as no VM is made or deleted, the names stay as they are
(`names_reach`), and every process that is registered has the socket and
the TAP device of its VM (`processes_reach`).

`tap_changed_iff` says which TAP devices a step for one VM can touch: its own
one, which is also that of every VM whose name agrees with its name on the
first nine characters.
-/

namespace Firedoze

open Conc Conc.Prog Conc.Monitor Function

/-! ## Names -/

/-- The name of each VM. -/
def Store.names (s : Store) (u : Uuid) : Option String := (s.vms u).map (·.name)

theorem Store.names_of_getVM {s : Store} {u : Uuid} {vm : VM} (h : s.getVM u = .ok vm) :
    s.names u = some vm.name := by
  unfold Store.getVM at h
  split at h
  · cases h
  · rename_i r hr
    cases h
    rw [Store.names, hr]
    rfl

/-- The kinds of actions that make no VM and delete none. -/
def KeepKind (k : Kind) : Prop := k ≠ .insert ∧ k ≠ .drop

/-- The call neither makes nor deletes a VM. -/
def Op.keepsVMs : Op → Bool
  | .deleteVM _ => false
  | .createVM _ => false
  | .restoreSnapshot _ _ => false
  | _ => true

/-- No call makes or deletes a VM. -/
def Calls.KeepVMs (calls : Calls) : Prop :=
  ∀ epoch n op, calls epoch n = some op → op.keepsVMs = true

theorem Calls.Run.keepVMs {calls : Calls} (h : calls.Run) : calls.KeepVMs := by
  intro epoch n op hop
  have hrun := h epoch n op hop
  cases op <;> first | rfl | cases hrun

theorem uses_keep {cfg : Config} {op : Op} (h : op.keepsVMs = true) :
    Uses KeepKind (op.prog cfg) := by
  refine (uses_op cfg op).mono ?_
  cases op with
  | deleteVM u | createVM params | restoreSnapshot name params => cases h
  | _ => simp [Op.kinds, startKinds, KeepKind]

theorem ExitKind.keepKind {k : Kind} (h : ExitKind k) : KeepKind k := by
  rcases h with rfl | rfl | rfl | rfl | rfl | rfl | rfl | rfl <;> simp [KeepKind]

theorem keepKind_threads (cfg : Config) {calls : Calls} (hcalls : calls.KeepVMs) (t : Tid) :
    Uses KeepKind (threads cfg calls t) := by
  cases t with
  | exit p => exact (uses_exit p).mono fun _ => ExitKind.keepKind
  | call epoch n =>
    cases hop : calls epoch n with
    | none =>
      rw [threads_none hop]
      trivial
    | some op =>
      rw [threads_some hop]
      exact uses_keep (hcalls epoch n op hop)

section Store

variable {w w' : World} {t : Tid} {o : Outcome} {β : Type} {b : β} {s : Store}

/-- The store keeps its names when no row is inserted or deleted. -/
theorem execStore_names {e : StoreEff β} (h : execStore w t o e = some (b, s))
    (hk : KeepKind e.kind) : s.names = w.store.names := by
  rcases execStore_cases h with rfl | hwrites
  · rfl
  · cases hwrites with
    | insertVM => exact absurd rfl hk.1
    | deleteVM | deleteRoutesForVM => exact absurd rfl hk.2
    | @setVMState _ u _ _ hr | @setVMArchivedDiskPath _ u _ _ hr | @updateSettings _ u _ _ hr =>
      funext v
      by_cases hv : v = u
      · subst hv
        simp [Store.names, hr, VMRow.withState, VMRow.withSettings]
      · simp [Store.names, hv]
    | _ => rfl

theorem exec_names {e : Eff β} (h : exec t w e o = some (b, w')) (hk : KeepKind e.kind) :
    w'.store.names = w.store.names := by
  cases e with
  | store e => obtain ⟨_, hs, rfl⟩ := exec_store h; exact execStore_names hs hk
  | mem e => obtain ⟨_, -, rfl⟩ := exec_mem h; rfl
  | host e => obtain ⟨_, -, rfl⟩ := exec_host h; rfl

end Store

section Reach

variable {cfg : Config} {calls : Calls} {w : World} {s : MState} {K : MState → MLabel → Prop}

/-- As long as no VM is made or deleted, every VM keeps its name. -/
theorem names_reach (hcalls : calls.KeepVMs) (h : system.Reach K (start cfg calls w) s) :
    s.world.store.names = w.store.names := by
  refine h.invariant (I := fun s => s.world.store.names = w.store.names) rfl ?_
  intro s l s' hr ih _ hs
  rcases System.step_cases hs with
    ⟨t, o, -, β, e, k, b, w', hp, he, rfl⟩ | ⟨t, o, -, β, body, k, -, rfl⟩ | ⟨v, w', -, hv, rfl⟩
  · have hkind : Uses KeepKind (s.prog t) := hr.all (keepKind_threads cfg hcalls t)
    rw [hp] at hkind
    exact (exec_names he hkind.1).trans ih
  · exact ih
  · show w'.store.names = _
    rw [execEnv_store hv]
    exact ih

end Reach

/-! ## Processes -/

/-- The process has the socket and the TAP device of its VM. -/
def Process.Of (cfg : Config) (ν : Uuid → Option String) (proc : Process) : Prop :=
  ∃ x, ν proc.uuid = some x ∧ proc.socketPath = cfg.socketPath x ∧
    proc.tapName = Firedoze.tapName x

/-- The entries of `running` and of the goroutines are processes of the VMs. -/
structure Mem.Named (cfg : Config) (ν : Uuid → Option String) (m : Mem) : Prop where
  running : ∀ u proc, m.running u = some proc → proc.Of cfg ν
  watched : ∀ p proc, m.watched p = some proc → proc.Of cfg ν

/-- What an action can answer when `ν` holds the names of the VMs. -/
def Named (cfg : Config) (ν : Uuid → Option String) : {β : Type} → Eff β → β → Prop
  | _, .store (.getVM _ u), r => ∀ vm, r = .ok vm → vm.uuid = u ∧ ν u = some vm.name
  | _, .mem (.getRunning u), r => ∀ proc, r = some proc → proc.uuid = u ∧ proc.Of cfg ν
  | _, .mem (.cmdWait p), r => r.pid = p ∧ r.Of cfg ν
  | _, e, b => Answers e b

section Named

variable {cfg : Config} {ν : Uuid → Option String} {β : Type} {w w' : World} {t : Tid} {o : Outcome}
  {b : β}

theorem getVM_named {c : Ctx} {u : Uuid} {r : Except Err VM} (hk : w.mem.Keyed)
    (hn : w.store.names = ν)
    (h : exec t w (.store (.getVM c u)) o = some (r, w')) (vm : VM) (hvm : r = .ok vm) :
    vm.uuid = u ∧ ν u = some vm.name := by
  refine ⟨answers_exec hk h vm hvm, ?_⟩
  obtain ⟨s, hs, -⟩ := exec_store h
  have hb := (reply_eq hs).2
  rw [hvm] at hb
  rw [← hn]
  exact Store.names_of_getVM (hb.resolve_right (by simp)).symm

theorem named_exec {e : Eff β} (hk : w.mem.Keyed) (hm : w.mem.Named cfg ν) (hn : w.store.names = ν)
    (h : exec t w e o = some (b, w')) : Named cfg ν e b := by
  have hans := answers_exec hk h
  cases e with
  | store e =>
    cases e with
    | getVM c u => exact getVM_named hk hn h
    | _ => exact hans
  | mem e =>
    obtain ⟨m, he, -⟩ := exec_mem h
    cases e with
    | getRunning u =>
      obtain ⟨rfl, -⟩ := section_eq he
      exact fun proc hproc => ⟨hans proc hproc, hm.running u proc hproc⟩
    | cmdWait p => exact ⟨hans, hm.watched p b (execMem_cmdWait he)⟩
    | _ => exact hans
  | host e => exact hans

theorem execMem_named {w : World} {e : MemEff β} {m : Mem} (hm : w.mem.Named cfg ν)
    (h : execMem w t o e = some (b, m)) (hk : e.kind ≠ .register) :
    m.Named cfg ν := by
  refine ⟨fun u proc hu => hm.running u proc (execMem_running_some h hk hu), fun p proc hp => ?_⟩
  refine hm.watched p proc ?_
  by_cases hk' : e.kind = .unregister
  · cases e with
    | deleteRunning u =>
      obtain ⟨-, rfl⟩ := section_eq h
      exact hp
    | setFinalState q state =>
      rcases MemEff.kind_setFinalState q state with hs | hs | hs <;> cases hs.symm.trans hk'
    | _ => cases hk'
  · rw [← (execMem_sameRunning h hk hk').2]
    exact hp

end Named

/-- The actions of a call that starts or stops the VM `u`: it registers
processes of the VM and touches the TAP device of the VM. -/
def Touches (cfg : Config) (ν : Uuid → Option String) (u : Uuid) : {β : Type} → Eff β → Prop
  | _, .mem (.setRunning proc) => proc.Of cfg ν
  | _, .host (.deleteTap tap) => ∃ x, ν u = some x ∧ tap = tapName x
  | _, .host (.linkAdd tap _) => ∃ x, ν u = some x ∧ tap = tapName x
  | _, _ => True

/-- The kinds of actions that neither register a process nor touch a TAP
device. -/
@[grind =] def TouchFree (k : Kind) : Prop := k ≠ .register ∧ k ≠ .net ∧ k ≠ .link

section Programs

variable {cfg : Config} {ν : Uuid → Option String} {u : Uuid} {vm : VM} {proc : Process}
  {α β : Type}

/-- The monitor of the actions of a call for `u`. -/
def touching (cfg : Config) (ν : Uuid → Option String) (u : Uuid) : Monitor Eff Unit :=
  .always (Touches cfg ν u)

theorem touches_of_free {β : Type} (e : Eff β) (he : TouchFree e.kind) : Touches cfg ν u e := by
  cases e with
  | store e => trivial
  | mem e =>
    cases e with
    | setRunning proc => exact absurd rfl he.1
    | _ => trivial
  | host e =>
    cases e with
    | deleteTap tap => exact absurd rfl he.2.1
    | linkAdd tap v => exact absurd rfl he.2.2
    | _ => trivial

theorem touches_of_uses {p : Prog Eff α} (hp : Uses TouchFree p) :
    (touching cfg ν u).Conforms (Named cfg ν) p () fun _ _ => True :=
  always_of_all hp touches_of_free

/-- A part that touches nothing. -/
theorem touches_skip {x : Go α} {f : α → Go β} (hx : Uses TouchFree x.run)
    (hf : ∀ a, (touching cfg ν u).Conforms (Named cfg ν) (f a).run () fun _ _ => True) :
    (touching cfg ν u).Conforms (Named cfg ν) (x >>= f).run () fun _ _ => True :=
  always_bind (R := fun _ => True)
    (conforms_mono (fun _ _ _ _ _ => trivial) (touches_of_uses hx)) (fun a _ => hf a)
    fun _ => trivial

theorem touches_then {x : Go α} {f : α → Go β}
    (hx : (touching cfg ν u).Conforms (Named cfg ν) x.run () fun _ _ => True)
    (hf : ∀ a, (touching cfg ν u).Conforms (Named cfg ν) (f a).run () fun _ _ => True) :
    (touching cfg ν u).Conforms (Named cfg ν) (x >>= f).run () fun _ _ => True :=
  always_bind (R := fun _ => True)
    (conforms_mono (fun _ _ _ _ _ => trivial) hx) (fun a _ => hf a) fun _ => trivial

theorem touches_ignore {x : Go α}
    (hx : (touching cfg ν u).Conforms (Named cfg ν) x.run () fun _ _ => True) :
    (touching cfg ν u).Conforms (Named cfg ν) (ignore x).run () fun _ _ => True :=
  conforms_attempt_bind (conforms_mono (fun _ _ _ => trivial) hx)

theorem touches_deleteTap {x : String} (hx : ν u = some x) :
    (touching cfg ν u).Conforms (Named cfg ν) (sys (.deleteTap (tapName x))).run ()
      fun _ _ => True :=
  fun _ _ => ⟨⟨x, hx, rfl⟩, trivial⟩

theorem touches_cleanup (hproc : proc.Of cfg ν) (hu : proc.uuid = u) :
    (touching cfg ν u).Conforms (Named cfg ν) (cleanupAfterExit proc).run () fun _ _ => True := by
  obtain ⟨x, hx, -, htap⟩ := hproc
  rw [hu] at hx
  unfold cleanupAfterExit
  refine touches_skip (by grind) fun _ => ?_
  refine touches_skip (by grind) fun _ => ?_
  rw [htap]
  exact touches_deleteTap hx

theorem touches_prepareNetwork (hvm : ν vm.uuid = some vm.name) :
    (touching cfg ν vm.uuid).Conforms (Named cfg ν) (prepareNetwork cfg vm).run ()
      fun r _ => ∀ netdev, r = .ok netdev → netdev.tapName = tapName vm.name := by
  have hdelete : ∀ {β : Type} {f : Unit → Go β} {Q : Except Err β → Unit → Prop},
      (touching cfg ν vm.uuid).Conforms (Named cfg ν) (f ()).run () Q →
      (touching cfg ν vm.uuid).Conforms (Named cfg ν)
        (ignore (sys (.deleteTap (tapName vm.name))) >>= f).run () Q := by
    intro β f Q hf
    exact fun _ _ => ⟨⟨vm.name, hvm, rfl⟩, hf⟩
  -- A step that takes the device down when it fails.
  have hstep : ∀ {β : Type} {step : IOStep} {f : Unit → Go β} {Q : Except Err β → Unit → Prop},
      (∀ e, Q (.error e) ()) → (touching cfg ν vm.uuid).Conforms (Named cfg ν) (f ()).run () Q →
      (touching cfg ν vm.uuid).Conforms (Named cfg ν)
        (orDeleteTap (tapName vm.name) step >>= f).run () Q := by
    intro β step f Q herr hf
    refine conforms_run_bind.mpr (conforms_attempt_call_bind fun r _ =>
      ⟨trivial, ?_⟩)
    cases r with
    | ok _ => exact hf
    | error e => exact hdelete (herr e)
  have herr : ∀ e : Err, ∀ netdev : PreparedNetwork, Except.error e = .ok netdev →
      netdev.tapName = tapName vm.name := fun _ _ h => by cases h
  unfold prepareNetwork
  split
  · exact herr _
  refine hdelete ?_
  refine conforms_call_bind (fun _ _ => ⟨⟨vm.name, hvm, rfl⟩, ?_⟩)
    fun _ _ => ⟨⟨vm.name, hvm, rfl⟩, herr _⟩
  refine hstep herr (hstep herr (hstep herr (hstep herr ?_)))
  refine conforms_call_bind (fun _ _ => ⟨trivial, ?_⟩) fun _ _ => ⟨trivial, herr _⟩
  refine conforms_call_bind (fun _ _ => ⟨trivial, ?_⟩) fun _ _ => ⟨trivial, herr _⟩
  intro netdev h
  cases h
  rfl

theorem touches_launchProcess {netdev : PreparedNetwork} {bootDisk : Option Path}
    (hvm : ν vm.uuid = some vm.name) (htap : netdev.tapName = tapName vm.name) :
    (touching cfg ν vm.uuid).Conforms (Named cfg ν) (launchProcess cfg vm netdev bootDisk).run ()
      fun r _ => ∀ proc, r = .ok proc → proc.Of cfg ν ∧ proc.uuid = vm.uuid := by
  have hskip : ∀ {α β : Type} {x : Go α} {f : α → Go β} {Q : Except Err β → Unit → Prop},
      Uses TouchFree x.run → (∀ e, Q (.error e) ()) →
      (∀ a, (touching cfg ν vm.uuid).Conforms (Named cfg ν) (f a).run () Q) →
      (touching cfg ν vm.uuid).Conforms (Named cfg ν) (x >>= f).run () Q :=
    fun hx herr hf => always_bind (R := fun _ => True)
      (conforms_mono (fun _ _ _ _ _ => trivial) (touches_of_uses hx))
      (fun a _ => hf a) herr
  have herr : ∀ e : Err, ∀ proc : Process, Except.error e = .ok proc →
      proc.Of cfg ν ∧ proc.uuid = vm.uuid := fun _ _ h => by cases h
  unfold launchProcess
  refine hskip (by grind) herr fun _ => ?_
  refine hskip (by grind) herr fun _ => ?_
  refine hskip (by grind) herr fun prepared => ?_
  refine hskip (by grind) herr fun r => ?_
  cases r with
  | error e => exact hskip (by grind) herr fun _ => herr e
  | ok pid =>
    refine hskip (by grind) herr fun path => ?_
    have hof : Process.Of cfg ν
        ⟨pid, vm.uuid, vm.name, cfg.socketPath vm.name, netdev.tapName, path⟩ :=
      ⟨vm.name, hvm, rfl, htap⟩
    refine conforms_sect_bind fun _ _ => ⟨hof, ?_⟩
    intro proc h
    cases h
    exact ⟨hof, rfl⟩

theorem touches_stopProcess {c : Ctx} {state : VMState} (hproc : proc.Of cfg ν)
    (hu : proc.uuid = u) :
    (touching cfg ν u).Conforms (Named cfg ν) (stopProcess c proc state).run ()
      fun _ _ => True := by
  unfold stopProcess
  refine touches_skip (uses_locked ?_) fun _ => ?_
  · rcases MemEff.kind_setFinalState proc.pid state with hs | hs | hs <;> simp [TouchFree, hs]
  refine touches_skip (by grind) fun _ => ?_
  refine touches_skip (by grind) fun _ => ?_
  exact touches_cleanup hproc hu

theorem touches_orStopProcess {x : Go Unit} (hx : Uses TouchFree x.run) (hproc : proc.Of cfg ν)
    (hu : proc.uuid = u) :
    (touching cfg ν u).Conforms (Named cfg ν) (orStopProcess proc x).run () fun _ _ => True := by
  unfold orStopProcess
  refine touches_skip (uses_attempt hx) fun r => ?_
  cases r with
  | ok _ => trivial
  | error e => exact touches_then (touches_ignore (touches_stopProcess hproc hu)) fun _ => trivial

theorem touches_stopVM {c : Ctx} :
    (touching cfg ν u).Conforms (Named cfg ν) (stopVM c u).run () fun _ _ => True := by
  unfold stopVM
  refine touches_skip (by grind) fun _ => ?_
  refine conforms_sect_bind fun r hr => ⟨trivial, ?_⟩
  cases r with
  | none => exact touches_of_uses (by grind)
  | some q =>
    obtain ⟨hu, hq⟩ := hr q rfl
    refine touches_skip (by grind) fun _ => ?_
    refine touches_skip (by grind) fun _ => ?_
    refine touches_then (touches_ignore (touches_cleanup hq hu)) fun _ => ?_
    exact touches_of_uses (by grind)

theorem touches_sleepVM :
    (touching cfg ν u).Conforms (Named cfg ν) (sleepVM cfg u).run () fun _ _ => True := by
  unfold sleepVM
  refine touches_skip (by grind) fun vm => ?_
  refine conforms_sect_bind fun r hr => ⟨trivial, ?_⟩
  cases r with
  | none => exact touches_of_uses (by grind)
  | some q =>
    obtain ⟨hu, hq⟩ := hr q rfl
    refine touches_skip (by grind) fun _ => ?_
    refine touches_skip (by grind) fun _ => ?_
    refine touches_skip (by grind) fun _ => ?_
    refine touches_then (touches_stopProcess hq hu) fun _ => ?_
    exact touches_of_uses (by grind)

theorem touches_resumeVM (hvm : ν vm.uuid = some vm.name) :
    (touching cfg ν vm.uuid).Conforms (Named cfg ν) (resumeVM cfg vm).run () fun _ _ => True := by
  unfold resumeVM
  refine touches_skip (by grind) fun _ => ?_
  refine touches_skip (by grind) fun _ => ?_
  refine touches_skip (by grind) fun _ => ?_
  refine always_bind (touches_prepareNetwork hvm) (fun netdev htap => ?_) fun _ => trivial
  refine touches_skip (by grind) fun _ => ?_
  refine conforms_attempt_bind (conforms_mono ?_ (touches_launchProcess hvm htap))
  intro r _ hr
  cases r with
  | error e =>
    rw [htap]
    exact touches_then (touches_ignore (touches_deleteTap hvm)) fun _ => trivial
  | ok proc =>
    obtain ⟨hproc, hu⟩ := hr proc rfl
    refine touches_then (touches_orStopProcess (by grind) hproc hu) fun _ => ?_
    refine touches_then (touches_orStopProcess (by grind) hproc hu) fun _ => ?_
    exact touches_of_uses (by grind)

theorem touches_bootVM (hvm : ν vm.uuid = some vm.name) :
    (touching cfg ν vm.uuid).Conforms (Named cfg ν) (bootVM cfg vm.uuid vm).run ()
      fun _ _ => True := by
  unfold bootVM
  refine touches_skip (by grind) fun _ => ?_
  refine always_bind (touches_prepareNetwork hvm) (fun netdev htap => ?_) fun _ => trivial
  refine touches_skip (by grind) fun _ => ?_
  refine touches_skip (by grind) fun _ => ?_
  refine touches_then (conforms_mono (fun _ _ _ => trivial)
    (touches_launchProcess hvm htap)) fun _ => ?_
  refine touches_then ?_ fun _ => touches_of_uses (by grind)
  unfold orStopVM
  refine touches_skip (by grind) fun r => ?_
  cases r with
  | ok _ => trivial
  | error e => exact touches_then (touches_ignore touches_stopVM) fun _ => trivial

theorem touches_startVM :
    (touching cfg ν u).Conforms (Named cfg ν) (startVM cfg u).run () fun _ _ => True := by
  unfold startVM startLocked
  refine touches_skip (by unfold beginStartOperationCancelingColdArchive; grind)
    fun _ => ?_
  refine conforms_deferred.mpr (conforms_mono (fun _ _ _ =>
    touches_of_uses (uses_endVMOperation (by simp [TouchFree]))) (Q := fun _ _ => True) ?_)
  refine conforms_call_bind (fun vm hvm => ⟨trivial, ?_⟩) fun _ _ => ⟨trivial, trivial⟩
  obtain ⟨rfl, hname⟩ := hvm vm rfl
  split
  · trivial
  · split
    · exact touches_resumeVM hname
    · exact touches_bootVM hname

theorem touches_rebootVM :
    (touching cfg ν u).Conforms (Named cfg ν) (rebootVM cfg u).run () fun _ _ => True := by
  unfold rebootVM
  refine touches_skip (by grind) fun vm => ?_
  refine touches_skip (by grind) fun r => ?_
  cases r with
  | some proc => exact touches_then touches_stopVM fun _ => touches_startVM
  | none => exact touches_skip (by grind) fun _ => touches_startVM

end Programs

/-- The actions of a thread: those of a call are for its VM, and an exit
handler registers nothing. -/
def TouchesFor (cfg : Config) (ν : Uuid → Option String) (calls : Calls) :
    Tid → {β : Type} → Eff β → Prop
  | .call epoch n, _, e =>
      ∃ op u, calls epoch n = some op ∧ op.runs = some u ∧ Touches cfg ν u e
  | .exit _, _, e => e.kind ≠ .register

theorem touches_threads (cfg : Config) (ν : Uuid → Option String) {calls : Calls}
    (hcalls : calls.Run) (t : Tid) :
    (Monitor.always (TouchesFor cfg ν calls t)).Conforms (Named cfg ν) (threads cfg calls t) ()
      fun _ _ => True := by
  cases t with
  | exit p =>
    exact always_of_all (uses_exit p) fun _ hk => hk.lockFree.2
  | call epoch n =>
    cases hop : calls epoch n with
    | none =>
      rw [threads_none hop]
      trivial
    | some op =>
      rw [threads_some hop]
      obtain ⟨u, hu⟩ := Option.isSome_iff_exists.mp (hcalls epoch n op hop)
      have hfinish : ∀ {α : Type} {x : Go α},
          (touching cfg ν u).Conforms (Named cfg ν) x.run () (fun _ _ => True) →
          (Monitor.always (TouchesFor cfg ν calls (.call epoch n))).Conforms (Named cfg ν)
            (finish x) () fun _ _ => True :=
        fun hx => conforms_bind.mpr (conforms_mono (fun _ _ _ => trivial)
          (always_mono (fun e he => ⟨op, u, hop, hu, he⟩) hx))
      cases op <;> simp only [Op.runs, Option.some.injEq, reduceCtorEq] at hu <;> subst hu
      · exact hfinish touches_startVM
      · exact hfinish touches_stopVM
      · exact hfinish touches_sleepVM
      · exact hfinish touches_rebootVM

section Reach

variable {cfg : Config} {calls : Calls} {w : World} {s : MState} {K : MState → MLabel → Prop}

/-- In every run of calls that start and stop VMs, the processes that are
registered have the sockets and the TAP devices of their VMs, and a call
touches the TAP device of its VM only. -/
theorem processes_reach (hcalls : calls.Run) (hw : w.mem = .fresh)
    (h : system.Reach K (start cfg calls w) s) :
    s.world.mem.Named cfg w.store.names ∧
      ∀ t, (Monitor.always (TouchesFor cfg w.store.names calls t)).Conforms
        (Named cfg w.store.names) (s.prog t) () fun _ _ => True := by
  have hfresh : Mem.fresh.Named cfg w.store.names :=
    ⟨fun _ _ h => (by cases h), fun _ _ h => (by cases h)⟩
  refine always_invariant (I := fun w' => w'.mem.Named cfg w.store.names) ?_
    (touches_threads cfg _ hcalls) (hw ▸ hfresh) ?_ ?_ h
  · intro s t o β e k b w' hr hm _ _ he
    exact named_exec (keyed_reach hw hr) hm (names_reach hcalls.keepVMs hr) he
  · intro s t o β e k b w' hr hm hp he hP
    cases e with
    | store e => obtain ⟨_, -, rfl⟩ := exec_store he; exact hm
    | host e => obtain ⟨_, -, rfl⟩ := exec_host he; exact hm
    | mem e =>
      obtain ⟨m, hexec, rfl⟩ := exec_mem he
      by_cases hk : e.kind = .register
      · cases e with
        | setRunning proc =>
          have hof : proc.Of cfg w.store.names := by
            cases t with
            | exit p => exact absurd rfl hP
            | call epoch n =>
              obtain ⟨_, _, -, -, hof⟩ := hP
              exact hof
          obtain ⟨-, rfl⟩ := section_eq hexec
          refine ⟨fun u q hq => ?_, fun p q hq => ?_⟩
          · by_cases hu : u = proc.uuid
            · subst hu
              obtain rfl : proc = q := by simpa using hq
              exact hof
            · exact hm.running u q (by simpa [hu] using hq)
          · by_cases hp : p = proc.pid
            · subst hp
              obtain rfl : proc = q := by simpa using hq
              exact hof
            · exact hm.watched p q (by simpa [hp] using hq)
        | setFinalState p state =>
          rcases MemEff.kind_setFinalState p state with hs | hs | hs <;> cases hs.symm.trans hk
        | _ => cases hk
      · exact execMem_named hm hexec hk
  · intro s v w' _ hm hv
    rcases execEnv_mem hv with ⟨-, hmem, -⟩ | ⟨-, hmem, -⟩
    · exact hmem ▸ hfresh
    · exact hmem ▸ hm

theorem named_reach (hcalls : calls.Run) (hw : w.mem = .fresh) {β : Type} (s : MState) (t : Tid)
    (e : Eff β) (o : Outcome) (b : β) (w' : World) (h : system.Reach K (start cfg calls w) s)
    (he : system.exec t s.world e o = some (b, w')) : Named cfg w.store.names e b :=
  named_exec (keyed_reach hw h) (processes_reach hcalls hw h).1 (names_reach hcalls.keepVMs h) he

end Reach

/-! ## TAP devices -/

/-- The TAP device that an action is about. -/
def Eff.tap : {β : Type} → Eff β → Option String
  | _, .host (.deleteTap tap) => some tap
  | _, .host (.linkAdd tap _) => some tap
  | _, _ => none

@[simp] theorem Host.writeTo_taps (h : Host) (dst : Handle) (f : File) :
    (h.writeTo dst f).taps = h.taps := by
  unfold Host.writeTo
  split <;> rfl

@[simp] theorem Host.truncate_taps (h : Host) (p : Path) (size : Int) :
    (h.truncate p size).taps = h.taps := by
  unfold Host.truncate
  split <;> rfl

@[simp] theorem Host.modifyDisk_taps (h : Host) (p : Path) (f : Disk → Disk) :
    (h.modifyDisk p f).taps = h.taps := by
  unfold Host.modifyDisk
  split <;> rfl

@[simp] theorem Host.start_taps (h : Host) (epoch : Nat) (l : Launch) :
    (h.start epoch l).taps = h.taps := by
  unfold Host.start
  simp only
  split
  · rfl
  · split <;> rfl

/-- An action changes the TAP device it is about, if any. -/
theorem execHost_taps {w : World} {t : Tid} {o : Outcome} {β : Type} {e : HostEff β} {b : β}
    {hst : Host} (h : execHost w t o e = some (b, hst)) :
    hst.taps = w.host.taps ∨
      ∃ tap owner, (Eff.host e).tap = some tap ∧ hst.taps = update w.host.taps tap owner := by
  cases e with
  | deleteTap tap =>
    simp only [execHost] at h
    rcases attemptOn_cases h with ⟨_, hx, -⟩ | ⟨rfl, -⟩ | ⟨hy, -⟩
    · cases hx
      exact Or.inr ⟨tap, none, rfl, rfl⟩
    · exact Or.inl rfl
    · cases hy
  | linkAdd tap u =>
    simp only [execHost] at h
    rcases attemptOn_cases h with ⟨_, hx, -⟩ | ⟨rfl, -⟩ | ⟨hy, -⟩
    · obtain ⟨-, hx⟩ := Option.ite_none_left_eq_some.mp hx
      cases hx
      exact Or.inr ⟨tap, some u, rfl, rfl⟩
    · exact Or.inl rfl
    · cases hy
  | fcAction c sock => exact Or.inl (by rw [execHost_fcAction h])
  | fcPause c sock =>
    rcases execHost_fcPause h with rfl | ⟨_, _, -, -, rfl⟩
    all_goals exact Or.inl rfl
  | fcResume c sock =>
    rcases execHost_fcResume h with rfl | ⟨_, _, _, _, -, -, -, rfl⟩
    all_goals exact Or.inl rfl
  | fcLoadSnapshot c sock state mem =>
    rcases execHost_fcLoadSnapshot h with rfl | ⟨_, _, _, -, -, -, -, -, rfl⟩
    all_goals exact Or.inl rfl
  | fcCreateSnapshot c sock state mem =>
    rcases execHost_fcCreateSnapshot h with ⟨-, _, _, _, _, -, -, -, rfl⟩ | ⟨_, -, rfl | rfl⟩
    all_goals exact Or.inl rfl
  | _ =>
    refine Or.inl ?_
    cases o <;> simp only [execHost, reply, attemptOn] at h <;>
      grind [Host.unlink, Host.unlinkAll, Host.write, Host.rename, Host.renameDir,
        Host.writeTo_taps, Host.truncate_taps, Host.modifyDisk_taps, Host.start_taps]

theorem Eff.tap_of_kind {β : Type} (e : Eff β) (hk : e.kind ≠ .net) (hk' : e.kind ≠ .link) :
    e.tap = none := by
  cases e with
  | store e | mem e => rfl
  | host e =>
    cases e with
    | deleteTap tap => exact absurd rfl hk
    | linkAdd tap u => exact absurd rfl hk'
    | _ => rfl

/-- An exit handler touches the TAP device of the process it has waited
for. -/
def exitTaps : Monitor Eff ((LockPhase × LifePhase) × Unit) :=
  life.above ()
    (fun l e _ => ∀ tap, e.tap = some tap →
      ∃ proc, l.1.2.exit.proc = some proc ∧ tap = proc.tapName)
    fun _ _ _ => ()

theorem exitTaps_exitHandler (p : Pid) :
    exitTaps.Conforms Answers (finish (exitHandler p)) exitTaps.start fun _ _ => True := by
  -- The clean-up stays in the phase in which the handler has read the final state.
  have hstay : ∀ {α β : Type} {x : Go α} {f : α → Go β} {l : (LockPhase × LifePhase) × Unit}
      {Q : Except Err β → (LockPhase × LifePhase) × Unit → Prop},
      Uses (fun k => k = .disk ∨ k = .cgroup) x.run → (∀ e, Q (.error e) l) →
      (∀ a, exitTaps.Conforms Answers (f a).run l Q) →
      exitTaps.Conforms Answers (x >>= f).run l Q := by
    intro α β x f l Q hx herr hf
    refine conforms_skip (· = l) hx rfl ?_ (fun a _ hl => hl ▸ hf a)
      fun e _ hl => hl ▸ herr e
    rintro β _ e b rfl he -
    refine ⟨fun tap htap => ?_, Prod.ext (pass_action e b ?_).2 rfl⟩
    · rw [e.tap_of_kind (by rcases he with he | he <;> simp [he])
        (by rcases he with he | he <;> simp [he])] at htap
      cases htap
    · rcases he with he | he <;> simp [PassKind, he]
  refine conforms_bind.mpr ?_
  unfold exitHandler
  refine conforms_sect_bind fun proc _ => ⟨fun _ h => (by cases h), ?_⟩
  refine conforms_sect_bind fun final _ => ⟨fun _ h => (by cases h), ?_⟩
  refine conforms_run_bind.mpr (conforms_attempt_bind ?_)
  unfold cleanupAfterExit
  have hrest : ∀ l, exitTaps.Conforms Answers (do
      ignore (db (.setVMState .background proc.uuid (final.getD .stopped)))
      locked (.deleteRunning proc.uuid) : Go Unit).run l fun _ _ => True := by
    intro l
    refine conforms_run_bind.mpr (conforms_attempt_call_bind fun r _ =>
      ⟨fun _ h => (by cases h), ?_⟩)
    exact fun _ _ => ⟨fun _ h => (by cases h), trivial⟩
  refine hstay (by grind) (fun _ => hrest _) fun _ => ?_
  refine hstay (by grind) (fun _ => hrest _) fun _ => ?_
  intro r _
  refine ⟨fun tap h => ⟨proc, rfl, (Option.some.inj h).symm⟩, ?_⟩
  exact hrest _

/-- The VM that a thread is at work on: that of its call, or that of the
process whose exit it waits for. -/
def WorksOn (calls : Calls) (s : MState) : Tid → Uuid → Prop
  | .call epoch n, u => ∃ op, calls epoch n = some op ∧ op.runs = some u
  | .exit p, u => ∃ proc, s.world.mem.watched p = some proc ∧ proc.uuid = u

section Reach

variable {cfg : Config} {calls : Calls} {w : World} {s s' : MState} {K : MState → MLabel → Prop}
  {t : Tid} {u v : Uuid} {x y : String}

/-- The next action of a thread is about the TAP device of its VM. -/
theorem tap_of_worksOn (hcalls : calls.Run) (hw : w.Booted)
    (h : system.Reach K (start cfg calls w) s) (hu : WorksOn calls s t u)
    (hx : w.store.names u = some x) {β : Type} {e : Eff β} {k : β → Prog Eff (Except Err Unit)}
    {o : Outcome} {b : β} {w' : World} {tap : String} (hp : s.prog t = .act e k)
    (he : exec t s.world e o = some (b, w')) (htap : e.tap = some tap) : tap = tapName x := by
  obtain ⟨hnamed, hconf⟩ := processes_reach hcalls hw.mem h
  cases t with
  | call epoch n =>
    obtain ⟨op, hop, hrun⟩ := hu
    have hc := hconf (.call epoch n)
    rw [hp] at hc
    obtain ⟨op', v, hop', hv, htouch⟩ :=
      (hc b (named_reach hcalls hw.mem s _ e o b w' h he)).1
    obtain rfl := Option.some.inj (hop.symm.trans hop')
    obtain rfl := Option.some.inj (hrun.symm.trans hv)
    cases e with
    | store e | mem e => cases htap
    | host e =>
      cases e with
      | deleteTap tap' | linkAdd tap' v =>
        obtain ⟨x', hx', rfl⟩ := htouch
        rw [← Option.some.inj htap, Option.some.inj (hx'.symm.trans hx)]
      | _ => cases htap
  | exit p =>
    obtain ⟨proc, hproc, rfl⟩ := hu
    have hhandler : exitTaps.Conforms Answers (threads cfg calls (.exit p)) exitTaps.start
        fun _ _ => True := exitTaps_exitHandler p
    have hok := ok_reach (answers_reach hw.mem) hhandler h hp
      (answers_reach hw.mem s _ e o b w' h he)
    obtain ⟨q, hq, rfl⟩ := hok tap htap
    rw [show (exitTaps.phases s (.exit p)).1 = life.phases s (.exit p) from
      above_phases s _] at hq
    obtain ⟨rfl, -⟩ := (registry_reach hw h).working p proc q hproc hq
    obtain ⟨x', hx', -, htap'⟩ := hnamed.watched p q hproc
    rw [htap', Option.some.inj (hx'.symm.trans hx)]

/-- In every run of `StartVM`, `StopVM`, `SleepVM` and `RebootVM`, a step at
work on the VM named `x` that changes the TAP devices changes the one of the
VM named `y` if and only if the two names agree on the first nine
characters. -/
theorem tap_changed_iff {o : Outcome} (hcalls : calls.Run) (hw : w.Booted)
    (h : system.Reach AnyStep (start cfg calls w) s) (hu : WorksOn calls s t u)
    (hx : w.store.names u = some x) (hy : w.store.names v = some y)
    (hs : system.step s (.thread t o) = some s')
    (hchange : s'.world.host.taps ≠ s.world.host.taps) :
    (s'.world.host.taps (tapName y) ≠ s.world.host.taps (tapName y) ↔
      x.toList.take 9 = y.toList.take 9) ∧
    ∀ q, s.world.mem.running v = some q → q.tapName = tapName y := by
  obtain ⟨owner, htaps⟩ : ∃ owner,
      s'.world.host.taps = update s.world.host.taps (tapName x) owner := by
    rcases System.step_cases hs with
      ⟨t', o', hl, β, e, k, b, w', hp, he, rfl⟩ | ⟨t', o', -, β, body, k, -, rfl⟩ | ⟨_, _, hl, -, -⟩
    · obtain ⟨rfl, rfl⟩ := Label.thread.inj hl
      cases e with
      | store e => obtain ⟨_, -, rfl⟩ := exec_store he; exact absurd rfl hchange
      | mem e => obtain ⟨_, -, rfl⟩ := exec_mem he; exact absurd rfl hchange
      | host e =>
        obtain ⟨hst, hexec, rfl⟩ := exec_host he
        rcases execHost_taps hexec with hsame | ⟨tap, owner, htap, hnew⟩
        · exact absurd hsame hchange
        · exact ⟨owner, tap_of_worksOn hcalls hw h hu hx hp he htap ▸ hnew⟩
    · exact absurd rfl hchange
    · cases hl
  refine ⟨?_, fun q hq => ?_⟩
  · rw [← tapName_eq_iff, htaps]
    constructor
    · intro hne
      by_contra hxy
      exact hne (update_of_ne (Ne.symm hxy) _ _)
    · intro hxy hsame
      rw [hxy, update_self] at hsame
      exact hchange (by rw [htaps, hxy, hsame, update_eq_self])
  · obtain ⟨y', hy', -, htap⟩ := (processes_reach hcalls hw.mem h).1.running v q hq
    rw [(keyed_reach hw.mem h).running v q hq] at hy'
    rw [htap, Option.some.inj (hy'.symm.trans hy)]

end Reach

/-! ## Two runs -/

/-- Two VMs that are stopped. -/
def World.twoVMs (a b : String) : World :=
  .sample [.sample a 3, .sample b 5]
    [(Config.sample.diskPath a, .image .base), (Config.sample.diskPath b, .image .base)]

/-- A start of each of them. -/
def Calls.twoStarts : Calls := .ofList [.startVM 0, .startVM 1]

theorem twoStarts_run : Calls.twoStarts.Run := ofList_run (by decide)

/-- The first VM is started, and the second start is about to set up its
network. -/
def firstRunning : List MLabel :=
  steps (.call 0 0) 23 ++ .env (.bind 0) :: steps (.call 0 0) 4 ++ steps (.call 0 1) 9

/-- Two valid names that agree on the first nine characters: the start of
the second VM deletes the TAP device of the first one, which is running. -/
theorem start_deletes_tap_of_other_vm :
    validVMName "project-a1" = true ∧ validVMName "project-a2" = true ∧
    ∃ s s', system.Reach AnyStep
        (start .sample .twoStarts (.twoVMs "project-a1" "project-a2")) s ∧
      s.world.mem.running 0 = some (.sample "project-a1" 0 0) ∧
      (s.world.host.os 0).any (·.alive) = true ∧ WorksOn .twoStarts s (.call 0 1) 1 ∧
      system.step s (.thread (.call 0 1) .ok) = some s' ∧
      s.world.host.taps (tapName "project-a1") = some 0 ∧
      s'.world.host.taps (tapName "project-a1") = none := by
  refine ⟨by decide, by decide, ?_⟩
  obtain ⟨s, hs, hP⟩ := system.exists_reach
    (s := start .sample .twoStarts (.twoVMs "project-a1" "project-a2")) (l := firstRunning)
    (P := fun s => decide (s.world.mem.running 0 = some (.sample "project-a1" 0 0)) &&
      (s.world.host.os 0).any (·.alive) &&
      decide (s.world.host.taps (tapName "project-a1") = some 0) &&
      (system.step s (.thread (.call 0 1) .ok)).any fun (s' : MState) =>
        decide (s'.world.host.taps (tapName "project-a1") = none))
    (by decide +kernel)
  simp only [Bool.and_eq_true, decide_eq_true_eq, Option.any_eq_true] at hP
  obtain ⟨⟨⟨hrun, halive⟩, htap⟩, s', hs', htap'⟩ := hP
  exact ⟨s, s', hs, hrun, (Option.any_eq_true _ _).mpr halive,
    ⟨.startVM 1, rfl, rfl⟩, hs', htap, htap'⟩

/-- Two names that differ there: the start of the second VM makes its own TAP
device and leaves that of the first one alone. -/
theorem tap_changed_iff_distinct :
    ∃ s s', system.Reach AnyStep (start .sample .twoStarts (.twoVMs "a" "b")) s ∧
      system.step s (.thread (.call 0 1) .ok) = some s' ∧
      s'.world.host.taps ≠ s.world.host.taps ∧
      ¬ s'.world.host.taps (tapName "a") ≠ s.world.host.taps (tapName "a") := by
  obtain ⟨s, hs, hP⟩ := system.exists_reach
    (s := start .sample .twoStarts (.twoVMs "a" "b")) (l := firstRunning ++ steps (.call 0 1) 1)
    (P := fun s => (system.step s (.thread (.call 0 1) .ok)).any fun (s' : MState) =>
      decide (s'.world.host.taps (tapName "b") ≠ s.world.host.taps (tapName "b")))
    (by decide)
  obtain ⟨s', hs', hne⟩ := (Option.any_eq_true _ _).mp hP
  have hchange : s'.world.host.taps ≠ s.world.host.taps :=
    fun heq => of_decide_eq_true hne (by rw [heq])
  obtain ⟨hiff, -⟩ := tap_changed_iff (t := .call 0 1) (u := 1) (v := 0) (x := "b") (y := "a")
    twoStarts_run
    (World.booted_sample _ _) hs ⟨.startVM 1, rfl, rfl⟩ rfl rfl hs' hchange
  exact ⟨s, s', hs, hs', hchange, fun h => absurd (hiff.mp h) (by decide)⟩

end Firedoze
