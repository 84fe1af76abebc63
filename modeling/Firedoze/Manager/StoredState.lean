import Firedoze.Manager.Registry

/-!
# The stored state of a VM
-/

namespace Firedoze

open Conc Conc.Prog Conc.Monitor Function

/-! ## Runs -/

/-- The context of a call of the store. -/
def StoreEff.ctx : {β : Type} → StoreEff β → Ctx
  | _, .getVM c _ => c
  | _, .listVMs c => c
  | _, .vmExists c _ => c
  | _, .routeExists c _ => c
  | _, .insertVM c _ => c
  | _, .setVMState c _ _ => c
  | _, .setVMArchivedDiskPath c _ _ => c
  | _, .deleteRoutesForVM c _ => c
  | _, .deleteVM c _ => c
  | _, .snapshotExists c _ => c
  | _, .getSnapshot c _ => c
  | _, .insertSnapshot c _ => c
  | _, .deleteSnapshot c _ => c
  | _, .getVMByName c _ => c
  | _, .getRoute c _ => c
  | _, .insertRoute c _ _ _ => c
  | _, .deleteRoute c _ => c
  | _, .updateSettings c _ _ => c

/-- The action succeeds. -/
def Outcome.isOk : Outcome → Bool
  | .ok => true
  | _ => false

/-- A call of the store fails only when its context is done. -/
def storeReliable (w : World) {β : Type} (t : Tid) (e : Eff β) (o : Outcome) : Bool :=
  match e with
  | .store e => o.isOk || w.done t e.ctx
  | _ => true

/-- The daemon does not die, and the store is reliable. -/
def reliable (s : MState) (l : MLabel) : Bool :=
  s.next (storeReliable s.world) l &&
    match l with
    | .env v => decide (v ≠ .crash)
    | .thread _ _ => true

/-- The VM that a call starts or stops. -/
def Op.runs : Op → Option Uuid
  | .startVM u => some u
  | .stopVM u => some u
  | .sleepVM u => some u
  | .rebootVM u => some u
  | _ => none

/-- Every call starts or stops a VM. -/
def Calls.Run (calls : Calls) : Prop := ∀ epoch n op, calls epoch n = some op → op.runs.isSome

theorem ofList_run {ops : List Op} (h : ∀ op ∈ ops, op.runs.isSome) : (Calls.ofList ops).Run := by
  intro epoch n op hop
  simp only [Calls.ofList] at hop
  split at hop
  · exact h op (List.mem_of_getElem? hop)
  · cases hop

/-- No call that starts or stops the VM is in progress, and the exit handler
of each of its processes that have exited has come to its end. -/
def Quiet (calls : Calls) (s : MState) (u : Uuid) : Prop :=
  (∀ n op, calls s.world.epoch n = some op → op.runs = some u →
    ¬ s.InProgress (.call s.world.epoch n)) ∧
  ∀ p proc o, s.world.mem.watched p = some proc → proc.uuid = u → s.world.host.os p = some o →
    o.alive = false → ∃ r, s.Finished (.exit p) r

/-- A call that writes `running` does so under a context that is not done,
while a process of the VM is registered whose exit handler has not written
its state yet.  A call that writes another state does so while no process of
the VM is registered. -/
def writeInOrder (w : World) (ph : Tid → LockPhase × LifePhase) :
    {β : Type} → Tid → Eff β → Outcome → Bool
  | _, .call epoch n, .store (.setVMState c u state), _ =>
      if state = .running then
        !w.done (.call epoch n) c &&
          (w.mem.running u).any fun proc => decide ((ph (.exit proc.pid)).2.exit ≠ .wrote proc)
      else (w.mem.running u).isNone
  | _, _, _, _ => true

/-- The condition on a step: the store is reliable, and the calls write their
states in order. -/
def writesInOrder (s : MState) (l : MLabel) : Bool :=
  reliable s l && s.next (writeInOrder s.world (life.phases s)) l

/-! ## The invariant -/

/-- How the `state` column agrees with `running`. -/
structure Stored (w : World) (ph : Tid → LockPhase × LifePhase) : Prop where
  final : ∀ p, w.mem.finalState p ≠ some .running
  read : ∀ p proc final, (ph (.exit p)).2.exit = .read proc final → final ≠ some .running
  registered : ∀ u r, w.store.vms u = some r → r.state = .running →
    ∃ proc, w.mem.running u = some proc ∧ (ph (.exit proc.pid)).2.exit ≠ .wrote proc
  state : ∀ u r proc, w.store.vms u = some r → w.mem.running u = some proc →
    r.state = .running ∨ (ph (.exit proc.pid)).2.exit = .wrote proc ∨
      ∃ n, (ph (.call w.epoch n)).2.progress = .registered proc

/-- Every row keeps its state. -/
def Store.SameStates (s s' : Store) : Prop :=
  ∀ u r', s'.vms u = some r' → ∃ r, s.vms u = some r ∧ r'.state = r.state

theorem Store.SameStates.refl (s : Store) : s.SameStates s := fun _ r h => ⟨r, h, rfl⟩

theorem Store.SameStates.of_update {s : Store} {u : Uuid} {r r' : VMRow} (hr : s.vms u = some r)
    (hst : r'.state = r.state) : s.SameStates { s with vms := update s.vms u (some r') } := by
  intro v r'' hr''
  by_cases hv : v = u
  · subst hv
    obtain rfl : r' = r'' := by simpa using hr''
    exact ⟨r, hr, hst⟩
  · exact ⟨r'', by simpa [hv] using hr'', rfl⟩

/-- A start is lost only when its VM cannot be read under a context that is
never done. -/
theorem lifeNextStore_getVM {l : LifePhase} {c : Ctx} {u : Uuid} {b : Except Err VM}
    {proc : Process} (h : l.progress = .registered proc) :
    (lifeNextStore l (.getVM c u) b).progress = .registered proc ∨
      c = .background ∧ (∃ x, b = .error x) ∧ proc.uuid = u := by
  cases c with
  | background =>
    cases b with
    | ok vm => exact Or.inl (by simp [lifeNextStore, h])
    | error x =>
      by_cases hu : proc.uuid = u
      · exact Or.inr ⟨rfl, ⟨x, rfl⟩, hu⟩
      · exact Or.inl (by simp [lifeNextStore, h, hu])
  | request | archive a => exact Or.inl h

/-- A start takes its process for gone when it finds nothing registered. -/
theorem Progress.unseen_registered {g : Progress} {proc : Process} (h : g = .registered proc)
    (u : Uuid) : g.unseen u = .registered proc ∨ proc.uuid = u := by
  subst h
  by_cases hu : proc.uuid = u
  · exact Or.inr hu
  · exact Or.inl (if_neg hu)

theorem Store.vms_of_getVM_error {s : Store} {u : Uuid} {x : Err} (h : s.getVM u = .error x) :
    s.vms u = none := by
  unfold Store.getVM at h
  split at h
  · assumption
  · cases h

/-- A final state other than `running`. -/
theorem execMem_setFinalState {w : World} {t : Tid} {o : Outcome} {p : Pid} {state : VMState}
    {b : Unit} {m : Mem} (h : execMem w t o (.setFinalState p state) = some (b, m))
    (hne : state ≠ .running) (hw : ∀ p, w.mem.finalState p ≠ some .running) :
    m.running = w.mem.running ∧ ∀ q, m.finalState q ≠ some .running := by
  refine ⟨(execMem_sameRunning h ?_ ?_).1, execMem_final h ?_ hw⟩
  all_goals cases state <;> simp_all [MemEff.kind]

theorem Outcome.eq_ok {o : Outcome} (h : o.isOk = true) : o = .ok := by
  cases o <;> simp_all [Outcome.isOk]

section Step

variable {w w' : World} {ph : Tid → LockPhase × LifePhase} {n : Nat} {l : LockPhase × LifePhase}
  {p : Pid}

/-- A step of a call that writes no state and registers no process. -/
theorem Stored.call (h : Stored w ph) (hkeyed : w.mem.Keyed) (hepoch : w'.epoch = w.epoch)
    (hvms : w.store.SameStates w'.store) (hrun : w'.mem.running = w.mem.running)
    (hfin : ∀ p, w'.mem.finalState p ≠ some .running)
    (hreg : ∀ proc, (ph (.call w.epoch n)).2.progress = .registered proc →
      l.2.progress = .registered proc ∨ w.mem.running proc.uuid = none ∨
        w.store.vms proc.uuid = none) :
    Stored w' (update ph (.call w.epoch n) l) := by
  refine ⟨hfin, ?_, ?_, ?_⟩
  · simp only [update_call_exit]
    exact h.read
  · intro u r' hr' hst
    obtain ⟨r, hr, heq⟩ := hvms u r' hr'
    rw [hrun]
    simp only [update_call_exit]
    exact h.registered u r hr (heq ▸ hst)
  · intro u r' proc hr' hproc
    obtain ⟨r, hr, heq⟩ := hvms u r' hr'
    rw [hrun] at hproc
    obtain rfl := hkeyed.running u proc hproc
    rw [heq, hepoch]
    simp only [update_call_exit, update_call_apply]
    refine (h.state _ r proc hr hproc).imp_right (Or.imp_right ?_)
    rintro ⟨k, hk⟩
    refine ⟨k, ?_⟩
    split
    · subst k
      rcases hreg proc hk with hl | hnone | hnone
      · exact hl
      · rw [hnone] at hproc
        cases hproc
      · rw [hnone] at hr
        cases hr
    · exact hk

/-- A start registers its process. -/
theorem Stored.register {proc : Process} (h : Stored w ph) (hR : Registry w ph)
    (hepoch : w'.epoch = w.epoch) (hstore : w'.store = w.store)
    (hrun : w'.mem.running = update w.mem.running proc.uuid (some proc))
    (hfin : w'.mem.finalState = update w.mem.finalState proc.pid (some .stopped))
    (hold : (ph (.call w.epoch n)).2.progress = .spawned proc.pid)
    (hlock : (ph (.call w.epoch n)).1 = .start proc.uuid)
    (hnew : l.2.progress = .registered proc) : Stored w' (update ph (.call w.epoch n) l) := by
  have hempty : w.mem.running proc.uuid = none := hR.early n _ hlock (by rw [hold]; rfl)
  refine ⟨?_, ?_, ?_, ?_⟩
  · intro p
    rw [hfin, update_apply]
    split
    · simp
    · exact h.final p
  · simp only [update_call_exit]
    exact h.read
  · intro u r hr hst
    obtain ⟨q, hq, hwrote⟩ := h.registered u r (hstore ▸ hr) hst
    have hu : u ≠ proc.uuid := by
      rintro rfl
      rw [hempty] at hq
      cases hq
    rw [hrun, update_of_ne hu]
    simp only [update_call_exit]
    exact ⟨q, hq, hwrote⟩
  · intro u r q hr hq
    rw [hstore] at hr
    rw [hepoch]
    simp only [update_call_exit, update_call_apply]
    by_cases hu : u = proc.uuid
    · subst hu
      rw [hrun, update_self] at hq
      cases hq
      exact Or.inr (Or.inr ⟨n, by rw [if_pos rfl]; exact hnew⟩)
    · rw [hrun, update_of_ne hu] at hq
      refine (h.state u r q hr hq).imp_right (Or.imp_right ?_)
      rintro ⟨k, hk⟩
      refine ⟨k, ?_⟩
      rw [if_neg]
      · exact hk
      · rintro rfl
        rw [hold] at hk
        cases hk

/-- A start writes `running`. -/
theorem Stored.write_running {u : Uuid} {r : VMRow} {q proc : Process} {now : Nat}
    (h : Stored w ph) (hkeyed : w.mem.Keyed) (hepoch : w'.epoch = w.epoch)
    (hmem : w'.mem = w.mem)
    (hvms : w'.store.vms = update w.store.vms u (some (r.withState .running now)))
    (hq : w.mem.running u = some q) (hwrote : (ph (.exit q.pid)).2.exit ≠ .wrote q)
    (hold : (ph (.call w.epoch n)).2.progress = .registered proc) (hu : proc.uuid = u) :
    Stored w' (update ph (.call w.epoch n) l) := by
  refine ⟨hmem ▸ h.final, ?_, ?_, ?_⟩
  · simp only [update_call_exit]
    exact h.read
  · intro v r' hr' hst
    rw [hmem]
    simp only [update_call_exit]
    by_cases hv : v = u
    · subst hv
      exact ⟨q, hq, hwrote⟩
    · rw [hvms, update_of_ne hv] at hr'
      exact h.registered v r' hr' hst
  · intro v r' q' hr' hq'
    rw [hmem] at hq'
    rw [hepoch]
    simp only [update_call_exit, update_call_apply]
    by_cases hv : v = u
    · subst hv
      rw [hvms, update_self] at hr'
      cases hr'
      exact Or.inl rfl
    · rw [hvms, update_of_ne hv] at hr'
      refine (h.state v r' q' hr' hq').imp_right (Or.imp_right ?_)
      rintro ⟨k, hk⟩
      refine ⟨k, ?_⟩
      rw [if_neg]
      · exact hk
      · rintro rfl
        rw [hold] at hk
        obtain rfl := Progress.registered.inj hk
        exact hv ((hkeyed.running v proc hq').symm.trans hu)

/-- A call writes another state than `running`. -/
theorem Stored.write_other {u : Uuid} {r : VMRow} {state : VMState} {now : Nat} (h : Stored w ph)
    (hepoch : w'.epoch = w.epoch) (hmem : w'.mem = w.mem) (hne : state ≠ .running)
    (hvms : w'.store.vms = update w.store.vms u (some (r.withState state now)))
    (hrun : w.mem.running u = none)
    (hreg : ∀ proc, (ph (.call w.epoch n)).2.progress = .registered proc →
      l.2.progress = .registered proc) : Stored w' (update ph (.call w.epoch n) l) := by
  refine ⟨hmem ▸ h.final, ?_, ?_, ?_⟩
  · simp only [update_call_exit]
    exact h.read
  · intro v r' hr' hst
    rw [hmem]
    simp only [update_call_exit]
    by_cases hv : v = u
    · subst hv
      rw [hvms, update_self] at hr'
      cases hr'
      exact absurd hst hne
    · rw [hvms, update_of_ne hv] at hr'
      exact h.registered v r' hr' hst
  · intro v r' q hr' hq
    rw [hmem] at hq
    rw [hepoch]
    simp only [update_call_exit, update_call_apply]
    have hv : v ≠ u := by
      rintro rfl
      rw [hrun] at hq
      cases hq
    rw [hvms, update_of_ne hv] at hr'
    refine (h.state v r' q hr' hq).imp_right (Or.imp_right ?_)
    rintro ⟨k, hk⟩
    refine ⟨k, ?_⟩
    split
    · subst k
      exact hreg q hk
    · exact hk

/-- A step of an exit handler before its write. -/
theorem Stored.exit (h : Stored w ph) (hepoch : w'.epoch = w.epoch)
    (hvms : w.store.SameStates w'.store) (hrun : w'.mem.running = w.mem.running)
    (hfin : ∀ p, w'.mem.finalState p ≠ some .running)
    (hread : ∀ proc final, l.2.exit = .read proc final → final ≠ some .running)
    (hwrote : ∀ proc, l.2.exit = .wrote proc ↔ (ph (.exit p)).2.exit = .wrote proc) :
    Stored w' (update ph (.exit p) l) := by
  have hx : ∀ q proc, (update ph (.exit p) l (.exit q)).2.exit = .wrote proc ↔
      (ph (.exit q)).2.exit = .wrote proc := by
    intro q proc
    rw [update_exit_apply]
    split
    · subst q
      exact hwrote proc
    · exact Iff.rfl
  refine ⟨hfin, ?_, ?_, ?_⟩
  · intro q proc final hq
    rw [update_exit_apply] at hq
    split at hq
    · exact hread proc final hq
    · exact h.read q proc final hq
  · intro u r' hr' hst
    obtain ⟨r, hr, heq⟩ := hvms u r' hr'
    simp only [hrun, ne_eq, hx]
    exact h.registered u r hr (heq ▸ hst)
  · intro u r' proc hr' hproc
    obtain ⟨r, hr, heq⟩ := hvms u r' hr'
    simp only [heq, hepoch, hx, update_exit_call]
    exact h.state u r proc hr (hrun ▸ hproc)

/-- An exit handler writes the state of its process. -/
theorem Stored.write_final {proc : Process} {final : Option VMState} (h : Stored w ph)
    (hkeyed : w.mem.Keyed) (hepoch : w'.epoch = w.epoch) (hmem : w'.mem = w.mem)
    (hvms : w'.store.vms = w.store.vms ∧ w.store.vms proc.uuid = none ∨
      ∃ r state now, state ≠ VMState.running ∧
        w'.store.vms = update w.store.vms proc.uuid (some (VMRow.withState r state now)))
    (hold : (ph (.exit p)).2.exit = .read proc final) (hp : proc.pid = p)
    (hrun : w.mem.running proc.uuid = some proc) (hnew : l.2.exit = .wrote proc) :
    Stored w' (update ph (.exit p) l) := by
  have hrow : ∀ v, v ≠ proc.uuid → w'.store.vms v = w.store.vms v := by
    intro v hv
    rcases hvms with ⟨hvms, -⟩ | ⟨_, _, _, -, hvms⟩
    · rw [hvms]
    · rw [hvms, update_of_ne hv]
  have hne : ∀ r', w'.store.vms proc.uuid = some r' → r'.state ≠ .running := by
    intro r' hr'
    rcases hvms with ⟨hvms, hnone⟩ | ⟨_, _, _, hne, hvms⟩
    · rw [hvms, hnone] at hr'
      cases hr'
    · rw [hvms, update_self] at hr'
      cases hr'
      exact hne
  refine ⟨hmem ▸ h.final, ?_, ?_, ?_⟩
  · intro q proc' final' hq
    rw [update_exit_apply] at hq
    split at hq
    · rw [hnew] at hq
      cases hq
    · exact h.read q proc' final' hq
  · intro v r' hr' hst
    have hv : v ≠ proc.uuid := by
      rintro rfl
      exact hne r' hr' hst
    obtain ⟨q, hq, hwrote⟩ := h.registered v r' (hrow v hv ▸ hr') hst
    refine ⟨q, hmem ▸ hq, ?_⟩
    rw [update_exit_apply]
    split
    · rw [hnew]
      intro heq
      obtain rfl := ExitStage.wrote.inj heq
      exact hv (hkeyed.running v proc hq).symm
    · exact hwrote
  · intro v r' q hr' hq
    rw [hmem] at hq
    simp only [hepoch, update_exit_call, update_exit_apply]
    by_cases hv : v = proc.uuid
    · subst hv
      obtain rfl := Option.some.inj (hrun.symm.trans hq)
      exact Or.inr (Or.inl (by rw [if_pos hp]; exact hnew))
    · rw [hrow v hv] at hr'
      refine (h.state v r' q hr' hq).imp_right (Or.imp_left ?_)
      intro hwrote
      rw [if_neg]
      · exact hwrote
      · intro hqp
        rw [hqp, hold] at hwrote
        cases hwrote

/-- An exit handler deletes the entry of its process. -/
theorem Stored.delete {proc : Process} (h : Stored w ph) (hkeyed : w.mem.Keyed)
    (hepoch : w'.epoch = w.epoch) (hstore : w'.store = w.store)
    (hfin : w'.mem.finalState = w.mem.finalState)
    (hrun' : w'.mem.running = update w.mem.running proc.uuid none)
    (hold : (ph (.exit p)).2.exit = .wrote proc) (hp : proc.pid = p)
    (hrun : w.mem.running proc.uuid = some proc) (hnew : l.2.exit = .done) :
    Stored w' (update ph (.exit p) l) := by
  refine ⟨hfin ▸ h.final, ?_, ?_, ?_⟩
  · intro q proc' final' hq
    rw [update_exit_apply] at hq
    split at hq
    · rw [hnew] at hq
      cases hq
    · exact h.read q proc' final' hq
  · intro v r hr hst
    obtain ⟨q, hq, hwrote⟩ := h.registered v r (hstore ▸ hr) hst
    have hv : v ≠ proc.uuid := by
      rintro rfl
      obtain rfl := Option.some.inj (hrun.symm.trans hq)
      rw [hp] at hwrote
      exact hwrote hold
    refine ⟨q, by rw [hrun', update_of_ne hv]; exact hq, ?_⟩
    rw [update_exit_apply]
    split
    · rw [hnew]
      simp
    · exact hwrote
  · intro v r q hr hq
    rw [hstore] at hr
    simp only [hepoch, update_exit_call, update_exit_apply]
    have hv : v ≠ proc.uuid := by
      rintro rfl
      rw [hrun', update_self] at hq
      cases hq
    rw [hrun', update_of_ne hv] at hq
    refine (h.state v r q hr hq).imp_right (Or.imp_left ?_)
    intro hwrote
    rw [if_neg]
    · exact hwrote
    · intro hqp
      rw [hqp, hold] at hwrote
      obtain rfl := ExitStage.wrote.inj hwrote
      exact hv (hkeyed.running v proc hq).symm

/-- A call writes a state. -/
theorem stored_setVMState {c : Ctx} {u : Uuid} {state : VMState} {o : Outcome}
    {b : Except Err Unit} {s : Store} (h : Stored w ph) (hkeyed : w.mem.Keyed)
    (hrel : storeReliable w (.call w.epoch n) (.store (.setVMState c u state)) o = true)
    (hwrite : writeInOrder w ph (.call w.epoch n) (.store (.setVMState c u state)) o = true)
    (hok : lifeOkStore (ph (.call w.epoch n)) (.setVMState c u state) b)
    (hexit : (ph (.call w.epoch n)).2.exit = .waiting)
    (hs : execStore w (.call w.epoch n) o (.setVMState c u state) = some (b, s))
    (hl : l.2 = lifeNextStore (ph (.call w.epoch n)).2 (.setVMState c u state) b) :
    Stored { w with store := s } (update ph (.call w.epoch n) l) := by
  simp only [lifeOkStore, hexit] at hok
  simp only [writeInOrder] at hwrite
  by_cases hst : state = .running
  · subst hst
    rw [if_pos rfl, Bool.and_eq_true, Bool.not_eq_true', Option.any_eq_true] at hwrite
    obtain ⟨hlive, q, hq, hwrote⟩ := hwrite
    replace hwrote := of_decide_eq_true hwrote
    obtain ⟨-, proc, hold, hu⟩ := hok.1 rfl
    have ho : o = .ok := by
      cases o <;> simp_all [storeReliable, Outcome.isOk, StoreEff.ctx]
    subst ho
    rcases commit_ok hs with ⟨_, hx, -⟩ | ⟨e, hx, rfl, -⟩
    · obtain ⟨r, -, rfl⟩ := Store.updateVM_ok hx
      exact h.write_running hkeyed rfl rfl rfl hq hwrote hold hu
    · have hnone := Store.updateVM_error hx
      refine h.call hkeyed rfl (.refl _) rfl h.final fun proc' hp => Or.inr (Or.inr ?_)
      obtain rfl := Progress.registered.inj (hold.symm.trans hp)
      rw [hu]
      exact hnone
  · rw [if_neg hst, Option.isNone_iff_eq_none] at hwrite
    have hreg : ∀ proc, (ph (.call w.epoch n)).2.progress = .registered proc →
        l.2.progress = .registered proc := by
      intro proc hp
      simp [hl, lifeNextStore, hp, hst]
    rcases commit_state hs with rfl | ⟨_, hx⟩
    · exact h.call hkeyed rfl (.refl _) rfl h.final fun proc hp => Or.inl (hreg proc hp)
    · obtain ⟨r, -, rfl⟩ := Store.updateVM_ok hx
      exact h.write_other rfl rfl hst rfl hwrite hreg

/-- A step of a call that starts or stops a VM. -/
theorem stored_call {o : Outcome} {β : Type} {e : Eff β} {b : β} (h : Stored w ph)
    (hR : Registry w ph) (hkeyed : w.mem.Keyed) (hk : RunKind e.kind)
    (hrel : storeReliable w (.call w.epoch n) e o = true)
    (hwrite : writeInOrder w ph (.call w.epoch n) e o = true)
    (hok : life.ok (ph (.call w.epoch n)) e b)
    (hexit : (ph (.call w.epoch n)).2.exit = .waiting)
    (he : exec (.call w.epoch n) w e o = some (b, w')) :
    Stored w' (update ph (.call w.epoch n) (life.next (ph (.call w.epoch n)) e b)) := by
  cases e with
  | store e =>
    obtain ⟨s, hs, rfl⟩ := exec_store he
    cases e with
    | setVMState c u state => exact stored_setVMState h hkeyed hrel hwrite hok hexit hs rfl
    | getVM c u =>
      obtain ⟨rfl, hb⟩ := reply_eq hs
      refine h.call hkeyed rfl (.refl _) rfl h.final fun proc hp => ?_
      refine (lifeNextStore_getVM hp).imp_right ?_
      rintro ⟨rfl, ⟨x, rfl⟩, rfl⟩
      obtain rfl := Outcome.eq_ok ((Bool.or_false _).symm.trans hrel)
      have hx : w.store.getVM proc.uuid = .error x := by
        simpa [execStore, reply, World.done] using hs
      exact Or.inr (Store.vms_of_getVM_error hx)
    | setVMArchivedDiskPath c u path =>
      refine h.call hkeyed rfl ?_ rfl h.final fun proc hp => Or.inl hp
      rcases commit_state hs with rfl | ⟨_, hx⟩
      · exact .refl _
      · obtain ⟨r, hr, rfl⟩ := Store.updateVM_ok hx
        exact .of_update hr rfl
    | insertVM c params => exact absurd rfl hk.2.2.1
    | insertSnapshot c snap | deleteSnapshot c name => exact absurd rfl hk.2.2.2.2.1
    | insertRoute c name u port | deleteRoute c name => exact absurd rfl hk.2.2.2.2.2.2.1
    | updateSettings c u settings => exact absurd rfl hk.2.2.2.2.2.2.2
    | deleteVM c u | deleteRoutesForVM c u => exact absurd rfl hk.2.2.2.1
    | _ =>
      obtain ⟨rfl, -⟩ := reply_eq hs
      exact h.call hkeyed rfl (.refl _) rfl h.final fun proc hp => Or.inl hp
  | host e =>
    obtain ⟨hst, hh, rfl⟩ := exec_host he
    refine h.call hkeyed rfl (.refl _) rfl h.final fun proc hp => Or.inl ?_
    cases e with
    | linkAdd tap u =>
      have hold : (ph (.call w.epoch n)).2.progress = .idle := hok.2
      rw [hold] at hp
      cases hp
    | cmdStart l =>
      have hold : (ph (.call w.epoch n)).2.progress = .linked := hok.2
      rw [hold] at hp
      cases hp
    | _ => exact hp
  | mem e =>
    obtain ⟨m, hm, rfl⟩ := exec_mem he
    cases e with
    | setRunning proc =>
      obtain ⟨-, rfl⟩ := section_eq hm
      exact h.register hR rfl rfl rfl rfl hok.2 hok.1 rfl
    | deleteRunning u => exact absurd rfl hk.2.1
    | cmdWait p | getFinalState p => exact absurd rfl hk.1
    | setFinalState p state =>
      obtain ⟨hrun, hfin⟩ := execMem_setFinalState hm hok.1 h.final
      exact h.call hkeyed rfl (.refl _) hrun hfin fun proc hp => Or.inl hp
    | getRunning u =>
      obtain ⟨rfl, rfl⟩ := section_eq hm
      refine h.call hkeyed rfl (.refl _) rfl h.final fun proc hp => ?_
      cases hrun : w.mem.running u with
      | none =>
        refine (Progress.unseen_registered hp u).imp_right ?_
        rintro rfl
        exact Or.inl hrun
      | some q => exact Or.inl hp
    | stillRunning q =>
      obtain ⟨rfl, rfl⟩ := section_eq hm
      refine h.call hkeyed rfl (.refl _) rfl h.final fun proc hp => ?_
      cases hrun : w.mem.running q.uuid with
      | none =>
        refine (Progress.unseen_registered hp q.uuid).imp_right ?_
        intro hu
        exact Or.inl (hu ▸ hrun)
      | some q' => exact Or.inl hp
    | endVMOperation u =>
      obtain ⟨-, rfl⟩ := section_eq hm
      exact h.call hkeyed rfl (.refl _) rfl h.final fun proc hp => absurd hp (hok.2 proc)
    | _ =>
      refine h.call hkeyed rfl (.refl _) (execMem_sameRunning hm (by simp [MemEff.kind])
        (by simp [MemEff.kind])).1 (execMem_final hm (by simp [MemEff.kind]) h.final)
        fun proc hp => Or.inl hp

/-- A step of an exit handler. -/
theorem stored_exit {o : Outcome} {β : Type} {e : Eff β} {b : β} (h : Stored w ph)
    (hR : Registry w ph) (hkeyed : w.mem.Keyed) (hk : ExitKind e.kind)
    (hrel : storeReliable w (.exit p) e o = true)
    (hwait : (ph (.exit p)).2.exit = .waiting → e.kind = .exit)
    (hok : life.ok (ph (.exit p)) e b) (he : exec (.exit p) w e o = some (b, w')) :
    Stored w' (update ph (.exit p) (life.next (ph (.exit p)) e b)) := by
  have hcur := exec_current he
  -- A step that leaves the handler where it is.
  have hstay : ∀ {l : LockPhase × LifePhase}, w'.epoch = w.epoch → w.store.SameStates w'.store →
      w'.mem = w.mem → l.2.exit = (ph (.exit p)).2.exit → Stored w' (update ph (.exit p) l) := by
    intro l hepoch hvms hmem hl
    refine h.exit hepoch hvms (by rw [hmem]) (hmem ▸ h.final) ?_ fun proc => by rw [hl]
    intro proc final hr
    exact h.read p proc final (hl ▸ hr)
  cases e with
  | store e =>
    obtain ⟨s, hs, rfl⟩ := exec_store he
    cases e with
    | setVMState c u state =>
      cases hstage : (ph (.exit p)).2.exit with
      | waiting =>
        have hkind := hwait hstage
        cases state <;> simp [Eff.kind, StoreEff.kind] at hkind
      | read proc final =>
        obtain ⟨hw, hrun, -⟩ := hR.at_work hcur (by rw [hstage]; rfl)
        obtain ⟨rfl, rfl, rfl⟩ : c = .background ∧ u = proc.uuid ∧ state = final.getD .stopped := by
          simpa only [life, Monitor.above, lifeOkStore, hstage] using hok
        obtain rfl := Outcome.eq_ok ((Bool.or_false _).symm.trans hrel)
        have hne : final.getD .stopped ≠ VMState.running := by
          have hfinal := h.read p proc final hstage
          cases final with
          | none => simp
          | some state => simpa using hfinal
        simp only [execStore] at hs
        refine h.write_final hkeyed rfl rfl ?_ hstage (hkeyed.watched p proc hw) hrun ?_
        · rcases commit_ok hs with ⟨_, hx, -⟩ | ⟨x, hx, rfl, -⟩
          · obtain ⟨r, -, rfl⟩ := Store.updateVM_ok hx
            exact Or.inr ⟨r, _, w.clock, hne, rfl⟩
          · exact Or.inl ⟨rfl, Store.updateVM_error hx⟩
        · simp [life, Monitor.above, lifeNextStore, hstage]
      | _ => simp [life, Monitor.above, lifeOkStore, hstage] at hok
    | setVMArchivedDiskPath c u path =>
      refine hstay rfl ?_ rfl rfl
      rcases commit_state hs with rfl | ⟨_, hx⟩
      · exact .refl _
      · obtain ⟨r, hr, rfl⟩ := Store.updateVM_ok hx
        exact .of_update hr rfl
    | _ => simp [ExitKind, Eff.kind, StoreEff.kind] at hk
  | host e =>
    obtain ⟨hst, hh, rfl⟩ := exec_host he
    cases e with
    | linkAdd tap u | cmdStart l => simp [ExitKind, Eff.kind, HostEff.kind] at hk
    | _ => exact hstay rfl (.refl _) rfl rfl
  | mem e =>
    obtain ⟨m, hm, rfl⟩ := exec_mem he
    cases e with
    | cmdWait q =>
      have hold : (ph (.exit p)).2.exit = .waiting := hok
      refine h.exit rfl (.refl _) (execMem_sameRunning hm (by simp [MemEff.kind])
        (by simp [MemEff.kind])).1 (execMem_final hm (by simp [MemEff.kind]) h.final) ?_ ?_
      · exact fun _ _ hr => by cases hr
      · intro proc
        rw [hold]
        exact ⟨fun hx => (by cases hx), fun hx => (by cases hx)⟩
    | getFinalState q =>
      obtain ⟨proc, hold, rfl⟩ := hok
      obtain ⟨rfl, rfl⟩ := section_eq hm
      refine h.exit rfl (.refl _) rfl h.final ?_ ?_
      · intro proc' final hr
        simp only [life, Monitor.above, lifeNextMem, hold, ExitStage.read.injEq] at hr
        obtain ⟨-, rfl⟩ := hr
        exact h.final proc.pid
      · intro proc'
        simp [life, Monitor.above, lifeNextMem, hold]
    | deleteRunning u =>
      obtain ⟨proc, hold, rfl⟩ := hok
      obtain ⟨hw, hrun, -⟩ := hR.at_work hcur (by rw [hold]; rfl)
      obtain ⟨-, rfl⟩ := section_eq hm
      exact h.delete hkeyed rfl rfl rfl rfl hold (hkeyed.watched p proc hw) hrun rfl
    | setFinalState q state =>
      obtain ⟨hrun, hfin⟩ := execMem_setFinalState hm hok.1 h.final
      exact h.exit rfl (.refl _) hrun hfin (h.read p) fun _ => Iff.rfl
    | _ => simp [ExitKind, Eff.kind, MemEff.kind] at hk

theorem stored_env {v : EnvEvent} (h : Stored w ph) (hv : execEnv w v = some w')
    (hne : v ≠ .crash) : Stored w' ph := by
  obtain ⟨-, hmem, hepoch⟩ := (execEnv_mem hv).resolve_left fun hc => hne hc.1
  have hstore := execEnv_store hv
  refine ⟨?_, h.read, ?_, ?_⟩
  · rw [hmem]
    exact h.final
  · rw [hmem, hstore]
    exact h.registered
  · rw [hmem, hstore, hepoch]
    exact h.state

end Step

/-! ## The VM of a call -/

/-- A call of `StartVM`, `StopVM`, `SleepVM` or `RebootVM` for `v` begins
operations on `v` only. -/
def Enters (v : Uuid) : {β : Type} → Eff β → Prop
  | _, .mem (.enterVM u) => u = v
  | _, .mem (.enterStart u) => u = v
  | _, .mem (.enterArchive u) => u = v
  | _, _ => True

section Reach

variable {cfg : Config} {calls : Calls} {w : World} {s : MState} {K : MState → MLabel → Prop}
  {u v : Uuid} {epoch n : Nat} {op : Op}

theorem enters_of_ne {β : Type} (e : Eff β) (hk : e.kind ≠ .lock) : Enters v e := by
  cases e with
  | store e | host e => trivial
  | mem e =>
    cases e with
    | enterVM u | enterStart u | enterArchive u => exact absurd rfl hk
    | _ => trivial

theorem enters_of_uses {α : Type} {p : Prog Eff α} (h : Uses (· ≠ .lock) p) : p.All (Enters v) :=
  All.mono h enters_of_ne

theorem enters_startVM : (startVM cfg v).run.All (Enters v) := by
  unfold startVM beginStartOperationCancelingColdArchive cancelingColdArchive
  refine all_run_bind (all_forever (all_run_bind (all_call trivial) fun _ =>
    all_run_bind (all_sect rfl) fun r => ?_)) fun _ => all_deferred ?_ ⟨trivial, fun _ => trivial⟩
  · cases r with
    | entered => exact all_run_pure _
    | busy => exact all_run_throw _
    | archiving a => exact all_run_bind (all_call trivial) fun _ => all_run_pure _
  · exact enters_of_uses (uses_startLocked.mono fun _ hk => hk.2)

theorem enters_rebootVM : (rebootVM cfg v).run.All (Enters v) := by
  unfold rebootVM
  refine all_run_bind (all_call trivial) fun vm => all_run_bind (all_sect trivial) fun r => ?_
  cases r with
  | some proc | none => exact all_run_bind (enters_of_uses (by grind)) fun _ => enters_startVM

theorem enters_threads (hop : calls epoch n = some op) (hv : op.runs = some v) :
    (threads cfg calls (.call epoch n)).All (Enters v) := by
  have hfinish : ∀ {α : Type} {x : Go α}, x.run.All (Enters v) → (finish x).All (Enters v) :=
    fun hx => all_bind hx fun _ => trivial
  simp only [threads, hop]
  cases op <;> simp only [Op.runs, Option.some.injEq, reduceCtorEq] at hv <;> subst hv
  · exact hfinish enters_startVM
  · exact hfinish (enters_of_uses (by grind))
  · exact hfinish (enters_of_uses (by grind))
  · exact hfinish enters_rebootVM

theorem runKind_threads (hcalls : calls.Run) :
    Uses RunKind (threads cfg calls (.call epoch n)) := by
  have hfinish : ∀ {α : Type} {x : Go α}, Uses RunKind x.run → Uses RunKind (finish x) :=
    fun hx => uses_bind hx fun _ => trivial
  simp only [threads]
  split
  · trivial
  · rename_i op hop
    have hrun := hcalls epoch n op hop
    cases op <;> simp only [Op.runs, Option.isSome_none, Bool.false_eq_true] at hrun
    · exact hfinish uses_startVM
    · exact hfinish (by grind)
    · exact hfinish (by grind)
    · exact hfinish uses_rebootVM

/-- A call holds entries of its own VM only. -/
theorem owner_reach (hop : calls epoch n = some op) (hv : op.runs = some v)
    (h : system.Reach K (start cfg calls w) s)
    (hu : (lock.phases s (.call epoch n)).owner = some u) : u = v := by
  have hJ := phase_reach (M := lock) (J := fun l => ∀ u, l.owner = some u → u = v)
    (P := Enters v) (fun _ hu => by cases hu) (enters_threads hop hv) ?_ h
  · exact hJ u hu
  · intro β l e b hl he u hu
    cases e with
    | store e | host e => exact hl u hu
    | mem e =>
      cases e with
      | enterVM x | enterStart x =>
        simp only [lock, lockNextMem] at hu
        split at hu
        · exact (Option.some.inj hu).symm.trans he
        · exact hl u hu
      | enterArchive x =>
        cases b with
        | none => exact hl u hu
        | some a => exact (Option.some.inj hu).symm.trans he
      | endVMOperation x | endArchive x a => cases hu
      | getRunning x => cases l <;> exact hl u hu
      | _ => exact hl u hu

/-! ## Every run -/

/-- In every run that writes its states in order, the `state` column agrees
with `running`. -/
theorem stored_reach (hcalls : calls.Run) (hw : w.Booted)
    (hst : ∀ u r, w.store.vms u = some r → r.state ≠ .running)
    (h : system.Reach (fun s l => writesInOrder s l = true) (start cfg calls w) s) :
    Stored s.world (life.phases s) := by
  have hinit : Stored w fun _ => life.start := by
    refine ⟨?_, ?_, fun u r hr hrun => absurd hrun (hst u r hr), ?_⟩
    all_goals simp [hw.mem, Mem.fresh, life, Monitor.above]
  refine Monitor.invariant (A := Answers) (answers_reach hw.mem) (life_threads cfg calls) hinit
    ?_ ?_ h
  · intro s t o β e k b w' hr ih hK hp he _ hok
    obtain ⟨hrel, hwrite⟩ := (Bool.and_eq_true _ _).mp hK
    have hrel := State.next_act ((Bool.and_eq_true _ _).mp hrel).1 hp
    have hwrite := State.next_act hwrite hp
    have hkeyed := keyed_reach hw.mem hr
    have hR := registry_reach hw hr
    cases t with
    | exit p =>
      have hkind := exitKind_reach hr p
      rw [hp] at hkind
      refine stored_exit ih hR hkeyed hkind.1 hrel ?_ hok he
      intro hwait
      have hprog := exit_prog_of_waiting hr hwait
      rw [hp] at hprog
      cases hprog
      rfl
    | call epoch n =>
      obtain rfl := epoch_of_current (exec_current he)
      have hkind : Uses RunKind (s.prog (.call s.world.epoch n)) := hr.all (runKind_threads hcalls)
      rw [hp] at hkind
      exact stored_call ih hR hkeyed hkind.1 hrel hwrite hok
        (call_exit_waiting hr s.world.epoch n) he
  · intro s v w' _ ih hK hv
    refine stored_env ih hv ?_
    obtain ⟨hrel, -⟩ := (Bool.and_eq_true _ _).mp hK
    exact of_decide_eq_true ((Bool.and_eq_true _ _).mp hrel).2

/-- A start whose process is registered is in progress. -/
theorem inProgress_of_registered {proc : Process} (hw : w.mem = .fresh)
    (h : system.Reach K (start cfg calls w) s)
    (hreg : (life.phases s (.call epoch n)).2.progress = .registered proc) :
    s.InProgress (.call epoch n) := by
  constructor
  · intro hhist
    simp [Monitor.phases, hhist, Monitor.phase, life, Monitor.above] at hreg
  · cases hp : s.prog (.call epoch n) with
    | ret r =>
      have hend := finished_reach (M := life) (A := Answers) (answers_reach hw)
        (life_threads cfg calls _) h (t := .call epoch n) (r := r)
        (by simp [State.Finished, hp, Prog.result])
      rw [hend.1] at hreg
      cases hreg
    | act e k | loop body k => rfl

/-- In every run of `StartVM`, `StopVM`, `SleepVM` and `RebootVM` that writes
its states in order, and in every state of it that is quiet for a VM, the VM
is stored as running if and only if a process is registered for it. -/
theorem running_iff_registered {r : VMRow} (hcalls : calls.Run) (hw : w.Booted)
    (hst : ∀ u r, w.store.vms u = some r → r.state ≠ .running)
    (h : system.Reach (fun s l => writesInOrder s l = true) (start cfg calls w) s)
    (hquiet : Quiet calls s u) (hr : s.world.store.vms u = some r) :
    r.state = .running ↔ ∃ proc, s.world.mem.running u = some proc := by
  have hstored := stored_reach hcalls hw hst h
  have hR := registry_reach hw h
  constructor
  · intro hrun
    obtain ⟨proc, hproc, -⟩ := hstored.registered u r hr hrun
    exact ⟨proc, hproc⟩
  · rintro ⟨proc, hproc⟩
    obtain rfl := (keyed_reach hw.mem h).running u proc hproc
    rcases hstored.state _ r proc hr hproc with hrun | hwrote | ⟨n, hn⟩
    · exact hrun
    · -- The exit handler has not deleted the entry yet, so it has not come to its end.
      obtain ⟨hwatched, hdone⟩ := hR.running _ proc hproc
      obtain ⟨o, ho, -⟩ := hR.watched _ proc hwatched
      have hdead := hR.awake _ proc o hwatched (by rw [hwrote]; simp) ho
      obtain ⟨res, hfin⟩ := hquiet.2 _ proc o hwatched rfl ho hdead
      have hend := finished_reach (M := life) (A := Answers) (answers_reach hw.mem)
        (life_threads cfg calls _) h hfin
      exact absurd hend.2 hdone
    · -- The start that registered the process has not come to its end.
      have hlock := (hR.registered n proc hn).1
      have hprogress := inProgress_of_registered hw.mem h hn
      obtain ⟨op, hop⟩ := call_of_phase h (n := n) fun hstart => by
        rw [hstart] at hn
        cases hn
      obtain ⟨v, hv⟩ := Option.isSome_iff_exists.mp (hcalls _ n op hop)
      rw [life_phases_fst] at hlock
      obtain rfl := owner_reach hop hv h (u := proc.uuid) (by rw [hlock]; rfl)
      exact absurd hprogress (hquiet.1 n op hop hv)

/-- A state is quiet when the calls have returned and all processes live. -/
theorem quiet_of_alive (hw : w.Booted) (h : system.Reach K (start cfg calls w) s)
    (hret : ∀ n op, calls s.world.epoch n = some op →
      (s.prog (.call s.world.epoch n)).isRet = true)
    (halive : ∀ p, p < s.world.host.nextPid → ((s.world.host.os p).any (·.alive)) = true) :
    Quiet calls s u := by
  have hR := registry_reach hw h
  refine ⟨fun n op hop _ hprogress => ?_, fun p proc o _ _ ho hdead => ?_⟩
  · exact absurd (hret n op hop) (by rw [hprogress.2]; simp)
  · have hp := halive p (hR.pids p o ho).1
    rw [ho, Option.any_some, hdead] at hp
    cases hp

end Reach

/-- A VM with a disk that is stopped, and one call that starts it. -/
def Calls.oneStart : Calls := .ofList [.startVM 0]

/-- The host of that VM. -/
def World.oneVM : World := .sample [.sample "a" 3] [(Config.sample.diskPath "a", .image .base)]

theorem oneStart_run : Calls.oneStart.Run := ofList_run (by decide)

/-- The start has launched a process. -/
theorem one_process_per_vm_started :
    ∃ s, system.Reach (fun _ _ => true = true) (start .sample .oneStart .oneVM) s ∧
      s.world.lives 0 0 = true ∧ ∀ q, s.world.lives 0 q = true → q = 0 := by
  obtain ⟨s, hs, hP⟩ := system.exists_reach
    (s := start .sample .oneStart .oneVM) (l := steps (.call 0 0) 23)
    (P := fun s => s.world.lives 0 0) (by decide)
  have hreach := hs.mono (J := fun _ _ => true = true) fun _ _ _ => rfl
  exact ⟨s, hreach, hP, (one_process_per_vm (World.booted_sample _ _) hreach hP).1⟩

/-- The start has come to its end, and its process lives. -/
def startEnded (s : MState) : Bool :=
  (s.prog (.call 0 0)).isRet && decide (s.world.epoch = 0) && decide (s.world.host.nextPid = 1) &&
    (s.world.host.os 0).any (·.alive) && (s.world.mem.running 0).isSome

theorem quiet_of_startEnded {s : MState} {K : MState → MLabel → Prop}
    (h : system.Reach K (start .sample .oneStart .oneVM) s) (hend : startEnded s = true) :
    Quiet .oneStart s 0 := by
  simp only [startEnded, Bool.and_eq_true, decide_eq_true_eq] at hend
  obtain ⟨⟨⟨⟨hret, hepoch⟩, hnext⟩, halive⟩, -⟩ := hend
  refine quiet_of_alive (World.booted_sample _ _) h ?_ ?_
  · intro n op hop
    cases n with
    | zero => rw [hepoch]; exact hret
    | succ n => simp [Calls.oneStart, Calls.ofList] at hop
  · intro p hp
    rw [hnext] at hp
    obtain rfl : p = 0 := Nat.lt_one_iff.mp hp
    exact halive

/-- The request of a start is cancelled when its process listens already.
The start returns an error, the VM is stored as stopped, and the process
goes on and stays registered. -/
theorem canceled_start_leaves_process :
    ∃ s r, system.Reach (fun s l => reliable s l = true) (start .sample .oneStart .oneVM) s ∧
      Quiet .oneStart s 0 ∧ s.world.store.vms 0 = some r ∧
      ¬ (r.state = .running ↔ ∃ proc, s.world.mem.running 0 = some proc) := by
  obtain ⟨s, hs, hP⟩ := system.exists_reach_of_run (k := reliable)
    (s := start .sample .oneStart .oneVM)
    (l := steps (.call 0 0) 23 ++ .env (.bind 0) :: steps (.call 0 0) 1 ++
      .env (.cancel (.call 0 0)) :: .thread (.call 0 0) .fail :: steps (.call 0 0) 1)
    (P := fun s => startEnded s &&
      (s.world.store.vms 0).any fun (r : VMRow) => decide (r.state = .stopped))
    (by decide) (by decide)
  obtain ⟨hend, hrow⟩ := (Bool.and_eq_true _ _).mp hP
  obtain ⟨r, hr, hst⟩ := (Option.any_eq_true _ _).mp hrow
  refine ⟨s, r, hs, quiet_of_startEnded hs hend, hr, fun hiff => ?_⟩
  have hproc := ((Bool.and_eq_true _ _).mp hend).2
  have hrun := hiff.mpr (Option.isSome_iff_exists.mp hproc)
  rw [of_decide_eq_true hst] at hrun
  cases hrun

/-- A start that is not cancelled. -/
theorem running_iff_registered_started :
    ∃ s r, system.Reach (fun s l => writesInOrder s l = true) (start .sample .oneStart .oneVM) s ∧
      Quiet .oneStart s 0 ∧ s.world.store.vms 0 = some r ∧ r.state = .running ∧
      ∃ proc, s.world.mem.running 0 = some proc := by
  obtain ⟨s, hs, hP⟩ := system.exists_reach_of_run (k := writesInOrder)
    (s := start .sample .oneStart .oneVM)
    (l := steps (.call 0 0) 23 ++ .env (.bind 0) :: steps (.call 0 0) 4)
    (P := fun s => startEnded s && (s.world.store.vms 0).isSome)
    (by decide) (by decide)
  obtain ⟨hend, hrow⟩ := (Bool.and_eq_true _ _).mp hP
  obtain ⟨r, hr⟩ := Option.isSome_iff_exists.mp hrow
  have hquiet := quiet_of_startEnded hs hend
  have hproc := Option.isSome_iff_exists.mp ((Bool.and_eq_true _ _).mp hend).2
  have hstopped : ∀ u r, World.oneVM.store.vms u = some r → r.state ≠ .running := by
    intro u r hr
    obtain rfl : VMRow.sample "a" 3 = r := by
      cases u with
      | zero => simpa [World.oneVM, World.sample] using hr
      | succ u => simp [World.oneVM, World.sample] at hr
    simp [VMRow.sample]
  have hiff := running_iff_registered oneStart_run (World.booted_sample _ _) hstopped hs hquiet hr
  exact ⟨s, r, hs, hquiet, hr, hiff.mpr hproc, hproc⟩

end Firedoze
