import Firedoze.Manager.StoredState

/-!
# Cleaning up after a process
-/

namespace Firedoze

open Conc Conc.Prog Function

/-- The stop has not seen yet that its process is gone. -/
def StopStage.isFound : StopStage → Bool
  | .idle => false
  | .found _ _ => true
  | .seen _ _ => false

/-! ## The invariant -/

/-- While a call has found the process of a VM and has not come to its end,
no start of the VM is on its way to another process. -/
structure Stops (w : World) (ph : Tid → LockPhase × LifePhase) (live : Tid → Bool) : Prop where
  alone : ∀ n proc, live (.call w.epoch n) = true →
    (ph (.call w.epoch n)).2.stop.proc = some proc →
    ∀ k, (ph (.call w.epoch k)).1 = .start proc.uuid →
      (ph (.call w.epoch k)).2.progress.early = false
  other : ∀ n proc, live (.call w.epoch n) = true →
    (ph (.call w.epoch n)).2.stop.proc = some proc →
    ∀ q, w.mem.running proc.uuid = some q →
      q = proc ∧ (ph (.call w.epoch n)).2.stop.isFound = true
  later : ∀ epoch n, w.epoch < epoch → (ph (.call epoch n)).2.stop = .idle

/-- A call that has found the process of the VM has not come to its end. -/
def Outstanding (w : World) (ph : Tid → LockPhase × LifePhase) (live : Tid → Bool) (u : Uuid) :
    Prop :=
  ∃ n proc, live (.call w.epoch n) = true ∧ (ph (.call w.epoch n)).2.stop.proc = some proc ∧
    proc.uuid = u

/-- A start takes its entry only when no stop of its VM is outstanding. -/
def BeginsAlone (w : World) (ph : Tid → LockPhase × LifePhase) (live : Tid → Bool) :
    {β : Type} → Eff β → Prop
  | _, .mem (.enterStart u) => w.mem.grants u = true → ¬ Outstanding w ph live u
  | _, _ => True

/-- The condition on a step: a start begins alone. -/
def StartsAlone (s : MState) (l : MLabel) : Prop :=
  s.Next (fun _ e _ => BeginsAlone s.world (life.phases s) s.live e) l

section Step

variable {w w' : World} {ph : Tid → LockPhase × LifePhase} {live : Tid → Bool} {n : Nat}
  {l : LockPhase × LifePhase}

theorem Stops.mono {live' : Tid → Bool} (hlive : ∀ t, live' t = true → live t = true)
    (h : Stops w ph live) : Stops w ph live' :=
  ⟨fun n proc hn => h.alone n proc (hlive _ hn), fun n proc hn => h.other n proc (hlive _ hn),
    h.later⟩

/-- A step of a call that begins no start and registers no process. -/
theorem Stops.call (h : Stops w ph live) (hepoch : w'.epoch = w.epoch)
    (hrun : ∀ u q, w'.mem.running u = some q → w.mem.running u = some q)
    (hearly : ∀ u, l.1 = .start u → l.2.progress.early = true →
      (ph (.call w.epoch n)).1 = .start u ∧ (ph (.call w.epoch n)).2.progress.early = true)
    (hstop : ∀ proc, l.2.stop.proc = some proc →
      (ph (.call w.epoch n)).2.stop.proc = some proc ∧
        ((ph (.call w.epoch n)).2.stop.isFound = true → l.2.stop.isFound = true) ∨
      (∀ k, (ph (.call w.epoch k)).1 = .start proc.uuid →
        (ph (.call w.epoch k)).2.progress.early = true → k = n ∧ l.2.progress.early = false) ∧
        ∀ q, w.mem.running proc.uuid = some q → q = proc ∧ l.2.stop.isFound = true) :
    Stops w' (update ph (.call w.epoch n) l) live := by
  obtain ⟨alone, other, later⟩ := h
  constructor
  case later =>
    intro epoch k hlt
    rw [update_call_later l (hepoch ▸ hlt)]
    exact later epoch k (hepoch ▸ hlt)
  all_goals simp only [hepoch, update_call_apply]
  · intro m proc hm hproc k hk
    by_contra hne
    replace hne := (Bool.not_eq_false _).mp hne
    have hold : (ph (.call w.epoch k)).1 = .start proc.uuid ∧
        (ph (.call w.epoch k)).2.progress.early = true := by
      split at hk
      · subst k
        rw [if_pos rfl] at hne
        exact hearly _ hk hne
      · rename_i hkn
        rw [if_neg hkn] at hne
        exact ⟨hk, hne⟩
    split at hproc
    · subst m
      rcases hstop proc hproc with ⟨hproc, -⟩ | ⟨hnew, -⟩
      · rw [alone n proc hm hproc k hold.1] at hold
        cases hold.2
      · obtain ⟨rfl, hl⟩ := hnew k hold.1 hold.2
        rw [if_pos rfl, hl] at hne
        cases hne
    · rw [alone m proc hm hproc k hold.1] at hold
      cases hold.2
  · intro m proc hm hproc q hq
    split at hproc
    · subst m
      rw [if_pos rfl]
      rcases hstop proc hproc with ⟨hproc, hfound⟩ | ⟨-, hnew⟩
      · obtain ⟨rfl, hf⟩ := other n proc hm hproc q (hrun _ q hq)
        exact ⟨rfl, hfound hf⟩
      · exact hnew q (hrun _ q hq)
    · rename_i hmn
      rw [if_neg hmn]
      exact other m proc hm hproc q (hrun _ q hq)

/-- A start registers its process. -/
theorem Stops.register {proc : Process} (h : Stops w ph live) (hepoch : w'.epoch = w.epoch)
    (hrun : w'.mem.running = update w.mem.running proc.uuid (some proc))
    (hlock : (ph (.call w.epoch n)).1 = .start proc.uuid)
    (hold : (ph (.call w.epoch n)).2.progress.early = true)
    (hnew : l.2.progress.early = false) (hstop : l.2.stop = (ph (.call w.epoch n)).2.stop) :
    Stops w' (update ph (.call w.epoch n) l) live := by
  obtain ⟨alone, other, later⟩ := h
  have hstops : ∀ m, (update ph (.call w.epoch n) l (.call w.epoch m)).2.stop =
      (ph (.call w.epoch m)).2.stop := by
    intro m
    rw [update_call_apply]
    split
    · subst m
      exact hstop
    · rfl
  -- The start was on its way, so no stop of its VM is outstanding.
  have hne : ∀ m p, live (.call w.epoch m) = true →
      (ph (.call w.epoch m)).2.stop.proc = some p → p.uuid ≠ proc.uuid := by
    intro m p hm hp hu
    rw [alone m p hm hp n (hu ▸ hlock)] at hold
    cases hold
  refine ⟨?_, ?_, ?_⟩
  · intro m p hm hp k hk
    rw [hepoch] at hm hp hk ⊢
    rw [hstops] at hp
    rw [update_call_apply] at hk ⊢
    split at hk
    · rename_i hkn
      rw [if_pos hkn]
      exact hnew
    · rename_i hkn
      rw [if_neg hkn]
      exact alone m p hm hp k hk
  · intro m p hm hp q hq
    rw [hepoch] at hm hp ⊢
    rw [hstops] at hp ⊢
    rw [hrun, update_of_ne (hne m p hm hp)] at hq
    exact other m p hm hp q hq
  · intro epoch k hlt
    rw [update_call_later l (hepoch ▸ hlt)]
    exact later epoch k (hepoch ▸ hlt)

/-- A start begins. -/
theorem Stops.begin {u : Uuid} (h : Stops w ph live) (hepoch : w'.epoch = w.epoch)
    (hrun : w'.mem.running = w.mem.running) (hnew : l.1 = .start u)
    (hstop : l.2.stop = (ph (.call w.epoch n)).2.stop) (halone : ¬ Outstanding w ph live u) :
    Stops w' (update ph (.call w.epoch n) l) live := by
  obtain ⟨alone, other, later⟩ := h
  have hstops : ∀ m, (update ph (.call w.epoch n) l (.call w.epoch m)).2.stop =
      (ph (.call w.epoch m)).2.stop := by
    intro m
    rw [update_call_apply]
    split
    · subst m
      exact hstop
    · rfl
  refine ⟨?_, ?_, ?_⟩
  · intro m p hm hp k hk
    rw [hepoch] at hm hp hk ⊢
    rw [hstops] at hp
    rw [update_call_apply] at hk ⊢
    split at hk
    · exact absurd ⟨m, p, hm, hp, (LockPhase.start.inj (hnew.symm.trans hk)).symm⟩ halone
    · rename_i hkn
      rw [if_neg hkn]
      exact alone m p hm hp k hk
  · intro m p hm hp q hq
    rw [hepoch] at hm hp ⊢
    rw [hstops] at hp ⊢
    exact other m p hm hp q (hrun ▸ hq)
  · intro epoch k hlt
    rw [update_call_later l (hepoch ▸ hlt)]
    exact later epoch k (hepoch ▸ hlt)

/-- A step of an exit handler. -/
theorem Stops.exit {p : Pid} (h : Stops w ph live) (hepoch : w'.epoch = w.epoch)
    (hrun : ∀ u q, w'.mem.running u = some q → w.mem.running u = some q) :
    Stops w' (update ph (.exit p) l) live := by
  obtain ⟨alone, other, later⟩ := h
  refine ⟨?_, ?_, ?_⟩
  all_goals simp only [hepoch, update_exit_call]
  · exact alone
  · exact fun n proc hn hp q hq => other n proc hn hp q (hrun _ q hq)
  · exact later

theorem stops_env {v : EnvEvent} (h : Stops w ph live) (hv : execEnv w v = some w') :
    Stops w' ph live := by
  rcases execEnv_mem hv with ⟨-, hmem, hepoch⟩ | ⟨-, hmem, hepoch⟩
  · have hidle : ∀ n, (ph (.call w'.epoch n)).2.stop.proc = none :=
      fun n => by rw [h.later _ n (by omega)]; rfl
    refine ⟨fun n proc _ hp => ?_, fun n proc _ hp => ?_, fun epoch n hlt => ?_⟩
    · rw [hidle] at hp
      cases hp
    · rw [hidle] at hp
      cases hp
    · exact h.later epoch n (by omega)
  · refine ⟨?_, ?_, ?_⟩
    · rw [hepoch]
      exact h.alone
    · rw [hepoch, hmem]
      exact h.other
    · rw [hepoch]
      exact h.later

theorem Progress.Past.early {g g' : Progress} (h : g.Past g') (hg : g'.early = true) :
    g.early = true := by
  rcases h with rfl | ⟨proc, rfl, rfl | rfl | rfl⟩
  · exact hg
  all_goals cases hg

/-- A step of a call on the store. -/
theorem stops_callStore {o : Outcome} {β : Type} {e : StoreEff β} {b : β} (h : Stops w ph live)
    (he : exec (.call w.epoch n) w (.store e) o = some (b, w')) :
    Stops w' (update ph (.call w.epoch n) (life.next (ph (.call w.epoch n)) (.store e) b))
      live := by
  obtain ⟨s, -, rfl⟩ := exec_store he
  refine h.call rfl (fun _ _ hq => hq)
    (fun u hu hg => ⟨hu, (past_lifeNextStore _ e b).early hg⟩) ?_
  cases e with
  | setVMState c u state => exact fun _ hp => by cases hp
  | getVM c u =>
    refine fun proc hp => Or.inl ?_
    have hsame : (lifeNextStore (ph (.call w.epoch n)).2 (.getVM c u) b).stop =
        (ph (.call w.epoch n)).2.stop := by
      simp only [lifeNextStore]
      split <;> rfl
    exact ⟨hsame ▸ hp, fun hf => hsame ▸ hf⟩
  | _ => exact fun proc hp => Or.inl ⟨hp, fun hf => hf⟩

/-- A step of a call on the host. -/
theorem stops_callHost {o : Outcome} {β : Type} {e : HostEff β} {b : β} (h : Stops w ph live)
    (hok : life.ok (ph (.call w.epoch n)) (.host e) b)
    (he : exec (.call w.epoch n) w (.host e) o = some (b, w')) :
    Stops w' (update ph (.call w.epoch n) (life.next (ph (.call w.epoch n)) (.host e) b)) live := by
  obtain ⟨hst, hh, rfl⟩ := exec_host he
  cases e with
  | linkAdd tap u =>
    have hold : (ph (.call w.epoch n)).2.progress = .idle := hok.2
    refine h.call rfl (fun _ _ hq => hq) (fun u hu _ => ⟨hu, by rw [hold]; rfl⟩) ?_
    cases b <;> exact fun proc hp => Or.inl ⟨hp, fun hf => hf⟩
  | cmdStart c =>
    have hold : (ph (.call w.epoch n)).2.progress = .linked := hok.2
    refine h.call rfl (fun _ _ hq => hq) (fun u hu _ => ⟨hu, by rw [hold]; rfl⟩) ?_
    cases b <;> exact fun proc hp => Or.inl ⟨hp, fun hf => hf⟩
  | fcCreateSnapshot c sock state mem =>
    refine h.call rfl (fun _ _ hq => hq) (fun u hu hg => ⟨hu, hg⟩) ?_
    obtain ⟨q, saved, hq, -⟩ := hok
    intro proc hp
    refine Or.inl ?_
    simp only [life, Monitor.above, lifeNextHost, hq] at hp ⊢
    split at hp <;> rename_i hb <;> simp_all [StopStage.save, StopStage.proc, StopStage.isFound]
  | _ =>
    exact h.call rfl (fun _ _ hq => hq) (fun u hu hg => ⟨hu, hg⟩)
      fun proc hp => Or.inl ⟨hp, fun hf => hf⟩

/-- A critical section of a call. -/
theorem stops_callMem {o : Outcome} {β : Type} {e : MemEff β} {b : β} (h : Stops w ph live)
    (hR : Registry w ph) (hkeyed : w.mem.Keyed) (hlive : live (.call w.epoch n) = true)
    (hsole : ∀ k k' u, (ph (.call w.epoch k)).1.owner = some u →
      (ph (.call w.epoch k')).1.owner = some u → k = k')
    (hk : CallKind e.kind) (hok : life.ok (ph (.call w.epoch n)) (.mem e) b)
    (hbegin : BeginsAlone w ph live (.mem e))
    (he : exec (.call w.epoch n) w (.mem e) o = some (b, w')) :
    Stops w' (update ph (.call w.epoch n) (life.next (ph (.call w.epoch n)) (.mem e) b)) live := by
  obtain ⟨m, hm, rfl⟩ := exec_mem he
  have hsame : e.kind ≠ .register → m.running = w.mem.running :=
    fun hr => (execMem_sameRunning hm hr hk.2).1
  have hquiet : e.kind ≠ .register → ∀ {l : LockPhase × LifePhase},
      (∀ u, l.1 = .start u → (ph (.call w.epoch n)).1 = .start u) →
      l.2.progress = (ph (.call w.epoch n)).2.progress →
      (∀ proc, l.2.stop.proc = some proc → (ph (.call w.epoch n)).2.stop.proc = some proc ∧
        ((ph (.call w.epoch n)).2.stop.isFound = true → l.2.stop.isFound = true)) →
      Stops { w with mem := m } (update ph (.call w.epoch n) l) live := by
    intro hr l hlock hg hstop
    refine h.call rfl (fun u q hq => hsame hr ▸ hq) ?_ fun proc hp => Or.inl (hstop proc hp)
    exact fun u hu he => ⟨hlock u hu, hg ▸ he⟩
  cases e with
  | enterStart u =>
    by_cases hb : b = .entered
    · subst hb
      exact h.begin rfl (hsame (by simp [MemEff.kind])) rfl rfl (hbegin (grants_of_entered hm))
    · refine hquiet (by simp [MemEff.kind]) (fun v hv => ?_) rfl fun _ hp => ⟨hp, fun hf => hf⟩
      simpa [life, Monitor.above, lock, lockNextMem, hb] using hv
  | enterVM u =>
    refine hquiet (by simp [MemEff.kind]) (fun v hv => ?_) rfl fun _ hp => ⟨hp, fun hf => hf⟩
    simp only [life, Monitor.above, lock, lockNextMem] at hv
    split at hv
    · cases hv
    · exact hv
  | enterArchive u =>
    refine hquiet (by simp [MemEff.kind]) (fun v hv => ?_) rfl fun _ hp => ⟨hp, fun hf => hf⟩
    cases b with
    | none => exact hv
    | some a => cases hv
  | endVMOperation u =>
    exact h.call rfl (fun v q hq => hsame (by simp [MemEff.kind]) ▸ hq) (fun v hv => by cases hv)
      fun proc hp => by cases hp
  | endArchive u a =>
    exact hquiet (by simp [MemEff.kind]) (fun v hv => by cases hv) rfl
      fun _ hp => ⟨hp, fun hf => hf⟩
  | getRunning u =>
    obtain ⟨rfl, rfl⟩ := section_eq hm
    have hlock : ∀ v, (lock.next (ph (.call w.epoch n)).1 (.mem (.getRunning u))
        (w.mem.running u)) = .start v → (ph (.call w.epoch n)).1 = .start v := by
      intro v hv
      simp only [lock, lockNextMem] at hv
      split at hv
      · cases hv
      · exact hv
    cases hrun : w.mem.running u with
    | none =>
      rw [hrun] at hlock
      refine h.call rfl (fun _ _ hq => hq) ?_ fun proc hp => by cases hp
      exact fun v hv hg => ⟨hlock v hv, (Progress.past_unseen _ u).early hg⟩
    | some q =>
      obtain rfl := hkeyed.running u q hrun
      rw [hrun] at hlock
      refine h.call rfl (fun _ _ hq => hq) (fun v hv hg => ⟨hlock v hv, hg⟩) ?_
      intro proc hp
      obtain rfl : q = proc := Option.some.inj hp
      refine Or.inr ⟨fun k hk hg => ?_, fun q' hq' => ⟨?_, rfl⟩⟩
      · rw [hR.early k _ hk hg] at hrun
        cases hrun
      · exact Option.some.inj (hq'.symm.trans hrun)
  | stillRunning q =>
    obtain ⟨rfl, rfl⟩ := section_eq hm
    cases hrun : w.mem.running q.uuid with
    | some q' =>
      exact h.call rfl (fun _ _ hq => hq) (fun v hv hg => ⟨hv, hg⟩)
        fun _ hp => Or.inl ⟨hp, fun hf => hf⟩
    | none =>
      refine h.call rfl (fun _ _ hq => hq)
        (fun v hv hg => ⟨hv, (Progress.past_unseen _ q.uuid).early hg⟩) ?_
      intro proc hp
      obtain rfl : q = proc := Option.some.inj hp
      refine Or.inr ⟨fun k hk hg => ?_, fun q' hq' => ?_⟩
      · rcases hok with ⟨saved, hfound⟩ | ⟨hlock, hreg⟩
        · rw [h.alone n q hlive (by rw [hfound]; rfl) k hk] at hg
          cases hg
        · refine ⟨hsole k n q.uuid (by rw [hk]; rfl) (by rw [hlock]; rfl), ?_⟩
          show ((ph (.call w.epoch n)).2.progress.unseen q.uuid).early = false
          rw [hreg]
          simp [Progress.unseen]
      · rw [hrun] at hq'
        cases hq'
  | setRunning proc =>
    obtain ⟨-, rfl⟩ := section_eq hm
    exact h.register rfl rfl hok.1 (by rw [hok.2]; rfl) rfl rfl
  | deleteRunning u => exact absurd rfl hk.2
  | cmdWait p | getFinalState p => exact absurd rfl hk.1
  | setFinalState p state =>
    exact hquiet (by cases state <;> simp [MemEff.kind]) (fun _ hv => hv) rfl
      fun _ hp => ⟨hp, fun hf => hf⟩
  | _ =>
    exact hquiet (by simp [MemEff.kind]) (fun _ hv => hv) rfl fun _ hp => ⟨hp, fun hf => hf⟩

end Step

/-! ## Every run -/

section Reach

variable {cfg : Config} {calls : Calls} {w : World} {s : MState} {K : MState → MLabel → Prop}

/-- In every run whose starts begin alone, a stop that is outstanding has its
VM for itself. -/
theorem stops_reach (hw : w.Booted) (hK : ∀ s l, K s l → StartsAlone s l)
    (h : system.Reach K (start cfg calls w) s) : Stops s.world (life.phases s) s.live := by
  refine Monitor.invariant_live (M := life) (A := Answers) (answers_reach hw.mem)
    (life_threads cfg calls) (fun _ _ _ _ hlive h => h.mono hlive) ?_ ?_
    (fun s v w' _ ih _ hv => stops_env ih hv) h
  · exact ⟨fun _ _ _ hp => (by cases hp), fun _ _ _ hp => (by cases hp), fun _ _ _ => rfl⟩
  · intro s t o β e k b w' hr ih hk hp he hb hok
    have hR := registry_reach hw hr
    cases t with
    | exit p =>
      have hkind := exitKind_reach hr p
      rw [hp] at hkind
      refine ih.exit (exec_epoch he) ?_
      intro u q hq
      cases e with
      | store e => obtain ⟨_, -, rfl⟩ := exec_store he; exact hq
      | host e => obtain ⟨_, -, rfl⟩ := exec_host he; exact hq
      | mem e =>
        obtain ⟨m, hm, rfl⟩ := exec_mem he
        exact execMem_running_some hm (hkind.1.lockFree).2 hq
    | call epoch n =>
      obtain rfl := epoch_of_current (exec_current he)
      have hkind := callKind_reach hr s.world.epoch n
      rw [hp] at hkind
      cases e with
      | store e => exact stops_callStore ih he
      | host e => exact stops_callHost ih hok he
      | mem e =>
        refine stops_callMem ih hR (keyed_reach hw.mem hr) (by simp [State.live, hp, isRet]) ?_
          hkind.1 hok ((hK _ _ hk).act hp) he
        intro k k' u hk hk'
        rw [life_phases_fst] at hk hk'
        exact (lockInv_reach hw.mem hr).locks.sole k k' u hk hk'

/-- An exit handler stops nothing. -/
theorem exit_stop_idle (h : system.Reach K (start cfg calls w) s) (p : Pid) :
    (life.phases s (.exit p)).2.stop = .idle := by
  refine Monitor.phase_reach (M := life) (J := fun l => l.2.stop = .idle) rfl
    (show Uses ExitKind (threads cfg calls (.exit p)) from uses_exit p) ?_ h
  rintro β ⟨l, g, x, st⟩ e b hl hk
  obtain rfl : st = .idle := hl
  cases e with
  | store e =>
    cases e with
    | getVM c u => simp [ExitKind, Eff.kind, StoreEff.kind] at hk
    | _ => rfl
  | host e =>
    cases e with
    | linkAdd tap u | cmdStart c | fcCreateSnapshot c sock state mem => cases b <;> rfl
    | _ => rfl
  | mem e =>
    cases e with
    | getRunning u | stillRunning proc => simp [ExitKind, Eff.kind, MemEff.kind] at hk
    | getFinalState q => cases x <;> rfl
    | _ => rfl

/-- The thread cleans up after the process: it is the exit handler of the
process, or a call that has seen that the process is gone. -/
def CleansUp (s : MState) (t : Tid) (proc : Process) : Prop :=
  s.world.current t = true ∧ s.live t = true ∧ (life.phases s t).2.Cleans proc

/-- A start of the VM of the process has made the TAP device for another
process, or another process of the VM lives. -/
def Successor (s : MState) (proc : Process) : Prop :=
  (∃ n, (life.phases s (.call s.world.epoch n)).1 = .start proc.uuid ∧
    ((life.phases s (.call s.world.epoch n)).2.progress = .linked ∨
      ∃ p, (life.phases s (.call s.world.epoch n)).2.progress = .spawned p)) ∨
  ∃ p o, s.world.host.os p = some o ∧ o.epoch = s.world.epoch ∧ o.uuid = proc.uuid ∧
    o.alive = true ∧ p ≠ proc.pid

/-- A process has no successor when no start of its VM is on its way and no
other process of the VM is registered. -/
theorem Registry.no_successor {proc : Process} (hR : Registry s.world (life.phases s))
    (hkeyed : s.world.mem.Keyed)
    (hearly : ∀ n, (life.phases s (.call s.world.epoch n)).1 = .start proc.uuid →
      (life.phases s (.call s.world.epoch n)).2.progress.early = false)
    (hrun : ∀ q, s.world.mem.running proc.uuid = some q → q = proc) : ¬ Successor s proc := by
  rintro (⟨n, hlock, hg | ⟨p, hg⟩⟩ | ⟨p, o, ho, heo, hu, ha, hne⟩)
  · have := hearly n hlock
    rw [hg] at this
    cases this
  · have := hearly n hlock
    rw [hg] at this
    cases this
  · rcases hR.alive p o ho heo ha with hw | ⟨n, hn⟩
    · obtain ⟨q, hq⟩ := Option.ne_none_iff_exists'.mp hw
      obtain ⟨o', ho', -, hu'⟩ := hR.watched p q hq
      obtain rfl := Option.some.inj (ho.symm.trans ho')
      -- The exit handler of a process that lives still waits.
      have hwait : (life.phases s (.exit p)).2.exit = .waiting := by
        by_contra hne'
        rw [hR.awake p q o hq hne' ho] at ha
        cases ha
      have hreg := hR.waiting p q hq hwait
      rw [← hu', hu] at hreg
      obtain rfl := hrun q hreg
      exact hne (hkeyed.watched p q hq).symm
    · obtain ⟨-, o', ho', -, hlock⟩ := hR.spawned n p hn
      obtain rfl := Option.some.inj (ho.symm.trans ho')
      have := hearly n (hu ▸ hlock)
      rw [hn] at this
      cases this

/-- While a thread cleans up after a process, no other process of its VM is
on its way or lives. -/
theorem CleansUp.no_successor {t : Tid} {proc : Process} (hw : w.Booted)
    (h : system.Reach StartsAlone (start cfg calls w) s) (hclean : CleansUp s t proc) :
    ¬ Successor s proc := by
  have hR := registry_reach hw h
  have hkeyed := keyed_reach hw.mem h
  have hS := stops_reach hw (fun _ _ hk => hk) h
  obtain ⟨hcur, hlive, ⟨final, hread⟩ | ⟨saved, hseen⟩⟩ := hclean
  · -- The entry of the process keeps every start of its VM out.
    cases t with
    | call epoch n =>
      rw [call_exit_waiting h epoch n] at hread
      cases hread
    | exit p =>
      obtain ⟨-, hrun, -⟩ := hR.at_work hcur (by rw [hread]; rfl)
      refine hR.no_successor hkeyed (fun n hlock => ?_) fun q hq => ?_
      · by_contra hne
        rw [hR.early n _ hlock ((Bool.not_eq_false _).mp hne)] at hrun
        cases hrun
      · exact Option.some.inj (hq.symm.trans hrun)
  · cases t with
    | exit p =>
      rw [exit_stop_idle h p] at hseen
      cases hseen
    | call epoch n =>
      obtain rfl := epoch_of_current hcur
      have hproc : (life.phases s (.call s.world.epoch n)).2.stop.proc = some proc := by
        rw [hseen]
        rfl
      refine hR.no_successor hkeyed (hS.alone n proc hlive hproc) fun q hq => ?_
      exact (hS.other n proc hlive hproc q hq).1

/-- What a process of a VM has for itself. -/
inductive Resource
  | socket (p : Path)
  | tap (name : String)
  | cgroup (u : Uuid)
  deriving DecidableEq, Repr

/-- The resource belongs to the process. -/
def Process.Has (proc : Process) : Resource → Prop
  | .socket p => proc.socketPath = p
  | .tap name => proc.tapName = name
  | .cgroup u => proc.cgroupPath = some u

/-- What a call of the host removes. -/
def HostEff.removes : {β : Type} → HostEff β → Option Resource
  | _, .remove p => some (.socket p)
  | _, .deleteTap name => some (.tap name)
  | _, .removeCgroup u => some (.cgroup u)
  | _, _ => none

/-- What the next action of the thread removes. -/
def removes (s : MState) (t : Tid) : Option Resource :=
  match s.prog t with
  | .act (.host e) _ => e.removes
  | _ => none

theorem mayRemove_of_removes {l : LockPhase × LifePhase} {β : Type} {e : HostEff β} {r : Resource}
    (hr : e.removes = some r) (hok : ∀ b, Answers (.host e) b → life.ok l (.host e) b) :
    l.2.MayRemove (·.Has r) := by
  cases e with
  | remove p | deleteTap name | removeCgroup u => cases hr; exact hok (.error .io) trivial
  | _ => cases hr

/-- A thread that has to do with a process removes in the clean-up after it
only, and only what the process has. -/
theorem cleansUp_of_removes {t : Tid} {r : Resource} (hw : w.Booted)
    (h : system.Reach K (start cfg calls w) s) (hcur : s.world.current t = true)
    (hr : removes s t = some r) (hq : ¬ (life.phases s t).2.Quiet) :
    ∃ proc, CleansUp s t proc ∧ proc.Has r := by
  unfold removes at hr
  split at hr
  swap
  · cases hr
  rename_i e k hp
  have hmay := mayRemove_of_removes hr fun b hb =>
    Monitor.ok_reach (answers_reach hw.mem) (life_threads cfg calls t) h hp hb
  obtain ⟨proc, hclean, hhas⟩ := hmay.resolve_left hq
  exact ⟨proc, ⟨hcur, by simp [State.live, hp, isRet], hclean⟩, hhas⟩

/-- In every run whose starts begin alone:

* no clean-up after a process runs while another process of its VM is on its
  way or lives;
* a thread that has found, registered or awaited a process removes a socket,
  a TAP device or a cgroup only in such a clean-up, and only what belongs to
  the process that it cleans up after. -/
theorem cleanup_without_successor (hw : w.Booted)
    (h : system.Reach StartsAlone (start cfg calls w) s) :
    (∀ t proc, CleansUp s t proc → ¬ Successor s proc) ∧
    ∀ t r, s.world.current t = true → removes s t = some r → ¬ (life.phases s t).2.Quiet →
      ∃ proc, CleansUp s t proc ∧ proc.Has r ∧ ¬ Successor s proc := by
  refine ⟨fun t proc hclean => hclean.no_successor hw h, fun t r hcur hr hq => ?_⟩
  obtain ⟨proc, hclean, hhas⟩ := cleansUp_of_removes hw h hcur hr hq
  exact ⟨proc, hclean, hhas, hclean.no_successor hw h⟩

end Reach

/-! ## Two runs -/

/-- The condition `BeginsAlone`, for the first `m` calls. -/
def beginsAloneAmong (m : Nat) (s : MState) : {β : Type} → Tid → Eff β → Outcome → Bool
  | _, _, .mem (.enterStart u), _ =>
      !s.world.mem.grants u || (List.range m).all fun n =>
        !s.live (.call s.world.epoch n) ||
          (life.phases s (.call s.world.epoch n)).2.stop.proc.all fun q => decide (q.uuid ≠ u)
  | _, _, _, _ => true

theorem startsAlone_of_among {cfg : Config} {w : World} {s : MState} {l : MLabel} (ops : List Op)
    {K : MState → MLabel → Prop} (h : system.Reach K (start cfg (.ofList ops) w) s)
    (hb : s.next (beginsAloneAmong ops.length s) l = true) : StartsAlone s l := by
  cases l with
  | env v => trivial
  | thread t o =>
    simp only [StartsAlone, State.Next]
    split
    · rename_i β e k hp
      have hact := State.next_act hb hp
      cases e with
      | store e | host e => trivial
      | mem e =>
        cases e with
        | enterStart u =>
          rintro hgrants ⟨n, q, hlive, hq, hu⟩
          obtain ⟨op, hop⟩ := call_of_phase h (n := n) fun hstart => by
            rw [hstart] at hq
            cases hq
          have hn : n < ops.length := by
            simp only [Calls.ofList] at hop
            split at hop
            · exact (List.getElem?_eq_some_iff.mp hop).1
            · cases hop
          rw [beginsAloneAmong, hgrants] at hact
          have hall := List.all_eq_true.mp hact n (List.mem_range.mpr hn)
          simp [hlive, hq, hu] at hall
        | _ => trivial
    · trivial

/-- The steps in which a VM is started, is stopped by its guest on the
request of a second call, and is gone from `running`.  Other calls make the
steps `between` while the process is still registered. -/
def startThenStop (between : List MLabel) : List MLabel :=
  steps (.call 0 0) 23 ++ .env (.bind 0) :: steps (.call 0 0) 4 ++ steps (.call 0 1) 3 ++ between ++
    .env (.exit 0) :: steps (.exit 0) 6 ++ steps (.call 0 1) 2

/-- The second call has seen that the process is gone. -/
def stopSeen (s : MState) : Bool :=
  s.world.current (.call 0 1) && s.live (.call 0 1) &&
    decide ((life.phases s (.call 0 1)).2.stop = .seen (.sample "a" 0 0) false)

theorem cleansUp_of_stopSeen {s : MState} (h : stopSeen s = true) :
    CleansUp s (.call 0 1) (.sample "a" 0 0) := by
  simp only [stopSeen, Bool.and_eq_true, decide_eq_true_eq] at h
  exact ⟨h.1.1, h.1.2, Or.inr ⟨false, h.2⟩⟩

/-- A start begins when the process is gone from `running` and its stop is
not over yet.  The stop cleans up once more, and takes the TAP device of the
new process away. -/
theorem late_cleanup_removes_tap :
    ∃ s s', system.Reach (fun s l => reliable s l = true)
        (start .sample (.ofList [.startVM 0, .stopVM 0, .startVM 0]) .oneVM) s ∧
      CleansUp s (.call 0 1) (.sample "a" 0 0) ∧ Successor s (.sample "a" 0 0) ∧
      system.step s (.thread (.call 0 1) .ok) = some s' ∧
      s.world.host.taps (tapName "a") = some 0 ∧ s'.world.host.taps (tapName "a") = none := by
  obtain ⟨s, hs, hP⟩ := system.exists_reach_of_run (k := reliable)
    (s := start .sample (.ofList [.startVM 0, .stopVM 0, .startVM 0]) .oneVM)
    (l := startThenStop [] ++ steps (.call 0 2) 23 ++ steps (.call 0 1) 1)
    (P := fun s => stopSeen s && decide (s.world.epoch = 0) &&
      ((s.world.host.os 1).any fun (o : OSProc) => o.alive && decide (o.epoch = 0 ∧ o.uuid = 0)) &&
      decide (s.world.host.taps (tapName "a") = some 0) &&
      (system.step s (.thread (.call 0 1) .ok)).any fun (s' : MState) =>
        decide (s'.world.host.taps (tapName "a") = none))
    (by decide) (by decide)
  simp only [Bool.and_eq_true, decide_eq_true_eq, Option.any_eq_true] at hP
  obtain ⟨⟨⟨⟨hseen, hepoch⟩, o, ho, ha, heo, hu⟩, htap⟩, s', hs', htap'⟩ := hP
  exact ⟨s, s', hs, cleansUp_of_stopSeen hseen,
    Or.inr ⟨1, o, ho, heo.trans hepoch.symm, hu, ha, by simp [Process.sample]⟩, hs', htap, htap'⟩

/-- A stop is about to delete the TAP device.  A start that came while the
stop was outstanding has been refused. -/
theorem cleanup_without_successor_stop :
    ∃ s, system.Reach StartsAlone
        (start .sample (.ofList [.startVM 0, .stopVM 0, .startVM 0]) .oneVM) s ∧
      s.live (.call 0 2) = false ∧
      CleansUp s (.call 0 1) (.sample "a" 0 0) ∧ ¬ Successor s (.sample "a" 0 0) ∧
      removes s (.call 0 1) = some (.tap (tapName "a")) ∧
      ∃ proc, CleansUp s (.call 0 1) proc ∧ proc.Has (.tap (tapName "a")) ∧
        ¬ Successor s proc := by
  obtain ⟨s, hs, hP⟩ := system.exists_reach_of_run
    (k := fun s l => s.next (beginsAloneAmong 3 s) l)
    (s := start .sample (.ofList [.startVM 0, .stopVM 0, .startVM 0]) .oneVM)
    (l := startThenStop (steps (.call 0 2) 3) ++ steps (.call 0 1) 1)
    (P := fun s => stopSeen s && !s.live (.call 0 2) &&
      decide (removes s (.call 0 1) = some (.tap (tapName "a"))))
    (by decide) (by decide)
  simp only [Bool.and_eq_true, Bool.not_eq_true', decide_eq_true_eq] at hP
  obtain ⟨⟨hseen, hrefused⟩, htap⟩ := hP
  have hreach := hs.mono_reach (J := StartsAlone) fun _ _ hr hk =>
    startsAlone_of_among [.startVM 0, .stopVM 0, .startVM 0] hr hk
  have hclean := cleansUp_of_stopSeen hseen
  obtain ⟨hnone, hremoves⟩ := cleanup_without_successor (World.booted_sample _ _) hreach
  refine ⟨s, hreach, hrefused, hclean, hnone _ _ hclean, htap, hremoves _ _ hclean.1 htap ?_⟩
  rintro ⟨hidle, -⟩
  simp only [stopSeen, Bool.and_eq_true, decide_eq_true_eq] at hseen
  rw [hseen.2] at hidle
  cases hidle

end Firedoze
