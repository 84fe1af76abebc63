import Firedoze.Manager.Life

/-!
# The registry of processes
-/

namespace Firedoze

open Conc Conc.Prog Conc.Monitor Function

/-- The process that an exit handler is at work on. -/
@[simp, grind =]
def ExitStage.proc : ExitStage → Option Process
  | .waiting => none
  | .woken proc => some proc
  | .read proc _ => some proc
  | .wrote proc => some proc
  | .done => none

/-- How `running`, the goroutines and the processes agree with what the
threads have done. -/
structure Registry (w : World) (ph : Tid → LockPhase × LifePhase) : Prop where
  pids : ∀ p o, w.host.os p = some o → p < w.host.nextPid ∧ o.epoch ≤ w.epoch
  watched : ∀ p proc, w.mem.watched p = some proc →
    ∃ o, w.host.os p = some o ∧ o.epoch = w.epoch ∧ o.uuid = proc.uuid
  unwatched : ∀ p, w.mem.watched p = none → (∀ o, w.host.os p = some o → o.epoch = w.epoch) →
    (ph (.exit p)).2.exit = .waiting
  waiting : ∀ p proc, w.mem.watched p = some proc → (ph (.exit p)).2.exit = .waiting →
    w.mem.running proc.uuid = some proc
  awake : ∀ p proc o, w.mem.watched p = some proc → (ph (.exit p)).2.exit ≠ .waiting →
    w.host.os p = some o → o.alive = false
  working : ∀ p proc q, w.mem.watched p = some proc → (ph (.exit p)).2.exit.proc = some q →
    q = proc ∧ w.mem.running proc.uuid = some proc
  running : ∀ u proc, w.mem.running u = some proc →
    w.mem.watched proc.pid = some proc ∧ (ph (.exit proc.pid)).2.exit ≠ .done
  early : ∀ n u, (ph (.call w.epoch n)).1 = .start u →
    (ph (.call w.epoch n)).2.progress.early = true → w.mem.running u = none
  registered : ∀ n proc, (ph (.call w.epoch n)).2.progress = .registered proc →
    (ph (.call w.epoch n)).1 = .start proc.uuid ∧ w.mem.watched proc.pid = some proc
  spawned : ∀ n p, (ph (.call w.epoch n)).2.progress = .spawned p →
    w.mem.watched p = none ∧
      ∃ o, w.host.os p = some o ∧ o.epoch = w.epoch ∧ (ph (.call w.epoch n)).1 = .start o.uuid
  alive : ∀ p o, w.host.os p = some o → o.epoch = w.epoch → o.alive = true →
    w.mem.watched p ≠ none ∨ ∃ n, (ph (.call w.epoch n)).2.progress = .spawned p
  later : ∀ epoch n, w.epoch < epoch → (ph (.call epoch n)).2.progress = .idle

section Step

variable {w w' : World} {ph : Tid → LockPhase × LifePhase} {n : Nat} {l : LockPhase × LifePhase}

theorem update_call_apply (ph : Tid → LockPhase × LifePhase) (epoch n k : Nat)
    (l : LockPhase × LifePhase) :
    update ph (.call epoch n) l (.call epoch k) = if k = n then l else ph (.call epoch k) := by
  by_cases hk : k = n
  · simp [hk]
  · simp [hk]

theorem update_call_exit (ph : Tid → LockPhase × LifePhase) (epoch n : Nat) (p : Pid)
    (l : LockPhase × LifePhase) : update ph (.call epoch n) l (.exit p) = ph (.exit p) := by simp

theorem update_exit_call (ph : Tid → LockPhase × LifePhase) (epoch k : Nat) (p : Pid)
    (l : LockPhase × LifePhase) :
    update ph (.exit p) l (.call epoch k) = ph (.call epoch k) := by simp

theorem update_exit_apply (ph : Tid → LockPhase × LifePhase) (p q : Pid)
    (l : LockPhase × LifePhase) :
    update ph (.exit p) l (.exit q) = if q = p then l else ph (.exit q) := by
  by_cases hq : q = p
  · simp [hq]
  · simp [hq]

theorem update_call_later {ph : Tid → LockPhase × LifePhase} {epoch epoch' n k : Nat}
    (l : LockPhase × LifePhase) (hlt : epoch < epoch') :
    update ph (.call epoch n) l (.call epoch' k) = ph (.call epoch' k) := by
  refine update_of_ne ?_ _ _
  intro heq
  exact absurd (Tid.call.inj heq).1 (by omega)

/-- A step of a call that registers nothing. -/
theorem Registry.call (h : Registry w ph) (hepoch : w'.epoch = w.epoch)
    (hmem : w.mem.SameRunning w'.mem) (hhost : w.host.Follows w'.host)
    (hearly : ∀ u, l.1 = .start u → l.2.progress.early = true → w.mem.running u = none)
    (hreg : ∀ proc, l.2.progress = .registered proc → l.1 = (ph (.call w.epoch n)).1 ∧
      (ph (.call w.epoch n)).2.progress = .registered proc)
    (hspawn : ∀ p, l.2.progress = .spawned p → l.1 = (ph (.call w.epoch n)).1)
    (hspawn' : ∀ p, l.2.progress = .spawned p ↔
      (ph (.call w.epoch n)).2.progress = .spawned p) :
    Registry w' (update ph (.call w.epoch n) l) := by
  obtain ⟨pids, watched, unwatched, waiting, awake, working, running, early, registered, spawned,
    alive, later⟩ := h
  obtain ⟨hrun, hwatch⟩ := hmem
  have hback := fun p o' => @Host.Follows.back _ _ hhost p o'
  have hsome := hhost.some
  have hnext := hhost.nextPid
  constructor
  case alive =>
    intro p o' ho' he ha
    obtain ⟨o, ho, heo, -, -, hal⟩ := hback p o' ho'
    rw [hwatch]
    refine (alive p o ho (by grind) (hal ha)).imp_right ?_
    rintro ⟨k, hk⟩
    refine ⟨k, ?_⟩
    rw [hepoch, update_call_apply]
    split
    · subst k
      exact (hspawn' p).mpr hk
    · exact hk
  case later =>
    intro epoch k hlt
    rw [update_call_later l (hepoch ▸ hlt)]
    exact later epoch k (hepoch ▸ hlt)
  all_goals simp only [hepoch, update_call_apply, update_call_exit, hrun, hwatch, hnext]
  case waiting => exact waiting
  case working => exact working
  case running => exact running
  all_goals grind

/-- A step that changes neither `running` nor how far the threads are. -/
theorem Registry.frame (h : Registry w ph) (hepoch : w'.epoch = w.epoch)
    (hmem : w.mem.SameRunning w'.mem) (hhost : w.host.Follows w'.host) : Registry w' ph := by
  have hself := h.call (n := 0) (l := ph (.call w.epoch 0)) hepoch hmem hhost (h.early 0)
    (fun _ hr => ⟨rfl, hr⟩) (fun _ _ => rfl) fun _ => Iff.rfl
  rwa [update_eq_self] at hself

/-- A step of the exit handler of a process that has exited, up to the write
of the state. -/
theorem Registry.exit {p : Pid} {proc : Process} {o : OSProc} (h : Registry w ph)
    (hepoch : w'.epoch = w.epoch) (hmem : w.mem.SameRunning w'.mem)
    (hhost : w.host.Follows w'.host) (hwatched : w.mem.watched p = some proc)
    (hos : w.host.os p = some o) (hdead : o.alive = false) (hproc : l.2.exit.proc = some proc)
    (hrunning : w.mem.running proc.uuid = some proc) :
    Registry w' (update ph (.exit p) l) := by
  obtain ⟨pids, watched, unwatched, waiting, awake, working, running, early, registered, spawned,
    alive, later⟩ := h
  obtain ⟨hrun, hwatch⟩ := hmem
  have hback := fun p o' => @Host.Follows.back _ _ hhost p o'
  have hsome := hhost.some
  have hnext := hhost.nextPid
  constructor
  all_goals simp only [hepoch, update_exit_call, update_exit_apply, hrun, hwatch, hnext]
  case early => exact early
  case registered => exact registered
  case later => exact later
  case alive =>
    intro q o' ho' he ha
    obtain ⟨o, ho, heo, -, -, hal⟩ := hback q o' ho'
    exact alive q o ho (by grind) (hal ha)
  all_goals grind

/-- A step of an exit handler that stays where it is. -/
theorem Registry.stay {p : Pid} (h : Registry w ph) (hepoch : w'.epoch = w.epoch)
    (hmem : w.mem.SameRunning w'.mem) (hhost : w.host.Follows w'.host)
    (hstay : l.2.exit = (ph (.exit p)).2.exit) : Registry w' (update ph (.exit p) l) := by
  have hx : ∀ q, (update ph (.exit p) l (.exit q)).2.exit = (ph (.exit q)).2.exit := by
    intro q
    rw [update_exit_apply]
    split
    · subst q
      exact hstay
    · rfl
  obtain ⟨pids, watched, unwatched, waiting, awake, working, running, early, registered, spawned,
    alive, later⟩ := h.frame hepoch hmem hhost
  refine ⟨pids, watched, ?_, ?_, ?_, ?_, ?_, ?_, ?_, ?_, ?_, ?_⟩
  all_goals simp only [hx, update_exit_call]
  all_goals assumption

/-- The exit handler deletes the entry of its process. -/
theorem Registry.delete {p : Pid} {proc : Process} (h : Registry w ph)
    (hkeyed : w.mem.Keyed) (hepoch : w'.epoch = w.epoch) (hhost : w'.host = w.host)
    (hwatched : w'.mem.watched = w.mem.watched)
    (hrunning : w'.mem.running = update w.mem.running proc.uuid none)
    (hp : w.mem.watched p = some proc) (hstage : (ph (.exit p)).2.exit = .wrote proc)
    (hdone : l.2.exit = .done) : Registry w' (update ph (.exit p) l) := by
  obtain ⟨pids, watched, unwatched, waiting, awake, working, running, early, registered, spawned,
    alive, later⟩ := h
  obtain ⟨hkr, hkw⟩ := hkeyed
  have hrun : ∀ u, w'.mem.running u = if u = proc.uuid then none else w.mem.running u := by
    intro u
    rw [hrunning, update_apply]
  constructor
  all_goals simp only [hepoch, update_exit_call, update_exit_apply, hhost, hwatched, hrun]
  case pids => exact pids
  case watched => exact watched
  case registered => exact registered
  case spawned => exact spawned
  case alive => exact alive
  case later => exact later
  all_goals grind

/-- A start registers its process. -/
theorem Registry.register {proc : Process} (h : Registry w ph) (hkeyed : w.mem.Keyed)
    (hepoch : w'.epoch = w.epoch) (hhost : w'.host = w.host)
    (hwatched : w'.mem.watched = update w.mem.watched proc.pid (some proc))
    (hrunning : w'.mem.running = update w.mem.running proc.uuid (some proc))
    (hsole : ∀ k, (ph (.call w.epoch k)).1 = .start proc.uuid → k = n)
    (hlock : (ph (.call w.epoch n)).1 = .start proc.uuid)
    (hold : (ph (.call w.epoch n)).2.progress = .spawned proc.pid)
    (hnew : l.1 = .start proc.uuid) (hreg : l.2.progress = .registered proc) :
    Registry w' (update ph (.call w.epoch n) l) := by
  obtain ⟨pids, watched, unwatched, waiting, awake, working, running, early, registered, spawned,
    alive, later⟩ := h
  obtain ⟨hkr, hkw⟩ := hkeyed
  obtain ⟨hfree, o, ho, heo, hu⟩ := spawned n proc.pid hold
  have hempty : w.mem.running proc.uuid = none := early n proc.uuid hlock (by rw [hold]; rfl)
  have hwait : (ph (.exit proc.pid)).2.exit = .waiting := by
    refine unwatched _ hfree ?_
    intro o' ho'
    rw [ho] at ho'
    cases ho'
    exact heo
  have hrun : ∀ u, w'.mem.running u = if u = proc.uuid then some proc else w.mem.running u := by
    intro u
    rw [hrunning, update_apply]
  have hwatch : ∀ p, w'.mem.watched p = if p = proc.pid then some proc else w.mem.watched p := by
    intro p
    rw [hwatched, update_apply]
  constructor
  case later =>
    intro epoch k hlt
    rw [update_call_later l (hepoch ▸ hlt)]
    exact later epoch k (hepoch ▸ hlt)
  all_goals simp only [hepoch, update_call_apply, update_call_exit, hhost, hwatch, hrun]
  case pids => exact pids
  case alive =>
    intro q o' ho' he ha
    by_cases hq : q = proc.pid
    · simp [hq]
    · rw [if_neg hq]
      refine (alive q o' ho' he ha).imp_right ?_
      rintro ⟨k, hk⟩
      refine ⟨k, ?_⟩
      have hkn : k ≠ n := by
        rintro rfl
        rw [hold] at hk
        exact hq (Progress.spawned.inj hk).symm
      rw [if_neg hkn]
      exact hk
  all_goals grind

/-- A start makes its process. -/
theorem Registry.spawn {u : Uuid} {o : OSProc} (h : Registry w ph) (hepoch : w'.epoch = w.epoch)
    (hmem : w'.mem = w.mem) (hnext : w'.host.nextPid = w.host.nextPid + 1)
    (hos : w'.host.os = update w.host.os w.host.nextPid (some o)) (ho : o.epoch = w.epoch)
    (hu : o.uuid = u) (hlock : (ph (.call w.epoch n)).1 = .start u)
    (hold : (ph (.call w.epoch n)).2.progress = .linked) (hnew : l.1 = .start u)
    (hl : l.2.progress = .spawned w.host.nextPid) :
    Registry w' (update ph (.call w.epoch n) l) := by
  obtain ⟨pids, watched, unwatched, waiting, awake, working, running, early, registered, spawned,
    alive, later⟩ := h
  have hos' : ∀ p, w'.host.os p = if p = w.host.nextPid then some o else w.host.os p := by
    intro p
    rw [hos, update_apply]
  have hne : ∀ p o', w.host.os p = some o' → p ≠ w.host.nextPid :=
    fun p o' hp => Nat.ne_of_lt (pids p o' hp).1
  constructor
  case later =>
    intro epoch k hlt
    rw [update_call_later l (hepoch ▸ hlt)]
    exact later epoch k (hepoch ▸ hlt)
  all_goals simp only [hepoch, update_call_apply, update_call_exit, hmem, hnext, hos']
  case waiting => exact waiting
  case working => exact working
  case running => exact running
  case alive =>
    intro q o' ho' he ha
    by_cases hq : q = w.host.nextPid
    · exact Or.inr ⟨n, by rw [if_pos rfl, hl, hq]⟩
    · rw [if_neg hq] at ho'
      refine (alive q o' ho' he ha).imp_right ?_
      rintro ⟨k, hk⟩
      refine ⟨k, ?_⟩
      have hkn : k ≠ n := by
        rintro rfl
        rw [hold] at hk
        cases hk
      rw [if_neg hkn]
      exact hk
  case pids =>
    intro p o' hp
    by_cases hq : p = w.host.nextPid
    · rw [if_pos hq] at hp
      cases hp
      exact ⟨hq ▸ Nat.lt_succ_self _, le_of_eq ho⟩
    · rw [if_neg hq] at hp
      exact ⟨Nat.lt_succ_of_lt (pids p o' hp).1, (pids p o' hp).2⟩
  case watched =>
    intro p proc hp
    obtain ⟨o', ho', hsame⟩ := watched p proc hp
    exact ⟨o', by rw [if_neg (hne p o' ho')]; exact ho', hsame⟩
  case spawned =>
    intro k p hk
    by_cases hkn : k = n
    · rw [if_pos hkn] at hk ⊢
      obtain rfl : w.host.nextPid = p := Progress.spawned.inj (hl.symm.trans hk)
      refine ⟨?_, o, if_pos rfl, ho, hnew.trans (by rw [hu])⟩
      cases hw : w.mem.watched w.host.nextPid with
      | none => rfl
      | some proc =>
        obtain ⟨o', ho', -⟩ := watched _ proc hw
        exact absurd rfl (hne _ o' ho')
    · rw [if_neg hkn] at hk ⊢
      obtain ⟨hw, o', ho', hsame⟩ := spawned k p hk
      exact ⟨hw, o', by rw [if_neg (hne p o' ho')]; exact ho', hsame⟩
  all_goals grind

/-- The daemon dies, and another one starts. -/
theorem Registry.crash (h : Registry w ph) (hepoch : w'.epoch = w.epoch + 1)
    (hmem : w'.mem = .fresh) (hhost : w'.host = w.host) : Registry w' ph := by
  obtain ⟨pids, watched, unwatched, waiting, awake, working, running, early, registered, spawned,
    alive, later⟩ := h
  have hold : ∀ p o, w.host.os p = some o → o.epoch ≠ w.epoch + 1 := by
    intro p o ho
    have := (pids p o ho).2
    omega
  have hidle : ∀ n, (ph (.call (w.epoch + 1) n)).2.progress = .idle :=
    fun n => later _ n (Nat.lt_succ_self _)
  constructor
  all_goals simp only [hepoch, hmem, hhost, Mem.fresh]
  case pids => exact fun p o ho => ⟨(pids p o ho).1, Nat.le_succ_of_le (pids p o ho).2⟩
  case unwatched =>
    intro p _ hp
    cases ho : w.host.os p with
    | some o => exact absurd (hp o ho) (hold p o ho)
    | none =>
      refine unwatched p ?_ fun o ho' => ?_
      · cases hw : w.mem.watched p with
        | none => rfl
        | some proc =>
          obtain ⟨o, ho', -⟩ := watched p proc hw
          rw [ho] at ho'
          cases ho'
      · rw [ho] at ho'
        cases ho'
  case alive => exact fun p o ho he => absurd he (hold p o ho)
  case later => exact fun epoch n hlt => later epoch n (by omega)
  all_goals grind

/-- A step that takes a start no further, or past its process. -/
def Progress.Past (g g' : Progress) : Prop :=
  g' = g ∨ ∃ proc, g = .registered proc ∧
    (g' = .written proc ∨ g' = .gone proc ∨ g' = .lost proc)

theorem Progress.past_unseen (g : Progress) (u : Uuid) : g.Past (g.unseen u) := by
  unfold Progress.unseen
  split
  · split
    · exact Or.inr ⟨_, rfl, Or.inr (Or.inl rfl)⟩
    · exact Or.inl rfl
  · exact Or.inl rfl

theorem past_lifeNextStore {β : Type} (l : LifePhase) (e : StoreEff β) (b : β) :
    l.progress.Past (lifeNextStore l e b).progress := by
  cases e with
  | getVM c u =>
    simp only [lifeNextStore]
    split
    · rename_i proc hg
      by_cases hu : proc.uuid = u
      · exact Or.inr ⟨proc, hg, Or.inr (Or.inr (if_pos hu))⟩
      · exact Or.inl ((if_neg hu).trans hg.symm)
    · exact Or.inl rfl
  | setVMState c u state =>
    simp only [lifeNextStore]
    split
    · rename_i proc hg
      split
      · exact Or.inr ⟨proc, hg, Or.inl rfl⟩
      · exact Or.inl hg.symm
    · exact Or.inl rfl
  | _ => exact Or.inl rfl

/-- A step of a call that keeps the entries it has. -/
theorem Registry.past (h : Registry w ph) (hepoch : w'.epoch = w.epoch)
    (hmem : w.mem.SameRunning w'.mem) (hhost : w.host.Follows w'.host)
    (hlock : ∀ u, l.1 = .start u ↔ (ph (.call w.epoch n)).1 = .start u)
    (hpast : (ph (.call w.epoch n)).2.progress.Past l.2.progress) :
    Registry w' (update ph (.call w.epoch n) l) := by
  have hreg := h.registered n
  have hspawn := h.spawned n
  have hearly := h.early n
  rcases hpast with heq | ⟨proc, hold, hnew | hnew | hnew⟩
  · refine h.call hepoch hmem hhost ?_ ?_ ?_ ?_
    · exact fun u hu he => hearly u ((hlock u).mp hu) (heq ▸ he)
    · intro proc hp
      rw [heq] at hp
      exact ⟨((hlock _).mpr (hreg proc hp).1).trans (hreg proc hp).1.symm, hp⟩
    · intro p hp
      rw [heq] at hp
      obtain ⟨-, o, -, -, hs⟩ := hspawn p hp
      exact ((hlock _).mpr hs).trans hs.symm
    · exact fun p => by rw [heq]
  all_goals
    refine h.call hepoch hmem hhost ?_ ?_ ?_ ?_ <;> simp [hold, hnew]

/-- A call of the host. -/
theorem registry_callHost {o : Outcome} {β : Type} {e : HostEff β} {b : β} {hst : Host}
    (h : Registry w ph) (hok : life.ok (ph (.call w.epoch n)) (.host e) b)
    (hh : execHost w (.call w.epoch n) o e = some (b, hst)) :
    Registry { w with host := hst }
      (update ph (.call w.epoch n) (life.next (ph (.call w.epoch n)) (.host e) b)) := by
  cases e with
  | linkAdd tap u =>
    have hold : (ph (.call w.epoch n)).2.progress = .idle := hok.2
    have hfollows := execHost_follows hh (by simp [HostEff.kind])
    have hnew : (lifeNextHost (ph (.call w.epoch n)).2 (.linkAdd tap u) b).progress = .idle ∨
        (lifeNextHost (ph (.call w.epoch n)).2 (.linkAdd tap u) b).progress = .linked := by
      simp only [lifeNextHost]
      split
      · exact Or.inr rfl
      · exact Or.inl hold
    refine h.call rfl ⟨rfl, rfl⟩ hfollows ?_ ?_ (fun _ _ => rfl) ?_
    · exact fun v hv _ => h.early n v hv (by rw [hold]; rfl)
    · intro proc hp
      rcases hnew with hnew | hnew <;> cases hnew.symm.trans hp
    · intro p
      rw [hold]
      constructor
      · intro hp
        rcases hnew with hnew | hnew <;> cases hnew.symm.trans hp
      · intro hp
        cases hp
  | cmdStart l =>
    simp only [execHost] at hh
    rcases attemptOn_cases hh with ⟨pid, hx, rfl, -⟩ | ⟨rfl, rfl, -⟩ | ⟨hy, -⟩
    · cases hx
      obtain ⟨hnext, o, hos, heo, huo, -⟩ := Host.start_os w.host w.epoch l
      exact h.spawn rfl rfl hnext hos heo huo hok.1 hok.2 hok.1 rfl
    · exact h.past rfl ⟨rfl, rfl⟩ (.refl _) (fun _ => Iff.rfl) (Or.inl rfl)
    · cases hy
  | _ =>
    exact h.past rfl ⟨rfl, rfl⟩ (execHost_follows hh (by simp [HostEff.kind]))
      (fun _ => Iff.rfl) (Or.inl rfl)

/-- A critical section of a call. -/
theorem registry_callMem {o : Outcome} {β : Type} {e : MemEff β} {b : β} {m : Mem}
    (h : Registry w ph) (hkeyed : w.mem.Keyed)
    (hsole : ∀ k k' u, (ph (.call w.epoch k)).1.owner = some u →
      (ph (.call w.epoch k')).1.owner = some u → k = k')
    (hk : CallKind e.kind) (hlock : lockOkMem (ph (.call w.epoch n)).1 e b)
    (hok : life.ok (ph (.call w.epoch n)) (.mem e) b)
    (hm : execMem w (.call w.epoch n) o e = some (b, m)) :
    Registry { w with mem := m }
      (update ph (.call w.epoch n) (life.next (ph (.call w.epoch n)) (.mem e) b)) := by
  have hsame : e.kind ≠ .register → w.mem.SameRunning m :=
    fun hr => execMem_sameRunning hm hr hk.2
  -- A call that holds no entry of a start has no process on its way.
  have hnone : (∀ u, (ph (.call w.epoch n)).1 ≠ .start u) →
      (∀ p, (ph (.call w.epoch n)).2.progress ≠ .spawned p) ∧
        ∀ proc, (ph (.call w.epoch n)).2.progress ≠ .registered proc := by
    intro hne
    refine ⟨fun p hp => ?_, fun proc hp => hne _ (h.registered n proc hp).1⟩
    obtain ⟨-, o, -, -, hs⟩ := h.spawned n p hp
    exact hne _ hs
  have hfree : ∀ {l : LockPhase × LifePhase}, (∀ u, (ph (.call w.epoch n)).1 ≠ .start u) →
      (∀ u, l.1 = .start u → w.mem.running u = none) →
      l.2.progress = (ph (.call w.epoch n)).2.progress → w.mem.SameRunning m →
      Registry { w with mem := m } (update ph (.call w.epoch n) l) := by
    intro l hne hstart hg hsame
    obtain ⟨hs, hr⟩ := hnone hne
    refine h.call rfl hsame (.refl _) (fun u hu _ => hstart u hu) ?_ ?_ (fun p => by rw [hg])
    · exact fun proc hp => absurd (hg ▸ hp) (hr proc)
    · exact fun p hp => absurd (hg ▸ hp) (hs p)
  cases e with
  | enterVM u =>
    have hout : (ph (.call w.epoch n)).1 = .out := hlock
    refine hfree (by simp [hout]) ?_ rfl (hsame (by simp [MemEff.kind]))
    intro v hv
    simp only [life, Monitor.above, lock, lockNextMem, hout] at hv
    split at hv <;> cases hv
  | enterStart u =>
    have hout : (ph (.call w.epoch n)).1 = .out := hlock
    refine hfree (by simp [hout]) ?_ rfl (hsame (by simp [MemEff.kind]))
    intro v hv
    simp only [life, Monitor.above, lock, lockNextMem, hout] at hv
    split at hv
    · rename_i hb
      obtain rfl := LockPhase.start.inj hv
      cases o <;> simp only [execMem, reduceCtorEq, Option.some.injEq] at hm
      cases hrun : w.mem.running u with
      | none => rfl
      | some proc => simp [hrun, hb] at hm
    · cases hv
  | enterArchive u =>
    have hout : (ph (.call w.epoch n)).1 = .out := hlock
    refine hfree (by simp [hout]) ?_ rfl (hsame (by simp [MemEff.kind]))
    intro v hv
    cases b with
    | none => exact absurd (hv.symm.trans hout) (by simp)
    | some a => cases hv
  | endVMOperation u =>
    refine h.call rfl (hsame (by simp [MemEff.kind])) (.refl _) ?_ ?_ ?_ ?_
    · exact fun v hv => by cases hv
    · exact fun proc hp => by cases hp
    · exact fun p hp => by cases hp
    · exact fun p => ⟨fun hp => (by cases hp), fun hp => absurd hp (hok.1 p)⟩
  | endArchive u a =>
    obtain ⟨c, hc⟩ := hlock
    refine hfree (by simp [hc]) ?_ rfl (hsame (by simp [MemEff.kind]))
    exact fun v hv => by cases hv
  | getRunning u =>
    refine h.past rfl (hsame (by simp [MemEff.kind])) (.refl _) ?_ ?_
    · intro v
      simp only [life, Monitor.above, lock, lockNextMem]
      split
      · rename_i hp
        simp [hp]
      · exact Iff.rfl
    · cases b with
      | none => exact Progress.past_unseen _ u
      | some proc => exact Or.inl rfl
  | stillRunning proc =>
    refine h.past rfl (hsame (by simp [MemEff.kind])) (.refl _) (fun _ => Iff.rfl) ?_
    cases b with
    | false => exact Progress.past_unseen _ proc.uuid
    | true => exact Or.inl rfl
  | setRunning proc =>
    obtain ⟨-, rfl⟩ := section_eq hm
    refine h.register hkeyed rfl rfl rfl rfl ?_ hok.1 hok.2 hok.1 rfl
    intro k hkk
    exact hsole k n proc.uuid (by rw [hkk]; rfl) (by rw [hok.1]; rfl)
  | deleteRunning u => exact absurd rfl hk.2
  | cmdWait p | getFinalState p => exact absurd rfl hk.1
  | setFinalState p state =>
    exact h.past rfl (hsame (by cases state <;> simp [MemEff.kind])) (.refl _)
      (fun _ => Iff.rfl) (Or.inl rfl)
  | _ =>
    exact h.past rfl (hsame (by simp [MemEff.kind])) (.refl _) (fun _ => Iff.rfl)
      (Or.inl rfl)

/-- A step of a call. -/
theorem registry_call {o : Outcome} {β : Type} {e : Eff β} {b : β} (h : Registry w ph)
    (hkeyed : w.mem.Keyed)
    (hsole : ∀ k k' u, (ph (.call w.epoch k)).1.owner = some u →
      (ph (.call w.epoch k')).1.owner = some u → k = k')
    (hk : CallKind e.kind) (hlock : lock.ok (ph (.call w.epoch n)).1 e b)
    (hok : life.ok (ph (.call w.epoch n)) e b)
    (he : exec (.call w.epoch n) w e o = some (b, w')) :
    Registry w' (update ph (.call w.epoch n) (life.next (ph (.call w.epoch n)) e b)) := by
  cases e with
  | store e =>
    obtain ⟨s, -, rfl⟩ := exec_store he
    exact h.past rfl ⟨rfl, rfl⟩ (.refl _) (fun _ => Iff.rfl) (past_lifeNextStore _ e b)
  | host e =>
    obtain ⟨hst, hh, rfl⟩ := exec_host he
    exact registry_callHost h hok hh
  | mem e =>
    obtain ⟨m, hm, rfl⟩ := exec_mem he
    exact registry_callMem h hkeyed hsole hk hlock hok hm

/-- An exit handler waits for its own process. -/
def WaitsFor (p : Pid) : {β : Type} → Eff β → Prop
  | _, .mem (.cmdWait q) => q = p
  | _, _ => True

theorem waitsFor_of_ne {p : Pid} {β : Type} (e : Eff β) (hk : e.kind ≠ .exit) : WaitsFor p e := by
  cases e with
  | store e | host e => trivial
  | mem e =>
    cases e with
    | cmdWait q => exact absurd rfl hk
    | _ => trivial

theorem waitsFor_exitHandler (p : Pid) : (finish (exitHandler p)).All (WaitsFor p) := by
  have hrest : ∀ proc final, Uses (· ≠ .exit) (do
      ignore (cleanupAfterExit proc)
      ignore (db (.setVMState .background proc.uuid final))
      locked (.deleteRunning proc.uuid) : Go Unit).run := by
    intro proc final
    refine uses_run_bind (by grind) fun _ => uses_run_bind (uses_ignore (uses_db ?_)) fun _ => ?_
    · cases final <;> simp [StoreEff.kind]
    · exact uses_locked (by simp [MemEff.kind])
  refine all_bind ?_ fun _ => trivial
  unfold exitHandler
  refine all_run_bind (all_sect rfl) fun proc => all_run_bind (all_sect trivial) fun final => ?_
  exact All.mono (hrest proc _) fun e he => waitsFor_of_ne e he

/-- The process of an exit handler that runs. -/
theorem Registry.watched_of_current (h : Registry w ph) {p : Pid}
    (hcur : w.current (.exit p) = true) :
    (ph (.exit p)).2.exit = .waiting ∨ ∃ proc, w.mem.watched p = some proc := by
  cases hw : w.mem.watched p with
  | some proc => exact Or.inr ⟨proc, rfl⟩
  | none =>
    refine Or.inl (h.unwatched p hw fun o ho => ?_)
    simpa [World.current, ho] using hcur

/-- An exit handler at work has the process it watches, which has exited and
is still registered. -/
theorem Registry.at_work (h : Registry w ph) {p : Pid} {proc : Process}
    (hcur : w.current (.exit p) = true) (hstage : (ph (.exit p)).2.exit.proc = some proc) :
    w.mem.watched p = some proc ∧ w.mem.running proc.uuid = some proc ∧
      ∃ o, w.host.os p = some o ∧ o.alive = false := by
  have hne : (ph (.exit p)).2.exit ≠ .waiting := by
    intro hwait
    rw [hwait] at hstage
    cases hstage
  obtain ⟨q, hq⟩ := (h.watched_of_current hcur).resolve_left hne
  obtain ⟨rfl, hrun⟩ := h.working p q proc hq hstage
  obtain ⟨o, ho, -⟩ := h.watched p proc hq
  exact ⟨hq, hrun, o, ho, h.awake p proc o hq hne ho⟩

/-- A step of an exit handler. -/
theorem registry_exit {o : Outcome} {β : Type} {e : Eff β} {b : β} {p : Pid} (h : Registry w ph)
    (hkeyed : w.mem.Keyed) (hk : ExitKind e.kind) (hwait : WaitsFor p e)
    (hok : life.ok (ph (.exit p)) e b) (he : exec (.exit p) w e o = some (b, w')) :
    Registry w' (update ph (.exit p) (life.next (ph (.exit p)) e b)) := by
  have hcur := exec_current he
  cases e with
  | store e =>
    obtain ⟨s, -, rfl⟩ := exec_store he
    have hsame : w.mem.SameRunning { w with store := s }.mem := ⟨rfl, rfl⟩
    cases e with
    | setVMState c u state =>
      cases hstage : (ph (.exit p)).2.exit with
      | read proc final =>
        obtain ⟨hw, hrun, o, ho, hdead⟩ := h.at_work hcur (by rw [hstage]; rfl)
        refine h.exit rfl hsame (.refl _) hw ho hdead ?_ hrun
        simp [life, Monitor.above, lifeNextStore, hstage]
      | _ =>
        refine h.stay rfl hsame (.refl _) ?_
        simp [life, Monitor.above, lifeNextStore, hstage]
    | getVM c u => simp [ExitKind, Eff.kind, StoreEff.kind] at hk
    | _ => exact h.stay rfl hsame (.refl _) rfl
  | host e =>
    obtain ⟨hst, hh, rfl⟩ := exec_host he
    have hfollows := execHost_follows hh
      (by rintro hs; rw [show (Eff.host e).kind = _ from hs] at hk; simp [ExitKind] at hk)
    cases e with
    | linkAdd tap u | cmdStart l => simp [ExitKind, Eff.kind, HostEff.kind] at hk
    | _ => exact h.stay rfl ⟨rfl, rfl⟩ hfollows rfl
  | mem e =>
    obtain ⟨m, hm, rfl⟩ := exec_mem he
    cases e with
    | cmdWait q =>
      obtain rfl : q = p := hwait
      have hold : (ph (.exit q)).2.exit = .waiting := hok
      cases o <;> simp only [execMem, reduceCtorEq] at hm
      cases hw : w.mem.watched q with
      | none => simp [hw] at hm
      | some proc =>
        simp only [hw, Option.ite_none_right_eq_some, Option.some.injEq, Prod.mk.injEq] at hm
        obtain ⟨hdead, rfl, rfl⟩ := hm
        obtain ⟨o, ho, -⟩ := h.watched q proc hw
        have ha : o.alive = false := by simpa [ho] using hdead
        exact h.exit rfl ⟨rfl, rfl⟩ (.refl _) hw ho ha rfl (h.waiting q proc hw hold)
    | getFinalState q =>
      obtain ⟨proc, hold, rfl⟩ := hok
      obtain ⟨hw, hrun, o, ho, hdead⟩ := h.at_work hcur (by rw [hold]; rfl)
      refine h.exit rfl (execMem_sameRunning hm (by simp [MemEff.kind]) (by simp [MemEff.kind]))
        (.refl _) hw ho hdead ?_ hrun
      simp [life, Monitor.above, lifeNextMem, hold]
    | deleteRunning u =>
      obtain ⟨proc, hold, rfl⟩ := hok
      obtain ⟨hw, -⟩ := h.at_work hcur (by rw [hold]; rfl)
      obtain ⟨-, rfl⟩ := section_eq hm
      exact h.delete hkeyed rfl rfl rfl rfl hw hold rfl
    | setFinalState q state =>
      exact h.stay rfl (execMem_sameRunning hm (by cases state <;> simp [MemEff.kind])
        (by cases state <;> simp [MemEff.kind])) (.refl _) rfl
    | _ => simp [ExitKind, Eff.kind, MemEff.kind] at hk

theorem registry_env {v : EnvEvent} (h : Registry w ph) (hv : execEnv w v = some w') :
    Registry w' ph := by
  rcases execEnv_mem hv with ⟨rfl, hmem, hepoch⟩ | ⟨-, hmem, hepoch⟩
  · cases hv
    exact h.crash hepoch hmem rfl
  · exact h.frame hepoch ⟨by rw [hmem], by rw [hmem]⟩ (execEnv_follows hv)

end Step

/-! ## Every run -/

/-- A daemon has just made its manager.  The processes that there are belong
to earlier daemons. -/
structure World.Booted (w : World) : Prop where
  mem : w.mem = .fresh
  os : ∀ p o, w.host.os p = some o → p < w.host.nextPid ∧ o.epoch < w.epoch

theorem World.booted_sample (rows : List VMRow) (files : List (Path × File)) :
    (World.sample rows files).Booted :=
  ⟨rfl, fun _ _ ho => by cases ho⟩

/-- A process that this daemon has launched for the VM is alive. -/
def World.lives (w : World) (u : Uuid) (p : Pid) : Bool :=
  (w.host.os p).any fun o => o.alive && o.epoch == w.epoch && o.uuid == u

/-- A live process is registered, or a start that holds the entry of the VM
has just launched it. -/
theorem Registry.lives_cases {w : World} {ph : Tid → LockPhase × LifePhase} {u : Uuid} {p : Pid}
    (h : Registry w ph) (hm : w.mem.Keyed) (hp : w.lives u p = true) :
    (∃ proc, w.mem.running u = some proc ∧ proc.pid = p) ∨
      w.mem.running u = none ∧ ∃ n, (ph (.call w.epoch n)).1 = .start u ∧
        (ph (.call w.epoch n)).2.progress = .spawned p := by
  obtain ⟨o, ho, hlive⟩ := (Option.any_eq_true _ _).mp hp
  simp only [Bool.and_eq_true, beq_iff_eq] at hlive
  obtain ⟨⟨halive, hepoch⟩, rfl⟩ := hlive
  cases hwatched : w.mem.watched p with
  | some proc =>
    -- Its exit handler waits: it is only woken for a process that has exited.
    have hwait : (ph (.exit p)).2.exit = .waiting := by
      by_contra hne
      simp [h.awake p proc o hwatched hne ho] at halive
    obtain ⟨o', ho', -, hu⟩ := h.watched p proc hwatched
    obtain rfl : o = o' := Option.some.inj (ho.symm.trans ho')
    exact .inl ⟨proc, hu ▸ h.waiting p proc hwatched hwait, hm.watched p proc hwatched⟩
  | none =>
    obtain ⟨n, hn⟩ := (h.alive p o ho hepoch halive).resolve_left (absurd hwatched)
    obtain ⟨-, o', ho', -, hlock⟩ := h.spawned n p hn
    obtain rfl : o = o' := Option.some.inj (ho.symm.trans ho')
    exact .inr ⟨h.early n o.uuid hlock (by rw [hn]; rfl), n, hlock, hn⟩

section Reach

variable {cfg : Config} {calls : Calls} {w : World} {s : MState} {K : MState → MLabel → Prop}

theorem World.Booted.registry (hw : w.Booted) : Registry w fun _ => life.start := by
  have hold : ∀ p o, w.host.os p = some o → o.epoch ≠ w.epoch :=
    fun p o ho => ne_of_lt (hw.os p o ho).2
  refine ⟨fun p o ho => ⟨(hw.os p o ho).1, le_of_lt (hw.os p o ho).2⟩, ?_, fun _ _ _ => rfl, ?_,
    ?_, ?_, ?_, ?_, ?_, ?_, fun p o ho he => absurd he (hold p o ho), fun _ _ _ => rfl⟩
  all_goals simp [hw.mem, Mem.fresh, life, Monitor.above, lock]

/-- In every run an action is in order for what the thread holds. -/
theorem lock_ok_reach (hw : w.mem = .fresh) (h : system.Reach K (start cfg calls w) s) {t : Tid}
    {β : Type} {e : Eff β} {k : β → Prog Eff (Except Err Unit)} {b : β}
    (hp : s.prog t = .act e k) (hb : Answers e b) : lock.ok (lock.phases s t) e b :=
  ok_reach (answers_reach hw) (lock_threads cfg calls t) h hp hb

/-- In every run an action is in order for what the thread has done. -/
theorem life_ok_reach (hw : w.mem = .fresh) (h : system.Reach K (start cfg calls w) s) {t : Tid}
    {o : Outcome} {w' : World} {β : Type} {e : Eff β} {k : β → Prog Eff (Except Err Unit)} {b : β}
    (hp : s.prog t = .act e k) (he : exec t s.world e o = some (b, w')) :
    life.ok (life.phases s t) e b :=
  ok_reach (answers_reach hw) (life_threads cfg calls t) h hp (answers_reach hw _ _ _ _ _ _ h he)

/-- In every run `running`, the goroutines and the processes agree with what
the threads have done. -/
theorem registry_reach (hw : w.Booted) (h : system.Reach K (start cfg calls w) s) :
    Registry s.world (life.phases s) := by
  refine Monitor.invariant (A := Answers) (answers_reach hw.mem) (life_threads cfg calls)
    hw.registry ?_ (fun s v w' _ ih _ hv => registry_env ih hv) h
  intro s t o β e k b w' hr ih _ hp he hb hok
  cases t with
  | exit p =>
    have hkind := exitKind_reach hr p
    have hwait : (s.prog (.exit p)).All (WaitsFor p) := hr.all (waitsFor_exitHandler p)
    rw [hp] at hkind hwait
    exact registry_exit ih (keyed_reach hw.mem hr) hkind.1 hwait.1 hok he
  | call epoch n =>
    obtain rfl := epoch_of_current (exec_current he)
    have hkind := callKind_reach hr s.world.epoch n
    rw [hp] at hkind
    refine registry_call ih (keyed_reach hw.mem hr) ?_ hkind.1 ?_ hok he
    · intro k k' u hk hk'
      rw [life_phases_fst] at hk hk'
      exact (lockInv_reach hw.mem hr).locks.sole k k' u hk hk'
    · rw [life_phases_fst]
      exact lock_ok_reach hw.mem hr hp hb

theorem life_exit_waiting {l : LockPhase × LifePhase} {β : Type} (e : Eff β) (b : β)
    (hk : CallKind e.kind) (h : l.2.exit = .waiting) : (life.next l e b).2.exit = .waiting := by
  obtain ⟨l, g, x, st⟩ := l
  obtain rfl : x = .waiting := h
  cases e with
  | store e =>
    cases e with
    | getVM c u => cases c <;> cases b <;> cases g <;> rfl
    | _ => rfl
  | host e =>
    cases e with
    | linkAdd tap u | cmdStart c => cases b <;> rfl
    | _ => rfl
  | mem e =>
    cases e with
    | getRunning u | stillRunning proc => cases b <;> rfl
    | cmdWait p => exact absurd rfl hk.1
    | deleteRunning u => exact absurd rfl hk.2
    | _ => rfl

/-- An exit handler that has been woken does not wait again. -/
theorem life_exit_ne_waiting {l : LockPhase × LifePhase} {β : Type} (e : Eff β) (b : β)
    (h : l.2.exit ≠ .waiting) : (life.next l e b).2.exit ≠ .waiting := by
  obtain ⟨l, g, x, st⟩ := l
  cases e with
  | store e =>
    cases e with
    | setVMState c u state => cases x <;> simp_all [life, Monitor.above, lifeNextStore]
    | getVM c u => cases c <;> cases b <;> cases g <;> exact h
    | _ => exact h
  | host e =>
    cases e with
    | linkAdd tap u | cmdStart c => cases b <;> exact h
    | _ => exact h
  | mem e =>
    cases e with
    | getRunning u | stillRunning proc => cases b <;> exact h
    | getFinalState p => cases x <;> simp_all [life, Monitor.above, lifeNextMem]
    | cmdWait p | deleteRunning u => exact ExitStage.noConfusion
    | _ => exact h

/-- An exit handler that waits has not taken a step. -/
theorem exit_prog_of_waiting (h : system.Reach K (start cfg calls w) s) {p : Pid}
    (hwait : (life.phases s (.exit p)).2.exit = .waiting) :
    s.prog (.exit p) = finish (exitHandler p) := by
  revert hwait
  refine h.invariant (I := fun s => (life.phases s (.exit p)).2.exit = .waiting →
    s.prog (.exit p) = finish (exitHandler p)) (fun _ => rfl) ?_
  intro s l s' _ ih _ hs hwait
  rcases System.step_cases hs with
    ⟨t, o, -, β, e, k, b, w', hp, -, rfl⟩ | ⟨t, o, -, β, body, k, hp, rfl⟩ | ⟨v, w', -, -, rfl⟩
  · rw [phases_update] at hwait
    by_cases ht : t = .exit p
    · subst ht
      rw [update_self] at hwait
      have hold : (life.phases s (.exit p)).2.exit = .waiting := by
        by_contra hne
        exact life_exit_ne_waiting e b hne hwait
      -- The first action of an exit handler is the wait that ends here.
      have hprog := ih hold
      rw [hp] at hprog
      cases hprog
      cases hwait
    · rw [update_of_ne (Ne.symm ht)] at hwait
      exact (update_of_ne (Ne.symm ht) _ _).trans (ih hwait)
  · by_cases ht : t = .exit p
    · subst ht
      rw [ih hwait] at hp
      cases hp
    · exact (update_of_ne (Ne.symm ht) _ _).trans (ih hwait)
  · exact ih hwait

/-- A call never waits for a process as an exit handler does. -/
theorem call_exit_waiting (h : system.Reach K (start cfg calls w) s) (epoch n : Nat) :
    (life.phases s (.call epoch n)).2.exit = .waiting :=
  phase_reach (M := life) (J := fun l => l.2.exit = .waiting) rfl
    (callKind_threads cfg calls epoch n) (fun _ e b hl hk => life_exit_waiting e b hk hl) h

/-- A thread that has done something was given a call. -/
theorem call_of_phase (h : system.Reach K (start cfg calls w) s) {epoch n : Nat}
    (hne : life.phases s (.call epoch n) ≠ life.start) : ∃ op, calls epoch n = some op := by
  cases hop : calls epoch n with
  | some op => exact ⟨op, rfl⟩
  | none =>
    refine absurd ?_ hne
    exact phase_reach (M := life) (J := (· = life.start)) (P := fun _ => False)
      (t := .call epoch n) rfl (by simp only [threads, hop]; trivial)
      (fun _ _ _ _ hfalse => hfalse.elim) h

/-- In every run at most one process of a VM lives, and it is registered as
long as no call is between its begin and its end for the VM. -/
theorem one_process_per_vm (hw : w.Booted) (h : system.Reach K (start cfg calls w) s) {u : Uuid}
    {p : Pid} (hp : s.world.lives u p = true) :
    (∀ q, s.world.lives u q = true → q = p) ∧
      ((∀ t, ¬ Between s t u) → ∃ proc, s.world.mem.running u = some proc ∧ proc.pid = p) := by
  have hcases := fun p => (registry_reach hw h).lives_cases (u := u) (p := p) (keyed_reach hw.mem h)
  simp only [life_phases_fst] at hcases
  rcases hcases p hp with ⟨proc, hproc, rfl⟩ | ⟨hnone, n, hlock, hn⟩
  · refine ⟨fun q hq => ?_, fun _ => ⟨proc, hproc, rfl⟩⟩
    rcases hcases q hq with ⟨proc', hproc', rfl⟩ | ⟨hnone, -⟩
    · rw [Option.some.inj (hproc.symm.trans hproc')]
    · simp [hnone] at hproc
  · have howner : (lock.phases s (.call s.world.epoch n)).owner = some u := by rw [hlock]; rfl
    refine ⟨fun q hq => ?_, fun hfree => absurd ⟨current_call s n, howner⟩ (hfree _)⟩
    rcases hcases q hq with ⟨proc, hproc, -⟩ | ⟨-, n', hlock', hn'⟩
    · simp [hnone] at hproc
    · -- Only one call holds the entry.
      obtain rfl := (lockInv_reach hw.mem h).locks.sole n n' u howner (by rw [hlock']; rfl)
      exact Progress.spawned.inj (hn'.symm.trans hn)

/-! ## Archives -/

/-- The action copies, moves or removes a file. -/
def HostEff.movesFile : {β : Type} → HostEff β → Bool
  | _, .openRead _ => true
  | _, .copyData _ _ _ _ => true
  | _, .rename _ _ => true
  | _, .remove _ => true
  | _, .removeAll _ => true
  | _, _ => false

/-- The next action of the thread copies, moves or removes a file. -/
def movesFile (s : MState) (t : Tid) : Bool :=
  match s.prog t with
  | .act (.host e) _ => e.movesFile
  | _ => false

/-- The monitor of the begin and end functions, for an archive that moves
files after its check only. -/
def archiveLock (u : Uuid) : Monitor Eff LockPhase where
  start := .out
  ok := fun l e _ =>
    match e with
    | .host e => e.movesFile = true → ∃ a, l = .archive u a true
    | _ => True
  next := fun l e b => lock.next l e b

theorem lock_next_checked {u : Uuid} {a : ArchiveId} {β : Type} (e : Eff β) (b : β)
    (he : LockFree e.kind) : lock.next (.archive u a true) e b = .archive u a true := by
  cases e with
  | store e | host e => rfl
  | mem e => cases e <;> simp_all [LockFree, Eff.kind, MemEff.kind, lock, lockNextMem]

theorem archiveLock_archiveStopped {cfg : Config} {u : Uuid} {a : ArchiveId} {now : Nat} :
    (archiveLock u).Conforms Answers (archiveStopped cfg u a now).run (.archive u a false)
      fun _ _ => True := by
  unfold archiveStopped
  refine conforms_call_bind (fun vm hvm => ⟨trivial, ?_⟩) fun _ _ => ⟨trivial, trivial⟩
  obtain rfl : vm.uuid = u := hvm vm rfl
  split
  swap
  · trivial
  refine conforms_sect_bind fun r _ => ⟨trivial, ?_⟩
  cases r with
  | some proc => trivial
  | none =>
    -- From here on the archive has checked, and keeps its phase.
    have hnext : lock.next (.archive vm.uuid a false) (.mem (.getRunning vm.uuid)) none =
        .archive vm.uuid a true := by simp [lock, lockNextMem]
    refine conforms_of_all (P := fun e => LockFree e.kind) (· = .archive vm.uuid a true)
      ?_ hnext ?_ fun _ _ _ => trivial
    · show Uses LockFree _
      unfold LockFree
      repeat' first | refine uses_run_bind ?_ fun _ => ?_ | split
      all_goals grind
    · rintro β _ e b rfl he -
      refine ⟨?_, lock_next_checked e b he⟩
      cases e with
      | host e => exact fun _ => ⟨a, rfl⟩
      | _ => trivial

theorem archiveLock_archiveStoppedVM {cfg : Config} {u : Uuid} {now : Nat} :
    (archiveLock u).Conforms Answers (archiveStoppedVM cfg u now).run .out fun _ _ => True := by
  unfold archiveStoppedVM beginColdArchiveOperation
  split
  swap
  · trivial
  refine conforms_run_bind.mpr ?_
  refine conforms_call_bind (fun _ _ => ⟨trivial, ?_⟩) fun _ _ => ⟨trivial, trivial⟩
  refine conforms_sect_bind fun r _ => ⟨trivial, ?_⟩
  cases r with
  | none => trivial
  | some a =>
    refine conforms_deferred.mpr (conforms_mono ?_ archiveLock_archiveStopped)
    exact fun _ _ _ _ _ => ⟨trivial, fun _ _ => ⟨trivial, trivial⟩⟩

theorem HostEff.exists_answer {β : Type} (e : HostEff β) (h : e.movesFile = true) :
    ∃ b, Answers (.host e) b := by
  cases e with
  | openRead p | copyData c dst src f | rename src dst | remove p | removeAll dir =>
    exact ⟨.error .io, trivial⟩
  | _ => cases h

/-- An `ArchiveStoppedVM` moves files after its check only. -/
theorem archiveChecked_of_movesFile (hw : w.mem = .fresh)
    (h : system.Reach K (start cfg calls w) s) {n now : Nat} {u : Uuid}
    (hop : calls s.world.epoch n = some (.archiveStoppedVM u now))
    (hmoves : movesFile s (.call s.world.epoch n) = true) :
    ArchiveChecked s (.call s.world.epoch n) u := by
  unfold movesFile at hmoves
  split at hmoves
  swap
  · cases hmoves
  rename_i e k hp
  obtain ⟨b, hb⟩ := e.exists_answer hmoves
  have hprog : (archiveLock u).Conforms Answers (threads cfg calls (.call s.world.epoch n)) .out
      fun _ _ => True := by
    rw [threads_some hop]
    exact conforms_bind.mpr archiveLock_archiveStoppedVM
  obtain ⟨a, ha⟩ := ok_reach (answers_reach hw) hprog h hp hb hmoves
  refine ⟨current_call s n, a, Eq.trans ?_ ha⟩
  exact phases_congr (by rfl) (fun _ _ _ => by rfl) s _

/-- A live process of a VM is registered, or launched by a start that holds
the entry of the VM: there is none while an archive has checked. -/
theorem not_lives_of_archiveChecked (hw : w.Booted) (h : system.Reach K (start cfg calls w) s)
    {t : Tid} {u : Uuid} (hc : ArchiveChecked s t u) (p : Pid) : s.world.lives u p = false := by
  have hinv := lockInv_reach hw.mem h
  obtain ⟨n, rfl⟩ := hinv.call_of_owner hc.between
  obtain ⟨-, a, ha⟩ := hc
  rw [Bool.eq_false_iff]
  intro hp
  rcases (registry_reach hw h).lives_cases (keyed_reach hw.mem h) hp with ⟨proc, hproc, -⟩ |
    ⟨-, n', hlock, -⟩
  · simp [hinv.locks.checked n u a ha] at hproc
  · rw [life_phases_fst] at hlock
    obtain rfl := hinv.locks.sole n n' u (by rw [ha]; rfl) (by rw [hlock]; rfl)
    simp [ha] at hlock

/-- In every run of any calls:

* at most one call is between its begin and its end for a VM;
* an entry of `coldArchives` belongs to an archive that holds `vmOps`;
* the `done` channel of an archive is closed once, when the archive ends;
* no call passes its begin while an archive of the VM is unfinished;
* from the check of an archive to its end no process of the VM is
  registered, and none lives;
* an archive copies, moves and removes files after its check only. -/
theorem begin_end_exclusion (hw : w.Booted) (h : system.Reach AnyStep (start cfg calls w) s) :
    (∀ t t' u, Between s t u → Between s t' u → t = t') ∧
    (∀ u a, s.world.mem.coldArchives u = some a →
      (∃ t, Archiving s t u a) ∧ s.world.mem.vmOps u = true) ∧
    (∀ a, a < s.world.mem.nextArchive →
      (∃ t u, Archiving s t u a) ∧ s.world.mem.doneCloses a = 0 ∨
        (¬ ∃ t u, Archiving s t u a) ∧ s.world.mem.doneCloses a = 1) ∧
    (∀ t o s' u, system.step s (.thread t o) = some s' → ¬ Between s t u → Between s' t u →
      ∀ t' a, ¬ Archiving s t' u a) ∧
    (∀ t u, ArchiveChecked s t u →
      s.world.mem.running u = none ∧ ∀ p, s.world.lives u p = false) ∧
    (∀ n u now, calls s.world.epoch n = some (.archiveStoppedVM u now) →
      movesFile s (.call s.world.epoch n) = true → ArchiveChecked s (.call s.world.epoch n) u) := by
  have hinv := lockInv_reach hw.mem h
  refine ⟨fun _ _ _ => hinv.sole, fun _ _ => hinv.cold, ?_, ?_, ?_,
    fun _ _ _ hop => archiveChecked_of_movesFile hw.mem h hop⟩
  · intro a ha
    by_cases hex : ∃ t u, Archiving s t u a
    · obtain ⟨t, u, htu⟩ := hex
      exact Or.inl ⟨⟨t, u, htu⟩, (hinv.installed htu).2⟩
    · refine Or.inr ⟨hex, (hinv.locks.closed a ha).resolve_right ?_⟩
      rintro ⟨n, u, hn⟩
      exact hex ⟨_, u, current_call s n, hn⟩
  · intro t o s' u hs hout hin t' a
    exact hinv.no_archive_of_passed (lockInv_reach hw.mem (h.tail trivial hs)) hs hout hin
  · intro t u hc
    refine ⟨?_, not_lives_of_archiveChecked hw h hc⟩
    obtain ⟨n, rfl⟩ := hinv.call_of_owner hc.between
    obtain ⟨-, a, ha⟩ := hc
    exact hinv.locks.checked n u a ha

/-- The statement at work: an archive of a stopped VM is about to copy its
disk, while a start of the VM waits for it. -/
theorem begin_end_exclusion_archive :
    ∃ s, system.Reach AnyStep
        (start .sample (.ofList [.archiveStoppedVM 0 60000000000, .startVM 0])
          (.sample [.sample "a" 3] [(Config.sample.diskPath "a", .image .base)])) s ∧
      movesFile s (.call 0 0) = true ∧ ArchiveChecked s (.call 0 0) 0 ∧
      s.world.mem.running 0 = none ∧ (∀ p, s.world.lives 0 p = false) ∧
      ¬ Between s (.call 0 1) 0 := by
  obtain ⟨s, hs, hP⟩ := system.exists_reach
    (s := start .sample (.ofList [.archiveStoppedVM 0 60000000000, .startVM 0])
      (.sample [.sample "a" 3] [(Config.sample.diskPath "a", .image .base)]))
    (l := steps (.call 0 0) 8 ++ steps (.call 0 1) 3)
    (P := fun s => decide (s.world.epoch = 0) && movesFile s (.call 0 0))
    (by decide)
  obtain ⟨hepoch, hmoves⟩ : s.world.epoch = 0 ∧ movesFile s (.call 0 0) = true := by simpa using hP
  obtain ⟨hsole, -, -, -, hquiet, hfiles⟩ :=
    begin_end_exclusion (World.booted_sample _ _) hs
  rw [hepoch] at hfiles
  have hchecked : ArchiveChecked s (.call 0 0) 0 := hfiles 0 0 60000000000 rfl hmoves
  obtain ⟨hnone, hdead⟩ := hquiet _ _ hchecked
  refine ⟨s, hs, hmoves, hchecked, hnone, hdead, fun hb => ?_⟩
  simpa using hsole _ _ _ hchecked.between hb

end Reach

end Firedoze
