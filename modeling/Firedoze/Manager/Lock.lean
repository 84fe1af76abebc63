import Firedoze.Manager.Frame

/-!
# The begin and end functions
-/

namespace Firedoze

open Conc Conc.Prog Conc.Monitor Function

/-- What a thread holds of `vmOps` and `coldArchives`: nothing, the entry of
an operation, the entry of a start, or the entries of an archive.  The last
one also says whether the archive has seen that no process is registered. -/
inductive LockPhase
  | out
  | vm (u : Uuid)
  | start (u : Uuid)
  | archive (u : Uuid) (a : ArchiveId) (checked : Bool)
  deriving DecidableEq, Repr

/-- The VM whose entry of `vmOps` the thread holds. -/
@[simp, grind =]
def LockPhase.owner : LockPhase → Option Uuid
  | .out => none
  | .vm u => some u
  | .start u => some u
  | .archive u _ _ => some u

/-- The archive whose entry of `coldArchives` the thread has installed. -/
@[simp, grind =]
def LockPhase.archived : LockPhase → Option (Uuid × ArchiveId)
  | .out => none
  | .vm _ => none
  | .start _ => none
  | .archive u a _ => some (u, a)

theorem LockPhase.owner_of_archived {l : LockPhase} {u : Uuid} {a : ArchiveId}
    (h : l.archived = some (u, a)) : l.owner = some u := by
  cases l <;> grind

/-- A start of the VM that comes to its critical section now takes the entry. -/
def Mem.grants (m : Mem) (u : Uuid) : Bool :=
  (m.running u).isNone && decide ((m.enter u).1 = .entered)

theorem grants_of_entered {w : World} {t : Tid} {o : Outcome} {u : Uuid} {m : Mem}
    (h : execMem w t o (.enterStart u) = some (.entered, m)) : w.mem.grants u = true := by
  cases o <;> simp only [execMem, Option.some.injEq, reduceCtorEq] at h
  split at h
  · cases h
  · rename_i hrun
    simp [Mem.grants, h, Option.not_isSome_iff_eq_none.mp hrun]

/-- The phase after a critical section. -/
def lockNextMem (l : LockPhase) : {β : Type} → MemEff β → β → LockPhase
  | _, .enterVM u, r => if r = .entered then .vm u else l
  | _, .enterStart u, r => if r = .entered then .start u else l
  | _, .enterArchive u, r => r.elim l fun a => .archive u a false
  | _, .endVMOperation _, _ => .out
  | _, .endArchive _ _, _ => .out
  | _, .getRunning v, r =>
      match l with
      | .archive u a checked => .archive u a (checked || (decide (v = u) && r.isNone))
      | l => l
  | _, _, _ => l

/-- When a critical section is in order. -/
def lockOkMem (l : LockPhase) : {β : Type} → MemEff β → β → Prop
  | _, .enterVM _, _ => l = .out
  | _, .enterStart _, _ => l = .out
  | _, .enterArchive _, _ => l = .out
  | _, .endVMOperation u, _ => l = .vm u ∨ l = .start u
  | _, .endArchive u a, _ => ∃ checked, l = .archive u a checked
  | _, .setRunning proc, _ => l = .start proc.uuid
  | _, _, _ => True

/-- The monitor of the begin and end functions. -/
def lock : Monitor Eff LockPhase where
  start := .out
  ok := fun l e b =>
    match e with
    | .mem e => lockOkMem l e b
    | _ => True
  next := fun l e b =>
    match e with
    | .mem e => lockNextMem l e b
    | _ => l

/-- The phase without the note that an archive has checked `running`. -/
def LockPhase.base : LockPhase → LockPhase
  | .archive u a _ => .archive u a false
  | l => l

/-- Such actions are always in order and leave what a thread holds alone, but
for the check of an archive. -/
theorem lock_free {l : LockPhase} {β : Type} (e : Eff β) (b : β) (he : LockFree e.kind) :
    lock.ok l e b ∧ (lock.next l e b).base = l.base := by
  cases e with
  | store e | host e => exact ⟨trivial, rfl⟩
  | mem e =>
    cases e <;> simp_all [LockFree, Eff.kind, MemEff.kind, lock, lockOkMem, lockNextMem]
    cases l <;> rfl

/-- A program of free kinds conforms. -/
theorem lock_conforms_of_uses {α : Type} {p : Prog Eff α} {l : LockPhase}
    {Q : α → LockPhase → Prop} (hp : Uses LockFree p) (hQ : ∀ a l', l'.base = l.base → Q a l') :
    lock.Conforms Answers p l Q := by
  refine conforms_of_all (fun l' => l'.base = l.base) hp rfl ?_ hQ
  intro β l' e b hl' he _
  obtain ⟨hok, hnext⟩ := lock_free e b he
  exact ⟨hok, hnext.trans hl'⟩

/-! ## The programs -/

section Programs

variable {l : LockPhase} {cfg : Config} {vm : VM} {u : Uuid}

theorem lock_cancelingColdArchive {enter : MemEff BeginAnswer} {held : LockPhase}
    (hok : ∀ r, lockOkMem .out enter r)
    (hnext : ∀ r, lockNextMem .out enter r = if r = .entered then held else .out) :
    lock.Conforms Answers (cancelingColdArchive enter).run .out fun r l =>
      l = if r.isOk then held else .out := by
  unfold cancelingColdArchive
  refine conforms_forever (· = .out) rfl ?_
  rintro _ rfl
  refine conforms_call_bind (fun _ _ => ⟨trivial, ?_⟩) fun _ _ => ⟨trivial, rfl⟩
  refine conforms_sect_bind fun r _ => ⟨hok r, ?_⟩
  cases r with
  | entered => exact hnext .entered
  | busy => exact hnext .busy
  | archiving a =>
    refine conforms_call_bind (fun _ _ => ⟨trivial, ?_⟩) fun _ _ => ⟨trivial, ?_⟩
    · exact hnext (.archiving a)
    · exact hnext (.archiving a)

theorem lock_beginVMOperation :
    lock.Conforms Answers (beginVMOperationCancelingColdArchive u).run .out fun r l =>
      l = if r.isOk then .vm u else .out :=
  lock_cancelingColdArchive (fun _ => rfl) fun _ => rfl

theorem lock_beginStartOperation :
    lock.Conforms Answers (beginStartOperationCancelingColdArchive u).run .out fun r l =>
      l = if r.isOk then .start u else .out :=
  lock_cancelingColdArchive (fun _ => rfl) fun _ => rfl

/-- The actions of an operation that holds the entry of a start. -/
def StartAction (u : Uuid) : {β : Type} → Eff β → Prop
  | _, .mem (.setRunning proc) => proc.uuid = u
  | _, e => LockFree e.kind

theorem startAction_of_free {β : Type} (e : Eff β) (he : LockFree e.kind) : StartAction u e := by
  cases e with
  | store e | host e => exact he
  | mem e => cases e <;> simp_all [StartAction, Eff.kind, MemEff.kind, LockFree]

/-- `StartVM` keeps its entry until its deferred end. -/
theorem lock_startLocked :
    lock.Conforms Answers (startLocked cfg u).run (.start u) fun _ l => l = .start u := by
  have hskip : ∀ {α : Type} {p : Prog Eff α}, p.All (StartAction u) →
      lock.Conforms Answers p (.start u) fun _ l => l = .start u := by
    intro α p hp
    refine conforms_of_all (· = .start u) hp rfl ?_ fun _ _ h => h
    rintro β _ e b rfl he -
    cases e with
    | store e | host e => exact ⟨trivial, rfl⟩
    | mem e => cases e <;> simp_all [StartAction, Eff.kind, MemEff.kind, LockFree, lock, lockOkMem,
        lockNextMem]
  unfold startLocked
  refine conforms_call_bind (fun vm hvm => ⟨trivial, hskip ?_⟩) fun _ _ => ⟨trivial, rfl⟩
  obtain rfl : vm.uuid = u := hvm vm rfl
  split
  · exact all_run_throw _
  · split
    · exact all_resumeVM startAction_of_free fun _ _ _ => rfl
    · exact all_bootVM startAction_of_free fun _ _ _ => rfl

theorem lock_startVM :
    lock.Conforms Answers (startVM cfg u).run .out fun _ l => l = .out := by
  unfold startVM
  refine conforms_then lock_beginStartOperation (fun _ l hl => ?_) fun _ _ hl => hl
  obtain rfl : l = .start u := hl
  refine conforms_deferred.mpr (conforms_mono ?_ lock_startLocked)
  rintro _ _ rfl
  exact fun _ _ => ⟨Or.inr rfl, rfl⟩

/-- An operation between `beginVMOperationCancelingColdArchive` and
`endVMOperation` gives its entry back. -/
theorem lock_vmOperation {α : Type} {body : Go α} (hbody : Uses LockFree body.run) :
    lock.Conforms Answers
      (beginVMOperationCancelingColdArchive u >>= fun _ => deferred body (endVMOperation u)).run
      .out fun _ l => l = .out := by
  refine conforms_then lock_beginVMOperation (fun _ l hl => ?_) fun _ _ hl => hl
  obtain rfl : l = .vm u := hl
  refine conforms_deferred.mpr (lock_conforms_of_uses hbody ?_)
  intro _ l hl
  obtain rfl : l = .vm u := by cases l <;> simp_all [LockPhase.base]
  exact fun _ _ => ⟨Or.inl rfl, rfl⟩

/-- The phase is that of a thread that holds nothing. -/
theorem LockPhase.eq_out {l : LockPhase} (h : l.base = .out) : l = .out := by
  cases l <;> simp_all [LockPhase.base]

theorem lock_deleteVM : lock.Conforms Answers (deleteVM cfg u).run .out fun _ l => l = .out := by
  unfold deleteVM
  refine conforms_call_bind (fun vm _ => ⟨trivial, lock_vmOperation ?_⟩)
    fun _ _ => ⟨trivial, rfl⟩
  apply uses_deleteLocked <;> simp [LockFree]

theorem lock_saveSnapshot {name : String} :
    lock.Conforms Answers (saveSnapshot cfg name u).run .out fun _ l => l = .out := by
  unfold saveSnapshot
  split
  · rfl
  refine conforms_call_bind (fun present _ => ⟨trivial, ?_⟩) fun _ _ => ⟨trivial, rfl⟩
  split
  · rfl
  refine conforms_call_bind (fun vm _ => ⟨trivial, lock_vmOperation ?_⟩)
    fun _ _ => ⟨trivial, rfl⟩
  unfold LockFree
  grind

theorem lock_beginColdArchive :
    lock.Conforms Answers (beginColdArchiveOperation u).run .out fun r l =>
      l = r.toOption.elim .out fun a => .archive u a false := by
  unfold beginColdArchiveOperation
  refine conforms_call_bind (fun _ _ => ⟨trivial, ?_⟩) fun _ _ => ⟨trivial, rfl⟩
  refine conforms_sect_bind fun r _ => ⟨rfl, ?_⟩
  cases r with
  | none | some a => rfl

theorem lock_archiveStoppedVM {now : Nat} :
    lock.Conforms Answers (archiveStoppedVM cfg u now).run .out fun _ l => l = .out := by
  unfold archiveStoppedVM
  split
  swap
  · rfl
  refine conforms_then lock_beginColdArchive (fun a l hl => ?_) fun _ _ hl => hl
  obtain rfl : l = .archive u a false := hl
  refine conforms_deferred.mpr (lock_conforms_of_uses ?_ ?_)
  · unfold LockFree
    grind
  · intro _ l hl
    obtain ⟨c, rfl⟩ : ∃ c, l = .archive u a c := by
      cases l <;> simp_all [LockPhase.base]
    exact fun _ _ => ⟨trivial, fun _ _ => ⟨⟨c, rfl⟩, rfl⟩⟩

theorem lock_rebootVM : lock.Conforms Answers (rebootVM cfg u).run .out fun _ l => l = .out := by
  unfold rebootVM
  refine conforms_call_bind (fun vm _ => ⟨trivial, ?_⟩) fun _ _ => ⟨trivial, rfl⟩
  refine conforms_sect_bind fun r _ => ⟨trivial, ?_⟩
  have hstop : ∀ {α : Type} {x : Go α} {f : α → Go VM}, Uses LockFree x.run →
      (∀ a, f a = startVM cfg u) →
      lock.Conforms Answers (x >>= f).run .out fun _ l => l = .out := by
    intro α x f hx hf
    refine conforms_run_bind.mpr (lock_conforms_of_uses hx ?_)
    intro r l hl
    obtain rfl := LockPhase.eq_out hl
    cases r with
    | error e => rfl
    | ok a =>
      show lock.Conforms Answers (f a).run .out _
      rw [hf a]
      exact lock_startVM
  cases r with
  | some proc | none =>
    refine hstop ?_ fun _ => rfl
    unfold LockFree
    grind

end Programs

/-- Every thread takes entries only when it has none, and gives back what it
has taken before it comes to its end. -/
theorem lock_threads (cfg : Config) (calls : Calls) (t : Tid) :
    lock.Conforms Answers (threads cfg calls t) .out fun _ l => l = .out := by
  refine conforms_threads (M := lock) (Q := fun _ _ l => l = .out) (fun p => ?_)
    (fun _ _ => rfl) (fun epoch n op hop => ?_) t
  · exact conforms_finish (lock_conforms_of_uses (by grind) fun _ _ hl => LockPhase.eq_out hl)
  · cases op with
    | startVM u => exact conforms_finish lock_startVM
    | rebootVM u => exact conforms_finish lock_rebootVM
    | deleteVM u => exact conforms_finish lock_deleteVM
    | archiveStoppedVM u now => exact conforms_finish lock_archiveStoppedVM
    | saveSnapshot name u => exact conforms_finish lock_saveSnapshot
    | _ =>
      exact lock_conforms_of_uses ((uses_op cfg _).mono (by simp [Op.kinds, LockFree]))
        fun _ _ hl => LockPhase.eq_out hl

/-! ## The invariant -/

/-- How the entries of `vmOps` and `coldArchives` agree with what the threads
of a daemon hold. -/
structure Locks (m : Mem) (ph : Nat → LockPhase) : Prop where
  held : ∀ n u, (ph n).owner = some u → m.vmOps u = true
  sole : ∀ n n' u, (ph n).owner = some u → (ph n').owner = some u → n = n'
  installed : ∀ n u a, (ph n).archived = some (u, a) → m.coldArchives u = some a
  same : ∀ n n' u u' a, (ph n).archived = some (u, a) → (ph n').archived = some (u', a) → n = n'
  opened : ∀ n u a, (ph n).archived = some (u, a) → a < m.nextArchive ∧ m.doneCloses a = 0
  unborn : ∀ a, m.nextArchive ≤ a → m.doneCloses a = 0
  checked : ∀ n u a, ph n = .archive u a true → m.running u = none
  cold : ∀ u a, m.coldArchives u = some a → ∃ n, (ph n).archived = some (u, a)
  closed : ∀ a, a < m.nextArchive → m.doneCloses a = 1 ∨ ∃ n u, (ph n).archived = some (u, a)

theorem locks_fresh : Locks .fresh fun _ => .out := by
  constructor <;> simp [LockPhase.owner, LockPhase.archived, Mem.fresh]

section Step

variable {m m' : Mem} {ph : Nat → LockPhase} {n : Nat} {l : LockPhase} {u : Uuid} {a : ArchiveId}

theorem exists_update_iff {P : LockPhase → Prop} (hn : P (ph n) ↔ P l) :
    (∃ k, P (update ph n l k)) ↔ ∃ k, P (ph k) := by
  refine exists_congr fun k => ?_
  by_cases hk : k = n
  · subst hk
    simp [hn]
  · simp [hk]

theorem exists_archived_update (hn : (ph n).archived = l.archived) (u : Uuid) (a : ArchiveId) :
    (∃ k, (update ph n l k).archived = some (u, a)) ↔ ∃ k, (ph k).archived = some (u, a) :=
  exists_update_iff (P := fun l => l.archived = some (u, a)) (by rw [hn])

theorem exists_some_archived_update (hn : (ph n).archived = l.archived) (a : ArchiveId) :
    (∃ k u, (update ph n l k).archived = some (u, a)) ↔ ∃ k u, (ph k).archived = some (u, a) :=
  exists_update_iff (P := fun l => ∃ u, l.archived = some (u, a)) (by rw [hn])

/-- A step that leaves the entries alone. -/
theorem Locks.keep (h : Locks m ph) (hm : m.SameLocks m') (hown : l.owner = (ph n).owner)
    (harc : (ph n).archived = l.archived)
    (hrun : ∀ k u a, update ph n l k = .archive u a true → m'.running u = none) :
    Locks m' (update ph n l) := by
  obtain ⟨held, sole, installed, same, opened, unborn, -, cold, closed⟩ := h
  obtain ⟨hops, hcold, hnext, hdone⟩ := hm
  constructor
  case checked => exact hrun
  case cold =>
    intro v a hva
    exact (exists_archived_update harc v a).mpr (cold v a (hcold ▸ hva))
  case closed =>
    intro a ha
    rw [hdone]
    exact (closed a (hnext ▸ ha)).imp_right (exists_some_archived_update harc a).mpr
  all_goals grind [update_apply]

/-- The critical section of a begin function. -/
theorem Locks.enter (h : Locks m ph) (hout : ph n = .out) (hown : l.owner = some u)
    (harc : l.archived = none) :
    Locks (m.enter u).2 (update ph n (if (m.enter u).1 = .entered then l else .out)) := by
  have hself : update ph n .out = ph := by rw [← hout, update_eq_self]
  unfold Mem.enter
  cases hc : m.coldArchives u with
  | some a =>
    simp only [reduceCtorEq, if_false, hself]
    exact ⟨h.held, h.sole, h.installed, h.same, h.opened, h.unborn, h.checked, h.cold, h.closed⟩
  | none =>
    cases ho : m.vmOps u with
    | true =>
      simp only [if_true, reduceCtorEq, if_false, hself]
      exact h
    | false =>
      simp only [Bool.false_eq_true, if_false, if_true]
      obtain ⟨held, sole, installed, same, opened, unborn, checked, cold, closed⟩ := h
      have harc' : (ph n).archived = l.archived := by rw [hout, harc]; rfl
      constructor
      case cold => exact fun v a hva => (exists_archived_update harc' v a).mpr (cold v a hva)
      case closed =>
        exact fun a ha => (closed a ha).imp_right (exists_some_archived_update harc' a).mpr
      all_goals grind [update_apply]

/-- The critical section of `beginColdArchiveOperation`. -/
theorem Locks.enterArchive (h : Locks m ph) (hout : ph n = .out) (ho : m.vmOps u = false) :
    Locks { m with
        vmOps := update m.vmOps u true
        coldArchives := update m.coldArchives u (some m.nextArchive)
        nextArchive := m.nextArchive + 1 }
      (update ph n (.archive u m.nextArchive false)) := by
  obtain ⟨held, sole, installed, same, opened, unborn, checked, cold, closed⟩ := h
  have hcold : ∀ a, m.coldArchives u ≠ some a := by
    intro a ha
    obtain ⟨k, hk⟩ := cold u a ha
    have hheld := held k u (LockPhase.owner_of_archived hk)
    rw [ho] at hheld
    exact Bool.noConfusion hheld
  have hexists : ∀ {P : LockPhase → Prop}, ¬ P .out → (∃ k, P (ph k)) →
      ∃ k, P (update ph n (.archive u m.nextArchive false) k) := by
    intro P hP ⟨k, hk⟩
    refine ⟨k, ?_⟩
    have hkn : k ≠ n := by
      rintro rfl
      exact hP (hout ▸ hk)
    simpa [hkn] using hk
  constructor
  case cold =>
    intro v a hva
    by_cases hv : v = u
    · subst hv
      obtain rfl : m.nextArchive = a := by simpa using hva
      exact ⟨n, by simp⟩
    · exact hexists (P := fun l => l.archived = some (v, a)) (by simp)
        (cold v a (by simpa [hv] using hva))
  case closed =>
    intro a ha
    by_cases hlt : a < m.nextArchive
    · exact (closed a hlt).imp_right
        (hexists (P := fun l => ∃ u, l.archived = some (u, a)) (by simp))
    · obtain rfl : a = m.nextArchive :=
        Nat.le_antisymm (Nat.lt_succ_iff.mp ha) (Nat.not_lt.mp hlt)
      exact Or.inr ⟨n, u, by simp⟩
  all_goals grind [update_apply]

/-- The critical section of `endVMOperation`. -/
theorem Locks.endVM (h : Locks m ph) (hown : (ph n).owner = some u)
    (harc : (ph n).archived = none) :
    Locks { m with vmOps := update m.vmOps u false } (update ph n .out) := by
  obtain ⟨held, sole, installed, same, opened, unborn, checked, cold, closed⟩ := h
  constructor
  case cold => exact fun v a hva => (exists_archived_update harc v a).mpr (cold v a hva)
  case closed =>
    exact fun a ha => (closed a ha).imp_right (exists_some_archived_update harc a).mpr
  all_goals grind [update_apply]

/-- The critical section of the end of an archive. -/
theorem Locks.endArchive {c : Bool} (h : Locks m ph) (hn : ph n = .archive u a c) :
    Locks { m with
        coldArchives :=
          if m.coldArchives u = some a then update m.coldArchives u none else m.coldArchives
        vmOps := update m.vmOps u false
        doneCloses := update m.doneCloses a (m.doneCloses a + 1) } (update ph n .out) := by
  obtain ⟨held, sole, installed, same, opened, unborn, checked, cold, closed⟩ := h
  have hcold : m.coldArchives u = some a := installed n u a (by simp [hn])
  rw [if_pos hcold]
  constructor
  case cold =>
    intro v a' hva
    have hv : v ≠ u := by rintro rfl; simp at hva
    obtain ⟨k, hk⟩ := cold v a' (by simpa [hv] using hva)
    have hkn : k ≠ n := by
      rintro rfl
      rw [hn] at hk
      exact hv (by simpa using congrArg (Option.map Prod.fst) hk.symm)
    exact ⟨k, by simpa [hkn] using hk⟩
  case closed =>
    intro a' ha'
    by_cases haa : a' = a
    · subst haa
      exact Or.inl (by simp [(opened n u a' (by simp [hn])).2])
    · rcases closed a' ha' with hd | ⟨k, v, hk⟩
      · exact Or.inl (by simpa [haa] using hd)
      · have hkn : k ≠ n := by
          rintro rfl
          rw [hn] at hk
          exact haa (by simpa using congrArg (Option.map Prod.snd) hk.symm)
        exact Or.inr ⟨k, v, by simpa [hkn] using hk⟩
  all_goals grind [update_apply]

/-- An archive is checked when it reads that no process is registered. -/
theorem checked_getRunning {v : Uuid} {r : Option Process}
    (h : lockNextMem l (.getRunning v) r = .archive u a true) :
    l = .archive u a true ∨ v = u ∧ r = none := by
  cases l with
  | archive u' a' c =>
    simp only [lockNextMem, LockPhase.archive.injEq, Bool.or_eq_true, Bool.and_eq_true,
      decide_eq_true_eq, Option.isNone_iff_eq_none] at h
    obtain ⟨rfl, rfl, rfl | hc⟩ := h
    · exact Or.inl rfl
    · exact Or.inr hc
  | _ => simp [lockNextMem] at h

/-- A critical section that is in order keeps the invariant. -/
theorem Locks.step {w : World} {t : Tid} {o : Outcome} {β : Type} {e : MemEff β} {b : β}
    (h : Locks w.mem ph) (he : execMem w t o e = some (b, m')) (hok : lockOkMem (ph n) e b) :
    Locks m' (update ph n (lockNextMem (ph n) e b)) := by
  -- Everything but the begin and end functions leaves the entries alone.
  have hkeep : ∀ l, e.kind ≠ .lock → l.owner = (ph n).owner → (ph n).archived = l.archived →
      (∀ k u a, update ph n l k = .archive u a true → m'.running u = none) →
      Locks m' (update ph n l) :=
    fun l hk hown harc hrun => h.keep (execMem_sameLocks he hk) hown harc hrun
  -- So does everything but a start, which registers, and the check of an archive.
  have hquiet : e.kind ≠ .lock → e.kind ≠ .register → lockNextMem (ph n) e b = ph n →
      Locks m' (update ph n (lockNextMem (ph n) e b)) := by
    intro hk hr hl
    rw [hl]
    refine hkeep _ hk rfl rfl ?_
    intro k u a hk
    rw [update_eq_self] at hk
    exact execMem_running_none he hr (h.checked k u a hk)
  cases e with
  | enterVM u =>
    cases o <;> simp [execMem] at he
    have henter := h.enter (n := n) (l := .vm u) hok rfl rfl
    rw [he] at henter
    rw [hok]
    exact henter
  | enterStart u =>
    cases o <;> simp [execMem] at he
    split at he
    · obtain ⟨rfl, rfl⟩ : BeginAnswer.busy = b ∧ w.mem = m' := by simpa using he
      show Locks w.mem (update ph n (ph n))
      rw [update_eq_self]
      exact h
    · have henter := h.enter (n := n) (l := .start u) hok rfl rfl
      rw [he] at henter
      rw [hok]
      exact henter
  | enterArchive u =>
    cases o <;> simp [execMem] at he
    split at he
    · obtain ⟨rfl, rfl⟩ : none = b ∧ w.mem = m' := by simpa using he
      show Locks w.mem (update ph n (ph n))
      rw [update_eq_self]
      exact h
    · rename_i ho
      obtain ⟨rfl, rfl⟩ : some w.mem.nextArchive = b ∧ _ = m' := by simpa using he
      exact h.enterArchive hok (by simpa using ho)
  | endVMOperation u =>
    cases o <;> simp [execMem] at he
    subst he
    rcases hok with hok | hok
    · exact h.endVM (by simp [hok]) (by simp [hok])
    · exact h.endVM (by simp [hok]) (by simp [hok])
  | endArchive u a =>
    cases o <;> simp [execMem] at he
    subst he
    obtain ⟨c, hc⟩ := hok
    exact h.endArchive hc
  | getRunning v =>
    cases o <;> simp [execMem] at he
    obtain ⟨rfl, rfl⟩ := he
    refine hkeep _ (by simp [MemEff.kind]) ?_ ?_ ?_
    · cases hp : ph n <;> simp [lockNextMem]
    · cases hp : ph n <;> simp [lockNextMem]
    · intro k u a hk
      by_cases hkn : k = n
      · subst hkn
        rw [update_self] at hk
        rcases checked_getRunning hk with hk | ⟨rfl, hnone⟩
        · exact h.checked k u a hk
        · exact hnone
      · rw [update_of_ne hkn] at hk
        exact h.checked k u a hk
  | setRunning proc =>
    cases o <;> simp [execMem] at he
    subst he
    refine hkeep _ (by simp [MemEff.kind]) rfl rfl ?_
    intro k u a hk
    have hk' : ph k = .archive u a true := by simpa [lockNextMem] using hk
    have hrun := h.checked k u a hk'
    have hu : u ≠ proc.uuid := by
      rintro rfl
      obtain rfl := h.sole k n proc.uuid (by simp [hk']) (by rw [hok]; rfl)
      rw [hok] at hk'
      simp at hk'
    simpa [hu] using hrun
  | setFinalState p state =>
    exact hquiet (by cases state <;> simp [MemEff.kind]) (by cases state <;> simp [MemEff.kind]) rfl
  | _ => exact hquiet (by simp [MemEff.kind]) (by simp [MemEff.kind]) rfl

end Step

/-! ## Every run -/

/-- The invariant of the begin and end functions.  A thread of an earlier
daemon takes no step any more, and one of a later daemon has not begun. -/
structure LockInv (w : World) (ph : Tid → LockPhase) : Prop where
  locks : Locks w.mem fun n => ph (.call w.epoch n)
  later : ∀ epoch n, w.epoch < epoch → ph (.call epoch n) = .out
  exits : ∀ p, ph (.exit p) = .out

theorem update_call {L : Type} (ph : Tid → L) (epoch n : Nat) (l : L) :
    (fun k => update ph (.call epoch n) l (.call epoch k)) =
      update (fun k => ph (.call epoch k)) n l :=
  update_comp_eq_of_injective ph (fun _ _ h => (Tid.call.inj h).2) n l

/-- An exit handler takes no entry and registers no process. -/
theorem ExitKind.lockFree {k : Kind} (h : ExitKind k) : LockFree k := by
  rcases h with rfl | rfl | rfl | rfl | rfl | rfl | rfl | rfl <;> simp [LockFree]

theorem lockInv_exit {w w' : World} {ph : Tid → LockPhase} {p : Pid} {o : Outcome} {β : Type}
    {e : Eff β} {b : β} (h : LockInv w ph) (hk : LockFree e.kind)
    (he : exec (.exit p) w e o = some (b, w')) :
    LockInv w' (update ph (.exit p) (lock.next (ph (.exit p)) e b)) := by
  refine ⟨?_, fun epoch n hlt => ?_, fun q => ?_⟩
  · simp only [exec_epoch he, ne_eq, reduceCtorEq, not_false_eq_true, update_of_ne]
    cases e with
    | store e => obtain ⟨_, -, rfl⟩ := exec_store he; exact h.locks
    | host e => obtain ⟨_, -, rfl⟩ := exec_host he; exact h.locks
    | mem e =>
      obtain ⟨m, hm, rfl⟩ := exec_mem he
      have hkeep := h.locks.keep (n := 0) (execMem_sameLocks hm hk.1) rfl rfl
      rw [update_eq_self] at hkeep
      exact hkeep fun k u a hka => execMem_running_none hm hk.2 (h.locks.checked k u a hka)
  · rw [exec_epoch he] at hlt
    simpa using h.later epoch n hlt
  · by_cases hq : q = p
    · subst hq
      rw [update_self]
      refine LockPhase.eq_out ?_
      rw [(lock_free e b hk).2, h.exits]
      rfl
    · simpa [hq] using h.exits q

theorem lockInv_call {w w' : World} {ph : Tid → LockPhase} {n : Nat} {o : Outcome} {β : Type}
    {e : Eff β} {b : β} (h : LockInv w ph) (hok : lock.ok (ph (.call w.epoch n)) e b)
    (he : exec (.call w.epoch n) w e o = some (b, w')) :
    LockInv w' (update ph (.call w.epoch n) (lock.next (ph (.call w.epoch n)) e b)) := by
  refine ⟨?_, fun epoch k hlt => ?_, fun q => by simpa using h.exits q⟩
  · rw [exec_epoch he, update_call]
    cases e with
    | store e =>
      obtain ⟨_, -, rfl⟩ := exec_store he
      show Locks w.mem (update _ n (ph (.call w.epoch n)))
      rw [update_eq_self n (fun k => ph (.call w.epoch k))]
      exact h.locks
    | host e =>
      obtain ⟨_, -, rfl⟩ := exec_host he
      show Locks w.mem (update _ n (ph (.call w.epoch n)))
      rw [update_eq_self n (fun k => ph (.call w.epoch k))]
      exact h.locks
    | mem e =>
      obtain ⟨m, hm, rfl⟩ := exec_mem he
      exact h.locks.step hm hok
  · rw [exec_epoch he] at hlt
    have hne : Tid.call epoch k ≠ .call w.epoch n := by
      intro heq
      exact absurd (Tid.call.inj heq).1 (by omega)
    simpa [hne] using h.later epoch k hlt

theorem lockInv_env {w w' : World} {ph : Tid → LockPhase} {v : EnvEvent} (h : LockInv w ph)
    (hv : execEnv w v = some w') : LockInv w' ph := by
  rcases execEnv_mem hv with ⟨-, hmem, hepoch⟩ | ⟨-, hmem, hepoch⟩
  · refine ⟨?_, fun epoch n hlt => h.later epoch n (by omega), h.exits⟩
    have hout : (fun n => ph (.call w'.epoch n)) = fun _ => .out :=
      funext fun n => h.later _ n (by omega)
    rw [hmem, hout]
    exact locks_fresh
  · refine ⟨?_, fun epoch n hlt => h.later epoch n (by omega), h.exits⟩
    rw [hmem, hepoch]
    exact h.locks

/-- In every run what the threads hold agrees with the entries. -/
theorem lockInv_reach {cfg : Config} {calls : Calls} {w : World} {s : MState}
    {K : MState → MLabel → Prop} (hw : w.mem = .fresh)
    (h : system.Reach K (start cfg calls w) s) : LockInv s.world (lock.phases s) := by
  refine Monitor.invariant (A := Answers) (Q := fun _ _ l => l = .out)
    (answers_reach hw)
    (lock_threads cfg calls) ⟨hw ▸ locks_fresh, fun _ _ _ => rfl, fun _ => rfl⟩ ?_ ?_ h
  · intro s t o β e k b w' hr ih _ hp he _ hok
    cases t with
    | exit p =>
      have hkind := exitKind_reach hr p
      rw [hp] at hkind
      exact lockInv_exit ih hkind.1.lockFree he
    | call epoch n =>
      obtain rfl := epoch_of_current (exec_current he)
      exact lockInv_call ih hok he
  · intro s v w' _ ih _ hv
    exact lockInv_env ih hv

/-! ## Exclusion -/

/-- The thread belongs to the daemon that is running, its begin for the VM
has succeeded, and it has not come to its end. -/
def Between (s : MState) (t : Tid) (u : Uuid) : Prop :=
  s.world.current t = true ∧ (lock.phases s t).owner = some u

/-- The same for the archive `a`. -/
def Archiving (s : MState) (t : Tid) (u : Uuid) (a : ArchiveId) : Prop :=
  s.world.current t = true ∧ (lock.phases s t).archived = some (u, a)

/-- The same for an archive that has seen that no process is registered. -/
def ArchiveChecked (s : MState) (t : Tid) (u : Uuid) : Prop :=
  s.world.current t = true ∧ ∃ a, lock.phases s t = .archive u a true

section Exclusion

variable {s s' : MState} {t t' : Tid} {u : Uuid} {a : ArchiveId}

/-- A thread that holds an entry is a call of the daemon that is running. -/
theorem LockInv.call_of_owner (h : LockInv s.world (lock.phases s)) (ht : Between s t u) :
    ∃ n, t = .call s.world.epoch n := by
  cases t with
  | call epoch n => exact ⟨n, by rw [epoch_of_current ht.1]⟩
  | exit p =>
    have hown := ht.2
    rw [h.exits p] at hown
    simp at hown

theorem Archiving.between (h : Archiving s t u a) : Between s t u :=
  ⟨h.1, LockPhase.owner_of_archived h.2⟩

theorem ArchiveChecked.between (h : ArchiveChecked s t u) : Between s t u := by
  obtain ⟨hc, a, ha⟩ := h
  exact ⟨hc, by rw [ha]; rfl⟩

theorem LockInv.sole (h : LockInv s.world (lock.phases s)) (ht : Between s t u)
    (ht' : Between s t' u) : t = t' := by
  obtain ⟨n, rfl⟩ := h.call_of_owner ht
  obtain ⟨n', rfl⟩ := h.call_of_owner ht'
  rw [h.locks.sole n n' u ht.2 ht'.2]

/-- An archive that is not finished has its entry. -/
theorem LockInv.installed (h : LockInv s.world (lock.phases s)) (ht : Archiving s t u a) :
    s.world.mem.coldArchives u = some a ∧ s.world.mem.doneCloses a = 0 := by
  obtain ⟨n, rfl⟩ := h.call_of_owner ht.between
  exact ⟨h.locks.installed n u a ht.2, (h.locks.opened n u a ht.2).2⟩

theorem current_call (s : MState) (n : Nat) :
    s.world.current (.call s.world.epoch n) = true := by simp [World.current]

/-- An entry of `coldArchives` belongs to an archive that holds `vmOps`. -/
theorem LockInv.cold (h : LockInv s.world (lock.phases s))
    (hc : s.world.mem.coldArchives u = some a) :
    (∃ t, Archiving s t u a) ∧ s.world.mem.vmOps u = true := by
  obtain ⟨n, hn⟩ := h.locks.cold u a hc
  exact ⟨⟨_, current_call s n, hn⟩, h.locks.held n u (LockPhase.owner_of_archived hn)⟩

/-- When a begin lets its caller pass, no archive of the VM is unfinished. -/
theorem LockInv.no_archive_of_passed (h : LockInv s.world (lock.phases s))
    (h' : LockInv s'.world (lock.phases s')) {o : Outcome}
    (hs : system.step s (.thread t o) = some s') (hout : ¬ Between s t u) (hin : Between s' t u) :
    ¬ Archiving s t' u a := by
  intro harc
  have hne : t' ≠ t := by
    rintro rfl
    exact hout harc.between
  obtain ⟨n, rfl⟩ := h.call_of_owner harc.between
  refine hne (h'.sole ⟨?_, ?_⟩ hin)
  · rw [← step_epoch hs]
    exact current_call s' n
  · rw [phases_step_of_ne hs hne]
    exact harc.between.2

end Exclusion

end Firedoze
