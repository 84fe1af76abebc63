import Firedoze.Manager.Actions

/-!
# What an action changes

The lemmas of this module read `exec` once, so that a proof about the runs
of the manager does not unfold it again.

* `exec_store`, `exec_mem` and `exec_host` say which part of the world an
  action changes.
* `attemptOn_cases` and `reply_eq` say how a call ends, and `execStore_cases` what a
  call of the store writes.
* The frame lemmas say which actions leave a field alone.
* `Answers` says what an action can answer in a run.
-/

namespace Firedoze

open Conc Conc.Prog Function

section Exec

variable {β : Type} {t : Tid} {w w' : World} {o : Outcome} {b : β}

theorem exec_store {e : StoreEff β} (h : exec t w (.store e) o = some (b, w')) :
    ∃ s, execStore w t o e = some (b, s) ∧ w' = { w with store := s } := by
  unfold exec at h
  split at h
  · obtain ⟨⟨b', s⟩, he, hw⟩ := Option.map_eq_some_iff.mp h
    obtain ⟨rfl, rfl⟩ : b' = b ∧ _ = w' := by simpa using hw
    exact ⟨s, he, rfl⟩
  · simp at h

theorem exec_store_of {e : StoreEff β} {s : Store} (ht : w.current t = true)
    (h : execStore w t o e = some (b, s)) :
    exec t w (.store e) o = some (b, { w with store := s }) := by
  unfold exec
  rw [if_pos ht]
  simp only [h, Option.map_some]

theorem exec_mem {e : MemEff β} (h : exec t w (.mem e) o = some (b, w')) :
    ∃ m, execMem w t o e = some (b, m) ∧ w' = { w with mem := m } := by
  unfold exec at h
  split at h
  · obtain ⟨⟨b', m⟩, he, hw⟩ := Option.map_eq_some_iff.mp h
    obtain ⟨rfl, rfl⟩ : b' = b ∧ _ = w' := by simpa using hw
    exact ⟨m, he, rfl⟩
  · simp at h

theorem exec_host {e : HostEff β} (h : exec t w (.host e) o = some (b, w')) :
    ∃ hst, execHost w t o e = some (b, hst) ∧ w' = { w with host := hst } := by
  unfold exec at h
  split at h
  · obtain ⟨⟨b', hst⟩, he, hw⟩ := Option.map_eq_some_iff.mp h
    obtain ⟨rfl, rfl⟩ : b' = b ∧ _ = w' := by simpa using hw
    exact ⟨hst, he, rfl⟩
  · simp at h

/-- A critical section has one outcome. -/
theorem section_eq {σ : Type} {x : β × σ} {s : σ}
    (h : (match o with
      | .ok => some x
      | _ => none) = some (b, s)) : x.1 = b ∧ x.2 = s := by
  cases o <;> cases h
  exact ⟨rfl, rfl⟩

theorem exec_current {e : Eff β} (h : exec t w e o = some (b, w')) : w.current t = true := by
  unfold exec at h
  split at h
  · assumption
  · simp at h

/-- A process that `h` knows is in `h'` the same process, alive only if it
was. -/
structure Host.Follows (h h' : Host) : Prop where
  nextPid : h'.nextPid = h.nextPid
  none : ∀ p, h.os p = none → h'.os p = none
  some : ∀ p o, h.os p = some o → ∃ o', h'.os p = some o' ∧ o'.epoch = o.epoch ∧
    o'.uuid = o.uuid ∧ o'.socketPath = o.socketPath ∧ (o'.alive = true → o.alive = true)

theorem Host.Follows.refl (h : Host) : h.Follows h :=
  ⟨rfl, fun _ hp => hp, fun _ o ho => ⟨o, ho, rfl, rfl, rfl, fun ha => ha⟩⟩

theorem Host.Follows.of_os {h h' : Host} (hn : h'.nextPid = h.nextPid) (ho : h'.os = h.os) :
    h.Follows h' :=
  ⟨hn, fun _ hp => ho ▸ hp, fun _ o hp => ⟨o, ho ▸ hp, rfl, rfl, rfl, fun ha => ha⟩⟩

/-- Every process was there before. -/
theorem Host.Follows.back {h h' : Host} (hf : h.Follows h') {p : Pid} {o' : OSProc}
    (hp : h'.os p = .some o') : ∃ o, h.os p = .some o ∧ o'.epoch = o.epoch ∧ o'.uuid = o.uuid ∧
      o'.socketPath = o.socketPath ∧ (o'.alive = true → o.alive = true) := by
  cases ho : h.os p with
  | none =>
    rw [hf.none p ho] at hp
    cases hp
  | some o =>
    obtain ⟨o'', ho'', hsame⟩ := hf.some p o ho
    obtain rfl : o'' = o' := Option.some.inj (ho''.symm.trans hp)
    exact ⟨o, rfl, hsame⟩

/-- A change of one process that leaves its identity alone. -/
theorem Host.Follows.of_update {h h' : Host} {p : Pid} {o : OSProc} {f : OSProc → OSProc}
    (hn : h'.nextPid = h.nextPid) (hp : h.os p = .some o)
    (ho : h'.os = update h.os p (.some (f o))) (he : (f o).epoch = o.epoch)
    (hu : (f o).uuid = o.uuid) (hs : (f o).socketPath = o.socketPath)
    (ha : (f o).alive = true → o.alive = true) : h.Follows h' := by
  refine ⟨hn, fun q hq => ?_, fun q o' hq => ?_⟩
  · have hqp : q ≠ p := by
      rintro rfl
      rw [hp] at hq
      cases hq
    rw [ho, update_of_ne hqp]
    exact hq
  · by_cases hqp : q = p
    · subst hqp
      obtain rfl : o' = o := Option.some.inj (hq.symm.trans hp)
      exact ⟨f o', by rw [ho, update_self], he, hu, hs, ha⟩
    · exact ⟨o', by rw [ho, update_of_ne hqp]; exact hq, rfl, rfl, rfl, fun h => h⟩

section Attempt

variable {σ : Type} {done : Bool} {s s' : σ} {r : Except Err β}

/-- How a call that can succeed in one way ends. -/
theorem attemptOn_cases {x : Option (β × σ)} {y : Option σ}
    (h : attemptOn done s x y o = some (r, s')) :
    (∃ b, x = some (b, s') ∧ r = .ok b ∧ done = false) ∨ s' = s ∧ r = .error (failure done) ∨
      y = some s' ∧ r = .error (failure done) := by
  unfold attemptOn at h
  grind

theorem attemptOn_inv {x : Option (β × σ)} {y : Option σ} {P : σ → Prop}
    (h : attemptOn done s x y o = some (r, s')) (hs : P s)
    (hx : ∀ b s', x = some (b, s') → P s') (hy : ∀ s', y = some s' → P s') : P s' := by
  rcases attemptOn_cases h with ⟨b, hx', -⟩ | ⟨rfl, -⟩ | ⟨hy', -⟩
  · exact hx b s' hx'
  · exact hs
  · exact hy s' hy'

/-- A call whose success and whose torn failure have the same effect. -/
theorem attemptOn_effect {y : Option σ} {r : Except Err Unit}
    (h : attemptOn done s (y.map fun s => ((), s)) y o = some (r, s')) : s' = s ∨ y = some s' := by
  rcases attemptOn_cases h with ⟨b, hx, -⟩ | ⟨rfl, -⟩ | ⟨hy, -⟩
  · obtain ⟨s'', hs, heq⟩ := Option.map_eq_some_iff.mp hx
    obtain rfl := (Prod.mk.inj heq).2
    exact Or.inr hs
  · exact Or.inl rfl
  · exact Or.inr hy

theorem reply_eq {x : Except Err β} (h : reply done s x o = some (r, s')) :
    s' = s ∧ (r = x ∨ r = .error (failure done)) := by
  cases o <;> simp [reply] at h <;> grind

/-- What a call that writes leaves. -/
theorem commit_state {x : Except Err (β × σ)} (h : commit done s x o = some (r, s')) :
    s' = s ∨ ∃ b, x = .ok (b, s') := by
  unfold commit at h
  grind

/-- How a call that writes ends when it is not cut off. -/
theorem commit_ok {x : Except Err (β × σ)} (h : commit done s x .ok = some (r, s')) :
    (∃ b, x = .ok (b, s') ∧ r = .ok b) ∨ ∃ e, x = .error e ∧ s' = s ∧ r = .error e := by
  simp only [commit] at h
  grind

/-- A call that writes and answers a value has written. -/
theorem commit_written {x : Except Err (β × σ)} (h : commit done s x o = some (.ok b, s')) :
    x = .ok (b, s') := by
  unfold commit at h
  grind

end Attempt

section Tables

variable {s s' : Store} {u : Uuid} {name : String} {x : Unit}

theorem Store.updateVM_ok {f : VMRow → VMRow} (h : s.updateVM u f = .ok (x, s')) :
    ∃ r, s.vms u = some r ∧ s' = { s with vms := update s.vms u (some (f r)) } := by
  unfold Store.updateVM at h
  split at h
  · cases h
  · rename_i r hr
    cases h
    exact ⟨r, hr, rfl⟩

theorem Store.updateVM_error {f : VMRow → VMRow} {e : Err} (h : s.updateVM u f = .error e) :
    s.vms u = none := by
  unfold Store.updateVM at h
  split at h
  · assumption
  · cases h

theorem Store.insertVM_ok {p : CreateVMParams} {now : Nat} (h : s.insertVM p now = .ok (u, s')) :
    u = s.nextUuid ∧ s.vmExists p.name = false ∧ s.routes p.name = none ∧
      s' = { s with
        vms := update s.vms s.nextUuid (some (Store.newRow p now)),
        nextUuid := s.nextUuid + 1 } := by
  unfold Store.insertVM at h
  split_ifs at h with hroute hvm
  cases h
  exact ⟨rfl, by simpa using hvm, by simpa [Store.routeExists] using hroute, rfl⟩

theorem Store.deleteVM_ok (h : s.deleteVM u = .ok (x, s')) :
    s' = { s with vms := update s.vms u none, routes := s.routesWithout u } := by
  unfold Store.deleteVM at h
  split at h
  · cases h
  · exact (Prod.mk.inj (Except.ok.inj h)).2.symm

theorem Store.insertRoute_ok {port : Int} (h : s.insertRoute name u port = .ok (x, s')) :
    s.vmExists name = false ∧ (s.vms u).isSome = true ∧ s.routes name = none ∧
      s' = { s with routes := update s.routes name (some ⟨u, port, false⟩) } := by
  unfold Store.insertRoute at h
  split_ifs at h with hvm hu hroute hport
  refine ⟨by simpa using hvm, Option.isSome_iff_ne_none.mpr (by simpa using hu), ?_,
    (Prod.mk.inj (Except.ok.inj h)).2.symm⟩
  simpa [Store.routeExists] using hroute

theorem Store.deleteRoute_ok (h : s.deleteRoute name = .ok (x, s')) :
    s' = { s with routes := update s.routes name none } := by
  unfold Store.deleteRoute at h
  split at h
  · cases h
  · exact (Prod.mk.inj (Except.ok.inj h)).2.symm

theorem Store.insertSnapshot_ok {snap : Snapshot} (h : s.insertSnapshot snap = .ok (x, s')) :
    s.snapshots snap.name = none ∧
      s' = { s with snapshots := update s.snapshots snap.name (some snap) } := by
  unfold Store.insertSnapshot at h
  split_ifs at h with hsnap
  exact ⟨by simpa using hsnap, (Prod.mk.inj (Except.ok.inj h)).2.symm⟩

theorem Store.deleteSnapshot_ok (h : s.deleteSnapshot name = .ok (x, s')) :
    s' = { s with snapshots := update s.snapshots name none } := by
  unfold Store.deleteSnapshot at h
  split at h
  · cases h
  · exact (Prod.mk.inj (Except.ok.inj h)).2.symm

end Tables

/-- An entry of a table in which one entry was set. -/
theorem update_some {α γ : Type} [DecidableEq α] {f : α → Option γ} {a a' : α} {x y : γ}
    (h : update f a (some x) a' = some y) : a' = a ∧ x = y ∨ a' ≠ a ∧ f a' = some y := by
  by_cases ha : a' = a
  · exact Or.inl ⟨ha, by simpa [ha] using h⟩
  · exact Or.inr ⟨ha, by simpa [ha] using h⟩

/-- An entry of a table from which one entry was taken. -/
theorem update_none {α γ : Type} [DecidableEq α] {f : α → Option γ} {a a' : α} {y : γ}
    (h : update f a none a' = some y) : a' ≠ a ∧ f a' = some y := by
  by_cases ha : a' = a
  · simp [ha] at h
  · exact ⟨ha, by simpa [ha] using h⟩

/-- The store after a call that has written. -/
inductive StoreEff.Writes (now : Nat) (s : Store) : {β : Type} → StoreEff β → Store → Prop
  | insertVM {c : Ctx} {params : CreateVMParams} : s.vmExists params.name = false →
      s.routes params.name = none → Writes now s (.insertVM c params)
        { s with
          vms := update s.vms s.nextUuid (some (Store.newRow params now))
          nextUuid := s.nextUuid + 1 }
  | setVMState {c : Ctx} {u : Uuid} {state : VMState} {r : VMRow} : s.vms u = some r →
      Writes now s (.setVMState c u state)
        { s with vms := update s.vms u (some (r.withState state now)) }
  | setVMArchivedDiskPath {c : Ctx} {u : Uuid} {path : Option Path} {r : VMRow} :
      s.vms u = some r → Writes now s (.setVMArchivedDiskPath c u path)
        { s with vms := update s.vms u (some { r with archivedDiskPath := path }) }
  | updateSettings {c : Ctx} {u : Uuid} {settings : VMSettings} {r : VMRow} :
      s.vms u = some r → Writes now s (.updateSettings c u settings)
        { s with vms := update s.vms u (some (r.withSettings settings)) }
  | deleteVM {c : Ctx} {u : Uuid} : Writes now s (.deleteVM c u)
      { s with vms := update s.vms u none, routes := s.routesWithout u }
  | deleteRoutesForVM {c : Ctx} {u : Uuid} : Writes now s (.deleteRoutesForVM c u)
      { s with routes := s.routesWithout u }
  | insertSnapshot {c : Ctx} {snap : Snapshot} : s.snapshots snap.name = none →
      Writes now s (.insertSnapshot c snap)
        { s with snapshots := update s.snapshots snap.name (some snap) }
  | deleteSnapshot {c : Ctx} {name : String} : Writes now s (.deleteSnapshot c name)
      { s with snapshots := update s.snapshots name none }
  | insertRoute {c : Ctx} {name : String} {u : Uuid} {port : Int} : s.vmExists name = false →
      (s.vms u).isSome = true → s.routes name = none → Writes now s (.insertRoute c name u port)
        { s with routes := update s.routes name (some ⟨u, port, false⟩) }
  | deleteRoute {c : Ctx} {name : String} : Writes now s (.deleteRoute c name)
      { s with routes := update s.routes name none }

/-- A call of the store leaves it alone, or makes its change. -/
theorem execStore_cases {e : StoreEff β} {s : Store} (h : execStore w t o e = some (b, s)) :
    s = w.store ∨ e.Writes w.clock w.store s := by
  cases e with
  | insertVM c params =>
    refine (commit_state h).imp_right ?_
    rintro ⟨_, hx⟩
    obtain ⟨-, hname, hroute, rfl⟩ := Store.insertVM_ok hx
    exact .insertVM hname hroute
  | setVMState c u state =>
    refine (commit_state h).imp_right ?_
    rintro ⟨_, hx⟩
    obtain ⟨r, hr, rfl⟩ := Store.updateVM_ok hx
    exact .setVMState hr
  | setVMArchivedDiskPath c u path =>
    refine (commit_state h).imp_right ?_
    rintro ⟨_, hx⟩
    obtain ⟨r, hr, rfl⟩ := Store.updateVM_ok hx
    exact .setVMArchivedDiskPath hr
  | updateSettings c u settings =>
    refine (commit_state h).imp_right ?_
    rintro ⟨_, hx⟩
    obtain ⟨r, hr, rfl⟩ := Store.updateVM_ok hx
    exact .updateSettings hr
  | deleteVM c u =>
    refine (commit_state h).imp_right ?_
    rintro ⟨_, hx⟩
    obtain rfl := Store.deleteVM_ok hx
    exact .deleteVM
  | deleteRoutesForVM c u =>
    simp only [execStore] at h
    refine (commit_state h).imp_right ?_
    rintro ⟨_, hx⟩
    cases hx
    exact .deleteRoutesForVM
  | insertSnapshot c snap =>
    refine (commit_state h).imp_right ?_
    rintro ⟨_, hx⟩
    obtain ⟨hnone, rfl⟩ := Store.insertSnapshot_ok hx
    exact .insertSnapshot hnone
  | deleteSnapshot c name =>
    refine (commit_state h).imp_right ?_
    rintro ⟨_, hx⟩
    obtain rfl := Store.deleteSnapshot_ok hx
    exact .deleteSnapshot
  | insertRoute c name u port =>
    refine (commit_state h).imp_right ?_
    rintro ⟨_, hx⟩
    obtain ⟨hname, hu, hnone, rfl⟩ := Store.insertRoute_ok hx
    exact .insertRoute hname hu hnone
  | deleteRoute c name =>
    refine (commit_state h).imp_right ?_
    rintro ⟨_, hx⟩
    obtain rfl := Store.deleteRoute_ok hx
    exact .deleteRoute
  | _ => exact Or.inl (reply_eq h).1

/-- Rows of `vms` are only deleted, or changed in columns other than the name
and the address. -/
structure Store.KeepsRows (s s' : Store) : Prop where
  nextUuid : s'.nextUuid = s.nextUuid
  rows : ∀ u r', s'.vms u = some r' →
    ∃ r, s.vms u = some r ∧ r'.name = r.name ∧ r'.privateIP = r.privateIP

theorem Store.KeepsRows.of_vms {s s' : Store} (hn : s'.nextUuid = s.nextUuid)
    (hvms : s'.vms = s.vms) : s.KeepsRows s' := ⟨hn, fun _ r hr => ⟨r, hvms ▸ hr, rfl, rfl⟩⟩

/-- A call of the store that inserts no VM. -/
theorem execStore_keepsRows {e : StoreEff β} {s : Store} (h : execStore w t o e = some (b, s))
    (hk : e.kind ≠ .insert) : w.store.KeepsRows s := by
  rcases execStore_cases h with rfl | hwrites
  · exact .of_vms rfl rfl
  · cases hwrites with
    | insertVM => exact absurd rfl hk
    | setVMState hr | setVMArchivedDiskPath hr | updateSettings hr =>
      refine ⟨rfl, fun v r' hr' => ?_⟩
      rcases update_some hr' with ⟨rfl, rfl⟩ | ⟨-, hold⟩
      · exact ⟨_, hr, rfl, rfl⟩
      · exact ⟨r', hold, rfl, rfl⟩
    | deleteVM => exact ⟨rfl, fun v r hr => ⟨r, (update_none hr).2, rfl, rfl⟩⟩
    | _ => exact .of_vms rfl rfl

/-- The `state` column of a VM. -/
def Store.stateOf (s : Store) (u : Uuid) : Option VMState := (s.vms u).map (·.state)

/-- The state that a call of the store writes for the VM. -/
def StoreEff.writesState (u : Uuid) : {β : Type} → StoreEff β → Option VMState
  | _, .setVMState _ v state => if v = u then some state else none
  | _, _ => none

/-- Only a write of the state changes it. -/
theorem execStore_stateOf {e : StoreEff β} {st : Store} {u : Uuid}
    (h : execStore w t o e = some (b, st))
    (hk : e.kind ≠ .insert ∧ e.kind ≠ .drop) :
    st.stateOf u = w.store.stateOf u ∨
      ∃ state, e.writesState u = some state ∧ st.stateOf u = some state := by
  rcases execStore_cases h with rfl | hwrites
  · exact Or.inl rfl
  · cases hwrites with
    | insertVM => exact absurd rfl hk.1
    | deleteVM => exact absurd rfl hk.2
    | @setVMState _ v state r hr =>
      by_cases hu : u = v
      · refine Or.inr ⟨state, by simp [StoreEff.writesState, hu], ?_⟩
        simp [Store.stateOf, hu, VMRow.withState]
      · exact Or.inl (by simp [Store.stateOf, hu])
    | @setVMArchivedDiskPath _ v _ _ hr | @updateSettings _ v _ _ hr =>
      refine Or.inl ?_
      by_cases hu : u = v
      · simp [Store.stateOf, hu, hr, VMRow.withSettings]
      · simp [Store.stateOf, hu]
    | _ => exact Or.inl rfl

/-- The fields that the begin and end functions change. -/
def Mem.SameLocks (m m' : Mem) : Prop :=
  m'.vmOps = m.vmOps ∧ m'.coldArchives = m.coldArchives ∧ m'.nextArchive = m.nextArchive ∧
    m'.doneCloses = m.doneCloses

/-- The fields that say which processes there are. -/
def Mem.SameRunning (m m' : Mem) : Prop := m'.running = m.running ∧ m'.watched = m.watched

section Memory

variable {e : MemEff β} {m : Mem} {u : Uuid} {q : Process}

theorem execMem_sameLocks (h : execMem w t o e = some (b, m)) (hk : e.kind ≠ .lock) :
    w.mem.SameLocks m := by
  unfold Mem.SameLocks
  cases e <;> cases o <;> simp_all [execMem, MemEff.kind] <;> grind

theorem execMem_sameRunning (h : execMem w t o e = some (b, m)) (hk : e.kind ≠ .register)
    (hk' : e.kind ≠ .unregister) : w.mem.SameRunning m := by
  unfold Mem.SameRunning
  cases e <;> cases o <;> simp_all [execMem, MemEff.kind, Mem.enter] <;> grind

/-- No other critical section makes `running` a final state. -/
theorem execMem_final (h : execMem w t o e = some (b, m)) (hk : e.kind ≠ .started)
    (hw : ∀ p, w.mem.finalState p ≠ some .running) (p : Pid) :
    m.finalState p ≠ some .running := by
  have henter : ∀ u, (w.mem.enter u).2.finalState = w.mem.finalState := by
    intro u
    unfold Mem.enter
    grind
  cases e with
  | setRunning proc =>
    obtain ⟨-, rfl⟩ := section_eq h
    have := hw p
    grind [update_apply]
  | setFinalState q state =>
    obtain ⟨-, rfl⟩ := section_eq h
    have := hw p
    grind [update_apply, MemEff.kind]
  | _ =>
    have hsame : m.finalState = w.mem.finalState := by
      cases o <;> simp only [execMem] at h <;> grind
    rw [hsame]
    exact hw p

/-- Only a start registers a process. -/
theorem execMem_running_some (h : execMem w t o e = some (b, m)) (hk : e.kind ≠ .register)
    (hq : m.running u = some q) :
    w.mem.running u = some q := by
  by_cases hk' : e.kind = .unregister
  · cases e with
    | deleteRunning v =>
      cases o <;> simp [execMem] at h
      subst h
      by_cases hu : u = v
      · simp [hu] at hq
      · simpa [hu] using hq
    | setFinalState p state =>
      rcases MemEff.kind_setFinalState p state with hs | hs | hs <;> cases hs.symm.trans hk'
    | _ => cases hk'
  · rw [← (execMem_sameRunning h hk hk').1]
    exact hq

theorem execMem_running_none (h : execMem w t o e = some (b, m)) (hk : e.kind ≠ .register)
    (hu : w.mem.running u = none) :
    m.running u = none := by
  cases hq : m.running u with
  | none => rfl
  | some q =>
    rw [execMem_running_some h hk hq] at hu
    cases hu

/-- The process that a critical section registers. -/
def MemEff.registers : {β : Type} → MemEff β → Option Process
  | _, .setRunning proc => some proc
  | _, _ => none

/-- An entry of `running` was there before, or has just been made. -/
theorem execMem_running (h : execMem w t o e = some (b, m)) (hq : m.running u = some q) :
    w.mem.running u = some q ∨ e.registers = some q ∧ q.uuid = u := by
  by_cases hk : e.kind = .register
  · cases e with
    | setRunning proc =>
      obtain ⟨-, rfl⟩ := section_eq h
      by_cases hu : u = proc.uuid
      · subst hu
        obtain rfl : proc = q := by simpa using hq
        exact Or.inr ⟨rfl, rfl⟩
      · exact Or.inl (by simpa [hu] using hq)
    | setFinalState p state =>
      rcases MemEff.kind_setFinalState p state with hs | hs | hs <;> cases hs.symm.trans hk
    | _ => cases hk
  · exact Or.inl (execMem_running_some h hk hq)

end Memory

theorem exec_epoch {e : Eff β} (h : exec t w e o = some (b, w')) : w'.epoch = w.epoch := by
  cases e with
  | store e => obtain ⟨_, -, rfl⟩ := exec_store h; rfl
  | mem e => obtain ⟨_, -, rfl⟩ := exec_mem h; rfl
  | host e => obtain ⟨_, -, rfl⟩ := exec_host h; rfl

theorem step_epoch {s s' : MState} {t : Tid} {o : Outcome}
    (h : system.step s (.thread t o) = some s') : s'.world.epoch = s.world.epoch := by
  rcases System.step_cases h with
    ⟨t', o', -, β, e, k, b, w, -, he, rfl⟩ | ⟨t', o', -, β, body, k, -, rfl⟩ | ⟨v, w, hl, -, -⟩
  · exact exec_epoch he
  · rfl
  · cases hl

/-- A call that takes a step is a call of the daemon that is running. -/
theorem epoch_of_current {epoch n : Nat} (h : w.current (.call epoch n) = true) :
    epoch = w.epoch := by simpa [World.current] using h

/-- Only the death of the daemon changes its memory from outside. -/
theorem execEnv_mem {v : EnvEvent} (h : execEnv w v = some w') :
    v = .crash ∧ w'.mem = .fresh ∧ w'.epoch = w.epoch + 1 ∨
      v ≠ .crash ∧ w'.mem = w.mem ∧ w'.epoch = w.epoch := by
  cases v <;> simp only [execEnv] at h <;> grind

/-- Nothing from outside writes to the store. -/
theorem execEnv_store {v : EnvEvent} (h : execEnv w v = some w') : w'.store = w.store := by
  cases v <;> simp only [execEnv] at h <;> grind

/-- What an action can answer. -/
def Answers : {β : Type} → Eff β → β → Prop
  | _, .store (.getVM _ u), r => ∀ vm, r = .ok vm → vm.uuid = u
  | _, .mem (.getRunning u), r => ∀ proc, r = some proc → proc.uuid = u
  | _, .mem (.cmdWait p), r => r.pid = p
  | _, .mem (.selectWait .background), r => r ≠ .done
  | _, _, _ => True

/-- The entries of `running` and of the goroutines are those of their keys. -/
structure Mem.Keyed (m : Mem) : Prop where
  running : ∀ u proc, m.running u = some proc → proc.uuid = u
  watched : ∀ p proc, m.watched p = some proc → proc.pid = p

/-- `cmd.Wait` answers the process of the goroutine. -/
theorem execMem_cmdWait {p : Pid} {proc : Process} {m : Mem}
    (h : execMem w t o (.cmdWait p) = some (proc, m)) : w.mem.watched p = some proc := by
  cases o <;> simp only [execMem, reduceCtorEq] at h
  cases hp : w.mem.watched p with
  | none => simp [hp] at h
  | some q =>
    simp only [hp, Option.ite_none_right_eq_some, Option.some.injEq, Prod.mk.injEq] at h
    rw [h.2.1]

theorem answers_exec {e : Eff β} (hm : w.mem.Keyed) (h : exec t w e o = some (b, w')) :
    Answers e b := by
  cases e with
  | store e =>
    cases e with
    | getVM c u =>
      obtain ⟨s, hs, -⟩ := exec_store h
      intro vm hvm
      obtain ⟨-, hb⟩ := reply_eq hs
      unfold Store.getVM at hb
      grind
    | _ => trivial
  | mem e =>
    obtain ⟨m, he, -⟩ := exec_mem h
    cases e with
    | getRunning u =>
      cases o <;> simp [execMem] at he
      obtain ⟨rfl, -⟩ := he
      exact hm.running u
    | cmdWait p => exact hm.watched p b (execMem_cmdWait he)
    | selectWait c =>
      cases c with
      | background => cases o <;> simp [execMem, World.done] at he <;> simp [Answers, ← he]
      | _ => trivial
    | _ => trivial
  | host e => trivial

theorem execMem_keyed {e : MemEff β} {m : Mem} (hm : w.mem.Keyed)
    (h : execMem w t o e = some (b, m)) : m.Keyed := by
  obtain ⟨hrun, hwatch⟩ := hm
  by_cases hk : e.kind = .register ∨ e.kind = .unregister
  · cases e with
    | setRunning proc | deleteRunning u =>
      cases o <;> simp [execMem] at h
      subst h
      constructor <;> grind [update_apply]
    | setFinalState p state =>
      rcases MemEff.kind_setFinalState p state with hs | hs | hs <;> simp [hs] at hk
    | _ => simp [MemEff.kind] at hk
  · push Not at hk
    obtain ⟨hr, hw⟩ := execMem_sameRunning h hk.1 hk.2
    exact ⟨hr ▸ hrun, hw ▸ hwatch⟩

theorem Host.follows_startGuest {h : Host} {p : Pid} {o : OSProc} {disk : Path}
    (hp : h.os p = some o) : h.Follows (h.startGuest p o disk) :=
  .of_update (f := fun o => { o with guest := .running, disk := some (disk, h.gens disk) })
    rfl hp rfl rfl rfl rfl fun ha => ha

/-- `cmd.Start` adds one process. -/
theorem Host.start_os (h : Host) (epoch : Nat) (l : Launch) :
    (h.start epoch l).nextPid = h.nextPid + 1 ∧
      ∃ o : OSProc, (h.start epoch l).os = update h.os h.nextPid (some o) ∧
        o.epoch = epoch ∧ o.uuid = l.uuid ∧ o.socketPath = l.socketPath ∧ o.alive = true := by
  unfold Host.start
  simp only
  split
  · exact ⟨rfl, _, rfl, rfl, rfl, rfl, rfl⟩
  · split
    · exact ⟨rfl, _, update_idem _ _ _, rfl, rfl, rfl, rfl⟩
    · exact ⟨rfl, _, rfl, rfl, rfl, rfl, rfl⟩

theorem Host.os_of_listener {h : Host} {sock : Path} {p : Pid} {o : OSProc}
    (hl : h.listener sock = some (p, o)) :
    h.files sock = some (.socket p) ∧ h.os p = some o ∧ o.alive = true := by
  unfold Host.listener at hl
  grind

theorem Host.Follows.of_map {h h' : Host} {p : Pid} {f : OSProc → OSProc}
    (hn : h'.nextPid = h.nextPid) (ho : h'.os = update h.os p ((h.os p).map f))
    (hf : ∀ o, (f o).epoch = o.epoch ∧ (f o).uuid = o.uuid ∧ (f o).socketPath = o.socketPath ∧
      ((f o).alive = true → o.alive = true)) : h.Follows h' := by
  cases hp : h.os p with
  | none =>
    rw [hp, Option.map_none, ← hp, update_eq_self] at ho
    exact .of_os hn ho
  | some o =>
    rw [hp, Option.map_some] at ho
    exact .of_update hn hp ho (hf o).1 (hf o).2.1 (hf o).2.2.1 (hf o).2.2.2

@[simp] theorem Host.writeTo_os (h : Host) (dst : Handle) (f : File) :
    (h.writeTo dst f).os = h.os ∧ (h.writeTo dst f).nextPid = h.nextPid := by
  unfold Host.writeTo
  split <;> exact ⟨rfl, rfl⟩

@[simp] theorem Host.truncate_os (h : Host) (p : Path) (size : Int) :
    (h.truncate p size).os = h.os ∧ (h.truncate p size).nextPid = h.nextPid := by
  unfold Host.truncate
  split <;> exact ⟨rfl, rfl⟩

@[simp] theorem Host.modifyDisk_os (h : Host) (p : Path) (f : Disk → Disk) :
    (h.modifyDisk p f).os = h.os ∧ (h.modifyDisk p f).nextPid = h.nextPid := by
  unfold Host.modifyDisk
  split <;> exact ⟨rfl, rfl⟩

/-- The kinds of actions of the host that do not touch a process. -/
def Kind.leavesProcesses (k : Kind) : Prop :=
  k ≠ .spawn ∧ k ≠ .kill ∧ k ≠ .api ∧ k ≠ .load ∧ k ≠ .sleep ∧ k ≠ .cgroup

theorem execHost_os {e : HostEff β} {hst : Host} (h : execHost w t o e = some (b, hst))
    (hk : e.kind.leavesProcesses) : hst.os = w.host.os ∧ hst.nextPid = w.host.nextPid := by
  obtain ⟨hspawn, hkill, hapi, hload, hsleep, hcgroup⟩ := hk
  cases e <;>
    first
    | exact absurd rfl hspawn
    | exact absurd rfl hkill
    | exact absurd rfl hapi
    | exact absurd rfl hload
    | exact absurd rfl hsleep
    | exact absurd rfl hcgroup
    | cases o <;> simp only [execHost, reply, attemptOn] at h <;>
        grind [Host.unlink, Host.unlinkAll, Host.write, Host.rename, Host.renameDir,
          Host.writeTo_os, Host.truncate_os, Host.modifyDisk_os]

/-! The calls of the Firecracker API. -/

section Api

variable {c : Ctx} {sock state mem : Path} {r : Except Err Unit} {hst : Host}

theorem execHost_fcAction (h : execHost w t o (.fcAction c sock) = some (r, hst)) :
    hst = w.host := by
  simp only [execHost] at h
  refine attemptOn_inv (P := (· = w.host)) h rfl (fun b s' hx => ?_) fun s' hy => by cases hy
  obtain ⟨_, -, heq⟩ := Option.map_eq_some_iff.mp hx
  exact (Prod.mk.inj heq).2.symm

theorem execHost_fcPause (h : execHost w t o (.fcPause c sock) = some (r, hst)) :
    hst = w.host ∨ ∃ p proc, w.host.listener sock = some (p, proc) ∧ proc.guest ≠ .fresh ∧
      hst = { w.host with
        os := update w.host.os p (some { proc with guest := .paused }) } := by
  refine (attemptOn_effect h).imp_right fun heff => ?_
  obtain ⟨⟨p, proc⟩, hl, hp⟩ := Option.bind_eq_some_iff.mp heff
  obtain ⟨hg, hp⟩ := Option.ite_none_left_eq_some.mp hp
  exact ⟨p, proc, hl, hg, (Option.some.inj hp).symm⟩

theorem execHost_fcResume (h : execHost w t o (.fcResume c sock) = some (r, hst)) :
    hst = w.host ∨ ∃ p proc disk gen, w.host.listener sock = some (p, proc) ∧
      proc.guest = .paused ∧ proc.disk = some (disk, gen) ∧
      hst = w.host.startGuest p proc disk := by
  refine (attemptOn_effect h).imp_right fun heff => ?_
  obtain ⟨⟨p, proc⟩, hl, hp⟩ := Option.bind_eq_some_iff.mp heff
  simp only at hp
  split at hp
  · rename_i disk gen hg hd
    exact ⟨p, proc, disk, gen, hl, hg, hd, (Option.some.inj hp).symm⟩
  · cases hp

theorem execHost_fcLoadSnapshot
    (h : execHost w t o (.fcLoadSnapshot c sock state mem) = some (r, hst)) :
    hst = w.host ∨ ∃ p proc image, w.host.listener sock = some (p, proc) ∧ proc.guest = .fresh ∧
      w.host.files state = some .vmstate ∧ w.host.files mem = some (.memory image) ∧
      (w.host.files image.disk).isSome = true ∧ hst = w.host.startGuest p proc image.disk := by
  refine (attemptOn_effect h).imp_right fun heff => ?_
  obtain ⟨⟨p, proc⟩, hl, hp⟩ := Option.bind_eq_some_iff.mp heff
  simp only at hp
  split at hp
  · rename_i image hg hstate hmem
    obtain ⟨hd, hp⟩ := Option.ite_none_right_eq_some.mp hp
    exact ⟨p, proc, image, hl, hg, hstate, hmem, hd, (Option.some.inj hp).symm⟩
  · cases hp

theorem execHost_fcCreateSnapshot
    (h : execHost w t o (.fcCreateSnapshot c sock state mem) = some (r, hst)) :
    (r = .ok () ∧ ∃ p proc disk gen, w.host.listener sock = some (p, proc) ∧
      proc.guest = .paused ∧ proc.disk = some (disk, gen) ∧
      hst = (w.host.write state .vmstate).write mem (.memory ⟨disk, w.host.runs disk⟩)) ∨
    ∃ e, r = .error e ∧
      (hst = w.host ∨ hst = (w.host.write state .incomplete).write mem .incomplete) := by
  simp only [execHost] at h
  rcases attemptOn_cases h with ⟨_, hx, rfl, -⟩ | ⟨rfl, rfl⟩ | ⟨hy, rfl⟩
  · obtain ⟨⟨p, proc⟩, hl, hx⟩ := Option.bind_eq_some_iff.mp hx
    simp only at hx
    split at hx
    · rename_i disk gen hg hd
      cases hx
      exact Or.inl ⟨rfl, p, proc, disk, gen, hl, hg, hd, rfl⟩
    · cases hx
  · exact Or.inr ⟨_, rfl, Or.inl rfl⟩
  · obtain ⟨_, -, rfl⟩ := Option.map_eq_some_iff.mp hy
    exact Or.inr ⟨_, rfl, Or.inr rfl⟩

end Api

/-- Nothing but a start makes a process. -/
theorem execHost_follows {e : HostEff β} {hst : Host} (h : execHost w t o e = some (b, hst))
    (hk : e.kind ≠ .spawn) : w.host.Follows hst := by
  cases e with
  | cmdStart l => exact absurd rfl hk
  | kill p =>
    cases o <;> simp only [execHost, Option.some.injEq, Prod.mk.injEq, reduceCtorEq] at h
    obtain ⟨-, rfl⟩ := h
    exact .of_map rfl rfl fun o => ⟨rfl, rfl, rfl, fun ha => by cases ha⟩
  | attachCgroup u p =>
    simp only [execHost] at h
    rcases attemptOn_cases h with ⟨_, hx, -⟩ | ⟨rfl, -⟩ | ⟨hy, -⟩
    · cases hx
      exact .of_map rfl rfl fun o => ⟨rfl, rfl, rfl, fun ha => ha⟩
    · exact .refl _
    · cases hy
      exact .of_os rfl rfl
  | fcAction c sock => exact execHost_fcAction h ▸ .refl _
  | fcPause c sock =>
    rcases execHost_fcPause h with rfl | ⟨p, proc, hl, -, rfl⟩
    · exact .refl _
    · exact .of_update (f := fun o => { o with guest := .paused }) rfl
        (Host.os_of_listener hl).2.1 rfl rfl rfl rfl fun ha => ha
  | fcResume c sock =>
    rcases execHost_fcResume h with rfl | ⟨p, proc, disk, gen, hl, -, -, rfl⟩
    · exact .refl _
    · exact Host.follows_startGuest (Host.os_of_listener hl).2.1
  | fcLoadSnapshot c sock state mem =>
    rcases execHost_fcLoadSnapshot h with rfl | ⟨p, proc, image, hl, -, -, -, -, rfl⟩
    · exact .refl _
    · exact Host.follows_startGuest (Host.os_of_listener hl).2.1
  | fcCreateSnapshot c sock state mem =>
    rcases execHost_fcCreateSnapshot h with ⟨-, p, proc, disk, gen, -, -, -, rfl⟩ |
      ⟨_, -, rfl | rfl⟩
    all_goals exact .of_os rfl rfl
  | prepareCgroup u =>
    simp only [execHost] at h
    refine attemptOn_inv h (.refl _) (fun b s' hx => ?_) fun s' hy => ?_
    · cases hx
      exact .of_os rfl rfl
    · cases hy
      exact .of_os rfl rfl
  | removeCgroup u =>
    simp only [execHost] at h
    refine attemptOn_inv h (.refl _) (fun b s' hx => ?_) fun s' hy => by cases hy
    obtain ⟨-, hx⟩ := Option.ite_none_left_eq_some.mp hx
    cases hx
    exact .of_os rfl rfl
  | waitForSocket c sock =>
    simp only [execHost] at h
    refine attemptOn_inv h (.refl _) (fun b s' hx => ?_) fun s' hy => by cases hy
    obtain ⟨-, hx⟩ := Option.ite_none_right_eq_some.mp hx
    cases hx
    exact .refl _
  | _ =>
    obtain ⟨hos, hn⟩ := execHost_os h (by simp [Kind.leavesProcesses, HostEff.kind])
    exact .of_os hn hos

/-- Nothing from outside makes a process. -/
theorem execEnv_follows {v : EnvEvent} (h : execEnv w v = some w') : w.host.Follows w'.host := by
  cases v with
  | exit p =>
    simp only [execEnv] at h
    split at h
    · rename_i o ho
      obtain ⟨-, h⟩ := Option.ite_none_right_eq_some.mp h
      cases h
      exact .of_update (f := fun o => { o with alive := false }) rfl ho rfl rfl rfl rfl
        fun ha => by cases ha
    · cases h
  | bind p =>
    simp only [execEnv] at h
    split at h
    · rename_i o ho
      obtain ⟨-, h⟩ := Option.ite_none_right_eq_some.mp h
      cases h
      exact .of_update (f := fun o => { o with bound := true }) rfl ho rfl rfl rfl rfl fun ha => ha
    · cases h
  | guestWrite p data =>
    simp only [execEnv] at h
    split at h
    · split at h
      · obtain ⟨-, h⟩ := Option.ite_none_right_eq_some.mp h
        cases h
        simp only [Host.guestWrite]
        split
        · exact .of_os (Host.modifyDisk_os ..).2 (Host.modifyDisk_os ..).1
        · exact .of_os rfl rfl
      · cases h
    · cases h
  | cancel t | tick | crash =>
    cases h
    exact .refl _

end Exec

/-- The daemon does not die. -/
def survives : MLabel → Bool
  | .env .crash => false
  | _ => true

section Reach

variable {cfg : Config} {calls : Calls} {w : World} {s : MState} {K : MState → MLabel → Prop}

theorem keyed_reach (hw : w.mem = .fresh) (h : system.Reach K (start cfg calls w) s) :
    s.world.mem.Keyed := by
  have hfresh : Mem.fresh.Keyed := ⟨by simp [Mem.fresh], by simp [Mem.fresh]⟩
  refine h.invariant (I := fun s => s.world.mem.Keyed) (hw ▸ hfresh) ?_
  intro s l s' _ ih _ hs
  rcases System.step_cases hs with
    ⟨t, o, -, β, e, k, b, w, -, he, rfl⟩ | ⟨t, o, -, β, body, k, -, rfl⟩ | ⟨v, w, -, hv, rfl⟩
  · cases e with
    | store e => obtain ⟨_, -, rfl⟩ := exec_store he; exact ih
    | host e => obtain ⟨_, -, rfl⟩ := exec_host he; exact ih
    | mem e => obtain ⟨_, hm, rfl⟩ := exec_mem he; exact execMem_keyed ih hm
  · exact ih
  · rcases execEnv_mem hv with ⟨-, hm, -⟩ | ⟨-, hm, -⟩
    · exact hm ▸ hfresh
    · exact hm ▸ ih

theorem callKind_threads (cfg : Config) (calls : Calls) (epoch n : Nat) :
    Uses CallKind (threads cfg calls (.call epoch n)) := by
  cases hop : calls epoch n with
  | none =>
    rw [threads_none hop]
    trivial
  | some op =>
    rw [threads_some hop]
    exact uses_call op

/-- The next action of a call is one of a call. -/
theorem callKind_reach (h : system.Reach K (start cfg calls w) s) (epoch n : Nat) :
    Uses CallKind (s.prog (.call epoch n)) := h.all (callKind_threads cfg calls epoch n)

/-- The next action of an exit handler is one of an exit handler. -/
theorem exitKind_reach (h : system.Reach K (start cfg calls w) s) (p : Pid) :
    Uses ExitKind (s.prog (.exit p)) := h.all (uses_exit p)

/-- In every run the actions answer as `Answers` says. -/
theorem answers_reach (hw : w.mem = .fresh) {β : Type} (s : MState) (t : Tid) (e : Eff β)
    (o : Outcome) (b : β) (w' : World) (h : system.Reach K (start cfg calls w) s)
    (he : system.exec t s.world e o = some (b, w')) : Answers e b :=
  answers_exec (keyed_reach hw h) he

/-- A thread that still has an action to perform was given a call. -/
theorem call_of_act (h : system.Reach K (start cfg calls w) s) {epoch n : Nat} {β : Type}
    {e : Eff β} {k : β → Prog Eff (Except Err Unit)} (hp : s.prog (.call epoch n) = .act e k) :
    ∃ op, calls epoch n = some op := by
  cases hop : calls epoch n with
  | some op => exact ⟨op, rfl⟩
  | none =>
    have hnone := h.all (P := fun _ => False) (t := .call epoch n)
      (by simp only [threads, hop]; trivial)
    rw [hp] at hnone
    exact hnone.1.elim

/-- What holds of every action of a call holds of its next one. -/
theorem act_of_op (h : system.Reach K (start cfg calls w) s) {P : {β : Type} → Eff β → Prop}
    {epoch n : Nat} {op : Op} {β : Type} {e : Eff β} {k : β → Prog Eff (Except Err Unit)}
    (hop : calls epoch n = some op) (hall : (op.prog cfg).All P)
    (hp : s.prog (.call epoch n) = .act e k) : P e := by
  have hnext := h.all (P := P) (t := .call epoch n) (by simp only [threads, hop]; exact hall)
  rw [hp] at hnext
  exact hnext.1

/-- A daemon that does not die keeps its epoch. -/
theorem epoch_reach {s₀ : MState} (hK : ∀ s l, K s l → survives l = true)
    (h : system.Reach K s₀ s) : s.world.epoch = s₀.world.epoch := by
  refine h.invariant (I := fun s => s.world.epoch = s₀.world.epoch) rfl ?_
  intro s l s' _ ih hk hs
  cases l with
  | thread t o => exact (step_epoch hs).trans ih
  | env v =>
    rcases System.step_cases hs with ⟨t, o, hl, -⟩ | ⟨t, o, hl, -⟩ | ⟨v', w', hl, hv, rfl⟩
    · cases hl
    · cases hl
    · obtain rfl := Label.env.inj hl
      rcases execEnv_mem hv with ⟨rfl, -⟩ | ⟨-, -, hepoch⟩
      · cases hK _ _ hk
      · exact hepoch.trans ih

end Reach

end Firedoze
