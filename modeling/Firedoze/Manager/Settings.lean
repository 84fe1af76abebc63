import Firedoze.Conc.Trace
import Firedoze.Manager.Frame

/-!
# The settings of a VM

`UpdateVM` reads the row of a VM, puts the settings that its parameters name
in their places, and writes all four columns back in a second statement.
When another call writes between the two statements, the values it has
written are overwritten with those that were read before
(`concurrent_updates_lose_setting`).

`settings_last_write` says that this is the only way: when a call writes
while the row still has the settings it has read, every setting is the value
of the last call that named it.
-/

namespace Firedoze

open Conc Conc.Prog Conc.Monitor Function

/-! ## Merging -/

/-- A change of the settings that leaves those that are not named alone. -/
structure UpdateVMParams.OnlyNamed (p : UpdateVMParams) (old new : VMSettings) : Prop where
  defaultHTTPPort : p.defaultHTTPPort = none → new.defaultHTTPPort = old.defaultHTTPPort
  idleSleepAfterSeconds : p.idleSleepAfterSeconds = none →
    new.idleSleepAfterSeconds = old.idleSleepAfterSeconds
  autoWake : p.autoWake = none → new.autoWake = old.autoWake
  publicHTTP : p.publicHTTP = none → new.publicHTTP = old.publicHTTP

theorem UpdateVMParams.onlyNamed_merge (p : UpdateVMParams) (old : VMSettings) :
    p.OnlyNamed old (p.merge old) := by
  constructor <;> intro h <;> simp [UpdateVMParams.merge, h]

/-- Every setting is the value of the first of the changes that names it, or
the one of `old`. -/
structure VMSettings.LastNamed (old : VMSettings) (changes : List UpdateVMParams)
    (new : VMSettings) : Prop where
  defaultHTTPPort : new.defaultHTTPPort =
    (changes.findSome? (·.defaultHTTPPort)).getD old.defaultHTTPPort
  idleSleepAfterSeconds : new.idleSleepAfterSeconds =
    (changes.findSome? (·.idleSleepAfterSeconds)).getD old.idleSleepAfterSeconds
  autoWake : new.autoWake = (changes.findSome? (·.autoWake)).getD old.autoWake
  publicHTTP : new.publicHTTP = (changes.findSome? (·.publicHTTP)).getD old.publicHTTP

theorem VMSettings.lastNamed_nil (old : VMSettings) : old.LastNamed [] old :=
  ⟨rfl, rfl, rfl, rfl⟩

theorem VMSettings.LastNamed.cons {old new : VMSettings} {changes : List UpdateVMParams}
    (h : old.LastNamed changes new) (p : UpdateVMParams) :
    old.LastNamed (p :: changes) (p.merge new) := by
  have hfield : ∀ {α : Type} (f : UpdateVMParams → Option α) (x y : α),
      x = (changes.findSome? f).getD y → (f p).getD x = ((p :: changes).findSome? f).getD y := by
    intro α f x y hx
    cases hf : f p with
    | none => simpa [List.findSome?_cons, hf] using hx
    | some a => simp [hf]
  exact ⟨hfield _ _ _ h.defaultHTTPPort, hfield _ _ _ h.idleSleepAfterSeconds,
    hfield _ _ _ h.autoWake, hfield _ _ _ h.publicHTTP⟩

/-! ## What a call has read -/

/-- The settings that a call has read last, and whether it has written. -/
structure SettingsPhase where
  read : Option VMSettings
  wrote : Bool
  deriving DecidableEq, Repr

/-- The phase after an action. -/
def settingsNext (l : SettingsPhase) : {β : Type} → Eff β → β → SettingsPhase
  | _, .store (.getVM _ _), .ok vm => { l with read := some vm.settings }
  | _, .store (.updateSettings _ _ _), .ok _ => { l with wrote := true }
  | _, _, _ => l

/-- When an action of a call is in order: `UpdateVM` writes what it has read
with its parameters merged. -/
def mergingOk (u : Uuid) (params : UpdateVMParams) (l : SettingsPhase) :
    {β : Type} → Eff β → β → Prop
  | _, .store (.updateSettings _ u' settings), _ =>
      u' = u ∧ ∃ read, l.read = some read ∧ settings = params.merge read
  | _, _, _ => True

/-- The monitor of the settings that a call reads and writes. -/
def merging (u : Uuid) (params : UpdateVMParams) : Monitor Eff SettingsPhase where
  start := ⟨none, false⟩
  ok := fun l e b => mergingOk u params l e b
  next := fun l e b => settingsNext l e b

/-- What a thread has read and written. -/
def settingsPhase (s : MState) (t : Tid) : SettingsPhase := (merging 0 {}).phases s t

theorem merging_phases (u : Uuid) (params : UpdateVMParams) (s : MState) (t : Tid) :
    (merging u params).phases s t = settingsPhase s t := by
  unfold settingsPhase Monitor.phases
  induction s.hist t with
  | nil => rfl
  | cons ev h ih =>
    simp only [Monitor.phase]
    rw [ih]
    rfl

theorem merging_updateVM {u : Uuid} {params : UpdateVMParams} :
    (merging u params).Conforms Answers (updateVM u params).run ⟨none, false⟩ fun r l =>
      (∃ vm, r = .ok vm) → l.wrote = true := by
  have herr : ∀ {α : Type} {x : Err} {l : SettingsPhase},
      (∃ vm : α, Except.error x = .ok vm) → l.wrote = true := by
    rintro α x l ⟨vm, hvm⟩
    cases hvm
  unfold updateVM
  split
  · exact herr
  split
  · exact herr
  refine conforms_call_bind (fun vm _ => ⟨trivial, ?_⟩) fun _ _ => ⟨trivial, herr⟩
  have hok : ∀ r, mergingOk u params ⟨some vm.settings, false⟩
      (.store (.updateSettings .request u (params.merge vm.settings))) r :=
    fun _ => ⟨rfl, vm.settings, rfl, rfl⟩
  refine conforms_call_bind (fun a _ => ⟨hok (.ok a), ?_⟩)
    fun x _ => ⟨hok (.error x), herr⟩
  intro r _
  refine ⟨trivial, fun _ => ?_⟩
  cases r <;> rfl

/-! ## Writes -/

/-- The VM whose settings an action has written.  A call that is cut off has
written too. -/
def wroteSettings (o : Outcome) : {β : Type} → Eff β → β → Option Uuid
  | _, .store (.updateSettings _ u _), r =>
      match o, r with
      | .torn, _ => some u
      | _, .ok _ => some u
      | _, .error _ => none
  | _, _, _ => none

/-- The parameters of an action that has written the settings of the VM. -/
def Calls.change (calls : Calls) (u : Uuid) (en : Entry Tid Outcome Eff) :
    Option UpdateVMParams :=
  match en.thread with
  | .exit _ => none
  | .call epoch n =>
      match calls epoch n with
      | some (.updateVM _ params) =>
          if wroteSettings en.outcome en.event.act en.event.ans = some u then some params else none
      | _ => none

/-- The parameters of the calls that have written the settings of the VM, the
last one first. -/
def Calls.changes (calls : Calls) (u : Uuid) (log : List (Entry Tid Outcome Eff)) :
    List UpdateVMParams := log.filterMap (calls.change u)

/-- When a call writes, the row still has the settings that it has read, apart
from those that the call names. -/
def stillRead (calls : Calls) (s : MState) (t : Tid) : {β : Type} → Eff β → Bool
  | _, .store (.updateSettings _ u _) =>
      match t, s.world.store.vms u with
      | .call epoch n, some r =>
          match calls epoch n with
          | some (.updateVM _ params) =>
              (settingsPhase s t).read.map params.merge = some (params.merge r.settings)
          | _ => true
      | _, _ => true
  | _, _ => true

/-- The condition on a step: a call writes the settings of a VM while the row
still has the settings that the call has read and does not name. -/
def writesFresh (calls : Calls) (s : MState) (l : MLabel) : Bool :=
  s.next (fun t e _ => stillRead calls s t e) l

section Step

variable {w : World} {t : Tid} {o : Outcome} {β : Type} {b : β} {s : Store} {u : Uuid}

theorem wroteSettings_of_kind {e : Eff β} (hk : e.kind ≠ .setting) :
    wroteSettings o e b = none := by
  cases e with
  | mem e | host e => rfl
  | store e =>
    cases e with
    | updateSettings c u settings => exact absurd rfl hk
    | _ => rfl

theorem execStore_nextUuid {e : StoreEff β} (h : execStore w t o e = some (b, s)) :
    w.store.nextUuid ≤ s.nextUuid := by
  rcases execStore_cases h with rfl | hwrites
  · exact le_rfl
  · cases hwrites with
    | insertVM => exact Nat.le_succ _
    | _ => exact le_rfl

/-- A call of the store about anything else leaves the settings alone. -/
theorem execStore_settings {e : StoreEff β} (h : execStore w t o e = some (b, s))
    (hk : e.kind ≠ .setting) (hu : u < w.store.nextUuid) {r' : VMRow} (hr : s.vms u = some r') :
    ∃ r, w.store.vms u = some r ∧ r'.settings = r.settings := by
  rcases execStore_cases h with rfl | hwrites
  · exact ⟨r', hr, rfl⟩
  · cases hwrites with
    | updateSettings => exact absurd rfl hk
    | insertVM => exact ⟨r', by simpa [Nat.ne_of_lt hu] using hr, rfl⟩
    | setVMState hv | setVMArchivedDiskPath hv =>
      rcases update_some hr with ⟨rfl, rfl⟩ | ⟨-, hold⟩
      · exact ⟨_, hv, rfl⟩
      · exact ⟨r', hold, rfl⟩
    | deleteVM => exact ⟨r', (update_none hr).2, rfl⟩
    | _ => exact ⟨r', hr, rfl⟩

/-- A write of settings that is answered or cut off has taken place, and one
that fails has not. -/
theorem execStore_updateSettings {c : Ctx} {v : Uuid} {settings : VMSettings}
    {r : Except Err Unit}
    (h : execStore w t o (.updateSettings c v settings) = some (r, s)) :
    (wroteSettings o (.store (.updateSettings c v settings)) r = some v ∧ ∃ row,
        w.store.vms v = some row ∧
        s = { w.store with vms := update w.store.vms v (some (row.withSettings settings)) }) ∨
      wroteSettings o (.store (.updateSettings c v settings)) r = none ∧ s = w.store := by
  simp only [execStore] at h
  cases hx : w.store.updateVM v (·.withSettings settings) with
  | error e =>
    rw [hx] at h
    refine Or.inr ?_
    cases o <;> simp only [commit, Option.some.injEq, reduceCtorEq] at h
    · split at h
      · cases h
      · cases h
        exact ⟨rfl, rfl⟩
    · cases h
      exact ⟨rfl, rfl⟩
  | ok p =>
    obtain ⟨x, s'⟩ := p
    obtain ⟨row, hrow, rfl⟩ := Store.updateVM_ok hx
    rw [hx] at h
    cases o <;> simp only [commit, Option.some.injEq, reduceCtorEq] at h
    · split at h
      · cases h
      · cases h
        exact Or.inl ⟨rfl, row, hrow, rfl⟩
    · cases h
      exact Or.inr ⟨rfl, rfl⟩
    · cases h
      exact Or.inl ⟨rfl, row, hrow, rfl⟩

end Step

/-! ## Every run -/

section Reach

variable {cfg : Config} {calls : Calls} {w : World} {s s' : MState} {K : MState → MLabel → Prop}
  {u : Uuid}

/-- Only `UpdateVM` writes settings: what it has read, with its parameters
merged. -/
theorem updateVM_of_write (hw : w.mem = .fresh) (h : system.Reach K (start cfg calls w) s)
    {t : Tid} {c : Ctx} {v : Uuid} {settings : VMSettings}
    {k : Except Err Unit → Prog Eff (Except Err Unit)}
    (hp : s.prog t = .act (.store (.updateSettings c v settings)) k) :
    ∃ epoch n params read, t = .call epoch n ∧ calls epoch n = some (.updateVM v params) ∧
      (settingsPhase s t).read = some read ∧ settings = params.merge read := by
  have hother : Uses (· ≠ .setting) (threads cfg calls t) → False := by
    intro huses
    have hall : Uses (· ≠ .setting) (s.prog t) := h.all huses
    rw [hp] at hall
    exact hall.1 rfl
  cases t with
  | exit p => exact (hother ((uses_exit p).mono (by simp [ExitKind]))).elim
  | call epoch n =>
    cases hop : calls epoch n with
    | none => exact (hother (by simp only [threads, hop]; trivial)).elim
    | some op =>
      cases op with
      | updateVM u params =>
        have hconf : (merging u params).Conforms Answers (threads cfg calls (.call epoch n))
            ⟨none, false⟩ fun _ _ => True := by
          simp only [threads, hop]
          exact conforms_bind.mpr
            (conforms_mono (fun _ _ _ => trivial) merging_updateVM)
        obtain ⟨rfl, read, hread, hmerge⟩ := ok_reach (M := merging u params)
          (A := Answers) (b := .ok ()) (answers_reach hw) hconf h hp trivial
        rw [merging_phases] at hread
        exact ⟨epoch, n, params, read, rfl, hop, hread, hmerge⟩
      | _ =>
        refine (hother ?_).elim
        simp only [threads, hop]
        exact (uses_op cfg _).mono (by simp [Op.kinds, startKinds])

/-- An action leaves the settings of the VM alone, or it merges the parameters
of its call into them. -/
theorem settings_exec (hw : w.mem = .fresh) (h : system.Reach K (start cfg calls w) s) {t : Tid}
    {o : Outcome} {β : Type} {e : Eff β} {k : β → Prog Eff (Except Err Unit)} {b : β} {w' : World}
    {r' : VMRow} (hK : writesFresh calls s (.thread t o) = true) (hp : s.prog t = .act e k)
    (he : exec t s.world e o = some (b, w')) (hu : u < s.world.store.nextUuid)
    (hr' : w'.store.vms u = some r') :
    ∃ r, s.world.store.vms u = some r ∧
      (calls.change u ⟨t, o, ⟨e, b⟩⟩ = none ∧ r'.settings = r.settings ∨
        ∃ epoch n params, t = .call epoch n ∧ calls epoch n = some (.updateVM u params) ∧
          calls.change u ⟨t, o, ⟨e, b⟩⟩ = some params ∧
          r'.settings = params.merge r.settings) := by
  have hnone : wroteSettings o e b ≠ some u → calls.change u ⟨t, o, ⟨e, b⟩⟩ = none := by
    intro hne
    unfold Calls.change
    grind
  cases e with
  | mem e =>
    obtain ⟨_, -, rfl⟩ := exec_mem he
    exact ⟨r', hr', Or.inl ⟨hnone (by simp [wroteSettings]), rfl⟩⟩
  | host e =>
    obtain ⟨_, -, rfl⟩ := exec_host he
    exact ⟨r', hr', Or.inl ⟨hnone (by simp [wroteSettings]), rfl⟩⟩
  | store e =>
    obtain ⟨st, hs, rfl⟩ := exec_store he
    by_cases hk : e.kind = .setting
    · cases e with
      | updateSettings c v settings =>
        rcases execStore_updateSettings hs with ⟨hwrote, row, hrow, rfl⟩ | ⟨hwrote, rfl⟩
        · by_cases huv : u = v
          · subst huv
            obtain ⟨epoch, n, params, read, rfl, hop, hread, rfl⟩ := updateVM_of_write hw h hp
            obtain rfl : row.withSettings (params.merge read) = r' := by simpa using hr'
            have hfresh := State.next_act hK hp
            simp only [stillRead, hrow, hop, hread, Option.map_some, decide_eq_true_eq,
              Option.some.injEq] at hfresh
            exact ⟨row, hrow, Or.inr ⟨epoch, n, params, rfl, hop,
              by simp [Calls.change, hop, hwrote], hfresh⟩⟩
          · refine ⟨r', by simpa [huv] using hr', Or.inl ⟨hnone ?_, rfl⟩⟩
            rw [hwrote]
            exact fun heq => huv (Option.some.inj heq).symm
        · exact ⟨r', hr', Or.inl ⟨hnone (by simp [hwrote]), rfl⟩⟩
      | setVMState c v state =>
        rcases StoreEff.kind_setVMState c v state with hs | hs | hs <;> cases hs.symm.trans hk
      | setVMArchivedDiskPath c v path => cases path <;> cases hk
      | _ => cases hk
    · obtain ⟨r, hr, hsame⟩ := execStore_settings hs hk hu hr'
      exact ⟨r, hr, Or.inl ⟨hnone (by simp [wroteSettings_of_kind (e := .store e) hk]), hsame⟩⟩

theorem exec_nextUuid {t : Tid} {o : Outcome} {β : Type} {e : Eff β} {b : β} {w w' : World}
    (he : exec t w e o = some (b, w')) : w.store.nextUuid ≤ w'.store.nextUuid := by
  cases e with
  | mem e => obtain ⟨_, -, rfl⟩ := exec_mem he; exact le_rfl
  | host e => obtain ⟨_, -, rfl⟩ := exec_host he; exact le_rfl
  | store e => obtain ⟨_, hs, rfl⟩ := exec_store he; exact execStore_nextUuid hs

theorem lastNamed_trace {log : List (Entry Tid Outcome Eff)} {r₀ : VMRow} (hw : w.mem = .fresh)
    (hu : u < w.store.nextUuid) (h₀ : w.store.vms u = some r₀)
    (h : system.Trace (fun s l => writesFresh calls s l = true) (start cfg calls w) log s) :
    u < s.world.store.nextUuid ∧ ∀ r, s.world.store.vms u = some r →
      r₀.settings.LastNamed (calls.changes u log) r.settings := by
  induction h with
  | refl =>
    refine ⟨hu, fun r hr => ?_⟩
    obtain rfl : r₀ = r := Option.some.inj (h₀.symm.trans hr)
    exact VMSettings.lastNamed_nil _
  | act htr hK hp he ih =>
    obtain ⟨hlt, hnamed⟩ := ih
    refine ⟨hlt.trans_le (exec_nextUuid he), fun r' hr' => ?_⟩
    obtain ⟨r, hr, ⟨hnone, hsame⟩ | ⟨_, _, params, -, -, hsome, hmerge⟩⟩ :=
      settings_exec hw htr.reach hK hp he hlt hr'
    · rw [Calls.changes, List.filterMap_cons_none hnone, hsame]
      exact hnamed r hr
    · rw [Calls.changes, List.filterMap_cons_some hsome, hmerge]
      exact (hnamed r hr).cons params
  | loop _ _ _ ih => exact ih
  | env _ _ hv ih =>
    simp only [execEnv_store hv]
    exact ih

theorem exists_write_of_wrote {u : Uuid} {params : UpdateVMParams} {h : List (Event Eff)}
    (hwrote : ((merging u params).phase h).wrote = true) :
    ∃ c v settings x, ⟨.store (.updateSettings c v settings), .ok x⟩ ∈ h := by
  induction h with
  | nil => cases hwrote
  | cons ev h ih =>
    obtain ⟨e, b⟩ := ev
    have hrest : ((merging u params).phase h).wrote = true →
        ∃ c v settings x, ⟨.store (.updateSettings c v settings), .ok x⟩ ∈
          (⟨e, b⟩ :: h : List (Event Eff)) := by
      intro hh
      obtain ⟨c, v, settings, x, hmem⟩ := ih hh
      exact ⟨c, v, settings, x, List.mem_cons_of_mem _ hmem⟩
    cases e with
    | mem e | host e => exact hrest hwrote
    | store e =>
      cases e with
      | updateSettings c v settings =>
        cases b with
        | ok x => exact ⟨c, v, settings, x, List.mem_cons_self⟩
        | error x => exact hrest hwrote
      | getVM c v => cases b <;> exact hrest hwrote
      | _ => exact hrest hwrote

/-- The settings that are written are those of the VM. -/
def WritesFor (u : Uuid) : {β : Type} → Eff β → Prop
  | _, .store (.updateSettings _ v _) => v = u
  | _, _ => True

theorem all_updateVM {u : Uuid} {params : UpdateVMParams} :
    (finish (updateVM u params)).All (WritesFor u) := by
  refine all_bind ?_ fun _ => trivial
  unfold updateVM
  split
  · exact all_run_throw _
  split
  · exact all_run_throw _
  refine all_run_bind (all_call trivial) fun vm => ?_
  exact all_run_bind (all_call rfl) fun _ => all_call trivial

/-- A call that has come to its end without an error has written. -/
theorem changed_of_finished {log : List (Entry Tid Outcome Eff)} (hw : w.mem = .fresh)
    (h : system.Trace K (start cfg calls w) log s) {epoch n : Nat} {params : UpdateVMParams}
    (hop : calls epoch n = some (.updateVM u params))
    (hfin : s.Finished (.call epoch n) (.ok ())) :
    ∃ en ∈ log, en.thread = .call epoch n ∧ calls.change u en = some params := by
  have hprog : threads cfg calls (.call epoch n) = finish (updateVM u params) := by
    simp only [threads, hop]
    rfl
  have hwrote := finished_reach (M := merging u params) (A := Answers)
    (t := .call epoch n) (Q := fun r l => r = .ok () → l.wrote = true) (answers_reach hw) (by
      rw [hprog]
      refine conforms_bind.mpr (conforms_mono ?_ merging_updateVM)
      intro r l hr
      cases r with
      | ok vm => exact fun _ => hr ⟨vm, rfl⟩
      | error e => exact fun hok => (by cases hok)) h.reach hfin rfl
  obtain ⟨c, v, settings, x, hmem⟩ := exists_write_of_wrote hwrote
  rw [h.hist] at hmem
  obtain ⟨en, hen, hev⟩ := List.mem_map.mp hmem
  obtain ⟨hlog, ht⟩ := List.mem_filter.mp hen
  obtain ⟨t, o, ev⟩ := en
  obtain rfl : t = .call epoch n := by simpa using ht
  obtain rfl : ev = ⟨.store (.updateSettings c v settings), .ok x⟩ := hev
  have hall : ∀ ev ∈ s.hist (.call epoch n), WritesFor u ev.act :=
    h.reach.hist_all (P := WritesFor u) (hprog ▸ all_updateVM)
  rw [h.hist] at hall
  obtain rfl : v = u := hall _ hmem
  refine ⟨_, hlog, rfl, ?_⟩
  simp only [Calls.change, hop, wroteSettings]
  cases o <;> simp

/-- In every run in which a call writes the settings of a VM only while the row
still has the settings that the call has read and does not name: every setting of
the VM is the value of the last call that named it, a call that has returned
without an error has written, and a step changes no setting that its call does
not name. -/
theorem settings_last_write {log : List (Entry Tid Outcome Eff)} {r₀ : VMRow} (hw : w.mem = .fresh)
    (hu : u < w.store.nextUuid) (h₀ : w.store.vms u = some r₀)
    (h : system.Trace (fun s l => writesFresh calls s l = true) (start cfg calls w) log s) :
    (∀ r, s.world.store.vms u = some r →
      r₀.settings.LastNamed (calls.changes u log) r.settings) ∧
    (∀ epoch n params, calls epoch n = some (.updateVM u params) →
      s.Finished (.call epoch n) (.ok ()) →
      ∃ en ∈ log, en.thread = .call epoch n ∧ calls.change u en = some params) ∧
    ∀ l s' r r', writesFresh calls s l = true → system.step s l = some s' →
      s.world.store.vms u = some r → s'.world.store.vms u = some r' →
      r'.settings = r.settings ∨ ∃ epoch n params o, l = .thread (.call epoch n) o ∧
        calls epoch n = some (.updateVM u params) ∧ params.OnlyNamed r.settings r'.settings := by
  obtain ⟨hlt, hnamed⟩ := lastNamed_trace hw hu h₀ h
  refine ⟨hnamed, fun epoch n params hop hfin => changed_of_finished hw h hop hfin, ?_⟩
  intro l s' r r' hK hs hr hr'
  rcases System.step_cases hs with
    ⟨t, o, rfl, β, e, k, b, w', hp, he, rfl⟩ | ⟨t, o, -, β, body, k, -, rfl⟩ | ⟨v, w', -, hv, rfl⟩
  · obtain ⟨r₁, hr₁, ⟨-, hsame⟩ | ⟨epoch, n, params, rfl, hop, -, hmerge⟩⟩ :=
      settings_exec hw h.reach hK hp he hlt hr'
    · obtain rfl := Option.some.inj (hr₁.symm.trans hr)
      exact Or.inl hsame
    · obtain rfl := Option.some.inj (hr₁.symm.trans hr)
      refine Or.inr ⟨epoch, n, params, o, rfl, hop, ?_⟩
      rw [hmerge]
      exact params.onlyNamed_merge _
  · exact Or.inl (by rw [Option.some.inj (hr'.symm.trans hr)])
  · simp only [execEnv_store hv] at hr'
    exact Or.inl (by rw [Option.some.inj (hr'.symm.trans hr)])

end Reach

/-! ## Two runs -/

/-- A VM that is open to the public. -/
def World.publicVM : World := .sample [{ VMRow.sample "a" 3 with publicHTTP := true }] []

/-- One call hides the VM, and one call stops it from waking up. -/
def Calls.hideAndKeepAsleep : Calls :=
  .ofList [.updateVM 0 { publicHTTP := some false }, .updateVM 0 { autoWake := some false }]

/-- Both calls have returned without an error, and the last call that has named
`public_http` has set it to `false`. -/
def hidden (log : List (Entry Tid Outcome Eff)) (s : MState) : Bool :=
  decide ((s.prog (.call 0 0)).result = some (.ok ())) &&
    decide ((s.prog (.call 0 1)).result = some (.ok ())) &&
    decide ((Calls.hideAndKeepAsleep.changes 0 log).findSome? (·.publicHTTP) = some false)

/-- The second call reads the row before the first one writes it, and writes
after the first one has returned.  The VM is open to the public again. -/
theorem concurrent_updates_lose_setting :
    ∃ log s r, system.Trace AnyStep (start .sample .hideAndKeepAsleep .publicVM) log s ∧
      s.Finished (.call 0 0) (.ok ()) ∧ s.Finished (.call 0 1) (.ok ()) ∧
      (Calls.hideAndKeepAsleep.changes 0 log).findSome? (·.publicHTTP) = some false ∧
      s.world.store.vms 0 = some r ∧ r.publicHTTP = true := by
  obtain ⟨log, s, hs, hP⟩ := system.exists_trace_of_run (k := fun _ _ => true)
    (s := start .sample .hideAndKeepAsleep .publicVM)
    (l := steps (.call 0 1) 1 ++ steps (.call 0 0) 3 ++ steps (.call 0 1) 2)
    (P := fun log s => hidden log s && (s.world.store.vms 0).any (·.publicHTTP))
    (by decide) (by decide)
  simp only [hidden, Bool.and_eq_true, decide_eq_true_eq, Option.any_eq_true] at hP
  obtain ⟨⟨⟨h₀, h₁⟩, hlast⟩, r, hr, hpub⟩ := hP
  exact ⟨log, s, r, hs.mono fun _ _ _ => trivial, h₀, h₁, hlast, hr, hpub⟩

/-- The second call reads the row after the first one has written it.  The VM
stays hidden. -/
theorem settings_last_write_sequential :
    ∃ log s r, system.Trace (fun s l => writesFresh .hideAndKeepAsleep s l = true)
        (start .sample .hideAndKeepAsleep .publicVM) log s ∧
      s.Finished (.call 0 0) (.ok ()) ∧ s.Finished (.call 0 1) (.ok ()) ∧
      s.world.store.vms 0 = some r ∧ r.publicHTTP = false := by
  obtain ⟨log, s, hs, hP⟩ := system.exists_trace_of_run
    (k := writesFresh .hideAndKeepAsleep)
    (s := start .sample .hideAndKeepAsleep .publicVM)
    (l := steps (.call 0 0) 3 ++ steps (.call 0 1) 3)
    (P := fun log s => hidden log s && (s.world.store.vms 0).isSome)
    (by decide) (by decide +kernel)
  simp only [hidden, Bool.and_eq_true, decide_eq_true_eq] at hP
  obtain ⟨⟨⟨h₀, h₁⟩, hlast⟩, hsome⟩ := hP
  obtain ⟨r, hr⟩ := Option.isSome_iff_exists.mp hsome
  obtain ⟨hnamed, -⟩ := settings_last_write (u := 0) rfl (by decide) rfl hs
  have hpub := (hnamed r hr).publicHTTP
  rw [hlast] at hpub
  exact ⟨log, s, r, hs, h₀, h₁, hr, hpub⟩

end Firedoze
