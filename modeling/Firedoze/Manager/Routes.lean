import Firedoze.Manager.Frame
import Firedoze.Proxy.Hosts

/-!
# Names of VMs and routes

A hostname below the base domain is looked up first among the VMs and then
among the routes, so a name must not be both.  `CreateVM` and `CreateRoute`
each check the other table in the transaction that inserts.  `directory_reach`
says that the two tables stay apart in every run, and that a route always
refers to a VM that exists.

`Store.Resolves` says what a name stands for without saying in which order
the tables are read.  `lookup_eq_some_iff` is the connection to
`routeForHost`.

`names_valid_reach` says that the tables hold valid names when every call has
passed the checks of the API.
-/

namespace Firedoze

open Conc Conc.Prog Conc.Monitor Function

/-! ## The tables -/

/-- Names are unique over the two tables, and a route refers to a VM. -/
structure Store.Directory (s : Store) : Prop where
  bound : ∀ u r, s.vms u = some r → u < s.nextUuid
  unique : ∀ u v r r', s.vms u = some r → s.vms v = some r' → r.name = r'.name → u = v
  apart : ∀ u r, s.vms u = some r → s.routes r.name = none
  refers : ∀ name route, s.routes name = some route → (s.vms route.vmUUID).isSome = true

section Directory

variable {s s' : Store} {name : String} {u : Uuid} {vm : VM}

theorem Store.vmExists_eq_false (hbound : ∀ u r, s.vms u = some r → u < s.nextUuid)
    (h : s.vmExists name = false) {r : VMRow} (hr : s.vms u = some r) :
    r.name ≠ name := by
  rintro rfl
  have hnone := List.any_eq_false.mp h u (List.mem_range.mpr (hbound u r hr))
  simp [hr] at hnone

namespace Store.Directory

theorem updateVM (h : s.Directory) {r r₁ : VMRow} (hr : s.vms u = some r)
    (hname : r₁.name = r.name) :
    ({ s with vms := update s.vms u (some r₁) } : Store).Directory := by
  -- Every row was there before under the same name.
  have hrow : ∀ v r', update s.vms u (some r₁) v = some r' →
      ∃ r₀, s.vms v = some r₀ ∧ r'.name = r₀.name := by
    intro v r' hr'
    rcases update_some hr' with ⟨rfl, rfl⟩ | ⟨-, hold⟩
    · exact ⟨r, hr, hname⟩
    · exact ⟨r', hold, rfl⟩
  refine ⟨fun v r' hr' => ?_, fun v v' r₁ r₂ h₁ h₂ hname => ?_, fun v r' hr' => ?_,
    fun name route hroute => ?_⟩
  · obtain ⟨r₀, hr₀, -⟩ := hrow v r' hr'
    exact h.bound v r₀ hr₀
  · obtain ⟨r₁', h₁', hn₁⟩ := hrow v r₁ h₁
    obtain ⟨r₂', h₂', hn₂⟩ := hrow v' r₂ h₂
    exact h.unique v v' r₁' r₂' h₁' h₂' (by rw [← hn₁, ← hn₂, hname])
  · obtain ⟨r₀, hr₀, hn⟩ := hrow v r' hr'
    rw [hn]
    exact h.apart v r₀ hr₀
  · have hvm := h.refers name route hroute
    by_cases hv : route.vmUUID = u
    · simp [hv]
    · simpa [hv] using hvm

theorem insertVM (h : s.Directory) {p : CreateVMParams} {now : Nat}
    (hfree : s.vmExists p.name = false) (hroute : s.routes p.name = none) :
    ({ s with
      vms := update s.vms s.nextUuid (some (Store.newRow p now))
      nextUuid := s.nextUuid + 1 } : Store).Directory := by
  -- A row is the new one, or it was there before and has another name.
  have hrow : ∀ v r, update s.vms s.nextUuid (some (Store.newRow p now)) v = some r →
      v = s.nextUuid ∧ r.name = p.name ∨
        v < s.nextUuid ∧ s.vms v = some r ∧ r.name ≠ p.name := by
    intro v r hr
    rcases update_some hr with ⟨rfl, rfl⟩ | ⟨-, hold⟩
    · exact Or.inl ⟨rfl, rfl⟩
    · exact Or.inr ⟨h.bound v r hold, hold, Store.vmExists_eq_false h.bound hfree hold⟩
  refine ⟨fun v r hr => ?_, fun v v' r r' hr hr' hname => ?_, fun v r hr => ?_,
    fun name route hname => ?_⟩
  · rcases hrow v r hr with ⟨rfl, -⟩ | ⟨hlt, -, -⟩
    · exact Nat.lt_succ_self _
    · exact Nat.lt_succ_of_lt hlt
  · rcases hrow v r hr with ⟨rfl, hn⟩ | ⟨-, hold, hn⟩
    · rcases hrow v' r' hr' with ⟨rfl, -⟩ | ⟨-, -, hn'⟩
      · rfl
      · exact absurd (hname.symm.trans hn) hn'
    · rcases hrow v' r' hr' with ⟨rfl, hn'⟩ | ⟨-, hold', -⟩
      · exact absurd (hname.trans hn') hn
      · exact h.unique v v' r r' hold hold' hname
  · rcases hrow v r hr with ⟨-, hn⟩ | ⟨-, hold, -⟩
    · rw [hn]
      exact hroute
    · exact h.apart v r hold
  · have hvm := h.refers name route hname
    by_cases hv : route.vmUUID = s.nextUuid
    · simp [hv]
    · simpa [hv] using hvm

theorem deleteVM (h : s.Directory) (u : Uuid) :
    ({ s with vms := update s.vms u none, routes := s.routesWithout u } : Store).Directory := by
  refine ⟨fun v r hr => h.bound v r (update_none hr).2,
    fun v v' r r' hr hr' => h.unique v v' r r' (update_none hr).2 (update_none hr').2,
    fun v r hr => ?_, fun name route hroute => ?_⟩
  · simp [Store.routesWithout, h.apart v r (update_none hr).2]
  · obtain ⟨hroute, hne⟩ := Option.filter_eq_some_iff.mp hroute
    have hvm := h.refers name route hroute
    simpa [of_decide_eq_true hne] using hvm

theorem deleteRoutesForVM (h : s.Directory) (u : Uuid) :
    ({ s with routes := s.routesWithout u } : Store).Directory := by
  refine ⟨h.bound, h.unique, fun v r hr => ?_, fun name route hroute => ?_⟩
  · simp [Store.routesWithout, h.apart v r hr]
  · exact h.refers name route (Option.filter_eq_some_iff.mp hroute).1

theorem insertRoute (h : s.Directory) (port : Int) (hfree : s.vmExists name = false)
    (hu : (s.vms u).isSome = true) :
    ({ s with routes := update s.routes name (some ⟨u, port, false⟩) } : Store).Directory := by
  refine ⟨h.bound, h.unique, fun v r hr => ?_, fun name' route hroute => ?_⟩
  · have hne : r.name ≠ name := Store.vmExists_eq_false h.bound hfree hr
    simpa [hne] using h.apart v r hr
  · rcases update_some hroute with ⟨-, rfl⟩ | ⟨-, hold⟩
    · exact hu
    · exact h.refers name' route hold

theorem deleteRoute (h : s.Directory) (name : String) :
    ({ s with routes := update s.routes name none } : Store).Directory := by
  refine ⟨h.bound, h.unique, fun v r hr => ?_, fun name' route hroute =>
    h.refers name' route (update_none hroute).2⟩
  by_cases hn : r.name = name
  · simp [hn]
  · simpa [hn] using h.apart v r hr

end Store.Directory

/-- Every call of the store keeps the tables apart. -/
theorem execStore_directory {w : World} {t : Tid} {o : Outcome} {β : Type} {e : StoreEff β} {b : β}
    (h : execStore w t o e = some (b, s)) (hw : w.store.Directory) : s.Directory := by
  rcases execStore_cases h with rfl | hwrites
  · exact hw
  · cases hwrites with
    | insertVM hfree hroute => exact hw.insertVM hfree hroute
    | setVMState hr | setVMArchivedDiskPath hr | updateSettings hr => exact hw.updateVM hr rfl
    | deleteVM => exact hw.deleteVM _
    | deleteRoutesForVM => exact hw.deleteRoutesForVM _
    | insertSnapshot | deleteSnapshot => exact ⟨hw.bound, hw.unique, hw.apart, hw.refers⟩
    | insertRoute hfree hu => exact hw.insertRoute _ hfree hu
    | deleteRoute => exact hw.deleteRoute _

/-! ## What a name stands for -/

/-- The name is that of the VM, or of a route to it. -/
def Store.Resolves (s : Store) (name : String) (vm : VM) (port : Int) : Prop :=
  s.vms vm.uuid = some vm.toVMRow ∧
    (vm.name = name ∧ port = vm.defaultHTTPPort ∨
      ∃ route, s.routes name = some route ∧ route.vmUUID = vm.uuid ∧ port = route.port)

theorem Store.findVM_eq_some_iff (h : s.Directory) :
    s.findVM name = some vm ↔ s.vms vm.uuid = some vm.toVMRow ∧ vm.name = name := by
  constructor
  · intro hfind
    obtain ⟨u, -, hu⟩ := List.exists_of_findSome?_eq_some hfind
    obtain ⟨r, hr, hif⟩ := Option.bind_eq_some_iff.mp hu
    split_ifs at hif with hname
    cases hif
    exact ⟨hr, hname⟩
  · rintro ⟨hrow, hname⟩
    have hsome : (s.findVM name).isSome = true := by
      refine List.findSome?_isSome_iff.mpr
        ⟨vm.uuid, List.mem_range.mpr (h.bound _ _ hrow), ?_⟩
      simp [hrow, hname]
    obtain ⟨vm', hfind⟩ := Option.isSome_iff_exists.mp hsome
    obtain ⟨u, -, hu⟩ := List.exists_of_findSome?_eq_some hfind
    obtain ⟨r, hr, hif⟩ := Option.bind_eq_some_iff.mp hu
    split_ifs at hif with hname'
    obtain rfl := h.unique u vm.uuid r vm.toVMRow hr hrow (hname'.trans hname.symm)
    obtain rfl := Option.some.inj (hr.symm.trans hrow)
    rw [hfind, ← hif]

theorem Store.Directory.resolves_unique (h : s.Directory) {vm vm' : VM} {port port' : Int}
    (hr : s.Resolves name vm port) (hr' : s.Resolves name vm' port') :
    vm = vm' ∧ port = port' := by
  obtain ⟨hrow, hvm⟩ := hr
  obtain ⟨hrow', hvm'⟩ := hr'
  have heq : vm.uuid = vm'.uuid → vm = vm' := by
    intro huuid
    rw [huuid] at hrow
    obtain ⟨row, u⟩ := vm
    obtain ⟨row', u'⟩ := vm'
    obtain rfl : u = u' := huuid
    obtain rfl : row = row' := Option.some.inj (hrow.symm.trans hrow')
    rfl
  rcases hvm with ⟨hname, hport⟩ | ⟨route, hroute, huuid, hport⟩
  · rcases hvm' with ⟨hname', hport'⟩ | ⟨route', hroute', -, -⟩
    · obtain rfl := heq (h.unique _ _ _ _ hrow hrow' (hname.trans hname'.symm))
      exact ⟨rfl, hport.trans hport'.symm⟩
    · -- A name of a VM is no route.
      have hnone := h.apart _ _ hrow
      rw [hname, hroute'] at hnone
      cases hnone
  · rcases hvm' with ⟨hname', -⟩ | ⟨route', hroute', huuid', hport'⟩
    · have hnone := h.apart _ _ hrow'
      rw [hname', hroute] at hnone
      cases hnone
    · obtain rfl := Option.some.inj (hroute.symm.trans hroute')
      exact ⟨heq (huuid.symm.trans huuid'), hport.trans hport'.symm⟩

theorem Store.getVM_eq_ok_iff :
    s.getVM u = .ok vm ↔ vm.uuid = u ∧ s.vms u = some vm.toVMRow := by
  unfold Store.getVM
  cases hr : s.vms u with
  | none => simp
  | some r =>
    simp only [Except.ok.injEq, Option.some.injEq]
    constructor
    · rintro rfl
      exact ⟨rfl, rfl⟩
    · rintro ⟨rfl, rfl⟩
      rfl

/-- `routeForHost` finds what a name stands for. -/
theorem Store.lookup_eq_some_iff (h : s.Directory) {port : Int} :
    s.lookup name = some (vm, port) ↔ s.Resolves name vm port := by
  -- A name that stands for something is found.
  have hfound : ∀ vm port, s.Resolves name vm port → (s.lookup name).isSome = true := by
    rintro vm port ⟨hrow, ⟨hname, -⟩ | ⟨route, hroute, huuid, -⟩⟩
    · have hfind := (Store.findVM_eq_some_iff h).mpr ⟨hrow, hname⟩
      simp [Store.lookup, Store.getVMByName, hfind]
    · unfold Store.lookup
      split
      · rfl
      · have hget : s.getRoute name = .ok route := by
          simp [Store.getRoute, hroute, huuid, hrow]
        have hvm : s.getVM route.vmUUID = .ok vm :=
          Store.getVM_eq_ok_iff.mpr ⟨huuid.symm, huuid ▸ hrow⟩
        simp [hget, hvm]
  have hlookup : ∀ vm port, s.lookup name = some (vm, port) → s.Resolves name vm port := by
    intro vm port hl
    unfold Store.lookup at hl
    split at hl
    · rename_i vm' hget
      cases hl
      unfold Store.getVMByName at hget
      split at hget
      · cases hget
      · rename_i vm' hfind
        cases hget
        obtain ⟨hrow, hname⟩ := (Store.findVM_eq_some_iff h).mp hfind
        exact ⟨hrow, Or.inl ⟨hname, rfl⟩⟩
    · split at hl
      · cases hl
      · rename_i route hget
        split at hl
        · cases hl
        · rename_i vm' hvm
          cases hl
          obtain ⟨huuid, hrow⟩ := Store.getVM_eq_ok_iff.mp hvm
          unfold Store.getRoute at hget
          split at hget
          · cases hget
          · rename_i route' hroute
            split_ifs at hget
            obtain rfl := Except.ok.inj hget
            exact ⟨huuid ▸ hrow, Or.inr ⟨route', hroute, huuid.symm, rfl⟩⟩
  refine ⟨hlookup vm port, fun hr => ?_⟩
  obtain ⟨⟨vm', port'⟩, hl⟩ := Option.isSome_iff_exists.mp (hfound vm port hr)
  obtain ⟨rfl, rfl⟩ := h.resolves_unique hr (hlookup vm' port' hl)
  exact hl

/-- Rows are only added. -/
structure Store.Extends (s s' : Store) : Prop where
  vms : ∀ u r, s.vms u = some r → s'.vms u = some r
  routes : ∀ name route, s.routes name = some route → s'.routes name = some route

theorem Store.Resolves.extend {port : Int} (h : s.Resolves name vm port) (hext : s.Extends s') :
    s'.Resolves name vm port := by
  obtain ⟨hrow, hvm⟩ := h
  refine ⟨hext.vms _ _ hrow, hvm.imp_right ?_⟩
  rintro ⟨route, hroute, hrest⟩
  exact ⟨route, hext.routes _ _ hroute, hrest⟩

end Directory

/-! ## Reading the tables call by call -/

/-- `routeForHost` as the calls of the store that it makes. -/
def routeForHostCalls (U : Text.Unicode) (baseDomain hostport : String) : Go (Option (VM × Int)) :=
  match routeName U baseDomain hostport with
  | none => pure none
  | some name => do
      match ← attempt (db (.getVMByName .request name)) with
      | .ok vm => pure (some (vm, vm.defaultHTTPPort))
      | .error _ =>
          match ← attempt (db (.getRoute .request name)) with
          | .error _ => pure none
          | .ok route =>
              match ← attempt (db (.getVM .request route.vmUUID)) with
              | .error _ => pure none
              | .ok vm => pure (some (vm, route.port))

/-- The answers that a call can get from the store `s`, whether it succeeds or
fails. -/
def AnsweredBy (s : Store) {β : Type} (e : Eff β) (b : β) : Prop :=
  ∃ w t o w', w.store = s ∧ exec t w e o = some (b, w')

/-- Every result that the block can have when its calls are answered from the
store `s` satisfies `Q`. -/
structure ReturnsFrom {α : Type} (s : Store) (x : Go α) (Q : Except Err α → Prop) : Prop where
  conforms : (Monitor.always fun _ => True).Conforms (AnsweredBy s) x.run () fun r _ => Q r

/-- A `routeForHost` that some calls of the store fail for finds nothing, or
what it finds when none of them fails. -/
theorem routeForHostCalls_eq {U : Text.Unicode} {s : Store} (h : s.Directory)
    (baseDomain hostport : String) :
    ReturnsFrom s (routeForHostCalls U baseDomain hostport) fun r =>
      r = .ok none ∨ r = .ok (routeForHost U s baseDomain hostport) := by
  have hanswer : ∀ {α : Type} {e : StoreEff (Except Err α)} {r : Except Err α},
      AnsweredBy s (.store e) r → ∃ w t o s', w.store = s ∧ execStore w t o e = some (r, s') := by
    rintro α e r ⟨w, t, o, w', hw, hexec⟩
    obtain ⟨s', hs', -⟩ := exec_store hexec
    exact ⟨w, t, o, s', hw, hs'⟩
  constructor
  unfold routeForHostCalls routeForHost
  split
  · exact Or.inl rfl
  rename_i name hname
  rw [hname]
  refine conforms_attempt_call_bind fun r hr => ⟨trivial, ?_⟩
  obtain ⟨w, t, o, s', rfl, hexec⟩ := hanswer hr
  obtain ⟨-, hvm⟩ := reply_eq hexec
  cases r with
  | ok vm =>
    obtain hvm : Except.ok vm = w.store.getVMByName name := hvm.resolve_right (by simp)
    refine Or.inr ?_
    simp [Store.lookup, ← hvm]
  | error e =>
    refine conforms_attempt_call_bind fun r hr => ⟨trivial, ?_⟩
    obtain ⟨w', t, o, s', hw', hexec⟩ := hanswer hr
    obtain ⟨-, hroute⟩ := reply_eq hexec
    cases r with
    | error e => exact Or.inl rfl
    | ok route =>
      obtain hroute : Except.ok route = w'.store.getRoute name := hroute.resolve_right (by simp)
      refine conforms_attempt_call_bind fun r hr => ⟨trivial, ?_⟩
      obtain ⟨w'', t, o, s', hw'', hexec⟩ := hanswer hr
      obtain ⟨-, hget⟩ := reply_eq hexec
      cases r with
      | error e => exact Or.inl rfl
      | ok vm =>
        obtain hget : Except.ok vm = w''.store.getVM route.vmUUID := hget.resolve_right (by simp)
        refine Or.inr ?_
        rw [hw'] at hroute
        rw [hw''] at hget
        obtain ⟨huuid, hrow⟩ := Store.getVM_eq_ok_iff.mp hget.symm
        have hroutes : w.store.routes name = some route := by
          unfold Store.getRoute at hroute
          split at hroute
          · cases hroute
          · rename_i route' hr'
            split_ifs at hroute
            rw [hr', Except.ok.inj hroute]
        have hres : w.store.Resolves name vm route.port :=
          ⟨huuid ▸ hrow, Or.inr ⟨route, hroutes, huuid.symm, rfl⟩⟩
        simp [(Store.lookup_eq_some_iff h).mpr hres]

/-! ## Every run -/

section Reach

variable {cfg : Config} {calls : Calls} {w : World} {s s' : MState} {K : MState → MLabel → Prop}
  {p : CreateVMParams} {name : String}

theorem directory_step {l : MLabel} (h : s.world.store.Directory) (hs : system.step s l = some s') :
    s'.world.store.Directory := by
  rcases System.step_cases hs with
    ⟨t, o, -, β, e, k, b, w', -, he, rfl⟩ | ⟨t, o, -, β, body, k, -, rfl⟩ | ⟨v, w', -, hv, rfl⟩
  · cases e with
    | mem e => obtain ⟨_, -, rfl⟩ := exec_mem he; exact h
    | host e => obtain ⟨_, -, rfl⟩ := exec_host he; exact h
    | store e => obtain ⟨_, hexec, rfl⟩ := exec_store he; exact execStore_directory hexec h
  · exact h
  · show w'.store.Directory
    rw [execEnv_store hv]
    exact h

/-- In every run the two tables stay apart, and every route refers to a VM. -/
theorem directory_reach (hw : w.store.Directory) (h : system.Reach K (start cfg calls w) s) :
    s.world.store.Directory :=
  h.invariant (I := fun s => s.world.store.Directory) hw fun _ _ _ _ ih _ hs => directory_step ih hs

/-- The call makes a VM or a route. -/
def Op.creates : Op → Bool
  | .createVM _ => true
  | .restoreSnapshot _ _ => true
  | .createRoute _ _ _ => true
  | _ => false

/-- The actions that only add rows to the two tables, or leave them alone. -/
def Adds : {β : Type} → Eff β → Prop
  | _, .store (.deleteRoute _ _) => False
  | _, .store e => e.kind = .read ∨ e.kind = .insert ∨ e.kind = .route
  | _, _ => True

theorem all_creates {op : Op} (h : op.creates = true) : (op.prog cfg).All Adds := by
  have hadd : ∀ {β : Type} (e : Eff β), e.kind = .read ∨ e.kind = .insert → Adds e := by
    intro β e he
    cases e with
    | mem e | host e => trivial
    | store e =>
      cases e with
      | deleteRoute c name => simp [Eff.kind, StoreEff.kind] at he
      | _ => exact he.imp_right Or.inl
  have huses : ∀ {α : Type} {p : Prog Eff α}, Uses (fun k => k = .read ∨ k = .insert) p →
      p.All Adds := fun hp => All.mono hp hadd
  have hdisk : ∀ (snapshot : Snapshot) (size : Nat) (params : CreateVMParams),
      (restoreDisk cfg snapshot size params).run.All Adds := by
    intro snapshot size params
    unfold restoreDisk copyFile copyRegularFile growDisk
    repeat' first | refine all_run_bind ?_ fun _ => ?_ | split
    all_goals first | exact all_call trivial | exact all_run_pure _
  cases op with
  | createVM params =>
    refine all_bind ?_ fun _ => trivial
    unfold createVM
    refine all_run_bind (all_call (Or.inl rfl)) fun routeExists => ?_
    split
    · exact all_run_throw _
    split
    · exact all_run_throw _
    refine all_run_bind (huses (by grind)) fun params => ?_
    exact all_run_bind (all_call trivial) fun _ => huses (by grind)
  | restoreSnapshot name params =>
    refine all_bind ?_ fun _ => trivial
    unfold restoreSnapshot
    split
    · exact all_run_throw _
    split
    · exact all_run_throw _
    refine all_run_bind (all_call (Or.inl rfl)) fun vmExists => ?_
    split
    · exact all_run_throw _
    refine all_run_bind (all_call (Or.inl rfl)) fun routeExists => ?_
    split
    · exact all_run_throw _
    refine all_run_bind (all_call (Or.inl rfl)) fun snapshot => ?_
    refine all_run_bind (all_call trivial) fun size => ?_
    split
    · exact all_run_throw _
    refine all_run_bind (huses (by grind)) fun params => ?_
    exact all_run_bind (hdisk _ _ _) fun _ => huses (by grind)
  | createRoute name u port =>
    refine all_bind ?_ fun _ => trivial
    unfold createRoute
    refine all_run_bind (all_call (Or.inl rfl)) fun reserved => ?_
    split
    · exact all_run_throw _
    exact all_run_bind (all_call (Or.inr (Or.inr rfl))) fun _ => all_call (Or.inl rfl)
  | _ => cases h

theorem execStore_extends {w : World} {t : Tid} {o : Outcome} {β : Type} {e : StoreEff β} {b : β}
    {s : Store} (h : execStore w t o e = some (b, s)) (hw : w.store.Directory)
    (hadds : Adds (.store e)) : w.store.Extends s := by
  rcases execStore_cases h with rfl | hwrites
  · exact ⟨fun _ _ h => h, fun _ _ h => h⟩
  · cases hwrites with
    | insertVM =>
      refine ⟨fun u r hr => ?_, fun _ _ h => h⟩
      have hne : u ≠ w.store.nextUuid := Nat.ne_of_lt (hw.bound u r hr)
      simpa [hne] using hr
    | @insertRoute _ name u port _ _ hfree =>
      refine ⟨fun _ _ h => h, fun name' route hroute => ?_⟩
      have hne : name' ≠ name := by
        rintro rfl
        rw [hfree] at hroute
        cases hroute
      simpa [hne] using hroute
    | deleteRoute => exact hadds.elim
    | @setVMState c u state =>
      rcases StoreEff.kind_setVMState c u state with hk | hk | hk <;> simp [Adds, hk] at hadds
    | @setVMArchivedDiskPath c u path => cases path <;> simp [Adds, StoreEff.kind] at hadds
    | _ => simp [Adds, StoreEff.kind] at hadds

/-- A step of a call that makes a VM or a route only adds rows. -/
theorem extends_step {epoch n : Nat} {op : Op} {o : Outcome} (hw : w.store.Directory)
    (h : system.Reach K (start cfg calls w) s) (hop : calls epoch n = some op)
    (hcreates : op.creates = true) (hs : system.step s (.thread (.call epoch n) o) = some s') :
    s.world.store.Extends s'.world.store := by
  have hrefl : s.world.store.Extends s.world.store := ⟨fun _ _ h => h, fun _ _ h => h⟩
  rcases System.step_cases hs with
    ⟨t, o', hl, β, e, k, b, w', hp, he, rfl⟩ | ⟨t, o', -, β, body, k, -, rfl⟩ | ⟨v, w', hl, -, -⟩
  · obtain ⟨rfl, rfl⟩ := Label.thread.inj hl
    have hall : (s.prog (.call epoch n)).All Adds := by
      refine h.all ?_
      simp only [threads, hop]
      exact all_creates hcreates
    rw [hp] at hall
    cases e with
    | mem e => obtain ⟨_, -, rfl⟩ := exec_mem he; exact hrefl
    | host e => obtain ⟨_, -, rfl⟩ := exec_host he; exact hrefl
    | store e =>
      obtain ⟨_, hexec, rfl⟩ := exec_store he
      exact execStore_extends hexec (directory_reach hw h) hall.1
  · exact hrefl
  · cases hl

/-- In every run, whatever the calls are: no name is both that of a VM and
that of a route, every route refers to a VM, a hostname stands for at most one
VM and port, which `routeForHost` finds also when some of its calls of the
store fail, and no step of a call that makes a VM or a route changes what a
hostname stands for. -/
theorem hostnames_resolve_uniquely (U : Text.Unicode) (baseDomain : String)
    (hw : w.store.Directory) (h : system.Reach AnyStep (start cfg calls w) s) :
    (∀ u r, s.world.store.vms u = some r → s.world.store.routes r.name = none) ∧
    (∀ name route, s.world.store.routes name = some route →
      (s.world.store.vms route.vmUUID).isSome = true) ∧
    (∀ hostport vm port, routeForHost U s.world.store baseDomain hostport = some (vm, port) ↔
      ∃ name, routeName U baseDomain hostport = some name ∧
        s.world.store.Resolves name vm port) ∧
    (∀ name vm port vm' port', s.world.store.Resolves name vm port →
      s.world.store.Resolves name vm' port' → vm = vm' ∧ port = port') ∧
    (∀ hostport, ReturnsFrom s.world.store (routeForHostCalls U baseDomain hostport) fun r =>
      r = .ok none ∨ r = .ok (routeForHost U s.world.store baseDomain hostport)) ∧
    ∀ epoch n op o s', calls epoch n = some op → op.creates = true →
      system.step s (.thread (.call epoch n) o) = some s' → ∀ hostport x,
      routeForHost U s.world.store baseDomain hostport = some x →
      routeForHost U s'.world.store baseDomain hostport = some x := by
  have hdir := directory_reach hw h
  refine ⟨hdir.apart, hdir.refers, fun hostport vm port => ?_,
    fun _ _ _ _ _ hr hr' => hdir.resolves_unique hr hr',
    fun hostport => routeForHostCalls_eq hdir baseDomain hostport, ?_⟩
  · simp only [routeForHost, Option.bind_eq_some_iff, Store.lookup_eq_some_iff hdir]
  · rintro epoch n op o s' hop hcreates hs hostport ⟨vm, port⟩ hroute
    obtain ⟨name, hname, hlookup⟩ := Option.bind_eq_some_iff.mp hroute
    refine Option.bind_eq_some_iff.mpr ⟨name, hname, ?_⟩
    rw [Store.lookup_eq_some_iff hdir] at hlookup
    rw [Store.lookup_eq_some_iff (directory_step hdir hs)]
    exact hlookup.extend (extends_step hw h hop hcreates hs)

/-- The call has passed the checks that the API makes of its names. -/
def Op.validated : Op → Prop
  | .createVM params => validVMName params.name = true
  | .restoreSnapshot _ params => validVMName params.name = true
  | .createRoute name _ _ => validRouteName name = true
  | _ => True

/-- Every call has passed the checks of the API. -/
def Calls.Validated (calls : Calls) : Prop :=
  ∀ epoch n op, calls epoch n = some op → op.validated

/-- The tables hold valid names. -/
structure Store.ValidNames (s : Store) : Prop where
  vms : ∀ u r, s.vms u = some r → validVMName r.name = true
  routes : ∀ name, (s.routes name).isSome = true → validRouteName name = true

/-- A row that is inserted has a valid name. -/
def InsertsValid : {β : Type} → Eff β → Prop
  | _, .store (.insertVM _ params) => validVMName params.name = true
  | _, .store (.insertRoute _ name _ _) => validRouteName name = true
  | _, _ => True

/-- The monitor of the names that are inserted. -/
def naming : Monitor Eff Unit := .always InsertsValid

theorem naming_of_uses {α : Type} {p : Prog Eff α}
    (hp : Uses (fun k => k ≠ .insert ∧ k ≠ .route) p) :
    naming.Conforms (fun _ _ => True) p () fun _ _ => True := by
  refine always_of_all hp ?_
  intro β e he
  cases e with
  | mem e | host e => trivial
  | store e =>
    cases e with
    | insertVM c params => exact absurd rfl he.1
    | insertRoute c name u port => exact absurd rfl he.2
    | _ => trivial

theorem completeParams_name {size : Int} {p q : CreateVMParams}
    (h : completeParams cfg size p = .ok q) : q.name = p.name := by
  unfold completeParams at h
  grind

theorem naming_choosePrivateIP :
    naming.Conforms (fun _ _ => True) (choosePrivateIP cfg p).run () fun r _ =>
      ∀ q, r = .ok q → q.name = p.name := by
  unfold choosePrivateIP
  split
  · intro q hq
    rw [Except.ok.inj hq]
  · refine conforms_call_bind (fun vms _ => ⟨trivial, ?_⟩)
      fun _ _ => ⟨trivial, fun _ h => by cases h⟩
    split
    · exact fun _ h => by cases h
    · intro q hq
      rw [← Except.ok.inj hq]

theorem naming_storeCreateVM (hp : validVMName p.name = true) :
    naming.Conforms (fun _ _ => True) (storeCreateVM p).run () fun _ _ => True := by
  unfold storeCreateVM
  split
  · trivial
  · exact conforms_call_bind (fun _ _ => ⟨hp, naming_of_uses (by grind)⟩)
      fun _ _ => ⟨hp, trivial⟩

/-- A part that inserts nothing. -/
theorem naming_skip {α β : Type} {x : Go α} {f : α → Go β}
    (hx : Uses (fun k => k ≠ .insert ∧ k ≠ .route) x.run)
    (hf : ∀ a, naming.Conforms (fun _ _ => True) (f a).run () fun _ _ => True) :
    naming.Conforms (fun _ _ => True) (x >>= f).run () fun _ _ => True :=
  always_bind (R := fun _ => True)
    (conforms_mono (fun _ _ _ _ _ => trivial) (naming_of_uses hx)) (fun a _ => hf a)
    fun _ => trivial

theorem naming_createVM (hp : validVMName p.name = true) :
    naming.Conforms (fun _ _ => True) (createVM cfg p).run () fun _ _ => True := by
  unfold createVM
  refine naming_skip (by grind) fun routeExists => ?_
  split
  · trivial
  split
  · trivial
  rename_i q hq
  refine always_bind naming_choosePrivateIP (fun q' hq' => ?_) fun _ => trivial
  refine naming_skip (by grind) fun ids => naming_storeCreateVM ?_
  show validVMName q'.name = true
  rw [hq', completeParams_name hq, hp]

theorem naming_restoreSnapshot (hp : validVMName p.name = true) :
    naming.Conforms (fun _ _ => True) (restoreSnapshot cfg name p).run () fun _ _ => True := by
  unfold restoreSnapshot
  split
  · trivial
  split
  · trivial
  refine naming_skip (by grind) fun vmExists => ?_
  split
  · trivial
  refine naming_skip (by grind) fun routeExists => ?_
  split
  · trivial
  refine naming_skip (by grind) fun snapshot => ?_
  refine naming_skip (by grind) fun size => ?_
  split
  · trivial
  rename_i q hq
  refine always_bind naming_choosePrivateIP (fun q' hq' => ?_) fun _ => trivial
  refine naming_skip (by grind) fun _ => naming_storeCreateVM ?_
  show validVMName q'.name = true
  rw [hq', completeParams_name hq, hp]

theorem naming_threads (hcalls : calls.Validated) (t : Tid) :
    naming.Conforms (fun _ _ => True) (threads cfg calls t) () fun _ _ => True := by
  refine conforms_threads (M := naming) (Q := fun _ _ _ => True) (fun p => ?_)
    (fun _ _ => trivial) (fun epoch n op hop => ?_) t
  · exact conforms_finish (naming_of_uses (by grind))
  · have hvalid := hcalls epoch n op hop
    cases op with
    | createVM params => exact conforms_finish (naming_createVM hvalid)
    | restoreSnapshot name params => exact conforms_finish (naming_restoreSnapshot hvalid)
    | createRoute name u port =>
      refine conforms_finish ?_
      unfold createRoute
      refine naming_skip (by grind) fun reserved => ?_
      split
      · trivial
      · exact conforms_call_bind (fun _ _ => ⟨hvalid, naming_of_uses (by grind)⟩)
          fun _ _ => ⟨hvalid, trivial⟩
    | deleteRoute name => exact fun _ _ => ⟨trivial, trivial⟩
    | _ => exact naming_of_uses ((uses_op cfg _).mono (by simp [Op.kinds, startKinds]))

theorem execStore_validNames {w : World} {t : Tid} {o : Outcome} {β : Type} {e : StoreEff β} {b : β}
    {s : Store} (h : execStore w t o e = some (b, s)) (hw : w.store.ValidNames)
    (he : InsertsValid (.store e)) : s.ValidNames := by
  have hwithout : ∀ u name, ((w.store.routesWithout u) name).isSome = true →
      validRouteName name = true := by
    intro u name hname
    obtain ⟨route, hroute⟩ := Option.isSome_iff_exists.mp hname
    exact hw.routes name (by rw [(Option.filter_eq_some_iff.mp hroute).1]; rfl)
  rcases execStore_cases h with rfl | hwrites
  · exact hw
  · cases hwrites with
    | insertVM =>
      refine ⟨fun u r hr => ?_, hw.routes⟩
      rcases update_some hr with ⟨-, rfl⟩ | ⟨-, hold⟩
      · exact he
      · exact hw.vms u r hold
    | setVMState hu | setVMArchivedDiskPath hu | updateSettings hu =>
      refine ⟨fun v r hr => ?_, hw.routes⟩
      rcases update_some hr with ⟨rfl, rfl⟩ | ⟨-, hold⟩
      · exact (hw.vms _ _ hu :)
      · exact hw.vms v r hold
    | deleteVM => exact ⟨fun u r hr => hw.vms u r (update_none hr).2, hwithout _⟩
    | deleteRoutesForVM => exact ⟨hw.vms, hwithout _⟩
    | insertSnapshot | deleteSnapshot => exact ⟨hw.vms, hw.routes⟩
    | insertRoute =>
      refine ⟨hw.vms, fun name hname => ?_⟩
      obtain ⟨route, hroute⟩ := Option.isSome_iff_exists.mp hname
      rcases update_some hroute with ⟨rfl, -⟩ | ⟨-, hold⟩
      · exact he
      · exact hw.routes name (by rw [hold]; rfl)
    | deleteRoute =>
      refine ⟨hw.vms, fun name hname => ?_⟩
      obtain ⟨route, hroute⟩ := Option.isSome_iff_exists.mp hname
      exact hw.routes name (by rw [(update_none hroute).2]; rfl)

/-- When every call has passed the checks of the API, the tables hold valid
names. -/
theorem names_valid_reach (hcalls : calls.Validated) (hw : w.store.ValidNames)
    (h : system.Reach K (start cfg calls w) s) : s.world.store.ValidNames := by
  refine (always_invariant (P := fun _ => InsertsValid) (A := fun _ _ => True)
    (I := fun w => w.store.ValidNames) (fun _ _ _ _ _ _ _ _ _ _ _ _ _ => trivial)
    (naming_threads hcalls) hw ?_ ?_ h).1
  · intro s t o β e k b w' _ hI _ he hP
    cases e with
    | mem e => obtain ⟨_, -, rfl⟩ := exec_mem he; exact hI
    | host e => obtain ⟨_, -, rfl⟩ := exec_host he; exact hI
    | store e => obtain ⟨_, hexec, rfl⟩ := exec_store he; exact execStore_validNames hexec hI hP
  · intro s v w' _ hI hv
    rw [execEnv_store hv]
    exact hI

end Reach

/-! ## A run -/

/-- The tables of a small host are apart when its VMs have different names. -/
theorem directory_sample {rows : List VMRow} {files : List (Path × File)}
    (h : (rows.map (·.name)).Nodup) : (World.sample rows files).store.Directory := by
  refine ⟨fun u r hr => ?_, fun u v r r' hr hr' hname => ?_, fun _ _ _ => rfl,
    fun _ _ hroute => by cases hroute⟩
  · exact (List.getElem?_eq_some_iff.mp hr).1
  · obtain ⟨hu, hr⟩ := List.getElem?_eq_some_iff.mp hr
    obtain ⟨hv, hr'⟩ := List.getElem?_eq_some_iff.mp hr'
    refine (@List.Nodup.getElem_inj_iff _ _ h u (by simpa using hu) v (by simpa using hv)).mp ?_
    simp [hr, hr', hname]

/-- The tables of a small host hold valid names when its VMs have some. -/
theorem validNames_sample {rows : List VMRow} {files : List (Path × File)}
    (h : ∀ r ∈ rows, validVMName r.name = true) : (World.sample rows files).store.ValidNames :=
  ⟨fun _ r hr => h r (List.mem_of_getElem? hr), fun _ hroute => by cases hroute⟩

/-- A VM named `a` gets a route named `www`.  Both names resolve to it, and
neither is a name in the other table. -/
theorem hostnames_resolve_uniquely_route :
    ∃ s, system.Reach AnyStep
        (start .sample (.ofList [.createRoute "www" 0 8080]) (.sample [.sample "a" 3] [])) s ∧
      routeForHost .ascii s.world.store "Example.com." "WWW.example.com:443" =
        some (⟨.sample "a" 3, 0⟩, 8080) ∧
      s.world.store.routes "a" = none := by
  obtain ⟨s, hs, hP⟩ := system.exists_reach
    (s := start .sample (.ofList [.createRoute "www" 0 8080]) (.sample [.sample "a" 3] []))
    (l := steps (.call 0 0) 3)
    (P := fun s => decide (routeForHost .ascii s.world.store "Example.com." "WWW.example.com:443" =
      some (⟨.sample "a" 3, 0⟩, 8080)) && decide (s.world.store.vms 0 = some (.sample "a" 3)))
    (by decide +kernel)
  simp only [Bool.and_eq_true, decide_eq_true_eq] at hP
  obtain ⟨hapart, -⟩ := hostnames_resolve_uniquely .ascii "Example.com."
    (directory_sample (by decide)) hs
  exact ⟨s, hs, hP.1, hapart 0 _ hP.2⟩

end Firedoze
