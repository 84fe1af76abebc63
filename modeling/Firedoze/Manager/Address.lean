import Firedoze.Manager.Frame
import Firedoze.Network.Allocation

/-!
# The addresses of VMs

`CreateVM` and `RestoreSnapshot` choose an address in two steps.  They list
the VMs and take the first pair of addresses that none of them has, and they
insert the row later.  The `private_ip` column is not unique, so nothing
stops two calls that list the same VMs from inserting the same address
(`concurrent_creates_share_address`).

`addresses_distinct` says that this is the only way: when no VM has been
inserted between the listing and the insert of a call, the addresses stay
distinct.
-/

namespace Firedoze

open Conc Conc.Prog Conc.Monitor Function

/-! ## Choosing an address -/

theorem completeParams_privateIP {cfg : Config} {size : Int} {p q : CreateVMParams}
    (h : completeParams cfg size p = .ok q) : q.privateIP = p.privateIP := by
  unfold completeParams at h
  grind

/-! ## The listing of a call -/

/-- The call inserts an address that it has chosen from its listing. -/
def ChosenFrom (cfg : Config) (l : Option (List VM)) (params : CreateVMParams) : Prop :=
  ∃ vms ip, l = some vms ∧ nextPrivateIP cfg.subnet vms = .ok ip ∧ params.privateIP = some ip

/-- When an action is in order: an address that is inserted was chosen from
the listing. -/
def listingOk (cfg : Config) (l : Option (List VM)) : {β : Type} → Eff β → β → Prop
  | _, .store (.insertVM _ params), _ => ChosenFrom cfg l params
  | _, _, _ => True

/-- What a call has listed last, after an action. -/
def listingNext (l : Option (List VM)) : {β : Type} → Eff β → β → Option (List VM)
  | _, .store (.listVMs _), r => r.toOption <|> l
  | _, _, _ => l

/-- The monitor of what a call has listed. -/
def listing (cfg : Config) : Monitor Eff (Option (List VM)) where
  start := none
  ok := fun l e b => listingOk cfg l e b
  next := fun l e b => listingNext l e b

/-- The call leaves the choice of the address to the manager. -/
def Op.leavesAddress : Op → Prop
  | .createVM params => params.privateIP = none
  | .restoreSnapshot _ params => params.privateIP = none
  | _ => True

/-- Every call leaves the choice of the address to the manager. -/
def Calls.LeaveAddress (calls : Calls) : Prop :=
  ∀ epoch n op, calls epoch n = some op → op.leavesAddress

section Programs

variable {cfg : Config} {l : Option (List VM)} {α β : Type}

theorem listing_of_uses {p : Prog Eff α} {Q : α → Option (List VM) → Prop}
    (hp : Uses (· ≠ .insert) p) (hQ : ∀ a l, Q a l) :
    (listing cfg).Conforms (fun _ _ => True) p l Q := by
  refine conforms_of_all (fun _ => True) hp trivial ?_ fun a l _ => hQ a l
  intro β l e b _ he _
  refine ⟨?_, trivial⟩
  cases e with
  | store e =>
    cases e with
    | insertVM c params => exact absurd rfl he
    | _ => trivial
  | _ => trivial

theorem listing_choosePrivateIP {p : CreateVMParams} (hp : p.privateIP = none) :
    (listing cfg).Conforms (fun _ _ => True) (choosePrivateIP cfg p).run l fun r l =>
      ∀ q, r = .ok q → ChosenFrom cfg l q := by
  unfold choosePrivateIP
  rw [hp]
  refine conforms_call_bind (fun vms _ => ⟨trivial, ?_⟩)
    fun _ _ => ⟨trivial, fun _ h => by cases h⟩
  split
  · exact fun _ h => by cases h
  · rename_i ip hip
    intro q hq
    cases hq
    exact ⟨vms, ip, rfl, hip, rfl⟩

theorem listing_storeCreateVM {p : CreateVMParams} (hl : ChosenFrom cfg l p) :
    (listing cfg).Conforms (fun _ _ => True) (storeCreateVM p).run l fun _ _ => True := by
  unfold storeCreateVM
  split
  · trivial
  · exact conforms_call_bind
      (fun _ _ => ⟨hl, listing_of_uses (by grind) fun _ _ => trivial⟩) fun _ _ => ⟨hl, trivial⟩

/-- A part that inserts nothing and lists nothing. -/
theorem listing_pass {x : Go α} {f : α → Go β} {Q : Except Err β → Option (List VM) → Prop}
    (hx : Uses (fun k => k ≠ .insert ∧ k ≠ .read) x.run)
    (hf : ∀ a, (listing cfg).Conforms (fun _ _ => True) (f a).run l Q)
    (herr : ∀ e, Q (.error e) l) :
    (listing cfg).Conforms (fun _ _ => True) (x >>= f).run l Q := by
  refine conforms_skip (· = l) hx rfl ?_ (fun a _ hl => hl ▸ hf a) fun e _ hl => hl ▸ herr e
  rintro β _ e b rfl he -
  cases e with
  | store e =>
    cases e with
    | insertVM c params => exact absurd rfl he.1
    | listVMs c => exact absurd rfl he.2
    | _ => exact ⟨trivial, rfl⟩
  | _ => exact ⟨trivial, rfl⟩

theorem listing_createVM {p : CreateVMParams} (hp : p.privateIP = none) :
    (listing cfg).Conforms (fun _ _ => True) (createVM cfg p).run l fun _ _ => True := by
  unfold createVM
  refine conforms_call_bind (fun routeExists _ => ⟨trivial, ?_⟩)
    fun _ _ => ⟨trivial, trivial⟩
  split
  · trivial
  split
  · trivial
  · rename_i q hq
    refine conforms_then (listing_choosePrivateIP ((completeParams_privateIP hq).trans hp))
      (fun q _ hr => ?_) fun _ _ _ => trivial
    exact listing_pass (by grind) (fun _ => listing_storeCreateVM (hr q rfl)) fun _ => trivial

theorem listing_restoreSnapshot {name : String} {p : CreateVMParams} (hp : p.privateIP = none) :
    (listing cfg).Conforms (fun _ _ => True) (restoreSnapshot cfg name p).run l
      fun _ _ => True := by
  unfold restoreSnapshot
  split
  · trivial
  split
  · trivial
  refine conforms_call_bind (fun vmExists _ => ⟨trivial, ?_⟩) fun _ _ => ⟨trivial, trivial⟩
  split
  · trivial
  refine conforms_call_bind (fun routeExists _ => ⟨trivial, ?_⟩)
    fun _ _ => ⟨trivial, trivial⟩
  split
  · trivial
  refine conforms_call_bind (fun snapshot _ => ⟨trivial, ?_⟩) fun _ _ => ⟨trivial, trivial⟩
  refine conforms_call_bind (fun size _ => ⟨trivial, ?_⟩) fun _ _ => ⟨trivial, trivial⟩
  split
  · trivial
  · rename_i q hq
    refine conforms_then (listing_choosePrivateIP ((completeParams_privateIP hq).trans hp))
      (fun q _ hr => ?_) fun _ _ _ => trivial
    exact listing_pass (by grind) (fun _ => listing_storeCreateVM (hr q rfl)) fun _ => trivial

theorem listing_threads {calls : Calls} (hcalls : calls.LeaveAddress) (t : Tid) :
    (listing cfg).Conforms (fun _ _ => True) (threads cfg calls t) none fun _ _ => True := by
  refine conforms_threads (M := listing cfg) (Q := fun _ _ _ => True) (fun p => ?_)
    (fun _ _ => trivial) (fun epoch n op hop => ?_) t
  · exact conforms_finish (listing_of_uses (by grind) fun _ _ => trivial)
  · have hleave := hcalls epoch n op hop
    cases op with
    | createVM params => exact conforms_finish (listing_createVM hleave)
    | restoreSnapshot name params => exact conforms_finish (listing_restoreSnapshot hleave)
    | _ =>
      exact listing_of_uses ((uses_op cfg _).mono (by simp [Op.kinds, startKinds]))
        fun _ _ => trivial

end Programs

/-! ## The invariant -/

/-- Every VM has the odd address of a pair, and no two VMs have the same. -/
structure Store.Addressed (s : Store) : Prop where
  bound : ∀ u r, s.vms u = some r → u < s.nextUuid
  odd : ∀ u r, s.vms u = some r → ∃ ip, r.privateIP = some ip ∧ ip % 2 = 1
  distinct : ∀ u v r r', u ≠ v → s.vms u = some r → s.vms v = some r' →
    r.privateIP ≠ r'.privateIP

/-- A VM that was listed and is still there has the address it had. -/
def Store.Listed (s : Store) (l : Option (List VM)) : Prop :=
  ∀ vms vm, l = some vms → vm ∈ vms → vm.uuid < s.nextUuid ∧
    ∀ r, s.vms vm.uuid = some r → r.privateIP = vm.privateIP

section Step

variable {s s' : Store} {l : Option (List VM)} {w : World} {t : Tid} {o : Outcome} {β : Type}
  {b : β}

theorem Store.Addressed.keep (h : s.Addressed) (hk : s.KeepsRows s') : s'.Addressed := by
  refine ⟨fun u r' hr' => ?_, fun u r' hr' => ?_, fun u v r₁ r₂ huv h₁ h₂ => ?_⟩
  · obtain ⟨r, hr, -⟩ := hk.rows u r' hr'
    exact hk.nextUuid ▸ h.bound u r hr
  · obtain ⟨r, hr, -, heq⟩ := hk.rows u r' hr'
    exact heq ▸ h.odd u r hr
  · obtain ⟨r, hr, -, heq⟩ := hk.rows u r₁ h₁
    obtain ⟨r', hr', -, heq'⟩ := hk.rows v r₂ h₂
    rw [heq, heq']
    exact h.distinct u v r r' huv hr hr'

theorem Store.Listed.keep (h : s.Listed l) (hk : s.KeepsRows s') : s'.Listed l := by
  intro vms vm hl hvm
  obtain ⟨hlt, hrow⟩ := h vms vm hl hvm
  refine ⟨hk.nextUuid ▸ hlt, fun r' hr' => ?_⟩
  obtain ⟨r, hr, -, heq⟩ := hk.rows _ r' hr'
  exact heq.trans (hrow r hr)

/-- A listing holds the rows of the store. -/
theorem Store.mem_listVMs_iff {vm : VM} :
    vm ∈ s.listVMs ↔ vm.uuid < s.nextUuid ∧ s.vms vm.uuid = some vm.toVMRow := by
  unfold Store.listVMs
  rw [(List.perm_insertionSort _ _).mem_iff, List.mem_filterMap]
  constructor
  · rintro ⟨u, hu, hvm⟩
    obtain ⟨r, hr, rfl⟩ := Option.map_eq_some_iff.mp hvm
    exact ⟨List.mem_range.mp hu, hr⟩
  · rintro ⟨hlt, hrow⟩
    exact ⟨vm.uuid, List.mem_range.mpr hlt, by rw [hrow]; rfl⟩

theorem Store.listed_listVMs (s : Store) : s.Listed (some s.listVMs) := by
  intro vms vm hl hvm
  cases hl
  obtain ⟨hlt, hrow⟩ := Store.mem_listVMs_iff.mp hvm
  refine ⟨hlt, fun r hr => ?_⟩
  rw [hrow] at hr
  cases hr
  rfl

/-- An insert, when every VM that is there was listed or has another address. -/
theorem Store.Addressed.insert {cfg : Config} {p : CreateVMParams} {now : Nat}
    (h : s.Addressed) (hl : s.Listed l) (hchosen : ChosenFrom cfg l p)
    (hall : ∀ v r, s.vms v = some r → r.privateIP ≠ p.privateIP ∨
      ∃ vms, l = some vms ∧ ∃ vm ∈ vms, vm.uuid = v) :
    ({ s with
      vms := update s.vms s.nextUuid (some (Store.newRow p now))
      nextUuid := s.nextUuid + 1 } : Store).Addressed := by
  obtain ⟨vms, ip, rfl, hip, hp⟩ := hchosen
  -- No VM that is there has the new address.
  have hfresh : ∀ v r, s.vms v = some r → r.privateIP ≠ some ip := by
    intro v r hr
    rcases hall v r hr with hne | ⟨vms', hvms, vm, hvm, rfl⟩
    · rwa [hp] at hne
    · cases hvms
      rw [(hl vms vm rfl hvm).2 r hr]
      exact nextPrivateIP_fresh hip hvm
  have hrow : ∀ v r, update s.vms s.nextUuid (some (Store.newRow p now)) v = some r →
      v = s.nextUuid ∧ r.privateIP = some ip ∨ v ≠ s.nextUuid ∧ s.vms v = some r := by
    intro v r hr
    rcases update_some hr with ⟨rfl, rfl⟩ | hold
    · exact Or.inl ⟨rfl, hp⟩
    · exact Or.inr hold
  refine ⟨fun v r hr => ?_, fun v r hr => ?_, fun v v' r r' hvv hr hr' => ?_⟩
  · rcases hrow v r hr with ⟨rfl, -⟩ | ⟨-, hold⟩
    · exact Nat.lt_succ_self _
    · exact Nat.lt_succ_of_lt (h.bound v r hold)
  · rcases hrow v r hr with ⟨-, hr⟩ | ⟨-, hold⟩
    · exact ⟨ip, hr, nextPrivateIP_odd hip⟩
    · exact h.odd v r hold
  · rcases hrow v r hr with ⟨rfl, hnew⟩ | ⟨-, hold⟩
    · rcases hrow v' r' hr' with ⟨rfl, -⟩ | ⟨-, hold'⟩
      · exact absurd rfl hvv
      · rw [hnew]
        exact (hfresh v' r' hold').symm
    · rcases hrow v' r' hr' with ⟨rfl, hnew⟩ | ⟨-, hold'⟩
      · rw [hnew]
        exact hfresh v r hold
      · exact h.distinct v v' r r' hvv hold hold'

/-- A new VM has none of the UUIDs that were listed. -/
theorem Store.Listed.insert (row : VMRow) (hl : s.Listed l) :
    ({ s with
      vms := update s.vms s.nextUuid (some row)
      nextUuid := s.nextUuid + 1 } : Store).Listed l := by
  intro vms vm hvms hvm
  obtain ⟨hlt, hrow⟩ := hl vms vm hvms hvm
  refine ⟨Nat.lt_succ_of_lt hlt, fun r hr => hrow r ?_⟩
  simpa [Nat.ne_of_lt hlt] using hr

end Step

/-! ## Every run -/

/-- At an insert, every VM of the store is in the listing or has another
address. -/
def insertListed (s : Store) (l : Option (List VM)) : {β : Type} → Eff β → Bool
  | _, .store (.insertVM _ params) => (List.range s.nextUuid).all fun u =>
      (s.vms u).all fun r => decide (r.privateIP ≠ params.privateIP) ||
        l.any fun vms => vms.any fun vm => decide (vm.uuid = u)
  | _, _ => true

/-- The condition on a step: when a call inserts its VM, no VM with its address
has been inserted since the call has listed the VMs. -/
def insertsAlone (cfg : Config) (s : MState) (l : MLabel) : Bool :=
  s.next (fun t e _ => insertListed s.world.store ((listing cfg).phases s t) e) l

section Reach

variable {cfg : Config} {calls : Calls} {w : World} {s : MState}

theorem addressed_reach (hcalls : calls.LeaveAddress) (hw : w.store.Addressed)
    (h : system.Reach (fun s l => insertsAlone cfg s l = true) (start cfg calls w) s) :
    s.world.store.Addressed ∧ ∀ t, s.world.store.Listed ((listing cfg).phases s t) := by
  refine Monitor.invariant (M := listing cfg) (A := fun _ _ => True)
    (I := fun w ph => w.store.Addressed ∧ ∀ t, w.store.Listed (ph t))
    (fun _ _ _ _ _ _ _ _ => trivial) (listing_threads hcalls)
    ⟨hw, fun _ _ _ hl => by cases hl⟩ ?_ ?_ h
  · rintro s t o β e k b w' - ⟨hA, hL⟩ hK hp he - hok
    have hkeep : w'.store.Addressed ∧ (∀ t, w'.store.Listed ((listing cfg).phases s t)) →
        (listing cfg).next ((listing cfg).phases s t) e b = (listing cfg).phases s t →
        w'.store.Addressed ∧ ∀ u, w'.store.Listed (update ((listing cfg).phases s) t
          ((listing cfg).next ((listing cfg).phases s t) e b) u) := by
      rintro hw' hsame
      rw [hsame, update_eq_self]
      exact hw'
    cases e with
    | mem e => obtain ⟨_, -, rfl⟩ := exec_mem he; exact hkeep ⟨hA, hL⟩ rfl
    | host e => obtain ⟨_, -, rfl⟩ := exec_host he; exact hkeep ⟨hA, hL⟩ rfl
    | store e =>
      obtain ⟨st, hs, rfl⟩ := exec_store he
      by_cases hk : e.kind = .insert
      · cases e with
        | insertVM c params =>
          refine hkeep ?_ rfl
          rcases commit_state hs with rfl | ⟨u, hx⟩
          · exact ⟨hA, hL⟩
          · obtain ⟨-, -, -, rfl⟩ := Store.insertVM_ok hx
            refine ⟨hA.insert (hL t) hok fun v r hr => ?_, fun u => (hL u).insert _⟩
            have hall := List.all_eq_true.mp (State.next_act hK hp) v
              (List.mem_range.mpr (hA.bound v r hr))
            simpa only [hr, Option.all_some, Bool.or_eq_true, Option.any_eq_true,
              List.any_eq_true, decide_eq_true_eq] using hall
        | setVMState c u state =>
          rcases StoreEff.kind_setVMState c u state with h | h | h <;> cases h.symm.trans hk
        | setVMArchivedDiskPath c u path => cases path <;> cases hk
        | _ => cases hk
      · have hkept := execStore_keepsRows hs hk
        have hw' : st.Addressed ∧ ∀ t, st.Listed ((listing cfg).phases s t) :=
          ⟨hA.keep hkept, fun t => (hL t).keep hkept⟩
        cases e with
        | listVMs c =>
          refine ⟨hw'.1, fun u => ?_⟩
          by_cases hu : u = t
          · subst hu
            rw [update_self]
            obtain ⟨rfl, rfl | rfl⟩ := reply_eq hs
            · exact Store.listed_listVMs _
            · exact hL u
          · rw [update_of_ne hu]
            exact hw'.2 u
        | _ => exact hkeep hw' rfl
  · rintro s v w' - ⟨hA, hL⟩ - hv
    have hstore : w'.store = s.world.store := execEnv_store hv
    rw [hstore]
    exact ⟨hA, hL⟩

/-- In every run in which no VM with the same address is inserted between the
listing and the insert of another call, any two VMs have different addresses,
and disjoint pairs. -/
theorem addresses_distinct {u v : Uuid} {r r' : VMRow} (hcalls : calls.LeaveAddress)
    (hw : w.store.Addressed)
    (h : system.Reach (fun s l => insertsAlone cfg s l = true) (start cfg calls w) s)
    (huv : u ≠ v) (hu : s.world.store.vms u = some r) (hv : s.world.store.vms v = some r') :
    ∃ ip ip', r.privateIP = some ip ∧ r'.privateIP = some ip' ∧ ip ≠ ip' ∧ ip / 2 ≠ ip' / 2 := by
  obtain ⟨hA, -⟩ := addressed_reach hcalls hw h
  obtain ⟨ip, hip, hodd⟩ := hA.odd u r hu
  obtain ⟨ip', hip', hodd'⟩ := hA.odd v r' hv
  have hne : ip ≠ ip' := by
    rintro rfl
    exact hA.distinct u v r r' huv hu hv (hip.trans hip'.symm)
  exact ⟨ip, ip', hip, hip', hne, by omega⟩

end Reach

/-! ## Every VM has an address -/

section Addressing

variable {cfg : Config} {calls : Calls} {w : World} {s : MState} {K : MState → MLabel → Prop}

/-- A row that is inserted has an address with `P`. -/
def InsertsWith (P : Option Nat → Prop) : {β : Type} → Eff β → Prop
  | _, .store (.insertVM _ params) => P params.privateIP
  | _, _ => True

/-- What holds of the addresses of the VMs, and of the address of a VM that is
inserted, holds afterwards. -/
theorem exec_addresses {P : Option Nat → Prop} {w' : World} {t : Tid} {o : Outcome} {β : Type}
    {e : Eff β} {b : β} (hw : ∀ u r, w.store.vms u = some r → P r.privateIP)
    (he : exec t w e o = some (b, w')) (hins : InsertsWith P e) :
    ∀ u r, w'.store.vms u = some r → P r.privateIP := by
  intro u r hr
  cases e with
  | mem e => obtain ⟨_, -, rfl⟩ := exec_mem he; exact hw u r hr
  | host e => obtain ⟨_, -, rfl⟩ := exec_host he; exact hw u r hr
  | store e =>
    obtain ⟨st, hs, rfl⟩ := exec_store he
    rcases execStore_cases hs with rfl | hwrites
    · exact hw u r hr
    · cases hwrites with
      | insertVM =>
        rcases update_some hr with ⟨-, rfl⟩ | ⟨-, hold⟩
        · exact hins
        · exact hw u r hold
      | setVMState hv | setVMArchivedDiskPath hv | updateSettings hv =>
        rcases update_some hr with ⟨-, rfl⟩ | ⟨-, hold⟩
        · exact (hw _ _ hv :)
        · exact hw u r hold
      | deleteVM => exact hw u r (update_none hr).2
      | _ => exact hw u r hr

/-- What holds of every address that a call can choose holds of the addresses
of all VMs. -/
theorem addresses_reach {P : Option Nat → Prop} (hcalls : calls.LeaveAddress)
    (hchosen : ∀ l params, ChosenFrom cfg l params → P params.privateIP)
    (hw : ∀ u r, w.store.vms u = some r → P r.privateIP)
    (h : system.Reach K (start cfg calls w) s) :
    ∀ u r, s.world.store.vms u = some r → P r.privateIP := by
  refine Monitor.invariant (M := listing cfg) (A := fun _ _ => True)
    (I := fun w _ => ∀ u r, w.store.vms u = some r → P r.privateIP)
    (fun _ _ _ _ _ _ _ _ => trivial) (listing_threads hcalls) hw ?_ ?_ h
  · rintro s t o β e k b w' - hI - - he - hok
    refine exec_addresses hI he ?_
    cases e with
    | store e =>
      cases e with
      | insertVM c params => exact hchosen _ _ hok
      | _ => trivial
    | _ => trivial
  · intro s v w' _ hI _ hv
    rw [execEnv_store hv]
    exact hI

end Addressing

/-! ## Two runs -/

/-- Two calls that make a VM each, on a host without VMs. -/
def Calls.twoCreates : Calls := .ofList [.createVM { name := "a" }, .createVM { name := "b" }]

theorem twoCreates_leaveAddress : Calls.twoCreates.LeaveAddress := by
  intro epoch n op hop
  simp only [Calls.twoCreates, Calls.ofList] at hop
  split at hop
  · have hmem := List.mem_of_getElem? hop
    simp only [List.mem_cons, List.not_mem_nil, or_false] at hmem
    rcases hmem with rfl | rfl <;> rfl
  · cases hop

theorem addressed_sample_nil : (World.sample [] []).store.Addressed := by
  constructor <;> simp [World.sample]

/-- Both VMs are there, and they have the addresses `ip` and `ip'`. -/
def haveAddresses (ip ip' : Nat) (s : MState) : Bool :=
  ((s.world.store.vms 0).any fun (r : VMRow) => decide (r.privateIP = some ip)) &&
    (s.world.store.vms 1).any fun (r : VMRow) => decide (r.privateIP = some ip')

/-- The two calls list the VMs before either of them inserts its own.  They
choose and insert the same address. -/
theorem concurrent_creates_share_address :
    ∃ s r r', system.Reach AnyStep (start .sample .twoCreates (.sample [] [])) s ∧
      s.world.store.vms 0 = some r ∧ s.world.store.vms 1 = some r' ∧
      r.privateIP = r'.privateIP := by
  obtain ⟨s, hs, hP⟩ := system.exists_reach
    (s := start .sample .twoCreates (.sample [] []))
    (l := steps (.call 0 0) 2 ++ steps (.call 0 1) 4 ++ steps (.call 0 0) 2)
    (P := haveAddresses (0xfd7a * 2 ^ 112 + 3) (0xfd7a * 2 ^ 112 + 3))
    (by decide)
  simp only [haveAddresses, Bool.and_eq_true, Option.any_eq_true, decide_eq_true_eq] at hP
  obtain ⟨⟨r, hr, hip⟩, r', hr', hip'⟩ := hP
  exact ⟨s, r, r', hs, hr, hr', hip.trans hip'.symm⟩

/-- The second call lists the VMs after the first one has inserted its own. -/
theorem addresses_distinct_creates :
    ∃ s r r' ip ip', system.Reach (fun s l => insertsAlone .sample s l = true)
        (start .sample .twoCreates (.sample [] [])) s ∧
      s.world.store.vms 0 = some r ∧ s.world.store.vms 1 = some r' ∧
      r.privateIP = some ip ∧ r'.privateIP = some ip' ∧ ip ≠ ip' ∧ ip / 2 ≠ ip' / 2 := by
  obtain ⟨s, hs, hP⟩ := system.exists_reach_of_run (k := insertsAlone .sample)
    (s := start .sample .twoCreates (.sample [] []))
    (l := steps (.call 0 0) 4 ++ steps (.call 0 1) 4)
    (P := haveAddresses (0xfd7a * 2 ^ 112 + 3) (0xfd7a * 2 ^ 112 + 5))
    (by decide) (by decide +kernel)
  simp only [haveAddresses, Bool.and_eq_true, Option.any_eq_true, decide_eq_true_eq] at hP
  obtain ⟨⟨r, hr, -⟩, r', hr', -⟩ := hP
  obtain ⟨ip, ip', hdistinct⟩ := addresses_distinct twoCreates_leaveAddress addressed_sample_nil hs
    (by decide) hr hr'
  exact ⟨s, r, r', ip, ip', hs, hr, hr', hdistinct⟩

end Firedoze
