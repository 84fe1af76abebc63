import Firedoze.Conc.Alone
import Firedoze.Manager.Address
import Firedoze.Network.Pair

/-!
# Room for the pairs

`CreateVM` takes the next address of the IPv6 subnet and does not look at the
IPv4 subnet.  `StartVM` computes the IPv4 pair of that address, and fails if
the pair is not in the IPv4 subnet.  So there can be more VMs than the daemon
can start.

* `hasPair_of_pairRoom` is the room that the pairs of all guests need.
* `plannable_reach` says that with that room the addresses of every VM of every
  run can be computed.
* `exists_reach_filled` fills a subnet VM by VM, and `createsStartable_iff` is
  the result.
-/

namespace Firedoze

open Conc Conc.Prog Function Net

/-! ## The addresses of one guest -/

/-- `prepareNetwork` can compute the addresses of a VM. -/
def Plannable (cfg : Config) (vm : VM) : Prop := ∃ plan, networkPlan cfg vm = .ok plan

/-- There is room for the pairs of all guests that `nextPrivateIP` can answer:
the last one of them has its pair in the IPv4 subnet. -/
def PairRoom (cfg : Config) : Prop :=
  searchable cfg.subnet ≤ 3 ∨
    (to4 (cfg.ipv4Subnet.ip + (searchable cfg.subnet - 1))).isSome = true ∧
      cfg.ipv4Subnet.contains (cfg.ipv4Subnet.ip + (searchable cfg.subnet - 1)) = true

instance (cfg : Config) : Decidable (PairRoom cfg) := inferInstanceAs (Decidable (_ ∨ _))

section Plan

variable {cfg : Config} {base d : Nat} {vm : VM}

/-- The addresses of a guest can be computed exactly when it has a pair. -/
theorem plannable_iff_hasPair (h6 : to4 cfg.subnet.network = none)
    (hbase : to4 cfg.ipv4Subnet.ip = some base) (hguest : GuestOffset d)
    (hsight : d < searchable cfg.subnet) (hvm : vm.privateIP = some (cfg.subnet.network + d)) :
    Plannable cfg vm ↔ HasPair cfg base d := by
  have hreach : d < cfg.subnet.reach := by
    unfold searchable at hsight
    omega
  have hto4 := ((CIDR.contains_iff h6).mp (CIDR.contains_of_lt_reach h6 hreach)).1
  have hge := hguest.2
  have hsize := CIDR.reach_le_size (c := cfg.subnet)
  have hend := CIDR.network_add_size_le (c := cfg.subnet)
  have hdec : decrementIP (cfg.subnet.network + d) = .ok (cfg.subnet.network + d - 1) := by
    unfold decrementIP addToIP
    rw [if_neg (by omega), if_neg (by omega)]
    exact congrArg Except.ok (by omega)
  unfold Plannable networkPlan
  simp only [hvm, hto4, Option.isSome_none, Bool.false_eq_true, if_false, hdec]
  constructor
  · rintro ⟨plan, hplan⟩
    cases hp : privateIPv4Pair cfg (cfg.subnet.network + d) with
    | error e =>
      rw [hp] at hplan
      cases hplan
    | ok p =>
      obtain ⟨-, d', heq, hpair⟩ := hasPair_of_privateIPv4Pair hbase hp
      obtain rfl : d = d' := by omega
      exact hpair
  · intro hpair
    rw [privateIPv4Pair_of_hasPair h6 hbase hpair]
    exact ⟨_, rfl⟩

/-- The pairs of all guests are there if the last one is. -/
theorem hasPair_of_pairRoom (h6 : to4 cfg.subnet.network = none)
    (hbase : to4 cfg.ipv4Subnet.ip = some base) (hroom : PairRoom cfg) (hguest : GuestOffset d)
    (hsight : d < searchable cfg.subnet) : HasPair cfg base d := by
  have hodd := hguest.1
  have hge := hguest.2
  obtain ⟨hlt, hip⟩ := to4_eq_some_iff.mp hbase
  obtain ⟨hlast, hin⟩ := hroom.resolve_left (by omega)
  obtain ⟨v, hv⟩ := Option.isSome_iff_exists.mp hlast
  obtain ⟨hv', heq⟩ := to4_eq_some_iff.mp hv
  rw [heq, CIDR.contains_ipv4_iff hv'] at hin
  obtain ⟨hnet, -, hend⟩ := hin
  have hle := CIDR.network_le (c := cfg.ipv4Subnet)
  rw [hip] at heq hle
  unfold ipv4 at heq hle hend
  have hbound : searchable cfg.subnet ≤ 2 ^ 63 := Nat.min_le_right _ _
  refine ⟨hodd, by omega, by omega, CIDR.contains_of_lt_reach h6 ?_, ?_, ?_⟩
  · unfold searchable at hsight
    omega
  · rw [CIDR.contains_ipv4_iff (by omega)]
    refine ⟨hnet, ?_, ?_⟩ <;> unfold ipv4 <;> omega
  · rw [CIDR.contains_ipv4_iff (by omega)]
    refine ⟨hnet, ?_, ?_⟩ <;> unfold ipv4 <;> omega

/-- The last guest has a pair only if there is room for all of them. -/
theorem pairRoom_of_hasPair (hbase : to4 cfg.ipv4Subnet.ip = some base)
    (h : HasPair cfg base (searchable cfg.subnet - 1)) : PairRoom cfg := by
  obtain ⟨-, -, hsum, -, -, hin⟩ := h
  have hlast : cfg.ipv4Subnet.ip + (searchable cfg.subnet - 1) =
      ipv4 (base + (searchable cfg.subnet - 1)) := by
    rw [(to4_eq_some_iff.mp hbase).2]
    unfold ipv4
    omega
  refine Or.inr ?_
  rw [hlast, to4_eq_some_iff.mpr ⟨hsum, rfl⟩]
  exact ⟨rfl, hin⟩

end Plan

/-! ## Every run -/

/-- The calls are calls of `CreateVM` that leave the choice of the address to
the manager, and calls of `DeleteVM`. -/
def Calls.MakeAndDelete (calls : Calls) : Prop :=
  ∀ epoch n op, calls epoch n = some op →
    (∃ params, op = .createVM params ∧ params.privateIP = none) ∨ ∃ u, op = .deleteVM u

theorem Calls.MakeAndDelete.leaveAddress {calls : Calls} (h : calls.MakeAndDelete) :
    calls.LeaveAddress := by
  intro epoch n op hop
  rcases h epoch n op hop with ⟨params, rfl, hparams⟩ | ⟨u, rfl⟩
  · exact hparams
  · trivial

section Reach

variable {cfg : Config} {calls : Calls} {w : World} {s : MState} {K : MState → MLabel → Prop}

/-- Every VM has an address that `nextPrivateIP` has answered for some VMs. -/
theorem chosen_reach (hcalls : calls.LeaveAddress) (hw : ∀ u, w.store.vms u = none)
    (h : system.Reach K (start cfg calls w) s) {u : Uuid} {r : VMRow}
    (hr : s.world.store.vms u = some r) :
    ∃ vms ip, nextPrivateIP cfg.subnet vms = .ok ip ∧ r.privateIP = some ip := by
  refine addresses_reach
    (P := fun a => ∃ vms ip, nextPrivateIP cfg.subnet vms = .ok ip ∧ a = some ip)
    hcalls ?_ ?_ h u r hr
  · rintro l params ⟨vms, ip, -, hip, hparams⟩
    exact ⟨vms, ip, hip, hparams⟩
  · intro u r hr
    rw [hw u] at hr
    cases hr

/-- With room for the pairs of all guests, the addresses of every VM can be
computed. -/
theorem plannable_reach {base : Nat} (h6 : to4 cfg.subnet.network = none)
    (hbase : to4 cfg.ipv4Subnet.ip = some base) (hroom : PairRoom cfg)
    (hcalls : calls.LeaveAddress) (hw : ∀ u, w.store.vms u = none)
    (h : system.Reach K (start cfg calls w) s) {u : Uuid} {r : VMRow}
    (hr : s.world.store.vms u = some r) : Plannable cfg ⟨r, u⟩ := by
  obtain ⟨vms, ip, hip, hrow⟩ := chosen_reach hcalls hw h hr
  obtain ⟨-, d, hguest, hsight, rfl, -⟩ := nextPrivateIP_eq_ok_iff.mp hip
  exact (plannable_iff_hasPair h6 hbase hguest hsight hrow).mpr
    (hasPair_of_pairRoom h6 hbase hroom hguest hsight)

end Reach

/-! ## A run that fills a subnet -/

/-- The name of the `n`-th VM of the run. -/
def guestName (n : Nat) : String := String.ofList (List.replicate (n + 1) 'v')

/-- The `n`-th VM of the run as it is asked for. -/
def guestParams (n : Nat) : CreateVMParams where
  name := guestName n
  vcpus := 1
  memoryMinMiB := 128
  memoryMaxMiB := 128
  diskBytes := 1
  defaultHTTPPort := 80

/-- A call of `CreateVM` for every `n`. -/
def Calls.fill : Calls := fun epoch n =>
  if epoch = 0 then some (.createVM (guestParams n)) else none

/-- A host with the base images. -/
def Host.images (cfg : Config) : Host :=
  { Host.sample [] with
    files := fun p =>
      if p = cfg.baseRootfsPath then some (.image .base)
      else if p = cfg.baseKernelPath then some (.blob "vmlinux") else none }

/-- The `n`-th VM of the run as it is inserted. -/
def guestInsert (cfg : Config) (n : Nat) : CreateVMParams :=
  { guestParams n with
    autoWake := true
    privateIP := some (cfg.subnet.network + (3 + 2 * n))
    baseImageID := "rootfs"
    kernelID := "vmlinux" }

/-- The world after the first `k` calls. -/
def World.filled (cfg : Config) (k : Nat) : World where
  store :=
    { vms := fun u => if u < k then some (Store.newRow (guestInsert cfg u) 0) else none
      nextUuid := k
      routes := fun _ => none
      snapshots := fun _ => none }
  mem := .fresh
  host := .images cfg
  cancelled := fun _ => false
  epoch := 0
  clock := 0

section Fill

variable {cfg : Config} {k n : Nat}

theorem guestName_inj {m : Nat} : guestName m = guestName n ↔ m = n := by
  constructor
  · intro h
    have hlen := congrArg (fun s : String => s.toList.length) h
    simpa [guestName] using hlen
  · rintro rfl
    rfl

/-- The name has no hexadecimal digit, so it is not a UUID in any form. -/
theorem uuidParses_guestName : uuidParses (guestName n) = false := by
  unfold uuidParses
  simp only [guestName, String.toList_ofList, List.length_replicate]
  split_ifs with h36 h45 h38 h32
  · obtain rfl : n = 35 := by omega
    decide
  · obtain rfl : n = 44 := by omega
    decide
  · obtain rfl : n = 37 := by omega
    decide
  · obtain rfl : n = 31 := by omega
    decide
  · rfl

theorem makeAndDelete_fill : Calls.fill.MakeAndDelete := by
  intro epoch n op hop
  unfold Calls.fill at hop
  split at hop
  · cases hop
    exact Or.inl ⟨_, rfl, rfl⟩
  · cases hop

theorem mem_usedIPs_filled {ip : Nat} : ip ∈ usedIPs (World.filled cfg k).store.listVMs ↔
    ∃ i < k, ip = cfg.subnet.network + (3 + 2 * i) := by
  unfold usedIPs
  rw [List.mem_filterMap]
  constructor
  · rintro ⟨vm, hvm, hip⟩
    obtain ⟨hlt, hrow⟩ := Store.mem_listVMs_iff.mp hvm
    have hlt' : vm.uuid < k := hlt
    simp only [World.filled, hlt', if_true, Option.some.injEq] at hrow
    rw [← hrow] at hip
    exact ⟨vm.uuid, hlt', (Option.some.inj hip).symm⟩
  · rintro ⟨i, hi, rfl⟩
    refine ⟨⟨Store.newRow (guestInsert cfg i) 0, i⟩, Store.mem_listVMs_iff.mpr ⟨hi, ?_⟩, rfl⟩
    simp only [World.filled, hi, if_true]

/-- The next address after `k` calls. -/
theorem nextPrivateIP_filled (h6 : to4 cfg.subnet.network = none)
    (hk : 3 + 2 * k < searchable cfg.subnet) :
    nextPrivateIP cfg.subnet (World.filled cfg k).store.listVMs =
      .ok (cfg.subnet.network + (3 + 2 * k)) := by
  refine nextPrivateIP_eq_ok_iff.mpr
    ⟨h6, 3 + 2 * k, ⟨by omega, by omega⟩, hk, rfl, fun hmem => ?_, fun e he hlt => ?_⟩
  · obtain ⟨i, hi, heq⟩ := mem_usedIPs_filled.mp hmem
    omega
  · have hodd := he.1
    have hge := he.2
    exact mem_usedIPs_filled.mpr ⟨(e - 3) / 2, by omega, by omega⟩

/-- The insert of the next VM. -/
theorem insertVM_filled : (World.filled cfg k).store.insertVM (guestInsert cfg k) 0 =
    .ok (k, (World.filled cfg (k + 1)).store) := by
  have hnew : (World.filled cfg k).store.vmExists (guestInsert cfg k).name = false := by
    unfold Store.vmExists
    rw [List.any_eq_false]
    intro u hu
    have hlt : u < k := List.mem_range.mp hu
    have hname : guestName u ≠ guestName k := fun h => by
      have := guestName_inj.mp h
      omega
    simpa [World.filled, hlt, Store.newRow, guestInsert, guestParams] using hname
  have hrows : update (World.filled cfg k).store.vms k
      (some (Store.newRow (guestInsert cfg k) 0)) = (World.filled cfg (k + 1)).store.vms := by
    funext u
    rcases Nat.lt_trichotomy u k with hu | rfl | hu
    · rw [update_of_ne (Nat.ne_of_lt hu)]
      simp only [World.filled, hu, Nat.lt_succ_of_lt hu, if_true]
    · simp [World.filled]
    · rw [update_of_ne (Nat.ne_of_gt hu)]
      simp only [World.filled, Nat.not_lt_of_gt hu, Nat.not_lt.mpr hu, if_false]
  unfold Store.insertVM
  rw [if_neg (by simp [Store.routeExists, World.filled]), hnew, if_neg (by decide)]
  exact congrArg (fun vms => Except.ok (k, { (World.filled cfg (k + 1)).store with vms := vms }))
    hrows

theorem completeParams_guestParams :
    completeParams cfg cfg.defaultDiskBytes (guestParams k) =
      .ok { guestParams k with autoWake := true } := rfl

/-! The actions of the `k`-th call. -/

theorem exec_metadata_filled (himages : cfg.baseRootfsPath ≠ cfg.baseKernelPath) :
    system.exec (.call 0 k) (World.filled cfg k)
        (.host (.baseImageMetadata cfg.baseRootfsPath cfg.baseKernelPath)) .ok =
      some (.ok ("rootfs", "vmlinux"), World.filled cfg k) := by
  simp [system, exec, World.current, World.filled, execHost, Host.images, himages.symm, attemptOn,
    Disk.base]

theorem exec_insert_filled :
    system.exec (.call 0 k) (World.filled cfg k)
        (.store (.insertVM .request (guestInsert cfg k))) .ok =
      some (.ok k, World.filled cfg (k + 1)) := by
  have hcommit : execStore (World.filled cfg k) (.call 0 k) .ok
      (.insertVM .request (guestInsert cfg k)) =
      some (.ok k, (World.filled cfg (k + 1)).store) := by
    simp only [execStore, commit]
    rw [show (World.filled cfg k).clock = 0 from rfl, insertVM_filled]
    rfl
  exact exec_store_of rfl hcommit

theorem exec_get_filled :
    system.exec (.call 0 k) (World.filled cfg (k + 1)) (.store (.getVM .request k)) .ok =
      some (.ok ⟨Store.newRow (guestInsert cfg k) 0, k⟩, World.filled cfg (k + 1)) := by
  have hrow : (World.filled cfg (k + 1)).store.getVM k =
      .ok ⟨Store.newRow (guestInsert cfg k) 0, k⟩ := by
    simp [Store.getVM, World.filled]
  have hreply : execStore (World.filled cfg (k + 1)) (.call 0 k) .ok (.getVM .request k) =
      some (.ok ⟨Store.newRow (guestInsert cfg k) 0, k⟩, (World.filled cfg (k + 1)).store) := by
    simp only [execStore, reply, hrow]
    rfl
  exact exec_store_of rfl hreply

theorem alone_storeCreateVM :
    Alone system (.call 0 k) (World.filled cfg k) (storeCreateVM (guestInsert cfg k)).run
      (.ok ⟨Store.newRow (guestInsert cfg k) 0, k⟩) (World.filled cfg (k + 1)) := by
  have hname : uuidParses (guestInsert cfg k).name = false := uuidParses_guestName
  unfold storeCreateVM
  rw [hname, if_neg (by decide)]
  exact Alone.call_bind exec_insert_filled (Alone.act exec_get_filled (.ret _))

/-- The `k`-th call inserts the `k`-th VM. -/
theorem alone_createVM (himages : cfg.baseRootfsPath ≠ cfg.baseKernelPath)
    (h6 : to4 cfg.subnet.network = none) (hk : 3 + 2 * k < searchable cfg.subnet) :
    ∃ r, Alone system (.call 0 k) (World.filled cfg k) ((Op.createVM (guestParams k)).prog cfg) r
      (World.filled cfg (k + 1)) := by
  have hchoose : Alone system (.call 0 k) (World.filled cfg k)
      (choosePrivateIP cfg { guestParams k with autoWake := true }).run
      (.ok { guestParams k with
        autoWake := true, privateIP := some (cfg.subnet.network + (3 + 2 * k)) })
      (World.filled cfg k) := by
    refine Alone.call_bind (o := Outcome.ok) (v := World.filled cfg k)
      (a := (World.filled cfg k).store.listVMs) rfl ?_
    rw [nextPrivateIP_filled h6 hk]
    exact .ret _
  refine ⟨.ok (), Alone.bind (a := .ok ⟨Store.newRow (guestInsert cfg k) 0, k⟩) ?_ (.ret _)⟩
  unfold createVM
  refine Alone.call_bind (o := Outcome.ok) (v := World.filled cfg k) (a := false) rfl ?_
  simp only [Bool.false_eq_true, if_false, completeParams_guestParams]
  exact Alone.run_bind hchoose
    (Alone.call_bind (exec_metadata_filled himages) alone_storeCreateVM)

/-- The run that makes the first `k` VMs. -/
theorem exists_reach_filled (himages : cfg.baseRootfsPath ≠ cfg.baseKernelPath)
    (h6 : to4 cfg.subnet.network = none) (hk : 1 + 2 * k < searchable cfg.subnet) :
    ∃ s, system.Reach AnyStep (start cfg .fill (.filled cfg 0)) s ∧ s.world = .filled cfg k ∧
      ∀ n ≥ k, s.prog (.call 0 n) = (Op.createVM (guestParams n)).prog cfg := by
  induction k with
  | zero => exact ⟨_, .refl, rfl, fun _ _ => rfl⟩
  | succ k ih =>
    obtain ⟨s, hs, hw, hprog⟩ := ih (by omega)
    obtain ⟨r, hr⟩ := alone_createVM himages h6 (k := k) (by omega)
    obtain ⟨s', hs', hw', hprog'⟩ := hr.reach hw (hprog k le_rfl)
    refine ⟨s', hs.trans hs', hw', fun n hn => ?_⟩
    rw [hprog' _ (fun h => by injection h with _ h; omega)]
    exact hprog n (by omega)

end Fill

/-! ## The result -/

/-- In every run of calls of `CreateVM` and `DeleteVM` on a host without VMs,
the addresses of every VM can be computed. -/
def CreatesStartable (cfg : Config) : Prop :=
  ∀ (calls : Calls) (w : World) (s : MState), calls.MakeAndDelete →
    (∀ u, w.store.vms u = none) → system.Reach AnyStep (start cfg calls w) s →
    ∀ u r, s.world.store.vms u = some r → Plannable cfg ⟨r, u⟩

/-- The VMs that are made can be started if there is room for the pairs of all
guests, and only then. -/
theorem createsStartable_iff {cfg : Config} (hcfg : cfg.validateVMNetwork = .ok ()) :
    (PairRoom cfg → CreatesStartable cfg) ∧
      (cfg.baseRootfsPath ≠ cfg.baseKernelPath → CreatesStartable cfg → PairRoom cfg) := by
  obtain ⟨hsubnet, base, hbase⟩ := validateVMNetwork_eq_ok.mp hcfg
  have h6 := CIDR.to4_network hsubnet
  refine ⟨fun hroom calls w s hcalls hw h u r hr => ?_, fun himages hstart => ?_⟩
  · exact plannable_reach h6 hbase hroom hcalls.leaveAddress hw h hr
  · by_cases hsmall : searchable cfg.subnet ≤ 3
    · exact Or.inl hsmall
    have heven := even_searchable h6
    -- The subnet is full when the guest at the last odd offset is made.
    obtain ⟨k, hk⟩ : ∃ k, searchable cfg.subnet = 4 + 2 * k :=
      ⟨(searchable cfg.subnet - 4) / 2, by omega⟩
    obtain ⟨s, hs, hw, -⟩ := exists_reach_filled (k := k + 1) himages h6 (by omega)
    have hrow : s.world.store.vms k = some (Store.newRow (guestInsert cfg k) 0) := by
      simp [hw, World.filled]
    have hplan := hstart _ _ s makeAndDelete_fill (fun _ => rfl) hs k _ hrow
    refine pairRoom_of_hasPair hbase ?_
    rw [show searchable cfg.subnet - 1 = 3 + 2 * k by omega]
    exact (plannable_iff_hasPair h6 hbase ⟨by omega, by omega⟩ (by omega) rfl).mp hplan

/-- Both subnets have sixteen addresses. -/
theorem createsStartable_iff_small :
    CreatesStartable
      { Config.sample with
        subnet := { ip := 0xfd7a * 2 ^ 112, bits := 124 }
        ipv4Subnet := { ip := ipv4 0xac100000, bits := 124 } } :=
  (createsStartable_iff (by decide)).1 (by decide)

/-- A configuration with `172.16.0.0/30` for the pairs. -/
def Config.fourIPv4 : Config :=
  { Config.sample with
    ipv4Subnet :=
      { ip := ipv4 0xac100000, bits := 126, ip_lt := Config.sample.ipv4Subnet.ip_lt } }

/-- With four addresses for the pairs, the second VM that is made cannot be
started. -/
theorem second_create_unstartable :
    Config.fourIPv4.validateVMNetwork = .ok () ∧
      ∃ s r, system.Reach AnyStep (start .fourIPv4 .twoCreates (.sample [] [])) s ∧
        s.world.store.vms 1 = some r ∧
        networkPlan .fourIPv4 ⟨r, 1⟩ = .error (.msg "vm IPv4 subnet exhausted") := by
  refine ⟨by decide, ?_⟩
  obtain ⟨s, hs, hP⟩ := system.exists_reach
    (s := start .fourIPv4 .twoCreates (.sample [] []))
    (l := steps (.call 0 0) 4 ++ steps (.call 0 1) 4)
    (P := haveAddresses (0xfd7a * 2 ^ 112 + 3) (0xfd7a * 2 ^ 112 + 5))
    (by decide)
  simp only [haveAddresses, Bool.and_eq_true, Option.any_eq_true, decide_eq_true_eq] at hP
  obtain ⟨-, r, hr, hip⟩ := hP
  refine ⟨s, r, hs, hr, ?_⟩
  have hpair : privateIPv4Pair .fourIPv4 (0xfd7a * 2 ^ 112 + 5) =
      .error (.msg "vm IPv4 subnet exhausted") := by decide
  have hto4 : to4 (0xfd7a * 2 ^ 112 + 5) = none := by decide
  have hdec : decrementIP (0xfd7a * 2 ^ 112 + 5) = .ok (0xfd7a * 2 ^ 112 + 4) := by decide
  simp only [networkPlan, hip, hto4, hdec, hpair, Option.isSome_none, Bool.false_eq_true, if_false]

end Firedoze
