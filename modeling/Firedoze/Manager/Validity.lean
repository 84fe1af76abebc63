import Firedoze.Manager.Frame

/-!
# The sizes and settings of a VM

`CreateVM`, `RestoreSnapshot` and `UpdateVM` write the sizes and settings of
a VM, and the defaults of the configuration stand in for fields that are
zero.  Each of them checks some of the fields: the memory and the idle
threshold are checked when a VM is made, the port and the idle threshold when
it is changed.  Nothing checks the processors, the size of the disk and the
port of a new VM (`negative_vcpus_stored`).

`VMRow.Valid` says what a row should satisfy.  `rows_valid` says that every
row does when the requests leave the fields that nothing checks in their
ranges.
-/

namespace Firedoze

open Conc Conc.Prog Conc.Monitor Function

/-! ## Valid rows, and the ranges of a request -/

/-- The settings that `UpdateVM` accepts. -/
structure VMSettings.Valid (s : VMSettings) : Prop where
  port : 1 ≤ s.defaultHTTPPort ∧ s.defaultHTTPPort ≤ 65535
  idle : 0 ≤ s.idleSleepAfterSeconds

/-- What a row of `vms` should satisfy. -/
structure VMRow.Valid (r : VMRow) : Prop where
  vcpus : 1 ≤ r.vcpus
  disk : 1 ≤ r.diskBytes
  settings : r.settings.Valid
  memory : 0 < r.memoryMinMiB ∧ r.memoryMinMiB ≤ r.memoryMaxMiB
  hotplug : (128 : Int) ∣ r.memoryMaxMiB - r.memoryMinMiB

/-- The checks of `Config.Validate` on the fields that the manager reads. -/
def Config.validate (cfg : Config) : Except Err Unit :=
  if cfg.defaultHTTPPort ≤ 0 ∨ 65535 < cfg.defaultHTTPPort then
    .error (.msg "default_http_port must be between 1 and 65535")
  else if cfg.defaultVCPUs ≤ 0 then
    .error (.msg "firecracker.default_vcpus must be positive")
  else if cfg.defaultMemoryMinMiB ≤ 0 then
    .error (.msg "firecracker.default_memory_min_mib must be positive")
  else if cfg.defaultMemoryMaxMiB ≤ 0 then
    .error (.msg "firecracker.default_memory_max_mib must be positive")
  else if cfg.defaultMemoryMinMiB > cfg.defaultMemoryMaxMiB then
    .error (.msg ("firecracker.default_memory_min_mib must be less than or equal to " ++
      "firecracker.default_memory_max_mib"))
  else if cfg.defaultDiskBytes ≤ 0 then
    .error (.msg "firecracker.default_disk_bytes must be positive")
  else .ok ()

/-- The fields that nothing checks when a VM is made are zero, which stands
for the default, or in their ranges. -/
structure CreateVMParams.InRange (p : CreateVMParams) : Prop where
  vcpus : 0 ≤ p.vcpus
  disk : 0 ≤ p.diskBytes
  port : 0 ≤ p.defaultHTTPPort ∧ p.defaultHTTPPort ≤ 65535

instance (p : CreateVMParams) : Decidable p.InRange :=
  decidable_of_iff
    (0 ≤ p.vcpus ∧ 0 ≤ p.diskBytes ∧ 0 ≤ p.defaultHTTPPort ∧ p.defaultHTTPPort ≤ 65535)
    ⟨fun ⟨hv, hd, hp⟩ => ⟨hv, hd, hp⟩, fun ⟨hv, hd, hp⟩ => ⟨hv, hd, hp⟩⟩

/-- Parameters that `completeParams` accepts are in their ranges. -/
def CreateVMParams.InRangeIfAccepted (cfg : Config) (p : CreateVMParams) : Prop :=
  ∀ size q, completeParams cfg size p = .ok q → p.InRange

/-- A call that makes a VM asks for sizes in their ranges, or is refused. -/
def Op.inRange (cfg : Config) : Op → Prop
  | .createVM params => params.InRangeIfAccepted cfg
  | .restoreSnapshot _ params => params.InRangeIfAccepted cfg
  | _ => True

/-- Every call asks for sizes in their ranges, or is refused. -/
def Calls.InRange (cfg : Config) (calls : Calls) : Prop :=
  ∀ epoch n op, calls epoch n = some op → op.inRange cfg

/-- The disk at a path is not empty, if there is one. -/
def Host.nonEmptyDisk (h : Host) (p : Path) : Bool :=
  match h.files p with
  | none => true
  | some (.image d) => decide (1 ≤ d.size)
  | some _ => false

/-- The disk whose size an action asks for. -/
def Eff.statPath : {β : Type} → Eff β → Option Path
  | _, .host (.statSize p) => some p
  | _, _ => none

/-- A step that asks for the size of a disk finds one that is not empty. -/
def sizesNonEmpty (s : MState) (l : MLabel) : Bool :=
  s.next (fun _ e _ => e.statPath.all s.world.host.nonEmptyDisk) l

/-! ## Defaults and checks -/

section Params

variable {cfg : Config} {p q : CreateVMParams} {size : Int}

theorem memory_of_validate {lo hi : Int}
    (h : validateMemoryHotplugRange lo hi = .ok ()) :
    (0 < lo ∧ lo ≤ hi) ∧ (128 : Int) ∣ hi - lo := by
  unfold validateMemoryHotplugRange at h
  split_ifs at h with hpos hzero hmod
  · exact ⟨by omega, by rw [hzero]; exact Int.dvd_zero _⟩
  · rw [not_or, not_not] at hmod
    exact ⟨by omega, Int.dvd_of_tmod_eq_zero hmod.2⟩

/-- The checks of `StartVM` accept the memory of a valid row. -/
theorem VMRow.Valid.startable {r : VMRow} (h : r.Valid) (u : Uuid) :
    ∃ m, memoryConfigForHost cfg ⟨r, u⟩ = .ok m := by
  have hrange : validateMemoryHotplugRange r.memoryMinMiB r.memoryMaxMiB = .ok () := by
    obtain ⟨hpos, hle⟩ := h.memory
    obtain ⟨k, hk⟩ := h.hotplug
    unfold validateMemoryHotplugRange
    rw [if_neg (by omega)]
    split_ifs with hzero hbad
    · rfl
    · rcases hbad with hlt | hmod
      · omega
      · exact absurd (Int.tmod_eq_zero_of_dvd h.hotplug) hmod
    · rfl
  unfold memoryConfigForHost
  simp only [hrange]
  split_ifs <;> exact ⟨_, rfl⟩

/-- What `completeParams` accepts is stored as a valid row. -/
theorem valid_of_completeParams (hcfg : cfg.validate = .ok ()) (hp : p.InRangeIfAccepted cfg)
    (hsize : 1 ≤ size) (h : completeParams cfg size p = .ok q) (now : Nat) :
    (Store.newRow q now).Valid := by
  have hp := hp size q h
  have hdef : 1 ≤ cfg.defaultVCPUs ∧ 1 ≤ cfg.defaultHTTPPort ∧ cfg.defaultHTTPPort ≤ 65535 := by
    unfold Config.validate at hcfg
    split_ifs at hcfg
    omega
  unfold completeParams at h
  extract_lets q' at h
  split at h
  · cases h
  split at h
  · cases h
  rename_i hrange
  split at h
  · cases h
  rename_i hidle
  obtain rfl := Except.ok.inj h
  obtain ⟨hmem, hplug⟩ := memory_of_validate hrange
  refine ⟨?_, ?_, ⟨?_, not_lt.mp hidle⟩, hmem, hplug⟩
  · have := hp.vcpus
    simp only [Store.newRow, q']
    split_ifs <;> omega
  · have := hp.disk
    simp only [Store.newRow, q']
    split_ifs <;> omega
  · have := hp.port
    simp only [Store.newRow, VMRow.settings, q']
    split_ifs <;> omega

/-- Parameters that are stored as a valid row. -/
def CreateVMParams.Stored (p : CreateVMParams) : Prop := ∀ now, (Store.newRow p now).Valid

theorem UpdateVMParams.valid_merge {params : UpdateVMParams} {s : VMSettings} (hs : s.Valid)
    (hport : ¬ params.defaultHTTPPort.any (fun port => decide (port ≤ 0 ∨ 65535 < port)) = true)
    (hidle : ¬ params.idleSleepAfterSeconds.any (fun seconds => decide (seconds < 0)) = true) :
    (params.merge s).Valid := by
  obtain ⟨hs₁, hs₂⟩ := hs
  constructor
  · cases hp : params.defaultHTTPPort with
    | none => simpa [UpdateVMParams.merge, hp] using hs₁
    | some port =>
      simp only [hp, Option.any_some, decide_eq_true_eq] at hport
      simp only [UpdateVMParams.merge, hp, Option.getD_some]
      omega
  · cases hi : params.idleSleepAfterSeconds with
    | none => simpa [UpdateVMParams.merge, hi] using hs₂
    | some seconds =>
      simp only [hi, Option.any_some, decide_eq_true_eq] at hidle
      simp only [UpdateVMParams.merge, hi, Option.getD_some]
      omega

end Params

/-! ## What the calls write -/

/-- The rows and settings that an action writes are valid. -/
def WritesValid : {β : Type} → Eff β → Prop
  | _, .store (.insertVM _ params) => params.Stored
  | _, .store (.updateSettings _ _ settings) => settings.Valid
  | _, _ => True

/-- The rows that are read are valid, and the disks that are looked at are
not empty. -/
def ReadsValid : {β : Type} → Eff β → β → Prop
  | _, .store (.getVM _ _), r => ∀ vm, r = .ok vm → vm.toVMRow.Valid
  | _, .host (.statSize _), r => ∀ size, r = .ok size → 1 ≤ size
  | _, _, _ => True

section Programs

variable {cfg : Config} {calls : Calls} {p : CreateVMParams} {α β : Type}

theorem writesValid_of_kind (e : Eff β) (he : e.kind ≠ .insert ∧ e.kind ≠ .setting) :
    WritesValid e := by
  cases e with
  | store e =>
    cases e with
    | insertVM c params => exact absurd rfl he.1
    | updateSettings c u settings => exact absurd rfl he.2
    | _ => trivial
  | _ => trivial

theorem writesValid_of_uses {p : Prog Eff α} (hp : Uses (fun k => k ≠ .insert ∧ k ≠ .setting) p) :
    (Monitor.always WritesValid).Conforms ReadsValid p () fun _ _ => True :=
  always_of_all hp fun e he => writesValid_of_kind e he

/-- A part that writes none of the columns. -/
theorem writesValid_skip {x : Go α} {f : α → Go β}
    (hx : Uses (fun k => k ≠ .insert ∧ k ≠ .setting) x.run)
    (hf : ∀ a, (Monitor.always WritesValid).Conforms ReadsValid (f a).run () fun _ _ => True) :
    (Monitor.always WritesValid).Conforms ReadsValid (x >>= f).run () fun _ _ => True :=
  always_bind (R := fun _ => True)
    (conforms_mono (fun _ _ _ _ _ => trivial) (writesValid_of_uses hx)) (fun a _ => hf a)
    fun _ => trivial

theorem writesValid_choosePrivateIP (hp : p.Stored) :
    (Monitor.always WritesValid).Conforms ReadsValid (choosePrivateIP cfg p).run () fun r _ =>
      ∀ q, r = .ok q → q.Stored := by
  unfold choosePrivateIP
  split
  · intro q hq
    cases hq
    exact hp
  · refine conforms_call_bind (fun vms _ => ⟨trivial, ?_⟩)
      fun _ _ => ⟨trivial, fun _ h => by cases h⟩
    split
    · exact fun _ h => by cases h
    · intro q hq now
      cases hq
      obtain ⟨hv, hd, hs, hm, hh⟩ := hp now
      exact ⟨hv, hd, ⟨hs.port, hs.idle⟩, hm, hh⟩

theorem writesValid_storeCreateVM (hp : p.Stored) :
    (Monitor.always WritesValid).Conforms ReadsValid (storeCreateVM p).run () fun _ _ => True := by
  unfold storeCreateVM
  split
  · trivial
  · exact conforms_call_bind (fun _ _ => ⟨hp, writesValid_of_uses (by grind)⟩)
      fun _ _ => ⟨hp, trivial⟩

/-- The base image does not matter for the sizes. -/
theorem CreateVMParams.Stored.image (hp : p.Stored) (rootfsID kernelID metadata : String) :
    CreateVMParams.Stored { p with
      baseImageID := rootfsID, kernelID := kernelID, baseImageMetadata := metadata } := by
  intro now
  obtain ⟨hv, hd, hs, hm, hh⟩ := hp now
  exact ⟨hv, hd, ⟨hs.port, hs.idle⟩, hm, hh⟩

theorem writesValid_createVM (hcfg : cfg.validate = .ok ()) (hp : p.InRangeIfAccepted cfg) :
    (Monitor.always WritesValid).Conforms ReadsValid (createVM cfg p).run () fun _ _ => True := by
  have hdisk : 1 ≤ cfg.defaultDiskBytes := by
    unfold Config.validate at hcfg
    split_ifs at hcfg
    omega
  unfold createVM
  refine writesValid_skip (by grind) fun routeExists => ?_
  split
  · trivial
  split
  · trivial
  · rename_i q hq
    refine always_bind
      (writesValid_choosePrivateIP fun now => valid_of_completeParams hcfg hp hdisk hq now)
      (fun q hq => ?_) fun _ => trivial
    exact writesValid_skip (by grind) fun ids => writesValid_storeCreateVM (hq.image _ _ _)

theorem writesValid_restoreSnapshot {name : String} (hcfg : cfg.validate = .ok ())
    (hp : p.InRangeIfAccepted cfg) :
    (Monitor.always WritesValid).Conforms ReadsValid (restoreSnapshot cfg name p).run ()
      fun _ _ => True := by
  unfold restoreSnapshot
  split
  · trivial
  split
  · trivial
  refine writesValid_skip (by grind) fun vmExists => ?_
  split
  · trivial
  refine writesValid_skip (by grind) fun routeExists => ?_
  split
  · trivial
  refine writesValid_skip (by grind) fun snapshot => ?_
  refine conforms_call_bind (fun size hsize => ⟨trivial, ?_⟩) fun _ _ => ⟨trivial, trivial⟩
  split
  · trivial
  · rename_i q hq
    have hpos : (1 : Int) ≤ size := by exact_mod_cast hsize size rfl
    refine always_bind
      (writesValid_choosePrivateIP fun now => valid_of_completeParams hcfg hp hpos hq now)
      (fun q hq => ?_) fun _ => trivial
    exact writesValid_skip (by grind) fun _ => writesValid_storeCreateVM (hq.image _ _ _)

theorem writesValid_updateVM {u : Uuid} {params : UpdateVMParams} :
    (Monitor.always WritesValid).Conforms ReadsValid (updateVM u params).run ()
      fun _ _ => True := by
  unfold updateVM
  split
  · trivial
  split
  · trivial
  rename_i hport hidle
  refine conforms_call_bind (fun vm hvm => ⟨trivial, ?_⟩) fun _ _ => ⟨trivial, trivial⟩
  have hmerge := UpdateVMParams.valid_merge (hvm vm rfl).settings hport hidle
  exact conforms_call_bind (fun _ _ => ⟨hmerge, writesValid_of_uses (by grind)⟩)
    fun _ _ => ⟨hmerge, trivial⟩

theorem writesValid_threads (hcfg : cfg.validate = .ok ()) (hcalls : calls.InRange cfg) (t : Tid) :
    (Monitor.always WritesValid).Conforms ReadsValid (threads cfg calls t) ()
      fun _ _ => True := by
  refine conforms_threads (M := .always WritesValid) (Q := fun _ _ _ => True) (fun p => ?_)
    (fun _ _ => trivial) (fun epoch n op hop => ?_) t
  · exact conforms_finish (writesValid_of_uses (by grind))
  · have hrange := hcalls epoch n op hop
    cases op with
    | createVM params => exact conforms_finish (writesValid_createVM hcfg hrange)
    | restoreSnapshot name params => exact conforms_finish (writesValid_restoreSnapshot hcfg hrange)
    | updateVM u params => exact conforms_finish writesValid_updateVM
    | _ => exact writesValid_of_uses ((uses_op cfg _).mono (by simp [Op.kinds, startKinds]))

end Programs

/-! ## The invariant -/

/-- Every row is valid. -/
def Store.ValidRows (s : Store) : Prop := ∀ u r, s.vms u = some r → r.Valid

section Reach

variable {cfg : Config} {calls : Calls} {w w' : World} {s : MState} {t : Tid} {o : Outcome}
  {β : Type} {b : β}

theorem readsValid_exec {e : Eff β} (hw : w.store.ValidRows)
    (hsize : e.statPath.all w.host.nonEmptyDisk = true) (h : exec t w e o = some (b, w')) :
    ReadsValid e b := by
  cases e with
  | mem e => trivial
  | store e =>
    obtain ⟨_, hs, rfl⟩ := exec_store h
    cases e with
    | getVM c u =>
      rintro vm rfl
      have hrow : w.store.getVM u = .ok vm := (reply_eq hs).2.resolve_right (by simp) |>.symm
      unfold Store.getVM at hrow
      split at hrow
      · cases hrow
      · rename_i r hr
        cases hrow
        exact hw u r hr
    | _ => trivial
  | host e =>
    obtain ⟨_, hs, rfl⟩ := exec_host h
    cases e with
    | statSize p =>
      rintro size rfl
      have hp : w.host.nonEmptyDisk p = true := hsize
      have hfile := (reply_eq hs).2.resolve_right (by simp)
      unfold Host.nonEmptyDisk at hp
      split at hfile
      · cases hfile
      · rename_i d hd
        cases hfile
        simpa [hd] using hp
      · rename_i f hf hne
        rw [hne] at hp
        split at hp
        · rename_i hnone
          cases hnone
        · rename_i d hd
          exact absurd (Option.some.inj hd) (hf d)
        · cases hp
    | _ => trivial

/-- A call of the store that writes what is valid keeps the rows valid. -/
theorem validRows_exec {e : StoreEff β} {st : Store} (hw : w.store.ValidRows)
    (hP : WritesValid (.store e)) (h : execStore w t o e = some (b, st)) : st.ValidRows := by
  rcases execStore_cases h with rfl | hwrites
  · exact hw
  · cases hwrites with
    | insertVM =>
      intro v r hr
      rcases update_some hr with ⟨-, rfl⟩ | ⟨-, hold⟩
      · exact hP w.clock
      · exact hw v r hold
    | setVMState hu | setVMArchivedDiskPath hu =>
      intro v r hr
      rcases update_some hr with ⟨-, rfl⟩ | ⟨-, hold⟩
      · obtain ⟨hvcpus, hdisk, hsettings, hmemory, hhotplug⟩ := hw _ _ hu
        exact ⟨hvcpus, hdisk, hsettings, hmemory, hhotplug⟩
      · exact hw v r hold
    | updateSettings hu =>
      intro v r hr
      rcases update_some hr with ⟨-, rfl⟩ | ⟨-, hold⟩
      · obtain ⟨hvcpus, hdisk, -, hmemory, hhotplug⟩ := hw _ _ hu
        exact ⟨hvcpus, hdisk, hP, hmemory, hhotplug⟩
      · exact hw v r hold
    | deleteVM => exact fun v r hr => hw v r (update_none hr).2
    | _ => exact hw

/-- When the requests that are accepted leave the fields that nothing checks in
their ranges, every row satisfies what the checks of `UpdateVM` and `StartVM` ask
for. -/
theorem rows_valid (hcfg : cfg.validate = .ok ()) (hcalls : calls.InRange cfg)
    (hw : w.store.ValidRows)
    (h : system.Reach (fun s l => sizesNonEmpty s l = true) (start cfg calls w) s) {u : Uuid}
    {r : VMRow} (hr : s.world.store.vms u = some r) :
    r.Valid ∧ ∃ m, memoryConfigForHost cfg ⟨r, u⟩ = .ok m := by
  have hvalid : s.world.store.ValidRows := by
    refine (always_invariant (P := fun _ => WritesValid) (A := ReadsValid)
      (I := fun w => w.store.ValidRows) ?_ (writesValid_threads hcfg hcalls) hw ?_ ?_ h).1
    · intro s t o β e k b w' _ hI hk hp he
      exact readsValid_exec hI (State.next_act hk hp) he
    · intro s t o β e k b w' _ hI _ he hP
      cases e with
      | mem e => obtain ⟨_, -, rfl⟩ := exec_mem he; exact hI
      | host e => obtain ⟨_, -, rfl⟩ := exec_host he; exact hI
      | store e => obtain ⟨_, hexec, rfl⟩ := exec_store he; exact validRows_exec hI hP hexec
    · intro s v w' _ hI hv
      rw [execEnv_store hv]
      exact hI
  exact ⟨hvalid u r hr, (hvalid u r hr).startable u⟩

end Reach

/-! ## Two runs -/

/-- One call that makes a VM with the defaults. -/
def Calls.createDefault : Calls := .ofList [.createVM { name := "a" }]

/-- One call that makes a VM with a negative number of processors. -/
def Calls.createNegative : Calls := .ofList [.createVM { name := "a", vcpus := -1 }]

theorem validRows_sample_nil : (World.sample [] []).store.ValidRows := by
  intro u r hr
  simp [World.sample] at hr

theorem createDefault_inRange : Calls.createDefault.InRange .sample := by
  intro epoch n op hop
  have hmem := Calls.mem_of_ofList hop
  simp only [List.mem_singleton] at hmem
  subst hmem
  exact fun _ _ _ => ⟨by decide, by decide, by decide⟩

/-- A VM that is made with the defaults. -/
theorem rows_valid_default :
    ∃ s r, system.Reach (fun s l => sizesNonEmpty s l = true)
        (start .sample .createDefault (.sample [] [])) s ∧
      s.world.store.vms 0 = some r ∧ r.Valid := by
  obtain ⟨s, hs, hP⟩ := system.exists_reach_of_run (k := sizesNonEmpty)
    (s := start .sample .createDefault (.sample [] [])) (l := steps (.call 0 0) 4)
    (P := fun s => (s.world.store.vms 0).isSome) (by decide +kernel) (by decide)
  obtain ⟨r, hr⟩ := Option.isSome_iff_exists.mp hP
  exact ⟨s, r, hs, hr,
    (rows_valid (by decide) createDefault_inRange validRows_sample_nil hs hr).1⟩

/-- A configuration that is accepted, and a request with a negative number of
processors, which is stored. -/
theorem negative_vcpus_stored :
    Config.sample.validate = .ok () ∧
      ∃ s r, system.Reach AnyStep (start .sample .createNegative (.sample [] [])) s ∧
        s.world.store.vms 0 = some r ∧ r.vcpus = -1 := by
  refine ⟨by decide, ?_⟩
  obtain ⟨s, hs, hP⟩ := system.exists_reach
    (s := start .sample .createNegative (.sample [] [])) (l := steps (.call 0 0) 4)
    (P := fun s => (s.world.store.vms 0).any fun (r : VMRow) => decide (r.vcpus = -1))
    (by decide +kernel)
  simp only [Option.any_eq_true] at hP
  obtain ⟨r, hr, hv⟩ := hP
  exact ⟨s, r, hs, hr, of_decide_eq_true hv⟩

end Firedoze
