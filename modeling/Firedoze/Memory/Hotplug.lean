import Firedoze.Model.World

/-!
# Memory hotplug

A VM boots with its smaller amount of memory and has a hotplug region for the
rest, if the host has enough physical address bits for that region
(`memoryConfigForHost`).  The guest then reports how much memory it wants
(`handleMemoryHint`), and `setVMMemoryTarget` asks Firecracker for the next
multiple of 128 MiB.  All of this is arithmetic on 64-bit integers.

* `requestedMiB_eq` is the amount that is asked for, without its 64 bits:
  neither the sum nor the product wraps around, because the range is a multiple
  of 128.  `requestsWell` is the result.
* The test of `memoryConfigForHost` does wrap around.  `fitsHost_iff` says for
  which ranges and hosts it is right.
-/

namespace Firedoze

/-! ## The request -/

/-- A value of the type `int`. -/
def IsInt (n : Int) : Prop := -2 ^ 63 ≤ n ∧ n < 2 ^ 63

/-- The two clamps of `setVMMemoryTarget`. -/
def clampTarget (minMiB maxMiB targetMiB : Int) : Int :=
  let targetMiB := if targetMiB < minMiB then minMiB else targetMiB
  if targetMiB > maxMiB then maxMiB else targetMiB

/-- The amount of memory that is wanted on top of the smaller one. -/
def wantedMiB (minMiB maxMiB targetMiB : Int) : Int :=
  let requestedMiB := int64 (clampTarget minMiB maxMiB targetMiB - minMiB)
  if requestedMiB < 0 then 0 else requestedMiB

/-- The amount that `setVMMemoryTarget` asks for. -/
def requestedMiB (minMiB maxMiB targetMiB : Int) : Int :=
  let requestedMiB := wantedMiB minMiB maxMiB targetMiB
  let requestedMiB :=
    if requestedMiB > 0 then int64 ((int64 (requestedMiB + 127)).tdiv 128 * 128) else requestedMiB
  let maxRequested := int64 (maxMiB - minMiB)
  if requestedMiB > maxRequested then maxRequested else requestedMiB

section Requested

variable {minMiB maxMiB : Int} (targetMiB : Int)

theorem validateMemoryHotplugRange_eq_ok :
    validateMemoryHotplugRange minMiB maxMiB = .ok () ↔
      0 < minMiB ∧ minMiB ≤ maxMiB ∧ (maxMiB - minMiB) % 128 = 0 := by
  unfold validateMemoryHotplugRange
  split_ifs with hpos hzero hrange
  · simp only [false_iff]
    omega
  · simp only [true_iff]
    omega
  · simp only [false_iff]
    rw [Int.tmod_eq_emod] at hrange
    split_ifs at hrange <;> omega
  · simp only [true_iff]
    rw [not_or, Int.tmod_eq_emod] at hrange
    split_ifs at hrange <;> omega

theorem clampTarget_eq (h : minMiB ≤ maxMiB) :
    clampTarget minMiB maxMiB targetMiB = max minMiB (min targetMiB maxMiB) := by
  unfold clampTarget
  dsimp only
  split_ifs <;> omega

theorem wantedMiB_eq (hmin : 0 < minMiB) (h : minMiB ≤ maxMiB) (hmax : maxMiB < 2 ^ 63) :
    wantedMiB minMiB maxMiB targetMiB = clampTarget minMiB maxMiB targetMiB - minMiB := by
  have hclamp := clampTarget_eq targetMiB h
  unfold wantedMiB
  rw [int64_of_lt (by omega) (by omega)]
  exact if_neg (by omega)

/-- The next multiple of 128. -/
def nextBlock (n : Int) : Int := (n + 127) / 128 * 128

/-- The amount that is asked for, without its 64 bits. -/
theorem requestedMiB_eq (hrange : validateMemoryHotplugRange minMiB maxMiB = .ok ())
    (hmax : maxMiB < 2 ^ 63) :
    requestedMiB minMiB maxMiB targetMiB =
      nextBlock (clampTarget minMiB maxMiB targetMiB - minMiB) := by
  obtain ⟨hmin, hle, hmod⟩ := validateMemoryHotplugRange_eq_ok.mp hrange
  have hclamp := clampTarget_eq targetMiB hle
  have hwanted := wantedMiB_eq targetMiB hmin hle hmax
  have hdelta : int64 (maxMiB - minMiB) = maxMiB - minMiB := int64_of_lt (by omega) (by omega)
  unfold requestedMiB nextBlock
  simp only [hwanted, hdelta]
  by_cases hpos : clampTarget minMiB maxMiB targetMiB - minMiB > 0
  · -- The range is a multiple of 128, so it leaves room for the sum.
    have hsum : int64 (clampTarget minMiB maxMiB targetMiB - minMiB + 127) =
        clampTarget minMiB maxMiB targetMiB - minMiB + 127 := int64_of_lt (by omega) (by omega)
    rw [if_pos hpos, hsum, Int.tdiv_eq_ediv_of_nonneg (by omega), int64_of_lt (by omega) (by omega)]
    exact if_neg (by omega)
  · rw [if_neg hpos, if_neg (by omega)]
    omega

end Requested

/-! ## What a guest can ask for -/

/-- `model.MemoryHotplugUsage`. -/
structure MemoryHotplugUsage where
  totalMiB : Int := 0
  requestedMiB : Int := 0
  pluggedMiB : Int := 0
  effectiveMiB : Int := 0
  deriving DecidableEq, Repr

/-- `memoryHotplugStatus`. -/
structure MemoryHotplugStatus where
  totalSizeMiB : Int
  requestedSizeMiB : Int
  pluggedSizeMiB : Int
  deriving DecidableEq, Repr

/-- `model.GuestMemoryReport`. -/
structure GuestMemoryReport where
  reportedAt : Nat
  totalMiB : Int
  availableMiB : Int
  freeMiB : Int
  buffersMiB : Int
  cachedMiB : Int
  swapTotalMiB : Int
  swapFreeMiB : Int
  rootDiskTotalBytes : Nat
  rootDiskFreeBytes : Nat
  load1 : Float
  load5 : Float
  load15 : Float
  lastTargetMiB : Int

/-- The answers of Firecracker on a socket. -/
structure FirecrackerAPI where
  patchMemoryHotplug : Path → Int → Except Err Unit
  getMemoryHotplug : Path → Except Err MemoryHotplugStatus

/-- The VMs, the running processes and the last reports of the guests. -/
structure HintState where
  vms : List VM
  running : Uuid → Option Process
  guestMemoryReports : Uuid → Option GuestMemoryReport

/-- The sizes that are asked for on the sockets of Firecracker. -/
abbrev Requests := List (Path × Int)

section Hint

variable (api : FirecrackerAPI) (cfg : Config)

/-- `setVMMemoryTarget`, with the requests that it makes. -/
def setVMMemoryTarget (running : Uuid → Option Process) (vm : VM) (targetMiB : Int) :
    Requests × Except Err MemoryHotplugUsage :=
  let requested := requestedMiB vm.memoryMinMiB vm.memoryMaxMiB targetMiB
  match running vm.uuid with
  | none => ([], .error .notRunning)
  | some proc =>
      if vm.memoryMaxMiB = vm.memoryMinMiB then ([], .ok { effectiveMiB := vm.memoryMinMiB })
      else if virtioMemUsableForVM cfg vm = false then
        ([], .ok { effectiveMiB := vm.memoryMaxMiB })
      else
        ([(proc.socketPath, requested)], do
          api.patchMemoryHotplug proc.socketPath requested
          let status ← api.getMemoryHotplug proc.socketPath
          .ok
            { totalMiB := status.totalSizeMiB
              requestedMiB := status.requestedSizeMiB
              pluggedMiB := status.pluggedSizeMiB
              effectiveMiB := int64 (vm.memoryMinMiB + status.pluggedSizeMiB) })

/-- `RecordVMMemoryReportByPrivateIP`. -/
def recordVMMemoryReportByPrivateIP (s : HintState) (now : Nat) (privateIP : Nat)
    (targetMiB : Option Int) (report : GuestMemoryReport) :
    HintState × Requests × Except Err MemoryHotplugUsage :=
  match s.vms.find? fun vm => vm.privateIP = some privateIP with
  | none => (s, [], .error .notFound)
  | some vm =>
      let report :=
        { report with
          reportedAt := now
          lastTargetMiB := targetMiB.getD report.lastTargetMiB }
      let s :=
        { s with guestMemoryReports := Function.update s.guestMemoryReports vm.uuid (some report) }
      match targetMiB with
      | none => (s, [], .ok {})
      | some targetMiB => (s, setVMMemoryTarget api cfg s.running vm targetMiB)

/-- What `handleMemoryHint` answers. -/
inductive HintReply
  | error (status : Nat) (err : Err)
  | ok (memory : MemoryHotplugUsage)
  deriving DecidableEq, Repr

/-- The status of an error of the manager. -/
def hintStatus : Err → Nat
  | .notFound => 403
  | .notRunning => 409
  | _ => 500

/-- `handleMemoryHint`, after the body is decoded.  `remoteIP` is the address
that `SplitHostPort` finds. -/
def handleMemoryHint (s : HintState) (now : Nat) (remoteIP : Except Err Nat)
    (body : Except Err (Option Int × GuestMemoryReport)) : HintState × Requests × HintReply :=
  match body with
  | .error e => (s, [], .error 400 e)
  | .ok (targetMiB, report) =>
      if targetMiB.any (· ≤ 0) then (s, [], .error 400 (.msg "target_mib must be positive"))
      else
        match remoteIP with
        | .error e => (s, [], .error 403 e)
        | .ok ip =>
            let (s, requests, usage) :=
              recordVMMemoryReportByPrivateIP api cfg s now ip targetMiB report
            match usage with
            | .error e => (s, requests, .error (hintStatus e) e)
            | .ok memory => (s, requests, .ok memory)

/-- The requests of the handler are those of the manager, whatever the handler
answers. -/
theorem handleMemoryHint_requests (s : HintState) (now ip : Nat) {vm : VM} {t : Int}
    (report : GuestMemoryReport) (hvm : s.vms.find? (fun vm => vm.privateIP = some ip) = some vm) :
    (handleMemoryHint api cfg s now (.ok ip) (.ok (some t, report))).2.1 =
      if 0 < t then (setVMMemoryTarget api cfg s.running vm t).1 else [] := by
  unfold handleMemoryHint recordVMMemoryReportByPrivateIP
  by_cases ht : 0 < t
  · simp only [Option.any_some, hvm, if_pos ht, decide_eq_true_eq, if_neg (not_le.mpr ht)]
    split <;> rfl
  · simp [ht, not_lt.mp ht]

end Hint

/-! ## The result for requests -/

/-- The sums, differences and products on the way to the size that is asked
for. -/
def intermediateMiB (vm : VM) (targetMiB : Int) : List Int :=
  let wanted := wantedMiB vm.memoryMinMiB vm.memoryMaxMiB targetMiB
  [clampTarget vm.memoryMinMiB vm.memoryMaxMiB targetMiB - vm.memoryMinMiB, wanted + 127,
    (wanted + 127).tdiv 128 * 128, vm.memoryMaxMiB - vm.memoryMinMiB,
    vm.memoryMinMiB + requestedMiB vm.memoryMinMiB vm.memoryMaxMiB targetMiB]

/-- A size that can be asked for, and that is enough for a target. -/
structure Suffices (vm : VM) (targetMiB n : Int) : Prop where
  multiple : n % 128 = 0
  nonneg : 0 ≤ n
  le : n ≤ vm.memoryMaxMiB - vm.memoryMinMiB
  enough : max vm.memoryMinMiB (min targetMiB vm.memoryMaxMiB) ≤ vm.memoryMinMiB + n

/-- A target makes the daemon ask for a size just when the VM runs with a
hotplug region.  The size is the least one that suffices, it grows with the
target, and nothing wraps around on the way to it.  A guest can send any
positive target for the VM with its address. -/
structure RequestsWell (api : FirecrackerAPI) (cfg : Config) (running : Uuid → Option Process)
    (vm : VM) : Prop where
  requests : ∀ t, (setVMMemoryTarget api cfg running vm t).1 =
    match running vm.uuid with
    | none => []
    | some proc =>
        if vm.memoryMinMiB < vm.memoryMaxMiB ∧ virtioMemUsableForVM cfg vm = true then
          [(proc.socketPath, requestedMiB vm.memoryMinMiB vm.memoryMaxMiB t)]
        else []
  enough : ∀ t, IsInt t → Suffices vm t (requestedMiB vm.memoryMinMiB vm.memoryMaxMiB t)
  least : ∀ t, IsInt t → ∀ n, Suffices vm t n →
    requestedMiB vm.memoryMinMiB vm.memoryMaxMiB t ≤ n
  monotone : ∀ t t', IsInt t → IsInt t' → t ≤ t' →
    requestedMiB vm.memoryMinMiB vm.memoryMaxMiB t ≤
      requestedMiB vm.memoryMinMiB vm.memoryMaxMiB t'
  noWrap : ∀ t, IsInt t → ∀ n ∈ intermediateMiB vm t, int64 n = n
  hinted : ∀ (s : HintState) (now ip : Nat) (t : Int) (report : GuestMemoryReport),
    s.running = running → s.vms.find? (fun vm => vm.privateIP = some ip) = some vm →
    (handleMemoryHint api cfg s now (.ok ip) (.ok (some t, report))).2.1 =
      if 0 < t then (setVMMemoryTarget api cfg running vm t).1 else []

section Result

variable {api : FirecrackerAPI} {cfg : Config} {running : Uuid → Option Process} {vm : VM}

theorem suffices_requestedMiB (t : Int)
    (hrange : validateMemoryHotplugRange vm.memoryMinMiB vm.memoryMaxMiB = .ok ())
    (hmax : IsInt vm.memoryMaxMiB) :
    Suffices vm t (requestedMiB vm.memoryMinMiB vm.memoryMaxMiB t) := by
  obtain ⟨hmin, hle, hmod⟩ := validateMemoryHotplugRange_eq_ok.mp hrange
  have hclamp := clampTarget_eq t hle
  rw [requestedMiB_eq t hrange hmax.2]
  unfold nextBlock
  constructor <;> omega

theorem requestedMiB_least {t n : Int}
    (hrange : validateMemoryHotplugRange vm.memoryMinMiB vm.memoryMaxMiB = .ok ())
    (hmax : IsInt vm.memoryMaxMiB) (h : Suffices vm t n) :
    requestedMiB vm.memoryMinMiB vm.memoryMaxMiB t ≤ n := by
  obtain ⟨-, hle, -⟩ := validateMemoryHotplugRange_eq_ok.mp hrange
  have hclamp := clampTarget_eq t hle
  have hmultiple := h.multiple
  have henough := h.enough
  rw [requestedMiB_eq t hrange hmax.2]
  unfold nextBlock
  omega

theorem int64_intermediateMiB (t : Int)
    (hrange : validateMemoryHotplugRange vm.memoryMinMiB vm.memoryMaxMiB = .ok ())
    (hmax : IsInt vm.memoryMaxMiB) : ∀ n ∈ intermediateMiB vm t, int64 n = n := by
  obtain ⟨hmin, hle, hmod⟩ := validateMemoryHotplugRange_eq_ok.mp hrange
  have hclamp := clampTarget_eq t hle
  have hwanted := wantedMiB_eq t hmin hle hmax.2
  have hlt := hmax.2
  have hrequested := suffices_requestedMiB t hrange hmax
  have hnonneg := hrequested.nonneg
  have hbound := hrequested.le
  have hdiv := Int.tdiv_eq_ediv_of_nonneg (a := wantedMiB vm.memoryMinMiB vm.memoryMaxMiB t + 127)
    (b := 128) (by omega)
  intro n hn
  simp only [intermediateMiB, List.mem_cons, List.not_mem_nil, or_false] at hn
  rw [hdiv] at hn
  exact int64_of_lt (by omega) (by omega)

theorem setVMMemoryTarget_requests (t : Int) (hle : vm.memoryMinMiB ≤ vm.memoryMaxMiB) :
    (setVMMemoryTarget api cfg running vm t).1 =
      match running vm.uuid with
      | none => []
      | some proc =>
          if vm.memoryMinMiB < vm.memoryMaxMiB ∧ virtioMemUsableForVM cfg vm = true then
            [(proc.socketPath, requestedMiB vm.memoryMinMiB vm.memoryMaxMiB t)]
          else [] := by
  unfold setVMMemoryTarget
  cases running vm.uuid with
  | none => rfl
  | some proc =>
    by_cases hfixed : vm.memoryMaxMiB = vm.memoryMinMiB
    · simp [hfixed]
    · have hlt : vm.memoryMinMiB < vm.memoryMaxMiB := by omega
      cases virtioMemUsableForVM cfg vm <;> simp [hfixed, hlt]

/-- For every VM whose range of memory is valid. -/
theorem requestsWell
    (hrange : validateMemoryHotplugRange vm.memoryMinMiB vm.memoryMaxMiB = .ok ())
    (hmax : IsInt vm.memoryMaxMiB) : RequestsWell api cfg running vm where
  requests t := setVMMemoryTarget_requests t (validateMemoryHotplugRange_eq_ok.mp hrange).2.1
  enough t _ := suffices_requestedMiB t hrange hmax
  least t _ n hn := requestedMiB_least hrange hmax hn
  monotone t t' _ _ htt := by
    -- What suffices for the larger target suffices for the smaller one.
    obtain ⟨hmultiple, hnonneg, hle, henough⟩ := suffices_requestedMiB t' hrange hmax
    exact requestedMiB_least hrange hmax ⟨hmultiple, hnonneg, hle, by omega⟩
  noWrap t _ := int64_intermediateMiB t hrange hmax
  hinted s now ip t report hs hvm := hs ▸ handleMemoryHint_requests api cfg s now ip report hvm

end Result

/-- A VM with a range of 896 MiB. -/
def VM.ranged : VM where
  toVMRow := { VMRow.sample "a" 0 with memoryMinMiB := 128, memoryMaxMiB := 1024 }
  uuid := 0

/-- The process of that VM. -/
def Process.ranged : Process where
  pid := 0
  uuid := 0
  name := "a"
  socketPath := Config.sample.socketPath "a"
  tapName := "fdtap-a"
  cgroupPath := none

/-- A target of 500 MiB makes the daemon ask for 384 MiB on top of 128 MiB. -/
theorem requestsWell_ranged :
    (setVMMemoryTarget ⟨fun _ _ => .ok (), fun _ => .error .io⟩ .sample
        (fun _ => some .ranged) .ranged 500).1 = [(Config.sample.socketPath "a", 384)] ∧
      RequestsWell ⟨fun _ _ => .ok (), fun _ => .error .io⟩ .sample (fun _ => some .ranged)
        .ranged :=
  ⟨by decide, requestsWell (by decide) ⟨by decide, by decide⟩⟩

/-! ## The result for the host -/

/-- The end of the hotplug region of a VM. -/
def hotplugEnd (vm : VM) : Nat :=
  virtioMemBaseAddress + (vm.memoryMaxMiB - vm.memoryMinMiB).toNat * 2 ^ 20

/-- The VM boots with all of its memory, or it has a hotplug region for the
rest.  The region ends within the physical addresses of the host, if their
number is known. -/
structure FitsHost (cfg : Config) (vm : VM) : Prop where
  cases : memoryConfigForHost cfg vm = .ok ⟨vm.memoryMaxMiB, none, false⟩ ∨
    memoryConfigForHost cfg vm = .ok ⟨vm.memoryMaxMiB, none, true⟩ ∨
    memoryConfigForHost cfg vm =
      .ok ⟨vm.memoryMinMiB, some (vm.memoryMaxMiB - vm.memoryMinMiB), false⟩
  fits : ∀ c b, memoryConfigForHost cfg vm = .ok c → c.hotplugMiB.isSome = true →
    cfg.physicalBits = some b → hotplugEnd vm ≤ 2 ^ b

section Host

variable {cfg : Config} {vm : VM}

/-- The test of the host in 64 bits. -/
theorem requiredBits_le_iff {b : Nat} (h : vm.memoryMinMiB < vm.memoryMaxMiB) :
    requiredVirtioMemPhysicalAddressBits (vm.memoryMaxMiB - vm.memoryMinMiB) ≤ b ↔
      (hotplugEnd vm - 1) % 2 ^ 64 < 2 ^ b := by
  have hbase : 0 < virtioMemBaseAddress := by decide
  have hpred : virtioMemBaseAddress + (vm.memoryMaxMiB - vm.memoryMinMiB).toNat * 2 ^ 20 +
      (2 ^ 64 - 1) = hotplugEnd vm - 1 + 2 ^ 64 := by
    unfold hotplugEnd
    omega
  unfold requiredVirtioMemPhysicalAddressBits
  rw [if_neg (by omega), Nat.size_le, hpred, Nat.add_mod_right]

theorem virtioMemUsableForVM_iff (cfg : Config)
    (hrange : validateMemoryHotplugRange vm.memoryMinMiB vm.memoryMaxMiB = .ok ()) :
    virtioMemUsableForVM cfg vm = true ↔ vm.memoryMinMiB < vm.memoryMaxMiB ∧
      ∀ b, cfg.physicalBits = some b → (hotplugEnd vm - 1) % 2 ^ 64 < 2 ^ b := by
  unfold virtioMemUsableForVM
  split_ifs with hle
  · simp only [false_iff]
    omega
  · have hlt : vm.memoryMinMiB < vm.memoryMaxMiB := by omega
    simp only [hrange, hlt, true_and]
    cases cfg.physicalBits with
    | none => simp
    | some b => simp [requiredBits_le_iff hlt]

/-- The test of the host is right, unless the end of the hotplug region lies
beyond the physical addresses and wraps around to one of them. -/
theorem fitsHost_iff
    (hrange : validateMemoryHotplugRange vm.memoryMinMiB vm.memoryMaxMiB = .ok ()) :
    FitsHost cfg vm ↔ vm.memoryMaxMiB = vm.memoryMinMiB ∨ ∀ b, cfg.physicalBits = some b →
      hotplugEnd vm ≤ 2 ^ b ∨ 2 ^ b ≤ (hotplugEnd vm - 1) % 2 ^ 64 := by
  obtain ⟨-, hle, -⟩ := validateMemoryHotplugRange_eq_ok.mp hrange
  have husable := virtioMemUsableForVM_iff cfg hrange
  by_cases hfixed : vm.memoryMaxMiB = vm.memoryMinMiB
  · have hboot : memoryConfigForHost cfg vm = .ok ⟨vm.memoryMaxMiB, none, false⟩ := by
      simp only [memoryConfigForHost, hrange]
      rw [if_pos (by omega)]
    refine iff_of_true ⟨Or.inl hboot, fun c b hc hsome => ?_⟩ (Or.inl hfixed)
    rw [hboot] at hc
    cases hc
    cases hsome
  · have hlt : vm.memoryMinMiB < vm.memoryMaxMiB := by omega
    have hconfig : memoryConfigForHost cfg vm = if virtioMemUsableForVM cfg vm = false then
        .ok ⟨vm.memoryMaxMiB, none, true⟩
        else .ok ⟨vm.memoryMinMiB, some (vm.memoryMaxMiB - vm.memoryMinMiB), false⟩ := by
      simp only [memoryConfigForHost, hrange]
      rw [if_neg (by omega)]
    cases hu : virtioMemUsableForVM cfg vm with
    | false =>
      rw [hu, if_pos rfl] at hconfig
      refine iff_of_true ⟨Or.inr (Or.inl hconfig), fun c b hc hsome => ?_⟩ (Or.inr fun b hb => ?_)
      · rw [hconfig] at hc
        cases hc
        cases hsome
      · right
        by_contra hwrap
        have hnot : virtioMemUsableForVM cfg vm = true := husable.mpr ⟨hlt, fun b' hb' => by
          obtain rfl := Option.some.inj (hb.symm.trans hb')
          omega⟩
        rw [hu] at hnot
        cases hnot
    | true =>
      rw [hu, if_neg (by decide)] at hconfig
      obtain ⟨-, htest⟩ := husable.mp hu
      constructor
      · intro h
        exact Or.inr fun b hb => Or.inl (h.fits _ b hconfig rfl hb)
      · intro hcond
        refine ⟨Or.inr (Or.inr hconfig), fun c b _ _ hb => ?_⟩
        have hwrap := htest b hb
        rcases hcond.resolve_left hfixed b hb with hfit | hfar
        · exact hfit
        · omega

end Host

theorem fitsHost_iff_ranged : FitsHost { Config.sample with physicalBits := some 46 } VM.ranged :=
  (fitsHost_iff (by decide)).mpr (Or.inr fun b hb => Or.inl (by
    cases hb
    decide))

/-- A VM with a range of `2 ^ 44` MiB. -/
def VM.huge : VM where
  toVMRow := { VMRow.sample "a" 0 with memoryMinMiB := 128, memoryMaxMiB := 2 ^ 44 + 128 }
  uuid := 0

/-- A host with 46 bits is given a hotplug region that ends beyond
`2 ^ 64`. -/
theorem hotplug_beyond_host :
    validateMemoryHotplugRange VM.huge.memoryMinMiB VM.huge.memoryMaxMiB = .ok () ∧
      memoryConfigForHost { Config.sample with physicalBits := some 46 } VM.huge =
        .ok ⟨128, some (2 ^ 44), false⟩ ∧
      2 ^ 64 < hotplugEnd VM.huge ∧
      ¬ FitsHost { Config.sample with physicalBits := some 46 } VM.huge := by
  have hconfig : memoryConfigForHost { Config.sample with physicalBits := some 46 } VM.huge =
      .ok ⟨128, some (2 ^ 44), false⟩ := by decide
  refine ⟨by decide, hconfig, by decide, fun h => ?_⟩
  exact absurd (h.fits _ 46 hconfig rfl rfl) (by decide)

end Firedoze
