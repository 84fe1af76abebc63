import Firedoze.Model.Types
import Mathlib.Data.List.Basic

/-!
# Names and addresses of a VM's network

`validVMName` decides which names the API accepts, and `tapName` derives the
name of the TAP device from the name of the VM.  The kernel limits a device
name to fifteen bytes, so `tapName` cuts the name off: `tapName_eq_iff` says
which two VMs end up with the same device.

The address part follows `nextPrivateIP`, `decrementIP` and
`privateIPv4Pair` on numeric addresses.  `findFreeIP` is the search loop of
`nextPrivateIP`.  Every round of it that does not stop has met an address in
use, so one round more than there are addresses in use is enough.
-/

namespace Firedoze

open Net

/-! ## VM names -/

/-- `[a-z0-9]`. -/
def isLabelChar (c : Char) : Bool :=
  (decide ('a' ≤ c) && decide (c ≤ 'z')) || (decide ('0' ≤ c) && decide (c ≤ '9'))

/-- `validDNSLabel`: the pattern `^[a-z0-9]([a-z0-9-]{0,61}[a-z0-9])?$`. -/
def validDNSLabel (name : String) : Bool :=
  match name.toList.head?, name.toList.getLast? with
  | some first, some last =>
      isLabelChar first && isLabelChar last &&
        name.toList.all (fun c => isLabelChar c || c == '-') &&
        decide (name.toList.length ≤ 63)
  | _, _ => false

/-- A hexadecimal digit in either case. -/
def isHexDigit (c : Char) : Bool :=
  (decide ('0' ≤ c) && decide (c ≤ '9')) || (decide ('a' ≤ c) && decide (c ≤ 'f')) ||
    (decide ('A' ≤ c) && decide (c ≤ 'F'))

/-- The thirty-six characters `xxxxxxxx-xxxx-xxxx-xxxx-xxxxxxxxxxxx`. -/
def hyphenatedUUID (cs : List Char) : Bool :=
  (cs.take 36).zipIdx.all fun ci =>
    if ci.2 = 8 ∨ ci.2 = 13 ∨ ci.2 = 18 ∨ ci.2 = 23 then ci.1 == '-' else isHexDigit ci.1

/-- Whether `uuid.Parse` accepts the string.  It takes the plain form, the
`urn:uuid:` form, the form in braces, whose braces it does not look at, and
the bare thirty-two digits. -/
def uuidParses (name : String) : Bool :=
  let cs := name.toList
  if cs.length = 36 then hyphenatedUUID cs
  else if cs.length = 45 then
    (cs.take 9).map Char.toLower == "urn:uuid:".toList && hyphenatedUUID (cs.drop 9)
  else if cs.length = 38 then hyphenatedUUID (cs.drop 1)
  else if cs.length = 32 then cs.all isHexDigit
  else false

/-- `validVMName`. -/
def validVMName (name : String) : Bool := validDNSLabel name && !uuidParses name

/-! ## TAP names -/

/-- `tapName`.  The names that `validVMName` accepts are ASCII, so a byte of
the name is a character. -/
def tapName (vmName : String) : String :=
  let name := "fdtap-" ++ vmName
  if name.length > 15 then String.ofList (name.toList.take 15) else name

/-- `tapName` keeps the first fifteen characters of the prefixed name. -/
theorem toList_tapName (vmName : String) :
    (tapName vmName).toList = ("fdtap-".toList ++ vmName.toList).take 15 := by
  unfold tapName
  simp only [String.toList_append]
  split_ifs with h
  · simp
  · rw [String.toList_append, List.take_of_length_le]
    rw [← String.toList_append, String.length_toList]
    omega

/-- Two VMs share a TAP name exactly when their names agree on the first
nine characters. -/
theorem tapName_eq_iff (a b : String) :
    tapName a = tapName b ↔ a.toList.take 9 = b.toList.take 9 := by
  rw [← String.toList_inj, toList_tapName, toList_tapName, List.take_append, List.take_append]
  simp

/-! ## Addresses -/

/-- The checks of `vm_network` in `Config.Validate`. -/
def Config.validateVMNetwork (cfg : Config) : Except Err Unit :=
  if (to4 cfg.subnet.ip).isSome then .error (.msg "vm_network.subnet must be IPv6")
  else if (to4 cfg.ipv4Subnet.ip).isNone then .error (.msg "vm_network.ipv4_subnet must be IPv4")
  else .ok ()

/-- `addToIP`. -/
def addToIP (ip : Nat) (offset : Int) : Except Err Nat :=
  if (ip : Int) + offset < 0 then .error (.msg "IP underflow")
  else if 2 ^ 128 ≤ (ip : Int) + offset then .error (.msg "IP overflow")
  else .ok ((ip : Int) + offset).toNat

/-- `decrementIP`. -/
def decrementIP (ip : Nat) : Except Err Nat := addToIP ip (-1)

/-- `addToIPv4`. -/
def addToIPv4 (ip : Nat) (offset : Int) : Except Err Nat :=
  match to4 ip with
  | none => .error (.msg "IP is not IPv4")
  | some base =>
      let value := int64 (base + offset)
      if value < 0 ∨ 0xffffffff < value then .error (.msg "IPv4 overflow")
      else .ok (ipv4 value.toNat)

/-- The answer of a loop that was given too few rounds. -/
def outOfRounds : Err := .msg "unreachable: every round met another used address"

/-- The loop of `nextPrivateIP` from the given offset on. -/
def findFreeIP (subnet : CIDR) (used : List Nat) : Nat → Int → Except Err Nat
  | 0, _ => .error outOfRounds
  | fuel + 1, offset =>
      match addToIP subnet.network offset with
      | .error e => .error e
      | .ok ip =>
          if subnet.contains ip = false then .error (.msg "vm subnet exhausted")
          else if ip ∈ used then findFreeIP subnet used fuel (int64 (offset + 2))
          else .ok ip

/-- The addresses in use among the listed VMs. -/
def usedIPs (vms : List VM) : List Nat := vms.filterMap fun vm => vm.privateIP

/-- `nextPrivateIP` on the listed VMs.  Each VM gets a pair of addresses: the
even one on the host side, the odd one in the guest. -/
def nextPrivateIP (subnet : CIDR) (vms : List VM) : Except Err Nat :=
  if (to4 subnet.network).isSome then .error (.msg "vm_network.subnet must be IPv6")
  else findFreeIP subnet (usedIPs vms) ((usedIPs vms).length + 1) 3

/-- The search never answers an address in use. -/
theorem findFreeIP_not_mem {subnet : CIDR} {used : List Nat} {fuel ip : Nat} {offset : Int}
    (h : findFreeIP subnet used fuel offset = .ok ip) : ip ∉ used := by
  induction fuel generalizing offset with
  | zero => simp [findFreeIP] at h
  | succ fuel ih =>
    rw [findFreeIP] at h
    split at h
    · simp at h
    · split_ifs at h with hc hu
      · exact ih h
      · cases h
        exact hu

theorem nextPrivateIP_eq_ok {subnet : CIDR} {vms : List VM} {ip : Nat} :
    nextPrivateIP subnet vms = .ok ip ↔ to4 subnet.network = none ∧
      findFreeIP subnet (usedIPs vms) ((usedIPs vms).length + 1) 3 = .ok ip := by
  unfold nextPrivateIP
  cases to4 subnet.network <;> simp

/-- `nextPrivateIP` answers an address that none of the listed VMs has. -/
theorem nextPrivateIP_fresh {subnet : CIDR} {vms : List VM} {ip : Nat}
    (h : nextPrivateIP subnet vms = .ok ip) {vm : VM} (hvm : vm ∈ vms) :
    vm.privateIP ≠ some ip := by
  intro hip
  exact findFreeIP_not_mem (nextPrivateIP_eq_ok.mp h).2 (List.mem_filterMap.mpr ⟨vm, hvm, hip⟩)

/-- `privateIPv4Pair`: the host side and the guest side. -/
def privateIPv4Pair (cfg : Config) (guest : Nat) : Except Err (Nat × Nat) :=
  if (to4 guest).isSome then .error (.msg "private_ip must be IPv6")
  else if (to4 cfg.subnet.network).isSome then .error (.msg "vm_network.subnet must be IPv6")
  else if cfg.subnet.contains guest = false then
    .error (.msg "private_ip is outside vm_network.subnet")
  else
    let offset : Int := (guest : Int) - cfg.subnet.network
    if offset ≤ 0 ∨ offset % 2 = 0 then
      .error (.msg "private_ip must be an odd guest address in a /127 pair")
    else if 2 ^ 63 ≤ offset then .error (.msg "private_ip offset does not fit IPv4 subnet")
    else if (to4 cfg.ipv4Subnet.ip).isNone then
      .error (.msg "vm_network.ipv4_subnet must be IPv4")
    else
      match addToIPv4 cfg.ipv4Subnet.ip offset with
      | .error e => .error e
      | .ok guestIPv4 =>
          match addToIPv4 cfg.ipv4Subnet.ip (int64 (offset - 1)) with
          | .error e => .error e
          | .ok hostIPv4 =>
              if cfg.ipv4Subnet.contains hostIPv4 = false ∨
                  cfg.ipv4Subnet.contains guestIPv4 = false then
                .error (.msg "vm IPv4 subnet exhausted")
              else .ok (hostIPv4, guestIPv4)

/-- The addresses of `preparedNetwork`. -/
structure NetworkPlan where
  hostIP : Nat
  guestIP : Nat
  hostIPv4 : Nat
  guestIPv4 : Nat
  deriving DecidableEq, Repr

/-- The part of `prepareNetwork` that computes the addresses. -/
def networkPlan (cfg : Config) (vm : VM) : Except Err NetworkPlan :=
  match vm.privateIP with
  | none => .error (.msg "vm has no private_ip")
  | some guestIP =>
      if (to4 guestIP).isSome then .error (.msg "private_ip must be IPv6")
      else
        match decrementIP guestIP with
        | .error e => .error e
        | .ok hostIP =>
            match privateIPv4Pair cfg guestIP with
            | .error e => .error e
            | .ok (hostIPv4, guestIPv4) => .ok ⟨hostIP, guestIP, hostIPv4, guestIPv4⟩

end Firedoze
