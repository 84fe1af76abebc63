import Firedoze.Config.Load
import Firedoze.Net.Octets
import Firedoze.Network.Allocation

/-!
# The address of the DNS server

`applyDerivedDefaults` lets the DNS server listen on the address after the one
that is written in `vm_network.subnet`.  `nextPrivateIP` counts from the start
of the subnet.  So the server keeps out of the way of the guests only if the
written address is the start of the subnet, or far behind it.

* `firstUsableIP_eq_ok` is `FirstUsableIP` without its bytes.
* `listenIP_of_applyDerivedDefaults` is the address that is derived.
* `noClash_iff` is the result.
-/

namespace Firedoze.ConfigFile

open Net

/-! ## `FirstUsableIP` -/

/-- The address after an address.  For an address of IPv4 only the last byte is
incremented. -/
def nextIP (ip : Nat) : Nat :=
  match to4 ip with
  | some v => ipv4 (v / 256 * 256 + (UInt8.ofNat v + 1).toNat)
  | none => ofOctets (increment (octets 16 ip))

/-- `FirstUsableIP`, with a parser for networks. -/
def firstUsableIP (parseCIDR : String → Except String CIDR) (cidr : String) : Except String Nat :=
  match parseCIDR cidr with
  | .error e => .error ("parse subnet: " ++ e)
  | .ok subnet =>
      if subnet.contains (nextIP subnet.ip) = false then
        .error ("subnet has no usable DNS IP: " ++ cidr)
      else .ok (nextIP subnet.ip)

theorem nextIP_of_ipv6 {ip : Nat} (h : to4 ip = none) : nextIP ip = (ip + 1) % 2 ^ 128 := by
  simp only [nextIP, h]
  rw [ofOctets_increment, ofOctets_octets, length_octets, Nat.mod_add_mod]
  rfl

/-- A library that reads and prints addresses as `net` does. -/
structure AddressLib extends ConfigLib where
  parseSubnet : String → Except String CIDR
  ipString : Nat → String
  ipString_injective : ∀ {a b : Nat}, a < 2 ^ 128 → b < 2 ^ 128 → ipString a = ipString b → a = b
  parseCIDR_eq : ∀ s, (net.parseCIDR s).map (fun r => net.isIPv4 r.1) =
    (parseSubnet s).map fun c => (to4 c.ip).isSome
  firstUsableIP_eq : ∀ s, firstUsableIP s = (ConfigFile.firstUsableIP parseSubnet s).map ipString

/-! ## `Load` -/

section Load

variable (L : ConfigLib)

/-- `Load` of the default path, where the file may be missing. -/
def loadDefault : Option (List Char) → Except Err Config
  | some text => load L text
  | none => do
      let settings ← applyDerivedDefaults L Config.default.settings
      let c : Config := { Config.default with settings := settings }
      c.validate L
      .ok c

/-- What `toml.Unmarshal` leaves before the defaults are derived. -/
def written : Option (List Char) → Option Config
  | some text => unmarshalConfig L text
  | none => some .default

variable {L} {file : Option (List Char)} {c cfg : Config} {s s' : Settings}

theorem loadDefault_ok (hc : written L file = some c) (h : loadDefault L file = .ok cfg) :
    applyDerivedDefaults L c.settings = .ok cfg.settings ∧ cfg.validate L = .ok () := by
  cases file with
  | some text =>
    obtain ⟨c', h'⟩ := load_eq_ok.mp h
    obtain rfl := Option.some.inj (hc.symm.trans h'.unmarshal)
    exact ⟨h'.settings, h'.valid⟩
  | none =>
    cases hc
    obtain ⟨settings, hsettings, h⟩ := bind_eq_ok.mp h
    obtain ⟨_, hvalid, h⟩ := bind_eq_ok.mp h
    cases h
    exact ⟨hsettings, hvalid⟩

theorem Settings.orText_of_ne {f g : TextField} {d : String} (h : g ≠ f) :
    (s.orText f d).text g = s.text g := by
  unfold Settings.orText
  split_ifs
  · exact Function.update_of_ne h _ _
  · rfl

theorem Settings.orText_flag {f : TextField} {d : String} : (s.orText f d).flag = s.flag := by
  unfold Settings.orText
  split_ifs <;> rfl

theorem Settings.orNum_text {f : NumField} {d : Int} : (s.orNum f d).text = s.text := by
  unfold Settings.orNum
  split_ifs <;> rfl

theorem Settings.orNum_flag {f : NumField} {d : Int} : (s.orNum f d).flag = s.flag := by
  unfold Settings.orNum
  split_ifs <;> rfl

/-- The address that is derived for the DNS server. -/
theorem listenIP_of_applyDerivedDefaults (hdns : s.flag .dnsEnabled = true)
    (hempty : s.text .listenIP = "") (h : applyDerivedDefaults L s = .ok s') :
    s'.text .subnet = s.text .subnet ∧
      L.firstUsableIP (s.text .subnet) = .ok (s'.text .listenIP) := by
  have hlisten : TextField.subnet ≠ .listenIP := by decide
  unfold applyDerivedDefaults at h
  simp only [Settings.orText_flag, Settings.orNum_flag, Settings.orNum_text, hdns, if_true,
    apply_ite Settings.text, ite_self, Settings.orText_of_ne, ne_eq, reduceCtorEq,
    not_false_eq_true, hempty] at h
  split at h
  · cases h
  · rename_i ip hip
    cases h
    refine ⟨?_, hip.trans ?_⟩
    · simp only [Function.update_of_ne hlisten, Settings.orNum_text, Settings.orText_of_ne, ne_eq,
        reduceCtorEq, not_false_eq_true]
    · simp only [Function.update_self]

/-- The kind of network that `Validate` asks for. -/
theorem checkSubnet_eq_ok {f : TextField} {name : String} {v4 : Bool} :
    s.checkSubnet L f name v4 = .ok () ↔
      (L.net.parseCIDR (s.text f)).map (fun r => L.net.isIPv4 r.1) = .ok v4 := by
  unfold Settings.checkSubnet
  cases L.net.parseCIDR (s.text f) with
  | error e | ok r => simp [Except.map]

theorem checkSubnet_of_validate (h : cfg.validate L = .ok ()) :
    cfg.settings.checkSubnet L .subnet "vm_network.subnet" false = .ok () := by
  have hhost := (validate_eq_ok.mp h).2.2
  unfold Settings.checkHost at hhost
  obtain ⟨_, -, hhost⟩ := bind_eq_ok.mp hhost
  obtain ⟨_, hsubnet, -⟩ := bind_eq_ok.mp hhost
  exact hsubnet

end Load

/-! ## The guests -/

/-- The address of the DNS server is neither the address of a guest nor the one
of the host side of a guest, however many VMs there are. -/
def NoClash (L : AddressLib) (subnet : CIDR) (cfg : Config) : Prop :=
  ∀ vms ip, nextPrivateIP subnet vms = .ok ip →
    cfg.settings.text .listenIP ≠ L.ipString ip ∧
      cfg.settings.text .listenIP ≠ L.ipString (ip - 1)

section Guests

variable {L : AddressLib} {file : Option (List Char)} {c cfg : Config} {subnet : CIDR}

/-- The number of addresses between the start of the subnet and the written
address. -/
def hostPart (subnet : CIDR) : Nat := subnet.ip - subnet.network

/-- The offset of the guest whose pair has the address after the written
one. -/
def nextGuest (subnet : CIDR) : Nat := hostPart subnet + 1 + hostPart subnet % 2

theorem firstUsableIP_eq_ok {s : String} {ip : Nat} (hparse : L.parseSubnet s = .ok subnet)
    (h6 : to4 subnet.ip = none) :
    firstUsableIP L.parseSubnet s = .ok ip ↔
      subnet.contains ip = true ∧ ip = (subnet.ip + 1) % 2 ^ 128 := by
  simp only [firstUsableIP, hparse, nextIP_of_ipv6 h6]
  split_ifs with hin
  · simp only [false_iff, not_and]
    rintro hip rfl
    rw [hin] at hip
    cases hip
  · rw [Bool.not_eq_false] at hin
    constructor
    · intro h
      cases h
      exact ⟨hin, rfl⟩
    · rintro ⟨-, rfl⟩
      rfl

/-- The address after the written one belongs to a guest or to its host side
exactly when that guest can be made. -/
theorem exists_guest_iff {ip : Nat} (h6 : to4 subnet.ip = none)
    (hip : ip = (subnet.ip + 1) % 2 ^ 128) :
    (∃ vms guest, nextPrivateIP subnet vms = .ok guest ∧ (ip = guest ∨ ip = guest - 1)) ↔
      hostPart subnet ≠ 0 ∧ nextGuest subnet < searchable subnet := by
  have hnet := CIDR.to4_network h6
  have hle := CIDR.network_le (c := subnet)
  have hlt := CIDR.lt_network_add (c := subnet)
  have hend := CIDR.network_add_size_le (c := subnet)
  have hlt' := subnet.ip_lt
  have hsize := searchable_le_size subnet
  constructor
  · rintro ⟨vms, guest, hguest, heq⟩
    obtain ⟨-, d, ⟨hodd, hge⟩, hsight, rfl, -⟩ := nextPrivateIP_eq_ok_iff.mp hguest
    unfold nextGuest hostPart
    omega
  · rintro ⟨hne, hsight⟩
    have hoffset : GuestOffset (nextGuest subnet) := by
      unfold GuestOffset nextGuest
      omega
    obtain ⟨vms, hvms⟩ := (exists_nextPrivateIP_iff hnet).mpr ⟨_, hoffset, hsight, rfl⟩
    refine ⟨vms, _, hvms, ?_⟩
    unfold nextGuest hostPart at *
    omega

/-- The DNS server keeps out of the way of the guests exactly when the subnet
is written with its first address, or the guest whose pair comes after the
written address can never be made. -/
theorem noClash_iff (hc : written L.toConfigLib file = some c)
    (hload : loadDefault L.toConfigLib file = .ok cfg) (hdns : c.settings.flag .dnsEnabled = true)
    (hempty : c.settings.text .listenIP = "")
    (hparse : L.parseSubnet (cfg.settings.text .subnet) = .ok subnet) :
    NoClash L subnet cfg ↔ hostPart subnet = 0 ∨ searchable subnet ≤ nextGuest subnet := by
  obtain ⟨hsettings, hvalid⟩ := loadDefault_ok hc hload
  obtain ⟨hsame, hlisten⟩ := listenIP_of_applyDerivedDefaults hdns hempty hsettings
  have h6 : to4 subnet.ip = none := by
    have hkind := checkSubnet_eq_ok.mp (checkSubnet_of_validate hvalid)
    rw [L.parseCIDR_eq, hparse] at hkind
    simpa [Except.map] using hkind
  -- The address that is printed.
  rw [← hsame, L.firstUsableIP_eq] at hlisten
  obtain ⟨ip, hfirst, hprint⟩ : ∃ ip, firstUsableIP L.parseSubnet (cfg.settings.text .subnet) =
      .ok ip ∧ L.ipString ip = cfg.settings.text .listenIP := by
    cases hf : firstUsableIP L.parseSubnet (cfg.settings.text .subnet) with
    | error e =>
      rw [hf] at hlisten
      cases hlisten
    | ok ip =>
      rw [hf] at hlisten
      exact ⟨ip, rfl, Except.ok.inj hlisten⟩
  obtain ⟨-, hip⟩ := (firstUsableIP_eq_ok hparse h6).mp hfirst
  have hclash := exists_guest_iff h6 hip
  have hiplt : ip < 2 ^ 128 := by omega
  have hguest : ∀ {vms guest}, nextPrivateIP subnet vms = .ok guest → guest < 2 ^ 128 := by
    intro vms guest h
    have hend := CIDR.network_add_size_le (c := subnet)
    have hin := nextPrivateIP_inside h guest (by simp [addressPair])
    omega
  constructor
  · intro hno
    by_contra hcond
    obtain ⟨vms, guest, hvms, heq⟩ := hclash.mpr ⟨by omega, by omega⟩
    obtain ⟨hne, hne'⟩ := hno vms guest hvms
    rw [← hprint] at hne hne'
    rcases heq with rfl | rfl
    · exact hne rfl
    · exact hne' rfl
  · intro hcond vms guest hvms
    have hnone : ¬ (ip = guest ∨ ip = guest - 1) := fun heq => by
      have := hclash.mp ⟨vms, guest, hvms, heq⟩
      omega
    have hlt := hguest hvms
    rw [← hprint]
    refine ⟨fun heq => hnone (Or.inl (L.ipString_injective hiplt hlt heq)), fun heq => ?_⟩
    exact hnone (Or.inr (L.ipString_injective hiplt (by omega) heq))

end Guests

/-! ## Two files -/

/-- A network with 64 bits of hosts. -/
def slash64 (ip : Nat) (hip : ip < 2 ^ 128 := by decide) : CIDR :=
  { ip, bits := 64, ip_lt := hip, bits_le := smallSubnet.bits_le }

/-- The networks of the two files. -/
def listedSubnets : List (String × CIDR) :=
  [("fd7a:115c:a1e1::1/64", slash64 (0xfd7a115ca1e1 * 2 ^ 80 + 1)),
    ("fd7a:115c:a1e0::/64", slash64 (0xfd7a115ca1e0 * 2 ^ 80)),
    ("fd7a:115c:a1e0::2/64", slash64 (0xfd7a115ca1e0 * 2 ^ 80 + 2)),
    ("10.88.0.0/16", { ip := ipv4 0x0a580000, bits := 112 })]

def parseListed (s : String) : Except String CIDR :=
  match listedSubnets.lookup s with
  | some c => .ok c
  | none => .error ("invalid CIDR address: " ++ s)

/-- The first addresses of the subnet, as `IP.String` writes them. -/
def listedTexts : List (Nat × String) :=
  [(0xfd7a115ca1e0 * 2 ^ 80 + 1, "fd7a:115c:a1e0::1"),
    (0xfd7a115ca1e0 * 2 ^ 80 + 2, "fd7a:115c:a1e0::2"),
    (0xfd7a115ca1e0 * 2 ^ 80 + 3, "fd7a:115c:a1e0::3")]

/-- Any other address as a string of sixteen characters. -/
def printOctets (ip : Nat) : String :=
  String.ofList ((octets 16 ip).map Char.ofUInt8)

theorem printOctets_injective {a b : Nat} (ha : a < 2 ^ 128) (hb : b < 2 ^ 128)
    (h : printOctets a = printOctets b) : a = b := by
  have hchar : Function.Injective Char.ofUInt8 := by
    intro x y hxy
    have hval : x.toUInt32.toNat = y.toUInt32.toNat := congrArg Char.toNat hxy
    rw [UInt8.toNat_toUInt32, UInt8.toNat_toUInt32] at hval
    exact UInt8.toNat_inj.mp hval
  have hoctets := List.map_injective_iff.mpr hchar (String.ofList_injective h)
  have hval := congrArg ofOctets hoctets
  rw [ofOctets_octets, ofOctets_octets, Nat.mod_eq_of_lt (by omega), Nat.mod_eq_of_lt (by omega)]
    at hval
  exact hval

/-- The text of an address. -/
def printListed (ip : Nat) : String :=
  match listedTexts.find? (·.1 = ip) with
  | some p => p.2
  | none => printOctets ip

theorem printListed_injective {a b : Nat} (ha : a < 2 ^ 128) (hb : b < 2 ^ 128)
    (h : printListed a = printListed b) : a = b := by
  -- The texts of the list are longer than the others.
  have hlong {p : Nat × String} {ip c : Nat} (hp : listedTexts.find? (·.1 = ip) = some p) :
      p ∈ listedTexts ∧ p.1 = ip ∧ p.2 ≠ printOctets c := by
    have hmem := List.mem_of_find?_eq_some hp
    refine ⟨hmem, by simpa using List.find?_some hp, fun heq => ?_⟩
    have hlen : ∀ p ∈ listedTexts, p.2.length = 17 := by decide
    have hlength := hlen p hmem
    simp [heq, printOctets, length_octets] at hlength
  unfold printListed at h
  cases hfa : listedTexts.find? (·.1 = a) with
  | none =>
    cases hfb : listedTexts.find? (·.1 = b) with
    | none => exact printOctets_injective ha hb (by simpa only [hfa, hfb] using h)
    | some q => exact absurd (by simpa only [hfa, hfb] using h.symm) (hlong hfb).2.2
  | some p =>
    cases hfb : listedTexts.find? (·.1 = b) with
    | none => exact absurd (by simpa only [hfa, hfb] using h) (hlong hfa).2.2
    | some q =>
      have hinj : ∀ p ∈ listedTexts, ∀ q ∈ listedTexts, p.2 = q.2 → p.1 = q.1 := by decide
      rw [← (hlong (c := 0) hfa).2.1, ← (hlong (c := 0) hfb).2.1]
      exact hinj p (hlong (c := 0) hfa).1 q (hlong (c := 0) hfb).1
        (by simpa only [hfa, hfb] using h)

def listedNetSyntax : NetSyntax where
  Key := String
  IP := CIDR
  IPNet := String
  parseKey := .ok
  keyString := id
  keyString_injective := Function.injective_id
  parseCIDR s := (parseListed s).map fun c => (c, s)
  isIPv4 c := (to4 c.ip).isSome
  netString := id
  netString_injective _ _ _ _ h := h
  quote := id

/-- A library that knows these networks. -/
def listedLib : AddressLib where
  net := listedNetSyntax
  unicode := .ascii
  bare _ := none
  parseIP _ := true
  joinPath dir file := dir ++ "/" ++ file
  firstUsableIP s := (ConfigFile.firstUsableIP parseListed s).map printListed
  parseSubnet := parseListed
  ipString := printListed
  ipString_injective := printListed_injective
  parseCIDR_eq s := by
    simp only [listedNetSyntax]
    cases parseListed s <;> rfl
  firstUsableIP_eq _ := rfl

theorem noClash_iff_default : ∃ cfg, loadDefault listedLib.toConfigLib none = .ok cfg ∧
    NoClash listedLib { ip := 0xfd7a115ca1e0 * 2 ^ 80, bits := 64 } cfg := by
  obtain ⟨cfg, hload, htest⟩ := exists_of_succeedsWith
    (p := fun cfg : Config => decide (cfg.settings.text .subnet = "fd7a:115c:a1e0::/64"))
    (x := loadDefault listedLib.toConfigLib none) (by decide +kernel)
  refine ⟨cfg, hload, (noClash_iff rfl hload rfl rfl ?_).mpr (Or.inl (by decide))⟩
  rw [of_decide_eq_true htest]
  decide +kernel

/-- A file that writes the subnet with another address than its first one. -/
def shiftedFile : List Char :=
  ['\n'].intercalate
    ["[host_firewall]".toList, "backend = \"ip6tables\"".toList, "[vm_network]".toList,
      "subnet = \"fd7a:115c:a1e0::2/64\"".toList]

/-- The DNS server gets the address of the first guest. -/
theorem listenIP_is_first_guest : ∃ cfg,
    load listedLib.toConfigLib shiftedFile = .ok cfg ∧
      cfg.settings.text .listenIP = listedLib.ipString (0xfd7a115ca1e0 * 2 ^ 80 + 3) ∧
      listedLib.ipString (0xfd7a115ca1e0 * 2 ^ 80 + 3) = "fd7a:115c:a1e0::3" ∧
      nextPrivateIP { ip := 0xfd7a115ca1e0 * 2 ^ 80 + 2, bits := 64 } [] =
        .ok (0xfd7a115ca1e0 * 2 ^ 80 + 3) ∧
      ¬ NoClash listedLib { ip := 0xfd7a115ca1e0 * 2 ^ 80 + 2, bits := 64 } cfg := by
  obtain ⟨cfg, hload, htest⟩ := exists_of_succeedsWith
    (p := fun cfg : Config => decide (cfg.settings.text .listenIP =
      listedLib.ipString (0xfd7a115ca1e0 * 2 ^ 80 + 3)))
    (x := load listedLib.toConfigLib shiftedFile) (by decide +kernel)
  have hlisten := of_decide_eq_true htest
  have hnext : nextPrivateIP { ip := 0xfd7a115ca1e0 * 2 ^ 80 + 2, bits := 64 } [] =
      .ok (0xfd7a115ca1e0 * 2 ^ 80 + 3) := by decide
  exact ⟨cfg, hload, hlisten, by decide, hnext, fun h => (h [] _ hnext).1 hlisten⟩

end Firedoze.ConfigFile
