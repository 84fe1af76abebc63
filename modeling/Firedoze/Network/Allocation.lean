import Firedoze.Model.Network
import Mathlib.Data.List.Nodup
import Mathlib.Data.List.Perm.Subperm
import Mathlib.Data.Nat.Find

/-!
# The search for a free address

`nextPrivateIP` tries the odd offsets from 3 on.  It tries them in 64 bits, and
asks `IPNet.Contains` whether the address is in the subnet, so it never comes
past the offset `2 ^ 63` or past an address of IPv4 inside the subnet.
`searchable` is the first offset that is out of its sight.

* `findFreeIP_round` and `findFreeIP_stop` are the two kinds of rounds.
* `findFreeIP_complete` and `findFreeIP_exhausted` are the loop: it answers the
  first free address in its sight.
* `nextPrivateIP_eq_ok_iff` puts them together, and `exists_nextPrivateIP_iff`
  says which addresses are answered for some VMs.
* `findsNext_iff` is the result.
-/

namespace Firedoze

open Net

/-- The offsets that the search tries. -/
def GuestOffset (d : Nat) : Prop := d % 2 = 1 ∧ 3 ≤ d

instance (d : Nat) : Decidable (GuestOffset d) := inferInstanceAs (Decidable (_ ∧ _))

/-- The first offset that is out of sight of the search. -/
def searchable (subnet : CIDR) : Nat := min subnet.reach (2 ^ 63)

theorem searchable_pos {subnet : CIDR} (h : to4 subnet.network = none) : 0 < searchable subnet := by
  have hreach := CIDR.reach_pos h
  unfold searchable
  omega

theorem even_searchable {subnet : CIDR} (h : to4 subnet.network = none) :
    searchable subnet % 2 = 0 ∨ searchable subnet = 1 := by
  have hreach := CIDR.even_reach h
  unfold searchable
  omega

/-! ## Rounds -/

section Search

variable {subnet : CIDR} {used : List Nat} {fuel d : Nat}

theorem addToIP_of_lt {ip : Nat} (h : ip + d < 2 ^ 128) : addToIP ip d = .ok (ip + d) := by
  unfold addToIP
  rw [if_neg (by omega), if_neg (by omega)]
  rfl

/-- A round in sight. -/
theorem findFreeIP_round (h : to4 subnet.network = none) (hd : d < searchable subnet) :
    findFreeIP subnet used (fuel + 1) (int64 d) =
      if subnet.network + d ∈ used then findFreeIP subnet used fuel (int64 ((d + 2 : Nat) : Int))
      else .ok (subnet.network + d) := by
  have hreach : d < subnet.reach := by
    unfold searchable at hd
    omega
  have hsize := CIDR.reach_le_size (c := subnet)
  have hend := CIDR.network_add_size_le (c := subnet)
  have hsmall : int64 (d : Int) = d := int64_of_lt (by omega) (by unfold searchable at hd; omega)
  rw [findFreeIP, hsmall, addToIP_of_lt (by omega)]
  simp only [CIDR.contains_of_lt_reach h hreach, Bool.true_eq_false, if_false]
  rfl

/-- The round at the end of the sight. -/
theorem findFreeIP_stop (used : List Nat) (fuel : Nat) (h : to4 subnet.network = none)
    (hd : searchable subnet ≤ d) (hd' : d < searchable subnet + 3) :
    ∃ e, findFreeIP subnet used (fuel + 1) (int64 d) = .error e ∧ e ≠ outOfRounds := by
  have hcontains : ∀ ip, addToIP subnet.network (int64 d) = .ok ip →
      subnet.contains ip = false := by
    intro ip hip
    unfold addToIP at hip
    split_ifs at hip with hneg hlarge
    obtain rfl := Except.ok.inj hip
    by_cases hbig : 2 ^ 63 ≤ d
    · -- The offset has wrapped around, and the address is before the subnet.
      have hwrap : int64 (d : Int) = d - 2 ^ 64 := by
        unfold searchable at hd'
        exact int64_of_ge (by omega) (by omega)
      rw [Bool.eq_false_iff, ne_eq, CIDR.contains_iff h, hwrap]
      unfold searchable at hd'
      omega
    · have hsmall : int64 (d : Int) = d := int64_of_lt (by omega) (by omega)
      rw [hsmall]
      refine CIDR.not_contains_reach h (d := d) ?_ ?_
      · unfold searchable at hd
        omega
      · unfold searchable at hd'
        omega
  rw [findFreeIP]
  cases hip : addToIP subnet.network (int64 d) with
  | error e =>
    refine ⟨e, rfl, ?_⟩
    unfold addToIP at hip
    split_ifs at hip <;> cases hip <;> decide
  | ok ip =>
    simp only [hcontains ip hip, if_true]
    exact ⟨_, rfl, by decide⟩

/-! ## The loop -/

/-- The search finds the first free address in sight. -/
theorem findFreeIP_complete {d' : Nat} (h : to4 subnet.network = none) (hodd : d % 2 = 1)
    (hodd' : d' % 2 = 1) (hle : d ≤ d') (hlt : d' < searchable subnet)
    (hfree : subnet.network + d' ∉ used)
    (hused : ∀ e, e % 2 = 1 → d ≤ e → e < d' → subnet.network + e ∈ used)
    (hfuel : d' < d + 2 * fuel) :
    findFreeIP subnet used fuel (int64 d) = .ok (subnet.network + d') := by
  induction fuel generalizing d with
  | zero => omega
  | succ fuel ih =>
    rw [findFreeIP_round h (by omega)]
    by_cases heq : d = d'
    · subst heq
      rw [if_neg hfree]
    · rw [if_pos (hused d hodd le_rfl (by omega))]
      exact ih (by omega) (by omega) (fun e he hde => hused e he (by omega)) (by omega)

/-- The search fails when every address in sight is in use. -/
theorem findFreeIP_exhausted (h : to4 subnet.network = none) (hodd : d % 2 = 1)
    (hd : d < searchable subnet + 3)
    (hused : ∀ e, e % 2 = 1 → d ≤ e → e < searchable subnet → subnet.network + e ∈ used)
    (hfuel : searchable subnet + 2 < d + 2 * fuel) :
    ∃ e, findFreeIP subnet used fuel (int64 d) = .error e ∧ e ≠ outOfRounds := by
  induction fuel generalizing d with
  | zero => omega
  | succ fuel ih =>
    by_cases hsight : d < searchable subnet
    · rw [findFreeIP_round h hsight, if_pos (hused d hodd le_rfl hsight)]
      exact ih (by omega) (by omega) (fun e he hde => hused e he (by omega)) (by omega)
    · exact findFreeIP_stop used fuel h (by omega) hd

/-- There are no more consecutive pairs in use than there are addresses in
use. -/
theorem length_of_used {k : Nat} (base : Nat) (hused : ∀ i < k, base + (3 + 2 * i) ∈ used) :
    k ≤ used.length := by
  have hnodup : ((List.range k).map fun i => base + (3 + 2 * i)).Nodup :=
    List.nodup_range.map fun i j hij => by simpa using hij
  have hsub : ((List.range k).map fun i => base + (3 + 2 * i)) ⊆ used := by
    intro ip hip
    obtain ⟨i, hi, rfl⟩ := List.mem_map.mp hip
    exact hused i (List.mem_range.mp hi)
  simpa using (List.subperm_of_subset hnodup hsub).length_le

/-- With a round for every address in use and one more, the search answers the
first free address in sight, or it fails because there is none. -/
theorem findFreeIP_cases (h : to4 subnet.network = none) (hfuel : used.length < fuel) :
    (∃ d, GuestOffset d ∧ d < searchable subnet ∧ subnet.network + d ∉ used ∧
        (∀ e, GuestOffset e → e < d → subnet.network + e ∈ used) ∧
        findFreeIP subnet used fuel 3 = .ok (subnet.network + d)) ∨
      (∀ e, GuestOffset e → e < searchable subnet → subnet.network + e ∈ used) ∧
        ∃ e, findFreeIP subnet used fuel 3 = .error e ∧ e ≠ outOfRounds := by
  have hpos := searchable_pos h
  have hstart : (3 : Int) = int64 ((3 : Nat) : Int) := (int64_of_lt (by decide) (by decide)).symm
  rw [hstart]
  by_cases hex : ∃ d, GuestOffset d ∧ d < searchable subnet ∧ subnet.network + d ∉ used
  · left
    have hmin := fun e => Nat.find_min hex (m := e)
    obtain ⟨hguest, hlt, hfree⟩ := Nat.find_spec hex
    generalize Nat.find hex = d at hmin hguest hlt hfree
    have hused : ∀ e, GuestOffset e → e < d → subnet.network + e ∈ used := by
      intro e he hed
      by_contra hfree'
      exact hmin e hed ⟨he, by omega, hfree'⟩
    refine ⟨d, hguest, hlt, hfree, hused, ?_⟩
    have hlen : (d - 3) / 2 ≤ used.length :=
      length_of_used subnet.network fun i hi =>
        hused (3 + 2 * i) ⟨by omega, by omega⟩ (by have := hguest.1; omega)
    exact findFreeIP_complete h (by decide) hguest.1 hguest.2 hlt hfree
      (fun e he hde => hused e ⟨he, hde⟩) (by have := hguest.1; omega)
  · right
    have hused : ∀ e, GuestOffset e → e < searchable subnet → subnet.network + e ∈ used := by
      intro e he hlt
      by_contra hfree
      exact hex ⟨e, he, hlt, hfree⟩
    refine ⟨hused, ?_⟩
    have hlen : (searchable subnet - 2) / 2 ≤ used.length :=
      length_of_used subnet.network fun i hi =>
        hused (3 + 2 * i) ⟨by omega, by omega⟩ (by omega)
    have heven := even_searchable h
    exact findFreeIP_exhausted h (by decide) (by omega) (fun e he hde => hused e ⟨he, hde⟩)
      (by omega)

end Search

/-! ## The next address -/

section Next

variable {subnet : CIDR} {vms : List VM} {ip : Nat}

/-- `nextPrivateIP` answers the first free address in its sight. -/
theorem nextPrivateIP_eq_ok_iff : nextPrivateIP subnet vms = .ok ip ↔
    to4 subnet.network = none ∧ ∃ d, GuestOffset d ∧ d < searchable subnet ∧
      ip = subnet.network + d ∧ ip ∉ usedIPs vms ∧
      ∀ e, GuestOffset e → e < d → subnet.network + e ∈ usedIPs vms := by
  rw [nextPrivateIP_eq_ok]
  refine and_congr_right fun h => ?_
  rcases findFreeIP_cases h (Nat.lt_succ_self (usedIPs vms).length) with
    ⟨d, hguest, hlt, hfree, hused, hok⟩ | ⟨hused, e, herr, -⟩
  · rw [hok]
    constructor
    · intro hip
      cases hip
      exact ⟨d, hguest, hlt, rfl, hfree, hused⟩
    · rintro ⟨d', hguest', hlt', rfl, hfree', hused'⟩
      rcases Nat.lt_trichotomy d d' with hdd | rfl | hdd
      · exact absurd (hused' d hguest hdd) hfree
      · rfl
      · exact absurd (hused d' hguest' hdd) hfree'
  · rw [herr]
    constructor
    · intro hip
      cases hip
    · rintro ⟨d, hguest, hlt, rfl, hfree, -⟩
      exact absurd (hused d hguest hlt) hfree

/-- The guest has the odd address of its pair. -/
theorem nextPrivateIP_odd (h : nextPrivateIP subnet vms = .ok ip) : ip % 2 = 1 := by
  obtain ⟨-, d, hguest, hlt, rfl, -⟩ := nextPrivateIP_eq_ok_iff.mp h
  have hodd := hguest.1
  have hge := hguest.2
  have hsize := CIDR.reach_le_size (c := subnet)
  unfold searchable at hlt
  by_cases hbits : subnet.bits < 128
  · have heven := CIDR.even_of_bits_lt hbits
    omega
  · -- A subnet with a single address has no room for the third one.
    have hone := CIDR.size_eq_one hbits
    omega

/-- VMs that have the first addresses of a subnet. -/
def firstGuests (subnet : CIDR) (k : Nat) : List VM :=
  (List.range k).map fun i =>
    { VMRow.sample "a" 0 with privateIP := some (subnet.network + (3 + 2 * i)), uuid := i }

theorem mem_usedIPs_firstGuests {k : Nat} :
    ip ∈ usedIPs (firstGuests subnet k) ↔ ∃ i < k, subnet.network + (3 + 2 * i) = ip := by
  simp [usedIPs, firstGuests]

theorem mem_usedIPs_of_guest {k e : Nat} (he : GuestOffset e) :
    subnet.network + e ∈ usedIPs (firstGuests subnet k) ↔ e < 3 + 2 * k := by
  have hodd := he.1
  have hge := he.2
  rw [mem_usedIPs_firstGuests]
  constructor
  · rintro ⟨i, hi, heq⟩
    omega
  · intro hlt
    exact ⟨(e - 3) / 2, by omega, by omega⟩

/-- The addresses that are answered for some VMs. -/
theorem exists_nextPrivateIP_iff (h : to4 subnet.network = none) :
    (∃ vms, nextPrivateIP subnet vms = .ok ip) ↔
      ∃ d, GuestOffset d ∧ d < searchable subnet ∧ ip = subnet.network + d := by
  constructor
  · rintro ⟨vms, hip⟩
    obtain ⟨-, d, hguest, hlt, hd, -⟩ := nextPrivateIP_eq_ok_iff.mp hip
    exact ⟨d, hguest, hlt, hd⟩
  · rintro ⟨d, hguest, hlt, rfl⟩
    have hodd := hguest.1
    have hge := hguest.2
    refine ⟨firstGuests subnet ((d - 3) / 2), nextPrivateIP_eq_ok_iff.mpr
      ⟨h, d, hguest, hlt, rfl, ?_, fun e he hed => ?_⟩⟩
    · rw [mem_usedIPs_of_guest hguest]
      omega
    · have hodd' := he.1
      rw [mem_usedIPs_of_guest he]
      omega

end Next

/-! ## What the search is for -/

/-- The offset of a guest in a subnet that no VM has. -/
def FreeOffset (subnet : CIDR) (vms : List VM) (d : Nat) : Prop :=
  GuestOffset d ∧ d < subnet.size ∧ subnet.network + d ∉ usedIPs vms

/-- The address of the host side and the one of the guest. -/
def addressPair (guest : Nat) : List Nat := [guest - 1, guest]

/-- The search ends.  It answers an address if there is a free one, and then
the first one, with a pair inside of the subnet that is disjoint from the pairs
of the VMs and from the first two addresses. -/
structure FindsNext (subnet : CIDR) (vms : List VM) : Prop where
  terminates : ∀ fuel, (usedIPs vms).length < fuel →
    findFreeIP subnet (usedIPs vms) fuel 3 ≠ .error outOfRounds
  answers_iff : (∃ ip, nextPrivateIP subnet vms = .ok ip) ↔ ∃ d, FreeOffset subnet vms d
  least : ∀ ip, nextPrivateIP subnet vms = .ok ip →
    ∃ d, ip = subnet.network + d ∧ FreeOffset subnet vms d ∧ ∀ e < d, ¬ FreeOffset subnet vms e
  inside : ∀ ip, nextPrivateIP subnet vms = .ok ip → ∀ a ∈ addressPair ip,
    subnet.network + 2 ≤ a ∧ a < subnet.network + subnet.size
  apart : ∀ ip, nextPrivateIP subnet vms = .ok ip → ∀ vm ∈ vms, ∀ other,
    vm.privateIP = some other → (addressPair ip).Disjoint (addressPair other)

/-- The address of a VM was allocated in a subnet. -/
def AllocatedIn (subnet : CIDR) (vm : VM) : Prop :=
  ∃ vms ip, nextPrivateIP subnet vms = .ok ip ∧ vm.privateIP = some ip

section Result

variable {subnet : CIDR} {vms : List VM} {ip : Nat}

theorem searchable_le_size (subnet : CIDR) : searchable subnet ≤ subnet.size :=
  Nat.le_trans (Nat.min_le_left _ _) CIDR.reach_le_size

/-- The pair of an address that is answered lies inside of the subnet. -/
theorem nextPrivateIP_inside (h : nextPrivateIP subnet vms = .ok ip) :
    ∀ a ∈ addressPair ip, subnet.network + 2 ≤ a ∧ a < subnet.network + subnet.size := by
  obtain ⟨-, d, hguest, hlt, rfl, -⟩ := nextPrivateIP_eq_ok_iff.mp h
  have hge := hguest.2
  have hsize := searchable_le_size subnet
  intro a ha
  simp only [addressPair, List.mem_cons, List.not_mem_nil, or_false] at ha
  omega

/-- Two allocated addresses that differ have disjoint pairs. -/
theorem disjoint_addressPair {ip' : Nat} {vms' : List VM} (h : nextPrivateIP subnet vms = .ok ip)
    (h' : nextPrivateIP subnet vms' = .ok ip') (hne : ip ≠ ip') :
    (addressPair ip).Disjoint (addressPair ip') := by
  have hodd := nextPrivateIP_odd h
  have hodd' := nextPrivateIP_odd h'
  intro a ha ha'
  simp only [addressPair, List.mem_cons, List.not_mem_nil, or_false] at ha ha'
  omega

/-- The search does what it is for, unless every address in its sight is in use
and there is a free one out of its sight. -/
theorem findsNext_iff (hsubnet : to4 subnet.ip = none) (hvms : ∀ vm ∈ vms, AllocatedIn subnet vm) :
    FindsNext subnet vms ↔
      (∃ d, FreeOffset subnet vms d ∧ d < searchable subnet) ∨ ∀ d, ¬ FreeOffset subnet vms d := by
  have h6 := CIDR.to4_network hsubnet
  have hsize := searchable_le_size subnet
  constructor
  · intro h
    by_cases hex : ∃ d, FreeOffset subnet vms d
    · left
      obtain ⟨ip, hip⟩ := h.answers_iff.mpr hex
      obtain ⟨-, d, hguest, hlt, rfl, hfree, -⟩ := nextPrivateIP_eq_ok_iff.mp hip
      exact ⟨d, ⟨hguest, by omega, hfree⟩, hlt⟩
    · exact Or.inr fun d hd => hex ⟨d, hd⟩
  · intro hcond
    refine ⟨fun fuel hfuel => ?_, ⟨?_, ?_⟩, ?_, fun ip => nextPrivateIP_inside, ?_⟩
    · rcases findFreeIP_cases h6 hfuel with ⟨d, -, -, -, -, hok⟩ | ⟨-, e, herr, hne⟩
      · rw [hok]
        exact fun heq => by cases heq
      · rw [herr]
        exact fun heq => hne (Except.error.inj heq)
    · rintro ⟨ip, hip⟩
      obtain ⟨-, d, hguest, hlt, rfl, hfree, -⟩ := nextPrivateIP_eq_ok_iff.mp hip
      exact ⟨d, hguest, by omega, hfree⟩
    · rintro ⟨d, hd⟩
      obtain ⟨d', ⟨hguest, -, hfree⟩, hlt⟩ := hcond.resolve_right fun hnone => hnone d hd
      rcases findFreeIP_cases h6 (Nat.lt_succ_self (usedIPs vms).length) with
        ⟨e, -, -, -, -, hok⟩ | ⟨hused, -⟩
      · exact ⟨_, nextPrivateIP_eq_ok.mpr ⟨h6, hok⟩⟩
      · exact absurd (hused d' hguest hlt) hfree
    · intro ip hip
      obtain ⟨-, d, hguest, hlt, rfl, hfree, hused⟩ := nextPrivateIP_eq_ok_iff.mp hip
      exact ⟨d, rfl, ⟨hguest, by omega, hfree⟩, fun e hed he => he.2.2 (hused e he.1 hed)⟩
    · intro ip hip vm hvm other hother
      obtain ⟨vms', ip', hip', hvm'⟩ := hvms vm hvm
      obtain rfl := Option.some.inj (hother.symm.trans hvm')
      exact disjoint_addressPair hip hip' fun heq => nextPrivateIP_fresh hip hvm (heq ▸ hother)

end Result

/-- The VMs that have the first addresses were allocated, as long as these
addresses are in sight. -/
theorem allocatedIn_firstGuests {subnet : CIDR} {k : Nat} (h : to4 subnet.network = none)
    (hk : 1 + 2 * k < searchable subnet) : ∀ vm ∈ firstGuests subnet k, AllocatedIn subnet vm := by
  intro vm hvm
  obtain ⟨i, hi, rfl⟩ := List.mem_map.mp hvm
  rw [List.mem_range] at hi
  obtain ⟨vms, hvms⟩ := (exists_nextPrivateIP_iff h).mpr
    ⟨3 + 2 * i, ⟨by omega, by omega⟩, by omega, rfl⟩
  exact ⟨vms, _, hvms, rfl⟩

/-- The subnet `fd7a::/64`. -/
def smallSubnet : CIDR :=
  { ip := 0xfd7a * 2 ^ 112
    bits := 64
    ip_lt := Config.sample.subnet.ip_lt
    bits_le := Config.sample.subnet.bits_le }

theorem findsNext_iff_first : FindsNext smallSubnet (firstGuests smallSubnet 2) :=
  (findsNext_iff (by decide) (allocatedIn_firstGuests (by decide) (by decide))).mpr
    (Or.inl ⟨7, ⟨by decide, by decide, fun h => by
      have hlt := (mem_usedIPs_of_guest (by decide)).mp h
      omega⟩, by decide⟩)

/-- The subnet `::fffe:0:0/95`.  Its second half are the addresses of IPv4. -/
def halfIPv4 : CIDR := { ip := 0xfffe * 2 ^ 32, bits := 95 }

/-- When the first half of that subnet is in use, the search fails, although
the second half is free. -/
theorem nextPrivateIP_stops_early :
    (∀ vm ∈ firstGuests halfIPv4 (2 ^ 31 - 1), AllocatedIn halfIPv4 vm) ∧
      (∃ e, nextPrivateIP halfIPv4 (firstGuests halfIPv4 (2 ^ 31 - 1)) = .error e) ∧
      FreeOffset halfIPv4 (firstGuests halfIPv4 (2 ^ 31 - 1)) (2 ^ 32 + 1) ∧
      ¬ FindsNext halfIPv4 (firstGuests halfIPv4 (2 ^ 31 - 1)) := by
  have hsight : searchable halfIPv4 = 2 ^ 32 := by decide
  have h6 : to4 halfIPv4.network = none := by decide
  have hused : ∀ e, GuestOffset e → e < searchable halfIPv4 →
      halfIPv4.network + e ∈ usedIPs (firstGuests halfIPv4 (2 ^ 31 - 1)) := by
    intro e he hlt
    have hodd := he.1
    rw [mem_usedIPs_of_guest he]
    omega
  have hfree : FreeOffset halfIPv4 (firstGuests halfIPv4 (2 ^ 31 - 1)) (2 ^ 32 + 1) := by
    refine ⟨by decide, by decide, fun h => ?_⟩
    have hlt := (mem_usedIPs_of_guest (by decide)).mp h
    omega
  have halloc := allocatedIn_firstGuests (k := 2 ^ 31 - 1) h6 (by rw [hsight]; decide)
  refine ⟨halloc, ?_, hfree, fun hfinds => ?_⟩
  · cases hip : nextPrivateIP halfIPv4 (firstGuests halfIPv4 (2 ^ 31 - 1)) with
    | error e => exact ⟨e, rfl⟩
    | ok ip =>
      obtain ⟨-, d, hguest, hlt, rfl, hnot, -⟩ := nextPrivateIP_eq_ok_iff.mp hip
      exact absurd (hused d hguest hlt) hnot
  · obtain ⟨ip, hip⟩ := hfinds.answers_iff.mpr ⟨_, hfree⟩
    obtain ⟨-, d, hguest, hlt, rfl, hnot, -⟩ := nextPrivateIP_eq_ok_iff.mp hip
    exact hnot (hused d hguest hlt)

end Firedoze
