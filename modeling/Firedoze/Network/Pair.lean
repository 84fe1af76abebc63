import Firedoze.Network.Allocation

/-!
# The IPv4 pair of a guest

`privateIPv4Pair` adds the offset of the guest in the IPv6 subnet to the IPv4
address *as it is written* in `ipv4_subnet`, host bits included.  The offset is
odd, so the host side is even only if the written address is even.

* `addToIPv4_eq` is the sum without its 64 bits.
* `privateIPv4Pair_eq_ok_iff` says when a guest gets a pair, and which one.
* `pairsUp_iff` is the result.
-/

namespace Firedoze

open Net

/-! ## Sums -/

section Sums

variable {ip base d : Nat}

/-- A sum that wraps around is refused like one that is too large. -/
theorem addToIPv4_eq (h : to4 ip = some base) (hd : d < 2 ^ 63) :
    addToIPv4 ip d =
      if base + d < 2 ^ 32 then .ok (ipv4 (base + d)) else .error (.msg "IPv4 overflow") := by
  have hbase := (to4_eq_some_iff.mp h).1
  simp only [addToIPv4, h]
  by_cases hsum : base + d < 2 ^ 32
  · have hsmall : int64 ((base : Int) + d) = base + d := int64_of_lt (by omega) (by omega)
    rw [if_pos hsum, hsmall, if_neg (by omega)]
    rfl
  · rw [if_neg hsum]
    by_cases hbig : base + d < 2 ^ 63
    · have hsmall : int64 ((base : Int) + d) = base + d := int64_of_lt (by omega) (by omega)
      rw [hsmall, if_pos (by omega)]
    · have hwrap : int64 ((base : Int) + d) = base + d - 2 ^ 64 :=
        int64_of_ge (by omega) (by omega)
      rw [hwrap, if_pos (by omega)]

end Sums

/-! ## Pairs -/

section Pairs

variable {cfg : Config} {base guest d : Nat}

/-- What `Validate` checks of `vm_network`. -/
theorem validateVMNetwork_eq_ok : cfg.validateVMNetwork = .ok () ↔
    to4 cfg.subnet.ip = none ∧ ∃ base, to4 cfg.ipv4Subnet.ip = some base := by
  unfold Config.validateVMNetwork
  cases to4 cfg.subnet.ip <;> cases to4 cfg.ipv4Subnet.ip <;> simp

/-- The guest at an odd offset gets the pair at that offset from the written
address, if the pair lies in the IPv4 subnet. -/
def HasPair (cfg : Config) (base d : Nat) : Prop :=
  d % 2 = 1 ∧ d < 2 ^ 63 ∧ base + d < 2 ^ 32 ∧
    cfg.subnet.contains (cfg.subnet.network + d) = true ∧
    cfg.ipv4Subnet.contains (ipv4 (base + d - 1)) = true ∧
    cfg.ipv4Subnet.contains (ipv4 (base + d)) = true

theorem privateIPv4Pair_of_hasPair (hsubnet : to4 cfg.subnet.network = none)
    (hbase : to4 cfg.ipv4Subnet.ip = some base) (h : HasPair cfg base d) :
    privateIPv4Pair cfg (cfg.subnet.network + d) =
      .ok (ipv4 (base + d - 1), ipv4 (base + d)) := by
  obtain ⟨hodd, hlt, hsum, hin, hhost, hguest⟩ := h
  have h6 := ((CIDR.contains_iff hsubnet).mp hin).1
  have hoffset : ((cfg.subnet.network + d : Nat) : Int) - cfg.subnet.network = (d : Nat) := by
    omega
  have hpred : int64 ((d : Int) - 1) = ((d - 1 : Nat) : Int) := by
    rw [int64_of_lt (by omega) (by omega)]
    omega
  have hbelow : base + (d - 1) = base + d - 1 := by omega
  unfold privateIPv4Pair
  simp only [h6, hsubnet, hin, hbase, hoffset, hpred, Option.isSome_none, Option.isNone_some,
    Bool.false_eq_true, Bool.true_eq_false, if_false]
  rw [if_neg (by omega), if_neg (by omega), addToIPv4_eq hbase hlt, if_pos hsum,
    addToIPv4_eq hbase (by omega), if_pos (by omega)]
  simp only [hbelow, hhost, hguest, Bool.true_eq_false, or_self, if_false]

theorem hasPair_of_privateIPv4Pair {p : Nat × Nat} (hbase : to4 cfg.ipv4Subnet.ip = some base)
    (h : privateIPv4Pair cfg guest = .ok p) :
    to4 cfg.subnet.network = none ∧ ∃ d, guest = cfg.subnet.network + d ∧ HasPair cfg base d := by
  unfold privateIPv4Pair at h
  simp only [hbase, Option.isNone_some, Bool.false_eq_true, if_false] at h
  split at h
  · cases h
  split at h
  · cases h
  split at h
  · cases h
  split at h
  · cases h
  split at h
  · cases h
  rename_i h6 hsubnet hin hodd hlarge
  rw [Bool.not_eq_true, Option.isSome_eq_false_iff, Option.isNone_iff_eq_none] at hsubnet
  rw [Bool.not_eq_false] at hin
  have hle := ((CIDR.contains_iff hsubnet).mp hin).2.1
  obtain ⟨d, rfl⟩ := Nat.exists_eq_add_of_le hle
  have hoffset : ((cfg.subnet.network + d : Nat) : Int) - cfg.subnet.network = (d : Nat) := by
    omega
  rw [hoffset] at hodd hlarge h
  have hlt : d < 2 ^ 63 := by omega
  have hpred : int64 ((d : Int) - 1) = ((d - 1 : Nat) : Int) := by
    rw [int64_of_lt (by omega) (by omega)]
    omega
  have hbelow : base + (d - 1) = base + d - 1 := by omega
  rw [addToIPv4_eq hbase hlt, hpred, addToIPv4_eq hbase (by omega)] at h
  by_cases hsum : base + d < 2 ^ 32
  · rw [if_pos hsum, if_pos (by omega)] at h
    simp only [hbelow] at h
    split at h
    · cases h
    · rename_i hcontains
      rw [not_or, Bool.not_eq_false, Bool.not_eq_false] at hcontains
      exact ⟨hsubnet, d, rfl, by omega, hlt, hsum, hin, hcontains.1, hcontains.2⟩
  · rw [if_neg hsum] at h
    cases h

/-- When a guest gets a pair, and which one. -/
theorem privateIPv4Pair_eq_ok_iff {p : Nat × Nat} (hsubnet : to4 cfg.subnet.network = none)
    (hbase : to4 cfg.ipv4Subnet.ip = some base) :
    privateIPv4Pair cfg guest = .ok p ↔ ∃ d, guest = cfg.subnet.network + d ∧
      HasPair cfg base d ∧ p = (ipv4 (base + d - 1), ipv4 (base + d)) := by
  constructor
  · intro h
    obtain ⟨-, d, rfl, hpair⟩ := hasPair_of_privateIPv4Pair hbase h
    rw [privateIPv4Pair_of_hasPair hsubnet hbase hpair] at h
    exact ⟨d, rfl, hpair, (Except.ok.inj h).symm⟩
  · rintro ⟨d, rfl, hpair, rfl⟩
    exact privateIPv4Pair_of_hasPair hsubnet hbase hpair

/-- If any guest gets a pair, the first one does. -/
theorem contains_of_hasPair (hbase : to4 cfg.ipv4Subnet.ip = some base) (h : HasPair cfg base d) :
    cfg.ipv4Subnet.contains cfg.ipv4Subnet.ip = true ∧
      cfg.ipv4Subnet.contains (cfg.ipv4Subnet.ip + 1) = true := by
  obtain ⟨hodd, -, hsum, -, -, hguest⟩ := h
  obtain ⟨hlt, hip⟩ := to4_eq_some_iff.mp hbase
  obtain ⟨hnet, -, hend⟩ := (CIDR.contains_ipv4_iff hsum).mp hguest
  have hle := CIDR.network_le (c := cfg.ipv4Subnet)
  have hsucc : cfg.ipv4Subnet.ip + 1 = ipv4 (base + 1) := by
    rw [hip]
    rfl
  rw [hsucc, CIDR.contains_ipv4_iff (by omega)]
  rw [hip] at hle ⊢
  rw [CIDR.contains_ipv4_iff hlt]
  unfold ipv4 at hle hend ⊢
  exact ⟨⟨hnet, by omega⟩, hnet, by omega⟩

/-- The guest at offset 1 gets a pair, if the written address and the next one
are in the IPv4 subnet. -/
theorem hasPair_one (hsubnet : to4 cfg.subnet.network = none) (hbits : cfg.subnet.bits ≠ 128)
    (hbase : to4 cfg.ipv4Subnet.ip = some base)
    (hip : cfg.ipv4Subnet.contains cfg.ipv4Subnet.ip = true)
    (hnext : cfg.ipv4Subnet.contains (cfg.ipv4Subnet.ip + 1) = true) : HasPair cfg base 1 := by
  obtain ⟨hlt, hbase'⟩ := to4_eq_some_iff.mp hbase
  have hsucc : cfg.ipv4Subnet.ip + 1 = ipv4 (base + 1) := by
    rw [hbase']
    rfl
  have hsum : base + 1 < 2 ^ 32 := by
    rw [hbase', CIDR.contains_ipv4_iff hlt] at hip
    have hto4 : (to4 (ipv4 (base + 1))).isSome = true := by
      rw [hsucc] at hnext
      simp only [CIDR.contains, hip.1, Bool.and_eq_true, beq_iff_eq] at hnext
      exact hnext.1
    obtain ⟨v, hv⟩ := Option.isSome_iff_exists.mp hto4
    obtain ⟨hv', heq⟩ := to4_eq_some_iff.mp hv
    unfold ipv4 at heq
    omega
  have hreach : 1 < cfg.subnet.reach := by
    have hcases := CIDR.reach_cases hsubnet
    have heven := CIDR.even_of_bits_lt (lt_of_le_of_ne cfg.subnet.bits_le hbits)
    have hpos := CIDR.reach_pos hsubnet
    have hsize := CIDR.size_pos (c := cfg.subnet)
    omega
  refine ⟨by decide, by decide, hsum, CIDR.contains_of_lt_reach hsubnet hreach, ?_, hsucc ▸ hnext⟩
  rw [Nat.add_sub_cancel, ← hbase']
  exact hip

end Pairs

/-! ## What the pairs are for -/

/-- The pairs of all guests: they lie in the IPv4 subnet, they are aligned, they
are disjoint, and no sum wraps around. -/
structure PairsUp (cfg : Config) : Prop where
  inside : ∀ guest host4 guest4, privateIPv4Pair cfg guest = .ok (host4, guest4) →
    cfg.ipv4Subnet.contains host4 = true ∧ cfg.ipv4Subnet.contains guest4 = true
  aligned : ∀ guest host4 guest4, privateIPv4Pair cfg guest = .ok (host4, guest4) →
    host4 % 2 = 0 ∧ guest4 = host4 + 1
  apart : ∀ guest guest' host4 guest4 host4' guest4',
    privateIPv4Pair cfg guest = .ok (host4, guest4) →
    privateIPv4Pair cfg guest' = .ok (host4', guest4') → guest ≠ guest' →
    [host4, guest4].Disjoint [host4', guest4']
  noWrap : ∀ guest p base, privateIPv4Pair cfg guest = .ok p →
    to4 cfg.ipv4Subnet.ip = some base →
    int64 (base + ((guest : Int) - cfg.subnet.network)) =
      base + ((guest : Int) - cfg.subnet.network) ∧
    int64 (base + ((guest : Int) - cfg.subnet.network - 1)) =
      base + ((guest : Int) - cfg.subnet.network - 1)

/-- The pairs are as they should be exactly when the written IPv4 address is
even, or no guest gets a pair at all. -/
theorem pairsUp_iff {cfg : Config} (hcfg : cfg.validateVMNetwork = .ok ()) :
    PairsUp cfg ↔ cfg.ipv4Subnet.ip % 2 = 0 ∨ cfg.subnet.bits = 128 ∨
      cfg.ipv4Subnet.contains cfg.ipv4Subnet.ip = false ∨
      cfg.ipv4Subnet.contains (cfg.ipv4Subnet.ip + 1) = false := by
  obtain ⟨hsubnet, base, hbase⟩ := validateVMNetwork_eq_ok.mp hcfg
  have h6 := CIDR.to4_network hsubnet
  obtain ⟨hlt, hip⟩ := to4_eq_some_iff.mp hbase
  constructor
  · intro h
    by_contra hcond
    simp only [not_or, Bool.not_eq_false] at hcond
    obtain ⟨hodd, hbits, hin, hnext⟩ := hcond
    have hpair := privateIPv4Pair_of_hasPair h6 hbase (hasPair_one h6 hbits hbase hin hnext)
    have heven := (h.aligned _ _ _ hpair).1
    rw [Nat.add_sub_cancel, ← hip] at heven
    exact hodd heven
  · intro hcond
    have heven : ∀ d, HasPair cfg base d → base % 2 = 0 := by
      intro d hd
      obtain ⟨hin, hnext⟩ := contains_of_hasPair hbase hd
      have hbits : cfg.subnet.bits ≠ 128 := by
        intro hbits
        have hone := CIDR.size_eq_one (c := cfg.subnet) (by omega)
        have hlt := ((CIDR.contains_iff h6).mp hd.2.2.2.1).2.2
        have hodd := hd.1
        omega
      have hparity : cfg.ipv4Subnet.ip % 2 = 0 := by
        simpa [hin, hnext, hbits] using hcond
      rw [hip] at hparity
      unfold ipv4 at hparity
      omega
    refine ⟨?_, ?_, ?_, ?_⟩
    · intro guest host4 guest4 hp
      obtain ⟨d, rfl, hd, heq⟩ := (privateIPv4Pair_eq_ok_iff h6 hbase).mp hp
      cases heq
      exact hd.2.2.2.2
    · intro guest host4 guest4 hp
      obtain ⟨d, rfl, hd, heq⟩ := (privateIPv4Pair_eq_ok_iff h6 hbase).mp hp
      cases heq
      have hodd := hd.1
      have hbaseEven := heven d hd
      unfold ipv4
      omega
    · intro guest guest' host4 guest4 host4' guest4' hp hp' hne
      obtain ⟨d, rfl, hd, heq⟩ := (privateIPv4Pair_eq_ok_iff h6 hbase).mp hp
      cases heq
      obtain ⟨d', rfl, hd', heq'⟩ := (privateIPv4Pair_eq_ok_iff h6 hbase).mp hp'
      cases heq'
      have hodd := hd.1
      have hodd' := hd'.1
      intro a ha ha'
      simp only [List.mem_cons, List.not_mem_nil, or_false] at ha ha'
      unfold ipv4 at ha ha'
      omega
    · intro guest p base' hp hbase'
      obtain rfl := Option.some.inj (hbase.symm.trans hbase')
      obtain ⟨d, rfl, hd, -⟩ := (privateIPv4Pair_eq_ok_iff h6 hbase).mp hp
      have hsum := hd.2.2.1
      have hodd := hd.1
      exact ⟨int64_of_lt (by omega) (by omega), int64_of_lt (by omega) (by omega)⟩

theorem pairsUp_iff_sample : PairsUp .sample := (pairsUp_iff (by decide)).mpr (Or.inl (by decide))

/-- With `10.88.0.1/16`, the host side of the first guest is odd. -/
theorem pair_unaligned :
    ({ Config.sample with ipv4Subnet := { ip := ipv4 0x0a580001, bits := 112 } } :
        Config).validateVMNetwork = .ok () ∧
      privateIPv4Pair
          { Config.sample with ipv4Subnet := { ip := ipv4 0x0a580001, bits := 112 } }
          (0xfd7a * 2 ^ 112 + 3) = .ok (ipv4 0x0a580003, ipv4 0x0a580004) ∧
      ¬ PairsUp { Config.sample with ipv4Subnet := { ip := ipv4 0x0a580001, bits := 112 } } := by
  refine ⟨by decide, by decide, fun h => ?_⟩
  have hpair : privateIPv4Pair
      { Config.sample with ipv4Subnet := { ip := ipv4 0x0a580001, bits := 112 } }
      (0xfd7a * 2 ^ 112 + 3) = .ok (ipv4 0x0a580003, ipv4 0x0a580004) := by decide
  exact absurd (h.aligned _ _ _ hpair).1 (by decide)

end Firedoze
