import Mathlib.Algebra.Ring.Int.Defs
import Mathlib.Algebra.Ring.Nat

/-!
# Addresses and networks of Go's `net`

An address is the number that its sixteen bytes spell.  An IPv4 address has
the sixteen bytes of `::ffff:a.b.c.d`, and `To4` is the test for this form.  A
network of IPv4 has 96 more bits in its prefix than its text says.

`IPNet.Contains` shortens an address of IPv4 to four bytes before it compares
the lengths.  So a network of IPv6 contains no address `::ffff:a.b.c.d`, also
when the prefix agrees.  `contains_iff` says so, and `reach` is the number of
addresses from the start of a network on before the first one of this form.
-/

namespace Net

/-! ## Addresses -/

/-- `IP.To4`. -/
def to4 (ip : Nat) : Option Nat :=
  if ip / 2 ^ 32 = 0xffff then some (ip % 2 ^ 32) else none

/-- `net.IPv4`. -/
def ipv4 (v : Nat) : Nat := 0xffff * 2 ^ 32 + v

theorem to4_eq_none_iff {ip : Nat} :
    to4 ip = none ↔ ip < 0xffff * 2 ^ 32 ∨ 0x10000 * 2 ^ 32 ≤ ip := by
  unfold to4
  split_ifs with h
  · simp only [false_iff]
    omega
  · simp only [true_iff]
    omega

theorem to4_eq_some_iff {ip v : Nat} : to4 ip = some v ↔ v < 2 ^ 32 ∧ ip = ipv4 v := by
  unfold to4 ipv4
  split_ifs with h
  · simp only [Option.some.injEq]
    omega
  · simp only [false_iff]
    omega

/-! ## Networks -/

/-- What `net.ParseCIDR` answers: the address as it is written, and the length
of the prefix of all sixteen bytes. -/
structure CIDR where
  ip : Nat
  bits : Nat
  ip_lt : ip < 2 ^ 128 := by decide
  bits_le : bits ≤ 128 := by decide
  deriving DecidableEq, Repr

namespace CIDR

variable (c : CIDR)

/-- The number of addresses. -/
def size : Nat := 2 ^ (128 - c.bits)

/-- The address of the network. -/
def network : Nat := c.ip / c.size * c.size

/-- `IPNet.Contains`. -/
def contains (ip : Nat) : Bool :=
  (to4 ip).isSome == (to4 c.network).isSome && decide (ip / c.size = c.network / c.size)

/-- The number of addresses before the first one of IPv4. -/
def reach : Nat :=
  if c.network < 0xffff * 2 ^ 32 then min c.size (0xffff * 2 ^ 32 - c.network) else c.size

variable {c} {ip : Nat}

theorem size_pos : 0 < c.size := Nat.two_pow_pos _

theorem network_div : c.network / c.size = c.ip / c.size := Nat.mul_div_cancel _ size_pos

theorem size_dvd_network : c.size ∣ c.network := Nat.dvd_mul_left _ _

/-- The written address is in its network. -/
theorem network_le : c.network ≤ c.ip := Nat.div_mul_le_self _ _

theorem lt_network_add : c.ip < c.network + c.size := by
  have hmod := Nat.mod_lt c.ip (size_pos (c := c))
  have hdiv := Nat.div_add_mod' c.ip c.size
  unfold network
  omega

theorem div_eq_iff : ip / c.size = c.network / c.size ↔
    c.network ≤ ip ∧ ip < c.network + c.size := by
  rw [network_div, Nat.div_eq_iff size_pos]
  have hnet : c.ip / c.size * c.size = c.network := rfl
  have hpos := size_pos (c := c)
  rw [hnet]
  omega

theorem network_add_size_le : c.network + c.size ≤ 2 ^ 128 := by
  have hdvd : c.size ∣ 2 ^ 128 := Nat.pow_dvd_pow 2 (Nat.sub_le _ _)
  obtain ⟨k, hk⟩ := size_dvd_network (c := c)
  obtain ⟨n, hn⟩ := hdvd
  have hlt : c.size * k < c.size * n := by
    rw [← hk, ← hn]
    exact Nat.lt_of_le_of_lt network_le c.ip_lt
  have hle : k + 1 ≤ n := Nat.lt_of_mul_lt_mul_left hlt
  calc c.network + c.size = c.size * (k + 1) := by rw [hk, Nat.mul_succ]
    _ ≤ c.size * n := Nat.mul_le_mul_left _ hle
    _ = 2 ^ 128 := hn.symm

/-- Clearing the host bits makes no address of IPv4. -/
theorem to4_network (h : to4 c.ip = none) : to4 c.network = none := by
  rw [to4_eq_none_iff] at h ⊢
  have hle := network_le (c := c)
  have hlt := lt_network_add (c := c)
  rcases h with h | h
  · exact Or.inl (Nat.lt_of_le_of_lt hle h)
  · by_cases hbits : c.bits < 96
    · -- The size is a multiple of `2 ^ 33`, and so is the network.
      obtain ⟨k, hk⟩ : 2 ^ 33 ∣ c.network :=
        Nat.dvd_trans (Nat.pow_dvd_pow 2 (by omega : 33 ≤ 128 - c.bits)) size_dvd_network
      omega
    · -- The size divides the first address after those of IPv4.
      obtain ⟨k, hk⟩ : c.size ∣ 0x10000 * 2 ^ 32 :=
        Nat.dvd_trans (Nat.pow_dvd_pow 2 (by omega : 128 - c.bits ≤ 32)) (Nat.dvd_mul_left _ _)
      right
      have hdiv : k ≤ c.ip / c.size :=
        (Nat.le_div_iff_mul_le size_pos).mpr (by rw [Nat.mul_comm, ← hk]; exact h)
      calc 0x10000 * 2 ^ 32 = c.size * k := hk
        _ ≤ c.size * (c.ip / c.size) := Nat.mul_le_mul_left _ hdiv
        _ = c.network := Nat.mul_comm _ _

/-- A network with more than one address begins at an even one and has an even
number of them. -/
theorem even_of_bits_lt (h : c.bits < 128) : c.size % 2 = 0 ∧ c.network % 2 = 0 := by
  have hsize : 2 ^ 1 ∣ c.size := Nat.pow_dvd_pow 2 (by omega)
  exact ⟨Nat.mod_eq_zero_of_dvd hsize,
    Nat.mod_eq_zero_of_dvd (Nat.dvd_trans hsize size_dvd_network)⟩

theorem size_eq_one (h : ¬ c.bits < 128) : c.size = 1 := by
  have hbits : 128 - c.bits = 0 := by omega
  rw [size, hbits, Nat.pow_zero]

/-! ## What a network of IPv6 contains -/

theorem contains_iff (h : to4 c.network = none) : c.contains ip = true ↔
    to4 ip = none ∧ c.network ≤ ip ∧ ip < c.network + c.size := by
  simp only [contains, h, Option.isSome_none, beq_false, Bool.and_eq_true, Bool.not_eq_true',
    Option.isSome_eq_false_iff, Option.isNone_iff_eq_none, decide_eq_true_eq, div_eq_iff]

/-! ## What a network of IPv4 contains -/

theorem contains_ipv4_iff {v : Nat} (hv : v < 2 ^ 32) : c.contains (ipv4 v) = true ↔
    (to4 c.network).isSome = true ∧ c.network ≤ ipv4 v ∧ ipv4 v < c.network + c.size := by
  have hto4 : to4 (ipv4 v) = some v := to4_eq_some_iff.mpr ⟨hv, rfl⟩
  simp only [contains, hto4, Option.isSome_some, Bool.and_eq_true, beq_iff_eq, decide_eq_true_eq,
    div_eq_iff, eq_comm (a := true)]

/-! ## The first address of IPv4 in a network of IPv6 -/

/-- The addresses end before the first one of IPv4, or that one is in the
network. -/
theorem reach_cases (h : to4 c.network = none) :
    c.reach = c.size ∧
        (c.network + c.size ≤ 0xffff * 2 ^ 32 ∨ 0x10000 * 2 ^ 32 ≤ c.network) ∨
      c.network + c.reach = 0xffff * 2 ^ 32 ∧ c.reach < c.size := by
  rw [to4_eq_none_iff] at h
  unfold reach
  split_ifs with hlt <;> omega

theorem reach_le_size : c.reach ≤ c.size := by
  unfold reach
  split_ifs <;> omega

theorem contains_of_lt_reach (h : to4 c.network = none) {d : Nat} (hd : d < c.reach) :
    c.contains (c.network + d) = true := by
  have hcases := reach_cases h
  rw [contains_iff h, to4_eq_none_iff]
  rw [to4_eq_none_iff] at h
  omega

theorem reach_pos (h : to4 c.network = none) : 0 < c.reach := by
  have hcases := reach_cases h
  have hpos := size_pos (c := c)
  rw [to4_eq_none_iff] at h
  omega

/-- The next addresses after the reach are not contained. -/
theorem not_contains_reach (h : to4 c.network = none) {d : Nat} (hd : c.reach ≤ d)
    (hd' : d < c.reach + 3) : c.contains (c.network + d) = false := by
  have hcases := reach_cases h
  rw [Bool.eq_false_iff, ne_eq, contains_iff h, to4_eq_none_iff]
  omega

/-- The reach is even, or the network has a single address. -/
theorem even_reach (h : to4 c.network = none) : c.reach % 2 = 0 ∨ c.reach = 1 := by
  have hcases := reach_cases h
  by_cases hbits : c.bits < 128
  · have heven := even_of_bits_lt hbits
    omega
  · have hone := size_eq_one hbits
    rw [to4_eq_none_iff] at h
    omega

end CIDR

end Net
