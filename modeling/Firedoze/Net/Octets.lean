import Mathlib.Algebra.Ring.Nat

/-!
# The bytes of an address

The bytes of an address, the last one first, and the loop that adds one to
them: it increments the last byte and goes on to the byte before it for as long
as a byte has become zero.  `ofOctets_increment` says that this is the sum
modulo the number of addresses.
-/

namespace Net

/-- The last `k` bytes of an address, the last one first. -/
def octets : Nat → Nat → List UInt8
  | 0, _ => []
  | k + 1, ip => UInt8.ofNat ip :: octets k (ip / 256)

/-- The address with the given bytes, the last one first. -/
def ofOctets : List UInt8 → Nat
  | [] => 0
  | b :: bs => b.toNat + 256 * ofOctets bs

/-- Add one to the bytes, from the last one on. -/
def increment : List UInt8 → List UInt8
  | [] => []
  | b :: bs => if b + 1 ≠ 0 then (b + 1) :: bs else 0 :: increment bs

theorem length_octets (k ip : Nat) : (octets k ip).length = k := by
  induction k generalizing ip with
  | zero => rfl
  | succ k ih => exact congrArg (· + 1) (ih _)

theorem ofOctets_octets (k ip : Nat) : ofOctets (octets k ip) = ip % 256 ^ k := by
  induction k generalizing ip with
  | zero => rw [pow_zero, Nat.mod_one]; rfl
  | succ k ih =>
    have hpow : 256 ^ (k + 1) = 256 * 256 ^ k := by rw [Nat.pow_succ, Nat.mul_comm]
    rw [octets, ofOctets, ih, UInt8.toNat_ofNat', hpow, Nat.mod_mul]

theorem ofOctets_lt (bs : List UInt8) : ofOctets bs < 256 ^ bs.length := by
  induction bs with
  | nil => exact Nat.one_pos
  | cons b bs ih =>
    have hb := b.toNat_lt
    rw [ofOctets, List.length_cons, pow_succ]
    omega

theorem ofOctets_increment (bs : List UInt8) :
    ofOctets (increment bs) = (ofOctets bs + 1) % 256 ^ bs.length := by
  induction bs with
  | nil => rfl
  | cons b bs ih =>
    have hb := b.toNat_lt
    have hbs := ofOctets_lt bs
    rw [increment, ofOctets, List.length_cons, pow_succ]
    have hsucc : (b + 1).toNat = (b.toNat + 1) % 256 := by
      rw [UInt8.toNat_add]
      rfl
    split_ifs with hcarry
    · have hne : (b + 1).toNat ≠ 0 := fun h => hcarry (UInt8.toNat_inj.mp h)
      rw [ofOctets, hsucc, Nat.mod_eq_of_lt (by omega), Nat.mod_eq_of_lt (by omega)]
      omega
    · -- The byte has become zero, and the sum is one of the bytes before it.
      have hzero : (b + 1).toNat = 0 := by
        rw [not_not.mp hcarry]
        rfl
      have hsum : b.toNat + 256 * ofOctets bs + 1 = 256 * (ofOctets bs + 1) := by omega
      rw [ofOctets, ih, hsum, Nat.mul_comm (256 ^ bs.length), Nat.mul_mod_mul_left]
      exact Nat.zero_add _

end Net
