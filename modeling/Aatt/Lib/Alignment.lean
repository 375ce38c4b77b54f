import Mathlib.Algebra.Order.Ring.Nat

/-! Multiples among machine words. A divisor of `2 ^ w` still divides sums, differences and products that wrap. -/
namespace Aatt.Lib

def MultipleOf (n : Nat) (x : BitVec w) : Prop := n ∣ x.toNat

instance (n : Nat) (x : BitVec w) : Decidable (MultipleOf n x) := inferInstanceAs (Decidable (n ∣ x.toNat))

def roundDown (x n : BitVec w) : BitVec w := x &&& -n

def roundUp (x n : BitVec w) : BitVec w := roundDown (x + n - 1) n

theorem multipleOf_zero (n : Nat) : MultipleOf n (0 : BitVec w) := by
  simp [MultipleOf]

section Wrapping

variable {n : Nat} (whole : n ∣ 2 ^ w) {x y : BitVec w}
include whole

theorem MultipleOf.add (left : MultipleOf n x) (right : MultipleOf n y) : MultipleOf n (x + y) := by
  rw [MultipleOf,BitVec.toNat_add,Nat.dvd_mod_iff whole]
  exact Nat.dvd_add left right

theorem MultipleOf.sub (left : MultipleOf n x) (right : MultipleOf n y) : MultipleOf n (x - y) := by
  rw [MultipleOf,BitVec.toNat_sub,Nat.dvd_mod_iff whole]
  exact Nat.dvd_add (Nat.dvd_sub whole right) left

theorem MultipleOf.neg (multiple : MultipleOf n x) : MultipleOf n (-x) := by
  rw [MultipleOf,BitVec.toNat_neg,Nat.dvd_mod_iff whole]
  exact Nat.dvd_sub whole multiple

theorem MultipleOf.mul_left (multiple : MultipleOf n y) (x : BitVec w) : MultipleOf n (x * y) := by
  rw [MultipleOf,BitVec.toNat_mul,Nat.dvd_mod_iff whole]
  exact Nat.dvd_mul_left_of_dvd multiple x.toNat

theorem multipleOf_ofNat {k : Nat} (multiple : n ∣ k) : MultipleOf n (BitVec.ofNat w k) := by
  rwa [MultipleOf,BitVec.toNat_ofNat,Nat.dvd_mod_iff whole]

end Wrapping

theorem MultipleOf.and_right {k : Nat} {mask : BitVec w} (multiple : MultipleOf (2 ^ k) mask) (x : BitVec w) :
    MultipleOf (2 ^ k) (x &&& mask) := by
  rw [MultipleOf,BitVec.toNat_and,Nat.dvd_iff_mod_eq_zero,Nat.and_mod_two_pow,Nat.mod_eq_zero_of_dvd multiple,
    Nat.and_zero]

theorem multipleOf_roundUp {k : Nat} (narrow : k ≤ w) (x : BitVec w) : MultipleOf (2 ^ k)
    (roundUp x (BitVec.ofNat w (2 ^ k))) := by
  have whole : 2 ^ k ∣ 2 ^ w := Nat.pow_dvd_pow 2 narrow
  exact ((multipleOf_ofNat whole (Nat.dvd_refl _)).neg whole).and_right _

theorem MultipleOf.setWidth {n : Nat} {x : BitVec w} (multiple : MultipleOf n x) (wide : w ≤ v) :
    MultipleOf n (x.setWidth v) := by
  rwa [MultipleOf,BitVec.toNat_setWidth,Nat.mod_eq_of_lt (x.isLt.trans_le (Nat.pow_le_pow_right (by decide) wide))]

end Aatt.Lib
