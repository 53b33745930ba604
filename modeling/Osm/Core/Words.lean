import Mathlib.Data.Nat.Bitwise
import Mathlib.Tactic.Common
import Mathlib.Tactic.NormNum

/-!
# Bits of words

Masks with the low bits set, or all bits but the low ones, and the division that they stand for;
and words that are the same number with and without a sign.
-/

namespace Osm.Core

variable {x k w : ℕ}

/-- A word without its low bits. -/
lemma and_clear_low (hk : k ≤ w) (hx : x < 2 ^ w) : x &&& (2 ^ w - 2 ^ k) = x / 2 ^ k * 2 ^ k := by
  apply Nat.eq_of_testBit_eq
  intro i
  have hmask : 2 ^ w - 2 ^ k = 2 ^ k * (2 ^ (w - k) - 1) := by
    rw [Nat.mul_sub, ← pow_add, Nat.add_sub_cancel' hk, Nat.mul_one]
  rw [hmask, Nat.mul_comm (x / 2 ^ k), Nat.testBit_and, Nat.testBit_two_pow_mul,
    Nat.testBit_two_pow_mul, Nat.testBit_two_pow_sub_one, Nat.testBit_div_two_pow]
  by_cases hi : k ≤ i
  · rw [Nat.sub_add_cancel hi]
    by_cases hlt : i < w
    · simp [hi, show i - k < w - k by omega]
    · rw [Nat.testBit_lt_two_pow (hx.trans_le (Nat.pow_le_pow_right Nat.two_pos (by omega)))]
      simp
  · simp [hi]

/-- A word has no low bits when it is a multiple. -/
lemma and_low_eq_zero : x &&& (2 ^ k - 1) = 0 ↔ 2 ^ k ∣ x := by
  rw [Nat.and_two_pow_sub_one_eq_mod]
  exact Nat.dvd_iff_mod_eq_zero.symm

lemma toInt_toInt32 {x : UInt32} (h : x.toNat < 2 ^ 31) : x.toInt32.toInt = x.toNat :=
  BitVec.toInt_eq_toNat_of_lt (show 2 * x.toNat < 2 ^ 32 by omega)

lemma toNat_toUInt32 {x : Int32} (h : 0 ≤ x.toInt) : (x.toUInt32.toNat : ℤ) = x.toInt := by
  have hle : 0 ≤ x := Int32.le_iff_toInt_le.mpr h
  rw [Int32.toNat_toUInt32_of_le hle, Int32.cast_toNatClampNeg x hle]

end Osm.Core
