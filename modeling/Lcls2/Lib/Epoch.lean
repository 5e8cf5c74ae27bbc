import Mathlib

/-!
# Epochs

A mask without its `k` low bits cuts the numbers into epochs of `2 ^ k`: it rounds down to the first
number of the epoch.
-/

namespace Lcls2.Lib

/-- A mask without the low bits rounds down to a multiple of a power of two. -/
lemma toNat_and_not_low {w : ℕ} {low : BitVec w} {k : ℕ} (hk : low.toNat = 2 ^ k - 1) {p : ℕ}
    (hp : p < 2 ^ w) : (BitVec.ofNat w p &&& ~~~low).toNat = p / 2 ^ k * 2 ^ k := by
  apply Nat.eq_of_testBit_eq
  intro i
  rw [BitVec.testBit_toNat, BitVec.getLsbD_and, BitVec.getLsbD_not, BitVec.getLsbD_ofNat,
    ← BitVec.testBit_toNat, hk, Nat.testBit_two_pow_sub_one, Nat.testBit_mul_two_pow,
    Nat.testBit_div_two_pow]
  by_cases h : k ≤ i
  · by_cases h' : i < w
    · simp [h, h', Nat.not_lt.mpr h]
    · have le : 2 ^ w ≤ 2 ^ i := Nat.pow_le_pow_right (by decide) (Nat.le_of_not_lt h')
      have : p.testBit i = false := Nat.testBit_lt_two_pow (lt_of_lt_of_le hp le)
      simp [h, h', this]
  · simp [h, Nat.lt_of_not_le h]

/-- Two numbers are rounded down alike when they are of one epoch. -/
lemma and_not_low_eq_iff {w : ℕ} {low : BitVec w} {k : ℕ} (hk : low.toNat = 2 ^ k - 1) {p q : ℕ}
    (hp : p < 2 ^ w) (hq : q < 2 ^ w) :
    BitVec.ofNat w p &&& ~~~low = BitVec.ofNat w q &&& ~~~low ↔ p / 2 ^ k = q / 2 ^ k := by
  rw [← BitVec.toNat_inj, toNat_and_not_low hk hp, toNat_and_not_low hk hq]
  exact Nat.mul_left_inj (Nat.ne_of_gt (Nat.two_pow_pos k))

end Lcls2.Lib
