import Mathlib.Data.Nat.Bitwise

/-!
# Prefix masks

The mask of the upper bits of a word of `n` bits, all but the lowest `k`. Two words
agree under the mask exactly when division by `2 ^ k` does not tell them apart.
-/

namespace PrefixMasks

variable {n k x y : Nat}

/-- The word whose bits from `k` up are set. -/
def mask (n k : Nat) : Nat := 2 ^ n - 2 ^ k

theorem mask_eq_shiftLeft (hk : k ≤ n) : mask n k = (2 ^ (n - k) - 1) <<< k := by
  have hpow : 2 ^ n = 2 ^ (n - k) * 2 ^ k := by
    rw [← Nat.pow_add, Nat.sub_add_cancel hk]
  rw [mask, Nat.shiftLeft_eq, Nat.sub_mul, Nat.one_mul, hpow]

theorem testBit_mask (hk : k ≤ n) (i : Nat) :
    (mask n k).testBit i = (decide (k ≤ i) && decide (i < n)) := by
  rw [mask_eq_shiftLeft hk, Nat.testBit_shiftLeft, Nat.testBit_two_pow_sub_one]
  by_cases hi : k ≤ i
  · have hbound : i - k < n - k ↔ i < n := by omega
    simp [hi, hbound]
  · simp [hi]

/-- The mask clears the lowest bits of a word and keeps the others. -/
theorem and_mask (hk : k ≤ n) (hx : x < 2 ^ n) : x &&& mask n k = x / 2 ^ k * 2 ^ k := by
  apply Nat.eq_of_testBit_eq
  intro i
  rw [Nat.testBit_and, testBit_mask hk, ← Nat.shiftRight_eq_div_pow, ← Nat.shiftLeft_eq,
    Nat.testBit_shiftLeft, Nat.testBit_shiftRight]
  by_cases hi : k ≤ i
  · have hindex : k + (i - k) = i := by omega
    by_cases hn : i < n
    · simp [hi, hn, hindex]
    · have hclear : x.testBit i = false := by
        apply Nat.testBit_lt_two_pow
        exact lt_of_lt_of_le hx (Nat.pow_le_pow_right (by omega) (by omega))
      simp [hi, hindex, hclear]
  · simp [hi]

theorem and_mask_eq_iff (hk : k ≤ n) (hx : x < 2 ^ n) (hy : y < 2 ^ n) :
    x &&& mask n k = y &&& mask n k ↔ x / 2 ^ k = y / 2 ^ k := by
  rw [and_mask hk hx, and_mask hk hy]
  constructor
  · exact Nat.eq_of_mul_eq_mul_right (Nat.two_pow_pos k)
  · intro h
    rw [h]

end PrefixMasks
