import Mathlib.Data.Nat.Bitwise
import Mathlib.Tactic.Ring

/-!
# Masks of contiguous bits

The mask `2 ^ n - 2 ^ k` keeps the bits from `k` to `n - 1`, and `2 ^ k - 1` the bits below
`k`.  What bit operations with them do is arithmetic with multiples of `2 ^ k`.
-/

namespace Hlk7621
namespace Masks

variable {n k : Nat}

theorem high_eq_shift (hk : k ≤ n) : 2 ^ n - 2 ^ k = (2 ^ (n - k) - 1) <<< k := by
  rw [Nat.shiftLeft_eq, Nat.sub_mul, <- Nat.pow_add, Nat.sub_add_cancel hk, Nat.one_mul]

theorem testBit_high (hk : k ≤ n) (i : Nat) :
    (2 ^ n - 2 ^ k).testBit i = (decide (k ≤ i) && decide (i < n)) := by
  rw [high_eq_shift hk, Nat.testBit_shiftLeft, Nat.testBit_two_pow_sub_one]
  by_cases hle : k ≤ i
  · have hiff : i - k < n - k <-> i < n := by lia
    rw [decide_eq_true hle, decide_eq_decide.mpr hiff]
  · rw [decide_eq_false (by lia : ¬ i ≥ k)]
    rfl

theorem xor_low (hk : k ≤ n) : (2 ^ n - 1) ^^^ (2 ^ k - 1) = 2 ^ n - 2 ^ k := by
  refine Nat.eq_of_testBit_eq ?_
  intro i
  rw [Nat.testBit_xor, Nat.testBit_two_pow_sub_one, Nat.testBit_two_pow_sub_one,
    testBit_high hk]
  by_cases hlow : i < k
  · simp [hlow, Nat.lt_of_lt_of_le hlow hk]
  · simp [hlow, Nat.le_of_not_lt hlow]

theorem high_xor (hk : k ≤ n) : (2 ^ n - 2 ^ k) ^^^ (2 ^ n - 1) = 2 ^ k - 1 := by
  rw [<- xor_low hk, Nat.xor_comm (2 ^ n - 1), Nat.xor_assoc, Nat.xor_self, Nat.xor_zero]

theorem and_high (hk : k ≤ n) {a : Nat} (ha : a < 2 ^ n) :
    a &&& (2 ^ n - 2 ^ k) = 2 ^ k * (a / 2 ^ k) := by
  rw [Nat.mul_comm, <- Nat.shiftRight_eq_div_pow, <- Nat.shiftLeft_eq]
  refine Nat.eq_of_testBit_eq ?_
  intro i
  rw [Nat.testBit_and, testBit_high hk, Nat.testBit_shiftLeft, Nat.testBit_shiftRight]
  by_cases hle : k ≤ i
  · rw [Nat.add_sub_cancel' hle]
    by_cases hlt : i < n
    · simp [hle, hlt]
    · have hzero : a.testBit i = false :=
        Nat.testBit_lt_two_pow (ha.trans_le (Nat.pow_le_pow_right (by decide) (by lia)))
      simp [hzero]
  · simp [hle]

theorem and_low (a k : Nat) : a &&& (2 ^ k - 1) = a % 2 ^ k := Nat.and_two_pow_sub_one_eq_mod a k

/-- Setting bits below `k` in a multiple of `2 ^ k` adds them. -/
theorem or_low (a : Nat) {r : Nat} (hr : r < 2 ^ k) : 2 ^ k * a ||| r = 2 ^ k * a + r :=
  (Nat.two_pow_add_eq_or_of_lt hr a).symm

end Masks
end Hlk7621
