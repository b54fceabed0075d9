import Mathlib.Data.Nat.Bitwise

namespace BitFields

/-- A field that is masked in place and then moved to the right end. -/
theorem and_mask_shiftRight (x shift width : Nat) :
    (x &&& (2 ^ width - 1) <<< shift) >>> shift = x / 2 ^ shift % 2 ^ width := by
  rw [Nat.shiftRight_and_distrib, Nat.shiftLeft_shiftRight, Nat.and_two_pow_sub_one_eq_mod,
    Nat.shiftRight_eq_div_pow]

/-- Fields that do not overlap add up. -/
theorem shiftLeft_or {low width : Nat} (small : low < 2 ^ width) (high : Nat) :
    high <<< width ||| low = high * 2 ^ width + low := by
  rw [← Nat.shiftLeft_add_eq_or_of_lt small, Nat.shiftLeft_eq]

/-- Numbers that consist of two fields are ordered by the higher one first. -/
theorem append_lt_append_iff {m high low high' low' : Nat} (small : low < m) (small' : low' < m) :
    high * m + low < high' * m + low' ↔ high < high' ∨ high = high' ∧ low < low' := by
  rcases Nat.lt_trichotomy high high' with below | rfl | above
  · have step : (high + 1) * m ≤ high' * m := Nat.mul_le_mul_right m below
    rw [Nat.succ_mul] at step
    exact iff_of_true (by omega) (Or.inl below)
  · simp
  · have step : (high' + 1) * m ≤ high * m := Nat.mul_le_mul_right m above
    rw [Nat.succ_mul] at step
    exact iff_of_false (by omega) (by omega)

end BitFields
