import Mathlib.Algebra.Group.Int.Defs
import Mathlib.Algebra.Group.Nat.Defs
import Mathlib.Data.Int.Init

namespace Rounding

variable {z m n : ℤ}

/-- Rounding down and rounding towards zero agree on what is not negative and
on exact quotients. -/
theorem ediv_eq_tdiv_iff (positive : 0 < n) : z / n = z.tdiv n ↔ 0 ≤ z ∨ n ∣ z := by
  rw [Int.tdiv_eq_ediv, Int.sign_eq_one_of_pos positive]
  split
  · rename_i exact
    simp [exact]
  · rename_i inexact
    simp only [inexact, iff_false]
    omega

theorem tdiv_eq_ediv_succ (positive : 0 < n) (negative : z < 0) (inexact : ¬n ∣ z) : z.tdiv n = z / n + 1 := by
  rw [Int.tdiv_eq_ediv, Int.sign_eq_one_of_pos positive, if_neg (by omega)]

/-- Rounding towards zero twice is rounding once by the product. -/
theorem tdiv_tdiv (nonneg : 0 ≤ m) : (z.tdiv m).tdiv n = z.tdiv (m * n) := by
  have positive : ∀ x : ℤ, 0 ≤ x → (x.tdiv m).tdiv n = x.tdiv (m * n) := by
    intro x lower
    rw [Int.tdiv_eq_ediv_of_nonneg lower, Int.tdiv_eq_ediv_of_nonneg lower,
      Int.tdiv_eq_ediv_of_nonneg (Int.ediv_nonneg lower nonneg), Int.ediv_ediv_of_nonneg nonneg]
  rcases Int.le_total 0 z with lower | upper
  · exact positive z lower
  · have mirrored := positive (-z) (by omega)
    rwa [Int.neg_tdiv, Int.neg_tdiv, Int.neg_tdiv, Int.neg_inj] at mirrored

/-- A quotient lies between its dividend and zero. -/
theorem tdiv_between (nonneg : 0 ≤ n) :
    0 ≤ z ∧ 0 ≤ z.tdiv n ∧ z.tdiv n ≤ z ∨ z ≤ 0 ∧ z ≤ z.tdiv n ∧ z.tdiv n ≤ 0 := by
  rcases Int.le_total 0 z with lower | upper
  · exact Or.inl ⟨lower, Int.tdiv_nonneg lower nonneg, Int.tdiv_le_self _ lower⟩
  · have above := Int.tdiv_nonneg (show 0 ≤ -z by omega) nonneg
    have below := Int.tdiv_le_self n (show 0 ≤ -z by omega)
    rw [Int.neg_tdiv] at above below
    omega

/-- Rounding towards zero is rounding down on one side of zero and rounding up on the other. -/
theorem le_tdiv_iff (positive : 0 < n) (nonneg : 0 ≤ z) {y : ℤ} : y ≤ z.tdiv n ↔ y * n ≤ z := by
  rw [Int.tdiv_eq_ediv_of_nonneg nonneg, Int.le_ediv_iff_mul_le positive]

theorem tdiv_le_iff (positive : 0 < n) (nonpos : z ≤ 0) {y : ℤ} : z.tdiv n ≤ y ↔ z ≤ y * n := by
  have mirrored := le_tdiv_iff (z := -z) (y := -y) positive (by omega)
  rw [Int.neg_tdiv, Int.neg_mul] at mirrored
  omega

end Rounding
