import Mathlib.Algebra.Group.Int.Defs
import Mathlib.Algebra.Group.Nat.Defs
import Mathlib.Data.Int.Init

namespace Wrap

variable {m : Nat} {a d : Int}

/-- Adding less than a full turn to a represented number either is exact or
leaves the range upwards and comes back one turn lower. -/
theorem bmod_add_cases (lower : -(m / 2 : Int) ≤ a) (upper : a < (m + 1) / 2) (nonneg : 0 ≤ d)
    (small : d < m) :
    a + d < (m + 1) / 2 ∧ (a + d).bmod m = a + d ∨
      (m + 1) / 2 ≤ a + d ∧ (a + d).bmod m = a + d - m := by
  by_cases fits : a + d < (m + 1) / 2
  · exact Or.inl ⟨fits, Int.bmod_eq_of_le (by omega) fits⟩
  · refine Or.inr ⟨by omega, ?_⟩
    rw [← Int.sub_bmod_right]
    exact Int.bmod_eq_of_le (by omega) (by omega)

theorem bmod_sub_cases (lower : -(m / 2 : Int) ≤ a) (upper : a < (m + 1) / 2) (nonneg : 0 ≤ d)
    (small : d < m) :
    -(m / 2 : Int) ≤ a - d ∧ (a - d).bmod m = a - d ∨
      a - d < -(m / 2 : Int) ∧ (a - d).bmod m = a - d + m := by
  by_cases fits : -(m / 2 : Int) ≤ a - d
  · exact Or.inl ⟨fits, Int.bmod_eq_of_le fits (by omega)⟩
  · refine Or.inr ⟨by omega, ?_⟩
    rw [← Int.add_bmod_right]
    exact Int.bmod_eq_of_le (by omega) (by omega)

/-- What two's complement represents with a number of bits. -/
theorem bmod_two_pow_eq_iff {w : Nat} (width : 0 < w) {z : Int} :
    z.bmod (2 ^ w) = z ↔ -2 ^ (w - 1) ≤ z ∧ z < 2 ^ (w - 1) := by
  have double : ((2 ^ w : Nat) : Int) = 2 * 2 ^ (w - 1) := by
    rw [← Nat.two_pow_pred_add_two_pow_pred width]
    push_cast
    omega
  constructor
  · intro same
    have lower := Int.le_bmod (x := z) (Nat.two_pow_pos w)
    have upper := Int.bmod_lt (x := z) (Nat.two_pow_pos w)
    omega
  · rintro ⟨lower, upper⟩
    exact Int.bmod_eq_of_le (by omega) (by omega)

/-- Wrapping keeps what is below one turn, and makes saturation of what wraps to the greatest number. -/
theorem mod_eq_min_iff {m n : Nat} (positive : 0 < m) : n % m = min n (m - 1) ↔ n < m ∨ m ∣ n + 1 := by
  by_cases small : n < m
  · rw [Nat.mod_eq_of_lt small, Nat.min_eq_left (by omega)]
    exact iff_of_true rfl (Or.inl small)
  · rw [Nat.min_eq_right (by omega), Nat.dvd_iff_mod_eq_zero, or_iff_right small]
    have full := Nat.succ_mod_succ_eq_zero_iff (a := n) (b := m - 1)
    rw [Nat.sub_add_cancel positive] at full
    exact full.symm

end Wrap
