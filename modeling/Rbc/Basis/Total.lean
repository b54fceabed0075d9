import Mathlib.Algebra.BigOperators.Group.Finset.Piecewise
import Mathlib.Algebra.Order.BigOperators.Group.Finset

namespace Total

variable {α : Type}

/-- All shares together are `n`; only finitely many are not 0. -/
def Sums (h : α → ℕ) (n : ℕ) : Prop := ∃ s : Finset α, (∀ a, h a ≠ 0 → a ∈ s) ∧ ∑ a ∈ s, h a = n

variable {h : α → ℕ} {n m : ℕ}

theorem sums_zero : Sums (fun _ : α => 0) 0 := ⟨∅, fun _ share => (share rfl).elim, rfl⟩

/-- No shares that are not 0 are left out of a larger set. -/
theorem sum_eq_of_subset {s t : Finset α} (all : ∀ a, h a ≠ 0 → a ∈ s) (sub : s ⊆ t) : ∑ a ∈ t, h a = ∑ a ∈ s, h a := by
  refine (Finset.sum_subset sub fun a _ outside => ?_).symm
  exact Decidable.byContradiction fun share => outside (all a share)

theorem Sums.unique (first : Sums h n) (second : Sums h m) : n = m := by
  classical
  obtain ⟨s, allS, rfl⟩ := first
  obtain ⟨t, allT, rfl⟩ := second
  rw [← sum_eq_of_subset allS Finset.subset_union_left, sum_eq_of_subset allT Finset.subset_union_right]

theorem Sums.le (sums : Sums h n) (a : α) : h a ≤ n := by
  obtain ⟨s, all, rfl⟩ := sums
  by_cases share : h a = 0
  · omega
  · exact Finset.single_le_sum (fun _ _ => Nat.zero_le _) (all a share)

/-- One share changes. -/
theorem Sums.update [DecidableEq α] (sums : Sums h n) (a : α) {k : ℕ} (balance : n + k = m + h a) :
    Sums (Function.update h a k) m := by
  obtain ⟨s, all, rfl⟩ := sums
  refine ⟨insert a s, fun b share => ?_, ?_⟩
  · by_cases same : b = a
    · exact Finset.mem_insert.mpr (Or.inl same)
    · rw [Function.update_of_ne same] at share
      exact Finset.mem_insert_of_mem (all b share)
  · have before : h a + ∑ b ∈ (insert a s).erase a, h b = ∑ b ∈ s, h b :=
      (Finset.add_sum_erase _ h (Finset.mem_insert_self a s)).trans (sum_eq_of_subset all (Finset.subset_insert a s))
    rw [Finset.sum_update_of_mem (Finset.mem_insert_self a s), Finset.sdiff_singleton_eq_erase]
    omega

end Total
