import Mathlib.Data.Nat.Digits.Lemmas

namespace Positional

variable {b m limit : Nat}

/-- The number to which digits, the leading one first, continue `m`. -/
def horner (b m : Nat) (ds : List Nat) : Nat := ds.foldl (fun x d => x * b + d) m

@[simp] theorem horner_cons (d : Nat) (ds : List Nat) : horner b m (d :: ds) = horner b (m * b + d) ds := rfl

theorem horner_eq_ofDigits (ds : List Nat) : horner b 0 ds = Nat.ofDigits b ds.reverse := by
  induction ds using List.reverseRecOn with
  | nil => rfl
  | append_singleton ds d ih =>
    rw [List.reverse_append, List.reverse_singleton, List.singleton_append, Nat.ofDigits_cons, ← ih,
      horner, List.foldl_append]
    show horner b 0 ds * b + d = _
    rw [Nat.mul_comm, Nat.add_comm]

theorem horner_digits (n : Nat) : horner b 0 (Nat.digits b n).reverse = n := by
  rw [horner_eq_ofDigits, List.reverse_reverse, Nat.ofDigits_digits]

theorem le_horner (base : 0 < b) (ds : List Nat) : m ≤ horner b m ds := by
  induction ds generalizing m with
  | nil => exact le_rfl
  | cons d ds ih => exact ((Nat.le_mul_of_pos_right m base).trans (Nat.le_add_right _ d)).trans ih

/-- No string of digits denotes a number in fewer digits than its own. -/
theorem length_digits_horner_le (base : 1 < b) {ds : List Nat} (small : ∀ d ∈ ds, d < b) :
    (Nat.digits b (horner b 0 ds)).length ≤ ds.length := by
  rw [Nat.digits_length_le_iff base, horner_eq_ofDigits, ← ds.length_reverse]
  exact Nat.ofDigits_lt_base_pow_length base fun d member => small d (List.mem_reverse.mp member)

/-- The position of the first digit that takes the number beyond a limit. -/
def overflowAt (b limit : Nat) : Nat → List Nat → Option Nat
  | _, [] => none
  | m, d :: ds => if limit < m * b + d then some 0 else (overflowAt b limit (m * b + d) ds).map (· + 1)

theorem overflowAt_eq_none_iff (base : 0 < b) (fits : m ≤ limit) (ds : List Nat) :
    overflowAt b limit m ds = none ↔ horner b m ds ≤ limit := by
  induction ds generalizing m with
  | nil => exact iff_of_true rfl fits
  | cons d ds ih =>
    rw [overflowAt, horner_cons]
    by_cases beyond : limit < m * b + d
    · rw [if_pos beyond]
      exact iff_of_false (by simp) (not_le.mpr (beyond.trans_le (le_horner base ds)))
    · rw [if_neg beyond, Option.map_eq_none_iff, ih (by omega)]

/-- All digits before that position leave the number within the limit. -/
theorem overflowAt_eq_some (fits : m ≤ limit) {ds : List Nat} {k : Nat} (leaves : overflowAt b limit m ds = some k) :
    k < ds.length ∧ limit < horner b m (ds.take (k + 1)) ∧ ∀ j ≤ k, horner b m (ds.take j) ≤ limit := by
  induction ds generalizing m k with
  | nil => cases leaves
  | cons d ds ih =>
    rw [overflowAt] at leaves
    by_cases beyond : limit < m * b + d
    · rw [if_pos beyond] at leaves
      obtain rfl : 0 = k := Option.some.inj leaves
      refine ⟨Nat.succ_pos _, beyond, fun j below => ?_⟩
      rw [Nat.le_zero.mp below]
      exact fits
    · rw [if_neg beyond] at leaves
      obtain ⟨k, later, rfl⟩ := Option.map_eq_some_iff.mp leaves
      obtain ⟨inside, outside, under⟩ := ih (not_lt.mp beyond) later
      refine ⟨Nat.succ_lt_succ inside, outside, fun j below => ?_⟩
      cases j with
      | zero => exact fits
      | succ j => exact under j (Nat.le_of_succ_le_succ below)

end Positional
