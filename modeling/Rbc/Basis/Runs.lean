import Mathlib.Logic.Relation
import Mathlib.Order.WellFounded

open Relation

namespace Runs

variable {S : Type} {R : S → S → Prop}

/-- What every step preserves holds in every state that is reached. -/
theorem invariant {P : S → Prop} (preserved : ∀ s s', P s → R s s' → P s') {s s' : S}
    (start : P s) (reached : ReflTransGen R s s') : P s' := by
  induction reached with
  | refl => exact start
  | tail _ step ih => exact preserved _ _ ih step

/-- Every run from a state comes to an end. -/
def Ends (R : S → S → Prop) (s : S) : Prop := ¬∃ run : ℕ → S, run 0 = s ∧ ∀ n, R (run n) (run (n + 1))

/-- Some reachable state is entered again after one or more steps. -/
def Revisits (R : S → S → Prop) (s : S) : Prop := ∃ t, ReflTransGen R s t ∧ TransGen R t t

theorem ends_iff_acc {s : S} : Ends R s ↔ Acc (Function.swap R) s := by
  show ¬(∃ run : ℕ → S, run 0 = s ∧ ∀ n, Function.swap R (run (n + 1)) (run n)) ↔ _
  rw [← not_acc_iff_exists_descending_chain, not_not]

/-- Induction along the paths that lead on from a state whose runs all end. -/
theorem Ends.induction {P : S → Prop} {s : S} (ends : Ends R s)
    (step : ∀ s, (∀ t, TransGen R s t → P t) → P s) : P s := by
  have paths := (ends_iff_acc.mp ends).transGen
  clear ends
  induction paths with
  | intro s _ ih => exact step s fun t path => ih t (transGen_swap.mpr path)

theorem Ends.of_reached {s t : S} (ends : Ends R s) (reached : ReflTransGen R s t) : Ends R t :=
  invariant (P := Ends R) (fun _ _ ends step => ends_iff_acc.mpr ((ends_iff_acc.mp ends).inv step)) ends reached

/-- Where every run ends no state is entered again. -/
theorem Ends.not_revisits {s : S} (ends : Ends R s) : ¬Revisits R s := by
  rintro ⟨t, reached, cycle⟩
  have acyclic : ¬TransGen R t t :=
    (ends.of_reached reached).induction (P := fun u => ¬TransGen R u u)
      fun u later cycle => later u cycle cycle
  exact acyclic cycle

theorem ends_of_stuck {s : S} (stuck : ∀ s', ¬R s s') : Ends R s :=
  ends_iff_acc.mpr (Acc.intro s fun s' step => absurd step (stuck s'))

/-- A measure that every step lowers ends every run. -/
theorem ends_of_measure {P : S → Prop} (μ : S → ℕ) (lowers : ∀ s s', P s → R s s' → P s' ∧ μ s' < μ s) {s : S}
    (start : P s) : Ends R s := by
  rw [ends_iff_acc]
  induction size : μ s using Nat.strong_induction_on generalizing s with
  | _ n ih =>
    refine Acc.intro s fun s' step => ?_
    obtain ⟨kept, smaller⟩ := lowers s s' start step
    exact ih (μ s') (size ▸ smaller) kept rfl

/-- From states that lead to such a state again there is an endless run. -/
theorem not_ends_of_progress {D : S → Prop} (progress : ∀ s, D s → ∃ t, TransGen R s t ∧ D t) {s : S}
    (start : D s) : ¬Ends R s := by
  intro ends
  have none : ¬D s := by
    refine ends.induction (P := fun s => ¬D s) fun s later here => ?_
    obtain ⟨t, path, again⟩ := progress s here
    exact later t path again
  exact none start

end Runs
