import Rbc.Basis.Machine

namespace Trace

variable {S M L : Type}

/-- A run of a labelled system and the labels that are seen of it. The steps that
have no label are silent. -/
inductive Path (Next : S → Option L → S → Prop) (start : S) : List L → S → Prop
  | refl : Path Next start [] start
  | tail {labels : List L} {s s' : S} {l : Option L} (path : Path Next start labels s) (next : Next s l s') :
    Path Next start (labels ++ l.toList) s'

namespace Path

variable {Next : S → Option L → S → Prop} {start s s' : S} {labels more : List L}

theorem one {l : Option L} (next : Next s l s') : Path Next s l.toList s' := .tail .refl next

theorem silent (next : Next s none s') : Path Next s [] s' := one next

theorem append (first : Path Next start labels s) (second : Path Next s more s') :
    Path Next start (labels ++ more) s' := by
  induction second with
  | refl => rwa [List.append_nil]
  | tail _ next ih =>
    rw [← List.append_assoc]
    exact ih.tail next

/-- What every step preserves, given what was seen before, holds after each run. -/
theorem history {P : List L → S → Prop} (preserved : ∀ past s l s', P past s → Next s l s' → P (past ++ l.toList) s')
    (initial : P [] start) (path : Path Next start labels s) : P labels s := by
  induction path with
  | refl => exact initial
  | tail _ next ih => exact preserved _ _ _ _ ih next

/-- The run of a machine whose outputs are the labels. -/
theorem of_run {I : Type} {step : I → S → Option (S × Option L)} (steps : ∀ i s s' l, step i s = some (s', l) → Next s l s')
    {inputs : List I} {outputs : List (Option L)} (ran : Machine.run step inputs s = some (s', outputs)) :
    Path Next s (outputs.filterMap id) s' := by
  induction inputs generalizing s outputs with
  | nil =>
    cases ran
    exact .refl
  | cons i rest ih =>
    obtain ⟨middle, l, later, stepped, onwards, rfl⟩ := Machine.run_cons.mp ran
    have first : Path Next s l.toList middle := one (steps i s middle l stepped)
    have whole := first.append (ih onwards)
    cases l <;> exact whole

end Path

/-- Each step of the system is matched by steps of its specification that look the
same from outside, possibly none at all. -/
def Simulates (Next : S → Option L → S → Prop) (Spec : M → Option L → M → Prop) (R : S → M → Prop) : Prop :=
  ∀ s m l s', R s m → Next s l s' → ∃ m', Path Spec m l.toList m' ∧ R s' m'

variable {Next : S → Option L → S → Prop} {Spec : M → Option L → M → Prop} {R : S → M → Prop}

/-- All that is seen of the system is also seen of its specification. -/
theorem Simulates.path (simulates : Simulates Next Spec R) {start s : S} {m : M} {labels : List L}
    (path : Path Next start labels s) (related : R start m) : ∃ m', Path Spec m labels m' ∧ R s m' := by
  induction path with
  | refl => exact ⟨m, .refl, related⟩
  | tail _ next ih =>
    obtain ⟨here, matched, related⟩ := ih
    obtain ⟨there, step, related⟩ := simulates _ _ _ _ related next
    exact ⟨there, matched.append step, related⟩

end Trace
