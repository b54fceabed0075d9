import Mathlib.Data.List.Perm.Basic
import Rbc.Basis.Reorder
import Rbc.Time.Steps

namespace Rbc.Time

open Duration Saturation

/-- Every order of the moves is the order of some calls. -/
theorem exists_perm_move {steps : List Step} {es : List ExtInt} (perm : es.Perm (steps.map Step.move)) :
    ∃ others : List Step, es = others.map Step.move ∧ others.Perm steps := by
  have lifted := congrFun₂ (List.eq_map_comp_perm Step.move) es steps
  exact lifted.mpr perm

theorem moved_eq_iff {t : Time} {steps others : List Step} (time : t.rep.Valid) (valid : ∀ s ∈ steps, s.duration.Valid)
    (otherValid : ∀ s ∈ others, s.duration.Valid) :
    t.moved others = t.moved steps ↔
      walk minTotal maxTotal t.rep.value (others.map Step.move) =
        walk minTotal maxTotal t.rep.value (steps.map Step.move) := by
  obtain ⟨here, value⟩ := moved_spec time valid
  obtain ⟨there, otherValue⟩ := moved_spec time otherValid
  rw [← value, ← otherValue]
  exact ⟨fun same => by rw [same], fun same => congrArg Time.mk (there.eq_of_value_eq here same)⟩

/-- Calls may be reordered exactly if they cannot leave the range on both sides,
and leave it on one side only if the exact sum lies there. -/
theorem moved_order_iff (t : Time) (steps : List Step) (finite : t.rep.Finite)
    (valid : ∀ s ∈ steps, s.duration.Valid) :
    (∀ others : List Step, others.Perm steps → t.moved others = t.moved steps) ↔
      OrderFree minTotal maxTotal t.rep.total (steps.map Step.move) := by
  rw [← orderFree_iff finite.total_mem]
  have reordered {others : List Step} (perm : others.Perm steps) :=
    moved_eq_iff finite.valid valid fun s taken => valid s (perm.mem_iff.mp taken)
  rw [finite.value_eq] at reordered
  constructor
  · intro same es perm
    obtain ⟨others, rfl, back⟩ := exists_perm_move perm
    exact (reordered back).mp (same others back)
  · intro same others perm
    exact (reordered perm).mpr (same _ (perm.map Step.move))

/-- Two calls may change places; of three, the last one has to come in between. -/
theorem moved_order_iff_for_three :
    (⟨⟨0, 0⟩⟩ : Time).moved [.add ⟨5, 7⟩, .sub ⟨1, 3⟩] = (⟨⟨0, 0⟩⟩ : Time).moved [.sub ⟨1, 3⟩, .add ⟨5, 7⟩] ∧
      ¬∀ others : List Step, others.Perm [.add ⟨Int64.maxValue, 0⟩, .add ⟨1, 0⟩, .sub ⟨2, 0⟩] →
        (⟨⟨0, 0⟩⟩ : Time).moved others =
          (⟨⟨0, 0⟩⟩ : Time).moved [.add ⟨Int64.maxValue, 0⟩, .add ⟨1, 0⟩, .sub ⟨2, 0⟩] := by
  have free := moved_order_iff ⟨⟨0, 0⟩⟩ [.sub ⟨1, 3⟩, .add ⟨5, 7⟩] (by decide) (by decide)
  have bound := moved_order_iff ⟨⟨0, 0⟩⟩ [.add ⟨Int64.maxValue, 0⟩, .add ⟨1, 0⟩, .sub ⟨2, 0⟩] (by decide) (by decide)
  exact ⟨free.mpr (by decide) _ (List.Perm.swap ..), bound.not.mpr (by decide)⟩

end Rbc.Time
