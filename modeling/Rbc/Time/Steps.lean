import Rbc.Basis.Walk
import Rbc.Time.Deadline

namespace Rbc.Time

open Duration Saturation

def subDuration (self : Time) (d : Duration) : Time := ⟨self.rep.sub d⟩

/-- A call of `rbc_time_add_duration` or `rbc_time_sub_duration`. -/
inductive Step where
  | add (d : Duration)
  | sub (d : Duration)
  deriving DecidableEq, Repr

namespace Step

def duration : Step → Duration
  | add d => d
  | sub d => d

def apply (t : Time) : Step → Time
  | add d => t.addDuration d
  | sub d => t.subDuration d

/-- The call that is meant to go back. -/
def undo : Step → Step
  | add d => sub d
  | sub d => add d

/-- What a finite step adds to the ticks of a time. -/
def ticks : Step → ℤ
  | add d => d.total
  | sub d => -d.total

def move : Step → ExtInt
  | add d => d.value
  | sub d => negate d.value

theorem duration_undo (s : Step) : s.undo.duration = s.duration := by cases s <;> rfl

theorem ticks_undo (s : Step) : s.undo.ticks = -s.ticks := by
  cases s with
  | add d => rfl
  | sub d => exact (neg_neg _).symm

theorem move_of_finite {s : Step} (finite : s.duration.Finite) : s.move = fin s.ticks := by
  cases s with
  | add d => exact finite.value_eq
  | sub d =>
    have value : d.value = fin d.total := finite.value_eq
    rw [move, value, negate_fin, ticks]

theorem move_of_infinite {s : Step} (infinite : s.duration = inf ∨ s.duration = negInf) : s.move = ⊥ ∨ s.move = ⊤ := by
  cases s with
  | add d =>
    rcases infinite with rfl | rfl
    · exact Or.inr value_inf
    · exact Or.inl value_negInf
  | sub d =>
    rcases infinite with rfl | rfl
    · exact Or.inl (by rw [move, value_inf, negate_top])
    · exact Or.inr (by rw [move, value_negInf, negate_bot])

end Step

theorem value_sub {t d : Duration} (finite : t.Finite) (valid : d.Valid) :
    (t.sub d).value = addFin minTotal maxTotal t.total (negate d.value) := by
  rcases valid.cases with ⟨rfl, value⟩ | ⟨rfl, value⟩ | ⟨fd, value⟩
  · rw [finite.sub_negInf, value, negate_bot, addFin_top, value_inf]
  · rw [finite.sub_inf, value, negate_top, addFin_bot, value_negInf]
  · rw [sub_of_finite finite fd, value_ofTicks, value, negate_fin, addFin_fin, Int.sub_eq_add_neg]

/-- One call keeps a time valid and moves what it denotes. -/
theorem Step.apply_spec {t : Time} {s : Step} (time : t.rep.Valid) (valid : s.duration.Valid) :
    (s.apply t).rep.Valid ∧ (s.apply t).rep.value = step minTotal maxTotal t.rep.value s.move := by
  by_cases finite : t.rep.Finite
  · rw [finite.value_eq]
    cases s with
    | add d => exact ⟨time.add valid, finite.value_add valid⟩
    | sub d => exact ⟨time.sub valid, value_sub finite valid⟩
  · have infinite := time.isInf_of_not_finite finite
    have same : s.apply t = t := by
      cases s with
      | add d => exact congrArg Time.mk (add_of_isInf d infinite)
      | sub d => exact congrArg Time.mk (sub_of_isInf d infinite)
    rw [same]
    refine ⟨time, ?_⟩
    rcases time.infinite finite with endless | endless
    · rw [endless, value_inf]
      rfl
    · rw [endless, value_negInf]
      rfl

/-- The time after a number of calls. -/
def moved (t : Time) (steps : List Step) : Time := steps.foldl Step.apply t

/-- The calls that take the others back, the last one first. -/
def undo (steps : List Step) : List Step := (steps.map Step.undo).reverse

theorem moved_spec {t : Time} {steps : List Step} (time : t.rep.Valid) (valid : ∀ s ∈ steps, s.duration.Valid) :
    (t.moved steps).rep.Valid ∧
      (t.moved steps).rep.value = walk minTotal maxTotal t.rep.value (steps.map Step.move) := by
  induction steps generalizing t with
  | nil => exact ⟨time, rfl⟩
  | cons s steps ih =>
    obtain ⟨here, later⟩ := List.forall_mem_cons.mp valid
    obtain ⟨next, value⟩ := Step.apply_spec time here
    obtain ⟨end_, total⟩ := ih next later
    refine ⟨end_, ?_⟩
    rw [value] at total
    exact total

/-- Every step is finite and no time on the way is out of range. -/
def Within (t : Time) (steps : List Step) : Prop :=
  (∀ s ∈ steps, s.duration.Finite) ∧ Stays minTotal maxTotal t.rep.total (steps.map Step.ticks)

instance (t : Time) (steps : List Step) : Decidable (Within t steps) := inferInstanceAs (Decidable (_ ∧ _))

theorem map_move {steps : List Step} (finite : ∀ s ∈ steps, s.duration.Finite) :
    steps.map Step.move = (steps.map Step.ticks).map fin := by
  rw [List.map_map]
  exact List.map_congr_left fun s taken => Step.move_of_finite (finite s taken)

theorem walk_move {t : Time} {steps : List Step} (finite : t.rep.Finite) (valid : ∀ s ∈ steps, s.duration.Valid) :
    Within t steps ∧ walk minTotal maxTotal t.rep.value (steps.map Step.move) =
        fin (t.rep.total + (steps.map Step.ticks).sum) ∨
      ¬Within t steps ∧ (walk minTotal maxTotal t.rep.value (steps.map Step.move) = ⊥ ∨
        walk minTotal maxTotal t.rep.value (steps.map Step.move) = ⊤) := by
  by_cases all : ∀ s ∈ steps, s.duration.Finite
  · rw [map_move all, finite.value_eq]
    rcases walk_fin finite.total_mem (steps.map Step.ticks) with ⟨stays, sum⟩ | ⟨leaves, infinite⟩
    · exact Or.inl ⟨⟨all, stays⟩, sum⟩
    · exact Or.inr ⟨fun within => leaves within.2, infinite⟩
  · obtain ⟨s, taken, endless⟩ : ∃ s ∈ steps, ¬s.duration.Finite := by
      simpa only [not_forall, exists_prop] using all
    have lost := Step.move_of_infinite ((valid s taken).infinite endless)
    exact Or.inr ⟨fun within => all within.1, walk_lost (List.mem_map_of_mem taken) lost _⟩

/-- A time that was out of range on the way is infinite at the end. -/
theorem finite_moved_iff {t : Time} {steps : List Step} (finite : t.rep.Finite) (valid : ∀ s ∈ steps, s.duration.Valid) :
    (t.moved steps).rep.Finite ↔ Within t steps := by
  obtain ⟨result, value⟩ := moved_spec finite.valid valid
  rcases walk_move finite valid with ⟨within, sum⟩ | ⟨leaves, infinite⟩
  · rw [sum] at value
    rcases result.cases with ⟨_, lost⟩ | ⟨_, lost⟩ | ⟨exact, _⟩
    · exact absurd (value.symm.trans lost) (fin_ne_bot _)
    · exact absurd (value.symm.trans lost) (fin_ne_top _)
    · exact iff_of_true exact within
  · refine iff_of_false (fun exact => ?_) leaves
    rw [← value, exact.value_eq] at infinite
    rcases infinite with bottom | top
    · exact fin_ne_bot _ bottom
    · exact fin_ne_top _ top

theorem Within.total_moved {t : Time} {steps : List Step} (within : Within t steps) (finite : t.rep.Finite)
    (valid : ∀ s ∈ steps, s.duration.Valid) :
    (t.moved steps).rep.total = t.rep.total + (steps.map Step.ticks).sum := by
  have exact := (finite_moved_iff finite valid).mpr within
  obtain ⟨_, value⟩ := moved_spec finite.valid valid
  rcases walk_move finite valid with ⟨-, sum⟩ | ⟨leaves, -⟩
  · rw [sum, exact.value_eq] at value
    exact fin_inj.mp value
  · exact absurd within leaves

/-- The range is left silently, but not unnoticed: a time is finite after any
number of calls exactly if it was never out of range, and then it is exact. -/
theorem moved_exact_iff (t : Time) (steps : List Step) (finite : t.rep.Finite)
    (valid : ∀ s ∈ steps, s.duration.Valid) :
    ((t.moved steps).rep.Finite ↔ Within t steps) ∧
      ((t.moved steps).rep.Finite → (t.moved steps).rep.total = t.rep.total + (steps.map Step.ticks).sum) := by
  refine ⟨finite_moved_iff finite valid, fun exact => ?_⟩
  have within := (finite_moved_iff finite valid).mp exact
  exact within.total_moved finite valid

theorem forall_undo {P : Duration → Prop} {steps : List Step} (all : ∀ s ∈ steps, P s.duration) :
    ∀ s ∈ undo steps, P s.duration := by
  intro s taken
  obtain ⟨back, there, rfl⟩ := List.mem_map.mp (List.mem_reverse.mp taken)
  rw [Step.duration_undo]
  exact all back there

theorem map_ticks_undo (steps : List Step) :
    (undo steps).map Step.ticks = (steps.map Step.ticks).reverse.map (-·) := by
  simp only [undo, List.map_reverse, List.map_map, List.reverse_inj]
  exact List.map_congr_left fun s _ => Step.ticks_undo s

theorem Within.back {t u : Time} {steps : List Step} (within : Within t steps)
    (there : u.rep.total = t.rep.total + (steps.map Step.ticks).sum) : Within u (undo steps) := by
  refine ⟨forall_undo (P := Duration.Finite) within.1, ?_⟩
  rw [there, map_ticks_undo]
  exact within.2.back

theorem eq_of_total_eq {a b : Duration} (fa : a.Finite) (fb : b.Finite) (same : a.total = b.total) : a = b := by
  rw [← fa.ofTicks_total, same, fb.ofTicks_total]

/-- A hundred years back from the epoch, a quarter nanosecond on, and a step too far. -/
theorem moved_exact_iff_for_three :
    ¬((⟨⟨0, 0⟩⟩ : Time).moved [.sub ⟨3155760000, 0⟩, .add ⟨0, 1⟩, .sub ⟨Int64.maxValue, 0⟩]).rep.Finite ∧
      ((⟨⟨0, 0⟩⟩ : Time).moved [.sub ⟨3155760000, 0⟩, .add ⟨0, 1⟩]).rep.total = -3155760000 * 4000000000 + 1 := by
  have left := moved_exact_iff ⟨⟨0, 0⟩⟩ [.sub ⟨3155760000, 0⟩, .add ⟨0, 1⟩, .sub ⟨Int64.maxValue, 0⟩]
    (by decide) (by decide)
  have kept := moved_exact_iff ⟨⟨0, 0⟩⟩ [.sub ⟨3155760000, 0⟩, .add ⟨0, 1⟩] (by decide) (by decide)
  exact ⟨left.1.not.mpr (by decide), (kept.2 (by decide)).trans (by decide)⟩

end Rbc.Time
