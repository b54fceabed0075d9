import Rbc.Time.Arithmetic

namespace Rbc.Duration

open Saturation

/-- The comparison on the fields: lexicographic, and in the row of the least
seconds the wrapped `ticks + 1` puts minus infinity first. -/
theorem lt_iff_fields {a b : Duration} :
    lt a b = true ↔ a.secs.toInt < b.secs.toInt ∨ a.secs.toInt = b.secs.toInt ∧
      (a.secs.toInt = -2 ^ 63 ∧ (a.ticks.toNat + 1) % 2 ^ 32 < (b.ticks.toNat + 1) % 2 ^ 32 ∨
        a.secs.toInt ≠ -2 ^ 63 ∧ a.ticks.toNat < b.ticks.toNat) := by
  have same : a.secs = b.secs ↔ a.secs.toInt = b.secs.toInt := Int64.toInt_inj.symm
  have least : a.secs = Int64.minValue ↔ a.secs.toInt = -2 ^ 63 := Int64.toInt_inj.symm
  have wrapped : a.ticks + 1 < b.ticks + 1 ↔
      (a.ticks.toNat + 1) % 2 ^ 32 < (b.ticks.toNat + 1) % 2 ^ 32 := by
    rw [UInt32.lt_iff_toNat_lt, UInt32.toNat_add, UInt32.toNat_add]
    rfl
  unfold lt
  by_cases row : a.secs = b.secs
  · rw [if_neg (not_not.mpr row)]
    have rows := same.mp row
    by_cases bottom : a.secs = Int64.minValue
    · rw [if_pos bottom, decide_eq_true_iff, wrapped]
      have seconds := least.mp bottom
      omega
    · rw [if_neg bottom, decide_eq_true_iff, UInt32.lt_iff_toNat_lt]
      have seconds := least.not.mp bottom
      omega
  · rw [if_pos row, decide_eq_true_iff, Int64.lt_iff_toInt_lt]
    have rows := same.not.mp row
    omega

theorem secs_inf : inf.secs.toInt = 2 ^ 63 - 1 := rfl

theorem secs_negInf : negInf.secs.toInt = -2 ^ 63 := rfl

theorem ticks_inf : inf.ticks.toNat = 4294967295 := rfl

theorem ticks_negInf : negInf.ticks.toNat = 4294967295 := rfl

theorem Valid.lt_iff {a b : Duration} (ha : a.Valid) (hb : b.Valid) :
    lt a b = true ↔ a.value < b.value := by
  have la := a.secs.le_toInt
  have ua := a.secs.toInt_lt
  have lb := b.secs.le_toInt
  have ub := b.secs.toInt_lt
  rw [lt_iff_fields]
  rcases ha.cases with ⟨rfl, va⟩ | ⟨rfl, va⟩ | ⟨fa, va⟩ <;>
    rcases hb.cases with ⟨rfl, vb⟩ | ⟨rfl, vb⟩ | ⟨fb, vb⟩ <;>
    simp only [va, vb, secs_inf, secs_negInf, ticks_inf, ticks_negInf]
  case inr.inr.inr.inr =>
    have ta := finite_iff.mp fa
    have tb := finite_iff.mp fb
    rw [fin_lt_fin]
    unfold total
    omega
  case inl.inr.inr =>
    have tb := finite_iff.mp fb
    simp only [bot_lt_fin, iff_true, true_and]
    omega
  case inr.inl.inr.inr =>
    have tb := finite_iff.mp fb
    simp only [not_top_lt, iff_false]
    omega
  case inr.inr.inl =>
    have ta := finite_iff.mp fa
    simp only [not_lt_bot, iff_false]
    omega
  case inr.inr.inr.inl =>
    have ta := finite_iff.mp fa
    simp only [fin_lt_top, iff_true]
    omega
  all_goals simp

theorem Valid.eq_iff {a b : Duration} (ha : a.Valid) (hb : b.Valid) :
    eq a b = true ↔ a.value = b.value := by
  have fields : eq a b = true ↔ a = b := by
    rw [eq, Bool.and_eq_true, beq_iff_eq, beq_iff_eq, Duration.mk.injEq]
  rw [fields]
  exact ⟨fun same => congrArg value same, ha.eq_of_value_eq hb⟩

theorem Valid.gt_iff {a b : Duration} (ha : a.Valid) (hb : b.Valid) :
    gt a b = true ↔ b.value < a.value :=
  hb.lt_iff ha

theorem Valid.le_iff {a b : Duration} (ha : a.Valid) (hb : b.Valid) :
    le a b = true ↔ a.value ≤ b.value := by
  rw [le, Bool.not_eq_true', ← Bool.not_eq_true, hb.lt_iff ha, not_lt]

theorem Valid.ge_iff {a b : Duration} (ha : a.Valid) (hb : b.Valid) :
    ge a b = true ↔ b.value ≤ a.value := by
  rw [ge, Bool.not_eq_true', ← Bool.not_eq_true, ha.lt_iff hb, not_lt]

theorem Valid.ne_iff {a b : Duration} (ha : a.Valid) (hb : b.Valid) :
    ne a b = true ↔ a.value ≠ b.value := by
  rw [ne, Bool.not_eq_true', ← Bool.not_eq_true, ha.eq_iff hb]

/-- The sign test looks at the seconds alone, which are rounded down. -/
theorem Valid.isNeg_iff {a : Duration} (ha : a.Valid) : a.isNeg = true ↔ a.value < fin 0 := by
  rcases ha.cases with ⟨rfl, va⟩ | ⟨rfl, va⟩ | ⟨fa, va⟩
  · rw [va]
    exact iff_of_true rfl (bot_lt_fin 0)
  · rw [va]
    exact iff_of_false (by decide) not_top_lt
  · have ta := finite_iff.mp fa
    rw [va, fin_lt_fin, isNeg, decide_eq_true_iff, Int64.lt_iff_toInt_lt]
    unfold total
    simp only [Int64.toInt_zero]
    omega

/-- Only the least finite duration has no exact negation. -/
theorem Valid.value_neg {a : Duration} (ha : a.Valid) (notLeast : a ≠ ⟨Int64.minValue, 0⟩) :
    (Duration.neg a).value = negate a.value := by
  rcases ha.cases with ⟨rfl, va⟩ | ⟨rfl, va⟩ | ⟨fa, va⟩
  · rw [va, negate_bot]
    exact value_inf
  · rw [va, negate_top]
    exact value_negInf
  · obtain ⟨lower, upper⟩ := fa.total_mem
    have above : a.total ≠ minTotal := by
      intro bottom
      refine notLeast ?_
      rw [← fa.ofTicks_total, bottom]
      exact ofTicks_of_fields rfl (by decide)
    unfold minTotal at lower above
    unfold maxTotal at upper
    rw [neg_of_finite fa, value_ofTicks, va, negate_fin,
      clamp_of_mem (by unfold minTotal; omega) (by unfold maxTotal; omega)]

/-- Every comparison is the one of the extended integers the durations
denote; so `lt` is a strict total order, which `neg` reverses. -/
theorem order_of_value (a b c : Duration) (ha : a.Valid) (hb : b.Valid) (hc : c.Valid) :
    (lt a b = true ↔ a.value < b.value) ∧ (eq a b = true ↔ a.value = b.value) ∧
    (gt a b = true ↔ a.value > b.value) ∧ (le a b = true ↔ a.value ≤ b.value) ∧
    (ge a b = true ↔ a.value ≥ b.value) ∧ (ne a b = true ↔ a.value ≠ b.value) ∧
    (a.isNeg = true ↔ a.value < fin 0) ∧
    (lt a b = true ∧ eq a b = false ∧ gt a b = false ∨
      lt a b = false ∧ eq a b = true ∧ gt a b = false ∨
      lt a b = false ∧ eq a b = false ∧ gt a b = true) ∧
    (lt a b = true → lt b c = true → lt a c = true) ∧
    (a ≠ ⟨Int64.minValue, 0⟩ → b ≠ ⟨Int64.minValue, 0⟩ → lt (neg b) (neg a) = lt a b) := by
  refine ⟨ha.lt_iff hb, ha.eq_iff hb, ha.gt_iff hb, ha.le_iff hb, ha.ge_iff hb, ha.ne_iff hb,
    ha.isNeg_iff, ?_, ?_, ?_⟩
  · simp only [← Bool.not_eq_true, ha.lt_iff hb, ha.eq_iff hb, ha.gt_iff hb]
    rcases lt_trichotomy a.value b.value with less | same | greater
    · exact Or.inl ⟨less, less.ne, less.not_gt⟩
    · exact Or.inr (Or.inl ⟨same.not_lt, same, same.symm.not_lt⟩)
    · exact Or.inr (Or.inr ⟨greater.not_gt, greater.ne', greater⟩)
  · rw [ha.lt_iff hb, hb.lt_iff hc, ha.lt_iff hc]
    exact lt_trans
  · intro na nb
    rw [Bool.eq_iff_iff, hb.neg.lt_iff ha.neg, hb.value_neg nb, ha.value_neg na, negate_lt_negate_iff,
      ha.lt_iff hb]

/-- Minus infinity, the least finite duration and the next one, in a row of
the same seconds. -/
theorem order_of_value_in_least_row :
    lt negInf ⟨Int64.minValue, 1⟩ = true := by
  have first := (order_of_value negInf ⟨Int64.minValue, 0⟩ ⟨Int64.minValue, 1⟩ (by decide) (by decide)
    (by decide)).2.2.2.2.2.2.2.2.1
  exact first (by decide) (by decide)

end Rbc.Duration
