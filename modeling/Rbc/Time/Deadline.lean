import Rbc.Time.Order
import Rbc.Time.Conversion

namespace Rbc

open Saturation

/-- Adding to a finite duration adds what is denoted and saturates. -/
theorem Duration.Finite.value_add {a b : Duration} (fa : a.Finite) (hb : b.Valid) :
    (a.add b).value = addFin minTotal maxTotal a.total b.value := by
  rcases hb.cases with ⟨rfl, value⟩ | ⟨rfl, value⟩ | ⟨fb, value⟩
  · rw [fa.add_right rfl, value, addFin_bot]
  · rw [fa.add_right rfl, value, addFin_top]
  · rw [add_of_finite fa fb, value_ofTicks, value, addFin_fin]

namespace Time

open Duration

/-- A deadline lies, on the scale of what durations denote, `now` ticks above
its timeout. -/
theorem value_deadline {now : Timespec 64} (normalized : now.Normalized) {timeout : Duration}
    (valid : timeout.Valid) :
    (deadlineFromTimeout now timeout).rep.Valid ∧
      (deadlineFromTimeout now timeout).rep.value =
        addFin minTotal maxTotal (now.nanos * 4) timeout.value := by
  obtain ⟨finite, total⟩ := fromTimespec_of_normalized normalized
  rw [← total]
  exact ⟨finite.valid.add valid, finite.value_add valid⟩

theorem nanos_zero_deadline {now : Timespec 64} (normalized : now.Normalized) :
    nanosOf (addFin minTotal maxTotal (now.nanos * 4) (fin 0)) = now.nanos := by
  obtain ⟨finite, total⟩ := fromTimespec_of_normalized normalized
  obtain ⟨lower, upper⟩ := finite.total_mem
  rw [addFin_fin, add_zero, ← total, clamp_of_mem lower upper, total]
  show (now.nanos * 4).tdiv 4 = now.nanos
  exact Int.mul_tdiv_cancel _ (by decide)

theorem nanosOf_addFin_mono {now : Timespec 64} (normalized : now.Normalized) {d e : Duration}
    (hd : d.Valid) (he : e.Valid) (below : d.value ≤ e.value) :
    nanosOf (addFin minTotal maxTotal (now.nanos * 4) d.value) ≤
      nanosOf (addFin minTotal maxTotal (now.nanos * 4) e.value) := by
  obtain ⟨vd, valueD⟩ := value_deadline normalized hd
  obtain ⟨ve, valueE⟩ := value_deadline normalized he
  rw [← valueD, ← valueE]
  refine nanosOf_mono vd ve ?_
  rw [valueD, valueE]
  exact addFin_monotone _ below

/-- A deadline within the range is exact. -/
theorem finite_deadline {now : Timespec 64} (normalized : now.Normalized) {timeout : Duration}
    (finite : timeout.Finite) (lower : minTotal ≤ now.nanos * 4 + timeout.total)
    (upper : now.nanos * 4 + timeout.total ≤ maxTotal) :
    (deadlineFromTimeout now timeout).rep.Finite ∧
      (deadlineFromTimeout now timeout).rep.total = now.nanos * 4 + timeout.total := by
  obtain ⟨reading, total⟩ := fromTimespec_of_normalized normalized
  have sum : (deadlineFromTimeout now timeout).rep = ofTicks (now.nanos * 4 + timeout.total) := by
    rw [← total]
    exact add_of_finite reading finite
  rw [sum]
  exact ofTicks_of_mem lower upper

theorem abs_tdiv_four (z : ℤ) : |z.tdiv 4 * 4 - z| < 4 := by
  rw [tdiv_four, abs_lt]
  split <;> omega

/-- The timespec handed to the operating system for a timeout: normalised,
monotone in the timeout, not before `now` unless the timeout is negative, and
less than a nanosecond away from the exact moment if that is in the range of durations. -/
theorem osDeadline_of_timeout (now : Timespec 64) (t1 t2 : Duration) (normalized : now.Normalized)
    (h1 : t1.Valid) (h2 : t2.Valid) (shorter : le t1 t2 = true) :
    (osDeadline now t1).Normalized ∧ ¬(osDeadline now t2).Before (osDeadline now t1) ∧
    (t1.isNeg = false → ¬(osDeadline now t1).Before now) ∧
    (t1.Finite → minTotal ≤ now.nanos * 4 + t1.total → now.nanos * 4 + t1.total ≤ maxTotal →
      |(osDeadline now t1).nanos * 4 - (now.nanos * 4 + t1.total)| < 4) := by
  obtain ⟨v1, value1⟩ := value_deadline normalized h1
  obtain ⟨v2, value2⟩ := value_deadline normalized h2
  obtain ⟨n1, nanos1⟩ : (osDeadline now t1).Normalized ∧ (osDeadline now t1).nanos = _ := v1.toTimespec
  obtain ⟨n2, nanos2⟩ : (osDeadline now t2).Normalized ∧ (osDeadline now t2).nanos = _ := v2.toTimespec
  refine ⟨n1, ?_, ?_, ?_⟩
  · have below := (h1.le_iff h2).mp shorter
    rw [n2.before_iff n1, not_lt, nanos1, nanos2, value1, value2]
    exact nanosOf_addFin_mono normalized h1 h2 below
  · intro nonneg
    have zero : (⟨0, 0⟩ : Duration).Valid := by decide
    have above : (⟨0, 0⟩ : Duration).value ≤ t1.value :=
      not_lt.mp (h1.isNeg_iff.not.mp (Bool.eq_false_iff.mp nonneg))
    have later := nanosOf_addFin_mono normalized zero h1 above
    rw [n1.before_iff normalized, not_lt, nanos1, value1]
    exact (nanos_zero_deadline normalized).symm.le.trans later
  · intro finite lower upper
    obtain ⟨exact, total⟩ := finite_deadline normalized finite lower upper
    rw [nanos1, exact.value_eq, ← total]
    exact abs_tdiv_four _

/-- A clock before the epoch, a timeout of a quarter nanosecond and an endless one. -/
theorem osDeadline_of_timeout_before_epoch :
    ¬(osDeadline ⟨-1, 999999999⟩ inf).Before (osDeadline (⟨-1, 999999999⟩ : Timespec 64) ⟨0, 1⟩) ∧
      |(osDeadline (⟨-1, 999999999⟩ : Timespec 64) ⟨0, 1⟩).nanos * 4 - (-1 * 4 + 1)| < 4 := by
  have result := osDeadline_of_timeout ⟨-1, 999999999⟩ ⟨0, 1⟩ inf (by decide) (by decide) (by decide) (by decide)
  exact ⟨result.2.1, result.2.2.2 (by decide) (by decide) (by decide)⟩

end Time

end Rbc
