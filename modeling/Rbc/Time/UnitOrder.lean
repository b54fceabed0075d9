import Rbc.Time.Order
import Rbc.Time.Units

namespace Rbc.TimeUnit

open Duration Saturation

/-- The exact number of units in a finite duration, rounded down. -/
def whole (u : TimeUnit) (d : Duration) : ℤ := d.total / u.ticks

/-- A duration too long for an `i64` of units has the extreme one for its count. -/
structure Saturates (u : TimeUnit) (d : Duration) : Prop where
  long : d = inf ∨ d.Finite ∧ 2 ^ 63 ≤ u.whole d → (u.count d).toInt = 2 ^ 63 - 1
  longBefore : d = negInf ∨ d.Finite ∧ u.whole d < -2 ^ 63 → (u.count d).toInt = -2 ^ 63

/-- The counts are in the order of the durations, and none of them wraps. -/
structure KeepsOrder (u : TimeUnit) (a b : Duration) : Prop where
  ordered : (u.count a).toInt ≤ (u.count b).toInt
  saturates : u.Saturates a ∧ u.Saturates b

/-- An `i64` holds the exact count, or differs by whole ranges from the end that the count lies
beyond. A count of seconds or more always fits. -/
def CountFits (u : TimeUnit) (d : Duration) : Prop :=
  ticks .s ≤ u.ticks ∨ ¬d.Finite ∨ -2 ^ 63 ≤ u.whole d ∧ u.whole d < 2 ^ 63 ∨
    2 ^ 63 ≤ u.whole d ∧ 2 ^ 64 ∣ 2 ^ 63 - 1 - u.whole d ∨ u.whole d < -2 ^ 63 ∧ 2 ^ 64 ∣ -2 ^ 63 - u.whole d

instance (u : TimeUnit) (d : Duration) : Decidable (u.CountFits d) := inferInstanceAs (Decidable (_ ∨ _))

variable {u : TimeUnit} {a b d : Duration}

theorem count_negInf (u : TimeUnit) : (u.count negInf).toInt = -2 ^ 63 := by cases u <;> decide

theorem count_inf (u : TimeUnit) : (u.count inf).toInt = 2 ^ 63 - 1 := by cases u <;> decide

theorem saturates_inf (u : TimeUnit) : u.Saturates inf := by
  refine ⟨fun _ => count_inf u, ?_⟩
  rintro (other | ⟨finite, -⟩)
  · exact absurd other (by decide)
  · exact absurd rfl finite.ne_inf

theorem saturates_negInf (u : TimeUnit) : u.Saturates negInf := by
  refine ⟨?_, fun _ => count_negInf u⟩
  rintro (other | ⟨finite, -⟩)
  · exact absurd other (by decide)
  · exact absurd rfl finite.ne_negInf

theorem saturates_of_finite (finite : d.Finite) (long : 2 ^ 63 ≤ u.whole d → (u.count d).toInt = 2 ^ 63 - 1)
    (longBefore : u.whole d < -2 ^ 63 → (u.count d).toInt = -2 ^ 63) : u.Saturates d := by
  constructor
  · rintro (endless | ⟨-, beyond⟩)
    · exact absurd endless finite.ne_inf
    · exact long beyond
  · rintro (endless | ⟨-, below⟩)
    · exact absurd endless finite.ne_negInf
    · exact longBefore below

/-- The seconds of a duration are an `i64` themselves. -/
theorem whole_mem_of_long (long : ticks .s ≤ u.ticks) (finite : d.Finite) :
    -2 ^ 63 ≤ u.whole d ∧ u.whole d < 2 ^ 63 := by
  obtain ⟨lower, upper⟩ := finite.total_mem
  unfold minTotal at lower
  unfold maxTotal at upper
  unfold whole
  cases u with
  | ns | us | ms => exact absurd long (by decide)
  | s =>
    show -2 ^ 63 ≤ d.total / 4000000000 ∧ d.total / 4000000000 < 2 ^ 63
    omega
  | min =>
    show -2 ^ 63 ≤ d.total / 240000000000 ∧ d.total / 240000000000 < 2 ^ 63
    omega
  | h =>
    show -2 ^ 63 ≤ d.total / 14400000000000 ∧ d.total / 14400000000000 < 2 ^ 63
    omega

theorem saturates_of_mem (finite : d.Finite) (lower : -2 ^ 63 ≤ u.whole d) (upper : u.whole d < 2 ^ 63) :
    u.Saturates d :=
  saturates_of_finite finite (fun beyond => absurd upper (not_lt.mpr beyond)) fun below => absurd lower (not_le.mpr below)

/-- A count of parts of a second is the exact one but for whole ranges of `i64`. -/
theorem count_wraps_iff {c : ℤ} (short : u.ticks < ticks .s) (finite : d.Finite) (lower : -2 ^ 63 ≤ c)
    (upper : c < 2 ^ 63) : (u.count d).toInt = c ↔ 2 ^ 64 ∣ c - u.whole d := by
  rw [toInt_count u finite, if_pos short, Int.bmod_eq_iff (by decide)]
  constructor
  · rintro ⟨-, -, turns⟩
    exact turns
  · exact fun turns => ⟨lower, upper, turns⟩

theorem saturates_iff_of_short (short : u.ticks < ticks .s) (finite : d.Finite) : u.Saturates d ↔ u.CountFits d := by
  have greatest : (u.count d).toInt = 2 ^ 63 - 1 ↔ 2 ^ 64 ∣ 2 ^ 63 - 1 - u.whole d :=
    count_wraps_iff short finite (by decide) (by decide)
  have least : (u.count d).toInt = -2 ^ 63 ↔ 2 ^ 64 ∣ -2 ^ 63 - u.whole d :=
    count_wraps_iff short finite (by decide) (by decide)
  constructor
  · intro saturates
    refine Or.inr (Or.inr ?_)
    by_cases beyond : 2 ^ 63 ≤ u.whole d
    · exact Or.inr (Or.inl ⟨beyond, greatest.mp (saturates.long (Or.inr ⟨finite, beyond⟩))⟩)
    by_cases below : u.whole d < -2 ^ 63
    · exact Or.inr (Or.inr ⟨below, least.mp (saturates.longBefore (Or.inr ⟨finite, below⟩))⟩)
    · exact Or.inl ⟨not_lt.mp below, not_le.mp beyond⟩
  · rintro (long | endless | ⟨lower, upper⟩ | ⟨beyond, turns⟩ | ⟨below, turns⟩)
    · exact absurd short (not_lt.mpr long)
    · exact absurd finite endless
    · exact saturates_of_mem finite lower upper
    · exact saturates_of_finite finite (fun _ => greatest.mpr turns) fun below => by omega
    · exact saturates_of_finite finite (fun beyond => by omega) fun _ => least.mpr turns

theorem saturates_iff (u : TimeUnit) (valid : d.Valid) : u.Saturates d ↔ u.CountFits d := by
  rcases valid with finite | rfl | rfl
  · by_cases long : ticks .s ≤ u.ticks
    · obtain ⟨lower, upper⟩ := whole_mem_of_long long finite
      exact iff_of_true (saturates_of_mem finite lower upper) (Or.inl long)
    · exact saturates_iff_of_short (not_le.mp long) finite
  · exact iff_of_true (saturates_inf u) (Or.inr (Or.inl (by decide)))
  · exact iff_of_true (saturates_negInf u) (Or.inr (Or.inl (by decide)))

/-- A count of parts of a second that saturates if it does not fit. -/
theorem count_of_saturates (short : u.ticks < ticks .s) (finite : d.Finite) (saturates : u.Saturates d) :
    2 ^ 63 ≤ u.whole d ∧ (u.count d).toInt = 2 ^ 63 - 1 ∨ u.whole d < -2 ^ 63 ∧ (u.count d).toInt = -2 ^ 63 ∨
      (-2 ^ 63 ≤ u.whole d ∧ u.whole d < 2 ^ 63) ∧ (u.count d).toInt = u.whole d := by
  by_cases beyond : 2 ^ 63 ≤ u.whole d
  · exact Or.inl ⟨beyond, saturates.long (Or.inr ⟨finite, beyond⟩)⟩
  by_cases below : u.whole d < -2 ^ 63
  · exact Or.inr (Or.inl ⟨below, saturates.longBefore (Or.inr ⟨finite, below⟩)⟩)
  · refine Or.inr (Or.inr ⟨⟨not_lt.mp below, not_le.mp beyond⟩, ?_⟩)
    rw [toInt_count u finite, if_pos short]
    exact Int.bmod_eq_of_le (not_lt.mp below) (not_le.mp beyond)

/-- What does not wrap keeps the order. -/
theorem count_le_of_saturates (fa : a.Finite) (fb : b.Finite) (shorter : a.total ≤ b.total) (sa : u.Saturates a)
    (sb : u.Saturates b) : (u.count a).toInt ≤ (u.count b).toInt := by
  by_cases long : ticks .s ≤ u.ticks
  · rw [toInt_count u fa, toInt_count u fb, if_neg (not_lt.mpr long), if_neg (not_lt.mpr long)]
    exact Int.tdiv_le_tdiv u.ticks_pos shorter
  · have below : u.whole a ≤ u.whole b := Int.ediv_le_ediv u.ticks_pos shorter
    have countA := count_of_saturates (not_le.mp long) fa sa
    have countB := count_of_saturates (not_le.mp long) fb sb
    omega

/-- The counts of two durations keep the order and saturate exactly if neither of them wraps. -/
theorem keepsOrder_iff (u : TimeUnit) (a b : Duration) (ha : a.Valid) (hb : b.Valid) (shorter : lt a b = true) :
    u.KeepsOrder a b ↔ u.CountFits a ∧ u.CountFits b := by
  rw [← saturates_iff u ha, ← saturates_iff u hb]
  refine ⟨KeepsOrder.saturates, fun ⟨sa, sb⟩ => ⟨?_, sa, sb⟩⟩
  have below := (ha.lt_iff hb).mp shorter
  have leastB := (u.count b).le_toInt
  have greatestA := (u.count a).toInt_lt
  rcases ha.cases with ⟨rfl, va⟩ | ⟨rfl, va⟩ | ⟨fa, va⟩
  · rw [count_negInf]
    exact leastB
  · rw [va] at below
    exact absurd below not_top_lt
  · rcases hb.cases with ⟨rfl, vb⟩ | ⟨rfl, vb⟩ | ⟨fb, vb⟩
    · rw [vb] at below
      exact absurd below not_lt_bot
    · rw [count_inf]
      omega
    · rw [va, vb, fin_lt_fin] at below
      exact count_le_of_saturates fa fb below.le sa sb

/-- The two durations in a unit that has room for them. -/
theorem keepsOrder_in_us : KeepsOrder .us ⟨0, 0⟩ ⟨9223372037, 0⟩ :=
  (keepsOrder_iff .us ⟨0, 0⟩ ⟨9223372037, 0⟩ (by decide) (by decide) (by decide)).mpr (by decide)

/-- No time at all against some three hundred years. -/
theorem three_hundred_years_wrap :
    Valid ⟨0, 0⟩ ∧ Valid ⟨9223372037, 0⟩ ∧ lt ⟨0, 0⟩ ⟨9223372037, 0⟩ = true ∧
      ¬KeepsOrder .ns ⟨0, 0⟩ ⟨9223372037, 0⟩ := by
  refine ⟨by decide, by decide, by decide, fun keeps => ?_⟩
  exact absurd keeps.ordered (by decide)

end Rbc.TimeUnit
