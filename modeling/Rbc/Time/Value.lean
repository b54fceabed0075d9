import Rbc.Basis.Saturation
import Rbc.Time.Duration

namespace Rbc.Duration

open Saturation

/-- A finite duration has less than a second in ticks. -/
def Finite (d : Duration) : Prop := d.ticks < ticksPerSecond

/-- The representations the library produces: finite ones and two infinities. -/
def Valid (d : Duration) : Prop := d.Finite ∨ d = inf ∨ d = negInf

instance (d : Duration) : Decidable d.Finite := inferInstanceAs (Decidable (_ < _))

instance (d : Duration) : Decidable d.Valid := inferInstanceAs (Decidable (_ ∨ _))

/-- The ticks that the fields of a finite duration add up to. -/
def total (d : Duration) : ℤ := d.secs.toInt * 4000000000 + d.ticks.toNat

/-- What a duration denotes: an integer number of ticks or an infinity. -/
def value (d : Duration) : ExtInt :=
  if d.isInf then (if d.secs < 0 then ⊥ else ⊤) else fin d.total

/-- The least and the greatest number of ticks a finite duration denotes. -/
def minTotal : ℤ := -2 ^ 63 * 4000000000

def maxTotal : ℤ := (2 ^ 63 - 1) * 4000000000 + 3999999999

theorem finite_iff {d : Duration} : d.Finite ↔ d.ticks.toNat < 4000000000 := by
  rw [Finite, UInt32.lt_iff_toNat_lt]
  rfl

theorem isInf_iff {d : Duration} : d.isInf = true ↔ d.ticks.toNat = 4294967295 := by
  rw [isInf, beq_iff_eq, ← UInt32.toNat_inj]
  rfl

theorem Finite.isInf_eq_false {d : Duration} (finite : d.Finite) : d.isInf = false := by
  rw [Bool.eq_false_iff, ne_eq, isInf_iff]
  have := finite_iff.mp finite
  omega

theorem Finite.value_eq {d : Duration} (finite : d.Finite) : d.value = fin d.total := by
  rw [value, finite.isInf_eq_false]
  rfl

theorem Finite.ne_inf {d : Duration} (finite : d.Finite) : d ≠ inf := by
  rintro rfl
  exact absurd finite (by decide)

theorem Finite.ne_negInf {d : Duration} (finite : d.Finite) : d ≠ negInf := by
  rintro rfl
  exact absurd finite (by decide)

@[simp] theorem value_inf : inf.value = ⊤ := by decide

@[simp] theorem value_negInf : negInf.value = ⊥ := by decide

theorem Finite.valid {d : Duration} (finite : d.Finite) : d.Valid := Or.inl finite

theorem valid_inf : inf.Valid := Or.inr (Or.inl rfl)

theorem valid_negInf : negInf.Valid := Or.inr (Or.inr rfl)

theorem Finite.total_mem {d : Duration} (finite : d.Finite) : minTotal ≤ d.total ∧ d.total ≤ maxTotal := by
  have lower := d.secs.le_toInt
  have upper := d.secs.toInt_lt
  have ticks := finite_iff.mp finite
  unfold total minTotal maxTotal
  omega

/-- The duration nearest to a number of ticks: the seconds are rounded down,
what is out of range becomes an infinity. -/
def ofTicks (z : ℤ) : Duration :=
  if z < minTotal then negInf
  else if maxTotal < z then inf
  else ⟨Int64.ofInt (z / 4000000000), UInt32.ofNat (z % 4000000000).toNat⟩

theorem ofTicks_of_lt {z : ℤ} (under : z < minTotal) : ofTicks z = negInf := if_pos under

theorem ofTicks_of_gt {z : ℤ} (beyond : maxTotal < z) : ofTicks z = inf := by
  have range : minTotal ≤ maxTotal := by decide
  rw [ofTicks, if_neg (by omega), if_pos beyond]

/-- A duration is the only one with its fields in range and its total. -/
theorem ofTicks_of_fields {z : ℤ} {secs : Int64} {ticks : UInt32}
    (total : z = secs.toInt * 4000000000 + ticks.toNat) (finite : ticks.toNat < 4000000000) :
    ofTicks z = ⟨secs, ticks⟩ := by
  have lower := secs.le_toInt
  have upper := secs.toInt_lt
  have quotient : z / 4000000000 = secs.toInt := by omega
  have remainder : (z % 4000000000).toNat = ticks.toNat := by omega
  rw [ofTicks, if_neg (by unfold minTotal; omega), if_neg (by unfold maxTotal; omega), quotient,
    remainder, Int64.ofInt_toInt, UInt32.ofNat_toNat]

theorem Finite.ofTicks_total {d : Duration} (finite : d.Finite) : ofTicks d.total = d :=
  ofTicks_of_fields rfl (finite_iff.mp finite)

theorem ofTicks_of_mem {z : ℤ} (lower : minTotal ≤ z) (upper : z ≤ maxTotal) :
    (ofTicks z).Finite ∧ (ofTicks z).total = z := by
  unfold minTotal at lower
  unfold maxTotal at upper
  have secs : (Int64.ofInt (z / 4000000000)).toInt = z / 4000000000 :=
    Int64.toInt_ofInt_of_le (by omega) (by omega)
  have ticks : (UInt32.ofNat (z % 4000000000).toNat).toNat = (z % 4000000000).toNat :=
    UInt32.toNat_ofNat_of_lt' (by unfold UInt32.size; omega)
  rw [ofTicks, if_neg (by unfold minTotal; omega), if_neg (by unfold maxTotal; omega), finite_iff, total]
  simp only [secs, ticks]
  omega

theorem valid_ofTicks (z : ℤ) : (ofTicks z).Valid := by
  by_cases under : z < minTotal
  · rw [ofTicks_of_lt under]
    exact valid_negInf
  by_cases beyond : maxTotal < z
  · rw [ofTicks_of_gt beyond]
    exact valid_inf
  exact (ofTicks_of_mem (by omega) (by omega)).1.valid

theorem value_ofTicks (z : ℤ) : (ofTicks z).value = clamp minTotal maxTotal z := by
  by_cases under : z < minTotal
  · rw [ofTicks_of_lt under, value_negInf, clamp, if_pos under]
  by_cases beyond : maxTotal < z
  · rw [ofTicks_of_gt beyond, value_inf, clamp, if_neg under, if_pos beyond]
  obtain ⟨finite, total⟩ := ofTicks_of_mem (show minTotal ≤ z by omega) (show z ≤ maxTotal by omega)
  rw [finite.value_eq, total, clamp_of_mem (by omega) (by omega)]

theorem Valid.cases {d : Duration} (valid : d.Valid) :
    d = negInf ∧ d.value = ⊥ ∨ d = inf ∧ d.value = ⊤ ∨ d.Finite ∧ d.value = fin d.total := by
  rcases valid with finite | rfl | rfl
  · exact Or.inr (Or.inr ⟨finite, finite.value_eq⟩)
  · exact Or.inr (Or.inl ⟨rfl, value_inf⟩)
  · exact Or.inl ⟨rfl, value_negInf⟩

def ofValue : ExtInt → Duration
  | ⊥ => negInf
  | some ⊤ => inf
  | some (some z) => ofTicks z

theorem Valid.ofValue_value {d : Duration} (valid : d.Valid) : ofValue d.value = d := by
  rcases valid.cases with ⟨rfl, value⟩ | ⟨rfl, value⟩ | ⟨finite, value⟩
  · rw [value]
    rfl
  · rw [value]
    rfl
  · rw [value]
    exact finite.ofTicks_total

theorem Valid.eq_of_value_eq {a b : Duration} (ha : a.Valid) (hb : b.Valid) (same : a.value = b.value) :
    a = b := by
  rw [← ha.ofValue_value, same, hb.ofValue_value]

end Rbc.Duration
