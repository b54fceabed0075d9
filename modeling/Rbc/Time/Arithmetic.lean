import Rbc.Basis.Wrap
import Rbc.Time.Value

namespace Rbc.Duration

open Saturation

theorem toNat_ticksPerSecond : ticksPerSecond.toNat = 4000000000 := rfl

/-- The test both operations make on their wrapped seconds. `y` is what the
seconds of the left operand move by: down by at most a full range or up by at
most one. -/
theorem overflow_test {left secs : Int64} {y z : ℤ} {ticks : UInt32} (down : Prop) [Decidable down]
    (wrapped : secs.toInt = (left.toInt + y).bmod (2 ^ 64)) (moveDown : down → -2 ^ 63 ≤ y ∧ y ≤ 0)
    (moveUp : ¬down → 0 ≤ y ∧ y ≤ 2 ^ 63) (finite : ticks.toNat < 4000000000)
    (denoted : z = (left.toInt + y) * 4000000000 + ticks.toNat) :
    (if (if down then left < secs else secs < left) then (if down then negInf else inf)
      else ⟨secs, ticks⟩) = ofTicks z := by
  have lower := left.le_toInt
  have upper := left.toInt_lt
  simp only [Int64.lt_iff_toInt_lt]
  by_cases direction : down
  · simp only [if_pos direction]
    obtain ⟨least, most⟩ := moveDown direction
    have cases := Wrap.bmod_sub_cases (m := 2 ^ 64) (a := left.toInt) (d := -y)
      (by omega) (by omega) (by omega) (by omega)
    rw [Int.sub_neg, ← wrapped] at cases
    by_cases under : left.toInt < secs.toInt
    · rw [if_pos under, ofTicks_of_lt (by unfold minTotal; omega)]
    · rw [if_neg under, ofTicks_of_fields (show _ = secs.toInt * 4000000000 + _ by omega) finite]
  · simp only [if_neg direction]
    obtain ⟨least, most⟩ := moveUp direction
    have cases := Wrap.bmod_add_cases (m := 2 ^ 64) (a := left.toInt) (d := y)
      (by omega) (by omega) (by omega) (by omega)
    rw [← wrapped] at cases
    by_cases beyond : secs.toInt < left.toInt
    · rw [if_pos beyond, ofTicks_of_gt (by unfold maxTotal; omega)]
    · rw [if_neg beyond, ofTicks_of_fields (show _ = secs.toInt * 4000000000 + _ by omega) finite]

/-- The test of `add`, whose right operand `right` may bring a carry `c`. -/
theorem add_overflow_test {left right secs : Int64} {c : ℤ} {z : ℤ} {ticks : UInt32}
    (wrapped : secs.toInt = (left.toInt + (right.toInt + c)).bmod (2 ^ 64)) (carry : 0 ≤ c ∧ c ≤ 1)
    (finite : ticks.toNat < 4000000000) (denoted : z = (left.toInt + (right.toInt + c)) * 4000000000 + ticks.toNat) :
    (if (if right < 0 then left < secs else secs < left) then (if right < 0 then negInf else inf)
      else ⟨secs, ticks⟩) = ofTicks z := by
  have lower := right.le_toInt
  have upper := right.toInt_lt
  have negative : right < 0 ↔ right.toInt < 0 := Int64.lt_iff_toInt_lt
  refine overflow_test (right < 0) wrapped ?_ ?_ finite denoted
  · intro down
    have below := negative.mp down
    omega
  · intro up
    have above := negative.not.mp up
    omega

theorem ite_neg_eq {α : Type} (n : Int64) (x y : α) :
    (if n < 0 then x else y) = if 0 ≤ n then y else x := by
  by_cases negative : n < 0
  · rw [if_pos negative, if_neg (Int64.not_le.mpr negative)]
  · rw [if_neg negative, if_pos (Int64.not_lt.mp negative)]

/-- The test of `sub`, whose right operand `right` may bring a borrow `c`. -/
theorem sub_overflow_test {left right secs : Int64} {c : ℤ} {z : ℤ} {ticks : UInt32}
    (wrapped : secs.toInt = (left.toInt + (-right.toInt - c)).bmod (2 ^ 64)) (borrow : 0 ≤ c ∧ c ≤ 1)
    (finite : ticks.toNat < 4000000000) (denoted : z = (left.toInt + (-right.toInt - c)) * 4000000000 + ticks.toNat) :
    (if (if right < 0 then secs < left else left < secs) then (if 0 ≤ right then negInf else inf)
      else ⟨secs, ticks⟩) = ofTicks z := by
  have lower := right.le_toInt
  have upper := right.toInt_lt
  have nonneg : 0 ≤ right ↔ 0 ≤ right.toInt := Int64.le_iff_toInt_le
  simp only [ite_neg_eq]
  refine overflow_test (0 ≤ right) wrapped ?_ ?_ finite denoted
  · intro down
    have above := nonneg.mp down
    omega
  · intro up
    have below := nonneg.not.mp up
    omega

/-- The carry is decided without computing the sum of the ticks, which could wrap. -/
theorem carry_iff {a b : Duration} (finite : b.Finite) :
    ticksPerSecond - b.ticks ≤ a.ticks ↔ 4000000000 ≤ a.ticks.toNat + b.ticks.toNat := by
  have ticks := finite_iff.mp finite
  rw [UInt32.le_iff_toNat_le, UInt32.toNat_sub, toNat_ticksPerSecond]
  omega

/-- `add` on finite durations adds what they denote and saturates. -/
theorem add_of_finite {a b : Duration} (fa : a.Finite) (fb : b.Finite) :
    add a b = ofTicks (a.total + b.total) := by
  have ta := finite_iff.mp fa
  have tb := finite_iff.mp fb
  rw [add, if_neg (by simp [fa.isInf_eq_false]), if_neg (by simp [fb.isInf_eq_false])]
  by_cases carry : ticksPerSecond - b.ticks ≤ a.ticks
  · have full := (carry_iff fb).mp carry
    have secs : (a.secs + b.secs + 1).toInt = (a.secs.toInt + (b.secs.toInt + 1)).bmod (2 ^ 64) := by
      rw [Int64.toInt_add, Int64.toInt_add, Int.bmod_add_bmod, add_assoc]
      rfl
    have ticks : (a.ticks - ticksPerSecond + b.ticks).toNat = a.ticks.toNat + b.ticks.toNat - 4000000000 := by
      rw [UInt32.toNat_add, UInt32.toNat_sub, toNat_ticksPerSecond]
      omega
    have finite : (a.ticks - ticksPerSecond + b.ticks).toNat < 4000000000 := by omega
    simp only [if_pos carry]
    refine add_overflow_test secs (by decide) finite ?_
    rw [ticks, total, total]
    omega
  · have room := (carry_iff fb).not.mp carry
    have ticks : (a.ticks + b.ticks).toNat = a.ticks.toNat + b.ticks.toNat := by
      rw [UInt32.toNat_add]
      omega
    have finite : (a.ticks + b.ticks).toNat < 4000000000 := by omega
    have secs : (a.secs + b.secs).toInt = (a.secs.toInt + (b.secs.toInt + 0)).bmod (2 ^ 64) := by
      rw [Int64.toInt_add, Int.add_zero]
    simp only [if_neg carry]
    refine add_overflow_test secs (by decide) finite ?_
    rw [ticks, total, total]
    omega

theorem sub_of_finite {a b : Duration} (fa : a.Finite) (fb : b.Finite) :
    sub a b = ofTicks (a.total - b.total) := by
  have ta := finite_iff.mp fa
  have tb := finite_iff.mp fb
  have guard : a.ticks < b.ticks ↔ a.ticks.toNat < b.ticks.toNat := UInt32.lt_iff_toNat_lt
  rw [sub, if_neg (by simp [fa.isInf_eq_false]), if_neg (by simp [fb.isInf_eq_false])]
  by_cases borrow : a.ticks < b.ticks
  · have less := guard.mp borrow
    have secs : (a.secs - b.secs - 1).toInt = (a.secs.toInt + (-b.secs.toInt - 1)).bmod (2 ^ 64) := by
      rw [Int64.toInt_sub, Int64.toInt_sub, Int.bmod_sub_bmod]
      congr 1
      simp only [Int64.toInt_one]
      omega
    have ticks : (a.ticks + ticksPerSecond - b.ticks).toNat = a.ticks.toNat + 4000000000 - b.ticks.toNat := by
      rw [UInt32.toNat_sub, UInt32.toNat_add, toNat_ticksPerSecond]
      omega
    have finite : (a.ticks + ticksPerSecond - b.ticks).toNat < 4000000000 := by omega
    simp only [if_pos borrow]
    refine sub_overflow_test secs (by decide) finite ?_
    rw [ticks, total, total]
    omega
  · have enough := guard.not.mp borrow
    have secs : (a.secs - b.secs).toInt = (a.secs.toInt + (-b.secs.toInt - 0)).bmod (2 ^ 64) := by
      rw [Int64.toInt_sub, Int.sub_zero, Int.sub_eq_add_neg]
    have ticks : (a.ticks - b.ticks).toNat = a.ticks.toNat - b.ticks.toNat := by
      rw [UInt32.toNat_sub]
      omega
    have finite : (a.ticks - b.ticks).toNat < 4000000000 := by omega
    simp only [if_neg borrow]
    refine sub_overflow_test secs (by decide) finite ?_
    rw [ticks, total, total]
    omega

theorem neg_of_finite {a : Duration} (fa : a.Finite) : neg a = ofTicks (-a.total) := by
  have ta := finite_iff.mp fa
  have la := a.secs.le_toInt
  have ua := a.secs.toInt_lt
  have least : a.secs = Int64.minValue ↔ a.secs.toInt = -2 ^ 63 := by
    rw [← Int64.toInt_inj]
    rfl
  rw [neg, if_neg (c := a.isInf = true) (by simp [fa.isInf_eq_false])]
  by_cases whole : a.ticks = 0
  · have zero : a.ticks.toNat = 0 := by rw [whole]; rfl
    rw [if_pos whole]
    by_cases bottom : a.secs = Int64.minValue
    · have value := least.mp bottom
      rw [if_pos bottom, ofTicks_of_gt]
      unfold maxTotal total
      omega
    · have above := least.not.mp bottom
      have secs : (-a.secs).toInt = -a.secs.toInt := by
        rw [Int64.toInt_neg, Int.bmod_eq_of_le (by omega) (by omega)]
      rw [if_neg bottom]
      refine (ofTicks_of_fields ?_ (by decide)).symm
      rw [secs, total, zero]
      simp
  · have positive : a.ticks.toNat ≠ 0 := fun zero => whole (UInt32.toNat_inj.mp zero)
    have secs : (~~~a.secs).toInt = -a.secs.toInt - 1 := by
      rw [Int64.toInt_not, Int.bmod_eq_of_le (by omega) (by omega)]
    have ticks : (ticksPerSecond - a.ticks).toNat = 4000000000 - a.ticks.toNat := by
      rw [UInt32.toNat_sub, toNat_ticksPerSecond]
      omega
    rw [if_neg whole]
    refine (ofTicks_of_fields ?_ (by omega)).symm
    rw [secs, ticks, total]
    omega

/-- What a saturating operation returns for the exact result `z`: the finite
duration that denotes `z` if there is one, otherwise the infinity on the side
where `z` lies beyond all of them. -/
def Saturates (z : ℤ) (d : Duration) : Prop :=
  (∃ f : Duration, f.Finite ∧ f.total = z) ∧ d.Finite ∧ d.total = z ∨
    (∀ f : Duration, f.Finite → f.total < z) ∧ d = inf ∨
    (∀ f : Duration, f.Finite → z < f.total) ∧ d = negInf

theorem saturates_ofTicks (z : ℤ) : Saturates z (ofTicks z) := by
  by_cases under : z < minTotal
  · exact Or.inr (Or.inr ⟨fun f finite => under.trans_le finite.total_mem.1, ofTicks_of_lt under⟩)
  by_cases beyond : maxTotal < z
  · exact Or.inr (Or.inl ⟨fun f finite => finite.total_mem.2.trans_lt beyond, ofTicks_of_gt beyond⟩)
  have exact := ofTicks_of_mem (show minTotal ≤ z by omega) (show z ≤ maxTotal by omega)
  exact Or.inl ⟨⟨ofTicks z, exact⟩, exact⟩

theorem add_of_isInf {a : Duration} (b : Duration) (infinite : a.isInf = true) : add a b = a := if_pos infinite

theorem sub_of_isInf {a : Duration} (b : Duration) (infinite : a.isInf = true) : sub a b = a := if_pos infinite

theorem Finite.add_right {a b : Duration} (fa : a.Finite) (infinite : b.isInf = true) : add a b = b := by
  rw [add, if_neg (by simp [fa.isInf_eq_false]), if_pos infinite]

theorem Finite.sub_inf {a : Duration} (fa : a.Finite) : sub a inf = negInf := by
  rw [sub, if_neg (by simp [fa.isInf_eq_false])]
  rfl

theorem Finite.sub_negInf {a : Duration} (fa : a.Finite) : sub a negInf = inf := by
  rw [sub, if_neg (by simp [fa.isInf_eq_false])]
  rfl

theorem Valid.infinite {d : Duration} (valid : d.Valid) (not : ¬d.Finite) : d = inf ∨ d = negInf :=
  valid.resolve_left not

theorem Valid.isInf_of_not_finite {d : Duration} (valid : d.Valid) (not : ¬d.Finite) : d.isInf = true := by
  rcases valid.infinite not with rfl | rfl <;> rfl

theorem Valid.add {a b : Duration} (ha : a.Valid) (hb : b.Valid) : (add a b).Valid := by
  by_cases fa : a.Finite
  · by_cases fb : b.Finite
    · rw [add_of_finite fa fb]
      exact valid_ofTicks _
    · rw [fa.add_right (hb.isInf_of_not_finite fb)]
      exact hb
  · rw [add_of_isInf b (ha.isInf_of_not_finite fa)]
    exact ha

theorem Valid.sub {a b : Duration} (ha : a.Valid) (hb : b.Valid) : (sub a b).Valid := by
  by_cases fa : a.Finite
  · by_cases fb : b.Finite
    · rw [sub_of_finite fa fb]
      exact valid_ofTicks _
    · rcases hb.infinite fb with rfl | rfl
      · rw [fa.sub_inf]
        exact valid_negInf
      · rw [fa.sub_negInf]
        exact valid_inf
  · rw [sub_of_isInf b (ha.isInf_of_not_finite fa)]
    exact ha

theorem Valid.neg {a : Duration} (ha : a.Valid) : (neg a).Valid := by
  rcases ha with fa | rfl | rfl
  · rw [neg_of_finite fa]
    exact valid_ofTicks _
  · exact valid_negInf
  · exact valid_inf

/-- The operations are closed, exact where the result is representable, and
saturate everywhere else. -/
theorem arithmetic_saturates (a b : Duration) (ha : a.Valid) (hb : b.Valid) :
    (add a b).Valid ∧ (sub a b).Valid ∧ (neg a).Valid ∧
    (a.Finite → b.Finite →
      Saturates (a.total + b.total) (add a b) ∧ Saturates (a.total - b.total) (sub a b)) ∧
    (a.Finite → Saturates (-a.total) (neg a)) ∧
    (¬a.Finite → add a b = a ∧ sub a b = a) ∧
    (a.Finite → b = inf → add a b = b ∧ sub a b = negInf) ∧
    (a.Finite → b = negInf → add a b = b ∧ sub a b = inf) ∧
    (a = inf → neg a = negInf) ∧ (a = negInf → neg a = inf) := by
  refine ⟨ha.add hb, ha.sub hb, ha.neg, ?_, ?_, ?_, ?_, ?_, ?_, ?_⟩
  · intro fa fb
    rw [add_of_finite fa fb, sub_of_finite fa fb]
    exact ⟨saturates_ofTicks _, saturates_ofTicks _⟩
  · intro fa
    rw [neg_of_finite fa]
    exact saturates_ofTicks _
  · intro infinite
    have flag := ha.isInf_of_not_finite infinite
    exact ⟨add_of_isInf b flag, sub_of_isInf b flag⟩
  · rintro fa rfl
    exact ⟨fa.add_right rfl, fa.sub_inf⟩
  · rintro fa rfl
    exact ⟨fa.add_right rfl, fa.sub_negInf⟩
  · rintro rfl
    rfl
  · rintro rfl
    rfl

/-- One tick more than the greatest finite duration. -/
theorem arithmetic_saturates_at_maximum :
    Saturates ((⟨Int64.maxValue, 3999999999⟩ : Duration).total + (⟨0, 1⟩ : Duration).total)
      (add ⟨Int64.maxValue, 3999999999⟩ ⟨0, 1⟩) :=
  ((arithmetic_saturates ⟨Int64.maxValue, 3999999999⟩ ⟨0, 1⟩ (by decide) (by decide)).2.2.2.1
    (by decide) (by decide)).1

end Rbc.Duration
