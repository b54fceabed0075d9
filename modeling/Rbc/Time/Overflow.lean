import Rbc.Time.Factories

namespace Rbc

namespace Duration

/-- `rbc_duration_add` where C defines every `i64` in it. -/
def checkedAdd (lhs rhs : Duration) : Option Duration :=
  if lhs.isInf then
    some lhs
  else if rhs.isInf then
    some rhs
  else do
    let carry := ticksPerSecond - rhs.ticks ≤ lhs.ticks
    let secs ← CheckedInt.add lhs.secs rhs.secs
    let secs ← (if carry then CheckedInt.add secs 1 else some secs)
    let ticks := if carry then lhs.ticks - ticksPerSecond else lhs.ticks
    let ticks := ticks + rhs.ticks
    some <| if (if rhs.secs < 0 then lhs.secs < secs else secs < lhs.secs) then
      if rhs.secs < 0 then negInf else inf
    else
      ⟨secs, ticks⟩

def checkedSub (lhs rhs : Duration) : Option Duration :=
  if lhs.isInf then
    some lhs
  else if rhs.isInf then
    some (if 0 < rhs.secs then negInf else inf)
  else do
    let borrow := lhs.ticks < rhs.ticks
    let secs ← CheckedInt.sub lhs.secs rhs.secs
    let secs ← (if borrow then CheckedInt.sub secs 1 else some secs)
    let ticks := if borrow then lhs.ticks + ticksPerSecond else lhs.ticks
    let ticks := ticks - rhs.ticks
    some <| if (if rhs.secs < 0 then secs < lhs.secs else lhs.secs < secs) then
      if 0 ≤ rhs.secs then negInf else inf
    else
      ⟨secs, ticks⟩

/-- The common body of `to_ns`, `to_us` and `to_ms` where C defines it. -/
def checkedToSubsecond (perSecond : Int64) (perUnit : UInt32) (self : Duration) : Option Int64 :=
  if self.isInf then
    some self.secs
  else do
    let product ← CheckedInt.mul self.secs perSecond
    CheckedInt.add product (Int64.ofNat (self.ticks / perUnit).toNat)

def checkedToNs : Duration → Option Int64 := checkedToSubsecond nanosecondsPerSecond ticksPerNanosecond

def checkedToUs : Duration → Option Int64 := checkedToSubsecond microsecondsPerSecond (ticksPerNanosecond * 1000)

def checkedToMs : Duration → Option Int64 :=
  checkedToSubsecond millisecondsPerSecond (ticksPerNanosecond * 1000 * 1000)

variable {a b d : Duration}

theorem eq_of_checkedAdd {r : Duration} (defined : checkedAdd a b = some r) : add a b = r := by
  refine CheckedInt.eq_of_ite Option.some.inj (CheckedInt.eq_of_ite Option.some.inj ?_) defined
  intro defined
  obtain ⟨sum, first, defined⟩ := Option.bind_eq_some_iff.mp defined
  obtain ⟨secs, second, defined⟩ := Option.bind_eq_some_iff.mp defined
  have same := CheckedInt.eq_of_ite CheckedInt.eq_of_add Option.some.inj second
  rw [← CheckedInt.eq_of_add first] at same
  dsimp only
  rw [same]
  exact Option.some.inj defined

theorem eq_of_checkedSub {r : Duration} (defined : checkedSub a b = some r) : sub a b = r := by
  refine CheckedInt.eq_of_ite Option.some.inj (CheckedInt.eq_of_ite Option.some.inj ?_) defined
  intro defined
  obtain ⟨difference, first, defined⟩ := Option.bind_eq_some_iff.mp defined
  obtain ⟨secs, second, defined⟩ := Option.bind_eq_some_iff.mp defined
  have same := CheckedInt.eq_of_ite CheckedInt.eq_of_sub Option.some.inj second
  rw [← CheckedInt.eq_of_sub first] at same
  dsimp only
  rw [same]
  exact Option.some.inj defined

theorem isSome_checkedAdd (fa : a.Finite) (fb : b.Finite) :
    (checkedAdd a b).isSome ↔
      minTotal ≤ a.total + b.total ∧ a.total + b.total ≤ maxTotal ∧ -2 ^ 63 ≤ a.secs.toInt + b.secs.toInt := by
  have ta := finite_iff.mp fa
  have tb := finite_iff.mp fb
  rw [checkedAdd, if_neg (by simp [fa.isInf_eq_false]), if_neg (by simp [fb.isInf_eq_false])]
  refine (CheckedInt.isSome_two_steps (· + 1) fun _ => rfl).trans ?_
  rw [carry_iff fb]
  unfold CheckedInt.InRange minTotal maxTotal total
  omega

theorem isSome_checkedSub (fa : a.Finite) (fb : b.Finite) :
    (checkedSub a b).isSome ↔
      minTotal ≤ a.total - b.total ∧ a.total - b.total ≤ maxTotal ∧ a.secs.toInt - b.secs.toInt < 2 ^ 63 := by
  have ta := finite_iff.mp fa
  have tb := finite_iff.mp fb
  rw [checkedSub, if_neg (by simp [fa.isInf_eq_false]), if_neg (by simp [fb.isInf_eq_false])]
  refine (CheckedInt.isSome_two_steps (· - 1) fun _ => rfl).trans ?_
  rw [UInt32.lt_iff_toNat_lt]
  unfold CheckedInt.InRange minTotal maxTotal total
  omega

/-- Addition and subtraction stay within `i64` exactly when an operand is
infinite, or the result is finite and the seconds alone do not leave the range
on the side from which the carry or the borrow would bring them back. -/
theorem add_sub_defined_iff (a b : Duration) (ha : a.Valid) (hb : b.Valid) :
    (checkedAdd a b = some (add a b) ↔ (a.Finite → b.Finite →
      minTotal ≤ a.total + b.total ∧ a.total + b.total ≤ maxTotal ∧ -2 ^ 63 ≤ a.secs.toInt + b.secs.toInt)) ∧
    (checkedSub a b = some (sub a b) ↔ (a.Finite → b.Finite →
      minTotal ≤ a.total - b.total ∧ a.total - b.total ≤ maxTotal ∧ a.secs.toInt - b.secs.toInt < 2 ^ 63)) := by
  rw [CheckedInt.eq_some_iff_isSome fun r => eq_of_checkedAdd,
    CheckedInt.eq_some_iff_isSome fun r => eq_of_checkedSub]
  by_cases fa : a.Finite
  · by_cases fb : b.Finite
    · rw [isSome_checkedAdd fa fb, isSome_checkedSub fa fb]
      exact ⟨⟨fun range _ _ => range, fun range => range fa fb⟩, ⟨fun range _ _ => range, fun range => range fa fb⟩⟩
    · have infinite := hb.isInf_of_not_finite fb
      have left : ¬a.isInf = true := by simp [fa.isInf_eq_false]
      rw [checkedAdd, if_neg left, if_pos infinite, checkedSub, if_neg left, if_pos infinite]
      exact ⟨iff_of_true rfl fun _ finite => absurd finite fb, iff_of_true rfl fun _ finite => absurd finite fb⟩
  · have infinite := ha.isInf_of_not_finite fa
    rw [checkedAdd, checkedSub, if_pos infinite, if_pos infinite]
    exact ⟨iff_of_true rfl fun finite => absurd finite fa, iff_of_true rfl fun finite => absurd finite fa⟩

/-- A second more than the greatest number of seconds. -/
theorem one_second_too_many :
    Valid ⟨Int64.maxValue, 0⟩ ∧ Valid ⟨1, 0⟩ ∧ checkedAdd ⟨Int64.maxValue, 0⟩ ⟨1, 0⟩ = none := by decide

/-- A carry that stays in range. -/
theorem add_sub_defined_of_carry :
    checkedAdd ⟨Int64.maxValue - 1, 3999999999⟩ ⟨0, 1⟩ = some (add ⟨Int64.maxValue - 1, 3999999999⟩ ⟨0, 1⟩) :=
  ((add_sub_defined_iff ⟨Int64.maxValue - 1, 3999999999⟩ ⟨0, 1⟩ (by decide) (by decide)).1).mpr
    fun _ _ => by decide

theorem eq_of_checkedToSubsecond {perSecond : Int64} {perUnit : UInt32} {n : Int64}
    (defined : checkedToSubsecond perSecond perUnit d = some n) : toSubsecond perSecond perUnit d = n := by
  refine CheckedInt.eq_of_ite Option.some.inj ?_ defined
  intro defined
  obtain ⟨product, mul, defined⟩ := Option.bind_eq_some_iff.mp defined
  rw [CheckedInt.eq_of_mul mul, CheckedInt.eq_of_add defined]

/-- The product of the seconds may leave the range that the sum comes back to. -/
theorem isSome_checkedToSubsecond (finite : d.Finite) {perSecond : Int64} {perUnit : UInt32}
    (unit : (perUnit.toNat : ℤ) * perSecond.toInt = 4000000000) :
    (checkedToSubsecond perSecond perUnit d).isSome ↔
      CheckedInt.InRange (d.secs.toInt * perSecond.toInt) ∧ CheckedInt.InRange (d.total / perUnit.toNat) := by
  rw [checkedToSubsecond, if_neg (by simp [finite.isInf_eq_false]), TimeUnit.total_ediv unit]
  by_cases fits : CheckedInt.InRange (d.secs.toInt * perSecond.toInt)
  · obtain ⟨product, mul, productEq⟩ := CheckedInt.exists_checked fits.1 fits.2
    rw [show CheckedInt.mul d.secs perSecond = some product from mul, Option.bind_eq_bind, Option.bind_some,
      CheckedInt.add, CheckedInt.isSome_checked, productEq, TimeUnit.toInt_ticks_div]
    exact (and_iff_right fits).symm
  · rw [show CheckedInt.mul d.secs perSecond = none from CheckedInt.checked_of_outside fits]
    exact iff_of_false (by simp) fun both => fits both.1

end Duration

namespace TimeUnit

open Duration

/-- Making a duration and counting its units again is defined where the whole
seconds of the duration still are an `i64` of units. -/
theorem roundTrip_defined_iff {u : TimeUnit} {perSecond : Int64} {perUnit : UInt32} (x : Int64)
    (ticks : u.ticks = perUnit.toNat) (unit : (perUnit.toNat : ℤ) * perSecond.toInt = 4000000000)
    (count : u.count = toSubsecond perSecond perUnit) (short : u.ticks ≤ TimeUnit.ticks .s) :
    (u.checkedMake x).bind (checkedToSubsecond perSecond perUnit) = some x ↔
      CheckedInt.InRange (x.toInt / perSecond.toInt * perSecond.toInt) := by
  obtain ⟨finite, total⟩ := make_of_exact (exact_of_short short x)
  have back := count_make (exact_of_short short x)
  have exact : (u.make x).total / perUnit.toNat = x.toInt := by
    rw [total, ticks, Int.mul_ediv_cancel]
    exact ticks ▸ u.ticks_pos.ne'
  have secs : x.toInt / perSecond.toInt = (u.make x).secs.toInt := by
    have below := finite_iff.mp finite
    rw [← exact, Int.ediv_ediv_of_nonneg (Int.natCast_nonneg _), unit]
    unfold Duration.total
    omega
  have fits : CheckedInt.InRange x.toInt := ⟨x.le_toInt, x.toInt_lt⟩
  rw [count] at back
  rw [u.checkedMake_eq, ← make_eq, Option.bind_some,
    CheckedInt.eq_some_iff_isSome fun c defined => back.symm.trans (eq_of_checkedToSubsecond defined),
    isSome_checkedToSubsecond finite unit, exact, secs, and_iff_left fits]

end TimeUnit

namespace Duration

/-- The least multiple of a second that an `i64` of units holds is where the
accessors begin to be defined on what the factories make. -/
theorem accessor_factory_defined_iff (x : Int64) :
    ((TimeUnit.ns.checkedMake x).bind checkedToNs = some x ↔ -9223372036000000000 ≤ x.toInt) ∧
    ((TimeUnit.us.checkedMake x).bind checkedToUs = some x ↔ -9223372036854000000 ≤ x.toInt) ∧
    ((TimeUnit.ms.checkedMake x).bind checkedToMs = some x ↔ -9223372036854775000 ≤ x.toInt) := by
  have lower := x.le_toInt
  have upper := x.toInt_lt
  have nano : nanosecondsPerSecond.toInt = 1000000000 := rfl
  have micro : microsecondsPerSecond.toInt = 1000000 := rfl
  have milli : millisecondsPerSecond.toInt = 1000 := rfl
  refine ⟨?_, ?_, ?_⟩
  · refine (TimeUnit.roundTrip_defined_iff (u := .ns) x rfl rfl rfl (by decide)).trans ?_
    rw [nano]
    unfold CheckedInt.InRange
    omega
  · refine (TimeUnit.roundTrip_defined_iff (u := .us) x rfl rfl rfl (by decide)).trans ?_
    rw [micro]
    unfold CheckedInt.InRange
    omega
  · refine (TimeUnit.roundTrip_defined_iff (u := .ms) x rfl rfl rfl (by decide)).trans ?_
    rw [milli]
    unfold CheckedInt.InRange
    omega

/-- The least `i64` is not a whole number of seconds in any of the units. -/
theorem least_roundTrip_undefined :
    (TimeUnit.ns.checkedMake Int64.minValue).bind checkedToNs = none ∧
    (TimeUnit.us.checkedMake Int64.minValue).bind checkedToUs = none ∧
    (TimeUnit.ms.checkedMake Int64.minValue).bind checkedToMs = none := by decide

end Duration

end Rbc
