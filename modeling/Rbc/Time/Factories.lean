import Rbc.Basis.CheckedInt
import Rbc.Time.Order
import Rbc.Time.Units

namespace Rbc

namespace Duration

open Saturation

def us (n : Int64) : Duration := fromI64 n microsecondsPerSecond

def ms (n : Int64) : Duration := fromI64 n millisecondsPerSecond

/-- The common body of `rbc_duration_min` and `rbc_duration_h`. -/
def fromSeconds (perUnit n : Int64) : Duration :=
  if n ≤ Int64.maxValue / perUnit ∧ Int64.minValue / perUnit ≤ n then ⟨n * perUnit, 0⟩
  else if 0 < n then inf
  else negInf

def min (n : Int64) : Duration := fromSeconds secondsPerMinute n

def h (n : Int64) : Duration := fromSeconds secondsPerHour n

/-- `make_normalized_duration` where C defines every `i64` in it. -/
def checkedMakeNormalizedDuration (secs ticks : Int64) : Option Duration :=
  if ticks < 0 then do
    let secs ← CheckedInt.sub secs 1
    let ticks ← CheckedInt.add ticks 4000000000
    some (makeDuration secs ticks)
  else
    some (makeDuration secs ticks)

def checkedFromI64 (value ratio : Int64) : Option Duration := do
  let rem ← CheckedInt.mod value ratio
  let secs ← CheckedInt.div value ratio
  let product ← CheckedInt.mul rem 4000000000
  let ticks ← CheckedInt.div product ratio
  checkedMakeNormalizedDuration secs ticks

def checkedFromSeconds (perUnit n : Int64) : Option Duration := do
  let greatest ← CheckedInt.div Int64.maxValue perUnit
  let least ← CheckedInt.div Int64.minValue perUnit
  if n ≤ greatest ∧ least ≤ n then do
    let secs ← CheckedInt.mul n perUnit
    some ⟨secs, 0⟩
  else if 0 < n then some inf
  else some negInf

theorem eq_of_checkedMakeNormalizedDuration {secs ticks : Int64} {d : Duration}
    (defined : checkedMakeNormalizedDuration secs ticks = some d) : makeNormalizedDuration secs ticks = d := by
  refine CheckedInt.eq_of_ite ?_ Option.some.inj defined
  intro defined
  obtain ⟨floor, sub, defined⟩ := Option.bind_eq_some_iff.mp defined
  obtain ⟨rest, add, defined⟩ := Option.bind_eq_some_iff.mp defined
  rw [CheckedInt.eq_of_sub sub, CheckedInt.eq_of_add add]
  exact Option.some.inj defined

theorem eq_of_checkedFromI64 {value ratio : Int64} {d : Duration} (defined : checkedFromI64 value ratio = some d) :
    fromI64 value ratio = d := by
  obtain ⟨rem, mod, defined⟩ := Option.bind_eq_some_iff.mp defined
  obtain ⟨secs, div, defined⟩ := Option.bind_eq_some_iff.mp defined
  obtain ⟨product, mul, defined⟩ := Option.bind_eq_some_iff.mp defined
  obtain ⟨ticks, scaled, defined⟩ := Option.bind_eq_some_iff.mp defined
  rw [fromI64, CheckedInt.eq_of_mod mod, CheckedInt.eq_of_div div, CheckedInt.eq_of_mul mul, CheckedInt.eq_of_div scaled]
  exact eq_of_checkedMakeNormalizedDuration defined

theorem eq_of_checkedFromSeconds {perUnit n : Int64} {d : Duration}
    (defined : checkedFromSeconds perUnit n = some d) : fromSeconds perUnit n = d := by
  obtain ⟨greatest, upper, defined⟩ := Option.bind_eq_some_iff.mp defined
  obtain ⟨least, lower, defined⟩ := Option.bind_eq_some_iff.mp defined
  rw [fromSeconds, CheckedInt.eq_of_div upper, CheckedInt.eq_of_div lower]
  refine CheckedInt.eq_of_ite ?_ (CheckedInt.eq_of_ite Option.some.inj Option.some.inj) defined
  intro defined
  obtain ⟨secs, mul, defined⟩ := Option.bind_eq_some_iff.mp defined
  rw [CheckedInt.eq_of_mul mul]
  exact Option.some.inj defined

/-- Ticks of either sign below one second are carried into the seconds. -/
theorem checkedMakeNormalizedDuration_eq {secs ticks : Int64} {z : ℤ}
    (sum : z = secs.toInt * 4000000000 + ticks.toInt) (lower : -4000000000 < ticks.toInt)
    (upper : ticks.toInt < 4000000000) (room : ticks.toInt < 0 → -2 ^ 63 < secs.toInt) :
    checkedMakeNormalizedDuration secs ticks = some (ofTicks z) := by
  have above := secs.toInt_lt
  have negative : ticks < 0 ↔ ticks.toInt < 0 := Int64.lt_iff_toInt_lt
  unfold checkedMakeNormalizedDuration
  by_cases below : ticks < 0
  · have sign := negative.mp below
    obtain ⟨floor, sub, floorEq⟩ := CheckedInt.exists_checked (z := secs.toInt - 1) (by omega) (by omega)
    obtain ⟨rest, add, restEq⟩ := CheckedInt.exists_checked (z := ticks.toInt + 4000000000) (by omega) (by omega)
    have same := toNat_toUInt32 (n := rest) (by omega) (by omega)
    rw [if_pos below, show CheckedInt.sub secs 1 = some floor from sub, Option.bind_eq_bind, Option.bind_some,
      show CheckedInt.add ticks 4000000000 = some rest from add, Option.bind_some]
    exact congrArg some (ofTicks_of_fields (by omega) (by omega)).symm
  · have sign := negative.not.mp below
    have same := toNat_toUInt32 (n := ticks) (by omega) (by omega)
    rw [if_neg below]
    exact congrArg some (ofTicks_of_fields (by omega) (by omega)).symm

/-- A number of parts of a second is turned into seconds and ticks without loss
and without overflow. -/
theorem checkedFromI64_eq {ratio : Int64} {unit : ℤ} (positive : 1 ≤ ratio.toInt) (small : ratio.toInt ≤ 1000000000)
    (whole : ratio.toInt * unit = 4000000000) (value : Int64) :
    checkedFromI64 value ratio = some (ofTicks (value.toInt * unit)) := by
  have least := value.le_toInt
  obtain ⟨rem, mod, remEq⟩ := CheckedInt.exists_mod (x := value) positive
  obtain ⟨secs, div, secsEq⟩ := CheckedInt.exists_div (x := value) positive
  have remLower : -ratio.toInt < rem.toInt := remEq ▸ Int.lt_tmod_of_pos value.toInt (by omega)
  have remUpper : rem.toInt < ratio.toInt := remEq ▸ Int.tmod_lt_of_pos value.toInt (by omega)
  have parts : ratio.toInt * secs.toInt + rem.toInt = value.toInt := by
    rw [secsEq, remEq, Int.mul_tdiv_add_tmod]
  obtain ⟨product, mul, productEq⟩ := CheckedInt.exists_checked (z := rem.toInt * 4000000000) (by omega) (by omega)
  obtain ⟨ticks, scaled, ticksEq⟩ := CheckedInt.exists_div (x := product) positive
  have unitPos : 0 < unit := (mul_pos_iff_of_pos_left (show 0 < ratio.toInt by omega)).mp (by omega)
  have exact : ticks.toInt = rem.toInt * unit := by
    rw [ticksEq, productEq, ← whole, Int.mul_comm ratio.toInt, ← Int.mul_assoc]
    exact Int.mul_tdiv_cancel _ (by omega)
  have ticksLower := Int.mul_lt_mul_of_pos_right remLower unitPos
  have ticksUpper := Int.mul_lt_mul_of_pos_right remUpper unitPos
  rw [Int.neg_mul, whole, ← exact] at ticksLower
  rw [whole, ← exact] at ticksUpper
  rw [checkedFromI64, mod, div, Option.bind_eq_bind, Option.bind_some, Option.bind_some,
    show CheckedInt.mul rem 4000000000 = some product from mul, Option.bind_some, scaled, Option.bind_some]
  refine checkedMakeNormalizedDuration_eq ?_ ticksLower ticksUpper ?_
  · rw [← parts, exact, ← whole]
    ring
  · intro negative
    have below : rem.toInt < 0 := by
      by_contra nonneg
      have product := Int.mul_nonneg (not_lt.mp nonneg) unitPos.le
      omega
    have sign : value.toInt < 0 := by
      by_contra nonneg
      have remainder := Int.tmod_nonneg ratio.toInt (show 0 ≤ value.toInt by omega)
      omega
    have between := Rounding.tdiv_between (z := value.toInt) (n := ratio.toInt) (by omega)
    have shrink : ratio.toInt * secs.toInt ≤ 1 * secs.toInt := Int.mul_le_mul_of_nonpos_right positive (by omega)
    omega

theorem checkedFromSeconds_eq {perUnit : Int64} (positive : 1 ≤ perUnit.toInt) (n : Int64) :
    checkedFromSeconds perUnit n = some (ofTicks (n.toInt * (4000000000 * perUnit.toInt))) := by
  obtain ⟨greatest, upper, greatestEq⟩ := CheckedInt.exists_div (x := Int64.maxValue) positive
  obtain ⟨least, lower, leastEq⟩ := CheckedInt.exists_div (x := Int64.minValue) positive
  have guard : n ≤ greatest ∧ least ≤ n ↔ n.toInt * perUnit.toInt ≤ 2 ^ 63 - 1 ∧ -2 ^ 63 ≤ n.toInt * perUnit.toInt := by
    rw [Int64.le_iff_toInt_le, Int64.le_iff_toInt_le, greatestEq, leastEq]
    exact and_congr (Rounding.le_tdiv_iff (by omega) (by decide)) (Rounding.tdiv_le_iff (by omega) (by decide))
  have ticks : n.toInt * (4000000000 * perUnit.toInt) = n.toInt * perUnit.toInt * 4000000000 := by ring
  have sign : 0 < n ↔ 0 < n.toInt := Int64.lt_iff_toInt_lt
  rw [checkedFromSeconds, upper, lower, Option.bind_eq_bind, Option.bind_some, Option.bind_some, ticks]
  by_cases range : n.toInt * perUnit.toInt ≤ 2 ^ 63 - 1 ∧ -2 ^ 63 ≤ n.toInt * perUnit.toInt
  · obtain ⟨secs, mul, secsEq⟩ := CheckedInt.exists_checked range.2 (by omega)
    rw [if_pos (guard.mpr range), show CheckedInt.mul n perUnit = some secs from mul, Option.bind_some]
    refine congrArg some (ofTicks_of_fields ?_ (by decide)).symm
    rw [secsEq]
    simp
  · rw [if_neg (guard.not.mpr range)]
    by_cases forward : 0 < n.toInt
    · have large : 0 < n.toInt * perUnit.toInt := Int.mul_pos forward (by omega)
      rw [if_pos (sign.mpr forward), ofTicks_of_gt (by unfold maxTotal; omega)]
    · have large : n.toInt * perUnit.toInt ≤ 0 := Int.mul_nonpos_of_nonpos_of_nonneg (by omega) (by omega)
      rw [if_neg (sign.not.mpr forward), ofTicks_of_lt (by unfold minTotal; omega)]

end Duration

namespace TimeUnit

open Duration Saturation

/-- The factory of a unit. -/
def make : TimeUnit → Int64 → Duration
  | ns => Duration.ns
  | us => Duration.us
  | ms => Duration.ms
  | s => Duration.s
  | min => Duration.min
  | h => Duration.h

def checkedMake : TimeUnit → Int64 → Option Duration
  | ns, n => checkedFromI64 n nanosecondsPerSecond
  | us, n => checkedFromI64 n microsecondsPerSecond
  | ms, n => checkedFromI64 n millisecondsPerSecond
  | s, n => checkedFromI64 n 1
  | min, n => checkedFromSeconds secondsPerMinute n
  | h, n => checkedFromSeconds secondsPerHour n

theorem eq_of_checkedMake {u : TimeUnit} {x : Int64} {d : Duration} (defined : u.checkedMake x = some d) :
    u.make x = d := by
  cases u with
  | ns | us | ms | s => exact eq_of_checkedFromI64 defined
  | min | h => exact eq_of_checkedFromSeconds defined

theorem checkedMake_eq (u : TimeUnit) (x : Int64) : u.checkedMake x = some (ofTicks (x.toInt * u.ticks)) := by
  cases u with
  | ns => exact checkedFromI64_eq (by decide) (by decide) rfl x
  | us => exact checkedFromI64_eq (by decide) (by decide) rfl x
  | ms => exact checkedFromI64_eq (by decide) (by decide) rfl x
  | s => exact checkedFromI64_eq (by decide) (by decide) rfl x
  | min => exact checkedFromSeconds_eq (by decide) x
  | h => exact checkedFromSeconds_eq (by decide) x

/-- Every factory gives the duration nearest to its number of units. -/
theorem make_eq (u : TimeUnit) (x : Int64) : u.make x = ofTicks (x.toInt * u.ticks) :=
  eq_of_checkedMake (u.checkedMake_eq x)

/-- The ticks of `x` units are those of a finite duration. -/
def Exact (u : TimeUnit) (x : Int64) : Prop := minTotal ≤ x.toInt * u.ticks ∧ x.toInt * u.ticks ≤ maxTotal

theorem exact_of_short {u : TimeUnit} (short : u.ticks ≤ ticks .s) (x : Int64) : u.Exact x := by
  have upper := x.toInt_lt
  have positive := u.ticks_pos
  have second : ticks .s = 4000000000 := rfl
  have least := Int.mul_le_mul_of_nonneg_right x.le_toInt positive.le
  have greatest := Int.mul_le_mul_of_nonneg_right (show x.toInt ≤ 2 ^ 63 - 1 by omega) positive.le
  unfold Exact minTotal maxTotal
  omega

theorem exact_min_iff {x : Int64} : Exact .min x ↔ CheckedInt.InRange (x.toInt * 60) := by
  have unit : ticks .min = 240000000000 := rfl
  unfold Exact CheckedInt.InRange minTotal maxTotal
  rw [unit]
  omega

theorem exact_h_iff {x : Int64} : Exact .h x ↔ CheckedInt.InRange (x.toInt * 3600) := by
  have unit : ticks .h = 14400000000000 := rfl
  unfold Exact CheckedInt.InRange minTotal maxTotal
  rw [unit]
  omega

theorem make_of_exact {u : TimeUnit} {x : Int64} (exact : u.Exact x) :
    (u.make x).Finite ∧ (u.make x).total = x.toInt * u.ticks := by
  rw [make_eq]
  exact ofTicks_of_mem exact.1 exact.2

theorem make_of_inexact {u : TimeUnit} {x : Int64} (inexact : ¬u.Exact x) :
    (0 < x → u.make x = inf) ∧ (x < 0 → u.make x = negInf) := by
  have positive := u.ticks_pos
  unfold Exact at inexact
  rw [make_eq]
  constructor
  · intro forward
    have sign : 0 < x.toInt := Int64.lt_iff_toInt_lt.mp forward
    have above : 0 < x.toInt * u.ticks := Int.mul_pos sign positive
    have range : minTotal < 0 := by decide
    exact ofTicks_of_gt (by omega)
  · intro backward
    have sign : x.toInt < 0 := Int64.lt_iff_toInt_lt.mp backward
    have below : x.toInt * u.ticks < 0 := Int.mul_neg_of_neg_of_pos sign positive
    have range : 0 < maxTotal := by decide
    exact ofTicks_of_lt (by omega)

theorem valid_make (u : TimeUnit) (x : Int64) : (u.make x).Valid := by
  rw [make_eq]
  exact valid_ofTicks _

theorem make_mono (u : TimeUnit) {x y : Int64} (below : x ≤ y) : le (u.make x) (u.make y) = true := by
  have ordered : x.toInt ≤ y.toInt := Int64.le_iff_toInt_le.mp below
  rw [(u.valid_make x).le_iff (u.valid_make y), make_eq, make_eq, value_ofTicks, value_ofTicks]
  exact clamp_monotone (Int.mul_le_mul_of_nonneg_right ordered u.ticks_pos.le)

/-- A coarser unit is a finer one, multiplied. -/
theorem make_coarser {u v : TimeUnit} {ratio x : Int64} (unit : v.ticks = u.ticks * ratio.toInt)
    (fits : CheckedInt.InRange (ratio.toInt * x.toInt)) : eq (v.make x) (u.make (ratio * x)) = true := by
  have product : (ratio * x).toInt = ratio.toInt * x.toInt := by
    rw [Int64.toInt_mul]
    exact Int.bmod_eq_of_le (by have := fits.1; omega) (by have := fits.2; omega)
  have same : v.make x = u.make (ratio * x) := by
    rw [make_eq, make_eq, unit, product]
    congr 1
    ring
  rw [same, ((u.valid_make _).eq_iff (u.valid_make _))]

/-- Counting the units a factory was given returns their number. -/
theorem count_make {u : TimeUnit} {x : Int64} (exact : u.Exact x) : u.count (u.make x) = x := by
  obtain ⟨finite, total⟩ := make_of_exact exact
  have lower := x.le_toInt
  have upper := x.toInt_lt
  rw [← Int64.toInt_inj, toInt_count u finite, total]
  split
  · rw [Int.mul_ediv_cancel _ u.ticks_pos.ne']
    exact Int.bmod_eq_of_le (by omega) (by omega)
  · exact Int.mul_tdiv_cancel _ u.ticks_pos.ne'

end TimeUnit

namespace Duration

open TimeUnit

theorem s_exact (x : Int64) : (s x).Finite ∧ (s x).total = x.toInt * 4000000000 :=
  make_of_exact (u := .s) (exact_of_short (by decide) x)

theorem ns_exact (x : Int64) : (ns x).Finite ∧ (ns x).total = x.toInt * 4 :=
  make_of_exact (u := .ns) (exact_of_short (by decide) x)

/-- Each accessor is a left inverse of its factory, as far as seconds reach. -/
theorem accessor_factory (x : Int64) :
    toNs (ns x) = x ∧ toUs (us x) = x ∧ toMs (ms x) = x ∧ toS (s x) = x ∧
    (CheckedInt.InRange (x.toInt * 60) → toMin (min x) = x) ∧
    (CheckedInt.InRange (x.toInt * 3600) → toH (h x) = x) := by
  refine ⟨?_, ?_, ?_, ?_, ?_, ?_⟩
  · exact count_make (u := .ns) (exact_of_short (by decide) x)
  · exact count_make (u := .us) (exact_of_short (by decide) x)
  · exact count_make (u := .ms) (exact_of_short (by decide) x)
  · exact count_make (u := .s) (exact_of_short (by decide) x)
  · intro fits
    exact count_make (exact_min_iff.mpr fits)
  · intro fits
    exact count_make (exact_h_iff.mpr fits)

/-- The factories are exact or saturate, in order and in agreement with each
other, and no `i64` in them leaves its range. -/
theorem factories_exact (x y : Int64) :
    (∀ u : TimeUnit, u.checkedMake x = some (u.make x)) ∧
    (∀ u : TimeUnit, u.ticks ≤ TimeUnit.ticks .s → (u.make x).Finite ∧ (u.make x).total = x.toInt * u.ticks) ∧
    (CheckedInt.InRange (x.toInt * 60) → (min x).Finite ∧ (min x).total = x.toInt * TimeUnit.ticks .min) ∧
    (¬CheckedInt.InRange (x.toInt * 60) → (0 < x → min x = inf) ∧ (x < 0 → min x = negInf)) ∧
    (CheckedInt.InRange (x.toInt * 3600) → (h x).Finite ∧ (h x).total = x.toInt * TimeUnit.ticks .h) ∧
    (¬CheckedInt.InRange (x.toInt * 3600) → (0 < x → h x = inf) ∧ (x < 0 → h x = negInf)) ∧
    (x ≤ y → ∀ u : TimeUnit, le (u.make x) (u.make y) = true) ∧
    (CheckedInt.InRange (1000 * x.toInt) → eq (us x) (ns (1000 * x)) = true ∧ eq (ms x) (us (1000 * x)) = true) ∧
    (CheckedInt.InRange (60 * x.toInt) → eq (h x) (min (60 * x)) = true) := by
  refine ⟨?_, ?_, ?_, ?_, ?_, ?_, ?_, ?_, ?_⟩
  · intro u
    rw [checkedMake_eq, make_eq]
  · intro u short
    exact make_of_exact (exact_of_short short x)
  · intro fits
    exact make_of_exact (exact_min_iff.mpr fits)
  · intro overflow
    exact make_of_inexact (exact_min_iff.not.mpr overflow)
  · intro fits
    exact make_of_exact (exact_h_iff.mpr fits)
  · intro overflow
    exact make_of_inexact (exact_h_iff.not.mpr overflow)
  · intro below u
    exact u.make_mono below
  · intro fits
    exact ⟨make_coarser (u := .ns) (v := .us) rfl fits, make_coarser (u := .us) (v := .ms) rfl fits⟩
  · intro fits
    exact make_coarser (u := .min) (v := .h) rfl fits

end Duration

end Rbc
