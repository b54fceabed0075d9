import Rbc.Basis.Rounding
import Rbc.Time.Conversion
import Mathlib.Tactic.Ring

namespace Rbc

namespace Duration

def microsecondsPerSecond : Int64 := 1000000

def millisecondsPerSecond : Int64 := 1000

def secondsPerMinute : Int64 := 60

def secondsPerHour : Int64 := 3600

/-- The common body of `to_ns`, `to_us` and `to_ms`: the seconds and the ticks
are converted on their own. -/
def toSubsecond (perSecond : Int64) (perUnit : UInt32) (self : Duration) : Int64 :=
  if self.isInf then self.secs
  else self.secs * perSecond + Int64.ofNat (self.ticks / perUnit).toNat

def toNs : Duration → Int64 := toSubsecond nanosecondsPerSecond ticksPerNanosecond

def toUs : Duration → Int64 := toSubsecond microsecondsPerSecond (ticksPerNanosecond * 1000)

def toMs : Duration → Int64 := toSubsecond millisecondsPerSecond (ticksPerNanosecond * 1000 * 1000)

def toS (self : Duration) : Int64 :=
  if self.isInf then self.secs
  else self.secs + if self.secs < 0 ∧ self.ticks ≠ 0 then 1 else 0

/-- The common body of `to_min` and `to_h`. -/
def toSeconds (perUnit : Int64) (self : Duration) : Int64 :=
  if self.isInf then self.secs else self.toS / perUnit

def toMin : Duration → Int64 := toSeconds secondsPerMinute

def toH : Duration → Int64 := toSeconds secondsPerHour

end Duration

inductive TimeUnit
  | ns | us | ms | s | min | h
  deriving DecidableEq, Repr

namespace TimeUnit

open Duration

def ticks : TimeUnit → ℤ
  | ns => 4
  | us => 4000
  | ms => 4000000
  | s => 4000000000
  | min => 240000000000
  | h => 14400000000000

def count : TimeUnit → Duration → Int64
  | ns => toNs
  | us => toUs
  | ms => toMs
  | s => toS
  | min => toMin
  | h => toH

/-- The number of units in a duration, rounded towards zero, is an `i64`. -/
def Fits (u : TimeUnit) (d : Duration) : Prop :=
  -2 ^ 63 ≤ d.total.tdiv u.ticks ∧ d.total.tdiv u.ticks < 2 ^ 63

/-- Rounding down and rounding towards zero give the same number of units of
less than a second. -/
def RoundsAlike (u : TimeUnit) (d : Duration) : Prop :=
  ticks .s ≤ u.ticks ∨ 0 ≤ d.secs ∨ u.ticks ∣ d.ticks.toNat

instance (u : TimeUnit) (d : Duration) : Decidable (u.Fits d) := inferInstanceAs (Decidable (_ ∧ _))

instance (u : TimeUnit) (d : Duration) : Decidable (u.RoundsAlike d) := inferInstanceAs (Decidable (_ ∨ _))

variable {d : Duration}

/-- The seconds and the ticks of a duration, converted to a unit that divides a second. -/
theorem total_ediv {perSecond : Int64} {perUnit : UInt32}
    (unit : (perUnit.toNat : ℤ) * perSecond.toInt = 4000000000) :
    d.total / perUnit.toNat = d.secs.toInt * perSecond.toInt + (d.ticks.toNat / perUnit.toNat : ℕ) := by
  have nonzero : (perUnit.toNat : ℤ) ≠ 0 := by
    intro zero
    rw [zero] at unit
    simp at unit
  have shape : d.total = d.ticks.toNat + d.secs.toInt * perSecond.toInt * perUnit.toNat := by
    rw [total, ← unit]
    ring
  rw [shape, Int.add_mul_ediv_right _ _ nonzero]
  push_cast
  ring

theorem toInt_ticks_div (perUnit : UInt32) :
    (Int64.ofNat (d.ticks / perUnit).toNat).toInt = (d.ticks.toNat / perUnit.toNat : ℕ) := by
  have small := d.ticks.toNat_lt
  have below := Nat.div_le_self d.ticks.toNat perUnit.toNat
  rw [UInt32.toNat_div]
  exact Int64.toInt_ofNat_of_lt (by omega)

/-- Below a second the conversions round down. -/
theorem toInt_toSubsecond (finite : d.Finite) {perSecond : Int64} {perUnit : UInt32}
    (unit : (perUnit.toNat : ℤ) * perSecond.toInt = 4000000000) :
    (d.toSubsecond perSecond perUnit).toInt = (d.total / perUnit.toNat).bmod (2 ^ 64) := by
  rw [toSubsecond, if_neg (by simp [finite.isInf_eq_false]), Int64.toInt_add, Int64.toInt_mul, toInt_ticks_div,
    Int.bmod_add_bmod, total_ediv unit]

theorem toInt_toS (finite : d.Finite) : d.toS.toInt = d.total.tdiv 4000000000 := by
  have ticks := finite_iff.mp finite
  have lower := d.secs.le_toInt
  have upper := d.secs.toInt_lt
  have negative : d.secs < 0 ↔ d.secs.toInt < 0 := Int64.lt_iff_toInt_lt
  have nonzero : d.ticks ≠ 0 ↔ d.ticks.toNat ≠ 0 := not_congr UInt32.toNat_inj.symm
  rw [toS, if_neg (by simp [finite.isInf_eq_false]), Int.tdiv_eq_ediv, show Int.sign 4000000000 = 1 from rfl]
  by_cases raised : d.secs < 0 ∧ d.ticks ≠ 0
  · rw [negative, nonzero] at raised
    have sum : (d.secs + 1).toInt = d.secs.toInt + 1 := by
      rw [Int64.toInt_add]
      exact Int.bmod_eq_of_le (by simp; omega) (by simp; omega)
    rw [if_pos (by rw [negative, nonzero]; exact raised), sum, if_neg (by unfold total; omega)]
    unfold total
    omega
  · rw [if_neg raised, Int64.add_zero, if_pos]
    · unfold total
      omega
    · rw [negative, nonzero] at raised
      unfold total
      omega

theorem toInt_toSeconds (finite : d.Finite) {perUnit : Int64} (positive : 1 ≤ perUnit.toInt) :
    (d.toSeconds perUnit).toInt = d.total.tdiv (4000000000 * perUnit.toInt) := by
  have proper : perUnit ≠ -1 := by
    rintro rfl
    revert positive
    decide
  rw [toSeconds, if_neg (by simp [finite.isInf_eq_false]), Int64.toInt_div_of_ne_right _ _ proper,
    toInt_toS finite, Rounding.tdiv_tdiv (by decide)]

theorem toInt_count (u : TimeUnit) (finite : d.Finite) :
    (u.count d).toInt = if u.ticks < ticks .s then (d.total / u.ticks).bmod (2 ^ 64) else d.total.tdiv u.ticks := by
  cases u with
  | ns => exact toInt_toSubsecond finite rfl
  | us => exact toInt_toSubsecond finite rfl
  | ms => exact toInt_toSubsecond finite rfl
  | s => exact toInt_toS finite
  | min => exact toInt_toSeconds finite (by decide)
  | h => exact toInt_toSeconds finite (by decide)

theorem ticks_pos (u : TimeUnit) : 0 < u.ticks := by cases u <;> decide

theorem ticks_dvd {u v : TimeUnit} (finer : u.ticks ≤ v.ticks) : u.ticks ∣ v.ticks := by
  revert finer
  cases u <;> cases v <;> decide

theorem dvd_total_iff {u : TimeUnit} (short : u.ticks ≤ ticks .s) : u.ticks ∣ d.total ↔ u.ticks ∣ d.ticks.toNat :=
  Int.dvd_add_right ((ticks_dvd short).mul_left d.secs.toInt)

/-- A conversion rounds towards zero exactly where rounding down does so, too. -/
theorem count_eq_iff (u : TimeUnit) (finite : d.Finite) (fits : u.Fits d) :
    (u.count d).toInt = d.total.tdiv u.ticks ↔ u.RoundsAlike d := by
  have sign : 0 ≤ d.total ↔ 0 ≤ d.secs := by
    have ticks := finite_iff.mp finite
    rw [Int64.le_iff_toInt_le, total]
    simp only [Int64.toInt_zero]
    omega
  have alike := Rounding.ediv_eq_tdiv_iff (z := d.total) u.ticks_pos
  rw [toInt_count u finite]
  unfold RoundsAlike
  by_cases short : u.ticks < ticks .s
  · rw [sign, dvd_total_iff short.le] at alike
    rw [if_pos short, ← alike]
    constructor
    · intro same
      refine Or.inr ?_
      by_contra differs
      have inexact := alike.not.mp differs
      rw [← sign, ← dvd_total_iff short.le, not_or] at inexact
      have succ := Rounding.tdiv_eq_ediv_succ u.ticks_pos (by omega) inexact.2
      have wrapped : (d.total / u.ticks).bmod (2 ^ 64) % (2 ^ 64 : ℕ) = d.total / u.ticks % (2 ^ 64 : ℕ) :=
        Int.bmod_emod
      rw [same, succ] at wrapped
      omega
    · rintro (long | same)
      · omega
      · rw [same]
        obtain ⟨lower, upper⟩ := fits
        exact Int.bmod_eq_of_le (by omega) (by omega)
  · rw [if_neg short]
    simp only [true_iff]
    exact Or.inl (by omega)

theorem Fits.coarser {u v : TimeUnit} (fits : u.Fits d) (finer : u.ticks ≤ v.ticks) :
    v.Fits d ∧ d.total.tdiv v.ticks = (d.total.tdiv u.ticks).tdiv (v.ticks / u.ticks) := by
  have product : u.ticks * (v.ticks / u.ticks) = v.ticks := Int.mul_ediv_cancel' (ticks_dvd finer)
  have quotient : d.total.tdiv v.ticks = (d.total.tdiv u.ticks).tdiv (v.ticks / u.ticks) := by
    rw [Rounding.tdiv_tdiv u.ticks_pos.le, product]
  have ratio : 0 ≤ v.ticks / u.ticks := Int.ediv_nonneg v.ticks_pos.le u.ticks_pos.le
  have between := Rounding.tdiv_between (z := d.total.tdiv u.ticks) ratio
  unfold Fits at fits ⊢
  rw [quotient]
  exact ⟨by omega, rfl⟩

end TimeUnit

namespace Duration

open TimeUnit

/-- Every conversion whose result is an `i64` rounds towards zero, a coarser
count is a finer one divided, and the nanoseconds are those of the timespec. -/
def UnitsAgree (d : Duration) : Prop :=
  (∀ u : TimeUnit, u.Fits d → (u.count d).toInt = d.total.tdiv u.ticks) ∧
  (∀ fine coarse : TimeUnit, fine.ticks ≤ coarse.ticks → fine.Fits d →
    (fine.count d).toInt.tdiv (coarse.ticks / fine.ticks) = (coarse.count d).toInt) ∧
  (TimeUnit.ns.Fits d → (d.toTimespec 64).nanos = d.toNs.toInt)

/-- The conversions agree on exactly the durations on which rounding down and
rounding towards zero do in every unit whose count is an `i64`. -/
theorem unitsAgree_iff {d : Duration} (finite : d.Finite) :
    UnitsAgree d ↔ ∀ u : TimeUnit, u.Fits d → u.RoundsAlike d := by
  constructor
  · rintro ⟨truncates, -, -⟩ u fits
    exact (u.count_eq_iff finite fits).mp (truncates u fits)
  · intro alike
    have truncates : ∀ u : TimeUnit, u.Fits d → (u.count d).toInt = d.total.tdiv u.ticks :=
      fun u fits => (u.count_eq_iff finite fits).mpr (alike u fits)
    refine ⟨truncates, ?_, ?_⟩
    · intro fine coarse finer fits
      obtain ⟨fits', quotient⟩ := fits.coarser finer
      rw [truncates fine fits, truncates coarse fits', quotient]
    · intro fits
      rw [finite.valid.toTimespec.2, finite.value_eq]
      exact (truncates .ns fits).symm

/-- Half a second before zero, in every unit. -/
theorem unitsAgree_iff_at_half : UnitsAgree ⟨-1, 2000000000⟩ := by
  refine (unitsAgree_iff (by decide)).mpr ?_
  intro u _
  cases u <;> decide

/-- One tick less than a whole second before zero has a nanosecond too many. -/
theorem minus_one_tick_not_unitsAgree : ¬UnitsAgree ⟨-1, 1⟩ := by
  rintro ⟨truncates, -, -⟩
  exact absurd (truncates .ns (by decide)) (by decide)

end Duration

end Rbc
