import Rbc.Time.Timespec
import Rbc.Time.Order

namespace Rbc

namespace Timespec

variable {w : Nat}

/-- The nanoseconds of a normalised timespec are below one second. -/
def Normalized (ts : Timespec w) : Prop := 0 ≤ ts.tvNsec.toInt ∧ ts.tvNsec.toInt < 1000000000

/-- The lexicographic order: first the seconds, then the nanoseconds. -/
def Before (a b : Timespec w) : Prop :=
  a.tvSec.toInt < b.tvSec.toInt ∨ a.tvSec.toInt = b.tvSec.toInt ∧ a.tvNsec.toInt < b.tvNsec.toInt

def nanos (ts : Timespec w) : ℤ := ts.tvSec.toInt * 1000000000 + ts.tvNsec.toInt

instance (ts : Timespec w) : Decidable ts.Normalized := inferInstanceAs (Decidable (_ ∧ _))

instance (a b : Timespec w) : Decidable (a.Before b) := inferInstanceAs (Decidable (_ ∨ _))

/-- The seconds as the conversion to `i64` leaves them. -/
theorem toInt_ofInt_tvSec (ts : Timespec 64) : (Int64.ofInt ts.tvSec.toInt).toInt = ts.tvSec.toInt :=
  Int64.toInt_ofInt_of_le ts.tvSec.le_toInt ts.tvSec.toInt_lt

theorem Normalized.before_iff {a b : Timespec w} (na : a.Normalized) (nb : b.Normalized) :
    a.Before b ↔ a.nanos < b.nanos := by
  unfold Normalized at na nb
  unfold Before nanos
  omega

end Timespec

namespace Duration

open Saturation

/-- The tweak adds three ticks to what is below zero. -/
theorem Finite.tweak {d : Duration} (finite : d.Finite) :
    d.tweak.Finite ∧ d.tweak.total = if d.total < 0 then d.total + 3 else d.total := by
  have ticks := finite_iff.mp finite
  have lower := d.secs.le_toInt
  have upper := d.secs.toInt_lt
  have negative : d.secs < 0 ↔ d.secs.toInt < 0 := Int64.lt_iff_toInt_lt
  have raised : (d.ticks + (ticksPerNanosecond - 1)).toNat = d.ticks.toNat + 3 := by
    rw [UInt32.toNat_add]
    exact Nat.mod_eq_of_lt (show d.ticks.toNat + 3 < 2 ^ 32 by omega)
  have guard : ticksPerSecond ≤ d.ticks + (ticksPerNanosecond - 1) ↔ 4000000000 ≤ d.ticks.toNat + 3 := by
    rw [UInt32.le_iff_toNat_le, raised, toNat_ticksPerSecond]
  unfold Duration.tweak
  by_cases below : d.secs < 0
  · have seconds := negative.mp below
    have sign : d.total < 0 := by unfold total; omega
    rw [if_pos below, if_pos sign]
    by_cases carry : ticksPerSecond ≤ d.ticks + (ticksPerNanosecond - 1)
    · have full := guard.mp carry
      have secs : (d.secs + 1).toInt = d.secs.toInt + 1 := by
        rw [Int64.toInt_add]
        exact Int.bmod_eq_of_le (by simp; omega) (by simp; omega)
      have rest : (d.ticks + (ticksPerNanosecond - 1) - ticksPerSecond).toNat = d.ticks.toNat + 3 - 4000000000 := by
        rw [UInt32.toNat_sub, raised, toNat_ticksPerSecond]
        omega
      simp only [if_pos carry, finite_iff, total, secs, rest]
      omega
    · have room := guard.not.mp carry
      simp only [if_neg carry, finite_iff, total, raised]
      omega
  · have seconds := negative.not.mp below
    have sign : ¬d.total < 0 := by unfold total; omega
    rw [if_neg below, if_neg sign]
    exact ⟨finite, rfl⟩

theorem tdiv_four (z : ℤ) : z.tdiv 4 = (if z < 0 then z + 3 else z) / 4 := by
  rw [Int.tdiv_eq_ediv, show Int.sign 4 = 1 from rfl]
  split <;> split <;> omega

theorem tdiv_four_le {x y : ℤ} (below : x ≤ y) : x.tdiv 4 ≤ y.tdiv 4 := by
  rw [tdiv_four, tdiv_four]
  split <;> split <;> omega

/-- The seconds of a finite duration after truncation to nanoseconds. -/
def truncatedSecs (d : Duration) : ℤ := d.total.tdiv 4 / 1000000000

theorem Finite.secs_tweak {d : Duration} (finite : d.Finite) : d.tweak.secs.toInt = d.truncatedSecs := by
  obtain ⟨within, sum⟩ := finite.tweak
  have ticks := finite_iff.mp within
  rw [truncatedSecs, tdiv_four, ← sum]
  unfold total
  omega

/-- A finite duration whose seconds `time_t` can hold is truncated towards zero. -/
theorem Finite.toTimespec_of_fits {w : Nat} {d : Duration} (finite : d.Finite)
    (fits : d.truncatedSecs.bmod (2 ^ w) = d.truncatedSecs) :
    (d.toTimespec w).Normalized ∧ (d.toTimespec w).nanos = d.total.tdiv 4 := by
  obtain ⟨within, sum⟩ := finite.tweak
  have ticks := finite_iff.mp within
  have secs : (BitVec.ofInt w d.tweak.secs.toInt).toInt = d.tweak.secs.toInt := by
    rw [BitVec.toInt_ofInt, finite.secs_tweak, fits]
  have quotient : (d.tweak.ticks / ticksPerNanosecond).toNat = d.tweak.ticks.toNat / 4 := UInt32.toNat_div ..
  have nsec : (Int64.ofNat (d.tweak.ticks / ticksPerNanosecond).toNat).toInt = (d.tweak.ticks.toNat / 4 : ℕ) := by
    rw [quotient]
    exact Int64.toInt_ofNat_of_lt (by omega)
  rw [toTimespec, if_neg (by simp [finite.isInf_eq_false]), if_pos secs]
  unfold Timespec.Normalized Timespec.nanos
  simp only [secs, nsec]
  refine ⟨by omega, ?_⟩
  rw [tdiv_four, ← sum]
  unfold total
  omega

theorem Finite.truncatedSecs_mem {d : Duration} (finite : d.Finite) :
    -2 ^ 63 ≤ d.truncatedSecs ∧ d.truncatedSecs < 2 ^ 63 := by
  rw [← finite.secs_tweak]
  exact ⟨d.tweak.secs.le_toInt, d.tweak.secs.toInt_lt⟩

/-- `time_t` can hold the seconds that are left of a duration after truncation. -/
def FitsTime (w : Nat) (d : Duration) : Prop := -2 ^ (w - 1) ≤ d.truncatedSecs ∧ d.truncatedSecs < 2 ^ (w - 1)

/-- The nanoseconds of the first and of the last normalised timespec. -/
def firstNanos (w : Nat) : ℤ := -2 ^ (w - 1) * 1000000000

def lastNanos (w : Nat) : ℤ := (2 ^ (w - 1) - 1) * 1000000000 + 999999999

theorem firstNanos_le_lastNanos (w : Nat) : firstNanos w ≤ lastNanos w := by
  have positive : (0 : ℤ) < 2 ^ (w - 1) := Int.pow_pos (by decide)
  unfold firstNanos lastNanos
  omega

variable {w : Nat} {d : Duration}

theorem Valid.clampedTimespec_eq (valid : d.Valid) :
    (d.value < fin 0 → clampedTimespec w d = ⟨BitVec.intMin w, 0⟩) ∧
    (¬d.value < fin 0 → clampedTimespec w d = ⟨BitVec.intMax w, 999999999⟩) :=
  ⟨fun negative => if_pos (valid.isNeg_iff.mpr negative), fun nonneg => if_neg (valid.isNeg_iff.not.mpr nonneg)⟩

theorem Valid.toTimespec_of_not_fits (width : 0 < w) (valid : d.Valid) (not : ¬(d.Finite ∧ d.FitsTime w)) :
    d.toTimespec w = clampedTimespec w d := by
  unfold Duration.toTimespec
  by_cases finite : d.Finite
  · have overflow : ¬(BitVec.ofInt w d.tweak.secs.toInt).toInt = d.tweak.secs.toInt := by
      rw [BitVec.toInt_ofInt, finite.secs_tweak, Wrap.bmod_two_pow_eq_iff width]
      exact fun fits => not ⟨finite, fits⟩
    rw [if_neg (by simp [finite.isInf_eq_false]), if_neg overflow]
  · rw [if_pos (valid.isInf_of_not_finite finite)]

theorem normalized_intMin : (⟨BitVec.intMin w, 0⟩ : Timespec w).Normalized := by
  show 0 ≤ (0 : Int64).toInt ∧ (0 : Int64).toInt < 1000000000
  decide

theorem normalized_intMax : (⟨BitVec.intMax w, 999999999⟩ : Timespec w).Normalized := by
  show 0 ≤ (999999999 : Int64).toInt ∧ (999999999 : Int64).toInt < 1000000000
  decide

theorem nanos_intMin (width : 0 < w) : (⟨BitVec.intMin w, 0⟩ : Timespec w).nanos = firstNanos w := by
  show (BitVec.intMin w).toInt * 1000000000 + (0 : Int64).toInt = _
  rw [BitVec.toInt_intMin_of_pos width, firstNanos, Int64.toInt_zero, Int.add_zero]

theorem nanos_intMax : (⟨BitVec.intMax w, 999999999⟩ : Timespec w).nanos = lastNanos w := by
  show (BitVec.intMax w).toInt * 1000000000 + (999999999 : Int64).toInt = _
  rw [BitVec.toInt_intMax, lastNanos]
  rfl

/-- What does not fit lies before the first timespec or after the last one. -/
theorem Valid.narrow_of_neg (valid : d.Valid) (negative : d.value < fin 0) (not : ¬(d.Finite ∧ d.FitsTime w)) :
    narrow (firstNanos w) (lastNanos w) (Int.tdiv · 4) d.value = firstNanos w := by
  have positive : (0 : ℤ) < 2 ^ (w - 1) := Int.pow_pos (by decide)
  rcases valid.cases with ⟨-, value⟩ | ⟨-, value⟩ | ⟨finite, value⟩
  · rw [value, narrow_bot]
  · rw [value] at negative
    exact absurd negative not_top_lt
  · rw [value, fin_lt_fin] at negative
    have sign : d.total.tdiv 4 ≤ 0 := tdiv_four_le negative.le
    unfold FitsTime truncatedSecs at not
    simp only [finite, true_and] at not
    rw [value, narrow_fin]
    unfold firstNanos lastNanos
    omega

theorem Valid.narrow_of_nonneg (valid : d.Valid) (nonneg : ¬d.value < fin 0) (not : ¬(d.Finite ∧ d.FitsTime w)) :
    narrow (firstNanos w) (lastNanos w) (Int.tdiv · 4) d.value = lastNanos w := by
  have positive : (0 : ℤ) < 2 ^ (w - 1) := Int.pow_pos (by decide)
  rcases valid.cases with ⟨-, value⟩ | ⟨-, value⟩ | ⟨finite, value⟩
  · rw [value] at nonneg
    exact absurd (bot_lt_fin 0) nonneg
  · rw [value, narrow_top]
  · rw [value, fin_lt_fin, not_lt] at nonneg
    have sign : 0 ≤ d.total.tdiv 4 := tdiv_four_le nonneg
    unfold FitsTime truncatedSecs at not
    simp only [finite, true_and] at not
    rw [value, narrow_fin]
    unfold firstNanos lastNanos
    omega

/-- On every target the timespec is that of the value, truncated to nanoseconds
and clamped to what `time_t` can express. -/
theorem Valid.nanos_toTimespec (width : 0 < w) (valid : d.Valid) :
    (d.toTimespec w).Normalized ∧
      (d.toTimespec w).nanos = narrow (firstNanos w) (lastNanos w) (Int.tdiv · 4) d.value := by
  by_cases fits : d.Finite ∧ d.FitsTime w
  · obtain ⟨finite, lower, upper⟩ := fits
    obtain ⟨normalized, nanos⟩ := finite.toTimespec_of_fits ((Wrap.bmod_two_pow_eq_iff width).mpr ⟨lower, upper⟩)
    refine ⟨normalized, ?_⟩
    unfold truncatedSecs at lower upper
    rw [nanos, finite.value_eq, narrow_fin]
    unfold firstNanos lastNanos
    omega
  · rw [valid.toTimespec_of_not_fits width fits]
    by_cases negative : d.value < fin 0
    · rw [valid.clampedTimespec_eq.1 negative, nanos_intMin width, valid.narrow_of_neg negative fits]
      exact ⟨normalized_intMin, rfl⟩
    · rw [valid.clampedTimespec_eq.2 negative, nanos_intMax, valid.narrow_of_nonneg negative fits]
      exact ⟨normalized_intMax, rfl⟩

theorem Valid.nanos_mono (width : 0 < w) {a b : Duration} (ha : a.Valid) (hb : b.Valid)
    (below : a.value ≤ b.value) : (a.toTimespec w).nanos ≤ (b.toTimespec w).nanos := by
  rw [(ha.nanos_toTimespec width).2, (hb.nanos_toTimespec width).2]
  exact narrow_monotone (firstNanos_le_lastNanos w) (fun _ _ => tdiv_four_le) below

/-- The nanoseconds of a timespec with a `time_t` of 64 bits, by what the
duration denotes. -/
def nanosOf : ExtInt → ℤ
  | ⊥ => -2 ^ 63 * 1000000000
  | some ⊤ => (2 ^ 63 - 1) * 1000000000 + 999999999
  | some (some z) => z.tdiv 4

theorem Valid.toTimespec {d : Duration} (valid : d.Valid) :
    (d.toTimespec 64).Normalized ∧ (d.toTimespec 64).nanos = nanosOf d.value := by
  obtain ⟨normalized, nanos⟩ := valid.nanos_toTimespec (w := 64) (by decide)
  refine ⟨normalized, ?_⟩
  rw [nanos]
  rcases valid.cases with ⟨-, value⟩ | ⟨-, value⟩ | ⟨finite, value⟩
  · rw [value]
    rfl
  · rw [value]
    rfl
  · obtain ⟨lower, upper⟩ := finite.truncatedSecs_mem
    unfold truncatedSecs at lower upper
    rw [value, narrow_fin]
    show max (-2 ^ 63 * 1000000000) (Min.min ((2 ^ 63 - 1) * 1000000000 + 999999999) _) = d.total.tdiv 4
    omega

theorem nanosOf_mono {a b : Duration} (ha : a.Valid) (hb : b.Valid) (below : a.value ≤ b.value) :
    nanosOf a.value ≤ nanosOf b.value := by
  rw [← ha.toTimespec.2, ← hb.toTimespec.2]
  exact ha.nanos_mono (by decide) hb below

theorem toNat_toUInt32 {n : Int64} (nonneg : 0 ≤ n.toInt) (small : n.toInt < 2 ^ 32) :
    (n.toUInt64.toUInt32.toNat : ℤ) = n.toInt := by
  have same : n.toUInt64.toNat = n.toInt.toNat :=
    Int64.toNat_toUInt64_of_le (Int64.le_iff_toInt_le.mpr nonneg)
  rw [UInt64.toNat_toUInt32, same]
  omega

theorem fromTimespec_of_normalized {ts : Timespec 64} (normalized : ts.Normalized) :
    (fromTimespec ts).Finite ∧ (fromTimespec ts).total = ts.nanos * 4 := by
  obtain ⟨nonneg, small⟩ := normalized
  have branch : ts.tvNsec < nanosecondsPerSecond := Int64.lt_iff_toInt_lt.mpr small
  have secs := ts.toInt_ofInt_tvSec
  have product : (ts.tvNsec * 4).toInt = ts.tvNsec.toInt * 4 := by
    rw [Int64.toInt_mul]
    exact Int.bmod_eq_of_le (by simp; omega) (by simp; omega)
  have ticks := toNat_toUInt32 (n := ts.tvNsec * 4) (by omega) (by omega)
  rw [fromTimespec, if_pos branch, finite_iff]
  unfold total Timespec.nanos
  simp only [secs]
  omega

end Duration

end Rbc
