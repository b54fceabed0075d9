import Rbc.Time.Conversion
import Rbc.Time.Factories

namespace Rbc

theorem Timespec.Normalized.ext {w : Nat} {a b : Timespec w} (na : a.Normalized) (nb : b.Normalized)
    (same : a.nanos = b.nanos) : a = b := by
  unfold Normalized at na nb
  unfold nanos at same
  have secs : a.tvSec = b.tvSec := BitVec.toInt_inj.mp (by omega)
  have nsec : a.tvNsec = b.tvNsec := Int64.toInt_inj.mp (by omega)
  cases a
  cases b
  exact congr (congrArg Timespec.mk secs) nsec

namespace Duration

open Saturation

variable {ts : Timespec 64} {d : Duration}

/-- Both paths of `rbc_duration_from_timespec` give the nearest duration as
long as the nanoseconds are not negative. -/
theorem fromTimespec_of_nonneg (nonneg : 0 ≤ ts.tvNsec) : fromTimespec ts = ofTicks (ts.nanos * 4) := by
  have sign : 0 ≤ ts.tvNsec.toInt := Int64.le_iff_toInt_le.mp nonneg
  have guard : ts.tvNsec < nanosecondsPerSecond ↔ ts.tvNsec.toInt < 1000000000 := Int64.lt_iff_toInt_lt
  by_cases fast : ts.tvNsec < nanosecondsPerSecond
  · obtain ⟨finite, total⟩ := fromTimespec_of_normalized ⟨sign, guard.mp fast⟩
    rw [← total, finite.ofTicks_total]
  · have secs := ts.toInt_ofInt_tvSec
    obtain ⟨finiteS, totalS⟩ := s_exact (Int64.ofInt ts.tvSec.toInt)
    obtain ⟨finiteNs, totalNs⟩ := ns_exact ts.tvNsec
    have sum : (s (Int64.ofInt ts.tvSec.toInt)).total + (ns ts.tvNsec).total = ts.nanos * 4 := by
      rw [totalS, totalNs, secs, Timespec.nanos]
      omega
    rw [fromTimespec, if_neg fast, add_of_finite finiteS finiteNs, sum]

/-- The ticks of the fast path are a multiple of four, whatever the nanoseconds. -/
theorem toNat_fast_ticks (n : Int64) : (n * 4).toUInt64.toUInt32.toNat % 4 = 0 := by
  rw [Int64.toUInt64_mul, UInt64.toUInt32_mul, UInt32.toNat_mul]
  show _ * 4 % 2 ^ 32 % 4 = 0
  omega

/-- Negative nanoseconds take the fast path, which cannot move the seconds. -/
theorem fromTimespec_of_neg (negative : ts.tvNsec < 0) : fromTimespec ts ≠ ofTicks (ts.nanos * 4) := by
  have sign : ts.tvNsec.toInt < 0 := Int64.lt_iff_toInt_lt.mp negative
  have fast : ts.tvNsec < nanosecondsPerSecond := Int64.lt_iff_toInt_lt.mpr (show _ < (1000000000 : ℤ) by omega)
  have secs := ts.toInt_ofInt_tvSec
  have ticks := toNat_fast_ticks ts.tvNsec
  rw [fromTimespec, if_pos fast]
  intro same
  have valid := valid_ofTicks (ts.nanos * 4)
  have value := value_ofTicks (ts.nanos * 4)
  rw [← same] at valid value
  by_cases finite : Duration.Finite ⟨Int64.ofInt ts.tvSec.toInt, (ts.tvNsec * 4).toUInt64.toUInt32⟩
  · have exact := eq_of_clamp_eq_fin (value.symm.trans finite.value_eq)
    unfold total Timespec.nanos at exact
    simp only [secs] at exact
    omega
  · have odd := isInf_iff.mp (valid.isInf_of_not_finite finite)
    simp only at odd
    omega

/-- A timespec is converted exactly, with saturation, if and only if its
nanoseconds are not negative. -/
theorem fromTimespec_exact_iff (ts : Timespec 64) :
    ((fromTimespec ts).Valid ∧ (fromTimespec ts).value = clamp minTotal maxTotal (ts.nanos * 4)) ↔
      0 ≤ ts.tvNsec := by
  constructor
  · rintro ⟨valid, value⟩
    by_contra negative
    refine fromTimespec_of_neg (Int64.not_le.mp negative) (valid.eq_of_value_eq (valid_ofTicks _) ?_)
    rw [value, value_ofTicks]
  · intro nonneg
    rw [fromTimespec_of_nonneg nonneg]
    exact ⟨valid_ofTicks _, value_ofTicks _⟩

/-- A nanosecond before the epoch, not normalised. -/
theorem minus_one_nanosecond_invalid : ¬(fromTimespec (⟨0, -1⟩ : Timespec 64)).Valid := by decide

/-- For every width of `time_t` the timespec of a duration is normalised,
truncated towards zero or clamped, and monotone. -/
theorem toTimespec_clamps (w : Nat) (a b : Duration) (width : 0 < w) (ha : a.Valid) (hb : b.Valid) :
    (a.toTimespec w).Normalized ∧
    (a.Finite → a.FitsTime w → (a.toTimespec w).nanos = a.total.tdiv 4) ∧
    (¬(a.Finite ∧ a.FitsTime w) →
      (a.value < fin 0 → a.toTimespec w = ⟨BitVec.intMin w, 0⟩) ∧
      (¬a.value < fin 0 → a.toTimespec w = ⟨BitVec.intMax w, 999999999⟩)) ∧
    (lt a b = true → ¬(b.toTimespec w).Before (a.toTimespec w)) := by
  obtain ⟨na, nanosA⟩ := ha.nanos_toTimespec width
  obtain ⟨nb, nanosB⟩ := hb.nanos_toTimespec width
  refine ⟨na, ?_, ?_, ?_⟩
  · intro finite fits
    exact (finite.toTimespec_of_fits ((Wrap.bmod_two_pow_eq_iff width).mpr fits)).2
  · intro not
    rw [ha.toTimespec_of_not_fits width not]
    exact ha.clampedTimespec_eq
  · intro shorter
    rw [nb.before_iff na, not_lt]
    exact ha.nanos_mono width hb ((ha.lt_iff hb).mp shorter).le

/-- A tick before the epoch and one after it, where `time_t` has 32 bits. -/
theorem toTimespec_clamps_around_epoch :
    ¬((⟨0, 1⟩ : Duration).toTimespec 32).Before ((⟨-1, 3999999999⟩ : Duration).toTimespec 32) :=
  (toTimespec_clamps 32 ⟨-1, 3999999999⟩ ⟨0, 1⟩ (by decide) (by decide) (by decide)).2.2.2 (by decide)

theorem tdiv_four_mul_eq_iff : d.total.tdiv 4 * 4 = d.total ↔ 4 ∣ d.ticks.toNat := by
  rw [tdiv_four]
  unfold total
  split <;> omega

theorem Finite.eq_of_total_eq {a b : Duration} (fa : a.Finite) (fb : b.Finite) (same : a.total = b.total) :
    a = b := by
  rw [← fa.ofTicks_total, same, fb.ofTicks_total]

/-- Through a duration a normalised timespec comes back, and through a timespec
a duration is rounded towards zero to whole nanoseconds. -/
theorem timespec_roundTrip (ts : Timespec 64) (d : Duration) (normalized : ts.Normalized) (finite : d.Finite) :
    (fromTimespec ts).toTimespec 64 = ts ∧
    (fromTimespec (d.toTimespec 64)).Finite ∧ (fromTimespec (d.toTimespec 64)).total = d.total.tdiv 4 * 4 ∧
    (fromTimespec (d.toTimespec 64) = d ↔ 4 ∣ d.ticks.toNat) := by
  constructor
  · obtain ⟨finite, total⟩ := fromTimespec_of_normalized normalized
    obtain ⟨back, nanos⟩ := finite.valid.toTimespec
    refine back.ext normalized ?_
    rw [nanos, finite.value_eq, total]
    exact Int.mul_tdiv_cancel _ (by decide)
  · obtain ⟨normal, nanos⟩ := finite.valid.toTimespec
    obtain ⟨back, total⟩ := fromTimespec_of_normalized normal
    have rounded : (fromTimespec (d.toTimespec 64)).total = d.total.tdiv 4 * 4 := by
      rw [total, nanos, finite.value_eq]
      rfl
    refine ⟨back, rounded, ?_⟩
    rw [← tdiv_four_mul_eq_iff, ← rounded]
    exact ⟨congrArg Duration.total, back.eq_of_total_eq finite⟩

/-- The last nanosecond before the epoch and a duration one tick later. -/
theorem timespec_roundTrip_before_epoch :
    (fromTimespec (⟨-1, 999999999⟩ : Timespec 64)).toTimespec 64 = ⟨-1, 999999999⟩ ∧
      (fromTimespec ((⟨-1, 3999999997⟩ : Duration).toTimespec 64)).total = 0 := by
  have result := timespec_roundTrip ⟨-1, 999999999⟩ ⟨-1, 3999999997⟩ (by decide) (by decide)
  exact ⟨result.1, result.2.2.1⟩

end Duration

end Rbc
