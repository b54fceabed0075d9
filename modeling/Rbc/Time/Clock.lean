import Rbc.Time.Deadline

namespace Rbc.Win32

open Duration

/-- The ticks of a file time from its epoch to that of Unix. -/
def ticksFrom1601ToUnixEpoch : UInt64 := 116444736000000000

def winTicksPerSecond : UInt64 := 10000000

def nanosecondsPerWinTick : UInt64 := 100

/-- `rbc_timespec_get` at a moment at which the clock of Windows, whose `long`
has 32 bits, gives the file time `sinceEpoch1601`. -/
def timespecGet (sinceEpoch1601 : UInt64) : Timespec 64 :=
  let ticks := sinceEpoch1601 - ticksFrom1601ToUnixEpoch
  let secs := ticks / winTicksPerSecond
  let nsecs := (ticks - secs * winTicksPerSecond) * nanosecondsPerWinTick
  ⟨secs.toBitVec, nsecs.toUInt32.toInt32.toInt64⟩

/-- `rbc_duration_from_timespec` where the nanoseconds are a `long` of 32 bits,
and the product of them wraps. -/
def fromTimespec (ts : Timespec 64) : Duration :=
  if ts.tvNsec < nanosecondsPerSecond then
    ⟨Int64.ofInt ts.tvSec.toInt, (ts.tvNsec.toInt32 * 4).toUInt32⟩
  else
    add (s (Int64.ofInt ts.tvSec.toInt)) (ns ts.tvNsec)

def timeNow (sinceEpoch1601 : UInt64) : Time := ⟨fromTimespec (timespecGet sinceEpoch1601)⟩

/-- `rbc_time_deadline_from_timeout` at the same moment. -/
def deadlineFromTimeout (sinceEpoch1601 : UInt64) (timeout : Duration) : Time :=
  (timeNow sinceEpoch1601).addDuration timeout

/-- `fromTimespec` where C defines the product. -/
def checkedFromTimespec (ts : Timespec 64) : Option Duration :=
  if ts.tvNsec < nanosecondsPerSecond then
    let product := ts.tvNsec.toInt * 4
    if -2 ^ 31 ≤ product ∧ product < 2 ^ 31 then
      some ⟨Int64.ofInt ts.tvSec.toInt, (Int32.ofInt product).toUInt32⟩
    else
      none
  else
    some (add (s (Int64.ofInt ts.tvSec.toInt)) (ns ts.tvNsec))

variable {ft : UInt64}

/-- The file time as the subtraction leaves it, in ticks since the epoch of Unix. -/
def unixTicks (ft : UInt64) : ℕ := (ft - ticksFrom1601ToUnixEpoch).toNat

theorem unixTicks_of_le (epoch : ticksFrom1601ToUnixEpoch ≤ ft) :
    (unixTicks ft : ℤ) = ft.toNat - 116444736000000000 := by
  have below := UInt64.le_iff_toNat_le.mp epoch
  rw [unixTicks, UInt64.toNat_sub_of_le _ _ epoch]
  exact Int.ofNat_sub below

theorem unixTicks_of_lt (before : ft < ticksFrom1601ToUnixEpoch) :
    (unixTicks ft : ℤ) = 2 ^ 64 + ft.toNat - 116444736000000000 := by
  have below : ft.toNat < 116444736000000000 := UInt64.lt_iff_toNat_lt.mp before
  rw [unixTicks, UInt64.toNat_sub]
  show (((2 ^ 64 - 116444736000000000 + ft.toNat) % 2 ^ 64 : ℕ) : ℤ) = _
  omega

theorem toNat_nsecs (ft : UInt64) :
    (((ft - ticksFrom1601ToUnixEpoch) - (ft - ticksFrom1601ToUnixEpoch) / winTicksPerSecond * winTicksPerSecond) *
      nanosecondsPerWinTick).toNat = unixTicks ft % 10000000 * 100 := by
  have size := (ft - ticksFrom1601ToUnixEpoch).toNat_lt
  have quotient : ((ft - ticksFrom1601ToUnixEpoch) / winTicksPerSecond).toNat = unixTicks ft / 10000000 :=
    UInt64.toNat_div ..
  have product : ((ft - ticksFrom1601ToUnixEpoch) / winTicksPerSecond * winTicksPerSecond).toNat =
      unixTicks ft / 10000000 * 10000000 := by
    rw [UInt64.toNat_mul, quotient]
    exact Nat.mod_eq_of_lt (show unixTicks ft / 10000000 * 10000000 < 2 ^ 64 by unfold unixTicks; omega)
  have rest : ((ft - ticksFrom1601ToUnixEpoch) -
      (ft - ticksFrom1601ToUnixEpoch) / winTicksPerSecond * winTicksPerSecond).toNat = unixTicks ft % 10000000 := by
    rw [UInt64.toNat_sub_of_le _ _ (UInt64.le_iff_toNat_le.mpr (by rw [product]; exact Nat.div_mul_le_self _ _)), product]
    exact (Nat.mod_eq_sub_div_mul ..).symm
  rw [UInt64.toNat_mul, rest]
  exact Nat.mod_eq_of_lt (show unixTicks ft % 10000000 * 100 < 2 ^ 64 by omega)

theorem tvNsec_timespecGet (ft : UInt64) : (timespecGet ft).tvNsec.toInt = (unixTicks ft % 10000000 * 100 : ℕ) := by
  have nsecs := toNat_nsecs ft
  have small : unixTicks ft % 10000000 * 100 < 2 ^ 31 := by omega
  unfold timespecGet
  simp only [Int32.toInt_toInt64]
  generalize ((ft - ticksFrom1601ToUnixEpoch) -
    (ft - ticksFrom1601ToUnixEpoch) / winTicksPerSecond * winTicksPerSecond) * nanosecondsPerWinTick = n at nsecs
  have narrow : n.toUInt32.toNat = unixTicks ft % 10000000 * 100 := by
    rw [UInt64.toNat_toUInt32, nsecs]
    omega
  show n.toUInt32.toBitVec.toInt = _
  rw [BitVec.toInt_eq_toNat_of_lt]
  · exact congrArg Nat.cast narrow
  · show 2 * n.toUInt32.toNat < 2 ^ 32
    omega

theorem tvSec_timespecGet (ft : UInt64) : (timespecGet ft).tvSec.toInt = (unixTicks ft / 10000000 : ℕ) := by
  have size := (ft - ticksFrom1601ToUnixEpoch).toNat_lt
  have quotient : ((ft - ticksFrom1601ToUnixEpoch) / winTicksPerSecond).toNat = unixTicks ft / 10000000 :=
    UInt64.toNat_div ..
  show ((ft - ticksFrom1601ToUnixEpoch) / winTicksPerSecond).toBitVec.toInt = _
  rw [BitVec.toInt_eq_toNat_of_lt]
  · exact congrArg Nat.cast quotient
  · show 2 * ((ft - ticksFrom1601ToUnixEpoch) / winTicksPerSecond).toNat < 2 ^ 64
    rw [quotient, unixTicks]
    omega

/-- The clock gives normalised times, a hundred nanoseconds to a tick. -/
theorem timespecGet_spec (ft : UInt64) :
    (timespecGet ft).Normalized ∧ (timespecGet ft).nanos = unixTicks ft * 100 := by
  have secs := tvSec_timespecGet ft
  have nsecs := tvNsec_timespecGet ft
  unfold Timespec.Normalized Timespec.nanos
  omega

/-- A product that wraps ends in the bits of the one of 64 bits, and `ticks` takes no others. -/
theorem toUInt32_mul_four (n : Int64) : (n.toInt32 * 4).toUInt32 = (n * 4).toUInt64.toUInt32 := by
  have product : n.toInt32 * 4 = (n * 4).toInt32 := (Int64.toInt32_mul n 4).symm
  rw [product, ← UInt32.toBitVec_inj]
  exact BitVec.signExtend_eq_setWidth_of_le _ (by decide)

theorem fromTimespec_eq (ts : Timespec 64) : fromTimespec ts = Duration.fromTimespec ts := by
  rw [fromTimespec, toUInt32_mul_four, Duration.fromTimespec]

theorem timeNow_spec (ft : UInt64) : (timeNow ft).rep.Finite ∧ (timeNow ft).rep.total = unixTicks ft * 400 := by
  obtain ⟨normalized, nanos⟩ := timespecGet_spec ft
  obtain ⟨finite, total⟩ := fromTimespec_of_normalized normalized
  rw [← fromTimespec_eq] at finite total
  exact ⟨finite, by rw [timeNow, total, nanos]; omega⟩

/-- A clock from 1970 on is exact; one before it is 2⁶⁴ file time ticks late. -/
theorem total_timeNow_iff (ft : UInt64) :
    (timeNow ft).rep.total = ((ft.toNat : ℤ) - 116444736000000000) * 400 ↔ ticksFrom1601ToUnixEpoch ≤ ft := by
  rw [(timeNow_spec ft).2]
  by_cases epoch : ticksFrom1601ToUnixEpoch ≤ ft
  · exact iff_of_true (by rw [unixTicks_of_le epoch]) epoch
  · have late := unixTicks_of_lt (UInt64.not_le.mp epoch)
    exact iff_of_false (by omega) epoch

theorem toNat_ofInt {z : ℤ} (nonneg : 0 ≤ z) (small : z < 4294967296) : ((Int32.ofInt z).toUInt32.toNat : ℤ) = z := by
  have bits : (Int32.ofInt z).toUInt32.toNat = (z % 4294967296).toNat := BitVec.toNat_ofInt z
  rw [bits, Int.emod_eq_of_lt nonneg small, Int.toNat_of_nonneg nonneg]

/-- The product of the nanoseconds overflows from 0.536871 seconds on in every
second; where it does not, it is the one of 64 bits. -/
theorem timeNow_defined_iff (ft : UInt64) :
    ((checkedFromTimespec (timespecGet ft)).isSome ↔ unixTicks ft % 10000000 < 5368710) ∧
      ∀ d, checkedFromTimespec (timespecGet ft) = some d →
        d = (timeNow ft).rep ∧ d = Duration.fromTimespec (timespecGet ft) := by
  obtain ⟨⟨nonneg, small⟩, -⟩ := timespecGet_spec ft
  have nsecs := tvNsec_timespecGet ft
  have branch : (timespecGet ft).tvNsec < nanosecondsPerSecond := Int64.lt_iff_toInt_lt.mpr small
  have product : ((timespecGet ft).tvNsec * 4).toInt = (timespecGet ft).tvNsec.toInt * 4 := by
    rw [Int64.toInt_mul]
    exact Int.bmod_eq_of_le (by simp; omega) (by simp; omega)
  have bits := toNat_toUInt32 (n := (timespecGet ft).tvNsec * 4) (by omega) (by omega)
  rw [checkedFromTimespec, if_pos branch]
  by_cases range : -2 ^ 31 ≤ (timespecGet ft).tvNsec.toInt * 4 ∧ (timespecGet ft).tvNsec.toInt * 4 < 2 ^ 31
  · refine ⟨iff_of_true ?_ (by omega), fun d defined => ?_⟩
    · simp only [if_pos range, Option.isSome_some]
    · simp only [if_pos range, Option.some.injEq] at defined
      have narrow : (Int32.ofInt ((timespecGet ft).tvNsec.toInt * 4)).toUInt32 =
          ((timespecGet ft).tvNsec * 4).toUInt64.toUInt32 := by
        rw [← UInt32.toNat_inj, ← Int.ofNat_inj, bits, product]
        exact toNat_ofInt (by omega) (by omega)
      have wide : d = Duration.fromTimespec (timespecGet ft) := by
        rw [Duration.fromTimespec, if_pos branch, ← narrow]
        exact defined.symm
      exact ⟨wide.trans (fromTimespec_eq _).symm, wide⟩
  · refine ⟨iff_of_false ?_ (by omega), fun d defined => ?_⟩
    · simp only [if_neg range, Option.isSome_none, Bool.false_eq_true, not_false_eq_true]
    · simp only [if_neg range, reduceCtorEq] at defined

end Rbc.Win32
