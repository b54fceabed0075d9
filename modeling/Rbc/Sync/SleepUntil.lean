import Rbc.Sync.Win32Wait
import Rbc.Time.Clock

namespace Rbc.Thread.Win32

open Duration Saturation Rbc.Win32

/-- `rbc_thread_sleep_until` at a moment at which the clock gives the file time `now`. -/
def sleepUntil (deadline : Time) (now : UInt64) : Error × Option UInt32 := sleepFor (deadline.sub (timeNow now))

/-- A deadline that is made at the file time `made` and slept until from the file time `now` on. -/
def sleepUntilTimeout (timeout : Duration) (made now : UInt64) : Error × Option UInt32 :=
  sleepUntil (deadlineFromTimeout made timeout) now

/-- The ticks of a timeout that are left when the clock has gone from `made` to `now`. -/
def left (timeout : Duration) (made now : UInt64) : ℤ := timeout.total - (now.toNat - made.toNat : ℤ) * 400

/-- What is left is slept in whole milliseconds, unless the deadline has passed. -/
def SleepsLeft (timeout : Duration) (made now : UInt64) : Prop :=
  if left timeout made now < 0 then
    sleepUntilTimeout timeout made now = (.invalidArgument, none)
  else
    ∃ ms, sleepUntilTimeout timeout made now = (.ok, some ms) ∧ (ms.toNat : ℤ) = left timeout made now / 4000000

variable {timeout : Duration} {made now : UInt64}

theorem total_now_lt (ft : UInt64) : (timeNow ft).rep.total < 2 ^ 64 * 400 := by
  have size := (ft - ticksFrom1601ToUnixEpoch).toNat_lt
  have total := (timeNow_spec ft).2
  unfold unixTicks at total
  omega

theorem total_now_nonneg (ft : UInt64) : 0 ≤ (timeNow ft).rep.total := by
  have total := (timeNow_spec ft).2
  omega

theorem left_eq (epochMade : ticksFrom1601ToUnixEpoch ≤ made) (epochNow : ticksFrom1601ToUnixEpoch ≤ now) :
    left timeout made now = (timeNow made).rep.total + timeout.total - (timeNow now).rep.total := by
  rw [(timeNow_spec made).2, (timeNow_spec now).2, unixTicks_of_le epochMade, unixTicks_of_le epochNow, left]
  omega

theorem deadline_eq (finite : timeout.Finite) :
    (deadlineFromTimeout made timeout).rep =
      ofTicks ((timeNow made).rep.total + timeout.total) :=
  add_of_finite (timeNow_spec made).1 finite

theorem sleepUntil_of_finite {deadline : Time} (finite : deadline.rep.Finite)
    (upper : 0 ≤ deadline.rep.total) :
    (deadline.sub (timeNow now)).Finite ∧ (deadline.sub (timeNow now)).total = deadline.rep.total - (timeNow now).rep.total := by
  have late := total_now_lt now
  have nonneg := total_now_nonneg now
  obtain ⟨_, most⟩ := finite.total_mem
  rw [Time.sub, sub_of_finite finite (timeNow_spec now).1]
  exact ofTicks_of_mem (by unfold minTotal; omega) (by omega)

theorem isNeg_iff_of_finite {d : Duration} (finite : d.Finite) : d.isNeg = true ↔ d.total < 0 := by
  rw [finite.valid.isNeg_iff, finite.value_eq, fin_lt_fin]

/-- From 1970 on, a thread that sleeps until a deadline sleeps what is left of the timeout exactly
if that is less than 2³² milliseconds. -/
theorem sleepsLeft_iff (timeout : Duration) (made now : UInt64) (finite : timeout.Finite)
    (nonneg : timeout.isNeg = false) (epochMade : ticksFrom1601ToUnixEpoch ≤ made)
    (epochNow : ticksFrom1601ToUnixEpoch ≤ now) :
    SleepsLeft timeout made now ↔ left timeout made now / 4000000 < 2 ^ 32 := by
  have positive := (isNeg_iff_of_finite finite).not.mp (by simp [nonneg])
  have early := total_now_nonneg made
  have late := total_now_lt now
  have same : left timeout made now = _ := left_eq epochMade epochNow
  have deadline : (deadlineFromTimeout made timeout).rep = _ := deadline_eq finite
  unfold SleepsLeft sleepUntilTimeout sleepUntil
  by_cases beyond : maxTotal < (timeNow made).rep.total + timeout.total
  · -- the deadline is never, and so is the end of the sleep
    have endless : deadlineFromTimeout made timeout = ⟨inf⟩ :=
      congrArg Time.mk (deadline.trans (ofTicks_of_gt beyond))
    have long : 2 ^ 32 ≤ left timeout made now / 4000000 := by
      unfold maxTotal at beyond
      omega
    rw [if_neg (by omega), endless]
    refine iff_of_false ?_ (by omega)
    rintro ⟨ms, slept, exact⟩
    have size := ms.toNat_lt
    omega
  · obtain ⟨exact, total⟩ := ofTicks_of_mem (z := (timeNow made).rep.total + timeout.total)
      (by unfold minTotal; omega) (by omega)
    rw [← deadline] at exact total
    obtain ⟨rest, remaining⟩ : ((deadlineFromTimeout made timeout).sub (timeNow now)).Finite ∧ _ :=
      sleepUntil_of_finite exact (by omega)
    rw [total, ← same] at remaining
    by_cases passed : left timeout made now < 0
    · have sign := (isNeg_iff_of_finite rest).mpr (by rw [remaining]; exact passed)
      rw [if_pos passed]
      exact iff_of_true (by rw [sleepFor, if_pos sign]) (by omega)
    · have sign := Bool.eq_false_iff.mpr ((isNeg_iff_of_finite rest).not.mpr (by rw [remaining]; exact passed))
      have count := toNat_milliseconds rest sign
      rw [whole, remaining] at count
      rw [if_neg passed, sleepFor, if_neg (by simp [sign])]
      constructor
      · rintro ⟨ms, slept, whole⟩
        have size := ms.toNat_lt
        omega
      · intro short
        exact ⟨_, rfl, by omega⟩

/-- A quarter of a second late for a timeout of one second, and for one of fifty days. -/
theorem sleepsLeft_iff_for_a_quarter :
    SleepsLeft ⟨1, 0⟩ 133500000000000000 133500000002500000 ∧
      ¬SleepsLeft ⟨4320000, 0⟩ 133500000000000000 133500000002500000 := by
  have short := sleepsLeft_iff ⟨1, 0⟩ 133500000000000000 133500000002500000
    (by decide) rfl (by decide) (by decide)
  have long := sleepsLeft_iff ⟨4320000, 0⟩ 133500000000000000 133500000002500000
    (by decide) rfl (by decide) (by decide)
  exact ⟨short.mpr (by decide), long.not.mpr (by decide)⟩

end Rbc.Thread.Win32
