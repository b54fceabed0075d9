import Rbc.Time.Duration

namespace Rbc

/-- `rbc_timespec` on a target whose `time_t` is signed and has `w` bits. -/
structure Timespec (w : Nat) where
  tvSec : BitVec w
  tvNsec : Int64
  deriving DecidableEq, Repr

namespace Duration

/-- The fields after the tweak with which `rbc_duration_to_timespec` makes the
division of `ticks` round towards zero also below zero. -/
def tweak (self : Duration) : Duration :=
  if self.secs < 0 then
    let ticks := self.ticks + (ticksPerNanosecond - 1)
    if ticksPerSecond ≤ ticks then ⟨self.secs + 1, ticks - ticksPerSecond⟩ else ⟨self.secs, ticks⟩
  else
    self

/-- The last lines of `rbc_duration_to_timespec`: what stands for a time that
`time_t` cannot express. -/
def clampedTimespec (w : Nat) (self : Duration) : Timespec w :=
  if self.isNeg then
    ⟨BitVec.intMin w, 0⟩
  else
    ⟨BitVec.intMax w, nanosecondsPerSecond - 1⟩

def toTimespec (w : Nat) (self : Duration) : Timespec w :=
  if self.isInf then
    clampedTimespec w self
  else
    let fields := self.tweak
    let tvSec := BitVec.ofInt w fields.secs.toInt
    -- no narrowing by the conversion to `time_t`
    if tvSec.toInt = fields.secs.toInt then
      ⟨tvSec, Int64.ofNat (fields.ticks / ticksPerNanosecond).toNat⟩
    else
      clampedTimespec w self

def fromTimespec {w : Nat} (ts : Timespec w) : Duration :=
  if ts.tvNsec < nanosecondsPerSecond then
    ⟨Int64.ofInt ts.tvSec.toInt, (ts.tvNsec * 4).toUInt64.toUInt32⟩
  else
    add (s (Int64.ofInt ts.tvSec.toInt)) (ns ts.tvNsec)

end Duration

/-- `rbc_time`: a duration since the Unix epoch. -/
structure Time where
  rep : Duration
  deriving DecidableEq, Repr

namespace Time

def sub (lhs rhs : Time) : Duration := lhs.rep.sub rhs.rep

def addDuration (self : Time) (d : Duration) : Time := ⟨self.rep.add d⟩

def toTimespec (w : Nat) (t : Time) : Timespec w := t.rep.toTimespec w

def fromTimespec {w : Nat} (ts : Timespec w) : Time := ⟨Duration.fromTimespec ts⟩

/-- `rbc_time_deadline_from_timeout` at a moment at which the clock reads `now`. -/
def deadlineFromTimeout {w : Nat} (now : Timespec w) (timeout : Duration) : Time :=
  (fromTimespec now).addDuration timeout

/-- What `rbc_mutex_lock_for` and `rbc_cond_var_wait_for` hand to the operating
system for a timeout. -/
def osDeadline {w : Nat} (now : Timespec w) (timeout : Duration) : Timespec w :=
  (deadlineFromTimeout now timeout).toTimespec w

end Time

end Rbc
