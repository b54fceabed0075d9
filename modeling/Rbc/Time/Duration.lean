import Mathlib.Data.Int.Init

namespace Rbc

/-- `rbc_duration`: `secs` whole seconds, rounded down, and quarter nanoseconds.
Constants and functions stand under their names in the source, without the
prefixes `RBC_` and `rbc_duration_`. -/
structure Duration where
  secs : Int64
  ticks : UInt32
  deriving DecidableEq, Repr

namespace Duration

def infTicks : UInt32 := ~~~0

def inf : Duration := ⟨Int64.maxValue, infTicks⟩

def negInf : Duration := ⟨Int64.minValue, infTicks⟩

def ticksPerSecond : UInt32 := 4000000000

def ticksPerNanosecond : UInt32 := 4

def nanosecondsPerSecond : Int64 := 1000000000

/-- `make_duration`; the conversion of `ticks` to `u32` drops its upper half. -/
def makeDuration (secs ticks : Int64) : Duration :=
  ⟨secs, ticks.toUInt64.toUInt32⟩

def makeNormalizedDuration (secs ticks : Int64) : Duration :=
  if ticks < 0 then makeDuration (secs - 1) (ticks + 4000000000) else makeDuration secs ticks

/-- `from_i64`; division of `Int64` truncates, as in C. -/
def fromI64 (value ratio : Int64) : Duration :=
  let rem := value % ratio
  makeNormalizedDuration (value / ratio) ((rem * 4000000000) / ratio)

def ns (n : Int64) : Duration := fromI64 n nanosecondsPerSecond

def s (n : Int64) : Duration := fromI64 n 1

def isInf (self : Duration) : Bool := self.ticks == infTicks

def isNeg (self : Duration) : Bool := self.secs < 0

def lt (lhs rhs : Duration) : Bool :=
  if lhs.secs ≠ rhs.secs then
    lhs.secs < rhs.secs
  else if lhs.secs = Int64.minValue then
    lhs.ticks + 1 < rhs.ticks + 1
  else
    lhs.ticks < rhs.ticks

def gt (lhs rhs : Duration) : Bool := lt rhs lhs

def le (lhs rhs : Duration) : Bool := !lt rhs lhs

def ge (lhs rhs : Duration) : Bool := !lt lhs rhs

def eq (lhs rhs : Duration) : Bool := lhs.secs == rhs.secs && lhs.ticks == rhs.ticks

def ne (lhs rhs : Duration) : Bool := !eq lhs rhs

def neg (self : Duration) : Duration :=
  if self.ticks = 0 then
    if self.secs = Int64.minValue then inf else ⟨-self.secs, 0⟩
  else if self.isInf then
    if self.secs < 0 then inf else negInf
  else
    ⟨~~~self.secs, ticksPerSecond - self.ticks⟩

def add (lhs rhs : Duration) : Duration :=
  if lhs.isInf then
    lhs
  else if rhs.isInf then
    rhs
  else
    let carry := ticksPerSecond - rhs.ticks ≤ lhs.ticks
    let secs := lhs.secs + rhs.secs
    let secs := if carry then secs + 1 else secs
    let ticks := if carry then lhs.ticks - ticksPerSecond else lhs.ticks
    let ticks := ticks + rhs.ticks
    if (if rhs.secs < 0 then lhs.secs < secs else secs < lhs.secs) then
      if rhs.secs < 0 then negInf else inf
    else
      ⟨secs, ticks⟩

def sub (lhs rhs : Duration) : Duration :=
  if lhs.isInf then
    lhs
  else if rhs.isInf then
    if 0 < rhs.secs then negInf else inf
  else
    let borrow := lhs.ticks < rhs.ticks
    let secs := lhs.secs - rhs.secs
    let secs := if borrow then secs - 1 else secs
    let ticks := if borrow then lhs.ticks + ticksPerSecond else lhs.ticks
    let ticks := ticks - rhs.ticks
    if (if rhs.secs < 0 then secs < lhs.secs else lhs.secs < secs) then
      if 0 ≤ rhs.secs then negInf else inf
    else
      ⟨secs, ticks⟩

end Duration

end Rbc
