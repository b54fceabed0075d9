import Rbc.Basis.BoundedReader
import Rbc.Core.Error
import Rbc.Core.IntType

namespace Rbc

open BoundedReader

/-- `isspace` in the C locale. -/
def isSpace (c : UInt8) : Bool := c == 32 || (9 ≤ c && c ≤ 13)

def isDigit (c : UInt8) : Bool := 48 ≤ c && c ≤ 57

def digit (c : UInt8) : Int := c.toNat - 48

/-- `rbc_from_chars_result`, and what was stored through `value`, if anything. -/
structure FromCharsResult (T : IntType) where
  ptr : Nat
  error : Error
  stored : Option T.Value
  deriving DecidableEq, Repr

/-- `while (first != last && isspace(*first)) ++first`, where the first argument
is `last - first`. -/
def skipSpaces : Nat → Nat → BoundedReader UInt8 Nat
  | 0, first => pure first
  | remaining + 1, first => do
    let c ← read first
    if isSpace c then skipSpaces remaining (first + 1) else pure first

/-- The common beginning of both macros: an empty range is invalid, then the
spaces are skipped. -/
def afterSpaces {T : IntType} (first last : Nat) (next : Nat → BoundedReader UInt8 (FromCharsResult T)) :
    BoundedReader UInt8 (FromCharsResult T) :=
  if last ≤ first then
    pure ⟨first, .invalidArgument, none⟩
  else do
    let start ← skipSpaces (last - first) first
    if start = last then pure ⟨first, .invalidArgument, none⟩ else next start

/-- What the two macros do with the digits they read: `start` with the first
one, `step` in the body of the loop, which may leave the function, and `finish`
after it. -/
structure Accumulator (T : IntType) (S : Type) where
  start : UInt8 → S
  step : S → UInt8 → Option S
  finish : S → T.Value

/-- `for (++first; first != last && isdigit(*first); ++first)`, where the first
number is `last - first`. Leaving the function early gives the position. -/
def digitLoop {S : Type} (step : S → UInt8 → Option S) :
    Nat → Nat → S → BoundedReader UInt8 (Except Nat (Nat × S))
  | 0, first, state => pure (.ok (first, state))
  | remaining + 1, first, state => do
    let c ← read first
    if isDigit c then
      match step state c with
      | none => pure (.error first)
      | some state => digitLoop step remaining (first + 1) state
    else
      pure (.ok (first, state))

/-- Both macros from `if (first == last || !isdigit(*first))` on; `origin` is
the pointer of the call. -/
def fromCharsDigits {T : IntType} {S : Type} (acc : Accumulator T S) (origin first last : Nat) :
    BoundedReader UInt8 (FromCharsResult T) :=
  if first = last then
    pure ⟨origin, .invalidArgument, none⟩
  else do
    let c ← read first
    if !isDigit c then
      pure ⟨origin, .invalidArgument, none⟩
    else do
      let outcome ← digitLoop acc.step (last - (first + 1)) (first + 1) (acc.start c)
      match outcome with
      | .error ptr => pure ⟨ptr, .resultOutOfRange, none⟩
      | .ok (ptr, state) => pure ⟨ptr, .ok, some (acc.finish state)⟩

/-- The magnitude and the flag `is_min` of `RBC_FROM_CHARS_IMPL_SIGNED`. -/
def signedAccumulator (T : IntType) (isNegative : Bool) : Accumulator T (T.Value × Bool) where
  start c := (T.convert (digit c), false)
  step := fun (x, isMin) c =>
    if isMin || T.max / 10 < x.val then
      none
    else
      let x := T.convert (T.arith (x.val * 10))
      let d := T.convert (digit c)
      if !isNegative && T.arith (T.max - d.val) < x.val ||
          isNegative && T.arith (-x.val) < T.arith (T.min + d.val) then
        none
      else
        some (T.convert (T.arith (x.val + d.val)), T.arith (-x.val) == T.arith (T.min + d.val))
  finish := fun (x, isMin) =>
    if isNegative then T.convert (if isMin then T.min else T.arith (-x.val)) else x

def fromCharsSigned (T : IntType) (first last : Nat) : BoundedReader UInt8 (FromCharsResult T) :=
  afterSpaces first last fun start => do
    let c ← read start
    let isNegative := c == 45
    let start := if c == 43 || c == 45 then start + 1 else start
    fromCharsDigits (signedAccumulator T isNegative) first start last

def unsignedAccumulator (T : IntType) : Accumulator T T.Value where
  start c := T.convert (digit c)
  step x c :=
    if T.max / 10 < x.val then
      none
    else
      let x := T.convert (T.arith (x.val * 10))
      let d := T.convert (digit c)
      if T.arith (T.max - d.val) < x.val then none else some (T.convert (T.arith (x.val + d.val)))
  finish x := x

def fromCharsUnsigned (T : IntType) (first last : Nat) : BoundedReader UInt8 (FromCharsResult T) :=
  afterSpaces first last fun start => do
    let c ← read start
    if c == 45 then
      pure ⟨first, .invalidArgument, none⟩
    else
      let start := if c == 43 then start + 1 else start
      fromCharsDigits (unsignedAccumulator T) first start last

def fromCharsI8 := fromCharsSigned .i8
def fromCharsI16 := fromCharsSigned .i16
def fromCharsI32 := fromCharsSigned .i32
def fromCharsI64 := fromCharsSigned .i64
def fromCharsU8 := fromCharsUnsigned .u8
def fromCharsU16 := fromCharsUnsigned .u16
def fromCharsU32 := fromCharsUnsigned .u32
def fromCharsU64 := fromCharsUnsigned .u64

/-- The `rbc_from_chars` selection by the type of `*value`. -/
def fromChars : (T : IntType) → (first last : Nat) → BoundedReader UInt8 (FromCharsResult T)
  | .i8 => fromCharsI8
  | .i16 => fromCharsI16
  | .i32 => fromCharsI32
  | .i64 => fromCharsI64
  | .u8 => fromCharsU8
  | .u16 => fromCharsU16
  | .u32 => fromCharsU32
  | .u64 => fromCharsU64

end Rbc
