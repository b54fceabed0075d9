import Mathlib.Logic.Function.Basic
import Rbc.Core.Error
import Rbc.Core.IntType

namespace Rbc

/-- The characters at all addresses. -/
abbrev Memory := Nat → UInt8

/-- `RBC_TO_CHARS_RESULT_MAX_LEN`. -/
def toCharsResultMaxLen : Nat := 20

/-- `rbc_to_chars_result`, and the memory that the call leaves. -/
structure ToCharsResult where
  ptr : Nat
  error : Error
  memory : Memory

/-- `for (type x = value; x; x /= 10) ++nb_digits`. -/
def nbDigits (x : Nat) : Nat :=
  if x = 0 then 0 else nbDigits (x / 10) + 1

/-- `while (value) { *ptr++ = '0' + (value % 10); value /= 10; }`. -/
def writeDigits (memory : Memory) (ptr value : Nat) : Memory × Nat :=
  if value = 0 then (memory, ptr)
  else writeDigits (Function.update memory ptr (UInt8.ofNat (48 + value % 10))) (ptr + 1) (value / 10)
termination_by value

/-- `for (...; first < last; ++first, --last)` swapping what both point to. -/
def swapLoop (memory : Memory) (first last : Nat) : Memory :=
  if first < last then
    let t := memory first
    let memory := Function.update memory first (memory last)
    swapLoop (Function.update memory last t) (first + 1) (last - 1)
  else
    memory
termination_by last - first

/-- Both macros from `int nb_digits = 0` on, where `value` is positive; only
the signed one has a flag `is_min`, for which it increments the last digit. -/
def putDigits (memory : Memory) (first last value : Nat) (isMin : Bool) : ToCharsResult :=
  if last < first + nbDigits value then
    ⟨last, .valueTooLarge, memory⟩
  else
    let (memory, ptr) := writeDigits memory first value
    let memory := if isMin then Function.update memory first (memory first + 1) else memory
    ⟨ptr, .ok, swapLoop memory first (first + nbDigits value - 1)⟩

def toCharsSigned (T : IntType) (memory : Memory) (first last : Nat) (value : T.Value) : ToCharsResult :=
  if last ≤ first then
    ⟨first, .invalidArgument, memory⟩
  else if value.val = 0 then
    ⟨first + 1, .ok, Function.update memory first 48⟩
  else
    let isMin : Bool := value.val = T.min
    let negative : Bool := value.val < 0
    let memory := if negative then Function.update memory first 45 else memory
    let first := if negative then first + 1 else first
    let value := if negative then T.convert (if isMin then T.max else T.arith (-value.val)) else value
    if first = last then
      ⟨last, .valueTooLarge, memory⟩
    else
      putDigits memory first last value.val.toNat isMin

def toCharsUnsigned (T : IntType) (memory : Memory) (first last : Nat) (value : T.Value) : ToCharsResult :=
  if last ≤ first then
    ⟨first, .invalidArgument, memory⟩
  else if value.val = 0 then
    ⟨first + 1, .ok, Function.update memory first 48⟩
  else
    putDigits memory first last value.val.toNat false

def toCharsI8 := toCharsSigned .i8
def toCharsI16 := toCharsSigned .i16
def toCharsI32 := toCharsSigned .i32
def toCharsI64 := toCharsSigned .i64
def toCharsU8 := toCharsUnsigned .u8
def toCharsU16 := toCharsUnsigned .u16
def toCharsU32 := toCharsUnsigned .u32
def toCharsU64 := toCharsUnsigned .u64

/-- The `rbc_to_chars` selection by the type of `value`. -/
def toChars : (T : IntType) → (memory : Memory) → (first last : Nat) → T.Value → ToCharsResult
  | .i8 => toCharsI8
  | .i16 => toCharsI16
  | .i32 => toCharsI32
  | .i64 => toCharsI64
  | .u8 => toCharsU8
  | .u16 => toCharsU16
  | .u32 => toCharsU32
  | .u64 => toCharsU64

end Rbc
