import Mathlib.Algebra.Order.Ring.Int

namespace Rbc

/-- The fixed-width integer types of `types.h`. -/
inductive IntType
  | i8 | i16 | i32 | i64 | u8 | u16 | u32 | u64
  deriving DecidableEq, Repr

namespace IntType

/-- `INT8_MIN` and its siblings; an unsigned type starts at zero. -/
def min : IntType → Int
  | .i8 => -128
  | .i16 => -32768
  | .i32 => -2147483648
  | .i64 => -9223372036854775808
  | .u8 | .u16 | .u32 | .u64 => 0

def max : IntType → Int
  | .i8 => 127
  | .i16 => 32767
  | .i32 => 2147483647
  | .i64 => 9223372036854775807
  | .u8 => 255
  | .u16 => 65535
  | .u32 => 4294967295
  | .u64 => 18446744073709551615

def signed : IntType → Bool
  | .i8 | .i16 | .i32 | .i64 => true
  | .u8 | .u16 | .u32 | .u64 => false

/-- The type in which C evaluates arithmetic on operands of a type: types
narrower than `int` are promoted to it. -/
def promoted : IntType → IntType
  | .i8 | .i16 | .u8 | .u16 => .i32
  | T => T

def Value (T : IntType) : Type := { v : Int // T.min ≤ v ∧ v ≤ T.max }
  deriving DecidableEq, Repr

variable {T : IntType}

theorem min_nonpos (T : IntType) : T.min ≤ 0 := by cases T <;> decide

theorem nine_le_max (T : IntType) : 9 ≤ T.max := by cases T <;> decide

theorem promoted_min_le (T : IntType) : T.promoted.min ≤ T.min := by cases T <;> decide

theorem max_le_promoted (T : IntType) : T.max ≤ T.promoted.max := by cases T <;> decide

theorem min_of_signed (signed : T.signed = true) : T.min = -T.max - 1 := by
  cases T <;> first | rfl | exact absurd signed (by decide)

theorem min_of_unsigned (unsigned : T.signed = false) : T.min = 0 := by
  cases T <;> first | rfl | exact absurd unsigned (by decide)

theorem max_emod_ten (signed : T.signed = true) : T.max % 10 = 7 := by
  cases T <;> first | rfl | exact absurd signed (by decide)

/-- Conversion of an exact result to the type: the value congruent to it. -/
def convert (T : IntType) (z : Int) : T.Value :=
  ⟨(z - T.min) % (T.max - T.min + 1) + T.min, by
    have low := T.min_nonpos
    have high := T.nine_le_max
    have positive : 0 < T.max - T.min + 1 := by omega
    have lower := Int.emod_nonneg (z - T.min) positive.ne'
    have upper := Int.emod_lt_of_pos (z - T.min) positive
    omega⟩

theorem val_convert {z : Int} (lower : T.min ≤ z) (upper : z ≤ T.max) : (T.convert z).val = z := by
  show (z - T.min) % (T.max - T.min + 1) + T.min = z
  rw [Int.emod_eq_of_lt (by omega) (by omega)]
  omega

theorem convert_val (v : T.Value) : T.convert v.val = v :=
  Subtype.ext (val_convert v.property.1 v.property.2)

/-- What C computes for an exact result of an operation on the type. -/
def arith (T : IntType) (z : Int) : Int := (T.promoted.convert z).val

theorem arith_eq {z : Int} (lower : T.min ≤ z) (upper : z ≤ T.max) : T.arith z = z :=
  val_convert (T.promoted_min_le.trans lower) (upper.trans T.max_le_promoted)

theorem val_convert_of_nonneg {z : Int} (nonneg : 0 ≤ z) (upper : z ≤ T.max) : (T.convert z).val = z :=
  val_convert (T.min_nonpos.trans nonneg) upper

/-- An assignment of a result that the type can hold stores that result. -/
theorem val_convert_arith {z : Int} (nonneg : 0 ≤ z) (upper : z ≤ T.max) :
    (T.convert (T.arith z)).val = z := by
  rw [arith_eq (T.min_nonpos.trans nonneg) upper, val_convert_of_nonneg nonneg upper]

end IntType

end Rbc
