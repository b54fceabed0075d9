import Mathlib.Algebra.Group.Int.Defs
import Mathlib.Algebra.Group.Nat.Defs
import Mathlib.Data.Int.Init

namespace Rbc

/-- What the code takes from its target: the size in bytes of a data pointer,
which is also the size of `usize` (`uintptr_t`). C guarantees 16 bits or more. -/
structure Abi where
  ptrSize : Nat
  two_le_ptrSize : 2 ≤ ptrSize

namespace Abi

/-- The 64-bit targets the library is built for. -/
def lp64 : Abi := ⟨8, by decide⟩

/-- Conversion of an `int` to `usize`: modulo one more than its maximum. -/
def toUsize (abi : Abi) (x : Int) : Nat :=
  (x % 2 ^ (8 * abi.ptrSize)).toNat

theorem two_pow_le (abi : Abi) : 2 ^ 16 ≤ 2 ^ (8 * abi.ptrSize) :=
  Nat.pow_le_pow_right (by decide) (by have := abi.two_le_ptrSize; omega)

theorem toUsize_of_lt (abi : Abi) {n : Nat} (small : n < 2 ^ 16) : abi.toUsize n = n := by
  have bound : n < 2 ^ (8 * abi.ptrSize) := Nat.lt_of_lt_of_le small abi.two_pow_le
  rw [toUsize, Int.emod_eq_of_lt (by omega) (by exact_mod_cast bound), Int.toNat_natCast]

end Abi

end Rbc
