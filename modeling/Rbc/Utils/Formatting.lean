import Mathlib.Data.Nat.Digits.Lemmas
import Rbc.Utils.ToChars

namespace Rbc

def digitChar (d : Nat) : UInt8 := UInt8.ofNat (48 + d)

/-- The digits of a positive number, the leading one first. -/
def decimal (n : Nat) : List UInt8 := (Nat.digits 10 n).reverse.map digitChar

/-- The canonical text of a number. -/
def text (v : Int) : List UInt8 :=
  if v = 0 then [48] else if v < 0 then 45 :: decimal v.natAbs else decimal v.natAbs

/-- The memory after some characters were stored from `first` on. -/
def Memory.write (memory : Memory) (first : Nat) (cs : List UInt8) : Memory :=
  fun a => (if first ≤ a then cs[a - first]? else none).getD (memory a)

@[simp] theorem Memory.write_nil (memory : Memory) (first : Nat) : memory.write first [] = memory := by
  funext a
  simp [Memory.write]

theorem Memory.write_cons (memory : Memory) (first : Nat) (c : UInt8) (cs : List UInt8) :
    memory.write first (c :: cs) = Memory.write (Function.update memory first c) (first + 1) cs := by
  funext a
  unfold Memory.write
  rcases Nat.lt_trichotomy a first with before | rfl | after
  · rw [if_neg (by omega), if_neg (by omega), Function.update_of_ne (by omega)]
  · rw [if_pos le_rfl, if_neg (by omega), Nat.sub_self, Function.update_self]
    rfl
  · rw [if_pos (by omega), if_pos (by omega), Function.update_of_ne (by omega),
      show a - first = a - (first + 1) + 1 by omega, List.getElem?_cons_succ]

theorem Memory.update_write_cons (memory : Memory) (first : Nat) (c d : UInt8) (cs : List UInt8) :
    Function.update (memory.write first (c :: cs)) first d = memory.write first (d :: cs) := by
  funext a
  by_cases here : a = first
  · rw [here, Function.update_self, Memory.write, if_pos le_rfl, Nat.sub_self]
    rfl
  · rw [Function.update_of_ne here]
    unfold Memory.write
    by_cases after : first ≤ a
    · rw [if_pos after, if_pos after, show a - first = a - first - 1 + 1 by omega, List.getElem?_cons_succ,
        List.getElem?_cons_succ]
    · rw [if_neg after, if_neg after]

theorem nbDigits_eq (x : Nat) : nbDigits x = (Nat.digits 10 x).length := by
  induction x using nbDigits.induct with
  | case1 => rw [nbDigits, if_pos rfl, Nat.digits_zero, List.length_nil]
  | case2 x nonzero ih =>
    rw [nbDigits, if_neg nonzero, ih, Nat.digits_def' (by decide) (Nat.pos_of_ne_zero nonzero), List.length_cons]

/-- The loop stores the digits of the value, the last one first. -/
theorem writeDigits_eq (memory : Memory) (ptr value : Nat) :
    writeDigits memory ptr value =
      (memory.write ptr ((Nat.digits 10 value).map digitChar), ptr + (Nat.digits 10 value).length) := by
  induction memory, ptr, value using writeDigits.induct with
  | case1 memory ptr => rw [writeDigits, if_pos rfl, Nat.digits_zero, List.map_nil, Memory.write_nil]; rfl
  | case2 memory ptr value nonzero ih =>
    rw [writeDigits, if_neg nonzero, ih, Nat.digits_def' (by decide) (Nat.pos_of_ne_zero nonzero),
      List.map_cons, Memory.write_cons, List.length_cons, Nat.add_assoc, Nat.add_comm 1]
    rfl

/-- The loop mirrors what lies between its pointers. -/
theorem swapLoop_apply (memory : Memory) (first last a : Nat) :
    swapLoop memory first last a =
      if first ≤ a ∧ a ≤ last then memory (first + last - a) else memory a := by
  induction memory, first, last using swapLoop.induct with
  | case1 memory first last more t next ih =>
    rw [swapLoop, if_pos more]
    have stored : next = Function.update memory first (memory last) := rfl
    show swapLoop (Function.update next last t) (first + 1) (last - 1) a = _
    rw [ih, stored]
    by_cases inner : first + 1 ≤ a ∧ a ≤ last - 1
    · rw [if_pos inner, if_pos (by omega), Function.update_of_ne (by omega), Function.update_of_ne (by omega)]
      congr 1
      omega
    rw [if_neg inner]
    by_cases right : a = last
    · rw [if_pos (by omega), right, Function.update_self, Nat.add_sub_cancel]
    rw [Function.update_of_ne right]
    by_cases left : a = first
    · rw [if_pos (by omega), left, Function.update_self, Nat.add_sub_cancel_left]
    · rw [if_neg (by omega), Function.update_of_ne left]
  | case2 memory first last done =>
    rw [swapLoop, if_neg done]
    by_cases middle : first ≤ a ∧ a ≤ last
    · rw [if_pos middle]
      congr 1
      omega
    · rw [if_neg middle]

theorem swapLoop_write (memory : Memory) (first : Nat) {cs : List UInt8} (nonempty : cs ≠ []) :
    swapLoop (memory.write first cs) first (first + cs.length - 1) = memory.write first cs.reverse := by
  have positive := List.length_pos_iff.mpr nonempty
  funext a
  rw [swapLoop_apply]
  unfold Memory.write
  by_cases before : first ≤ a
  · simp only [if_pos before]
    by_cases inside : a - first < cs.length
    · have mirrored : first + (first + cs.length - 1) - a - first = cs.length - 1 - (a - first) := by omega
      rw [if_pos (by omega), if_pos (by omega), List.getElem?_reverse inside, mirrored,
        List.getElem?_eq_getElem (by omega)]
      rfl
    · rw [if_neg (by omega), List.getElem?_eq_none (by omega),
        List.getElem?_eq_none (by rw [List.length_reverse]; omega)]
  · simp only [if_neg before]
    rw [if_neg (by omega)]

theorem swapLoop_digits (memory : Memory) (first : Nat) {n : Nat} (positive : 0 < n) :
    swapLoop (memory.write first ((Nat.digits 10 n).map digitChar)) first (first + nbDigits n - 1) =
      memory.write first (decimal n) := by
  have nonempty : (Nat.digits 10 n).map digitChar ≠ [] := by
    rw [ne_eq, List.map_eq_nil_iff, Nat.digits_eq_nil_iff_eq_zero]
    omega
  have reversed := swapLoop_write memory first nonempty
  rw [List.length_map, ← nbDigits_eq, ← List.map_reverse] at reversed
  exact reversed

theorem length_decimal (n : Nat) : (decimal n).length = nbDigits n := by
  rw [decimal, List.length_map, List.length_reverse, nbDigits_eq]

/-- The successor of a number that does not end in nine. -/
theorem digits_succ {n : Nat} (small : n % 10 < 9) :
    Nat.digits 10 (n + 1) = (n % 10 + 1) :: Nat.digits 10 (n / 10) := by
  rw [Nat.digits_def' (by decide) (Nat.succ_pos n), show (n + 1) % 10 = n % 10 + 1 by omega,
    show (n + 1) / 10 = n / 10 by omega]

/-- Incrementing the character stored first gives the digits of the successor. -/
theorem update_digits (memory : Memory) (first : Nat) {n : Nat} (positive : 0 < n) (small : n % 10 < 9) :
    let digits := memory.write first ((Nat.digits 10 n).map digitChar)
    Function.update digits first (digits first + 1) =
      memory.write first ((Nat.digits 10 (n + 1)).map digitChar) := by
  have here : memory.write first ((Nat.digits 10 n).map digitChar) first + 1 = digitChar (n % 10 + 1) := by
    rw [Nat.digits_def' (by decide) positive, List.map_cons, Memory.write, if_pos le_rfl, Nat.sub_self]
    exact (UInt8.ofNat_add (48 + n % 10) 1).symm
  show Function.update _ _ _ = _
  rw [here, digits_succ small, Nat.digits_def' (by decide) positive, List.map_cons, Memory.update_write_cons,
    List.map_cons]

theorem nbDigits_succ {n : Nat} (positive : 0 < n) (small : n % 10 < 9) : nbDigits (n + 1) = nbDigits n := by
  rw [nbDigits_eq, nbDigits_eq, digits_succ small, Nat.digits_def' (by decide) positive, List.length_cons,
    List.length_cons]

/-- The digits of a positive number, or of its successor when `is_min` is set. -/
theorem putDigits_eq (memory : Memory) (first last : Nat) {n : Nat} (positive : 0 < n) (isMin : Bool)
    (small : isMin = true → n % 10 < 9) :
    putDigits memory first last n isMin =
      if last < first + (decimal (n + isMin.toNat)).length then ⟨last, .valueTooLarge, memory⟩
      else ⟨first + (decimal (n + isMin.toNat)).length, .ok, memory.write first (decimal (n + isMin.toNat))⟩ := by
  have count : nbDigits (n + isMin.toNat) = nbDigits n := by
    cases isMin with
    | false => rfl
    | true => exact nbDigits_succ positive (small rfl)
  rw [length_decimal, count, putDigits]
  by_cases full : last < first + nbDigits n
  · rw [if_pos full, if_pos full]
  · rw [if_neg full, if_neg full, writeDigits_eq, ← nbDigits_eq]
    cases isMin with
    | false => exact congrArg (ToCharsResult.mk _ _) (swapLoop_digits memory first positive)
    | true =>
      have digits := swapLoop_digits memory first (Nat.succ_pos n)
      rw [nbDigits_succ positive (small rfl)] at digits
      refine congrArg (ToCharsResult.mk _ _) (Eq.trans ?_ digits)
      exact congrArg (swapLoop · first _) (update_digits memory first positive (small rfl))

theorem decimal_ne_nil {n : Nat} (positive : 0 < n) : 0 < (decimal n).length := by
  rw [length_decimal, nbDigits, if_neg positive.ne']
  exact Nat.succ_pos _

variable {T : IntType}

/-- What a call leaves: all of the canonical text, or at most a minus. -/
def formatted (memory : Memory) (first last : Nat) (v : Int) : ToCharsResult :=
  if last ≤ first then
    ⟨first, .invalidArgument, memory⟩
  else if last < first + (text v).length then
    ⟨last, .valueTooLarge, if v < 0 then Function.update memory first 45 else memory⟩
  else
    ⟨first + (text v).length, .ok, memory.write first (text v)⟩

theorem formatted_zero {memory : Memory} {first last : Nat} (room : ¬last ≤ first) :
    formatted memory first last 0 = ⟨first + 1, .ok, Function.update memory first 48⟩ := by
  have single : text 0 = [48] := rfl
  rw [formatted, if_neg room, single, List.length_singleton, if_neg (by omega), Memory.write_cons,
    Memory.write_nil]

theorem formatted_of_pos {memory : Memory} {first last : Nat} {v : Int} (room : ¬last ≤ first)
    (positive : 0 < v) : formatted memory first last v = putDigits memory first last v.toNat false := by
  have digits : text v = decimal v.toNat := by
    rw [text, if_neg positive.ne', if_neg (by omega), show v.natAbs = v.toNat by omega]
  rw [formatted, if_neg room, digits, if_neg (show ¬v < 0 by omega),
    putDigits_eq memory first last (by omega) false (by simp)]
  rfl

theorem formatted_of_neg {memory : Memory} {first last : Nat} {v : Int} (room : ¬last ≤ first)
    (negative : v < 0) (n : Nat) (isMin : Bool) (magnitude : v.natAbs = n + isMin.toNat) (positive : 0 < n)
    (small : isMin = true → n % 10 < 9) :
    formatted memory first last v =
      if first + 1 = last then ⟨last, .valueTooLarge, Function.update memory first 45⟩
      else putDigits (Function.update memory first 45) (first + 1) last n isMin := by
  have digits : text v = 45 :: decimal (n + isMin.toNat) := by
    rw [text, if_neg negative.ne, if_pos negative, magnitude]
  have nonempty : 0 < (decimal (n + isMin.toNat)).length := decimal_ne_nil (by omega)
  rw [formatted, if_neg room, digits, List.length_cons, if_pos negative, Memory.write_cons,
    putDigits_eq _ _ _ positive isMin small]
  by_cases full : first + 1 = last
  · rw [if_pos full, if_pos (by omega)]
  · rw [if_neg full, Nat.add_assoc, Nat.add_comm 1, ← Nat.add_assoc]

theorem toCharsSigned_eq (signed : T.signed = true) (memory : Memory) (first last : Nat) (v : T.Value) :
    toCharsSigned T memory first last v = formatted memory first last v.val := by
  have least := IntType.min_of_signed signed
  have seven := IntType.max_emod_ten signed
  have nine := T.nine_le_max
  have lower := v.property.1
  have upper := v.property.2
  unfold toCharsSigned
  by_cases room : last ≤ first
  · rw [if_pos room, formatted, if_pos room]
  rw [if_neg room]
  by_cases zero : v.val = 0
  · rw [if_pos zero, zero, formatted_zero room]
  rw [if_neg zero]
  by_cases negative : v.val < 0
  · simp only [negative, decide_true, if_true]
    by_cases bottom : v.val = T.min
    · have greatest : (T.convert T.max).val = T.max := IntType.val_convert (by omega) le_rfl
      rw [formatted_of_neg room negative T.max.toNat true (by simp; omega) (by omega)
        (by omega)]
      simp only [bottom, decide_true, if_true, greatest]
    · have opposite : (T.convert (T.arith (-v.val))).val = -v.val := by
        rw [IntType.arith_eq (by omega) (by omega), IntType.val_convert (by omega) (by omega)]
      rw [formatted_of_neg room negative (-v.val).toNat false (by simp; omega) (by omega)
        (by simp)]
      simp only [bottom, decide_false, Bool.false_eq_true, if_false, opposite]
  · have positive : 0 < v.val := by omega
    have notLeast : ¬v.val = T.min := by omega
    simp only [negative, decide_false, Bool.false_eq_true, if_false, notLeast]
    rw [if_neg (by omega), formatted_of_pos room positive]

theorem toCharsUnsigned_eq (unsigned : T.signed = false) (memory : Memory) (first last : Nat) (v : T.Value) :
    toCharsUnsigned T memory first last v = formatted memory first last v.val := by
  have least := IntType.min_of_unsigned unsigned
  have lower := v.property.1
  unfold toCharsUnsigned
  by_cases room : last ≤ first
  · rw [if_pos room, formatted, if_pos room]
  rw [if_neg room]
  by_cases zero : v.val = 0
  · rw [if_pos zero, zero, formatted_zero room]
  · rw [if_neg zero, formatted_of_pos room (by omega)]

theorem toChars_eq (T : IntType) (memory : Memory) (first last : Nat) (v : T.Value) :
    toChars T memory first last v = formatted memory first last v.val := by
  cases T with
  | i8 | i16 | i32 | i64 => exact toCharsSigned_eq rfl memory first last v
  | u8 | u16 | u32 | u64 => exact toCharsUnsigned_eq rfl memory first last v

end Rbc
