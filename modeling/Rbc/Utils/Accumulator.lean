import Rbc.Basis.Positional
import Rbc.Utils.FromChars

namespace Rbc

def digitValue (c : UInt8) : Nat := c.toNat - 48

theorem isDigit_iff {c : UInt8} : isDigit c = true ↔ 48 ≤ c.toNat ∧ c.toNat ≤ 57 := by
  rw [isDigit, Bool.and_eq_true, decide_eq_true_iff, decide_eq_true_iff, UInt8.le_iff_toNat_le,
    UInt8.le_iff_toNat_le]
  rfl

theorem digit_eq {c : UInt8} (digits : isDigit c = true) : digit c = digitValue c ∧ digitValue c ≤ 9 := by
  have range := isDigit_iff.mp digits
  unfold digit digitValue
  omega

/-- A digit fits every type. -/
theorem val_convert_digit (T : IntType) {c : UInt8} (digits : isDigit c = true) :
    (T.convert (digit c)).val = digitValue c := by
  obtain ⟨exact, small⟩ := digit_eq digits
  have nine := T.nine_le_max
  rw [exact, IntType.val_convert_of_nonneg (by omega) (by omega)]

namespace Accumulator

variable {T : IntType} {S : Type}

/-- The states of an accumulator represent magnitudes up to a limit, and it
leaves the loop exactly at the first digit that takes the magnitude beyond. -/
structure Tracks (acc : Accumulator T S) (limit : Nat) (exact : Nat → Int) (Rep : Nat → S → Prop) : Prop where
  nine_le : 9 ≤ limit
  start : ∀ c, isDigit c = true → Rep (digitValue c) (acc.start c)
  overflow : ∀ m s c, Rep m s → isDigit c = true → limit < m * 10 + digitValue c → acc.step s c = none
  advance : ∀ m s c, Rep m s → isDigit c = true → m * 10 + digitValue c ≤ limit →
    ∃ s', acc.step s c = some s' ∧ Rep (m * 10 + digitValue c) s'
  finish : ∀ m s, Rep m s → (acc.finish s).val = exact m

end Accumulator

/-- While `is_min` is not set the accumulator holds the magnitude; `is_min`
stands for the one magnitude that has no positive counterpart. -/
def SignedRep (T : IntType) (isNegative : Bool) (m : Nat) (state : T.Value × Bool) : Prop :=
  state.2 = false ∧ state.1.val = m ∨ state.2 = true ∧ isNegative = true ∧ (m : Int) = T.max + 1

/-- The greatest magnitude of a number with the given sign. -/
def magnitudeLimit (T : IntType) (isNegative : Bool) : Nat :=
  if isNegative then T.max.toNat + 1 else T.max.toNat

theorem le_magnitudeLimit (T : IntType) (isNegative : Bool) : 9 ≤ magnitudeLimit T isNegative := by
  have nine := T.nine_le_max
  unfold magnitudeLimit
  split <;> omega

theorem magnitudeLimit_le (T : IntType) (isNegative : Bool) : (magnitudeLimit T isNegative : Int) ≤ T.max + 1 := by
  have nine := T.nine_le_max
  unfold magnitudeLimit
  split <;> omega

def withSign (isNegative : Bool) (m : Nat) : Int := if isNegative then -m else m

def IntType.Represents (T : IntType) (z : Int) : Prop := T.min ≤ z ∧ z ≤ T.max

/-- The limit is the greatest magnitude that fits the type under the sign. -/
theorem represents_withSign_iff {T : IntType} {negative : Bool} {m : Nat}
    (signed : negative = true → T.signed = true) :
    T.Represents (withSign negative m) ↔ m ≤ magnitudeLimit T negative := by
  have nine := T.nine_le_max
  have low := T.min_nonpos
  unfold IntType.Represents withSign magnitudeLimit
  cases negative with
  | false =>
    simp only [Bool.false_eq_true, if_false]
    omega
  | true =>
    have least := IntType.min_of_signed (signed rfl)
    simp only [if_true]
    omega

theorem val_convert_withSign {T : IntType} {negative : Bool} {m : Nat}
    (signed : negative = true → T.signed = true) (fits : m ≤ magnitudeLimit T negative) :
    (T.convert (withSign negative m)).val = withSign negative m := by
  obtain ⟨lower, upper⟩ := (represents_withSign_iff signed).mpr fits
  exact IntType.val_convert lower upper

section Signed

variable {T : IntType} {isNegative : Bool}

/-- The guard of the loop body predicts the overflow exactly. -/
theorem signed_guard_iff (signed : T.signed = true) {m d : Nat} (small : d ≤ 9) (fits : (m * 10 : Int) ≤ T.max) :
    (!isNegative && decide (T.arith (T.max - d) < m * 10) ||
      isNegative && decide (T.arith (-(m * 10)) < T.arith (T.min + d))) = true ↔
      magnitudeLimit T isNegative < m * 10 + d := by
  have least := IntType.min_of_signed signed
  have nine := T.nine_le_max
  rw [IntType.arith_eq (z := T.max - d) (by omega) (by omega),
    IntType.arith_eq (z := -(m * 10)) (by omega) (by omega),
    IntType.arith_eq (z := T.min + d) (by omega) (by omega)]
  unfold magnitudeLimit
  cases isNegative <;> simp <;> omega

/-- The loop body on a magnitude `m`: it leaves when the next magnitude is
beyond the limit and otherwise stores it and compares it with `max + 1`. -/
theorem signed_step (signed : T.signed = true) {m : Nat} {x : T.Value} {c : UInt8} (magnitude : x.val = m)
    (digits : isDigit c = true) :
    (signedAccumulator T isNegative).step (x, false) c =
      if magnitudeLimit T isNegative < m * 10 + digitValue c then none
      else some (T.convert (T.arith (m * 10 + digitValue c)), (m * 10 + digitValue c : Int) == T.max + 1) := by
  obtain ⟨_, small⟩ := digit_eq digits
  have nine := T.nine_le_max
  have least := IntType.min_of_signed signed
  have seven := IntType.max_emod_ten signed
  have limit := magnitudeLimit_le T isNegative
  simp only [signedAccumulator, Bool.false_or, magnitude]
  by_cases large : T.max / 10 < m
  -- one digit more would be at least `max + 3`
  · rw [if_pos (by simpa using large), if_pos (by omega)]
  · have fits : (m * 10 : Int) ≤ T.max := by omega
    have ten : (T.convert (T.arith (m * 10))).val = m * 10 := IntType.val_convert_arith (by omega) fits
    have flag : (T.arith (-(m * 10)) == T.arith (T.min + digitValue c)) =
        ((m * 10 + digitValue c : Int) == T.max + 1) := by
      rw [IntType.arith_eq (z := -(m * 10)) (by omega) (by omega),
        IntType.arith_eq (z := T.min + digitValue c) (by omega) (by omega), Bool.eq_iff_iff, beq_iff_eq,
        beq_iff_eq]
      omega
    rw [if_neg (by simpa using large)]
    simp only [ten, val_convert_digit T digits, flag]
    by_cases beyond : magnitudeLimit T isNegative < m * 10 + digitValue c
    · rw [if_pos beyond, if_pos ((signed_guard_iff signed small fits).mpr beyond)]
    · rw [if_neg beyond, if_neg ((signed_guard_iff signed small fits).not.mpr beyond)]

theorem signed_tracks (signed : T.signed = true) :
    (signedAccumulator T isNegative).Tracks (magnitudeLimit T isNegative) (withSign isNegative)
      (SignedRep T isNegative) := by
  have nine := T.nine_le_max
  have least := IntType.min_of_signed signed
  have upper := magnitudeLimit_le T isNegative
  refine { nine_le := le_magnitudeLimit T isNegative, start := ?start, overflow := ?overflow, advance := ?advance,
           finish := ?finish }
  case start =>
    intro c digits
    exact Or.inl ⟨rfl, val_convert_digit T digits⟩
  case overflow =>
    rintro m ⟨x, isMin⟩ c rep digits beyond
    rcases rep with ⟨clear, magnitude⟩ | ⟨set, _, _⟩
    · obtain rfl : isMin = false := clear
      rw [signed_step signed magnitude digits, if_pos beyond]
    · obtain rfl : isMin = true := set
      rfl
  case advance =>
    rintro m ⟨x, isMin⟩ c rep digits within
    rcases rep with ⟨clear, magnitude⟩ | ⟨_, _, full⟩
    · obtain rfl : isMin = false := clear
      refine ⟨_, (signed_step signed magnitude digits).trans (if_neg (not_lt.mpr within)), ?_⟩
      by_cases full : (m * 10 + digitValue c : Int) = T.max + 1
      · refine Or.inr ⟨by simpa using full, ?_, by push_cast; exact full⟩
        by_contra positive
        rw [magnitudeLimit, if_neg positive] at within
        omega
      · refine Or.inl ⟨by simpa using full, ?_⟩
        rw [IntType.val_convert_arith (by omega) (by omega)]
        push_cast
        rfl
    · omega
  case finish =>
    rintro m ⟨x, isMin⟩ rep
    have range := x.property
    simp only [signedAccumulator]
    rcases rep with ⟨clear, magnitude⟩ | ⟨set, negative, full⟩
    · obtain rfl : isMin = false := clear
      simp only at magnitude
      cases isNegative with
      | false => exact magnitude
      | true =>
        show (T.convert (T.arith (-x.val))).val = -m
        rw [IntType.arith_eq (by omega) (by omega), IntType.val_convert (by omega) (by omega), magnitude]
    · obtain rfl : isMin = true := set
      rw [negative]
      show (T.convert T.min).val = -m
      rw [IntType.val_convert le_rfl (by omega)]
      omega

end Signed

theorem unsigned_step {T : IntType} {m : Nat} {x : T.Value} {c : UInt8} (magnitude : x.val = m)
    (digits : isDigit c = true) :
    (unsignedAccumulator T).step x c = if T.max.toNat < m * 10 + digitValue c then none
      else some (T.convert (T.arith (m * 10 + digitValue c))) := by
  obtain ⟨_, small⟩ := digit_eq digits
  have nine := T.nine_le_max
  have least := T.min_nonpos
  simp only [unsignedAccumulator, magnitude]
  by_cases large : T.max / 10 < m
  · rw [if_pos large, if_pos (by omega)]
  · have ten : (T.convert (T.arith (m * 10))).val = m * 10 :=
      IntType.val_convert_arith (by omega) (by omega)
    simp only [ten, val_convert_digit T digits, if_neg large]
    rw [IntType.arith_eq (z := T.max - digitValue c) (by omega) (by omega)]
    by_cases beyond : T.max.toNat < m * 10 + digitValue c
    · rw [if_pos beyond, if_pos (by omega)]
    · rw [if_neg beyond, if_neg (by omega)]

/-- The unsigned accumulator holds the magnitude itself. -/
theorem unsigned_tracks (T : IntType) :
    (unsignedAccumulator T).Tracks T.max.toNat (withSign false) (fun m x => x.val = m) := by
  have nine := T.nine_le_max
  refine { nine_le := by omega, start := ?start, overflow := ?overflow, advance := ?advance,
           finish := fun _ _ magnitude => magnitude }
  case start =>
    intro c digits
    exact val_convert_digit T digits
  case overflow =>
    intro m x c magnitude digits beyond
    rw [unsigned_step magnitude digits, if_pos beyond]
  case advance =>
    intro m x c magnitude digits within
    refine ⟨_, (unsigned_step magnitude digits).trans (if_neg (not_lt.mpr within)), ?_⟩
    rw [IntType.val_convert_arith (by omega) (by omega)]
    push_cast
    rfl

end Rbc
