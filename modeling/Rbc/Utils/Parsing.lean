import Rbc.Utils.Accumulator

namespace Rbc

open BoundedReader Positional

variable {T : IntType} {S : Type} {memory : List UInt8} {cs : List UInt8}

def leadingDigits (cs : List UInt8) : List Nat := (cs.takeWhile isDigit).map digitValue

theorem leadingDigits_cons_of_digit {c : UInt8} (digits : isDigit c = true) :
    leadingDigits (c :: cs) = digitValue c :: leadingDigits cs := by
  rw [leadingDigits, List.takeWhile_cons_of_pos digits, List.map_cons, leadingDigits]

theorem leadingDigits_cons_of_not_digit {c : UInt8} (other : ¬isDigit c = true) :
    leadingDigits (c :: cs) = [] := by
  rw [leadingDigits, List.takeWhile_cons_of_neg other, List.map_nil]

theorem value_skipSpaces {first : Nat} (holds : Holds memory first cs) :
    (skipSpaces cs.length first).value memory = some (first + (cs.takeWhile isSpace).length) := by
  induction cs generalizing first with
  | nil => rfl
  | cons c cs ih =>
    obtain ⟨here, later⟩ := holds
    rw [List.length_cons, skipSpaces, value_bind, value_read_natCast, here, Option.bind_some]
    by_cases space : isSpace c = true
    · rw [if_pos space, ih later, List.takeWhile_cons_of_pos space, List.length_cons]
      congr 1
      omega
    · rw [if_neg space, List.takeWhile_cons_of_neg space]
      rfl

/-- The loop takes the digits up to the first one that does not fit. -/
theorem value_digitLoop {acc : Accumulator T S} {limit : Nat} {exact : Nat → Int} {Rep : Nat → S → Prop}
    (tracks : acc.Tracks limit exact Rep) {first m : Nat} {state : S} (holds : Holds memory first cs)
    (rep : Rep m state) :
    (∃ k, overflowAt 10 limit m (leadingDigits cs) = some k ∧
      (digitLoop acc.step cs.length first state).value memory = some (.error (first + k))) ∨
    (∃ after, overflowAt 10 limit m (leadingDigits cs) = none ∧
      (digitLoop acc.step cs.length first state).value memory =
        some (.ok (first + (leadingDigits cs).length, after)) ∧
      Rep (horner 10 m (leadingDigits cs)) after) := by
  induction cs generalizing first m state with
  | nil => exact Or.inr ⟨state, rfl, rfl, rep⟩
  | cons c cs ih =>
    obtain ⟨here, later⟩ := holds
    rw [List.length_cons, digitLoop, value_bind, value_read_natCast, here, Option.bind_some]
    by_cases digits : isDigit c = true
    · rw [if_pos digits, leadingDigits_cons_of_digit digits, overflowAt, horner_cons, List.length_cons]
      by_cases beyond : limit < m * 10 + digitValue c
      · rw [tracks.overflow m state c rep digits beyond, if_pos beyond]
        exact Or.inl ⟨0, rfl, rfl⟩
      · obtain ⟨next, step, advanced⟩ := tracks.advance m state c rep digits (not_lt.mp beyond)
        rw [step, if_neg beyond]
        rcases ih later advanced with ⟨k, leaves, value⟩ | ⟨after, stays, value, represents⟩
        · refine Or.inl ⟨k + 1, by rw [leaves]; rfl, ?_⟩
          show (digitLoop _ _ _ _).value memory = _
          rw [value, Nat.add_assoc, Nat.add_comm 1]
        · refine Or.inr ⟨after, by rw [stays]; rfl, ?_, represents⟩
          show (digitLoop _ _ _ _).value memory = _
          rw [value, Nat.add_assoc, Nat.add_comm 1]
    · rw [if_neg digits, leadingDigits_cons_of_not_digit digits]
      exact Or.inr ⟨state, rfl, rfl, rep⟩

/-- What a call finds that reaches these digits at `start`. -/
def digitsResult (T : IntType) (negative : Bool) (origin start : Nat) (digits : List Nat) : FromCharsResult T :=
  if digits = [] then
    ⟨origin, .invalidArgument, none⟩
  else
    match overflowAt 10 (magnitudeLimit T negative) 0 digits with
    | some k => ⟨start + k, .resultOutOfRange, none⟩
    | none => ⟨start + digits.length, .ok, some (T.convert (withSign negative (horner 10 0 digits)))⟩

theorem value_fromCharsDigits {acc : Accumulator T S} {negative : Bool} {Rep : Nat → S → Prop}
    (tracks : acc.Tracks (magnitudeLimit T negative) (withSign negative) Rep) {start : Nat} (origin : Nat)
    (holds : Holds memory start cs) :
    (fromCharsDigits acc origin start (start + cs.length)).value memory =
      some (digitsResult T negative origin start (leadingDigits cs)) := by
  unfold fromCharsDigits
  cases cs with
  | nil =>
    rw [if_pos (by simp)]
    rfl
  | cons c cs =>
    obtain ⟨here, later⟩ := holds
    rw [if_neg (by simp), value_bind, value_read_natCast, here, Option.bind_some]
    by_cases digits : isDigit c = true
    · have first : ¬magnitudeLimit T negative < 0 * 10 + digitValue c := by
        have range := digit_eq digits
        have nine := tracks.nine_le
        omega
      have remaining : start + (c :: cs).length - (start + 1) = cs.length := by
        rw [List.length_cons]
        omega
      rw [if_neg (by simp [digits]), value_bind, remaining, leadingDigits_cons_of_digit digits, digitsResult,
        if_neg (List.cons_ne_nil _ _), overflowAt, if_neg first, horner_cons, Nat.zero_mul, Nat.zero_add]
      rcases value_digitLoop tracks later (tracks.start c digits) with
        ⟨k, leaves, value⟩ | ⟨after, stays, value, represents⟩
      · rw [value, leaves]
        show some _ = some _
        rw [Nat.add_assoc, Nat.add_comm 1]
        rfl
      · have finished : acc.finish after = T.convert (withSign negative (horner 10 (digitValue c) (leadingDigits cs))) := by
          rw [← tracks.finish _ _ represents, IntType.convert_val]
        rw [value, stays]
        show some _ = some _
        rw [finished, List.length_cons, Nat.add_assoc, Nat.add_comm 1]
        rfl
    · rw [if_pos (by simp [digits]), leadingDigits_cons_of_not_digit digits]
      rfl

/-- Whether a sign stands before the digits; an unsigned type has no minus. -/
def hasSign (T : IntType) : List UInt8 → Bool
  | [] => false
  | c :: _ => c == 43 || T.signed && c == 45

def hasMinus (T : IntType) : List UInt8 → Bool
  | [] => false
  | c :: _ => T.signed && c == 45

/-- What a call makes of the characters of its range: spaces, a sign, digits. -/
def parsed (T : IntType) (first : Nat) (cs : List UInt8) : FromCharsResult T :=
  let spaces := (cs.takeWhile isSpace).length
  let rest := cs.dropWhile isSpace
  let sign := (hasSign T rest).toNat
  digitsResult T (hasMinus T rest) first (first + spaces + sign) (leadingDigits (rest.drop sign))

theorem digitsResult_nil (negative : Bool) (origin start : Nat) :
    digitsResult T negative origin start [] = ⟨origin, .invalidArgument, none⟩ := if_pos rfl

theorem length_spaces_add (cs : List UInt8) :
    (cs.takeWhile isSpace).length + (cs.dropWhile isSpace).length = cs.length := by
  rw [← List.length_append, List.takeWhile_append_dropWhile]

theorem holds_afterSpaces {first : Nat} (holds : Holds memory first cs) :
    Holds memory (first + (cs.takeWhile isSpace).length) (cs.dropWhile isSpace) := by
  have suffix : (cs.takeWhile isSpace ++ cs.dropWhile isSpace).drop (cs.takeWhile isSpace).length = _ :=
    List.drop_left
  rw [List.takeWhile_append_dropWhile] at suffix
  rw [← suffix]
  exact holds.drop _

theorem value_afterSpaces {first : Nat} (holds : Holds memory first cs)
    (next : Nat → BoundedReader UInt8 (FromCharsResult T)) :
    (afterSpaces first (first + cs.length) next).value memory =
      if cs.dropWhile isSpace = [] then some ⟨first, .invalidArgument, none⟩
      else (next (first + (cs.takeWhile isSpace).length)).value memory := by
  have parts := length_spaces_add cs
  unfold afterSpaces
  by_cases empty : cs = []
  · rw [if_pos (by simp [empty]), empty]
    rfl
  · have positive := List.length_pos_iff.mpr empty
    rw [if_neg (by omega), Nat.add_sub_cancel_left, value_bind, value_skipSpaces holds, Option.bind_some]
    by_cases blank : cs.dropWhile isSpace = []
    · rw [blank, List.length_nil] at parts
      rw [if_pos blank, if_pos (by omega)]
      rfl
    · have more := List.length_pos_iff.mpr blank
      rw [if_neg blank, if_neg (by omega)]

theorem parsed_of_blank {first : Nat} (blank : cs.dropWhile isSpace = []) :
    parsed T first cs = ⟨first, .invalidArgument, none⟩ := by
  unfold parsed
  simp only [blank, List.drop_nil]
  exact digitsResult_nil ..

theorem value_afterSign {acc : Accumulator T S} {Rep : Nat → S → Prop} {first : Nat}
    (tracks : acc.Tracks (magnitudeLimit T (hasMinus T (cs.dropWhile isSpace)))
      (withSign (hasMinus T (cs.dropWhile isSpace))) Rep)
    (holds : Holds memory first cs) (nonempty : cs.dropWhile isSpace ≠ []) :
    (fromCharsDigits acc first
      (first + (cs.takeWhile isSpace).length + (hasSign T (cs.dropWhile isSpace)).toNat)
      (first + cs.length)).value memory = some (parsed T first cs) := by
  have parts := length_spaces_add cs
  have more := List.length_pos_iff.mpr nonempty
  have sign := Bool.toNat_le (hasSign T (cs.dropWhile isSpace))
  have value := value_fromCharsDigits tracks first
    ((holds_afterSpaces holds).drop (hasSign T (cs.dropWhile isSpace)).toNat)
  have stop : first + (cs.takeWhile isSpace).length + (hasSign T (cs.dropWhile isSpace)).toNat +
      ((cs.dropWhile isSpace).length - (hasSign T (cs.dropWhile isSpace)).toNat) = first + cs.length := by
    omega
  rw [List.length_drop, stop] at value
  exact value

theorem value_fromCharsSigned (signed : T.signed = true) {first : Nat} (holds : Holds memory first cs) :
    (fromCharsSigned T first (first + cs.length)).value memory = some (parsed T first cs) := by
  have after := holds_afterSpaces holds
  rw [fromCharsSigned, value_afterSpaces holds]
  by_cases blank : cs.dropWhile isSpace = []
  · rw [if_pos blank, parsed_of_blank blank]
  · obtain ⟨c, rest, found⟩ := List.exists_cons_of_ne_nil blank
    have sign : hasSign T (c :: rest) = (c == 43 || c == 45) := by rw [hasSign, signed, Bool.true_and]
    have minus : hasMinus T (c :: rest) = (c == 45) := by rw [hasMinus, signed, Bool.true_and]
    rw [if_neg blank, ← value_afterSign (signed_tracks signed) holds blank]
    rw [found] at after ⊢
    rw [value_bind, value_read_natCast, after.1, Option.bind_some, sign, minus]
    cases c == 43 || c == 45 <;> rfl

theorem value_fromCharsUnsigned (unsigned : T.signed = false) {first : Nat} (holds : Holds memory first cs) :
    (fromCharsUnsigned T first (first + cs.length)).value memory = some (parsed T first cs) := by
  have after := holds_afterSpaces holds
  rw [fromCharsUnsigned, value_afterSpaces holds]
  by_cases blank : cs.dropWhile isSpace = []
  · rw [if_pos blank, parsed_of_blank blank]
  · obtain ⟨c, rest, found⟩ := List.exists_cons_of_ne_nil blank
    have sign : hasSign T (c :: rest) = (c == 43) := by
      rw [hasSign, unsigned, Bool.false_and, Bool.or_false]
    have minus : hasMinus T (c :: rest) = false := by rw [hasMinus, unsigned, Bool.false_and]
    rw [if_neg blank, value_bind, value_read_natCast]
    rw [found] at after
    rw [after.1, Option.bind_some]
    by_cases dash : c = 45
    -- a minus is no digit, and there is no sign to skip
    · rw [if_pos (by simp [dash]), parsed, found, sign, dash]
      rfl
    · have tracks := unsigned_tracks T
      rw [show T.max.toNat = magnitudeLimit T (hasMinus T (cs.dropWhile isSpace)) by rw [found, minus]; rfl,
        show withSign false = withSign (hasMinus T (cs.dropWhile isSpace)) by rw [found, minus]] at tracks
      have value := value_afterSign tracks holds blank
      rw [if_neg (by simp [dash]), ← value, found, sign]
      cases c == 43 <;> rfl

/-- Parsing computes what `parsed` says of the characters of the range. -/
theorem value_fromChars (T : IntType) {first : Nat} (holds : Holds memory first cs) :
    (fromChars T first (first + cs.length)).value memory = some (parsed T first cs) := by
  cases T with
  | i8 | i16 | i32 | i64 => exact value_fromCharsSigned rfl holds
  | u8 | u16 | u32 | u64 => exact value_fromCharsUnsigned rfl holds

end Rbc
