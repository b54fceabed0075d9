import Mathlib.Data.List.TakeWhile
import Rbc.Utils.Parsing

namespace Rbc

open BoundedReader Positional

variable {T : IntType} {cs : List UInt8}

section Reads

variable {memory : List UInt8} {first last : Nat}

theorem within_skipSpaces {remaining start : Nat} (lower : first ≤ start) (upper : start + remaining ≤ last) :
    (skipSpaces remaining start).Within memory first last := by
  induction remaining generalizing start with
  | zero => exact within_pure _
  | succ n ih =>
    refine (within_read lower (by omega)).bind fun c _ => ?_
    split
    · exact ih (by omega) (by omega)
    · exact within_pure _

theorem skipSpaces_mem {remaining start stop : Nat} (ran : (skipSpaces remaining start).value memory = some stop) :
    start ≤ stop ∧ stop ≤ start + remaining := by
  induction remaining generalizing start with
  | zero =>
    obtain rfl : start = stop := Option.some.inj ran
    omega
  | succ n ih =>
    obtain ⟨c, -, ran⟩ := Option.bind_eq_some_iff.mp ran
    dsimp only at ran
    split at ran
    · have later := ih ran
      omega
    · obtain rfl : start = stop := Option.some.inj ran
      omega

theorem within_digitLoop {S : Type} {step : S → UInt8 → Option S} {remaining start : Nat} (state : S)
    (lower : first ≤ start) (upper : start + remaining ≤ last) :
    (digitLoop step remaining start state).Within memory first last := by
  induction remaining generalizing start state with
  | zero => exact within_pure _
  | succ n ih =>
    refine (within_read lower (by omega)).bind fun c _ => ?_
    split
    · split
      · exact within_pure _
      · exact ih _ (by omega) (by omega)
    · exact within_pure _

theorem within_fromCharsDigits {S : Type} (acc : Accumulator T S) (origin : Nat) {start : Nat}
    (lower : first ≤ start) (upper : start ≤ last) :
    (fromCharsDigits acc origin start last).Within memory first last := by
  unfold fromCharsDigits
  split
  · exact within_pure _
  · refine (within_read lower (by omega)).bind fun c _ => ?_
    split
    · exact within_pure _
    · refine (within_digitLoop _ (by omega) (by omega)).bind fun outcome _ => ?_
      cases outcome <;> exact within_pure _

theorem within_afterSpaces {next : Nat → BoundedReader UInt8 (FromCharsResult T)}
    (rest : ∀ start, first ≤ start → start < last → (next start).Within memory first last) :
    (afterSpaces first last next).Within memory first last := by
  unfold afterSpaces
  split
  · exact within_pure _
  · refine (within_skipSpaces (Nat.le_refl _) (by omega)).bind fun start ran => ?_
    obtain ⟨lower, upper⟩ := skipSpaces_mem ran
    split
    · exact within_pure _
    · exact rest start lower (by omega)

/-- No call reads a character outside of its range. -/
theorem within_fromChars (T : IntType) (memory : List UInt8) (first last : Nat) :
    (fromChars T first last).Within memory first last := by
  have signed (T : IntType) : (fromCharsSigned T first last).Within memory first last := by
    refine within_afterSpaces fun start lower upper => (within_read lower upper).bind fun c _ => ?_
    split
    · exact within_fromCharsDigits _ _ (by omega) (by omega)
    · exact within_fromCharsDigits _ _ lower (by omega)
  have unsigned (T : IntType) : (fromCharsUnsigned T first last).Within memory first last := by
    refine within_afterSpaces fun start lower upper => (within_read lower upper).bind fun c _ => ?_
    split
    · exact within_pure _
    · dsimp only
      split
      · exact within_fromCharsDigits _ _ (by omega) (by omega)
      · exact within_fromCharsDigits _ _ lower (by omega)
  cases T with
  | i8 | i16 | i32 | i64 => exact signed _
  | u8 | u16 | u32 | u64 => exact unsigned _

end Reads

/-- A sign is a plus, or a minus where the type has negative numbers. -/
def IsSign (T : IntType) (c : UInt8) : Prop := c = 43 ∨ T.signed = true ∧ c = 45

/-- The parts of a range of characters: all leading spaces, a sign if one follows, as many
digits as there are, and what is left. -/
structure Scan (T : IntType) (cs : List UInt8) where
  spaces : List UInt8
  sign : Option UInt8
  digits : List UInt8
  rest : List UInt8
  parts : spaces ++ (sign.toList ++ (digits ++ rest)) = cs
  spaces_isSpace : ∀ c ∈ spaces, isSpace c = true
  spaces_maximal : ∀ c ∈ (sign.toList ++ (digits ++ rest)).head?, isSpace c = false
  sign_isSign : ∀ c ∈ sign, IsSign T c
  sign_maximal : sign = none → ∀ c ∈ (digits ++ rest).head?, ¬IsSign T c
  digits_isDigit : ∀ c ∈ digits, isDigit c = true
  digits_maximal : ∀ c ∈ rest.head?, isDigit c = false

theorem takeWhile_of_head {p : UInt8 → Bool} (stops : ∀ c ∈ cs.head?, p c = false) :
    cs.takeWhile p = [] ∧ cs.dropWhile p = cs := by
  cases cs with
  | nil => exact ⟨rfl, rfl⟩
  | cons c cs =>
    have other : ¬p c = true := by simp [stops c rfl]
    exact ⟨List.takeWhile_cons_of_neg other, List.dropWhile_cons_of_neg other⟩

theorem takeWhile_append_of_head {p : UInt8 → Bool} {front back : List UInt8} (all : ∀ c ∈ front, p c = true)
    (stops : ∀ c ∈ back.head?, p c = false) :
    (front ++ back).takeWhile p = front ∧ (front ++ back).dropWhile p = back := by
  obtain ⟨nothing, everything⟩ := takeWhile_of_head stops
  rw [List.takeWhile_append_of_pos all, List.dropWhile_append_of_pos all, nothing, everything, List.append_nil]
  exact ⟨rfl, rfl⟩

theorem hasSign_iff {c : UInt8} : hasSign T (c :: cs) = true ↔ IsSign T c := by
  simp [hasSign, IsSign]

namespace Scan

variable (scan : Scan T cs)

/-- The number that the first `n` digits denote with the sign. -/
def number (n : Nat) : Int :=
  withSign (decide (scan.sign = some 45)) (Nat.ofDigits 10 ((scan.digits.take n).map digitValue).reverse)

/-- The position of the first digit in a range that begins at `first`. -/
def start (first : Nat) : Nat := first + scan.spaces.length + scan.sign.toList.length

/-- The result of a call says of the number what the parts of the range say. -/
structure Explains (first : Nat) (result : FromCharsResult T) : Prop where
  invalid : scan.digits = [] → result = ⟨first, .invalidArgument, none⟩
  accepted : scan.digits ≠ [] → T.Represents (scan.number scan.digits.length) →
    result.ptr = scan.start first + scan.digits.length ∧ result.error = .ok ∧
      ∃ v, result.stored = some v ∧ v.val = scan.number scan.digits.length
  outOfRange : scan.digits ≠ [] → ¬T.Represents (scan.number scan.digits.length) →
    result.error = .resultOutOfRange ∧ result.stored = none ∧
      ∃ k < scan.digits.length, result.ptr = scan.start first + k ∧
        ¬T.Represents (scan.number (k + 1)) ∧ ∀ j ≤ k, T.Represents (scan.number j)

theorem sign_eq : hasSign T (scan.sign.toList ++ (scan.digits ++ scan.rest)) = scan.sign.isSome ∧
    hasMinus T (scan.sign.toList ++ (scan.digits ++ scan.rest)) = decide (scan.sign = some 45) := by
  cases sign : scan.sign with
  | none =>
    have unsigned := scan.sign_maximal sign
    rw [Option.toList_none, List.nil_append]
    cases first : scan.digits ++ scan.rest with
    | nil => exact ⟨rfl, rfl⟩
    | cons c after =>
      rw [first] at unsigned
      have other := unsigned c rfl
      constructor
      · exact Bool.eq_false_iff.mpr (hasSign_iff.not.mpr other)
      · simpa [hasMinus] using fun signed minus => other (Or.inr ⟨signed, minus⟩)
  | some c =>
    have isSign := scan.sign_isSign c sign
    refine ⟨hasSign_iff.mpr isSign, ?_⟩
    rcases isSign with rfl | ⟨signed, rfl⟩
    · simp [hasMinus]
    · simp [hasMinus, signed]

/-- What is left after the spaces begins with the sign, and the digits come after it. -/
theorem after_spaces : cs.dropWhile isSpace = scan.sign.toList ++ (scan.digits ++ scan.rest) := by
  obtain ⟨-, after⟩ := takeWhile_append_of_head scan.spaces_isSpace scan.spaces_maximal
  rw [scan.parts] at after
  exact after

theorem leadingDigits_eq :
    leadingDigits ((cs.dropWhile isSpace).drop (hasSign T (cs.dropWhile isSpace)).toNat) =
      scan.digits.map digitValue := by
  obtain ⟨digits, -⟩ := takeWhile_append_of_head scan.digits_isDigit scan.digits_maximal
  have length : scan.sign.isSome.toNat = scan.sign.toList.length := by cases scan.sign <;> rfl
  rw [scan.after_spaces, scan.sign_eq.1, length, List.drop_left, leadingDigits, digits]

theorem parsed_eq (first : Nat) :
    parsed T first cs = digitsResult T (decide (scan.sign = some 45)) first (scan.start first)
      (scan.digits.map digitValue) := by
  obtain ⟨spaces, -⟩ := takeWhile_append_of_head scan.spaces_isSpace scan.spaces_maximal
  obtain ⟨sign, minus⟩ := scan.sign_eq
  have length : scan.sign.isSome.toNat = scan.sign.toList.length := by cases scan.sign <;> rfl
  rw [scan.parts] at spaces
  unfold parsed
  simp only [scan.leadingDigits_eq]
  rw [spaces, scan.after_spaces, sign, minus, length]
  rfl

theorem represents_number_iff (n : Nat) :
    T.Represents (scan.number n) ↔
      horner 10 0 ((scan.digits.map digitValue).take n) ≤ magnitudeLimit T (decide (scan.sign = some 45)) := by
  rw [number, ← horner_eq_ofDigits, List.map_take]
  refine represents_withSign_iff fun minus => ?_
  rcases scan.sign_isSign 45 (of_decide_eq_true minus) with plus | ⟨signed, -⟩
  · exact absurd plus (by decide)
  · exact signed

theorem explains_parsed (first : Nat) : scan.Explains first (parsed T first cs) := by
  rw [scan.parsed_eq]
  have whole : (scan.digits.map digitValue).take scan.digits.length = scan.digits.map digitValue := by
    rw [← List.length_map digitValue, List.take_length]
  have fits := scan.represents_number_iff scan.digits.length
  rw [whole] at fits
  unfold digitsResult
  constructor
  case invalid =>
    intro nothing
    rw [nothing, List.map_nil, if_pos rfl]
  case accepted =>
    intro some representable
    rw [if_neg (List.map_eq_nil_iff.not.mpr some),
      (overflowAt_eq_none_iff (by decide) (Nat.zero_le _) _).mpr (fits.mp representable), List.length_map]
    refine ⟨rfl, rfl, _, rfl, ?_⟩
    rw [← whole, horner_eq_ofDigits, ← List.map_take]
    exact IntType.val_convert representable.1 representable.2
  case outOfRange =>
    intro some unrepresentable
    rw [if_neg (List.map_eq_nil_iff.not.mpr some)]
    cases leaves : overflowAt 10 (magnitudeLimit T (decide (scan.sign = Option.some 45))) 0 (scan.digits.map digitValue) with
    | none =>
      have bound := (overflowAt_eq_none_iff (by decide) (Nat.zero_le _) _).mp leaves
      exact absurd (fits.mpr bound) unrepresentable
    | some k =>
      obtain ⟨inside, beyond, under⟩ := overflowAt_eq_some (Nat.zero_le _) leaves
      rw [List.length_map] at inside
      refine ⟨rfl, rfl, k, inside, rfl, ?_, ?_⟩
      · rw [scan.represents_number_iff]
        exact not_le.mpr beyond
      · intro j before
        exact (scan.represents_number_iff j).mpr (under j before)

end Scan

theorem head_dropWhile {p : UInt8 → Bool} : ∀ c ∈ (cs.dropWhile p).head?, p c = false := by
  intro c first
  have stops := cs.head?_dropWhile_not p
  rw [first] at stops
  exact stops

/-- Every range has such parts. -/
theorem nonempty_scan (T : IntType) (cs : List UInt8) : Nonempty (Scan T cs) := by
  have digits (after : List UInt8) : ∀ c ∈ after.takeWhile isDigit, isDigit c = true :=
    fun c member => List.mem_takeWhile_imp member
  have spaces := List.takeWhile_append_dropWhile (p := isSpace) (l := cs)
  have stops : ∀ c ∈ (cs.dropWhile isSpace).head?, isSpace c = false := head_dropWhile
  by_cases signed : ∃ c after, cs.dropWhile isSpace = c :: after ∧ IsSign T c
  · obtain ⟨c, after, found, isSign⟩ := signed
    have parts := List.takeWhile_append_dropWhile (p := isDigit) (l := after)
    refine ⟨cs.takeWhile isSpace, some c, after.takeWhile isDigit, after.dropWhile isDigit, ?_,
      fun c member => List.mem_takeWhile_imp member, ?_, ?_, ?_, digits after, head_dropWhile⟩
    · rw [parts, Option.toList_some, List.singleton_append, ← found, spaces]
    · rw [parts, Option.toList_some, List.singleton_append, ← found]
      exact stops
    · intro d same
      obtain rfl : c = d := Option.some.inj same
      exact isSign
    · intro none
      cases none
  · have parts := List.takeWhile_append_dropWhile (p := isDigit) (l := cs.dropWhile isSpace)
    refine ⟨cs.takeWhile isSpace, none, (cs.dropWhile isSpace).takeWhile isDigit,
      (cs.dropWhile isSpace).dropWhile isDigit, ?_, fun c member => List.mem_takeWhile_imp member, ?_, ?_, ?_,
      digits _, head_dropWhile⟩
    · rw [parts, Option.toList_none, List.nil_append, spaces]
    · rw [parts, Option.toList_none, List.nil_append]
      exact stops
    · intro c some
      cases some
    · intro _ c first isSign
      rw [parts] at first
      obtain ⟨after, found⟩ := List.head?_eq_some_iff.mp first
      exact signed ⟨c, after, found, isSign⟩

/-- Wherever a range lies in memory, a call reads nothing outside of it and
finds in it the number that its parts denote. -/
theorem fromChars_explained (T : IntType) (before cs after : List UInt8) :
    Nonempty (Scan T cs) ∧
    (fromChars T before.length (before.length + cs.length)).Within (before ++ cs ++ after) before.length
      (before.length + cs.length) ∧
    ∀ scan : Scan T cs, ∃ result,
      (fromChars T before.length (before.length + cs.length)).value (before ++ cs ++ after) = some result ∧
        scan.Explains before.length result := by
  refine ⟨nonempty_scan T cs, within_fromChars _ _ _ _, fun scan => ?_⟩
  have value := value_fromChars T (holds_append before cs after)
  exact ⟨_, value, scan.explains_parsed before.length⟩

end Rbc
