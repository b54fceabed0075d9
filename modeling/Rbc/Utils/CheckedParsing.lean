import Rbc.Utils.Scan

namespace Rbc

open BoundedReader Positional

/-- The value of a signed operation with this exact result on operands of the type; C
defines none where the type it evaluates in does not represent it. -/
def IntType.checked (T : IntType) (z : Int) : Option Int :=
  if T.promoted.min ≤ z ∧ z ≤ T.promoted.max then some z else none

/-- The loop body of `RBC_FROM_CHARS_IMPL_SIGNED` where C defines every signed operation
in it; it may leave the function. -/
def checkedStep (T : IntType) (isNegative : Bool) : T.Value × Bool → UInt8 → Option (Option (T.Value × Bool))
  | (x, isMin), c =>
    if isMin || T.max / 10 < x.val then
      some none
    else do
      let product ← T.checked (x.val * 10)
      let x := T.convert product
      let d := T.convert (digit c)
      let beyond ← (
        if isNegative then do
          let opposite ← T.checked (-x.val)
          let bound ← T.checked (T.min + d.val)
          some (decide (opposite < bound))
        else do
          let bound ← T.checked (T.max - d.val)
          some (decide (bound < x.val)))
      if beyond then
        some none
      else do
        let opposite ← T.checked (-x.val)
        let bound ← T.checked (T.min + d.val)
        let sum ← T.checked (x.val + d.val)
        some (some (T.convert sum, opposite == bound))

def checkedFinish (T : IntType) (isNegative : Bool) : T.Value × Bool → Option T.Value
  | (x, isMin) =>
    if isNegative then
      if isMin then some (T.convert T.min) else (T.checked (-x.val)).map T.convert
    else
      some x

/-- `digitLoop` with the checked loop body; where that is not defined there is no outcome. -/
def checkedLoop (T : IntType) (isNegative : Bool) :
    Nat → Nat → T.Value × Bool → BoundedReader UInt8 (Option (Except Nat (Nat × (T.Value × Bool))))
  | 0, first, state => pure (some (.ok (first, state)))
  | remaining + 1, first, state => do
    let c ← read first
    if isDigit c then
      match checkedStep T isNegative state c with
      | none => pure none
      | some none => pure (some (.error first))
      | some (some state) => checkedLoop T isNegative remaining (first + 1) state
    else
      pure (some (.ok (first, state)))

/-- The macro from `if (first == last || !isdigit(*first))` on. -/
def checkedDigits (T : IntType) (isNegative : Bool) (origin first last : Nat) :
    BoundedReader UInt8 (Option (FromCharsResult T)) :=
  if first = last then
    pure (some ⟨origin, .invalidArgument, none⟩)
  else do
    let c ← read first
    if !isDigit c then
      pure (some ⟨origin, .invalidArgument, none⟩)
    else do
      let outcome ← checkedLoop T isNegative (last - (first + 1)) (first + 1) (T.convert (digit c), false)
      pure (outcome.bind fun
        | .error ptr => some ⟨ptr, .resultOutOfRange, none⟩
        | .ok (ptr, state) => (checkedFinish T isNegative state).map fun x => ⟨ptr, .ok, some x⟩)

/-- `rbc_from_chars_i8` to `rbc_from_chars_i64` where C defines every signed operation. -/
def checkedFromChars (T : IntType) (first last : Nat) : BoundedReader UInt8 (Option (FromCharsResult T)) :=
  if last ≤ first then
    pure (some ⟨first, .invalidArgument, none⟩)
  else do
    let start ← skipSpaces (last - first) first
    if start = last then
      pure (some ⟨first, .invalidArgument, none⟩)
    else do
      let c ← read start
      let isNegative := c == 45
      let start := if c == 43 || c == 45 then start + 1 else start
      checkedDigits T isNegative first start last

variable {T : IntType} {isNegative : Bool}

theorem IntType.checked_eq {z : Int} (lower : T.min ≤ z) (upper : z ≤ T.max) : T.checked z = some z :=
  if_pos ⟨T.promoted_min_le.trans lower, upper.trans T.max_le_promoted⟩

/-- The negative number without a positive counterpart, in a type that C evaluates as it is:
there the magnitude that the accumulator is given is one too large for it. -/
def Overflows (T : IntType) (isNegative : Bool) (m : Nat) : Prop :=
  isNegative = true ∧ T.promoted.max = T.max ∧ (m : Int) = T.max + 1

theorem Overflows.limit {m : Nat} (overflows : Overflows T isNegative m) : magnitudeLimit T isNegative = m := by
  obtain ⟨negative, _, exact⟩ := overflows
  have nine := T.nine_le_max
  rw [magnitudeLimit, if_pos negative]
  omega

/-- The guards of the loop body never overflow; what may overflow is the last addition. -/
theorem checkedStep_of_small (signed : T.signed = true) {m : Nat} {x : T.Value} {c : UInt8} (magnitude : x.val = m)
    (digits : isDigit c = true) (small : ¬T.max / 10 < m) :
    checkedStep T isNegative (x, false) c =
      if magnitudeLimit T isNegative < m * 10 + digitValue c then some none
      else (T.checked (m * 10 + digitValue c)).map fun sum =>
        some (T.convert sum, (m * 10 + digitValue c : Int) == T.max + 1) := by
  obtain ⟨_, below⟩ := digit_eq digits
  have nine := T.nine_le_max
  have least := IntType.min_of_signed signed
  have fits : (m * 10 : Int) ≤ T.max := by omega
  have product : T.checked (m * 10) = some (m * 10 : Int) := IntType.checked_eq (by omega) fits
  have ten : (T.convert (m * 10)).val = m * 10 := IntType.val_convert (by omega) fits
  have opposite : T.checked (-(m * 10)) = some (-(m * 10) : Int) := IntType.checked_eq (by omega) (by omega)
  have lowest : T.checked (T.min + digitValue c) = some (T.min + digitValue c) :=
    IntType.checked_eq (by omega) (by omega)
  have highest : T.checked (T.max - digitValue c) = some (T.max - digitValue c) :=
    IntType.checked_eq (by omega) (by omega)
  have flag : ((-(m * 10) : Int) == T.min + digitValue c) = ((m * 10 + digitValue c : Int) == T.max + 1) := by
    rw [Bool.eq_iff_iff, beq_iff_eq, beq_iff_eq]
    omega
  have guard : (if isNegative = true then some (decide (-(m * 10 : Int) < T.min + digitValue c))
      else some (decide (T.max - digitValue c < (m * 10 : Int)))) =
      some (decide (magnitudeLimit T isNegative < m * 10 + digitValue c)) := by
    cases isNegative with
    | false =>
      refine congrArg some (decide_eq_decide.mpr ?_)
      rw [magnitudeLimit, if_neg Bool.false_ne_true]
      omega
    | true =>
      refine congrArg some (decide_eq_decide.mpr ?_)
      rw [magnitudeLimit, if_pos rfl]
      omega
  simp only [checkedStep, Bool.false_or, magnitude, decide_eq_true_eq, if_neg small, Option.bind_eq_bind, product,
    Option.bind_some, ten, val_convert_digit T digits, opposite, lowest, highest, flag, guard]
  split
  · rfl
  · cases T.checked (m * 10 + digitValue c) <;> rfl

/-- Where an addition is defined, the wrapped one gives the same. -/
theorem IntType.arith_of_checked {z r : Int} (defined : T.checked z = some r) : T.arith z = r := by
  obtain ⟨⟨lower, upper⟩, same⟩ := Option.ite_none_right_eq_some.mp defined
  rw [← Option.some.inj same]
  exact IntType.val_convert lower upper

theorem IntType.checked_eq_none_iff {z : Int} (lower : T.min ≤ z) : T.checked z = none ↔ T.promoted.max < z := by
  have least := T.promoted_min_le
  rw [IntType.checked, ite_eq_right_iff]
  simp
  omega

/-- One round of the loop is the one of the wrapping accumulator, or its sum overflows. -/
theorem checkedStep_eq (signed : T.signed = true) {m : Nat} {state : T.Value × Bool} {c : UInt8}
    (rep : SignedRep T isNegative m state) (digits : isDigit c = true) :
    Overflows T isNegative (m * 10 + digitValue c) ∧ checkedStep T isNegative state c = none ∨
      ¬Overflows T isNegative (m * 10 + digitValue c) ∧
        checkedStep T isNegative state c = some ((signedAccumulator T isNegative).step state c) := by
  have nine := T.nine_le_max
  have limit := magnitudeLimit_le T isNegative
  have beyond {n : Nat} (large : T.max + 1 < n) : ¬Overflows T isNegative n := by
    rintro ⟨_, _, exact⟩
    omega
  obtain ⟨x, isMin⟩ := state
  rcases rep with ⟨clear, magnitude⟩ | ⟨set, _, full⟩
  · obtain rfl : isMin = false := clear
    simp only at magnitude
    rw [signed_step signed magnitude digits]
    by_cases large : T.max / 10 < m
    · have seven := IntType.max_emod_ten signed
      refine Or.inr ⟨beyond (by push_cast; omega), ?_⟩
      rw [if_pos (by omega), checkedStep, if_pos (by simp [magnitude, large])]
    rw [checkedStep_of_small signed magnitude digits large]
    by_cases leaves : magnitudeLimit T isNegative < m * 10 + digitValue c
    · refine Or.inr ⟨?_, by rw [if_pos leaves, if_pos leaves]⟩
      intro overflows
      rw [overflows.limit] at leaves
      exact lt_irrefl _ leaves
    rw [if_neg leaves, if_neg leaves]
    have lower : T.min ≤ (m * 10 + digitValue c : Int) := T.min_nonpos.trans (by omega)
    cases sum : T.checked (m * 10 + digitValue c) with
    | none =>
      have outside := (IntType.checked_eq_none_iff lower).mp sum
      have wide := T.max_le_promoted
      refine Or.inl ⟨⟨?_, by omega, by push_cast; omega⟩, rfl⟩
      by_contra positive
      rw [magnitudeLimit, if_neg positive] at leaves
      omega
    | some r =>
      have inside := (IntType.checked_eq_none_iff lower).not.mp (by rw [sum]; exact Option.some_ne_none r)
      refine Or.inr ⟨?_, by rw [Option.map_some, IntType.arith_of_checked sum]⟩
      rintro ⟨_, same, exact⟩
      push_cast at exact
      omega
  · obtain rfl : isMin = true := set
    refine Or.inr ⟨beyond (by push_cast; omega), rfl⟩

theorem checkedFinish_eq (signed : T.signed = true) {m : Nat} {state : T.Value × Bool}
    (rep : SignedRep T isNegative m state) :
    checkedFinish T isNegative state = some ((signedAccumulator T isNegative).finish state) := by
  have least := IntType.min_of_signed signed
  obtain ⟨x, isMin⟩ := state
  have upper := x.property.2
  cases isNegative with
  | false => rfl
  | true =>
    rcases rep with ⟨clear, magnitude⟩ | ⟨set, _⟩
    · obtain rfl : isMin = false := clear
      have opposite : T.checked (-x.val) = some (-x.val) :=
        IntType.checked_eq (by omega) (by simp only at magnitude; omega)
      show (T.checked (-x.val)).map T.convert = some (T.convert (T.arith (-x.val)))
      rw [opposite, Option.map_some, IntType.arith_of_checked opposite]
    · obtain rfl : isMin = true := set
      rfl

/-- Some of the digits, read one after the other from `m` on, lead to the sum that overflows. -/
def Reaches (T : IntType) (isNegative : Bool) (m : Nat) (ds : List Nat) : Prop :=
  ∃ k, Overflows T isNegative (horner 10 m (ds.take k))

theorem reaches_nil_iff {m : Nat} : Reaches T isNegative m [] ↔ Overflows T isNegative m := by
  constructor
  · rintro ⟨k, overflows⟩
    rwa [List.take_nil] at overflows
  · intro overflows
    exact ⟨0, overflows⟩

theorem reaches_cons_iff {m d : Nat} {ds : List Nat} (start : ¬Overflows T isNegative m) :
    Reaches T isNegative m (d :: ds) ↔ Reaches T isNegative (m * 10 + d) ds := by
  constructor
  · rintro ⟨k, overflows⟩
    cases k with
    | zero => exact absurd overflows start
    | succ k => exact ⟨k, overflows⟩
  · rintro ⟨k, overflows⟩
    exact ⟨k + 1, overflows⟩

/-- Beyond the limit no digits lead back to it. -/
theorem not_reaches_of_limit_lt {m : Nat} (beyond : magnitudeLimit T isNegative < m) (ds : List Nat) :
    ¬Reaches T isNegative m ds := by
  rintro ⟨k, overflows⟩
  rw [overflows.limit] at beyond
  exact absurd beyond (not_lt.mpr (le_horner (by decide) _))

variable {memory cs : List UInt8}

/-- The checked loop is the wrapping one, or it meets the sum that overflows. -/
theorem value_checkedLoop (signed : T.signed = true) {first m : Nat} {state : T.Value × Bool}
    (holds : Holds memory first cs) (rep : SignedRep T isNegative m state) (start : ¬Overflows T isNegative m) :
    Reaches T isNegative m (leadingDigits cs) ∧
        (checkedLoop T isNegative cs.length first state).value memory = some none ∨
      ¬Reaches T isNegative m (leadingDigits cs) ∧
        (checkedLoop T isNegative cs.length first state).value memory =
          ((digitLoop (signedAccumulator T isNegative).step cs.length first state).value memory).map some := by
  induction cs generalizing first m state with
  | nil => exact Or.inr ⟨reaches_nil_iff.not.mpr start, rfl⟩
  | cons c cs ih =>
    obtain ⟨here, later⟩ := holds
    have tracks := @signed_tracks T isNegative signed
    rw [List.length_cons, checkedLoop, digitLoop, value_bind, value_bind, value_read_natCast, here, Option.bind_some,
      Option.bind_some]
    by_cases digits : isDigit c = true
    · rw [if_pos digits, if_pos digits, leadingDigits_cons_of_digit digits, reaches_cons_iff start]
      rcases checkedStep_eq signed rep digits with ⟨overflows, undefined⟩ | ⟨exact, defined⟩
      · rw [undefined]
        exact Or.inl ⟨⟨0, overflows⟩, rfl⟩
      · rw [defined]
        by_cases beyond : magnitudeLimit T isNegative < m * 10 + digitValue c
        · rw [tracks.overflow m state c rep digits beyond]
          exact Or.inr ⟨not_reaches_of_limit_lt beyond _, rfl⟩
        · obtain ⟨next, step, advanced⟩ := tracks.advance m state c rep digits (not_lt.mp beyond)
          rw [step]
          exact ih later advanced exact
    · rw [if_neg digits, if_neg digits, leadingDigits_cons_of_not_digit digits]
      exact Or.inr ⟨reaches_nil_iff.not.mpr start, rfl⟩

theorem not_overflows_of_le {m : Nat} (small : m ≤ 9) : ¬Overflows T isNegative m := by
  have nine := T.nine_le_max
  rintro ⟨_, _, exact⟩
  omega

theorem value_checkedDigits (signed : T.signed = true) {start : Nat} (origin : Nat) (holds : Holds memory start cs) :
    Reaches T isNegative 0 (leadingDigits cs) ∧
        (checkedDigits T isNegative origin start (start + cs.length)).value memory = some none ∨
      ¬Reaches T isNegative 0 (leadingDigits cs) ∧
        (checkedDigits T isNegative origin start (start + cs.length)).value memory =
          some (some (digitsResult T isNegative origin start (leadingDigits cs))) := by
  have tracks := @signed_tracks T isNegative signed
  have zero : ¬Overflows T isNegative 0 := not_overflows_of_le (Nat.zero_le 9)
  have nothing := reaches_nil_iff.not.mpr zero
  have exact := value_fromCharsDigits tracks origin holds
  unfold fromCharsDigits at exact
  unfold checkedDigits
  cases cs with
  | nil =>
    rw [if_pos (by simp)] at exact ⊢
    exact Or.inr ⟨nothing, congrArg (Option.map some) exact⟩
  | cons c cs =>
    obtain ⟨here, later⟩ := holds
    rw [if_neg (by simp), value_bind, value_read_natCast, here, Option.bind_some] at exact ⊢
    by_cases digits : isDigit c = true
    · obtain ⟨_, small⟩ := digit_eq digits
      have remaining : start + (c :: cs).length - (start + 1) = cs.length := by
        rw [List.length_cons]
        omega
      have rep := tracks.start c digits
      have first : (T.convert (digit c), false) = (signedAccumulator T isNegative).start c := rfl
      rw [if_neg (by simp [digits]), value_bind, remaining] at exact ⊢
      rw [first]
      rw [leadingDigits_cons_of_digit digits, reaches_cons_iff zero, Nat.zero_mul, Nat.zero_add]
      rw [leadingDigits_cons_of_digit digits] at exact
      rcases value_checkedLoop signed later rep (not_overflows_of_le small) with ⟨reaches, value⟩ | ⟨avoids, value⟩
      · exact Or.inl ⟨reaches, by rw [value]; rfl⟩
      · refine Or.inr ⟨avoids, ?_⟩
        rw [value]
        rcases value_digitLoop tracks later rep with ⟨k, _, loop⟩ | ⟨after, _, loop, represents⟩
        · rw [loop] at exact ⊢
          exact congrArg (Option.map some) exact
        · rw [loop] at exact ⊢
          have finished := checkedFinish_eq signed represents
          show some ((checkedFinish T isNegative after).map _) = _
          rw [finished]
          exact congrArg (Option.map some) exact
    · rw [if_pos (by simp [digits])] at exact ⊢
      rw [leadingDigits_cons_of_not_digit digits] at exact ⊢
      exact Or.inr ⟨nothing, congrArg (Option.map some) exact⟩

/-- The characters before the digits take no part in the arithmetic. -/
theorem value_checkedFromChars (signed : T.signed = true) {first : Nat} (holds : Holds memory first cs) :
    (checkedFromChars T first (first + cs.length)).value memory =
      if cs.dropWhile isSpace = [] then some (some ⟨first, .invalidArgument, none⟩)
      else (checkedDigits T (hasMinus T (cs.dropWhile isSpace)) first
        (first + (cs.takeWhile isSpace).length + (hasSign T (cs.dropWhile isSpace)).toNat)
        (first + cs.length)).value memory := by
  have parts := length_spaces_add cs
  have after := holds_afterSpaces holds
  unfold checkedFromChars
  by_cases empty : cs = []
  · rw [if_pos (by simp [empty]), empty]
    rfl
  have positive := List.length_pos_iff.mpr empty
  rw [if_neg (by omega), Nat.add_sub_cancel_left, value_bind, value_skipSpaces holds, Option.bind_some]
  by_cases blank : cs.dropWhile isSpace = []
  · rw [blank, List.length_nil] at parts
    rw [if_pos blank, if_pos (by omega)]
    rfl
  · have more := List.length_pos_iff.mpr blank
    obtain ⟨c, rest, found⟩ := List.exists_cons_of_ne_nil blank
    have sign : hasSign T (c :: rest) = (c == 43 || c == 45) := by rw [hasSign, signed, Bool.true_and]
    have minus : hasMinus T (c :: rest) = (c == 45) := by rw [hasMinus, signed, Bool.true_and]
    rw [if_neg blank, if_neg (by omega)]
    rw [found] at after ⊢
    rw [value_bind, value_read_natCast, after.1, Option.bind_some, sign, minus]
    cases c == 43 || c == 45 <;> rfl

/-- Parsing with checked arithmetic computes the same, unless a minus and the digits after
it lead to the sum that overflows. -/
theorem checkedFromChars_cases (signed : T.signed = true) {first : Nat} (holds : Holds memory first cs)
    (scan : Scan T cs) :
    Reaches T (decide (scan.sign = some 45)) 0 (scan.digits.map digitValue) ∧
        (checkedFromChars T first (first + cs.length)).value memory = some none ∨
      ¬Reaches T (decide (scan.sign = some 45)) 0 (scan.digits.map digitValue) ∧
        (checkedFromChars T first (first + cs.length)).value memory = some (some (parsed T first cs)) := by
  have digits := scan.leadingDigits_eq
  have minus : hasMinus T (cs.dropWhile isSpace) = decide (scan.sign = some 45) := by
    rw [scan.after_spaces, scan.sign_eq.2]
  rw [value_checkedFromChars signed holds]
  by_cases blank : cs.dropWhile isSpace = []
  · rw [blank, List.drop_nil] at digits
    rw [if_pos blank, parsed_of_blank blank, ← digits]
    exact Or.inr ⟨reaches_nil_iff.not.mpr (not_overflows_of_le (Nat.zero_le 9)), rfl⟩
  · have parts := length_spaces_add cs
    have more := List.length_pos_iff.mpr blank
    have sign := Bool.toNat_le (hasSign T (cs.dropWhile isSpace))
    have cases := @value_checkedDigits T (hasMinus T (cs.dropWhile isSpace)) _ _ signed _ first
      ((holds_afterSpaces holds).drop (hasSign T (cs.dropWhile isSpace)).toNat)
    have stop : first + (cs.takeWhile isSpace).length + (hasSign T (cs.dropWhile isSpace)).toNat +
        ((cs.dropWhile isSpace).length - (hasSign T (cs.dropWhile isSpace)).toNat) = first + cs.length := by
      omega
    rw [List.length_drop, stop, digits, minus] at cases
    have same : parsed T first cs = digitsResult T (decide (scan.sign = some 45)) first
        (first + (cs.takeWhile isSpace).length + (hasSign T (cs.dropWhile isSpace)).toNat)
        (scan.digits.map digitValue) := by
      rw [← digits, ← minus]
      rfl
    rw [if_neg blank, minus, same]
    exact cases

/-- The sum overflows where the digits so far denote the least number of the type. -/
theorem reaches_iff (wide : T.promoted = T) (signed : T.signed = true) (scan : Scan T cs) :
    Reaches T (decide (scan.sign = some 45)) 0 (scan.digits.map digitValue) ↔
      ∃ k ≤ scan.digits.length, scan.number k = T.min := by
  have least := IntType.min_of_signed signed
  have nine := T.nine_le_max
  have number (k : Nat) : Overflows T (decide (scan.sign = some 45)) (horner 10 0 ((scan.digits.map digitValue).take k)) ↔
      scan.number k = T.min := by
    rw [Scan.number, ← horner_eq_ofDigits, ← List.map_take, Overflows, wide, withSign]
    cases decide (scan.sign = some 45) with
    | true =>
      simp only [true_and, if_true]
      omega
    | false =>
      simp only [Bool.false_eq_true, false_and, false_iff, if_false]
      omega
  constructor
  · rintro ⟨k, overflows⟩
    refine ⟨min k scan.digits.length, min_le_right _ _, (number _).mp ?_⟩
    rwa [List.take_eq_take_min, List.length_map] at overflows
  · rintro ⟨k, _, exact⟩
    exact ⟨k, (number k).mpr exact⟩

/-- No signed operation overflows, exactly if with their sign no leading digits of the range
denote the least number of the type. -/
theorem checkedFromChars_defined_iff (wide : T = .i32 ∨ T = .i64) (before cs after : List UInt8) (scan : Scan T cs) :
    (checkedFromChars T before.length (before.length + cs.length)).value (before ++ cs ++ after) =
        ((fromChars T before.length (before.length + cs.length)).value (before ++ cs ++ after)).map some ↔
      ¬∃ k ≤ scan.digits.length, scan.number k = T.min := by
  have signed : T.signed = true := by rcases wide with rfl | rfl <;> rfl
  have promoted : T.promoted = T := by rcases wide with rfl | rfl <;> rfl
  have holds := holds_append before cs after
  rw [value_fromChars T holds, ← reaches_iff promoted signed]
  rcases checkedFromChars_cases signed holds scan with ⟨reaches, undefined⟩ | ⟨avoids, defined⟩
  · rw [undefined]
    exact iff_of_false (by simp) (not_not.mpr reaches)
  · rw [defined]
    exact iff_of_true rfl avoids

/-- Minus seven, in the middle of other characters. -/
theorem checkedFromChars_defined_iff_for_minus_seven :
    ∃ scan : Scan .i64 [45, 55],
      (checkedFromChars .i64 [120].length ([120].length + [45, 55].length)).value ([120] ++ [45, 55] ++ [120]) =
          ((fromChars .i64 [120].length ([120].length + [45, 55].length)).value ([120] ++ [45, 55] ++ [120])).map some ↔
        ¬∃ k ≤ scan.digits.length, scan.number k = IntType.min .i64 := by
  have scan : Scan .i64 [45, 55] :=
    ⟨[], some 45, [55], [], rfl, by simp, fun c same => by cases same; rfl,
      fun c same => Or.inr ⟨rfl, (Option.some.inj same).symm⟩, by simp, List.all_eq_true.mp rfl, by simp⟩
  exact ⟨scan, checkedFromChars_defined_iff (Or.inr rfl) [120] [45, 55] [120] scan⟩

/-- The text of the least number overflows at its last digit. -/
theorem least_i32_overflows :
    (checkedFromChars .i32 0 11).value [45, 50, 49, 52, 55, 52, 56, 51, 54, 52, 56] = some none := by decide

end Rbc
