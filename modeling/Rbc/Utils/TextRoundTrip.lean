import Mathlib.Data.List.TakeWhile
import Rbc.Utils.Parsing
import Rbc.Utils.Formatting

namespace Rbc

open BoundedReader Positional

variable {T : IntType}

/-- The digits of a number, zero included. -/
def numeral (n : Nat) : List Nat := if n = 0 then [0] else (Nat.digits 10 n).reverse

theorem numeral_ne_nil (n : Nat) : numeral n ≠ [] := by
  unfold numeral
  split
  · exact List.cons_ne_nil _ _
  · rename_i nonzero
    rw [ne_eq, List.reverse_eq_nil_iff, Nat.digits_eq_nil_iff_eq_zero]
    exact nonzero

theorem lt_ten_of_mem_numeral {n d : Nat} (member : d ∈ numeral n) : d < 10 := by
  unfold numeral at member
  split at member
  · rw [List.mem_singleton.mp member]
    decide
  · exact Nat.digits_lt_base (by decide) (List.mem_reverse.mp member)

theorem horner_numeral (n : Nat) : horner 10 0 (numeral n) = n := by
  unfold numeral
  split
  · rename_i zero
    rw [zero]
    rfl
  · exact horner_digits n

/-- A number has no shorter decimal representation than its numeral. -/
theorem length_numeral_le {ds : List Nat} (nonempty : ds ≠ []) (small : ∀ d ∈ ds, d < 10) :
    (numeral (horner 10 0 ds)).length ≤ ds.length := by
  unfold numeral
  split
  · exact List.length_pos_iff.mpr nonempty
  · rw [List.length_reverse]
    exact length_digits_horner_le (by decide) small

theorem text_eq (v : Int) :
    text v = (if v < 0 then [45] else []) ++ (numeral v.natAbs).map digitChar := by
  rw [text, numeral]
  by_cases zero : v = 0
  · rw [zero]
    rfl
  · rw [if_neg zero, if_neg (by omega : ¬v.natAbs = 0)]
    split <;> rfl

theorem toNat_digitChar {d : Nat} (small : d < 10) : (digitChar d).toNat = 48 + d := by
  show (48 + d) % 2 ^ 8 = 48 + d
  omega

theorem isDigit_digitChar {d : Nat} (small : d < 10) : isDigit (digitChar d) = true := by
  rw [isDigit_iff, toNat_digitChar small]
  omega

/-- The digits that were written are the digits that are read. -/
theorem leadingDigits_map {ds : List Nat} {t : List UInt8} (small : ∀ d ∈ ds, d < 10)
    (stops : ∀ c ∈ t.head?, isDigit c = false) : leadingDigits (ds.map digitChar ++ t) = ds := by
  induction ds with
  | nil =>
    cases t with
    | nil => rfl
    | cons c t =>
      have other := stops c rfl
      exact leadingDigits_cons_of_not_digit (by rw [other]; decide)
  | cons d ds ih =>
    have here := small d (List.mem_cons_self ..)
    have value : digitValue (digitChar d) = d := by
      rw [digitValue, toNat_digitChar here, Nat.add_sub_cancel_left]
    rw [List.map_cons, List.cons_append, leadingDigits_cons_of_digit (isDigit_digitChar here), value,
      ih fun e member => small e (List.mem_cons_of_mem d member)]

theorem lt_ten_of_mem_leadingDigits {cs : List UInt8} {d : Nat} (member : d ∈ leadingDigits cs) : d < 10 := by
  obtain ⟨c, taken, rfl⟩ := List.mem_map.mp member
  have range := digit_eq (List.mem_takeWhile_imp taken)
  omega

theorem signed_of_neg (v : T.Value) (negative : v.val < 0) : T.signed = true := by
  have lower := v.property.1
  by_contra unsigned
  have least := IntType.min_of_unsigned (Bool.eq_false_iff.mpr unsigned)
  omega

theorem natAbs_le_limit (v : T.Value) : v.val.natAbs ≤ magnitudeLimit T (decide (v.val < 0)) := by
  have lower := v.property.1
  have upper := v.property.2
  unfold magnitudeLimit
  by_cases negative : v.val < 0
  · have least := IntType.min_of_signed (signed_of_neg v negative)
    rw [decide_eq_true negative, if_pos rfl]
    omega
  · rw [decide_eq_false negative, if_neg (by decide)]
    omega

theorem withSign_natAbs (v : Int) : withSign (decide (v < 0)) v.natAbs = v := by
  by_cases negative : v < 0
  · rw [decide_eq_true negative]
    show -(v.natAbs : Int) = v
    omega
  · rw [decide_eq_false negative]
    show (v.natAbs : Int) = v
    omega

theorem digitsResult_numeral (v : T.Value) (origin start : Nat) :
    digitsResult T (decide (v.val < 0)) origin start (numeral v.val.natAbs) =
      ⟨start + (numeral v.val.natAbs).length, .ok, some v⟩ := by
  have fits : overflowAt 10 (magnitudeLimit T (decide (v.val < 0))) 0 (numeral v.val.natAbs) = none := by
    rw [overflowAt_eq_none_iff (by decide) (Nat.zero_le _), horner_numeral]
    exact natAbs_le_limit v
  rw [digitsResult, if_neg (numeral_ne_nil _), fits, horner_numeral, withSign_natAbs, IntType.convert_val]

theorem isSpace_eq_false {c : UInt8} (digits : isDigit c = true) : isSpace c = false := by
  obtain ⟨lower, _⟩ := isDigit_iff.mp digits
  have blank : c ≠ 32 := by
    rintro rfl
    exact absurd digits (by decide)
  have control : ¬c ≤ 13 := by
    intro below
    have := UInt8.le_iff_toNat_le.mp below
    exact absurd (lower.trans this) (by decide)
  rw [isSpace, beq_false_of_ne blank, decide_eq_false control, Bool.and_false]
  rfl

theorem hasSign_eq_false {c : UInt8} (digits : isDigit c = true) (cs : List UInt8) :
    hasSign T (c :: cs) = false ∧ hasMinus T (c :: cs) = false := by
  have plus : c ≠ 43 := by
    rintro rfl
    exact absurd digits (by decide)
  have minus : c ≠ 45 := by
    rintro rfl
    exact absurd digits (by decide)
  rw [hasSign, hasMinus, beq_false_of_ne plus, beq_false_of_ne minus, Bool.and_false]
  exact ⟨rfl, rfl⟩

theorem parsed_cons {c : UInt8} (plain : isSpace c = false) (first : Nat) (cs : List UInt8) :
    parsed T first (c :: cs) = digitsResult T (hasMinus T (c :: cs)) first
      (first + (hasSign T (c :: cs)).toNat) (leadingDigits ((c :: cs).drop (hasSign T (c :: cs)).toNat)) := by
  rw [parsed]
  simp only [List.takeWhile_cons, List.dropWhile_cons, plain, Bool.false_eq_true, if_false, List.length_nil,
    Nat.add_zero]

/-- The parser reads back the text of a value and stops where the text ends. -/
theorem parsed_text (v : T.Value) (first : Nat) {t : List UInt8} (stops : ∀ c ∈ t.head?, isDigit c = false) :
    parsed T first (text v.val ++ t) = ⟨first + (text v.val).length, .ok, some v⟩ := by
  have digits := leadingDigits_map (fun d => lt_ten_of_mem_numeral (n := v.val.natAbs)) stops
  have result := digitsResult_numeral v first
  rw [text_eq, List.append_assoc, List.length_append, List.length_map]
  by_cases negative : v.val < 0
  · have signed : T.signed = true := signed_of_neg v negative
    have sign : ∀ cs, hasSign T (45 :: cs) = true := fun cs => by rw [hasSign, signed]; rfl
    have minus : ∀ cs, hasMinus T (45 :: cs) = true := fun cs => by rw [hasMinus, signed]; rfl
    rw [decide_eq_true negative] at result
    rw [if_pos negative, List.singleton_append, parsed_cons (by decide), sign, minus, Bool.toNat_true,
      List.drop_succ_cons, List.drop_zero, digits, result, List.length_singleton, Nat.add_assoc]
  · obtain ⟨d, ds, leading⟩ := List.exists_cons_of_ne_nil (numeral_ne_nil v.val.natAbs)
    have small : d < 10 := lt_ten_of_mem_numeral (n := v.val.natAbs) (by rw [leading]; exact List.mem_cons_self ..)
    have character := isDigit_digitChar small
    rw [decide_eq_false negative] at result
    rw [if_neg negative, List.nil_append, List.length_nil, Nat.zero_add]
    rw [leading, List.map_cons, List.cons_append] at digits ⊢
    obtain ⟨sign, minus⟩ := hasSign_eq_false (T := T) character (ds.map digitChar ++ t)
    rw [parsed_cons (isSpace_eq_false character), sign, minus, Bool.toNat_false, List.drop_zero, digits,
      ← leading, result, Nat.add_zero]

theorem digitsResult_ok {negative : Bool} {origin start ptr : Nat} {digits : List Nat} {v : T.Value}
    (accepted : digitsResult T negative origin start digits = ⟨ptr, .ok, some v⟩) :
    digits ≠ [] ∧ ptr = start + digits.length ∧ horner 10 0 digits ≤ magnitudeLimit T negative ∧
      v = T.convert (withSign negative (horner 10 0 digits)) := by
  unfold digitsResult at accepted
  split at accepted
  · cases accepted
  · rename_i nonempty
    cases overflow : overflowAt 10 (magnitudeLimit T negative) 0 digits with
    | some k =>
      rw [overflow] at accepted
      cases accepted
    | none =>
      rw [overflow] at accepted
      cases accepted
      exact ⟨nonempty, rfl, (overflowAt_eq_none_iff (by decide) (Nat.zero_le _) digits).mp overflow, rfl⟩

theorem hasMinus_imp {cs : List UInt8} (minus : hasMinus T cs = true) :
    T.signed = true ∧ hasSign T cs = true := by
  cases cs with
  | nil => cases minus
  | cons c cs =>
    have both := Bool.and_eq_true_iff.mp minus
    exact ⟨both.1, by rw [hasSign, both.1, both.2]; exact Bool.or_true _⟩

/-- The text of an accepted value is no longer than what was consumed. -/
theorem length_text_le_of_parsed {first ptr : Nat} {cs : List UInt8} {v : T.Value}
    (accepted : parsed T first cs = ⟨ptr, .ok, some v⟩) : first + (text v.val).length ≤ ptr := by
  obtain ⟨nonempty, rfl, fits, stored⟩ := digitsResult_ok accepted
  generalize rest : cs.dropWhile isSpace = after at *
  generalize digits : leadingDigits (after.drop (hasSign T after).toNat) = ds at *
  have small : ∀ d ∈ ds, d < 10 := by
    intro d member
    rw [← digits] at member
    exact lt_ten_of_mem_leadingDigits member
  have shortest := length_numeral_le nonempty small
  have denoted : v.val = withSign (hasMinus T after) (horner 10 0 ds) := by
    rw [stored]
    exact val_convert_withSign (fun minus => (hasMinus_imp minus).1) fits
  rw [text_eq, List.length_append, List.length_map]
  cases minus : hasMinus T after with
  | true =>
    rw [minus] at denoted
    have magnitude : v.val.natAbs = horner 10 0 ds := by
      rw [denoted]
      exact Int.natAbs_neg _
    have oneSign : (if v.val < 0 then [(45 : UInt8)] else []).length ≤ 1 := by
      split <;> decide
    rw [magnitude, (hasMinus_imp minus).2, Bool.toNat_true]
    omega
  | false =>
    rw [minus] at denoted
    have nonneg : ¬v.val < 0 := not_lt.mpr (by rw [denoted]; exact Int.natCast_nonneg _)
    rw [if_neg nonneg, denoted]
    show first + (0 + (numeral (horner 10 0 ds)).length) ≤ _
    omega

def Memory.characters (memory : Memory) (first last : Nat) : List UInt8 :=
  (List.range (last - first)).map fun i => memory (first + i)

theorem Memory.characters_write (memory : Memory) (first : Nat) (cs : List UInt8) :
    (memory.write first cs).characters first (first + cs.length) = cs := by
  refine List.ext_getElem (by simp [Memory.characters]) fun i _ within => ?_
  simp [Memory.characters, Memory.write, within]

/-- A call that succeeds has written exactly the text of the value. -/
theorem toChars_ok {memory : Memory} {first last : Nat} {v : T.Value}
    (ok : (toChars T memory first last v).error = .ok) :
    first + (text v.val).length ≤ last ∧ (toChars T memory first last v).ptr = first + (text v.val).length ∧
      (toChars T memory first last v).memory.characters first (toChars T memory first last v).ptr = text v.val := by
  rw [toChars_eq] at ok ⊢
  unfold formatted at ok ⊢
  split at ok
  · cases ok
  split at ok
  · cases ok
  · rename_i room fits
    rw [if_neg room, if_neg fits]
    exact ⟨by omega, rfl, Memory.characters_write memory first _⟩

theorem length_text_pos (v : Int) : 0 < (text v).length := by
  rw [text_eq, List.length_append, List.length_map]
  have := List.length_pos_iff.mpr (numeral_ne_nil v.natAbs)
  omega

theorem toChars_of_room {memory : Memory} {first last : Nat} {v : T.Value}
    (fits : first + (text v.val).length ≤ last) : (toChars T memory first last v).error = .ok := by
  have nonempty := length_text_pos v.val
  rw [toChars_eq, formatted, if_neg (by omega), if_neg (by omega)]

/-- Formatting and parsing are inverse to each other, in any surroundings, and
formatting gives the shortest text that parses to a value. -/
theorem text_roundTrip (T : IntType) :
    (∀ (v : T.Value) (memory : Memory) (first last : Nat) (before t after : List UInt8),
      (toChars T memory first last v).error = .ok → (∀ c ∈ t.head?, isDigit c = false) →
      let result := toChars T memory first last v
      let written := result.memory.characters first result.ptr
      (fromChars T before.length (before.length + (written ++ t).length)).value (before ++ (written ++ t) ++ after) =
        some ⟨before.length + written.length, .ok, some v⟩) ∧
    (∀ (before cs after : List UInt8) (ptr : Nat) (v : T.Value),
      (fromChars T before.length (before.length + cs.length)).value (before ++ cs ++ after) =
        some ⟨ptr, .ok, some v⟩ →
      ∀ (memory : Memory) (first last : Nat),
        let result := toChars T memory first last v
        let written := result.memory.characters first result.ptr
        (first + (ptr - before.length) ≤ last → result.error = .ok) ∧
        (result.error = .ok → result.ptr - first ≤ ptr - before.length ∧
          written.length = result.ptr - first ∧
          (fromChars T 0 written.length).value written = some ⟨written.length, .ok, some v⟩)) := by
  constructor
  · intro v memory first last before t after ok stops
    obtain ⟨_, _, written⟩ := toChars_ok ok
    have value := value_fromChars T (holds_append before (text v.val ++ t) after)
    rw [parsed_text v before.length stops] at value
    simp only [written]
    exact value
  · intro before cs after ptr v accepted memory first last
    rw [value_fromChars T (holds_append before cs after)] at accepted
    have shortest := length_text_le_of_parsed (Option.some.inj accepted)
    refine ⟨fun room => toChars_of_room (by omega), ?_⟩
    intro ok
    obtain ⟨_, stop, written⟩ := toChars_ok ok
    have value := value_fromChars T (holds_append [] (text v.val ++ []) [])
    rw [parsed_text v _ (fun c member => by cases member)] at value
    simp only [List.append_nil, List.nil_append, List.length_nil, Nat.zero_add] at value
    simp only [written]
    refine ⟨by omega, by omega, value⟩

/-- The most negative value of eight bits, into a buffer that it fills. -/
theorem text_roundTrip_of_least :
    let least : IntType.Value .i8 := ⟨-128, by decide⟩
    let result := toChars .i8 (fun _ => 0) 0 4 least
    let written := result.memory.characters 0 result.ptr
    (fromChars .i8 [55].length ([55].length + (written ++ [120]).length)).value ([55] ++ (written ++ [120]) ++ [49]) =
      some ⟨[55].length + written.length, .ok, some least⟩ :=
  (text_roundTrip .i8).1 ⟨-128, by decide⟩ (fun _ => 0) 0 4 [55] [120] [49]
    (by decide +kernel) (by rintro c ⟨⟩; rfl)

end Rbc
