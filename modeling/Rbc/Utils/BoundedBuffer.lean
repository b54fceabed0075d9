import Rbc.Utils.TextRoundTrip

namespace Rbc

variable {T : IntType} {memory : Memory} {first n : Nat} {s : List UInt8}

theorem Memory.write_inside {i : Nat} (inside : i < s.length) : memory.write first s (first + i) = s[i] := by
  rw [Memory.write, if_pos (by omega), Nat.add_sub_cancel_left, List.getElem?_eq_getElem inside, Option.getD_some]

theorem Memory.write_outside {a : Nat} (outside : a < first ∨ first + s.length ≤ a) :
    memory.write first s a = memory a := by
  unfold Memory.write
  rcases outside with before | after
  · rw [if_neg (by omega), Option.getD_none]
  · rw [if_pos (by omega), List.getElem?_eq_none (by omega), Option.getD_none]

/-- A text of `n` characters at most stands in the buffer as it is; any other one is refused. -/
structure InBuffer (memory : Memory) (first n : Nat) (s : List UInt8) (result : ToCharsResult) : Prop where
  ok_iff : result.error = .ok ↔ s.length ≤ n
  ptr : s.length ≤ n → result.ptr = first + s.length
  written : s.length ≤ n → ∀ i (_ : i < s.length), result.memory (first + i) = s[i]
  rest : s.length ≤ n → ∀ a, first + s.length ≤ a → result.memory a = memory a
  refused : n < s.length → result.error = .valueTooLarge ∧ result.ptr = first + n
  outside : ∀ a, a < first ∨ first + n ≤ a → result.memory a = memory a

theorem inBuffer_formatted (v : Int) (nonempty : 0 < n) :
    InBuffer memory first n (text v) (formatted memory first (first + n) v) := by
  have room : ¬first + n ≤ first := by omega
  rw [formatted, if_neg room]
  by_cases fits : (text v).length ≤ n
  · have notFull : ¬first + n < first + (text v).length := by omega
    rw [if_neg notFull]
    refine ⟨iff_of_true rfl fits, fun _ => rfl, fun _ i inside => Memory.write_inside inside, ?_, ?_, ?_⟩
    · intro _ a after
      exact Memory.write_outside (Or.inr after)
    · intro large
      omega
    · intro a outside
      exact Memory.write_outside (by omega)
  · have full : first + n < first + (text v).length := by omega
    rw [if_pos full]
    refine ⟨iff_of_false (by simp) fits, ?_, ?_, ?_, fun _ => ⟨rfl, rfl⟩, ?_⟩
    · intro small
      exact absurd small fits
    · intro small
      exact absurd small fits
    · intro small
      exact absurd small fits
    · intro a outside
      -- the sign was stored before the digits were counted
      have other : a ≠ first := by omega
      show (if v < 0 then Function.update memory first 45 else memory) a = memory a
      split
      · exact Function.update_of_ne other _ _
      · rfl

theorem length_numeral_le_of_lt {m k : Nat} (positive : 0 < k) (small : m < 10 ^ k) : (numeral m).length ≤ k := by
  unfold numeral
  split
  · exact positive
  · rw [List.length_reverse]
    exact (Nat.digits_length_le_iff (by decide) m).mpr small

theorem IntType.min_gt (T : IntType) : -10 ^ 19 < T.min := by cases T <;> decide

theorem IntType.max_lt (T : IntType) : T.max < 10 ^ 20 := by cases T <;> decide

theorem length_text_le (v : T.Value) : (text v.val).length ≤ toCharsResultMaxLen := by
  have least := T.min_gt
  have greatest := T.max_lt
  obtain ⟨lower, upper⟩ := v.property
  rw [text_eq, List.length_append, List.length_map]
  by_cases negative : v.val < 0
  · have digits := length_numeral_le_of_lt (m := v.val.natAbs) (k := 19) (by decide) (by omega)
    rw [if_pos negative, List.length_singleton]
    unfold toCharsResultMaxLen
    omega
  · have digits := length_numeral_le_of_lt (m := v.val.natAbs) (k := 20) (by decide) (by omega)
    rw [if_neg negative, List.length_nil, Nat.zero_add]
    exact digits

/-- Whatever the buffer held, formatting stores the text of the value if it
fits and touches nothing outside; twenty characters are always enough. -/
theorem toChars_inBuffer (T : IntType) (v : T.Value) (memory : Memory) (first n : Nat) (nonempty : 0 < n) :
    InBuffer memory first n (text v.val) (toChars T memory first (first + n) v) ∧
      (n = toCharsResultMaxLen → (toChars T memory first (first + n) v).error = .ok) := by
  have buffer : InBuffer memory first n (text v.val) (toChars T memory first (first + n) v) := by
    rw [toChars_eq]
    exact inBuffer_formatted v.val nonempty
  refine ⟨buffer, ?_⟩
  intro size
  rw [buffer.ok_iff, size]
  exact length_text_le v

/-- The most negative value of eight bits, in a buffer one character too small. -/
theorem toChars_inBuffer_of_least :
    InBuffer (fun _ => 7) 5 3 (text (-128)) (toChars .i8 (fun _ => 7) 5 (5 + 3) ⟨-128, by decide⟩) :=
  (toChars_inBuffer .i8 ⟨-128, by decide⟩ (fun _ => 7) 5 3 (by decide)).1

end Rbc
