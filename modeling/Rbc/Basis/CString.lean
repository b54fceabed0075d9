import Mathlib.Data.List.TakeWhile

namespace CString

variable {memory : Nat → UInt8} {p n : Nat} {s t : List UInt8}

/-- The bytes from an address on are a string, and a NUL follows it. -/
structure IsString (memory : Nat → UInt8) (p : Nat) (s : List UInt8) : Prop where
  bytes : ∀ i (inside : i < s.length), memory (p + i) = s[i]
  nul : memory (p + s.length) = 0
  nonzero : ∀ c ∈ s, c ≠ 0

/-- One of the first bytes is a NUL. -/
def Terminated (memory : Nat → UInt8) (p n : Nat) : Prop := ∃ i < n, memory (p + i) = 0

/-- `strlen` of an array that holds these bytes and a NUL. -/
def strlen (bytes : List UInt8) : Nat := (bytes.takeWhile (· != 0)).length

theorem strlen_eq (nonzero : ∀ c ∈ s, c ≠ 0) : strlen s = s.length := by
  rw [strlen, List.takeWhile_eq_self_iff.mpr]
  intro c member
  exact bne_iff_ne.mpr (nonzero c member)

namespace IsString

theorem nil (nul : memory p = 0) : IsString memory p [] :=
  ⟨fun i inside => absurd inside (Nat.not_lt_zero i), nul, fun _ member => absurd member List.not_mem_nil⟩

theorem cons (first : memory p ≠ 0) (rest : IsString memory (p + 1) s) : IsString memory p (memory p :: s) := by
  refine ⟨?_, ?_, ?_⟩
  · intro i inside
    cases i with
    | zero => rfl
    | succ i =>
      have later := rest.bytes i (Nat.lt_of_succ_lt_succ inside)
      rwa [Nat.add_assoc, Nat.add_comm 1] at later
  · have later := rest.nul
    rwa [Nat.add_assoc, Nat.add_comm 1] at later
  · intro c member
    rcases List.mem_cons.mp member with rfl | member
    · exact first
    · exact rest.nonzero c member

/-- Where there is a NUL, a string ends before or at it. -/
theorem exists_of_terminated (ends : Terminated memory p n) : ∃ s, s.length < n ∧ IsString memory p s := by
  induction n generalizing p with
  | zero =>
    obtain ⟨i, below, _⟩ := ends
    exact absurd below (Nat.not_lt_zero i)
  | succ n ih =>
    by_cases first : memory p = 0
    · exact ⟨[], Nat.succ_pos n, nil first⟩
    · obtain ⟨i, below, nul⟩ := ends
      cases i with
      | zero => exact absurd nul first
      | succ i =>
        rw [Nat.add_comm i 1, ← Nat.add_assoc] at nul
        obtain ⟨s, short, rest⟩ := ih ⟨i, Nat.lt_of_succ_lt_succ below, nul⟩
        exact ⟨memory p :: s, Nat.succ_lt_succ short, cons first rest⟩

theorem terminated (string : IsString memory p s) (short : s.length < n) : Terminated memory p n :=
  ⟨s.length, short, string.nul⟩

end IsString

end CString
