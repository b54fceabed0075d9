import Mathlib.Algebra.BigOperators.Group.List.Basic

namespace Checksum

variable {α : Type}

/-- Two strings of one length with exactly one changed position. -/
def DiffersOnlyAt (i : Nat) (l l' : List α) : Prop :=
  l.length = l'.length ∧ l[i]? ≠ l'[i]? ∧ ∀ j, j ≠ i → l[j]? = l'[j]?

theorem DiffersOnlyAt.length_eq {i : Nat} {l l' : List α} (differs : DiffersOnlyAt i l l') :
    l.length = l'.length := differs.1

theorem differsOnlyAt_set {i : Nat} {l : List α} {a b : α} (old : l[i]? = some a) (change : a ≠ b) :
    DiffersOnlyAt i l (l.set i b) := by
  have within : i < l.length := (List.getElem?_eq_some_iff.mp old).1
  refine ⟨List.length_set.symm, ?_, ?_⟩
  · rw [old, List.getElem?_set_self within]
    exact fun same => change (Option.some.inj same)
  · intro j other
    rw [List.getElem?_set_ne (Ne.symm other)]

theorem DiffersOnlyAt.take_eq {i n : Nat} {l l' : List α} (differs : DiffersOnlyAt i l l')
    (before : n ≤ i) : l.take n = l'.take n := by
  apply List.ext_getElem?
  intro j
  simp only [List.getElem?_take]
  split
  · exact differs.2.2 j (by omega)
  · rfl

theorem DiffersOnlyAt.take {i n : Nat} {l l' : List α} (differs : DiffersOnlyAt i l l')
    (covered : i < n) : DiffersOnlyAt i (l.take n) (l'.take n) := by
  obtain ⟨length, changed, same⟩ := differs
  refine ⟨by simp only [List.length_take, length], ?_, ?_⟩
  · simpa only [List.getElem?_take, if_pos covered] using changed
  · intro j other
    simp only [List.getElem?_take, same j other]

/-- An additive checksum notices every single change: cancellation moves the
difference of the two elements to the difference of the two sums. -/
theorem DiffersOnlyAt.sum_ne [AddMonoid α] [IsCancelAdd α] {i : Nat} {l l' : List α}
    (differs : DiffersOnlyAt i l l') : l.sum ≠ l'.sum := by
  obtain ⟨length, changed, same⟩ := differs
  induction i generalizing l l' with
  | zero =>
    match l, l', length with
    | [], [], _ => simp at changed
    | a :: t, b :: t', length =>
      have tails : t = t' := List.ext_getElem? fun j => same (j + 1) (by omega)
      subst tails
      intro sums
      simp only [List.sum_cons, add_left_inj] at sums
      exact changed (by simp only [List.getElem?_cons_zero, sums])
  | succ i ih =>
    match l, l', length with
    | [], [], _ => simp at changed
    | a :: t, b :: t', length =>
      have heads : a = b := by simpa using same 0 (by omega)
      subst heads
      intro sums
      simp only [List.sum_cons, add_right_inj] at sums
      exact ih (by simpa using length) (by simpa using changed)
        (fun j other => by simpa using same (j + 1) (by omega)) sums

/-- The element at `n` is the sum of `seed` and everything before it. -/
def CheckedAt [AddMonoid α] (seed : α) (n : Nat) (l : List α) : Prop :=
  l[n]? = some (seed + (l.take n).sum)

instance [AddMonoid α] [DecidableEq α] (seed : α) (n : Nat) (l : List α) :
    Decidable (CheckedAt seed n l) :=
  inferInstanceAs (Decidable (_ = _))

theorem CheckedAt.lt_length [AddMonoid α] {seed : α} {n : Nat} {l : List α}
    (checked : CheckedAt seed n l) : n < l.length :=
  (List.getElem?_eq_some_iff.mp checked).1

/-- One change, among the summed elements or in the checksum itself, breaks
the check. -/
theorem CheckedAt.broken [AddMonoid α] [IsCancelAdd α] {seed : α} {i n : Nat} {l l' : List α}
    (checked : CheckedAt seed n l) (differs : DiffersOnlyAt i l l') (within : i ≤ n) :
    ¬CheckedAt seed n l' := by
  intro checked'
  unfold CheckedAt at checked checked'
  rcases Nat.lt_or_eq_of_le within with before | rfl
  · have sums := (differs.take before).sum_ne
    have same := differs.2.2 n (by omega)
    rw [checked, checked', Option.some_inj, add_right_inj] at same
    exact sums same
  · rw [← differs.take_eq (Nat.le_refl i)] at checked'
    exact differs.2.1 (checked.trans checked'.symm)

theorem DiffersOnlyAt.checkedAt_iff [AddMonoid α] {seed : α} {i n : Nat} {l l' : List α}
    (differs : DiffersOnlyAt i l l') (behind : n < i) : CheckedAt seed n l' ↔ CheckedAt seed n l := by
  rw [CheckedAt, CheckedAt, differs.2.2 n (by omega), differs.take_eq (Nat.le_of_lt behind)]

end Checksum
