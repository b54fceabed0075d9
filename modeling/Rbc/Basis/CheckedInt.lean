import Rbc.Basis.Rounding

namespace CheckedInt

variable {x y r : Int64} {z : ℤ}

def InRange (z : ℤ) : Prop := -2 ^ 63 ≤ z ∧ z < 2 ^ 63

instance (z : ℤ) : Decidable (InRange z) := inferInstanceAs (Decidable (_ ∧ _))

/-- The value of a signed expression of 64 bits; C defines none where the exact
one is out of range. -/
def checked (z : ℤ) : Option Int64 := if InRange z then some (Int64.ofInt z) else none

def add (x y : Int64) : Option Int64 := checked (x.toInt + y.toInt)

def sub (x y : Int64) : Option Int64 := checked (x.toInt - y.toInt)

def mul (x y : Int64) : Option Int64 := checked (x.toInt * y.toInt)

def div (x y : Int64) : Option Int64 := if y = 0 then none else checked (x.toInt.tdiv y.toInt)

/-- A remainder is defined where the quotient is. -/
def mod (x y : Int64) : Option Int64 := (div x y).map fun _ => x % y

theorem checked_eq_some_iff : checked z = some r ↔ r.toInt = z := by
  have lower := r.le_toInt
  have upper := r.toInt_lt
  unfold checked
  constructor
  · intro defined
    split at defined
    · rename_i range
      rw [← Option.some.inj defined]
      exact Int64.toInt_ofInt_of_le range.1 range.2
    · cases defined
  · rintro rfl
    rw [if_pos ⟨lower, upper⟩, Int64.ofInt_toInt]

theorem isSome_checked : (checked z).isSome ↔ InRange z := by
  unfold checked
  split
  · rename_i range
    exact iff_of_true rfl range
  · rename_i outside
    exact iff_of_false (by simp) outside

theorem exists_checked (lower : -2 ^ 63 ≤ z) (upper : z < 2 ^ 63) : ∃ r, checked z = some r ∧ r.toInt = z := by
  obtain ⟨r, defined⟩ := Option.isSome_iff_exists.mp (isSome_checked.mpr ⟨lower, upper⟩)
  exact ⟨r, defined, checked_eq_some_iff.mp defined⟩

theorem checked_of_outside (outside : ¬InRange z) : checked z = none := if_neg outside

/-- A second step that is taken under a condition adds its own bound, and what
follows both adds none. -/
theorem isSome_two_steps {β : Type} {p : Prop} [Decidable p] (next : ℤ → ℤ) {finish : Int64 → Option β}
    (total : ∀ r, (finish r).isSome) :
    ((checked z).bind fun r => (if p then checked (next r.toInt) else some r).bind finish).isSome ↔
      InRange z ∧ (p → InRange (next z)) := by
  by_cases first : InRange z
  · obtain ⟨r, defined, exact⟩ := exists_checked first.1 first.2
    rw [defined, Option.bind_some, exact]
    by_cases taken : p
    · rw [if_pos taken]
      by_cases second : InRange (next z)
      · obtain ⟨r', defined', -⟩ := exists_checked second.1 second.2
        rw [defined', Option.bind_some]
        exact iff_of_true (total r') ⟨first, fun _ => second⟩
      · rw [checked_of_outside second]
        exact iff_of_false (by simp) fun both => second (both.2 taken)
    · rw [if_neg taken, Option.bind_some]
      exact iff_of_true (total r) ⟨first, fun holds => absurd holds taken⟩
  · rw [checked_of_outside first]
    exact iff_of_false (by simp) fun both => first both.1

theorem eq_some_iff_isSome {β : Type} {o : Option β} {b : β} (agree : ∀ c, o = some c → b = c) :
    o = some b ↔ o.isSome := by
  cases o with
  | none => simp
  | some c => simp [agree c rfl]

/-- Where the checked result exists, the wrapped one is the same. -/
theorem eq_of_checked {w : Int64} (defined : checked z = some r) (wrapped : w.toInt = z.bmod (2 ^ 64)) : w = r := by
  have lower := r.le_toInt
  have upper := r.toInt_lt
  rw [← Int64.toInt_inj, wrapped, ← checked_eq_some_iff.mp defined]
  exact Int.bmod_eq_of_le (by omega) (by omega)

/-- A checked branch agrees with a wrapped one if both sides do. -/
theorem eq_of_ite {β : Type} {p : Prop} [Decidable p] {yes no : Option β} {b c d : β} (onYes : yes = some d → b = d)
    (onNo : no = some d → c = d) (defined : (if p then yes else no) = some d) : (if p then b else c) = d := by
  split at defined
  · rename_i holds
    rw [if_pos holds]
    exact onYes defined
  · rename_i fails
    rw [if_neg fails]
    exact onNo defined

theorem eq_of_add (defined : add x y = some r) : x + y = r := eq_of_checked defined (Int64.toInt_add x y)

theorem eq_of_sub (defined : sub x y = some r) : x - y = r := eq_of_checked defined (Int64.toInt_sub x y)

theorem eq_of_mul (defined : mul x y = some r) : x * y = r := eq_of_checked defined (Int64.toInt_mul x y)

theorem eq_of_div (defined : div x y = some r) : x / y = r := by
  unfold div at defined
  split at defined
  · cases defined
  · exact eq_of_checked defined (Int64.toInt_div x y)

theorem eq_of_mod (defined : mod x y = some r) : x % y = r := by
  obtain ⟨_, -, same⟩ := Option.map_eq_some_iff.mp defined
  exact same

theorem exists_div (positive : 1 ≤ y.toInt) : ∃ q, div x y = some q ∧ q.toInt = x.toInt.tdiv y.toInt := by
  have nonzero : y ≠ 0 := by
    rintro rfl
    exact absurd positive (by decide)
  have between := Rounding.tdiv_between (z := x.toInt) (n := y.toInt) (by omega)
  have lower := x.le_toInt
  have upper := x.toInt_lt
  rw [div, if_neg nonzero]
  exact exists_checked (by omega) (by omega)

theorem exists_mod (positive : 1 ≤ y.toInt) : ∃ r, mod x y = some r ∧ r.toInt = x.toInt.tmod y.toInt := by
  obtain ⟨q, defined, -⟩ := exists_div (x := x) positive
  exact ⟨x % y, by rw [mod, defined]; rfl, Int64.toInt_mod x y⟩

end CheckedInt
