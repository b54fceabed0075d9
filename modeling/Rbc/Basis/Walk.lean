import Mathlib.Algebra.BigOperators.Group.List.Basic
import Rbc.Basis.Saturation

namespace Saturation

variable {lo hi x : ℤ}

/-- One step further; an infinity is never left. -/
def step (lo hi : ℤ) : ExtInt → ExtInt → ExtInt
  | ⊥, _ => ⊥
  | some ⊤, _ => ⊤
  | some (some x), e => addFin lo hi x e

def walk (lo hi : ℤ) (start : ExtInt) (steps : List ExtInt) : ExtInt := steps.foldl (step lo hi) start

/-- No sum of the first steps leaves the range. -/
def Stays (lo hi : ℤ) : ℤ → List ℤ → Prop
  | x, [] => lo ≤ x ∧ x ≤ hi
  | x, z :: zs => (lo ≤ x ∧ x ≤ hi) ∧ Stays lo hi (x + z) zs

instance decidableStays (lo hi : ℤ) : (x : ℤ) → (zs : List ℤ) → Decidable (Stays lo hi x zs)
  | _, [] => inferInstanceAs (Decidable (_ ∧ _))
  | x, z :: zs =>
    have := decidableStays lo hi (x + z) zs
    inferInstanceAs (Decidable (_ ∧ Stays lo hi (x + z) zs))

theorem Stays.here {zs : List ℤ} (stays : Stays lo hi x zs) : lo ≤ x ∧ x ≤ hi := by
  cases zs with
  | nil => exact stays
  | cons z zs => exact stays.1

theorem stays_append {zs ws : List ℤ} :
    Stays lo hi x (zs ++ ws) ↔ Stays lo hi x zs ∧ Stays lo hi (x + zs.sum) ws := by
  induction zs generalizing x with
  | nil =>
    rw [List.nil_append, List.sum_nil, add_zero]
    exact ⟨fun stays => ⟨stays.here, stays⟩, And.right⟩
  | cons z zs ih => simp only [List.cons_append, Stays, ih, List.sum_cons, and_assoc, add_assoc]

theorem sum_back (zs : List ℤ) : (zs.reverse.map (-·)).sum = -zs.sum := by
  rw [List.sum_neg_reverse, List.map_reverse]

/-- The way back is in the range as well. -/
theorem Stays.back {zs : List ℤ} (stays : Stays lo hi x zs) :
    Stays lo hi (x + zs.sum) (zs.reverse.map (-·)) := by
  induction zs generalizing x with
  | nil =>
    rw [List.sum_nil, add_zero]
    exact stays
  | cons z zs ih =>
    obtain ⟨here, later⟩ := stays
    rw [List.reverse_cons, List.map_append, stays_append, List.sum_cons, ← add_assoc, sum_back,
      Int.add_neg_cancel_right]
    exact ⟨ih later, later.here, by rw [Stays.eq_def, Int.add_neg_cancel_right]; exact here⟩

theorem walk_top (es : List ExtInt) : walk lo hi ⊤ es = ⊤ := by
  induction es with
  | nil => rfl
  | cons e es ih => exact ih

theorem walk_bot (es : List ExtInt) : walk lo hi ⊥ es = ⊥ := by
  induction es with
  | nil => rfl
  | cons e es ih => exact ih

theorem walk_of_infinite {start : ExtInt} (infinite : start = ⊥ ∨ start = ⊤) (es : List ExtInt) :
    walk lo hi start es = start := by
  rcases infinite with rfl | rfl
  · exact walk_bot es
  · exact walk_top es

theorem step_of_infinite {e : ExtInt} (infinite : e = ⊥ ∨ e = ⊤) (start : ExtInt) :
    step lo hi start e = ⊥ ∨ step lo hi start e = ⊤ := by
  rcases cases start with rfl | rfl | ⟨x, rfl⟩
  · exact Or.inl rfl
  · exact Or.inr rfl
  · rcases infinite with rfl | rfl
    · exact Or.inl rfl
    · exact Or.inr rfl

/-- An infinite step is the last one that matters. -/
theorem walk_lost {es : List ExtInt} {e : ExtInt} (taken : e ∈ es) (infinite : e = ⊥ ∨ e = ⊤) (start : ExtInt) :
    walk lo hi start es = ⊥ ∨ walk lo hi start es = ⊤ := by
  induction es generalizing start with
  | nil => exact absurd taken List.not_mem_nil
  | cons f es ih =>
    rcases List.mem_cons.mp taken with rfl | later
    · have lost : step lo hi start e = ⊥ ∨ step lo hi start e = ⊤ := step_of_infinite infinite start
      have same : walk lo hi start (e :: es) = step lo hi start e := walk_of_infinite lost es
      rwa [same]
    · exact ih later (step lo hi start f)

/-- A walk in finite steps comes to a finite number only if it never left the
range, and that number is the sum. -/
theorem walk_fin (here : lo ≤ x ∧ x ≤ hi) (zs : List ℤ) :
    Stays lo hi x zs ∧ walk lo hi (fin x) (zs.map fin) = fin (x + zs.sum) ∨
      ¬Stays lo hi x zs ∧ (walk lo hi (fin x) (zs.map fin) = ⊥ ∨ walk lo hi (fin x) (zs.map fin) = ⊤) := by
  induction zs generalizing x with
  | nil => exact Or.inl ⟨here, by rw [List.sum_nil, add_zero]; rfl⟩
  | cons z zs ih =>
    have first : walk lo hi (fin x) ((z :: zs).map fin) = walk lo hi (clamp lo hi (x + z)) (zs.map fin) := rfl
    rw [first, Stays, List.sum_cons, ← add_assoc]
    by_cases under : x + z < lo
    · refine Or.inr ⟨fun stays => ?_, Or.inl ?_⟩
      · have := stays.2.here
        omega
      · rw [clamp, if_pos under, walk_bot]
    by_cases beyond : hi < x + z
    · refine Or.inr ⟨fun stays => ?_, Or.inr ?_⟩
      · have := stays.2.here
        omega
      · rw [clamp, if_neg under, if_pos beyond, walk_top]
    rw [clamp_of_mem (by omega) (by omega)]
    simpa only [here, and_self, true_and] using ih (x := x + z) (by omega)

end Saturation
