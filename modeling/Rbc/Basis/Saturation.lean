import Mathlib.Order.WithBot
import Mathlib.Order.Monotone.Basic
import Mathlib.Algebra.Order.Ring.Int
import Mathlib.Data.Int.ConditionallyCompleteOrder
import Mathlib.Order.ConditionallyCompleteLattice.Basic

/-- The integers with two infinities. -/
abbrev ExtInt := WithBot (WithTop ℤ)

namespace Saturation

def fin (z : ℤ) : ExtInt := ((z : WithTop ℤ) : WithBot (WithTop ℤ))

@[simp] theorem fin_le_fin {x y : ℤ} : fin x ≤ fin y ↔ x ≤ y := by
  simp [fin, WithBot.coe_le_coe, WithTop.coe_le_coe]

@[simp] theorem fin_lt_fin {x y : ℤ} : fin x < fin y ↔ x < y := by
  simp [fin, WithBot.coe_lt_coe, WithTop.coe_lt_coe]

@[simp] theorem fin_inj {x y : ℤ} : fin x = fin y ↔ x = y := by
  simp [fin, WithBot.coe_inj, WithTop.coe_inj]

@[simp] theorem bot_lt_fin (x : ℤ) : ⊥ < fin x := WithBot.bot_lt_coe _

@[simp] theorem fin_lt_top (x : ℤ) : fin x < ⊤ := WithBot.coe_lt_coe.mpr (WithTop.coe_lt_top x)

@[simp] theorem fin_ne_bot (x : ℤ) : fin x ≠ ⊥ := (bot_lt_fin x).ne'

@[simp] theorem fin_ne_top (x : ℤ) : fin x ≠ ⊤ := (fin_lt_top x).ne

theorem cases (e : ExtInt) : e = ⊥ ∨ e = ⊤ ∨ ∃ z, e = fin z := by
  induction e using WithBot.recBotCoe with
  | bot => exact Or.inl rfl
  | coe e =>
    induction e using WithTop.recTopCoe with
    | top => exact Or.inr (Or.inl rfl)
    | coe z => exact Or.inr (Or.inr ⟨z, rfl⟩)

variable {lo hi : ℤ}

/-- An integer as a format sees it that holds `lo` to `hi` and two infinities. -/
def clamp (lo hi z : ℤ) : ExtInt :=
  if z < lo then ⊥ else if hi < z then ⊤ else fin z

theorem clamp_of_mem {z : ℤ} (lower : lo ≤ z) (upper : z ≤ hi) : clamp lo hi z = fin z := by
  rw [clamp, if_neg (by omega), if_neg (by omega)]

theorem eq_of_clamp_eq_fin {z y : ℤ} (exact : clamp lo hi z = fin y) : z = y := by
  unfold clamp at exact
  split at exact
  · exact absurd exact.symm (fin_ne_bot y)
  split at exact
  · exact absurd exact.symm (fin_ne_top y)
  · exact fin_inj.mp exact

theorem clamp_monotone : Monotone (clamp lo hi) := by
  intro x y below
  unfold clamp
  by_cases under : x < lo
  · rw [if_pos under]
    exact bot_le
  rw [if_neg under, if_neg (show ¬y < lo by omega)]
  by_cases beyond : hi < x
  · rw [if_pos beyond, if_pos (by omega)]
  rw [if_neg beyond]
  split
  · exact le_top
  · exact fin_le_fin.mpr below

/-- Addition of a finite number that saturates at the infinities. -/
def addFin (lo hi x : ℤ) : ExtInt → ExtInt
  | ⊥ => ⊥
  | some ⊤ => ⊤
  | some (some z) => clamp lo hi (x + z)

@[simp] theorem addFin_bot (x : ℤ) : addFin lo hi x ⊥ = ⊥ := rfl

@[simp] theorem addFin_top (x : ℤ) : addFin lo hi x ⊤ = ⊤ := rfl

@[simp] theorem addFin_fin (x z : ℤ) : addFin lo hi x (fin z) = clamp lo hi (x + z) := rfl

theorem addFin_monotone (x : ℤ) : Monotone (addFin lo hi x) := by
  intro d e below
  rcases cases d with rfl | rfl | ⟨y, rfl⟩
  · exact bot_le
  · rw [top_le_iff.mp below]
  · rcases cases e with rfl | rfl | ⟨z, rfl⟩
    · exact absurd (le_bot_iff.mp below) (fin_ne_bot y)
    · exact le_top
    · exact clamp_monotone (by have := fin_le_fin.mp below; omega)

/-- Back to the integers from `lo` to `hi`, through `f`. -/
def narrow (lo hi : ℤ) (f : ℤ → ℤ) : ExtInt → ℤ
  | ⊥ => lo
  | some ⊤ => hi
  | some (some z) => max lo (min hi (f z))

@[simp] theorem narrow_bot (f : ℤ → ℤ) : narrow lo hi f ⊥ = lo := rfl

@[simp] theorem narrow_top (f : ℤ → ℤ) : narrow lo hi f ⊤ = hi := rfl

@[simp] theorem narrow_fin (f : ℤ → ℤ) (z : ℤ) : narrow lo hi f (fin z) = max lo (min hi (f z)) := rfl

theorem narrow_monotone {f : ℤ → ℤ} (range : lo ≤ hi) (mono : Monotone f) : Monotone (narrow lo hi f) := by
  intro d e below
  rcases cases d with rfl | rfl | ⟨y, rfl⟩
  · rcases cases e with rfl | rfl | ⟨z, rfl⟩
    · exact le_rfl
    · exact range
    · exact le_max_left lo _
  · rw [top_le_iff.mp below]
  · rcases cases e with rfl | rfl | ⟨z, rfl⟩
    · exact absurd (le_bot_iff.mp below) (fin_ne_bot y)
    · exact max_le range (min_le_left hi _)
    · exact max_le_max le_rfl (min_le_min le_rfl (mono (fin_le_fin.mp below)))

def negate : ExtInt → ExtInt
  | ⊥ => ⊤
  | some ⊤ => ⊥
  | some (some z) => fin (-z)

@[simp] theorem negate_bot : negate ⊥ = ⊤ := rfl

@[simp] theorem negate_top : negate ⊤ = ⊥ := rfl

@[simp] theorem negate_fin (z : ℤ) : negate (fin z) = fin (-z) := rfl

theorem negate_lt_negate_iff {d e : ExtInt} : negate e < negate d ↔ d < e := by
  rcases cases d with rfl | rfl | ⟨y, rfl⟩ <;> rcases cases e with rfl | rfl | ⟨z, rfl⟩ <;> simp

end Saturation
