import Rbc.Containers.Ownership

namespace Rbc

variable {τ α : Type}

/-- The capacity is the number of elements of the block, and only NULL has none. -/
def Vector.RepOk (v : Vector) (h : Heap (List α)) : Prop :=
  v.size ≤ v.cap ∧ (∃ block, v.contents h = some block ∧ v.cap = block.length) ∧ (v.cap = 0 ↔ v.data = none)

namespace Program

def RepOk (s : Program τ α) : Prop := ∀ x v, s.vars x = some v → v.RepOk s.heap

/-- The operation takes the block away from a vector that has one. -/
def DropsBlock : Operation τ α → Program τ α → Prop
  | .clear self, s | .delete self, s => ∃ v, s.vars self = some v ∧ v.data ≠ none
  | _, _ => False

def Fits (_ : τ) (v : Vector) (l : List α) : Prop :=
  v.size ≤ v.cap ∧ v.cap = l.length ∧ (v.cap = 0 ↔ v.data = none)

theorem Owned.repOk {s : Program τ α} (owned : Owned Fits s) : s.RepOk := by
  intro x v value
  obtain ⟨l, held, inside, length, null⟩ := owned.holds x v value
  exact ⟨inside, ⟨l, held, length⟩, null⟩

theorem fits_ofList (x : τ) (l : List α) (h : Heap (List α)) : Fits x (Vector.ofList l h).1 l := by
  cases l <;> simp [Fits, Vector.ofList, Vector.new]

variable [DecidableEq τ]

theorem Owned.clear_fits {s : Program τ α} (owned : Owned Fits s) {x : τ} {v : Vector} (value : s.vars x = some v)
    (kept : ¬∃ v, s.vars x = some v ∧ v.data ≠ none) {r : Vector × Heap (List α)}
    (freed : v.clear s.heap = some r) : Owned Fits ⟨Function.update s.vars x (some r.1), r.2⟩ := by
  have null : v.data = none := by
    by_contra block
    exact kept ⟨v, value, block⟩
  obtain ⟨heap, freed', -, next⟩ := owned.clear value
  obtain rfl : ({ v with data := none, size := 0 }, heap) = r := Option.some.inj (freed'.symm.trans freed)
  obtain ⟨l, -, -, -, empty⟩ := owned.holds x v value
  exact next Fits (by simp [Fits, empty.mpr null]) fun _ _ _ _ fits => fits

variable [Zero α]

/-- What an operation can do to the variables and the heap. -/
inductive Stepped (s : Program τ α) : Operation τ α → Program τ α → Prop
  | create {result : τ} {c : Creation τ α} {r : Vector × Heap (List α)} (made : s.create c = some r) :
    Stepped s (.create result c) ⟨Function.update s.vars result (some r.1), r.2⟩
  | move {result rhs : τ} {v : Vector} (value : s.vars rhs = some v) :
    Stepped s (.move result rhs)
      ⟨Function.update (Function.update s.vars rhs (some ⟨none, 0, 0⟩)) result (some v), s.heap⟩
  | swap {lhs rhs : τ} {vars : τ → Option Vector} (swapped : Vector.swap lhs rhs s.vars = some vars) :
    Stepped s (.swap lhs rhs) ⟨vars, s.heap⟩
  | clear {self : τ} {v : Vector} {r : Vector × Heap (List α)} (value : s.vars self = some v)
    (freed : v.clear s.heap = some r) : Stepped s (.clear self) ⟨Function.update s.vars self (some r.1), r.2⟩
  | delete {self : τ} {v : Vector} {r : Vector × Heap (List α)} (value : s.vars self = some v)
    (freed : v.clear s.heap = some r) : Stepped s (.delete self) ⟨Function.update s.vars self (some r.1), r.2⟩
  | at_ {self : τ} {pos : Nat} : Stepped s (.at_ self pos) s
  | assignAtRef {self : τ} {pos : Nat} {a : α} {v : Vector} {heap : Heap (List α)} (value : s.vars self = some v)
    (stored : v.assignAtRef pos a s.heap = some heap) : Stepped s (.assignAtRef self pos a) ⟨s.vars, heap⟩

theorem stepped_of_step {op : Operation τ α} {s s' : Program τ α} {o : Option α}
    (ran : step op s = some (s', o)) : Stepped s op s' := by
  cases op with
  | create result c =>
    obtain ⟨r, made, same⟩ := Option.bind_eq_some_iff.mp ran
    obtain ⟨rfl, -⟩ := Prod.mk.inj (Option.some.inj same)
    exact .create made
  | move result rhs =>
    obtain ⟨v, value, same⟩ := Option.bind_eq_some_iff.mp ran
    obtain ⟨rfl, -⟩ := Prod.mk.inj (Option.some.inj same)
    exact .move value
  | swap lhs rhs =>
    obtain ⟨vars, swapped, same⟩ := Option.bind_eq_some_iff.mp ran
    obtain ⟨rfl, -⟩ := Prod.mk.inj (Option.some.inj same)
    exact .swap swapped
  | clear self =>
    obtain ⟨v, value, rest⟩ := Option.bind_eq_some_iff.mp ran
    obtain ⟨r, freed, same⟩ := Option.bind_eq_some_iff.mp rest
    obtain ⟨rfl, -⟩ := Prod.mk.inj (Option.some.inj same)
    exact .clear value freed
  | delete self =>
    obtain ⟨v, value, rest⟩ := Option.bind_eq_some_iff.mp ran
    obtain ⟨r, freed, same⟩ := Option.bind_eq_some_iff.mp rest
    obtain ⟨rfl, -⟩ := Prod.mk.inj (Option.some.inj same)
    exact .delete value freed
  | at_ self pos =>
    obtain ⟨v, -, rest⟩ := Option.bind_eq_some_iff.mp ran
    obtain ⟨x, -, same⟩ := Option.bind_eq_some_iff.mp rest
    obtain ⟨rfl, -⟩ := Prod.mk.inj (Option.some.inj same)
    exact .at_
  | assignAtRef self pos a =>
    obtain ⟨v, value, rest⟩ := Option.bind_eq_some_iff.mp ran
    obtain ⟨heap, stored, same⟩ := Option.bind_eq_some_iff.mp rest
    obtain ⟨rfl, -⟩ := Prod.mk.inj (Option.some.inj same)
    exact .assignAtRef value stored

theorem Owned.step_fits {op : Operation τ α} {s s' : Program τ α} {o : Option α} (owned : Owned Fits s)
    (kept : ¬DropsBlock op s) (ran : step op s = some (s', o)) : Owned Fits s' := by
  cases stepped_of_step ran with
  | create made =>
    obtain ⟨size, f, -, l, -, -, rfl⟩ := (create_eq_some owned.readable).mp made
    exact owned.create l (fits_ofList _ l s.heap) fun _ _ _ _ fits => fits
  | move value => exact owned.move value (fun _ fits => fits) (fun _ => by simp [Fits]) fun _ _ _ _ _ fits => fits
  | @swap lhs rhs vars swapped =>
    cases left : s.vars lhs with
    | none => simp [Vector.swap, Vector.swapMember, left] at swapped
    | some l =>
      cases right : s.vars rhs with
      | none => simp [Vector.swap, Vector.swapMember, left, right] at swapped
      | some r =>
        obtain rfl := Option.some.inj ((Vector.swap_eq left right).symm.trans swapped)
        exact owned.swap lhs rhs fun _ _ _ fits => fits
  | clear value freed | delete value freed => exact owned.clear_fits value kept freed
  | at_ => exact owned
  | @assignAtRef self pos a v heap value stored =>
    obtain ⟨l, held, inside, length, null⟩ := owned.holds self v value
    have bound : pos < v.size := by
      by_contra beyond
      simp [Vector.assignAtRef, beyond] at stored
    obtain ⟨heap', stored', -, next⟩ := owned.assignAtRef value held bound (by omega) a
    obtain rfl := Option.some.inj (stored'.symm.trans stored)
    exact next Fits ⟨inside, by simpa using length, null⟩ fun _ _ _ _ fits => fits

/-- A vector that lost its block still reports the capacity it had. -/
theorem Owned.dropsBlock {op : Operation τ α} {s : Program τ α} (owned : Owned Fits s) (drops : DropsBlock op s) :
    ∃ s' o, step op s = some (s', o) ∧ ¬s'.RepOk := by
  have cleared {x : τ} {v : Vector} (value : s.vars x = some v) (block : v.data ≠ none) :
      ∃ r, v.clear s.heap = some r ∧ ¬RepOk ⟨Function.update s.vars x (some r.1), r.2⟩ := by
    obtain ⟨heap, freed, -, -⟩ := owned.clear value
    obtain ⟨l, -, -, -, empty⟩ := owned.holds x v value
    refine ⟨_, freed, fun repOk => ?_⟩
    obtain ⟨-, -, null⟩ := repOk x _ (Function.update_self ..)
    exact block (empty.mp (null.mpr rfl))
  cases op with
  | clear self | delete self =>
    obtain ⟨v, value, block⟩ := drops
    obtain ⟨r, freed, lost⟩ := cleared value block
    exact ⟨_, none, by simp [step, value, freed, Vector.delete_eq_clear], lost⟩
  | _ => exact drops.elim

/-- The capacity is what the vectors have, in every state of a run, exactly if no
vector with a block is cleared or deleted. -/
theorem always_repOk_iff (operations : List (Operation τ α)) :
    Machine.Always RepOk step operations start ↔
      Machine.Admissible (fun op s => ¬DropsBlock op s) step operations start :=
  Machine.always_iff_admissible (Q := Owned Fits) (fun _ owned => owned.repOk)
    (fun _ _ _ _ owned kept stepped => owned.step_fits kept stepped)
    (fun _ _ owned dropped => owned.dropsBlock (not_not.mp dropped)) operations (owned_start Fits)

/-- A vector with one element is cleared: its capacity is still 1. -/
theorem clear_not_always_repOk :
    ¬Machine.Always RepOk step [.create () (.withSize 1), .clear ()] (start : Program Unit Int) := by
  rintro ⟨-, -, last⟩
  obtain ⟨-, -, null⟩ := last () ⟨none, 0, 1⟩ rfl
  exact absurd (null.mpr rfl) (by decide)

end Program

end Rbc
