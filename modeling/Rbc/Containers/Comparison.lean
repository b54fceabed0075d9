import Mathlib.Data.List.Lex
import Mathlib.Order.Lattice
import Rbc.Containers.ValueSemantics

namespace Rbc.Vector

variable {α : Type}

section Loops

variable (lhs rhs : Vector) (h : Heap (List α))

/-- `for (usize idx = 0; idx < lhs->size; ++idx)`, where the first number is
`lhs->size - idx` and `differ` compares two elements. -/
def eqLoop (differ : α → α → Bool) : Nat → Nat → Option Bool
  | 0, _ => some true
  | remaining + 1, idx => do
    let x ← h.load lhs.data idx
    let y ← h.load rhs.data idx
    if differ x y then some false else eqLoop differ remaining (idx + 1)

/-- The common body of `eq` and `eq_cmp`. -/
def eqBy (differ : α → α → Bool) : Option Bool :=
  if lhs.size ≠ rhs.size then some false else eqLoop lhs rhs h differ lhs.size 0

/-- `for (; (lhs_first != lhs_last) && (rhs_first != rhs_last); ++lhs_first, ++rhs_first)`
and the test after it. The numbers are `lhs_last - lhs_first`, `rhs_last - rhs_first`
and the distance of both pointers from the beginning. -/
def ltLoop (less : α → α → Bool) : Nat → Nat → Nat → Option Bool
  | m + 1, n + 1, first => do
    let x ← h.load lhs.data first
    let y ← h.load rhs.data first
    if less x y then some true
    else if less y x then some false
    else ltLoop less m n (first + 1)
  | m, n, _ => some (m == 0 && n != 0)

/-- The common body of `lt` and `lt_cmp`. -/
def ltBy (less : α → α → Bool) : Option Bool := ltLoop lhs rhs h less lhs.size rhs.size 0

end Loops

/-- `*_cmp_fn`. -/
abbrev CmpFn (α : Type) := α → α → Int32

section WithCmp

variable (lhs rhs : Vector) (cmp : CmpFn α) (h : Heap (List α))

def eqCmp : Option Bool := eqBy lhs rhs h fun x y => cmp x y != 0

def neCmp : Option Bool := (lhs.eqCmp rhs cmp h).map not

def ltCmp : Option Bool := ltBy lhs rhs h fun x y => cmp x y < 0

def gtCmp : Option Bool := rhs.ltCmp lhs cmp h

def leCmp : Option Bool := (rhs.ltCmp lhs cmp h).map not

def geCmp : Option Bool := (lhs.ltCmp rhs cmp h).map not

end WithCmp

/-- The elements of a vector, all of which can be read. -/
structure Elements (v : Vector) (h : Heap (List α)) (l : List α) : Prop where
  size : v.size = l.length
  held : h.Holds v.data 0 l

variable [LinearOrder α]

/-- The result of `cmp` is negative, zero or positive according to the order. -/
structure Follows (cmp : CmpFn α) : Prop where
  negative : ∀ x y, cmp x y < 0 ↔ x < y
  zero : ∀ x y, cmp x y = 0 ↔ x = y
  positive : ∀ x y, 0 < cmp x y ↔ y < x

section WithOperators

variable (lhs rhs : Vector) (h : Heap (List α))

def eq : Option Bool := eqBy lhs rhs h fun x y => x != y

def ne : Option Bool := (lhs.eq rhs h).map not

def lt : Option Bool := ltBy lhs rhs h fun x y => x < y

def gt : Option Bool := rhs.lt lhs h

def le : Option Bool := (rhs.lt lhs h).map not

def ge : Option Bool := (lhs.lt rhs h).map not

end WithOperators

variable {lhs rhs : Vector} {h : Heap (List α)} {xs ys : List α}

theorem eqLoop_eq {differ : α → α → Bool} (follows : ∀ x y, differ x y = true ↔ x ≠ y) {idx : Nat}
    (same : xs.length = ys.length) (left : h.Holds lhs.data idx xs) (right : h.Holds rhs.data idx ys) :
    eqLoop lhs rhs h differ xs.length idx = some (decide (xs = ys)) := by
  induction xs generalizing ys idx with
  | nil =>
    obtain rfl := List.length_eq_zero_iff.mp same.symm
    rfl
  | cons x xs ih =>
    cases ys with
    | nil => cases same
    | cons y ys =>
      have rest := ih (Nat.succ.inj same) left.2 right.2
      rw [List.length_cons, eqLoop, left.1, right.1]
      show (if differ x y then some false else eqLoop lhs rhs h differ xs.length (idx + 1)) = _
      by_cases differs : x = y
      · rw [if_neg (by simp [follows, differs]), rest]
        simp [differs]
      · rw [if_pos ((follows x y).mpr differs)]
        simp [differs]

/-- Vectors are equal if their elements are. -/
theorem eqBy_eq {differ : α → α → Bool} (follows : ∀ x y, differ x y = true ↔ x ≠ y) (left : lhs.Elements h xs)
    (right : rhs.Elements h ys) : eqBy lhs rhs h differ = some (decide (xs = ys)) := by
  rw [eqBy, left.size, right.size]
  by_cases same : xs.length = ys.length
  · rw [if_neg (not_not.mpr same), eqLoop_eq follows same left.held right.held]
  · have different : xs ≠ ys := fun equal => same (congrArg List.length equal)
    rw [if_pos same, decide_eq_false different]

/-- The loop compares what is left of both vectors lexicographically. -/
theorem ltLoop_eq {less : α → α → Bool} (follows : ∀ x y, less x y = true ↔ x < y) {first : Nat}
    (left : h.Holds lhs.data first xs) (right : h.Holds rhs.data first ys) :
    ltLoop lhs rhs h less xs.length ys.length first = some (decide (xs < ys)) := by
  induction xs generalizing ys first with
  | nil =>
    cases ys with
    | nil => rfl
    | cons y ys => rfl
  | cons x xs ih =>
    cases ys with
    | nil => rfl
    | cons y ys =>
      have rest := ih left.2 right.2
      rw [List.length_cons, List.length_cons, ltLoop, left.1, right.1]
      show (if less x y then some true else if less y x then some false
        else ltLoop lhs rhs h less xs.length ys.length (first + 1)) = _
      rcases lt_trichotomy x y with below | rfl | above
      · have smaller : x :: xs < y :: ys := List.cons_lt_cons_iff.mpr (Or.inl below)
        rw [if_pos ((follows x y).mpr below), decide_eq_true smaller]
      · have equal : ¬less x x = true := (follows x x).not.mpr (lt_irrefl x)
        rw [if_neg equal, if_neg equal, rest]
        simp
      · rw [if_neg ((follows x y).not.mpr above.asymm), if_pos ((follows y x).mpr above)]
        have larger : ¬x :: xs < y :: ys := by
          rw [List.cons_lt_cons_iff]
          rintro (below | ⟨rfl, _⟩)
          · exact above.asymm below
          · exact lt_irrefl _ above
        rw [decide_eq_false larger]

theorem ltBy_eq {less : α → α → Bool} (follows : ∀ x y, less x y = true ↔ x < y) (left : lhs.Elements h xs)
    (right : rhs.Elements h ys) : ltBy lhs rhs h less = some (decide (xs < ys)) := by
  rw [ltBy, left.size, right.size, ltLoop_eq follows left.held right.held]

theorem lt_eq (left : lhs.Elements h xs) (right : rhs.Elements h ys) : lhs.lt rhs h = some (decide (xs < ys)) :=
  ltBy_eq (fun _ _ => decide_eq_true_iff) left right

theorem eq_eq (left : lhs.Elements h xs) (right : rhs.Elements h ys) : lhs.eq rhs h = some (decide (xs = ys)) :=
  eqBy_eq (fun _ _ => bne_iff_ne) left right

namespace Follows

variable {cmp : CmpFn α}

theorem eqCmp (follows : Follows cmp) (lhs rhs : Vector) (h : Heap (List α)) : lhs.eqCmp rhs cmp h = lhs.eq rhs h := by
  have differ : (fun x y => cmp x y != 0) = fun x y => x != y := by
    funext x y
    rw [Bool.eq_iff_iff, bne_iff_ne, bne_iff_ne, ne_eq, follows.zero]
  rw [Vector.eqCmp, differ, Vector.eq]

theorem ltCmp (follows : Follows cmp) (lhs rhs : Vector) (h : Heap (List α)) : lhs.ltCmp rhs cmp h = lhs.lt rhs h := by
  have less : (fun x y => decide (cmp x y < 0)) = fun x y => decide (x < y) := by
    funext x y
    rw [Bool.eq_iff_iff, decide_eq_true_iff, decide_eq_true_iff, follows.negative]
  rw [Vector.ltCmp, less, Vector.lt]

end Follows

/-- Exactly one of three results is true. -/
def OneOf (a b c : Option Bool) : Prop :=
  a = some true ∧ b = some false ∧ c = some false ∨ a = some false ∧ b = some true ∧ c = some false ∨
    a = some false ∧ b = some false ∧ c = some true

theorem oneOf_lt_eq_gt (left : lhs.Elements h xs) (right : rhs.Elements h ys) :
    OneOf (lhs.lt rhs h) (lhs.eq rhs h) (lhs.gt rhs h) := by
  rw [gt, lt_eq left right, lt_eq right left, eq_eq left right]
  rcases lt_trichotomy xs ys with below | same | above
  · exact Or.inl ⟨by rw [decide_eq_true below], by rw [decide_eq_false below.ne], by rw [decide_eq_false below.asymm]⟩
  · refine Or.inr (Or.inl ⟨?_, by rw [decide_eq_true same], ?_⟩)
    · rw [decide_eq_false same.not_lt]
    · rw [decide_eq_false same.symm.not_lt]
  · exact Or.inr (Or.inr
      ⟨by rw [decide_eq_false above.asymm], by rw [decide_eq_false above.ne'], by rw [decide_eq_true above]⟩)

/-- Both implementations compare vectors by one total order, the lexicographic one of
their elements. -/
theorem comparison_is_lexicographic {cmp : CmpFn α} (follows : Follows cmp) (h : Heap (List α)) {a b c : Vector}
    {xs ys zs : List α} (ha : a.Elements h xs) (hb : b.Elements h ys) (hc : c.Elements h zs) :
    (a.ltCmp b cmp h = a.lt b h ∧ a.eqCmp b cmp h = a.eq b h ∧ a.neCmp b cmp h = a.ne b h ∧
      a.gtCmp b cmp h = a.gt b h ∧ a.leCmp b cmp h = a.le b h ∧ a.geCmp b cmp h = a.ge b h) ∧
    a.lt b h = some (decide (xs < ys)) ∧
    OneOf (a.lt b h) (a.eq b h) (a.gt b h) ∧
    (a.lt b h = some true → b.lt c h = some true → a.lt c h = some true) ∧
    a.le b h = (a.gt b h).map not ∧ a.ge b h = (a.lt b h).map not := by
  refine ⟨⟨follows.ltCmp a b h, follows.eqCmp a b h, ?_, follows.ltCmp b a h, ?_, ?_⟩, lt_eq ha hb,
    oneOf_lt_eq_gt ha hb, ?_, rfl, rfl⟩
  · rw [neCmp, follows.eqCmp, ne]
  · rw [leCmp, follows.ltCmp, le]
  · rw [geCmp, follows.ltCmp, ge]
  · rw [lt_eq ha hb, lt_eq hb hc, lt_eq ha hc]
    intro first second
    have first := of_decide_eq_true (Option.some.inj first)
    have second := of_decide_eq_true (Option.some.inj second)
    rw [decide_eq_true (first.trans second)]

/-- A vector, a longer one that begins with it, and an empty one without a block. -/
theorem comparison_is_lexicographic_for_prefix :
    let cmp : CmpFn Nat := fun x y => if x < y then -1 else if x = y then 0 else 1
    let h := (Heap.empty.alloc [3, 1]).alloc [3, 1, 2]
    Follows cmp ∧ (Vector.mk none 0 0).lt ⟨some 0, 2, 2⟩ h = some true ∧
      (Vector.mk (some 0) 2 2).lt ⟨some 1, 3, 3⟩ h = some true ∧ (Vector.mk none 0 0).lt ⟨some 1, 3, 3⟩ h = some true := by
  intro cmp h
  have follows : Follows cmp := by
    refine ⟨?_, ?_, ?_⟩
    · intro x y
      by_cases below : x < y
      · simp [cmp, below]
      · by_cases same : x = y <;> simp [cmp, below, same]
    · intro x y
      by_cases below : x < y
      · simp [cmp, below, below.ne]
      · by_cases same : x = y <;> simp [cmp, below, same]
    · intro x y
      by_cases below : x < y
      · simp [cmp, below, below.asymm]
      · by_cases same : x = y
        · simp [cmp, same]
        · simpa [cmp, below, same] using lt_of_le_of_ne (not_lt.mp below) (Ne.symm same)
  have short : (Vector.mk (some 0) 2 2).Elements h [3, 1] := ⟨rfl, rfl, rfl, trivial⟩
  have long : (Vector.mk (some 1) 3 3).Elements h [3, 1, 2] := ⟨rfl, rfl, rfl, rfl, trivial⟩
  have empty : (Vector.mk none 0 0).Elements h [] := ⟨rfl, trivial⟩
  have first : (Vector.mk none 0 0).lt ⟨some 0, 2, 2⟩ h = some true := lt_eq empty short
  have second : (Vector.mk (some 0) 2 2).lt ⟨some 1, 3, 3⟩ h = some true := lt_eq short long
  obtain ⟨_, _, _, transitive, _⟩ := comparison_is_lexicographic follows h empty short long
  exact ⟨follows, first, second, transitive first second⟩

end Rbc.Vector
