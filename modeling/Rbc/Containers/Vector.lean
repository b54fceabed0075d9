import Rbc.Basis.Heap
import Rbc.Basis.Machine

namespace Rbc

/-- `rbc_vector_T`. The pointer `data` is NULL or a block of the heap. -/
structure Vector where
  data : Option Nat
  size : Nat
  cap : Nat
  deriving DecidableEq, Repr

namespace Vector

variable {α : Type}

def new : Vector := ⟨none, 0, 0⟩

section Creation

variable [Zero α]

/-- `calloc` gives elements with the value 0. -/
def withSize (size : Nat) (h : Heap (List α)) : Vector × Heap (List α) :=
  if size ≠ 0 then (⟨some h.next, size, size⟩, h.alloc (List.replicate size 0)) else (⟨none, size, size⟩, h)

/-- What the functions below have in common: a vector of a size whose elements are
assigned in a loop. -/
def filled (size : Nat) (value : Heap (List α) → Nat → Option α) (h : Heap (List α)) :
    Option (Vector × Heap (List α)) := do
  let (self, h) := withSize size h
  let h ← h.fill self.data value size 0
  return (self, h)

def withSizeAndValue (size : Nat) (value : α) : Heap (List α) → Option (Vector × Heap (List α)) :=
  filled size fun _ _ => some value

/-- `from`, where `begin` and `end` point to the elements `first` and `last` of an array. -/
def from_ (array : List α) (first last : Nat) (h : Heap (List α)) : Option (Vector × Heap (List α)) :=
  let sz : Int := last - first
  if sz < 0 then some (new, h) else filled sz.toNat (fun _ idx => array[first + idx]?) h

/-- `from_list`, with the arguments after the first one. -/
def fromList (size : Nat) (args : List α) : Heap (List α) → Option (Vector × Heap (List α)) :=
  filled size fun _ idx => args[idx]?

def copy (rhs : Vector) : Heap (List α) → Option (Vector × Heap (List α)) :=
  filled rhs.size fun h idx => h.load rhs.data idx

end Creation

/-- The result of `move` and what it leaves in `*rhs`. -/
def move (rhs : Vector) : Vector × Vector := (rhs, ⟨none, 0, 0⟩)

def delete (self : Vector) (h : Heap (List α)) : Option (Vector × Heap (List α)) := do
  let h ← h.release self.data
  return ({ self with data := none, size := 0 }, h)

def clear (self : Vector) (h : Heap (List α)) : Option (Vector × Heap (List α)) := do
  let h ← h.release self.data
  return ({ self with data := none, size := 0 }, h)

/-- A position out of range fails an assertion, which ends the program. -/
def at_ (self : Vector) (pos : Nat) (h : Heap (List α)) : Option α :=
  if pos < self.size then h.load self.data pos else none

/-- Assigns through the pointer that `at_ref` returns. -/
def assignAtRef (self : Vector) (pos : Nat) (value : α) (h : Heap (List α)) : Option (Heap (List α)) :=
  if pos < self.size then h.store self.data pos value else none

/-- `RBC_SWAP` of one member of the vectors `lhs` and `rhs`, which may be one variable. -/
def swapMember {τ φ : Type} [DecidableEq τ] (get : Vector → φ) (set : φ → Vector → Vector) (lhs rhs : τ)
    (vars : τ → Option Vector) : Option (τ → Option Vector) := do
  let t := get (← vars lhs)
  let x := get (← vars rhs)
  let vars := Function.update vars lhs ((vars lhs).map (set x))
  return Function.update vars rhs ((vars rhs).map (set t))

def swap {τ : Type} [DecidableEq τ] (lhs rhs : τ) (vars : τ → Option Vector) : Option (τ → Option Vector) := do
  let vars ← swapMember data (fun x v => { v with data := x }) lhs rhs vars
  let vars ← swapMember size (fun x v => { v with size := x }) lhs rhs vars
  swapMember cap (fun x v => { v with cap := x }) lhs rhs vars

end Vector

/-- A program that uses vectors. A variable has no value before one is stored in it. -/
structure Program (τ α : Type) where
  vars : τ → Option Vector
  heap : Heap (List α)

/-- The calls that return a new vector. -/
inductive Creation (τ α : Type)
  | new
  | withSize (size : Nat)
  | withSizeAndValue (size : Nat) (value : α)
  | from_ (array : List α) (first last : Nat)
  | fromList (size : Nat) (args : List α)
  | copy (rhs : τ)

inductive Operation (τ α : Type)
  | create (result : τ) (c : Creation τ α)
  | move (result rhs : τ)
  | swap (lhs rhs : τ)
  | clear (self : τ)
  | delete (self : τ)
  | at_ (self : τ) (pos : Nat)
  | assignAtRef (self : τ) (pos : Nat) (value : α)

namespace Program

variable {τ α : Type}

def start : Program τ α := ⟨fun _ => none, Heap.empty⟩

variable [DecidableEq τ] [Zero α]

def create (c : Creation τ α) (s : Program τ α) : Option (Vector × Heap (List α)) :=
  match c with
  | .new => some (Vector.new, s.heap)
  | .withSize size => some (Vector.withSize size s.heap)
  | .withSizeAndValue size value => Vector.withSizeAndValue size value s.heap
  | .from_ array first last => Vector.from_ array first last s.heap
  | .fromList size args => Vector.fromList size args s.heap
  | .copy rhs => do (← s.vars rhs).copy s.heap

/-- One operation and the element that it reads. Use of memory that is not allocated, of
a variable without a value or of a position out of range is a fault. -/
def step : Operation τ α → Program τ α → Option (Program τ α × Option α)
  | .create result c, s => do
    let (v, heap) ← s.create c
    return (⟨Function.update s.vars result (some v), heap⟩, none)
  | .move result rhs, s => do
    let (v, rest) := (← s.vars rhs).move
    let vars := Function.update s.vars rhs (some rest)
    return ({ s with vars := Function.update vars result (some v) }, none)
  | .swap lhs rhs, s => do
    let vars ← Vector.swap lhs rhs s.vars
    return ({ s with vars := vars }, none)
  | .clear self, s => do
    let (v, heap) ← (← s.vars self).clear s.heap
    return (⟨Function.update s.vars self (some v), heap⟩, none)
  | .delete self, s => do
    let (v, heap) ← (← s.vars self).delete s.heap
    return (⟨Function.update s.vars self (some v), heap⟩, none)
  | .at_ self pos, s => do
    let x ← (← s.vars self).at_ pos s.heap
    return (s, some x)
  | .assignAtRef self pos value, s => do
    let heap ← (← s.vars self).assignAtRef pos value s.heap
    return ({ s with heap := heap }, none)

end Program

end Rbc
