import Mathlib.Logic.Function.Basic

/-- Memory as blocks with identities. A block that was freed, or not yet
allocated, has no contents; no identity is given out twice. -/
structure Heap (β : Type) where
  next : Nat
  get? : Nat → Option β
  fresh : ∀ id, next ≤ id → get? id = none

namespace Heap

variable {β : Type}

def empty : Heap β where
  next := 0
  get? _ := none
  fresh _ _ := rfl

/-- Allocation succeeds and gives the next identity. -/
def alloc (h : Heap β) (b : β) : Heap β where
  next := h.next + 1
  get? := Function.update h.get? h.next (some b)
  fresh id new := by
    rw [Function.update_of_ne (by omega)]
    exact h.fresh id (by omega)

def replace (h : Heap β) (id : Nat) (b : Option β) (live : (h.get? id).isSome) : Heap β where
  next := h.next
  get? := Function.update h.get? id b
  fresh j new := by
    have other : j ≠ id := by
      rintro rfl
      simp [h.fresh j new] at live
    rw [Function.update_of_ne other]
    exact h.fresh j new

/-- Writing a block that is not live is a fault. -/
def put (h : Heap β) (id : Nat) (b : β) : Option (Heap β) :=
  if live : (h.get? id).isSome then some (h.replace id (some b) live) else none

/-- Freeing a block that is not live is a fault. -/
def free (h : Heap β) (id : Nat) : Option (Heap β) :=
  if live : (h.get? id).isSome then some (h.replace id none live) else none

/-- `free` of a pointer, which does nothing for NULL. -/
def release (h : Heap β) : Option Nat → Option (Heap β)
  | none => some h
  | some id => h.free id

theorem get?_alloc (h : Heap β) (b : β) : (h.alloc b).get? = Function.update h.get? h.next (some b) := rfl

@[simp]
theorem get?_alloc_next (h : Heap β) (b : β) : (h.alloc b).get? h.next = some b := Function.update_self ..

theorem lt_next {h : Heap β} {id : Nat} {b : β} (live : h.get? id = some b) : id < h.next := by
  by_contra new
  simp [h.fresh id (by omega)] at live

theorem get?_alloc_of_live {h : Heap β} {id : Nat} {a b : β} (live : h.get? id = some a) :
    (h.alloc b).get? id = some a := by
  have old := lt_next live
  rw [get?_alloc, Function.update_of_ne (by omega), live]

theorem put_of_live {h : Heap β} {id : Nat} {a : β} (live : h.get? id = some a) (b : β) :
    ∃ h', h.put id b = some h' ∧ h'.get? = Function.update h.get? id (some b) :=
  ⟨_, dif_pos (by simp [live]), rfl⟩

theorem free_of_live {h : Heap β} {id : Nat} {a : β} (live : h.get? id = some a) :
    ∃ h', h.free id = some h' ∧ h'.get? = Function.update h.get? id none :=
  ⟨_, dif_pos (by simp [live]), rfl⟩

theorem put_alloc (h : Heap β) (a b : β) : (h.alloc a).put h.next b = some (h.alloc b) := by
  simp [put, replace, alloc]

/-- An identity is used up. -/
def skip (h : Heap β) : Heap β where
  next := h.next + 1
  get? := h.get?
  fresh id new := h.fresh id (by omega)

theorem free_alloc (h : Heap β) (b : β) : (h.alloc b).free h.next = some h.skip := by
  have unused : Function.update h.get? h.next none = h.get? := by
    rw [← h.fresh h.next (Nat.le_refl _), Function.update_eq_self]
  simp [free, replace, alloc, skip, unused]

section Arrays

variable {α : Type} {h : Heap (List α)}

theorem mapM_range'_eq_some {f : Nat → Option α} {first n : Nat} {values : List α} :
    (List.range' first n).mapM f = some values ↔
      values.length = n ∧ ∀ i < n, f (first + i) = values[i]? := by
  induction n generalizing first values with
  | zero => simp [eq_comm, List.length_eq_zero_iff]
  | succ n ih =>
    rw [List.range'_succ, List.mapM_cons]
    simp only [Option.bind_eq_bind, Option.bind_eq_some_iff, ih, Option.pure_def, Option.some.injEq]
    constructor
    · rintro ⟨x, read, rest, ⟨length, reads⟩, rfl⟩
      refine ⟨by simp [length], fun i bound => ?_⟩
      cases i with
      | zero => simpa using read
      | succ i => simpa [Nat.add_assoc, Nat.add_comm 1] using reads i (by omega)
    · rintro ⟨length, reads⟩
      obtain ⟨x, rest, rfl⟩ := List.exists_cons_of_length_eq_add_one length
      refine ⟨x, by simpa using reads 0 (by omega), rest, ⟨by simpa using length, fun i bound => ?_⟩, rfl⟩
      simpa [Nat.add_assoc, Nat.add_comm 1] using reads (i + 1) (by omega)

/-- Reads an element of the block behind a pointer. -/
def load (h : Heap (List α)) (p : Option Nat) (i : Nat) : Option α := do
  let id ← p
  let block ← h.get? id
  block[i]?

/-- Writes an element of the block behind a pointer. -/
def store (h : Heap (List α)) (p : Option Nat) (i : Nat) (value : α) : Option (Heap (List α)) := do
  let id ← p
  let block ← h.get? id
  if i < block.length then h.put id (block.set i value) else none

theorem load_of_live {id : Nat} {block : List α} (live : h.get? id = some block) (i : Nat) :
    h.load (some id) i = block[i]? := by
  simp [load, live]

theorem store_of_live {id i : Nat} {block : List α} (live : h.get? id = some block) (inside : i < block.length)
    (value : α) :
    ∃ h', h.store (some id) i value = some h' ∧
      h'.get? = Function.update h.get? id (some (block.set i value)) := by
  obtain ⟨h', stored, same⟩ := put_of_live live (block.set i value)
  exact ⟨h', by simp [store, live, inside, stored], same⟩

/-- From an index on, the block behind a pointer has these elements. -/
def Holds (h : Heap (List α)) (p : Option Nat) : Nat → List α → Prop
  | _, [] => True
  | i, x :: l => h.load p i = some x ∧ Holds h p (i + 1) l

/-- `for (idx = first; idx < first + n; ++idx) p[idx] = value(idx)`, where the values
may be read from the heap. -/
def fill (p : Option Nat) (value : Heap (List α) → Nat → Option α) :
    (n first : Nat) → Heap (List α) → Option (Heap (List α))
  | 0, _, h => some h
  | n + 1, idx, h => do
    let x ← value h idx
    let h ← h.store p idx x
    fill p value n (idx + 1) h

/-- Filling a fresh block with values that do not depend on it. -/
theorem fill_alloc {value : Heap (List α) → Nat → Option α} {f : Nat → Option α}
    (independent : ∀ block idx, value (h.alloc block) idx = f idx) (n : Nat) (front back : List α)
    (length : back.length = n) :
    fill (some h.next) value n front.length (h.alloc (front ++ back)) =
      ((List.range' front.length n).mapM f).map fun values => h.alloc (front ++ values) := by
  induction n generalizing front back with
  | zero =>
    obtain rfl := List.length_eq_zero_iff.mp length
    rfl
  | succ n ih =>
    obtain ⟨old, back, rfl⟩ : ∃ old rest, back = old :: rest := List.exists_cons_of_length_eq_add_one length
    rw [fill, independent, List.range'_succ, List.mapM_cons]
    cases read : f front.length with
    | none => rfl
    | some x =>
      have stored : (h.alloc (front ++ old :: back)).store (some h.next) front.length x =
          some (h.alloc ((front ++ [x]) ++ back)) := by
        simp [store, put_alloc]
      have next := ih (front ++ [x]) back (by simpa using length)
      simp only [List.length_append, List.length_singleton] at next
      simp only [Option.bind_eq_bind, Option.bind_some, stored, next]
      cases (List.range' (front.length + 1) n).mapM f <;> simp

/-- A filled block has the values that were read for it. -/
theorem fill_fresh {value : Heap (List α) → Nat → Option α} {f : Nat → Option α}
    (independent : ∀ block idx, value (h.alloc block) idx = f idx) (n : Nat) (initial : α) (h' : Heap (List α)) :
    fill (some h.next) value n 0 (h.alloc (List.replicate n initial)) = some h' ↔
      ∃ values : List α, values.length = n ∧ (∀ i < n, f i = values[i]?) ∧ h.alloc values = h' := by
  have filled := fill_alloc independent n [] (List.replicate n initial) (List.length_replicate ..)
  simp only [List.length_nil, List.nil_append] at filled
  rw [filled]
  simp [Option.map_eq_some_iff, mapM_range'_eq_some, and_assoc]

end Arrays

end Heap
