import Mathlib.Algebra.Ring.Int.Defs
import Mathlib.Logic.Equiv.Basic
import Rbc.Containers.Vector

namespace Rbc

variable {τ α : Type}

namespace Vector

theorem delete_eq_clear (v : Vector) (h : Heap (List α)) : v.delete h = v.clear h := rfl

/-- The elements of the block that a vector has, none if it has no block. -/
def contents (v : Vector) (h : Heap (List α)) : Option (List α) :=
  match v.data with
  | none => some []
  | some id => h.get? id

theorem contents_of_null {v : Vector} (null : v.data = none) (h : Heap (List α)) : v.contents h = some [] := by
  simp [contents, null]

theorem contents_of_block {v : Vector} {id : Nat} (block : v.data = some id) (h : Heap (List α)) :
    v.contents h = h.get? id := by
  simp [contents, block]

/-- The vector of a list of elements, in a block of its own. -/
def ofList (l : List α) (h : Heap (List α)) : Vector × Heap (List α) :=
  match l with
  | [] => (new, h)
  | _ :: _ => (⟨some h.next, l.length, l.length⟩, h.alloc l)

theorem contents_ofList (l : List α) (h : Heap (List α)) : (ofList l h).1.contents (ofList l h).2 = some l := by
  cases l with
  | nil => rfl
  | cons x l => exact Heap.get?_alloc_next h _

theorem size_ofList (l : List α) (h : Heap (List α)) : (ofList l h).1.size = l.length := by cases l <;> rfl

theorem data_ofList (l : List α) (h : Heap (List α)) :
    (ofList l h).1.data = none ∧ l = [] ∨ (ofList l h).1.data = some h.next := by
  cases l with
  | nil => exact Or.inl ⟨rfl, rfl⟩
  | cons x l => exact Or.inr rfl

theorem load_contents {v : Vector} {h : Heap (List α)} {l : List α} (held : v.contents h = some l) (i : Nat) :
    h.load v.data i = l[i]? := by
  cases block : v.data with
  | none =>
    obtain rfl : [] = l := by simpa [contents_of_null block] using held
    rfl
  | some id =>
    rw [contents_of_block block] at held
    exact Heap.load_of_live held i

theorem contents_alloc {v : Vector} {h : Heap (List α)} {l : List α} (held : v.contents h = some l)
    (block : List α) : v.contents (h.alloc block) = some l := by
  cases data : v.data with
  | none => rwa [contents_of_null data] at held ⊢
  | some id =>
    rw [contents_of_block data] at held ⊢
    exact Heap.get?_alloc_of_live held

theorem contents_ofList_of_held (l : List α) {h : Heap (List α)} {w : Vector} {m : List α}
    (held : w.contents h = some m) : w.contents (ofList l h).2 = some m := by
  cases l with
  | nil => exact held
  | cons x l => exact contents_alloc held _

theorem get?_ofList {l : List α} {h : Heap (List α)} {id : Nat} {block : List α}
    (live : (ofList l h).2.get? id = some block) :
    (ofList l h).1.data = some id ∨ h.get? id = some block := by
  cases l with
  | nil => exact Or.inr live
  | cons x l =>
    by_cases new : id = h.next
    · exact Or.inl (by rw [new]; rfl)
    · refine Or.inr ?_
      simpa [ofList, Heap.get?_alloc, new] using live

/-- The result of a call that reads the values `f 0`, .., `f (size - 1)` for its new vector. -/
def Built (size : Nat) (f : Nat → Option α) (h : Heap (List α)) (r : Vector × Heap (List α)) : Prop :=
  ∃ l : List α, l.length = size ∧ (∀ i < size, f i = l[i]?) ∧ ofList l h = r

theorem built_zero (f : Nat → Option α) (h : Heap (List α)) (r : Vector × Heap (List α)) :
    Built 0 f h r ↔ (new, h) = r := by
  constructor
  · rintro ⟨l, length, -, rfl⟩
    obtain rfl := List.length_eq_zero_iff.mp length
    rfl
  · rintro rfl
    exact ⟨[], rfl, by simp, rfl⟩

variable [Zero α]

/-- The loops that build a vector read every value, or the call faults. -/
theorem filled_eq_some (value : Heap (List α) → Nat → Option α) (f : Nat → Option α) {h : Heap (List α)}
    (independent : ∀ block idx, value (h.alloc block) idx = f idx) (size : Nat) (r : Vector × Heap (List α)) :
    filled size value h = some r ↔ Built size f h r := by
  cases size with
  | zero => simp [built_zero, filled, withSize, Heap.fill, new]
  | succ n =>
    have fresh := Heap.fill_fresh independent (n + 1) 0
    simp only [filled, withSize, if_pos (Nat.succ_ne_zero n), Option.bind_eq_bind, Option.bind_eq_some_iff, fresh,
      Option.pure_def, Option.some.injEq, Built]
    constructor
    · rintro ⟨_, ⟨l, length, reads, rfl⟩, rfl⟩
      obtain ⟨x, rest, rfl⟩ := List.exists_cons_of_length_eq_add_one length
      exact ⟨_, length, reads, by rw [ofList, length]⟩
    · rintro ⟨l, length, reads, rfl⟩
      obtain ⟨x, rest, rfl⟩ := List.exists_cons_of_length_eq_add_one length
      exact ⟨_, ⟨_, length, reads, rfl⟩, by rw [ofList, length]⟩

theorem built_withSize (size : Nat) (h : Heap (List α)) (r : Vector × Heap (List α)) :
    withSize size h = r ↔ Built size (fun _ => some 0) h r := by
  have zeros : withSize size h = ofList (List.replicate size 0) h := by
    cases size with
    | zero => rfl
    | succ n => simp [withSize, ofList, List.replicate_succ]
  rw [zeros]
  constructor
  · rintro rfl
    exact ⟨_, List.length_replicate .., fun i bound => by simp [bound], rfl⟩
  · rintro ⟨l, length, reads, rfl⟩
    have same : l = List.replicate size 0 := by
      refine List.ext_getElem? fun i => ?_
      by_cases bound : i < size
      · simp [← reads i bound, bound]
      · simp [bound, length]
    rw [same]

end Vector

/-- The number of elements that a call gives its new vector, and where it reads them. -/
def Creation.source [Zero α] (c : Creation τ α) (s : Program τ α) : Option (Nat × (Nat → Option α)) :=
  match c with
  | .new => some (0, fun _ => some 0)
  | .withSize size => some (size, fun _ => some 0)
  | .withSizeAndValue size value => some (size, fun _ => some value)
  | .from_ array first last => some (last - first, fun i => array[first + i]?)
  | .fromList size args => some (size, fun i => args[i]?)
  | .copy rhs => (s.vars rhs).map fun v => (v.size, fun i => s.heap.load v.data i)

namespace Program

theorem create_eq_some [Zero α] {c : Creation τ α} {s : Program τ α} {r : Vector × Heap (List α)}
    (readable : ∀ x v, s.vars x = some v → ∃ l, v.contents s.heap = some l) :
    s.create c = some r ↔ ∃ size f, c.source s = some (size, f) ∧ Vector.Built size f s.heap r := by
  have one (size : Nat) (f : Nat → Option α) :
      (∃ size' f', some (size, f) = some (size', f') ∧ Vector.Built size' f' s.heap r) ↔
        Vector.Built size f s.heap r := by
    simp only [Option.some.injEq, Prod.mk.injEq]
    constructor
    · rintro ⟨_, _, ⟨rfl, rfl⟩, built⟩
      exact built
    · exact fun built => ⟨size, f, ⟨rfl, rfl⟩, built⟩
  cases c with
  | new => rw [create, Creation.source, one, Vector.built_zero, Option.some.injEq]
  | withSize size => rw [create, Creation.source, one, ← Vector.built_withSize, Option.some.injEq]
  | withSizeAndValue size value => exact (Vector.filled_eq_some _ _ (fun _ _ => rfl) size r).trans (one ..).symm
  | from_ array first last =>
    rw [create, Creation.source, one, Vector.from_]
    by_cases negative : (last : Int) - first < 0
    · rw [if_pos negative, show last - first = 0 by omega, Vector.built_zero, Option.some.injEq]
    · rw [if_neg negative, show ((last : Int) - first).toNat = last - first by omega]
      exact Vector.filled_eq_some _ _ (fun _ _ => rfl) (last - first) r
  | fromList size args => exact (Vector.filled_eq_some _ _ (fun _ _ => rfl) size r).trans (one ..).symm
  | copy rhs =>
    cases value : s.vars rhs with
    | none => simp [create, Creation.source, value]
    | some v =>
      obtain ⟨l, held⟩ := readable rhs v value
      have independent (block : List α) (i : Nat) : (s.heap.alloc block).load v.data i = s.heap.load v.data i := by
        rw [Vector.load_contents (Vector.contents_alloc held block), Vector.load_contents held]
      have loop := Vector.filled_eq_some (fun h i => h.load v.data i) _ independent v.size r
      simp only [create, Creation.source, value, Option.map_some]
      exact loop.trans (one ..).symm

/-- Every variable has a block of its own or none, and `P` of what is in it. -/
structure Owned (P : τ → Vector → List α → Prop) (s : Program τ α) : Prop where
  holds : ∀ x v, s.vars x = some v → ∃ l, v.contents s.heap = some l ∧ P x v l
  exclusive : ∀ x y v w id, s.vars x = some v → s.vars y = some w → v.data = some id → w.data = some id → x = y

theorem owned_start (P : τ → Vector → List α → Prop) : Owned P (start : Program τ α) where
  holds x v value := by simp [start] at value
  exclusive x y v w id value := by simp [start] at value

namespace Owned

variable {P P' : τ → Vector → List α → Prop} {s : Program τ α} {x : τ} {v : Vector}

theorem readable (owned : Owned P s) (x : τ) (v : Vector) (value : s.vars x = some v) :
    ∃ l, v.contents s.heap = some l := by
  obtain ⟨l, held, -⟩ := owned.holds x v value
  exact ⟨l, held⟩

/-- Vectors change their places, and some variables are left without a block. -/
theorem permute (owned : Owned P s) (place : τ → τ) (injective : Function.Injective place)
    {vars : τ → Option Vector}
    (origin : ∀ y w, vars y = some w →
      (w.data = none ∧ P' y w []) ∨ (s.vars (place y) = some w ∧ ∀ l, P (place y) w l → P' y w l)) :
    Owned P' ⟨vars, s.heap⟩ where
  holds y w value := by
    rcases origin y w value with ⟨null, holds⟩ | ⟨moved, holds⟩
    · exact ⟨[], Vector.contents_of_null null _, holds⟩
    · obtain ⟨l, held, before⟩ := owned.holds _ _ moved
      exact ⟨l, held, holds l before⟩
  exclusive y z w u id value value' block block' := by
    rcases origin y w value with ⟨null, -⟩ | ⟨moved, -⟩
    · simp [null] at block
    · rcases origin z u value' with ⟨null, -⟩ | ⟨moved', -⟩
      · simp [null] at block'
      · exact injective (owned.exclusive _ _ w u id moved moved' block block')

variable [DecidableEq τ]

theorem create (owned : Owned P s) (l : List α) (own : P' x (Vector.ofList l s.heap).1 l)
    (others : ∀ y w m, y ≠ x → P y w m → P' y w m) :
    Owned P' ⟨Function.update s.vars x (some (Vector.ofList l s.heap).1), (Vector.ofList l s.heap).2⟩ where
  holds y w value := by
    by_cases same : y = x
    · subst same
      obtain rfl : (Vector.ofList l s.heap).1 = w := by simpa using value
      exact ⟨l, Vector.contents_ofList l s.heap, own⟩
    · obtain ⟨m, held, holds⟩ := owned.holds y w (by simpa [same] using value)
      exact ⟨m, Vector.contents_ofList_of_held l held, others y w m same holds⟩
  exclusive y z w u id := by
    have fresh {y : τ} {w : Vector} (value : s.vars y = some w) (block : w.data = some id)
        (new : (Vector.ofList l s.heap).1.data = some id) : False := by
      obtain ⟨m, held, -⟩ := owned.holds y w value
      rw [Vector.contents_of_block block] at held
      have old := Heap.lt_next held
      rcases Vector.data_ofList l s.heap with ⟨null, -⟩ | next
      · simp [null] at new
      · obtain rfl : s.heap.next = id := Option.some.inj (next.symm.trans new)
        omega
    intro value value' block block'
    by_cases first : y = x <;> by_cases second : z = x
    · exact first.trans second.symm
    · obtain rfl : (Vector.ofList l s.heap).1 = w := by simpa [first] using value
      exact (fresh (by simpa [second] using value') block' block).elim
    · obtain rfl : (Vector.ofList l s.heap).1 = u := by simpa [second] using value'
      exact (fresh (by simpa [first] using value) block block').elim
    · exact owned.exclusive y z w u id (by simpa [first] using value) (by simpa [second] using value') block block'

/-- The block of one variable gets other contents, or is freed and no longer used. -/
theorem change (owned : Owned P s) (value : s.vars x = some v) {id : Nat} (block : v.data = some id)
    {heap : Heap (List α)} {b : Option (List α)} (changed : heap.get? = Function.update s.heap.get? id b)
    {v' : Vector} {l' : List α} (data : v'.data = none ∨ v'.data = some id) (held' : v'.contents heap = some l')
    (own : P' x v' l') (others : ∀ y w m, y ≠ x → P y w m → P' y w m) :
    Owned P' ⟨Function.update s.vars x (some v'), heap⟩ where
  holds y w value' := by
    by_cases same : y = x
    · subst same
      obtain rfl : v' = w := by simpa using value'
      exact ⟨l', held', own⟩
    · have before : s.vars y = some w := by simpa [same] using value'
      obtain ⟨m, held, holds⟩ := owned.holds y w before
      refine ⟨m, ?_, others y w m same holds⟩
      cases other : w.data with
      | none => rwa [Vector.contents_of_null other] at held ⊢
      | some id' =>
        have apart : id' ≠ id := by
          rintro rfl
          exact same (owned.exclusive y x w v id' before value other block)
        rw [Vector.contents_of_block other] at held ⊢
        rw [changed, Function.update_of_ne apart, held]
  exclusive y z w u id' value' value'' block' block'' := by
    have former {y : τ} {w : Vector} (value' : Function.update s.vars x (some v') y = some w)
        (block' : w.data = some id') : ∃ w₀, s.vars y = some w₀ ∧ w₀.data = some id' := by
      by_cases same : y = x
      · subst same
        obtain rfl : v' = w := by simpa using value'
        rcases data with null | kept
        · simp [null] at block'
        · exact ⟨v, value, by rw [block, ← kept, block']⟩
      · exact ⟨w, by simpa [same] using value', block'⟩
    obtain ⟨w₀, before, held⟩ := former value' block'
    obtain ⟨u₀, before', held'⟩ := former value'' block''
    exact owned.exclusive y z w₀ u₀ id' before before' held held'

theorem clear (owned : Owned P s) (value : s.vars x = some v) :
    ∃ heap, v.clear s.heap = some ({ v with data := none, size := 0 }, heap) ∧
      (∀ id, heap.get? id = if v.data = some id then none else s.heap.get? id) ∧
      ∀ P' : τ → Vector → List α → Prop, P' x { v with data := none, size := 0 } [] →
        (∀ y w m, y ≠ x → P y w m → P' y w m) →
        Owned P' ⟨Function.update s.vars x (some { v with data := none, size := 0 }), heap⟩ := by
  cases block : v.data with
  | none =>
    refine ⟨s.heap, by simp [Vector.clear, Heap.release, block], by simp, fun P' own others => ?_⟩
    refine owned.permute id Function.injective_id fun y w changed => ?_
    by_cases same : y = x
    · subst same
      obtain rfl : { v with data := none, size := 0 } = w := by simpa using changed
      exact Or.inl ⟨rfl, own⟩
    · exact Or.inr ⟨by simpa [same] using changed, fun l => others y w l same⟩
  | some id =>
    obtain ⟨l, held⟩ := owned.readable x v value
    rw [Vector.contents_of_block block] at held
    obtain ⟨heap, freed, changed⟩ := Heap.free_of_live held
    refine ⟨heap, by simp [Vector.clear, Heap.release, block, freed], fun j => ?_, fun P' own others => ?_⟩
    · simp [changed, Function.update_apply, eq_comm]
    · exact owned.change value block changed (Or.inl rfl) (Vector.contents_of_null rfl heap) own others

theorem move (owned : Owned P s) {rhs : τ} (value : s.vars rhs = some v) (own : ∀ l, P rhs v l → P' x v l)
    (emptied : rhs ≠ x → P' rhs ⟨none, 0, 0⟩ []) (others : ∀ y w m, y ≠ x → y ≠ rhs → P y w m → P' y w m) :
    Owned P' ⟨Function.update (Function.update s.vars rhs (some ⟨none, 0, 0⟩)) x (some v), s.heap⟩ := by
  refine owned.permute (Equiv.swap x rhs) (Equiv.injective _) fun y w changed => ?_
  by_cases result : y = x
  · subst result
    obtain rfl : v = w := by simpa using changed
    exact Or.inr ⟨by simpa using value, by simpa using own⟩
  · by_cases left : y = rhs
    · subst left
      obtain rfl : (⟨none, 0, 0⟩ : Vector) = w := by simpa [result] using changed
      exact Or.inl ⟨rfl, emptied result⟩
    · refine Or.inr ⟨?_, ?_⟩
      · simpa [result, left, Equiv.swap_apply_of_ne_of_ne] using changed
      · rw [Equiv.swap_apply_of_ne_of_ne result left]
        exact fun l => others y w l result left

theorem swap (owned : Owned P s) (lhs rhs : τ)
    (exchanged : ∀ y w l, P (Equiv.swap lhs rhs y) w l → P' y w l) :
    Owned P' ⟨fun y => s.vars (Equiv.swap lhs rhs y), s.heap⟩ :=
  owned.permute (Equiv.swap lhs rhs) (Equiv.injective _) fun y w value =>
    Or.inr ⟨value, fun l => exchanged y w l⟩

theorem assignAtRef (owned : Owned P s) (value : s.vars x = some v) {l : List α} (held : v.contents s.heap = some l)
    {pos : Nat} (inside : pos < v.size) (fits : v.size ≤ l.length) (a : α) :
    ∃ heap, v.assignAtRef pos a s.heap = some heap ∧
      (∀ id, heap.get? id = none ↔ s.heap.get? id = none) ∧
      ∀ P' : τ → Vector → List α → Prop, P' x v (l.set pos a) → (∀ y w m, y ≠ x → P y w m → P' y w m) →
        Owned P' ⟨s.vars, heap⟩ := by
  cases block : v.data with
  | none =>
    obtain rfl : [] = l := by simpa [Vector.contents_of_null block] using held
    simp only [List.length_nil] at fits
    omega
  | some id =>
    rw [Vector.contents_of_block block] at held
    obtain ⟨heap, stored, changed⟩ := Heap.store_of_live held (show pos < l.length by omega) a
    refine ⟨heap, by simp [Vector.assignAtRef, inside, block, stored], fun j => ?_, fun P' own others => ?_⟩
    · by_cases same : j = id
      · simp [changed, same, held]
      · simp [changed, same]
    · have written := owned.change value block changed (Or.inr block)
        (by rw [Vector.contents_of_block block, changed, Function.update_self]) own others
      rwa [← value, Function.update_eq_self] at written

end Owned

end Program

/-- Member by member two variables exchange their vectors, also when they are one variable. -/
theorem Vector.swap_eq [DecidableEq τ] {vars : τ → Option Vector} {lhs rhs : τ} {l r : Vector}
    (left : vars lhs = some l) (right : vars rhs = some r) :
    Vector.swap lhs rhs vars = some fun x => vars (Equiv.swap lhs rhs x) := by
  by_cases same : lhs = rhs
  · subst same
    obtain rfl : l = r := Option.some.inj (left.symm.trans right)
    have unchanged : Function.update vars lhs (some l) = vars := by rw [← left, Function.update_eq_self]
    simp [Vector.swap, Vector.swapMember, left, unchanged]
  · have other : rhs ≠ lhs := fun h => same h.symm
    simp only [Vector.swap, Vector.swapMember, left, right, same, other, Option.bind_eq_bind, Option.bind_some,
      Option.map_some, Function.update_self, Function.update_of_ne, ne_eq, not_false_eq_true, Option.pure_def,
      Option.some.injEq]
    funext x
    by_cases first : x = lhs
    · simp [first, same, right]
    · by_cases second : x = rhs
      · simp [second, left]
      · simp [first, second, Equiv.swap_apply_of_ne_of_ne]

end Rbc
