import Rbc.Containers.ValueSemantics

namespace Rbc

variable {τ α : Type}

namespace Vector

variable [Zero α]

/-- `with_size`, which does not look at what `calloc` returned. -/
def withSizeOrNull (failed : Bool) (size : Nat) (h : Heap (List α)) : Vector × Heap (List α) :=
  if failed then (⟨none, size, size⟩, h) else withSize size h

def filledOrNull (failed : Bool) (size : Nat) (value : Heap (List α) → Nat → Option α) (h : Heap (List α)) :
    Option (Vector × Heap (List α)) := do
  let (self, h) := withSizeOrNull failed size h
  let h ← h.fill self.data value size 0
  return (self, h)

/-- The first assignment of the loop goes through NULL. -/
theorem filledOrNull_true (size : Nat) (value : Heap (List α) → Nat → Option α) (h : Heap (List α)) :
    filledOrNull true size value h = if size = 0 then some (new, h) else none := by
  cases size with
  | zero => rfl
  | succ n =>
    cases value h 0 <;> simp_all [filledOrNull, withSizeOrNull, Heap.fill, Heap.store]

omit [Zero α] in
theorem block_of_at {v : Vector} {pos : Nat} {h : Heap (List α)} {x : α} (read : v.at_ pos h = some x) :
    pos < v.size ∧ v.data ≠ none := by
  rw [at_] at read
  split at read
  · refine ⟨‹_›, fun null => ?_⟩
    simp [Heap.load, null] at read
  · cases read

omit [Zero α] in
theorem block_of_assignAtRef {v : Vector} {pos : Nat} {a : α} {h h' : Heap (List α)}
    (stored : v.assignAtRef pos a h = some h') : pos < v.size ∧ v.data ≠ none := by
  rw [assignAtRef] at stored
  split at stored
  · refine ⟨‹_›, fun null => ?_⟩
    simp [Heap.store, null] at stored
  · cases stored

end Vector

namespace Program

variable [Zero α]

/-- The calls that return a new vector, where the `calloc` in them may fail. -/
def createOrNull (failed : Bool) (c : Creation τ α) (s : Program τ α) : Option (Vector × Heap (List α)) :=
  match c with
  | .new => some (Vector.new, s.heap)
  | .withSize size => some (Vector.withSizeOrNull failed size s.heap)
  | .withSizeAndValue size value => Vector.filledOrNull failed size (fun _ _ => some value) s.heap
  | .from_ array first last =>
    let sz : Int := last - first
    if sz < 0 then some (Vector.new, s.heap)
    else Vector.filledOrNull failed sz.toNat (fun _ idx => array[first + idx]?) s.heap
  | .fromList size args => Vector.filledOrNull failed size (fun _ idx => args[idx]?) s.heap
  | .copy rhs => do
    let rhs ← s.vars rhs
    Vector.filledOrNull failed rhs.size (fun h idx => h.load rhs.data idx) s.heap

theorem createOrNull_false (c : Creation τ α) (s : Program τ α) : s.createOrNull false c = s.create c := by
  cases c <;> rfl

/-- A `calloc` that fails leaves nothing to fill, or faults. -/
theorem createOrNull_true {c : Creation τ α} {s : Program τ α} {size : Nat} {f : Nat → Option α}
    (source : c.source s = some (size, f)) (filled : ∀ n, c ≠ .withSize n) :
    s.createOrNull true c = if size = 0 then some (Vector.new, s.heap) else none := by
  cases c with
  | withSize n => exact absurd rfl (filled n)
  | new =>
    cases source
    rfl
  | withSizeAndValue n value =>
    cases source
    exact Vector.filledOrNull_true ..
  | from_ array first last =>
    cases source
    rw [createOrNull]
    by_cases negative : (last : Int) - first < 0
    · rw [if_pos negative, if_pos (by omega)]
    · rw [if_neg negative, Vector.filledOrNull_true, show ((last : Int) - first).toNat = last - first by omega]
  | fromList n args =>
    cases source
    exact Vector.filledOrNull_true ..
  | copy rhs =>
    obtain ⟨v, set, same⟩ := Option.map_eq_some_iff.mp source
    cases same
    rw [createOrNull, set]
    exact Vector.filledOrNull_true ..

/-- An operation, and whether a `calloc` in it fails. -/
def stepOrNull [DecidableEq τ] : Operation τ α × Bool → Program τ α → Option (Program τ α × Option α)
  | (.create result c, failed), s => do
    let (v, heap) ← s.createOrNull failed c
    return (⟨Function.update s.vars result (some v), heap⟩, none)
  | (op, _), s => step op s

/-- What the loop of the call reads for its new vector is there, and if `calloc` failed the call is
`with_size` or there is nothing to assign. -/
def Feasible (failed : Bool) (c : Creation τ α) (s : Program τ α) : Prop :=
  ∃ size f, c.source s = some (size, f) ∧ (∀ i < size, f i ≠ none) ∧
    (failed = true → size = 0 ∨ c = .withSize size)

/-- Variables have values before they are used, positions are in range, and what a failed
`with_size` returned is not read or written. -/
def Usable : Operation τ α × Bool → Program τ α → Prop
  | (.create _ c, failed), s => s.Feasible failed c
  | (.move _ rhs, _), s => (s.vars rhs).isSome
  | (.swap lhs rhs, _), s => (s.vars lhs).isSome ∧ (s.vars rhs).isSome
  | (.clear self, _), s | (.delete self, _), s => (s.vars self).isSome
  | (.at_ self pos, _), s | (.assignAtRef self pos _, _), s =>
    ∃ v, s.vars self = some v ∧ pos < v.size ∧ v.data ≠ none

/-- The list of a variable is what its block holds, or as many zeros as a vector without a block has. -/
def Stands (t : Lists τ α) (x : τ) (v : Vector) (l : List α) : Prop :=
  ∃ m, t x = some m ∧ v.size = m.length ∧ (l = m ∨ v.data = none ∧ m = List.replicate m.length 0)

theorem Stands.of_eq {t t' : Lists τ α} {x y : τ} (same : t' y = t x) {v : Vector} {l : List α}
    (stands : Stands t x v l) : Stands t' y v l := by
  unfold Stands
  rwa [same]

/-- Each variable with a value has a list. -/
structure Follows (s : Program τ α) (t : Lists τ α) : Prop where
  owned : Owned (Stands t) s
  unset : ∀ x, s.vars x = none → t x = none

namespace Follows

variable {s : Program τ α} {t : Lists τ α}

theorem value (follows : s.Follows t) {x : τ} {v : Vector} (set : s.vars x = some v) :
    ∃ m, t x = some m ∧ v.size = m.length ∧
      (v.contents s.heap = some m ∨ v.data = none ∧ m = List.replicate m.length 0) := by
  obtain ⟨l, held, m, same, size, rfl | missing⟩ := follows.owned.holds x v set
  · exact ⟨l, same, size, .inl held⟩
  · exact ⟨m, same, size, .inr missing⟩

theorem isSome (follows : s.Follows t) {x : τ} {m : List α} (same : t x = some m) : (s.vars x).isSome := by
  cases set : s.vars x with
  | none => cases same.symm.trans (follows.unset x set)
  | some v => rfl

/-- What a call reads are the elements of the list that it stands for. -/
theorem create_list (follows : s.Follows t) {c : Creation τ α} {size : Nat} {f : Nat → Option α}
    (source : c.source s = some (size, f)) (reads : ∀ i < size, f i ≠ none) :
    ∃ m, t.create c = some m ∧ m.length = size ∧ ∀ i < size, f i = m[i]? := by
  cases c with
  | new =>
    cases source
    exact ⟨[], rfl, rfl, by simp⟩
  | withSize n =>
    cases source
    exact ⟨_, rfl, List.length_replicate .., fun i bound => by simp [bound]⟩
  | withSizeAndValue n a =>
    cases source
    exact ⟨_, rfl, List.length_replicate .., fun i bound => by simp [bound]⟩
  | from_ array first last =>
    cases source
    refine ⟨_, rfl, ?_, fun i bound => by simp [bound]⟩
    rw [List.length_take, List.length_drop]
    by_cases empty : last ≤ first
    · omega
    · have final := reads (last - first - 1) (by omega)
      have inside : first + (last - first - 1) < array.length := by simpa using final
      omega
  | fromList n args =>
    cases source
    refine ⟨_, rfl, ?_, fun i bound => by simp [bound]⟩
    rw [List.length_take]
    by_cases empty : size = 0
    · omega
    · have final := reads (size - 1) (by omega)
      have inside : size - 1 < args.length := by simpa using final
      omega
  | copy rhs =>
    obtain ⟨v, set, same⟩ := Option.map_eq_some_iff.mp source
    cases same
    obtain ⟨m, listed, size, held | ⟨null, -⟩⟩ := follows.value set
    · exact ⟨m, listed, size.symm, fun i _ => Vector.load_contents held i⟩
    · -- there is nothing to read through NULL
      have empty : v.size = 0 := by
        by_contra some
        exact reads 0 (Nat.pos_of_ne_zero some) (by simp [Heap.load, null])
      exact ⟨m, listed, size.symm, fun i bound => absurd bound (by omega)⟩

/-- A new vector, with its elements in a block or without any. -/
def Made (heap : Heap (List α)) (m : List α) (r : Vector × Heap (List α)) : Prop :=
  r = Vector.ofList m heap ∨ r = (⟨none, m.length, m.length⟩, heap) ∧ m = List.replicate m.length 0

theorem create_made (follows : s.Follows t) {c : Creation τ α} {failed : Bool} (feasible : s.Feasible failed c) :
    ∃ r m, s.createOrNull failed c = some r ∧ t.create c = some m ∧ Made s.heap m r := by
  obtain ⟨size, f, source, reads, empty⟩ := feasible
  obtain ⟨m, listed, length, elements⟩ := follows.create_list source reads
  cases failed with
  | false =>
    rw [createOrNull_false]
    have built := (create_eq_some follows.owned.readable).mpr ⟨size, f, source, m, length, elements, rfl⟩
    exact ⟨_, m, built, listed, .inl rfl⟩
  | true =>
    by_cases given : ∃ n, c = .withSize n
    · obtain ⟨n, rfl⟩ := given
      cases source
      cases listed
      exact ⟨_, _, rfl, rfl, .inr ⟨by simp [Vector.withSizeOrNull], by simp⟩⟩
    · obtain rfl : size = 0 := (empty rfl).resolve_right fun same => given ⟨size, same⟩
      obtain rfl := List.length_eq_zero_iff.mp length
      rw [createOrNull_true source fun n same => given ⟨n, same⟩, if_pos rfl]
      exact ⟨_, [], rfl, listed, .inl rfl⟩

theorem create_fails (follows : s.Follows t) {c : Creation τ α} {failed : Bool} (infeasible : ¬s.Feasible failed c) :
    s.createOrNull failed c = none ∨ t.create c = none := by
  cases source : c.source s with
  | none =>
    cases c with
    | new | withSize | withSizeAndValue | from_ | fromList => cases source
    | copy rhs => exact .inr (follows.unset rhs (Option.map_eq_none_iff.mp source))
  | some r =>
    obtain ⟨size, f⟩ := r
    left
    by_cases reads : ∀ i < size, f i ≠ none
    · obtain ⟨rfl, harmful⟩ : failed = true ∧ ¬(size = 0 ∨ c = .withSize size) := by
        by_contra harmless
        exact infeasible ⟨size, f, source, reads, not_and_not_right.mp harmless⟩
      rw [createOrNull_true source ?_, if_neg fun empty => harmful (.inl empty)]
      rintro n rfl
      cases source
      exact harmful (.inr rfl)
    · obtain ⟨i, bound, unread⟩ : ∃ i < size, f i = none := by simpa using reads
      cases failed with
      | false =>
        rw [createOrNull_false]
        by_contra made
        obtain ⟨r, made⟩ := Option.ne_none_iff_exists'.mp made
        obtain ⟨size', f', source', l, length, elements, -⟩ := (create_eq_some follows.owned.readable).mp made
        cases source.symm.trans source'
        have read := elements i bound
        rw [unread, List.getElem?_eq_getElem (by omega)] at read
        cases read
      | true =>
        rw [createOrNull_true source ?_, if_neg (by omega)]
        rintro n rfl
        cases source
        cases unread

variable [DecidableEq τ]

omit [Zero α] in
theorem unset_update {vars : τ → Option Vector} (unset : ∀ y, vars y = none → t y = none) (x : τ) (v : Vector)
    (m : List α) (y : τ) (none : Function.update vars x (some v) y = none) :
    Function.update t x (some m) y = .none := by
  by_cases same : y = x
  · rw [same, Function.update_self] at none
    cases none
  · rw [Function.update_of_ne same] at none ⊢
    exact unset y none

theorem store (follows : s.Follows t) (x : τ) {m : List α} {r : Vector × Heap (List α)} (made : Made s.heap m r) :
    Follows ⟨Function.update s.vars x (some r.1), r.2⟩ (Function.update t x (some m)) where
  owned := by
    have others (y : τ) (w : Vector) (l : List α) (other : y ≠ x) :
        Stands t y w l → Stands (Function.update t x (some m)) y w l :=
      Stands.of_eq (Function.update_of_ne other ..)
    rcases made with rfl | ⟨rfl, zeros⟩
    · exact follows.owned.create m ⟨m, Function.update_self .., Vector.size_ofList m s.heap, .inl rfl⟩ others
    · refine follows.owned.permute id Function.injective_id fun y w set => ?_
      by_cases same : y = x
      · subst same
        rw [Function.update_self] at set
        cases set
        exact .inl ⟨rfl, m, Function.update_self .., rfl, .inr ⟨rfl, zeros⟩⟩
      · rw [Function.update_of_ne same] at set
        exact .inr ⟨set, fun l => others y w l same⟩
  unset := unset_update follows.unset x r.1 m

theorem move (follows : s.Follows t) (x : τ) {rhs : τ} {v : Vector} {m : List α} (set : s.vars rhs = some v)
    (same : t rhs = some m) :
    Follows ⟨Function.update (Function.update s.vars rhs (some ⟨none, 0, 0⟩)) x (some v), s.heap⟩
      (Function.update (Function.update t rhs (some [])) x (some m)) where
  owned := by
    refine follows.owned.move set (fun l => Stands.of_eq ?_) (fun other => ?_) fun _ _ _ other other' => Stands.of_eq ?_
    · rw [Function.update_self, same]
    · exact ⟨[], by rw [Function.update_of_ne other, Function.update_self], rfl, .inl rfl⟩
    · rw [Function.update_of_ne other, Function.update_of_ne other']
  unset := unset_update (unset_update follows.unset rhs ⟨none, 0, 0⟩ []) x v m

theorem swap (follows : s.Follows t) (lhs rhs : τ) :
    Follows ⟨fun y => s.vars (Equiv.swap lhs rhs y), s.heap⟩ (fun y => t (Equiv.swap lhs rhs y)) where
  owned := follows.owned.swap lhs rhs fun _ _ _ => Stands.of_eq rfl
  unset y := follows.unset (Equiv.swap lhs rhs y)

theorem clear (follows : s.Follows t) {x : τ} {v : Vector} (set : s.vars x = some v) :
    ∃ heap, v.clear s.heap = some ({ v with data := none, size := 0 }, heap) ∧
      Follows ⟨Function.update s.vars x (some { v with data := none, size := 0 }), heap⟩
        (Function.update t x (some [])) := by
  obtain ⟨heap, freed, -, owned⟩ := follows.owned.clear set
  refine ⟨heap, freed, owned _ ⟨[], Function.update_self .., rfl, .inl rfl⟩ ?_, unset_update follows.unset x _ []⟩
  exact fun y w m other => Stands.of_eq (Function.update_of_ne other ..)

theorem assignAtRef (follows : s.Follows t) {x : τ} {v : Vector} (set : s.vars x = some v) {m : List α}
    (same : t x = some m) {pos : Nat} (inside : pos < v.size) (block : v.data ≠ none) (a : α) :
    ∃ heap, v.assignAtRef pos a s.heap = some heap ∧
      Follows ⟨s.vars, heap⟩ (Function.update t x (some (m.set pos a))) := by
  obtain ⟨m', same', size, held | ⟨null, -⟩⟩ := follows.value set
  · obtain rfl : m = m' := Option.some.inj (same.symm.trans same')
    obtain ⟨heap, stored, -, owned⟩ := follows.owned.assignAtRef set held inside (by omega) a
    have unset := unset_update follows.unset x v (m.set pos a)
    rw [← set, Function.update_eq_self] at unset
    refine ⟨heap, stored, owned _ ⟨_, Function.update_self .., by simpa using size, .inl rfl⟩ ?_, unset⟩
    exact fun y w l other => Stands.of_eq (Function.update_of_ne other ..)
  · exact absurd null block

end Follows

theorem follows_start : (start : Program τ α).Follows Lists.start where
  owned := owned_start _
  unset _ _ := rfl

variable [DecidableEq τ] {s : Program τ α} {t : Lists τ α}

theorem Follows.step (follows : s.Follows t) (op : Operation τ α × Bool) (usable : Usable op s) :
    ∃ s' t' o, stepOrNull op s = some (s', o) ∧ Lists.step op.1 t = some (t', o) ∧ s'.Follows t' := by
  obtain ⟨op, failed⟩ := op
  cases op with
  | create result c =>
    obtain ⟨r, m, made, listed, fits⟩ := follows.create_made usable
    exact ⟨_, _, none, by simp [stepOrNull, made], by simp [Lists.step, listed], follows.store result fits⟩
  | move result rhs =>
    obtain ⟨v, set⟩ := Option.isSome_iff_exists.mp usable
    obtain ⟨m, same, -⟩ := follows.value set
    exact ⟨_, _, none, by simp [stepOrNull, Program.step, set, Vector.move], by simp [Lists.step, same],
      follows.move result set same⟩
  | swap lhs rhs =>
    obtain ⟨⟨v, left⟩, ⟨w, right⟩⟩ := And.imp Option.isSome_iff_exists.mp Option.isSome_iff_exists.mp usable
    obtain ⟨l, same, -⟩ := follows.value left
    obtain ⟨r, same', -⟩ := follows.value right
    exact ⟨_, _, none, by simp [stepOrNull, Program.step, Vector.swap_eq left right], Lists.step_swap same same',
      follows.swap lhs rhs⟩
  | clear self =>
    obtain ⟨v, set⟩ := Option.isSome_iff_exists.mp usable
    obtain ⟨m, same, -⟩ := follows.value set
    obtain ⟨heap, freed, next⟩ := follows.clear set
    exact ⟨_, _, none, by simp [stepOrNull, Program.step, set, freed], by simp [Lists.step, same], next⟩
  | delete self =>
    obtain ⟨v, set⟩ := Option.isSome_iff_exists.mp usable
    obtain ⟨m, same, -⟩ := follows.value set
    obtain ⟨heap, freed, next⟩ := follows.clear set
    exact ⟨_, _, none, by simp [stepOrNull, Program.step, set, Vector.delete_eq_clear, freed],
      by simp [Lists.step, same], next⟩
  | at_ self pos =>
    obtain ⟨v, set, inside, block⟩ := usable
    obtain ⟨m, same, size, held | ⟨null, -⟩⟩ := follows.value set
    · have bound : pos < m.length := by omega
      have read := Vector.load_contents held pos
      rw [List.getElem?_eq_getElem bound] at read
      exact ⟨s, t, some m[pos], by simp [stepOrNull, Program.step, set, Vector.at_, inside, read],
        by simp [Lists.step, same, bound], follows⟩
    · exact absurd null block
  | assignAtRef self pos a =>
    obtain ⟨v, set, inside, block⟩ := usable
    obtain ⟨m, same, -⟩ := follows.value set
    obtain ⟨heap, stored, next⟩ := follows.assignAtRef set same inside block a
    exact ⟨_, _, none, by simp [stepOrNull, Program.step, set, stored], by simp [Lists.step, same], next⟩

theorem Follows.differs (follows : s.Follows t) (op : Operation τ α × Bool) (unusable : ¬Usable op s) :
    ¬∃ s' t' o, stepOrNull op s = some (s', o) ∧ Lists.step op.1 t = some (t', o) := by
  rintro ⟨s', t', o, ran, listed⟩
  obtain ⟨op, failed⟩ := op
  cases op with
  | create result c =>
    rcases follows.create_fails unusable with fault | fault
    · simp [stepOrNull, fault] at ran
    · simp [Lists.step, fault] at listed
  | move result rhs =>
    obtain ⟨m, same, -⟩ := Option.bind_eq_some_iff.mp listed
    exact unusable (follows.isSome same)
  | swap lhs rhs =>
    obtain ⟨l, same, later⟩ := Option.bind_eq_some_iff.mp listed
    obtain ⟨r, same', -⟩ := Option.bind_eq_some_iff.mp later
    exact unusable ⟨follows.isSome same, follows.isSome same'⟩
  | clear self | delete self =>
    obtain ⟨m, same, -⟩ := Option.bind_eq_some_iff.mp listed
    exact unusable (follows.isSome same)
  | at_ self pos =>
    obtain ⟨v, set, later⟩ := Option.bind_eq_some_iff.mp ran
    obtain ⟨x, read, -⟩ := Option.bind_eq_some_iff.mp later
    exact unusable ⟨v, set, Vector.block_of_at read⟩
  | assignAtRef self pos a =>
    obtain ⟨v, set, later⟩ := Option.bind_eq_some_iff.mp ran
    obtain ⟨heap, stored, -⟩ := Option.bind_eq_some_iff.mp later
    exact unusable ⟨v, set, Vector.block_of_assignAtRef stored⟩

/-- Whatever calls of `calloc` fail, a program that does not check for it goes through with the results of
the program on lists exactly if it never reads or writes an element of a vector that has none. -/
theorem agrees_with_lists_iff (operations : List (Operation τ α × Bool)) :
    Machine.Agree stepOrNull (fun op t => Lists.step op.1 t) operations start Lists.start ↔
      Machine.Admissible Usable stepOrNull operations start :=
  Machine.agree_iff_admissible (fun op _ _ follows usable => follows.step op usable)
    (fun op _ _ follows unusable => follows.differs op unusable) operations follows_start

end Program

end Rbc
