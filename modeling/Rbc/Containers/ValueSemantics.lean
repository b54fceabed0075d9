import Rbc.Containers.Ownership

namespace Rbc

variable {τ α : Type}

namespace Program

def OwnsNothing (s : Program τ α) (x : τ) : Prop := (s.vars x).bind Vector.data = none

/-- The values that a call reads for its new vector are there. -/
def Readable (c : Creation τ α) (s : Program τ α) : Prop :=
  match c with
  | .from_ array first last => last ≤ first ∨ last ≤ array.length
  | .fromList size args => size ≤ args.length
  | .copy rhs => (s.vars rhs).isSome
  | _ => True

/-- Results go to variables that own no block when they are stored, variables have
values before they are used, and positions are in range. -/
def Allowed : Operation τ α → Program τ α → Prop
  | .create result c, s => s.OwnsNothing result ∧ s.Readable c
  | .move result rhs, s => (result = rhs ∨ s.OwnsNothing result) ∧ (s.vars rhs).isSome
  | .swap lhs rhs, s => (s.vars lhs).isSome ∧ (s.vars rhs).isSome
  | .clear self, s | .delete self, s => (s.vars self).isSome
  | .at_ self pos, s | .assignAtRef self pos _, s => ∃ v ∈ s.vars self, pos < v.size

instance (s : Program τ α) (x : τ) : Decidable (s.OwnsNothing x) := inferInstanceAs (Decidable (_ = none))

instance (s : Program τ α) : (c : Creation τ α) → Decidable (s.Readable c)
  | .new | .withSize _ | .withSizeAndValue _ _ => isTrue trivial
  | .from_ _ _ _ => inferInstanceAs (Decidable (_ ∨ _))
  | .fromList _ _ => inferInstanceAs (Decidable (_ ≤ _))
  | .copy _ => inferInstanceAs (Decidable (_ = true))

instance [DecidableEq τ] : (op : Operation τ α) → (s : Program τ α) → Decidable (Allowed op s)
  | .create _ _, _ | .move _ _, _ | .swap _ _, _ => inferInstanceAs (Decidable (_ ∧ _))
  | .clear _, _ | .delete _, _ => inferInstanceAs (Decidable (_ = true))
  | .at_ _ _, _ | .assignAtRef _ _ _, _ => inferInstanceAs (Decidable (∃ v ∈ _, _))

end Program

/-- What vectors are meant to be: variables whose values are lists. -/
abbrev Lists (τ α : Type) := τ → Option (List α)

namespace Lists

def start : Lists τ α := fun _ => none

def create [Zero α] (c : Creation τ α) (t : Lists τ α) : Option (List α) :=
  match c with
  | .new => some []
  | .withSize size => some (List.replicate size 0)
  | .withSizeAndValue size value => some (List.replicate size value)
  | .from_ array first last => some ((array.drop first).take (last - first))
  | .fromList size args => some (args.take size)
  | .copy rhs => t rhs

def step [DecidableEq τ] [Zero α] : Operation τ α → Lists τ α → Option (Lists τ α × Option α)
  | .create result c, t => do
    let l ← t.create c
    return (Function.update t result (some l), none)
  | .move result rhs, t => do
    let l ← t rhs
    return (Function.update (Function.update t rhs (some [])) result (some l), none)
  | .swap lhs rhs, t => do
    let l ← t lhs
    let r ← t rhs
    return (Function.update (Function.update t lhs (some r)) rhs (some l), none)
  | .clear self, t | .delete self, t => do
    let _ ← t self
    return (Function.update t self (some []), none)
  | .at_ self pos, t => do
    let x ← (← t self)[pos]?
    return (t, some x)
  | .assignAtRef self pos value, t => do
    let l ← t self
    return (Function.update t self (some (l.set pos value)), none)

/-- Two lists change their places. -/
theorem step_swap [DecidableEq τ] [Zero α] {t : Lists τ α} {lhs rhs : τ} {l r : List α} (left : t lhs = some l)
    (right : t rhs = some r) :
    step (.swap lhs rhs) t = some (fun y => t (Equiv.swap lhs rhs y), none) := by
  have exchanged := Equiv.comp_swap_eq_update rhs lhs t
  rw [Equiv.swap_comm, left, right] at exchanged
  simp [step, left, right, ← exchanged, Function.comp_def]

end Lists

namespace Program

/-- Each variable has the list as its value that the block of its vector holds, no two
vectors share a block, and every block that was not freed belongs to a vector. -/
structure Simulates (s : Program τ α) (t : Lists τ α) : Prop where
  owned : Owned (fun x v l => t x = some l ∧ v.size = l.length) s
  unset : ∀ x, s.vars x = none → t x = none
  noLeak : ∀ id block, s.heap.get? id = some block → ∃ x v, s.vars x = some v ∧ v.data = some id

namespace Simulates

variable {s : Program τ α} {t : Lists τ α}

theorem value (related : s.Simulates t) {x : τ} {v : Vector} (set : s.vars x = some v) :
    ∃ l, t x = some l ∧ v.contents s.heap = some l ∧ v.size = l.length := by
  obtain ⟨l, held, same, size⟩ := related.owned.holds x v set
  exact ⟨l, same, held, size⟩

/-- A new vector gets the elements of the list that it stands for. -/
theorem create_eq [Zero α] (related : s.Simulates t) {c : Creation τ α} (readable : s.Readable c) :
    ∃ l, t.create c = some l ∧ s.create c = some (Vector.ofList l s.heap) := by
  have built {size : Nat} {f : Nat → Option α} (source : c.source s = some (size, f)) {l : List α}
      (length : l.length = size) (reads : ∀ i < size, f i = l[i]?) :
      s.create c = some (Vector.ofList l s.heap) :=
    (create_eq_some related.owned.readable).mpr ⟨size, f, source, l, length, reads, rfl⟩
  cases c with
  | new => exact ⟨[], rfl, built rfl rfl (by simp)⟩
  | withSize size =>
    exact ⟨_, rfl, built rfl (List.length_replicate ..) fun i bound => by simp [bound]⟩
  | withSizeAndValue size a =>
    exact ⟨_, rfl, built rfl (List.length_replicate ..) fun i bound => by simp [bound]⟩
  | from_ array first last =>
    refine ⟨_, rfl, built rfl ?_ fun i bound => ?_⟩
    · unfold Readable at readable
      simp only [List.length_take, List.length_drop]
      omega
    · simp [bound]
  | fromList size args =>
    unfold Readable at readable
    refine ⟨_, rfl, built rfl (List.length_take_of_le readable) fun i bound => ?_⟩
    simp [bound]
  | copy rhs =>
    obtain ⟨v, set⟩ := Option.isSome_iff_exists.mp readable
    obtain ⟨l, same, held, size⟩ := related.value set
    refine ⟨l, same, built (by simp [Creation.source, set]) size.symm fun i _ => Vector.load_contents held i⟩

variable [DecidableEq τ]

theorem create (related : s.Simulates t) {x : τ} (nothing : s.OwnsNothing x) (l : List α) :
    Simulates ⟨Function.update s.vars x (some (Vector.ofList l s.heap).1), (Vector.ofList l s.heap).2⟩
      (Function.update t x (some l)) where
  owned := by
    refine related.owned.create l ⟨Function.update_self .., Vector.size_ofList l s.heap⟩ ?_
    intro y w m other holds
    rwa [Function.update_of_ne other]
  unset y unset := by
    by_cases same : y = x
    · simp [same] at unset
    · simpa [same] using related.unset y (by simpa [same] using unset)
  noLeak id block live := by
    rcases Vector.get?_ofList live with new | old
    · exact ⟨x, _, Function.update_self .., new⟩
    · obtain ⟨y, v, set, owns⟩ := related.noLeak id block old
      have other : y ≠ x := by
        rintro rfl
        simp [OwnsNothing, set, owns] at nothing
      exact ⟨y, v, by simpa [other] using set, owns⟩

theorem move (related : s.Simulates t) {x rhs : τ} (nothing : x = rhs ∨ s.OwnsNothing x) {v : Vector} {l : List α}
    (set : s.vars rhs = some v) (same : t rhs = some l) :
    Simulates ⟨Function.update (Function.update s.vars rhs (some ⟨none, 0, 0⟩)) x (some v), s.heap⟩
      (Function.update (Function.update t rhs (some [])) x (some l)) where
  owned := by
    refine related.owned.move set ?_ ?_ ?_
    · rintro m ⟨same', size⟩
      obtain rfl : l = m := Option.some.inj (same.symm.trans same')
      exact ⟨Function.update_self .., size⟩
    · intro other
      exact ⟨by simp [other], rfl⟩
    · intro y w m other other' holds
      rwa [Function.update_of_ne other, Function.update_of_ne other']
  unset y unset := by
    by_cases result : y = x
    · simp [result] at unset
    · by_cases left : y = rhs
      · subst left
        simp [result] at unset
      · simpa [result, left] using related.unset y (by simpa [result, left] using unset)
  noLeak id block live := by
    obtain ⟨y, w, owner, owns⟩ := related.noLeak id block live
    by_cases moved : y = rhs
    · subst moved
      exact ⟨x, v, Function.update_self .., by rw [← owns, Option.some.inj (set.symm.trans owner)]⟩
    · have other : y ≠ x := by
        rintro rfl
        rcases nothing with same | nothing
        · exact moved same
        · simp [OwnsNothing, owner, owns] at nothing
      exact ⟨y, w, by simpa [other, moved] using owner, owns⟩

theorem swap (related : s.Simulates t) (lhs rhs : τ) :
    Simulates ⟨fun y => s.vars (Equiv.swap lhs rhs y), s.heap⟩ (fun y => t (Equiv.swap lhs rhs y)) where
  owned := related.owned.swap lhs rhs fun _ _ _ holds => holds
  unset y unset := related.unset _ unset
  noLeak id block live := by
    obtain ⟨y, w, owner, owns⟩ := related.noLeak id block live
    exact ⟨Equiv.swap lhs rhs y, w, by simpa using owner, owns⟩

theorem clear (related : s.Simulates t) {x : τ} {v : Vector} (set : s.vars x = some v) :
    ∃ heap, v.clear s.heap = some ({ v with data := none, size := 0 }, heap) ∧
      Simulates ⟨Function.update s.vars x (some { v with data := none, size := 0 }), heap⟩
        (Function.update t x (some [])) := by
  obtain ⟨heap, freed, changed, owned⟩ := related.owned.clear set
  refine ⟨heap, freed, ?_, ?_, ?_⟩
  · refine owned _ ⟨Function.update_self .., rfl⟩ ?_
    intro y w m other holds
    rwa [Function.update_of_ne other]
  · intro y unset
    by_cases same : y = x
    · simp [same] at unset
    · simpa [same] using related.unset y (by simpa [same] using unset)
  · intro id block live
    rw [changed] at live
    split at live
    · cases live
    · rename_i other
      obtain ⟨y, w, owner, owns⟩ := related.noLeak id block live
      have apart : y ≠ x := by
        rintro rfl
        exact other (by rw [← owns, Option.some.inj (set.symm.trans owner)])
      exact ⟨y, w, by simpa [apart] using owner, owns⟩

theorem assignAtRef (related : s.Simulates t) {x : τ} {v : Vector} (set : s.vars x = some v) {l : List α}
    (same : t x = some l) {pos : Nat} (inside : pos < v.size) (a : α) :
    ∃ heap, v.assignAtRef pos a s.heap = some heap ∧
      Simulates ⟨s.vars, heap⟩ (Function.update t x (some (l.set pos a))) := by
  obtain ⟨m, same', held, size⟩ := related.value set
  obtain rfl : l = m := Option.some.inj (same.symm.trans same')
  obtain ⟨heap, stored, live, owned⟩ := related.owned.assignAtRef set held inside (by omega) a
  refine ⟨heap, stored, ?_, ?_, ?_⟩
  · refine owned _ ⟨Function.update_self .., by simpa using size⟩ ?_
    intro y w m other holds
    rwa [Function.update_of_ne other]
  · intro y unset
    have other : y ≠ x := by
      rintro rfl
      exact absurd (set.symm.trans unset) (by simp)
    simpa [other] using related.unset y unset
  · intro id block live'
    cases before : s.heap.get? id with
    | none => simp [(live id).mpr before] at live'
    | some old => exact related.noLeak id old before

/-- One operation on vectors is the operation on lists. -/
theorem step [Zero α] (related : s.Simulates t) (op : Operation τ α) (allowed : Allowed op s) :
    ∃ s' t' o, Program.step op s = some (s', o) ∧ Lists.step op t = some (t', o) ∧ s'.Simulates t' := by
  cases op with
  | create result c =>
    obtain ⟨nothing, readable⟩ := allowed
    obtain ⟨l, listed, made⟩ := related.create_eq readable
    exact ⟨_, _, none, by simp [Program.step, made], by simp [Lists.step, listed], related.create nothing l⟩
  | move result rhs =>
    obtain ⟨nothing, isSome⟩ := allowed
    obtain ⟨v, set⟩ := Option.isSome_iff_exists.mp isSome
    obtain ⟨l, same, -, -⟩ := related.value set
    exact ⟨_, _, none, by simp [Program.step, set, Vector.move], by simp [Lists.step, same],
      related.move nothing set same⟩
  | swap lhs rhs =>
    obtain ⟨⟨v, left⟩, ⟨w, right⟩⟩ := And.imp Option.isSome_iff_exists.mp Option.isSome_iff_exists.mp allowed
    obtain ⟨l, same, -, -⟩ := related.value left
    obtain ⟨r, same', -, -⟩ := related.value right
    exact ⟨_, _, none, by simp [Program.step, Vector.swap_eq left right], Lists.step_swap same same',
      related.swap lhs rhs⟩
  | clear self =>
    obtain ⟨v, set⟩ := Option.isSome_iff_exists.mp allowed
    obtain ⟨l, same, -, -⟩ := related.value set
    obtain ⟨heap, freed, next⟩ := related.clear set
    exact ⟨_, _, none, by simp [Program.step, set, freed], by simp [Lists.step, same], next⟩
  | delete self =>
    obtain ⟨v, set⟩ := Option.isSome_iff_exists.mp allowed
    obtain ⟨l, same, -, -⟩ := related.value set
    obtain ⟨heap, freed, next⟩ := related.clear set
    exact ⟨_, _, none, by simp [Program.step, set, Vector.delete_eq_clear, freed], by simp [Lists.step, same], next⟩
  | at_ self pos =>
    obtain ⟨v, set, inside⟩ := allowed
    obtain ⟨l, same, held, size⟩ := related.value set
    have bound : pos < l.length := by omega
    have read := Vector.load_contents held pos
    rw [List.getElem?_eq_getElem bound] at read
    have set' : s.vars self = some v := set
    exact ⟨s, t, some l[pos], by simp [Program.step, set', Vector.at_, inside, read],
      by simp [Lists.step, same, bound], related⟩
  | assignAtRef self pos a =>
    obtain ⟨v, set, inside⟩ := allowed
    obtain ⟨l, same, -, -⟩ := related.value set
    obtain ⟨heap, stored, next⟩ := related.assignAtRef set same inside a
    have set' : s.vars self = some v := set
    exact ⟨_, _, none, by simp [Program.step, set', stored], by simp [Lists.step, same], next⟩

end Simulates

theorem simulates_start : (start : Program τ α).Simulates Lists.start where
  owned := owned_start _
  unset _ _ := rfl
  noLeak id block live := by simp [start, Heap.empty] at live

/-- Every run on vectors in which no result overwrites a vector that has a block goes
through, reads what the same run on lists reads, and ends with the values of that run,
with every block in exactly one vector. A use of freed memory would have been a fault. -/
theorem run_simulates_lists [DecidableEq τ] [Zero α] (operations : List (Operation τ α))
    (allowed : Machine.Admissible Allowed step operations start) :
    ∃ s t outputs, Machine.run step operations start = some (s, outputs) ∧
      Machine.run Lists.step operations Lists.start = some (t, outputs) ∧ s.Simulates t :=
  Machine.run_simulates (fun op _ _ related allowed => related.step op allowed) simulates_start allowed

/-- A copy is not touched by a write to the original, nor by what happens to it later. -/
theorem run_simulates_lists_for_copy :
    ∃ (s : Program Nat Int) (t : Lists Nat Int) (outputs : List (Option Int)),
      Machine.run step
        [.create 0 (.fromList 2 [1, 2]), .create 1 (.copy 0), .assignAtRef 0 1 5, .swap 1 1, .at_ 1 1, .move 2 0,
          .clear 1, .at_ 2 1, .delete 2] start = some (s, outputs) ∧
      Machine.run Lists.step
        [.create 0 (.fromList 2 [1, 2]), .create 1 (.copy 0), .assignAtRef 0 1 5, .swap 1 1, .at_ 1 1, .move 2 0,
          .clear 1, .at_ 2 1, .delete 2] Lists.start = some (t, outputs) ∧ s.Simulates t :=
  run_simulates_lists _ (by decide)

end Program

end Rbc
