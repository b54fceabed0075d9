import Mathlib.Algebra.BigOperators.Group.List.Basic

/-- What an observer of a program that walks over a buffer sees: the index of
a read, or the start of one round of a loop. -/
inductive Access
  | read (index : Int)
  | round
  deriving DecidableEq, Repr

/-- A computation that reads a buffer through indices. It has no value when one
of its reads falls outside the buffer, and the log still holds that read. -/
structure BoundedReader (β α : Type) where
  log : List β → List Access
  value : List β → Option α
  value_eq_none_iff : ∀ buffer, value buffer = none ↔
    ∃ i, Access.read i ∈ log buffer ∧ ¬(0 ≤ i ∧ i < buffer.length)

namespace BoundedReader

variable {β α γ : Type}

/-- Every read of the computation hits the buffer. -/
def InBounds (m : BoundedReader β α) (buffer : List β) : Prop :=
  ∀ i, Access.read i ∈ m.log buffer → 0 ≤ i ∧ i < buffer.length

def rounds (m : BoundedReader β α) (buffer : List β) : Nat :=
  (m.log buffer).count .round

theorem inBounds_iff_isSome {m : BoundedReader β α} {buffer : List β} :
    m.InBounds buffer ↔ (m.value buffer).isSome := by
  have fault := m.value_eq_none_iff buffer
  rw [Option.isSome_iff_ne_none, ne_eq, fault]
  simp only [InBounds, not_exists, not_and_not_right]

protected def pure (a : α) : BoundedReader β α where
  log _ := []
  value _ := some a
  value_eq_none_iff buffer := by simp

/-- The second computation runs only when the first one did not fault. -/
protected def bind (m : BoundedReader β α) (f : α → BoundedReader β γ) : BoundedReader β γ where
  log buffer := m.log buffer ++ (m.value buffer).elim [] fun a => (f a).log buffer
  value buffer := (m.value buffer).bind fun a => (f a).value buffer
  value_eq_none_iff buffer := by
    cases first : m.value buffer with
    | none => simpa using (m.value_eq_none_iff buffer).mp first
    | some a =>
      have safe : m.InBounds buffer := inBounds_iff_isSome.mpr (by rw [first]; rfl)
      simp only [Option.bind_some, Option.elim_some, List.mem_append, (f a).value_eq_none_iff buffer]
      constructor
      · rintro ⟨i, member, outside⟩
        exact ⟨i, Or.inr member, outside⟩
      · rintro ⟨i, member | member, outside⟩
        · exact absurd (safe i member) outside
        · exact ⟨i, member, outside⟩

instance : Monad (BoundedReader β) where
  pure := BoundedReader.pure
  bind := BoundedReader.bind

/-- Read the element at an index, which may be negative. -/
def read (i : Int) : BoundedReader β β where
  log _ := [.read i]
  value buffer := if 0 ≤ i then buffer[i.toNat]? else none
  value_eq_none_iff buffer := by
    by_cases negative : 0 ≤ i
    · simp only [if_pos negative, List.getElem?_eq_none_iff, List.mem_singleton, Access.read.injEq]
      exact ⟨fun h => ⟨i, rfl, by omega⟩, fun ⟨j, same, outside⟩ => by omega⟩
    · simp only [if_neg negative, List.mem_singleton, Access.read.injEq, true_iff]
      exact ⟨i, rfl, by omega⟩

def tick : BoundedReader β Unit where
  log _ := [.round]
  value _ := some ()
  value_eq_none_iff buffer := by simp

def readBlock (start : Nat) : Nat → BoundedReader β (List β)
  | 0 => pure []
  | n + 1 => do
    let b ← read start
    let rest ← readBlock (start + 1) n
    pure (b :: rest)

/-- The buffer holds a block of elements from a position on. -/
def Holds (buffer : List β) : Nat → List β → Prop
  | _, [] => True
  | start, b :: block => buffer[start]? = some b ∧ Holds buffer (start + 1) block

theorem holds_append (before block after : List β) :
    Holds (before ++ block ++ after) before.length block := by
  induction block generalizing before with
  | nil => trivial
  | cons b block ih =>
    refine ⟨by simp, ?_⟩
    have shifted := ih (before ++ [b])
    simpa using shifted

theorem Holds.drop {buffer block : List β} {start : Nat} (holds : Holds buffer start block) (n : Nat) :
    Holds buffer (start + n) (block.drop n) := by
  induction block generalizing start n with
  | nil =>
    rw [List.drop_nil]
    trivial
  | cons b block ih =>
    cases n with
    | zero => exact holds
    | succ n =>
      rw [Nat.add_comm n 1, ← Nat.add_assoc, Nat.add_comm 1, List.drop_succ_cons]
      exact ih holds.2 n

section Rules

variable (m : BoundedReader β α) (f : α → BoundedReader β γ) (buffer : List β)

@[simp] theorem value_pure (a : α) : (pure a : BoundedReader β α).value buffer = some a := rfl

@[simp] theorem value_bind :
    (m >>= f).value buffer = (m.value buffer).bind fun a => (f a).value buffer := rfl

@[simp] theorem value_tick : (tick : BoundedReader β Unit).value buffer = some () := rfl

theorem value_read (i : Int) :
    (read i).value buffer = if 0 ≤ i then buffer[i.toNat]? else none := rfl

@[simp] theorem value_read_natCast (n : Nat) : (read (n : Int)).value buffer = buffer[n]? := by
  simp [value_read]

theorem value_read_of_neg {i : Int} (negative : i < 0) : (read i).value buffer = none := by
  rw [value_read, if_neg (by omega)]

@[simp] theorem rounds_pure (a : α) : (pure a : BoundedReader β α).rounds buffer = 0 := rfl

@[simp] theorem rounds_read (i : Int) : (read i).rounds buffer = 0 := rfl

@[simp] theorem rounds_tick : (tick : BoundedReader β Unit).rounds buffer = 1 := rfl

theorem rounds_bind_some {a : α} (first : m.value buffer = some a) :
    (m >>= f).rounds buffer = m.rounds buffer + (f a).rounds buffer := by
  change List.count _ (m.log buffer ++ (m.value buffer).elim [] _) = _
  rw [first, List.count_append]
  rfl

theorem rounds_bind_none (first : m.value buffer = none) :
    (m >>= f).rounds buffer = m.rounds buffer := by
  change List.count _ (m.log buffer ++ (m.value buffer).elim [] _) = _
  rw [first, Option.elim_none, List.append_nil]
  rfl

/-- A computation whose every continuation starts no round starts only the
rounds of its first half. -/
theorem rounds_bind_of_forall (silent : ∀ a, (f a).rounds buffer = 0) :
    (m >>= f).rounds buffer = m.rounds buffer := by
  cases first : m.value buffer with
  | none => exact rounds_bind_none m f buffer first
  | some a => rw [rounds_bind_some m f buffer first, silent a, Nat.add_zero]

theorem value_readBlock (start n : Nat) (within : start + n ≤ buffer.length) :
    (readBlock start n).value buffer = some ((buffer.drop start).take n) := by
  induction n generalizing start with
  | zero => simp [readBlock]
  | succ n ih =>
    have here : start < buffer.length := by omega
    rw [readBlock, value_bind, value_read_natCast, List.getElem?_eq_getElem here, Option.bind_some,
      value_bind, ih (start + 1) (by omega), Option.bind_some, value_pure,
      List.drop_eq_getElem_cons here, List.take_succ_cons]

theorem value_readBlock_of_lt (start n : Nat) (outside : buffer.length < start + n) (nonempty : 0 < n) :
    (readBlock start n).value buffer = none := by
  induction n generalizing start with
  | zero => omega
  | succ n ih =>
    rw [readBlock, value_bind, value_read_natCast]
    by_cases here : start < buffer.length
    · rw [List.getElem?_eq_getElem here, Option.bind_some, value_bind,
        ih (start + 1) (by omega) (by omega), Option.bind_none]
    · rw [List.getElem?_eq_none (by omega), Option.bind_none]

theorem rounds_readBlock (start n : Nat) : (readBlock start n).rounds buffer = 0 := by
  induction n generalizing start with
  | zero => rfl
  | succ n ih =>
    rw [readBlock, rounds_bind_of_forall _ _ _ fun b => ?_, rounds_read]
    rw [rounds_bind_of_forall _ _ _ fun rest => rounds_pure _ _, ih]

end Rules

section Confinement

variable {m : BoundedReader β α} {f : α → BoundedReader β γ} {buffer : List β} {first last : Nat}

/-- The computation reads nothing but elements from `first` up to `last`. -/
def Within (m : BoundedReader β α) (buffer : List β) (first last : Nat) : Prop :=
  ∀ i, Access.read i ∈ m.log buffer → (first : Int) ≤ i ∧ i < last

theorem within_pure (a : α) : (pure a : BoundedReader β α).Within buffer first last := by
  intro i member
  cases member

theorem within_read {i : Nat} (lower : first ≤ i) (upper : i < last) :
    (read (i : Int) : BoundedReader β β).Within buffer first last := by
  intro j member
  obtain rfl : j = i := by simpa [read] using member
  omega

/-- The second half is confined if it is for what the first half can return. -/
theorem Within.bind (start : m.Within buffer first last)
    (rest : ∀ a, m.value buffer = some a → (f a).Within buffer first last) : (m >>= f).Within buffer first last := by
  intro i member
  rcases List.mem_append.mp member with early | late
  · exact start i early
  · cases run : m.value buffer with
    | none =>
      rw [run] at late
      cases late
    | some a =>
      rw [run] at late
      exact rest a run i late

end Confinement

section Stability

/-- More elements behind the buffer do not change a value that was computed. -/
def Stable (m : BoundedReader β α) : Prop :=
  ∀ buffer more a, m.value buffer = some a → m.value (buffer ++ more) = some a

theorem stable_pure (a : α) : (pure a : BoundedReader β α).Stable := fun _ _ _ run => run

theorem stable_tick : (tick : BoundedReader β Unit).Stable := fun _ _ _ run => run

theorem stable_read (i : Int) : (read i : BoundedReader β β).Stable := by
  intro buffer more b run
  rw [value_read] at run ⊢
  split at run
  · rename_i nonneg
    have within := (List.getElem?_eq_some_iff.mp run).1
    rw [if_pos nonneg, List.getElem?_append_left within, run]
  · cases run

theorem Stable.bind {m : BoundedReader β α} {f : α → BoundedReader β γ} (first : m.Stable)
    (rest : ∀ a, (f a).Stable) : (m >>= f).Stable := by
  intro buffer more c run
  rw [value_bind] at run ⊢
  obtain ⟨a, value, run⟩ := Option.bind_eq_some_iff.mp run
  rw [first buffer more a value, Option.bind_some, rest a buffer more c run]

theorem Stable.ite {p : Prop} [Decidable p] {m n : BoundedReader β α} (yes : m.Stable) (no : n.Stable) :
    (if p then m else n).Stable := by
  split
  · exact yes
  · exact no

theorem stable_readBlock (start n : Nat) : (readBlock start n : BoundedReader β (List β)).Stable := by
  induction n generalizing start with
  | zero => exact stable_pure []
  | succ n ih => exact (stable_read start).bind fun b => (ih (start + 1)).bind fun rest => stable_pure _

end Stability

end BoundedReader
