import Rbc.Basis.Machine

/-- What a decoder says about the elements it was given: an item that takes the
first `n` of them, that it needs more, or that it gives up. -/
inductive Verdict (α ε : Type)
  | item (a : α) (n : Nat)
  | wait
  | reject (e : ε)

/-- A decoder of a stream. It has no verdict where it leaves its input. An item
takes something and no more than there is, and nothing but a request for more
changes when more arrives. -/
structure Incremental (β α ε : Type) where
  decode : List β → Option (Verdict α ε)
  bounds : ∀ data a n, decode data = some (.item a n) → 0 < n ∧ n ≤ data.length
  stable : ∀ data more v, decode data = some v → v ≠ .wait → decode (data ++ more) = some v

namespace Incremental

variable {β α ε : Type} {d : Incremental β α ε}

/-- Decoding over and over takes the items from the front of the data and leaves the rest. -/
inductive Consumes (d : Incremental β α ε) : List β → List α → List β → Prop
  | nothing (data : List β) : Consumes d data [] data
  | item {data rest : List β} {a : α} {n : Nat} {items : List α} : d.decode data = some (.item a n) →
      Consumes d (data.drop n) items rest → Consumes d data (a :: items) rest

/-- There is no item at the front. -/
def Rests (d : Incremental β α ε) (data : List β) : Prop := ∀ a n, d.decode data ≠ some (.item a n)

namespace Consumes

variable {data rest rest' : List β} {items items' : List α}

theorem append (consumes : Consumes d data items rest) (more : List β) :
    Consumes d (data ++ more) items (rest ++ more) := by
  induction consumes with
  | nothing data => exact .nothing _
  | @item data rest a n items found _ ih =>
    have within := (d.bounds data a n found).2
    refine .item (d.stable data more _ found (by simp)) ?_
    rwa [List.drop_append_of_le_length within]

theorem trans (first : Consumes d data items rest) (second : Consumes d rest items' rest') :
    Consumes d data (items ++ items') rest' := by
  induction first with
  | nothing data => exact second
  | item found _ ih => exact .item found (ih second)

/-- Of two ways into the same data one goes on where the other one stopped. -/
theorem compare (first : Consumes d data items rest) (second : Consumes d data items' rest') :
    (∃ later, items' = items ++ later ∧ Consumes d rest later rest') ∨
      ∃ later, items = items' ++ later ∧ Consumes d rest' later rest := by
  induction first generalizing items' with
  | nothing data => exact Or.inl ⟨items', rfl, second⟩
  | @item data rest a n items found within ih =>
    cases second with
    | nothing => exact Or.inr ⟨a :: items, rfl, .item found within⟩
    | item found' within' =>
      have same := Option.some.inj (found.symm.trans found')
      cases same
      rcases ih within' with ⟨later, more, goesOn⟩ | ⟨later, more, goesOn⟩
      · exact Or.inl ⟨later, congrArg (a :: ·) more, goesOn⟩
      · exact Or.inr ⟨later, congrArg (a :: ·) more, goesOn⟩

theorem of_rests (consumes : Consumes d data items rest) (rests : d.Rests data) : items = [] ∧ rest = data := by
  cases consumes with
  | nothing => exact ⟨rfl, rfl⟩
  | item found _ => exact absurd found (rests _ _)

/-- Nothing that is taken is missing from a way that goes on until it rests. -/
theorem prefix_of_rests (first : Consumes d data items rest) (second : Consumes d data items' rest')
    (rests : d.Rests rest') : items <+: items' := by
  rcases first.compare second with ⟨later, more, _⟩ | ⟨later, more, goesOn⟩
  · exact ⟨later, more.symm⟩
  · obtain ⟨rfl, _⟩ := goesOn.of_rests rests
    exact ⟨[], by rw [List.append_nil, more, List.append_nil]⟩

theorem unique (first : Consumes d data items rest) (second : Consumes d data items' rest')
    (rests : d.Rests rest) (rests' : d.Rests rest') : items = items' ∧ rest = rest' := by
  rcases first.compare second with ⟨later, more, goesOn⟩ | ⟨later, more, goesOn⟩
  · obtain ⟨rfl, same⟩ := goesOn.of_rests rests
    exact ⟨by rw [more, List.append_nil], same.symm⟩
  · obtain ⟨rfl, same⟩ := goesOn.of_rests rests'
    exact ⟨by rw [more, List.append_nil], same⟩

end Consumes

/-- A caller with the elements it has not used yet and the items it was given. -/
structure Client (β α : Type) where
  pending : List β
  items : List α

def Client.start : Client β α := ⟨[], []⟩

/-- Elements arrive, or the caller decodes what it has. -/
inductive Event (β : Type)
  | arrive (chunk : List β)
  | decode

/-- A decoded item is kept and its elements are dropped. Any other verdict changes nothing. -/
def step (d : Incremental β α ε) : Event β → Client β α → Option (Client β α × Option (Verdict α ε))
  | .arrive chunk, c => some (⟨c.pending ++ chunk, c.items⟩, none)
  | .decode, c =>
    match d.decode c.pending with
    | none => none
    | some (.item a n) => some (⟨c.pending.drop n, c.items ++ [a]⟩, some (.item a n))
    | some v => some (c, some v)

theorem step_of_item {c : Client β α} {a : α} {n : Nat} (found : d.decode c.pending = some (.item a n)) :
    d.step .decode c = some (⟨c.pending.drop n, c.items ++ [a]⟩, some (.item a n)) := by
  simp only [step, found]

theorem step_of_wait {c : Client β α} (found : d.decode c.pending = some .wait) :
    d.step .decode c = some (c, some .wait) := by
  simp only [step, found]

def Event.chunk : Event β → List β
  | .arrive chunk => chunk
  | .decode => []

/-- All elements that arrive during the events. -/
def arrived (events : List (Event β)) : List β := events.flatMap Event.chunk

@[simp] theorem arrived_nil : arrived ([] : List (Event β)) = [] := rfl

@[simp] theorem arrived_cons (event : Event β) (events : List (Event β)) :
    arrived (event :: events) = event.chunk ++ arrived events := rfl

theorem Consumes.step {data : List β} {event : Event β} {c c' : Client β α} {answer : Option (Verdict α ε)}
    (consumes : Consumes d data c.items c.pending) (stepped : d.step event c = some (c', answer)) :
    Consumes d (data ++ event.chunk) c'.items c'.pending := by
  cases event with
  | arrive chunk =>
    cases stepped
    exact consumes.append chunk
  | decode =>
    rw [Event.chunk, List.append_nil]
    simp only [Incremental.step] at stepped
    cases found : d.decode c.pending with
    | none =>
      rw [found] at stepped
      cases stepped
    | some verdict =>
      rw [found] at stepped
      cases verdict with
      | item a n =>
        cases stepped
        exact consumes.trans (.item found (.nothing _))
      | wait | reject e =>
        cases stepped
        exact consumes

/-- Whatever the order of arrivals and calls, the caller has taken the items
from the front of all that arrived. -/
theorem consumes_of_run {events : List (Event β)} {data : List β} {c last : Client β α}
    {answers : List (Option (Verdict α ε))} (consumes : Consumes d data c.items c.pending)
    (ran : Machine.run d.step events c = some (last, answers)) :
    Consumes d (data ++ arrived events) last.items last.pending := by
  induction events generalizing data c answers with
  | nil =>
    cases ran
    rwa [arrived_nil, List.append_nil]
  | cons event events ih =>
    obtain ⟨c', answer, later, stepped, ran', -⟩ := Machine.run_cons.mp ran
    rw [arrived_cons, ← List.append_assoc]
    exact ih (consumes.step stepped) ran'

theorem consumes_of_run_start {events : List (Event β)} {last : Client β α} {answers : List (Option (Verdict α ε))}
    (ran : Machine.run d.step events .start = some (last, answers)) :
    Consumes d (arrived events) last.items last.pending :=
  consumes_of_run (.nothing []) ran

end Incremental
