import Rbc.Basis.Machine

namespace Counting

inductive Request
  | tryAcquire | release
  deriving DecidableEq, Repr

inductive Answer
  | served | empty | full
  deriving DecidableEq, Repr

/-- A counting semaphore that never counts beyond `limit`. -/
def serve (limit : Nat) : Request → Nat → Nat × Answer
  | .tryAcquire, 0 => (0, .empty)
  | .tryAcquire, n + 1 => (n, .served)
  | .release, n => if n < limit then (n + 1, .served) else (n, .full)

/-- The count after a request, as long as there is no limit. -/
def Request.apply : Request → Nat → Nat
  | .tryAcquire, n => n - 1
  | .release, n => n + 1

/-- The running count, which starts at `n`, stays within the limit. -/
def Within (limit : Nat) : List Request → Nat → Prop
  | [], n => n ≤ limit
  | r :: rest, n => n ≤ limit ∧ Within limit rest (r.apply n)

instance (limit : Nat) : (requests : List Request) → (n : Nat) → Decidable (Within limit requests n)
  | [], n => inferInstanceAs (Decidable (n ≤ limit))
  | r :: rest, n =>
    have : Decidable (Within limit rest (r.apply n)) := instDecidableWithin limit rest (r.apply n)
    inferInstanceAs (Decidable (_ ∧ _))

theorem Within.le {limit n : Nat} {requests : List Request} (within : Within limit requests n) : n ≤ limit := by
  cases requests with
  | nil => exact within
  | cons r rest => exact within.1

/-- Two limits can be told apart exactly by a running count that passes the lower one. -/
theorem outputs_serve_eq_iff {low high : Nat} {requests : List Request} {n : Nat} (start : n ≤ low)
    (within : Within high requests n) :
    Machine.outputs (serve low) requests n = Machine.outputs (serve high) requests n ↔
      Within low requests n := by
  induction requests generalizing n with
  | nil => exact ⟨fun _ => start, fun _ => rfl⟩
  | cons r rest ih =>
    obtain ⟨-, later⟩ := within
    have bounded := later.le
    cases r with
    | tryAcquire =>
      cases n with
      | zero => simp [Machine.outputs, serve, Within, Request.apply, ih start later]
      | succ n =>
        have alike := ih (Nat.le_of_succ_le start) later
        simp [Machine.outputs, serve, Within, Request.apply, start, alike]
    | release =>
      simp only [Request.apply] at bounded later
      by_cases room : n < low
      · simp [Machine.outputs, serve, Within, Request.apply, start, room, show n < high by omega,
          ih (by omega) later]
      · have passed : ¬Within low rest (n + 1) := fun within => by
          have := within.le
          omega
        simp [Machine.outputs, serve, Within, Request.apply, room, show n < high by omega, passed]

end Counting
