import Rbc.Basis.Machine
import Rbc.Sync.AwaitErrors
import Rbc.Sync.WakeUp

namespace Rbc.ConditionMutex

variable {σ τ : Type} [DecidableEq τ]

theorem Point.call_of_tests {p : Point σ} {a : Await σ} (tests : p.tests = some a) : p.call = some a := by
  cases p <;> cases tests <;> rfl

/-- A call does not return when it gets the mutex for the first time, or after a broadcast. -/
theorem Point.call_resume {p : Point σ} {a : Await σ} (inside : p.call = some a)
    (goes : p.locks = true ∨ p.notifies = true) : (p.resume .ok).call = some a := by
  cases p <;> cases inside <;> first | rfl | rcases goes with goes | goes <;> cases goes

/-- The call whose wait timed out, until the thread has the mutex again. -/
def Point.timedOut : Point σ → Option (Await σ)
  | .woken a .timedOut => some a
  | _ => none

theorem Point.timedOut_wake (p : Point σ) : p.wake.timedOut = p.timedOut := by cases p <;> rfl

theorem Point.timedOut_entry (c : Call σ) : c.entry.timedOut = none := by cases c <;> rfl

theorem Point.timedOut_resume (p : Point σ) (e : Error) : (p.resume e).timedOut = none := by
  cases p with
  | loopWait a =>
    rw [Point.resume_wait]
    split <;> rfl
  | _ => cases e <;> rfl

theorem Point.timedOut_branch {p : Point σ} {a : Await σ} (tests : p.tests = some a) (b : Bool) :
    (p.branch b).timedOut = none := by
  cases p <;> cases tests <;> cases b <;> rfl

namespace State

/-- The threads as a machine: which of them does what next. -/
def machine (i : τ × Act σ) (s : State τ σ) : Option (State τ σ × Unit) := (s.step i.1 i.2).map (·, ())

/-- What the next step of a thread returns from a call of `await`, if it does. -/
def returns (i : τ × Act σ) (s : State τ σ) : Option (Await σ × Error × State τ σ) := do
  let a ← (s.point i.1).call
  let s' ← s.step i.1 i.2
  match s'.point i.1 with
  | .done e => some (a, e, s')
  | _ => none

/-- A call that returns tells whether its condition is true at that moment, and its thread
holds the mutex. -/
def Truthful (i : τ × Act σ) (s : State τ σ) : Prop :=
  ∀ a e s', s.returns i = some (a, e, s') →
    (e = .ok → a.condition s'.guarded = true) ∧ (e = .timedOut → a.condition s'.guarded = false) ∧
      s'.owner = some i.1

/-- No change makes the condition of a thread true whose wait timed out, and no wait times
out on a true one. -/
def StaysFalse (i : τ × Act σ) (s : State τ σ) : Prop :=
  match i.2 with
  | .change g => ∀ u a, (s.point u).timedOut = some a → a.condition g = false
  | .timeout => ∀ a, (s.point i.1).queued = some a → a.condition s.guarded = false
  | _ => True

/-- The conditions of all threads whose waits timed out are false. -/
def LateFalse (s : State τ σ) : Prop := ∀ u a, (s.point u).timedOut = some a → a.condition s.guarded = false

variable {s s' : State τ σ} {t : τ} {a : Await σ} {e : Error} {i : τ × Act σ}

/-- What is not a step of the thread itself only ends its sleep. -/
theorem step_inside {act : Act σ} (inside : (s.point t).call = some a) (step : s.step t act = some s') :
    act = .run ∧ s.Ran t s' ∨ ∃ e, s'.point t = .woken a e := by
  cases stepped_of_step step with
  | run ran => exact Or.inl ⟨rfl, ran⟩
  | call outside allowed | change outside owner =>
    rw [outside] at inside
    cases inside
  | lateLock point =>
    rw [point] at inside
    cases inside
  | spurious asleep | timeout asleep timed =>
    rw [asleep] at inside
    cases inside
    exact Or.inr ⟨_, point_goto_self ..⟩

/-- A call returns after a test that succeeds, or when it has the mutex again after a wait
whose result ends the loop. -/
theorem ran_returns (inside : (s.point t).call = some a) (ran : s.Ran t s') (done : s'.point t = .done e) :
    (s.point t).holds = true ∧ a.condition s.guarded = true ∧ e = .ok ∧ s' = s.goto t (.done .ok) ∨
      s.point t = .woken a e ∧ e ≠ .ok ∧ s.owner = none ∧ s' = (s.acquire t).goto t (.done e) := by
  cases ran with
  | tests tests =>
    obtain rfl := Option.some.inj ((Point.call_of_tests tests).symm.trans inside)
    obtain ⟨holds, succeeds, refused, _⟩ := Point.branch_of_tests tests
    rw [point_goto_self] at done
    refine Or.inl ⟨holds, ?_⟩
    cases answer : Await.condition _ s.guarded with
    | false =>
      rw [answer] at done
      rw [done] at refused
      cases refused
    | true =>
      rw [answer, succeeds] at done
      rw [succeeds]
      exact ⟨rfl, (Point.done.inj done).symm, rfl⟩
  | regains point free =>
    rw [point] at inside
    cases inside
    rw [point_goto_self, Point.resume_wait] at done
    rw [Point.resume_wait]
    split at done
    · cases done
    · rename_i ends
      cases done
      rw [if_neg ends]
      exact Or.inr ⟨point, fun fine => ends (Or.inl fine), free, rfl⟩
  | takes locks free =>
    rw [point_goto_self] at done
    have stays := Point.call_resume inside (Or.inl locks)
    rw [done] at stays
    cases stays
  | notifies notifies =>
    rw [point_goto_self] at done
    have stays := Point.call_resume inside (Or.inr notifies)
    rw [done] at stays
    cases stays
  | waits point =>
    rw [point_goto_self] at done
    cases done
  | refuses point | releases point | leaves point =>
    rw [point] at inside
    cases inside

theorem returns_cases (returned : s.returns i = some (a, e, s')) :
    i.2 = .run ∧
    ((s.point i.1).holds = true ∧ a.condition s.guarded = true ∧ e = .ok ∧ s' = s.goto i.1 (.done .ok) ∨
      s.point i.1 = .woken a e ∧ e ≠ .ok ∧ s.owner = none ∧ s' = (s.acquire i.1).goto i.1 (.done e)) := by
  obtain ⟨t, act⟩ := i
  obtain ⟨a', inside, returned⟩ := Option.bind_eq_some_iff.mp returned
  obtain ⟨s'', step, returned⟩ := Option.bind_eq_some_iff.mp returned
  have reached : s''.point t = .done e ∧ a' = a ∧ s'' = s' := by
    dsimp only at returned
    split at returned
    · rename_i e' done
      simp only [Option.some.injEq, Prod.mk.injEq] at returned
      obtain ⟨same, rfl, final⟩ := returned
      exact ⟨done, same, final⟩
    · cases returned
  obtain ⟨done, rfl, rfl⟩ := reached
  rcases step_inside inside step with ⟨rfl, ran⟩ | ⟨e', woken⟩
  · exact ⟨rfl, ran_returns inside ran done⟩
  · rw [done] at woken
    cases woken

theorem LateFalse.goto (late : s.LateFalse) {p : Point σ}
    (failed : ∀ a, p.timedOut = some a → a.condition s.guarded = false) : (s.goto t p).LateFalse :=
  forall_goto (P := fun _ q => ∀ a, q.timedOut = some a → a.condition s.guarded = false) failed fun u _ => late u

theorem LateFalse.goto_plain (late : s.LateFalse) {p : Point σ} (plain : p.timedOut = none) : (s.goto t p).LateFalse := by
  refine late.goto fun a found => ?_
  rw [plain] at found
  cases found

omit [DecidableEq τ] in
theorem LateFalse.notifyAll (late : s.LateFalse) : s.notifyAll.LateFalse :=
  fun u a found => late u a ((Point.timedOut_wake _).symm.trans found)

/-- A thread inside a function neither changes the guarded state nor times out. -/
theorem LateFalse.ran (late : s.LateFalse) (ran : s.Ran t s') : s'.LateFalse := by
  have taken : (s.acquire t).LateFalse := late
  have released : s.release.LateFalse := late
  cases ran with
  | takes locks free => exact taken.goto_plain (Point.timedOut_resume _ _)
  | refuses point => exact late.goto_plain rfl
  | notifies notifies => exact late.notifyAll.goto_plain (Point.timedOut_resume _ _)
  | releases point => exact released.goto_plain rfl
  | tests tests => exact late.goto_plain (Point.timedOut_branch tests _)
  | waits point => exact released.goto_plain rfl
  | regains point free => exact taken.goto_plain (Point.timedOut_resume _ _)
  | leaves point => exact late.goto_plain rfl

theorem LateFalse.step (late : s.LateFalse) (stays : StaysFalse i s) (step : s.step i.1 i.2 = some s') :
    s'.LateFalse := by
  obtain ⟨t, act⟩ := i
  cases stepped_of_step step with
  | call outside allowed => exact late.goto_plain (Point.timedOut_entry _)
  | change outside owner => exact stays
  | run ran => exact late.ran ran
  | spurious asleep => exact late.goto_plain rfl
  | timeout asleep timed =>
    refine late.goto fun b found => ?_
    cases found
    exact stays _ (by rw [asleep]; rfl)
  | lateLock point => exact late.goto_plain rfl

theorem LateFalse.truthful (late : s.LateFalse) (inv : Invariant s) (i : τ × Act σ) : s.Truthful i := by
  intro a e s' returned
  obtain ⟨act, cases⟩ := returns_cases returned
  rcases cases with ⟨holds, tested, rfl, rfl⟩ | ⟨woken, failed, free, rfl⟩
  · refine ⟨fun _ => tested, ?_, inv.owns i.1 holds⟩
    intro timeout
    cases timeout
  · refine ⟨fun fine => absurd fine failed, ?_, rfl⟩
    intro timeout
    subst timeout
    exact late i.1 a (by rw [woken]; rfl)

end State

/-- The calls of `await_until` and `lock_when_until` tell the truth about their conditions in
every run in which the condition of a wait that timed out stays false until the call returns. -/
theorem timed_wait_truthful {start : State τ σ} (initial : start.Initial) {acts : List (τ × Act σ)}
    (stays : Machine.Admissible (fun i s => State.StaysFalse i s) State.machine acts start) :
    Machine.Admissible (fun i s => State.Truthful i s) State.machine acts start := by
  refine stays.of_invariant (Q := fun s => Invariant s ∧ s.LateFalse) (fun i s inv _ => inv.2.truthful inv.1 i) ?_
    ⟨Invariant.initial initial, fun u a found => ?_⟩
  · rintro i s s' o ⟨inv, late⟩ stays step
    obtain ⟨next, stepped, same⟩ := Option.map_eq_some_iff.mp step
    obtain ⟨rfl, _⟩ := Prod.mk.inj same
    exact ⟨inv.step stepped, late.step stays stepped⟩
  · rw [initial.2 u] at found
    cases found

/-- A thread waits for a flag and times out, while another one leaves the flag as it is. -/
def neverSet : List (Bool × Act Bool) :=
  [(true, .call (.lockWhen ⟨id, true⟩)), (true, .run), (true, .run), (true, .run), (true, .run), (true, .run),
    (true, .timeout), (false, .call (.lock false)), (false, .run), (false, .run), (false, .change false),
    (false, .call .unlock), (false, .run), (false, .run), (true, .run)]

theorem timed_wait_truthful_neverSet :
    Machine.Admissible (fun i s => State.Truthful i s) State.machine neverSet ⟨none, false, fun _ => .outside⟩ := by
  refine timed_wait_truthful ⟨rfl, fun _ => rfl⟩ ?_
  refine ⟨trivial, trivial, trivial, trivial, trivial, trivial, ?_, trivial, trivial, trivial, ?_, trivial, trivial,
    trivial, trivial, trivial⟩
  · intro a asleep
    cases asleep
    rfl
  · intro u a late
    cases u <;> cases late
    rfl

/-- A thread waits for a flag, times out, and takes the mutex after another one set the flag. -/
def setTooLate : List (Bool × Act Bool) :=
  [(true, .call (.lockWhen ⟨id, true⟩)), (true, .run), (true, .run), (true, .run), (true, .run), (true, .run),
    (true, .timeout), (false, .call (.lock false)), (false, .run), (false, .run), (false, .change true),
    (false, .call .unlock), (false, .run), (false, .run), (true, .run)]

/-- The wait returns the timeout although the flag is set. -/
theorem setTooLate_not_truthful :
    ¬Machine.Admissible (fun i s => State.Truthful i s) State.machine setTooLate
      ⟨none, false, fun _ => .outside⟩ := by
  rintro ⟨_, _, _, _, _, _, _, _, _, _, _, _, _, _, truthful, _⟩
  obtain ⟨_, unset, _⟩ := truthful ⟨id, true⟩ .timedOut _ rfl
  have flag : id true = false := unset rfl
  cases flag

end Rbc.ConditionMutex
