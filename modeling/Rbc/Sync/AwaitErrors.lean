import Mathlib.Data.List.Induction
import Rbc.Core.Win32
import Rbc.Sync.ConditionMutex

namespace Rbc

/-- `rbc_cond_var_wait_until`, given what `pthread_cond_timedwait` returns. -/
def condVarWaitUntil : Backend → (timedwait : Error) → Error
  | .pthreads, timedwait => timedwait
  | .win32, _ => .notImplemented

namespace ConditionMutex

variable {σ : Type} {a : Await σ} {p q : Point σ} {e : Error}

/-- What a call inside `await` or `await_until` comes back with. -/
inductive Answer
  | evaluated (b : Bool)
  | notified (e : Error)
  | waited (e : Error)
  deriving DecidableEq, Repr

/-- The result of a call that can fail. -/
def Answer.result : Answer → Option Error
  | .evaluated _ => none
  | .notified e | .waited e => some e

/-- Where a function goes on after an answer to the call it stands at. -/
def Point.after (x : Answer) (p : Point σ) : Option (Point σ) :=
  match x, p with
  | .evaluated b, .firstTest _ | .evaluated b, .loopTest _ => some (p.branch b)
  | .notified e, .firstNotify _ | .notified e, .loopNotify _ => some (p.resume e)
  | .waited e, .loopWait _ => some (p.resume e)
  | _, _ => none

/-- Where a call of `await` or `await_until` stands after answers to all calls it made. -/
def Await.run (a : Await σ) (answers : List Answer) : Option (Point σ) :=
  answers.foldlM (fun p x => p.after x) (.firstTest a)

/-- Every call that fails ends the function with its error. -/
def Await.StopsAtErrors (a : Await σ) (answers : List Answer) : Prop :=
  ∀ front x back e, answers = front ++ x :: back → x.result = some e → e ≠ .ok →
    a.run (front ++ [x]) = some (.done e)

/-- The call of `await` that a thread is in. -/
def Point.call : Point σ → Option (Await σ)
  | .lockWhen a | .firstTest a | .firstNotify a | .loopNotify a | .loopWait a | .loopTest a | .enqueued a
  | .woken a _ => some a
  | _ => none

/-- An answer is a value of a condition, the result of a broadcast or the result of a wait. -/
theorem Point.after_cases {x : Answer} (step : p.after x = some q) :
    (∃ a b, x = .evaluated b ∧ (p = .firstTest a ∨ p = .loopTest a) ∧ q = p.branch b) ∨
    (∃ a e, x = .notified e ∧ (p = .firstNotify a ∨ p = .loopNotify a) ∧ q = p.resume e) ∨
    (∃ a e, x = .waited e ∧ p = .loopWait a ∧ q = p.resume e) := by
  unfold Point.after at step
  split at step
  · exact Or.inl ⟨_, _, rfl, Or.inl rfl, (Option.some.inj step).symm⟩
  · exact Or.inl ⟨_, _, rfl, Or.inr rfl, (Option.some.inj step).symm⟩
  · exact Or.inr (Or.inl ⟨_, _, rfl, Or.inl rfl, (Option.some.inj step).symm⟩)
  · exact Or.inr (Or.inl ⟨_, _, rfl, Or.inr rfl, (Option.some.inj step).symm⟩)
  · exact Or.inr (Or.inr ⟨_, _, rfl, rfl, (Option.some.inj step).symm⟩)
  · cases step

theorem Point.resume_notify (notifies : p = .firstNotify a ∨ p = .loopNotify a) (e : Error) :
    (p.resume e).call = some a ∧ e = .ok ∨ p.resume e = .done e := by
  by_cases fine : e = .ok
  · subst e
    rcases notifies with rfl | rfl <;> exact Or.inl ⟨rfl, rfl⟩
  · refine Or.inr ?_
    rcases notifies with rfl | rfl <;> cases e <;> first | rfl | exact absurd rfl fine

/-- A function stays in one call until it returns. -/
theorem Point.call_after {x : Answer} (step : p.after x = some q) (inside : p.call = some a) :
    q.call = some a ∨ ∃ e, q = .done e := by
  rcases Point.after_cases step with ⟨a', b, rfl, place, rfl⟩ | ⟨a', e, rfl, place, rfl⟩ | ⟨a', e, rfl, rfl, rfl⟩
  · obtain rfl : a' = a := by rcases place with rfl | rfl <;> exact Option.some.inj inside
    cases b with
    | true => rcases place with rfl | rfl <;> exact Or.inr ⟨.ok, rfl⟩
    | false => rcases place with rfl | rfl <;> exact Or.inl rfl
  · obtain rfl : a' = a := by rcases place with rfl | rfl <;> exact Option.some.inj inside
    rcases Point.resume_notify place e with ⟨stays, _⟩ | returns
    · exact Or.inl stays
    · exact Or.inr ⟨e, returns⟩
  · obtain rfl : a' = a := Option.some.inj inside
    rw [Point.resume_wait]
    split
    · exact Or.inl rfl
    · exact Or.inr ⟨e, rfl⟩

theorem Await.run_append (a : Await σ) (front : List Answer) (x : Answer) :
    a.run (front ++ [x]) = (a.run front).bind fun p => p.after x := by
  simp [Await.run, List.foldlM_append]

/-- A run goes through all of its beginnings. -/
theorem Await.exists_of_run_append {front back : List Answer} (ran : (a.run (front ++ back)).isSome) :
    ∃ p, a.run front = some p := by
  cases first : a.run front with
  | none =>
    rw [Await.run] at first
    rw [Await.run, List.foldlM_append, first] at ran
    cases ran
  | some p => exact ⟨p, rfl⟩

theorem Await.run_call {answers : List Answer} (ran : a.run answers = some p) :
    p.call = some a ∨ ∃ e, p = .done e := by
  induction answers using List.reverseRecOn generalizing p with
  | nil =>
    obtain rfl : .firstTest a = p := Option.some.inj ran
    exact Or.inl rfl
  | append_singleton answers x ih =>
    rw [Await.run_append] at ran
    obtain ⟨before, first, step⟩ := Option.bind_eq_some_iff.mp ran
    rcases ih first with inside | ⟨e, rfl⟩
    · exact Point.call_after step inside
    · rcases Point.after_cases step with ⟨_, _, _, place | place, _⟩ | ⟨_, _, _, place | place, _⟩ | ⟨_, _, _, place, _⟩ <;>
        cases place

theorem Await.run_notified {front : List Answer} (ran : a.run (front ++ [.notified e]) = some q) (bad : e ≠ .ok) :
    q = .done e := by
  rw [Await.run_append] at ran
  obtain ⟨p, _, step⟩ := Option.bind_eq_some_iff.mp ran
  rcases Point.after_cases step with ⟨_, _, same, _⟩ | ⟨a', e', same, place, rfl⟩ | ⟨_, _, same, _⟩
  · cases same
  · cases same
    rcases Point.resume_notify place e with ⟨_, fine⟩ | returns
    · exact absurd fine bad
    · exact returns
  · cases same

theorem Await.run_waited {front : List Answer} (ran : a.run (front ++ [.waited e]) = some q) :
    q = (Point.loopWait a).resume e := by
  rw [Await.run_append] at ran
  obtain ⟨p, before, step⟩ := Option.bind_eq_some_iff.mp ran
  rcases Point.after_cases step with ⟨_, _, same, _⟩ | ⟨_, _, same, _⟩ | ⟨a', e', same, rfl, rfl⟩
  · cases same
  · cases same
  · cases same
    rcases Await.run_call before with inside | ⟨_, done⟩
    · obtain rfl : a' = a := Option.some.inj inside
      rfl
    · cases done

/-- Exactly the errors of the wait that are neither success nor the timeout do not stop
`await_until`; `await` stops at every error. -/
theorem Await.stopsAtErrors_iff (a : Await σ) (answers : List Answer) (ran : (a.run answers).isSome) :
    a.StopsAtErrors answers ↔ (a.timed = true → ∀ e, .waited e ∈ answers → e = .ok ∨ e = .timedOut) := by
  constructor
  · intro stops timed e member
    by_contra other
    obtain ⟨fine, late⟩ := not_or.mp other
    obtain ⟨front, back, rfl⟩ := List.append_of_mem member
    have tests := Await.run_waited (stops front (.waited e) back e rfl rfl fine)
    rw [Point.resume_wait, if_pos (Or.inr ⟨timed, late⟩)] at tests
    cases tests
  · intro examined front x back e split result bad
    subst split
    rw [← List.singleton_append, ← List.append_assoc] at ran
    obtain ⟨q, reached⟩ := Await.exists_of_run_append ran
    rw [reached]
    cases x with
    | evaluated b => cases result
    | notified e' =>
      cases result
      rw [Await.run_notified reached bad]
    | waited e' =>
      cases result
      rw [Await.run_waited reached, Point.resume_wait, if_neg]
      rintro (fine | ⟨timed, late⟩)
      · exact bad fine
      · rcases examined timed e (by simp) with fine | timeout
        · exact bad fine
        · exact late timeout

/-- A flag that becomes true while the second wait goes on. -/
theorem Await.stopsAtErrors_iff_for_two_waits :
    (⟨id, true⟩ : Await Bool).StopsAtErrors [.evaluated false, .notified .ok, .notified .ok, .waited .ok,
        .evaluated false, .notified .ok, .waited .ok, .evaluated true] ↔
      (true = true → ∀ e, .waited e ∈ ([.evaluated false, .notified .ok, .notified .ok, .waited .ok,
        .evaluated false, .notified .ok, .waited .ok, .evaluated true] : List Answer) → e = .ok ∨ e = .timedOut) :=
  Await.stopsAtErrors_iff _ _ rfl

/-- On Win32 `await_until` goes on after the wait that is not implemented. -/
theorem Await.not_implemented_ignored :
    ¬(⟨id, true⟩ : Await Bool).StopsAtErrors
      [.evaluated false, .notified .ok, .notified .ok, .waited (condVarWaitUntil .win32 .ok)] := by
  intro stops
  have returned := stops [.evaluated false, .notified .ok, .notified .ok] _ [] .notImplemented rfl rfl (by decide)
  cases returned

/-- On Win32 `await_until` never returns while the condition stays false. -/
theorem Await.never_returns_on_win32 (timed : a.timed = true) {answers : List Answer}
    (refused : ∀ b, .evaluated b ∈ answers → b = false) (notified : ∀ e, .notified e ∈ answers → e = .ok)
    (waited : ∀ e, .waited e ∈ answers → ∃ timedwait, e = condVarWaitUntil .win32 timedwait)
    (ran : a.run answers = some p) : p.call = some a := by
  induction answers using List.reverseRecOn generalizing p with
  | nil =>
    obtain rfl : .firstTest a = p := Option.some.inj ran
    rfl
  | append_singleton answers x ih =>
    have member {y : Answer} (before : y ∈ answers) : y ∈ answers ++ [x] := List.mem_append_left _ before
    have last : x ∈ answers ++ [x] := List.mem_append_right _ (List.mem_singleton_self x)
    rw [Await.run_append] at ran
    obtain ⟨q, first, step⟩ := Option.bind_eq_some_iff.mp ran
    have inside := ih (fun b before => refused b (member before)) (fun e before => notified e (member before))
      (fun e before => waited e (member before)) first
    rcases Point.after_cases step with ⟨a', b, rfl, place, rfl⟩ | ⟨a', e, rfl, place, rfl⟩ | ⟨a', e, rfl, rfl, rfl⟩
    · obtain rfl := refused b last
      rcases place with rfl | rfl <;> exact inside
    · obtain rfl := notified e last
      rcases place with rfl | rfl <;> exact inside
    · obtain ⟨timedwait, rfl⟩ := waited e last
      obtain rfl : a' = a := Option.some.inj inside
      have other : condVarWaitUntil .win32 timedwait ≠ .timedOut := by
        intro late
        cases late
      rw [Point.resume_wait, if_pos (Or.inr ⟨timed, other⟩)]
      rfl

end ConditionMutex

end Rbc
