import Mathlib.Logic.Function.Basic
import Rbc.Core.Error

namespace Rbc.ConditionMutex

/-- A call of `rbc_condition_mutex_await`, or of `await_until` when it is timed. The
condition is a function of the state that the mutex guards. -/
structure Await (σ : Type) where
  condition : σ → Bool
  timed : Bool

/-- Where a thread stands in the functions of `condition_mutex.c`. `enqueued`
and `woken` are inside the wait of the loop: asleep on the condition variable,
and on the way out with the result `e`, but not yet holding the mutex. -/
inductive Point (σ : Type)
  | outside
  | lock (timed : Bool)
  | tryLock
  | lockWhen (a : Await σ)
  | unlockNotify
  | unlockRelease
  | firstTest (a : Await σ)
  | firstNotify (a : Await σ)
  | loopNotify (a : Await σ)
  | loopWait (a : Await σ)
  | loopTest (a : Await σ)
  | enqueued (a : Await σ)
  | woken (a : Await σ) (e : Error)
  | done (e : Error)

variable {σ τ : Type}

/-- Where a function continues after the call it stands at returned `e`.
`RBC_SYNC_CHECK` returns every error; `await_until` looks for the timeout only. -/
def Point.resume : Point σ → Error → Point σ
  | .lockWhen a, .ok => .firstTest a
  | .unlockNotify, .ok => .unlockRelease
  | .firstNotify a, .ok => .loopNotify a
  | .loopNotify a, .ok => .loopWait a
  | .loopWait a, e =>
    if a.timed then
      if e = .timedOut then .done .timedOut else .loopTest a
    else
      if e = .ok then .loopTest a else .done e
  | _, e => .done e

/-- What becomes of the result of the wait. -/
theorem Point.resume_wait (a : Await σ) (e : Error) :
    (Point.loopWait a).resume e =
      if e = .ok ∨ a.timed = true ∧ e ≠ .timedOut then .loopTest a else .done e := by
  cases timed : a.timed with
  | false => simp [Point.resume, timed]
  | true =>
    by_cases late : e = .timedOut
    · simp [Point.resume, timed, late]
    · simp [Point.resume, timed, late]

/-- Where a function continues after `rbc_condition_eval` returned `b`. -/
def Point.branch : Point σ → Bool → Point σ
  | .firstTest a, b => if b then .done .ok else .firstNotify a
  | .loopTest a, b => if b then .done .ok else .loopNotify a
  | p, _ => p

def Point.wake : Point σ → Point σ
  | .enqueued a => .woken a .ok
  | p => p

/-- The mutex is taken with the next step, if nobody has it. -/
def Point.locks : Point σ → Bool
  | .lock _ | .tryLock | .lockWhen _ => true
  | _ => false

/-- The sleepers are woken with the next step. -/
def Point.notifies : Point σ → Bool
  | .unlockNotify | .firstNotify _ | .loopNotify _ => true
  | _ => false

/-- The call whose condition is evaluated with the next step. -/
def Point.tests : Point σ → Option (Await σ)
  | .firstTest a | .loopTest a => some a
  | _ => none

/-- The functions a thread can call. `lock` is also `lock_for` and `lock_until` when
it is timed; the other `_for` and `_until` functions are the timed awaits. -/
inductive Call (σ : Type)
  | lock (timed : Bool)
  | tryLock
  | lockWhen (a : Await σ)
  | unlock
  | await (a : Await σ)

def Call.entry : Call σ → Point σ
  | .lock timed => .lock timed
  | .tryLock => .tryLock
  | .lockWhen a => .lockWhen a
  | .unlock => .unlockNotify
  | .await a => .firstTest a

/-- Only the thread that holds the mutex may release it, also inside `await`. -/
def Call.needsMutex : Call σ → Bool
  | .unlock | .await _ => true
  | _ => false

/-- The threads `τ` around one condition mutex and its guarded state. -/
structure State (τ σ : Type) where
  owner : Option τ
  guarded : σ
  point : τ → Point σ

/-- What may happen next to a thread: it calls a function, it changes the
guarded state, it goes on from its point, or it is woken by nobody or by a timeout. -/
inductive Act (σ : Type)
  | call (c : Call σ)
  | change (g : σ)
  | run
  | spurious
  | timeout

namespace State

/-- `rbc_cond_var_notify_all`. -/
def notifyAll (s : State τ σ) : State τ σ :=
  { s with point := fun u => (s.point u).wake }

def acquire (s : State τ σ) (t : τ) : State τ σ := { s with owner := some t }

def release (s : State τ σ) : State τ σ := { s with owner := none }

/-- Nobody holds the mutex or is inside a function. -/
def Initial (s : State τ σ) : Prop := s.owner = none ∧ ∀ t, s.point t = .outside

variable [DecidableEq τ]

def goto (s : State τ σ) (t : τ) (p : Point σ) : State τ σ :=
  { s with point := Function.update s.point t p }

@[simp] theorem point_goto_self (s : State τ σ) (t : τ) (p : Point σ) : (s.goto t p).point t = p := Function.update_self ..

theorem point_goto_of_ne (s : State τ σ) {t u : τ} (p : Point σ) (other : u ≠ t) : (s.goto t p).point u = s.point u :=
  Function.update_of_ne other ..

/-- What holds of all threads after one of them has moved. -/
theorem forall_goto {s : State τ σ} {t : τ} {p : Point σ} {P : τ → Point σ → Prop} (here : P t p)
    (others : ∀ u, u ≠ t → P u (s.point u)) : ∀ u, P u ((s.goto t p).point u) :=
  (Function.forall_update_iff s.point P).mpr ⟨here, others⟩

/-- The next step of a thread inside a function, if it can make one. The mutex
is exclusive, and no call on the mutex or the condition variable fails. -/
def run (s : State τ σ) (t : τ) : Option (State τ σ) :=
  match s.point t with
  | .lock _ | .lockWhen _ =>
    if s.owner.isNone then some ((s.acquire t).goto t ((s.point t).resume .ok)) else none
  | .tryLock =>
    if s.owner.isNone then some ((s.acquire t).goto t ((s.point t).resume .ok))
    else some (s.goto t ((s.point t).resume .deviceOrResourceBusy))
  | .unlockNotify | .firstNotify _ | .loopNotify _ =>
    some (s.notifyAll.goto t ((s.point t).resume .ok))
  | .unlockRelease => some (s.release.goto t ((s.point t).resume .ok))
  | .firstTest a | .loopTest a => some (s.goto t ((s.point t).branch (a.condition s.guarded)))
  -- the wait releases the mutex and enqueues the thread in one step
  | .loopWait a => some (s.release.goto t (.enqueued a))
  | .woken a e =>
    if s.owner.isNone then some ((s.acquire t).goto t ((Point.loopWait a).resume e)) else none
  | .done _ => some (s.goto t .outside)
  | .outside | .enqueued _ => none

def step (s : State τ σ) (t : τ) : Act σ → Option (State τ σ)
  | .call c =>
    match s.point t with
    | .outside => if c.needsMutex && s.owner != some t then none else some (s.goto t c.entry)
    | _ => none
  | .change g =>
    match s.point t with
    | .outside => if s.owner = some t then some { s with guarded := g } else none
    | _ => none
  | .run => s.run t
  | .spurious =>
    match s.point t with
    | .enqueued a => some (s.goto t (.woken a .ok))
    | _ => none
  | .timeout =>
    match s.point t with
    | .enqueued a => if a.timed then some (s.goto t (.woken a .timedOut)) else none
    | .lock true => some (s.goto t ((Point.lock true).resume .timedOut))
    | _ => none

def Step (s s' : State τ σ) : Prop := ∃ t a, s.step t a = some s'

/-- The next step of a thread inside a function, by what it does to the mutex and the sleepers. -/
inductive Ran (s : State τ σ) (t : τ) : State τ σ → Prop
  | takes (locks : (s.point t).locks = true) (free : s.owner = none) :
    Ran s t ((s.acquire t).goto t ((s.point t).resume .ok))
  | refuses (point : s.point t = .tryLock) : Ran s t (s.goto t (.done .deviceOrResourceBusy))
  | notifies (notifies : (s.point t).notifies = true) : Ran s t (s.notifyAll.goto t ((s.point t).resume .ok))
  | releases (point : s.point t = .unlockRelease) : Ran s t (s.release.goto t (.done .ok))
  | tests {a : Await σ} (tests : (s.point t).tests = some a) :
    Ran s t (s.goto t ((s.point t).branch (a.condition s.guarded)))
  | waits {a : Await σ} (point : s.point t = .loopWait a) : Ran s t (s.release.goto t (.enqueued a))
  | regains {a : Await σ} {e : Error} (point : s.point t = .woken a e) (free : s.owner = none) :
    Ran s t ((s.acquire t).goto t ((Point.loopWait a).resume e))
  | leaves {e : Error} (point : s.point t = .done e) : Ran s t (s.goto t .outside)

variable {s s' : State τ σ} {t : τ} {act : Act σ}

theorem ran_of_run (step : s.run t = some s') : Ran s t s' := by
  unfold run at step
  cases point : s.point t with
  | outside | enqueued a =>
    rw [point] at step
    cases step
  | lock timed | lockWhen a =>
    rw [point] at step
    obtain ⟨free, same⟩ := Option.ite_none_right_eq_some.mp step
    cases same
    rw [← point]
    exact .takes (by rw [point]; rfl) (Option.isNone_iff_eq_none.mp free)
  | tryLock =>
    rw [point] at step
    simp only at step
    split at step
    · rename_i free
      cases step
      rw [← point]
      exact .takes (by rw [point]; rfl) (Option.isNone_iff_eq_none.mp free)
    · cases step
      exact .refuses point
  | unlockNotify | firstNotify a | loopNotify a =>
    rw [point] at step
    cases step
    rw [← point]
    exact .notifies (by rw [point]; rfl)
  | firstTest a | loopTest a =>
    rw [point] at step
    cases step
    rw [← point]
    exact .tests (by rw [point]; rfl)
  | unlockRelease =>
    rw [point] at step
    cases step
    exact .releases point
  | loopWait a =>
    rw [point] at step
    cases step
    exact .waits point
  | woken a e =>
    rw [point] at step
    obtain ⟨free, same⟩ := Option.ite_none_right_eq_some.mp step
    cases same
    exact .regains point (Option.isNone_iff_eq_none.mp free)
  | done e =>
    rw [point] at step
    cases step
    exact .leaves point

/-- What happens to a thread, and when it can. -/
inductive Stepped (s : State τ σ) (t : τ) : Act σ → State τ σ → Prop
  | call {c : Call σ} (outside : s.point t = .outside) (allowed : c.needsMutex = true → s.owner = some t) :
    Stepped s t (.call c) (s.goto t c.entry)
  | change {g : σ} (outside : s.point t = .outside) (owner : s.owner = some t) :
    Stepped s t (.change g) { s with guarded := g }
  | run {s' : State τ σ} (ran : Ran s t s') : Stepped s t .run s'
  | spurious {a : Await σ} (asleep : s.point t = .enqueued a) : Stepped s t .spurious (s.goto t (.woken a .ok))
  | timeout {a : Await σ} (asleep : s.point t = .enqueued a) (timed : a.timed = true) :
    Stepped s t .timeout (s.goto t (.woken a .timedOut))
  | lateLock (point : s.point t = .lock true) : Stepped s t .timeout (s.goto t (.done .timedOut))

theorem stepped_of_step (step : s.step t act = some s') : Stepped s t act s' := by
  unfold State.step at step
  cases act with
  | run => exact .run (ran_of_run step)
  | call c =>
    simp only at step
    split at step
    · rename_i outside
      obtain ⟨allowed, same⟩ := Option.ite_none_left_eq_some.mp step
      cases same
      exact .call outside (by simpa using allowed)
    · cases step
  | change g =>
    simp only at step
    split at step
    · rename_i outside
      obtain ⟨owner, same⟩ := Option.ite_none_right_eq_some.mp step
      cases same
      exact .change outside owner
    · cases step
  | spurious =>
    simp only at step
    split at step
    · rename_i asleep
      cases step
      exact .spurious asleep
    · cases step
  | timeout =>
    simp only at step
    split at step
    · rename_i asleep
      obtain ⟨timed, same⟩ := Option.ite_none_right_eq_some.mp step
      cases same
      exact .timeout asleep timed
    · rename_i point
      cases step
      exact .lateLock point
    · cases step

end State

end Rbc.ConditionMutex
