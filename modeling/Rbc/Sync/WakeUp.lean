import Rbc.Basis.Runs
import Rbc.Sync.ConditionMutex

namespace Rbc.ConditionMutex

variable {σ τ : Type}

namespace Point

/-- Inside a function, with the mutex held. -/
def holds : Point σ → Bool
  | .unlockNotify | .unlockRelease | .firstTest _ | .firstNotify _ | .loopNotify _ | .loopWait _ | .loopTest _ => true
  | _ => false

/-- The call whose condition the thread has just found false. -/
def refused : Point σ → Option (Await σ)
  | .firstNotify a | .loopNotify a | .loopWait a => some a
  | _ => none

/-- Between a broadcast and the release of the mutex that follows it. -/
def announced : Point σ → Bool
  | .unlockRelease | .loopWait _ => true
  | _ => false

/-- The call whose wait the thread sleeps in. -/
def queued : Point σ → Option (Await σ)
  | .enqueued a => some a
  | _ => none

theorem holds_of_refused {p : Point σ} {a : Await σ} (refused : p.refused = some a) : p.holds = true := by
  cases p <;> first | rfl | cases refused

theorem holds_of_announced {p : Point σ} (announced : p.announced = true) : p.holds = true := by
  cases p <;> first | rfl | cases announced

@[simp] theorem holds_wake (p : Point σ) : p.wake.holds = p.holds := by cases p <;> rfl

@[simp] theorem refused_wake (p : Point σ) : p.wake.refused = p.refused := by cases p <;> rfl

@[simp] theorem queued_wake (p : Point σ) : p.wake.queued = none := by cases p <;> rfl

theorem holds_entry (c : Call σ) : c.entry.holds = c.needsMutex := by cases c <;> rfl

theorem refused_entry (c : Call σ) : c.entry.refused = none := by cases c <;> rfl

theorem announced_entry (c : Call σ) : c.entry.announced = false := by cases c <;> rfl

theorem queued_entry (c : Call σ) : c.entry.queued = none := by cases c <;> rfl

theorem resume_of_locks {p : Point σ} (locks : p.locks = true) :
    (p.resume .ok).refused = none ∧ (p.resume .ok).announced = false ∧ (p.resume .ok).queued = none := by
  cases p <;> first | exact ⟨rfl, rfl, rfl⟩ | cases locks

theorem resume_of_notifies {p : Point σ} (notifies : p.notifies = true) :
    p.holds = true ∧ (∀ a, (p.resume .ok).refused = some a → p.refused = some a) ∧ (p.resume .ok).queued = none := by
  cases p <;> first | exact ⟨rfl, fun _ found => found, rfl⟩ | cases notifies

theorem branch_of_tests {p : Point σ} {a : Await σ} (tests : p.tests = some a) :
    p.holds = true ∧ p.branch true = .done .ok ∧ (p.branch false).refused = some a ∧
      (p.branch false).announced = false ∧ (p.branch false).queued = none := by
  cases p <;> cases tests <;> exact ⟨rfl, rfl, rfl, rfl, rfl⟩

theorem resume_loopWait (a : Await σ) (e : Error) :
    ((loopWait a).resume e).refused = none ∧ ((loopWait a).resume e).announced = false ∧
      ((loopWait a).resume e).queued = none := by
  rw [resume_wait]
  split <;> exact ⟨rfl, rfl, rfl⟩

end Point

/-- Who is inside a function that holds the mutex is its owner. After a failed
test the condition stays false, after the broadcast nobody sleeps, and when
the mutex is free no sleeper's condition is true. -/
structure Invariant (s : State τ σ) : Prop where
  owns : ∀ t, (s.point t).holds = true → s.owner = some t
  refused : ∀ t a, (s.point t).refused = some a → a.condition s.guarded = false
  announced : ∀ t u, (s.point t).announced = true → (s.point u).queued = none
  resting : s.owner = none → ∀ t a, (s.point t).queued = some a → a.condition s.guarded = false

variable {s s' : State τ σ} {t : τ}

namespace Invariant

theorem initial (start : s.Initial) : Invariant s := by
  obtain ⟨_, outside⟩ := start
  refine ⟨?_, ?_, ?_, ?_⟩
  · intro t holds
    rw [outside t] at holds
    cases holds
  · intro t a refused
    rw [outside t] at refused
    cases refused
  · intro t u _
    rw [outside u]
    rfl
  · intro _ t a queued
    rw [outside t] at queued
    cases queued

theorem acquire (inv : Invariant s) (free : s.owner = none) : Invariant (s.acquire t) := by
  refine ⟨?_, inv.refused, inv.announced, ?_⟩
  · intro u holds
    have owner := inv.owns u holds
    rw [free] at owner
    cases owner
  · intro taken
    cases taken

theorem notifyAll (inv : Invariant s) :
    Invariant s.notifyAll ∧ ∀ u, (s.notifyAll.point u).queued = none := by
  refine ⟨⟨?_, ?_, ?_, ?_⟩, fun u => Point.queued_wake _⟩
  · intro u holds
    exact inv.owns u ((Point.holds_wake _).symm.trans holds)
  · intro u a refused
    exact inv.refused u a ((Point.refused_wake _).symm.trans refused)
  · intro u v _
    exact Point.queued_wake _
  · intro _ u a queued
    rw [show (s.notifyAll.point u).queued = none from Point.queued_wake _] at queued
    cases queued

/-- Only the owner changes the guarded state, outside of all functions. -/
theorem change (inv : Invariant s) (owner : s.owner = some t) (outside : s.point t = .outside) (g : σ) :
    Invariant { s with guarded := g } := by
  refine ⟨inv.owns, ?_, inv.announced, ?_⟩
  · intro u a refused
    have other := inv.owns u (Point.holds_of_refused refused)
    rw [owner] at other
    rw [← Option.some.inj other, outside] at refused
    cases refused
  · intro free
    rw [show s.owner = none from free] at owner
    cases owner

end Invariant

variable [DecidableEq τ]

namespace Invariant

/-- A move that enqueues nobody, to a point whose obligations are met. -/
theorem goto (inv : Invariant s) {p : Point σ} (owns : p.holds = true → s.owner = some t)
    (refused : ∀ a, p.refused = some a → a.condition s.guarded = false)
    (announced : p.announced = true → ∀ u, (s.point u).queued = none) (awake : p.queued = none) :
    Invariant (s.goto t p) := by
  have asleep : ∀ u, (s.point u).queued = none → ((s.goto t p).point u).queued = none :=
    State.forall_goto (P := fun u q => (s.point u).queued = none → q.queued = none) (fun _ => awake) fun _ _ none => none
  have silent : ∀ u, ((s.goto t p).point u).announced = true → ∀ v, (s.point v).queued = none :=
    State.forall_goto (P := fun _ q => q.announced = true → ∀ v, (s.point v).queued = none) announced
      fun u _ found v => inv.announced u v found
  refine ⟨?_, ?_, ?_, ?_⟩
  · exact State.forall_goto (P := fun u q => q.holds = true → s.owner = some u) owns fun u _ => inv.owns u
  · exact State.forall_goto (P := fun _ q => ∀ a, q.refused = some a → a.condition s.guarded = false) refused
      fun u _ => inv.refused u
  · intro u v found
    exact asleep v (silent u found v)
  · intro free
    refine State.forall_goto (P := fun _ q => ∀ a, q.queued = some a → a.condition s.guarded = false) ?_
      fun u _ => inv.resting free u
    intro a queued
    rw [awake] at queued
    cases queued

/-- A move to a point outside the mutex carries no obligation. -/
theorem goto_plain (inv : Invariant s) {p : Point σ} (plain : p.holds = false) (awake : p.queued = none) :
    Invariant (s.goto t p) := by
  refine inv.goto ?_ ?_ ?_ awake
  · intro holds
    rw [plain] at holds
    cases holds
  · intro a refused
    rw [Point.holds_of_refused refused] at plain
    cases plain
  · intro announced
    rw [Point.holds_of_announced announced] at plain
    cases plain

/-- Giving the mutex up after the broadcast: nobody slept, so the thread itself
is the only one that can be asleep now. -/
theorem release (inv : Invariant s) (announced : (s.point t).announced = true) {p : Point σ}
    (plain : p.holds = false) (resting : ∀ a, p.queued = some a → a.condition s.guarded = false) :
    Invariant (s.release.goto t p) := by
  have owner := inv.owns t (Point.holds_of_announced announced)
  have alone : ∀ u, ((s.release.goto t p).point u).holds = false := by
    refine State.forall_goto (P := fun _ q => q.holds = false) plain fun u other => ?_
    refine Bool.eq_false_iff.mpr fun holds => ?_
    have owns := inv.owns u holds
    rw [owner] at owns
    exact other (Option.some.inj owns).symm
  refine ⟨?_, ?_, ?_, ?_⟩
  · intro u holds
    rw [alone u] at holds
    cases holds
  · intro u a refused
    have holds := alone u
    rw [Point.holds_of_refused refused] at holds
    cases holds
  · intro u v found
    have holds := alone u
    rw [Point.holds_of_announced found] at holds
    cases holds
  · intro _
    refine State.forall_goto (P := fun _ q => ∀ a, q.queued = some a → a.condition s.guarded = false) resting
      fun u _ a queued => ?_
    have asleep : (s.point u).queued = none := inv.announced t u announced
    rw [show (s.point u).queued = some a from queued] at asleep
    cases asleep

theorem goto_refused (inv : Invariant s) (inside : (s.point t).holds = true) {a : Await σ}
    (failed : a.condition s.guarded = false) {p : Point σ} (refused : p.refused = some a)
    (silent : p.announced = false) (awake : p.queued = none) : Invariant (s.goto t p) := by
  refine inv.goto (fun _ => inv.owns t inside) ?_ ?_ awake
  · intro b found
    rw [refused] at found
    cases found
    exact failed
  · intro found
    rw [silent] at found
    cases found

/-- Whoever takes the mutex has tested nothing yet and announced nothing. -/
theorem acquire_goto (inv : Invariant s) (free : s.owner = none) {p : Point σ}
    (plain : p.refused = none ∧ p.announced = false ∧ p.queued = none) : Invariant ((s.acquire t).goto t p) := by
  obtain ⟨refused, announced, awake⟩ := plain
  refine (inv.acquire free).goto (fun _ => rfl) ?_ ?_ awake
  · intro a found
    rw [refused] at found
    cases found
  · intro found
    rw [announced] at found
    cases found

theorem notifyAll_goto (inv : Invariant s) (inside : (s.point t).holds = true) {p : Point σ}
    (refused : ∀ a, p.refused = some a → (s.point t).refused = some a) (awake : p.queued = none) :
    Invariant (s.notifyAll.goto t p) := by
  obtain ⟨woken, nobody⟩ := inv.notifyAll
  exact woken.goto (fun _ => inv.owns t inside) (fun a found => inv.refused t a (refused a found))
    (fun _ => nobody) awake

theorem ran (inv : Invariant s) (step : s.Ran t s') : Invariant s' := by
  cases step with
  | takes locks free => exact inv.acquire_goto free (Point.resume_of_locks locks)
  | refuses point => exact inv.goto_plain rfl rfl
  | notifies notifies =>
    obtain ⟨inside, refused, awake⟩ := Point.resume_of_notifies notifies
    exact inv.notifyAll_goto inside refused awake
  | releases point => exact inv.release (by rw [point]; rfl) rfl (fun a found => by cases found)
  | @tests a tests =>
    obtain ⟨inside, succeeds, refused, silent, awake⟩ := Point.branch_of_tests tests
    cases answer : a.condition s.guarded with
    | true =>
      rw [succeeds]
      exact inv.goto_plain rfl rfl
    | false => exact inv.goto_refused inside answer refused silent awake
  | waits point =>
    refine inv.release (by rw [point]; rfl) rfl fun b found => ?_
    cases found
    exact inv.refused t _ (by rw [point]; rfl)
  | regains point free => exact inv.acquire_goto free (Point.resume_loopWait _ _)
  | leaves point => exact inv.goto_plain rfl rfl

theorem step (inv : Invariant s) {a : Act σ} (next : s.step t a = some s') : Invariant s' := by
  cases State.stepped_of_step next with
  | run ran => exact inv.ran ran
  | @call c outside allowed =>
    refine inv.goto (fun holds => allowed ((Point.holds_entry c).symm.trans holds)) ?_ ?_ (Point.queued_entry c)
    · intro b found
      rw [Point.refused_entry] at found
      cases found
    · intro found
      rw [Point.announced_entry] at found
      cases found
  | change outside owner => exact inv.change owner outside _
  | spurious asleep => exact inv.goto_plain rfl rfl
  | timeout asleep timed => exact inv.goto_plain rfl rfl
  | lateLock point => exact inv.goto_plain rfl rfl

theorem reached {start : State τ σ} (initial : start.Initial) (path : Relation.ReflTransGen State.Step start s) :
    Invariant s :=
  Runs.invariant (fun _ _ inv ⟨_, _, next⟩ => inv.step next) (Invariant.initial initial) path

end Invariant

/-- No wake-up is lost: in every reachable state in which the mutex is free, the
condition of every thread asleep on the condition variable is false. -/
theorem no_lost_wakeUp {start s : State τ σ} (initial : start.Initial)
    (path : Relation.ReflTransGen State.Step start s) (free : s.owner = none) (t : τ) (a : Await σ)
    (asleep : s.point t = .enqueued a) : a.condition s.guarded = false :=
  (Invariant.reached initial path).resting free t a (by rw [asleep]; rfl)

/-- A thread that waits for a flag, after everything it does on its way to sleep. -/
theorem no_lost_wakeUp_for_flag :
    ∃ s : State Bool Bool, s.owner = none ∧ s.point true = .enqueued ⟨id, false⟩ ∧ id s.guarded = false := by
  have path : Relation.ReflTransGen State.Step (⟨none, false, fun _ => .outside⟩ : State Bool Bool) _ :=
    ((((((Relation.ReflTransGen.refl.tail ⟨true, .call (.lockWhen ⟨id, false⟩), rfl⟩).tail
      ⟨true, .run, rfl⟩).tail ⟨true, .run, rfl⟩).tail ⟨true, .run, rfl⟩).tail ⟨true, .run, rfl⟩).tail
      ⟨true, .run, rfl⟩)
  exact ⟨_, rfl, rfl, no_lost_wakeUp ⟨rfl, fun _ => rfl⟩ path rfl true ⟨id, false⟩ rfl⟩

end Rbc.ConditionMutex
