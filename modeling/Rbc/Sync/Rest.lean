import Mathlib.Data.Set.Subsingleton
import Rbc.Basis.Runs
import Rbc.Sync.ConditionMutex

open Relation

namespace Rbc.ConditionMutex

variable {σ τ : Type} [DecidableEq τ]

/-- A step of one of the threads inside `await`; the others do not run, and
there are no spurious wake-ups. -/
def AwaitStep (inside : Set τ) (s s' : State τ σ) : Prop := ∃ t ∈ inside, s.run t = some s'

def Point.isWoken : Point σ → Bool
  | .woken _ _ => true
  | _ => false

/-- The threads of a set are in the wait of `await`, asleep or woken, the mutex
is free and all their conditions are false. -/
structure Waiting (inside : Set τ) (s : State τ σ) : Prop where
  free : s.owner = none
  waits : ∀ t ∈ inside, ∃ c : σ → Bool, c s.guarded = false ∧
    (s.point t = .enqueued ⟨c, false⟩ ∨ s.point t = .woken ⟨c, false⟩ .ok)

/-- Every sequence of steps is finite, and no state is entered twice. -/
def ComesToRest (inside : Set τ) (s : State τ σ) : Prop :=
  Runs.Ends (AwaitStep inside) s ∧ ¬Runs.Revisits (AwaitStep inside) s

theorem comesToRest_iff_ends {inside : Set τ} {s : State τ σ} :
    ComesToRest inside s ↔ Runs.Ends (AwaitStep inside) s :=
  ⟨And.left, fun ends => ⟨ends, ends.not_revisits⟩⟩

variable {s s' : State τ σ} {t w : τ} {a : Await σ} {inside : Set τ}

section Round

theorem run_enqueued (asleep : s.point t = .enqueued a) : s.run t = none := by
  unfold State.run
  rw [asleep]

theorem run_woken (point : s.point t = .woken a .ok) (untimed : a.timed = false) (free : s.owner = none) :
    s.run t = some ((s.acquire t).goto t (.loopTest a)) := by
  unfold State.run
  rw [point, free]
  show some ((s.acquire t).goto t ((Point.loopWait a).resume .ok)) = _
  rw [Point.resume, untimed]
  rfl

theorem run_loopTest (point : s.point t = .loopTest a) (failed : a.condition s.guarded = false) :
    s.run t = some (s.goto t (.loopNotify a)) := by
  unfold State.run
  rw [point]
  show some (s.goto t ((Point.loopTest a).branch (a.condition s.guarded))) = _
  rw [failed]
  rfl

theorem run_loopNotify (point : s.point t = .loopNotify a) :
    s.run t = some (s.notifyAll.goto t (.loopWait a)) := by
  unfold State.run
  rw [point]
  rfl

theorem run_loopWait (point : s.point t = .loopWait a) :
    s.run t = some (s.release.goto t (.enqueued a)) := by
  unfold State.run
  rw [point]

/-- One round of a woken thread: it tests its condition, wakes all the others,
and is asleep again. -/
theorem round (member : w ∈ inside) (point : s.point w = .woken a .ok) (untimed : a.timed = false)
    (failed : a.condition s.guarded = false) (free : s.owner = none) :
    ∃ s', TransGen (AwaitStep inside) s s' ∧ s'.owner = none ∧ s'.guarded = s.guarded ∧
      s'.point w = .enqueued a ∧ ∀ u, u ≠ w → s'.point u = (s.point u).wake := by
  have takes : AwaitStep inside s ((s.acquire w).goto w (.loopTest a)) :=
    ⟨w, member, run_woken point untimed free⟩
  have tests : AwaitStep inside _ (((s.acquire w).goto w (.loopTest a)).goto w (.loopNotify a)) :=
    ⟨w, member, run_loopTest (State.point_goto_self ..) failed⟩
  have notifies := run_loopNotify (s := ((s.acquire w).goto w (.loopTest a)).goto w (.loopNotify a))
    (State.point_goto_self _ w (.loopNotify a))
  have waits := run_loopWait
    (State.point_goto_self (((s.acquire w).goto w (.loopTest a)).goto w (.loopNotify a)).notifyAll w (.loopWait a))
  refine ⟨_, ((TransGen.single takes).tail tests).tail ⟨w, member, notifies⟩ |>.tail ⟨w, member, waits⟩, rfl, rfl,
    State.point_goto_self .., ?_⟩
  intro u other
  rw [State.point_goto_of_ne _ _ other]
  show State.point (State.goto _ w _) u = _
  rw [State.point_goto_of_ne _ _ other]
  show (State.point (State.goto (State.goto _ w _) w _) u).wake = _
  rw [State.point_goto_of_ne _ _ other, State.point_goto_of_ne _ _ other]
  rfl

/-- With a second thread inside, a round leads to such a state again. -/
theorem Waiting.progress (waiting : Waiting inside s) (member : w ∈ inside) (woken : (s.point w).isWoken = true)
    (several : ¬inside.Subsingleton) :
    ∃ s', TransGen (AwaitStep inside) s s' ∧ Waiting inside s' ∧ ∃ v ∈ inside, (s'.point v).isWoken = true := by
  obtain ⟨c, failed, asleep | awake⟩ := waiting.waits w member
  · rw [asleep] at woken
    cases woken
  · obtain ⟨s', path, free, same, self, others⟩ := round member awake rfl failed waiting.free
    refine ⟨s', path, ⟨free, ?_⟩, ?_⟩
    · intro t inAwait
      rw [same]
      by_cases own : t = w
      · exact ⟨c, failed, Or.inl (own ▸ self)⟩
      · obtain ⟨d, false, place⟩ := waiting.waits t inAwait
        refine ⟨d, false, Or.inr ?_⟩
        rcases place with place | place <;> rw [others t own, place] <;> rfl
    · obtain ⟨v, inAwait, different⟩ := (Set.not_subsingleton_iff.mp several).exists_ne w
      obtain ⟨d, _, place⟩ := waiting.waits v inAwait
      refine ⟨v, inAwait, ?_⟩
      rcases place with place | place <;> rw [others v different, place] <;> rfl

/-- Two threads or more never come to rest once one of them is woken. -/
theorem Waiting.not_ends (waiting : Waiting inside s) (member : w ∈ inside) (woken : (s.point w).isWoken = true)
    (several : ¬inside.Subsingleton) : ¬Runs.Ends (AwaitStep inside) s := by
  refine Runs.not_ends_of_progress
    (D := fun x => Waiting inside x ∧ ∃ w ∈ inside, (x.point w).isWoken = true) ?_ ⟨waiting, w, member, woken⟩
  rintro x ⟨again, v, inAwait, awake⟩
  exact again.progress inAwait awake several

end Round

section Alone

def Point.rank : Point σ → Nat
  | .woken _ _ => 4
  | .loopTest _ => 3
  | .loopNotify _ => 2
  | .loopWait _ => 1
  | _ => 0

/-- In the loop of `await` with a condition that is false. -/
def Point.InLoop (g : σ) : Point σ → Prop
  | .enqueued a | .loopTest a | .loopNotify a | .loopWait a => a.timed = false ∧ a.condition g = false
  | .woken a e => e = .ok ∧ a.timed = false ∧ a.condition g = false
  | _ => False

/-- Every step of a thread in the loop brings it closer to its sleep. -/
theorem run_lowers_rank (inLoop : (s.point t).InLoop s.guarded) (step : s.run t = some s') :
    (s'.point t).InLoop s'.guarded ∧ (s'.point t).rank < (s.point t).rank := by
  cases point : s.point t with
  | enqueued a =>
    rw [run_enqueued point] at step
    cases step
  | loopTest a =>
    rw [point] at inLoop
    rw [run_loopTest point inLoop.2] at step
    cases step
    rw [State.point_goto_self]
    exact ⟨inLoop, Nat.lt_succ_self 2⟩
  | loopNotify a =>
    rw [point] at inLoop
    rw [run_loopNotify point] at step
    cases step
    rw [State.point_goto_self]
    exact ⟨inLoop, Nat.lt_succ_self 1⟩
  | loopWait a =>
    rw [point] at inLoop
    rw [run_loopWait point] at step
    cases step
    rw [State.point_goto_self]
    exact ⟨inLoop, Nat.lt_succ_self 0⟩
  | woken a e =>
    rw [point] at inLoop
    obtain ⟨rfl, untimed, failed⟩ := inLoop
    by_cases free : s.owner = none
    · rw [run_woken point untimed free] at step
      cases step
      rw [State.point_goto_self]
      exact ⟨⟨untimed, failed⟩, Nat.lt_succ_self 3⟩
    · unfold State.run at step
      rw [point] at step
      exact absurd (Option.isNone_iff_eq_none.mp (Option.ite_none_right_eq_some.mp step).1) free
  | _ => rw [point] at inLoop; cases inLoop

end Alone

/-- Two threads that wait for what never comes, the first one woken. -/
def twoWaiters : State Bool Unit where
  owner := none
  guarded := ()
  point first := if first then .woken ⟨fun _ => false, false⟩ .ok else .enqueued ⟨fun _ => false, false⟩

theorem twoWaiters_waiting : Waiting Set.univ twoWaiters := by
  refine ⟨rfl, ?_⟩
  rintro (_ | _) _
  · exact ⟨fun _ => false, rfl, Or.inl rfl⟩
  · exact ⟨fun _ => false, rfl, Or.inr rfl⟩

theorem twoWaiters_not_comesToRest : ¬ComesToRest Set.univ twoWaiters := by
  have several : ¬(Set.univ : Set Bool).Subsingleton := fun single =>
    Bool.noConfusion (single (Set.mem_univ true) (Set.mem_univ false))
  exact fun rests => twoWaiters_waiting.not_ends (Set.mem_univ true) rfl several rests.1

/-- The waiters come to rest exactly when none of them is woken to begin with
or there is no second one to wake the first one again. -/
theorem comesToRest_iff (waiting : Waiting inside s) :
    ComesToRest inside s ↔ (∀ t ∈ inside, (s.point t).isWoken = false) ∨ inside.Subsingleton := by
  rw [comesToRest_iff_ends]
  constructor
  · intro ends
    by_contra neither
    obtain ⟨someWoken, several⟩ := not_or.mp neither
    refine someWoken fun t member => Bool.eq_false_iff.mpr fun woken => ?_
    exact waiting.not_ends member woken several ends
  · rintro (asleep | alone)
    · refine Runs.ends_of_stuck ?_
      rintro x ⟨t, member, step⟩
      obtain ⟨c, _, sleeps | awake⟩ := waiting.waits t member
      · rw [run_enqueued sleeps] at step
        cases step
      · have woken := asleep t member
        rw [awake] at woken
        cases woken
    · rcases alone.eq_empty_or_singleton with rfl | ⟨t, rfl⟩
      · exact Runs.ends_of_stuck fun x ⟨t, member, _⟩ => member
      · obtain ⟨c, failed, place⟩ := waiting.waits t rfl
        refine Runs.ends_of_measure (P := fun x => (x.point t).InLoop x.guarded) (fun x => (x.point t).rank) ?_ ?_
        · rintro x y inLoop ⟨u, rfl, step⟩
          exact run_lowers_rank inLoop step
        · rcases place with place | place <;> rw [place]
          · exact ⟨rfl, failed⟩
          · exact ⟨rfl, rfl, failed⟩

theorem comesToRest_iff_alone : ComesToRest {true} twoWaiters :=
  (comesToRest_iff ⟨rfl, fun t _ => twoWaiters_waiting.waits t (Set.mem_univ t)⟩).mpr
    (Or.inr Set.subsingleton_singleton)

end Rbc.ConditionMutex
