import Rbc.Sync.Monitor

namespace Rbc.ConditionMutex

open Trace

variable {σ τ : Type} {s s' : State τ σ} {m : Monitor τ σ} {t : τ} {ph : Phase σ} {c : Call σ}

/-- What a call promises with its result, to a thread that has the mutex or not when it returns. -/
def Call.Kept (mine : Prop) (g : σ) (e : Error) : Call σ → Prop
  | .lock timed => e = .ok ∧ mine ∨ e = .timedOut ∧ timed = true
  | .tryLock => e = .ok ∧ mine ∨ e = .deviceOrResourceBusy
  | .unlock => e = .ok ∧ ¬mine
  | .lockWhen a | .await a => mine ∧ (e = .ok ∧ a.condition g = true ∨ e = .timedOut ∧ a.timed = true)

theorem Call.Kept.congr {mine mine' : Prop} {g g' : σ} {e : Error} (kept : c.Kept mine g e) (same : mine ↔ mine')
    (unchanged : mine → g' = g) : c.Kept mine' g' e := by
  cases c with
  | lock timed => exact kept.imp (And.imp_right same.mp) id
  | tryLock => exact kept.imp (And.imp_right same.mp) id
  | unlock => exact kept.imp_right (mt same.mpr)
  | lockWhen a | await a =>
    obtain ⟨held, result⟩ := kept
    rw [← unchanged held] at result
    exact ⟨same.mp held, result⟩

def Phase.call : Phase σ → Option (Call σ)
  | .asked c | .waiting c | .returning c _ => some c
  | .outside => none

variable [DecidableEq τ]

/-- The call that a label shows of a thread. -/
def Label.callOf (t : τ) : Label τ σ → Option (Call σ)
  | .call u c => if u = t then some c else none
  | _ => none

/-- The call that a thread has made last. -/
def lastCall (t : τ) (labels : List (Label τ σ)) : Option (Call σ) := (labels.filterMap (Label.callOf t)).getLast?

theorem lastCall_append (t : τ) (past : List (Label τ σ)) (l : Option (Label τ σ)) :
    lastCall t (past ++ l.toList) = (l.bind (Label.callOf t)).or (lastCall t past) := by
  cases l with
  | none => simp [lastCall]
  | some l =>
    cases shown : Label.callOf t l <;> simp [lastCall, shown]

/-- A call that needs the mutex has it, a result is true when it is returned, and
each thread is about the call it made last. -/
structure Monitor.Truthful (past : List (Label τ σ)) (m : Monitor τ σ) : Prop where
  asked : ∀ t c, m.phase t = .asked c → c.needsMutex = true → m.owner = some t
  kept : ∀ t c e, m.phase t = .returning c e → c.Kept (m.owner = some t) m.guarded e
  last : ∀ t c, (m.phase t).call = some c → lastCall t past = some c

namespace Monitor

variable {m' : Monitor τ σ} {l : Option (Label τ σ)} {past : List (Label τ σ)} {u : τ}

@[simp] theorem phase_goto_self (o : Option τ) : (m.goto t o ph).phase t = ph := Function.update_self ..

/-- What a move leaves as it is for another thread. -/
theorem Move.frame (move : m.Move t l m') (truthful : m.Truthful past) (other : u ≠ t) :
    m'.phase u = m.phase u ∧ (m.owner = some u ↔ m'.owner = some u) ∧ (m.owner = some u → m'.guarded = m.guarded) ∧
      l.bind (Label.callOf u) = none := by
  have still : ∀ o ph, (m.goto t o ph).phase u = m.phase u := fun o ph => Function.update_of_ne other ..
  have foreign : some t ≠ some u := fun same => other (Option.some.inj same).symm
  have takes : m.owner = none → (m.owner = some u ↔ some t = some u) := fun free =>
    iff_of_false (by rw [free]; exact (Option.some_ne_none u).symm) foreign
  have gives : m.owner = none ∨ m.owner = some t → (m.owner = some u ↔ none = some u) := by
    intro before
    refine iff_of_false (fun owner => ?_) (Option.some_ne_none u).symm
    rcases before with free | mine
    · rw [free] at owner
      cases owner
    · exact foreign (mine.symm.trans owner)
  cases move with
  | call => exact ⟨still _ _, Iff.rfl, fun _ => rfl, if_neg (Ne.symm other)⟩
  | change _ owner => exact ⟨rfl, Iff.rfl, fun mine => absurd (owner.symm.trans mine) foreign, rfl⟩
  | returns => exact ⟨still _ _, Iff.rfl, fun _ => rfl, rfl⟩
  | lateLock | busy | finds => exact ⟨still _ _, Iff.rfl, fun _ => rfl, rfl⟩
  | locks _ free | triesLock _ free | enters _ _ _ free | late _ _ _ free =>
    exact ⟨still _ _, takes free, fun _ => rfl, rfl⟩
  | unlocks phase => exact ⟨still _ _, gives (Or.inr (truthful.asked t _ phase rfl)), fun _ => rfl, rfl⟩
  | suspends phase => exact ⟨still _ _, gives (Or.inr (truthful.asked t _ phase rfl)), fun _ => rfl, rfl⟩
  | queues _ free => exact ⟨still _ _, gives (Or.inl free), fun _ => rfl, rfl⟩

/-- What `Truthful` says of one thread, which made the call `made` last. -/
structure TruthfulOf (m : Monitor τ σ) (t : τ) (made : Option (Call σ)) : Prop where
  asked : ∀ c, m.phase t = .asked c → c.needsMutex = true → m.owner = some t
  kept : ∀ c e, m.phase t = .returning c e → c.Kept (m.owner = some t) m.guarded e
  last : ∀ c, (m.phase t).call = some c → made = some c

namespace TruthfulOf

variable {made : Option (Call σ)} {o : Option τ} {e : Error}

omit [DecidableEq τ] in
theorem outside (here : m.phase t = .outside) : m.TruthfulOf t made where
  asked c phase := by
    rw [here] at phase
    cases phase
  kept c e phase := by
    rw [here] at phase
    cases phase
  last c inside := by
    rw [here] at inside
    cases inside

theorem asks (allowed : c.needsMutex = true → o = some t) : (m.goto t o (.asked c)).TruthfulOf t (some c) where
  asked c' phase := by
    rw [phase_goto_self] at phase
    cases phase
    exact allowed
  kept c' e phase := by
    rw [phase_goto_self] at phase
    cases phase
  last c' inside := by
    rw [phase_goto_self] at inside
    exact inside

theorem waits (last : made = some c) : (m.goto t o (.waiting c)).TruthfulOf t made where
  asked c' phase := by
    rw [phase_goto_self] at phase
    cases phase
  kept c' e phase := by
    rw [phase_goto_self] at phase
    cases phase
  last c' inside := by
    rw [phase_goto_self] at inside
    exact last.trans inside

/-- A result is true when it is chosen. -/
theorem returns (last : made = some c) (kept : c.Kept (o = some t) m.guarded e) :
    (m.goto t o (.returning c e)).TruthfulOf t made where
  asked c' phase := by
    rw [phase_goto_self] at phase
    cases phase
  kept c' e' phase := by
    rw [phase_goto_self] at phase
    cases phase
    exact kept
  last c' inside := by
    rw [phase_goto_self] at inside
    exact last.trans inside

end TruthfulOf

/-- Where a move brings the thread that makes it. -/
theorem Move.own (move : m.Move t l m') (truthful : m.Truthful past) :
    m'.TruthfulOf t ((l.bind (Label.callOf t)).or (lastCall t past)) := by
  have last {c : Call σ} {ph : Phase σ} (phase : m.phase t = ph) (about : ph.call = some c) :
      lastCall t past = some c := truthful.last t c (by rw [phase, about])
  cases move with
  | @call c outside allowed =>
    have made : (Label.call t c).callOf t = some c := if_pos rfl
    rw [Option.bind_some, made]
    exact .asks allowed
  | change outside => exact .outside outside
  | returns => exact .outside (phase_goto_self ..)
  | locks phase | triesLock phase => exact .returns (last phase rfl) (Or.inl ⟨rfl, rfl⟩)
  | lateLock phase => exact .returns (last phase rfl) (Or.inr ⟨rfl, rfl⟩)
  | busy phase => exact .returns (last phase rfl) (Or.inr rfl)
  | unlocks phase => exact .returns (last phase rfl) ⟨rfl, (Option.some_ne_none t).symm⟩
  | finds phase holds =>
    have mine := truthful.asked t _ phase rfl
    exact .returns (last phase rfl) ⟨mine, Or.inl ⟨rfl, holds⟩⟩
  | suspends phase | queues phase => exact .waits (last phase rfl)
  | @enters c a phase _ waits free holds =>
    have made : lastCall t past = some c := phase.elim (last · rfl) (last · rfl)
    refine .returns made ?_
    cases c <;> cases waits <;> exact ⟨rfl, Or.inl ⟨rfl, holds⟩⟩
  | @late c a phase waits timed =>
    refine .returns (last phase rfl) ?_
    cases c <;> cases waits <;> exact ⟨rfl, Or.inr ⟨rfl, timed⟩⟩

theorem Truthful.next (truthful : m.Truthful past) (next : m.Next l m') : m'.Truthful (past ++ l.toList) := by
  obtain ⟨t, move⟩ := next
  obtain ⟨asked, kept, last⟩ := move.own truthful
  refine ⟨fun u c phase => ?_, fun u c e phase => ?_, fun u c inside => ?_⟩
  · by_cases mine : u = t
    · subst mine
      exact asked c phase
    · obtain ⟨still, owner, _, _⟩ := move.frame truthful mine
      exact fun needs => owner.mp (truthful.asked u c (still ▸ phase) needs)
  · by_cases mine : u = t
    · subst mine
      exact kept c e phase
    · obtain ⟨still, owner, guarded, _⟩ := move.frame truthful mine
      exact (truthful.kept u c e (still ▸ phase)).congr owner guarded
  · rw [lastCall_append]
    by_cases mine : u = t
    · subst mine
      exact last c inside
    · obtain ⟨still, _, _, shown⟩ := move.frame truthful mine
      rw [shown, Option.none_or]
      exact truthful.last u c (still ▸ inside)

theorem Truthful.start (g : σ) : (Monitor.start g : Monitor τ σ).Truthful [] := ⟨nofun, nofun, nofun⟩

end Monitor

/-- Inside the wait, without the mutex. -/
def Point.asleep : Point σ → Bool
  | .enqueued _ | .woken _ _ => true
  | _ => false

@[simp] theorem Point.asleep_wake (p : Point σ) : p.wake.asleep = p.asleep := by cases p <;> rfl

theorem Point.awake_of_locks {p : Point σ} (locks : p.locks = true) : (p.resume .ok).asleep = false := by
  cases p <;> first | rfl | cases locks

theorem Point.awake_of_notifies {p : Point σ} (notifies : p.notifies = true) : (p.resume .ok).asleep = false := by
  cases p <;> first | rfl | cases notifies

theorem Point.awake_of_tests {p : Point σ} {a : Await σ} (tests : p.tests = some a) (b : Bool) :
    (p.branch b).asleep = false := by
  cases p <;> cases tests <;> cases b <;> rfl

theorem Point.awake_of_wait (a : Await σ) (e : Error) : ((Point.loopWait a).resume e).asleep = false := by
  rw [resume_wait]
  split <;> rfl

/-- Who sleeps has not got the mutex. -/
def State.Apart (s : State τ σ) : Prop := ∀ t, (s.point t).asleep = true → s.owner ≠ some t

namespace State.Apart

omit [DecidableEq τ] in
theorem notifyAll (apart : s.Apart) : s.notifyAll.Apart := fun u asleep =>
  apart u ((Point.asleep_wake (s.point u)).symm.trans asleep)

theorem goto (apart : s.Apart) {p : Point σ} (free : p.asleep = true → s.owner ≠ some t) : (s.goto t p).Apart :=
  State.forall_goto (P := fun u q => q.asleep = true → s.owner ≠ some u) free fun u _ => apart u

theorem goto_awake (apart : s.Apart) {p : Point σ} (awake : p.asleep = false) : (s.goto t p).Apart :=
  apart.goto fun asleep => by rw [awake] at asleep; cases asleep

theorem acquire {p : Point σ} (awake : p.asleep = false) :
    ((s.acquire t).goto t p).Apart := by
  refine State.forall_goto (P := fun u q => q.asleep = true → some t ≠ some u) ?_ fun u other _ same => ?_
  · intro asleep
    rw [awake] at asleep
    cases asleep
  · exact other (Option.some.inj same).symm

theorem release {p : Point σ} : (s.release.goto t p).Apart := fun _ _ owner => by cases owner

theorem ran (apart : s.Apart) (ran : s.Ran t s') : s'.Apart := by
  cases ran with
  | takes locks free => exact acquire (Point.awake_of_locks locks)
  | refuses => exact apart.goto_awake rfl
  | notifies notifies => exact apart.notifyAll.goto_awake (Point.awake_of_notifies notifies)
  | releases | waits => exact release
  | tests tests => exact apart.goto_awake (Point.awake_of_tests tests _)
  | regains => exact acquire (Point.awake_of_wait _ _)
  | leaves => exact apart.goto_awake rfl

theorem step (apart : s.Apart) {a : Act σ} (next : s.step t a = some s') : s'.Apart := by
  cases stepped_of_step next with
  | run ran => exact apart.ran ran
  | @call c => exact apart.goto_awake (by cases c <;> rfl)
  | change => exact apart
  | spurious asleep | timeout asleep =>
    exact apart.goto fun _ => apart t (by rw [asleep]; rfl)
  | lateLock => exact apart.goto_awake rfl

theorem reached {start : State τ σ} (initial : start.Initial) (path : Relation.ReflTransGen State.Step start s) :
    s.Apart := by
  refine Runs.invariant (fun _ _ apart ⟨_, _, next⟩ => apart.step next) ?_ path
  intro t _ owner
  rw [initial.1] at owner
  cases owner

end State.Apart

/-- Where the code cannot go on by itself. -/
theorem State.stuck_cases (stuck : s.run t = none) :
    s.point t = .outside ∨ (∃ a, s.point t = .enqueued a) ∨
      s.owner ≠ none ∧ ((s.point t).locks = true ∨ ∃ a e, s.point t = .woken a e) := by
  unfold run at stuck
  cases point : s.point t with
  | outside => exact Or.inl rfl
  | enqueued a => exact Or.inr (Or.inl ⟨a, rfl⟩)
  | lock timed | lockWhen a =>
    rw [point] at stuck
    exact Or.inr (Or.inr ⟨fun free => by simp [free] at stuck, Or.inl rfl⟩)
  | woken a e =>
    rw [point] at stuck
    exact Or.inr (Or.inr ⟨fun free => by simp [free] at stuck, Or.inr ⟨a, e, rfl⟩⟩)
  | tryLock =>
    rw [point] at stuck
    simp only at stuck
    split at stuck <;> cases stuck
  | _ =>
    rw [point] at stuck
    cases stuck

end Rbc.ConditionMutex
