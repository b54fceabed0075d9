import Rbc.Basis.Trace
import Rbc.Sync.WakeUp

namespace Rbc.ConditionMutex

open Trace

variable {σ τ : Type}

/-- The condition that a call waits for. -/
def Call.waitsFor : Call σ → Option (Await σ)
  | .lockWhen a | .await a => some a
  | _ => none

/-- What a thread is about, seen from outside: it has made a call, has given the mutex up
until the condition of its call is true, or has got its answer. -/
inductive Phase (σ : Type)
  | outside
  | asked (c : Call σ)
  | waiting (c : Call σ)
  | returning (c : Call σ) (e : Error)

/-- Not yet let in: the thread takes the mutex only together with the truth of its condition. -/
def Phase.seeks : Phase σ → Bool
  | .asked (.lockWhen _) | .waiting _ => true
  | _ => false

/-- A monitor with conditional critical regions, which is what a condition mutex
is for: no condition variable, no wake-up and no loop. -/
structure Monitor (τ σ : Type) where
  owner : Option τ
  guarded : σ
  phase : τ → Phase σ

/-- What is seen of a condition mutex: the calls, their results and the changes
of the guarded state. -/
inductive Label (τ σ : Type)
  | call (t : τ) (c : Call σ)
  | change (t : τ) (g : σ)
  | returns (t : τ) (e : Error)

namespace Monitor

def start (g : σ) : Monitor τ σ := ⟨none, g, fun _ => .outside⟩

/-- Somebody has the mutex or is about to look at its condition. -/
def Contended (m : Monitor τ σ) : Prop := m.owner ≠ none ∨ ∃ u, (m.phase u).seeks = true

variable [DecidableEq τ]

def goto (m : Monitor τ σ) (t : τ) (owner : Option τ) (p : Phase σ) : Monitor τ σ :=
  { m with owner := owner, phase := Function.update m.phase t p }

theorem goto_self {m : Monitor τ σ} {t : τ} {o : Option τ} {p : Phase σ} (owner : m.owner = o) (phase : m.phase t = p) :
    m.goto t o p = m := by
  rw [← owner, ← phase]
  simp [goto]

/-- The moves of a thread in a monitor. It gets in when the mutex is free and its condition
is true at once; a wait that comes to its deadline gets in whatever the condition is. -/
inductive Move (m : Monitor τ σ) (t : τ) : Option (Label τ σ) → Monitor τ σ → Prop
  | call {c : Call σ} (outside : m.phase t = .outside) (allowed : c.needsMutex = true → m.owner = some t) :
    Move m t (some (.call t c)) (m.goto t m.owner (.asked c))
  | change {g : σ} (outside : m.phase t = .outside) (owner : m.owner = some t) :
    Move m t (some (.change t g)) { m with guarded := g }
  | returns {c : Call σ} {e : Error} (phase : m.phase t = .returning c e) :
    Move m t (some (.returns t e)) (m.goto t m.owner .outside)
  | locks {timed : Bool} (phase : m.phase t = .asked (.lock timed)) (free : m.owner = none) :
    Move m t none (m.goto t (some t) (.returning (.lock timed) .ok))
  | lateLock (phase : m.phase t = .asked (.lock true)) :
    Move m t none (m.goto t m.owner (.returning (.lock true) .timedOut))
  | triesLock (phase : m.phase t = .asked .tryLock) (free : m.owner = none) :
    Move m t none (m.goto t (some t) (.returning .tryLock .ok))
  | busy (phase : m.phase t = .asked .tryLock) (contended : m.Contended) :
    Move m t none (m.goto t m.owner (.returning .tryLock .deviceOrResourceBusy))
  | unlocks (phase : m.phase t = .asked .unlock) : Move m t none (m.goto t none (.returning .unlock .ok))
  | finds {a : Await σ} (phase : m.phase t = .asked (.await a)) (holds : a.condition m.guarded = true) :
    Move m t none (m.goto t m.owner (.returning (.await a) .ok))
  | suspends {a : Await σ} (phase : m.phase t = .asked (.await a)) (fails : a.condition m.guarded = false) :
    Move m t none (m.goto t none (.waiting (.await a)))
  | queues {a : Await σ} (phase : m.phase t = .asked (.lockWhen a)) (free : m.owner = none)
    (fails : a.condition m.guarded = false) : Move m t none (m.goto t none (.waiting (.lockWhen a)))
  | enters {c : Call σ} {a : Await σ} (phase : m.phase t = .asked c ∨ m.phase t = .waiting c)
    (seeks : (m.phase t).seeks = true) (waits : c.waitsFor = some a) (free : m.owner = none)
    (holds : a.condition m.guarded = true) : Move m t none (m.goto t (some t) (.returning c .ok))
  | late {c : Call σ} {a : Await σ} (phase : m.phase t = .waiting c) (waits : c.waitsFor = some a)
    (timed : a.timed = true) (free : m.owner = none) : Move m t none (m.goto t (some t) (.returning c .timedOut))

def Next (m : Monitor τ σ) (l : Option (Label τ σ)) (m' : Monitor τ σ) : Prop := ∃ t, m.Move t l m'

end Monitor

/-- What is seen of an act of a thread that stands at a point. -/
def Act.label (t : τ) : Point σ → Act σ → Option (Label τ σ)
  | _, .call c => some (.call t c)
  | _, .change g => some (.change t g)
  | .done e, .run => some (.returns t e)
  | _, _ => none

def State.Next [DecidableEq τ] (s : State τ σ) (l : Option (Label τ σ)) (s' : State τ σ) : Prop :=
  ∃ t a, s.step t a = some s' ∧ l = a.label t (s.point t)

/-- Inside the wait of the loop or on the way to it, after the condition was found false. -/
def Point.loops : Point σ → Option (Await σ)
  | .firstNotify a | .loopNotify a | .loopWait a | .loopTest a | .enqueued a => some a
  | .woken a e => if e = .ok ∨ e = .timedOut ∧ a.timed = true then some a else none
  | _ => none

/-- Where the code is in a phase. -/
inductive Matches : Point σ → Phase σ → Prop
  | outside : Matches .outside .outside
  | asked {p : Point σ} {c : Call σ} (entry : p = c.entry) : Matches p (.asked c)
  | unlockRelease : Matches .unlockRelease (.asked .unlock)
  | firstTest {a : Await σ} : Matches (.firstTest a) (.asked (.lockWhen a))
  | waiting {p : Point σ} {c : Call σ} {a : Await σ} (loops : p.loops = some a) (waits : c.waitsFor = some a) :
    Matches p (.waiting c)
  | returning {c : Call σ} {e : Error} : Matches (.done e) (.returning c e)

/-- The code has the mutex, but only to look at the condition or to go to sleep, and
has not let the thread in. -/
def Transient (p : Point σ) (ph : Phase σ) : Prop := p.holds = true ∧ ph.seeks = true

/-- The state of the code as a state of a monitor. -/
structure Refines (s : State τ σ) (m : Monitor τ σ) : Prop where
  inv : Invariant s
  guarded : m.guarded = s.guarded
  points : ∀ t, Matches (s.point t) (m.phase t)
  owner : ∀ t, m.owner = some t ↔ s.owner = some t ∧ ¬Transient (s.point t) (m.phase t)

variable {s s' : State τ σ} {m : Monitor τ σ} {t : τ} {p : Point σ} {ph : Phase σ} {a : Await σ} {c : Call σ}

namespace Matches

theorem of_outside (matched : Matches .outside ph) : ph = .outside := by
  cases matched with
  | outside => rfl
  | @asked _ c entry => cases c <;> cases entry
  | waiting loops _ => cases loops

theorem of_lock {timed : Bool} (matched : Matches (.lock timed) ph) : ph = .asked (.lock timed) := by
  cases matched with
  | @asked _ c entry =>
    cases c <;> cases entry
    rfl
  | waiting loops _ => cases loops

theorem of_tryLock (matched : Matches .tryLock ph) : ph = .asked .tryLock := by
  cases matched with
  | @asked _ c entry =>
    cases c <;> cases entry
    rfl
  | waiting loops _ => cases loops

theorem of_lockWhen (matched : Matches (.lockWhen a) ph) : ph = .asked (.lockWhen a) := by
  cases matched with
  | @asked _ c entry =>
    cases c <;> cases entry
    rfl
  | waiting loops _ => cases loops

theorem of_unlock (matched : Matches p ph) (point : p = .unlockNotify ∨ p = .unlockRelease) : ph = .asked .unlock := by
  rcases point with rfl | rfl
  · cases matched with
    | @asked _ c entry =>
      cases c <;> cases entry
      rfl
    | waiting loops _ => cases loops
  · cases matched with
    | @asked _ c entry => cases c <;> cases entry
    | unlockRelease => rfl
    | waiting loops _ => cases loops

theorem of_firstTest (matched : Matches (.firstTest a) ph) : ph = .asked (.await a) ∨ ph = .asked (.lockWhen a) := by
  cases matched with
  | @asked _ c entry =>
    cases c <;> cases entry
    exact Or.inl rfl
  | firstTest => exact Or.inr rfl
  | waiting loops _ => cases loops

theorem of_done {e : Error} (matched : Matches (.done e) ph) : ∃ c, ph = .returning c e := by
  cases matched with
  | @asked _ c entry => cases c <;> cases entry
  | waiting loops _ => cases loops
  | @returning c => exact ⟨c, rfl⟩

theorem of_loops (matched : Matches p ph) (loops : p.loops = some a) : ∃ c, ph = .waiting c ∧ c.waitsFor = some a := by
  cases matched with
  | outside | unlockRelease | firstTest | returning => cases loops
  | @asked _ c entry =>
    subst entry
    cases c <;> cases loops
  | @waiting _ c b found waits =>
    cases Option.some.inj (found.symm.trans loops)
    exact ⟨c, rfl, waits⟩

theorem of_woken {e : Error} (matched : Matches (.woken a e) ph) :
    (e = .ok ∨ e = .timedOut ∧ a.timed = true) ∧ ∃ c, ph = .waiting c ∧ c.waitsFor = some a := by
  cases matched with
  | @asked _ c entry => cases c <;> cases entry
  | @waiting _ c b loops waits =>
    obtain ⟨result, same⟩ := Option.ite_none_right_eq_some.mp loops
    cases same
    exact ⟨result, c, rfl, waits⟩

theorem wake (matched : Matches p ph) : Matches p.wake ph := by
  cases p with
  | enqueued a =>
    obtain ⟨c, rfl, waits⟩ := matched.of_loops rfl
    exact .waiting (by simp [Point.wake, Point.loops]) waits
  | _ => exact matched

end Matches

theorem not_transient_of_holds (holds : p.holds = false) : ¬Transient p ph := by
  intro transient
  rw [transient.1] at holds
  cases holds

namespace Refines

theorem start (initial : s.Initial) : Refines s (Monitor.start s.guarded) := by
  obtain ⟨free, outside⟩ := initial
  refine ⟨Invariant.initial ⟨free, outside⟩, rfl, ?_, ?_⟩
  · intro t
    rw [outside t]
    exact .outside
  · intro t
    rw [free]
    simp [Monitor.start]

theorem notifyAll (r : Refines s m) : Refines s.notifyAll m := by
  refine ⟨r.inv.notifyAll.1, r.guarded, fun t => (r.points t).wake, fun t => ?_⟩
  have same : Transient (s.notifyAll.point t) (m.phase t) ↔ Transient (s.point t) (m.phase t) := by
    simp only [Transient, State.notifyAll, Point.holds_wake]
  rw [same]
  exact r.owner t

/-- The mutex of the code is taken, and the monitor looks free, while a thread is in between. -/
theorem contended (r : Refines s m) (held : s.owner ≠ none) : m.Contended := by
  obtain ⟨u, owner⟩ := Option.ne_none_iff_exists'.mp held
  by_cases transient : Transient (s.point u) (m.phase u)
  · exact Or.inr ⟨u, transient.2⟩
  · refine Or.inl fun free => ?_
    rw [(r.owner u).mpr ⟨owner, transient⟩] at free
    cases free

theorem free (r : Refines s m) (free : s.owner = none) : m.owner = none := by
  refine Option.eq_none_iff_forall_not_mem.mpr fun u found => ?_
  have owner := ((r.owner u).mp found).1
  rw [free] at owner
  cases owner

variable [DecidableEq τ]

/-- A move of one thread in the code, and what it is in the monitor. -/
theorem move (r : Refines s m) {o o' : Option τ} (inv : Invariant ({ s with owner := o }.goto t p)) (matched : Matches p ph)
    (others : ∀ u, u ≠ t → (o' = some u ↔ o = some u ∧ ¬Transient (s.point u) (m.phase u)))
    (own : o' = some t ↔ o = some t ∧ ¬Transient p ph) : Refines ({ s with owner := o }.goto t p) (m.goto t o' ph) := by
  refine ⟨inv, r.guarded, fun u => ?_, fun u => ?_⟩
  · by_cases mine : u = t
    · simpa [mine, State.goto, Monitor.goto] using matched
    · simpa [mine, State.goto, Monitor.goto] using r.points u
  · by_cases mine : u = t
    · simpa [mine, State.goto, Monitor.goto] using own
    · simpa [mine, State.goto, Monitor.goto] using others u mine

theorem goto (r : Refines s m) (inv : Invariant (s.goto t p)) (matched : Matches p ph)
    (same : s.owner = some t → (Transient p ph ↔ Transient (s.point t) (m.phase t))) :
    Refines (s.goto t p) (m.goto t m.owner ph) := by
  refine r.move (o := s.owner) inv matched (fun u _ => r.owner u) ?_
  rw [r.owner t]
  exact and_congr_right fun owner => not_congr (same owner).symm

/-- A move by which the mutex of the code or that of the monitor comes to a thread or goes from it. -/
theorem own (r : Refines s m) {o o' : Option τ} (inv : Invariant ({ s with owner := o }.goto t p)) (matched : Matches p ph)
    (before : o = none ∨ o = some t) (after : o' = none ∨ o' = some t) (own : o' = some t ↔ o = some t ∧ ¬Transient p ph) :
    Refines ({ s with owner := o }.goto t p) (m.goto t o' ph) := by
  refine r.move inv matched (fun u other => ?_) own
  have nobody : ∀ x : Option τ, x = none ∨ x = some t → x ≠ some u := by
    rintro x (rfl | rfl) found
    · cases found
    · exact other (Option.some.inj found).symm
  exact iff_of_false (nobody o' after) fun found => nobody o before found.1

/-- The thread is let in. -/
theorem lets (r : Refines s m) {o : Option τ} (owner : o = some t) (inv : Invariant ({ s with owner := o }.goto t p))
    (matched : Matches p ph) (inside : p.holds = false) : Refines ({ s with owner := o }.goto t p) (m.goto t (some t) ph) :=
  r.own inv matched (Or.inr owner) (Or.inr rfl) (iff_of_true rfl ⟨owner, not_transient_of_holds inside⟩)

/-- The thread gives the mutex of the monitor up, or has not got it. -/
theorem yields (r : Refines s m) {o : Option τ} (before : o = none ∨ o = some t ∧ Transient p ph)
    (inv : Invariant ({ s with owner := o }.goto t p)) (matched : Matches p ph) :
    Refines ({ s with owner := o }.goto t p) (m.goto t none ph) := by
  refine r.own inv matched (before.imp id And.left) (Or.inl rfl) (iff_of_false (Option.some_ne_none t).symm ?_)
  rintro ⟨owner, between⟩
  rcases before with free | ⟨_, transient⟩
  · rw [free] at owner
    cases owner
  · exact between transient

omit [DecidableEq τ] in
theorem free_of_transient (r : Refines s m) (owner : s.owner = some t) (transient : Transient (s.point t) (m.phase t)) :
    m.owner = none := by
  refine Option.eq_none_iff_forall_not_mem.mpr fun u found => ?_
  obtain ⟨owns, between⟩ := (r.owner u).mp found
  cases Option.some.inj (owner.symm.trans owns)
  exact between transient

/-- A move that is not seen. -/
theorem stay (r : Refines s m) (inv : Invariant (s.goto t p)) (matched : Matches p (m.phase t))
    (same : s.owner = some t → (Transient p (m.phase t) ↔ Transient (s.point t) (m.phase t))) : Refines (s.goto t p) m := by
  have moved := r.goto inv matched same
  rwa [Monitor.goto_self rfl rfl] at moved

/-- A test of the condition, at which the monitor lets the thread in or not. -/
theorem tests (r : Refines s m) (tests : (s.point t).tests = some a)
    (inv : Invariant (s.goto t ((s.point t).branch (a.condition s.guarded)))) :
    ∃ m', Path Monitor.Next m [] m' ∧ Refines (s.goto t ((s.point t).branch (a.condition s.guarded))) m' := by
  have matched := r.points t
  have owner : s.owner = some t := r.inv.owns t (Point.branch_of_tests tests).1
  cases point : s.point t with
  | firstTest b =>
    rw [point] at tests matched inv
    cases tests
    rcases matched.of_firstTest with phase | phase
    · cases answer : a.condition s.guarded with
      | true =>
        rw [answer] at inv
        refine ⟨_, Path.silent ⟨t, .finds phase (r.guarded ▸ answer)⟩, r.goto inv .returning fun _ => ?_⟩
        rw [point, phase]
        exact iff_of_false (not_transient_of_holds rfl) fun transient => by cases transient.2
      | false =>
        rw [answer] at inv
        exact ⟨_, Path.silent ⟨t, .suspends phase (r.guarded ▸ answer)⟩,
          r.yields (Or.inr ⟨owner, rfl, rfl⟩) inv (.waiting (c := .await a) rfl rfl)⟩
    · have free : m.owner = none := r.free_of_transient owner (by rw [point, phase]; exact ⟨rfl, rfl⟩)
      cases answer : a.condition s.guarded with
      | true =>
        rw [answer] at inv
        exact ⟨_, Path.silent ⟨t, .enters (Or.inl phase) (by rw [phase]; rfl) rfl free (r.guarded ▸ answer)⟩,
          r.lets owner inv .returning rfl⟩
      | false =>
        rw [answer] at inv
        exact ⟨_, Path.silent ⟨t, .queues phase free (r.guarded ▸ answer)⟩,
          r.yields (Or.inr ⟨owner, rfl, rfl⟩) inv (.waiting (c := .lockWhen a) rfl rfl)⟩
  | loopTest b =>
    rw [point] at tests matched inv
    cases tests
    obtain ⟨c, phase, waits⟩ := matched.of_loops rfl
    cases answer : a.condition s.guarded with
    | true =>
      have free : m.owner = none := r.free_of_transient owner (by rw [point, phase]; exact ⟨rfl, rfl⟩)
      rw [answer] at inv
      exact ⟨_, Path.silent ⟨t, .enters (Or.inr phase) (by rw [phase]; rfl) waits free (r.guarded ▸ answer)⟩,
        r.lets owner inv .returning rfl⟩
    | false =>
      rw [answer] at inv
      refine ⟨m, .refl, r.stay inv ?_ fun _ => ?_⟩
      · rw [phase]
        exact .waiting rfl waits
      · rw [point]
        exact Iff.rfl
  | _ =>
    rw [point] at tests
    cases tests

/-- The mutex is taken: by a thread that is let in, or only to test. -/
theorem takes (r : Refines s m) (locks : (s.point t).locks = true) (free : s.owner = none)
    (inv : Invariant ((s.acquire t).goto t ((s.point t).resume .ok))) :
    ∃ m', Path Monitor.Next m [] m' ∧ Refines ((s.acquire t).goto t ((s.point t).resume .ok)) m' := by
  have matched := r.points t
  cases point : s.point t with
  | lock timed =>
    rw [point] at matched inv
    exact ⟨_, Path.silent ⟨t, .locks matched.of_lock (r.free free)⟩, r.lets (o := some t) rfl inv .returning rfl⟩
  | tryLock =>
    rw [point] at matched inv
    exact ⟨_, Path.silent ⟨t, .triesLock matched.of_tryLock (r.free free)⟩, r.lets (o := some t) rfl inv .returning rfl⟩
  | lockWhen a =>
    rw [point] at matched inv
    have between : Refines ((s.acquire t).goto t (.firstTest a)) (m.goto t none (.asked (.lockWhen a))) :=
      r.yields (o := some t) (Or.inr ⟨rfl, rfl, rfl⟩) inv .firstTest
    rw [Monitor.goto_self (r.free free) matched.of_lockWhen] at between
    exact ⟨m, .refl, between⟩
  | _ =>
    rw [point] at locks
    cases locks

/-- The mutex is taken again after the wait: to test once more, or for good after a timeout. -/
theorem regains (r : Refines s m) {e : Error} (point : s.point t = .woken a e) (free : s.owner = none)
    (inv : Invariant ((s.acquire t).goto t ((Point.loopWait a).resume e))) :
    ∃ m', Path Monitor.Next m [] m' ∧ Refines ((s.acquire t).goto t ((Point.loopWait a).resume e)) m' := by
  have matched := r.points t
  rw [point] at matched
  obtain ⟨result, c, phase, waits⟩ := matched.of_woken
  rcases result with rfl | ⟨rfl, timed⟩
  · rw [Point.resume_wait, if_pos (Or.inl rfl)] at inv ⊢
    have between : Refines ((s.acquire t).goto t (.loopTest a)) (m.goto t none (.waiting c)) :=
      r.yields (o := some t) (Or.inr ⟨rfl, rfl, rfl⟩) inv (.waiting rfl waits)
    rw [Monitor.goto_self (r.free free) phase] at between
    exact ⟨m, .refl, between⟩
  · have out : (Point.loopWait a).resume .timedOut = .done .timedOut := by simp [Point.resume, timed]
    rw [out] at inv ⊢
    exact ⟨_, Path.silent ⟨t, .late phase waits timed (r.free free)⟩, r.lets (o := some t) rfl inv .returning rfl⟩

/-- The broadcast is not seen. -/
theorem notifies (r : Refines s m) (notifies : (s.point t).notifies = true)
    (inv : Invariant (s.notifyAll.goto t ((s.point t).resume .ok))) : Refines (s.notifyAll.goto t ((s.point t).resume .ok)) m := by
  have matched := r.points t
  have woken : (s.notifyAll.point t) = (s.point t).wake := rfl
  cases point : s.point t with
  | unlockNotify =>
    rw [point] at matched inv woken
    refine r.notifyAll.stay inv ?_ fun _ => ?_
    · rw [matched.of_unlock (Or.inl rfl)]
      exact .unlockRelease
    · rw [woken]
      exact Iff.rfl
  | firstNotify a | loopNotify a =>
    rw [point] at matched inv woken
    obtain ⟨c, phase, waits⟩ := matched.of_loops rfl
    refine r.notifyAll.stay inv ?_ fun _ => ?_
    · rw [phase]
      exact .waiting rfl waits
    · rw [woken]
      exact Iff.rfl
  | _ =>
    rw [point] at notifies
    cases notifies

/-- A thread that sleeps or leaves has nothing to do with the mutex. -/
theorem stay_away (r : Refines s m) (asleep : (s.point t).loops = some a) (before : (s.point t).holds = false)
    (inv : Invariant (s.goto t p)) (loops : p.loops = some a) (after : p.holds = false) : Refines (s.goto t p) m := by
  obtain ⟨c, phase, waits⟩ := (r.points t).of_loops asleep
  refine r.stay inv ?_ fun _ => ?_
  · rw [phase]
    exact .waiting loops waits
  · exact iff_of_false (not_transient_of_holds after) (not_transient_of_holds before)

theorem goto_away (r : Refines s m) (before : (s.point t).holds = false) (inv : Invariant (s.goto t p)) (matched : Matches p ph)
    (after : p.holds = false) : Refines (s.goto t p) (m.goto t m.owner ph) :=
  r.goto inv matched fun _ => iff_of_false (not_transient_of_holds after) (not_transient_of_holds before)

theorem ran (r : Refines s m) (run : s.run t = some s') (inv : Invariant s') :
    ∃ m', Path Monitor.Next m (Act.label t (s.point t) .run : Option (Label τ σ)).toList m' ∧ Refines s' m' := by
  have matched := r.points t
  have silent : (∀ e, s.point t ≠ .done e) → (Act.label t (s.point t) .run : Option (Label τ σ)).toList = [] := by
    intro inside
    cases point : s.point t with
    | done e => exact absurd point (inside e)
    | _ => rfl
  cases State.ran_of_run run with
  | takes locks free =>
    rw [silent fun e point => by rw [point] at locks; cases locks]
    exact r.takes locks free inv
  | refuses point =>
    rw [point] at matched ⊢
    have held : s.owner ≠ none := by
      intro free
      simp only [State.run, point, free, Option.isNone_none, if_true] at run
      have differs := congrArg (fun s => s.point t) (Option.some.inj run)
      simp [Point.resume] at differs
    exact ⟨_, Path.silent ⟨t, .busy matched.of_tryLock (r.contended held)⟩, r.goto_away (by rw [point]; rfl) inv .returning rfl⟩
  | notifies notifies =>
    rw [silent fun e point => by rw [point] at notifies; cases notifies]
    exact ⟨m, .refl, r.notifies notifies inv⟩
  | releases point =>
    rw [point] at matched ⊢
    exact ⟨_, Path.silent ⟨t, .unlocks (matched.of_unlock (Or.inr rfl))⟩, r.yields (o := none) (Or.inl rfl) inv .returning⟩
  | tests tests =>
    rw [silent fun e point => by rw [point] at tests; cases tests]
    exact r.tests tests inv
  | @waits a point =>
    rw [point] at matched ⊢
    obtain ⟨c, phase, waits⟩ := matched.of_loops rfl
    have free : m.owner = none :=
      r.free_of_transient (r.inv.owns t (by rw [point]; rfl)) (by rw [point, phase]; exact ⟨rfl, rfl⟩)
    have asleep : Refines (s.release.goto t (.enqueued a)) (m.goto t none (.waiting c)) :=
      r.yields (o := none) (Or.inl rfl) inv (.waiting rfl waits)
    rw [Monitor.goto_self free phase] at asleep
    exact ⟨m, .refl, asleep⟩
  | regains point free =>
    rw [silent fun e done => by rw [point] at done; cases done]
    exact r.regains point free inv
  | leaves point =>
    rw [point] at matched ⊢
    obtain ⟨c, phase⟩ := matched.of_done
    exact ⟨_, Path.one ⟨t, .returns phase⟩, r.goto_away (by rw [point]; rfl) inv .outside rfl⟩

theorem simulates : Simulates State.Next (Monitor.Next (τ := τ) (σ := σ)) Refines := by
  rintro s m l s' r ⟨t, act, step, rfl⟩
  have inv := r.inv.step step
  have matched := r.points t
  cases State.stepped_of_step step with
  | run => exact r.ran step inv
  | @call c outside allowed =>
    rw [outside] at matched ⊢
    refine ⟨_, Path.one ⟨t, .call matched.of_outside fun needs => ?_⟩, r.goto inv (.asked rfl) fun _ => ?_⟩
    · exact (r.owner t).mpr ⟨allowed needs, not_transient_of_holds (by rw [outside]; rfl)⟩
    · rw [outside]
      refine iff_of_false ?_ (not_transient_of_holds rfl)
      rintro ⟨holds, seeks⟩
      cases c with
      | lockWhen a => cases holds
      | _ => cases seeks
  | @change g outside owner =>
    rw [outside] at matched ⊢
    have owns : m.owner = some t := (r.owner t).mpr ⟨owner, not_transient_of_holds (by rw [outside]; rfl)⟩
    exact ⟨_, Path.one ⟨t, .change matched.of_outside owns⟩, inv, rfl, r.points, r.owner⟩
  | spurious asleep =>
    rw [asleep]
    exact ⟨m, .refl, r.stay_away (by rw [asleep]; rfl) (by rw [asleep]; rfl) inv (by simp [Point.loops]) rfl⟩
  | timeout asleep timed =>
    rw [asleep]
    exact ⟨m, .refl, r.stay_away (by rw [asleep]; rfl) (by rw [asleep]; rfl) inv (by simp [Point.loops, timed]) rfl⟩
  | lateLock point =>
    rw [point] at matched ⊢
    exact ⟨_, Path.silent ⟨t, .lateLock matched.of_lock⟩, r.goto_away (by rw [point]; rfl) inv .returning rfl⟩

end Refines

/-- The steps of the code with what is seen of them. -/
def State.seen [DecidableEq τ] (i : τ × Act σ) (s : State τ σ) : Option (State τ σ × Option (Label τ σ)) :=
  (s.step i.1 i.2).map (·, i.2.label i.1 (s.point i.1))

theorem State.next_of_seen [DecidableEq τ] (i : τ × Act σ) (s s' : State τ σ) (l : Option (Label τ σ))
    (seen : s.seen i = some (s', l)) : s.Next l s' := by
  obtain ⟨next, stepped, same⟩ := Option.map_eq_some_iff.mp seen
  cases same
  exact ⟨i.1, i.2, stepped, rfl⟩

/-- A thread waits for a flag, and another one sets it. -/
def handOver : List (Bool × Act Bool) :=
  [(true, .call (.lockWhen ⟨id, false⟩)), (true, .run), (true, .run), (true, .run), (true, .run), (true, .run),
    (false, .call (.lock false)), (false, .run), (false, .run), (false, .change true), (false, .call .unlock),
    (false, .run), (false, .run), (false, .run), (true, .run), (true, .run)]

end Rbc.ConditionMutex
