import Mathlib.Data.List.Basic
import Rbc.Basis.Exclusion
import Rbc.Core.Win32

namespace Rbc.SharedMutex

open Exclusion

inductive Mode
  | shared | exclusive
  deriving DecidableEq, Repr

/-- Readers share the lock with readers only. -/
def Conflict : Mode → Mode → Prop
  | .shared, .shared => False
  | _, _ => True

/-- A readers-writer lock: the readers, each as often as it has it, or the writer. -/
inductive RwLock (τ : Type)
  | read (readers : List τ)
  | write (t : τ)
  deriving DecidableEq

/-- What an implementation of `pthread_rwlock_t` decides: whether a thread that has
the lock is told of the deadlock, and how many readers there may be. -/
structure System where
  detectsWriter : Bool
  detectsReader : Bool
  readers : Nat

/-- A call on the lock. A reader is deferred when a writer waits before it. -/
inductive Request
  | lock
  | tryLock
  | lockShared (deferred : Bool)
  | tryLockShared (deferred : Bool)
  | unlock
  | unlockShared
  deriving DecidableEq, Repr

/-- The functions of a back end. A call that is undefined has no result, and one that
has not returned yet leaves no error. -/
structure Functions (τ : Type) where
  lock : τ → RwLock τ → Option (RwLock τ × Option Error)
  tryLock : τ → RwLock τ → Option (RwLock τ × Option Error)
  lockShared : Bool → τ → RwLock τ → Option (RwLock τ × Option Error)
  tryLockShared : Bool → τ → RwLock τ → Option (RwLock τ × Option Error)
  unlock : τ → RwLock τ → Option (RwLock τ × Option Error)
  unlockShared : τ → RwLock τ → Option (RwLock τ × Option Error)

def Functions.step {τ : Type} (f : Functions τ) : τ × Request → RwLock τ → Option (RwLock τ × Option Error)
  | (t, .lock) => f.lock t
  | (t, .tryLock) => f.tryLock t
  | (t, .lockShared deferred) => f.lockShared deferred t
  | (t, .tryLockShared deferred) => f.tryLockShared deferred t
  | (t, .unlock) => f.unlock t
  | (t, .unlockShared) => f.unlockShared t

variable {τ : Type} [DecidableEq τ]

namespace RwLock

def free : RwLock τ := .read []

/-- `pthread_rwlock_wrlock`. -/
def wrlock (sys : System) (t : τ) : RwLock τ → RwLock τ × Option Error
  | .read [] => (.write t, some .ok)
  | .read (r :: readers) =>
    (.read (r :: readers), if t ∈ r :: readers ∧ sys.detectsReader then some .resourceDeadlockWouldOccur else none)
  | .write u => (.write u, if u = t ∧ sys.detectsWriter then some .resourceDeadlockWouldOccur else none)

/-- `pthread_rwlock_trywrlock`. -/
def trywrlock (t : τ) : RwLock τ → RwLock τ × Option Error
  | .read [] => (.write t, some .ok)
  | s => (s, some .deviceOrResourceBusy)

/-- `pthread_rwlock_rdlock`. -/
def rdlock (sys : System) (deferred : Bool) (t : τ) : RwLock τ → RwLock τ × Option Error
  | .read readers =>
    if deferred then (.read readers, none)
    else if readers.length < sys.readers then (.read (t :: readers), some .ok)
    else (.read readers, some .resourceUnavailableTryAgain)
  | .write u => (.write u, if u = t ∧ sys.detectsWriter then some .resourceDeadlockWouldOccur else none)

/-- `pthread_rwlock_tryrdlock`. -/
def tryrdlock (sys : System) (deferred : Bool) (t : τ) : RwLock τ → RwLock τ × Option Error
  | .read readers =>
    if deferred then (.read readers, some .deviceOrResourceBusy)
    else if readers.length < sys.readers then (.read (t :: readers), some .ok)
    else (.read readers, some .resourceUnavailableTryAgain)
  | .write u => (.write u, some .deviceOrResourceBusy)

/-- `pthread_rwlock_unlock`, for readers and for the writer. -/
def unlock (t : τ) : RwLock τ → Option (RwLock τ)
  | .read readers => if t ∈ readers then some (.read (readers.erase t)) else none
  | .write u => if u = t then some (.read []) else none

/-- `AcquireSRWLockExclusive`, which waits for ever where its caller has the lock;
whether it has returned. -/
def acquireExclusive (t : τ) : RwLock τ → RwLock τ × Bool
  | .read [] => (.write t, true)
  | s => (s, false)

/-- `AcquireSRWLockShared`. -/
def acquireShared (deferred : Bool) (t : τ) : RwLock τ → RwLock τ × Bool
  | .read readers => if deferred then (.read readers, false) else (.read (t :: readers), true)
  | .write u => (.write u, false)

/-- `ReleaseSRWLockExclusive`. -/
def releaseExclusive (t : τ) : RwLock τ → Option (RwLock τ)
  | .read _ => none
  | .write u => if u = t then some (.read []) else none

/-- `ReleaseSRWLockShared`. -/
def releaseShared (t : τ) : RwLock τ → Option (RwLock τ)
  | .read readers => if t ∈ readers then some (.read (readers.erase t)) else none
  | .write _ => none

end RwLock

def pthreads (sys : System) : Functions τ where
  lock t s := some (s.wrlock sys t)
  tryLock t s := some (s.trywrlock t)
  lockShared deferred t s := some (s.rdlock sys deferred t)
  tryLockShared deferred t s := some (s.tryrdlock sys deferred t)
  unlock t s := (s.unlock t).map fun s' => (s', some .ok)
  unlockShared t s := (s.unlock t).map fun s' => (s', some .ok)

def win32 : Functions τ where
  lock t s :=
    let (s', acquired) := s.acquireExclusive t
    some (s', if acquired then some .ok else none)
  tryLock t s :=
    let (s', acquired) := s.acquireExclusive t
    some (s', some (if acquired then .ok else .deviceOrResourceBusy))
  lockShared deferred t s :=
    let (s', acquired) := s.acquireShared deferred t
    some (s', if acquired then some .ok else none)
  tryLockShared deferred t s :=
    let (s', acquired) := s.acquireShared deferred t
    some (s', some (if acquired then .ok else .deviceOrResourceBusy))
  unlock t s := (s.releaseExclusive t).map fun s' => (s', some .ok)
  unlockShared t s := (s.releaseShared t).map fun s' => (s', some .ok)

/-- What an answer means to the thread that gets it. It unlocks what it has. -/
def effect : τ × Request → Option Error → Effect τ Mode
  | (t, .lock), e | (t, .tryLock), e => if e = some .ok then .takes t .exclusive else .nothing
  | (t, .lockShared _), e | (t, .tryLockShared _), e => if e = some .ok then .takes t .shared else .nothing
  | (t, .unlock), e | (t, .unlockShared), e => if e = some .ok then .releases t else .nothing

/-- What the threads have according to the answers they were given. -/
def believed (calls : List (τ × Request)) (answers : List (Option Error)) : Holdings τ Mode :=
  ledger ((calls.zip answers).map fun io => effect io.1 io.2)

namespace RwLock

def held : RwLock τ → Holdings τ Mode
  | .read readers => fun t m => if m = .shared then readers.count t else 0
  | .write u => fun t m => if t = u ∧ m = .exclusive then 1 else 0

theorem exclusive_held (s : RwLock τ) : Exclusive Conflict s.held := by
  intro t u m n other first second
  cases s with
  | read readers =>
    cases m with
    | exclusive => simp [held] at first
    | shared =>
      cases n with
      | exclusive => simp [held] at second
      | shared => exact not_false
  | write w =>
    simp only [held] at first second
    split at first <;> split at second <;> simp_all

theorem held_write_of_free (t : τ) (u : τ) (m : Mode) :
    (Effect.takes t Mode.exclusive).apply (held (.read [])) u m ≤ held (.write t) u m := by
  by_cases mine : u = t ∧ m = .exclusive <;> simp [Effect.apply, held, mine]

theorem held_read_cons (readers : List τ) (t u : τ) (m : Mode) :
    (Effect.takes t Mode.shared).apply (held (.read readers)) u m ≤ held (.read (t :: readers)) u m := by
  cases m with
  | exclusive => simp [Effect.apply, held]
  | shared =>
    by_cases mine : u = t
    · simp [Effect.apply, held, mine]
    · simp [Effect.apply, held, mine, List.count_cons_of_ne (Ne.symm mine)]

theorem held_unlock {s s' : RwLock τ} {t : τ} (unlocks : s.unlock t = some s') (u : τ) (m : Mode) :
    (Effect.releases t).apply s.held u m ≤ s'.held u m := by
  cases s with
  | read readers =>
    obtain ⟨-, same⟩ := Option.ite_none_right_eq_some.mp unlocks
    cases same
    by_cases mine : u = t
    · cases m <;> simp [Effect.apply, held, mine]
    · cases m <;> simp [Effect.apply, held, mine, List.count_erase_of_ne mine]
  | write w =>
    obtain ⟨own, same⟩ := Option.ite_none_right_eq_some.mp unlocks
    cases same
    by_cases mine : u = t
    · cases m <;> simp [Effect.apply, held, mine, own]
    · simp [Effect.apply, held, mine, own]

theorem unlock_of_releaseExclusive {s s' : RwLock τ} {t : τ} (released : s.releaseExclusive t = some s') :
    s.unlock t = some s' := by
  cases s with
  | read readers => cases released
  | write u => exact released

theorem unlock_of_releaseShared {s s' : RwLock τ} {t : τ} (released : s.releaseShared t = some s') :
    s.unlock t = some s' := by
  cases s with
  | read readers => exact released
  | write u => cases released

end RwLock

/-- What a call does to the lock. -/
inductive Moves (s : RwLock τ) : τ × Request → RwLock τ → Option Error → Prop
  | writes {t : τ} {r : Request} (wants : r = .lock ∨ r = .tryLock) (free : s = .read []) :
    Moves s (t, r) (.write t) (some .ok)
  | reads {t : τ} {r : Request} {readers : List τ} (wants : ∃ d, r = .lockShared d ∨ r = .tryLockShared d)
    (open' : s = .read readers) : Moves s (t, r) (.read (t :: readers)) (some .ok)
  | unlocks {t : τ} {r : Request} {s' : RwLock τ} (wants : r = .unlock ∨ r = .unlockShared)
    (unlocks : s.unlock t = some s') : Moves s (t, r) s' (some .ok)
  | refused {i : τ × Request} {e : Option Error} (error : e ≠ some .ok) : Moves s i s e

theorem Moves.honest {s s' : RwLock τ} {i : τ × Request} {e : Option Error} (moves : Moves s i s' e) (u : τ) (m : Mode) :
    (effect i e).apply s.held u m ≤ s'.held u m := by
  cases moves with
  | writes wants free =>
    subst free
    rcases wants with rfl | rfl
    · exact RwLock.held_write_of_free _ u m
    · exact RwLock.held_write_of_free _ u m
  | reads wants open' =>
    subst open'
    obtain ⟨d, rfl | rfl⟩ := wants
    · exact RwLock.held_read_cons _ _ u m
    · exact RwLock.held_read_cons _ _ u m
  | unlocks wants unlocks =>
    rcases wants with rfl | rfl
    · exact RwLock.held_unlock unlocks u m
    · exact RwLock.held_unlock unlocks u m
  | refused error =>
    obtain ⟨t, r⟩ := i
    cases r <;> simp [effect, error, Effect.apply]

theorem moves_pthreads {sys : System} {s s' : RwLock τ} {i : τ × Request} {e : Option Error}
    (called : (pthreads sys).step i s = some (s', e)) : Moves s i s' e := by
  obtain ⟨t, r⟩ := i
  cases r with
  | lock =>
    match s, Option.some.inj called with
    | .read [], rfl => exact .writes (Or.inl rfl) rfl
    | .read (r :: readers), rfl => exact .refused (by split <;> simp)
    | .write u, rfl => exact .refused (by split <;> simp)
  | tryLock =>
    match s, Option.some.inj called with
    | .read [], rfl => exact .writes (Or.inr rfl) rfl
    | .read (r :: readers), rfl => exact .refused (by simp)
    | .write u, rfl => exact .refused (by simp)
  | lockShared deferred =>
    have same := Option.some.inj called
    cases s with
    | read readers =>
      simp only [RwLock.rdlock] at same
      split at same
      · cases same
        exact .refused (by simp)
      · split at same
        · cases same
          exact .reads ⟨deferred, Or.inl rfl⟩ rfl
        · cases same
          exact .refused (by simp)
    | write u =>
      cases same
      exact .refused (by split <;> simp)
  | tryLockShared deferred =>
    have same := Option.some.inj called
    cases s with
    | read readers =>
      simp only [RwLock.tryrdlock] at same
      split at same
      · cases same
        exact .refused (by simp)
      · split at same
        · cases same
          exact .reads ⟨deferred, Or.inr rfl⟩ rfl
        · cases same
          exact .refused (by simp)
    | write u =>
      cases same
      exact .refused (by simp)
  | unlock =>
    obtain ⟨left, unlocks, same⟩ := Option.map_eq_some_iff.mp called
    cases same
    exact .unlocks (Or.inl rfl) unlocks
  | unlockShared =>
    obtain ⟨left, unlocks, same⟩ := Option.map_eq_some_iff.mp called
    cases same
    exact .unlocks (Or.inr rfl) unlocks

theorem moves_win32 {s s' : RwLock τ} {i : τ × Request} {e : Option Error} (called : win32.step i s = some (s', e)) :
    Moves s i s' e := by
  obtain ⟨t, r⟩ := i
  cases r with
  | lock =>
    match s, Option.some.inj called with
    | .read [], rfl => exact .writes (Or.inl rfl) rfl
    | .read (r :: readers), rfl => exact .refused (by simp)
    | .write u, rfl => exact .refused (by simp)
  | tryLock =>
    match s, Option.some.inj called with
    | .read [], rfl => exact .writes (Or.inr rfl) rfl
    | .read (r :: readers), rfl => exact .refused (by simp)
    | .write u, rfl => exact .refused (by simp)
  | lockShared deferred =>
    match s, deferred, Option.some.inj called with
    | .read readers, false, rfl => exact .reads ⟨false, Or.inl rfl⟩ rfl
    | .read readers, true, rfl => exact .refused (by simp)
    | .write u, _, rfl => exact .refused (by simp)
  | tryLockShared deferred =>
    match s, deferred, Option.some.inj called with
    | .read readers, false, rfl => exact .reads ⟨false, Or.inr rfl⟩ rfl
    | .read readers, true, rfl => exact .refused (by simp)
    | .write u, _, rfl => exact .refused (by simp)
  | unlock =>
    obtain ⟨left, released, same⟩ := Option.map_eq_some_iff.mp called
    cases same
    exact .unlocks (Or.inl rfl) (RwLock.unlock_of_releaseExclusive released)
  | unlockShared =>
    obtain ⟨left, released, same⟩ := Option.map_eq_some_iff.mp called
    cases same
    exact .unlocks (Or.inr rfl) (RwLock.unlock_of_releaseShared released)

def functions (sys : System) : Backend → Functions τ
  | .pthreads => pthreads sys
  | .win32 => win32

/-- Readers and writers exclude each other, from what the functions answer: whatever calls
are made, with writers served first or not, a thread that believes to have the lock
for writing has it once and is the only one that believes to have it. -/
theorem readers_writer_exclusion (sys : System) (b : Backend) {calls : List (τ × Request)} {last : RwLock τ}
    {answers : List (Option Error)} (ran : Machine.run (functions sys b).step calls .free = some (last, answers)) :
    (∀ t, believed calls answers t .exclusive ≤ 1) ∧
      ∀ t u m, 0 < believed calls answers t .exclusive → 0 < believed calls answers u m → t = u := by
  have honest : ∀ i (s s' : RwLock τ) e, (functions sys b).step i s = some (s', e) →
      ∀ u m, (effect i e).apply s.held u m ≤ s'.held u m := by
    intro i s s' e called
    cases b with
    | pthreads => exact (moves_pthreads called).honest
    | win32 => exact (moves_win32 called).honest
  have le : ∀ t m, believed calls answers t m ≤ last.held t m := fun t m => ledger_le_held RwLock.held honest ran t m
  constructor
  · intro t
    refine Nat.le_trans (le t .exclusive) ?_
    cases last with
    | read readers => simp [RwLock.held]
    | write u =>
      simp only [RwLock.held]
      split <;> omega
  · intro t u m writes has
    have exclusive := (RwLock.exclusive_held last).of_le le
    exact Decidable.byContradiction fun other => exclusive t u .exclusive m other writes has trivial

/-- Two readers, of which one leaves, and a writer that has to wait for the other one. -/
theorem readers_writer_exclusion_for_two :
    let calls : List (Bool × Request) := [(true, .lockShared false), (false, .lockShared false), (true, .unlock),
      (true, .tryLock), (false, .unlockShared), (false, .lock)]
    let answers := [some .ok, some .ok, some .ok, some .deviceOrResourceBusy, some .ok, some .ok]
    (∀ t, believed calls answers t .exclusive ≤ 1) ∧
      ∀ t u m, 0 < believed calls answers t .exclusive → 0 < believed calls answers u m → t = u :=
  @readers_writer_exclusion Bool _ ⟨true, false, 8⟩ .pthreads _ (.write false) _ rfl

/-- A call that does not show the back end: a thread that has the lock is not told of a
deadlock, there are not too many readers, and a lock is given back in its own mode. -/
def Portable (sys : System) : τ × Request → RwLock τ → Prop
  | (t, .lock), .read readers => t ∈ readers → sys.detectsReader = false
  | (t, .lock), .write u | (t, .lockShared _), .write u => u = t → sys.detectsWriter = false
  | (_, .lockShared deferred), .read readers | (_, .tryLockShared deferred), .read readers =>
    deferred = true ∨ readers.length < sys.readers
  | (_, .tryLock), _ | (_, .tryLockShared _), .write _ => True
  | (t, .unlock), .write u => u = t
  | (t, .unlockShared), .read readers => t ∈ readers
  | (_, .unlock), .read _ | (_, .unlockShared), .write _ => False

section SameCall

variable {sys : System} {i : τ × Request} {s : RwLock τ}

theorem same_of_portable (portable : Portable sys i s) :
    ∃ s' e, (pthreads sys).step i s = some (s', e) ∧ win32.step i s = some (s', e) := by
  obtain ⟨t, r⟩ := i
  cases r with
  | lock =>
    match s, portable with
    | .read [], _ => exact ⟨_, _, rfl, rfl⟩
    | .read (r :: readers), portable =>
      refine ⟨.read (r :: readers), none, ?_, rfl⟩
      have untold : ¬(t ∈ r :: readers ∧ sys.detectsReader = true) := fun ⟨member, told⟩ => by
        rw [portable member] at told
        cases told
      simp only [Functions.step, pthreads, RwLock.wrlock, if_neg untold]
    | .write u, portable =>
      refine ⟨.write u, none, ?_, rfl⟩
      have untold : ¬(u = t ∧ sys.detectsWriter = true) := fun ⟨own, told⟩ => by
        rw [portable own] at told
        cases told
      simp only [Functions.step, pthreads, RwLock.wrlock, if_neg untold]
  | tryLock =>
    match s with
    | .read [] | .read (r :: readers) | .write u => exact ⟨_, _, rfl, rfl⟩
  | lockShared deferred =>
    cases s with
    | read readers =>
      cases deferred with
      | true => exact ⟨_, _, rfl, rfl⟩
      | false =>
        have room : readers.length < sys.readers := by simpa [Portable] using portable
        refine ⟨.read (t :: readers), some .ok, ?_, rfl⟩
        simp [Functions.step, pthreads, RwLock.rdlock, room]
    | write u =>
      have untold : ¬(u = t ∧ sys.detectsWriter = true) := fun ⟨own, told⟩ => by
        rw [portable own] at told
        cases told
      refine ⟨.write u, none, ?_, rfl⟩
      simp only [Functions.step, pthreads, RwLock.rdlock, if_neg untold]
  | tryLockShared deferred =>
    cases s with
    | read readers =>
      cases deferred with
      | true => exact ⟨_, _, rfl, rfl⟩
      | false =>
        have room : readers.length < sys.readers := by simpa [Portable] using portable
        refine ⟨.read (t :: readers), some .ok, ?_, rfl⟩
        simp [Functions.step, pthreads, RwLock.tryrdlock, room]
    | write u => exact ⟨_, _, rfl, rfl⟩
  | unlock =>
    cases s with
    | read readers => exact absurd portable not_false
    | write u =>
      have own : u = t := portable
      subst own
      refine ⟨.read [], some .ok, ?_, ?_⟩
      · simp [Functions.step, pthreads, RwLock.unlock]
      · simp [Functions.step, win32, RwLock.releaseExclusive]
  | unlockShared =>
    cases s with
    | read readers =>
      have member : t ∈ readers := portable
      refine ⟨.read (readers.erase t), some .ok, ?_, ?_⟩
      · simp [Functions.step, pthreads, RwLock.unlock, member]
      · simp [Functions.step, win32, RwLock.releaseShared, member]
    | write u => exact absurd portable not_false

theorem portable_of_same {s₁ s₂ : RwLock τ} {e : Option Error} (called : (pthreads sys).step i s = some (s₁, e))
    (called' : win32.step i s = some (s₂, e)) : Portable sys i s := by
  obtain ⟨t, r⟩ := i
  cases r with
  | lock =>
    match s with
    | .read [] => exact fun member => absurd member List.not_mem_nil
    | .read (r :: readers) =>
      cases called'
      intro member
      by_contra told
      have told : t ∈ r :: readers ∧ sys.detectsReader = true := ⟨member, by simpa using told⟩
      simp only [Functions.step, pthreads, RwLock.wrlock, if_pos told] at called
      cases called
    | .write u =>
      cases called'
      intro own
      by_contra told
      simp [Functions.step, pthreads, RwLock.wrlock, own, told] at called
  | tryLock => trivial
  | lockShared deferred =>
    cases s with
    | read readers =>
      cases deferred with
      | true => exact Or.inl rfl
      | false =>
        right
        cases called'
        by_contra full
        simp [Functions.step, pthreads, RwLock.rdlock, full] at called
    | write u =>
      cases called'
      intro own
      by_contra told
      simp [Functions.step, pthreads, RwLock.rdlock, own, told] at called
  | tryLockShared deferred =>
    cases s with
    | read readers =>
      cases deferred with
      | true => exact Or.inl rfl
      | false =>
        right
        cases called'
        by_contra full
        simp [Functions.step, pthreads, RwLock.tryrdlock, full] at called
    | write u => trivial
  | unlock =>
    obtain ⟨left, released, -⟩ := Option.map_eq_some_iff.mp called'
    cases s with
    | read readers => cases released
    | write u => exact (Option.ite_none_right_eq_some.mp released).1
  | unlockShared =>
    obtain ⟨left, released, -⟩ := Option.map_eq_some_iff.mp called'
    cases s with
    | read readers => exact (Option.ite_none_right_eq_some.mp released).1
    | write u => cases released

end SameCall

end Rbc.SharedMutex
