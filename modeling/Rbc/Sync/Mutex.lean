import Rbc.Sync.Lock

namespace Rbc

open Lock

variable {τ : Type} [DecidableEq τ]

/-- `PTHREAD_MUTEX_ERRORCHECK` and `PTHREAD_MUTEX_RECURSIVE`. -/
inductive MutexType
  | errorcheck | recursive
  deriving DecidableEq, Repr

/-- Whether a robust mutex lost an owner. The library never calls `pthread_mutex_consistent`. -/
inductive Health
  | consistent | ownerDied | notRecoverable
  deriving DecidableEq, Repr

/-- `pthread_mutex_t`. -/
structure PthreadMutex (τ : Type) where
  health : Health
  holder : Holder τ

namespace PthreadMutex

def fresh : PthreadMutex τ := ⟨.consistent, none⟩

/-- A free mutex is locked; the first one after a death is told so. -/
def take (m : PthreadMutex τ) (t : τ) : PthreadMutex τ × Option Error :=
  ({ m with holder := some (t, 0) }, some (if m.health = .ownerDied then .ownerDead else .ok))

/-- The holder, who has locked it again `n` times, locks it again. -/
def relock (type : MutexType) (recursions : Nat) (m : PthreadMutex τ) (t : τ) (n : Nat) :
    PthreadMutex τ × Option Error :=
  match type with
  | .errorcheck => (m, some .resourceDeadlockWouldOccur)
  | .recursive =>
    if n + 1 < recursions then ({ m with holder := some (t, n + 1) }, some .ok)
    else (m, some .resourceUnavailableTryAgain)

/-- `pthread_mutex_lock`. -/
def lock (type : MutexType) (recursions : Nat) (t : τ) (m : PthreadMutex τ) : PthreadMutex τ × Option Error :=
  if m.health = .notRecoverable then (m, some .stateNotRecoverable)
  else
    match m.holder with
    | none => m.take t
    | some (u, n) => if u = t then m.relock type recursions t n else (m, none)

/-- `pthread_mutex_timedlock`. -/
def timedlock (type : MutexType) (recursions : Nat) (late : Bool) (t : τ) (m : PthreadMutex τ) :
    PthreadMutex τ × Option Error :=
  let (m', e) := m.lock type recursions t
  (m', e.or (if late then some .timedOut else none))

/-- `pthread_mutex_trylock`. -/
def trylock (type : MutexType) (recursions : Nat) (t : τ) (m : PthreadMutex τ) : PthreadMutex τ × Option Error :=
  if m.health = .notRecoverable then (m, some .stateNotRecoverable)
  else
    match m.holder with
    | none => m.take t
    | some (u, n) =>
      if u = t ∧ type = .recursive then m.relock type recursions t n else (m, some .deviceOrResourceBusy)

/-- `pthread_mutex_unlock`. What the death of an owner left behind is lost
when the next owner unlocks without a repair. -/
def unlock (t : τ) (m : PthreadMutex τ) : PthreadMutex τ × Option Error :=
  match m.holder with
  | none => (m, some .operationNotPermitted)
  | some (u, n) =>
    if u = t then
      match n with
      | 0 => (⟨if m.health = .ownerDied then .notRecoverable else m.health, none⟩, some .ok)
      | n + 1 => ({ m with holder := some (t, n) }, some .ok)
    else (m, some .operationNotPermitted)

/-- The thread comes to its end, maybe with the mutex locked. -/
def ends (robust : Bool) (t : τ) (m : PthreadMutex τ) : PthreadMutex τ :=
  match m.holder with
  | none => m
  | some (u, _) => if robust = true ∧ u = t then ⟨.ownerDied, none⟩ else m

end PthreadMutex

/-- The functions of `mutex.c` and `recursive_mutex.c` over pthreads, which differ in the type only. -/
def pthreadLock (sys : System) (type : MutexType) : Functions τ (PthreadMutex τ) where
  lock _ t m := some (m.lock type sys.recursions t)
  tryLock t m := some (m.trylock type sys.recursions t)
  lockUntil late t m :=
    some (if sys.darwin then (m, some .notImplemented) else m.timedlock type sys.recursions late t)
  unlock t m := some (m.unlock t)
  ends t m := m.ends sys.robust t

/-- `CRITICAL_SECTION`. -/
abbrev CriticalSection (τ : Type) := Holder τ

namespace CriticalSection

/-- `EnterCriticalSection`, in the block that catches its exception. -/
def enter (raises : Bool) (t : τ) (s : CriticalSection τ) : CriticalSection τ × Option Error :=
  match s with
  | none => (some (t, 0), some .ok)
  | some (u, n) =>
    if u = t then (some (t, n + 1), some .ok)
    else (s, if raises then some .resourceDeadlockWouldOccur else none)

def tryEnter (t : τ) (s : CriticalSection τ) : CriticalSection τ × Bool :=
  match s with
  | none => (some (t, 0), true)
  | some (u, n) => if u = t then (some (t, n + 1), true) else (s, false)

/-- `LeaveCriticalSection` is undefined for any other thread. -/
def leave (t : τ) (s : CriticalSection τ) : Option (CriticalSection τ) :=
  match s with
  | none => none
  | some (u, n) =>
    if u = t then
      match n with
      | 0 => some none
      | n + 1 => some (some (t, n))
    else none

end CriticalSection

/-- The functions of `mutex.c` and `recursive_mutex.c` over a critical section. -/
def win32Lock : Functions τ (CriticalSection τ) where
  lock raises t s := some (CriticalSection.enter raises t s)
  tryLock t s :=
    match CriticalSection.tryEnter t s with
    | (s', true) => some (s', some .ok)
    | (s', false) => some (s', some .deviceOrResourceBusy)
  lockUntil _ _ s := some (s, some .notImplemented)
  unlock t s := (CriticalSection.leave t s).map fun s' => (s', some .ok)
  ends _ s := s

/-- `pthread_spinlock_t`. A second lock of its holder either fails or spins; only the
holder may unlock. -/
def pthreadSpinlock (detects : Bool) : Functions τ (Option τ) where
  lock _ t s :=
    match s with
    | none => some (some t, some .ok)
    | some u => some (s, if u = t ∧ detects = true then some .resourceDeadlockWouldOccur else none)
  tryLock t s :=
    match s with
    | none => some (some t, some .ok)
    | some _ => some (s, some .deviceOrResourceBusy)
  lockUntil _ _ _ := none
  unlock t s := if s = some t then some (none, some .ok) else none
  ends _ s := s

/-- The functions of `spinlock.c` without pthreads. -/
def win32Spinlock : Functions τ (Option τ) where
  lock _ _ s := some (s, some .notImplemented)
  tryLock _ s := some (s, some .notImplemented)
  lockUntil _ _ _ := none
  unlock _ s := some (s, some .notImplemented)
  ends _ s := s

namespace Mutex

def pthreads (sys : System) : Functions τ (PthreadMutex τ) := pthreadLock sys .errorcheck

def win32 : Functions τ (CriticalSection τ) := win32Lock

end Mutex

namespace RecursiveMutex

def pthreads (sys : System) : Functions τ (PthreadMutex τ) := pthreadLock sys .recursive

def win32 : Functions τ (CriticalSection τ) := win32Lock

end RecursiveMutex

namespace PthreadMutex

variable (type : MutexType) (recursions : Nat) (late : Bool) (t : τ) (m : PthreadMutex τ)

omit [DecidableEq τ] in
theorem locking_take (free : m.holder = none) : Locking t m.holder (m.take t).1.holder (m.take t).2 :=
  .first free

omit [DecidableEq τ] in
theorem locking_relock {n : Nat} (own : m.holder = some (t, n)) :
    Locking t m.holder (m.relock type recursions t n).1.holder (m.relock type recursions t n).2 := by
  cases type with
  | errorcheck => exact .refused (by simp [relock])
  | recursive =>
    by_cases room : n + 1 < recursions
    · simp only [relock, if_pos room]
      exact .again own
    · simp only [relock, if_neg room]
      exact .refused (by simp)

theorem locking_lock : Locking t m.holder (m.lock type recursions t).1.holder (m.lock type recursions t).2 := by
  by_cases lost : m.health = .notRecoverable
  · simp only [lock, if_pos lost]
    exact .refused (by simp)
  · cases holder : m.holder with
    | none =>
      simp only [lock, if_neg lost, holder]
      rw [← holder]
      exact locking_take t m holder
    | some h =>
      obtain ⟨u, n⟩ := h
      by_cases mine : u = t
      · subst mine
        simp only [lock, if_neg lost, holder, if_true]
        rw [← holder]
        exact locking_relock _ recursions _ m holder
      · simp only [lock, if_neg lost, holder, if_neg mine]
        exact .refused (by simp)

theorem locking_timedlock :
    Locking t m.holder (m.timedlock type recursions late t).1.holder (m.timedlock type recursions late t).2 :=
  (locking_lock type recursions t m).orTimedOut late

theorem locking_trylock : Locking t m.holder (m.trylock type recursions t).1.holder (m.trylock type recursions t).2 := by
  by_cases lost : m.health = .notRecoverable
  · simp only [trylock, if_pos lost]
    exact .refused (by simp)
  · cases holder : m.holder with
    | none =>
      simp only [trylock, if_neg lost, holder]
      rw [← holder]
      exact locking_take t m holder
    | some h =>
      obtain ⟨u, n⟩ := h
      by_cases mine : u = t ∧ type = .recursive
      · obtain ⟨rfl, rfl⟩ := mine
        simp only [trylock, if_neg lost, holder, and_self, if_true]
        rw [← holder]
        exact locking_relock _ recursions _ m holder
      · simp only [trylock, if_neg lost, holder, if_neg mine]
        exact .refused (by simp)

theorem unlocking_unlock : Unlocking t m.holder (m.unlock t).1.holder (m.unlock t).2 := by
  cases holder : m.holder with
  | none =>
    simp only [unlock, holder]
    exact .refused (by simp)
  | some h =>
    obtain ⟨u, n⟩ := h
    by_cases mine : u = t
    · subst mine
      cases n with
      | zero =>
        simp only [unlock, holder, if_true]
        exact .last rfl
      | succ n =>
        simp only [unlock, holder, if_true]
        exact .inner rfl
    · simp only [unlock, holder, if_neg mine]
      exact .refused (by simp)

theorem holder_ends (robust : Bool) :
    (m.ends robust t).holder = m.holder ∨ (m.ends robust t).holder = none ∧ ∃ n, m.holder = some (t, n) := by
  cases holder : m.holder with
  | none =>
    left
    simp only [ends, holder]
  | some h =>
    obtain ⟨u, n⟩ := h
    by_cases dies : robust = true ∧ u = t
    · right
      simp only [ends, holder, if_pos dies]
      exact ⟨trivial, n, by rw [dies.2]⟩
    · left
      simp only [ends, holder, if_neg dies]

end PthreadMutex

theorem hasHolder_pthreadLock (sys : System) (type : MutexType) :
    HasHolder (τ := τ) (pthreadLock sys type) PthreadMutex.holder where
  lock _ t s s' e called := by
    have locking := PthreadMutex.locking_lock type sys.recursions t s
    rwa [Option.some.inj called] at locking
  tryLock t s s' e called := by
    have locking := PthreadMutex.locking_trylock type sys.recursions t s
    rwa [Option.some.inj called] at locking
  lockUntil late t s s' e called := by
    have same := Option.some.inj called
    by_cases darwin : sys.darwin = true
    · rw [if_pos darwin] at same
      cases same
      exact .refused (by simp)
    · rw [if_neg darwin] at same
      have locking := PthreadMutex.locking_timedlock type sys.recursions late t s
      rwa [same] at locking
  unlock t s s' e called := by
    have unlocking := PthreadMutex.unlocking_unlock t s
    rwa [Option.some.inj called] at unlocking
  ends t s := PthreadMutex.holder_ends t s sys.robust

theorem hasHolder_win32Lock : HasHolder (τ := τ) win32Lock id where
  lock raises t s s' e called := by
    have same := Option.some.inj called
    cases s with
    | none =>
      cases same
      exact .first rfl
    | some h =>
      obtain ⟨u, n⟩ := h
      by_cases mine : u = t
      · subst mine
        simp only [CriticalSection.enter, if_true] at same
        cases same
        exact .again rfl
      · simp only [CriticalSection.enter, if_neg mine] at same
        cases same
        cases raises <;> exact .refused (by simp)
  tryLock t s s' e called := by
    cases s with
    | none =>
      cases called
      exact .first rfl
    | some h =>
      obtain ⟨u, n⟩ := h
      by_cases mine : u = t
      · subst mine
        simp only [win32Lock, CriticalSection.tryEnter, if_true] at called
        cases called
        exact .again rfl
      · simp only [win32Lock, CriticalSection.tryEnter, if_neg mine] at called
        cases called
        exact .refused (by simp)
  lockUntil late t s s' e called := by
    cases called
    exact .refused (by simp)
  unlock t s s' e called := by
    obtain ⟨left, leaves, same⟩ := Option.map_eq_some_iff.mp called
    cases same
    cases s with
    | none => cases leaves
    | some h =>
      obtain ⟨u, n⟩ := h
      simp only [CriticalSection.leave] at leaves
      split at leaves
      · rename_i mine
        subst mine
        cases n with
        | zero =>
          cases leaves
          exact .last rfl
        | succ n =>
          cases leaves
          exact .inner rfl
      · cases leaves
  ends t s := Or.inl rfl

/-- A spinlock is locked once. -/
def spinHolder (s : Option τ) : Holder τ := s.map fun t => (t, 0)

theorem hasHolder_pthreadSpinlock (detects : Bool) : HasHolder (τ := τ) (pthreadSpinlock detects) spinHolder where
  lock _ t s s' e called := by
    cases s with
    | none =>
      cases called
      exact .first rfl
    | some u =>
      cases called
      exact .refused (by split <;> simp)
  tryLock t s s' e called := by
    cases s with
    | none =>
      cases called
      exact .first rfl
    | some u =>
      cases called
      exact .refused (by simp)
  lockUntil late t s s' e called := by cases called
  unlock t s s' e called := by
    obtain ⟨own, same⟩ := Option.ite_none_right_eq_some.mp called
    cases same
    subst own
    exact .last rfl
  ends t s := Or.inl rfl

omit [DecidableEq τ] in
theorem hasHolder_win32Spinlock : HasHolder (τ := τ) win32Spinlock spinHolder where
  lock _ t s s' e called := by
    cases called
    exact .refused (by simp)
  tryLock t s s' e called := by
    cases called
    exact .refused (by simp)
  lockUntil late t s s' e called := by cases called
  unlock t s s' e called := by
    cases called
    exact .refused (by simp)
  ends t s := Or.inl rfl

namespace Lock

inductive LockType
  | mutex | recursiveMutex | spinlock
  deriving DecidableEq, Repr

/-- `detects` says whether `pthread_spin_lock` notices that its caller holds the lock. -/
def LockType.implementation (sys : System) (detects : Bool) : LockType → Backend → Implementation τ
  | .mutex, .pthreads => ⟨_, .fresh, Mutex.pthreads sys, _, hasHolder_pthreadLock sys .errorcheck⟩
  | .mutex, .win32 => ⟨_, none, Mutex.win32, _, hasHolder_win32Lock⟩
  | .recursiveMutex, .pthreads => ⟨_, .fresh, RecursiveMutex.pthreads sys, _, hasHolder_pthreadLock sys .recursive⟩
  | .recursiveMutex, .win32 => ⟨_, none, RecursiveMutex.win32, _, hasHolder_win32Lock⟩
  | .spinlock, .pthreads => ⟨_, none, pthreadSpinlock detects, _, hasHolder_pthreadSpinlock detects⟩
  | .spinlock, .win32 => ⟨_, none, win32Spinlock, _, hasHolder_win32Spinlock⟩

end Lock

/-- The holder has locked the mutex once. -/
def PthreadMutex.Once (m : PthreadMutex τ) : Prop := ∀ t n, m.holder = some (t, n) → n = 0

namespace PthreadMutex

variable {m : PthreadMutex τ}

omit [DecidableEq τ] in
theorem once_of_eq {m' : PthreadMutex τ} (once : m.Once) (same : m'.holder = m.holder) : m'.Once :=
  fun t n holder => once t n (same.symm.trans holder)

omit [DecidableEq τ] in
theorem once_of_first {m' : PthreadMutex τ} {t : τ} (first : m'.holder = some (t, 0)) : m'.Once := by
  intro u n holder
  cases first.symm.trans holder
  rfl

theorem once_lock (once : m.Once) (recursions : Nat) (t : τ) : (m.lock .errorcheck recursions t).1.Once := by
  unfold lock
  by_cases lost : m.health = .notRecoverable
  · rwa [if_pos lost]
  · rw [if_neg lost]
    cases holder : m.holder with
    | none => exact once_of_first rfl
    | some h =>
      simp only
      split <;> exact once

theorem once_trylock (once : m.Once) (recursions : Nat) (t : τ) : (m.trylock .errorcheck recursions t).1.Once := by
  unfold trylock
  by_cases lost : m.health = .notRecoverable
  · rwa [if_pos lost]
  · rw [if_neg lost]
    cases holder : m.holder with
    | none => exact once_of_first rfl
    | some h =>
      simp only
      split <;> exact once

theorem once_unlock (once : m.Once) (t : τ) : (m.unlock t).1.Once := by
  unfold unlock
  cases holder : m.holder with
  | none => exact once
  | some h =>
    obtain ⟨u, n⟩ := h
    simp only
    split
    · cases once u n holder
      exact once_of_eq (fun u n found => by cases found) rfl
    · exact once

theorem once_ends (once : m.Once) (robust : Bool) (t : τ) : (m.ends robust t).Once := by
  rcases holder_ends t m robust with same | ⟨free, -⟩
  · exact once_of_eq once same
  · intro u n holder
    rw [free] at holder
    cases holder

theorem once_step {sys : System} {i : Event τ} {m' : PthreadMutex τ} {e : Option Error} (once : m.Once)
    (stepped : (Mutex.pthreads sys).step i m = some (m', e)) : m'.Once := by
  cases i with
  | ends t =>
    cases stepped
    exact once_ends once sys.robust t
  | call t r =>
    cases r with
    | lock raises =>
      have kept := once_lock once sys.recursions t
      rwa [Option.some.inj stepped] at kept
    | tryLock =>
      have kept := once_trylock once sys.recursions t
      rwa [Option.some.inj stepped] at kept
    | lockUntil late =>
      have same := Option.some.inj stepped
      by_cases darwin : sys.darwin = true
      · rw [if_pos darwin] at same
        cases same
        exact once
      · rw [if_neg darwin] at same
        cases same
        exact once_lock once sys.recursions t
    | unlock =>
      have kept := once_unlock once t
      rwa [Option.some.inj stepped] at kept

end PthreadMutex

namespace Lock

/-- Mutual exclusion, from what the functions answer: whatever calls are made, also by
threads that lock twice, unlock what is not theirs or end with the lock held, at most one
thread believes to have it, and it has a pthreads mutex or a spinlock once. -/
theorem mutual_exclusion (sys : System) (detects : Bool) (type : LockType) (b : Backend) {events : List (Event τ)}
    {last : (type.implementation sys detects b : Implementation τ).State} {answers : List (Option Error)}
    (ran : Machine.run (type.implementation sys detects b).functions.step events (type.implementation sys detects b).fresh =
      some (last, answers)) :
    (∀ t u, 0 < believed events answers t () → 0 < believed events answers u () → t = u) ∧
      (type = .mutex ∧ b = .pthreads ∨ type = .spinlock → ∀ t, believed events answers t () ≤ 1) := by
  have has := (type.implementation sys detects b : Implementation τ).hasHolder
  refine ⟨fun t u => has.eq_of_believed ran, ?_⟩
  have once_le : ∀ h : Holder τ, (∀ u n, h = some (u, n) → n = 0) → ∀ t, heldBy h t () ≤ 1 := by
    intro h once t
    cases h with
    | none => exact Nat.zero_le 1
    | some h =>
      obtain ⟨u, n⟩ := h
      cases once u n rfl
      simp only [heldBy]
      split <;> omega
  rintro (⟨rfl, rfl⟩ | rfl) t
  · have start : PthreadMutex.Once (.fresh : PthreadMutex τ) := fun u n holder => by cases holder
    have once := Machine.run_invariant (fun m i m' e kept stepped => PthreadMutex.once_step kept stepped) start ran
    exact Nat.le_trans (has.believed_le ran t) (once_le _ once t)
  · refine Nat.le_trans (has.believed_le ran t) (once_le _ ?_ t)
    intro u n holder
    cases b <;> (obtain ⟨v, -, same⟩ := Option.map_eq_some_iff.mp holder; cases same; rfl)

def System.gnu : System := ⟨true, false, 4294967296, nofun⟩

/-- The holder tries again, the other thread has to wait for its turn. -/
theorem mutual_exclusion_for_two :
    let events : List (Event Bool) := [.call true (.lock false), .call true .tryLock, .call false (.lock false),
      .call true .unlock, .call false (.lock false)]
    let answers := [some .ok, some .deviceOrResourceBusy, none, some .ok, some .ok]
    (∀ t u, 0 < believed events answers t () → 0 < believed events answers u () → t = u) ∧
      ∀ t, believed events answers t () ≤ 1 := by
  have ⟨one, once⟩ := @mutual_exclusion Bool _ .gnu false .mutex .pthreads
    [.call true (.lock false), .call true .tryLock, .call false (.lock false), .call true .unlock, .call false (.lock false)]
    ⟨.consistent, some (false, 0)⟩ [some .ok, some .deviceOrResourceBusy, none, some .ok, some .ok] rfl
  exact ⟨one, once (Or.inl ⟨rfl, rfl⟩)⟩

end Lock

end Rbc
