import Rbc.Sync.Mutex

namespace Rbc.Lock

variable {τ σ : Type}

/-- The calls of some threads, none of which ends. -/
def Functions.calls (f : Functions τ σ) (i : τ × Request) (s : σ) : Option (σ × Option Error) := f.call i.1 i.2 s

variable [DecidableEq τ]

/-- The holder may lock the mutex once more. -/
def MayRelock (sys : System) (type : MutexType) (n : Nat) : Prop := type = .recursive ∧ n + 1 < sys.recursions

instance (sys : System) (type : MutexType) (n : Nat) : Decidable (MayRelock sys type n) :=
  inferInstanceAs (Decidable (_ ∧ _))

/-- A call that does not show the back end: nobody unlocks what is not theirs or
locks again what cannot be locked again, no wait of `EnterCriticalSection` times out,
and there is no deadline, or none anywhere. -/
def Portable (sys : System) (type : MutexType) : τ × Request → Holder τ → Prop
  | (t, .lock raises), some (u, n) => if u = t then MayRelock sys type n else raises = false
  | (t, .tryLock), some (u, n) => u = t → MayRelock sys type n
  | (_, .lock _), none | (_, .tryLock), none => True
  | (_, .lockUntil _), _ => sys.darwin = true
  | (t, .unlock), some (u, _) => u = t
  | (_, .unlock), none => False

instance (sys : System) (type : MutexType) (i : τ × Request) (h : Holder τ) : Decidable (Portable sys type i h) :=
  match i, h with
  | (t, .lock raises), some (u, n) => inferInstanceAs (Decidable (if u = t then MayRelock sys type n else raises = false))
  | (t, .tryLock), some (u, n) => inferInstanceAs (Decidable (u = t → MayRelock sys type n))
  | (_, .lock _), none | (_, .tryLock), none => isTrue trivial
  | (_, .lockUntil _), _ => inferInstanceAs (Decidable (sys.darwin = true))
  | (t, .unlock), some (u, _) => inferInstanceAs (Decidable (u = t))
  | (_, .unlock), none => isFalse not_false

/-- A consistent pthreads mutex stands for the critical section with the same holder. -/
def SameHolder (s : CriticalSection τ) (m : PthreadMutex τ) : Prop := m = ⟨.consistent, s⟩

variable (sys : System) (type : MutexType) (t u : τ) (n : Nat)

omit [DecidableEq τ] in
theorem relock_of_may (may : MayRelock sys type n) :
    PthreadMutex.relock type sys.recursions ⟨.consistent, some (t, n)⟩ t n = (⟨.consistent, some (t, n + 1)⟩, some .ok) := by
  obtain ⟨rfl, room⟩ := may
  simp only [PthreadMutex.relock, if_pos room]

omit [DecidableEq τ] in
theorem relock_ne_ok (not : ¬MayRelock sys type n) (m : PthreadMutex τ) :
    (PthreadMutex.relock type sys.recursions m t n).2 ≠ some .ok := by
  cases type with
  | errorcheck => simp [PthreadMutex.relock]
  | recursive =>
    have full : ¬n + 1 < sys.recursions := fun room => not ⟨rfl, room⟩
    simp [PthreadMutex.relock, full]

theorem lock_ne_notImplemented (m : PthreadMutex τ) : (m.lock type sys.recursions t).2 ≠ some .notImplemented := by
  unfold PthreadMutex.lock
  by_cases lost : m.health = .notRecoverable
  · simp [lost]
  · rw [if_neg lost]
    cases m.holder with
    | none =>
      simp only [PthreadMutex.take]
      split <;> simp
    | some h =>
      simp only [PthreadMutex.relock]
      split
      · cases type with
        | errorcheck => simp
        | recursive =>
          simp only
          split <;> simp
      · simp

theorem timedlock_ne_notImplemented (m : PthreadMutex τ) (late : Bool) :
    (m.timedlock type sys.recursions late t).2 ≠ some .notImplemented := by
  have implemented := lock_ne_notImplemented sys type t m
  show (m.lock type sys.recursions t).2.or _ ≠ _
  cases answer : (m.lock type sys.recursions t).2 with
  | none => cases late <;> simp
  | some e =>
    rw [answer] at implemented
    exact implemented

theorem portable_simulates (i : τ × Request) (s : CriticalSection τ) (m : PthreadMutex τ) (same : SameHolder s m)
    (portable : Portable sys type i s) :
    ∃ s' m' e, win32Lock.calls i s = some (s', e) ∧ (pthreadLock sys type).calls i m = some (m', e) ∧ SameHolder s' m' := by
  subst same
  obtain ⟨t, r⟩ := i
  cases r with
  | lock raises =>
    cases s with
    | none => exact ⟨some (t, 0), _, _, rfl, rfl, rfl⟩
    | some h =>
      obtain ⟨u, n⟩ := h
      by_cases mine : u = t
      · subst mine
        have may : MayRelock sys type n := by simpa [Portable] using portable
        refine ⟨some (u, n + 1), ⟨.consistent, some (u, n + 1)⟩, some .ok, ?_, ?_, rfl⟩
        · simp [Functions.calls, Functions.call, win32Lock, CriticalSection.enter]
        · simp [Functions.calls, Functions.call, pthreadLock, PthreadMutex.lock, relock_of_may sys type u n may]
      · have patient : raises = false := by simpa [Portable, mine] using portable
        refine ⟨some (u, n), ⟨.consistent, some (u, n)⟩, none, ?_, ?_, rfl⟩
        · simp [Functions.calls, Functions.call, win32Lock, CriticalSection.enter, mine, patient]
        · simp [Functions.calls, Functions.call, pthreadLock, PthreadMutex.lock, mine]
  | tryLock =>
    cases s with
    | none => exact ⟨some (t, 0), _, _, rfl, rfl, rfl⟩
    | some h =>
      obtain ⟨u, n⟩ := h
      by_cases mine : u = t
      · subst mine
        obtain ⟨rfl, room⟩ : MayRelock sys type n := portable rfl
        refine ⟨some (u, n + 1), ⟨.consistent, some (u, n + 1)⟩, some .ok, ?_, ?_, rfl⟩
        · simp [Functions.calls, Functions.call, win32Lock, CriticalSection.tryEnter]
        · simp [Functions.calls, Functions.call, pthreadLock, PthreadMutex.trylock, PthreadMutex.relock, room]
      · refine ⟨some (u, n), ⟨.consistent, some (u, n)⟩, some .deviceOrResourceBusy, ?_, ?_, rfl⟩
        · simp [Functions.calls, Functions.call, win32Lock, CriticalSection.tryEnter, mine]
        · simp [Functions.calls, Functions.call, pthreadLock, PthreadMutex.trylock, mine]
  | lockUntil late =>
    have darwin : sys.darwin = true := portable
    refine ⟨s, ⟨.consistent, s⟩, some .notImplemented, rfl, ?_, rfl⟩
    simp [Functions.calls, Functions.call, pthreadLock, darwin]
  | unlock =>
    cases s with
    | none => exact absurd portable not_false
    | some h =>
      obtain ⟨u, n⟩ := h
      have mine : u = t := portable
      subst mine
      cases n with
      | zero =>
        refine ⟨none, ⟨.consistent, none⟩, some .ok, ?_, ?_, rfl⟩
        · simp [Functions.calls, Functions.call, win32Lock, CriticalSection.leave]
        · simp [Functions.calls, Functions.call, pthreadLock, PthreadMutex.unlock]
      | succ n =>
        refine ⟨some (u, n), ⟨.consistent, some (u, n)⟩, some .ok, ?_, ?_, rfl⟩
        · simp [Functions.calls, Functions.call, win32Lock, CriticalSection.leave]
        · simp [Functions.calls, Functions.call, pthreadLock, PthreadMutex.unlock]

theorem not_portable_differs (i : τ × Request) (s : CriticalSection τ) (m : PthreadMutex τ) (same : SameHolder s m)
    (not : ¬Portable sys type i s) :
    ¬∃ s' m' e, win32Lock.calls i s = some (s', e) ∧ (pthreadLock sys type).calls i m = some (m', e) := by
  subst same
  obtain ⟨t, r⟩ := i
  rintro ⟨s', m', e, called, called'⟩
  cases r with
  | lock raises =>
    cases s with
    | none => exact not trivial
    | some h =>
      obtain ⟨u, n⟩ := h
      by_cases mine : u = t
      · subst mine
        have never : ¬MayRelock sys type n := by simpa [Portable] using not
        simp [Functions.calls, Functions.call, win32Lock, CriticalSection.enter] at called
        simp [Functions.calls, Functions.call, pthreadLock, PthreadMutex.lock] at called'
        have failed := relock_ne_ok sys type u n never ⟨.consistent, some (u, n)⟩
        rw [called', called.2] at failed
        exact failed rfl
      · have raised : raises = true := by simpa [Portable, mine] using not
        simp [Functions.calls, Functions.call, win32Lock, CriticalSection.enter, mine, raised] at called
        simp [Functions.calls, Functions.call, pthreadLock, PthreadMutex.lock, mine] at called'
        rw [← called'.2] at called
        cases called.2
  | tryLock =>
    cases s with
    | none => exact not trivial
    | some h =>
      obtain ⟨u, n⟩ := h
      by_cases mine : u = t
      · subst mine
        have never : ¬MayRelock sys type n := fun may => not fun _ => may
        simp [Functions.calls, Functions.call, win32Lock, CriticalSection.tryEnter] at called
        simp [Functions.calls, Functions.call, pthreadLock, PthreadMutex.trylock] at called'
        have failed := relock_ne_ok sys type u n never ⟨.consistent, some (u, n)⟩
        rw [← called.2] at called'
        split at called'
        · rw [called'] at failed
          exact failed rfl
        · cases called'
      · exact not fun own => absurd own mine
  | lockUntil late =>
    have elsewhere : ¬sys.darwin = true := not
    cases called
    simp only [Functions.calls, Functions.call, pthreadLock, if_neg elsewhere, Option.some.injEq] at called'
    have implemented := timedlock_ne_notImplemented sys type t ⟨.consistent, s⟩ late
    rw [called'] at implemented
    exact implemented rfl
  | unlock =>
    cases s with
    | none => cases called
    | some h =>
      obtain ⟨u, n⟩ := h
      have other : ¬u = t := not
      simp [Functions.calls, Functions.call, win32Lock, CriticalSection.leave, other] at called

/-- The back ends of `rbc_mutex` answer some calls alike, and none of them is undefined,
exactly if each of the calls is portable when its turn comes; and so do those of
`rbc_recursive_mutex`, where more calls are portable. -/
theorem mutex_backends_agree_iff (sys : System) (calls : List (τ × Request)) :
    (Machine.Agree Mutex.win32.calls (Mutex.pthreads sys).calls calls none .fresh ↔
      Machine.Admissible (Portable sys .errorcheck) Mutex.win32.calls calls none) ∧
    (Machine.Agree RecursiveMutex.win32.calls (RecursiveMutex.pthreads sys).calls calls none .fresh ↔
      Machine.Admissible (Portable sys .recursive) RecursiveMutex.win32.calls calls none) := by
  have agree : ∀ type, Machine.Agree win32Lock.calls (pthreadLock sys type).calls calls none .fresh ↔
      Machine.Admissible (Portable sys type) win32Lock.calls calls none := fun type =>
    Machine.agree_iff_admissible (portable_simulates sys type) (not_portable_differs sys type) calls rfl
  exact ⟨agree .errorcheck, agree .recursive⟩

def Event.thread : Event τ → τ
  | .call t _ => t
  | .ends t => t

/-- A call that wants the lock does not get it as if nothing had happened. -/
def Event.Refused (i : Event τ) (e : Option Error) : Prop := ∀ u r, i = .call u r → r ≠ .unlock → e ≠ some .ok

section Death

variable (recursions : Nat) {m : PthreadMutex τ} (unhealthy : m.health ≠ .consistent)

include unhealthy

omit [DecidableEq τ] in
theorem health_take (found : m.health ≠ .notRecoverable) (t : τ) :
    (m.take t).1.health = m.health ∧ (m.take t).2 ≠ some .ok := by
  have died : m.health = .ownerDied := by
    cases health : m.health <;> simp_all
  simp [PthreadMutex.take, died]

theorem health_lock (t : τ) :
    (m.lock .errorcheck recursions t).1.health = m.health ∧ (m.lock .errorcheck recursions t).2 ≠ some .ok := by
  unfold PthreadMutex.lock
  by_cases lost : m.health = .notRecoverable
  · simp [lost]
  · rw [if_neg lost]
    cases m.holder with
    | none => exact health_take unhealthy lost t
    | some h =>
      simp only [PthreadMutex.relock]
      split <;> simp

theorem health_trylock (t : τ) :
    (m.trylock .errorcheck recursions t).1.health = m.health ∧ (m.trylock .errorcheck recursions t).2 ≠ some .ok := by
  unfold PthreadMutex.trylock
  by_cases lost : m.health = .notRecoverable
  · simp [lost]
  · rw [if_neg lost]
    cases m.holder with
    | none => exact health_take unhealthy lost t
    | some h => simp

theorem health_unlock (t : τ) : (m.unlock t).1.health ≠ .consistent := by
  unfold PthreadMutex.unlock
  cases m.holder with
  | none => exact unhealthy
  | some h =>
    obtain ⟨u, n⟩ := h
    simp only
    split
    · cases n with
      | zero =>
        simp only
        split
        · simp
        · exact unhealthy
      | succ n => exact unhealthy
    · exact unhealthy

theorem health_ends (robust : Bool) (t : τ) : (m.ends robust t).health ≠ .consistent := by
  unfold PthreadMutex.ends
  cases m.holder with
  | none => exact unhealthy
  | some h =>
    simp only
    split
    · simp
    · exact unhealthy

/-- The end of an owner shows for good. -/
theorem refused_of_unhealthy {sys : System} {i : Event τ} {m' : PthreadMutex τ} {e : Option Error}
    (stepped : (Mutex.pthreads sys).step i m = some (m', e)) : m'.health ≠ .consistent ∧ i.Refused e := by
  cases i with
  | ends t =>
    cases stepped
    exact ⟨health_ends unhealthy sys.robust t, fun u r same => by cases same⟩
  | call t r =>
    cases r with
    | lock raises =>
      obtain ⟨kept, refused⟩ := health_lock sys.recursions unhealthy t
      rw [Option.some.inj stepped] at kept refused
      exact ⟨by rwa [kept], fun _ _ _ _ => refused⟩
    | tryLock =>
      obtain ⟨kept, refused⟩ := health_trylock sys.recursions unhealthy t
      rw [Option.some.inj stepped] at kept refused
      exact ⟨by rwa [kept], fun _ _ _ _ => refused⟩
    | lockUntil late =>
      have same := Option.some.inj stepped
      by_cases darwin : sys.darwin = true
      · rw [if_pos darwin] at same
        cases same
        exact ⟨unhealthy, fun _ _ _ _ => by simp⟩
      · obtain ⟨kept, refused⟩ := health_lock sys.recursions unhealthy t
        rw [if_neg darwin] at same
        cases same
        refine ⟨?_, fun _ _ _ _ => ?_⟩
        · show (m.lock .errorcheck sys.recursions t).1.health ≠ _
          rwa [kept]
        · show (m.lock .errorcheck sys.recursions t).2.or _ ≠ _
          cases answer : (m.lock .errorcheck sys.recursions t).2 with
          | none => cases late <;> simp
          | some e =>
            rw [answer] at refused
            exact refused
    | unlock =>
      have kept := health_unlock unhealthy t
      rw [Option.some.inj stepped] at kept
      refine ⟨kept, fun u r same locks => ?_⟩
      cases same
      exact absurd rfl locks

end Death

/-- A critical section whose owner is gone stays with it. -/
theorem refused_of_gone {s s' : CriticalSection τ} {t : τ} {n : Nat} {i : Event τ} {e : Option Error}
    (held : s = some (t, n)) (other : i.thread ≠ t) (stepped : Mutex.win32.step i s = some (s', e)) :
    s' = some (t, n) ∧ i.Refused e := by
  subst held
  have another : ∀ u, u ≠ t → ¬t = u := fun u differs same => differs same.symm
  cases i with
  | ends u =>
    cases stepped
    exact ⟨rfl, fun u r same => by cases same⟩
  | call u r =>
    have differs := another u other
    cases r with
    | lock raises =>
      simp only [Functions.step, Functions.call, Mutex.win32, win32Lock, CriticalSection.enter, if_neg differs] at stepped
      cases stepped
      exact ⟨rfl, fun _ _ _ _ => by cases raises <;> simp⟩
    | tryLock =>
      simp only [Functions.step, Functions.call, Mutex.win32, win32Lock, CriticalSection.tryEnter, if_neg differs] at stepped
      cases stepped
      exact ⟨rfl, fun _ _ _ _ => by simp⟩
    | lockUntil late =>
      cases stepped
      exact ⟨rfl, fun _ _ _ _ => by simp⟩
    | unlock =>
      simp only [Functions.step, Functions.call, Mutex.win32, win32Lock, CriticalSection.leave, if_neg differs] at stepped
      cases stepped

/-- A mutex that is not robust stays with its owner too. -/
theorem refused_of_held {sys : System} {m m' : PthreadMutex τ} {t : τ} {n : Nat} {i : Event τ} {e : Option Error}
    (held : m.holder = some (t, n)) (other : i.thread ≠ t) (stepped : (Mutex.pthreads sys).step i m = some (m', e)) :
    m'.holder = some (t, n) ∧ i.Refused e := by
  have another : ∀ u, u ≠ t → ¬t = u := fun u differs same => differs same.symm
  cases i with
  | ends u =>
    have differs := another u other
    cases stepped
    refine ⟨?_, fun u r same => by cases same⟩
    show (m.ends sys.robust u).holder = _
    simp only [PthreadMutex.ends, held, differs, and_false, if_false]
  | call u r =>
    have differs := another u other
    have waits : (m.lock .errorcheck sys.recursions u).1 = m ∧ (m.lock .errorcheck sys.recursions u).2 ≠ some .ok := by
      simp only [PthreadMutex.lock, held, if_neg differs]
      split <;> simp
    cases r with
    | lock raises =>
      obtain ⟨same, refused⟩ := waits
      rw [Option.some.inj stepped] at same refused
      exact ⟨by rw [show m' = m from same]; exact held, fun _ _ _ _ => refused⟩
    | tryLock =>
      have busy : (m.trylock .errorcheck sys.recursions u).1 = m ∧
          (m.trylock .errorcheck sys.recursions u).2 ≠ some .ok := by
        simp only [PthreadMutex.trylock, held, differs, false_and, if_false]
        split <;> simp
      obtain ⟨same, refused⟩ := busy
      rw [Option.some.inj stepped] at same refused
      exact ⟨by rw [show m' = m from same]; exact held, fun _ _ _ _ => refused⟩
    | lockUntil late =>
      have same := Option.some.inj stepped
      by_cases darwin : sys.darwin = true
      · rw [if_pos darwin] at same
        cases same
        exact ⟨held, fun _ _ _ _ => by simp⟩
      · obtain ⟨unchanged, refused⟩ := waits
        rw [if_neg darwin] at same
        cases same
        refine ⟨?_, fun _ _ _ _ => ?_⟩
        · show (m.lock .errorcheck sys.recursions u).1.holder = _
          rw [unchanged, held]
        · show (m.lock .errorcheck sys.recursions u).2.or _ ≠ _
          cases answer : (m.lock .errorcheck sys.recursions u).2 with
          | none => cases late <;> simp
          | some e =>
            rw [answer] at refused
            exact refused
    | unlock =>
      have same := Option.some.inj stepped
      simp only [PthreadMutex.unlock, held, if_neg differs] at same
      cases same
      exact ⟨held, fun _ _ _ _ => by simp⟩

/-- Who believes to have the mutex has it. -/
theorem holder_of_believed (sys : System) (detects : Bool) (b : Backend) {events : List (Event τ)}
    {s : (LockType.mutex.implementation sys detects b : Implementation τ).State} {answers : List (Option Error)} {t : τ}
    (ran : Machine.run (LockType.mutex.implementation sys detects b).functions.step events
      (LockType.mutex.implementation sys detects b).fresh = some (s, answers))
    (believes : 0 < believed events answers t ()) :
    ∃ n, (LockType.mutex.implementation sys detects b : Implementation τ).holder s = some (t, n) := by
  have has := (LockType.mutex.implementation sys detects b : Implementation τ).hasHolder
  have held := Nat.lt_of_lt_of_le believes (has.believed_le ran t)
  cases holder : (LockType.mutex.implementation sys detects b : Implementation τ).holder s with
  | none =>
    rw [holder] at held
    exact absurd held (Nat.lt_irrefl 0)
  | some h =>
    obtain ⟨u, n⟩ := h
    rw [holder] at held
    by_cases mine : t = u
    · exact ⟨n, by rw [mine]⟩
    · simp [heldBy, mine] at held

/-- When a thread ends with an `rbc_mutex` locked, no other thread ever gets OK for a lock
again, be the mutex robust or not, or a critical section: what the mutex guards is
never entered as if it were whole. -/
theorem never_ok_after_owner_death (sys : System) (detects : Bool) (b : Backend) {before after : List (Event τ)}
    {s last : (LockType.mutex.implementation sys detects b : Implementation τ).State}
    {answers answers' : List (Option Error)} {t : τ}
    (ran : Machine.run (LockType.mutex.implementation sys detects b).functions.step before
      (LockType.mutex.implementation sys detects b).fresh = some (s, answers))
    (believes : 0 < believed before answers t ())
    (ran' : Machine.run (LockType.mutex.implementation sys detects b).functions.step (.ends t :: after) s =
      some (last, answers'))
    (gone : ∀ i ∈ after, i.thread ≠ t) :
    ∀ ie ∈ (Event.ends t :: after).zip answers', ie.1.Refused ie.2 := by
  obtain ⟨n, holder⟩ := holder_of_believed sys detects b ran believes
  obtain ⟨s', e, os, stepped, later, rfl⟩ := Machine.run_cons.mp ran'
  have first : (Event.ends t).Refused e := fun u r same => by cases same
  intro ie member
  rcases List.mem_cons.mp member with rfl | member
  · exact first
  cases b with
  | pthreads =>
    have left : PthreadMutex.health s' ≠ .consistent ∨ PthreadMutex.holder s' = some (t, n) := by
      cases stepped
      show (PthreadMutex.ends sys.robust t s).health ≠ _ ∨ (PthreadMutex.ends sys.robust t s).holder = _
      have holder : PthreadMutex.holder s = some (t, n) := holder
      cases robust : sys.robust <;> simp [PthreadMutex.ends, holder]
    have spreads : ∀ (m : PthreadMutex τ) (i : Event τ) (m' : PthreadMutex τ) (e : Option Error), i ∈ after →
        (m.health ≠ .consistent ∨ m.holder = some (t, n)) → (Mutex.pthreads sys).step i m = some (m', e) →
        (m'.health ≠ .consistent ∨ m'.holder = some (t, n)) ∧ i.Refused e := by
      rintro m i m' e inside (unhealthy | held) stepped
      · obtain ⟨kept, refused⟩ := refused_of_unhealthy unhealthy stepped
        exact ⟨Or.inl kept, refused⟩
      · obtain ⟨kept, refused⟩ := refused_of_held held (gone i inside) stepped
        exact ⟨Or.inr kept, refused⟩
    exact Machine.run_answers spreads left later ie member
  | win32 =>
    have kept : s' = some (t, n) := by
      cases stepped
      exact holder
    have stays : ∀ (s : CriticalSection τ) (i : Event τ) (s' : CriticalSection τ) (e : Option Error), i ∈ after →
        s = some (t, n) → Mutex.win32.step i s = some (s', e) → s' = some (t, n) ∧ i.Refused e :=
      fun s i s' e inside held stepped => refused_of_gone held (gone i inside) stepped
    exact Machine.run_answers stays kept later ie member

/-- The next thread is told of the death, unlocks, and locks again. -/
theorem never_ok_after_owner_death_for_two :
    (Event.call false (.lock false)).Refused (some .ownerDead) ∧
      (Event.call false .tryLock).Refused (some .stateNotRecoverable) :=
  have refused := @never_ok_after_owner_death Bool _ .gnu false .pthreads [.call true (.lock false)]
    [.call false (.lock false), .call false .unlock, .call false .tryLock] ⟨.consistent, some (true, 0)⟩
    ⟨.notRecoverable, none⟩ [some .ok] [none, some .ownerDead, some .ok, some .stateNotRecoverable] true rfl
    (by decide) rfl (by decide)
  ⟨refused (.call false (.lock false), some .ownerDead) (.tail _ (.head _)),
    refused (.call false .tryLock, some .stateNotRecoverable) (.tail _ (.tail _ (.tail _ (.head _))))⟩

end Rbc.Lock
