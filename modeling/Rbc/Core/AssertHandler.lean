import Rbc.Basis.Atomic
import Rbc.Sync.Mutex

namespace Rbc.AssertHandler

open Lock Trace

/-- `rbc_get_assert_handler` and `rbc_set_assert_handler`. -/
inductive Request (H : Type)
  | get
  | set (handler : H)

variable {τ σ H : Type}

/-- `atomic_load_explicit` and `atomic_exchange_explicit`, which are the two functions
where a pointer is lock-free. -/
def Request.apply : Request H → H → H × H
  | .get, handler => (handler, handler)
  | .set handler, prev => (handler, prev)

/-- `g_init_mutex_once`. -/
inductive Once (τ : Type)
  | fresh
  | running (t : τ)
  | done

/-- Where a thread stands in the functions that use a mutex. -/
inductive Point (H : Type)
  | outside
  | callOnce (r : Request H)
  | initMutex (r : Request H)
  | lock (r : Request H)
  | read (r : Request H)
  | write (handler prev : H)
  | unlock (r : Request H) (handler : H)
  | done (r : Request H) (handler : H)

structure State (τ σ H : Type) where
  once : Once τ
  mutex : Option σ
  handler : H
  point : τ → Point H

/-- A thread calls a function or goes on in it. A wait inside `EnterCriticalSection`
may end with an exception. -/
inductive Act (H : Type)
  | call (r : Request H)
  | run (raises : Bool)

def Act.label (t : τ) : Point H → Act H → Option (Atomic.Label τ (Request H) H)
  | _, .call r => some (.call t r)
  | .done r handler, .run _ => some (.returns t r handler)
  | _, _ => none

namespace State

def start (handler : H) : State τ σ H := ⟨.fresh, none, handler, fun _ => .outside⟩

/-- A function of the mutex is called without a mutex, or by a thread that may not call it. -/
def Undefined (f : Functions τ σ) (s : State τ σ H) (t : τ) : Prop :=
  match s.point t with
  | .lock _ => s.mutex.bind (f.lock false t) = none
  | .unlock _ _ => s.mutex.bind (f.unlock t) = none
  | _ => False

variable [DecidableEq τ]

def goto (s : State τ σ H) (t : τ) (p : Point H) : State τ σ H :=
  { s with point := Function.update s.point t p }

/-- The next step of a thread, if it can make one. `made` is the mutex after
`rbc_mutex_init`, if there is one; the results of all calls are ignored. -/
def run (f : Functions τ σ) (made : Option σ) (raises : Bool) (t : τ) (s : State τ σ H) : Option (State τ σ H) :=
  match s.point t with
  | .outside => none
  | .callOnce r =>
    match s.once with
    | .fresh => some ({ s with once := .running t }.goto t (.initMutex r))
    | .running _ => none
    | .done => some (s.goto t (.lock r))
  | .initMutex r => some ({ s with once := .done, mutex := made }.goto t (.lock r))
  | .lock r => do
    let (m, e) ← f.lock raises t (← s.mutex)
    if e.isSome then some ({ s with mutex := some m }.goto t (.read r)) else none
  | .read .get => some (s.goto t (.unlock .get s.handler))
  | .read (.set handler) => some (s.goto t (.write handler s.handler))
  | .write handler prev => some ({ s with handler := handler }.goto t (.unlock (.set handler) prev))
  | .unlock r handler => do
    let (m, _) ← f.unlock t (← s.mutex)
    some ({ s with mutex := some m }.goto t (.done r handler))
  | .done _ _ => some (s.goto t .outside)

def step (f : Functions τ σ) (made : Option σ) (t : τ) (s : State τ σ H) : Act H → Option (State τ σ H)
  | .call r =>
    match s.point t with
    | .outside => some (s.goto t (.callOnce r))
    | _ => none
  | .run raises => s.run f made raises t

def Next (f : Functions τ σ) (made : Option σ) (mayRaise : Bool) (s : State τ σ H)
    (l : Option (Atomic.Label τ (Request H) H)) (s' : State τ σ H) : Prop :=
  ∃ t a, (a = .run true → mayRaise = true) ∧ s.step f made t a = some s' ∧ l = a.label t (s.point t)

end State

/-- What the mutex functions do for threads that lock and unlock in turn. -/
structure Behaves (f : Functions τ σ) (plain : Option τ → σ) (mayRaise : Bool) : Prop where
  lock_free : ∀ raises t, f.lock raises t (plain none) = some (plain (some t), some .ok)
  lock_held : ∀ raises t u, (raises = true → mayRaise = true) → u ≠ t →
    f.lock raises t (plain (some u)) = some (plain (some u), none)
  unlock : ∀ t, f.unlock t (plain (some t)) = some (plain none, some .ok)

namespace Point

def holds : Point H → Bool
  | .read _ | .write _ _ | .unlock _ _ => true
  | _ => false

/-- Behind `rbc_call_once`. -/
def passed : Point H → Bool
  | .lock _ | .read _ | .write _ _ | .unlock _ _ => true
  | _ => false

/-- A call has taken effect when the handler was read, or written if it has to be. -/
def phase : Point H → Atomic.Phase (Request H) H
  | .outside => .outside
  | .callOnce r | .initMutex r | .lock r | .read r => .asked r
  | .write handler _ => .asked (.set handler)
  | .unlock r handler | .done r handler => .returning r handler

end Point

/-- The handler as an atomic object. -/
def State.cell (s : State τ σ H) : Atomic.Object τ (Request H) H H := ⟨s.handler, fun t => (s.point t).phase⟩

/-- The mutex is made once, before anybody locks it; who is behind the lock is its
owner, and what it has read is still there when it writes. -/
structure Invariant (plain : Option τ → σ) (s : State τ σ H) (owner : Option τ) : Prop where
  holds : ∀ t, (s.point t).holds = true ↔ owner = some t
  passed : ∀ t, (s.point t).passed = true → s.once = .done
  inits : ∀ t r, s.point t = .initMutex r → s.once = .running t
  mutex : s.once = .done → s.mutex = some (plain owner)
  fresh : ∀ t handler prev, s.point t = .write handler prev → prev = s.handler

variable [DecidableEq τ] {f : Functions τ σ} {plain : Option τ → σ} {mayRaise : Bool} {s s' : State τ σ H} {t : τ}
  {owner owner' : Option τ}

/-- The steps of a thread as the owner of the mutex sees them. -/
inductive Ran (plain : Option τ → σ) (s : State τ σ H) (owner : Option τ) (t : τ) : State τ σ H → Option τ → Prop
  | begins {r : Request H} (point : s.point t = .callOnce r) (fresh : s.once = .fresh) :
    Ran plain s owner t ({ s with once := .running t }.goto t (.initMutex r)) owner
  | skips {r : Request H} (point : s.point t = .callOnce r) (done : s.once = .done) :
    Ran plain s owner t (s.goto t (.lock r)) owner
  | inits {r : Request H} (point : s.point t = .initMutex r) :
    Ran plain s owner t ({ s with once := .done, mutex := some (plain none) }.goto t (.lock r)) owner
  | locks {r : Request H} (point : s.point t = .lock r) (free : owner = none) :
    Ran plain s owner t ({ s with mutex := some (plain (some t)) }.goto t (.read r)) (some t)
  | gets (point : s.point t = .read .get) : Ran plain s owner t (s.goto t (.unlock .get s.handler)) owner
  | reads {handler : H} (point : s.point t = .read (.set handler)) :
    Ran plain s owner t (s.goto t (.write handler s.handler)) owner
  | writes {handler prev : H} (point : s.point t = .write handler prev) :
    Ran plain s owner t ({ s with handler := handler }.goto t (.unlock (.set handler) prev)) owner
  | unlocks {r : Request H} {handler : H} (point : s.point t = .unlock r handler) :
    Ran plain s owner t ({ s with mutex := some (plain none) }.goto t (.done r handler)) none
  | leaves {r : Request H} {handler : H} (point : s.point t = .done r handler) :
    Ran plain s owner t (s.goto t .outside) owner

theorem Invariant.ran_of_run (inv : Invariant plain s owner) (behaves : Behaves f plain mayRaise) {raises : Bool}
    (allowed : raises = true → mayRaise = true) (run : s.run f (some (plain none)) raises t = some s') :
    ∃ owner', Ran plain s owner t s' owner' := by
  unfold State.run at run
  cases point : s.point t with
  | outside =>
    rw [point] at run
    cases run
  | callOnce r =>
    rw [point] at run
    simp only at run
    split at run
    · rename_i fresh
      cases run
      exact ⟨owner, .begins point fresh⟩
    · cases run
    · rename_i done
      cases run
      exact ⟨owner, .skips point done⟩
  | initMutex r =>
    rw [point] at run
    cases run
    exact ⟨owner, .inits point⟩
  | lock r =>
    have made := inv.mutex (inv.passed t (by rw [point]; rfl))
    simp only [point, made, Option.bind_eq_bind, Option.bind_some] at run
    cases owner with
    | none =>
      rw [behaves.lock_free] at run
      cases run
      exact ⟨some t, .locks point rfl⟩
    | some u =>
      have other : u ≠ t := by
        rintro rfl
        have holds := (inv.holds u).mpr rfl
        rw [point] at holds
        cases holds
      rw [behaves.lock_held raises t u allowed other] at run
      cases run
  | read r =>
    rw [point] at run
    cases r with
    | get =>
      cases run
      exact ⟨owner, .gets point⟩
    | set handler =>
      cases run
      exact ⟨owner, .reads point⟩
  | write handler prev =>
    rw [point] at run
    cases run
    exact ⟨owner, .writes point⟩
  | unlock r handler =>
    have made := inv.mutex (inv.passed t (by rw [point]; rfl))
    have own : owner = some t := (inv.holds t).mp (by rw [point]; rfl)
    subst own
    simp only [point, made, Option.bind_eq_bind, Option.bind_some, behaves.unlock] at run
    cases run
    exact ⟨none, .unlocks point⟩
  | done r handler =>
    rw [point] at run
    cases run
    exact ⟨owner, .leaves point⟩

theorem State.forall_goto {p : Point H} {P : τ → Point H → Prop} (here : P t p) (others : ∀ u, u ≠ t → P u (s.point u)) :
    ∀ u, P u ((s.goto t p).point u) :=
  (Function.forall_update_iff s.point P).mpr ⟨here, others⟩

/-- A step of one thread, after which the others still are where they were. -/
theorem Invariant.goto {s₁ : State τ σ H} {p : Point H} (inv : Invariant plain s owner) (same : s₁.point = s.point)
    (mine : p.holds = true ↔ owner' = some t) (theirs : ∀ u, u ≠ t → (owner = some u ↔ owner' = some u))
    (passed : p.passed = true ∨ s.once = .done → s₁.once = .done) (inits : ∀ r, p = .initMutex r → s₁.once = .running t)
    (running : ∀ u, u ≠ t → s.once = .running u → s₁.once = .running u)
    (mutex : s₁.once = .done → s₁.mutex = some (plain owner')) (fresh : ∀ h prev, p = .write h prev → prev = s₁.handler)
    (handler : ∀ u, u ≠ t → owner = some u → s₁.handler = s.handler) : Invariant plain (s₁.goto t p) owner' := by
  refine ⟨?_, ?_, ?_, mutex, ?_⟩
  · refine State.forall_goto (P := fun u q => q.holds = true ↔ owner' = some u) mine fun u other => ?_
    rw [same]
    exact (inv.holds u).trans (theirs u other)
  · refine State.forall_goto (P := fun u q => q.passed = true → s₁.once = .done) (fun h => passed (Or.inl h))
      fun u _ there => ?_
    rw [same] at there
    exact passed (Or.inr (inv.passed u there))
  · refine State.forall_goto (P := fun u q => ∀ r, q = .initMutex r → s₁.once = .running u) inits fun u other r there => ?_
    rw [same] at there
    exact running u other (inv.inits u r there)
  · refine State.forall_goto (P := fun u q => ∀ h prev, q = .write h prev → prev = s₁.handler) fresh
      fun u other h prev there => ?_
    rw [same] at there
    rw [handler u other ((inv.holds u).mp (by rw [there]; rfl))]
    exact inv.fresh u h prev there

/-- A step that takes nothing and changes nothing that is shared. -/
theorem Invariant.goto_plain {p : Point H} (inv : Invariant plain s owner) (holds : p.holds = (s.point t).holds)
    (passed : p.passed = true → s.once = .done) (inits : ∀ r, p ≠ .initMutex r)
    (fresh : ∀ h prev, p = .write h prev → prev = s.handler) : Invariant plain (s.goto t p) owner := by
  refine inv.goto rfl ?_ (fun _ _ => Iff.rfl) ?_ ?_ (fun _ _ => id) inv.mutex fresh fun _ _ _ => rfl
  · rw [holds]
    exact inv.holds t
  · rintro (here | done)
    · exact passed here
    · exact done
  · exact fun r here => absurd here (inits r)

omit [DecidableEq τ] in
theorem Invariant.owner_eq (inv : Invariant plain s owner) (holds : (s.point t).holds = true) : owner = some t :=
  (inv.holds t).mp holds

omit [DecidableEq τ] in
theorem Invariant.owner_ne (inv : Invariant plain s owner) (holds : (s.point t).holds = false) : owner ≠ some t := by
  intro own
  rw [(inv.holds t).mpr own] at holds
  cases holds

omit [DecidableEq τ] in
/-- Who has the mutex is behind `rbc_call_once`. -/
theorem Invariant.done_of_owner (inv : Invariant plain s owner) (own : owner = some t) : s.once = .done := by
  have holds := (inv.holds t).mpr own
  refine inv.passed t ?_
  cases point : s.point t <;> rw [point] at holds <;> first | rfl | cases holds

theorem Invariant.ran (inv : Invariant plain s owner) (ran : Ran plain s owner t s' owner') : Invariant plain s' owner' := by
  cases ran with
  | begins point fresh =>
    have free : owner ≠ some t := inv.owner_ne (by rw [point]; rfl)
    refine inv.goto rfl (iff_of_false nofun free) (fun _ _ => Iff.rfl) ?_ (fun _ _ => rfl) ?_ nofun nofun fun _ _ _ => rfl
    · rintro (here | done)
      · cases here
      · rw [fresh] at done
        cases done
    · intro u _ running
      rw [fresh] at running
      cases running
  | skips point done => exact inv.goto_plain (by rw [point]; rfl) (fun _ => done) nofun nofun
  | inits point =>
    have running := inv.inits t _ point
    have nobody : owner = none := by
      refine Option.eq_none_iff_forall_ne_some.mpr fun u own => ?_
      have done := inv.done_of_owner own
      rw [running] at done
      cases done
    subst nobody
    refine inv.goto rfl (iff_of_false nofun nofun) (fun _ _ => Iff.rfl) (fun _ => rfl) nofun ?_ (fun _ => rfl) nofun
      fun _ _ _ => rfl
    intro u other there
    rw [running] at there
    cases there
    exact absurd rfl other
  | locks point free =>
    have done := inv.passed t (by rw [point]; rfl)
    have foreign : ∀ u, u ≠ t → (owner = some u ↔ some t = some u) := by
      intro u other
      rw [free]
      exact iff_of_false nofun fun same => other (Option.some.inj same).symm
    refine inv.goto rfl (iff_of_true rfl rfl) foreign (fun _ => done) nofun (fun _ _ => id) (fun _ => rfl) nofun
      fun _ _ _ => rfl
  | gets point => exact inv.goto_plain (by rw [point]; rfl) (fun _ => inv.passed t (by rw [point]; rfl)) nofun nofun
  | reads point =>
    refine inv.goto_plain (by rw [point]; rfl) (fun _ => inv.passed t (by rw [point]; rfl)) nofun fun h prev same => ?_
    cases same
    rfl
  | writes point =>
    have own := inv.owner_eq (t := t) (by rw [point]; rfl)
    have done := inv.passed t (by rw [point]; rfl)
    refine inv.goto rfl (iff_of_true rfl own) (fun _ _ => Iff.rfl) (fun _ => done) nofun (fun _ _ => id) inv.mutex nofun ?_
    intro u other owns
    cases Option.some.inj (own.symm.trans owns)
    exact absurd rfl other
  | unlocks point =>
    have own := inv.owner_eq (t := t) (by rw [point]; rfl)
    have done := inv.passed t (by rw [point]; rfl)
    have foreign : ∀ u, u ≠ t → (owner = some u ↔ none = some u) := by
      intro u other
      rw [own]
      exact iff_of_false (fun same => other (Option.some.inj same).symm) nofun
    exact inv.goto rfl (iff_of_false nofun nofun) foreign (fun _ => done) nofun (fun _ _ => id) (fun _ => rfl) nofun
      fun _ _ _ => rfl
  | leaves point => exact inv.goto_plain (by rw [point]; rfl) nofun nofun nofun

omit [DecidableEq τ] in
theorem Invariant.start (handler : H) : Invariant plain (.start handler : State τ σ H) none :=
  ⟨fun _ => iff_of_false nofun nofun, nofun, nofun, nofun, nofun⟩

theorem Invariant.step (inv : Invariant plain s owner) (behaves : Behaves f plain mayRaise) {a : Act H}
    (allowed : a = .run true → mayRaise = true) (step : s.step f (some (plain none)) t a = some s') :
    ∃ owner', Invariant plain s' owner' := by
  cases a with
  | call r =>
    simp only [State.step] at step
    split at step
    · rename_i outside
      cases step
      exact ⟨owner, inv.goto_plain (by rw [outside]; rfl) nofun nofun nofun⟩
    · cases step
  | run raises =>
    obtain ⟨owner', ran⟩ := inv.ran_of_run behaves (fun here => allowed (by rw [here])) step
    exact ⟨owner', inv.ran ran⟩

omit [DecidableEq τ] in
/-- No thread calls a function of the mutex without a mutex, or unlocks what is not its own. -/
theorem Invariant.defined (inv : Invariant plain s owner) (behaves : Behaves f plain mayRaise) (t : τ) :
    ¬s.Undefined f t := by
  intro undefined
  unfold State.Undefined at undefined
  cases point : s.point t with
  | lock r =>
    rw [point] at undefined
    rw [inv.mutex (inv.passed t (by rw [point]; rfl)), Option.bind_some] at undefined
    cases owner with
    | none =>
      rw [behaves.lock_free] at undefined
      cases undefined
    | some u =>
      have other : u ≠ t := fun same => inv.owner_ne (by rw [point]; rfl) (congrArg some same)
      rw [behaves.lock_held false t u (absurd · Bool.false_ne_true) other] at undefined
      cases undefined
  | unlock r handler =>
    have own : owner = some t := inv.owner_eq (by rw [point]; rfl)
    have made := inv.mutex (inv.passed t (by rw [point]; rfl))
    simp only [point, made, Option.bind_some, own, behaves.unlock] at undefined
    cases undefined
  | _ =>
    rw [point] at undefined
    exact undefined

theorem State.cell_goto (p : Point H) : (s.goto t p).cell = s.cell.goto t p.phase := by
  simp only [cell, goto, Atomic.Object.goto]
  congr 1
  funext u
  by_cases mine : u = t
  · simp [mine]
  · simp [mine]

theorem simulates (behaves : Behaves f plain mayRaise) :
    Simulates (State.Next f (some (plain none)) mayRaise) (Atomic.Next (τ := τ) (Request.apply (H := H)))
      fun s o => (∃ owner, Invariant plain s owner) ∧ o = s.cell := by
  rintro s _ l s' ⟨⟨owner, inv⟩, rfl⟩ ⟨t, a, allowed, step, rfl⟩
  have kept := inv.step behaves allowed step
  have phase : s.cell.phase t = (s.point t).phase := rfl
  cases a with
  | call r =>
    simp only [State.step] at step
    split at step
    · rename_i outside
      cases step
      rw [outside] at phase ⊢
      exact ⟨_, .one ⟨t, .call phase⟩, kept, by rw [State.cell_goto]; rfl⟩
    · cases step
  | run raises =>
    obtain ⟨owner', ran⟩ := inv.ran_of_run behaves (fun here => allowed (by rw [here])) step
    cases ran with
    | begins point | skips point | inits point | locks point | reads point | unlocks point =>
      rw [point] at phase ⊢
      refine ⟨_, .refl, kept, ?_⟩
      rw [State.cell_goto]
      exact (Atomic.Object.goto_self phase).symm
    | gets point =>
      rw [point] at phase ⊢
      exact ⟨_, .silent ⟨t, .acts phase⟩, kept, by rw [State.cell_goto]; rfl⟩
    | writes point =>
      rw [point] at phase ⊢
      have read := inv.fresh t _ _ point
      subst read
      exact ⟨_, .silent ⟨t, .acts phase⟩, kept, by rw [State.cell_goto]; rfl⟩
    | leaves point =>
      rw [point] at phase ⊢
      exact ⟨_, .one ⟨t, .returns phase⟩, kept, by rw [State.cell_goto]; rfl⟩

/-- The `rbc_mutex` on a back end. -/
def mutex (sys : System) (b : Backend) : Implementation τ := LockType.mutex.implementation sys false b

/-- A mutex that is locked once or free. -/
def locked (sys : System) : (b : Backend) → Option τ → (mutex sys b : Implementation τ).State
  | .pthreads, owner => ⟨.consistent, owner.map (·, 0)⟩
  | .win32, owner => owner.map (·, 0)

/-- The mutex after `rbc_mutex_init`, which may have failed. -/
def initialized (sys : System) (b : Backend) (made : Bool) : Option (mutex sys b : Implementation τ).State :=
  if made then some (locked sys b none) else none

theorem behaves_mutex (sys : System) {b : Backend} (patient : b = .win32 → mayRaise = false) :
    Behaves (τ := τ) (mutex sys b).functions (locked sys b) mayRaise := by
  cases b with
  | pthreads =>
    refine ⟨fun raises t => rfl, fun raises t u _ other => ?_, fun t => ?_⟩
    · simp [mutex, locked, LockType.implementation, Mutex.pthreads, pthreadLock, PthreadMutex.lock, other]
    · simp [mutex, locked, LockType.implementation, Mutex.pthreads, pthreadLock, PthreadMutex.unlock]
  | win32 =>
    refine ⟨fun raises t => rfl, fun raises t u allowed other => ?_, fun t => ?_⟩
    · have calm : raises = false := by
        refine Bool.eq_false_iff.mpr fun raised => ?_
        have may := allowed raised
        rw [patient rfl] at may
        cases may
      simp [mutex, locked, LockType.implementation, Mutex.win32, win32Lock, CriticalSection.enter, other, calm]
    · simp [mutex, locked, LockType.implementation, Mutex.win32, win32Lock, CriticalSection.leave]

/-- A thread comes to the lock, whatever `rbc_mutex_init` did. -/
theorem reaches_lock (f : Functions τ σ) (made : Option σ) (mayRaise : Bool) (first : H) (t : τ) :
    ∃ labels s, Path (State.Next f made mayRaise) (.start first) labels s ∧ s.once = .done ∧ s.mutex = made ∧
      s.point t = .lock .get ∧ ∀ u, u ≠ t → s.point u = .outside := by
  have called : Path (State.Next f made mayRaise) (.start first : State τ σ H) _ _ := .one ⟨t, .call .get, nofun, rfl, rfl⟩
  have began := called.tail ⟨t, .run false, nofun, by simp [State.step, State.run, State.goto, State.start]; rfl, rfl⟩
  have made := began.tail ⟨t, .run false, nofun, by simp [State.step, State.run, State.goto]; rfl, rfl⟩
  refine ⟨_, _, made, rfl, rfl, ?_, fun u other => ?_⟩
  · simp
  · simp [other]

/-- A wait that ends with an exception lets a second thread in, which then unlocks
what it has not locked. -/
theorem undefined_of_raise (sys : System) {made : Option (mutex sys .win32 : Implementation τ).State}
    (fresh : made = some (locked sys .win32 none)) {t u : τ} (other : u ≠ t) (first : H) :
    ∃ labels s, Path (State.Next (mutex sys .win32).functions made true) (.start first) labels s ∧
      s.Undefined (mutex sys .win32).functions u := by
  obtain ⟨labels, s, path, done, mutexIs, atLock, outside⟩ := reaches_lock (mutex sys .win32).functions made true first t
  have locks := path.tail ⟨t, .run false, fun _ => rfl, by
    simp [State.step, State.run, atLock, mutexIs, fresh, locked, mutex, LockType.implementation, Mutex.win32, win32Lock,
      CriticalSection.enter]
    rfl, rfl⟩
  have calls := locks.tail ⟨u, .call .get, fun _ => rfl, by simp [State.step, State.goto, outside u other, other]; rfl, rfl⟩
  have skips := calls.tail ⟨u, .run false, fun _ => rfl, by simp [State.step, State.run, State.goto, done]; rfl, rfl⟩
  have raises := skips.tail ⟨u, .run true, fun _ => rfl, by
    simp [State.step, State.run, State.goto, mutex, LockType.implementation, Mutex.win32, win32Lock,
      CriticalSection.enter, Ne.symm other]
    rfl, rfl⟩
  have reads := raises.tail ⟨u, .run false, fun _ => rfl, by simp [State.step, State.run, State.goto]; rfl, rfl⟩
  refine ⟨_, _, reads, ?_⟩
  simp [State.Undefined, mutex, LockType.implementation, Mutex.win32, win32Lock, CriticalSection.leave, Ne.symm other]

/-- The functions that use a mutex do what the atomic instructions do, in every run of any
threads, and call nothing undefined, exactly if the mutex could be made and, on
Win32, no wait for it ends with an exception. -/
theorem mutex_path_is_atomic_iff (sys : System) (b : Backend) (made mayRaise : Bool) (two : ∃ t u : τ, u ≠ t) (first : H) :
    (∀ labels (s : State τ (mutex sys b : Implementation τ).State H),
      Path (State.Next (mutex sys b).functions (initialized sys b made) mayRaise) (.start first) labels s →
        Path (Atomic.Next Request.apply) (.start first) labels s.cell ∧ ∀ t, ¬s.Undefined (mutex sys b).functions t) ↔
      made = true ∧ (b = .win32 → mayRaise = false) := by
  obtain ⟨t, u, other⟩ := two
  constructor
  · intro always
    have isMade : made = true := by
      refine Decidable.byContradiction fun failed => ?_
      have none : initialized sys b made = (none : Option (mutex sys b : Implementation τ).State) := if_neg failed
      obtain ⟨labels, s, path, -, mutexIs, atLock, -⟩ :=
        reaches_lock (mutex sys b).functions (initialized sys b made) mayRaise first t
      refine (always labels s path).2 t ?_
      simp [State.Undefined, atLock, mutexIs, none]
    refine ⟨isMade, fun isWin32 => Bool.eq_false_iff.mpr fun may => ?_⟩
    subst isWin32 may
    have fresh : initialized sys .win32 made = some (locked (τ := τ) sys .win32 none) := if_pos isMade
    obtain ⟨labels, s, path, undefined⟩ := undefined_of_raise sys fresh other first
    exact (always labels s path).2 u undefined
  · rintro ⟨rfl, patient⟩ labels s path
    have behaves := behaves_mutex (τ := τ) sys patient
    obtain ⟨o, seen, ⟨owner, inv⟩, rfl⟩ := (simulates behaves).path path ⟨⟨none, Invariant.start first⟩, rfl⟩
    exact ⟨seen, inv.defined behaves⟩

theorem mutex_path_is_atomic_iff_for_two :
    (∀ labels (s : State Bool (mutex .gnu .win32 : Implementation Bool).State Nat),
      Path (State.Next (mutex .gnu .win32).functions (initialized .gnu .win32 true) true) (.start 0) labels s →
        Path (Atomic.Next Request.apply) (.start 0) labels s.cell ∧ ∀ t, ¬s.Undefined (mutex .gnu .win32).functions t) ↔
      true = true ∧ (Backend.win32 = .win32 → true = false) :=
  mutex_path_is_atomic_iff .gnu .win32 true true ⟨true, false, Bool.false_ne_true⟩ 0

/-- The handler that a call set, and the one that it got in return. -/
def setTo : Request H × H → Option H
  | (.set handler, _) => some handler
  | (.get, _) => none

def setFrom : Request H × H → Option H
  | (.set _, prev) => some prev
  | (.get, _) => none

/-- Of calls made one after the other each takes over what the one before it left. -/
theorem perm_of_serial {first last : H} {calls : List (Request H × H)} (serial : Atomic.Serial Request.apply first calls last) :
    (first :: calls.filterMap setTo).Perm (last :: calls.filterMap setFrom) := by
  induction serial with
  | nil => exact .refl _
  | @snoc calls last r before ih =>
    cases r with
    | get => simpa [Request.apply, setTo, setFrom, List.filterMap_append, List.filterMap_cons] using ih
    | set handler =>
      have moved : (first :: (calls.filterMap setTo ++ [handler])).Perm (last :: (calls.filterMap setFrom ++ [handler])) :=
        ih.append_right [handler]
      have turned : (last :: (calls.filterMap setFrom ++ [handler])).Perm (handler :: (calls.filterMap setFrom ++ [last])) :=
        ((List.perm_append_singleton handler _).cons last).trans <| (List.Perm.swap handler last _).trans <|
          ((List.perm_append_singleton last _).cons handler).symm
      simpa [Request.apply, setTo, setFrom, List.filterMap_append] using moved.trans turned

/-- No handler is lost and none is handed back twice: when nobody is inside, the first
handler and those that were set are the ones handed back and the current one. -/
theorem handlers_kept (sys : System) {b : Backend} {mayRaise : Bool} (patient : b = .win32 → mayRaise = false) {first : H}
    {labels : List (Atomic.Label τ (Request H) H)} {s : State τ (mutex sys b : Implementation τ).State H}
    (path : Path (State.Next (mutex sys b).functions (initialized sys b true) mayRaise) (.start first) labels s)
    (quiet : ∀ t, s.point t = .outside) :
    let completed := labels.filterMap Atomic.Label.completed
    (first :: completed.filterMap setTo).Perm (s.handler :: completed.filterMap setFrom) := by
  obtain ⟨o, seen, -, rfl⟩ :=
    (simulates (behaves_mutex (τ := τ) sys patient)).path path ⟨⟨none, Invariant.start first⟩, rfl⟩
  obtain ⟨order, perm, serial⟩ := Atomic.serial_of_path seen fun t => by simp [State.cell, quiet t, Point.phase]
  have ordered := perm_of_serial serial
  exact ((perm.filterMap setTo).cons first).symm.trans (ordered.trans ((perm.filterMap setFrom).cons s.handler))

/-- The steps with what is seen of them. -/
def State.seen (f : Functions τ σ) (made : Option σ) (i : τ × Act H) (s : State τ σ H) :
    Option (State τ σ H × Option (Atomic.Label τ (Request H) H)) :=
  (s.step f made i.1 i.2).map (·, i.2.label i.1 (s.point i.1))

theorem State.next_of_seen {made : Option σ} (i : τ × Act H) (s s' : State τ σ H)
    (l : Option (Atomic.Label τ (Request H) H)) (seen : s.seen f made i = some (s', l)) : s.Next f made true l s' := by
  obtain ⟨next, stepped, same⟩ := Option.map_eq_some_iff.mp seen
  cases same
  exact ⟨i.1, i.2, fun _ => rfl, stepped, rfl⟩

/-- Two threads set a handler at the same time. -/
theorem handlers_kept_for_two :
    let completed : List (Request Nat × Nat) := [(.set 1, 0), (.set 2, 1)]
    (0 :: completed.filterMap setTo).Perm (2 :: completed.filterMap setFrom) := by
  let acts : List (Bool × Act Nat) := [(true, .call (.set 1)), (false, .call (.set 2)), (true, .run false), (true, .run false),
    (true, .run false), (false, .run false), (true, .run false), (true, .run false), (true, .run false), (false, .run false),
    (true, .run false), (false, .run false), (false, .run false), (false, .run false), (false, .run false)]
  have ran : Machine.run (State.seen (mutex .gnu .pthreads).functions (initialized .gnu .pthreads true)) acts (.start 0) =
    some (_, _) := rfl
  exact handlers_kept .gnu (b := .pthreads) nofun (Path.of_run State.next_of_seen ran) (Bool.forall_bool.mpr ⟨rfl, rfl⟩)

end Rbc.AssertHandler
