import Mathlib.Logic.Function.Basic
import Rbc.Sync.MutexBackends

namespace Rbc

open Exclusion Lock

variable {τ μ σ : Type} [DecidableEq τ] [DecidableEq μ]

/-- `RBC_LOCK_GUARD_DEF`; the names `μ` of the locks stand for their addresses. -/
structure Locker (μ : Type) where
  lockable : μ

namespace Locker

/-- `init` of `RBC_LOCK_GUARD_IMPL`, in memory with the locks `locks`. -/
def init (f : Functions τ σ) (raises : Bool) (t : τ) (locks : μ → σ) (self : Locker μ) : Option (σ × Option Error) :=
  f.lock raises t (locks self.lockable)

/-- `init_with`. -/
def initWith (f : Functions τ σ) (raises : Bool) (t : τ) (locks : μ → σ) (lockable : μ) : Option (σ × Option Error) :=
  Locker.init f raises t locks ⟨lockable⟩

/-- `destroy`. -/
def destroy (f : Functions τ σ) (t : τ) (locks : μ → σ) (self : Locker μ) : Option (σ × Option Error) :=
  f.unlock t (locks self.lockable)

end Locker

/-- Some locks, and how many guards on each of them each thread has. A guard is
there from the return of `init_with`, whatever that is, to its `destroy`. -/
structure Guards (τ μ σ : Type) where
  locks : μ → σ
  live : Holdings τ μ

namespace Guards

inductive Action (μ : Type)
  | initWith (raises : Bool) (m : μ)
  | destroy (m : μ)
  deriving DecidableEq

def start (fresh : σ) : Guards τ μ σ := ⟨fun _ => fresh, fun _ _ => 0⟩

def step (f : Functions τ σ) : τ × Action μ → Guards τ μ σ → Option (Guards τ μ σ × Option Error)
  | (t, .initWith raises m), g => do
    let (s, e) ← Locker.initWith f raises t g.locks m
    let live := if e.isSome then (Effect.takes t m).apply g.live else g.live
    return (⟨Function.update g.locks m s, live⟩, e)
  | (t, .destroy m), g =>
    if 0 < g.live t m then do
      let (s, e) ← Locker.destroy f t g.locks ⟨m⟩
      return (⟨Function.update g.locks m s, (Effect.gives t m).apply g.live⟩, e)
    else none

/-- Whoever has a guard on a lock holds it, and nobody else does. -/
def Protects (holder : σ → Holder τ) (g : Guards τ μ σ) : Prop :=
  ∀ t m, 0 < g.live t m ↔ ∃ n, holder (g.locks m) = some (t, n)

/-- No guard goes while the thread has another one on the same lock. -/
def NotNested : τ × Action μ → Guards τ μ σ → Prop
  | (_, .initWith ..), _ => True
  | (t, .destroy m), g => g.live t m ≤ 1

instance (i : τ × Action μ) (g : Guards τ μ σ) : Decidable (NotNested i g) :=
  match i with
  | (_, .initWith ..) => isTrue trivial
  | (t, .destroy m) => inferInstanceAs (Decidable (g.live t m ≤ 1))

/-- No wait of `EnterCriticalSection` times out. -/
def Patient : τ × Action μ → Guards τ μ (CriticalSection τ) → Prop
  | (t, .initWith raises m), g => raises = false ∨ ∀ u n, g.locks m = some (u, n) → u = t
  | (_, .destroy _), _ => True

section Pthreads

variable {g : Guards τ μ (PthreadMutex τ)} {t : τ} {m : μ}

/-- The mutexes are whole and locked at most once. -/
structure Plain (g : Guards τ μ (PthreadMutex τ)) : Prop where
  protects : Protects PthreadMutex.holder g
  plain : ∀ m, ∃ h : Option τ, g.locks m = ⟨.consistent, h.map fun t => (t, 0)⟩

omit [DecidableEq τ] [DecidableEq μ] in
theorem Plain.start : Plain (.start .fresh : Guards τ μ (PthreadMutex τ)) where
  protects t m := iff_of_false (Nat.lt_irrefl 0) fun ⟨n, held⟩ => by cases held
  plain m := ⟨none, rfl⟩

omit [DecidableEq τ] [DecidableEq μ] in
theorem Plain.live_iff (p : Plain g) {h : Option τ} (here : g.locks m = ⟨.consistent, h.map fun t => (t, 0)⟩) (u : τ) :
    0 < g.live u m ↔ h = some u := by
  rw [p.protects u m, here]
  cases h with
  | none => simp
  | some v => simp

omit [DecidableEq τ] in
/-- One mutex and the guards on it change. -/
theorem Plain.update (p : Plain g) {h : Option τ} {live : Holdings τ μ} (elsewhere : ∀ u k, k ≠ m → live u k = g.live u k)
    (here : ∀ u, 0 < live u m ↔ h = some u) :
    Plain ⟨Function.update g.locks m ⟨.consistent, h.map fun t => (t, 0)⟩, live⟩ where
  protects u k := by
    by_cases same : k = m
    · subst same
      simp only [Function.update_self, here u]
      cases h with
      | none => simp
      | some v => simp
    · simp only [Function.update_of_ne same, elsewhere u k same]
      exact p.protects u k
  plain k := by
    by_cases same : k = m
    · subst same
      exact ⟨h, Function.update_self ..⟩
    · obtain ⟨h', there⟩ := p.plain k
      exact ⟨h', by simpa only [Function.update_of_ne same] using there⟩

theorem Plain.initWith (p : Plain g) {raises : Bool} {g' : Guards τ μ (PthreadMutex τ)} {e : Option Error} {sys : System}
    (stepped : step (Mutex.pthreads sys) (t, .initWith raises m) g = some (g', e)) : Plain g' := by
  obtain ⟨h, here⟩ := p.plain m
  have live := p.live_iff here
  have more : ∀ u k, k ≠ m → (Effect.takes t m).apply g.live u k = g.live u k := by
    intro u k other
    simp [Effect.apply, other]
  simp only [step, Locker.initWith, Locker.init, here] at stepped
  cases h with
  | none =>
    have takes : (Mutex.pthreads sys).lock raises t ⟨.consistent, (none : Option τ).map fun t => (t, 0)⟩ =
        some (⟨.consistent, (some t).map fun t => (t, 0)⟩, some .ok) := rfl
    rw [takes] at stepped
    cases stepped
    refine Plain.update p (h := some t) more fun u => ?_
    have nobody : g.live u m = 0 := Nat.eq_zero_of_not_pos fun found => by cases (live u).mp found
    by_cases mine : u = t
    · simp [Effect.apply, mine]
    · simp [Effect.apply, mine, nobody, Ne.symm mine]
  | some v =>
    by_cases mine : v = t
    · subst mine
      have again : (Mutex.pthreads sys).lock raises v ⟨.consistent, (some v).map fun t => (t, 0)⟩ =
          some (⟨.consistent, (some v).map fun t => (t, 0)⟩, some .resourceDeadlockWouldOccur) := by
        simp [Mutex.pthreads, pthreadLock, PthreadMutex.lock, PthreadMutex.relock]
      rw [again] at stepped
      cases stepped
      refine Plain.update p (h := some v) more fun u => ?_
      by_cases own : u = v
      · simp [Effect.apply, own]
      · simpa [Effect.apply, own] using live u
    · have waits : (Mutex.pthreads sys).lock raises t ⟨.consistent, (some v).map fun t => (t, 0)⟩ =
          some (⟨.consistent, (some v).map fun t => (t, 0)⟩, none) := by
        simp [Mutex.pthreads, pthreadLock, PthreadMutex.lock, mine]
      rw [waits] at stepped
      cases stepped
      exact Plain.update p (h := some v) (fun _ _ _ => rfl) live

/-- A guard that goes unlocks the mutex, whether or not it had locked it. -/
theorem Plain.destroy (p : Plain g) {sys : System} (guards : 0 < g.live t m) :
    step (Mutex.pthreads sys) (t, .destroy m) g = some (⟨Function.update g.locks m ⟨.consistent, none⟩,
      (Effect.gives t m).apply g.live⟩, some .ok) := by
  obtain ⟨h, here⟩ := p.plain m
  have held := (p.live_iff here t).mp guards
  subst held
  simp [step, Locker.destroy, guards, here, Mutex.pthreads, pthreadLock, PthreadMutex.unlock]

theorem Plain.destroy_last (p : Plain g) (last : g.live t m = 1) :
    Plain ⟨Function.update g.locks m ⟨.consistent, none⟩, (Effect.gives t m).apply g.live⟩ := by
  obtain ⟨h, here⟩ := p.plain m
  have held := (p.live_iff here t).mp (by omega)
  refine Plain.update p (h := none) ?_ fun u => ?_
  · intro u k other
    simp [Effect.apply, other]
  · by_cases mine : u = t
    · simp [Effect.apply, mine, last]
    · have nobody : ¬0 < g.live u m := by
        rw [p.live_iff here u, held]
        exact fun same => mine (Option.some.inj same).symm
      simp only [Effect.apply, mine, false_and, if_false]
      exact iff_of_false nobody (Option.some_ne_none u).symm

theorem not_protects_of_nested (nested : 1 < g.live t m) :
    ¬Protects PthreadMutex.holder
      (⟨Function.update g.locks m ⟨.consistent, none⟩, (Effect.gives t m).apply g.live⟩ : Guards τ μ (PthreadMutex τ)) := by
  intro protects
  have still : 0 < (Effect.gives t m).apply g.live t m := by
    simp only [Effect.apply, and_self, if_true]
    omega
  obtain ⟨n, held⟩ := (protects t m).mp still
  simp only [Function.update_self] at held
  cases held

end Pthreads

section Win32

variable {g : Guards τ μ (CriticalSection τ)} {t : τ} {m : μ}

/-- A thread has entered a critical section once for each of its guards. -/
def Counts (g : Guards τ μ (CriticalSection τ)) : Prop := ∀ t m, g.live t m = heldBy (g.locks m) t ()

omit [DecidableEq μ] in
theorem Counts.protects (counts : Counts g) : Protects id g := by
  intro t m
  rw [counts t m]
  cases held : g.locks m with
  | none => simp [heldBy]
  | some h =>
    obtain ⟨u, n⟩ := h
    by_cases mine : t = u <;> simp [heldBy, mine, eq_comm]

/-- One critical section and the guards on it change. -/
theorem Counts.update (counts : Counts g) {h : Holder τ} {live : Holdings τ μ}
    (elsewhere : ∀ u k, k ≠ m → live u k = g.live u k) (here : ∀ u, live u m = heldBy h u ()) :
    Counts ⟨Function.update g.locks m h, live⟩ := by
  intro u k
  by_cases same : k = m
  · subst same
    simp only [Function.update_self, here u]
  · simp only [Function.update_of_ne same, elsewhere u k same]
    exact counts u k

theorem Counts.step (counts : Counts g) {i : τ × Action μ} {g' : Guards τ μ (CriticalSection τ)} {e : Option Error}
    (patient : Patient i g) (stepped : step Mutex.win32 i g = some (g', e)) : Counts g' := by
  obtain ⟨t, action⟩ := i
  cases action with
  | initWith raises m =>
    have live := fun u => counts u m
    have more : ∀ u k, k ≠ m → (Effect.takes t m).apply g.live u k = g.live u k := by
      intro u k other
      simp [Effect.apply, other]
    simp only [Guards.step, Locker.initWith, Locker.init, Mutex.win32, win32Lock] at stepped
    cases held : g.locks m with
    | none =>
      have enters : CriticalSection.enter raises t none = (some (t, 0), some .ok) := rfl
      rw [held, enters] at stepped
      rw [held] at live
      cases stepped
      refine Counts.update counts more fun u => ?_
      by_cases mine : u = t <;> simp [Effect.apply, mine, live, heldBy]
    | some h =>
      obtain ⟨v, n⟩ := h
      rw [held] at stepped live
      by_cases mine : v = t
      · subst mine
        simp only [CriticalSection.enter, if_true] at stepped
        cases stepped
        refine Counts.update counts more fun u => ?_
        by_cases own : u = v <;> simp [Effect.apply, own, live, heldBy]
      · have quiet : raises = false := by
          rcases patient with quiet | own
          · exact quiet
          · exact absurd (own v n held) mine
        simp only [CriticalSection.enter, if_neg mine, quiet] at stepped
        cases stepped
        exact Counts.update counts (fun _ _ _ => rfl) live
  | destroy m =>
    have live := fun u => counts u m
    simp only [Guards.step, Locker.destroy, Mutex.win32, win32Lock] at stepped
    split at stepped
    · rename_i guards
      cases held : g.locks m with
      | none =>
        rw [held] at stepped
        cases stepped
      | some h =>
        obtain ⟨v, n⟩ := h
        rw [held] at stepped live
        have mine : t = v := by
          rw [live t] at guards
          by_contra other
          simp [heldBy, other] at guards
        subst mine
        have less : ∀ u k, k ≠ m → (Effect.gives t m).apply g.live u k = g.live u k := by
          intro u k other
          simp [Effect.apply, other]
        cases n with
        | zero =>
          simp only [CriticalSection.leave, if_true] at stepped
          cases stepped
          refine Counts.update counts less fun u => ?_
          by_cases own : u = t <;> simp [Effect.apply, own, live, heldBy]
        | succ n =>
          simp only [CriticalSection.leave, if_true] at stepped
          cases stepped
          refine Counts.update counts less fun u => ?_
          by_cases own : u = t <;> simp [Effect.apply, own, live, heldBy]
    · cases stepped

/-- A guard whose wait timed out is there without the critical section. -/
theorem not_protects_of_impatient {i : τ × Action μ} (impatient : ¬Patient i g) :
    ∃ g' e, step Mutex.win32 i g = some (g', e) ∧ ¬Protects id g' := by
  obtain ⟨t, action⟩ := i
  cases action with
  | destroy m => exact absurd trivial impatient
  | initWith raises m =>
    simp only [Patient, not_or, not_forall, Bool.not_eq_false] at impatient
    obtain ⟨rfl, u, n, held, other⟩ := impatient
    refine ⟨⟨Function.update g.locks m (some (u, n)), (Effect.takes t m).apply g.live⟩,
      some .resourceDeadlockWouldOccur, ?_, ?_⟩
    · simp [Guards.step, Locker.initWith, Locker.init, Mutex.win32, win32Lock, CriticalSection.enter, held, other]
    · intro protects
      have there : 0 < (Effect.takes t m).apply g.live t m := by simp [Effect.apply]
      obtain ⟨k, mine⟩ := (protects t m).mp there
      simp only [Function.update_self] at mine
      cases mine
      exact other rfl

end Win32

end Guards

end Rbc
