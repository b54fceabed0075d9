import Rbc.Basis.Exclusion
import Rbc.Core.Win32

namespace Rbc.Lock

open Exclusion

/-- What the code takes from its target: whether it makes its mutexes robust, whether
the system is Darwin, and how often a recursive mutex can be locked. -/
structure System where
  robust : Bool
  darwin : Bool
  recursions : Nat
  robust_of_darwin : darwin = true → robust = false

/-- A call on a lock. In `lock` the wait inside `EnterCriticalSection` may time out
with an exception; `lockUntil` is also `lock_for`, and late when its deadline has passed. -/
inductive Request
  | lock (raises : Bool)
  | tryLock
  | lockUntil (late : Bool)
  | unlock
  deriving DecidableEq, Repr

/-- The functions of one lock type. A call that is undefined has no result, and
one that has not returned yet leaves no error. `ends` is the end of a thread. -/
structure Functions (τ σ : Type) where
  lock : Bool → τ → σ → Option (σ × Option Error)
  tryLock : τ → σ → Option (σ × Option Error)
  lockUntil : Bool → τ → σ → Option (σ × Option Error)
  unlock : τ → σ → Option (σ × Option Error)
  ends : τ → σ → σ

inductive Event (τ : Type)
  | call (t : τ) (r : Request)
  | ends (t : τ)

variable {τ σ : Type}

namespace Functions

def call (f : Functions τ σ) (t : τ) : Request → σ → Option (σ × Option Error)
  | .lock raises => f.lock raises t
  | .tryLock => f.tryLock t
  | .lockUntil late => f.lockUntil late t
  | .unlock => f.unlock t

def step (f : Functions τ σ) : Event τ → σ → Option (σ × Option Error)
  | .call t r, s => f.call t r s
  | .ends t, s => some (f.ends t s, none)

end Functions

/-- What an answer means to the thread that gets it: with OK, and with the death of
the owner before it, it has the lock. -/
def Event.effect : Event τ → Option Error → Effect τ Unit
  | .call t .unlock, e => if e = some .ok then .gives t () else .nothing
  | .call t _, e => if e = some .ok ∨ e = some .ownerDead then .takes t () else .nothing
  | .ends t, _ => .drops t

/-- What the threads have according to the answers they were given. -/
def believed [DecidableEq τ] (events : List (Event τ)) (answers : List (Option Error)) : Holdings τ Unit :=
  ledger ((events.zip answers).map fun io => io.1.effect io.2)

/-- The holder of a lock and how often it has locked it again. -/
abbrev Holder (τ : Type) := Option (τ × Nat)

/-- A call that wants the lock. -/
inductive Locking (t : τ) (h : Holder τ) : Holder τ → Option Error → Prop
  | first {e : Error} (free : h = none) : Locking t h (some (t, 0)) (some e)
  | again {n : Nat} (own : h = some (t, n)) : Locking t h (some (t, n + 1)) (some .ok)
  | refused {e : Option Error} (error : e ≠ some .ok ∧ e ≠ some .ownerDead) : Locking t h h e

/-- A call that gives the lock back. -/
inductive Unlocking (t : τ) (h : Holder τ) : Holder τ → Option Error → Prop
  | last (own : h = some (t, 0)) : Unlocking t h none (some .ok)
  | inner {n : Nat} (own : h = some (t, n + 1)) : Unlocking t h (some (t, n)) (some .ok)
  | refused {e : Option Error} (error : e ≠ some .ok) : Unlocking t h h e

/-- A call that gives up when it is late. -/
theorem Locking.orTimedOut {t : τ} {h h' : Holder τ} {e : Option Error} (locking : Locking t h h' e) (late : Bool) :
    Locking t h h' (e.or (if late then some .timedOut else none)) := by
  cases locking with
  | first free => exact .first free
  | again own => exact .again own
  | refused error =>
    cases e with
    | none => cases late <;> exact .refused (by simp)
    | some e => exact .refused error

/-- A lock with one holder: what the functions do to it. -/
structure HasHolder (f : Functions τ σ) (holder : σ → Holder τ) : Prop where
  lock : ∀ raises t s s' e, f.lock raises t s = some (s', e) → Locking t (holder s) (holder s') e
  tryLock : ∀ t s s' e, f.tryLock t s = some (s', e) → Locking t (holder s) (holder s') e
  lockUntil : ∀ late t s s' e, f.lockUntil late t s = some (s', e) → Locking t (holder s) (holder s') e
  unlock : ∀ t s s' e, f.unlock t s = some (s', e) → Unlocking t (holder s) (holder s') e
  ends : ∀ t s, holder (f.ends t s) = holder s ∨ holder (f.ends t s) = none ∧ ∃ n, holder s = some (t, n)

section Holder

variable [DecidableEq τ]

def heldBy (h : Holder τ) : Holdings τ Unit := fun t _ =>
  match h with
  | none => 0
  | some (u, n) => if t = u then n + 1 else 0

theorem exclusive_heldBy (h : Holder τ) : Exclusive (fun _ _ => True) (heldBy h) := by
  intro t u _ _ other first second
  cases h with
  | none => exact absurd first (Nat.lt_irrefl 0)
  | some h =>
    simp only [heldBy] at first second
    split at first <;> split at second <;> simp_all

theorem Locking.honest {t : τ} {h h' : Holder τ} {e : Option Error} (locking : Locking t h h' e) (u : τ) (m : Unit) :
    (if e = some .ok ∨ e = some .ownerDead then Effect.takes t () else .nothing).apply (heldBy h) u m ≤
      heldBy h' u m := by
  cases locking with
  | @first e free =>
    subst free
    by_cases mine : u = t <;> split <;> simp [Effect.apply, heldBy, mine]
  | again own =>
    subst own
    by_cases mine : u = t <;> simp [Effect.apply, heldBy, mine]
  | refused error => simp [Effect.apply, error]

theorem Unlocking.honest {t : τ} {h h' : Holder τ} {e : Option Error} (unlocking : Unlocking t h h' e) (u : τ) (m : Unit) :
    (if e = some .ok then Effect.gives t () else .nothing).apply (heldBy h) u m ≤ heldBy h' u m := by
  cases unlocking with
  | last own =>
    subst own
    by_cases mine : u = t <;> simp [Effect.apply, heldBy, mine]
  | inner own =>
    subst own
    by_cases mine : u = t <;> simp [Effect.apply, heldBy, mine]
  | refused error => simp [Effect.apply, error]

namespace HasHolder

variable {f : Functions τ σ} {holder : σ → Holder τ}

theorem honest (has : HasHolder f holder) (i : Event τ) (s s' : σ) (e : Option Error) (stepped : f.step i s = some (s', e))
    (u : τ) (m : Unit) : (i.effect e).apply (heldBy (holder s)) u m ≤ heldBy (holder s') u m := by
  cases i with
  | call t r =>
    cases r with
    | lock raises => exact (has.lock raises t s s' e stepped).honest u m
    | tryLock => exact (has.tryLock t s s' e stepped).honest u m
    | lockUntil late => exact (has.lockUntil late t s s' e stepped).honest u m
    | unlock => exact (has.unlock t s s' e stepped).honest u m
  | ends t =>
    cases stepped
    rcases has.ends t s with same | ⟨free, n, own⟩
    · rw [same]
      simp only [Event.effect, Effect.apply]
      split <;> omega
    · rw [free, own]
      by_cases mine : u = t <;> simp [Event.effect, Effect.apply, heldBy, mine]

theorem believed_le (has : HasHolder f holder) {events : List (Event τ)} {s last : σ} {answers : List (Option Error)}
    (ran : Machine.run f.step events s = some (last, answers)) (t : τ) :
    believed events answers t () ≤ heldBy (holder last) t () :=
  ledger_le_held (fun s => heldBy (holder s)) has.honest ran t ()

/-- Two threads that both believe to have the lock are one. -/
theorem eq_of_believed (has : HasHolder f holder) {events : List (Event τ)} {s last : σ} {answers : List (Option Error)}
    (ran : Machine.run f.step events s = some (last, answers)) {t u : τ}
    (first : 0 < believed events answers t ()) (second : 0 < believed events answers u ()) : t = u := by
  refine Decidable.byContradiction fun other => ?_
  have exclusive := (exclusive_heldBy (holder last)).of_le fun t _ => has.believed_le ran t
  exact exclusive t u () () other first second trivial

end HasHolder

/-- A lock type on one back end. -/
structure Implementation (τ : Type) where
  State : Type
  fresh : State
  functions : Functions τ State
  holder : State → Holder τ
  hasHolder : HasHolder functions holder

end Holder

end Rbc.Lock
