import Rbc.Basis.Total
import Rbc.Sync.Semaphore

namespace Rbc.Semaphore

open Total

/-- A call on a semaphore. A signal may interrupt the wait of `acquire` under POSIX. -/
inductive Call
  | acquire (interrupted : Bool)
  | tryAcquire
  | release
  deriving DecidableEq, Repr

/-- `sem_wait`, if it returns. -/
def Posix.semWait (interrupted : Bool) (value : Nat) : Option Posix :=
  if 0 < value then some ⟨0, .ok, value - 1⟩
  else if interrupted then some ⟨-1, .interrupted, value⟩
  else none

/-- `WaitForSingleObject` with a timeout of `INFINITE`, if it returns. -/
def Kernel.wait : Option Kernel → Option (WaitResult × LastError × Option Kernel)
  | none => some (.failed, .invalidHandle, none)
  | some k => if 0 < k.count then some (.object0, .success, some { k with count := k.count - 1 }) else none

/-- The functions with `acquire`, which has no result as long as it waits. -/
structure Blocking (σ : Type) extends Functions σ where
  acquire : Bool → σ → Option (Error × σ)

namespace Blocking

def pthreads (host : Host) : Blocking Sem where
  toFunctions := Semaphore.pthreads host
  acquire interrupted s := (Posix.semWait interrupted s.value).map fun called => called.check host s.calls

def win32 : Blocking (Option Kernel) where
  toFunctions := Semaphore.win32
  acquire _ handle := (Kernel.wait handle).map fun
    | (.failed, lastError, handle) => (.fromGetLastError lastError, handle)
    | (.object0, _, handle) => (.ok, handle)
    | (_, _, handle) => (.unknown, handle)

variable {σ : Type}

def call (f : Blocking σ) : Call → σ → Option (Error × σ)
  | .acquire interrupted, s => f.acquire interrupted s
  | .tryAcquire, s => some (f.tryAcquire s)
  | .release, s => some (f.release s)

end Blocking

/-- A semaphore and the permits that threads believe to have, by the results of their calls. -/
structure Pool (τ σ : Type) where
  semaphore : σ
  held : τ → Nat

variable {τ σ : Type} [DecidableEq τ]

namespace Pool

/-- What a thread makes of the result of its call. -/
def believe (held : τ → Nat) (t : τ) (e : Error) : Call → τ → Nat
  | .release => if e = .ok then Function.update held t (held t - 1) else held
  | _ => if e = .ok then Function.update held t (held t + 1) else held

def step (f : Blocking σ) (i : τ × Call) (p : Pool τ σ) : Option (Pool τ σ × Option Error) :=
  match f.call i.2 p.semaphore with
  | none => some (p, none)
  | some (e, s) => some (⟨s, believe p.held i.1 e i.2⟩, some e)

end Pool

/-- A semaphore that counts: `shows` says how many permits are left in it. -/
structure Counts (f : Blocking σ) (shows : σ → Nat → Prop) (limit : Nat) : Prop where
  acquire : ∀ i s n, shows s (n + 1) → ∃ s', f.acquire i s = some (.ok, s') ∧ shows s' n
  waits : ∀ i s, shows s 0 → ∀ e s', f.acquire i s = some (e, s') → e ≠ .ok ∧ shows s' 0
  tryAcquire : ∀ s n, shows s (n + 1) → ∃ s', f.tryAcquire s = (.ok, s') ∧ shows s' n
  empty : ∀ s, shows s 0 → ∃ e s', e ≠ .ok ∧ f.tryAcquire s = (e, s') ∧ shows s' 0
  release : ∀ s n, shows s n → n < limit → ∃ s', f.release s = (.ok, s') ∧ shows s' (n + 1)
  full : ∀ s, shows s limit → ∃ e s', e ≠ .ok ∧ f.release s = (e, s') ∧ shows s' limit
  le : ∀ s n, shows s n → n ≤ limit

theorem counts_pthreads {host : Host} (other : host.windows = false) :
    Counts (Blocking.pthreads host) (fun s n => s.value = n ∧ n ≤ Posix.semValueMax) Posix.semValueMax where
  acquire i s n left := by
    obtain ⟨same, le⟩ := left
    refine ⟨⟨n, s.calls + 1⟩, ?_, rfl, Nat.le_of_succ_le le⟩
    simp [Blocking.pthreads, Posix.semWait, Posix.check, checkLastError, same, other]
  waits i s left e s' returned := by
    obtain ⟨same, le⟩ := left
    cases i with
    | false => simp [Blocking.pthreads, Posix.semWait, same] at returned
    | true =>
      simp only [Blocking.pthreads, Posix.semWait, same, Nat.lt_irrefl, if_false, if_true, Option.map_some, Posix.check,
        checkLastError, other, Bool.false_eq_true, Option.some.injEq, Prod.mk.injEq] at returned
      obtain ⟨rfl, rfl⟩ := returned
      exact ⟨by decide, rfl, le⟩
  tryAcquire s n left := by
    obtain ⟨same, le⟩ := left
    refine ⟨⟨n, s.calls + 1⟩, ?_, rfl, Nat.le_of_succ_le le⟩
    simp [Blocking.pthreads, Semaphore.pthreads, Posix.semTryWait, Posix.check, checkLastError, same, other]
  empty s left := by
    obtain ⟨same, le⟩ := left
    refine ⟨.resourceUnavailableTryAgain, ⟨0, s.calls + 1⟩, by decide, ?_, rfl, le⟩
    simp [Blocking.pthreads, Semaphore.pthreads, Posix.semTryWait, Posix.check, checkLastError, same, other]
  release s n left room := by
    obtain ⟨same, -⟩ := left
    refine ⟨⟨n + 1, s.calls + 1⟩, ?_, rfl, room⟩
    simp [Blocking.pthreads, Semaphore.pthreads, Posix.semPost, Posix.check, checkLastError, same, room, other]
  full s left := by
    obtain ⟨same, le⟩ := left
    refine ⟨.valueTooLarge, ⟨Posix.semValueMax, s.calls + 1⟩, by decide, ?_, rfl, le⟩
    simp [Blocking.pthreads, Semaphore.pthreads, Posix.semPost, Posix.check, checkLastError, same, other]
  le s n left := left.2

theorem counts_win32 (count : Nat) :
    Counts Blocking.win32 (fun handle n => handle = some ⟨n, count⟩ ∧ n ≤ count) count where
  acquire i s n left := by
    obtain ⟨rfl, le⟩ := left
    refine ⟨some ⟨n, count⟩, ?_, rfl, Nat.le_of_succ_le le⟩
    simp [Blocking.win32, Kernel.wait]
  waits i s left e s' returned := by
    obtain ⟨rfl, -⟩ := left
    cases returned
  tryAcquire s n left := by
    obtain ⟨rfl, le⟩ := left
    refine ⟨some ⟨n, count⟩, ?_, rfl, Nat.le_of_succ_le le⟩
    simp [Blocking.win32, Semaphore.win32, Kernel.poll]
  empty s left := by
    obtain ⟨rfl, le⟩ := left
    exact ⟨.resourceUnavailableTryAgain, _, by decide, rfl, rfl, le⟩
  release s n left room := by
    obtain ⟨rfl, -⟩ := left
    refine ⟨some ⟨(n + 1 : Nat), count⟩, ?_, rfl, room⟩
    simp [Blocking.win32, Semaphore.win32, Kernel.release, room]
  full s left := by
    obtain ⟨rfl, le⟩ := left
    refine ⟨.valueTooLarge, some ⟨count, count⟩, by decide, ?_, rfl, le⟩
    simp [Blocking.win32, Semaphore.win32, Kernel.release, Error.fromGetLastError]
  le s n left := left.2

/-- A back end, and the system under pthreads. -/
inductive Build
  | pthreads (host : Host)
  | win32

/-- The results of pthreads are taken for those of Win32. -/
def Build.inverted : Build → Bool
  | .pthreads host => host.windows
  | .win32 => false

def Object : Build → Type
  | .pthreads _ => Sem
  | .win32 => Option Kernel

def functions : (b : Build) → Blocking (Object b)
  | .pthreads host => Blocking.pthreads host
  | .win32 => Blocking.win32

/-- How many permits are left. -/
def permits : (b : Build) → Object b → Nat
  | .pthreads _, (s : Sem) => s.value
  | .win32, (handle : Option Kernel) => (handle.map fun k => k.count.toNat).getD 0

/-- The permits that threads have and those that are left are all there are. -/
def Balanced (b : Build) (count : Nat) (p : Pool τ (Object b)) : Prop :=
  ∃ m, Sums p.held m ∧ m + permits b p.semaphore = count

/-- A release that succeeds gives back a permit that its thread has. -/
def GivesOwn (b : Build) (i : τ × Call) (p : Pool τ (Object b)) : Prop :=
  i.2 = .release → ((functions b).release p.semaphore).1 = .ok → 0 < p.held i.1

instance (b : Build) (i : τ × Call) (p : Pool τ (Object b)) : Decidable (GivesOwn b i p) :=
  inferInstanceAs (Decidable (_ → _ → _))

variable {f : Blocking σ} {shows : σ → Nat → Prop} {limit count : Nat}

/-- What a call does to the permits that are left and to those that a thread believes to have. -/
inductive Stepped (f : Blocking σ) (shows : σ → Nat → Prop) (limit : Nat) (p : Pool τ σ) (n : Nat) (t : τ) (c : Call) :
    Pool τ σ → Prop
  | same {s : σ} (left : shows s n) : Stepped f shows limit p n t c ⟨s, p.held⟩
  | takes {m : Nat} {s : σ} (some : n = m + 1) (left : shows s m) :
    Stepped f shows limit p n t c ⟨s, Function.update p.held t (p.held t + 1)⟩
  | gives {s : σ} (release : c = .release) (room : n < limit) (gave : (f.release p.semaphore).1 = .ok) (left : shows s (n + 1)) :
    Stepped f shows limit p n t c ⟨s, Function.update p.held t (p.held t - 1)⟩

theorem Pool.step_of_call {t : τ} {c : Call} {p : Pool τ σ} {e : Error} {s : σ} (called : f.call c p.semaphore = some (e, s)) :
    p.step f (t, c) = some (⟨s, believe p.held t e c⟩, some e) := by
  rw [step, called]

theorem stepped_of_step (counts : Counts f shows limit) {t : τ} {c : Call} {p p' : Pool τ σ} {e : Option Error} {n : Nat}
    (left : shows p.semaphore n) (step : p.step f (t, c) = some (p', e)) : Stepped f shows limit p n t c p' := by
  cases called : f.call c p.semaphore with
  | none =>
    rw [Pool.step, called] at step
    cases step
    exact .same left
  | some result =>
    obtain ⟨e, s⟩ := result
    rw [Pool.step_of_call called] at step
    cases step
    have idle (failed : e ≠ .ok) (left : shows s n) : Stepped f shows limit p n t c ⟨s, Pool.believe p.held t e c⟩ := by
      have unchanged : Pool.believe p.held t e c = p.held := by cases c <;> exact if_neg failed
      rw [unchanged]
      exact .same left
    cases c with
    | acquire i =>
      cases n with
      | zero =>
        obtain ⟨failed, left'⟩ := counts.waits i _ left e s called
        exact idle failed left'
      | succ m =>
        obtain ⟨s', returns, left'⟩ := counts.acquire i _ m left
        cases called.symm.trans returns
        exact .takes rfl left'
    | tryAcquire =>
      cases n with
      | zero =>
        obtain ⟨e', s', failed, returns, left'⟩ := counts.empty _ left
        cases (Option.some.inj called).symm.trans returns
        exact idle failed left'
      | succ m =>
        obtain ⟨s', returns, left'⟩ := counts.tryAcquire _ m left
        cases (Option.some.inj called).symm.trans returns
        exact .takes rfl left'
    | release =>
      have result : f.release p.semaphore = (e, s) := Option.some.inj called
      rcases Nat.lt_or_eq_of_le (counts.le _ n left) with room | rfl
      · obtain ⟨s', returns, left'⟩ := counts.release _ n left room
        cases result.symm.trans returns
        exact .gives rfl room (by rw [result]) left'
      · obtain ⟨e', s', failed, returns, left'⟩ := counts.full _ left
        cases result.symm.trans returns
        exact idle failed left'

/-- The permits in the semaphore and those of the threads, as one number. -/
def Even (shows : σ → Nat → Prop) (count : Nat) (p : Pool τ σ) : Prop :=
  ∃ n m, shows p.semaphore n ∧ Sums p.held m ∧ m + n = count

theorem Even.step (counts : Counts f shows limit) {i : τ × Call} {p p' : Pool τ σ} {e : Option Error}
    (even : Even shows count p) (owns : i.2 = .release → (f.release p.semaphore).1 = .ok → 0 < p.held i.1)
    (step : p.step f i = some (p', e)) : Even shows count p' := by
  obtain ⟨n, m, left, sums, balance⟩ := even
  cases stepped_of_step counts left step with
  | same left' => exact ⟨n, m, left', sums, balance⟩
  | @takes k s some left' => exact ⟨k, m + 1, left', sums.update i.1 (by omega), by omega⟩
  | gives release _ gave left' =>
    have own := owns release gave
    have share : p.held i.1 ≤ m := sums.le i.1
    exact ⟨n + 1, m - 1, left', sums.update i.1 (by omega), by omega⟩

/-- A permit that comes from nowhere is one too many. -/
theorem Even.foreign (counts : Counts f shows limit) {t : τ} {p : Pool τ σ} (even : Even shows count p)
    (gave : (f.release p.semaphore).1 = .ok) (foreign : p.held t = 0) :
    ∃ s n m, p.step f (t, .release) = some (⟨s, p.held⟩, some .ok) ∧ shows s (n + 1) ∧ Sums p.held m ∧ m + n = count := by
  obtain ⟨n, m, left, sums, balance⟩ := even
  rcases Nat.lt_or_eq_of_le (counts.le _ n left) with room | rfl
  · obtain ⟨s, returns, left'⟩ := counts.release _ n left room
    have called : f.call .release p.semaphore = some (.ok, s) := congrArg some returns
    have unchanged : Pool.believe p.held t .ok .release = p.held := by
      simp only [Pool.believe, if_true, foreign, Nat.zero_sub]
      rw [← foreign, Function.update_eq_self]
    exact ⟨s, n, m, by rw [Pool.step_of_call called, unchanged], left', sums, balance⟩
  · obtain ⟨e, s, failed, returns, -⟩ := counts.full _ left
    rw [returns] at gave
    exact absurd gave failed

/-- The most permits a semaphore can have. -/
def capacity (count : Nat) : Build → Nat
  | .pthreads _ => Posix.semValueMax
  | .win32 => count

def Shows (count : Nat) : (b : Build) → Object b → Nat → Prop
  | .pthreads _ => fun (s : Sem) n => s.value = n ∧ n ≤ Posix.semValueMax
  | .win32 => fun (handle : Option Kernel) n => handle = some ⟨n, count⟩ ∧ n ≤ count

theorem counts_functions (count : Nat) {b : Build} (direct : b.inverted = false) :
    Counts (functions b) (Shows count b) (capacity count b) := by
  cases b with
  | pthreads host => exact counts_pthreads direct
  | win32 => exact counts_win32 count

theorem permits_of_shows {b : Build} {n : Nat} {s : Object b} (left : Shows count b s n) : permits b s = n := by
  cases b with
  | pthreads => exact left.1
  | win32 =>
    obtain ⟨rfl, -⟩ := left
    rfl

theorem toNat_lt_of_toInt_pos {count : UInt32} (positive : 0 < count.toInt32.toInt) : count.toNat < 2 ^ 31 := by
  have value : count.toInt32.toInt = if 2 * count.toNat < 2 ^ 32 then (count.toNat : Int) else count.toNat - 2 ^ 32 :=
    BitVec.toInt_eq_toNat_cond _
  have := count.toNat_lt
  split at value <;> omega

theorem shows_of_created_pthreads {host : Host} (other : host.windows = false) {count : UInt32}
    (created : ((functions (.pthreads host)).init count).1 = .ok) :
    Shows count.toNat (.pthreads host) ((functions (.pthreads host)).init count).2 count.toNat := by
  have called : (functions (.pthreads host)).init count = (Posix.semInit count.toNat).check host 0 := rfl
  rw [called] at created ⊢
  by_cases small : count.toNat ≤ Posix.semValueMax
  · rw [Posix.semInit, if_pos small]
    exact ⟨rfl, small⟩
  · rw [Posix.semInit, if_neg small] at created
    simp [Posix.check, checkLastError, other] at created

theorem shows_of_created_win32 {count : UInt32} (created : ((functions .win32).init count).1 = .ok) :
    Shows count.toNat .win32 ((functions .win32).init count).2 count.toNat := by
  have positive : 0 < count.toInt32.toInt := by
    refine Decidable.byContradiction fun large => ?_
    simp [functions, Blocking.win32, Semaphore.win32, Kernel.create, large, Error.fromGetLastError] at created
  have value := toInt_toInt32 (toNat_lt_of_toInt_pos positive)
  rw [value] at positive
  have init : (functions .win32).init count = (.ok, some ⟨count.toNat, count.toNat⟩) := by
    simp [functions, Blocking.win32, Semaphore.win32, Kernel.create, value, Int.natCast_pos.mp positive]
    rfl
  rw [init]
  exact ⟨rfl, Nat.le_refl _⟩

theorem shows_of_created {b : Build} (direct : b.inverted = false) {count : UInt32}
    (created : ((functions b).init count).1 = .ok) :
    Shows count.toNat b ((functions b).init count).2 count.toNat := by
  cases b with
  | pthreads host => exact shows_of_created_pthreads direct created
  | win32 => exact shows_of_created_win32 created

omit [DecidableEq τ] in
theorem Even.balanced {b : Build} {p : Pool τ (Object b)} (even : Even (Shows count b) count p) : Balanced b count p := by
  obtain ⟨n, m, left, sums, balance⟩ := even
  exact ⟨m, sums, by rw [permits_of_shows left, balance]⟩

/-- `acquire` waits when no permit is left. -/
theorem acquire_eq_none_iff {b : Build} {n : Nat} {s : Object b} (left : Shows count b s n) :
    (functions b).acquire false s = none ↔ n = 0 := by
  cases b with
  | pthreads host =>
    show (Posix.semWait false (Sem.value s)).map _ = none ↔ n = 0
    rw [show Sem.value s = n from left.1]
    cases n with
    | zero => exact iff_of_true rfl rfl
    | succ n => exact iff_of_false nofun nofun
  | win32 =>
    obtain ⟨rfl, -⟩ := left
    cases n with
    | zero => exact iff_of_true rfl rfl
    | succ n => simp [functions, Blocking.win32, Kernel.wait]

omit [DecidableEq τ] in
theorem even_init {b : Build} (direct : b.inverted = false) {count : UInt32} (created : ((functions b).init count).1 = .ok) :
    Even (Shows count.toNat b) count.toNat (⟨((functions b).init count).2, fun _ => 0⟩ : Pool τ (Object b)) :=
  ⟨count.toNat, 0, shows_of_created direct created, sums_zero, Nat.zero_add _⟩

/-- In every run the permits that threads have and those that are left are together as
many as the semaphore was made with, exactly if each release that succeeds gives back
a permit that its thread has. -/
theorem permits_balanced_iff (b : Build) (direct : b.inverted = false) {count : UInt32}
    (created : ((functions b).init count).1 = .ok) (calls : List (τ × Call)) :
    Machine.Always (Balanced b count.toNat) (Pool.step (functions b)) calls ⟨((functions b).init count).2, fun _ => 0⟩ ↔
      Machine.Admissible (GivesOwn b) (Pool.step (functions b)) calls ⟨((functions b).init count).2, fun _ => 0⟩ := by
  have counts := counts_functions count.toNat direct
  refine Machine.always_iff_admissible (fun p even => even.balanced) ?_ ?_ calls (even_init direct created)
  · exact fun i p p' e even owns step => even.step counts owns step
  · intro i p even foreign
    obtain ⟨t, c⟩ := i
    have isRelease : c = .release := Decidable.byContradiction fun other => foreign fun release => absurd release other
    subst isRelease
    have gave : ((functions b).release p.semaphore).1 = .ok :=
      Decidable.byContradiction fun failed => foreign fun _ gave => absurd gave failed
    have none : p.held t = 0 := Nat.eq_zero_of_not_pos fun own => foreign fun _ _ => own
    obtain ⟨s, n, m, step, left, sums, balance⟩ := even.foreign counts gave none
    refine ⟨_, _, step, ?_⟩
    rintro ⟨m', sums', balance'⟩
    have same := sums.unique sums'
    rw [permits_of_shows left] at balance'
    omega

/-- Two threads take two permits, a third one has to wait. -/
def threeThreads : List (Fin 3 × Call) := [(0, .acquire false), (1, .tryAcquire), (2, .acquire false), (0, .release)]

theorem permits_balanced_iff_for_three :
    Machine.Always (Balanced .win32 (2 : UInt32).toNat) (Pool.step (functions .win32)) threeThreads
        ⟨((functions .win32).init 2).2, fun _ => 0⟩ ↔
      Machine.Admissible (GivesOwn .win32) (Pool.step (functions .win32)) threeThreads
        ⟨((functions .win32).init 2).2, fun _ => 0⟩ :=
  @permits_balanced_iff (Fin 3) _ .win32 rfl 2 (by decide) threeThreads

/-- As long as threads release only what they have, they never have more permits than the first
count, and a call has to wait only when they have all of them. -/
theorem held_le_count (b : Build) (direct : b.inverted = false) {count : UInt32}
    (created : ((functions b).init count).1 = .ok) {calls : List (τ × Call)}
    (own : Machine.Admissible (GivesOwn b) (Pool.step (functions b)) calls ⟨((functions b).init count).2, fun _ => 0⟩) :
    Machine.Always (fun p => ∃ m, Sums p.held m ∧ m ≤ count.toNat ∧
        ((functions b).acquire false p.semaphore = none ↔ m = count.toNat))
      (Pool.step (functions b)) calls ⟨((functions b).init count).2, fun _ => 0⟩ := by
  have counts := counts_functions count.toNat direct
  refine own.always (Q := Even (Shows count.toNat b) count.toNat) ?_ ?_ (even_init direct created)
  · rintro p ⟨n, m, left, sums, balance⟩
    refine ⟨m, sums, by omega, ?_⟩
    rw [acquire_eq_none_iff left]
    omega
  · exact fun i p p' e even owns step => even.step counts owns step

theorem held_le_count_for_three :
    Machine.Always (fun p => ∃ m, Sums p.held m ∧ m ≤ (2 : UInt32).toNat ∧
        ((functions (.pthreads ⟨false, fun _ => .success⟩)).acquire false p.semaphore = none ↔ m = (2 : UInt32).toNat))
      (Pool.step (functions (.pthreads ⟨false, fun _ => .success⟩))) threeThreads
      ⟨((functions (.pthreads ⟨false, fun _ => .success⟩)).init 2).2, fun _ => 0⟩ :=
  @held_le_count (Fin 3) _ (.pthreads ⟨false, fun _ => .success⟩) rfl 2 (by decide) threeThreads (by decide)

end Rbc.Semaphore
