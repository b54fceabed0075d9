import Mathlib.Algebra.Group.Nat.Defs
import Rbc.Basis.Counting
import Rbc.Core.Win32

namespace Rbc.Semaphore

open Counting (Request)

/-- The functions of a back end on a semaphore with the state `σ`, where `malloc` succeeds. -/
structure Functions (σ : Type) where
  init : UInt32 → Error × σ
  tryAcquire : σ → Error × σ
  release : σ → Error × σ

namespace Functions

variable {σ : Type}

def call (b : Functions σ) : Request → σ → σ × Error
  | .tryAcquire, s => (b.tryAcquire s).swap
  | .release, s => (b.release s).swap

/-- What `rbc_semaphore_init` and the calls after it return. -/
def session (b : Functions σ) (count : UInt32) (calls : List Request) : List Error :=
  (b.init count).1 :: Machine.outputs b.call calls (b.init count).2

end Functions

/-- The result of a POSIX call, `errno` and the value of the semaphore. -/
structure Posix where
  ret : Int
  errno : Error
  value : Nat

namespace Posix

def semValueMax : Nat := 2 ^ 31 - 1

def semInit (value : Nat) : Posix :=
  if value ≤ semValueMax then ⟨0, .ok, value⟩ else ⟨-1, .invalidArgument, value⟩

def semTryWait (value : Nat) : Posix :=
  if 0 < value then ⟨0, .ok, value - 1⟩ else ⟨-1, .resourceUnavailableTryAgain, value⟩

def semPost (value : Nat) : Posix :=
  if value < semValueMax then ⟨0, .ok, value + 1⟩ else ⟨-1, .valueTooLarge, value⟩

end Posix

/-- The system that pthreads runs on. The functions of POSIX set `errno` only: on Windows the last
error after a call may be any. -/
structure Host where
  windows : Bool
  lastError : Nat → LastError

/-- A semaphore of POSIX, and how many calls there were before. -/
structure Sem where
  value : Nat
  calls : Nat
  deriving DecidableEq, Repr

/-- What a function makes of a call of POSIX. -/
def Posix.check (host : Host) (calls : Nat) (called : Posix) : Error × Sem :=
  (checkLastError host.windows called.ret called.errno (host.lastError calls), ⟨called.value, calls + 1⟩)

def pthreads (host : Host) : Functions Sem where
  init count := (Posix.semInit count.toNat).check host 0
  tryAcquire s := (Posix.semTryWait s.value).check host s.calls
  release s := (Posix.semPost s.value).check host s.calls

/-- A semaphore object of the Windows kernel, with its members of the type `LONG`. -/
structure Kernel where
  count : Int
  max : Int
  deriving DecidableEq, Repr

namespace Kernel

/-- `CreateSemaphoreA(NULL, initial, max, NULL)`. -/
def create (initial max : Int) : Option Kernel × LastError :=
  if 0 ≤ initial ∧ initial ≤ max ∧ 0 < max then (some ⟨initial, max⟩, .success)
  else (none, .invalidParameter)

/-- `WaitForSingleObject` with a timeout of 0. -/
def poll : Option Kernel → WaitResult × LastError × Option Kernel
  | none => (.failed, .invalidHandle, none)
  | some k =>
    if 0 < k.count then (.object0, .success, some { k with count := k.count - 1 })
    else (.timeout, .success, some k)

/-- `ReleaseSemaphore` with a release count of 1. -/
def release : Option Kernel → Bool × LastError × Option Kernel
  | none => (false, .invalidHandle, none)
  | some k =>
    if k.count < k.max then (true, .success, some { k with count := k.count + 1 })
    else (false, .tooManyPosts, some k)

end Kernel

def win32 : Functions (Option Kernel) where
  init count :=
    let (handle, lastError) := Kernel.create count.toInt32.toInt count.toInt32.toInt
    (if handle.isSome then .ok else .fromGetLastError lastError, handle)
  tryAcquire handle :=
    let (rc, lastError, handle) := Kernel.poll handle
    match rc with
    | .failed => (.fromGetLastError lastError, handle)
    | .object0 => (.ok, handle)
    | .timeout => (.resourceUnavailableTryAgain, handle)
    | _ => (.unknown, handle)
  release handle :=
    let (released, lastError, handle) := Kernel.release handle
    (if released then .ok else .fromGetLastError lastError, handle)

/-- The codes of the library for the answers of a counting semaphore. -/
def code : Counting.Answer → Error
  | .served => .ok
  | .empty => .resourceUnavailableTryAgain
  | .full => .valueTooLarge

theorem code_injective (a b : Counting.Answer) (same : code a = code b) : a = b := by
  cases a <;> cases b <;> simp_all [code]

theorem Posix.semInit_of_small {count : UInt32} (small : count.toNat < 2 ^ 31) :
    semInit count.toNat = ⟨0, .ok, count.toNat⟩ :=
  if_pos (Nat.le_sub_one_of_lt small)

theorem pthreads_session {host : Host} (other : host.windows = false) {count : UInt32} (small : count.toNat < 2 ^ 31)
    (calls : List Request) :
    (pthreads host).session count calls =
      .ok :: (Machine.outputs (Counting.serve Posix.semValueMax) calls count.toNat).map code := by
  have created : (pthreads host).init count = (.ok, ⟨count.toNat, 1⟩) := by
    simp [pthreads, Posix.semInit_of_small small, Posix.check, checkLastError, other]
  rw [Functions.session, created]
  refine congrArg (Error.ok :: ·) ?_
  refine Machine.outputs_eq_map (R := fun s n => s.value = n) ?_ calls rfl
  intro request s n same
  subst same
  obtain ⟨value, made⟩ := s
  cases request with
  | tryAcquire =>
    cases value <;>
      simp [pthreads, Functions.call, Posix.semTryWait, Posix.check, checkLastError, Counting.serve, code, other]
  | release =>
    by_cases room : value < Posix.semValueMax <;>
      simp [pthreads, Functions.call, Posix.semPost, Posix.check, checkLastError, Counting.serve, code, room, other]

/-- On Windows a semaphore that was made is reported with the last error of an earlier call. -/
theorem pthreads_init_on_windows {lastError : Nat → LastError} {count : UInt32} (small : count.toNat < 2 ^ 31) :
    ((pthreads ⟨true, lastError⟩).init count).1 = .fromGetLastError (lastError 0) := by
  show ((Posix.semInit count.toNat).check ⟨true, lastError⟩ 0).1 = _
  rw [Posix.semInit_of_small small]
  rfl

theorem toInt_toInt32 {count : UInt32} (small : count.toNat < 2 ^ 31) : count.toInt32.toInt = count.toNat :=
  BitVec.toInt_eq_toNat_of_lt (by simpa using show 2 * count.toNat < 2 ^ 32 by omega)

theorem win32_session {count : UInt32} (small : count.toNat < 2 ^ 31) (positive : 0 < count.toNat)
    (calls : List Request) :
    win32.session count calls =
      .ok :: (Machine.outputs (Counting.serve count.toNat) calls count.toNat).map code := by
  have created : win32.init count = (.ok, some ⟨count.toNat, count.toNat⟩) := by
    simp [win32, Kernel.create, toInt_toInt32 small, positive]
  rw [Functions.session, created]
  refine congrArg (Error.ok :: ·) ?_
  refine Machine.outputs_eq_map (R := fun handle n => handle = some ⟨(n : Nat), count.toNat⟩) ?_ calls rfl
  intro request handle n same
  subst same
  cases request with
  | tryAcquire =>
    cases n with
    | zero => exact ⟨rfl, rfl⟩
    | succ n => simp [win32, Functions.call, Kernel.poll, Counting.serve, code]
  | release =>
    by_cases room : n < count.toNat <;>
      simp [win32, Functions.call, Kernel.release, Counting.serve, code, room, Error.fromGetLastError]

theorem win32_session_iff {count : UInt32} {calls : List Request} (small : count.toNat < 2 ^ 31)
    (within : Counting.Within (2 ^ 31 - 1) calls count.toNat) :
    .ok :: (Machine.outputs (Counting.serve Posix.semValueMax) calls count.toNat).map code = win32.session count calls ↔
      0 < count.toNat ∧ Counting.Within count.toNat calls count.toNat := by
  by_cases positive : 0 < count.toNat
  · have limits := Counting.outputs_serve_eq_iff (Nat.le_refl _) within
    rw [win32_session small positive, List.cons.injEq, List.map_inj_right code_injective, ← limits]
    simp [positive, Posix.semValueMax, eq_comm]
  · have refused : (win32.init count).1 = .invalidArgument := by
      have zero : count = 0 := UInt32.toNat_inj.mp (by simpa using positive)
      rw [zero]
      rfl
    simp [Functions.session, refused, positive]

/-- The back ends answer alike, whatever last error the system leaves, exactly on the semaphores that
start with a positive count and are never released beyond it, where the system under pthreads is
not Windows: Win32 takes the first count for the maximum. -/
theorem session_eq_iff (windows : Bool) {count : UInt32} {calls : List Request} (small : count.toNat < 2 ^ 31)
    (within : Counting.Within (2 ^ 31 - 1) calls count.toNat) :
    (∀ lastError, (pthreads ⟨windows, lastError⟩).session count calls = win32.session count calls) ↔
      windows = false ∧ 0 < count.toNat ∧ Counting.Within count.toNat calls count.toNat := by
  cases windows with
  | true =>
    refine iff_of_false (fun same => ?_) fun other => Bool.noConfusion other.1
    have reported (e : LastError) : Error.fromGetLastError e = (win32.init count).1 :=
      (pthreads_init_on_windows small).symm.trans (List.cons.inj (same fun _ => e)).1
    exact absurd ((reported .success).trans (reported .accessDenied).symm) (by decide)
  | false =>
    rw [and_iff_right rfl, ← win32_session_iff small within]
    constructor
    · intro same
      have first := same fun _ => .success
      rwa [pthreads_session rfl small] at first
    · intro same lastError
      rw [pthreads_session rfl small, same]

/-- Two permits are taken and given back. -/
theorem session_eq_iff_for_two :
    (pthreads ⟨false, fun _ => .success⟩).session 2 [.tryAcquire, .tryAcquire, .tryAcquire, .release, .release] =
      win32.session 2 [.tryAcquire, .tryAcquire, .tryAcquire, .release, .release] :=
  (session_eq_iff false (by decide) (by decide)).mpr (by decide) _

/-- A semaphore that starts with 0 cannot be created, and one with a permit cannot get another. On
Windows a permit that is not there is given. -/
theorem sessions_differ :
    (pthreads ⟨false, fun _ => .success⟩).session 0 [] ≠ win32.session 0 [] ∧
      (pthreads ⟨false, fun _ => .success⟩).session 1 [.release] ≠ win32.session 1 [.release] ∧
      (pthreads ⟨true, fun _ => .success⟩).session 1 [.tryAcquire, .tryAcquire] ≠
        win32.session 1 [.tryAcquire, .tryAcquire] := by
  decide

end Rbc.Semaphore
