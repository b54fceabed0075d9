import Rbc.Basis.Heap
import Rbc.Core.Win32

namespace Rbc.Sync

/-- The members `impl` of an object: its own one, or those of the parts `mu` and `cv`. -/
inductive Field
  | impl | mu | cv
  deriving DecidableEq, Repr

inductive Kind
  | mutex | recursiveMutex | sharedMutex | condVar | conditionMutex | semaphore | barrier | spinlock | tls | thread
  deriving DecidableEq, Repr

/-- What the code takes from its target: whether it is Windows, which attributes it sets, and the
code that an `int` is as `rbc_error`, where `RBC_ERROR_OK` is 0. -/
structure Platform where
  windows : Bool
  robust : Bool
  linux : Bool
  ofInt : Int32 → Error
  ofInt_eq_ok : ∀ n, ofInt n = .ok ↔ n = 0

/-- The codes of a BOOL: `EPERM` is 1. -/
def errorOfBool (n : Int32) : Error :=
  if n = 0 then .ok else if n = 1 then .operationNotPermitted else .unlisted n.toInt

theorem errorOfBool_eq_ok (n : Int32) : errorOfBool n = .ok ↔ n = 0 := by
  unfold errorOfBool
  by_cases zero : n = 0
  · simp [zero]
  · by_cases one : n = 1 <;> simp [zero, one]

/-- A GNU system. -/
def Platform.gnu : Platform where
  windows := false
  robust := true
  linux := true
  ofInt := errorOfBool
  ofInt_eq_ok := errorOfBool_eq_ok

def Platform.mingw : Platform where
  windows := true
  robust := false
  linux := false
  ofInt := errorOfBool
  ofInt_eq_ok := errorOfBool_eq_ok

/-- The results of the native calls for one part of an object: errors where 0 is
success, and for Win32 whether a thing was created and the result of its release. The last
error on Windows after a call of pthreads is what was `left`. -/
structure Calls where
  malloc : Bool
  attrInit : Error
  setType : Error
  setRobust : Error
  setKind : Error
  init : Error
  created : Bool
  lastError : LastError
  isError : lastError ≠ .success
  left : LastError
  destroy : Error
  closed : Int32

def Calls.succeeding : Calls where
  malloc := true
  attrInit := .ok
  setType := .ok
  setRobust := .ok
  setKind := .ok
  init := .ok
  created := true
  lastError := .notEnoughMemory
  isError := by decide
  left := .success
  destroy := .ok
  closed := 1

/-- An object and the resources of the process. A block records whether a native
object lives in it; `natives` and `attrs` count the native objects and attributes. -/
structure World where
  impl : Field → Option Nat
  heap : Heap Bool
  natives : Nat
  attrs : Nat

/-- A function of the library: the error it returns and what it leaves, unless it
uses memory or a native object that is not there. -/
abbrev Call := World → Option (Error × World)

namespace World

/-- Nothing is allocated and the members `impl` are NULL. -/
def initial : World := ⟨fun _ => none, Heap.empty, 0, 0⟩

def reset (w : World) (f : Field) : World := { w with impl := Function.update w.impl f none }

/-- `self->impl = malloc(..)`. -/
def allocate (w : World) (f : Field) (succeeds : Bool) : World :=
  if succeeds then { w with impl := Function.update w.impl f (some w.heap.next), heap := w.heap.alloc false }
  else w.reset f

/-- A native object is created in the block. -/
def construct (w : World) (f : Field) (succeeds : Bool) : Option World := do
  let id ← w.impl f
  let _ ← w.heap.get? id
  if succeeds then
    let heap ← w.heap.put id true
    return { w with heap := heap, natives := w.natives + 1 }
  else return w

/-- The native object in the block is released. -/
def destruct (w : World) (f : Field) (succeeds : Bool) : Option World := do
  let id ← w.impl f
  let alive ← w.heap.get? id
  if ¬alive then none
  else if succeeds then
    let heap ← w.heap.put id false
    return { w with heap := heap, natives := w.natives - 1 }
  else return w

/-- `free(self->impl)`. -/
def free (w : World) (f : Field) : Option World := do
  let heap ← w.heap.release (w.impl f)
  return { w with heap := heap }

def attrDestroy (w : World) : World := { w with attrs := w.attrs - 1 }

end World

def ret (e : Error) : Call := fun w => some (e, w)

/-- `RBC_SYNC_INIT`. -/
def syncInit (f : Field) (os : Calls) (rest : Call) : Call := fun w =>
  let w := w.allocate f os.malloc
  if w.impl f = none then some (.notEnoughMemory, w) else rest w

/-- `RBC_SYNC_CHECK`. -/
def syncCheck (expr rest : Call) : Call := fun w => do
  let (err, w) ← expr w
  if err ≠ .ok then return (err, w) else rest w

/-- `RBC_SYNC_CHECK_INIT`. -/
def syncCheckInit (f : Field) (err : Error) : Call := fun w => do
  let w ← w.construct f (err = .ok)
  if err ≠ .ok then
    let w ← w.free f
    return (err, w.reset f)
  else return (.ok, w)

/-- `RBC_SYNC_DESTROY`. -/
def syncDestroy (f : Field) (dtor : Call) : Call := fun w =>
  match w.impl f with
  | none => some (.ok, w)
  | some _ => do
    let (err, w) ← dtor w
    let w ← w.free f
    return (err, w.reset f)

def threadInit (f : Field) (os : Calls) : Call := fun w =>
  let w := w.allocate f os.malloc
  some (if w.impl f ≠ none then .ok else .notEnoughMemory, w)

def threadDestroy (f : Field) : Call := syncDestroy f (ret .ok)

def conditionMutexInit (mutexInit condVarInit : Call) : Call :=
  syncCheck mutexInit (syncCheck condVarInit (ret .ok))

def conditionMutexDestroy (condVarDestroy mutexDestroy : Call) : Call := syncCheck condVarDestroy mutexDestroy

namespace Pthreads

def attrInit (err : Error) : Call := fun w =>
  if err = .ok then some (.ok, { w with attrs := w.attrs + 1 }) else some (err, w)

/-- `RBC_SYNC_CHECK_WITH_CLEANUP`. -/
def checkWithCleanup (err : Error) (rest : Call) : Call := fun w =>
  if err ≠ .ok then some (err, w.attrDestroy) else rest w

/-- `malloc` and the native `init`, once the attributes are set. -/
def createWithAttr (f : Field) (os : Calls) : Call := fun w =>
  let w := w.allocate f os.malloc
  checkWithCleanup (if w.impl f ≠ none then .ok else .notEnoughMemory) (fun w => do
    let w ← w.construct f (os.init = .ok)
    return (os.init, w.attrDestroy)) w

/-- The common body of `init` of the types with an attribute object and `settings` of it. -/
def initWithAttr (settings : Calls → List Error) (f : Field) (os : Calls) : Call :=
  syncCheck (attrInit os.attrInit) ((settings os).foldr checkWithCleanup (createWithAttr f os))

def mutexSettings (p : Platform) (os : Calls) : List Error :=
  os.setType :: if p.robust then [os.setRobust] else []

def sharedMutexSettings (p : Platform) (os : Calls) : List Error := if p.linux then [os.setKind] else []

def mutexInit (p : Platform) : Field → Calls → Call := initWithAttr (mutexSettings p)

def recursiveMutexInit (p : Platform) : Field → Calls → Call := initWithAttr (mutexSettings p)

def sharedMutexInit (p : Platform) : Field → Calls → Call := initWithAttr (sharedMutexSettings p)

/-- The common body of `init` of the types without one. -/
def initChecked (f : Field) (os : Calls) : Call := syncInit f os (syncCheckInit f os.init)

def condVarInit : Field → Calls → Call := initChecked

def barrierInit : Field → Calls → Call := initChecked

def spinlockInit : Field → Calls → Call := initChecked

def tlsInit : Field → Calls → Call := initChecked

/-- What the macro makes of the result of `sem_init`, whose error is in `errno`. -/
def semInitError (p : Platform) (os : Calls) : Error :=
  checkLastError p.windows (if os.init = .ok then 0 else -1) os.init os.left

def semaphoreInit (p : Platform) (f : Field) (os : Calls) : Call := syncInit f os fun w => do
  let w ← w.construct f (os.init = .ok)
  return (semInitError p os, w)

/-- A native `destroy` function. -/
def nativeDestroy (f : Field) (os : Calls) : Call := fun w => do
  let w ← w.destruct f (os.destroy = .ok)
  return (os.destroy, w)

/-- The common body of `destroy`. -/
def destroyNative (f : Field) (os : Calls) : Call := syncDestroy f (nativeDestroy f os)

def mutexDestroy : Field → Calls → Call := destroyNative

def recursiveMutexDestroy : Field → Calls → Call := destroyNative

def sharedMutexDestroy : Field → Calls → Call := destroyNative

def condVarDestroy : Field → Calls → Call := destroyNative

def barrierDestroy : Field → Calls → Call := destroyNative

def spinlockDestroy : Field → Calls → Call := destroyNative

def tlsDestroy : Field → Calls → Call := destroyNative

def semaphoreDestroy (f : Field) (os : Calls) : Call := fun w =>
  match w.impl f with
  | none => some (.ok, w)
  | some _ => do
    let w ← w.destruct f (os.destroy = .ok)
    let w ← w.free f
    return (if os.destroy ≠ .ok then os.destroy else .ok, w.reset f)

end Pthreads

namespace Win32

/-- The common body of `init` for a critical section, which is always created. -/
def criticalSectionInit (f : Field) (os : Calls) : Call := syncInit f os fun w => do
  let w ← w.construct f true
  return (.ok, w)

def mutexInit : Field → Calls → Call := criticalSectionInit

def recursiveMutexInit : Field → Calls → Call := criticalSectionInit

/-- The lock in the block needs no release. -/
def sharedMutexInit (f : Field) (os : Calls) : Call := syncInit f os (ret .ok)

def condVarInit (f : Field) (os : Calls) : Call := syncInit f os (ret .ok)

/-- The common body of `init` where creation can fail. -/
def initCreated (f : Field) (os : Calls) : Call := syncInit f os fun w => do
  let w ← w.construct f os.created
  return (if os.created then .ok else .fromGetLastError os.lastError, w)

def barrierInit : Field → Calls → Call := initCreated

def semaphoreInit : Field → Calls → Call := initCreated

def tlsInit : Field → Calls → Call := initCreated

def spinlockInit : Call := ret .notImplemented

def mutexDestroy (f : Field) : Call := fun w =>
  match w.impl f with
  | none => some (.ok, w)
  | some _ => do
    let w ← w.destruct f true
    let w ← w.free f
    return (.ok, w)

/-- `DeleteCriticalSection` or `DeleteSynchronizationBarrier` comes before the macro. -/
def deleteFirst (f : Field) : Call := fun w => do
  let w ← w.destruct f true
  syncDestroy f (ret .ok) w

def recursiveMutexDestroy : Field → Call := deleteFirst

def barrierDestroy : Field → Call := deleteFirst

def sharedMutexDestroy (f : Field) : Call := syncDestroy f (ret .ok)

def condVarDestroy (f : Field) : Call := syncDestroy f (ret .ok)

/-- `CloseHandle` and `TlsFree` are not zero when they succeed. -/
def close (p : Platform) (f : Field) (os : Calls) : Call := fun w => do
  let w ← w.destruct f (os.closed ≠ 0)
  return (p.ofInt os.closed, w)

def semaphoreDestroy (p : Platform) (f : Field) (os : Calls) : Call := syncDestroy f (close p f os)

def tlsDestroy (p : Platform) (f : Field) (os : Calls) : Call := syncDestroy f (close p f os)

def spinlockDestroy : Call := ret .notImplemented

end Win32

/-- The `init` functions, on the member `f` except for the condition mutex. -/
def init (p : Platform) (os : Field → Calls) : Backend → Kind → Call
  | .pthreads, .mutex => Pthreads.mutexInit p .impl (os .impl)
  | .pthreads, .recursiveMutex => Pthreads.recursiveMutexInit p .impl (os .impl)
  | .pthreads, .sharedMutex => Pthreads.sharedMutexInit p .impl (os .impl)
  | .pthreads, .condVar => Pthreads.condVarInit .impl (os .impl)
  | .pthreads, .conditionMutex =>
    conditionMutexInit (Pthreads.mutexInit p .mu (os .mu)) (Pthreads.condVarInit .cv (os .cv))
  | .pthreads, .semaphore => Pthreads.semaphoreInit p .impl (os .impl)
  | .pthreads, .barrier => Pthreads.barrierInit .impl (os .impl)
  | .pthreads, .spinlock => Pthreads.spinlockInit .impl (os .impl)
  | .pthreads, .tls => Pthreads.tlsInit .impl (os .impl)
  | .win32, .mutex => Win32.mutexInit .impl (os .impl)
  | .win32, .recursiveMutex => Win32.recursiveMutexInit .impl (os .impl)
  | .win32, .sharedMutex => Win32.sharedMutexInit .impl (os .impl)
  | .win32, .condVar => Win32.condVarInit .impl (os .impl)
  | .win32, .conditionMutex =>
    conditionMutexInit (Win32.mutexInit .mu (os .mu)) (Win32.condVarInit .cv (os .cv))
  | .win32, .semaphore => Win32.semaphoreInit .impl (os .impl)
  | .win32, .barrier => Win32.barrierInit .impl (os .impl)
  | .win32, .spinlock => Win32.spinlockInit
  | .win32, .tls => Win32.tlsInit .impl (os .impl)
  | _, .thread => threadInit .impl (os .impl)

def destroy (p : Platform) (os : Field → Calls) : Backend → Kind → Call
  | .pthreads, .mutex => Pthreads.mutexDestroy .impl (os .impl)
  | .pthreads, .recursiveMutex => Pthreads.recursiveMutexDestroy .impl (os .impl)
  | .pthreads, .sharedMutex => Pthreads.sharedMutexDestroy .impl (os .impl)
  | .pthreads, .condVar => Pthreads.condVarDestroy .impl (os .impl)
  | .pthreads, .conditionMutex =>
    conditionMutexDestroy (Pthreads.condVarDestroy .cv (os .cv)) (Pthreads.mutexDestroy .mu (os .mu))
  | .pthreads, .semaphore => Pthreads.semaphoreDestroy .impl (os .impl)
  | .pthreads, .barrier => Pthreads.barrierDestroy .impl (os .impl)
  | .pthreads, .spinlock => Pthreads.spinlockDestroy .impl (os .impl)
  | .pthreads, .tls => Pthreads.tlsDestroy .impl (os .impl)
  | .win32, .mutex => Win32.mutexDestroy .impl
  | .win32, .recursiveMutex => Win32.recursiveMutexDestroy .impl
  | .win32, .sharedMutex => Win32.sharedMutexDestroy .impl
  | .win32, .condVar => Win32.condVarDestroy .impl
  | .win32, .conditionMutex => conditionMutexDestroy (Win32.condVarDestroy .cv) (Win32.mutexDestroy .mu)
  | .win32, .semaphore => Win32.semaphoreDestroy p .impl (os .impl)
  | .win32, .barrier => Win32.barrierDestroy .impl
  | .win32, .spinlock => Win32.spinlockDestroy
  | .win32, .tls => Win32.tlsDestroy p .impl (os .impl)
  | _, .thread => threadDestroy .impl

end Rbc.Sync
