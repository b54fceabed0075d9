import Rbc.Basis.Machine
import Rbc.Core.Win32

namespace Rbc.Thread

/-- The target's `isize`, which is as wide as a pointer, holds every `int`. -/
structure Target where
  wordBits : Nat
  int_le : 32 ≤ wordBits

namespace Target

def lp64 : Target := ⟨64, by decide⟩

end Target

abbrev Ptr (t : Target) := BitVec t.wordBits

abbrev StartFn (t : Target) := Ptr t → Int32

variable {t : Target} {b : Backend}

/-- What a start routine returns: a pointer to pthreads, a `DWORD` to Win32. -/
def Exit (t : Target) : Backend → Type
  | .pthreads => Ptr t
  | .win32 => UInt32

namespace Exit

def ofInt : (b : Backend) → Int32 → Exit t b
  | .pthreads, ret => (ret.toBitVec.signExtend t.wordBits : Ptr t)
  | .win32, ret => ret.toUInt32

def toInt : {b : Backend} → Exit t b → Int32
  | .pthreads, (ret : Ptr t) => Int32.ofBitVec (ret.setWidth 32)
  | .win32, ret => UInt32.toInt32 ret

/-- The casts on the way of the exit code to the caller undo each other. -/
theorem toInt_ofInt (ret : Int32) : (ofInt b ret : Exit t b).toInt = ret := by
  cases b with
  | pthreads =>
    have narrowed : (ret.toBitVec.signExtend t.wordBits).setWidth 32 = ret.toBitVec := by
      have wide := t.int_le
      ext i bound
      simp [BitVec.getElem_signExtend, bound, show i < t.wordBits by omega]
    exact congrArg Int32.ofBitVec narrowed
  | win32 => rfl

end Exit

/-- `rbc_thread_impl`. The member `impl` is the `pthread_t` or the `HANDLE`, 0
as long as no thread was started; only the Win32 back end has the member `id`. -/
structure Impl (t : Target) where
  native : Ptr t
  id : UInt32
  fn : Option (StartFn t)
  arg : Ptr t
  stackSize : Ptr t

/-- What `pthread_create` or `_beginthreadex` did. When the first of them fails
it may leave anything in the `pthread_t`. -/
inductive Created (t : Target)
  | started (native : Ptr t) (set : native ≠ 0) (id : UInt32)
  | failed (error : Error) (isError : error ≠ .ok) (left : Ptr t)

/-- The results of the native calls of `rbc_thread_start`. -/
structure StartCalls (t : Target) where
  attrInit : Error
  attrSetDetachState : Error
  hasStackSize : Bool
  attrSetStackSize : Error
  create : Created t

/-- The results of the native calls of `rbc_thread_join_with_code`. After one of
them failed `GetLastError` is not zero. -/
structure JoinCalls where
  join : Error
  wait : WaitResult
  gotExitCode : Bool
  lastError : LastError
  isError : lastError ≠ .success

/-- A native thread: it is going to call `start_thread` with the pointer it was
given, or it has left it with a result. -/
inductive Phase (t : Target) (b : Backend)
  | created (arg : Ptr t)
  | finished (exit : Exit t b)

/-- A `rbc_thread`, the block it points to, the native thread that was created
for it, and the calls of start functions so far. -/
structure State (t : Target) (b : Backend) where
  self : Ptr t
  impl : Impl t
  thread : Option (Phase t b)
  calls : List (StartFn t × Ptr t)

/-- `rbc_thread_init`, given what `calloc` returned. -/
def init (b : Backend) (calloc : Ptr t) : Error × State t b :=
  (if calloc ≠ 0 then .ok else .notEnoughMemory,
    { self := calloc
      impl := { native := 0, id := 0, fn := none, arg := 0, stackSize := 0 }
      thread := none
      calls := [] })

namespace State

def setStackSize (s : State t b) (stackSize : Ptr t) : Error × State t b :=
  if s.self = 0 then (.invalidArgument, s)
  else if s.impl.native ≠ 0 then (.operationInProgress, s)
  else (.ok, { s with impl := { s.impl with stackSize := stackSize } })

/-- The end of `rbc_thread_start`, where `fn` and `arg` are stored and the system
gets the block for `start_thread`. -/
def create (s : State t b) (fn : Option (StartFn t)) (arg : Ptr t) : Created t → Error × State t b
  | .started native _ id =>
    (.ok, { s with
      impl := { s.impl with fn := fn, arg := arg, native := native, id := id }
      thread := some (.created s.self) })
  | .failed error _ left =>
    (error, { s with impl := { s.impl with fn := fn, arg := arg, native := left } })

def start : {b : Backend} → State t b → Option (StartFn t) → Ptr t → StartCalls t → Error × State t b
  | .pthreads, s, fn, arg, os =>
    if s.impl.native ≠ 0 then (.operationInProgress, s)
    else if os.attrInit ≠ .ok then (os.attrInit, s)
    else if os.attrSetDetachState ≠ .ok then (os.attrSetDetachState, s)
    else if s.impl.stackSize ≠ 0 ∧ ¬os.hasStackSize then (.functionNotSupported, s)
    else if s.impl.stackSize ≠ 0 ∧ os.attrSetStackSize ≠ .ok then (os.attrSetStackSize, s)
    else s.create fn arg os.create
  | .win32, s, fn, arg, os =>
    if fn.isNone then (.invalidArgument, s)
    else if s.impl.native ≠ 0 then (.operationInProgress, s)
    else match os.create with
      | .started native set id => s.create fn arg (.started native set id)
      -- `_beginthreadex` returns 0 on an error
      | .failed error isError _ => s.create fn arg (.failed error isError 0)

/-- `start_thread` on both back ends: the start function gets the pointer that
`start_thread` got itself. -/
def startThread (s : State t b) (arg : Ptr t) : Option (State t b) :=
  if arg = s.self then
    match s.impl.fn with
    | none => none
    | some fn => some { s with
        thread := some (.finished (Exit.ofInt b (fn arg)))
        calls := s.calls ++ [(fn, arg)] }
  else none

/-- The system runs the native thread. -/
def exec (s : State t b) : Option (State t b) :=
  match s.thread with
  | some (.created arg) => s.startThread arg
  | _ => none

/-- The result of a thread that has ended; a join waits for it. -/
def exit (s : State t b) : Option (Exit t b) :=
  match s.thread with
  | some (.finished exit) => some exit
  | _ => none

/-- `rbc_thread_join_with_code` gives its result and what it stores in `exit_code`,
unless `exit_code` is NULL. -/
def joinWithCode : {b : Backend} → State t b → (wanted : Bool) → JoinCalls → Option (Error × Option Int32)
  | .pthreads, s, wanted, os =>
    if os.join = .ok then s.exit.map fun ret => (.ok, if wanted then some ret.toInt else none)
    else some (os.join, if wanted then some 0 else none)
  | .win32, s, wanted, os =>
    match os.wait with
    | .object0 => s.exit.map fun ret =>
      if ¬wanted then (.ok, none)
      else if os.gotExitCode then (.ok, some ret.toInt)
      else (.fromGetLastError os.lastError, none)
    | _ => some (.fromGetLastError os.lastError, none)

end State

/-- A call of the library, or the native thread running. -/
inductive Event (t : Target)
  | setStackSize (stackSize : Ptr t)
  | start (fn : Option (StartFn t)) (arg : Ptr t) (os : StartCalls t)
  | exec
  | joinWithCode (wanted : Bool) (os : JoinCalls)

inductive Reply
  | status (error : Error)
  | joined (error : Error) (code : Option Int32)
  | ran

def step : Event t → State t b → Option (State t b × Reply)
  | .setStackSize stackSize, s => some ((s.setStackSize stackSize).2, .status (s.setStackSize stackSize).1)
  | .start fn arg os, s => some ((s.start fn arg os).2, .status (s.start fn arg os).1)
  | .exec, s => s.exec.map (·, .ran)
  | .joinWithCode wanted os, s => (s.joinWithCode wanted os).map fun (error, code) => (s, .joined error code)

end Rbc.Thread
