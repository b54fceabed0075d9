import Mathlib.Tactic.SplitIfs
import Rbc.Sync.Thread

namespace Rbc.Thread

variable {t : Target} {b : Backend}

namespace State

/-- `rbc_thread_start` creates a thread for the block of the object, or it leaves
the threads as they are and an object that has one untouched. -/
inductive StartOutcome (s : State t b) (fn : Option (StartFn t)) (arg : Ptr t) : Error × State t b → Prop
  | started (native : Ptr t) (id : UInt32) (unset : s.impl.native = 0) (set : native ≠ 0) :
    StartOutcome s fn arg (.ok, { s with
      impl := { s.impl with fn := fn, arg := arg, native := native, id := id }
      thread := some (.created s.self) })
  | refused {error : Error} (isError : error ≠ .ok) (impl : Impl t)
      (kept : s.impl.native ≠ 0 → impl = s.impl) :
    StartOutcome s fn arg (error, { s with impl := impl })

theorem StartOutcome.of_create {s : State t b} (fn : Option (StartFn t)) (arg : Ptr t)
    (unset : s.impl.native = 0) (c : Created t) : StartOutcome s fn arg (s.create fn arg c) := by
  cases c with
  | started native set id => exact .started native id unset set
  | failed error isError left => exact .refused isError _ fun set => absurd unset set

theorem start_outcome (s : State t b) (fn : Option (StartFn t)) (arg : Ptr t) (os : StartCalls t) :
    StartOutcome s fn arg (s.start fn arg os) := by
  have unchanged {error : Error} (isError : error ≠ .ok) : StartOutcome s fn arg (error, s) :=
    .refused isError s.impl fun _ => rfl
  cases b with
  | pthreads =>
    rw [start]
    split_ifs with started attrInit attrSetDetachState noStackSize attrSetStackSize
    · exact unchanged (by decide)
    · exact unchanged attrInit
    · exact unchanged attrSetDetachState
    · exact unchanged (by decide)
    · exact unchanged attrSetStackSize.2
    · exact .of_create fn arg (not_not.mp started) _
  | win32 =>
    rw [start]
    split_ifs with null started
    · exact unchanged (by decide)
    · exact unchanged (by decide)
    · have created := StartOutcome.of_create fn arg (not_not.mp started)
      cases os.create with
      | started native set id => exact created (.started native set id)
      | failed error isError left => exact created (.failed error isError 0)

theorem setStackSize_cases (s : State t b) (stackSize : Ptr t) :
    ∃ impl, (s.setStackSize stackSize).2 = { s with impl := impl } ∧ impl.native = s.impl.native ∧
      impl.fn = s.impl.fn := by
  unfold setStackSize
  split_ifs
  · exact ⟨s.impl, rfl, rfl, rfl⟩
  · exact ⟨s.impl, rfl, rfl, rfl⟩
  · exact ⟨_, rfl, rfl, rfl⟩

theorem exec_cases {s s' : State t b} (ran : s.exec = some s') :
    ∃ fn, s.thread = some (.created s.self) ∧ s.impl.fn = some fn ∧ s' = { s with
      thread := some (.finished (Exit.ofInt b (fn s.self)))
      calls := s.calls ++ [(fn, s.self)] } := by
  unfold exec startThread at ran
  split at ran
  · rename_i arg waiting
    split_ifs at ran with own
    split at ran
    · exact absurd ran (by simp)
    · rename_i fn stored
      subst own
      exact ⟨fn, waiting, stored, (Option.some.inj ran).symm⟩
  · exact absurd ran (by simp)

theorem exit_eq_some {s : State t b} {ret : Exit t b} : s.exit = some ret ↔ s.thread = some (.finished ret) := by
  unfold State.exit
  split <;> simp_all

/-- A join succeeds after the thread has ended, with the result it ended with. -/
theorem joinWithCode_ok {s : State t b} {wanted : Bool} {os : JoinCalls} {code : Option Int32}
    (joined : s.joinWithCode wanted os = some (.ok, code)) :
    ∃ ret, s.thread = some (.finished ret) ∧ code = if wanted then some ret.toInt else none := by
  cases b with
  | pthreads =>
    rw [joinWithCode] at joined
    by_cases succeeded : os.join = .ok
    · rw [if_pos succeeded] at joined
      obtain ⟨ret, ended, result⟩ := Option.map_eq_some_iff.mp joined
      exact ⟨ret, exit_eq_some.mp ended, (Prod.mk.inj result).2.symm⟩
    · rw [if_neg succeeded] at joined
      exact absurd (Prod.mk.inj (Option.some.inj joined)).1 succeeded
  | win32 =>
    have failed := Error.fromGetLastError_ne os.isError
    rw [joinWithCode] at joined
    cases waited : os.wait with
    | object0 =>
      simp only [waited] at joined
      obtain ⟨ret, ended, result⟩ := Option.map_eq_some_iff.mp joined
      refine ⟨ret, exit_eq_some.mp ended, ?_⟩
      cases wanted <;> cases got : os.gotExitCode <;> simp_all
    | _ =>
      simp only [waited] at joined
      exact absurd (Prod.mk.inj (Option.some.inj joined)).1 failed

end State

/-- What the library has reported about a thread fits where the thread is now: it
runs the function of the successful start on the address of its own block. -/
inductive Reported (past : List (Event t × Reply)) : State t b → Prop
  | idle {s : State t b} (thread : s.thread = none) (calls : s.calls = [])
      (starts : ∀ fn arg os, (.start fn arg os, .status .ok) ∉ past)
      (joins : ∀ wanted os code, (.joinWithCode wanted os, .joined .ok code) ∉ past) : Reported past s
  | created {s : State t b} (thread : s.thread = some (.created s.self)) (set : s.impl.native ≠ 0)
      (calls : s.calls = [])
      (starts : ∀ fn arg os, (.start fn arg os, .status .ok) ∈ past → s.impl.fn = fn)
      (joins : ∀ wanted os code, (.joinWithCode wanted os, .joined .ok code) ∉ past) : Reported past s
  | finished {s : State t b} (fn : StartFn t) (thread : s.thread = some (.finished (.ofInt b (fn s.self))))
      (set : s.impl.native ≠ 0) (calls : s.calls = [(fn, s.self)])
      (starts : ∀ fn' arg os, (.start fn' arg os, .status .ok) ∈ past → fn' = some fn)
      (joins : ∀ os code, (.joinWithCode true os, .joined .ok code) ∈ past → code = some (fn s.self)) :
    Reported past s

theorem Reported.start {past : List (Event t × Reply)} {s : State t b} (reported : Reported past s)
    (fn : Option (StartFn t)) (arg : Ptr t) (os : StartCalls t) :
    Reported (past ++ [(.start fn arg os, .status (s.start fn arg os).1)]) (s.start fn arg os).2 := by
  have outcome := s.start_outcome fn arg os
  generalize s.start fn arg os = result at outcome
  cases reported with
  | idle thread calls starts joins =>
    cases outcome with
    | started native id unset set =>
      refine .created rfl set calls ?_ (by simpa using joins)
      intro fn' arg' os' member
      simp only [List.mem_append, List.mem_singleton, Prod.mk.injEq, Event.start.injEq] at member
      rcases member with earlier | ⟨⟨rfl, -⟩, -⟩
      · exact absurd earlier (starts _ _ _)
      · rfl
    | refused isError impl kept =>
      refine .idle thread calls ?_ (by simpa using joins)
      simpa [isError, eq_comm] using starts
  | created thread set calls starts joins =>
    cases outcome with
    | started native id unset => exact absurd unset set
    | refused isError impl kept =>
      obtain rfl := kept set
      exact .created thread set calls (by simpa [isError, eq_comm] using starts) (by simpa using joins)
  | finished fn thread set calls starts joins =>
    cases outcome with
    | started native id unset => exact absurd unset set
    | refused isError impl kept =>
      obtain rfl := kept set
      exact .finished fn thread set calls (by simpa [isError, eq_comm] using starts) (by simpa using joins)

theorem Reported.setStackSize {past : List (Event t × Reply)} {s : State t b} (reported : Reported past s)
    (stackSize : Ptr t) :
    Reported (past ++ [(.setStackSize stackSize, .status (s.setStackSize stackSize).1)])
      (s.setStackSize stackSize).2 := by
  obtain ⟨impl, same, native, stored⟩ := s.setStackSize_cases stackSize
  rw [same]
  cases reported with
  | idle thread calls starts joins => exact .idle thread calls (by simpa using starts) (by simpa using joins)
  | created thread set calls starts joins =>
    refine .created thread (by simpa [native] using set) calls ?_ (by simpa using joins)
    simpa [stored] using starts
  | finished fn thread set calls starts joins =>
    exact .finished fn thread (by simpa [native] using set) calls (by simpa using starts) (by simpa using joins)

theorem Reported.exec {past : List (Event t × Reply)} {s s' : State t b} (reported : Reported past s)
    (ran : s.exec = some s') : Reported (past ++ [(.exec, .ran)]) s' := by
  obtain ⟨fn, waiting, stored, rfl⟩ := State.exec_cases ran
  cases reported with
  | idle thread => simp [thread] at waiting
  | created thread set calls starts joins =>
    refine .finished fn rfl set (by simp [calls]) ?_ ?_
    · intro fn' arg os member
      rw [← starts fn' arg os (by simpa using member), stored]
    · intro os code member
      exact absurd (by simpa using member) (joins true os code)
  | finished fn' thread => simp [thread] at waiting

theorem Reported.joinWithCode {past : List (Event t × Reply)} {s : State t b} (reported : Reported past s)
    {wanted : Bool} {os : JoinCalls} {error : Error} {code : Option Int32}
    (joined : s.joinWithCode wanted os = some (error, code)) :
    Reported (past ++ [(.joinWithCode wanted os, .joined error code)]) s := by
  have ended : error = .ok → ∃ ret, s.thread = some (.finished ret) ∧ code = if wanted then some ret.toInt else none := by
    rintro rfl
    exact State.joinWithCode_ok joined
  have pending (unended : ∀ ret, s.thread ≠ some (.finished ret)) : error ≠ .ok := by
    intro succeeded
    obtain ⟨ret, thread, -⟩ := ended succeeded
    exact unended ret thread
  cases reported with
  | idle thread calls starts joins =>
    have failed := pending (by simp [thread])
    exact .idle thread calls (by simpa using starts) (by simpa [failed.symm] using joins)
  | created thread set calls starts joins =>
    have failed := pending (by simp [thread])
    exact .created thread set calls (by simpa using starts) (by simpa [failed.symm] using joins)
  | finished fn thread set calls starts joins =>
    refine .finished fn thread set calls (by simpa using starts) ?_
    intro os' code' member
    simp only [List.mem_append, List.mem_singleton, Prod.mk.injEq, Event.joinWithCode.injEq,
      Reply.joined.injEq] at member
    rcases member with earlier | ⟨⟨rfl, rfl⟩, rfl, rfl⟩
    · exact joins os' code' earlier
    · obtain ⟨ret, thread', result⟩ := ended rfl
      obtain rfl := Phase.finished.inj (Option.some.inj (thread.symm.trans thread'))
      rw [result, if_pos rfl, Exit.toInt_ofInt]

theorem Reported.step {past : List (Event t × Reply)} {s s' : State t b} {event : Event t} {reply : Reply}
    (reported : Reported past s) (stepped : Thread.step event s = some (s', reply)) :
    Reported (past ++ [(event, reply)]) s' := by
  cases event with
  | setStackSize stackSize =>
    obtain ⟨rfl, rfl⟩ := Prod.mk.inj (Option.some.inj stepped)
    exact reported.setStackSize stackSize
  | start fn arg os =>
    obtain ⟨rfl, rfl⟩ := Prod.mk.inj (Option.some.inj stepped)
    exact reported.start fn arg os
  | exec =>
    obtain ⟨ended, ran, same⟩ := Option.map_eq_some_iff.mp stepped
    obtain ⟨rfl, rfl⟩ := Prod.mk.inj same
    exact reported.exec ran
  | joinWithCode wanted os =>
    obtain ⟨⟨error, code⟩, joined, same⟩ := Option.map_eq_some_iff.mp stepped
    obtain ⟨rfl, rfl⟩ := Prod.mk.inj same
    exact reported.joinWithCode joined

theorem step_self {s s' : State t b} {event : Event t} {reply : Reply}
    (stepped : step event s = some (s', reply)) : s'.self = s.self := by
  cases event with
  | setStackSize stackSize =>
    obtain ⟨rfl, -⟩ := Prod.mk.inj (Option.some.inj stepped)
    obtain ⟨impl, same, -⟩ := s.setStackSize_cases stackSize
    rw [same]
  | start fn arg os =>
    obtain ⟨rfl, -⟩ := Prod.mk.inj (Option.some.inj stepped)
    have outcome := s.start_outcome fn arg os
    generalize s.start fn arg os = result at outcome
    cases outcome <;> rfl
  | exec =>
    obtain ⟨ended, ran, same⟩ := Option.map_eq_some_iff.mp stepped
    obtain ⟨rfl, -⟩ := Prod.mk.inj same
    obtain ⟨fn, -, -, rfl⟩ := State.exec_cases ran
    rfl
  | joinWithCode wanted os =>
    obtain ⟨⟨error, code⟩, joined, same⟩ := Option.map_eq_some_iff.mp stepped
    obtain ⟨rfl, -⟩ := Prod.mk.inj same
    rfl

/-- The start function was called once, with the argument given to `rbc_thread_start`,
and the code that a join stored is what it returned. -/
def Delivered (s : State t b) (fn : StartFn t) (arg : Ptr t) (code : Option Int32) : Prop :=
  s.calls = [(fn, arg)] ∧ code = some (fn arg)

/-- The function of the successful start is called once and its result arrives, but
its argument is always the address of the block that `rbc_thread_init` allocated. -/
theorem run_delivered_iff {calloc : Ptr t} {start s : State t b} {events : List (Event t)} {replies : List Reply}
    {fn : StartFn t} {arg : Ptr t} {os : StartCalls t} {os' : JoinCalls} {code : Option Int32}
    (initialised : init b calloc = (.ok, start)) (ran : Machine.run step events start = some (s, replies))
    (started : (.start (some fn) arg os, .status .ok) ∈ events.zip replies)
    (joined : (.joinWithCode true os', .joined .ok code) ∈ events.zip replies) :
    Delivered s fn arg code ↔ arg = calloc := by
  obtain rfl : (init b calloc).2 = start := congrArg Prod.snd initialised
  have before : Reported ([] : List (Event t × Reply)) (init b calloc).2 ∧ (init b calloc).2.self = calloc :=
    ⟨.idle rfl rfl (by simp) (by simp), rfl⟩
  obtain ⟨reported, same⟩ : Reported (events.zip replies) s ∧ s.self = calloc :=
    Machine.run_history (P := fun past s => Reported past s ∧ s.self = calloc)
      (fun past s event s' reply before stepped =>
        ⟨before.1.step stepped, (step_self stepped).trans before.2⟩) before ran
  cases reported with
  | idle thread calls starts => exact absurd started (starts _ _ _)
  | created thread set calls starts joins => exact absurd joined (joins _ _ _)
  | finished fn' thread set calls starts joins =>
    obtain rfl := Option.some.inj (starts _ _ _ started)
    unfold Delivered
    rw [calls, joins _ _ joined, same]
    constructor
    · rintro ⟨call, -⟩
      simpa using call.symm
    · rintro rfl
      exact ⟨rfl, rfl⟩

/-- Returns its argument as an `int`. -/
def lowBits : StartFn .lp64 := fun arg => Int32.ofBitVec (arg.setWidth 32)

/-- One thread that runs `lowBits` and is joined, without an error. -/
def lowBitsRun (arg : Ptr .lp64) : List (Event .lp64) :=
  [.start (some lowBits) arg
      { attrInit := .ok, attrSetDetachState := .ok, hasStackSize := true, attrSetStackSize := .ok
        create := .started 1 (by decide) 7 },
    .exec,
    .joinWithCode true
      { join := .ok, wait := .object0, gotExitCode := true, lastError := .waitTimeout, isError := by decide }]

theorem run_lowBitsRun (b : Backend) (arg : Ptr .lp64) :
    ∃ s, s.calls = [(lowBits, 16)] ∧ Machine.run step (lowBitsRun arg) (init b 16).2 =
      some (s, [.status .ok, .ran, .joined .ok (some 16)]) := by
  cases b with
  | pthreads => exact ⟨_, rfl, rfl⟩
  | win32 => exact ⟨_, rfl, rfl⟩

/-- With the block as its argument the start function works as documented. -/
theorem run_delivered_of_own_block :
    ∃ s : State .lp64 .pthreads, Machine.run step (lowBitsRun 16) (init .pthreads 16).2 =
      some (s, [.status .ok, .ran, .joined .ok (some 16)]) ∧ Delivered s lowBits 16 (some 16) := by
  obtain ⟨s, -, ran⟩ := run_lowBitsRun .pthreads 16
  exact ⟨s, ran, (run_delivered_iff rfl ran (.head _) (.tail _ (.tail _ (.head _)))).mpr rfl⟩

/-- The argument NULL does not reach the start function on either back end. -/
theorem null_argument_not_delivered :
    (∃ s : State .lp64 .pthreads, Machine.run step (lowBitsRun 0) (init .pthreads 16).2 =
      some (s, [.status .ok, .ran, .joined .ok (some 16)]) ∧ ¬Delivered s lowBits 0 (some 16)) ∧
    ∃ s : State .lp64 .win32, Machine.run step (lowBitsRun 0) (init .win32 16).2 =
      some (s, [.status .ok, .ran, .joined .ok (some 16)]) ∧ ¬Delivered s lowBits 0 (some 16) := by
  have misled {b : Backend} {s : State .lp64 b} (calls : s.calls = [(lowBits, 16)]) :
      ¬Delivered s lowBits 0 (some 16) := by
    rintro ⟨same, -⟩
    have address : (16 : Ptr .lp64) = 0 := by simpa [calls] using same
    exact absurd address (by decide)
  obtain ⟨s, calls, ran⟩ := run_lowBitsRun .pthreads 0
  obtain ⟨s', calls', ran'⟩ := run_lowBitsRun .win32 0
  exact ⟨⟨s, ran, misled calls⟩, s', ran', misled calls'⟩

end Rbc.Thread
