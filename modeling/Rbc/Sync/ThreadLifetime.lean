import Rbc.Basis.Machine
import Rbc.Core.Win32

namespace Rbc.ThreadLifetime

/-- What comes of the creation of a native thread. POSIX does not say what a failure leaves in
`impl->impl`, so that there are two of them. -/
inductive Creation
  | created | failed | failedSet
  deriving DecidableEq, Repr

/-- A call on the object of a thread by the thread that owns it. -/
inductive Call
  | start (creation : Creation)
  | join
  | detach
  | destroy
  deriving DecidableEq, Repr

/-- How far the new thread is. -/
inductive Phase
  | none | created | begun | ended
  deriving DecidableEq, Repr

/-- The object and its native thread. `impl`: the block is allocated, `set`: its field `impl` is not
zero, `attached`: neither joined nor detached under POSIX, a handle that is open under Win32. -/
structure State where
  impl : Bool
  set : Bool
  phase : Phase
  attached : Bool
  deriving DecidableEq, Repr

/-- A fault is a read of freed memory or through NULL, or a call that POSIX leaves undefined. -/
inductive Result (α : Type)
  | done (a : α)
  | waits
  | fault
  deriving DecidableEq, Repr

variable {b : Backend}

/-- `rbc_thread_start` -/
def State.start (b : Backend) (creation : Creation) (s : State) : Result State :=
  if !s.impl then .fault
  else if s.set then .done s -- RBC_ERROR_OPERATION_IN_PROGRESS
  else
    match creation, b with
    | .created, _ => .done { s with set := true, phase := .created, attached := true }
    | .failedSet, .pthreads => .done { s with set := true }
    | _, _ => .done s

/-- `rbc_thread_join_with_code`. A wait for a handle that is NULL or closed fails at once, as long as
the system does not give the number of the closed handle to another one. -/
def State.join (b : Backend) (s : State) : Result State :=
  if !s.impl then .fault
  else
    match b with
    | .pthreads =>
      if !s.attached then .fault
      else if s.phase = .ended then .done { s with attached := false }
      else .waits
    | .win32 =>
      if !s.attached then .done s
      else if s.phase = .ended then .done s
      else .waits

/-- `rbc_thread_detach`, which closes the handle under Win32. -/
def State.detach (b : Backend) (s : State) : Result State :=
  if !s.impl then .fault
  else
    match b with
    | .pthreads => if !s.attached then .fault else .done { s with attached := false }
    | .win32 => .done { s with attached := false }

/-- `rbc_thread_destroy` frees the block if there is one. -/
def State.destroy (s : State) : Result State := .done { s with impl := false }

def State.call (b : Backend) : Call → State → Result State
  | .start creation, s => s.start b creation
  | .join, s => s.join b
  | .detach, s => s.detach b
  | .destroy, s => s.destroy

/-- `start_thread` reads `impl->fn`. -/
def State.begin (s : State) : Result State :=
  if s.phase ≠ .created then .waits
  else if !s.impl then .fault
  else .done { s with phase := .begun }

/-- `rbc_thread_id(rbc_thread_current())` in the new thread reads the block too. -/
def State.currentId (s : State) : Result State :=
  if s.phase ≠ .begun then .waits
  else if !s.impl then .fault
  else .done s

/-- The new thread returns from `fn`. -/
def State.finish (s : State) : Result State :=
  if s.phase ≠ .begun then .waits else .done { s with phase := .ended }

/-- What the new thread does. -/
inductive Move
  | begin | currentId | finish
  deriving DecidableEq, Repr

def State.move : Move → State → Result State
  | .begin, s => s.begin
  | .currentId, s => s.currentId
  | .finish, s => s.finish

/-- Who goes on. -/
inductive Actor
  | owner
  | thread (move : Move)
  deriving DecidableEq, Repr

/-- The calls that the owner still has to make, and the state. -/
structure Config where
  calls : List Call
  state : State
  deriving DecidableEq, Repr

/-- An actor that cannot go on leaves everything as it is. -/
def Config.after (c : Config) (calls : List Call) : Result State → Option (Config × Unit)
  | .done s => some (⟨calls, s⟩, ())
  | .waits => some (c, ())
  | .fault => none

def step (b : Backend) : Actor → Config → Option (Config × Unit)
  | .owner, c =>
    match c.calls with
    | [] => some (c, ())
    | call :: calls => c.after calls (c.state.call b call)
  | .thread move, c => c.after c.calls (c.state.move move)

/-- After `rbc_thread_init`, which zeroes the block. -/
def initial (calls : List Call) : Config := ⟨calls, ⟨true, false, .none, false⟩⟩

/-- Whatever the order in which the two threads go on, nothing faults. -/
def Safe (b : Backend) (calls : List Call) : Prop :=
  ∀ schedule, (Machine.run (step b) schedule (initial calls)).isSome

/-- What the owner knows of its thread from the calls it has made. -/
inductive Stage
  | fresh | failed | running | joined | detached | gone
  deriving DecidableEq, Repr

/-- The stage after `rbc_thread_start` on a fresh object. -/
def Stage.started (b : Backend) : Creation → Stage
  | .created => .running
  | .failedSet => if b = .pthreads then .failed else .fresh
  | .failed => .fresh

/-- The calls that are in order: no use of a destroyed object, no destruction of the object of a
thread that was not joined, and under POSIX no join or detachment of what is not joinable. -/
def Stage.next (b : Backend) : Stage → Call → Option Stage
  | .fresh, .start creation => some (.started b creation)
  | .running, .join => some .joined
  | .running, .detach => some .detached
  | .running, .destroy => none
  | .detached, .destroy => none
  | .gone, .destroy => some .gone
  | .gone, _ => none
  | _, .destroy => some .gone
  | stage, .start _ => some stage
  | stage, _ => if b = .pthreads then none else some stage

/-- The stage after some calls, if all of them are in order. -/
def Stage.run (b : Backend) : Stage → List Call → Option Stage
  | stage, [] => some stage
  | stage, call :: calls => (stage.next b call).bind fun next => next.run b calls

/-- The states in which a stage can find the object and the thread. -/
def Fits (b : Backend) : Stage → State → Prop
  | .fresh, s => s.impl = true ∧ s.set = false ∧ s.phase = .none ∧ s.attached = false
  | .failed, s => s.impl = true ∧ s.set = true ∧ s.phase = .none ∧ s.attached = false
  | .running, s => s.impl = true ∧ s.set = true ∧ s.phase ≠ .none ∧ s.attached = true
  | .joined, s => s.impl = true ∧ s.set = true ∧ s.phase = .ended ∧ (b = .pthreads → s.attached = false)
  | .detached, s => s.impl = true ∧ s.set = true ∧ s.phase ≠ .none ∧ s.attached = false
  | .gone, s =>
    s.impl = false ∧ (s.phase = .none ∨ s.phase = .ended) ∧ (b = .pthreads → s.attached = false)

theorem fits_initial (calls : List Call) : Fits b .fresh (initial calls).state := ⟨rfl, rfl, rfl, rfl⟩

theorem State.start_of_set {s : State} (impl : s.impl = true) (set : s.set = true) (creation : Creation) :
    s.start b creation = .done s := by
  simp [State.start, impl, set]

theorem Fits.start {stage : Stage} {s : State} (fits : Fits b stage s) (creation : Creation)
    {next : Stage} (ordered : stage.next b (.start creation) = some next) :
    ∃ s', s.start b creation = .done s' ∧ Fits b next s' := by
  cases stage with
  | fresh =>
    obtain ⟨impl, set, phase, attached⟩ := fits
    cases ordered
    cases creation <;> cases b <;> simp [State.start, Stage.started, Fits, *]
  | gone => cases ordered
  | failed | running | joined | detached =>
    cases ordered
    obtain ⟨impl, set, -⟩ := id fits
    exact ⟨s, State.start_of_set impl set creation, fits⟩

theorem Fits.join {stage next : Stage} {s : State} (fits : Fits b stage s)
    (ordered : stage.next b .join = some next) :
    (stage = .running ∧ s.join b = .waits) ∨ ∃ s', s.join b = .done s' ∧ Fits b next s' := by
  cases stage with
  | gone => cases ordered
  | running =>
    cases ordered
    obtain ⟨impl, set, -, attached⟩ := fits
    by_cases ended : s.phase = .ended
    · right
      cases b <;> simp [State.join, Fits, impl, set, attached, ended]
    · refine .inl ⟨rfl, ?_⟩
      cases b <;> simp [State.join, impl, attached, ended]
  | fresh | failed | detached =>
    cases b with
    | pthreads => cases ordered
    | win32 =>
      cases ordered
      obtain ⟨impl, -, -, attached⟩ := id fits
      exact .inr ⟨s, by simp [State.join, impl, attached], fits⟩
  | joined =>
    cases b with
    | pthreads => cases ordered
    | win32 =>
      cases ordered
      obtain ⟨impl, -, ended, -⟩ := id fits
      exact .inr ⟨s, by simp [State.join, impl, ended], fits⟩

theorem Fits.detach {stage next : Stage} {s : State} (fits : Fits b stage s)
    (ordered : stage.next b .detach = some next) :
    s.detach b = .done { s with attached := false } ∧ Fits b next { s with attached := false } := by
  cases stage with
  | gone => cases ordered
  | running =>
    cases ordered
    obtain ⟨impl, set, phase, attached⟩ := fits
    refine ⟨?_, impl, set, phase, rfl⟩
    cases b <;> simp [State.detach, impl, attached]
  | fresh | failed | joined | detached =>
    cases b with
    | pthreads => cases ordered
    | win32 =>
      cases ordered
      obtain ⟨impl, set, phase, -⟩ := fits
      exact ⟨by simp [State.detach, impl], by simp [Fits, *]⟩

theorem Fits.destroy {stage next : Stage} {s : State} (fits : Fits b stage s)
    (ordered : stage.next b .destroy = some next) : Fits b next { s with impl := false } := by
  cases stage with
  | running | detached => cases ordered
  | fresh | failed =>
    cases ordered
    obtain ⟨-, -, phase, attached⟩ := fits
    exact ⟨rfl, .inl phase, fun _ => attached⟩
  | joined =>
    cases ordered
    obtain ⟨-, -, phase, attached⟩ := fits
    exact ⟨rfl, .inr phase, attached⟩
  | gone =>
    cases ordered
    exact ⟨rfl, fits.2⟩

/-- A call that is in order leads to the next stage, unless it waits for the thread. -/
theorem Fits.call {stage next : Stage} {s : State} {call : Call} (fits : Fits b stage s)
    (ordered : stage.next b call = some next) :
    (stage = .running ∧ call = .join ∧ s.call b call = .waits) ∨
      ∃ s', s.call b call = .done s' ∧ Fits b next s' := by
  cases call with
  | start creation => exact .inr (fits.start creation ordered)
  | join => exact (fits.join ordered).imp_left fun ⟨running, waits⟩ => ⟨running, rfl, waits⟩
  | detach => exact .inr ⟨_, fits.detach ordered⟩
  | destroy => exact .inr ⟨_, rfl, fits.destroy ordered⟩

theorem Fits.begin {stage : Stage} {s : State} (fits : Fits b stage s) :
    s.begin = .waits ∨ ∃ s', s.begin = .done s' ∧ Fits b stage s' := by
  by_cases created : s.phase = .created
  · right
    cases stage with
    | running | detached =>
      obtain ⟨impl, set, -, attached⟩ := fits
      exact ⟨{ s with phase := .begun }, by simp [State.begin, created, impl], impl, set, by simp, attached⟩
    | fresh | failed | joined => simp [Fits, created] at fits
    | gone => simp [Fits, created] at fits
  · exact .inl (if_pos created)

theorem Fits.currentId {stage : Stage} {s : State} (fits : Fits b stage s) :
    s.currentId = .waits ∨ s.currentId = .done s := by
  by_cases begun : s.phase = .begun
  · right
    have impl : s.impl = true := by
      cases stage with
      | gone => simp [Fits, begun] at fits
      | fresh | failed | running | joined | detached => exact fits.1
    simp [State.currentId, begun, impl]
  · exact .inl (if_pos begun)

theorem Fits.finish {stage : Stage} {s : State} (fits : Fits b stage s) :
    s.finish = .waits ∨ ∃ s', s.finish = .done s' ∧ Fits b stage s' := by
  by_cases begun : s.phase = .begun
  · right
    cases stage with
    | running | detached =>
      obtain ⟨impl, set, -, attached⟩ := fits
      exact ⟨{ s with phase := .ended }, by simp [State.finish, begun], impl, set, by simp, attached⟩
    | fresh | failed | joined => simp [Fits, begun] at fits
    | gone => simp [Fits, begun] at fits
  · exact .inl (if_pos begun)

/-- The new thread goes on only while there is the block, and leaves the stage to its owner. -/
theorem Fits.move {stage : Stage} {s : State} (fits : Fits b stage s) (move : Move) :
    s.move move = .waits ∨ ∃ s', s.move move = .done s' ∧ Fits b stage s' := by
  cases move with
  | begin => exact fits.begin
  | currentId => exact fits.currentId.imp_right fun done => ⟨s, done, fits⟩
  | finish => exact fits.finish

/-- The calls that are left are in order and lead to `last`. -/
def Leads (b : Backend) (last : Stage) (c : Config) : Prop :=
  ∃ stage, Fits b stage c.state ∧ Stage.run b stage c.calls = some last

theorem Leads.step {last : Stage} {c : Config} (leads : Leads b last c) (actor : Actor) :
    ∃ c', step b actor c = some (c', ()) ∧ Leads b last c' := by
  obtain ⟨stage, fits, run⟩ := id leads
  cases actor with
  | owner =>
    match calls : c.calls with
    | [] => exact ⟨c, by simp [ThreadLifetime.step, calls], leads⟩
    | call :: rest =>
      rw [calls] at run
      obtain ⟨next, taken, later⟩ := Option.bind_eq_some_iff.mp run
      simp only [ThreadLifetime.step, calls]
      rcases fits.call taken with ⟨-, -, waits⟩ | ⟨s', done, fits'⟩
      · exact ⟨c, by rw [waits]; rfl, leads⟩
      · exact ⟨⟨rest, s'⟩, by rw [done]; rfl, next, fits', later⟩
  | thread move =>
    simp only [ThreadLifetime.step]
    rcases fits.move move with waits | ⟨s', done, fits'⟩
    · exact ⟨c, by rw [waits]; rfl, leads⟩
    · exact ⟨⟨c.calls, s'⟩, by rw [done]; rfl, stage, fits', run⟩

theorem Leads.run {last : Stage} {c : Config} (leads : Leads b last c) (schedule : List Actor) :
    ∃ c' os, Machine.run (ThreadLifetime.step b) schedule c = some (c', os) ∧ Leads b last c' := by
  induction schedule generalizing c with
  | nil => exact ⟨c, [], rfl, leads⟩
  | cons actor rest ih =>
    obtain ⟨c', stepped, leads'⟩ := leads.step actor
    obtain ⟨end', os, ran, kept⟩ := ih leads'
    exact ⟨end', () :: os, Machine.run_cons.mpr ⟨c', (), os, stepped, ran, rfl⟩, kept⟩

/-- Some order of the two threads leads from one configuration to the other. -/
def Reaches (b : Backend) (c c' : Config) : Prop :=
  ∃ schedule os, Machine.run (ThreadLifetime.step b) schedule c = some (c', os)

def Faults (b : Backend) (c : Config) : Prop :=
  ∃ schedule, Machine.run (ThreadLifetime.step b) schedule c = none

theorem Reaches.faults {c c' : Config} (reaches : Reaches b c c') (faults : Faults b c') : Faults b c := by
  obtain ⟨schedule, os, ran⟩ := reaches
  obtain ⟨schedule', fault⟩ := faults
  exact ⟨schedule ++ schedule', by rw [Machine.run_append ran, fault]; rfl⟩

theorem reaches_of_done {s s' : State} {call : Call} (calls : List Call) (done : s.call b call = .done s') :
    Reaches b ⟨call :: calls, s⟩ ⟨calls, s'⟩ :=
  ⟨[.owner], [()], by simp [Machine.run, ThreadLifetime.step, done, Config.after]⟩

theorem State.call_phase {s s' : State} {call : Call} (done : s.call b call = .done s') :
    s'.phase = s.phase ∨ s'.phase = .created := by
  cases call with
  | start creation => cases creation <;> cases b <;> grind [State.call, State.start]
  | join => cases b <;> grind [State.call, State.join]
  | detach => cases b <;> grind [State.call, State.detach]
  | destroy =>
    cases done
    exact .inl rfl

/-- The stages in which the new thread may still be on its way. -/
def Stage.Open (stage : Stage) : Prop := stage = .running ∨ stage = .detached

theorem Stage.next_open {stage next : Stage} {call : Call} (ordered : stage.next b call = some next)
    (opened : next.Open) : stage.Open ∨ stage = .fresh := by
  cases stage with
  | fresh => exact .inr rfl
  | running => exact .inl (.inl rfl)
  | detached => exact .inl (.inr rfl)
  | failed | joined | gone => cases call <;> cases b <;> cases ordered <;> exact absurd opened (by simp [Stage.Open])

theorem Fits.phase_ne_none {stage : Stage} {s : State} (fits : Fits b stage s) (opened : stage.Open) :
    s.phase ≠ .none := by
  rcases opened with rfl | rfl <;> exact fits.2.2.1

/-- A fit in which the new thread does not begin before its owner waits for it. -/
def Late (b : Backend) (stage : Stage) (s : State) : Prop :=
  Fits b stage s ∧ (stage.Open → s.phase = .created)

theorem late_initial (calls : List Call) : Late b .fresh (initial calls).state :=
  ⟨fits_initial calls, by simp [Stage.Open]⟩

theorem Late.next {stage next : Stage} {s s' : State} {call : Call} (late : Late b stage s)
    (ordered : stage.next b call = some next) (done : s.call b call = .done s') (fits' : Fits b next s') :
    Late b next s' := by
  refine ⟨fits', fun opened => ?_⟩
  rcases State.call_phase done with same | created
  · rcases Stage.next_open ordered opened with before | rfl
    · exact same.trans (late.2 before)
    · exact absurd (same.trans late.1.2.2.1) (fits'.phase_ne_none opened)
  · exact created

/-- The thread that is waited for begins and returns first. -/
theorem Late.wait {s : State} (late : Late b .running s) (calls : List Call) :
    ∃ s', Reaches b ⟨.join :: calls, s⟩ ⟨calls, s'⟩ ∧ Late b .joined s' := by
  obtain ⟨⟨impl, set, -, attached⟩, created⟩ := late
  obtain ⟨_, _, _, _⟩ := s
  cases impl
  cases set
  cases attached
  cases created (.inl rfl)
  cases b with
  | pthreads => exact ⟨⟨true, true, .ended, false⟩, ⟨[.thread .begin, .thread .finish, .owner], _, rfl⟩, by simp [Late, Fits, Stage.Open]⟩
  | win32 => exact ⟨⟨true, true, .ended, true⟩, ⟨[.thread .begin, .thread .finish, .owner], _, rfl⟩, by simp [Late, Fits, Stage.Open]⟩

theorem Late.call {stage next : Stage} {s : State} {call : Call} (late : Late b stage s)
    (ordered : stage.next b call = some next) (calls : List Call) :
    ∃ s', Reaches b ⟨call :: calls, s⟩ ⟨calls, s'⟩ ∧ Late b next s' := by
  rcases late.1.call ordered with ⟨rfl, rfl, -⟩ | ⟨s', done, fits'⟩
  · cases ordered
    exact late.wait calls
  · exact ⟨s', reaches_of_done calls done, late.next ordered done fits'⟩

theorem faults_of_fault {s : State} {call : Call} (calls : List Call) (fault : s.call b call = .fault) :
    Faults b ⟨call :: calls, s⟩ :=
  ⟨[.owner], by simp [Machine.run, ThreadLifetime.step, fault, Config.after]⟩

/-- The thread finds its block freed when it begins. -/
theorem Late.destroyed {stage : Stage} {s : State} (late : Late b stage s) (opened : stage.Open)
    (calls : List Call) : Faults b ⟨.destroy :: calls, s⟩ := by
  have created := late.2 opened
  exact ⟨[.owner, .thread .begin], by
    simp [Machine.run, ThreadLifetime.step, State.call, State.destroy, State.move, State.begin, created, Config.after]⟩

/-- A call that is not in order is a fault itself or lets the thread run into one. -/
theorem Late.fault {stage : Stage} {s : State} {call : Call} (late : Late b stage s)
    (disordered : stage.next b call = none) (calls : List Call) : Faults b ⟨call :: calls, s⟩ := by
  cases call with
  | destroy =>
    cases stage with
    | running => exact late.destroyed (.inl rfl) calls
    | detached => exact late.destroyed (.inr rfl) calls
    | fresh | failed | joined | gone => cases disordered
  | start creation =>
    cases stage with
    | gone => exact faults_of_fault calls (by simp [State.call, State.start, late.1.1])
    | fresh | failed | running | joined | detached => cases disordered
  | join =>
    cases stage with
    | gone => exact faults_of_fault calls (by simp [State.call, State.join, late.1.1])
    | running => cases disordered
    | fresh | failed | joined | detached =>
      cases b with
      | win32 => cases disordered
      | pthreads => exact faults_of_fault calls (by simp_all [State.call, State.join, Late, Fits])
  | detach =>
    cases stage with
    | gone => exact faults_of_fault calls (by simp [State.call, State.detach, late.1.1])
    | running => cases disordered
    | fresh | failed | joined | detached =>
      cases b with
      | win32 => cases disordered
      | pthreads => exact faults_of_fault calls (by simp_all [State.call, State.detach, Late, Fits])

theorem Late.faults {stage : Stage} {s : State} {calls : List Call} (late : Late b stage s)
    (disordered : Stage.run b stage calls = none) : Faults b ⟨calls, s⟩ := by
  induction calls generalizing stage s with
  | nil => cases disordered
  | cons call rest ih =>
    cases taken : stage.next b call with
    | none => exact late.fault taken rest
    | some next =>
      rw [Stage.run, taken, Option.bind_some] at disordered
      obtain ⟨s', reaches, late'⟩ := late.call taken rest
      exact reaches.faults (ih late' disordered)

theorem run_isSome_of_safe {calls : List Call} (safe : Safe b calls) : (Stage.run b .fresh calls).isSome := by
  cases run : Stage.run b .fresh calls with
  | some last => rfl
  | none =>
    obtain ⟨schedule, fault⟩ : Faults b (initial calls) := (late_initial calls).faults run
    have ran := safe schedule
    rw [fault] at ran
    exact ran

theorem safe_of_run_isSome {calls : List Call} (inOrder : (Stage.run b .fresh calls).isSome) : Safe b calls := by
  intro schedule
  obtain ⟨last, run⟩ := Option.isSome_iff_exists.mp inOrder
  have leads : Leads b last (initial calls) := ⟨.fresh, fits_initial calls, run⟩
  obtain ⟨c', os, ran, -⟩ := leads.run schedule
  rw [ran]
  rfl

/-- No order of the two threads leads to a use of freed memory or to an undefined call exactly if
the calls of the owner are in order. -/
theorem safe_iff {calls : List Call} : Safe b calls ↔ (Stage.run b .fresh calls).isSome :=
  ⟨run_isSome_of_safe, safe_of_run_isSome⟩

theorem Stage.run_gone {last : Stage} {calls : List Call} (run : Stage.run b .gone calls = some last) :
    last = .gone := by
  induction calls with
  | nil => exact (Option.some.inj run).symm
  | cons call rest ih =>
    obtain ⟨next, taken, later⟩ := Option.bind_eq_some_iff.mp run
    cases call <;> cases taken
    exact ih later

theorem Stage.run_of_destroy {stage last : Stage} {calls : List Call} (destroyed : .destroy ∈ calls)
    (run : Stage.run b stage calls = some last) : last = .gone := by
  induction calls generalizing stage with
  | nil => exact absurd destroyed List.not_mem_nil
  | cons call rest ih =>
    obtain ⟨next, taken, later⟩ := Option.bind_eq_some_iff.mp run
    rcases List.mem_cons.mp destroyed with rfl | inside
    · cases stage <;> cases taken <;> exact Stage.run_gone later
    · exact ih inside later

/-- The stages that one program has come to under POSIX and under Win32. They differ after a creation
that failed and set `impl->impl` all the same: Win32 allows another one. -/
def Paired (stage stage' : Stage) : Prop :=
  stage = stage' ∨ stage = .failed ∧ (stage' = .fresh ∨ stage' = .running)

theorem Paired.next {stage stage' next next' : Stage} {call : Call} (paired : Paired stage stage')
    (ordered : stage.next .pthreads call = some next) (ordered' : stage'.next .win32 call = some next') :
    Paired next next' := by
  rcases paired with rfl | ⟨rfl, rfl | rfl⟩
  · cases call with
    | start creation => cases stage <;> cases creation <;> cases ordered <;> cases ordered' <;> simp [Paired, Stage.started]
    | join | detach | destroy => cases stage <;> cases ordered <;> cases ordered' <;> exact .inl rfl
  · cases call with
    | start creation => cases creation <;> cases ordered <;> cases ordered' <;> simp [Paired, Stage.started]
    | join | detach | destroy => cases ordered <;> cases ordered' <;> exact .inl rfl
  · cases call with
    | start creation => cases ordered; cases ordered'; simp [Paired]
    | join | detach | destroy => cases ordered <;> cases ordered'

/-- Under Win32 the handle of a thread that was joined is still open. -/
structure Held (stage stage' : Stage) (s : State) : Prop where
  fits : Fits .win32 stage' s
  paired : Paired stage stage'
  held : stage' = .joined ∨ stage' = .gone → s.phase ≠ .none → s.attached = true

theorem State.join_win32 {s s' : State} (done : s.join .win32 = .done s') : s' = s := by
  grind [State.join]

theorem Held.call {stage stage' next next' : Stage} {s s' : State} {call : Call} (holds : Held stage stage' s)
    (ordered : stage.next .pthreads call = some next) (ordered' : stage'.next .win32 call = some next')
    (done : s.call .win32 call = .done s') (fits' : Fits .win32 next' s') : Held next next' s' := by
  refine ⟨fits', holds.paired.next ordered ordered', fun closed created => ?_⟩
  obtain ⟨fits, paired, held⟩ := holds
  cases call with
  | start creation =>
    cases stage' with
    | gone => cases ordered'
    | joined =>
      cases done.symm.trans (State.start_of_set fits.1 fits.2.1 creation)
      exact held (.inl rfl) created
    | fresh =>
      cases creation <;> cases ordered' <;> exact absurd closed (by simp [Stage.started])
    | failed | running | detached =>
      cases ordered'
      exact absurd closed (by simp)
  | join =>
    cases State.join_win32 done
    cases stage' with
    | gone => cases ordered'
    | running => exact fits.2.2.2
    | joined => exact held (.inl rfl) created
    | fresh | failed | detached =>
      cases ordered'
      exact absurd closed (by simp)
  | detach =>
    cases stage' with
    | gone => cases ordered'
    | joined =>
      rcases paired with rfl | ⟨-, impossible⟩
      · cases ordered
      · exact absurd impossible (by simp)
    | fresh | failed | running | detached =>
      cases ordered'
      exact absurd closed (by simp)
  | destroy =>
    cases done
    cases stage' with
    | running | detached => cases ordered'
    | joined => exact held (.inl rfl) created
    | gone => exact held (.inr rfl) created
    | fresh | failed => exact absurd fits.2.2.1 created

theorem State.move_done {s s' : State} {move : Move} (done : s.move move = .done s') :
    s.phase ≠ .none ∧ s'.attached = s.attached := by
  cases move with
  | begin => grind [State.move, State.begin]
  | currentId => grind [State.move, State.currentId]
  | finish => grind [State.move, State.finish]

/-- A program that is in order under both is in a pair of stages, and leads to the end of the object. -/
def Closing (c : Config) : Prop :=
  ∃ stage stage', Held stage stage' c.state ∧ Stage.run .pthreads stage c.calls = some .gone ∧
    Stage.run .win32 stage' c.calls = some .gone

theorem Closing.owner {c c' : Config} (closing : Closing c)
    (stepped : ThreadLifetime.step .win32 .owner c = some (c', ())) : Closing c' := by
  obtain ⟨stage, stage', holds, run, run'⟩ := id closing
  match calls : c.calls with
  | [] =>
    simp only [ThreadLifetime.step, calls] at stepped
    cases stepped
    exact closing
  | call :: rest =>
    rw [calls] at run run'
    obtain ⟨next, taken, later⟩ := Option.bind_eq_some_iff.mp run
    obtain ⟨next', taken', later'⟩ := Option.bind_eq_some_iff.mp run'
    simp only [ThreadLifetime.step, calls] at stepped
    rcases holds.fits.call taken' with ⟨-, -, waits⟩ | ⟨s', done, fits'⟩
    · rw [waits] at stepped
      cases stepped
      exact closing
    · rw [done] at stepped
      cases stepped
      exact ⟨next, next', holds.call taken taken' done fits', later, later'⟩

theorem Closing.step {c c' : Config} {actor : Actor} (closing : Closing c)
    (stepped : ThreadLifetime.step .win32 actor c = some (c', ())) : Closing c' := by
  cases actor with
  | owner => exact closing.owner stepped
  | thread move =>
    obtain ⟨stage, stage', ⟨fits, paired, held⟩, run, run'⟩ := id closing
    simp only [ThreadLifetime.step] at stepped
    rcases fits.move move with waits | ⟨s', done, fits'⟩
    · rw [waits] at stepped
      cases stepped
      exact closing
    · rw [done] at stepped
      cases stepped
      obtain ⟨created, same⟩ := State.move_done done
      exact ⟨stage, stage', ⟨fits', paired, fun closed _ => same.trans (held closed created)⟩, run, run'⟩

theorem leads_gone {calls : List Call} (safe : Safe b calls) (destroyed : .destroy ∈ calls) :
    Stage.run b .fresh calls = some .gone := by
  obtain ⟨last, run⟩ := Option.isSome_iff_exists.mp (run_isSome_of_safe safe)
  rw [run, Stage.run_of_destroy destroyed run]

/-- A program that is safe with both back ends, and that destroys the object of a thread that was created,
leaves the thread's handle open under Win32 and nothing under POSIX. -/
theorem handle_leaks {calls : List Call} {schedule : List Actor} {last : Config} {os : List Unit}
    (safe : ∀ b, Safe b calls) (destroyed : .destroy ∈ calls)
    (ran : Machine.run (step b) schedule (initial calls) = some (last, os)) (finished : last.calls = [])
    (created : last.state.phase ≠ .none) :
    last.state.impl = false ∧ (last.state.attached = true ↔ b = .win32) := by
  cases b with
  | pthreads =>
    have leads : Leads .pthreads .gone (initial calls) :=
      ⟨.fresh, fits_initial calls, leads_gone (safe .pthreads) destroyed⟩
    obtain ⟨c', os', ran', stage, fits, run⟩ := leads.run schedule
    cases ran.symm.trans ran'
    rw [finished] at run
    cases run
    exact ⟨fits.1, iff_of_false (by simp [fits.2.2]) Backend.noConfusion⟩
  | win32 =>
    have start : Closing (initial calls) :=
      ⟨.fresh, .fresh, ⟨fits_initial calls, .inl rfl, by simp⟩, leads_gone (safe .pthreads) destroyed,
        leads_gone (safe .win32) destroyed⟩
    have kept : ∀ c actor c' o, Closing c → step .win32 actor c = some (c', o) → Closing c' :=
      fun c actor c' o closing stepped => closing.step stepped
    obtain ⟨stage, stage', ⟨fits, -, held⟩, -, run⟩ := Machine.run_invariant kept start ran
    rw [finished] at run
    cases run
    exact ⟨fits.1, iff_of_true (held (.inr rfl) created) rfl⟩

theorem handle_leaks_joined :
    ∃ last os, Machine.run (step .win32) [.owner, .thread .begin, .thread .finish, .owner, .owner]
        (initial [.start .created, .join, .destroy]) = some (last, os) ∧
      last.state.impl = false ∧ (last.state.attached = true ↔ Backend.win32 = .win32) := by
  have safe : ∀ b, Safe b [.start .created, .join, .destroy] :=
    fun b => safe_of_run_isSome (by cases b <;> rfl)
  have ran : Machine.run (step .win32) [.owner, .thread .begin, .thread .finish, .owner, .owner]
      (initial [.start .created, .join, .destroy]) =
        some (⟨[], ⟨false, true, .ended, true⟩⟩, [(), (), (), (), ()]) := rfl
  exact ⟨_, _, ran, handle_leaks safe (by decide) ran rfl (by decide)⟩

end Rbc.ThreadLifetime
