import Rbc.Sync.Object

namespace Rbc.Sync

namespace World

/-- The member `f` points to a new block, with a native object in it or without one. -/
def holding (w : World) (f : Field) (occupied : Bool) : World where
  impl := Function.update w.impl f (some w.heap.next)
  heap := w.heap.alloc occupied
  natives := w.natives + occupied.toNat
  attrs := w.attrs

theorem allocate_of_success (w : World) (f : Field) : w.allocate f true = w.holding f false := rfl

theorem allocate_of_failure (w : World) (f : Field) : w.allocate f false = w.reset f := rfl

theorem construct_holding (w : World) (f : Field) (succeeds : Bool) :
    (w.holding f false).construct f succeeds = some (w.holding f succeeds) := by
  cases succeeds <;> simp [construct, holding, Heap.put_alloc]

theorem free_holding (w : World) (f : Field) (native : Bool) :
    (w.holding f native).free f = some { w.holding f native with heap := w.heap.skip } := by
  simp [free, holding, Heap.release, Heap.free_alloc]

/-- The blocks, native objects and attributes of the process. -/
def SameResources (w w' : World) : Prop :=
  w'.heap.get? = w.heap.get? ∧ w'.natives = w.natives ∧ w'.attrs = w.attrs

end World

theorem syncInit_eq (w : World) (f : Field) (os : Calls) (rest : Call) :
    syncInit f os rest w =
      if os.malloc then rest (w.holding f false) else some (.notEnoughMemory, w.reset f) := by
  cases malloc : os.malloc with
  | false => simp [syncInit, malloc, World.allocate_of_failure, World.reset]
  | true => simp [syncInit, malloc, World.allocate_of_success, World.holding]

theorem syncCheck_eq {expr : Call} {w : World} {r : Error × World} (ran : expr w = some r) (rest : Call) :
    syncCheck expr rest w = if r.1 ≠ .ok then some r else rest r.2 := by
  simp [syncCheck, ran]

namespace Pthreads

/-- The first error of the calls before `malloc`. -/
def attrError (settings : Calls → List Error) (os : Calls) : Option Error :=
  (os.attrInit :: settings os).find? (· != .ok)

theorem foldr_checkWithCleanup (errors : List Error) (rest : Call) (w : World) :
    errors.foldr checkWithCleanup rest w =
      match errors.find? (· != .ok) with
      | some e => some (e, w.attrDestroy)
      | none => rest w := by
  induction errors with
  | nil => rfl
  | cons e errors ih =>
    by_cases succeeds : e = .ok
    · simpa [checkWithCleanup, succeeds] using ih
    · simp [checkWithCleanup, succeeds]

theorem createWithAttr_eq (f : Field) (os : Calls) (w : World) :
    createWithAttr f os { w with attrs := w.attrs + 1 } = some
      (if os.malloc then (os.init, w.holding f (os.init = .ok)) else (.notEnoughMemory, w.reset f)) := by
  cases malloc : os.malloc with
  | false => simp [createWithAttr, malloc, checkWithCleanup, World.allocate, World.reset, World.attrDestroy]
  | true =>
    have made := World.construct_holding { w with attrs := w.attrs + 1 } f (os.init = .ok)
    have set : (World.holding { w with attrs := w.attrs + 1 } f false).impl f ≠ none := by simp [World.holding]
    simp [createWithAttr, malloc, World.allocate_of_success, checkWithCleanup, set, made]
    rfl

/-- The attributes are always released; what `malloc` returned is not. -/
theorem initWithAttr_eq (settings : Calls → List Error) (f : Field) (os : Calls) (w : World) :
    initWithAttr settings f os w = some
      (match attrError settings os with
      | some e => (e, w)
      | none => if os.malloc then (os.init, w.holding f (os.init = .ok)) else (.notEnoughMemory, w.reset f)) := by
  by_cases attr : os.attrInit = .ok
  · have first : attrError settings os = (settings os).find? (· != .ok) := by simp [attrError, attr]
    have entered : initWithAttr settings f os w =
        (settings os).foldr checkWithCleanup (createWithAttr f os) { w with attrs := w.attrs + 1 } := by
      simp [initWithAttr, syncCheck, attrInit, attr]
    rw [entered, first, foldr_checkWithCleanup]
    cases (settings os).find? (· != .ok) with
    | some e => rfl
    | none => exact createWithAttr_eq f os w
  · simp [initWithAttr, syncCheck, attrInit, attrError, attr]

theorem initChecked_eq (f : Field) (os : Calls) (w : World) :
    initChecked f os w = some
      (if os.malloc then
        if os.init = .ok then (.ok, w.holding f true)
        else (os.init, { w with impl := Function.update w.impl f none, heap := w.heap.skip })
      else (.notEnoughMemory, w.reset f)) := by
  rw [initChecked, syncInit_eq]
  cases os.malloc with
  | false => rfl
  | true =>
    by_cases succeeds : os.init = .ok
    · simp [syncCheckInit, World.construct_holding, succeeds]
    · simp [syncCheckInit, World.construct_holding, World.free_holding, succeeds]
      simp [World.reset, World.holding]

/-- When `init` of a semaphore returns OK: on Windows not when `sem_init` does. -/
theorem semInitError_eq_ok_iff (p : Platform) (os : Calls) :
    semInitError p os = .ok ↔ if p.windows then os.init = .ok → os.left = .success else os.init = .ok := by
  unfold semInitError checkLastError
  cases p.windows with
  | true => by_cases made : os.init = .ok <;> simp [made, Error.fromGetLastError_eq_ok_iff]
  | false => by_cases made : os.init = .ok <;> simp [made]

theorem semaphoreInit_eq (p : Platform) (f : Field) (os : Calls) (w : World) :
    semaphoreInit p f os w = some
      (if os.malloc then (semInitError p os, w.holding f (os.init = .ok)) else (.notEnoughMemory, w.reset f)) := by
  rw [semaphoreInit, syncInit_eq]
  cases os.malloc with
  | false => rfl
  | true => simp [World.construct_holding]

theorem attrError_ne {settings : Calls → List Error} {os : Calls} {e : Error}
    (failed : attrError settings os = some e) : e ≠ .ok := by
  simpa using List.find?_some failed

end Pthreads

namespace World

theorem sameResources_refl (w : World) : w.SameResources w := ⟨rfl, rfl, rfl⟩

theorem sameResources_reset (w : World) (f : Field) : w.SameResources (w.reset f) := ⟨rfl, rfl, rfl⟩

@[simp]
theorem impl_reset (w : World) (f : Field) : (w.reset f).impl f = none := Function.update_self ..

theorem impl_reset_of_ne (w : World) {f g : Field} (other : g ≠ f) : (w.reset f).impl g = w.impl g :=
  Function.update_of_ne other ..

/-- A block that is still there was left behind. -/
theorem not_sameResources_of_live {w w' : World} {native : Bool} (live : w'.heap.get? w.heap.next = some native) :
    ¬w.SameResources w' := by
  rintro ⟨heap, -, -⟩
  rw [heap, w.heap.fresh _ (Nat.le_refl _)] at live
  simp at live

theorem live_holding (w : World) (f : Field) (native : Bool) :
    (w.holding f native).heap.get? w.heap.next = some native := Heap.get?_alloc_next ..

end World

def Kind.fields : Kind → List Field
  | .conditionMutex => [.mu, .cv]
  | _ => [.impl]

theorem syncDestroy_of_null {w : World} {f : Field} (null : w.impl f = none) (dtor : Call) :
    syncDestroy f dtor w = some (.ok, w) := by
  simp [syncDestroy, null]

theorem destroy_of_null (p : Platform) (os : Field → Calls) {k : Kind} {w : World}
    (null : ∀ f ∈ k.fields, w.impl f = none) : destroy p os .pthreads k w = some (.ok, w) := by
  cases k with
  | conditionMutex =>
    have mu := syncDestroy_of_null (null .mu (by simp [Kind.fields]))
    have cv := syncDestroy_of_null (null .cv (by simp [Kind.fields]))
    simp [destroy, conditionMutexDestroy, syncCheck, Pthreads.condVarDestroy, Pthreads.mutexDestroy,
      Pthreads.destroyNative, mu, cv]
  | semaphore =>
    have impl := null .impl (by simp [Kind.fields])
    simp [destroy, Pthreads.semaphoreDestroy, impl]
  | _ => exact syncDestroy_of_null (null .impl (by simp [Kind.fields])) _

/-- A failed `init` gave back what it took, left every member `impl` NULL, and a `destroy`
after it has nothing to do. -/
structure LeavesNothing (p : Platform) (k : Kind) (w w' : World) : Prop where
  resources : w.SameResources w'
  null : ∀ f ∈ k.fields, w'.impl f = none
  destroyed : ∀ os, destroy p os .pthreads k w' = some (.ok, w')

/-- `init` on pthreads leaves nothing behind when it fails. -/
def FailsClean (p : Platform) (k : Kind) (os : Field → Calls) (w : World) : Prop :=
  ∃ e w', init p os .pthreads k w = some (e, w') ∧ (e ≠ .ok → LeavesNothing p k w w')

theorem failsClean_iff_of_init {p : Platform} {k : Kind} {os : Field → Calls} {w : World} {r : Error × World}
    (ran : init p os .pthreads k w = some r) :
    FailsClean p k os w ↔ (r.1 ≠ .ok → w.SameResources r.2 ∧ ∀ f ∈ k.fields, r.2.impl f = none) := by
  constructor
  · rintro ⟨e, w', ran', clean⟩ failed
    obtain rfl := Option.some.inj (ran.symm.trans ran')
    exact ⟨(clean failed).resources, (clean failed).null⟩
  · intro clean
    refine ⟨r.1, r.2, ran, fun failed => ?_⟩
    obtain ⟨resources, null⟩ := clean failed
    exact ⟨resources, null, fun os => destroy_of_null p os null⟩

/-- The failures of an `init` with attributes that leave nothing behind: those before
`malloc` if the member was NULL before, and that of `malloc`. -/
def CleanWithAttr (settings : Calls → List Error) (f : Field) (os : Calls) (w : World) : Prop :=
  match Pthreads.attrError settings os with
  | some _ => w.impl f = none
  | none => os.malloc → os.init = .ok

/-- What `init` on pthreads leaves nothing behind on when it fails. -/
def CleanOn (p : Platform) (os : Field → Calls) (w : World) : Kind → Prop
  | .mutex | .recursiveMutex => CleanWithAttr (Pthreads.mutexSettings p) .impl (os .impl) w
  | .sharedMutex => CleanWithAttr (Pthreads.sharedMutexSettings p) .impl (os .impl) w
  | .semaphore =>
    (os .impl).malloc →
      if p.windows then (os .impl).init = .ok → (os .impl).left = .success else (os .impl).init = .ok
  | .conditionMutex =>
    match Pthreads.attrError (Pthreads.mutexSettings p) (os .mu) with
    | some _ => w.impl .mu = none ∧ w.impl .cv = none
    | none =>
      if (os .mu).malloc then (os .mu).init = .ok ∧ (os .cv).malloc ∧ (os .cv).init = .ok
      else w.impl .cv = none
  | .condVar | .barrier | .spinlock | .tls | .thread => True

theorem failsClean_withAttr {p : Platform} {k : Kind} {os : Field → Calls} {w : World} (plain : k.fields = [.impl])
    {settings : Calls → List Error} (body : init p os .pthreads k = Pthreads.initWithAttr settings .impl (os .impl)) :
    FailsClean p k os w ↔ CleanWithAttr settings .impl (os .impl) w := by
  have ran := (congrFun body w).trans (Pthreads.initWithAttr_eq settings .impl (os .impl) w)
  rw [failsClean_iff_of_init ran, plain]
  unfold CleanWithAttr
  cases failed : Pthreads.attrError settings (os .impl) with
  | some e => simp [Pthreads.attrError_ne failed, w.sameResources_refl]
  | none =>
    cases malloc : (os .impl).malloc with
    | false => simp [w.sameResources_reset]
    | true =>
      have leaked := World.not_sameResources_of_live (w.live_holding .impl (decide ((os .impl).init = .ok)))
      simp [leaked]

theorem failsClean_checked {p : Platform} {k : Kind} {os : Field → Calls} {w : World} (plain : k.fields = [.impl])
    (body : init p os .pthreads k = Pthreads.initChecked .impl (os .impl)) : FailsClean p k os w := by
  have ran := (congrFun body w).trans (Pthreads.initChecked_eq .impl (os .impl) w)
  rw [failsClean_iff_of_init ran, plain]
  cases malloc : (os .impl).malloc with
  | false => simp [w.sameResources_reset]
  | true =>
    by_cases succeeds : (os .impl).init = .ok
    · simp [succeeds]
    · simp [succeeds, World.SameResources, Heap.skip]

/-- The failures of the condition variable come when the mutex is there. -/
theorem failsClean_condVarPart {p : Platform} {os : Field → Calls} {w : World}
    (ran : init p os .pthreads .conditionMutex w =
      syncCheck (Pthreads.condVarInit .cv (os .cv)) (ret .ok) (w.holding .mu true)) :
    FailsClean p .conditionMutex os w ↔ (os .cv).malloc ∧ (os .cv).init = .ok := by
  have condVar := Pthreads.initChecked_eq .cv (os .cv) (w.holding .mu true)
  have ran' := ran.trans (syncCheck_eq condVar (ret .ok))
  cases malloc : (os .cv).malloc with
  | false =>
    simp only [malloc, Bool.false_eq_true, if_false, ne_eq, reduceCtorEq, not_false_eq_true, if_true] at ran'
    rw [failsClean_iff_of_init ran']
    refine iff_of_false (fun clean => ?_) (by simp)
    exact World.not_sameResources_of_live (w.live_holding .mu true) (clean (by simp)).1
  | true =>
    by_cases created : (os .cv).init = .ok
    · simp only [malloc, created, if_true, ne_eq, not_true_eq_false, if_false, ret] at ran'
      simp [failsClean_iff_of_init ran', created]
    · simp only [malloc, created, if_true, if_false, ne_eq, not_false_eq_true] at ran'
      rw [failsClean_iff_of_init ran']
      refine iff_of_false (fun clean => ?_) (by simp [created])
      exact World.not_sameResources_of_live (w.live_holding .mu true) (clean created).1

/-- The mutex is not given back when the condition variable fails, and the condition
variable is not touched when the mutex fails. -/
theorem failsClean_conditionMutex (p : Platform) (os : Field → Calls) (w : World) :
    FailsClean p .conditionMutex os w ↔ CleanOn p os w .conditionMutex := by
  have mutex := Pthreads.initWithAttr_eq (Pthreads.mutexSettings p) .mu (os .mu) w
  have ran : init p os .pthreads .conditionMutex w = _ :=
    syncCheck_eq mutex (syncCheck (Pthreads.condVarInit .cv (os .cv)) (ret .ok))
  unfold CleanOn
  cases failed : Pthreads.attrError (Pthreads.mutexSettings p) (os .mu) with
  | some e =>
    have stopped : e ≠ .ok := Pthreads.attrError_ne failed
    simp only [failed, stopped, ne_eq, not_false_eq_true, if_true] at ran
    simp [failsClean_iff_of_init ran, stopped, w.sameResources_refl, Kind.fields]
  | none =>
    cases malloc : (os .mu).malloc with
    | false =>
      simp only [failed, malloc, Bool.false_eq_true, if_false, ne_eq, reduceCtorEq, not_false_eq_true, if_true] at ran
      simp [failsClean_iff_of_init ran, w.sameResources_reset, Kind.fields, w.impl_reset_of_ne (show Field.cv ≠ .mu by decide)]
    | true =>
      by_cases created : (os .mu).init = .ok
      · simp only [failed, malloc, created, if_true, ne_eq, not_true_eq_false, if_false, decide_true] at ran
        simpa [created] using failsClean_condVarPart ran
      · have leaked := World.not_sameResources_of_live (w.live_holding .mu false)
        simp only [failed, malloc, if_true, created, ne_eq, not_false_eq_true, decide_false] at ran
        simp [failsClean_iff_of_init ran, created, leaked]

/-- Where a failed `init` on pthreads leaves nothing behind. -/
theorem failsClean_iff (p : Platform) (k : Kind) (os : Field → Calls) (w : World) :
    FailsClean p k os w ↔ CleanOn p os w k := by
  cases k with
  | mutex | recursiveMutex | sharedMutex => exact failsClean_withAttr rfl rfl
  | condVar | barrier | spinlock | tls => exact iff_of_true (failsClean_checked rfl rfl) trivial
  | thread =>
    refine iff_of_true ?_ trivial
    cases malloc : (os .impl).malloc with
    | false =>
      have ran : init p os .pthreads .thread w = some (.notEnoughMemory, w.reset .impl) := by
        simp [init, threadInit, malloc, World.allocate, World.reset]
      simp [failsClean_iff_of_init ran, Kind.fields, w.sameResources_reset]
    | true =>
      have ran : init p os .pthreads .thread w = some (.ok, w.holding .impl false) := by
        simp [init, threadInit, malloc, World.allocate_of_success, World.holding]
      simp [failsClean_iff_of_init ran]
  | semaphore =>
    have ran : init p os .pthreads .semaphore w = _ := Pthreads.semaphoreInit_eq p .impl (os .impl) w
    rw [failsClean_iff_of_init ran, CleanOn, ← Pthreads.semInitError_eq_ok_iff]
    cases malloc : (os .impl).malloc with
    | false => simp [w.sameResources_reset, Kind.fields]
    | true =>
      have leaked := World.not_sameResources_of_live (w.live_holding .impl (decide ((os .impl).init = .ok)))
      simp [leaked]
  | conditionMutex => exact failsClean_conditionMutex p os w

/-- When `pthread_mutex_init` fails the block of the mutex is lost. -/
theorem mutex_not_failsClean :
    ¬FailsClean .gnu .mutex (fun _ => { Calls.succeeding with init := .resourceUnavailableTryAgain }) .initial := by
  rintro ⟨e, w', ran, clean⟩
  obtain ⟨rfl, rfl⟩ := Prod.mk.inj (Option.some.inj ran)
  have heap := congrFun (clean (by decide)).resources.1 0
  exact absurd heap (by decide)

end Rbc.Sync
