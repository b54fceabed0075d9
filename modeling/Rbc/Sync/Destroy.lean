import Rbc.Sync.FailedInit

namespace Rbc.Sync

namespace World

/-- The member `f` points to the live block `id`, with a native object or without one. -/
structure Holds (w : World) (f : Field) (native : Bool) (id : Nat) : Prop where
  block : w.impl f = some id
  live : w.heap.get? id = some native

variable {w : World} {f : Field} {id : Nat} {native : Bool}

theorem holds_holding (w : World) (f : Field) (native : Bool) : (w.holding f native).Holds f native w.heap.next :=
  ⟨Function.update_self .., w.live_holding f native⟩

/-- The block that was allocated is gone again. -/
theorem get?_update_holding (w : World) (f : Field) (native : Bool) :
    Function.update (w.holding f native).heap.get? w.heap.next none = w.heap.get? := by
  rw [holding, Heap.get?_alloc, Function.update_idem, ← w.heap.fresh _ (Nat.le_refl _), Function.update_eq_self]

theorem Holds.destruct (holds : w.Holds f true id) (succeeds : Bool) :
    ∃ w', w.destruct f succeeds = some w' ∧ w'.impl = w.impl ∧
      w'.heap.get? = Function.update w.heap.get? id (some !succeeds) ∧
      w'.natives = w.natives - succeeds.toNat ∧ w'.attrs = w.attrs := by
  obtain ⟨block, live⟩ := holds
  cases succeeds with
  | false =>
    refine ⟨w, by simp [World.destruct, block, live], rfl, ?_, rfl, rfl⟩
    rw [Bool.not_false, ← live, Function.update_eq_self]
  | true =>
    obtain ⟨heap, stored, changed⟩ := Heap.put_of_live live false
    exact ⟨{ w with heap := heap, natives := w.natives - 1 }, by simp [World.destruct, block, live, stored], rfl, changed,
      rfl, rfl⟩

theorem destruct_of_dead (dead : (w.impl f).bind w.heap.get? = none) (succeeds : Bool) :
    w.destruct f succeeds = none := by
  cases block : w.impl f with
  | none => simp [destruct, block]
  | some id =>
    rw [block, Option.bind_some] at dead
    simp [destruct, block, dead]

theorem destruct_of_not_live (holds : w.Holds f false id) (succeeds : Bool) : w.destruct f succeeds = none := by
  simp [destruct, holds.block, holds.live]

theorem Holds.free (holds : w.Holds f native id) :
    ∃ w', w.free f = some w' ∧ w'.impl = w.impl ∧ w'.heap.get? = Function.update w.heap.get? id none ∧
      w'.natives = w.natives ∧ w'.attrs = w.attrs := by
  obtain ⟨heap, freed, changed⟩ := Heap.free_of_live holds.live
  exact ⟨{ w with heap := heap }, by simp [World.free, holds.block, Heap.release, freed], rfl, changed, rfl, rfl⟩

end World

/-- A `destroy` function on a part of an object with its block: the block is freed, the
native object is released if there is one and its release succeeds, and the member
`impl` is reset or not. -/
def Destroys (call : Call) (f : Field) (native succeeds resets : Bool) (e : Error) : Prop :=
  ∀ (w : World) (id : Nat), w.Holds f native id →
    ∃ w', call w = some (e, w') ∧ w'.impl = (if resets then Function.update w.impl f none else w.impl) ∧
      w'.heap.get? = Function.update w.heap.get? id none ∧
      w'.natives = w.natives - (native && succeeds).toNat ∧ w'.attrs = w.attrs

/-- The macro frees the block and resets the member whatever `dtor` returns. -/
theorem destroys_syncDestroy {f : Field} {native succeeds : Bool} {e : Error} {dtor : Call}
    (released : ∀ (w : World) (id : Nat), w.Holds f native id →
      ∃ w' b, dtor w = some (e, w') ∧ w'.impl = w.impl ∧ w'.heap.get? = Function.update w.heap.get? id (some b) ∧
        w'.natives = w.natives - (native && succeeds).toNat ∧ w'.attrs = w.attrs) :
    Destroys (syncDestroy f dtor) f native succeeds true e := by
  intro w id holds
  obtain ⟨w₁, b, called, impl, heap, natives, attrs⟩ := released w id holds
  have holds₁ : w₁.Holds f b id := ⟨impl ▸ holds.block, by rw [heap, Function.update_self]⟩
  obtain ⟨w₂, freed, impl', heap', natives', attrs'⟩ := holds₁.free
  refine ⟨w₂.reset f, by simp [syncDestroy, holds.block, called, freed], ?_, ?_, natives'.trans natives, attrs'.trans attrs⟩
  · simp [World.reset, impl', impl]
  · show w₂.heap.get? = _
    rw [heap', heap, Function.update_idem]

theorem destroys_ret (f : Field) (succeeds : Bool) : Destroys (syncDestroy f (ret .ok)) f false succeeds true .ok := by
  refine destroys_syncDestroy fun w id holds => ⟨w, false, rfl, rfl, ?_, by simp, rfl⟩
  rw [← holds.live, Function.update_eq_self]

namespace Pthreads

theorem destroys_native (f : Field) (os : Calls) :
    Destroys (destroyNative f os) f true (os.destroy = .ok) true os.destroy := by
  refine destroys_syncDestroy fun w id holds => ?_
  obtain ⟨w', called, impl, heap, natives, attrs⟩ := holds.destruct (os.destroy = .ok)
  exact ⟨w', _, by simp [nativeDestroy, called], impl, heap, by simpa using natives, attrs⟩

theorem destroys_semaphore (f : Field) (os : Calls) :
    Destroys (semaphoreDestroy f os) f true (os.destroy = .ok) true os.destroy := by
  intro w id holds
  obtain ⟨w', destroyed, rest⟩ := destroys_native f os w id holds
  refine ⟨w', ?_, rest⟩
  rw [← destroyed]
  have kept : (if os.destroy ≠ .ok then os.destroy else .ok) = os.destroy := by
    split <;> simp_all
  simp [semaphoreDestroy, destroyNative, syncDestroy, nativeDestroy, holds.block, kept, Option.bind_assoc]

end Pthreads

namespace Win32

theorem destroys_close (p : Platform) (f : Field) (os : Calls) :
    Destroys (syncDestroy f (close p f os)) f true (os.closed ≠ 0) true (p.ofInt os.closed) := by
  refine destroys_syncDestroy fun w id holds => ?_
  obtain ⟨w', called, impl, heap, natives, attrs⟩ := holds.destruct (os.closed ≠ 0)
  refine ⟨w', _, ?_, impl, heap, by simpa using natives, attrs⟩
  show (w.destruct f (os.closed ≠ 0)).bind _ = _
  rw [called]
  rfl

theorem destroys_deleteFirst (f : Field) : Destroys (deleteFirst f) f true true true .ok := by
  intro w id holds
  obtain ⟨w₁, called, impl, heap, natives, attrs⟩ := holds.destruct true
  have holds₁ : w₁.Holds f false id := ⟨impl ▸ holds.block, by rw [heap, Function.update_self]; rfl⟩
  obtain ⟨w', destroyed, impl', heap', natives', attrs'⟩ := destroys_ret f false w₁ id holds₁
  refine ⟨w', by simp [deleteFirst, called, destroyed], ?_, ?_, ?_, attrs'.trans attrs⟩
  · simpa [impl] using impl'
  · rw [heap', heap, Function.update_idem]
  · simpa [natives] using natives'

/-- The member still points to the block that was freed. -/
theorem destroys_mutex (f : Field) : Destroys (mutexDestroy f) f true true false .ok := by
  intro w id holds
  obtain ⟨w₁, called, impl, heap, natives, attrs⟩ := holds.destruct true
  have holds₁ : w₁.Holds f false id := ⟨impl ▸ holds.block, by rw [heap, Function.update_self]; rfl⟩
  obtain ⟨w', freed, impl', heap', natives', attrs'⟩ := holds₁.free
  refine ⟨w', by simp [mutexDestroy, holds.block, called, freed], ?_, ?_, ?_, attrs'.trans attrs⟩
  · simpa [impl] using impl'
  · rw [heap', heap, Function.update_idem]
  · simpa [natives] using natives'

end Win32

/-- An `init` function that succeeds leaves a block with a native object or without one. -/
def Makes (call : Call) (f : Field) (native : Bool) : Prop :=
  ∀ w w', call w = some (.ok, w') → w' = w.holding f native

theorem makes_syncInit {f : Field} {os : Calls} {rest : Call} {native : Bool}
    (made : ∀ w w' : World, rest (w.holding f false) = some (.ok, w') → w' = w.holding f native) :
    Makes (syncInit f os rest) f native := by
  intro w w' ran
  rw [syncInit_eq] at ran
  cases malloc : os.malloc with
  | false => simp [malloc] at ran
  | true => exact made w w' (by simpa [malloc] using ran)

namespace Pthreads

theorem makes_initWithAttr (settings : Calls → List Error) (f : Field) (os : Calls) :
    Makes (initWithAttr settings f os) f true := by
  intro w w' ran
  rw [initWithAttr_eq, Option.some.injEq] at ran
  cases failed : attrError settings os with
  | some e =>
    simp only [failed, Prod.mk.injEq] at ran
    exact absurd ran.1 (attrError_ne failed)
  | none =>
    cases malloc : os.malloc with
    | false => simp [failed, malloc] at ran
    | true =>
      simp only [failed, malloc, if_true, Prod.mk.injEq] at ran
      rw [← ran.2, ran.1]
      rfl

theorem makes_initChecked (f : Field) (os : Calls) : Makes (initChecked f os) f true := by
  intro w w' ran
  rw [initChecked_eq, Option.some.injEq] at ran
  cases malloc : os.malloc with
  | false => simp [malloc] at ran
  | true =>
    by_cases succeeds : os.init = .ok
    · simpa [malloc, succeeds, eq_comm] using ran
    · simp [malloc, succeeds] at ran

/-- On Windows the result of `init` does not tell whether `sem_init` succeeded. -/
theorem makes_semaphore (p : Platform) (f : Field) (os : Calls) :
    Makes (semaphoreInit p f os) f (!p.windows || os.init = .ok) := by
  refine makes_syncInit fun w w' ran => ?_
  simp only [World.construct_holding, Option.bind_eq_bind, Option.bind_some, Option.pure_def, Option.some.injEq,
    Prod.mk.injEq] at ran
  obtain ⟨fine, rfl⟩ := ran
  cases windows : p.windows with
  | true => rfl
  | false =>
    have succeeds := (semInitError_eq_ok_iff p os).mp fine
    rw [windows, if_neg Bool.false_ne_true] at succeeds
    rw [succeeds]
    rfl

end Pthreads

namespace Win32

theorem makes_criticalSection (f : Field) (os : Calls) : Makes (criticalSectionInit f os) f true :=
  makes_syncInit fun w w' ran => by simpa [World.construct_holding, eq_comm] using ran

theorem makes_initCreated (f : Field) (os : Calls) : Makes (initCreated f os) f true := by
  refine makes_syncInit fun w w' ran => ?_
  cases created : os.created with
  | false => simp [World.construct_holding, created, Error.fromGetLastError_ne os.isError] at ran
  | true => simpa [World.construct_holding, created, eq_comm] using ran

end Win32

theorem makes_ret (f : Field) (os : Calls) : Makes (syncInit f os (ret .ok)) f false :=
  makes_syncInit fun w w' ran => by simpa [ret, eq_comm] using ran

theorem makes_thread (f : Field) (os : Calls) : Makes (threadInit f os) f false := by
  intro w w' ran
  cases malloc : os.malloc with
  | false => simp [threadInit, malloc, World.allocate_of_failure] at ran
  | true =>
    have set : (w.holding f false).impl f ≠ none := by simp [World.holding]
    simpa [threadInit, malloc, World.allocate_of_success, set, eq_comm] using ran

theorem makes_conditionMutex {mutexInit condVarInit : Call} {mu cv : Bool} (first : Makes mutexInit .mu mu)
    (second : Makes condVarInit .cv cv) {w w' : World}
    (ran : conditionMutexInit mutexInit condVarInit w = some (.ok, w')) : w' = (w.holding .mu mu).holding .cv cv := by
  cases called : mutexInit w with
  | none => simp [conditionMutexInit, syncCheck, called] at ran
  | some r =>
    rw [conditionMutexInit, syncCheck_eq called] at ran
    by_cases succeeds : r.1 = .ok
    · have made : r.2 = w.holding .mu mu := first w r.2 (by rw [called, ← succeeds])
      rw [if_neg (by simpa using succeeds), made] at ran
      cases called' : condVarInit (w.holding .mu mu) with
      | none => simp [syncCheck, called'] at ran
      | some r' =>
        rw [syncCheck_eq called'] at ran
        by_cases succeeds' : r'.1 = .ok
        · have made' := second _ r'.2 (by rw [called', ← succeeds'])
          simpa [succeeds', ret, made', eq_comm] using ran
        · rw [if_pos (by simpa using succeeds'), Option.some.injEq] at ran
          exact absurd (congrArg Prod.fst ran) succeeds'
    · rw [if_pos (by simpa using succeeds), Option.some.injEq] at ran
      exact absurd (congrArg Prod.fst ran) succeeds

/-- The block of an object of this kind holds a native object that has to be released. -/
def Kind.hasNative : Backend → Kind → Bool
  | _, .thread | .win32, .sharedMutex | .win32, .condVar => false
  | _, _ => true

/-- What a successful `init` makes of the world. -/
def World.made (w : World) (b : Backend) : Kind → World
  | .conditionMutex => (w.holding .mu true).holding .cv (Kind.condVar.hasNative b)
  | k => w.holding .impl (k.hasNative b)

/-- The native object was made. Only for a semaphore of pthreads on Windows `init` may return OK
although it was not. -/
def NativeMade (p : Platform) (os : Field → Calls) : Backend → Kind → Prop
  | .pthreads, .semaphore => p.windows = true → (os .impl).init = .ok
  | _, _ => True

theorem eq_made {p : Platform} {os : Field → Calls} {b : Backend} {k : Kind} {w w' : World}
    (ran : init p os b k w = some (.ok, w')) (native : NativeMade p os b k) : w' = w.made b k := by
  cases b with
  | pthreads =>
    cases k with
    | mutex | recursiveMutex | sharedMutex => exact Pthreads.makes_initWithAttr _ _ _ _ _ ran
    | condVar | barrier | spinlock | tls => exact Pthreads.makes_initChecked _ _ _ _ ran
    | semaphore =>
      have made := Pthreads.makes_semaphore p .impl (os .impl) w w' ran
      have alive : (!p.windows || decide ((os .impl).init = .ok)) = true := by simpa [NativeMade, imp_iff_not_or] using native
      rwa [alive] at made
    | thread => exact makes_thread _ _ _ _ ran
    | conditionMutex =>
      exact makes_conditionMutex (Pthreads.makes_initWithAttr _ _ _) (Pthreads.makes_initChecked _ _) ran
  | win32 =>
    cases k with
    | mutex | recursiveMutex => exact Win32.makes_criticalSection _ _ _ _ ran
    | sharedMutex | condVar => exact makes_ret _ _ _ _ ran
    | barrier | semaphore | tls => exact Win32.makes_initCreated _ _ _ _ ran
    | spinlock => simp [init, Win32.spinlockInit, ret] at ran
    | thread => exact makes_thread _ _ _ _ ran
    | conditionMutex => exact makes_conditionMutex (Win32.makes_criticalSection _ _) (makes_ret _ _) ran

theorem not_spinlock_of_init {p : Platform} {os : Field → Calls} {b : Backend} {k : Kind} {w w₁ : World}
    (ran : init p os b k w = some (.ok, w₁)) : b = .win32 → k ≠ .spinlock := by
  rintro rfl rfl
  simp [init, Win32.spinlockInit, ret] at ran

theorem World.made_of_plain (w : World) (b : Backend) {k : Kind} (plain : k ≠ .conditionMutex) :
    w.made b k = w.holding .impl (k.hasNative b) := by
  cases k with
  | conditionMutex => exact absurd rfl plain
  | _ => rfl

/-- The mutex of a condition mutex is still there when the condition variable is made. -/
theorem World.holds_mu_made (w : World) (b : Backend) :
    (w.made b .conditionMutex).Holds .mu true w.heap.next :=
  ⟨by simp [made, holding], Heap.get?_alloc_of_live (w.live_holding .mu true)⟩

/-- The object is initialised: its members point to live blocks of their own with their
native objects. There is no spinlock on Win32. -/
def Ready (w : World) : Backend → Kind → Prop
  | .win32, .spinlock => False
  | b, .conditionMutex =>
    ∃ mu cv, w.Holds .mu true mu ∧ w.Holds .cv (Kind.condVar.hasNative b) cv ∧ cv ≠ mu
  | b, k => ∃ id, w.Holds .impl (k.hasNative b) id

theorem ready_of_plain {w : World} {b : Backend} {k : Kind} (plain : k ≠ .conditionMutex) :
    Ready w b k ↔ (b = .win32 → k ≠ .spinlock) ∧ ∃ id, w.Holds .impl (k.hasNative b) id := by
  cases b <;> cases k <;> simp_all [Ready]

theorem ready_conditionMutex {w : World} {b : Backend} :
    Ready w b .conditionMutex ↔ ∃ mu cv, w.Holds .mu true mu ∧ w.Holds .cv (Kind.condVar.hasNative b) cv ∧ cv ≠ mu := by
  cases b <;> rfl

/-- A successful `init` makes an object that can be destroyed. -/
theorem ready_of_init {p : Platform} {os : Field → Calls} {b : Backend} {k : Kind} {w made : World}
    (ran : init p os b k w = some (.ok, made)) (native : NativeMade p os b k) : Ready made b k := by
  rw [eq_made ran native]
  by_cases plain : k ≠ .conditionMutex
  · rw [ready_of_plain plain, w.made_of_plain b plain]
    exact ⟨not_spinlock_of_init ran, w.heap.next, w.holds_holding .impl _⟩
  · obtain rfl := not_not.mp plain
    exact ready_conditionMutex.mpr
      ⟨w.heap.next, w.heap.next + 1, w.holds_mu_made b, World.holds_holding .., Nat.succ_ne_self w.heap.next⟩

/-- All native calls of `destroy` succeed. -/
def nativesSucceed (os : Field → Calls) : Backend → Kind → Bool
  | .pthreads, .thread => true
  | .pthreads, .conditionMutex => (os .cv).destroy = .ok ∧ (os .mu).destroy = .ok
  | .pthreads, _ => (os .impl).destroy = .ok
  | .win32, .semaphore | .win32, .tls => (os .impl).closed ≠ 0
  | .win32, _ => true

/-- What `destroy` of an initialised object returns. -/
def destroyError (p : Platform) (os : Field → Calls) : Backend → Kind → Error
  | .pthreads, .thread => .ok
  | .pthreads, .conditionMutex => if (os .cv).destroy ≠ .ok then (os .cv).destroy else (os .mu).destroy
  | .pthreads, _ => (os .impl).destroy
  | .win32, .semaphore | .win32, .tls => p.ofInt (os .impl).closed
  | .win32, _ => .ok

/-- `destroy` resets the member `impl`, or `mu.impl` of a condition mutex. -/
def Kind.resets : Backend → Kind → Bool
  | .win32, .mutex | .win32, .conditionMutex => false
  | _, _ => true

theorem Kind.fields_of_plain {k : Kind} (plain : k ≠ .conditionMutex) : k.fields = [.impl] := by
  cases k with
  | conditionMutex => exact absurd rfl plain
  | _ => rfl

theorem destroys_destroy (p : Platform) (os : Field → Calls) (b : Backend) (k : Kind) (plain : k ≠ .conditionMutex)
    (possible : b = .win32 → k ≠ .spinlock) :
    Destroys (destroy p os b k) .impl (k.hasNative b) (nativesSucceed os b k) (k.resets b)
      (destroyError p os b k) := by
  cases b with
  | pthreads =>
    cases k with
    | mutex | recursiveMutex | sharedMutex | condVar | barrier | spinlock | tls =>
      exact Pthreads.destroys_native .impl (os .impl)
    | semaphore => exact Pthreads.destroys_semaphore .impl (os .impl)
    | thread => exact destroys_ret .impl true
    | conditionMutex => exact absurd rfl plain
  | win32 =>
    cases k with
    | mutex => exact Win32.destroys_mutex .impl
    | recursiveMutex | barrier => exact Win32.destroys_deleteFirst .impl
    | sharedMutex | condVar | thread => exact destroys_ret .impl true
    | semaphore | tls => exact Win32.destroys_close p .impl (os .impl)
    | spinlock => exact absurd rfl (possible rfl)
    | conditionMutex => exact absurd rfl plain

/-- `destroy` of the two parts of a condition mutex. -/
theorem conditionMutexDestroy_ready {cvDestroy muDestroy : Call} {native cvSucceeds muSucceeds resets : Bool}
    {e e' : Error} (first : Destroys cvDestroy .cv native cvSucceeds true e)
    (second : Destroys muDestroy .mu true muSucceeds resets e') {w : World} {mu cv : Nat}
    (muHolds : w.Holds .mu true mu) (cvHolds : w.Holds .cv native cv) (apart : cv ≠ mu) :
    ∃ w', conditionMutexDestroy cvDestroy muDestroy w = some (if e ≠ .ok then e else e', w') ∧ w'.impl .cv = none ∧
      (e = .ok →
        w'.impl .mu = (if resets then none else some mu) ∧
        w'.heap.get? = Function.update (Function.update w.heap.get? cv none) mu none ∧
        w'.natives = w.natives - (native && cvSucceeds).toNat - muSucceeds.toNat ∧ w'.attrs = w.attrs) := by
  obtain ⟨w₁, called, impl, heap, natives, attrs⟩ := first w cv cvHolds
  rw [if_pos rfl] at impl
  by_cases stopped : e ≠ .ok
  · refine ⟨w₁, ?_, by simp [impl], fun succeeds => absurd succeeds stopped⟩
    rw [conditionMutexDestroy, syncCheck_eq called, if_pos stopped, if_pos stopped]
  · have holds₁ : w₁.Holds .mu true mu :=
      ⟨by simp [impl, muHolds.block], by rw [heap, Function.update_of_ne apart.symm, muHolds.live]⟩
    obtain ⟨w₂, called', impl', heap', natives', attrs'⟩ := second w₁ mu holds₁
    refine ⟨w₂, ?_, ?_, fun _ => ⟨?_, by rw [heap', heap], by rw [natives', natives]; rfl, attrs'.trans attrs⟩⟩
    · rw [conditionMutexDestroy, syncCheck_eq called, if_neg stopped, if_neg stopped, called']
    · rw [impl']
      cases resets <;> simp [impl]
    · rw [impl']
      cases resets <;> simp [holds₁.block]

/-- `destroy` of a condition mutex frees the block of `cv` before it is known whether the
mutex can be destroyed. -/
theorem destroy_conditionMutex (p : Platform) (os : Field → Calls) {b : Backend} {w : World} {mu cv : Nat}
    (muHolds : w.Holds .mu true mu) (cvHolds : w.Holds .cv (Kind.condVar.hasNative b) cv) (apart : cv ≠ mu) :
    ∃ w', destroy p os b .conditionMutex w = some (destroyError p os b .conditionMutex, w') ∧ w'.impl .cv = none ∧
      (nativesSucceed os b .conditionMutex →
        w'.impl .mu = (if Kind.conditionMutex.resets b then none else some mu) ∧
        w'.heap.get? = Function.update (Function.update w.heap.get? cv none) mu none ∧
        w'.natives = w.natives - (Kind.condVar.hasNative b).toNat - 1 ∧ w'.attrs = w.attrs) := by
  cases b with
  | pthreads =>
    obtain ⟨w', called, null, released⟩ := conditionMutexDestroy_ready (Pthreads.destroys_native .cv (os .cv))
      (Pthreads.destroys_native .mu (os .mu)) muHolds cvHolds apart
    refine ⟨w', called, null, fun succeeds => ?_⟩
    obtain ⟨cvSucceeds, muSucceeds⟩ := of_decide_eq_true succeeds
    simpa [cvSucceeds, muSucceeds, Kind.resets, Kind.hasNative] using released cvSucceeds
  | win32 =>
    obtain ⟨w', called, null, released⟩ := conditionMutexDestroy_ready (destroys_ret .cv true)
      (Win32.destroys_mutex .mu) muHolds cvHolds apart
    exact ⟨w', called, null, fun _ => released rfl⟩

end Rbc.Sync
