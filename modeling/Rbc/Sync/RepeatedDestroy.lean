import Rbc.Basis.Machine
import Rbc.Sync.Destroy

namespace Rbc.Sync

/-- One of several calls of `destroy`. -/
def destroyStep (p : Platform) (b : Backend) (k : Kind) (os : Field → Calls) (w : World) : Option (World × Error) :=
  (destroy p os b k w).map Prod.swap

/-- The first call gives back what was taken from `w`; however many come `later`, each of
them finds the world as it is after the first, leaves it so and returns OK. -/
def DestroyedOnce (p : Platform) (b : Backend) (k : Kind) (w made : World) (first : Field → Calls)
    (later : List (Field → Calls)) : Prop :=
  ∃ e w', destroy p first b k made = some (e, w') ∧ w.SameResources w' ∧
    ∀ calls, calls <+: later →
      Machine.run (destroyStep p b k) calls w' = some (w', List.replicate calls.length .ok)

/-- `destroy` looks at the member `impl` before it uses it, and resets it. -/
def Kind.guarded : Backend → Kind → Bool
  | .win32, .mutex | .win32, .recursiveMutex | .win32, .barrier | .win32, .conditionMutex => false
  | _, _ => true

def World.Dangling (w : World) (f : Field) : Prop :=
  ∃ id, w.impl f = some id ∧ w.heap.get? id = none

/-- The members after `destroy`. -/
def Gone (w : World) : Backend → Kind → Prop
  | .win32, .mutex => w.Dangling .impl
  | .win32, .conditionMutex => w.impl .cv = none ∧ w.Dangling .mu
  | .win32, .spinlock => False
  | _, k => ∀ f ∈ k.fields, w.impl f = none

theorem World.destruct_of_dangling {w : World} {f : Field} (dangling : w.Dangling f) (succeeds : Bool) :
    w.destruct f succeeds = none := by
  obtain ⟨id, block, dead⟩ := dangling
  exact destruct_of_dead (by simp [block, dead]) succeeds

theorem destroy_made_of_plain (p : Platform) (os : Field → Calls) {b : Backend} {k : Kind}
    (plain : k ≠ .conditionMutex) (possible : b = .win32 → k ≠ .spinlock) (succeeds : nativesSucceed os b k)
    (w : World) :
    ∃ w', destroy p os b k (w.made b k) = some (destroyError p os b k, w') ∧ w.SameResources w' ∧ Gone w' b k := by
  rw [w.made_of_plain b plain]
  obtain ⟨w', called, impl, heap, natives, attrs⟩ := destroys_destroy p os b k plain possible
    (w.holding .impl (k.hasNative b)) w.heap.next (w.holds_holding ..)
  rw [World.get?_update_holding] at heap
  have nulled (resets : k.resets b) : ∀ f ∈ k.fields, w'.impl f = none := by
    intro f member
    obtain rfl : f = .impl := by simpa [Kind.fields_of_plain plain] using member
    simp [impl, resets]
  refine ⟨w', called, ⟨heap, by simp [natives, succeeds, World.holding], attrs⟩, ?_⟩
  cases b with
  | pthreads => exact nulled rfl
  | win32 =>
    cases k with
    | mutex =>
      have dead : w'.heap.get? w.heap.next = none := by rw [heap, w.heap.fresh _ (Nat.le_refl _)]
      exact ⟨w.heap.next, by simp [impl, Kind.resets, World.holding], dead⟩
    | conditionMutex => exact absurd rfl plain
    | spinlock => exact absurd rfl (possible rfl)
    | _ => exact nulled rfl

theorem destroy_made_conditionMutex (p : Platform) (os : Field → Calls) {b : Backend}
    (succeeds : nativesSucceed os b .conditionMutex) (w : World) :
    ∃ w', destroy p os b .conditionMutex (w.made b .conditionMutex) =
      some (destroyError p os b .conditionMutex, w') ∧ w.SameResources w' ∧ Gone w' b .conditionMutex := by
  obtain ⟨w', called, null, released⟩ := destroy_conditionMutex p os (w.holds_mu_made b) (World.holds_holding ..)
    (Nat.succ_ne_self w.heap.next)
  obtain ⟨mutex, heap, natives, attrs⟩ := released succeeds
  have cvFreed : Function.update (w.made b .conditionMutex).heap.get? (w.heap.next + 1) none =
      (w.holding .mu true).heap.get? := World.get?_update_holding ..
  have back : w'.heap.get? = w.heap.get? := heap.trans <| cvFreed ▸ w.get?_update_holding .mu true
  refine ⟨w', called, ⟨back, by simp [natives, World.made, World.holding], attrs⟩, ?_⟩
  cases b with
  | pthreads =>
    intro f member
    obtain rfl | rfl : f = .mu ∨ f = .cv := by simpa [Kind.fields] using member
    · exact mutex
    · exact null
  | win32 =>
    have dead : w'.heap.get? w.heap.next = none := by rw [back, w.heap.fresh _ (Nat.le_refl _)]
    exact ⟨null, w.heap.next, mutex, dead⟩

/-- The first `destroy` after a successful `init`. -/
theorem destroy_of_init {p : Platform} {os first : Field → Calls} {b : Backend} {k : Kind} {w w₁ : World}
    (ran : init p os b k w = some (.ok, w₁)) (native : NativeMade p os b k) (succeeds : nativesSucceed first b k) :
    ∃ w', destroy p first b k w₁ = some (destroyError p first b k, w') ∧ w.SameResources w' ∧ Gone w' b k := by
  rw [eq_made ran native]
  by_cases plain : k ≠ .conditionMutex
  · exact destroy_made_of_plain p first plain (not_spinlock_of_init ran) succeeds w
  · obtain rfl := not_not.mp plain
    exact destroy_made_conditionMutex p first succeeds w

/-- A guarded `destroy` has nothing to do on members that are NULL. -/
theorem destroy_again_of_guarded {p : Platform} {b : Backend} {k : Kind} {w : World} (gone : Gone w b k)
    (guarded : k.guarded b) (os : Field → Calls) : destroyStep p b k os w = some (w, .ok) := by
  have idle : destroy p os b k w = some (.ok, w) := by
    cases b with
    | pthreads => exact destroy_of_null p os (k := k) gone
    | win32 =>
      cases k with
      | mutex | recursiveMutex | barrier | conditionMutex => simp [Kind.guarded] at guarded
      | spinlock => exact gone.elim
      | sharedMutex | condVar | semaphore | tls | thread =>
        exact syncDestroy_of_null (gone .impl (by simp [Kind.fields])) _
  simp [destroyStep, idle]

/-- One that is not guarded uses the native object again. -/
theorem destroy_again_of_not_guarded {p : Platform} {b : Backend} {k : Kind} {w : World} (gone : Gone w b k)
    (unguarded : ¬k.guarded b) (os : Field → Calls) : destroyStep p b k os w = none := by
  have faults : destroy p os b k w = none := by
    cases b with
    | pthreads => simp [Kind.guarded] at unguarded
    | win32 =>
      cases k with
      | mutex =>
        obtain ⟨id, block, dead⟩ := gone
        have gone : w.Dangling .impl := ⟨id, block, dead⟩
        simp [destroy, Win32.mutexDestroy, block, World.destruct_of_dangling gone]
      | recursiveMutex | barrier =>
        have null : w.impl .impl = none := gone .impl (by simp [Kind.fields])
        have unusable := World.destruct_of_dead (w := w) (f := .impl) (by simp [null]) true
        simp [destroy, Win32.recursiveMutexDestroy, Win32.barrierDestroy, Win32.deleteFirst, unusable]
      | conditionMutex =>
        obtain ⟨null, id, block, dead⟩ := gone
        have gone : w.Dangling .mu := ⟨id, block, dead⟩
        have cv := syncDestroy_of_null null (ret .ok)
        simp [destroy, conditionMutexDestroy, Win32.condVarDestroy, syncCheck, cv, Win32.mutexDestroy, block,
          World.destruct_of_dangling gone]
      | _ => simp [Kind.guarded] at unguarded
  simp [destroyStep, faults]

theorem not_destroyedOnce {p : Platform} {b : Backend} {k : Kind} {w made w' : World} {first : Field → Calls}
    {e : Error} (called : destroy p first b k made = some (e, w')) (gone : Gone w' b k) (unguarded : ¬k.guarded b)
    (second : Field → Calls) (later : List (Field → Calls)) :
    ¬DestroyedOnce p b k w made first (second :: later) := by
  rintro ⟨e', w'', called', -, repeats⟩
  obtain ⟨-, rfl⟩ := Prod.mk.inj (Option.some.inj (called.symm.trans called'))
  have faults := destroy_again_of_not_guarded (p := p) gone unguarded second
  simpa [Machine.run, faults] using repeats [second] ⟨later, rfl⟩

/-- There is no native object to be released after an `init` that returned OK without it. -/
theorem destroy_of_not_native {p : Platform} {os : Field → Calls} {b : Backend} {k : Kind} {w made : World}
    (ran : init p os b k w = some (.ok, made)) (unmade : ¬NativeMade p os b k) {first : Field → Calls}
    (succeeds : nativesSucceed first b k) : destroy p first b k made = none := by
  cases b with
  | win32 => exact absurd trivial unmade
  | pthreads =>
    cases k with
    | semaphore =>
      obtain ⟨windows, failed⟩ := Classical.not_imp.mp unmade
      have alive : (!p.windows || decide ((os .impl).init = .ok)) = false := by simp [windows, failed]
      have held := Pthreads.makes_semaphore p .impl (os .impl) w made ran
      rw [alive] at held
      have unusable := World.destruct_of_not_live (held ▸ w.holds_holding .impl false) true
      have block : made.impl .impl = some w.heap.next := (held ▸ w.holds_holding .impl false).block
      have destroyed : (first .impl).destroy = .ok := of_decide_eq_true succeeds
      simp [destroy, Pthreads.semaphoreDestroy, block, destroyed, unusable]
    | _ => exact absurd trivial unmade

/-- Which objects can be destroyed more than once, and which at all. -/
theorem destroyedOnce_iff {p : Platform} {os first : Field → Calls} {b : Backend} {k : Kind} {w made : World}
    (ran : init p os b k w = some (.ok, made)) (succeeds : nativesSucceed first b k)
    (later : List (Field → Calls)) :
    DestroyedOnce p b k w made first later ↔ NativeMade p os b k ∧ (later = [] ∨ k.guarded b) := by
  by_cases native : NativeMade p os b k
  · obtain ⟨w', called, back, gone⟩ := destroy_of_init ran native succeeds
    constructor
    · intro once
      refine ⟨native, ?_⟩
      cases later with
      | nil => exact .inl rfl
      | cons second later =>
        by_contra unguarded
        exact not_destroyedOnce called gone (fun guarded => unguarded (.inr guarded)) second later once
    · rintro ⟨-, repeatable⟩
      refine ⟨_, w', called, back, fun calls begins => Machine.run_of_idle fun os member => ?_⟩
      obtain rfl | guarded := repeatable
      · simp [List.prefix_nil.mp begins] at member
      · exact destroy_again_of_guarded gone guarded os
  · have faults := destroy_of_not_native ran native succeeds
    constructor
    · rintro ⟨e, w', called, -, -⟩
      rw [faults] at called
      cases called
    · rintro ⟨made, -⟩
      exact absurd made native

/-- A condition mutex on pthreads is destroyed three times. -/
theorem destroyedOnce_conditionMutex :
    let os := fun _ => Calls.succeeding
    ∃ made, init .gnu os .pthreads .conditionMutex .initial = some (.ok, made) ∧
      DestroyedOnce .gnu .pthreads .conditionMutex .initial made os [os, os] := by
  intro os
  have ran : init .gnu os .pthreads .conditionMutex .initial = some (.ok, _) := rfl
  exact ⟨_, ran, (destroyedOnce_iff ran rfl [os, os]).mpr ⟨trivial, .inr rfl⟩⟩

/-- The second `destroy` of a mutex on Win32 deletes the critical section in the block
that the first one freed. -/
theorem mutex_not_destroyedOnce :
    let os := fun _ => Calls.succeeding
    nativesSucceed os .win32 .mutex ∧ ∃ made, init .mingw os .win32 .mutex .initial = some (.ok, made) ∧
      ¬DestroyedOnce .mingw .win32 .mutex .initial made os [os] := by
  intro os
  have ran : init .mingw os .win32 .mutex .initial = some (.ok, _) := rfl
  have succeeds : nativesSucceed os .win32 .mutex := rfl
  obtain ⟨w', called, -, gone⟩ := destroy_of_init ran trivial succeeds
  exact ⟨succeeds, _, ran, not_destroyedOnce called gone (by decide) os []⟩

end Rbc.Sync
