import Rbc.Sync.Destroy

namespace Rbc.Sync

/-- `destroy` reports whether the native calls succeeded, and on an error the object is
left as it was. -/
def RespectsFailure (p : Platform) (b : Backend) (k : Kind) (os : Field → Calls) (w : World) : Prop :=
  ∃ e w', destroy p os b k w = some (e, w') ∧ (e = .ok ↔ nativesSucceed os b k) ∧
    (e ≠ .ok → w'.impl = w.impl ∧ w.SameResources w')

/-- `destroy` returns the BOOL of the native call, which is not zero on success. -/
def Kind.returnsBool : Backend → Kind → Bool
  | .win32, .semaphore | .win32, .tls => true
  | _, _ => false

theorem destroyError_eq_ok (p : Platform) (os : Field → Calls) (b : Backend) (k : Kind) :
    destroyError p os b k = .ok ↔ (nativesSucceed os b k ↔ ¬k.returnsBool b) := by
  cases b with
  | pthreads =>
    cases k with
    | conditionMutex => by_cases cv : (os .cv).destroy = .ok <;> simp [destroyError, nativesSucceed, Kind.returnsBool, cv]
    | _ => simp [destroyError, nativesSucceed, Kind.returnsBool]
  | win32 =>
    cases k with
    | semaphore | tls => simp [destroyError, nativesSucceed, Kind.returnsBool, p.ofInt_eq_ok]
    | _ => simp [destroyError, nativesSucceed, Kind.returnsBool]

/-- The block of a part is freed whatever the native calls return. -/
theorem destroy_of_ready (p : Platform) (os : Field → Calls) {b : Backend} {k : Kind} {w : World}
    (ready : Ready w b k) :
    ∃ w', destroy p os b k w = some (destroyError p os b k, w') ∧ ¬(w'.impl = w.impl ∧ w.SameResources w') := by
  by_cases plain : k ≠ .conditionMutex
  · obtain ⟨possible, id, holds⟩ := (ready_of_plain plain).mp ready
    obtain ⟨w', called, -, heap, -, -⟩ := destroys_destroy p os b k plain possible w id holds
    refine ⟨w', called, fun unchanged => ?_⟩
    have freed := congrFun (heap.symm.trans unchanged.2.1) id
    simp [holds.live] at freed
  · obtain rfl := not_not.mp plain
    obtain ⟨mu, cv, muHolds, cvHolds, apart⟩ := ready_conditionMutex.mp ready
    obtain ⟨w', called, null, -⟩ := destroy_conditionMutex p os muHolds cvHolds apart
    refine ⟨w', called, fun unchanged => ?_⟩
    simp [unchanged.1, cvHolds.block] at null

/-- Where `destroy` reports and respects what the native calls return: nowhere if one of
them fails, since the block is freed all the same. -/
theorem respectsFailure_iff {p : Platform} {b : Backend} {k : Kind} {w : World} (ready : Ready w b k)
    (os : Field → Calls) :
    RespectsFailure p b k os w ↔ nativesSucceed os b k ∧ ¬k.returnsBool b := by
  obtain ⟨w', called, changed⟩ := destroy_of_ready p os ready
  have result := destroyError_eq_ok p os b k
  constructor
  · rintro ⟨e, w'', called', reported, kept⟩
    obtain ⟨rfl, rfl⟩ := Prod.mk.inj (Option.some.inj (called.symm.trans called'))
    have succeeds : destroyError p os b k = .ok := by
      by_contra failed
      exact changed (kept failed)
    have released := reported.mp succeeds
    exact ⟨released, (result.mp succeeds).mp released⟩
  · rintro ⟨released, direct⟩
    have succeeds : destroyError p os b k = .ok := result.mpr (iff_of_true released direct)
    exact ⟨_, w', called, iff_of_true succeeds released, fun failed => absurd succeeds failed⟩

/-- A mutex on pthreads that was made by its `init`. -/
theorem respectsFailure_mutex :
    let os := fun _ => Calls.succeeding
    ∃ made, init .gnu os .pthreads .mutex .initial = some (.ok, made) ∧
      RespectsFailure .gnu .pthreads .mutex os made := by
  intro os
  have ran : init .gnu os .pthreads .mutex .initial = some (.ok, _) := rfl
  exact ⟨_, ran, (respectsFailure_iff (ready_of_init ran trivial) os).mpr (by decide)⟩

/-- A mutex that is still locked loses its block. -/
theorem mutex_not_respectsFailure :
    let locked := fun _ => { Calls.succeeding with destroy := .deviceOrResourceBusy }
    ∃ made, init .gnu locked .pthreads .mutex .initial = some (.ok, made) ∧
      ¬RespectsFailure .gnu .pthreads .mutex locked made := by
  intro locked
  have ran : init .gnu locked .pthreads .mutex .initial = some (.ok, _) := rfl
  refine ⟨_, ran, ?_⟩
  obtain ⟨w', called, changed⟩ := destroy_of_ready .gnu locked (ready_of_init ran trivial)
  rintro ⟨e, w'', called', -, kept⟩
  obtain ⟨rfl, rfl⟩ := Prod.mk.inj (Option.some.inj (called.symm.trans called'))
  exact changed (kept (by decide))

end Rbc.Sync
