import Rbc.Basis.Wrap
import Rbc.Sync.Thread
import Rbc.Time.Order
import Rbc.Time.Overflow

namespace Rbc.Thread.Win32

open Duration Saturation

/-- A timeout as the `DWORD` that Win32 counts milliseconds in. -/
def milliseconds (timeout : Duration) : UInt32 := timeout.toMs.toUInt64.toUInt32

/-- `INFINITE`. -/
def infinite : UInt32 := 0xFFFFFFFF

/-- `rbc_thread_sleep_for` gives its result and what it passes to `Sleep`. -/
def sleepFor (timeout : Duration) : Error × Option UInt32 :=
  if timeout.isNeg then (.invalidArgument, none) else (.ok, some (milliseconds timeout))

/-- What `WaitForSingleObject` returns and what it sets the last error to if it fails; the exit
code from `GetExitCodeThread`, or else the last error that it sets. -/
structure WaitCalls where
  wait : WaitResult
  waitError : LastError
  exitCode : Option UInt32
  exitCodeError : LastError

/-- The result of a function that waits, what it passed to `WaitForSingleObject` with the answer to it,
and what it stored in `exit_code`. -/
structure Waited where
  error : Error
  call : Option (UInt32 × WaitResult)
  exitCode : Option Int32

/-- The last error after the wait; what was left by earlier calls stays if the wait does not fail. -/
def WaitCalls.lastError (os : WaitCalls) (left : LastError) : LastError :=
  if os.wait = .failed then os.waitError else left

/-- `rbc_thread_wait`. -/
def wait (ms : UInt32) (wanted : Bool) (os : WaitCalls) (left : LastError) : Waited :=
  if os.wait ≠ .object0 then ⟨.fromGetLastError (os.lastError left), some (ms, os.wait), none⟩
  else if wanted then
    match os.exitCode with
    | none => ⟨.fromGetLastError os.exitCodeError, some (ms, os.wait), none⟩
    | some ret => ⟨.ok, some (ms, os.wait), some ret.toInt32⟩
  else ⟨.ok, some (ms, os.wait), none⟩

def joinWithCode (wanted : Bool) (os : WaitCalls) (left : LastError) : Waited := wait infinite wanted os left

def waitForWithCode (timeout : Duration) (wanted : Bool) (os : WaitCalls) (left : LastError) : Waited :=
  if timeout.isNeg then ⟨.invalidArgument, none, none⟩ else wait (milliseconds timeout) wanted os left

def waitUntilWithCode (deadline now : Time) (wanted : Bool) (os : WaitCalls) (left : LastError) : Waited :=
  waitForWithCode (deadline.sub now) wanted os left

/-- The calls of a join of the thread machine, if the thread has ended with `ret`. -/
def WaitCalls.ofJoin (os : JoinCalls) (ret : UInt32) : WaitCalls where
  wait := os.wait
  waitError := os.lastError
  exitCode := if os.gotExitCode then some ret else none
  exitCodeError := os.lastError

/-- Of a thread that has ended the thread machine says what the function computes from those calls. -/
theorem joinWithCode_eq {t : Target} {s : State t .win32} {ret : Exit t .win32} (exit : s.exit = some ret)
    (wanted : Bool) (os : JoinCalls) :
    s.joinWithCode wanted os =
      some ((joinWithCode wanted (.ofJoin os ret) os.lastError).error,
        (joinWithCode wanted (.ofJoin os ret) os.lastError).exitCode) := by
  cases answer : os.wait with
  | object0 =>
    cases wanted with
    | false => simp [State.joinWithCode, joinWithCode, wait, WaitCalls.ofJoin, answer, exit]
    | true =>
      cases got : os.gotExitCode <;>
        simp [State.joinWithCode, joinWithCode, wait, WaitCalls.ofJoin, answer, exit, got, Exit.toInt]
  | _ => simp [State.joinWithCode, joinWithCode, wait, WaitCalls.ofJoin, WaitCalls.lastError, answer]

variable {t1 t2 timeout : Duration} {ms : UInt32} {wanted : Bool} {os : WaitCalls} {left : LastError}

/-- The milliseconds of a duration that is not negative, rounded down. -/
def whole (d : Duration) : ℕ := (d.total / 4000000).toNat

/-- The number of milliseconds that `rbc_thread_sleep_for` and `rbc_thread_wait_for_with_code` pass on. -/
structure Passes (timeout : Duration) (ms : UInt32) : Prop where
  slept : (sleepFor timeout).2 = some ms
  waited : ∀ wanted os left, (waitForWithCode timeout wanted os left).call = some (ms, os.wait)

/-- A count of milliseconds that C defines and that does not shorten a timeout: a long one is waited
for without end. -/
structure Keeps (timeout : Duration) (ms : UInt32) : Prop where
  defined : (checkedToMs timeout).isSome
  short : timeout.Finite → whole timeout < 0xFFFFFFFF → ms.toNat = whole timeout
  long : (timeout.Finite → 0xFFFFFFFF ≤ whole timeout) → ms = infinite

/-- Neither timeout is shortened, and the count for the lesser one is at most that for the other. -/
def NeverShortened (t1 t2 : Duration) : Prop :=
  ∃ ms1 ms2, Passes t1 ms1 ∧ Passes t2 ms2 ∧ ms1 ≤ ms2 ∧ Keeps t1 ms1 ∧ Keeps t2 ms2

/-- The milliseconds of a timeout fit into 32 bits, or into 63 bits of which the last 32 are ones. -/
def Fits (d : Duration) : Prop := d = inf ∨ whole d < 2 ^ 32 ∨ 2 ^ 32 ∣ whole d + 1 ∧ whole d < 2 ^ 63

theorem call_wait (ms : UInt32) (wanted : Bool) (os : WaitCalls) (left : LastError) :
    (wait ms wanted os left).call = some (ms, os.wait) := by
  unfold wait
  split
  · rfl
  · split
    · split <;> rfl
    · rfl

theorem passes_iff (nonneg : timeout.isNeg = false) : Passes timeout ms ↔ ms = milliseconds timeout := by
  have called (wanted : Bool) (os : WaitCalls) (left : LastError) :
      (waitForWithCode timeout wanted os left).call = some (milliseconds timeout, os.wait) := by
    rw [waitForWithCode, nonneg, if_neg Bool.false_ne_true]
    exact call_wait ..
  have slept : (sleepFor timeout).2 = some (milliseconds timeout) := by
    rw [sleepFor, nonneg, if_neg Bool.false_ne_true]
  constructor
  · intro passes
    exact Option.some.inj (passes.slept.symm.trans slept)
  · rintro rfl
    exact ⟨slept, called⟩

theorem total_nonneg (finite : timeout.Finite) (nonneg : timeout.isNeg = false) : 0 ≤ timeout.total := by
  have sign := finite.valid.isNeg_iff.not.mp (by simp [nonneg])
  rwa [finite.value_eq, fin_lt_fin, not_lt] at sign

/-- The seconds and the ticks are counted in 64 bits, which the conversion to 32 bits does not notice. -/
theorem toNat_milliseconds (finite : timeout.Finite) (nonneg : timeout.isNeg = false) :
    (milliseconds timeout).toNat = whole timeout % 2 ^ 32 := by
  have count : timeout.toMs.toInt = (timeout.total / 4000000).bmod (2 ^ 64) :=
    TimeUnit.toInt_count .ms finite
  have sign := total_nonneg finite nonneg
  have bits : timeout.toMs.toInt = (timeout.toMs.toUInt64.toNat : ℤ).bmod (2 ^ 64) :=
    BitVec.toInt_eq_toNat_bmod _
  have same : (timeout.toMs.toUInt64.toNat : ℤ) % (2 ^ 64 : ℕ) = timeout.total / 4000000 % (2 ^ 64 : ℕ) := by
    rw [← Int.bmod_emod, ← bits, count, Int.bmod_emod]
  rw [milliseconds, UInt64.toNat_toUInt32, whole]
  omega

theorem inf_or_finite (valid : timeout.Valid) (nonneg : timeout.isNeg = false) : timeout = inf ∨ timeout.Finite := by
  rcases valid with finite | rfl | rfl
  · exact Or.inr finite
  · exact Or.inl rfl
  · cases nonneg

theorem le_milliseconds_inf (ms : UInt32) : ms ≤ milliseconds inf := by
  have all := ms.toNat_lt
  rw [UInt32.le_iff_toNat_le, show (milliseconds inf).toNat = 4294967295 from rfl]
  omega

/-- The product of the seconds is not more than the milliseconds. -/
theorem isSome_checkedToMs (finite : timeout.Finite) (nonneg : timeout.isNeg = false) :
    (checkedToMs timeout).isSome ↔ whole timeout < 2 ^ 63 := by
  have sign := total_nonneg finite nonneg
  have ticks := finite_iff.mp finite
  refine (isSome_checkedToSubsecond finite (by decide)).trans ?_
  show CheckedInt.InRange (timeout.secs.toInt * 1000) ∧ CheckedInt.InRange (timeout.total / 4000000) ↔ _
  unfold CheckedInt.InRange whole
  unfold total at sign ⊢
  omega

/-- The count saturates. -/
theorem keeps_iff_of_finite (finite : timeout.Finite) (nonneg : timeout.isNeg = false) :
    Keeps timeout (milliseconds timeout) ↔
      whole timeout < 2 ^ 63 ∧ (milliseconds timeout).toNat = min (whole timeout) (2 ^ 32 - 1) := by
  rw [← isSome_checkedToMs finite nonneg]
  constructor
  · intro keeps
    refine ⟨keeps.defined, ?_⟩
    by_cases short : whole timeout < 0xFFFFFFFF
    · have same := keeps.short finite short
      omega
    · have endless : (milliseconds timeout).toNat = 0xFFFFFFFF :=
        congrArg UInt32.toNat (keeps.long fun _ => Nat.not_lt.mp short)
      omega
  · rintro ⟨defined, same⟩
    refine ⟨defined, fun _ short => by omega, fun long => ?_⟩
    have least := long finite
    exact UInt32.toNat_inj.mp (show _ = 0xFFFFFFFF by omega)

/-- What is passed on is the count of the milliseconds if they fit, and only then. -/
theorem keeps_iff (valid : timeout.Valid) (nonneg : timeout.isNeg = false) :
    Keeps timeout (milliseconds timeout) ↔ Fits timeout := by
  rcases inf_or_finite valid nonneg with rfl | finite
  · exact iff_of_true ⟨rfl, fun finite => absurd rfl finite.ne_inf, fun _ => rfl⟩ (Or.inl rfl)
  · rw [keeps_iff_of_finite finite nonneg, toNat_milliseconds finite nonneg, Wrap.mod_eq_min_iff (by decide), Fits,
      or_iff_right finite.ne_inf, and_or_left, and_comm, and_comm (a := whole timeout < 2 ^ 63)]
    refine or_congr (and_iff_left_of_imp fun small => ?_) Iff.rfl
    omega

theorem whole_le (finite1 : t1.Finite) (finite2 : t2.Finite) (shorter : le t1 t2 = true) : whole t1 ≤ whole t2 := by
  have below := (finite1.valid.le_iff finite2.valid).mp shorter
  rw [finite1.value_eq, finite2.value_eq, fin_le_fin] at below
  exact Int.toNat_le_toNat (Int.ediv_le_ediv (by decide) below)

/-- Counts that shorten neither timeout are in their order. -/
theorem milliseconds_le_of_keeps (valid1 : t1.Valid) (valid2 : t2.Valid) (nonneg1 : t1.isNeg = false)
    (nonneg2 : t2.isNeg = false) (shorter : le t1 t2 = true) (keeps1 : Keeps t1 (milliseconds t1))
    (keeps2 : Keeps t2 (milliseconds t2)) : milliseconds t1 ≤ milliseconds t2 := by
  rcases inf_or_finite valid2 nonneg2 with rfl | finite2
  · exact le_milliseconds_inf _
  · rcases inf_or_finite valid1 nonneg1 with rfl | finite1
    · have above := (valid_inf.le_iff valid2).mp shorter
      rw [value_inf, finite2.value_eq] at above
      exact absurd (fin_lt_top _) above.not_gt
    · have count1 := ((keeps_iff_of_finite finite1 nonneg1).mp keeps1).2
      have count2 := ((keeps_iff_of_finite finite2 nonneg2).mp keeps2).2
      have below := whole_le finite1 finite2 shorter
      rw [UInt32.le_iff_toNat_le]
      omega

/-- The timeouts that are not shortened are those whose milliseconds fit. -/
theorem neverShortened_iff (valid1 : t1.Valid) (valid2 : t2.Valid) (nonneg1 : t1.isNeg = false)
    (nonneg2 : t2.isNeg = false) (shorter : le t1 t2 = true) : NeverShortened t1 t2 ↔ Fits t1 ∧ Fits t2 := by
  rw [← keeps_iff valid1 nonneg1, ← keeps_iff valid2 nonneg2]
  constructor
  · rintro ⟨ms1, ms2, passes1, passes2, -, keeps⟩
    obtain rfl := (passes_iff nonneg1).mp passes1
    obtain rfl := (passes_iff nonneg2).mp passes2
    exact keeps
  · rintro ⟨keeps1, keeps2⟩
    exact ⟨milliseconds t1, milliseconds t2, (passes_iff nonneg1).mpr rfl, (passes_iff nonneg2).mpr rfl,
      milliseconds_le_of_keeps valid1 valid2 nonneg1 nonneg2 shorter keeps1 keeps2, keeps1, keeps2⟩

/-- An hour and for ever. -/
theorem neverShortened_iff_for_one_hour : NeverShortened ⟨3600, 0⟩ inf :=
  (neverShortened_iff (by decide) (by decide) rfl rfl rfl).mpr ⟨Or.inr (Or.inl (by decide)), Or.inl rfl⟩

/-- The timeout of 2³² milliseconds is none at all, and so less than one of a millisecond. -/
theorem full_turn_shortened :
    Valid ⟨0, 4000000⟩ ∧ Valid ⟨4294967, 1184000000⟩ ∧ isNeg ⟨0, 4000000⟩ = false ∧
      isNeg ⟨4294967, 1184000000⟩ = false ∧ le ⟨0, 4000000⟩ ⟨4294967, 1184000000⟩ = true ∧
      ¬NeverShortened ⟨0, 4000000⟩ ⟨4294967, 1184000000⟩ := by
  refine ⟨by decide, by decide, rfl, rfl, rfl, ?_⟩
  rintro ⟨ms1, ms2, passes1, passes2, order, _⟩
  obtain rfl := (passes_iff rfl).mp passes1
  obtain rfl := (passes_iff rfl).mp passes2
  exact absurd order (by decide)

/-- What a caller may conclude from the result of a wait. -/
structure Waited.Truthful (o : Waited) : Prop where
  finished : o.error = .ok → ∃ ms, o.call = some (ms, .object0)
  late : ∀ ms, o.call = some (ms, .timeout) → o.error = .timedOut
  stored : o.exitCode.isSome → o.error = .ok

/-- The last error tells why the wait did not see the end of the thread. -/
def WaitCalls.Told (os : WaitCalls) (left : LastError) : Prop :=
  match os.wait with
  | .object0 => True
  | .timeout => left = .waitTimeout
  | .abandoned => left ≠ .success
  | .failed => os.waitError ≠ .success

theorem Waited.truthful_of_ended {o : Waited} (call : o.call = some (ms, .object0))
    (stored : o.exitCode.isSome → o.error = .ok) : o.Truthful where
  finished _ := ⟨ms, call⟩
  late _ timeout := by
    rw [call] at timeout
    cases timeout
  stored := stored

theorem Waited.truthful_iff_of_going {error : Error} {answer : WaitResult} (going : answer ≠ .object0) :
    (⟨error, some (ms, answer), none⟩ : Waited).Truthful ↔
      error ≠ .ok ∧ (answer = .timeout → error = .timedOut) := by
  constructor
  · intro truthful
    refine ⟨fun fine => ?_, fun timeout => truthful.late ms (by rw [timeout])⟩
    obtain ⟨_, call⟩ := truthful.finished fine
    exact going (Prod.mk.inj (Option.some.inj call)).2
  · rintro ⟨isError, late⟩
    refine ⟨fun fine => absurd fine isError, fun _ call => ?_, fun stored => by cases stored⟩
    exact late (Prod.mk.inj (Option.some.inj call)).2

theorem wait_truthful_iff : (wait ms wanted os left).Truthful ↔ os.Told left := by
  by_cases ended : os.wait = .object0
  · rw [wait, if_neg (not_not.mpr ended), WaitCalls.Told, ended]
    refine iff_of_true ?_ trivial
    cases wanted with
    | false => exact Waited.truthful_of_ended rfl fun stored => by cases stored
    | true =>
      cases code : os.exitCode with
      | none => exact Waited.truthful_of_ended rfl fun stored => by cases stored
      | some ret => exact Waited.truthful_of_ended rfl fun _ => rfl
  · rw [wait, if_pos ended, Waited.truthful_iff_of_going ended, WaitCalls.lastError, WaitCalls.Told]
    cases answer : os.wait with
    | object0 => exact absurd answer ended
    | timeout =>
      -- the translation of the last error is the timeout only if the last error is
      simp only [reduceCtorEq, if_false, forall_const, Error.fromGetLastError_eq_timedOut_iff]
      refine and_iff_right_of_imp ?_
      rintro rfl
      exact Error.fromGetLastError_ne (by decide)
    | abandoned => simp [Error.fromGetLastError_eq_ok_iff]
    | failed => simp [Error.fromGetLastError_eq_ok_iff]

/-- The functions that wait are truthful when they do not wait at all, and exactly when
the last error belongs to the answer of the wait otherwise. -/
theorem waits_truthful_iff (timeout : Duration) (deadline now : Time) (wanted : Bool) (os : WaitCalls) (left : LastError) :
    ((joinWithCode wanted os left).Truthful ↔ os.Told left) ∧
    ((waitForWithCode timeout wanted os left).Truthful ↔ (timeout.isNeg = false → os.Told left)) ∧
    ((waitUntilWithCode deadline now wanted os left).Truthful ↔
      ((deadline.sub now).isNeg = false → os.Told left)) := by
  have bounded (timeout : Duration) :
      (waitForWithCode timeout wanted os left).Truthful ↔ (timeout.isNeg = false → os.Told left) := by
    rw [waitForWithCode]
    cases sign : timeout.isNeg with
    | false => simp [wait_truthful_iff]
    | true =>
      refine iff_of_true ⟨?_, ?_, ?_⟩ (by simp) <;> simp
  exact ⟨wait_truthful_iff, bounded timeout, bounded (deadline.sub now)⟩

/-- A wait of a millisecond that times out where no call has failed before. -/
theorem timeout_reported_as_success :
    ¬(waitForWithCode ⟨0, 4000000⟩ true ⟨.timeout, .success, none, .success⟩ .success).Truthful := by
  intro truthful
  obtain ⟨_, call⟩ := truthful.finished rfl
  cases call

end Rbc.Thread.Win32
