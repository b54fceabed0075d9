import Mathlib.Logic.Basic

namespace Machine

variable {S T I O : Type} {step : I → S → Option (S × O)}

/-- Takes the inputs one after the other and collects the outputs. A step
without a result is a fault and ends the run. -/
def run (step : I → S → Option (S × O)) : List I → S → Option (S × List O)
  | [], s => some (s, [])
  | i :: rest, s => do
    let (s', o) ← step i s
    let (last, os) ← run step rest s'
    return (last, o :: os)

@[simp]
theorem run_nil {s : S} : run step [] s = some (s, []) := rfl

theorem run_cons {i : I} {rest : List I} {s last : S} {outputs : List O} :
    run step (i :: rest) s = some (last, outputs) ↔
      ∃ s' o os, step i s = some (s', o) ∧ run step rest s' = some (last, os) ∧ outputs = o :: os := by
  simp only [run, Option.bind_eq_bind, Option.bind_eq_some_iff, Option.pure_def, Option.some.injEq,
    Prod.exists, Prod.mk.injEq]
  constructor
  · rintro ⟨s', o, stepped, last', os, ran, rfl, rfl⟩
    exact ⟨s', o, os, stepped, ran, rfl⟩
  · rintro ⟨s', o, os, stepped, ran, rfl⟩
    exact ⟨s', o, stepped, last, os, ran, rfl, rfl⟩

/-- An invariant of the state and of what was done so far holds at the end. -/
theorem run_history {P : List (I × O) → S → Prop}
    (preserved : ∀ past s i s' o, P past s → step i s = some (s', o) → P (past ++ [(i, o)]) s')
    {past : List (I × O)} {inputs : List I} {s last : S} {outputs : List O}
    (start : P past s) (ran : run step inputs s = some (last, outputs)) :
    P (past ++ inputs.zip outputs) last := by
  induction inputs generalizing past s outputs with
  | nil =>
    obtain ⟨rfl, rfl⟩ : s = last ∧ [] = outputs := by simpa using ran
    simpa using start
  | cons i rest ih =>
    obtain ⟨s', o, os, stepped, ran', rfl⟩ := run_cons.mp ran
    have next := ih (preserved past s i s' o start stepped) ran'
    simpa using next

/-- What every step preserves holds at the end. -/
theorem run_invariant {P : S → Prop} (preserved : ∀ s i s' o, P s → step i s = some (s', o) → P s')
    {inputs : List I} {s last : S} {outputs : List O} (start : P s) (ran : run step inputs s = some (last, outputs)) :
    P last := by
  induction inputs generalizing s outputs with
  | nil =>
    cases ran
    exact start
  | cons i rest ih =>
    obtain ⟨s', o, os, stepped, ran', -⟩ := run_cons.mp ran
    exact ih (preserved s i s' o start stepped) ran'

/-- What every step answers in the states that an invariant allows. -/
theorem run_answers {P : S → Prop} {Q : I → O → Prop} {inputs : List I}
    (preserved : ∀ s i s' o, i ∈ inputs → P s → step i s = some (s', o) → P s' ∧ Q i o)
    {s last : S} {outputs : List O} (start : P s) (ran : run step inputs s = some (last, outputs)) :
    ∀ io ∈ inputs.zip outputs, Q io.1 io.2 := by
  induction inputs generalizing s outputs with
  | nil => exact fun io member => absurd member List.not_mem_nil
  | cons i rest ih =>
    obtain ⟨s', o, os, stepped, ran', rfl⟩ := run_cons.mp ran
    obtain ⟨kept, answer⟩ := preserved s i s' o (List.mem_cons_self ..) start stepped
    intro io member
    rcases List.mem_cons.mp member with rfl | later
    · exact answer
    · exact ih (fun s j s' o inside => preserved s j s' o (List.mem_cons_of_mem i inside)) kept ran' io later

/-- A run of steps that leave the state as it is. -/
theorem run_of_idle {s : S} {o : O} {inputs : List I} (idle : ∀ i ∈ inputs, step i s = some (s, o)) :
    run step inputs s = some (s, List.replicate inputs.length o) := by
  induction inputs with
  | nil => rfl
  | cons i rest ih =>
    have ran := ih fun j member => idle j (List.mem_cons_of_mem i member)
    exact run_cons.mpr ⟨s, o, _, idle i (List.mem_cons_self ..), ran, rfl⟩

/-- Every input is allowed in the state in which its turn comes. -/
def Admissible (allowed : I → S → Prop) (step : I → S → Option (S × O)) : List I → S → Prop
  | [], _ => True
  | i :: rest, s => allowed i s ∧
    match step i s with
    | none => True
    | some (s', _) => Admissible allowed step rest s'

/-- Every state of the run has the property. -/
def Always (P : S → Prop) (step : I → S → Option (S × O)) : List I → S → Prop
  | [], s => P s
  | i :: rest, s => P s ∧
    match step i s with
    | none => True
    | some (s', _) => Always P step rest s'

instance (allowed : I → S → Prop) [∀ i s, Decidable (allowed i s)] :
    (inputs : List I) → (s : S) → Decidable (Admissible allowed step inputs s)
  | [], _ => isTrue trivial
  | i :: rest, s =>
    match h : step i s with
    | none => decidable_of_iff (allowed i s) (by simp [Admissible, h])
    | some (s', _) =>
      have := instDecidableAdmissible allowed rest s'
      decidable_of_iff (allowed i s ∧ Admissible allowed step rest s') (by simp [Admissible, h])

theorem Always.here {P : S → Prop} {inputs : List I} {s : S} (always : Always P step inputs s) : P s := by
  cases inputs with
  | nil => exact always
  | cons i rest => exact always.1

/-- A machine that stays within a relation to another one, as long as the inputs are
allowed, has no fault and the same outputs. -/
theorem run_simulates {step' : I → T → Option (T × O)} {allowed : I → S → Prop} {R : S → T → Prop}
    (simulates : ∀ i s t, R s t → allowed i s →
      ∃ s' t' o, step i s = some (s', o) ∧ step' i t = some (t', o) ∧ R s' t')
    {inputs : List I} {s : S} {t : T} (start : R s t) (admissible : Admissible allowed step inputs s) :
    ∃ s' t' os, run step inputs s = some (s', os) ∧ run step' inputs t = some (t', os) ∧ R s' t' := by
  induction inputs generalizing s t with
  | nil => exact ⟨s, t, [], rfl, rfl, start⟩
  | cons i rest ih =>
    obtain ⟨here, later⟩ := admissible
    obtain ⟨s', t', o, stepped, stepped', kept⟩ := simulates i s t start here
    rw [stepped] at later
    obtain ⟨last, last', os, ran, ran', related⟩ := ih kept later
    exact ⟨last, last', o :: os, run_cons.mpr ⟨s', o, os, stepped, ran, rfl⟩,
      run_cons.mpr ⟨t', o, os, stepped', ran', rfl⟩, related⟩

/-- A run goes on in the state in which it ended. -/
theorem run_append {inputs : List I} {s last : S} {os : List O} (ran : run step inputs s = some (last, os))
    (inputs' : List I) :
    run step (inputs ++ inputs') s = (run step inputs' last).map fun r => (r.1, os ++ r.2) := by
  induction inputs generalizing s os with
  | nil =>
    cases ran
    exact Option.map_id'.symm
  | cons i rest ih =>
    obtain ⟨s', o, later, stepped, ran', rfl⟩ := run_cons.mp ran
    have next := ih ran'
    rw [List.cons_append, run, stepped]
    simp only [Option.bind_eq_bind, Option.bind_some, next]
    cases run step inputs' last <;> rfl

/-- Two machines both run through some inputs with the same outputs. -/
def Agree (step : I → S → Option (S × O)) (step' : I → T → Option (T × O)) (inputs : List I) (s : S) (t : T) : Prop :=
  ∃ s' t' os, run step inputs s = some (s', os) ∧ run step' inputs t = some (t', os)

/-- Machines in a relation that the allowed inputs keep, and of which every other
input tells them apart, agree on exactly the allowed runs. -/
theorem agree_iff_admissible {step' : I → T → Option (T × O)} {allowed : I → S → Prop} {R : S → T → Prop}
    (simulates : ∀ i s t, R s t → allowed i s →
      ∃ s' t' o, step i s = some (s', o) ∧ step' i t = some (t', o) ∧ R s' t')
    (differs : ∀ i s t, R s t → ¬allowed i s →
      ¬∃ s' t' o, step i s = some (s', o) ∧ step' i t = some (t', o))
    (inputs : List I) {s : S} {t : T} (start : R s t) :
    Agree step step' inputs s t ↔ Admissible allowed step inputs s := by
  constructor
  · intro agree
    induction inputs generalizing s t with
    | nil => trivial
    | cons i rest ih =>
      obtain ⟨last, last', outputs, ran, ran'⟩ := agree
      obtain ⟨s₁, o, os, stepped, later, same⟩ := run_cons.mp ran
      obtain ⟨t₁, o', os', stepped', later', same'⟩ := run_cons.mp ran'
      obtain ⟨rfl, rfl⟩ := List.cons.inj (same.symm.trans same')
      have here : allowed i s := Classical.byContradiction fun forbidden =>
        differs i s t start forbidden ⟨s₁, t₁, o, stepped, stepped'⟩
      refine ⟨here, ?_⟩
      obtain ⟨s₂, t₂, o₂, again, again', kept⟩ := simulates i s t start here
      cases Option.some.inj (stepped.symm.trans again)
      cases Option.some.inj (stepped'.symm.trans again')
      rw [stepped]
      exact ih kept ⟨last, last', os, later, later'⟩
  · intro admissible
    obtain ⟨s', t', os, ran, ran', -⟩ := run_simulates simulates start admissible
    exact ⟨s', t', os, ran, ran'⟩

/-- Steps that keep an invariant keep what follows from it. -/
theorem Admissible.always {P Q : S → Prop} {keeps : I → S → Prop} (part : ∀ s, Q s → P s)
    (preserved : ∀ i s s' o, Q s → keeps i s → step i s = some (s', o) → Q s') {inputs : List I} {s : S}
    (admissible : Admissible keeps step inputs s) (start : Q s) : Always P step inputs s := by
  induction inputs generalizing s with
  | nil => exact part s start
  | cons i rest ih =>
    obtain ⟨kept, later⟩ := admissible
    refine ⟨part s start, ?_⟩
    cases stepped : step i s with
    | none => trivial
    | some next =>
      rw [stepped] at later
      exact ih later (preserved i s next.1 next.2 start kept stepped)

/-- A property that goes with an invariant holds all along a run exactly if no step
is one of those that break it. -/
theorem always_iff_admissible {P Q : S → Prop} {keeps : I → S → Prop} (part : ∀ s, Q s → P s)
    (preserved : ∀ i s s' o, Q s → keeps i s → step i s = some (s', o) → Q s')
    (broken : ∀ i s, Q s → ¬keeps i s → ∃ s' o, step i s = some (s', o) ∧ ¬P s')
    (inputs : List I) {s : S} (start : Q s) :
    Always P step inputs s ↔ Admissible keeps step inputs s := by
  induction inputs generalizing s with
  | nil => exact iff_of_true (part s start) trivial
  | cons i rest ih =>
    by_cases kept : keeps i s
    · simp only [Always, Admissible, part s start, kept, true_and]
      cases stepped : step i s with
      | none => rfl
      | some next => exact ih (preserved i s next.1 next.2 start kept stepped)
    · obtain ⟨s', o, stepped, lost⟩ := broken i s start kept
      refine iff_of_false ?_ fun admissible => kept admissible.1
      rintro ⟨-, later⟩
      rw [stepped] at later
      exact lost later.here

/-- Steps that keep an invariant are allowed where the invariant allows them. -/
theorem Admissible.of_invariant {Q : S → Prop} {keeps allowed : I → S → Prop}
    (allows : ∀ i s, Q s → keeps i s → allowed i s)
    (preserved : ∀ i s s' o, Q s → keeps i s → step i s = some (s', o) → Q s') {inputs : List I} {s : S}
    (admissible : Admissible keeps step inputs s) (start : Q s) : Admissible allowed step inputs s := by
  induction inputs generalizing s with
  | nil => trivial
  | cons i rest ih =>
    obtain ⟨kept, later⟩ := admissible
    refine ⟨allows i s start kept, ?_⟩
    cases stepped : step i s with
    | none => trivial
    | some next =>
      rw [stepped] at later
      exact ih later (preserved i s next.1 next.2 start kept stepped)

/-- The outputs of a machine that has no faults. -/
def outputs (next : I → S → S × O) : List I → S → List O
  | [], _ => []
  | i :: rest, s => (next i s).2 :: outputs next rest (next i s).1

/-- A machine that follows another one, with outputs renamed by `f`. -/
theorem outputs_eq_map {O' : Type} {next : I → S → S × O} {next' : I → T → T × O'} {R : S → T → Prop}
    {f : O' → O} (follows : ∀ i s t, R s t → R (next i s).1 (next' i t).1 ∧ (next i s).2 = f (next' i t).2)
    (inputs : List I) {s : S} {t : T} (start : R s t) :
    outputs next inputs s = (outputs next' inputs t).map f := by
  induction inputs generalizing s t with
  | nil => rfl
  | cons i rest ih =>
    obtain ⟨kept, same⟩ := follows i s t start
    rw [outputs, outputs, List.map_cons, same, ih kept]

end Machine
