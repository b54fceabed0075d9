import Rbc.Basis.Machine

namespace Exclusion

variable {τ μ : Type}

/-- How often each thread has a lock in each mode. -/
abbrev Holdings (τ μ : Type) := τ → μ → Nat

/-- Different threads do not have the lock in modes that exclude each other. -/
def Exclusive (conflict : μ → μ → Prop) (h : Holdings τ μ) : Prop :=
  ∀ t u m n, t ≠ u → 0 < h t m → 0 < h u n → ¬conflict m n

/-- What an event means to the threads that use the lock: one of them takes it or gives
it back in a mode, or in the mode in which it has it, or has it no more at all. -/
inductive Effect (τ μ : Type)
  | takes (t : τ) (m : μ)
  | gives (t : τ) (m : μ)
  | releases (t : τ)
  | drops (t : τ)
  | nothing

theorem Exclusive.of_le {conflict : μ → μ → Prop} {h h' : Holdings τ μ} (exclusive : Exclusive conflict h')
    (le : ∀ t m, h t m ≤ h' t m) : Exclusive conflict h := by
  intro t u m n other first second
  exact exclusive t u m n other (Nat.lt_of_lt_of_le first (le t m)) (Nat.lt_of_lt_of_le second (le u n))

variable [DecidableEq τ] [DecidableEq μ]

def Effect.apply : Effect τ μ → Holdings τ μ → Holdings τ μ
  | .takes t m, h => fun u n => if u = t ∧ n = m then h u n + 1 else h u n
  | .gives t m, h => fun u n => if u = t ∧ n = m then h u n - 1 else h u n
  | .releases t, h => fun u n => if u = t then h u n - 1 else h u n
  | .drops t, h => fun u n => if u = t then 0 else h u n
  | .nothing, h => h

theorem Effect.apply_mono (e : Effect τ μ) {h h' : Holdings τ μ} (le : ∀ t m, h t m ≤ h' t m) (t : τ) (m : μ) :
    e.apply h t m ≤ e.apply h' t m := by
  have here := le t m
  cases e with
  | takes u n =>
    simp only [apply]
    split <;> omega
  | gives u n =>
    simp only [apply]
    split <;> omega
  | releases u | drops u =>
    simp only [apply]
    split <;> omega
  | nothing => exact here

/-- What the threads have after some events, if they believe the answers. -/
def ledger (effects : List (Effect τ μ)) : Holdings τ μ := effects.foldl (fun h e => e.apply h) fun _ _ => 0

theorem ledger_concat (effects : List (Effect τ μ)) (e : Effect τ μ) :
    ledger (effects ++ [e]) = e.apply (ledger effects) := by
  rw [ledger, List.foldl_append]
  rfl

/-- A lock that grants whatever it says: no thread believes to have more than it has. -/
theorem ledger_le_held {S I O : Type} {step : I → S → Option (S × O)} (held : S → Holdings τ μ)
    {effect : I → O → Effect τ μ}
    (honest : ∀ i s s' o, step i s = some (s', o) → ∀ t m, (effect i o).apply (held s) t m ≤ held s' t m)
    {inputs : List I} {s last : S} {outputs : List O} (ran : Machine.run step inputs s = some (last, outputs))
    (t : τ) (m : μ) : ledger ((inputs.zip outputs).map fun io => effect io.1 io.2) t m ≤ held last t m := by
  let believes : List (I × O) → S → Prop := fun past s =>
    ∀ t m, ledger (past.map fun io => effect io.1 io.2) t m ≤ held s t m
  have preserved : ∀ past s i s' o, believes past s → step i s = some (s', o) → believes (past ++ [(i, o)]) s' := by
    intro past s i s' o before stepped t m
    rw [List.map_append, List.map_singleton, ledger_concat]
    exact Nat.le_trans ((effect i o).apply_mono before t m) (honest i s s' o stepped t m)
  have start : believes [] s := fun _ _ => Nat.zero_le _
  exact Machine.run_history preserved start ran t m

end Exclusion
