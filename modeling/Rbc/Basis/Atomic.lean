import Mathlib.Logic.Function.Basic
import Rbc.Basis.Trace

namespace Atomic

open Trace

variable {τ R A S : Type}

/-- Where a call of a thread is. -/
inductive Phase (R A : Type)
  | outside
  | asked (r : R)
  | returning (r : R) (a : A)

/-- An object that threads share. -/
structure Object (τ R A S : Type) where
  value : S
  phase : τ → Phase R A

/-- What is seen of an object. -/
inductive Label (τ R A : Type)
  | call (t : τ) (r : R)
  | returns (t : τ) (r : R) (a : A)

/-- The request and the answer of a call that has returned. -/
def Label.completed : Label τ R A → Option (R × A)
  | .call .. => none
  | .returns _ r a => some (r, a)

def Object.start (v : S) : Object τ R A S := ⟨v, fun _ => .outside⟩

/-- Calls made one after the other, with their answers. -/
inductive Serial (apply : R → S → S × A) (v : S) : List (R × A) → S → Prop
  | nil : Serial apply v [] v
  | snoc {calls : List (R × A)} {v' : S} (r : R) (before : Serial apply v calls v') :
    Serial apply v (calls ++ [(r, (apply r v').2)]) (apply r v').1

variable [DecidableEq τ]

def Object.goto (s : Object τ R A S) (t : τ) (p : Phase R A) : Object τ R A S :=
  { s with phase := Function.update s.phase t p }

@[simp] theorem Object.phase_goto_self (s : Object τ R A S) (t : τ) (p : Phase R A) : (s.goto t p).phase t = p :=
  Function.update_self ..

theorem Object.phase_goto_of_ne (s : Object τ R A S) {t u : τ} (p : Phase R A) (other : u ≠ t) :
    (s.goto t p).phase u = s.phase u := Function.update_of_ne other ..

theorem Object.goto_self {s : Object τ R A S} {t : τ} {p : Phase R A} (here : s.phase t = p) : s.goto t p = s := by
  rw [← here]
  simp [goto]

/-- A call takes effect in one step, at some time before it returns. -/
inductive Move (apply : R → S → S × A) (s : Object τ R A S) (t : τ) : Option (Label τ R A) → Object τ R A S → Prop
  | call {r : R} (outside : s.phase t = .outside) : Move apply s t (some (.call t r)) (s.goto t (.asked r))
  | acts {r : R} (asked : s.phase t = .asked r) :
    Move apply s t none ({ s with value := (apply r s.value).1 }.goto t (.returning r (apply r s.value).2))
  | returns {r : R} {a : A} (done : s.phase t = .returning r a) :
    Move apply s t (some (.returns t r a)) (s.goto t .outside)

def Next (apply : R → S → S × A) (s : Object τ R A S) (l : Option (Label τ R A)) (s' : Object τ R A S) : Prop :=
  ∃ t, Move apply s t l s'

/-- The calls that have taken effect are a serial history: those that have returned,
and those whose answers are still on their way. -/
def Ordered (apply : R → S → S × A) (v : S) (past : List (Label τ R A)) (s : Object τ R A S) : Prop :=
  ∃ order pending, Serial apply v order s.value ∧
    order.Perm (past.filterMap Label.completed ++ pending.map Prod.snd) ∧ (pending : List (τ × R × A)).Nodup ∧
      ∀ t r a, s.phase t = .returning r a ↔ (t, r, a) ∈ pending

variable {apply : R → S → S × A} {v : S}

omit [DecidableEq τ] in
theorem Ordered.start : Ordered apply v [] (Object.start v : Object τ R A S) :=
  ⟨[], [], .nil, .nil, .nil, fun _ _ _ => iff_of_false nofun List.not_mem_nil⟩

theorem Ordered.next {past : List (Label τ R A)} {s s' : Object τ R A S} {l : Option (Label τ R A)}
    (ordered : Ordered apply v past s) (next : Next apply s l s') : Ordered apply v (past ++ l.toList) s' := by
  obtain ⟨order, pending, serial, perm, nodup, waiting⟩ := ordered
  obtain ⟨t, move⟩ := next
  cases move with
  | @call r outside =>
    refine ⟨order, pending, serial, ?_, nodup, fun u r' a => ?_⟩
    · simpa [Label.completed, List.filterMap_cons] using perm
    · by_cases mine : u = t
      · subst mine
        rw [Object.phase_goto_self]
        refine iff_of_false nofun fun found => ?_
        rw [(waiting u r' a).mpr found] at outside
        cases outside
      · rw [Object.phase_goto_of_ne _ _ mine]
        exact waiting u r' a
  | @acts r asked =>
    have absent : ∀ r' a, (t, r', a) ∉ pending := by
      intro r' a found
      rw [(waiting t r' a).mpr found] at asked
      cases asked
    refine ⟨_, (t, r, (apply r s.value).2) :: pending, serial.snoc r, ?_, List.nodup_cons.mpr ⟨absent _ _, nodup⟩,
      fun u r' a => ?_⟩
    · rw [Option.toList_none, List.append_nil, List.map_cons]
      exact (perm.append_right _).trans (List.perm_append_singleton _ _ |>.trans List.perm_middle.symm)
    · by_cases mine : u = t
      · subst mine
        rw [Object.phase_goto_self]
        simp [absent r' a, eq_comm]
      · rw [Object.phase_goto_of_ne _ _ mine]
        simp [mine, waiting u r' a]
  | @returns r a done =>
    obtain ⟨front, back, rfl⟩ := List.append_of_mem ((waiting t r a).mp done)
    obtain ⟨absent, nodup⟩ := List.nodup_cons.mp (List.perm_middle.nodup_iff.mp nodup)
    refine ⟨order, front ++ back, serial, ?_, nodup, fun u r' a' => ?_⟩
    · refine perm.trans ?_
      simp [Label.completed, List.perm_append_left_iff, List.perm_middle]
    · have was := waiting u r' a'
      by_cases mine : u = t
      · subst mine
        rw [Object.phase_goto_self]
        refine iff_of_false nofun fun found => ?_
        have still : s.phase u = .returning r' a' := was.mpr (List.perm_middle.mem_iff.mpr (List.mem_cons_of_mem _ found))
        cases done.symm.trans still
        exact absent found
      · rw [Object.phase_goto_of_ne _ _ mine, was]
        simp [mine]

/-- When nobody is inside, the calls that returned can be put into an order in which each
one finds what the one before it left. -/
theorem serial_of_path {labels : List (Label τ R A)} {s : Object τ R A S} (path : Path (Next apply) (.start v) labels s)
    (quiet : ∀ t, s.phase t = .outside) :
    ∃ order, order.Perm (labels.filterMap Label.completed) ∧ Serial apply v order s.value := by
  have ordered : Ordered apply v labels s := path.history (fun _ _ _ _ ordered next => ordered.next next) Ordered.start
  obtain ⟨order, pending, serial, perm, -, waiting⟩ := ordered
  cases pending with
  | nil => exact ⟨order, by simpa using perm, serial⟩
  | cons first rest =>
    obtain ⟨t, r, a⟩ := first
    have returning := (waiting t r a).mpr (List.mem_cons_self ..)
    rw [quiet t] at returning
    cases returning

end Atomic
