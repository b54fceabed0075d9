import Mathlib.Logic.Equiv.Basic
import Rbc.Utils.BoundedBuffer

namespace Rbc

/-- `for (usize idx = 0; idx < size; ++idx) RBC_SWAP_BYTE(lhs_u8[idx], rhs_u8[idx])`, with
`remaining` rounds to go. -/
def swapBytes (lhs rhs : Nat) : (remaining idx : Nat) → Memory → Memory
  | 0, _, memory => memory
  | remaining + 1, idx, memory =>
    let t := memory (lhs + idx)
    let memory := Function.update memory (lhs + idx) (memory (rhs + idx))
    swapBytes lhs rhs remaining (idx + 1) (Function.update memory (rhs + idx) t)

/-- The exchange through a copy of the left object, in `storage`. -/
def swapCopies (lhs rhs size : Nat) (memory : Memory) : Memory :=
  let storage := memory.characters lhs (lhs + size)
  let memory := memory.write lhs (memory.characters rhs (rhs + size))
  memory.write rhs storage

/-- `rbc_swap_impl`, where the storage is on the stack or `malloc` gives some, and where it gives none. -/
def swapImpl (storage : Bool) (lhs rhs size : Nat) (memory : Memory) : Memory :=
  if lhs = rhs then memory
  else if storage then swapCopies lhs rhs size memory
  else swapBytes lhs rhs size 0 memory

variable {lhs rhs size : Nat} {memory : Memory}

/-- What the copies leave at an address, for any two regions. -/
def exchanged (lhs rhs size : Nat) (memory : Memory) (a : Nat) : UInt8 :=
  if rhs ≤ a ∧ a < rhs + size then memory (lhs + (a - rhs))
  else if lhs ≤ a ∧ a < lhs + size then memory (rhs + (a - lhs))
  else memory a

/-- The regions have no byte in common. -/
def Apart (lhs rhs size : Nat) : Prop := lhs + size ≤ rhs ∨ rhs + size ≤ lhs

instance (lhs rhs size : Nat) : Decidable (Apart lhs rhs size) := inferInstanceAs (Decidable (_ ∨ _))

theorem write_characters (memory memory' : Memory) (dst src size a : Nat) :
    memory'.write dst (memory.characters src (src + size)) a =
      if dst ≤ a ∧ a < dst + size then memory (src + (a - dst)) else memory' a := by
  have length : (memory.characters src (src + size)).length = size := by
    rw [Memory.characters, List.length_map, List.length_range, Nat.add_sub_cancel_left]
  by_cases inside : dst ≤ a ∧ a < dst + size
  · obtain ⟨i, rfl⟩ := Nat.exists_eq_add_of_le inside.1
    have bound : i < (memory.characters src (src + size)).length := by omega
    rw [if_pos inside, Memory.write_inside bound, Nat.add_sub_cancel_left]
    simp only [Memory.characters, List.getElem_map, List.getElem_range]
  · rw [if_neg inside, Memory.write_outside (by omega)]

theorem swapCopies_apply (memory : Memory) (a : Nat) : swapCopies lhs rhs size memory a = exchanged lhs rhs size memory a := by
  rw [swapCopies, write_characters, write_characters, exchanged]

/-- A round exchanges two bytes of memory. -/
theorem swapBytes_succ (n idx : Nat) (memory : Memory) :
    swapBytes lhs rhs (n + 1) idx memory =
      swapBytes lhs rhs n (idx + 1) (memory ∘ Equiv.swap (rhs + idx) (lhs + idx)) := by
  rw [swapBytes, Equiv.comp_swap_eq_update]

/-- The loop moves bytes, it loses none of them. -/
theorem swapBytes_eq_comp (n idx : Nat) (memory : Memory) :
    ∃ σ : Equiv.Perm Nat, swapBytes lhs rhs n idx memory = memory ∘ σ := by
  induction n generalizing idx memory with
  | zero => exact ⟨Equiv.refl Nat, rfl⟩
  | succ n ih =>
    obtain ⟨σ, later⟩ := ih (idx + 1) (memory ∘ Equiv.swap (rhs + idx) (lhs + idx))
    exact ⟨σ.trans (Equiv.swap (rhs + idx) (lhs + idx)), by rw [swapBytes_succ, later]; rfl⟩

/-- The rounds from `idx` on exchange what is left of regions that are apart. -/
theorem swapBytes_of_apart (apart : Apart lhs rhs size) (n idx : Nat) (bound : idx + n = size) (memory : Memory) (a : Nat) :
    swapBytes lhs rhs n idx memory a = exchanged (lhs + idx) (rhs + idx) n memory a := by
  unfold Apart at apart
  induction n generalizing idx memory with
  | zero => rw [swapBytes, exchanged, if_neg (by omega), if_neg (by omega)]
  | succ n ih =>
    rw [swapBytes_succ, ih (idx + 1) (by omega)]
    have other {b : Nat} (left : b ≠ lhs + idx) (right : b ≠ rhs + idx) :
        (memory ∘ Equiv.swap (rhs + idx) (lhs + idx)) b = memory b :=
      congrArg memory (Equiv.swap_apply_of_ne_of_ne right left)
    unfold exchanged
    by_cases first : a = rhs + idx
    · rw [if_neg (by omega), if_neg (by omega), if_pos (by omega), first]
      exact congrArg memory ((Equiv.swap_apply_left ..).trans (by omega))
    by_cases second : a = lhs + idx
    · rw [if_neg (by omega), if_neg (by omega), if_neg (by omega), if_pos (by omega), second]
      exact congrArg memory ((Equiv.swap_apply_right ..).trans (by omega))
    by_cases right : rhs + idx ≤ a ∧ a < rhs + idx + (n + 1)
    · rw [if_pos (by omega), if_pos right, other (by omega) (by omega)]
      exact congrArg memory (by omega)
    by_cases left : lhs + idx ≤ a ∧ a < lhs + idx + (n + 1)
    · rw [if_neg (by omega), if_pos (by omega), if_neg right, if_pos left, other (by omega) (by omega)]
      exact congrArg memory (by omega)
    · rw [if_neg (by omega), if_neg (by omega), if_neg right, if_neg left, other second first]

/-- One byte is nowhere any more after the copies, where the regions overlap. -/
theorem exchanged_loses (differ : lhs ≠ rhs) (overlap : ¬Apart lhs rhs size) :
    ∃ lost, ∀ a, exchanged lhs rhs size (Function.update (fun _ => 0) lost 1) a = 0 := by
  unfold Apart at overlap
  rcases Nat.lt_or_gt_of_ne differ with before | after
  · refine ⟨rhs + size - 1, fun a => ?_⟩
    unfold exchanged
    split
    · exact Function.update_of_ne (by omega) ..
    split
    · exact Function.update_of_ne (by omega) ..
    · exact Function.update_of_ne (by omega) ..
  · refine ⟨rhs, fun a => ?_⟩
    unfold exchanged
    split
    · exact Function.update_of_ne (by omega) ..
    split
    · exact Function.update_of_ne (by omega) ..
    · exact Function.update_of_ne (by omega) ..

/-- Both objects have the bytes of the other one, and no other byte is touched. -/
structure Exchanges (lhs rhs size : Nat) (memory memory' : Memory) : Prop where
  left : ∀ i < size, memory' (lhs + i) = memory (rhs + i)
  right : ∀ i < size, memory' (rhs + i) = memory (lhs + i)
  outside : ∀ a, a < lhs ∨ lhs + size ≤ a → a < rhs ∨ rhs + size ≤ a → memory' a = memory a

theorem exchanges_of_apart (apart : Apart lhs rhs size) {memory' : Memory}
    (same : ∀ a, memory' a = exchanged lhs rhs size memory a) : Exchanges lhs rhs size memory memory' where
  left i inside := by
    unfold Apart at apart
    rw [same, exchanged, if_neg (by omega), if_pos (by omega), Nat.add_sub_cancel_left]
  right i inside := by rw [same, exchanged, if_pos (by omega), Nat.add_sub_cancel_left]
  outside a left right := by rw [same, exchanged, if_neg (by omega), if_neg (by omega)]

/-- Whether there is storage makes no difference exactly for objects that are the same or apart,
and those are exchanged. -/
theorem swapImpl_agree_iff (lhs rhs size : Nat) :
    ((∀ memory, swapImpl true lhs rhs size memory = swapImpl false lhs rhs size memory) ↔
        lhs = rhs ∨ Apart lhs rhs size) ∧
      (lhs = rhs ∨ Apart lhs rhs size → ∀ storage memory,
        Exchanges lhs rhs size memory (swapImpl storage lhs rhs size memory)) := by
  by_cases same : lhs = rhs
  · subst same
    refine ⟨iff_of_true (fun memory => ?_) (Or.inl rfl), fun _ storage memory => ?_⟩
    · rw [swapImpl, swapImpl, if_pos rfl, if_pos rfl]
    · rw [swapImpl, if_pos rfl]
      exact ⟨fun _ _ => rfl, fun _ _ => rfl, fun _ _ _ => rfl⟩
  have copies (memory : Memory) : swapImpl true lhs rhs size memory = swapCopies lhs rhs size memory := by
    rw [swapImpl, if_neg same, if_pos rfl]
  have bytes (memory : Memory) : swapImpl false lhs rhs size memory = swapBytes lhs rhs size 0 memory := by
    rw [swapImpl, if_neg same, if_neg Bool.false_ne_true]
  have loop (apart : Apart lhs rhs size) (memory : Memory) (a : Nat) :
      swapBytes lhs rhs size 0 memory a = exchanged lhs rhs size memory a :=
    swapBytes_of_apart apart size 0 (Nat.zero_add size) memory a
  refine ⟨⟨fun agree => Or.inr ?_, fun apart memory => ?_⟩, fun apart storage memory => ?_⟩
  · by_contra overlap
    obtain ⟨lost, nowhere⟩ := exchanged_loses same overlap
    have equal := agree (Function.update (fun _ => 0) lost 1)
    rw [copies, bytes] at equal
    -- the loop still has the byte that the copies have lost
    obtain ⟨σ, moved⟩ : ∃ σ : Equiv.Perm Nat, swapBytes lhs rhs size 0 (Function.update (fun _ => 0) lost 1) = _ :=
      swapBytes_eq_comp size 0 (Function.update (fun _ => 0) lost 1)
    have there := congrFun equal (σ.symm lost)
    rw [swapCopies_apply, nowhere, moved, Function.comp_apply, Equiv.apply_symm_apply, Function.update_self] at there
    exact absurd there (by decide)
  · funext a
    rw [copies, bytes, swapCopies_apply, loop (apart.resolve_left same)]
  · have apart := apart.resolve_left same
    cases storage with
    | false =>
      rw [bytes]
      exact exchanges_of_apart apart (loop apart memory)
    | true =>
      rw [copies]
      exact exchanges_of_apart apart (swapCopies_apply memory)

end Rbc
