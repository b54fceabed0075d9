import Mathlib.Algebra.Order.BigOperators.Group.List
import Rbc.Basis.Walk

namespace Saturation

variable {lo hi x : ℤ} {es : List ExtInt}

/-- What a finite step adds. -/
def gain : ExtInt → ℤ
  | some (some z) => z
  | _ => 0

@[simp] theorem gain_fin (z : ℤ) : gain (fin z) = z := rfl

def ups (es : List ExtInt) : List ExtInt := es.filter (0 < gain ·)

def downs (es : List ExtInt) : List ExtInt := es.filter (gain · < 0)

/-- The steps upwards alone go beyond the range. -/
def Rises (hi x : ℤ) (es : List ExtInt) : Prop := ⊤ ∈ es ∨ hi < x + ((ups es).map gain).sum

def Falls (lo x : ℤ) (es : List ExtInt) : Prop := ⊥ ∈ es ∨ x + ((downs es).map gain).sum < lo

/-- The exact sum lies beyond the range. -/
def EndsAbove (hi x : ℤ) (es : List ExtInt) : Prop := ⊤ ∈ es ∨ hi < x + (es.map gain).sum

def EndsBelow (lo x : ℤ) (es : List ExtInt) : Prop := ⊥ ∈ es ∨ x + (es.map gain).sum < lo

/-- The steps cannot leave the range on both sides, and on a side only if their sum lies there. -/
def OrderFree (lo hi x : ℤ) (es : List ExtInt) : Prop :=
  ¬(Rises hi x es ∧ Falls lo x es) ∧ (Rises hi x es → EndsAbove hi x es) ∧ (Falls lo x es → EndsBelow lo x es)

instance (hi x : ℤ) (es : List ExtInt) : Decidable (Rises hi x es) := inferInstanceAs (Decidable (_ ∨ _))

instance (lo x : ℤ) (es : List ExtInt) : Decidable (Falls lo x es) := inferInstanceAs (Decidable (_ ∨ _))

instance (hi x : ℤ) (es : List ExtInt) : Decidable (EndsAbove hi x es) := inferInstanceAs (Decidable (_ ∨ _))

instance (lo x : ℤ) (es : List ExtInt) : Decidable (EndsBelow lo x es) := inferInstanceAs (Decidable (_ ∨ _))

instance (lo hi x : ℤ) (es : List ExtInt) : Decidable (OrderFree lo hi x es) := inferInstanceAs (Decidable (_ ∧ _))

section Permutations

variable {es' : List ExtInt}

theorem sum_gain_perm (perm : es'.Perm es) : (es'.map gain).sum = (es.map gain).sum := (perm.map gain).sum_eq

theorem rises_perm (perm : es'.Perm es) : Rises hi x es' ↔ Rises hi x es := by
  rw [Rises, Rises, perm.mem_iff, ups, sum_gain_perm (perm.filter _), ups]

theorem falls_perm (perm : es'.Perm es) : Falls lo x es' ↔ Falls lo x es := by
  rw [Falls, Falls, perm.mem_iff, downs, sum_gain_perm (perm.filter _), downs]

theorem orderFree_perm (perm : es'.Perm es) : OrderFree lo hi x es' ↔ OrderFree lo hi x es := by
  rw [OrderFree, OrderFree, rises_perm perm, falls_perm perm, EndsAbove, EndsAbove, EndsBelow, EndsBelow,
    perm.mem_iff, perm.mem_iff, sum_gain_perm perm]

end Permutations

section Negation

theorem negate_negate (e : ExtInt) : negate (negate e) = e := by
  rcases cases e with rfl | rfl | ⟨z, rfl⟩
  · rfl
  · rfl
  · rw [negate_fin, negate_fin, neg_neg]

theorem gain_negate (e : ExtInt) : gain (negate e) = -gain e := by
  rcases cases e with rfl | rfl | ⟨z, rfl⟩ <;> rfl

theorem map_negate_negate (es : List ExtInt) : (es.map negate).map negate = es := by
  rw [List.map_map]
  exact (List.map_congr_left fun e _ => negate_negate e).trans (List.map_id es)

theorem sum_gain_negate (es : List ExtInt) : ((es.map negate).map gain).sum = -(es.map gain).sum := by
  induction es with
  | nil => rfl
  | cons e es ih =>
    rw [List.map_cons, List.map_cons, List.sum_cons, ih, gain_negate, List.map_cons, List.sum_cons, neg_add]

theorem top_mem_map_negate : ⊤ ∈ es.map negate ↔ ⊥ ∈ es := by
  constructor
  · intro member
    obtain ⟨e, inside, same⟩ := List.mem_map.mp member
    rwa [← negate_negate e, same] at inside
  · exact fun member => List.mem_map.mpr ⟨⊥, member, rfl⟩

theorem ups_map_negate (es : List ExtInt) : ups (es.map negate) = (downs es).map negate := by
  rw [ups, downs, List.filter_map]
  refine congrArg (List.map negate) (List.filter_congr fun e _ => ?_)
  simp only [Function.comp_apply, gain_negate, Left.neg_pos_iff]

/-- Falling is rising with the signs changed. -/
theorem falls_iff : Falls lo x es ↔ Rises (-lo) (-x) (es.map negate) := by
  rw [Falls, Rises, top_mem_map_negate, ups_map_negate, sum_gain_negate]
  refine or_congr Iff.rfl ?_
  omega

theorem endsBelow_iff : EndsBelow lo x es ↔ EndsAbove (-lo) (-x) (es.map negate) := by
  rw [EndsBelow, EndsAbove, top_mem_map_negate, sum_gain_negate]
  refine or_congr Iff.rfl ?_
  omega

theorem negate_clamp (range : lo ≤ hi) (z : ℤ) : negate (clamp lo hi z) = clamp (-hi) (-lo) (-z) := by
  by_cases under : z < lo
  · rw [clamp, if_pos under, clamp, if_neg (by omega), if_pos (by omega), negate_bot]
  by_cases beyond : hi < z
  · rw [clamp, if_neg under, if_pos beyond, clamp, if_pos (by omega), negate_top]
  · rw [clamp_of_mem (by omega) (by omega), clamp_of_mem (by omega) (by omega), negate_fin]

theorem negate_step (range : lo ≤ hi) (s e : ExtInt) :
    negate (step lo hi s e) = step (-hi) (-lo) (negate s) (negate e) := by
  rcases cases s with rfl | rfl | ⟨y, rfl⟩
  · rfl
  · rfl
  · rcases cases e with rfl | rfl | ⟨z, rfl⟩
    · rfl
    · rfl
    · show negate (clamp lo hi (y + z)) = clamp (-hi) (-lo) (-y + -z)
      rw [negate_clamp range, neg_add]

theorem negate_walk (range : lo ≤ hi) (s : ExtInt) (es : List ExtInt) :
    negate (walk lo hi s es) = walk (-hi) (-lo) (negate s) (es.map negate) := by
  induction es generalizing s with
  | nil => rfl
  | cons e es ih =>
    have next := ih (step lo hi s e)
    rw [negate_step range] at next
    exact next

/-- An order of the mirrored steps is the mirror of an order. -/
theorem exists_perm_mirrored (range : lo ≤ hi) {es' : List ExtInt} (perm : es'.Perm (es.map negate)) :
    ∃ back, back.Perm es ∧ negate (walk lo hi (fin x) back) = walk (-hi) (-lo) (fin (-x)) es' := by
  refine ⟨es'.map negate, ?_, ?_⟩
  · have mirrored := perm.map negate
    rwa [map_negate_negate] at mirrored
  · rw [negate_walk range, map_negate_negate, negate_fin]

end Negation

theorem sum_gain_nonneg (rising : ∀ e ∈ es, ∃ z, 0 ≤ z ∧ e = fin z) : 0 ≤ (es.map gain).sum := by
  refine List.sum_nonneg fun g taken => ?_
  obtain ⟨e, inside, rfl⟩ := List.mem_map.mp taken
  obtain ⟨z, positive, rfl⟩ := rising e inside
  exact positive

/-- Steps upwards leave the range once. -/
theorem walk_up (here : lo ≤ x ∧ x ≤ hi) (rising : ∀ e ∈ es, ∃ z, 0 ≤ z ∧ e = fin z) :
    walk lo hi (fin x) es = clamp lo hi (x + (es.map gain).sum) := by
  induction es generalizing x with
  | nil => rw [List.map_nil, List.sum_nil, add_zero, clamp_of_mem here.1 here.2, walk, List.foldl_nil]
  | cons e es ih =>
    obtain ⟨⟨z, up, rfl⟩, later⟩ := List.forall_mem_cons.mp rising
    have first : walk lo hi (fin x) (fin z :: es) = walk lo hi (clamp lo hi (x + z)) es := rfl
    have rest := sum_gain_nonneg later
    rw [first, List.map_cons, List.sum_cons, gain_fin]
    by_cases beyond : hi < x + z
    · rw [clamp, if_neg (by omega), if_pos beyond, walk_top, clamp, if_neg (by omega), if_pos (by omega)]
    · rw [clamp_of_mem (by omega) (by omega), ih ⟨by omega, by omega⟩ later, add_assoc]

theorem clamp_ne_top {z : ℤ} (below : z ≤ hi) : clamp lo hi z ≠ ⊤ := by
  by_cases under : z < lo
  · rw [clamp, if_pos under]
    exact bot_ne_top
  · rw [clamp_of_mem (by omega) below]
    exact fin_ne_top z

theorem walk_append (s : ExtInt) (es es' : List ExtInt) :
    walk lo hi s (es ++ es') = walk lo hi (walk lo hi s es) es' := List.foldl_append

theorem fin_of_ups {e : ExtInt} (up : e ∈ ups es) : ∃ z, 0 ≤ z ∧ e = fin z := by
  have positive := (List.mem_filter.mp up).2
  rcases cases e with rfl | rfl | ⟨z, rfl⟩
  · exact absurd positive (by decide)
  · exact absurd positive (by decide)
  · exact ⟨z, by simpa using (of_decide_eq_true positive).le, rfl⟩

theorem sum_ups_nonneg (es : List ExtInt) : 0 ≤ ((ups es).map gain).sum :=
  sum_gain_nonneg fun _ up => fin_of_ups up

theorem sum_ups_cons (z : ℤ) (es : List ExtInt) :
    ((ups (fin z :: es)).map gain).sum = max z 0 + ((ups es).map gain).sum := by
  by_cases positive : 0 < z
  · have taken : ups (fin z :: es) = fin z :: ups es := List.filter_cons_of_pos (decide_eq_true positive)
    rw [taken, List.map_cons, List.sum_cons, gain_fin, max_eq_left positive.le]
  · have left : ups (fin z :: es) = ups es := List.filter_cons_of_neg (ne_true_of_eq_false (decide_eq_false positive))
    rw [left, max_eq_right (by omega), zero_add]

theorem walk_down (here : lo ≤ x ∧ x ≤ hi) :
    walk lo hi (fin x) (downs es) = clamp lo hi (x + ((downs es).map gain).sum) := by
  have mirrored := negate_walk (show lo ≤ hi by omega) (fin x) (downs es)
  rw [negate_fin, ← ups_map_negate,
    walk_up ⟨by omega, by omega⟩ fun e up => fin_of_ups up, ups_map_negate, sum_gain_negate, ← neg_add,
    ← negate_clamp (by omega)] at mirrored
  rw [← negate_negate (walk _ _ _ _), mirrored, negate_negate]

/-- Some order of the steps goes up first. -/
theorem exists_perm_top (here : lo ≤ x ∧ x ≤ hi) (rises : Rises hi x es) :
    ∃ es', es'.Perm es ∧ walk lo hi (fin x) es' = ⊤ := by
  rcases rises with top | beyond
  · refine ⟨⊤ :: es.erase ⊤, (List.perm_cons_erase top).symm, ?_⟩
    have first : walk lo hi (fin x) (⊤ :: es.erase ⊤) = walk lo hi ⊤ (es.erase ⊤) := rfl
    rw [first, walk_top]
  · refine ⟨ups es ++ es.filter fun e => !decide (0 < gain e), List.filter_append_perm _ es, ?_⟩
    rw [walk_append, walk_up here fun e up => fin_of_ups up, clamp, if_neg (by omega), if_pos beyond, walk_top]

theorem exists_perm_bot (here : lo ≤ x ∧ x ≤ hi) (falls : Falls lo x es) :
    ∃ es', es'.Perm es ∧ walk lo hi (fin x) es' = ⊥ := by
  have negated : -hi ≤ -x ∧ -x ≤ -lo := ⟨by omega, by omega⟩
  obtain ⟨up, upPerm, top⟩ := exists_perm_top negated (falls_iff.mp falls)
  obtain ⟨down, downPerm, mirrored⟩ := exists_perm_mirrored (show lo ≤ hi by omega) upPerm
  refine ⟨down, downPerm, ?_⟩
  rw [← negate_negate (walk _ _ _ _), mirrored, top, negate_top]

/-- Downwards first, a walk to a sum in range does not leave it. -/
theorem exists_perm_ne_top (here : lo ≤ x ∧ x ≤ hi) (falls : ¬Falls lo x es) (above : ¬EndsAbove hi x es) :
    ∃ es', es'.Perm es ∧ walk lo hi (fin x) es' ≠ ⊤ := by
  obtain ⟨bottom, low⟩ := not_or.mp falls
  obtain ⟨top, sum⟩ := not_or.mp above
  have perm : (downs es ++ es.filter fun e => !decide (gain e < 0)).Perm es := List.filter_append_perm _ es
  have rising : ∀ e ∈ es.filter fun e => !decide (gain e < 0), ∃ z, 0 ≤ z ∧ e = fin z := by
    intro e up
    obtain ⟨inside, positive⟩ := List.mem_filter.mp up
    rcases cases e with rfl | rfl | ⟨z, rfl⟩
    · exact absurd inside bottom
    · exact absurd inside top
    · exact ⟨z, not_lt.mp (of_decide_eq_false ((Bool.not_eq_true' _).mp positive)), rfl⟩
  have split := sum_gain_perm perm
  rw [List.map_append, List.sum_append] at split
  have middle : x + ((downs es).map gain).sum ≤ hi := by
    have down := sum_ups_nonneg (es.map negate)
    rw [ups_map_negate, sum_gain_negate] at down
    omega
  refine ⟨_, perm, ?_⟩
  rw [walk_append, walk_down here, clamp_of_mem (by omega) middle, walk_up ⟨by omega, middle⟩ rising]
  exact clamp_ne_top (by omega)

theorem exists_perm_ne_bot (here : lo ≤ x ∧ x ≤ hi) (rises : ¬Rises hi x es) (below : ¬EndsBelow lo x es) :
    ∃ es', es'.Perm es ∧ walk lo hi (fin x) es' ≠ ⊥ := by
  have negated : -hi ≤ -x ∧ -x ≤ -lo := ⟨by omega, by omega⟩
  have falls : ¬Falls (-hi) (-x) (es.map negate) := by rwa [falls_iff, map_negate_negate, neg_neg, neg_neg]
  obtain ⟨down, downPerm, kept⟩ := exists_perm_ne_top negated falls (endsBelow_iff.not.mp below)
  obtain ⟨up, upPerm, mirrored⟩ := exists_perm_mirrored (show lo ≤ hi by omega) downPerm
  refine ⟨up, upPerm, fun bottom => kept ?_⟩
  rw [← mirrored, bottom, negate_bot]

/-- What does not rise beyond the range does not end there. -/
theorem walk_ne_top (here : lo ≤ x ∧ x ≤ hi) (rises : ¬Rises hi x es) : walk lo hi (fin x) es ≠ ⊤ := by
  induction es generalizing x with
  | nil => exact fin_ne_top x
  | cons e es ih =>
    obtain ⟨top, sum⟩ := not_or.mp rises
    rcases cases e with rfl | rfl | ⟨z, rfl⟩
    · have first : walk lo hi (fin x) (⊥ :: es) = walk lo hi ⊥ es := rfl
      rw [first, walk_bot]
      exact bot_ne_top
    · exact absurd List.mem_cons_self top
    · have first : walk lo hi (fin x) (fin z :: es) = walk lo hi (clamp lo hi (x + z)) es := rfl
      have later : ⊤ ∉ es := fun inside => top (List.mem_cons_of_mem _ inside)
      have rest := sum_ups_nonneg es
      rw [sum_ups_cons] at sum
      rw [first]
      by_cases under : x + z < lo
      · rw [clamp, if_pos under, walk_bot]
        exact bot_ne_top
      · rw [clamp_of_mem (by omega) (by omega)]
        exact ih ⟨by omega, by omega⟩ (not_or.mpr ⟨later, by omega⟩)

theorem walk_ne_bot (here : lo ≤ x ∧ x ≤ hi) (falls : ¬Falls lo x es) : walk lo hi (fin x) es ≠ ⊥ := by
  intro bottom
  have mirrored := negate_walk (show lo ≤ hi by omega) (fin x) es
  rw [bottom, negate_bot, negate_fin] at mirrored
  exact walk_ne_top (show -hi ≤ -x ∧ -x ≤ -lo by omega) (falls_iff.not.mp falls) mirrored.symm

/-- A finite number at the end is the sum. -/
theorem eq_of_walk_eq_fin {y : ℤ} (here : lo ≤ x ∧ x ≤ hi) (exact : walk lo hi (fin x) es = fin y) :
    ⊥ ∉ es ∧ ⊤ ∉ es ∧ y = x + (es.map gain).sum ∧ lo ≤ y ∧ y ≤ hi := by
  have finite (e : ExtInt) (infinite : e = ⊥ ∨ e = ⊤) : e ∉ es := by
    intro taken
    have lost : walk lo hi (fin x) es = ⊥ ∨ walk lo hi (fin x) es = ⊤ := walk_lost taken infinite (fin x)
    rw [exact] at lost
    exact lost.elim (fin_ne_bot y) (fin_ne_top y)
  have bottom := finite ⊥ (Or.inl rfl)
  have top := finite ⊤ (Or.inr rfl)
  have same : (es.map gain).map fin = es := by
    rw [List.map_map]
    refine (List.map_congr_left fun e taken => ?_).trans (List.map_id es)
    rcases cases e with rfl | rfl | ⟨z, rfl⟩
    · exact absurd taken bottom
    · exact absurd taken top
    · rfl
  refine ⟨bottom, top, ?_⟩
  rcases walk_fin here (es.map gain) with ⟨stays, sum⟩ | ⟨_, lost⟩
  · rw [same, exact, fin_inj] at sum
    rw [← List.append_nil (es.map gain)] at stays
    have ended : Stays lo hi (x + (es.map gain).sum) [] := (stays_append.mp stays).2
    rw [← sum] at ended
    exact ⟨sum, ended⟩
  · rw [same, exact] at lost
    exact absurd lost (not_or.mpr ⟨fin_ne_bot y, fin_ne_top y⟩)

theorem OrderFree.walk_eq (free : OrderFree lo hi x es) (here : lo ≤ x ∧ x ≤ hi) :
    walk lo hi (fin x) es = if Rises hi x es then ⊤ else if Falls lo x es then ⊥ else fin (x + (es.map gain).sum) := by
  obtain ⟨oneSide, above, below⟩ := free
  rcases cases (walk lo hi (fin x) es) with bottom | top | ⟨y, exact⟩
  · have falls : Falls lo x es := not_not.mp fun falls => walk_ne_bot here falls bottom
    rw [bottom, if_neg fun rises => oneSide ⟨rises, falls⟩, if_pos falls]
  · have rises : Rises hi x es := not_not.mp fun rises => walk_ne_top here rises top
    rw [top, if_pos rises]
  · obtain ⟨bottom, top, sum, low, high⟩ := eq_of_walk_eq_fin here exact
    have rises : ¬Rises hi x es := fun rises => (above rises).elim top (by omega)
    have falls : ¬Falls lo x es := fun falls => (below falls).elim bottom (by omega)
    rw [exact, if_neg rises, if_neg falls, sum]

/-- The order of the steps does not matter. -/
theorem orderFree_iff (here : lo ≤ x ∧ x ≤ hi) :
    (∀ es', es'.Perm es → walk lo hi (fin x) es' = walk lo hi (fin x) es) ↔ OrderFree lo hi x es := by
  constructor
  · intro same
    have oneSide : ¬(Rises hi x es ∧ Falls lo x es) := by
      rintro ⟨rises, falls⟩
      obtain ⟨up, upPerm, top⟩ := exists_perm_top here rises
      obtain ⟨down, downPerm, bottom⟩ := exists_perm_bot here falls
      rw [same up upPerm] at top
      rw [same down downPerm, top] at bottom
      exact top_ne_bot bottom
    refine ⟨oneSide, fun rises => not_not.mp fun above => ?_, fun falls => not_not.mp fun below => ?_⟩
    · obtain ⟨up, upPerm, top⟩ := exists_perm_top here rises
      obtain ⟨down, downPerm, kept⟩ := exists_perm_ne_top here (fun falls => oneSide ⟨rises, falls⟩) above
      rw [same up upPerm] at top
      rw [same down downPerm] at kept
      exact kept top
    · obtain ⟨down, downPerm, bottom⟩ := exists_perm_bot here falls
      obtain ⟨up, upPerm, kept⟩ := exists_perm_ne_bot here (fun rises => oneSide ⟨rises, falls⟩) below
      rw [same down downPerm] at bottom
      rw [same up upPerm] at kept
      exact kept bottom
  · intro free es' perm
    rw [((orderFree_perm perm).mpr free).walk_eq here, free.walk_eq here, sum_gain_perm perm]
    simp only [rises_perm perm, falls_perm perm]

end Saturation
