import Rbc.Utils.BoundedBuffer

namespace Rbc

open BoundedReader

/-- A number of one of the eight types. -/
abbrev Number := (T : IntType) × T.Value

namespace Number

def text (n : Number) : List UInt8 := Rbc.text n.2.val

/-- Numbers as they are meant to stand in a buffer, each with a separator after it. -/
def line (separator : UInt8) (ns : List Number) : List UInt8 := ns.flatMap fun n => n.text ++ [separator]

/-- Calls of `rbc_to_chars` one after the other, as long as there is room for a number and the
separator. Gives the memory, the end of what was written and the numbers that were. -/
def write (separator : UInt8) (last : Nat) : Memory → Nat → List Number → Memory × Nat × List Number
  | memory, first, [] => (memory, first, [])
  | memory, first, n :: ns =>
    let result := toChars n.1 memory first last n.2
    if result.error = .ok ∧ result.ptr < last then
      let (memory, ptr, written) :=
        write separator last (Function.update result.memory result.ptr separator) (result.ptr + 1) ns
      (memory, ptr, n :: written)
    else
      (result.memory, first, [])

/-- Calls of `rbc_from_chars` one after the other, for values of these types, up to the first error. -/
def readAll (last : Nat) : List IntType → Nat → BoundedReader UInt8 (List Number × Nat × Error)
  | [], first => pure ([], first, .ok)
  | T :: types, first => do
    let result ← fromChars T first last
    match result.stored with
    | none => pure ([], result.ptr, result.error)
    | some v => do
      let rest ← readAll last types result.ptr
      pure (⟨T, v⟩ :: rest.1, rest.2)

variable {separator : UInt8} {ns : List Number} {memory : Memory} {first last : Nat}

theorem line_cons (separator : UInt8) (n : Number) (ns : List Number) :
    line separator (n :: ns) = n.text ++ separator :: line separator ns := by
  rw [line, List.flatMap_cons, List.append_assoc]
  rfl

/-- As many of the numbers as fit are written, and nothing outside of the buffer. -/
structure Written (separator : UInt8) (first last : Nat) (ns : List Number) (memory : Memory)
    (result : Memory × Nat × List Number) : Prop where
  front : result.2.2 <+: ns
  ptr : result.2.1 = first + (line separator result.2.2).length
  characters : result.1.characters first result.2.1 = line separator result.2.2
  fits : ∀ k ≤ ns.length, first + (line separator (ns.take k)).length ≤ last ↔ k ≤ result.2.2.length
  outside : ∀ a, a < first ∨ last ≤ a → result.1 a = memory a

theorem characters_append {memory : Memory} {a b c : Nat} (ab : a ≤ b) (bc : b ≤ c) :
    memory.characters a c = memory.characters a b ++ memory.characters b c := by
  have split : c - a = (b - a) + (c - b) := by omega
  rw [Memory.characters, split, List.range_add, List.map_append, List.map_map]
  refine congrArg (memory.characters a b ++ ·) (List.map_congr_left fun i _ => ?_)
  show memory (a + (b - a + i)) = memory (b + i)
  exact congrArg memory (by omega)

theorem characters_congr {memory memory' : Memory} {a b : Nat} (same : ∀ i, a ≤ i → i < b → memory i = memory' i) :
    memory.characters a b = memory'.characters a b := by
  refine List.map_congr_left fun i inside => ?_
  have bound := List.mem_range.mp inside
  exact same _ (by omega) (by omega)

theorem written_nil (memory : Memory) (room : first ≤ last) : Written separator first last [] memory (memory, first, []) where
  front := List.nil_prefix
  ptr := rfl
  characters := by simp [Memory.characters, line]
  fits k below := by
    obtain rfl : k = 0 := Nat.le_zero.mp below
    exact iff_of_true room (Nat.le_refl 0)
  outside _ _ := rfl

/-- A number that does not fit with its separator leaves nothing that counts. -/
theorem written_full {n : Number} {result : ToCharsResult} (room : first ≤ last)
    (full : last < first + (n.text.length + 1)) (outside : ∀ a, a < first ∨ last ≤ a → result.memory a = memory a) :
    Written separator first last (n :: ns) memory (result.memory, first, []) where
  front := List.nil_prefix
  ptr := rfl
  characters := by simp [Memory.characters, line]
  fits k below := by
    cases k with
    | zero => exact iff_of_true room (Nat.le_refl 0)
    | succ k =>
      refine iff_of_false ?_ (Nat.not_succ_le_zero k)
      rw [List.take_succ_cons, line_cons, List.length_append, List.length_cons]
      omega
  outside := outside

theorem written_cons {n : Number} {result : ToCharsResult} {rest : Memory × Nat × List Number}
    (ptr : result.ptr = first + n.text.length) (room : result.ptr < last)
    (characters : result.memory.characters first result.ptr = n.text)
    (outside : ∀ a, a < first ∨ last ≤ a → result.memory a = memory a)
    (written : Written separator (result.ptr + 1) last ns (Function.update result.memory result.ptr separator) rest) :
    Written separator first last (n :: ns) memory (rest.1, rest.2.1, n :: rest.2.2) where
  front := List.cons_prefix_cons.mpr ⟨rfl, written.front⟩
  ptr := by
    have stop := written.ptr
    rw [line_cons, List.length_append, List.length_cons]
    show rest.2.1 = _
    omega
  characters := by
    have stop := written.ptr
    have kept (i : Nat) (before : i < result.ptr + 1) :
        rest.1 i = Function.update result.memory result.ptr separator i := written.outside i (Or.inl before)
    have number : rest.1.characters first result.ptr = n.text := by
      rw [← characters]
      refine characters_congr fun i _ before => ?_
      rw [kept i (by omega), Function.update_of_ne (by omega)]
    have mark : rest.1.characters result.ptr (result.ptr + 1) = [separator] := by
      simp [Memory.characters, kept]
    show rest.1.characters first rest.2.1 = _
    rw [characters_append (b := result.ptr) (by omega) (by omega), number,
      characters_append (b := result.ptr + 1) (by omega) (by omega), mark, written.characters, line_cons]
    rfl
  fits k below := by
    cases k with
    | zero => exact iff_of_true (show first + 0 ≤ last by omega) (Nat.zero_le _)
    | succ k =>
      have inner := written.fits k (Nat.le_of_succ_le_succ below)
      rw [List.take_succ_cons, line_cons, List.length_append, List.length_cons]
      show _ ↔ k + 1 ≤ rest.2.2.length + 1
      omega
  outside a beyond := by
    rw [written.outside a (by omega), Function.update_of_ne (by omega)]
    exact outside a beyond

theorem write_spec (separator : UInt8) (memory : Memory) (ns : List Number) (room : first ≤ last) :
    Written separator first last ns memory (write separator last memory first ns) := by
  induction ns generalizing memory first with
  | nil => exact written_nil memory room
  | cons n ns ih =>
    obtain ⟨T, v⟩ := n
    have positive := length_text_pos v.val
    rw [write]
    rcases Nat.lt_or_eq_of_le room with more | rfl
    · obtain ⟨size, rfl⟩ := Nat.exists_eq_add_of_le room
      have buffer : InBuffer memory first size (Rbc.text v.val) (toChars T memory first (first + size) v) := by
        rw [toChars_eq]
        exact inBuffer_formatted v.val (by omega)
      by_cases fits : (toChars T memory first (first + size) v).error = .ok ∧
          (toChars T memory first (first + size) v).ptr < first + size
      · rw [if_pos fits]
        obtain ⟨_, ptr, characters⟩ := toChars_ok fits.1
        exact written_cons (n := ⟨T, v⟩) ptr fits.2 characters buffer.outside (ih _ fits.2)
      · rw [if_neg fits]
        refine written_full room ?_ buffer.outside
        show first + size < first + ((Rbc.text v.val).length + 1)
        by_contra enough
        have short : (Rbc.text v.val).length ≤ size := by omega
        exact fits ⟨buffer.ok_iff.mpr short, by rw [buffer.ptr short]; omega⟩
    · have refused : toChars T memory first first v = ⟨first, .invalidArgument, memory⟩ := by
        rw [toChars_eq, formatted, if_pos (Nat.le_refl _)]
      rw [refused, if_neg (by simp)]
      have full : Written separator first first (⟨T, v⟩ :: ns) memory
          ((⟨first, .invalidArgument, memory⟩ : ToCharsResult).memory, first, []) :=
        written_full room (by omega) fun _ _ => rfl
      exact full

theorem parsed_space {T : IntType} {c : UInt8} (space : isSpace c = true) {first ptr : Nat} {cs : List UInt8} {v : T.Value}
    (later : parsed T (first + 1) cs = ⟨ptr, .ok, some v⟩) : parsed T first (c :: cs) = ⟨ptr, .ok, some v⟩ := by
  unfold parsed at later ⊢
  simp only [List.takeWhile_cons, List.dropWhile_cons, space, if_true, List.length_cons]
  have start : first + ((cs.takeWhile isSpace).length + 1) = first + 1 + (cs.takeWhile isSpace).length := by omega
  rw [start]
  unfold digitsResult at later ⊢
  split
  · rename_i none
    simp [none] at later
  · rename_i some
    rw [if_neg some] at later
    exact later

theorem parsed_front {T : IntType} (v : T.Value) {front t : List UInt8} (spaces : ∀ c ∈ front, isSpace c = true)
    (stops : ∀ c ∈ t.head?, isDigit c = false) (first : Nat) :
    parsed T first (front ++ (Rbc.text v.val ++ t)) = ⟨first + front.length + (Rbc.text v.val).length, .ok, some v⟩ := by
  induction front generalizing first with
  | nil => exact parsed_text v first stops
  | cons c front ih =>
    obtain ⟨space, rest⟩ := List.forall_mem_cons.mp spaces
    have later := ih rest (first + 1)
    rw [List.cons_append, parsed_space space later, List.length_cons, Nat.add_assoc first, Nat.add_comm 1]

theorem isDigit_eq_false {c : UInt8} (space : isSpace c = true) : isDigit c = false := by
  by_contra digits
  rw [isSpace_eq_false (Bool.not_eq_false _ ▸ digits)] at space
  cases space

theorem readAll_cons {T : IntType} {types : List IntType} {cs : List UInt8} {ptr : Nat} {v : T.Value}
    (number : (fromChars T first last).value cs = some ⟨ptr, .ok, some v⟩) :
    (readAll last (T :: types) first).value cs =
      ((readAll last types ptr).value cs).map fun rest => (⟨T, v⟩ :: rest.1, rest.2) := by
  rw [readAll, value_bind, number, Option.bind_some]
  show (readAll last types ptr >>= fun rest => pure ((⟨T, v⟩ :: rest.1, rest.2) : List Number × Nat × Error)).value cs = _
  rw [value_bind]
  cases (readAll last types ptr).value cs <;> rfl

/-- Where the reader stands after these numbers: before the last separator. -/
def stop (first : Nat) (front : List UInt8) (separator : UInt8) (ns : List Number) : Nat :=
  if ns = [] then first else first + (front ++ line separator ns).length - 1

/-- From the spaces after one number on the next ones are read, and no more than there are. -/
theorem value_readAll (space : isSpace separator = true) (before front : List UInt8) (spaces : ∀ c ∈ front, isSpace c = true)
    (ns : List Number) (more : List IntType) :
    (readAll (before.length + (front ++ line separator ns).length) (ns.map Sigma.fst ++ more) before.length).value
        (before ++ (front ++ line separator ns)) =
      some (ns, stop before.length front separator ns, if more = [] then .ok else .invalidArgument) := by
  induction ns generalizing before front with
  | nil =>
    cases more with
    | nil => rfl
    | cons T more =>
      have number := value_fromChars T (holds_append before (front ++ line separator []) [])
      have blank : (front ++ line separator []).dropWhile isSpace = [] := by
        rw [line, List.flatMap_nil, List.append_nil, List.dropWhile_eq_nil_iff]
        exact spaces
      rw [List.append_nil, parsed_of_blank blank] at number
      rw [List.map_nil, List.nil_append, readAll, value_bind, number]
      rfl
  | cons n ns ih =>
    obtain ⟨T, v⟩ := n
    have number := value_fromChars T (holds_append before (front ++ (Rbc.text v.val ++ separator :: line separator ns)) [])
    have stops : ∀ c ∈ (separator :: line separator ns).head?, isDigit c = false := by
      intro c same
      rw [← Option.some.inj same]
      exact isDigit_eq_false space
    have next := ih (before ++ (front ++ Rbc.text v.val)) [separator] (List.forall_mem_singleton.mpr space)
    rw [List.append_nil, parsed_front v spaces stops] at number
    rw [line_cons]
    have place : before.length + front.length + (Rbc.text v.val).length = (before ++ (front ++ Rbc.text v.val)).length := by
      simp only [List.length_append]
      omega
    have chars : before ++ (front ++ (Rbc.text v.val ++ separator :: line separator ns)) =
        before ++ (front ++ Rbc.text v.val) ++ ([separator] ++ line separator ns) := by
      simp only [List.append_assoc, List.singleton_append]
    have size : before.length + (front ++ (Rbc.text v.val ++ separator :: line separator ns)).length =
        (before ++ (front ++ Rbc.text v.val)).length + ([separator] ++ line separator ns).length := by
      simp only [List.length_append, List.length_cons, List.length_nil]
      omega
    rw [List.map_cons, List.cons_append, Number.text, readAll_cons number, place, chars, size, next]
    have last : stop (before ++ (front ++ Rbc.text v.val)).length [separator] separator ns =
        stop before.length front separator (⟨T, v⟩ :: ns) := by
      rw [stop, stop, if_neg (List.cons_ne_nil _ _), line_cons, Number.text, size]
      split
      · rename_i none
        rw [none]
        rfl
      · rfl
    rw [last]
    rfl

/-- As many numbers as fit into the buffer are written, whatever it held, and these are read
again, each in its type, while a call for one more finds none. -/
theorem numbers_roundTrip (separator : UInt8) (ns : List Number) (memory : Memory) (first last : Nat)
    (more : List IntType) (space : isSpace separator = true) (room : first ≤ last) :
    let result := write separator last memory first ns
    Written separator first last ns memory result ∧
      (readAll (result.2.1 - first) (result.2.2.map Sigma.fst ++ more) 0).value
          (result.1.characters first result.2.1) =
        some (result.2.2, result.2.1 - first - 1, if more = [] then .ok else .invalidArgument) := by
  intro result
  have written := write_spec separator memory ns room
  have size : (line separator result.2.2).length = result.2.1 - first := by
    rw [written.ptr, Nat.add_sub_cancel_left]
  have read := value_readAll space [] [] (fun _ none => absurd none List.not_mem_nil) result.2.2 more
  simp only [List.nil_append, List.length_nil, Nat.zero_add, size] at read
  refine ⟨written, ?_⟩
  rw [written.characters, read, stop]
  split
  · rename_i none
    rw [none] at size
    rw [← size]
    rfl
  · rw [List.nil_append, Nat.zero_add, size]

/-- Three numbers of which two have room, in a buffer of ten characters. -/
theorem numbers_roundTrip_for_three :
    let result := write 32 10 (fun _ => 45) 0 [⟨.i8, ⟨-128, by decide⟩⟩, ⟨.u16, ⟨7, by decide⟩⟩, ⟨.i64, ⟨65536, by decide⟩⟩]
    Written 32 0 10 [⟨.i8, ⟨-128, by decide⟩⟩, ⟨.u16, ⟨7, by decide⟩⟩, ⟨.i64, ⟨65536, by decide⟩⟩] (fun _ => 45) result ∧
      (readAll (result.2.1 - 0) (result.2.2.map Sigma.fst ++ [.i8]) 0).value (result.1.characters 0 result.2.1) =
        some (result.2.2, result.2.1 - 0 - 1, .invalidArgument) :=
  numbers_roundTrip 32 [⟨.i8, ⟨-128, by decide⟩⟩, ⟨.u16, ⟨7, by decide⟩⟩, ⟨.i64, ⟨65536, by decide⟩⟩] (fun _ => 45) 0 10
    [.i8] (by decide) (by decide)

end Number

end Rbc
