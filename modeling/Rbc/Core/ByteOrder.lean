import Mathlib.Tactic.IntervalCases

namespace Rbc

namespace Bits

/-- `rbc_bswap_u16`, computed in `unsigned`, where no builtin is used. -/
def bswapU16 (value : BitVec 16) : BitVec 16 :=
  0 ||| ((value &&& 0x00ff) <<< 8)
    ||| ((value &&& 0xff00) >>> 8)

def bswapU32 (value : BitVec 32) : BitVec 32 :=
  0 ||| ((value &&& 0x000000ff) <<< 24)
    ||| ((value &&& 0x0000ff00) <<< 8)
    ||| ((value &&& 0x00ff0000) >>> 8)
    ||| ((value &&& 0xff000000) >>> 24)

def bswapU64 (value : BitVec 64) : BitVec 64 :=
  0 ||| ((value &&& 0x00000000000000ff) <<< 56)
    ||| ((value &&& 0x000000000000ff00) <<< 40)
    ||| ((value &&& 0x0000000000ff0000) <<< 24)
    ||| ((value &&& 0x00000000ff000000) <<< 8)
    ||| ((value &&& 0x000000ff00000000) >>> 8)
    ||| ((value &&& 0x0000ff0000000000) >>> 24)
    ||| ((value &&& 0x00ff000000000000) >>> 40)
    ||| ((value &&& 0xff00000000000000) >>> 56)

def bswapU8 (value : BitVec 8) : BitVec 8 := value

/-- The widths of the types that `rbc_bswap` selects from; a signed or floating type
is swapped as the unsigned one of its width. -/
inductive Width
  | w8 | w16 | w32 | w64
  deriving DecidableEq, Repr

def Width.bytes : Width → Nat
  | .w8 => 1
  | .w16 => 2
  | .w32 => 4
  | .w64 => 8

abbrev Value (w : Width) := BitVec (8 * w.bytes)

def bswap : (w : Width) → Value w → Value w
  | .w8 => bswapU8
  | .w16 => bswapU16
  | .w32 => bswapU32
  | .w64 => bswapU64

/-- `RBC_BYTE_ORDER` of a machine. -/
inductive Endian
  | little | big
  deriving DecidableEq, Repr

def toLe {w : Width} : Endian → Value w → Value w
  | .little, value => value
  | .big, value => bswap w value

def fromLe {w : Width} : Endian → Value w → Value w
  | .little, value => value
  | .big, value => bswap w value

def toBe {w : Width} : Endian → Value w → Value w
  | .little, value => bswap w value
  | .big, value => value

def fromBe {w : Width} : Endian → Value w → Value w
  | .little, value => bswap w value
  | .big, value => value

/-- The bytes of a value in the memory of a machine, in the order of their addresses. -/
def inMemory {w : Width} (machine : Endian) (value : Value w) : List (BitVec 8) :=
  (List.range w.bytes).map fun i =>
    match machine with
    | .little => value.extractLsb' (8 * i) 8
    | .big => value.extractLsb' (8 * (w.bytes - 1 - i)) 8

section Masks

variable {w : Nat} (x : BitVec w) (i s : Nat) {b k : Nat}

theorem getLsbD_mask (wide : 8 ≤ w) (bit : k < 8) (inside : 8 * b + k < w) :
    (x &&& 255#w <<< (8 * i)).getLsbD (8 * b + k) = (decide (b = i) && x.getLsbD (8 * i + k)) := by
  have byte (m : Nat) : (255#w).getLsbD m = decide (m < 8) := by
    rw [BitVec.getLsbD_ofNat, show 255 = 2 ^ 8 - 1 from rfl, Nat.testBit_two_pow_sub_one]
    by_cases small : m < 8
    · rw [decide_eq_true small, decide_eq_true (by omega : m < w), Bool.true_and]
    · rw [decide_eq_false small, Bool.and_false]
  rw [BitVec.getLsbD_and, BitVec.getLsbD_shiftLeft, byte, decide_eq_true inside, Bool.true_and]
  by_cases same : b = i
  · rw [same, decide_eq_true rfl, Bool.true_and, decide_eq_false (by omega), decide_eq_true (by omega)]
    exact Bool.and_true _
  · rw [decide_eq_false same, Bool.false_and]
    rcases Nat.lt_or_gt_of_ne same with before | after
    · rw [decide_eq_true (by omega : 8 * b + k < 8 * i), Bool.not_true, Bool.false_and, Bool.and_false]
    · rw [decide_eq_false (by omega : ¬8 * b + k - 8 * i < 8), Bool.and_false, Bool.and_false]

/-- The byte `i` of a value, moved `s` bytes to the left. -/
theorem getLsbD_left (wide : 8 ≤ w) (bit : k < 8) (inside : 8 * b + k < w) :
    ((x &&& 255#w <<< (8 * i)) <<< (8 * s)).getLsbD (8 * b + k) = (decide (b = i + s) && x.getLsbD (8 * i + k)) := by
  rw [BitVec.getLsbD_shiftLeft, decide_eq_true inside, Bool.true_and]
  by_cases low : b < s
  · rw [decide_eq_true (by omega : 8 * b + k < 8 * s), decide_eq_false (by omega : ¬b = i + s)]
    rfl
  · have place : 8 * b + k - 8 * s = 8 * (b - s) + k := by omega
    rw [decide_eq_false (by omega : ¬8 * b + k < 8 * s), place, getLsbD_mask x i wide bit (by omega),
      decide_eq_decide.mpr (by omega : b - s = i ↔ b = i + s)]
    rfl

/-- The byte `i` of a value, moved `s` bytes to the right. -/
theorem getLsbD_right (wide : 8 ≤ w) (bit : k < 8) :
    ((x &&& 255#w <<< (8 * i)) >>> (8 * s)).getLsbD (8 * b + k) = (decide (b + s = i) && x.getLsbD (8 * i + k)) := by
  have place : 8 * s + (8 * b + k) = 8 * (b + s) + k := by omega
  rw [BitVec.getLsbD_ushiftRight, place]
  by_cases inside : 8 * (b + s) + k < w
  · exact getLsbD_mask x i wide bit inside
  · rw [BitVec.getLsbD_of_ge _ _ (by omega)]
    by_cases same : b + s = i
    · rw [← same, BitVec.getLsbD_of_ge x _ (by omega), Bool.and_false]
    · rw [decide_eq_false same, Bool.false_and]

end Masks

theorem getLsbD_bswapU64 (x : BitVec 64) {b k : Nat} (byte : b < 8) (bit : k < 8) :
    (bswapU64 x).getLsbD (8 * b + k) = x.getLsbD (8 * (7 - b) + k) := by
  have terms : bswapU64 x = 0 ||| (x &&& 255#64 <<< (8 * 0)) <<< (8 * 7) ||| (x &&& 255#64 <<< (8 * 1)) <<< (8 * 5)
      ||| (x &&& 255#64 <<< (8 * 2)) <<< (8 * 3) ||| (x &&& 255#64 <<< (8 * 3)) <<< (8 * 1)
      ||| (x &&& 255#64 <<< (8 * 4)) >>> (8 * 1) ||| (x &&& 255#64 <<< (8 * 5)) >>> (8 * 3)
      ||| (x &&& 255#64 <<< (8 * 6)) >>> (8 * 5) ||| (x &&& 255#64 <<< (8 * 7)) >>> (8 * 7) := rfl
  have inside : 8 * b + k < 64 := by omega
  simp only [terms, BitVec.getLsbD_or, getLsbD_left x _ _ (by decide : 8 ≤ 64) bit inside,
    getLsbD_right x _ _ (by decide : 8 ≤ 64) bit]
  interval_cases b <;> simp

theorem getLsbD_bswapU32 (x : BitVec 32) {b k : Nat} (byte : b < 4) (bit : k < 8) :
    (bswapU32 x).getLsbD (8 * b + k) = x.getLsbD (8 * (3 - b) + k) := by
  have terms : bswapU32 x = 0 ||| (x &&& 255#32 <<< (8 * 0)) <<< (8 * 3) ||| (x &&& 255#32 <<< (8 * 1)) <<< (8 * 1)
      ||| (x &&& 255#32 <<< (8 * 2)) >>> (8 * 1) ||| (x &&& 255#32 <<< (8 * 3)) >>> (8 * 3) := rfl
  have inside : 8 * b + k < 32 := by omega
  simp only [terms, BitVec.getLsbD_or, getLsbD_left x _ _ (by decide : 8 ≤ 32) bit inside,
    getLsbD_right x _ _ (by decide : 8 ≤ 32) bit]
  interval_cases b <;> simp

theorem getLsbD_bswapU16 (x : BitVec 16) {b k : Nat} (byte : b < 2) (bit : k < 8) :
    (bswapU16 x).getLsbD (8 * b + k) = x.getLsbD (8 * (1 - b) + k) := by
  have terms : bswapU16 x = 0 ||| (x &&& 255#16 <<< (8 * 0)) <<< (8 * 1) ||| (x &&& 255#16 <<< (8 * 1)) >>> (8 * 1) :=
    rfl
  have inside : 8 * b + k < 16 := by omega
  simp only [terms, BitVec.getLsbD_or, getLsbD_left x _ _ (by decide : 8 ≤ 16) bit inside,
    getLsbD_right x _ _ (by decide : 8 ≤ 16) bit]
  interval_cases b <;> simp

/-- The bytes of a swapped value are those of the value from the other end. -/
theorem getLsbD_bswap {w : Width} (x : Value w) {b k : Nat} (byte : b < w.bytes) (bit : k < 8) :
    (bswap w x).getLsbD (8 * b + k) = x.getLsbD (8 * (w.bytes - 1 - b) + k) := by
  cases w with
  | w8 =>
    obtain rfl : b = 0 := Nat.lt_one_iff.mp byte
    rfl
  | w16 => exact getLsbD_bswapU16 x byte bit
  | w32 => exact getLsbD_bswapU32 x byte bit
  | w64 => exact getLsbD_bswapU64 x byte bit

theorem eq_of_bits {w : Width} {x y : Value w}
    (same : ∀ b < w.bytes, ∀ k < 8, x.getLsbD (8 * b + k) = y.getLsbD (8 * b + k)) : x = y := by
  refine BitVec.eq_of_getLsbD_eq fun j inside => ?_
  have bit := same (j / 8) (by omega) (j % 8) (by omega)
  rwa [Nat.div_add_mod] at bit

theorem bswap_bswap {w : Width} (x : Value w) : bswap w (bswap w x) = x := by
  refine eq_of_bits fun b byte k bit => ?_
  rw [getLsbD_bswap _ byte bit, getLsbD_bswap _ (by omega) bit]
  exact congrArg (fun i => x.getLsbD (8 * i + k)) (by omega)

theorem extract_bswap {w : Width} (x : Value w) {b : Nat} (byte : b < w.bytes) :
    (bswap w x).extractLsb' (8 * b) 8 = x.extractLsb' (8 * (w.bytes - 1 - b)) 8 := by
  refine BitVec.eq_of_getLsbD_eq fun k bit => ?_
  rw [BitVec.getLsbD_extractLsb', BitVec.getLsbD_extractLsb', getLsbD_bswap x byte bit]

theorem inMemory_little_bswap {w : Width} (x : Value w) : inMemory .little (bswap w x) = inMemory .big x :=
  List.map_congr_left fun _ member => extract_bswap x (List.mem_range.mp member)

theorem inMemory_big_bswap {w : Width} (x : Value w) : inMemory .big (bswap w x) = inMemory .little x := by
  rw [← inMemory_little_bswap, bswap_bswap]

theorem eq_of_inMemory_little {w : Width} {x y : Value w} (same : inMemory .little x = inMemory .little y) : x = y := by
  refine eq_of_bits fun b byte k bit => ?_
  have bytes := List.map_inj_left.mp same b (List.mem_range.mpr byte)
  have bits := congrArg (fun v => BitVec.getLsbD v k) bytes
  simpa only [BitVec.getLsbD_extractLsb', bit, decide_true, Bool.true_and] using bits

theorem inMemory_inj {w : Width} (machine : Endian) {x y : Value w} :
    inMemory machine x = inMemory machine y ↔ x = y := by
  constructor
  · intro same
    cases machine with
    | little => exact eq_of_inMemory_little same
    | big =>
      rw [← inMemory_little_bswap, ← inMemory_little_bswap] at same
      rw [← bswap_bswap x, eq_of_inMemory_little same, bswap_bswap]
  · intro same
    rw [same]

theorem bswap_eq_iff {w : Width} {x y : Value w} : x = bswap w y ↔ bswap w x = y := by
  constructor
  · intro same
    rw [same, bswap_bswap]
  · intro same
    rw [← same, bswap_bswap]

theorem eq_toBe_iff {w : Width} (machine : Endian) {x y : Value w} : y = toBe machine x ↔ fromBe machine y = x := by
  cases machine with
  | little => exact bswap_eq_iff
  | big => exact Iff.rfl

theorem eq_toLe_iff {w : Width} (machine : Endian) {x y : Value w} : y = toLe machine x ↔ fromLe machine y = x := by
  cases machine with
  | little => exact Iff.rfl
  | big => exact bswap_eq_iff

theorem inMemory_toBe {w : Width} (machine : Endian) (x : Value w) :
    inMemory machine (toBe machine x) = inMemory .big x := by
  cases machine with
  | little => exact inMemory_little_bswap x
  | big => rfl

theorem inMemory_toLe {w : Width} (machine : Endian) (x : Value w) :
    inMemory machine (toLe machine x) = inMemory .little x := by
  cases machine with
  | little => rfl
  | big => exact inMemory_big_bswap x

/-- Bytes that one machine wrote in an order for the wire are the same for all machines, and every
machine that reads them finds the value in them, and no other one. -/
theorem wire_roundTrip {w : Width} (writer reader : Endian) (x y : Value w) :
    (inMemory writer (toBe writer x) = inMemory .big x ∧
        (inMemory reader y = inMemory writer (toBe writer x) ↔ fromBe reader y = x)) ∧
      inMemory writer (toLe writer x) = inMemory .little x ∧
        (inMemory reader y = inMemory writer (toLe writer x) ↔ fromLe reader y = x) := by
  refine ⟨⟨inMemory_toBe writer x, ?_⟩, inMemory_toLe writer x, ?_⟩
  · rw [inMemory_toBe writer x, ← inMemory_toBe reader x, inMemory_inj, eq_toBe_iff]
  · rw [inMemory_toLe writer x, ← inMemory_toLe reader x, inMemory_inj, eq_toLe_iff]

end Bits

end Rbc
