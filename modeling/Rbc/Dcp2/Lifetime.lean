import Rbc.Basis.Machine
import Rbc.Dcp2.InputSafety
import Rbc.Dcp2.PacketHeap

namespace Rbc.Dcp2

variable {τ : Type} {abi : Abi}

/-- What a client does with its packet variables. An assignment is a copy of the structure if
the client uses both packets afterwards, and a move if it forgets the one on the right. -/
inductive Use (τ : Type)
  | new (x : τ) (size : UInt8)
  | receive (x : τ) (data : List UInt8)
  | setFields (x : τ) (dst src : BitVec 4) (cmd : BitVec 5) (ack : BitVec 2) (req : BitVec 1)
  | store (x : τ) (i : Nat) (b : UInt8)
  | load (x : τ) (i : Nat)
  | send (x : τ)
  | copy (x rhs : τ)
  | move (x rhs : τ)
  | delete (x : τ)
  deriving DecidableEq, Repr

inductive Seen
  | nothing
  | byte (b : UInt8)
  | bytes (l : List UInt8)
  | verdict (stop : Nat) (error : Error)
  deriving DecidableEq, Repr

/-- Variables in memory. What was deleted or moved keeps its bytes. -/
structure PacketProgram (τ : Type) where
  vars : τ → Option PacketStruct
  heap : Heap (List UInt8)

namespace PacketProgram

def start : PacketProgram τ := ⟨fun _ => none, .empty⟩

variable [DecidableEq τ]

def assign (s : PacketProgram τ) (x : τ) (r : PacketStruct × Heap (List UInt8)) : PacketProgram τ :=
  ⟨Function.update s.vars x (some r.1), r.2⟩

@[simp]
theorem vars_assign_self (s : PacketProgram τ) (x : τ) (r : PacketStruct × Heap (List UInt8)) :
    (s.assign x r).vars x = some r.1 := Function.update_self ..

theorem vars_assign_of_ne (s : PacketProgram τ) {x y : τ} (other : y ≠ x) (r : PacketStruct × Heap (List UInt8)) :
    (s.assign x r).vars y = s.vars y := Function.update_of_ne other _ _

@[simp]
theorem heap_assign (s : PacketProgram τ) (x : τ) (r : PacketStruct × Heap (List UInt8)) :
    (s.assign x r).heap = r.2 := rfl

def step (abi : Abi) (junk : Nat → UInt8) : Use τ → PacketProgram τ → Option (PacketProgram τ × Seen)
  | .new x size, s => some (s.assign x (PacketStruct.new abi size s.heap), .nothing)
  | .receive x data, s => do
    let ((packet, stop, error), heap) ← PacketStruct.fromBytes abi data s.heap
    return (s.assign x (packet, heap), .verdict stop error)
  | .setFields x dst src cmd ack req, s => do
    let c ← s.vars x
    return (s.assign x ({ c with dst := dst, src := src, cmd := cmd, ack := ack, req := req }, s.heap), .nothing)
  | .store x i b, s => do
    let c ← s.vars x
    let r ← c.store abi i b s.heap
    return (s.assign x r, .nothing)
  | .load x i, s => do
    let c ← s.vars x
    let b ← (← c.getData abi s.heap)[i]?
    return (s, .byte b)
  | .send x, s => do
    let c ← s.vars x
    let (bytes, heap) ← c.toBytes abi junk s.heap
    return (⟨s.vars, heap⟩, .bytes bytes)
  | .copy x rhs, s | .move x rhs, s => do
    let c ← s.vars rhs
    return (s.assign x (c, s.heap), .nothing)
  | .delete x, s => do
    let c ← s.vars x
    let heap ← c.delete abi s.heap
    return (⟨s.vars, heap⟩, .nothing)

end PacketProgram

/-- The packet after `rbc_dcp2_packet_get_data_mut(self)[i] = b`. -/
def Packet.setByte (self : Packet abi) (i : Nat) (b : UInt8) : Packet abi where
  dst := self.dst
  src := self.src
  cmd := self.cmd
  ack := self.ack
  req := self.req
  len := self.len
  storage :=
    match self.storage with
    | .data bytes => .data (bytes.set i b)
    | .ptr block => .ptr (block.set i b)
  fits := by
    have fits := self.fits
    cases same : self.storage with
    | data bytes =>
      rw [same] at fits
      exact ⟨fits.1, List.length_set.trans fits.2⟩
    | ptr block =>
      rw [same] at fits
      exact ⟨fits.1, List.length_set.trans fits.2⟩

/-- What packets are meant to be: variables with values. A packet that needs a block is gone
after its deletion. -/
abbrev Packets (τ : Type) (abi : Abi) := τ → Option (Packet abi)

namespace Packets

def start : Packets τ abi := fun _ => none

/-- Storing a packet in the variable leaves no block behind. -/
def vacant (t : Packets τ abi) (x : τ) : Bool := (t x).all fun p => p.len.toNat ≤ abi.ptrSize

variable [DecidableEq τ]

def step (junk : Nat → UInt8) : Use τ → Packets τ abi → Option (Packets τ abi × Seen)
  | .new x size, t => some (Function.update t x (some (Packet.new abi size)), .nothing)
  | .receive x data, t => do
    let r ← (fromBytes abi data.length).value data
    return (Function.update t x (some r.packet), .verdict r.stop r.error)
  | .setFields x dst src cmd ack req, t => do
    let p ← t x
    return (Function.update t x (some { p with dst := dst, src := src, cmd := cmd, ack := ack, req := req }), .nothing)
  | .store x i b, t => do
    let p ← t x
    if i < p.getData.length then some (Function.update t x (some (p.setByte i b)), .nothing) else none
  | .load x i, t => do
    let p ← t x
    let b ← p.getData[i]?
    return (t, .byte b)
  | .send x, t => do
    let p ← t x
    let bytes ← toBytes junk p
    return (t, .bytes bytes)
  | .copy x rhs, t => do
    let p ← t rhs
    return (Function.update t x (some p), .nothing)
  | .move x rhs, t => do
    let p ← t rhs
    return (Function.update (Function.update t rhs none) x (some p), .nothing)
  | .delete x, t => do
    let _ ← t x
    return (if t.vacant x then t else Function.update t x none, .nothing)

/-- The client uses packets that are there, reads and writes inside of their data, decodes no
input outside of which the decoder reads, and neither copies nor overwrites a packet that
needs a block. -/
def Allowed : Use τ → Packets τ abi → Prop
  | .new x _, t => t.vacant x
  | .receive x data, t => ReadSafe data ∧ t.vacant x
  | .setFields x .., t | .send x, t | .delete x, t => (t x).isSome
  | .store x i _, t | .load x i, t => (t x).any fun p => i < p.getData.length
  | .copy x rhs, t => (t rhs).isSome ∧ t.vacant x ∧ t.vacant rhs
  | .move x rhs, t => (t rhs).isSome ∧ (x = rhs ∨ t.vacant x)

instance : (use : Use τ) → (t : Packets τ abi) → Decidable (Allowed use t)
  | .receive .., _ | .copy .., _ | .move .., _ => inferInstanceAs (Decidable (_ ∧ _))
  | .new .., _ | .setFields .., _ | .store .., _ | .load .., _ | .send _, _ | .delete _, _ =>
    inferInstanceAs (Decidable (_ = true))

end Packets

namespace PacketProgram

/-- The variable has a packet that needs the block. -/
def Owns (s : PacketProgram τ) (t : Packets τ abi) (x : τ) (id : Nat) : Prop :=
  (t x).isSome ∧ ∃ c, s.vars x = some c ∧ c.member = .ptr id

/-- Every packet is in memory as its variable says, and every block that was not freed is the
one of exactly one packet. -/
structure Simulates (s : PacketProgram τ) (t : Packets τ abi) : Prop where
  held : ∀ x p, t x = some p → ∃ c, s.vars x = some c ∧ c.Denotes s.heap p
  apart : ∀ x y id, s.Owns t x id → s.Owns t y id → x = y
  noLeak : ∀ id block, s.heap.get? id = some block → ∃ x, s.Owns t x id

theorem simulates_start : (start : PacketProgram τ).Simulates (Packets.start : Packets τ abi) where
  held x p set := by cases set
  apart x y id owns := absurd owns.1 (by simp [Packets.start])
  noLeak id block live := by cases live

namespace Simulates

variable {s : PacketProgram τ} {t : Packets τ abi} {x : τ} {p : Packet abi}

theorem live (related : s.Simulates t) {id : Nat} (owns : s.Owns t x id) :
    ∃ p block, t x = some p ∧ p.storage = .ptr block ∧ s.heap.get? id = some block := by
  obtain ⟨isSome, c, set, member⟩ := owns
  obtain ⟨p, value⟩ := Option.isSome_iff_exists.mp isSome
  obtain ⟨c', set', denotes⟩ := related.held x p value
  obtain rfl : c = c' := Option.some.inj (set.symm.trans set')
  obtain ⟨block, storage, live⟩ := denotes.live member
  exact ⟨p, block, value, storage, live⟩

theorem not_owns_of_vacant (related : s.Simulates t) (vacant : t.vacant x = true) (id : Nat) : ¬s.Owns t x id := by
  intro owns
  obtain ⟨p, block, value, storage, -⟩ := related.live owns
  have fits := p.fits
  rw [storage] at fits
  rw [Packets.vacant, value, Option.all_some, decide_eq_true_iff] at vacant
  exact absurd fits.1 (Nat.not_lt.mpr vacant)

theorem owns_assign_of_ne [DecidableEq τ] {y : τ} (other : y ≠ x) (r : PacketStruct × Heap (List UInt8)) {id : Nat} :
    (s.assign x r).Owns t y id ↔ s.Owns t y id := by
  rw [Owns, Owns, vars_assign_of_ne s other]

theorem member_of_owns_assign [DecidableEq τ] {r : PacketStruct × Heap (List UInt8)} {id : Nat}
    (owns : (s.assign x r).Owns t x id) : r.1.member = .ptr id := by
  obtain ⟨-, c, found, member⟩ := owns
  rw [vars_assign_self] at found
  rw [Option.some.inj found]
  exact member

/-- A variable that kept its packet or lost it owns nothing new. -/
theorem owns_of_owns {t' : Packets τ abi} {y : τ} {id : Nat} (kept : t' y = t y ∨ t' y = none) (owns : s.Owns t' y id) :
    s.Owns t y id := by
  obtain ⟨isSome, held⟩ := owns
  rcases kept with same | lost
  · exact ⟨same ▸ isSome, held⟩
  · rw [lost] at isSome
    cases isSome

/-- The variable gets a new packet, and no other one loses its block. -/
theorem assign [DecidableEq τ] {t' : Packets τ abi} {r : PacketStruct × Heap (List UInt8)}
    (related : s.Simulates t) (value : t' x = some p) (denotes : r.1.Denotes r.2 p)
    (others : ∀ y, y ≠ x → t' y = t y ∨ t' y = none)
    (kept : ∀ y id, y ≠ x → s.Owns t' y id → r.2.get? id = s.heap.get? id)
    (unshared : ∀ y id, y ≠ x → s.Owns t' y id → r.1.member ≠ .ptr id)
    (noLeak : ∀ id, (r.2.get? id).isSome → r.1.member ≠ .ptr id → ∃ y, y ≠ x ∧ s.Owns t' y id) :
    (s.assign x r).Simulates t' where
  held y q set := by
    by_cases same : y = x
    · subst same
      obtain rfl : p = q := Option.some.inj (value.symm.trans set)
      exact ⟨r.1, vars_assign_self .., denotes⟩
    · have before : t y = some q := by
        rcases others y same with kept | lost
        · rw [← kept, set]
        · rw [lost] at set
          cases set
      obtain ⟨c, found, holds⟩ := related.held y q before
      refine ⟨c, by rw [vars_assign_of_ne s same, found], ?_⟩
      exact holds.congr fun id member => kept y id same ⟨by rw [set]; rfl, c, found, member⟩
  apart y z id ownsY ownsZ := by
    by_cases sameY : y = x
    · by_cases sameZ : z = x
      · rw [sameY, sameZ]
      · subst sameY
        exact absurd (member_of_owns_assign ownsY) (unshared z id sameZ ((owns_assign_of_ne sameZ r).mp ownsZ))
    · have beforeY := (owns_assign_of_ne sameY r).mp ownsY
      by_cases sameZ : z = x
      · subst sameZ
        exact absurd (member_of_owns_assign ownsZ) (unshared y id sameY beforeY)
      · have beforeZ := (owns_assign_of_ne sameZ r).mp ownsZ
        exact related.apart y z id (owns_of_owns (others y sameY) beforeY) (owns_of_owns (others z sameZ) beforeZ)
  noLeak id block alive := by
    by_cases member : r.1.member = .ptr id
    · exact ⟨x, by rw [value]; rfl, r.1, vars_assign_self .., member⟩
    · obtain ⟨y, other, owns⟩ := noLeak id (Option.isSome_of_eq_some alive) member
      exact ⟨y, (owns_assign_of_ne other r).mpr owns⟩

theorem owns_of_owns_update [DecidableEq τ] {o : Option (Packet abi)} {y : τ} {id : Nat} (other : y ≠ x) :
    s.Owns (Function.update t x o) y id ↔ s.Owns t y id := by
  rw [Owns, Owns, Function.update_of_ne other]

theorem create [DecidableEq τ] (related : s.Simulates t) (vacant : t.vacant x = true) (p : Packet abi) :
    (s.assign x (p.place s.heap)).Simulates (Function.update t x (some p)) := by
  have old {y : τ} {id : Nat} (other : y ≠ x) (owns : s.Owns (Function.update t x (some p)) y id) :
      ∃ block, s.heap.get? id = some block := by
    obtain ⟨_, block, -, -, live⟩ := related.live ((owns_of_owns_update other).mp owns)
    exact ⟨block, live⟩
  have owner {id : Nat} {block : List UInt8} (live : s.heap.get? id = some block) :
      ∃ y, y ≠ x ∧ s.Owns (Function.update t x (some p)) y id := by
    obtain ⟨y, owns⟩ := related.noLeak id block live
    have other : y ≠ x := fun same => related.not_owns_of_vacant vacant id (same ▸ owns)
    exact ⟨y, other, (owns_of_owns_update other).mpr owns⟩
  refine related.assign (Function.update_self ..) (PacketStruct.denotes_place p)
    (fun y other => Or.inl (Function.update_of_ne other _ _)) ?_ ?_ ?_
  · intro y id other owns
    obtain ⟨block, live⟩ := old other owns
    cases storage : p.storage with
    | data bytes => rw [PacketStruct.place_of_data storage]
    | ptr new => rw [PacketStruct.place_of_ptr storage, live, Heap.get?_alloc_of_live live]
  · intro y id other owns
    obtain ⟨block, live⟩ := old other owns
    have used := Heap.lt_next live
    cases storage : p.storage with
    | data bytes =>
      rw [PacketStruct.place_of_data storage]
      exact Member.noConfusion
    | ptr new =>
      rw [PacketStruct.place_of_ptr storage]
      intro same
      exact absurd (Member.ptr.inj same) used.ne'
  · intro id alive fresh
    cases storage : p.storage with
    | data bytes =>
      rw [PacketStruct.place_of_data storage] at alive
      obtain ⟨block, live⟩ := Option.isSome_iff_exists.mp alive
      exact owner live
    | ptr new =>
      rw [PacketStruct.place_of_ptr storage] at alive fresh
      have other : id ≠ s.heap.next := fun same => fresh (congrArg Member.ptr same.symm)
      rw [Heap.get?_alloc, Function.update_of_ne other] at alive
      obtain ⟨block, live⟩ := Option.isSome_iff_exists.mp alive
      exact owner live

/-- A packet changes in its place. -/
theorem replace [DecidableEq τ] (related : s.Simulates t) {p₀ : Packet abi} {c₀ c : PacketStruct} {heap : Heap (List UInt8)}
    (value : t x = some p₀) (found : s.vars x = some c₀)
    (member : ∀ id, c.member = .ptr id ↔ c₀.member = .ptr id) (denotes : c.Denotes heap p)
    (frame : ∀ id, c₀.member ≠ .ptr id → heap.get? id = s.heap.get? id) :
    (s.assign x (c, heap)).Simulates (Function.update t x (some p)) := by
  have own {id : Nat} (here : c.member = .ptr id) : s.Owns t x id :=
    ⟨by rw [value]; rfl, c₀, found, (member id).mp here⟩
  have apart {y : τ} {id : Nat} (other : y ≠ x) (owns : s.Owns (Function.update t x (some p)) y id) :
      c.member ≠ .ptr id := fun here =>
    other (related.apart y x id ((owns_of_owns_update other).mp owns) (own here))
  refine related.assign (Function.update_self ..) denotes (fun y other => Or.inl (Function.update_of_ne other _ _)) ?_ ?_ ?_
  · exact fun y id other owns => frame id fun here => apart other owns ((member id).mpr here)
  · exact fun y id other owns => apart other owns
  · intro id alive foreign
    rw [frame id fun here => foreign ((member id).mpr here)] at alive
    obtain ⟨block, live⟩ := Option.isSome_iff_exists.mp alive
    obtain ⟨y, owns⟩ := related.noLeak id block live
    have other : y ≠ x := by
      rintro rfl
      obtain ⟨-, c', found', here⟩ := owns
      rw [Option.some.inj (found'.symm.trans found)] at here
      exact foreign ((member id).mpr here)
    exact ⟨y, other, (owns_of_owns_update other).mpr owns⟩

theorem copy [DecidableEq τ] (related : s.Simulates t) {rhs : τ} {c : PacketStruct} (vacant : t.vacant x = true)
    (small : t.vacant rhs = true) (value : t rhs = some p) (found : s.vars rhs = some c)
    (denotes : c.Denotes s.heap p) : (s.assign x (c, s.heap)).Simulates (Function.update t x (some p)) := by
  have inPlace (id : Nat) : c.member ≠ .ptr id := fun here =>
    related.not_owns_of_vacant small id ⟨by rw [value]; rfl, c, found, here⟩
  refine related.assign (Function.update_self ..) denotes (fun y other => Or.inl (Function.update_of_ne other _ _))
    (fun _ _ _ _ => rfl) (fun _ id _ _ => inPlace id) ?_
  intro id alive _
  obtain ⟨block, live⟩ := Option.isSome_iff_exists.mp alive
  obtain ⟨y, owns⟩ := related.noLeak id block live
  have other : y ≠ x := fun same => related.not_owns_of_vacant vacant id (same ▸ owns)
  exact ⟨y, other, (owns_of_owns_update other).mpr owns⟩

theorem move [DecidableEq τ] (related : s.Simulates t) {rhs : τ} {c : PacketStruct}
    (vacant : x = rhs ∨ t.vacant x = true) (value : t rhs = some p) (found : s.vars rhs = some c)
    (denotes : c.Denotes s.heap p) :
    (s.assign x (c, s.heap)).Simulates (Function.update (Function.update t rhs none) x (some p)) := by
  have own {id : Nat} (here : c.member = .ptr id) : s.Owns t rhs id := ⟨by rw [value]; rfl, c, found, here⟩
  have before {y : τ} {id : Nat} (other : y ≠ x)
      (owns : s.Owns (Function.update (Function.update t rhs none) x (some p)) y id) : y ≠ rhs ∧ s.Owns t y id := by
    rw [owns_of_owns_update other] at owns
    have apart : y ≠ rhs := by
      rintro rfl
      have isSome := owns.1
      rw [Function.update_self] at isSome
      cases isSome
    exact ⟨apart, (owns_of_owns_update apart).mp owns⟩
  refine related.assign (Function.update_self ..) denotes ?_ (fun _ _ _ _ => rfl) ?_ ?_
  · intro y other
    by_cases left : y = rhs
    · subst left
      exact Or.inr (by rw [Function.update_of_ne other, Function.update_self])
    · exact Or.inl (by rw [Function.update_of_ne other, Function.update_of_ne left])
  · intro y id other owns here
    obtain ⟨apart, owns⟩ := before other owns
    exact apart (related.apart y rhs id owns (own here))
  · intro id alive foreign
    obtain ⟨block, live⟩ := Option.isSome_iff_exists.mp alive
    obtain ⟨y, owns⟩ := related.noLeak id block live
    have apart : y ≠ rhs := by
      rintro rfl
      obtain ⟨-, c', found', here⟩ := owns
      rw [Option.some.inj (found'.symm.trans found)] at here
      exact foreign here
    have other : y ≠ x := by
      rintro rfl
      rcases vacant with same | vacant
      · exact apart same
      · exact related.not_owns_of_vacant vacant id owns
    exact ⟨y, other, (owns_of_owns_update other).mpr ((owns_of_owns_update apart).mpr owns)⟩

/-- Only the contents of a heap count. -/
theorem of_get? (related : s.Simulates t) {heap : Heap (List UInt8)} (same : heap.get? = s.heap.get?) :
    Simulates ⟨s.vars, heap⟩ t where
  held y q set := by
    obtain ⟨c, found, denotes⟩ := related.held y q set
    exact ⟨c, found, denotes.congr fun id _ => congrFun same id⟩
  apart := related.apart
  noLeak id block live := related.noLeak id block (by rw [← same]; exact live)

/-- A deleted packet gives back its block, and no other one loses its own. -/
theorem release [DecidableEq τ] (related : s.Simulates t) {c : PacketStruct} {heap : Heap (List UInt8)} {id : Nat}
    (value : t x = some p) (found : s.vars x = some c) (member : c.member = .ptr id)
    (freed : heap.get? = Function.update s.heap.get? id none) :
    Simulates ⟨s.vars, heap⟩ (Function.update t x none) := by
  have mine : s.Owns t x id := ⟨by rw [value]; rfl, c, found, member⟩
  have before {y : τ} {j : Nat} (owns : Owns ⟨s.vars, heap⟩ (Function.update t x none) y j) :
      y ≠ x ∧ s.Owns t y j := by
    have other : y ≠ x := by
      rintro rfl
      have isSome := owns.1
      rw [Function.update_self] at isSome
      cases isSome
    exact ⟨other, (owns_of_owns_update other).mp owns⟩
  refine ⟨?_, ?_, ?_⟩
  · intro y q set
    have other : y ≠ x := by
      rintro rfl
      rw [Function.update_self] at set
      cases set
    rw [Function.update_of_ne other] at set
    obtain ⟨d, found', holds⟩ := related.held y q set
    refine ⟨d, found', holds.congr fun j here => ?_⟩
    have apart : j ≠ id := by
      rintro rfl
      exact other (related.apart y x j ⟨by rw [set]; rfl, d, found', here⟩ mine)
    rw [freed, Function.update_of_ne apart]
  · intro y z j ownsY ownsZ
    exact related.apart y z j (before ownsY).2 (before ownsZ).2
  · intro j block live
    have foreign : j ≠ id := by
      rintro rfl
      rw [freed, Function.update_self] at live
      cases live
    rw [freed, Function.update_of_ne foreign] at live
    obtain ⟨y, owns⟩ := related.noLeak j block live
    have other : y ≠ x := by
      rintro rfl
      obtain ⟨-, c', found', here⟩ := owns
      rw [Option.some.inj (found'.symm.trans found), member] at here
      exact foreign (Member.ptr.inj here).symm
    exact ⟨y, (owns_of_owns_update other).mpr owns⟩

theorem delete [DecidableEq τ] (related : s.Simulates t) {c : PacketStruct} (value : t x = some p)
    (found : s.vars x = some c) (denotes : c.Denotes s.heap p) :
    ∃ heap, c.delete abi s.heap = some heap ∧
      Simulates ⟨s.vars, heap⟩ (if t.vacant x then t else Function.update t x none) := by
  have vacant : t.vacant x = decide (p.len.toNat ≤ abi.ptrSize) := by rw [Packets.vacant, value, Option.all_some]
  have len := denotes.len
  have fits := p.fits
  rw [PacketStruct.delete, len]
  cases member : c.member with
  | data bytes =>
    rw [denotes.inPlace member] at fits
    rw [vacant, decide_eq_true fits.1, if_pos rfl]
    exact ⟨s.heap, if_neg (Nat.not_lt.mpr fits.1), related⟩
  | ptr id =>
    obtain ⟨block, -, live⟩ := denotes.live member
    obtain ⟨heap, freed, gone⟩ := Heap.free_of_live live
    have large := denotes.large_of_ptr member
    rw [vacant, decide_eq_false (Nat.not_le.mpr large), if_neg Bool.false_ne_true]
    exact ⟨heap, by rw [if_pos large]; exact freed, related.release value found member gone⟩

theorem store [DecidableEq τ] (related : s.Simulates t) {c : PacketStruct} (value : t x = some p)
    (found : s.vars x = some c) (denotes : c.Denotes s.heap p) {i : Nat} (inside : i < p.getData.length) (b : UInt8) :
    ∃ r, c.store abi i b s.heap = some r ∧ (s.assign x r).Simulates (Function.update t x (some (p.setByte i b))) := by
  have fits := p.fits
  rw [PacketStruct.store, denotes.getData, Option.bind_eq_bind, Option.bind_some, Dcp2.store, if_pos inside,
    Option.bind_some, PacketStruct.setData, denotes.len]
  cases member : c.member with
  | data bytes =>
    have storage := denotes.inPlace member
    rw [storage] at fits
    have data : p.getData = bytes := by rw [Packet.getData, if_pos fits.1, storage]
    refine ⟨_, if_pos fits.1, related.replace value found (fun id => ?_) ⟨?_, ?_⟩ fun _ _ => rfl⟩
    · exact iff_of_false Member.noConfusion fun here => Member.noConfusion (member.symm.trans here)
    · rw [denotes.fields]
      rfl
    · show (p.setByte i b).storage = .data (p.getData.set i b)
      rw [data]
      simp only [Packet.setByte, storage]
  | ptr id =>
    obtain ⟨block, storage, live⟩ := denotes.live member
    rw [storage] at fits
    have large : ¬p.len.toNat ≤ abi.ptrSize := Nat.not_le.mpr fits.1
    have data : p.getData = block := by rw [Packet.getData, if_neg large, storage]
    obtain ⟨heap, written, changed⟩ := Heap.put_of_live live (p.getData.set i b)
    refine ⟨(c, heap), ?_, related.replace value found (fun _ => Iff.rfl) ⟨?_, ?_⟩ fun j foreign => ?_⟩
    · simp only [if_neg large, written, Option.map_some]
    · rw [denotes.fields]
      rfl
    · rw [member]
      refine ⟨p.getData.set i b, ?_, by rw [changed, Function.update_self]⟩
      rw [data]
      simp only [Packet.setByte, storage]
    · have other : j ≠ id := fun same => foreign (same ▸ member)
      rw [changed, Function.update_of_ne other]

/-- A variable that has a value has the structure of it. -/
theorem packet (related : s.Simulates t) (isSome : (t x).isSome = true) :
    ∃ p c, t x = some p ∧ s.vars x = some c ∧ c.Denotes s.heap p := by
  obtain ⟨p, value⟩ := Option.isSome_iff_exists.mp isSome
  obtain ⟨c, found, denotes⟩ := related.held x p value
  exact ⟨p, c, value, found, denotes⟩

theorem packet_inside (related : s.Simulates t) {i : Nat} (inside : (t x).any (fun p => i < p.getData.length) = true) :
    ∃ p c, t x = some p ∧ s.vars x = some c ∧ c.Denotes s.heap p ∧ i < p.getData.length := by
  obtain ⟨p, value, bound⟩ := (Option.any_eq_true ..).mp inside
  obtain ⟨c, found, denotes⟩ := related.held x p value
  exact ⟨p, c, value, found, denotes, of_decide_eq_true bound⟩

/-- The use goes through in memory and on values, and the same is seen. -/
def Alike [DecidableEq τ] (junk : Nat → UInt8) (s : PacketProgram τ) (t : Packets τ abi) (use : Use τ) : Prop :=
  ∃ s' t' o, PacketProgram.step abi junk use s = some (s', o) ∧ Packets.step junk use t = some (t', o) ∧
    s'.Simulates t'

section Steps

variable [DecidableEq τ] {junk : Nat → UInt8} {rhs : τ}

theorem step_new (related : s.Simulates t) (vacant : t.vacant x = true) (size : UInt8) :
    Alike junk s t (.new x size) := by
  refine ⟨_, _, .nothing, ?_, rfl, related.create vacant (Packet.new abi size)⟩
  rw [PacketProgram.step, PacketStruct.new_eq]

theorem step_receive (related : s.Simulates t) {data : List UInt8} (safe : ReadSafe data) (vacant : t.vacant x = true) :
    Alike junk s t (.receive x data) := by
  have decodes : ((fromBytes abi data.length).value data).isSome := isSome_value_fromBytes safe
  obtain ⟨r, decoded⟩ := Option.isSome_iff_exists.mp decodes
  refine ⟨_, _, .verdict r.stop r.error, ?_, ?_, related.create vacant r.packet⟩
  · simp only [PacketProgram.step, PacketStruct.fromBytes_eq, decoded, Option.map_some, Option.bind_eq_bind,
      Option.bind_some]
    rfl
  · simp only [Packets.step, decoded, Option.bind_eq_bind, Option.bind_some]
    rfl

theorem step_setFields (related : s.Simulates t) (isSome : (t x).isSome = true) (dst src : BitVec 4) (cmd : BitVec 5)
    (ack : BitVec 2) (req : BitVec 1) : Alike junk s t (.setFields x dst src cmd ack req) := by
  obtain ⟨p, c, value, found, denotes⟩ := related.packet isSome
  let set : PacketStruct := { c with dst := dst, src := src, cmd := cmd, ack := ack, req := req }
  have changed : set.Denotes s.heap { p with dst := dst, src := src, cmd := cmd, ack := ack, req := req } :=
    ⟨by simp only [set, Packet.withMember, denotes.len], denotes.bytes⟩
  have member (id : Nat) : set.member = .ptr id ↔ c.member = .ptr id := Iff.rfl
  refine ⟨_, _, .nothing, ?_, ?_, related.replace value found member changed fun _ _ => rfl⟩
  · simp only [PacketProgram.step, found, Option.bind_eq_bind, Option.bind_some]
    rfl
  · simp only [Packets.step, value, Option.bind_eq_bind, Option.bind_some]
    rfl

theorem step_store (related : s.Simulates t) {i : Nat} (inside : (t x).any (fun p => i < p.getData.length) = true)
    (b : UInt8) : Alike junk s t (.store x i b) := by
  obtain ⟨p, c, value, found, denotes, bound⟩ := related.packet_inside inside
  obtain ⟨r, stored, next⟩ := related.store value found denotes bound b
  refine ⟨_, _, .nothing, ?_, ?_, next⟩
  · simp only [PacketProgram.step, found, Option.bind_eq_bind, Option.bind_some, stored]
    rfl
  · simp only [Packets.step, value, Option.bind_eq_bind, Option.bind_some, if_pos bound]

theorem step_load (related : s.Simulates t) {i : Nat} (inside : (t x).any (fun p => i < p.getData.length) = true) :
    Alike junk s t (.load x i) := by
  obtain ⟨p, c, value, found, denotes, bound⟩ := related.packet_inside inside
  have read := List.getElem?_eq_getElem bound
  refine ⟨s, t, .byte p.getData[i], ?_, ?_, related⟩
  · simp only [PacketProgram.step, found, Option.bind_eq_bind, Option.bind_some, denotes.getData, read]
    rfl
  · simp only [Packets.step, value, Option.bind_eq_bind, Option.bind_some, read]
    rfl

theorem step_send (related : s.Simulates t) (isSome : (t x).isSome = true) : Alike junk s t (.send x) := by
  obtain ⟨p, c, value, found, denotes⟩ := related.packet isSome
  have sent := toBytes_eq junk p
  refine ⟨⟨s.vars, s.heap.skip⟩, t, .bytes p.contents.frame, ?_, ?_, related.of_get? rfl⟩
  · simp only [PacketProgram.step, found, Option.bind_eq_bind, Option.bind_some, denotes.toBytes sent]
    rfl
  · simp only [Packets.step, value, Option.bind_eq_bind, Option.bind_some, sent]
    rfl

theorem step_copy (related : s.Simulates t) (isSome : (t rhs).isSome = true) (vacant : t.vacant x = true)
    (small : t.vacant rhs = true) : Alike junk s t (.copy x rhs) := by
  obtain ⟨p, c, value, found, denotes⟩ := related.packet isSome
  refine ⟨_, _, .nothing, ?_, ?_, related.copy vacant small value found denotes⟩
  · simp only [PacketProgram.step, found, Option.bind_eq_bind, Option.bind_some]
    rfl
  · simp only [Packets.step, value, Option.bind_eq_bind, Option.bind_some]
    rfl

theorem step_move (related : s.Simulates t) (isSome : (t rhs).isSome = true) (vacant : x = rhs ∨ t.vacant x = true) :
    Alike junk s t (.move x rhs) := by
  obtain ⟨p, c, value, found, denotes⟩ := related.packet isSome
  refine ⟨_, _, .nothing, ?_, ?_, related.move vacant value found denotes⟩
  · simp only [PacketProgram.step, found, Option.bind_eq_bind, Option.bind_some]
    rfl
  · simp only [Packets.step, value, Option.bind_eq_bind, Option.bind_some]
    rfl

theorem step_delete (related : s.Simulates t) (isSome : (t x).isSome = true) : Alike junk s t (.delete x) := by
  obtain ⟨p, c, value, found, denotes⟩ := related.packet isSome
  obtain ⟨heap, freed, next⟩ := related.delete value found denotes
  refine ⟨_, _, .nothing, ?_, ?_, next⟩
  · simp only [PacketProgram.step, found, Option.bind_eq_bind, Option.bind_some, freed]
    rfl
  · simp only [Packets.step, value, Option.bind_eq_bind, Option.bind_some]
    rfl

/-- One use of packets in memory is the use of their values. -/
theorem step (related : s.Simulates t) (use : Use τ) (allowed : Packets.Allowed use t) : Alike junk s t use := by
  cases use with
  | new x size => exact related.step_new allowed size
  | receive x data => exact related.step_receive allowed.1 allowed.2
  | setFields x dst src cmd ack req => exact related.step_setFields allowed dst src cmd ack req
  | store x i b => exact related.step_store allowed b
  | load x i => exact related.step_load allowed
  | send x => exact related.step_send allowed
  | copy x rhs => exact related.step_copy allowed.1 allowed.2.1 allowed.2.2
  | move x rhs => exact related.step_move allowed.1 allowed.2
  | delete x => exact related.step_delete allowed

end Steps

end Simulates

theorem simulates_run [DecidableEq τ] {junk : Nat → UInt8} {uses : List (Use τ)}
    (allowed : Machine.Admissible Packets.Allowed (Packets.step junk) uses (Packets.start : Packets τ abi)) :
    ∃ (t : Packets τ abi) (s : PacketProgram τ) (seen : List Seen),
      Machine.run (Packets.step junk) uses Packets.start = some (t, seen) ∧
      Machine.run (step abi junk) uses start = some (s, seen) ∧ s.Simulates t := by
  refine Machine.run_simulates (R := fun (t : Packets τ abi) (s : PacketProgram τ) => s.Simulates t)
    (fun use t s related here => ?_) simulates_start allowed
  obtain ⟨s', t', o, stepped, stepped', next⟩ := related.step use here
  exact ⟨t', s', o, stepped', stepped, next⟩

/-- The address stays in a deleted structure. -/
theorem delete_again {h : Heap (List UInt8)} {c : PacketStruct} {p : Packet abi} (denotes : c.Denotes h p) :
    ∃ h', c.delete abi h = some h' ∧ (c.delete abi h' = none ↔ abi.ptrSize < p.len.toNat) := by
  have len := denotes.len
  have fits := p.fits
  cases member : c.member with
  | data bytes =>
    rw [denotes.inPlace member] at fits
    have small : ¬abi.ptrSize < p.len.toNat := Nat.not_lt.mpr fits.1
    have kept : c.delete abi h = some h := by rw [PacketStruct.delete, len, if_neg small]
    exact ⟨h, kept, iff_of_false (by rw [kept]; exact Option.some_ne_none h) small⟩
  | ptr id =>
    obtain ⟨block, -, live⟩ := denotes.live member
    obtain ⟨h', freed, gone⟩ := Heap.free_of_live live
    have large := denotes.large_of_ptr member
    have dead : ¬(h'.get? id).isSome := by
      rw [gone, Function.update_self]
      exact Bool.false_ne_true
    have frees (heap : Heap (List UInt8)) : c.delete abi heap = heap.free id := by
      rw [PacketStruct.delete, len, if_pos large, member]
    exact ⟨h', by rw [frees, freed], iff_of_true (by rw [frees]; exact dif_neg dead) large⟩

end PacketProgram

end Rbc.Dcp2
