import Rbc.Dcp2.Packet
import Mathlib.Data.UInt

namespace Rbc.Dcp2

open BoundedReader

/-- What a packet says, whichever way its payload is stored. -/
structure Contents where
  dst : BitVec 4
  src : BitVec 4
  cmd : BitVec 5
  ack : BitVec 2
  req : BitVec 1
  payload : List UInt8
  short : payload.length < 256
  deriving DecidableEq

theorem Packet.length_getData {abi : Abi} (self : Packet abi) :
    self.getData.length = if self.len.toNat ≤ abi.ptrSize then abi.ptrSize else self.len.toNat := by
  have fits := self.fits
  unfold Packet.getData
  cases same : self.storage with
  | data bytes =>
    rw [same] at fits
    simp only [if_pos fits.1, fits.2]
  | ptr block =>
    rw [same] at fits
    simp only [if_neg (Nat.not_le.mpr fits.1), fits.2]

theorem Packet.len_le_length_getData {abi : Abi} (self : Packet abi) :
    self.len.toNat ≤ self.getData.length := by
  rw [self.length_getData]
  split <;> omega

theorem Packet.length_payload {abi : Abi} (self : Packet abi) :
    self.payload.length = self.len.toNat := by
  rw [Packet.payload, List.length_take, Nat.min_eq_left self.len_le_length_getData]

def Packet.contents {abi : Abi} (self : Packet abi) : Contents where
  dst := self.dst
  src := self.src
  cmd := self.cmd
  ack := self.ack
  req := self.req
  payload := self.payload
  short := by rw [self.length_payload]; exact self.len.toNat_lt

namespace Contents

def len (c : Contents) : UInt8 := UInt8.ofNat c.payload.length

def address (c : Contents) : UInt8 := UInt8.ofNat (c.dst.toNat + 16 * c.src.toNat)

def control (c : Contents) : UInt8 := UInt8.ofNat (c.cmd.toNat + 32 * c.ack.toNat + 128 * c.req.toNat)

/-- Header and payload, all that the packet checksum covers. -/
def body (c : Contents) : List UInt8 :=
  [c.address, c.control, c.len, 0x89 + c.address + c.control + c.len] ++ c.payload

/-- The frame format: an empty payload has no packet checksum. -/
def frame (c : Contents) : List UInt8 :=
  c.body ++ if c.payload = [] then [] else [c.body.sum]

theorem length_body (c : Contents) : c.body.length = 4 + c.payload.length := by
  simp only [body, List.length_append, List.length_cons, List.length_nil]

theorem length_frame (c : Contents) :
    c.frame.length = 4 + c.payload.length + (if c.payload = [] then 0 else 1) := by
  rw [frame, List.length_append, length_body]
  split <;> rfl

theorem toNat_len (c : Contents) : c.len.toNat = c.payload.length :=
  UInt8.toNat_ofNat_of_lt' c.short

theorem toNat_address (c : Contents) : c.address.toNat = c.dst.toNat + 16 * c.src.toNat :=
  UInt8.toNat_ofNat_of_lt' (by
    have := c.dst.isLt; have := c.src.isLt
    simp only [UInt8.size]; omega)

theorem toNat_control (c : Contents) :
    c.control.toNat = c.cmd.toNat + 32 * c.ack.toNat + 128 * c.req.toNat :=
  UInt8.toNat_ofNat_of_lt' (by
    have := c.cmd.isLt; have := c.ack.isLt; have := c.req.isLt
    simp only [UInt8.size]; omega)

end Contents

theorem Packet.contents_len {abi : Abi} (self : Packet abi) : self.contents.len = self.len := by
  apply UInt8.toNat_inj.mp
  rw [Contents.toNat_len]
  exact self.length_payload

/-- Within the buffer the loop of `packet_crc` adds up the bytes it passes. -/
theorem value_packetCrcLoop (buffer : List UInt8) (n idx : Nat) (crc : UInt8)
    (within : idx + n ≤ buffer.length) :
    (packetCrcLoop n idx crc).value buffer = some (crc + ((buffer.drop idx).take n).sum) := by
  induction n generalizing idx crc with
  | zero => simp [packetCrcLoop]
  | succ n ih =>
    have here : idx < buffer.length := by omega
    rw [packetCrcLoop, value_bind, value_tick, Option.bind_some, value_bind, value_read_natCast,
      List.getElem?_eq_getElem here, Option.bind_some, ih (idx + 1) _ (by omega),
      List.drop_eq_getElem_cons here, List.take_succ_cons, List.sum_cons, add_assoc]

theorem value_packetCrc (buffer : List UInt8) (n : Nat) (within : n ≤ buffer.length) :
    (packetCrc n).value buffer = some (buffer.take n).sum := by
  rw [packetCrc, value_packetCrcLoop buffer n 0 0 (by omega), List.drop_zero, zero_add]

theorem value_headerCrc (b0 b1 b2 : UInt8) (rest : List UInt8) :
    headerCrc.value (b0 :: b1 :: b2 :: rest) = some (0x89 + b0 + b1 + b2) := rfl

theorem store_eq {data : List UInt8} {i : Nat} (within : i < data.length) (b : UInt8) :
    store data i b = some (data.set i b) := if_pos within

theorem copy_eq {data source : List UInt8} {offset n : Nat} (enough : n ≤ source.length)
    (within : offset + n ≤ data.length) : copy data offset source n =
      some (data.take offset ++ source.take n ++ data.drop (offset + n)) := if_pos ⟨enough, within⟩

/-- On a block with room the stores and the copy produce the checksummed part
of the frame and leave the bytes after it. -/
theorem writeBody_eq {abi : Abi} (self : Packet abi) (data : List UInt8)
    (room : 4 + self.len.toNat ≤ data.length) :
    writeBody self data = some (self.contents.body ++ data.drop (4 + self.len.toNat)) := by
  have address : UInt8.ofNat (self.dst.toNat + self.src.toNat <<< 4) = self.contents.address := by
    simp only [Contents.address, Packet.contents, Nat.shiftLeft_eq, Nat.mul_comm]
  have control : UInt8.ofNat (self.cmd.toNat + self.ack.toNat <<< 5 + self.req.toNat <<< 7) =
      self.contents.control := by
    simp only [Contents.control, Packet.contents, Nat.shiftLeft_eq, Nat.mul_comm]
  match data, room with
  | j0 :: j1 :: j2 :: j3 :: rest, room =>
    have copied : ∀ a b c d : UInt8, copy (a :: b :: c :: d :: rest) 4 self.getData self.len.toNat =
        some ([a, b, c, d] ++ self.payload ++ (j0 :: j1 :: j2 :: j3 :: rest).drop (4 + self.len.toNat)) := by
      intro a b c d
      rw [copy_eq self.len_le_length_getData (by simpa only [List.length_cons] using room),
        ← List.drop_drop, ← List.drop_drop]
      rfl
    simp only [writeBody, address, control, store, List.length_cons, Nat.zero_lt_succ, if_true,
      List.set_cons_zero, List.set_cons_succ, Nat.succ_lt_succ_iff, value_headerCrc,
      Option.bind_eq_bind, Option.bind_some, copied, Contents.body, self.contents_len]
    rfl
  | [], room | [_], room | [_, _], room | [_, _, _], room => simp at room <;> omega

/-- The encoder leaves no byte of its fresh block as it was and writes the
frame of what the packet says. -/
theorem toBytes_eq {abi : Abi} (junk : Nat → UInt8) (self : Packet abi) :
    toBytes junk self = some self.contents.frame := by
  have bound := self.len.toNat_lt
  have payload : self.contents.payload.length = self.len.toNat := self.length_payload
  have bodyLength := self.contents.length_body
  rw [payload] at bodyLength
  have size : ∀ flag : Bool, abi.toUsize (4 + self.len.toNat + flag.toNat) =
      4 + self.len.toNat + flag.toNat := by
    intro flag
    have := Bool.toNat_le flag
    exact_mod_cast abi.toUsize_of_lt (n := 4 + self.len.toNat + flag.toNat) (by omega)
  have length : ∀ n, (arrayU8New junk n).length = n := fun n => by
    rw [arrayU8New, List.length_map, List.length_range]
  unfold toBytes
  simp only [size]
  rw [writeBody_eq self _ (by rw [length]; omega)]
  by_cases empty : self.len = 0
  · have none : self.contents.payload = [] := List.eq_nil_of_length_eq_zero (by rw [payload, empty]; rfl)
    have flag : decide (0 < self.len) = false := by rw [empty]; rfl
    rw [flag, Option.bind_eq_bind, Option.bind_some, if_neg (by decide),
      List.drop_eq_nil_of_le (by rw [length, Bool.toNat_false, Nat.add_zero]), Contents.frame, if_pos none]
    rfl
  · have positive : self.contents.payload ≠ [] := by
      intro none
      rw [none, List.length_nil] at payload
      exact empty (UInt8.toNat_inj.mp payload.symm)
    have flag : decide (0 < self.len) = true := decide_eq_true (UInt8.pos_iff_ne_zero.mpr empty)
    rw [flag, Option.bind_eq_bind, Option.bind_some, if_pos rfl, Bool.toNat_true, Nat.add_sub_cancel]
    have tail : ((arrayU8New junk (4 + self.len.toNat + 1)).drop (4 + self.len.toNat)).length = 1 := by
      rw [List.length_drop, length]; omega
    obtain ⟨last, tail⟩ := List.length_eq_one_iff.mp tail
    rw [tail, value_packetCrc _ _ (by simp only [List.length_append, bodyLength, List.length_singleton]; omega),
      ← bodyLength, List.take_left, Option.bind_eq_bind, Option.bind_some,
      store_eq (by simp), Contents.frame, if_neg positive]
    simp

end Rbc.Dcp2
