import Rbc.Basis.Checksum
import Rbc.Dcp2.Frame

namespace Rbc.Dcp2

open BoundedReader Checksum

/-- There is a header and its checksum is right. -/
def HeaderIntact (data : List UInt8) : Prop := CheckedAt 0x89 3 data

instance (data : List UInt8) : Decidable (HeaderIntact data) :=
  inferInstanceAs (Decidable (CheckedAt _ _ _))

/-- The byte at `n` is the sum of all bytes before it. -/
def SumAt (data : List UInt8) (n : Nat) : Prop := CheckedAt 0 n data

instance (data : List UInt8) (n : Nat) : Decidable (SumAt data n) :=
  inferInstanceAs (Decidable (CheckedAt _ _ _))

def announced (data : List UInt8) : UInt8 := data.getD 2 0

/-- The number of bytes of a frame, as an integer. -/
def frameLength (len : UInt8) : Nat := 4 + len.toNat + if len = 0 then 0 else 1

theorem Contents.frame_length_eq (c : Contents) : c.frame.length = frameLength c.len := by
  have same : c.payload = [] ↔ c.len = 0 := by
    rw [← UInt8.toNat_inj, c.toNat_len, UInt8.toNat_zero, List.length_eq_zero_iff]
  simp only [Contents.length_frame, frameLength, c.toNat_len, same]

theorem exists_header {data : List UInt8} (long : 4 ≤ data.length) :
    ∃ b0 b1 b2 b3 rest, data = b0 :: b1 :: b2 :: b3 :: rest := by
  match data, long with
  | b0 :: b1 :: b2 :: b3 :: rest, _ => exact ⟨b0, b1, b2, b3, rest, rfl⟩
  | [], long | [_], long | [_, _], long | [_, _, _], long => simp at long

theorem HeaderIntact.four_le_length {data : List UInt8} (intact : HeaderIntact data) : 4 ≤ data.length := by
  exact intact.lt_length

theorem Contents.eq_of_parts {c d : Contents} (address : c.address = d.address)
    (control : c.control = d.control) (payload : c.payload = d.payload) : c = d := by
  have address := congrArg UInt8.toNat address
  have control := congrArg UInt8.toNat control
  rw [c.toNat_address, d.toNat_address] at address
  rw [c.toNat_control, d.toNat_control] at control
  have := c.dst.isLt; have := d.dst.isLt
  have := c.cmd.isLt; have := d.cmd.isLt
  have := c.ack.isLt; have := d.ack.isLt
  cases c
  cases d
  simp only [mk.injEq] at *
  refine ⟨?_, ?_, ?_, ?_, ?_, payload⟩ <;> apply BitVec.eq_of_toNat_eq <;> omega

theorem take_overwrite {object source : List UInt8} (enough : source.length ≤ object.length) :
    (overwrite object source).take source.length = source := by
  rw [overwrite, List.take_of_length_le enough, List.take_left]

theorem Packet.payload_copyToData {abi : Abi} (self : Packet abi) (source : List UInt8)
    (length : source.length = self.len.toNat) : (self.copyToData source).payload = source := by
  match self, length with
  | ⟨_, _, _, _, _, len, .data bytes, fits⟩, length =>
    have inline : source.length ≤ abi.ptrSize := length.le.trans fits.1
    have enough : source.length ≤ bytes.length := inline.trans fits.2.ge
    simp only [Packet.payload, Packet.getData, Packet.copyToData, ← length, if_pos inline,
      take_overwrite enough]
  | ⟨_, _, _, _, _, len, .ptr block, fits⟩, length =>
    have heap : ¬source.length ≤ abi.ptrSize := Nat.not_le.mpr (fits.1.trans_eq length.symm)
    have enough : source.length ≤ block.length := (length.trans fits.2.symm).le
    simp only [Packet.payload, Packet.getData, Packet.copyToData, ← length, if_neg heap,
      take_overwrite enough]

/-- The shifts and masks of the decoder undo the sums of the encoder. -/
theorem unpacked_address (b : UInt8) :
    UInt8.ofNat ((BitVec.ofNat 4 (b.toNat &&& 0x0F)).toNat +
      16 * (BitVec.ofNat 4 ((b.toNat >>> 4) &&& 0x0F)).toNat) = b := by
  have bound := b.toNat_lt
  have low : b.toNat &&& 0x0F = b.toNat % 16 := Nat.and_two_pow_sub_one_eq_mod _ 4
  have high : (b.toNat >>> 4) &&& 0x0F = b.toNat / 16 % 16 := by
    rw [Nat.shiftRight_eq_div_pow]
    exact Nat.and_two_pow_sub_one_eq_mod _ 4
  apply UInt8.toNat_inj.mp
  rw [UInt8.toNat_ofNat', BitVec.toNat_ofNat, BitVec.toNat_ofNat, low, high]
  omega

theorem unpacked_control (b : UInt8) :
    UInt8.ofNat ((BitVec.ofNat 5 (b.toNat &&& 0x1F)).toNat +
      32 * (BitVec.ofNat 2 ((b.toNat >>> 5) &&& 0x03)).toNat +
      128 * (BitVec.ofNat 1 ((b.toNat >>> 7) &&& 0x01)).toNat) = b := by
  have bound := b.toNat_lt
  have low : b.toNat &&& 0x1F = b.toNat % 32 := Nat.and_two_pow_sub_one_eq_mod _ 5
  have middle : (b.toNat >>> 5) &&& 0x03 = b.toNat / 32 % 4 := by
    rw [Nat.shiftRight_eq_div_pow]
    exact Nat.and_two_pow_sub_one_eq_mod _ 2
  have high : (b.toNat >>> 7) &&& 0x01 = b.toNat / 128 % 2 := by
    rw [Nat.shiftRight_eq_div_pow]
    exact Nat.and_two_pow_sub_one_eq_mod _ 1
  apply UInt8.toNat_inj.mp
  rw [UInt8.toNat_ofNat', BitVec.toNat_ofNat, BitVec.toNat_ofNat, BitVec.toNat_ofNat, low, middle, high]
  omega

theorem value_readPacket (abi : Abi) {len b0 b1 b2 b3 : UInt8} {rest : List UInt8}
    (enough : len.toNat ≤ rest.length) : ∃ packet,
      (readPacket abi len).value (b0 :: b1 :: b2 :: b3 :: rest) = some packet ∧
      packet.contents.address = b0 ∧ packet.contents.control = b1 ∧ packet.len = len ∧
      packet.contents.payload = rest.take len.toNat := by
  have block : (readBlock 4 len.toNat).value (b0 :: b1 :: b2 :: b3 :: rest) =
      some (rest.take len.toNat) :=
    value_readBlock _ 4 len.toNat (by simp only [List.length_cons]; omega)
  refine ⟨Packet.copyToData { Packet.new abi len with
    dst := BitVec.ofNat 4 (b0.toNat &&& 0x0F)
    src := BitVec.ofNat 4 ((b0.toNat >>> 4) &&& 0x0F)
    cmd := BitVec.ofNat 5 (b1.toNat &&& 0x1F)
    ack := BitVec.ofNat 2 ((b1.toNat >>> 5) &&& 0x03)
    req := BitVec.ofNat 1 ((b1.toNat >>> 7) &&& 0x01) } (rest.take len.toNat), ?_,
    unpacked_address b0, unpacked_control b1, rfl,
    Packet.payload_copyToData _ _ (List.length_take_of_le enough)⟩
  simp only [readPacket, value_bind, block]
  rfl

/-- With a truncated payload the copy leaves the buffer. -/
theorem value_readPacket_of_lt (abi : Abi) {len b0 b1 b2 b3 : UInt8} {rest : List UInt8}
    (short : rest.length < len.toNat) :
    (readPacket abi len).value (b0 :: b1 :: b2 :: b3 :: rest) = none := by
  have block : (readBlock 4 len.toNat).value (b0 :: b1 :: b2 :: b3 :: rest) = none :=
    value_readBlock_of_lt _ 4 len.toNat (by simp only [List.length_cons]; omega) (by omega)
  simp only [readPacket, value_bind, block]
  rfl

theorem value_fromBytes_short (abi : Abi) {size : Nat} (data : List UInt8) (short : size < 4) :
    (fromBytes abi size).value data = some (.failed abi .needMoreData) := by
  rw [fromBytes, if_pos short]
  rfl

theorem value_fromBytes_of_not_intact (abi : Abi) {data : List UInt8} (long : 4 ≤ data.length)
    (broken : ¬HeaderIntact data) :
    (fromBytes abi data.length).value data = some (.failed abi .invalidHeaderCrc) := by
  obtain ⟨b0, b1, b2, b3, rest, rfl⟩ := exists_header long
  have differs : b3 ≠ 0x89 + b0 + b1 + b2 := by
    intro same
    apply broken
    simp [HeaderIntact, CheckedAt, same, add_assoc]
  rw [fromBytes, if_neg (by simp only [List.length_cons]; omega)]
  change (if b3 ≠ 0x89 + b0 + b1 + b2 then _ else _ : BoundedReader UInt8 (Result abi)).value _ = _
  rw [if_pos differs]
  rfl

theorem value_fromBytes_of_intact (abi : Abi) {data : List UInt8} (intact : HeaderIntact data) :
    (fromBytes abi data.length).value data =
      (fromBytesBody abi data.length (announced data)).value data := by
  obtain ⟨b0, b1, b2, b3, rest, rfl⟩ := exists_header intact.four_le_length
  have same : b3 = 0x89 + b0 + b1 + b2 := by
    simpa [HeaderIntact, CheckedAt, add_assoc] using intact
  rw [fromBytes, if_neg (by simp only [List.length_cons]; omega)]
  change (if b3 ≠ 0x89 + b0 + b1 + b2 then _ else _ : BoundedReader UInt8 (Result abi)).value _ = _
  rw [if_neg (not_not.mpr same)]
  rfl

theorem packetSize_of_le {len : UInt8} (small : len.toNat ≤ 250) :
    (packetSize len).toNat = frameLength len := by
  rw [packetSize, UInt8.toNat_ofNat', frameLength]
  by_cases empty : len = 0
  · subst empty; rfl
  · have flag : (len != 0) = true := bne_iff_ne.mpr empty
    rw [flag, Bool.toNat_true, if_neg empty]
    omega

/-- From 251 on the sum wraps around. -/
theorem packetSize_of_gt {len : UInt8} (large : 250 < len.toNat) :
    (packetSize len).toNat = len.toNat - 251 := by
  have bound := len.toNat_lt
  have flag : (len != 0) = true := bne_iff_ne.mpr (by rintro rfl; simp at large)
  rw [packetSize, UInt8.toNat_ofNat', flag, Bool.toNat_true]
  omega

theorem value_packetCrcDiffers (abi : Abi) {len size : UInt8} {data : List UInt8}
    (positive : 0 < size.toNat) (within : size.toNat ≤ data.length) :
    (packetCrcDiffers abi len size).value data = some (decide (len ≠ 0 ∧ ¬SumAt data (size.toNat - 1))) := by
  by_cases empty : len = 0
  · simp [packetCrcDiffers, empty]
  · have bound := size.toNat_lt
    have last : size.toNat - 1 < data.length := by omega
    have index : (size.toNat : Int) - 1 = (size.toNat - 1 : Nat) := by omega
    rw [packetCrcDiffers, if_neg empty, index, abi.toUsize_of_lt (by omega), value_bind,
      value_packetCrc _ _ (by omega), Option.bind_some, value_bind, value_read_natCast,
      List.getElem?_eq_getElem last, Option.bind_some, value_pure]
    congr 1
    rw [Bool.eq_iff_iff, bne_iff_ne, decide_eq_true_eq, SumAt, CheckedAt, zero_add,
      List.getElem?_eq_getElem last, Option.some_inj]
    exact ⟨fun differs => ⟨empty, fun same => differs same.symm⟩, fun bad same => bad.2 same.symm⟩

/-- A packet size of zero makes the decoder read the byte before the data. -/
theorem value_packetCrcDiffers_zero (abi : Abi) {len size : UInt8} {data : List UInt8}
    (nonempty : len ≠ 0) (zero : size.toNat = 0) : (packetCrcDiffers abi len size).value data = none := by
  have before : (read ((size.toNat : Int) - 1)).value data = none :=
    value_read_of_neg data (by omega)
  rw [packetCrcDiffers, if_neg nonempty, value_bind]
  cases (packetCrc (abi.toUsize ((size.toNat : Int) - 1))).value data with
  | none => rfl
  | some crc => rw [Option.bind_some, value_bind, before, Option.bind_none]

theorem value_fromBytesBody_short (abi : Abi) {data : List UInt8} {len : UInt8}
    (short : data.length < (packetSize len).toNat) :
    (fromBytesBody abi data.length len).value data = some (.failed abi .needMoreData) := by
  rw [fromBytesBody, if_pos short]
  rfl

theorem value_fromBytesBody_zero (abi : Abi) {data : List UInt8} {len : UInt8}
    (nonempty : len ≠ 0) (zero : (packetSize len).toNat = 0) :
    (fromBytesBody abi data.length len).value data = none := by
  rw [fromBytesBody, if_neg (by omega), value_bind, value_packetCrcDiffers_zero abi nonempty zero]
  rfl

theorem value_fromBytesBody (abi : Abi) {data : List UInt8} {len : UInt8}
    (positive : 0 < (packetSize len).toNat) (within : (packetSize len).toNat ≤ data.length) :
    (fromBytesBody abi data.length len).value data =
      if len ≠ 0 ∧ ¬SumAt data ((packetSize len).toNat - 1) then some (.failed abi .invalidPacketCrc)
      else ((readPacket abi len).value data).map fun packet => ⟨packet, (packetSize len).toNat, .ok⟩ := by
  rw [fromBytesBody, if_neg (Nat.not_lt.mpr within), value_bind,
    value_packetCrcDiffers abi positive within, Option.bind_some]
  by_cases bad : len ≠ 0 ∧ ¬SumAt data ((packetSize len).toNat - 1)
  · rw [if_pos bad, if_pos (decide_eq_true bad)]
    rfl
  · rw [if_neg bad, if_neg (by simpa only [decide_eq_true_eq] using bad), value_bind]
    cases (readPacket abi len).value data <;> rfl

end Rbc.Dcp2
