import Rbc.Basis.Heap
import Rbc.Dcp2.Decoder

namespace Rbc.Dcp2

variable {abi : Abi}

/-- The union of `rbc_dcp2_packet` in memory: bytes in place or the address of a block. -/
inductive Member
  | data (bytes : List UInt8)
  | ptr (id : Nat)
  deriving DecidableEq, Repr

/-- `rbc_dcp2_packet` as it is passed around and copied: a block is not part of it. -/
structure PacketStruct where
  dst : BitVec 4
  src : BitVec 4
  cmd : BitVec 5
  ack : BitVec 2
  req : BitVec 1
  len : UInt8
  member : Member
  deriving DecidableEq, Repr

namespace PacketStruct

/-- `rbc_dcp2_packet_new`; `calloc` is taken to succeed. -/
def new (abi : Abi) (size : UInt8) (h : Heap (List UInt8)) : PacketStruct × Heap (List UInt8) :=
  if size.toNat ≤ abi.ptrSize then
    (⟨0, 0, 0, 0, 0, size, .data (List.replicate abi.ptrSize 0)⟩, h)
  else
    (⟨0, 0, 0, 0, 0, size, .ptr h.next⟩, h.alloc (List.replicate size.toNat 0))

/-- `rbc_dcp2_packet_delete`. The bytes of a packet are no address of a block. -/
def delete (abi : Abi) (self : PacketStruct) (h : Heap (List UInt8)) : Option (Heap (List UInt8)) :=
  if abi.ptrSize < self.len.toNat then
    match self.member with
    | .data _ => none
    | .ptr id => h.free id
  else
    some h

/-- The bytes at `rbc_dcp2_packet_get_data`. -/
def getData (abi : Abi) (self : PacketStruct) (h : Heap (List UInt8)) : Option (List UInt8) :=
  if self.len.toNat ≤ abi.ptrSize then
    match self.member with
    | .data bytes => some bytes
    | .ptr _ => none
  else
    match self.member with
    | .data _ => none
    | .ptr id => h.get? id

/-- Writing other bytes to `rbc_dcp2_packet_get_data_mut`. -/
def setData (abi : Abi) (self : PacketStruct) (bytes : List UInt8) (h : Heap (List UInt8)) :
    Option (PacketStruct × Heap (List UInt8)) :=
  if self.len.toNat ≤ abi.ptrSize then
    some ({ self with member := .data bytes }, h)
  else
    match self.member with
    | .data _ => none
    | .ptr id => (h.put id bytes).map fun h => (self, h)

/-- `rbc_dcp2_packet_get_data_mut(self)[i] = b`. -/
def store (abi : Abi) (self : PacketStruct) (i : Nat) (b : UInt8) (h : Heap (List UInt8)) :
    Option (PacketStruct × Heap (List UInt8)) := do
  let data ← Dcp2.store (← self.getData abi h) i b
  self.setData abi data h

/-- `memcpy(rbc_dcp2_packet_get_data_mut(self), source, n)` of all of `source`. -/
def copyToData (abi : Abi) (self : PacketStruct) (source : List UInt8) (h : Heap (List UInt8)) :
    Option (PacketStruct × Heap (List UInt8)) := do
  let data ← self.getData abi h
  self.setData abi (overwrite data source) h

/-- The part of `rbc_dcp2_packet_from_bytes` that fills the packet. -/
def read (abi : Abi) (len : UInt8) (data : List UInt8) (h : Heap (List UInt8)) :
    Option (PacketStruct × Heap (List UInt8)) := do
  let (packet, h) := new abi len h
  let dst ← data[0]?
  let packet := { packet with dst := BitVec.ofNat 4 (dst.toNat &&& 0x0F) }
  let src ← data[0]?
  let packet := { packet with src := BitVec.ofNat 4 ((src.toNat >>> 4) &&& 0x0F) }
  let cmd ← data[1]?
  let packet := { packet with cmd := BitVec.ofNat 5 (cmd.toNat &&& 0x1F) }
  let ack ← data[1]?
  let packet := { packet with ack := BitVec.ofNat 2 ((ack.toNat >>> 5) &&& 0x03) }
  let req ← data[1]?
  let packet := { packet with req := BitVec.ofNat 1 ((req.toNat >>> 7) &&& 0x01) }
  let bytes ← (BoundedReader.readBlock 4 len.toNat).value data
  packet.copyToData abi bytes h

/-- The packet, the offset of `end` and the error that `rbc_dcp2_packet_from_bytes(data, size)` gives. -/
def fromBytes (abi : Abi) (data : List UInt8) (h : Heap (List UInt8)) :
    Option ((PacketStruct × Nat × Error) × Heap (List UInt8)) :=
  if data.length < 4 then
    some (((new abi 0 h).1, 0, .needMoreData), h)
  else do
    let stored ← data[3]?
    let crc ← headerCrc.value data
    if stored ≠ crc then
      some (((new abi 0 h).1, 0, .invalidHeaderCrc), h)
    else do
      let len ← data[2]?
      if data.length < (packetSize len).toNat then
        some (((new abi 0 h).1, 0, .needMoreData), h)
      else do
        let differs ← (packetCrcDiffers abi len (packetSize len)).value data
        if differs then
          some (((new abi 0 h).1, 0, .invalidPacketCrc), h)
        else do
          let (packet, h) ← read abi len data h
          some ((packet, (packetSize len).toNat, .ok), h)

/-- The part of `rbc_dcp2_packet_to_bytes` that writes header and payload. -/
def writeBody (abi : Abi) (self : PacketStruct) (data : List UInt8) (h : Heap (List UInt8)) : Option (List UInt8) := do
  let data ← Dcp2.store data 0 (UInt8.ofNat (self.dst.toNat + self.src.toNat <<< 4))
  let data ← Dcp2.store data 1 (UInt8.ofNat (self.cmd.toNat + self.ack.toNat <<< 5 + self.req.toNat <<< 7))
  let data ← Dcp2.store data 2 self.len
  let data ← Dcp2.store data 3 (← headerCrc.value data)
  copy data 4 (← self.getData abi h) self.len.toNat

/-- `rbc_dcp2_packet_to_bytes`, and `rbc_array_u8_delete` of its result after it was used. -/
def toBytes (abi : Abi) (junk : Nat → UInt8) (self : PacketStruct) (h : Heap (List UInt8)) :
    Option (List UInt8 × Heap (List UInt8)) := do
  let needPacketCrc : Bool := 0 < self.len
  let size := abi.toUsize (4 + self.len.toNat + needPacketCrc.toNat)
  let array := h.next
  let h := h.alloc (arrayU8New junk size)
  let data ← self.writeBody abi (arrayU8New junk size) h
  let data ← (if needPacketCrc then do
      Dcp2.store data (size - 1) (← (packetCrc (size - 1)).value data)
    else
      pure data)
  let h ← h.put array data
  let h ← h.free array
  pure (data, h)

end PacketStruct

/-- The structure with the fields of a packet and the given union. -/
def Packet.withMember (p : Packet abi) (member : Member) : PacketStruct :=
  ⟨p.dst, p.src, p.cmd, p.ack, p.req, p.len, member⟩

/-- A packet in memory, in a fresh block if it needs one. -/
def Packet.place (p : Packet abi) (h : Heap (List UInt8)) : PacketStruct × Heap (List UInt8) :=
  match p.storage with
  | .data bytes => (p.withMember (.data bytes), h)
  | .ptr block => (p.withMember (.ptr h.next), h.alloc block)

/-- A structure denotes a packet: the fields are the same, and so are the bytes in it or in its block. -/
structure PacketStruct.Denotes (h : Heap (List UInt8)) (c : PacketStruct) (p : Packet abi) : Prop where
  fields : c = p.withMember c.member
  bytes : match c.member with
    | .data bytes => p.storage = .data bytes
    | .ptr id => ∃ block, p.storage = .ptr block ∧ h.get? id = some block

namespace PacketStruct

variable {h : Heap (List UInt8)} {c : PacketStruct} {p : Packet abi}

theorem new_eq (size : UInt8) : new abi size h = (Packet.new abi size).place h := by
  by_cases small : size.toNat ≤ abi.ptrSize
  · simp only [new, if_pos small, Packet.place, Packet.new, Packet.withMember]
  · simp only [new, if_neg small, Packet.place, Packet.new, Packet.withMember]

theorem denotes_place (p : Packet abi) : Denotes (p.place h).2 (p.place h).1 p := by
  cases storage : p.storage with
  | data bytes =>
    rw [Packet.place, storage]
    exact ⟨rfl, storage⟩
  | ptr block =>
    rw [Packet.place, storage]
    exact ⟨rfl, block, storage, Heap.get?_alloc_next h block⟩

theorem Denotes.getData (denotes : Denotes h c p) : c.getData abi h = some p.getData := by
  obtain ⟨fields, bytes⟩ := denotes
  have fits := p.fits
  have len : c.len = p.len := by rw [fields]; rfl
  unfold PacketStruct.getData Packet.getData
  rw [len]
  cases member : c.member with
  | data inPlace =>
    simp only [member] at bytes
    rw [bytes] at fits ⊢
    rw [if_pos fits.1, if_pos fits.1]
  | ptr id =>
    simp only [member] at bytes
    obtain ⟨block, storage, live⟩ := bytes
    rw [storage] at fits ⊢
    have large : ¬p.len.toNat ≤ abi.ptrSize := Nat.not_le.mpr fits.1
    simp only [if_neg large, live]

theorem place_of_data {bytes : List UInt8} (storage : p.storage = .data bytes) :
    p.place h = (p.withMember (.data bytes), h) := by
  rw [Packet.place, storage]

theorem place_of_ptr {block : List UInt8} (storage : p.storage = .ptr block) :
    p.place h = (p.withMember (.ptr h.next), h.alloc block) := by
  rw [Packet.place, storage]

theorem place_new_zero : (Packet.new abi 0).place h = ((new abi 0 h).1, h) := by
  have small : (0 : UInt8).toNat ≤ abi.ptrSize := Nat.zero_le _
  rw [← new_eq, new, if_pos small]

/-- Filling a packet that was just made fills the one that will be placed. -/
theorem copyToData_place (source : List UInt8) :
    (p.place h).1.copyToData abi source (p.place h).2 = some ((p.copyToData source).place h) := by
  have data := (denotes_place (h := h) p).getData
  have fits := p.fits
  rw [copyToData, data, Option.bind_eq_bind, Option.bind_some, setData]
  cases storage : p.storage with
  | data bytes =>
    rw [storage] at fits
    have small : (p.withMember (.data bytes)).len.toNat ≤ abi.ptrSize := fits.1
    have same : p.getData = bytes := by rw [Packet.getData, if_pos fits.1, storage]
    have copied : (p.copyToData source).storage = .data (overwrite bytes source) := by
      simp only [Packet.copyToData, storage]
    rw [place_of_data storage, place_of_data copied, if_pos small, same]
    rfl
  | ptr block =>
    rw [storage] at fits
    have large : ¬p.len.toNat ≤ abi.ptrSize := Nat.not_le.mpr fits.1
    have same : p.getData = block := by rw [Packet.getData, if_neg large, storage]
    have copied : (p.copyToData source).storage = .ptr (overwrite block source) := by
      simp only [Packet.copyToData, storage]
    rw [place_of_ptr storage, place_of_ptr copied, same, Packet.withMember]
    simp only [if_neg large, Heap.put_alloc, Option.map_some]
    rfl

/-- Setting the bit-fields of a packet that was just made sets those of the one that will be placed. -/
theorem place_fields (dst src : BitVec 4) (cmd : BitVec 5) (ack : BitVec 2) (req : BitVec 1) :
    ({ p with dst := dst, src := src, cmd := cmd, ack := ack, req := req } : Packet abi).place h =
      ({ (p.place h).1 with dst := dst, src := src, cmd := cmd, ack := ack, req := req }, (p.place h).2) := by
  obtain ⟨_, _, _, _, _, len, storage, fits⟩ := p
  cases storage with
  | data bytes => rfl
  | ptr block => rfl

theorem read_eq (len : UInt8) (data : List UInt8) :
    read abi len data h = ((readPacket abi len).value data).map fun p => p.place h := by
  have first : (BoundedReader.read 0).value data = data[0]? := BoundedReader.value_read_natCast data 0
  have second : (BoundedReader.read 1).value data = data[1]? := BoundedReader.value_read_natCast data 1
  simp only [read, readPacket, new_eq, BoundedReader.value_bind, first, second, Option.bind_eq_bind]
  cases data[0]? with
  | none => rfl
  | some b0 =>
    cases data[1]? with
    | none => rfl
    | some b1 =>
      simp only [Option.bind_some]
      cases (BoundedReader.readBlock 4 len.toNat).value data with
      | none => rfl
      | some bytes =>
        have filled := copyToData_place (h := h) (p := { Packet.new abi len with
          dst := BitVec.ofNat 4 (b0.toNat &&& 0x0F)
          src := BitVec.ofNat 4 ((b0.toNat >>> 4) &&& 0x0F)
          cmd := BitVec.ofNat 5 (b1.toNat &&& 0x1F)
          ack := BitVec.ofNat 2 ((b1.toNat >>> 5) &&& 0x03)
          req := BitVec.ofNat 1 ((b1.toNat >>> 7) &&& 0x01) }) bytes
        rw [place_fields (p := Packet.new abi len)] at filled
        exact filled

/-- `rbc_dcp2_packet_from_bytes` gives what it finds in the bytes, in memory. -/
theorem fromBytes_eq (data : List UInt8) :
    fromBytes abi data h = ((Dcp2.fromBytes abi data.length).value data).map fun r =>
      (((r.packet.place h).1, r.stop, r.error), (r.packet.place h).2) := by
  have third : (BoundedReader.read 2).value data = data[2]? := BoundedReader.value_read_natCast data 2
  have fourth : (BoundedReader.read 3).value data = data[3]? := BoundedReader.value_read_natCast data 3
  have failed (e : Error) : some (((new abi 0 h).1, 0, e), h) = (some (Result.failed abi e)).map fun r =>
      (((r.packet.place h).1, r.stop, r.error), (r.packet.place h).2) := by
    rw [Option.map_some, Result.failed, place_new_zero]
  unfold fromBytes Dcp2.fromBytes fromBytesBody
  split
  · exact failed _
  simp only [BoundedReader.value_bind, fourth, Option.bind_eq_bind]
  cases data[3]? with
  | none => rfl
  | some stored =>
    cases headerCrc.value data with
    | none => rfl
    | some crc =>
      simp only [Option.bind_some]
      split
      · exact failed _
      rw [BoundedReader.value_bind, third]
      cases data[2]? with
      | none => rfl
      | some len =>
        simp only [Option.bind_some]
        split
        · exact failed _
        rw [BoundedReader.value_bind]
        cases (packetCrcDiffers abi len (packetSize len)).value data with
        | none => rfl
        | some differs =>
          simp only [Option.bind_some]
          cases differs with
          | true => exact failed _
          | false =>
            rw [if_neg Bool.false_ne_true, if_neg Bool.false_ne_true, read_eq, BoundedReader.value_bind]
            cases (readPacket abi len).value data with
            | none => rfl
            | some packet => rfl

/-- What a structure denotes depends on its own block only. -/
theorem Denotes.congr {h' : Heap (List UInt8)} (denotes : Denotes h c p)
    (same : ∀ id, c.member = .ptr id → h'.get? id = h.get? id) : Denotes h' c p := by
  obtain ⟨fields, bytes⟩ := denotes
  refine ⟨fields, ?_⟩
  cases member : c.member with
  | data inPlace =>
    rw [member] at bytes
    exact bytes
  | ptr id =>
    rw [member] at bytes
    obtain ⟨block, storage, live⟩ := bytes
    exact ⟨block, storage, (same id member).trans live⟩

theorem Denotes.len (denotes : Denotes h c p) : c.len = p.len := by
  rw [denotes.fields]
  rfl

theorem Denotes.live {id : Nat} (denotes : Denotes h c p) (member : c.member = .ptr id) :
    ∃ block, p.storage = .ptr block ∧ h.get? id = some block := by
  have bytes := denotes.bytes
  rw [member] at bytes
  exact bytes

theorem Denotes.inPlace {bytes : List UInt8} (denotes : Denotes h c p) (member : c.member = .data bytes) :
    p.storage = .data bytes := by
  have same := denotes.bytes
  rw [member] at same
  exact same

theorem Denotes.large_of_ptr {id : Nat} (denotes : Denotes h c p) (member : c.member = .ptr id) :
    abi.ptrSize < p.len.toNat := by
  obtain ⟨block, storage, -⟩ := denotes.live member
  have fits := p.fits
  rw [storage] at fits
  exact fits.1

theorem Denotes.alloc (denotes : Denotes h c p) (block : List UInt8) : Denotes (h.alloc block) c p := by
  refine denotes.congr fun id member => ?_
  obtain ⟨old, -, live⟩ := denotes.live member
  rw [Heap.get?_alloc_of_live live, live]

theorem Denotes.toBytes (denotes : Denotes h c p) {junk : Nat → UInt8} {bytes : List UInt8}
    (sent : Dcp2.toBytes junk p = some bytes) : c.toBytes abi junk h = some (bytes, h.skip) := by
  have written (data block : List UInt8) : c.writeBody abi data (h.alloc block) = Dcp2.writeBody p data := by
    have payload := (denotes.alloc block).getData
    rw [writeBody, payload, denotes.fields]
    rfl
  unfold Dcp2.toBytes at sent
  rw [PacketStruct.toBytes, denotes.len]
  simp only [written, Option.bind_eq_bind, Option.bind_eq_some_iff] at sent ⊢
  obtain ⟨data, body, last⟩ := sent
  refine ⟨data, body, bytes, last, ?_⟩
  exact ⟨h.alloc bytes, Heap.put_alloc .., h.skip, Heap.free_alloc .., rfl⟩

end PacketStruct

end Rbc.Dcp2
