import Rbc.Basis.BoundedReader
import Rbc.Core.Abi

namespace Rbc.Dcp2

open BoundedReader

inductive Error
  | ok
  | invalidHeaderCrc
  | invalidPacketCrc
  | needMoreData
  deriving DecidableEq, Repr

/-- The union at the end of `rbc_dcp2_packet`: the bytes stored in place, or
the heap block behind `ptr`. -/
inductive Storage
  | data (bytes : List UInt8)
  | ptr (block : List UInt8)
  deriving DecidableEq, Repr

/-- The union member a packet of this length uses, with the size it has. -/
def Storage.Fits (abi : Abi) (len : UInt8) : Storage → Prop
  | .data bytes => len.toNat ≤ abi.ptrSize ∧ bytes.length = abi.ptrSize
  | .ptr block => abi.ptrSize < len.toNat ∧ block.length = len.toNat

/-- `rbc_dcp2_packet`, with its bit-fields at their widths. -/
structure Packet (abi : Abi) where
  dst : BitVec 4
  src : BitVec 4
  cmd : BitVec 5
  ack : BitVec 2
  req : BitVec 1
  len : UInt8
  storage : Storage
  fits : storage.Fits abi len

/-- `rbc_dcp2_packet_new`; `calloc` is taken to succeed. -/
def Packet.new (abi : Abi) (size : UInt8) : Packet abi where
  dst := 0
  src := 0
  cmd := 0
  ack := 0
  req := 0
  len := size
  storage :=
    if size.toNat ≤ abi.ptrSize then .data (List.replicate abi.ptrSize 0)
    else .ptr (List.replicate size.toNat 0)
  fits := by
    split
    · exact ⟨by assumption, List.length_replicate⟩
    · exact ⟨by omega, List.length_replicate⟩

/-- `rbc_dcp2_packet_get_data`: the bytes it points to. Reading the union
through the wrong member has no bytes; `Packet.fits` rules it out. -/
def Packet.getData {abi : Abi} (self : Packet abi) : List UInt8 :=
  if self.len.toNat ≤ abi.ptrSize then
    match self.storage with
    | .data bytes => bytes
    | .ptr _ => []
  else
    match self.storage with
    | .data _ => []
    | .ptr block => block

def Packet.payload {abi : Abi} (self : Packet abi) : List UInt8 :=
  self.getData.take self.len.toNat

/-- The bytes of an object after `memcpy(object, source, n)`. -/
def overwrite (object source : List UInt8) : List UInt8 :=
  source.take object.length ++ object.drop source.length

theorem length_overwrite (object source : List UInt8) :
    (overwrite object source).length = object.length := by
  simp only [overwrite, List.length_append, List.length_take, List.length_drop]
  omega

/-- `memcpy(rbc_dcp2_packet_get_data_mut(self), source, n)`. -/
def Packet.copyToData {abi : Abi} (self : Packet abi) (source : List UInt8) : Packet abi where
  dst := self.dst
  src := self.src
  cmd := self.cmd
  ack := self.ack
  req := self.req
  len := self.len
  storage :=
    match self.storage with
    | .data bytes => .data (overwrite bytes source)
    | .ptr block => .ptr (overwrite block source)
  fits := by
    have fits := self.fits
    cases same : self.storage with
    | data bytes =>
      rw [same] at fits
      exact ⟨fits.1, (length_overwrite _ _).trans fits.2⟩
    | ptr block =>
      rw [same] at fits
      exact ⟨fits.1, (length_overwrite _ _).trans fits.2⟩

def headerCrc : BoundedReader UInt8 UInt8 := do
  let b0 ← read 0
  let b1 ← read 1
  let b2 ← read 2
  pure (0x89 + b0 + b1 + b2)

/-- The loop of `packet_crc` with `remaining` rounds to go. -/
def packetCrcLoop : (remaining idx : Nat) → (crc : UInt8) → BoundedReader UInt8 UInt8
  | 0, _, crc => pure crc
  | remaining + 1, idx, crc => do
    tick
    let b ← read idx
    packetCrcLoop remaining (idx + 1) (crc + b)

def packetCrc (size : Nat) : BoundedReader UInt8 UInt8 :=
  packetCrcLoop size 0 0

/-- `rbc_dcp2_result`; `stop` is the offset of its `end` from `data`. -/
structure Result (abi : Abi) where
  packet : Packet abi
  stop : Nat
  error : Error

/-- The result before a packet was accepted: a zeroed packet, `end = data`. -/
def Result.failed (abi : Abi) (error : Error) : Result abi :=
  ⟨Packet.new abi 0, 0, error⟩

/-- `u8 const packet_size = 4 + len + (len != 0)`. -/
def packetSize (len : UInt8) : UInt8 :=
  UInt8.ofNat (4 + len.toNat + (len != 0).toNat)

/-- `len != 0 && packet_crc(data, packet_size - 1) != data[packet_size - 1]`.
Here `packet_size - 1` is an `int`, which the call converts to `usize`. -/
def packetCrcDiffers (abi : Abi) (len packetSize : UInt8) : BoundedReader UInt8 Bool :=
  if len = 0 then
    pure false
  else do
    let crc ← packetCrc (abi.toUsize (packetSize.toNat - 1))
    let last ← read (packetSize.toNat - 1)
    pure (crc != last)

/-- The part of `rbc_dcp2_packet_from_bytes` that fills the packet. -/
def readPacket (abi : Abi) (len : UInt8) : BoundedReader UInt8 (Packet abi) := do
  let packet := Packet.new abi len
  let dst ← read 0
  let packet := { packet with dst := BitVec.ofNat 4 (dst.toNat &&& 0x0F) }
  let src ← read 0
  let packet := { packet with src := BitVec.ofNat 4 ((src.toNat >>> 4) &&& 0x0F) }
  let cmd ← read 1
  let packet := { packet with cmd := BitVec.ofNat 5 (cmd.toNat &&& 0x1F) }
  let ack ← read 1
  let packet := { packet with ack := BitVec.ofNat 2 ((ack.toNat >>> 5) &&& 0x03) }
  let req ← read 1
  let packet := { packet with req := BitVec.ofNat 1 ((req.toNat >>> 7) &&& 0x01) }
  let bytes ← readBlock 4 len.toNat
  pure (packet.copyToData bytes)

/-- `rbc_dcp2_packet_from_bytes`, after the header was found intact. -/
def fromBytesBody (abi : Abi) (size : Nat) (len : UInt8) : BoundedReader UInt8 (Result abi) :=
  if size < (packetSize len).toNat then
    pure (.failed abi .needMoreData)
  else do
    let differs ← packetCrcDiffers abi len (packetSize len)
    if differs then
      pure (.failed abi .invalidPacketCrc)
    else do
      let packet ← readPacket abi len
      pure ⟨packet, (packetSize len).toNat, .ok⟩

/-- `rbc_dcp2_packet_from_bytes(data, size)`, reading from the bytes at `data`. -/
def fromBytes (abi : Abi) (size : Nat) : BoundedReader UInt8 (Result abi) :=
  if size < 4 then
    pure (.failed abi .needMoreData)
  else do
    let stored ← read 3
    let crc ← headerCrc
    if stored ≠ crc then
      pure (.failed abi .invalidHeaderCrc)
    else do
      let len ← read 2
      fromBytesBody abi size len

/-- `data[i] = b`; no value when the write misses the object. -/
def store (data : List UInt8) (i : Nat) (b : UInt8) : Option (List UInt8) :=
  if i < data.length then some (data.set i b) else none

/-- `memcpy(data + offset, source, n)`; no value when it leaves an object. -/
def copy (data : List UInt8) (offset : Nat) (source : List UInt8) (n : Nat) : Option (List UInt8) :=
  if n ≤ source.length ∧ offset + n ≤ data.length then
    some (data.take offset ++ source.take n ++ data.drop (offset + n))
  else none

/-- `rbc_array_u8_new`: a block of `malloc`, whose bytes are indeterminate. -/
def arrayU8New (junk : Nat → UInt8) (size : Nat) : List UInt8 :=
  (List.range size).map junk

/-- The part of `rbc_dcp2_packet_to_bytes` that writes header and payload. The
sums of the bit-fields are computed as `int` and stored modulo 256. -/
def writeBody {abi : Abi} (self : Packet abi) (data : List UInt8) : Option (List UInt8) := do
  let data ← store data 0 (UInt8.ofNat (self.dst.toNat + self.src.toNat <<< 4))
  let data ← store data 1 (UInt8.ofNat (self.cmd.toNat + self.ack.toNat <<< 5 + self.req.toNat <<< 7))
  let data ← store data 2 self.len
  let data ← store data 3 (← headerCrc.value data)
  copy data 4 self.getData self.len.toNat

def toBytes {abi : Abi} (junk : Nat → UInt8) (self : Packet abi) : Option (List UInt8) := do
  let needPacketCrc : Bool := 0 < self.len
  let size := abi.toUsize (4 + self.len.toNat + needPacketCrc.toNat)
  let data ← writeBody self (arrayU8New junk size)
  if needPacketCrc then
    store data (size - 1) (← (packetCrc (size - 1)).value data)
  else
    pure data

end Rbc.Dcp2
