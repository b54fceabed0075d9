import Rbc.Dcp2.Verdict

namespace Rbc.Dcp2

open BoundedReader Checksum

namespace Contents

variable (c : Contents) (rest : List UInt8)

theorem headerIntact_frame_append : HeaderIntact (c.frame ++ rest) := by
  change some (0x89 + c.address + c.control + c.len) =
    some (0x89 + (c.address + (c.control + (c.len + 0))))
  rw [add_zero, add_assoc, add_assoc]

theorem announced_frame_append : announced (c.frame ++ rest) = c.len := by
  simp [announced, frame, body]

/-- The last byte of a frame with a payload checks all bytes before it. -/
theorem sumAt_frame_append (nonempty : c.payload ≠ []) : SumAt (c.frame ++ rest) (c.frame.length - 1) := by
  have length : c.frame.length - 1 = c.body.length := by
    rw [length_frame, length_body, if_neg nonempty, Nat.add_sub_cancel]
  rw [length, frame, if_neg nonempty, List.append_assoc]
  simp [SumAt, CheckedAt]

variable {c}

theorem eq_of_frame_eq {d : Contents} (same : c.frame = d.frame) : c = d := by
  have len : c.len = d.len := by
    rw [← c.announced_frame_append [], ← d.announced_frame_append [], same]
  have payloadLength : c.payload.length = d.payload.length := by
    rw [← c.toNat_len, ← d.toNat_len, len]
  simp only [frame, body, List.cons_append, List.nil_append, List.cons.injEq] at same
  obtain ⟨address, control, _, _, tail⟩ := same
  exact eq_of_parts address control (List.append_inj_left tail payloadLength)

end Contents

/-- Encoding a packet, appending any bytes and decoding gives the packet back,
with the end at the first appended byte. -/
def RoundTrips {abi : Abi} (junk : Nat → UInt8) (p : Packet abi) (t : List UInt8) : Prop :=
  ∃ bytes, toBytes junk p = some bytes ∧
    ∃ result, (fromBytes abi (bytes ++ t).length).value (bytes ++ t) = some result ∧
      result.error = .ok ∧ result.packet.len = p.len ∧ result.packet.contents = p.contents ∧
      result.stop = bytes.length

theorem roundTrips_of_le {abi : Abi} (junk : Nat → UInt8) (p : Packet abi) (t : List UInt8)
    (small : p.len.toNat ≤ 250) : RoundTrips junk p t := by
  have intact := p.contents.headerIntact_frame_append t
  have len : announced (p.contents.frame ++ t) = p.len := by
    rw [Contents.announced_frame_append, p.contents_len]
  have length : frameLength (announced (p.contents.frame ++ t)) = p.contents.frame.length := by
    rw [Contents.announced_frame_append, Contents.frame_length_eq]
  have complete : frameLength (announced (p.contents.frame ++ t)) ≤ (p.contents.frame ++ t).length := by
    rw [length, List.length_append]; omega
  have good : announced (p.contents.frame ++ t) = 0 ∨
      SumAt (p.contents.frame ++ t) (frameLength (announced (p.contents.frame ++ t)) - 1) := by
    rw [length, len]
    by_cases empty : p.contents.payload = []
    · left
      rw [← UInt8.toNat_inj, ← p.contents_len, Contents.toNat_len, empty]
      rfl
    · exact Or.inr (Contents.sumAt_frame_append _ t empty)
  obtain ⟨packet, run, frame⟩ := fromBytes_accepts abi intact (by rwa [len]) complete good
  rw [length, List.take_left] at frame
  have same := Contents.eq_of_frame_eq frame
  refine ⟨_, toBytes_eq junk p, _, run, rfl, ?_, same, length⟩
  rw [← packet.contents_len, ← p.contents_len, same]

/-- With 251 payload bytes the decoder leaves its input; with more it finds a
bad checksum or, by chance, an end inside the header. -/
theorem not_roundTrips_of_gt {abi : Abi} (junk : Nat → UInt8) (p : Packet abi) (t : List UInt8)
    (large : 250 < p.len.toNat) : ¬RoundTrips junk p t := by
  rintro ⟨bytes, encoded, result, run, ok, -, -, stop⟩
  cases Option.some.inj ((toBytes_eq junk p).symm.trans encoded)
  have len : announced (p.contents.frame ++ t) = p.len := by
    rw [Contents.announced_frame_append, p.contents_len]
  have length := p.contents.frame_length_eq
  have bound := p.len.toNat_lt
  obtain ⟨_, ⟨small, _⟩ | ⟨wrapped, inside⟩⟩ := fromBytes_ok run ok
  · rw [len] at small
    omega
  · rw [len] at inside
    rw [stop, length, frameLength, p.contents_len] at inside
    omega

/-- The round trip holds for exactly the packets with at most 250 payload
bytes, whatever follows them and whatever `malloc` returned. -/
theorem roundTrips_iff_len_le {abi : Abi} (junk : Nat → UInt8) (p : Packet abi) (t : List UInt8) :
    RoundTrips junk p t ↔ p.len ≤ 250 := by
  rw [UInt8.le_iff_toNat_le]
  constructor
  · intro back
    by_contra large
    exact not_roundTrips_of_gt junk p t (Nat.not_le.mp large) back
  · exact roundTrips_of_le junk p t

/-- A packet from the PC to the sensor with the longest payload. -/
def longestPacket : Packet Abi.lp64 where
  dst := 1
  src := 0
  cmd := 0
  ack := 0
  req := 0
  len := 255
  storage := .ptr (List.replicate 255 0)
  fits := ⟨by decide, List.length_replicate⟩

theorem longestPacket_not_roundTrips : ¬RoundTrips (fun _ => 0) longestPacket [] :=
  not_roundTrips_of_gt _ longestPacket [] (by decide)

end Rbc.Dcp2
