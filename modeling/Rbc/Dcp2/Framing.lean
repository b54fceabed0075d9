import Rbc.Dcp2.RoundTrip

namespace Rbc.Dcp2

namespace Contents

variable {c d : Contents}

/-- The third byte of a frame fixes its length, so no frame begins another one. -/
theorem eq_of_frame_begins (begins : c.frame <+: d.frame) : c = d := by
  obtain ⟨rest, same⟩ := begins
  have len : c.len = d.len := by
    rw [← c.announced_frame_append rest, same, ← d.announced_frame_append [], List.append_nil]
  have length : c.frame.length = d.frame.length := by
    rw [c.frame_length_eq, d.frame_length_eq, len]
  have none : rest = [] := by
    rw [← same, List.length_append] at length
    exact List.eq_nil_of_length_eq_zero (by omega)
  rw [none, List.append_nil] at same
  exact eq_of_frame_eq same

end Contents

theorem Packet.length_frame {abi : Abi} (p : Packet abi) :
    p.contents.frame.length = 4 + p.len.toNat + if 0 < p.len then 1 else 0 := by
  rw [Contents.frame_length_eq, frameLength, p.contents_len]
  by_cases empty : p.len = 0
  · simp [empty]
  · rw [if_neg empty, if_pos (UInt8.pos_iff_ne_zero.mpr empty)]

/-- Encodings have the format's length and checksums, and an encoding that
begins another one says the same, also where one of the packets keeps its
payload in place and the other one behind a pointer. -/
theorem framing_unambiguous {abi abi' : Abi} (junk junk' : Nat → UInt8) (p : Packet abi) (q : Packet abi') :
    ∃ bytes bytes', toBytes junk p = some bytes ∧ toBytes junk' q = some bytes' ∧
      bytes.length = 4 + p.len.toNat + (if 0 < p.len then 1 else 0) ∧
      HeaderIntact bytes ∧ (0 < p.len → SumAt bytes (bytes.length - 1)) ∧
      (bytes <+: bytes' → p.dst = q.dst ∧ p.src = q.src ∧ p.cmd = q.cmd ∧ p.ack = q.ack ∧
        p.req = q.req ∧ p.len = q.len ∧ p.payload = q.payload) := by
  refine ⟨_, _, toBytes_eq junk p, toBytes_eq junk' q, p.length_frame, ?_, ?_, ?_⟩
  · simpa only [List.append_nil] using p.contents.headerIntact_frame_append []
  · intro positive
    have nonempty : p.contents.payload ≠ [] := by
      intro none
      have length : p.contents.payload.length = p.len.toNat := p.length_payload
      rw [none] at length
      exact UInt8.pos_iff_ne_zero.mp positive (UInt8.toNat_inj.mp length.symm)
    simpa only [List.append_nil] using p.contents.sumAt_frame_append [] nonempty
  · intro begins
    have same := Contents.eq_of_frame_begins begins
    have len : p.len = q.len := by rw [← p.contents_len, same, q.contents_len]
    exact ⟨congrArg Contents.dst same, congrArg Contents.src same, congrArg Contents.cmd same,
      congrArg Contents.ack same, congrArg Contents.req same, len, congrArg Contents.payload same⟩

end Rbc.Dcp2
