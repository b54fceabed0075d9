import Rbc.Dcp2.Decoder

namespace Rbc.Dcp2

open BoundedReader Checksum

section Intact

variable (abi : Abi) {data : List UInt8} (intact : HeaderIntact data)

include intact

/-- The payload of the packet behind an intact header, when it is there, makes
the packet re-encode to the bytes read. -/
theorem value_readPacket_of_intact (enough : 4 + (announced data).toNat ≤ data.length) :
    ∃ packet, (readPacket abi (announced data)).value data = some packet ∧
      packet.contents.len = announced data ∧
      packet.contents.body = data.take (4 + (announced data).toNat) := by
  obtain ⟨b0, b1, b2, b3, rest, rfl⟩ := exists_header intact.four_le_length
  have same : b3 = 0x89 + b0 + b1 + b2 := by
    simpa [HeaderIntact, CheckedAt, add_assoc] using intact
  have enough : b2.toNat ≤ rest.length := by
    simp only [announced, List.length_cons, List.getD_cons_succ, List.getD_cons_zero] at enough
    omega
  obtain ⟨packet, read, address, control, len, payload⟩ := value_readPacket abi enough
  refine ⟨packet, read, (packet.contents_len).trans len, ?_⟩
  rw [Contents.body, address, control, packet.contents_len, len, payload, ← same, Nat.add_comm]
  rfl

theorem value_readPacket_of_intact_short (short : data.length < 4 + (announced data).toNat) :
    (readPacket abi (announced data)).value data = none := by
  obtain ⟨b0, b1, b2, b3, rest, rfl⟩ := exists_header intact.four_le_length
  have short : rest.length < b2.toNat := by
    simp only [announced, List.length_cons, List.getD_cons_succ, List.getD_cons_zero] at short
    omega
  exact value_readPacket_of_lt abi short

theorem value_fromBytes_incomplete (small : (announced data).toNat ≤ 250)
    (short : data.length < frameLength (announced data)) :
    (fromBytes abi data.length).value data = some (.failed abi .needMoreData) := by
  rw [value_fromBytes_of_intact abi intact]
  exact value_fromBytesBody_short abi (by rwa [packetSize_of_le small])

theorem value_fromBytes_of_le (small : (announced data).toNat ≤ 250)
    (complete : frameLength (announced data) ≤ data.length) :
    (fromBytes abi data.length).value data =
      if announced data ≠ 0 ∧ ¬SumAt data (frameLength (announced data) - 1) then
        some (.failed abi .invalidPacketCrc)
      else ((readPacket abi (announced data)).value data).map
        fun packet => ⟨packet, frameLength (announced data), .ok⟩ := by
  have size := packetSize_of_le small
  have positive : 0 < frameLength (announced data) := by rw [frameLength]; omega
  rw [value_fromBytes_of_intact abi intact,
    value_fromBytesBody abi (by rwa [size]) (by rwa [size]), size]

/-- A complete frame with right checksums is accepted as a whole. -/
theorem fromBytes_accepts (small : (announced data).toNat ≤ 250)
    (complete : frameLength (announced data) ≤ data.length)
    (good : announced data = 0 ∨ SumAt data (frameLength (announced data) - 1)) :
    ∃ packet, (fromBytes abi data.length).value data =
        some ⟨packet, frameLength (announced data), .ok⟩ ∧
      packet.contents.frame = data.take (frameLength (announced data)) := by
  have enough : 4 + (announced data).toNat ≤ data.length := by
    rw [frameLength] at complete; omega
  obtain ⟨packet, read, len, body⟩ := value_readPacket_of_intact abi intact enough
  refine ⟨packet, ?_, ?_⟩
  · rw [value_fromBytes_of_le abi intact small complete, if_neg (by tauto), read]
    rfl
  · have none : packet.contents.payload = [] ↔ announced data = 0 := by
      rw [← List.length_eq_zero_iff, ← packet.contents.toNat_len, len, ← UInt8.toNat_zero, UInt8.toNat_inj]
    rw [Contents.frame, body, frameLength]
    by_cases empty : announced data = 0
    · rw [if_pos (none.mpr empty), if_pos empty, List.append_nil, Nat.add_zero]
    · have sum := good.resolve_left empty
      rw [if_neg (none.not.mpr empty), if_neg empty]
      rw [frameLength, if_neg empty, Nat.add_sub_cancel] at sum
      obtain ⟨within, last⟩ := List.getElem?_eq_some_iff.mp sum
      rw [zero_add] at last
      rw [List.take_succ_eq_append_getElem within, last]

/-- The lengths whose packet size wraps around to zero make the decoder leave
its input. -/
theorem value_fromBytes_wrapped_zero (wrapped : (announced data).toNat = 251) :
    (fromBytes abi data.length).value data = none := by
  have size := packetSize_of_gt (show 250 < (announced data).toNat by omega)
  rw [value_fromBytes_of_intact abi intact]
  exact value_fromBytesBody_zero abi (by rintro empty; rw [empty] at wrapped; simp at wrapped) (by omega)

/-- The lengths above, whose packet size wraps around to one up to four: the
checksum covers a part of the header only and the end lies inside it. -/
theorem value_fromBytes_wrapped (wrapped : 251 < (announced data).toNat) :
    (fromBytes abi data.length).value data =
      if SumAt data ((announced data).toNat - 252) then
        ((readPacket abi (announced data)).value data).map
          fun packet => ⟨packet, (announced data).toNat - 251, .ok⟩
      else some (.failed abi .invalidPacketCrc) := by
  have bound := (announced data).toNat_lt
  have long := intact.four_le_length
  have size := packetSize_of_gt (show 250 < (announced data).toNat by omega)
  have nonempty : announced data ≠ 0 := by rintro empty; rw [empty] at wrapped; simp at wrapped
  rw [value_fromBytes_of_intact abi intact,
    value_fromBytesBody abi (by omega) (by omega), size, Nat.sub_sub]
  simp only [nonempty, ne_eq, not_false_eq_true, true_and, ite_not]

end Intact

theorem fromBytes_ok {abi : Abi} {data : List UInt8} {result : Result abi}
    (run : (fromBytes abi data.length).value data = some result) (ok : result.error = .ok) :
    HeaderIntact data ∧
      ((announced data).toNat ≤ 250 ∧ result.stop = frameLength (announced data) ∧
          frameLength (announced data) ≤ data.length ∧
          (announced data = 0 ∨ SumAt data (frameLength (announced data) - 1)) ∨
        251 < (announced data).toNat ∧ result.stop = (announced data).toNat - 251) := by
  by_cases long : 4 ≤ data.length
  swap
  · rw [value_fromBytes_short abi data (by omega)] at run
    cases Option.some.inj run
    simp [Result.failed] at ok
  by_cases intact : HeaderIntact data
  swap
  · rw [value_fromBytes_of_not_intact abi long intact] at run
    cases Option.some.inj run
    simp [Result.failed] at ok
  refine ⟨intact, ?_⟩
  rcases Nat.lt_trichotomy (announced data).toNat 251 with small | wrapped | wrapped
  · have small : (announced data).toNat ≤ 250 := by omega
    by_cases complete : frameLength (announced data) ≤ data.length
    · rw [value_fromBytes_of_le abi intact small complete] at run
      split at run
      · cases Option.some.inj run
        simp [Result.failed] at ok
      · rename_i good
        obtain ⟨packet, _, same⟩ := Option.map_eq_some_iff.mp run
        subst same
        exact Or.inl ⟨small, rfl, complete, by tauto⟩
    · rw [value_fromBytes_incomplete abi intact small (by omega)] at run
      cases Option.some.inj run
      simp [Result.failed] at ok
  · rw [value_fromBytes_wrapped_zero abi intact wrapped] at run
    cases run
  · rw [value_fromBytes_wrapped abi intact wrapped] at run
    split at run
    · obtain ⟨packet, _, same⟩ := Option.map_eq_some_iff.mp run
      subst same
      exact Or.inr ⟨wrapped, rfl⟩
    · cases Option.some.inj run
      simp [Result.failed] at ok

end Rbc.Dcp2
