import Rbc.Dcp2.Verdict

namespace Rbc.Dcp2

open BoundedReader Checksum

theorem announced_eq_of_differs {i : Nat} {data data' : List UInt8} (differs : DiffersOnlyAt i data data')
    (behind : 2 < i) : announced data' = announced data := by
  rw [announced, announced, List.getD_eq_getElem?_getD, List.getD_eq_getElem?_getD, differs.2.2 2 (by omega)]

theorem header_change_detected (abi : Abi) {i : Nat} {data data' : List UInt8}
    (differs : DiffersOnlyAt i data data') (intact : HeaderIntact data) (inHeader : i < 4) :
    (fromBytes abi data'.length).value data' = some (.failed abi .invalidHeaderCrc) := by
  have long : 4 ≤ data'.length := differs.length_eq ▸ intact.four_le_length
  exact value_fromBytes_of_not_intact abi long (CheckedAt.broken intact differs (by omega))

/-- A change behind the header leaves the announced length, so the packet
checksum still covers the changed byte. -/
theorem payload_change_detected (abi : Abi) {i : Nat} {data data' : List UInt8}
    (differs : DiffersOnlyAt i data data') (intact : HeaderIntact data)
    (small : (announced data).toNat ≤ 250) (complete : frameLength (announced data) ≤ data.length)
    (good : announced data = 0 ∨ SumAt data (frameLength (announced data) - 1))
    (behindHeader : 4 ≤ i) (inFrame : i < frameLength (announced data)) :
    (fromBytes abi data'.length).value data' = some (.failed abi .invalidPacketCrc) := by
  have same := announced_eq_of_differs differs (by omega)
  have intact' : HeaderIntact data' := (differs.checkedAt_iff (by omega)).mpr intact
  have nonempty : announced data ≠ 0 := by
    intro empty
    rw [empty, frameLength, if_pos rfl, UInt8.toNat_zero] at inFrame
    omega
  have sum := good.resolve_left nonempty
  have broken : ¬SumAt data' (frameLength (announced data) - 1) :=
    CheckedAt.broken sum differs (by omega)
  rw [value_fromBytes_of_le abi intact' (by rwa [same]) (by rw [same, ← differs.length_eq]; exact complete),
    same, if_pos ⟨nonempty, broken⟩]

/-- One changed byte among those a successful decoding consumed makes the
decoder refuse the packet, by the checksum that covers the byte. -/
theorem single_corruption_detected (abi : Abi) (i : Nat) (data data' : List UInt8) (result : Result abi)
    (differs : DiffersOnlyAt i data data')
    (run : (fromBytes abi data.length).value data = some result) (ok : result.error = .ok)
    (consumed : i < result.stop) :
    ∃ result', (fromBytes abi data'.length).value data' = some result' ∧ result'.error ≠ .ok ∧
      (i < 4 → result'.error = .invalidHeaderCrc) ∧ (4 ≤ i → result'.error = .invalidPacketCrc) := by
  obtain ⟨intact, accepted⟩ := fromBytes_ok run ok
  by_cases inHeader : i < 4
  · exact ⟨_, header_change_detected abi differs intact inHeader, by simp [Result.failed],
      fun _ => rfl, fun behind => absurd inHeader (by omega)⟩
  · rcases accepted with ⟨small, stop, complete, good⟩ | ⟨wrapped, stop⟩
    · rw [stop] at consumed
      exact ⟨_, payload_change_detected abi differs intact small complete good (by omega) consumed,
        by simp [Result.failed], fun header => absurd header inHeader, fun _ => rfl⟩
    · -- A wrapped packet size ends inside the header.
      have bound := (announced data).toNat_lt
      omega

theorem single_corruption_detected_in_payload : ∃ result',
    (fromBytes Abi.lp64 7).value [0x01, 0x00, 0x02, 0x8C, 0x08, 0x05, 0x9B] = some result' ∧
      result'.error ≠ .ok ∧ (4 < 4 → result'.error = .invalidHeaderCrc) ∧
      (4 ≤ 4 → result'.error = .invalidPacketCrc) := by
  have intact : HeaderIntact [0x01, 0x00, 0x02, 0x8C, 0x07, 0x05, 0x9B] := by decide
  obtain ⟨packet, run, _⟩ := fromBytes_accepts Abi.lp64 intact (by decide) (by decide) (by decide)
  exact single_corruption_detected Abi.lp64 4 [0x01, 0x00, 0x02, 0x8C, 0x07, 0x05, 0x9B]
    [0x01, 0x00, 0x02, 0x8C, 0x08, 0x05, 0x9B] _
    (differsOnlyAt_set (l := [0x01, 0x00, 0x02, 0x8C, 0x07, 0x05, 0x9B]) rfl (by decide)) run rfl
    (show 4 < 7 by decide)

end Rbc.Dcp2
