import Rbc.Dcp2.Verdict

namespace Rbc.Dcp2

open BoundedReader Checksum

/-- What the frame format says of a byte string, with the length of the frame
taken as an integer. -/
def formatVerdict (data : List UInt8) : Error :=
  if data.length < 4 then .needMoreData
  else if ¬HeaderIntact data then .invalidHeaderCrc
  else if data.length < frameLength (announced data) then .needMoreData
  else if 0 < announced data ∧ ¬SumAt data (frameLength (announced data) - 1) then .invalidPacketCrc
  else .ok

/-- The decoder answers as the format says. After an acceptance the end lies
behind the frame and the packet encodes to the bytes of the frame; otherwise the
end is where the data starts. -/
def FollowsFormat (abi : Abi) (data : List UInt8) : Prop :=
  ∃ result, (fromBytes abi data.length).value data = some result ∧
    result.error = formatVerdict data ∧
    (result.error = .ok → result.stop = frameLength (announced data) ∧
      ∀ junk, toBytes junk result.packet = some (data.take (frameLength (announced data)))) ∧
    (result.error ≠ .ok → result.stop = 0)

theorem followsFormat_of_failed {abi : Abi} {data : List UInt8} (error : Error) (bad : error ≠ .ok)
    (run : (fromBytes abi data.length).value data = some (.failed abi error))
    (verdict : formatVerdict data = error) : FollowsFormat abi data :=
  ⟨_, run, verdict.symm, fun ok => absurd ok bad, fun _ => rfl⟩

theorem followsFormat_of_le (abi : Abi) {data : List UInt8} (intact : HeaderIntact data)
    (small : (announced data).toNat ≤ 250) : FollowsFormat abi data := by
  have long := intact.four_le_length
  by_cases complete : frameLength (announced data) ≤ data.length
  swap
  · refine followsFormat_of_failed .needMoreData (by decide) (value_fromBytes_incomplete abi intact small (by omega)) ?_
    rw [formatVerdict, if_neg (by omega), if_neg (not_not.mpr intact), if_pos (by omega)]
  by_cases bad : announced data ≠ 0 ∧ ¬SumAt data (frameLength (announced data) - 1)
  · refine followsFormat_of_failed .invalidPacketCrc (by decide) ?_ ?_
    · rw [value_fromBytes_of_le abi intact small complete, if_pos bad]
    · rw [formatVerdict, if_neg (by omega), if_neg (not_not.mpr intact), if_neg (by omega),
        if_pos ⟨UInt8.pos_iff_ne_zero.mpr bad.1, bad.2⟩]
  · obtain ⟨packet, run, frame⟩ := fromBytes_accepts abi intact small complete (by tauto)
    refine ⟨_, run, ?_, fun _ => ⟨rfl, fun junk => ?_⟩, fun failed => absurd rfl failed⟩
    · rw [formatVerdict, if_neg (by omega), if_neg (not_not.mpr intact), if_neg (by omega),
        if_neg (by rwa [UInt8.pos_iff_ne_zero])]
    · rw [toBytes_eq, frame]

/-- The inputs on which the decoder follows the format: the lengths that do not
wrap around, and frames that are complete and have a wrong checksum both where
it belongs and where the wrapped packet size makes the decoder look. -/
def FormatKept (data : List UInt8) : Prop :=
  ¬HeaderIntact data ∨ (announced data).toNat ≤ 250 ∨
    251 < (announced data).toNat ∧ frameLength (announced data) ≤ data.length ∧
      ¬SumAt data ((announced data).toNat - 252) ∧ ¬SumAt data (frameLength (announced data) - 1)

theorem followsFormat_of_formatKept (abi : Abi) {data : List UInt8} (kept : FormatKept data) :
    FollowsFormat abi data := by
  by_cases long : 4 ≤ data.length
  swap
  · exact followsFormat_of_failed .needMoreData (by decide) (value_fromBytes_short abi data (by omega))
      (by rw [formatVerdict, if_pos (by omega)])
  by_cases intact : HeaderIntact data
  swap
  · exact followsFormat_of_failed .invalidHeaderCrc (by decide) (value_fromBytes_of_not_intact abi long intact)
      (by rw [formatVerdict, if_neg (by omega), if_pos intact])
  rcases kept with broken | small | ⟨wrapped, complete, looked, last⟩
  · exact absurd intact broken
  · exact followsFormat_of_le abi intact small
  · have positive : 0 < announced data := by
      rw [UInt8.lt_iff_toNat_lt, UInt8.toNat_zero]; omega
    refine followsFormat_of_failed .invalidPacketCrc (by decide) ?_ ?_
    · rw [value_fromBytes_wrapped abi intact wrapped, if_neg looked]
    · rw [formatVerdict, if_neg (by omega), if_neg (not_not.mpr intact), if_neg (by omega),
        if_pos ⟨positive, last⟩]

/-- With a wrapped packet size an answer that fits the format can only be that
the packet checksum is wrong. -/
theorem formatKept_of_followsFormat {abi : Abi} {data : List UInt8} (follows : FollowsFormat abi data) :
    FormatKept data := by
  by_cases intact : HeaderIntact data
  swap
  · exact Or.inl intact
  by_cases small : (announced data).toNat ≤ 250
  · exact Or.inr (Or.inl small)
  obtain ⟨result, run, verdict, accepted, _⟩ := follows
  have long := intact.four_le_length
  have bound := (announced data).toNat_lt
  by_cases zero : (announced data).toNat = 251
  · rw [value_fromBytes_wrapped_zero abi intact zero] at run
    cases run
  have wrapped : 251 < (announced data).toNat := by omega
  rw [value_fromBytes_wrapped abi intact wrapped] at run
  split at run
  · obtain ⟨packet, _, same⟩ := Option.map_eq_some_iff.mp run
    subst same
    have stop := (accepted rfl).1
    simp only [frameLength] at stop
    omega
  · rename_i looked
    cases Option.some.inj run
    have verdict : formatVerdict data = .invalidPacketCrc := verdict.symm
    rw [formatVerdict, if_neg (by omega), if_neg (not_not.mpr intact)] at verdict
    split at verdict
    · cases verdict
    · rename_i complete
      split at verdict
      · rename_i last
        exact Or.inr (Or.inr ⟨wrapped, by omega, looked, last.2⟩)
      · cases verdict

theorem followsFormat_iff_formatKept (abi : Abi) (data : List UInt8) :
    FollowsFormat abi data ↔ FormatKept data :=
  ⟨formatKept_of_followsFormat, followsFormat_of_formatKept abi⟩

/-- A header that announces 255 bytes, none of which has arrived, is refused
for a wrong packet checksum. -/
theorem header_255_not_followsFormat : ¬FollowsFormat Abi.lp64 [0x01, 0x00, 0xFF, 0x89] := by
  intro follows
  have kept := formatKept_of_followsFormat follows
  exact absurd kept (by unfold FormatKept; decide)

end Rbc.Dcp2
