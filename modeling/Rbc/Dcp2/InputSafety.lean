import Rbc.Dcp2.Verdict

namespace Rbc.Dcp2

open BoundedReader Checksum

theorem rounds_packetCrcLoop (buffer : List UInt8) (n idx : Nat) (crc : UInt8)
    (within : idx + n ≤ buffer.length) : (packetCrcLoop n idx crc).rounds buffer = n := by
  induction n generalizing idx crc with
  | zero => rfl
  | succ n ih =>
    have here : idx < buffer.length := by omega
    have byte : (read (idx : Int)).value buffer = some buffer[idx] := by
      rw [value_read_natCast, List.getElem?_eq_getElem here]
    rw [packetCrcLoop, rounds_bind_some tick _ buffer (value_tick buffer), rounds_tick,
      rounds_bind_some _ _ buffer byte, rounds_read, ih (idx + 1) _ (by omega)]
    omega

theorem rounds_readPacket (abi : Abi) (len : UInt8) (buffer : List UInt8) :
    (readPacket abi len).rounds buffer = 0 := by
  rw [readPacket]
  iterate 5 rw [rounds_bind_of_forall, rounds_read]; intro _
  rw [rounds_bind_of_forall _ _ _ fun bytes => rounds_pure _ _, rounds_readBlock]

/-- As long as the packet size did not wrap around to zero, the loop stops
before it has seen the whole input. -/
theorem rounds_fromBytesBody_lt (abi : Abi) {data : List UInt8} {len : UInt8}
    (positive : 0 < (packetSize len).toNat) (nonempty : 0 < data.length) :
    (fromBytesBody abi data.length len).rounds data < data.length := by
  have bound := (packetSize len).toNat_lt
  rw [fromBytesBody]
  by_cases within : (packetSize len).toNat ≤ data.length
  swap
  · rw [if_pos (by omega), rounds_pure]
    exact nonempty
  rw [if_neg (by omega), rounds_bind_of_forall]
  swap
  · intro differs
    split
    · exact rounds_pure _ _
    · rw [rounds_bind_of_forall _ _ _ fun packet => rounds_pure _ _, rounds_readPacket]
  rw [packetCrcDiffers]
  split
  · rw [rounds_pure]
    exact nonempty
  · have index : ((packetSize len).toNat : Int) - 1 = ((packetSize len).toNat - 1 : Nat) := by omega
    rw [rounds_bind_of_forall, index, abi.toUsize_of_lt (by omega), packetCrc,
      rounds_packetCrcLoop _ _ _ _ (by omega)]
    · omega
    · intro crc
      rw [rounds_bind_of_forall _ _ _ fun last => rounds_pure _ _, rounds_read]

theorem rounds_fromBytes_of_intact (abi : Abi) {data : List UInt8} (intact : HeaderIntact data) :
    (fromBytes abi data.length).rounds data =
      (fromBytesBody abi data.length (announced data)).rounds data := by
  obtain ⟨b0, b1, b2, b3, rest, rfl⟩ := exists_header intact.four_le_length
  have same : b3 = 0x89 + b0 + b1 + b2 := by
    simpa [HeaderIntact, CheckedAt, add_assoc] using intact
  rw [fromBytes, if_neg (by simp only [List.length_cons]; omega),
    rounds_bind_some (read 3) _ _ (a := b3) rfl, rounds_read, Nat.zero_add,
    rounds_bind_some headerCrc _ _ (value_headerCrc b0 b1 b2 _), if_neg (not_not.mpr same)]
  rw [rounds_bind_some (read 2) _ _ (a := b2) rfl, rounds_read, Nat.zero_add]
  exact Nat.zero_add _

theorem rounds_fromBytes_of_not_intact (abi : Abi) {data : List UInt8} (broken : ¬HeaderIntact data) :
    (fromBytes abi data.length).rounds data = 0 := by
  by_cases long : 4 ≤ data.length
  swap
  · rw [fromBytes, if_pos (by omega), rounds_pure]
  obtain ⟨b0, b1, b2, b3, rest, rfl⟩ := exists_header long
  have differs : b3 ≠ 0x89 + b0 + b1 + b2 := by
    intro same
    apply broken
    simp [HeaderIntact, CheckedAt, same, add_assoc]
  rw [fromBytes, if_neg (by simp only [List.length_cons]; omega),
    rounds_bind_some (read 3) _ _ (a := b3) rfl, rounds_read, Nat.zero_add,
    rounds_bind_some headerCrc _ _ (value_headerCrc b0 b1 b2 _), if_pos differs]
  rfl

/-- Every byte the decoder reads lies in its input, and when it runs the loop
of `packet_crc` at all, that loop makes fewer rounds than the input has bytes. -/
def ReadsStayInside (abi : Abi) (data : List UInt8) : Prop :=
  (fromBytes abi data.length).InBounds data ∧
    (0 < (fromBytes abi data.length).rounds data →
      (fromBytes abi data.length).rounds data < data.length)

/-- The inputs on which a wrapped packet size does no harm: the header is
refused, the length is small enough, or the checksum of the truncated packet is
wrong, or all announced bytes are there anyway. -/
def ReadSafe (data : List UInt8) : Prop :=
  ¬HeaderIntact data ∨ (announced data).toNat ≤ 250 ∨
    251 < (announced data).toNat ∧
      (¬SumAt data ((announced data).toNat - 252) ∨ 4 + (announced data).toNat ≤ data.length)

instance (data : List UInt8) : Decidable (ReadSafe data) := by
  unfold ReadSafe; infer_instance

theorem value_fromBytes_eq_none {abi : Abi} {data : List UInt8} (unguarded : ¬ReadSafe data) :
    (fromBytes abi data.length).value data = none := by
  unfold ReadSafe at unguarded
  push Not at unguarded
  obtain ⟨intact, large, copied⟩ := unguarded
  rcases Nat.lt_or_eq_of_le large with wrapped | wrapped
  · obtain ⟨sum, short⟩ := copied wrapped
    rw [value_fromBytes_wrapped abi intact wrapped, if_pos sum,
      value_readPacket_of_intact_short abi intact short]
    rfl
  · exact value_fromBytes_wrapped_zero abi intact wrapped.symm

theorem isSome_value_fromBytes {abi : Abi} {data : List UInt8} (safe : ReadSafe data) :
    ((fromBytes abi data.length).value data).isSome := by
  by_cases long : 4 ≤ data.length
  swap
  · rw [value_fromBytes_short abi data (by omega)]
    rfl
  by_cases intact : HeaderIntact data
  swap
  · rw [value_fromBytes_of_not_intact abi long intact]
    rfl
  rcases safe with broken | small | ⟨wrapped, guarded⟩
  · exact absurd intact broken
  · by_cases complete : frameLength (announced data) ≤ data.length
    · obtain ⟨packet, read, _⟩ := value_readPacket_of_intact abi intact
        (by rw [frameLength] at complete; omega)
      rw [value_fromBytes_of_le abi intact small complete, read]
      split <;> rfl
    · rw [value_fromBytes_incomplete abi intact small (by omega)]
      rfl
  · rw [value_fromBytes_wrapped abi intact wrapped]
    split
    · rename_i sum
      obtain ⟨packet, read, _⟩ := value_readPacket_of_intact abi intact
        (guarded.resolve_left (not_not.mpr sum))
      rw [read]
      rfl
    · rfl

theorem rounds_fromBytes_lt {abi : Abi} {data : List UInt8} (safe : ReadSafe data)
    (looped : 0 < (fromBytes abi data.length).rounds data) :
    (fromBytes abi data.length).rounds data < data.length := by
  by_cases intact : HeaderIntact data
  · have long := intact.four_le_length
    rw [rounds_fromBytes_of_intact abi intact]
    refine rounds_fromBytesBody_lt abi ?_ (by omega)
    rcases safe with broken | small | ⟨wrapped, _⟩
    · exact absurd intact broken
    · rw [packetSize_of_le small, frameLength]; omega
    · rw [packetSize_of_gt (by omega)]; omega
  · rw [rounds_fromBytes_of_not_intact abi intact] at looped
    omega

/-- The decoder stays inside its input on exactly the safe inputs: where the
wrapped packet size lets it go on, it leaves the input. -/
theorem readsStayInside_iff_readSafe (abi : Abi) (data : List UInt8) :
    ReadsStayInside abi data ↔ ReadSafe data := by
  constructor
  · rintro ⟨inside, _⟩
    by_contra unguarded
    rw [inBounds_iff_isSome, value_fromBytes_eq_none unguarded] at inside
    exact Bool.false_ne_true inside
  · intro safe
    exact ⟨inBounds_iff_isSome.mpr (isSome_value_fromBytes safe), rounds_fromBytes_lt safe⟩

/-- Four bytes, announcing 251 more, send `packet_crc` through the whole
address space. -/
theorem header_251_not_readsStayInside : ¬ReadsStayInside Abi.lp64 [0x01, 0x00, 0xFB, 0x85] := by
  rintro ⟨inside, _⟩
  rw [inBounds_iff_isSome, value_fromBytes_wrapped_zero Abi.lp64 (by decide) (by decide)] at inside
  exact Bool.false_ne_true inside

end Rbc.Dcp2
