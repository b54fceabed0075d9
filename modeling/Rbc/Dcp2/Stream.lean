import Rbc.Basis.Incremental
import Rbc.Dcp2.RoundTrip
import Rbc.Dcp2.Stability

namespace Rbc.Dcp2

open BoundedReader Checksum Incremental

variable {abi : Abi}

/-- What a result tells the caller to do with the bytes it passed. -/
def Result.verdict (result : Result abi) : Verdict (Packet abi) Error :=
  match result.error with
  | .ok => .item result.packet result.stop
  | .needMoreData => .wait
  | e => .reject e

theorem Result.verdict_eq_item {result : Result abi} {packet : Packet abi} {n : Nat}
    (item : result.verdict = .item packet n) : result.error = .ok ∧ result.packet = packet ∧ result.stop = n := by
  cases same : result.error with
  | ok =>
    rw [Result.verdict, same] at item
    cases item
    exact ⟨rfl, rfl, rfl⟩
  | invalidHeaderCrc | invalidPacketCrc | needMoreData =>
    rw [Result.verdict, same] at item
    cases item

theorem Result.error_ne_of_verdict {result : Result abi} (settled : result.verdict ≠ .wait) :
    result.error ≠ .needMoreData := by
  intro more
  rw [Result.verdict, more] at settled
  exact settled rfl

theorem stop_bounds {data : List UInt8} {result : Result abi}
    (run : (fromBytes abi data.length).value data = some result) (ok : result.error = .ok) :
    0 < result.stop ∧ result.stop ≤ data.length := by
  obtain ⟨intact, ⟨_, stop, within, _⟩ | ⟨wrapped, stop⟩⟩ := fromBytes_ok run ok
  · rw [stop]
    refine ⟨?_, within⟩
    rw [frameLength]
    omega
  · have bound := (announced data).toNat_lt
    have long := intact.four_le_length
    rw [stop]
    omega

/-- `rbc_dcp2_packet_from_bytes` for a caller that goes on at `end` as long as
the error is `RBC_DCP2_ERROR_OK`. -/
def decoder (abi : Abi) : Incremental UInt8 (Packet abi) Error where
  decode data := ((fromBytes abi data.length).value data).map Result.verdict
  bounds data packet n found := by
    obtain ⟨result, run, item⟩ := Option.map_eq_some_iff.mp found
    obtain ⟨ok, -, rfl⟩ := Result.verdict_eq_item item
    exact stop_bounds run ok
  stable data more v found settled := by
    obtain ⟨result, run, rfl⟩ := Option.map_eq_some_iff.mp found
    rw [fromBytes_append run (Result.error_ne_of_verdict settled)]
    rfl

theorem HeaderIntact.of_append {data more : List UInt8} (intact : HeaderIntact (data ++ more))
    (long : 4 ≤ data.length) : HeaderIntact data := by
  unfold HeaderIntact CheckedAt at *
  rwa [List.getElem?_append_left (by omega), List.take_append_of_le_length (by omega)] at intact

/-- A whole frame at the front is one item. -/
theorem decode_frame_append (p : Packet abi) (small : p.len ≤ 250) (rest : List UInt8) :
    ∃ q, (decoder abi).decode (p.contents.frame ++ rest) = some (.item q p.contents.frame.length) ∧
      q.contents = p.contents := by
  obtain ⟨bytes, encoded, result, run, ok, -, same, stop⟩ :=
    roundTrips_of_le (fun _ => 0) p rest (UInt8.le_iff_toNat_le.mp small)
  cases Option.some.inj ((toBytes_eq _ p).symm.trans encoded)
  refine ⟨result.packet, ?_, same⟩
  show ((fromBytes abi _).value _).map Result.verdict = _
  rw [run, Option.map_some, Result.verdict, ok, stop]

/-- Less than a frame is not enough. -/
theorem decode_of_cut (p : Packet abi) (small : p.len ≤ 250) {data more : List UInt8}
    (cut : data ++ more = p.contents.frame) (missing : more ≠ []) :
    (decoder abi).decode data = some .wait := by
  have shorter : data.length < p.contents.frame.length := by
    rw [← cut, List.length_append]
    have := List.length_pos_iff.mpr missing
    omega
  by_cases long : 4 ≤ data.length
  · have whole : HeaderIntact (data ++ more) := by
      have intact := p.contents.headerIntact_frame_append []
      rwa [List.append_nil, ← cut] at intact
    have len : announced data = p.len := by
      rw [← announced_append more (by omega), cut, ← p.contents_len, ← p.contents.announced_frame_append [],
        List.append_nil]
    have incomplete : data.length < frameLength (announced data) := by
      rwa [len, ← p.contents_len, ← Contents.frame_length_eq]
    have run := value_fromBytes_incomplete abi (whole.of_append long)
      (by rw [len]; exact UInt8.le_iff_toNat_le.mp small) incomplete
    show ((fromBytes abi _).value _).map Result.verdict = _
    rw [run]
    rfl
  · have run := value_fromBytes_short abi data (Nat.lt_of_not_le long)
    show ((fromBytes abi _).value _).map Result.verdict = _
    rw [run]
    rfl

theorem mapM_toBytes (junk : Nat → UInt8) (packets : List (Packet abi)) :
    packets.mapM (toBytes junk) = some (packets.map fun p => p.contents.frame) := by
  induction packets with
  | nil => rfl
  | cons p packets ih => simp [toBytes_eq, ih]

/-- The bytes of the frames of some packets, one after the other. -/
def frames (packets : List (Packet abi)) : List UInt8 := packets.flatMap fun p => p.contents.frame

/-- The beginning of a frame whose last bytes are missing. -/
def CutOff (abi : Abi) (junk : Nat → UInt8) (rest : List UInt8) : Prop :=
  ∃ p : Packet abi, p.len ≤ 250 ∧ ∃ bytes, toBytes junk p = some bytes ∧ rest <+: bytes ∧ rest ≠ bytes

theorem CutOff.exists_more {junk : Nat → UInt8} {rest : List UInt8} (cut : CutOff abi junk rest) :
    ∃ p : Packet abi, p.len ≤ 250 ∧ ∃ more, more ≠ [] ∧ rest ++ more = p.contents.frame := by
  obtain ⟨p, small, bytes, encoded, ⟨more, whole⟩, part⟩ := cut
  cases Option.some.inj ((toBytes_eq junk p).symm.trans encoded)
  refine ⟨p, small, more, ?_, whole⟩
  rintro rfl
  exact part (by rw [← whole, List.append_nil])

/-- On the way: some packets are received, and what is pending together with
what is still to come is the frames of the others and a last frame cut off. -/
def Underway (packets : List (Packet abi)) (rest future : List UInt8) (c : Client UInt8 (Packet abi)) : Prop :=
  ∃ remaining : List (Packet abi), (∀ p ∈ remaining, p.len ≤ 250) ∧
    c.items.map Packet.contents ++ remaining.map Packet.contents = packets.map Packet.contents ∧
    c.pending ++ future = frames remaining ++ rest

section Underway

variable {junk : Nat → UInt8} {packets : List (Packet abi)} {rest future : List UInt8} {c : Client UInt8 (Packet abi)}

theorem Underway.decode (underway : Underway packets rest future c) (cut : CutOff abi junk rest) :
    ∃ c' v, (decoder abi).step .decode c = some (c', some v) ∧ (∀ e, v ≠ .reject e) ∧
      Underway packets rest future c' := by
  have before := underway
  obtain ⟨remaining, small, contents, bytes⟩ := underway
  have waits : (decoder abi).decode c.pending = some .wait →
      ∃ c' v, (decoder abi).step .decode c = some (c', some v) ∧ (∀ e, v ≠ .reject e) ∧
        Underway packets rest future c' :=
    fun found => ⟨c, .wait, step_of_wait found, by simp, before⟩
  cases remaining with
  | nil =>
    obtain ⟨p, short, more, missing, whole⟩ := cut.exists_more
    have cut' : c.pending ++ (future ++ more) = p.contents.frame := by
      rw [← List.append_assoc, bytes, ← whole]
      rfl
    exact waits (decode_of_cut p short cut' (by simp [missing]))
  | cons p remaining =>
    have short := small p (List.mem_cons_self ..)
    -- the rest of the frame has arrived, with some bytes after it
    have takes : ∀ after, c.pending = p.contents.frame ++ after → after ++ future = frames remaining ++ rest →
        ∃ c' v, (decoder abi).step .decode c = some (c', some v) ∧ (∀ e, v ≠ .reject e) ∧
          Underway packets rest future c' := by
      intro after whole later
      obtain ⟨q, found, same⟩ := decode_frame_append p short after
      rw [← whole] at found
      refine ⟨_, _, step_of_item found, by simp, remaining,
        fun q member => small q (List.mem_cons_of_mem p member), ?_, ?_⟩
      · rw [← contents, List.map_append, List.append_assoc, List.map_singleton, same]
        rfl
      · rw [whole, List.drop_left, later]
    have bytes' : c.pending ++ future = p.contents.frame ++ (frames remaining ++ rest) := by
      rw [bytes, ← List.append_assoc]
      rfl
    rcases List.append_eq_append_iff.mp bytes' with ⟨more, whole, later⟩ | ⟨after, whole, later⟩
    · by_cases none : more = []
      · subst none
        exact takes [] (by rw [whole, List.append_nil, List.append_nil]) later
      · exact waits (decode_of_cut p short whole.symm none)
    · exact takes after whole later.symm

theorem Underway.run (events : List (Event UInt8)) (underway : Underway packets rest (arrived events ++ future) c)
    (cut : CutOff abi junk rest) :
    ∃ last answers, Machine.run (decoder abi).step events c = some (last, answers) ∧
      (∀ e, some (.reject e) ∉ answers) ∧ Underway packets rest future last := by
  induction events generalizing c with
  | nil => exact ⟨c, [], rfl, by simp, underway⟩
  | cons event events ih =>
    obtain ⟨c', answer, stepped, fine, kept⟩ :
        ∃ c' answer, (decoder abi).step event c = some (c', answer) ∧ (∀ e, answer ≠ some (.reject e)) ∧
          Underway packets rest (arrived events ++ future) c' := by
      cases event with
      | arrive chunk =>
        obtain ⟨remaining, small, contents, bytes⟩ := underway
        refine ⟨_, none, rfl, by simp, remaining, small, contents, ?_⟩
        simpa [Event.chunk] using bytes
      | decode =>
        obtain ⟨c', v, stepped, fine, kept⟩ := Underway.decode underway cut
        exact ⟨c', some v, stepped, fun e same => fine e (Option.some.inj same), kept⟩
    obtain ⟨last, answers, ran, fine', kept'⟩ := ih kept
    refine ⟨last, answer :: answers, Machine.run_cons.mpr ⟨c', answer, answers, stepped, ran, rfl⟩, ?_, kept'⟩
    intro e member
    rcases List.mem_cons.mp member with same | later
    · exact fine e same.symm
    · exact fine' e later

/-- When everything has arrived and there is no item at the front, all packets are received. -/
theorem Underway.done (underway : Underway packets rest [] c) (rests : (decoder abi).Rests c.pending) :
    c.items.map Packet.contents = packets.map Packet.contents ∧ c.pending = rest := by
  obtain ⟨remaining, small, contents, bytes⟩ := underway
  cases remaining with
  | nil =>
    rw [List.map_nil, List.append_nil] at contents
    rw [List.append_nil] at bytes
    exact ⟨contents, bytes⟩
  | cons p remaining =>
    obtain ⟨q, found, -⟩ := decode_frame_append p (small p (List.mem_cons_self ..)) (frames remaining ++ rest)
    rw [List.append_nil, frames, List.flatMap_cons, List.append_assoc] at bytes
    rw [bytes] at rests
    exact absurd found (rests _ _)

end Underway

/-- Packets that are encoded one after the other are received in order, none
lost, twice or made up, however the bytes arrive and whenever the decoder is
called; a last frame that is cut off stays pending. -/
theorem stream_roundTrip (junk : Nat → UInt8) (packets : List (Packet abi)) (small : ∀ p ∈ packets, p.len ≤ 250)
    {encoded : List (List UInt8)} (encodes : packets.mapM (toBytes junk) = some encoded)
    {rest : List UInt8} (cut : CutOff abi junk rest) (events : List (Event UInt8))
    (arrives : arrived events <+: encoded.flatten ++ rest) :
    ∃ client answers, Machine.run (decoder abi).step events .start = some (client, answers) ∧
      (∀ e, some (.reject e) ∉ answers) ∧
      client.items.map Packet.contents <+: packets.map Packet.contents ∧
      (arrived events = encoded.flatten ++ rest → (decoder abi).Rests client.pending →
        client.items.map Packet.contents = packets.map Packet.contents ∧ client.pending = rest) := by
  cases Option.some.inj ((mapM_toBytes junk packets).symm.trans encodes)
  have flat : (packets.map fun p => p.contents.frame).flatten = frames packets := List.flatMap_def.symm
  rw [flat] at arrives ⊢
  obtain ⟨future, whole⟩ := arrives
  have start : Underway packets rest (arrived events ++ future) .start :=
    ⟨packets, small, rfl, whole⟩
  obtain ⟨client, answers, ran, fine, kept⟩ := Underway.run events start cut
  refine ⟨client, answers, ran, fine, ?_, ?_⟩
  · obtain ⟨remaining, -, contents, -⟩ := kept
    exact ⟨_, contents⟩
  · intro all rests
    rw [← whole, List.self_eq_append_right] at all
    rw [all] at kept
    exact Underway.done kept rests

/-- A packet without payload and one with a byte of it, cut into pieces, and two bytes more. -/
theorem stream_roundTrip_for_pieces : ∃ client answers,
    Machine.run (decoder Abi.lp64).step
      [.arrive [0, 0, 0, 0x89, 0], .decode, .decode, .arrive [0, 1, 0x8A, 0, 0x8B, 0, 0], .decode] .start =
        some (client, answers) ∧
      (∀ e, some (.reject e) ∉ answers) ∧
      client.items.map Packet.contents <+: [Packet.new Abi.lp64 0, Packet.new Abi.lp64 1].map Packet.contents :=
  have junk : Nat → UInt8 := fun _ => 0
  have cut : CutOff Abi.lp64 junk [0, 0] :=
    ⟨Packet.new Abi.lp64 0, by decide, _, toBytes_eq junk _, by decide, by decide⟩
  have ⟨client, answers, ran, fine, received, _⟩ := stream_roundTrip junk
    [Packet.new Abi.lp64 0, Packet.new Abi.lp64 1] (by decide) (mapM_toBytes junk _) cut
    [.arrive [0, 0, 0, 0x89, 0], .decode, .decode, .arrive [0, 1, 0x8A, 0, 0x8B, 0, 0], .decode] (by decide)
  ⟨client, answers, ran, fine, received⟩

/-- What an accepted packet is, and how many of the bytes it takes. -/
theorem decode_item {data : List UInt8} {p : Packet abi} {n : Nat}
    (found : (decoder abi).decode data = some (.item p n)) :
    p.len ≤ 250 ∧ p.contents.frame = data.take n ∨ ¬p.len ≤ 250 ∧ n < p.contents.frame.length := by
  obtain ⟨result, run, item⟩ := Option.map_eq_some_iff.mp found
  obtain ⟨ok, rfl, rfl⟩ := Result.verdict_eq_item item
  obtain ⟨intact, ⟨small, stop, within, good⟩ | ⟨wrapped, stop⟩⟩ := fromBytes_ok run ok
  · left
    obtain ⟨packet, accepted, frame⟩ := fromBytes_accepts abi intact small within good
    cases Option.some.inj (run.symm.trans accepted)
    have len : packet.len = announced data := by
      rw [← packet.contents_len, ← Contents.announced_frame_append _ (data.drop (frameLength (announced data))),
        frame, List.take_append_drop]
    exact ⟨UInt8.le_iff_toNat_le.mpr (by rw [len]; exact small), frame⟩
  · right
    rw [value_fromBytes_wrapped abi intact wrapped] at run
    split at run
    · obtain ⟨packet, read, same⟩ := Option.map_eq_some_iff.mp run
      subst same
      have enough : 4 + (announced data).toNat ≤ data.length := by
        by_contra short
        rw [value_readPacket_of_intact_short abi intact (by omega)] at read
        cases read
      obtain ⟨packet', read', len, -⟩ := value_readPacket_of_intact abi intact enough
      cases Option.some.inj (read.symm.trans read')
      rw [packet.contents_len] at len
      rw [Contents.frame_length_eq, packet.contents_len, len, UInt8.le_iff_toNat_le]
      refine ⟨Nat.not_le.mpr (Nat.lt_trans (by decide) wrapped), ?_⟩
      show (announced data).toNat - 251 < _
      rw [frameLength]
      omega
    · cases Option.some.inj run
      cases ok

section Consumes

variable {data rest : List UInt8} {items : List (Packet abi)}

theorem eq_frames_of_consumes (consumes : Consumes (decoder abi) data items rest) (small : ∀ p ∈ items, p.len ≤ 250) :
    data = frames items ++ rest := by
  induction consumes with
  | nothing data => rfl
  | @item data rest p n items found _ ih =>
    rcases decode_item found with ⟨_, frame⟩ | ⟨large, _⟩
    · have later := ih fun q member => small q (List.mem_cons_of_mem p member)
      rw [frames, List.flatMap_cons, frame, List.append_assoc]
      exact (List.take_append_drop n data).symm.trans (congrArg (data.take n ++ ·) later)
    · exact absurd (small p (List.mem_cons_self ..)) large

theorem length_le_of_consumes (consumes : Consumes (decoder abi) data items rest) :
    data.length ≤ (frames items).length + rest.length ∧
      ((∃ p ∈ items, ¬p.len ≤ 250) → data.length < (frames items).length + rest.length) := by
  induction consumes with
  | nothing data => simp [frames]
  | @item data rest p n items found _ ih =>
    obtain ⟨most, short⟩ := ih
    have within := ((decoder abi).bounds data p n found).2
    rw [List.length_drop] at most short
    rw [frames, List.flatMap_cons, List.length_append]
    rcases decode_item found with ⟨fits, frame⟩ | ⟨-, shorter⟩
    · have length : p.contents.frame.length = n := by rw [frame, List.length_take_of_le within]
      refine ⟨?_, ?_⟩
      · change data.length - n ≤ (items.flatMap fun p => p.contents.frame).length + rest.length at most
        omega
      · rintro ⟨q, member, large⟩
        rcases List.mem_cons.mp member with rfl | later
        · exact absurd fits large
        · have less := short ⟨q, later, large⟩
          change data.length - n < (items.flatMap fun p => p.contents.frame).length + rest.length at less
          omega
    · change data.length - n ≤ (items.flatMap fun p => p.contents.frame).length + rest.length at most
      exact ⟨by omega, fun _ => by omega⟩

end Consumes

/-- Whatever bytes arrive, also ones that no encoder wrote: what is received,
encoded again, gives the bytes that were used, exactly as long as no packet
with a length that wraps around is among it. -/
theorem received_reencodes_iff (junk : Nat → UInt8) {events : List (Event UInt8)}
    {client : Client UInt8 (Packet abi)} {answers : List (Option (Verdict (Packet abi) Error))}
    (ran : Machine.run (decoder abi).step events .start = some (client, answers)) :
    ∃ encoded, client.items.mapM (toBytes junk) = some encoded ∧
      (arrived events = encoded.flatten ++ client.pending ↔ ∀ p ∈ client.items, p.len ≤ 250) := by
  have consumes := consumes_of_run_start ran
  have flat : (client.items.map fun p => p.contents.frame).flatten = frames client.items := List.flatMap_def.symm
  refine ⟨_, mapM_toBytes junk client.items, ?_⟩
  rw [flat]
  constructor
  · intro same p member
    by_contra large
    have less := (length_le_of_consumes consumes).2 ⟨p, member, large⟩
    rw [same, List.length_append] at less
    exact Nat.lt_irrefl _ less
  · exact eq_frames_of_consumes consumes

/-- Two bytes, a call too early, and the other two bytes of a frame. -/
theorem received_reencodes_for_poll : ∃ encoded, [Packet.new Abi.lp64 0].mapM (toBytes fun _ => 0) = some encoded ∧
    (arrived [.arrive [0, 0], .decode, .arrive [0, 0x89], .decode] = encoded.flatten ++ [] ↔
      ∀ p ∈ [Packet.new Abi.lp64 0], p.len ≤ 250) :=
  @received_reencodes_iff Abi.lp64 (fun _ => 0) [.arrive [0, 0], .decode, .arrive [0, 0x89], .decode]
    ⟨[], [Packet.new Abi.lp64 0]⟩ _ rfl

end Rbc.Dcp2
