import Rbc.Dcp2.InputSafety

namespace Rbc.Dcp2

open BoundedReader

theorem stable_headerCrc : headerCrc.Stable :=
  Stable.bind (stable_read 0) fun _ => Stable.bind (stable_read 1) fun _ =>
    Stable.bind (stable_read 2) fun _ => stable_pure _

theorem stable_packetCrcLoop (remaining idx : Nat) (crc : UInt8) : (packetCrcLoop remaining idx crc).Stable := by
  induction remaining generalizing idx crc with
  | zero => exact stable_pure crc
  | succ n ih => exact Stable.bind stable_tick fun _ => Stable.bind (stable_read idx) fun b => ih (idx + 1) (crc + b)

theorem stable_packetCrcDiffers (abi : Abi) (len packetSize : UInt8) : (packetCrcDiffers abi len packetSize).Stable := by
  refine Stable.ite (stable_pure false) ?_
  exact Stable.bind (stable_packetCrcLoop _ 0 0) fun _ => Stable.bind (stable_read _) fun _ => stable_pure _

theorem stable_readPacket (abi : Abi) (len : UInt8) : (readPacket abi len).Stable := by
  unfold readPacket
  iterate 5 refine Stable.bind (stable_read _) fun _ => ?_
  exact Stable.bind (stable_readBlock 4 len.toNat) fun _ => stable_pure _

theorem stable_fromBytesBody (abi : Abi) (size : Nat) (len : UInt8) : (fromBytesBody abi size len).Stable := by
  refine Stable.ite (stable_pure _) (Stable.bind (stable_packetCrcDiffers _ _ _) fun differs => ?_)
  exact Stable.ite (stable_pure _) (Stable.bind (stable_readPacket abi len) fun _ => stable_pure _)

theorem stable_fromBytes (abi : Abi) (size : Nat) : (fromBytes abi size).Stable := by
  refine Stable.ite (stable_pure _) (Stable.bind (stable_read 3) fun _ => Stable.bind stable_headerCrc fun _ => ?_)
  exact Stable.ite (stable_pure _) (Stable.bind (stable_read 2) fun len => stable_fromBytesBody abi size len)

section Settled

variable {abi : Abi} {size size' : Nat} {data more : List UInt8} {result : Result abi}

/-- Every test of the size that a settled run has passed is passed by a greater size. -/
theorem fromBytesBody_of_grown {len : UInt8} (run : (fromBytesBody abi size len).value data = some result)
    (settled : result.error ≠ .needMoreData) (grown : size ≤ size') :
    (fromBytesBody abi size' len).value data = some result := by
  unfold fromBytesBody at run ⊢
  by_cases short : size < (packetSize len).toNat
  · rw [if_pos short] at run
    cases Option.some.inj run
    exact absurd rfl settled
  · rw [if_neg short] at run
    rw [if_neg (by omega)]
    exact run

theorem fromBytes_of_grown (run : (fromBytes abi size).value data = some result)
    (settled : result.error ≠ .needMoreData) (grown : size ≤ size') :
    (fromBytes abi size').value data = some result := by
  unfold fromBytes at run ⊢
  by_cases short : size < 4
  · rw [if_pos short] at run
    cases Option.some.inj run
    exact absurd rfl settled
  · rw [if_neg short] at run
    rw [if_neg (by omega)]
    obtain ⟨stored, atStored, run⟩ := Option.bind_eq_some_iff.mp run
    obtain ⟨crc, atCrc, run⟩ := Option.bind_eq_some_iff.mp run
    rw [value_bind, atStored, Option.bind_some, value_bind, atCrc, Option.bind_some]
    dsimp only at run ⊢
    by_cases differs : stored ≠ crc
    · rw [if_pos differs] at run ⊢
      exact run
    · rw [if_neg differs] at run ⊢
      obtain ⟨len, atLen, run⟩ := Option.bind_eq_some_iff.mp run
      rw [value_bind, atLen, Option.bind_some]
      exact fromBytesBody_of_grown run settled grown

theorem fromBytes_append (run : (fromBytes abi data.length).value data = some result)
    (settled : result.error ≠ .needMoreData) :
    (fromBytes abi (data ++ more).length).value (data ++ more) = some result := by
  refine stable_fromBytes abi _ data more result (fromBytes_of_grown run settled ?_)
  rw [List.length_append]
  exact Nat.le_add_right _ _

end Settled

/-- What a receiver has after some reads. A read of the decoder outside of the
bytes received so far is a fault and no verdict. -/
inductive Reception (abi : Abi)
  | waiting
  | fault
  | verdict (result : Result abi)

/-- A receiver that decodes everything it has after every read and retries
only when it is told to. -/
def receive (abi : Abi) (received : List UInt8) : List (List UInt8) → Reception abi
  | [] => .waiting
  | chunk :: chunks =>
    match (fromBytes abi (received ++ chunk).length).value (received ++ chunk) with
    | none => .fault
    | some result =>
      if result.error = .needMoreData then receive abi (received ++ chunk) chunks else .verdict result

/-- What decoding all bytes at once gives. -/
def Reception.OfWhole {abi : Abi} (data : List UInt8) : Reception abi → Prop
  | .waiting => ∃ result, (fromBytes abi data.length).value data = some result ∧ result.error = .needMoreData
  | .fault => True
  | .verdict result => (fromBytes abi data.length).value data = some result ∧ result.error ≠ .needMoreData

/-- A verdict stays what it is while more bytes arrive, so every receiver that
does not fault ends up with what all bytes together give. -/
theorem receive_ofWhole (abi : Abi) (received : List UInt8) (chunks : List (List UInt8))
    (before : (Reception.waiting : Reception abi).OfWhole received) :
    (receive abi received chunks).OfWhole (received ++ chunks.flatten) := by
  induction chunks generalizing received with
  | nil => simpa only [receive, List.flatten_nil, List.append_nil] using before
  | cons chunk chunks ih =>
    rw [List.flatten_cons, ← List.append_assoc, receive]
    cases run : (fromBytes abi (received ++ chunk).length).value (received ++ chunk) with
    | none => trivial
    | some result =>
      by_cases retry : result.error = .needMoreData
      · simp only [if_pos retry]
        exact ih (received ++ chunk) ⟨result, run, retry⟩
      · simp only [if_neg retry]
        exact ⟨fromBytes_append run retry, retry⟩

theorem announced_append {data : List UInt8} (more : List UInt8) (long : 3 ≤ data.length) :
    announced (data ++ more) = announced data := by
  rw [announced, announced, List.getD_eq_getElem?_getD, List.getElem?_append_left (by omega),
    ← List.getD_eq_getElem?_getD]

/-- No receiver faults on a stream whose first frame has a length that does
not wrap around. -/
theorem receive_ne_fault (abi : Abi) (received : List UInt8) (chunks : List (List UInt8))
    (small : (announced (received ++ chunks.flatten)).toNat ≤ 250) : receive abi received chunks ≠ .fault := by
  induction chunks generalizing received with
  | nil => simp [receive]
  | cons chunk chunks ih =>
    rw [List.flatten_cons, ← List.append_assoc] at small
    have safe : ReadSafe (received ++ chunk) := by
      by_cases intact : HeaderIntact (received ++ chunk)
      · have long := intact.four_le_length
        rw [announced_append _ (by omega)] at small
        exact Or.inr (Or.inl small)
      · exact Or.inl intact
    have decoded : ((fromBytes abi (received ++ chunk).length).value (received ++ chunk)).isSome :=
      isSome_value_fromBytes safe
    obtain ⟨result, run⟩ := Option.isSome_iff_exists.mp decoded
    rw [receive, run]
    by_cases retry : result.error = .needMoreData
    · simp only [if_pos retry]
      exact ih (received ++ chunk) small
    · simp [retry]

theorem Reception.eq_of_ofWhole {abi : Abi} {data : List UInt8} {a b : Reception abi} (ha : a.OfWhole data)
    (hb : b.OfWhole data) (safe : a ≠ .fault) (safe' : b ≠ .fault) : a = b := by
  cases a with
  | fault => exact absurd rfl safe
  | waiting =>
    obtain ⟨result, run, retry⟩ := ha
    cases b with
    | fault => exact absurd rfl safe'
    | waiting => rfl
    | verdict other => exact absurd (Option.some.inj (hb.1.symm.trans run) ▸ retry) hb.2
  | verdict result =>
    cases b with
    | fault => exact absurd rfl safe'
    | waiting =>
      obtain ⟨other, run, retry⟩ := hb
      exact absurd (Option.some.inj (ha.1.symm.trans run) ▸ retry) ha.2
    | verdict other => rw [Option.some.inj (ha.1.symm.trans hb.1)]

/-- A verdict does not change when more bytes follow, and receivers that split
one stream differently come to the same verdict. -/
theorem verdict_stable (abi : Abi) :
    (∀ (data more : List UInt8) (result : Result abi),
      (fromBytes abi data.length).value data = some result → result.error ≠ .needMoreData →
      (fromBytes abi (data ++ more).length).value (data ++ more) = some result) ∧
    (∀ chunks chunks' : List (List UInt8), chunks.flatten = chunks'.flatten →
      receive abi [] chunks ≠ .fault → receive abi [] chunks' ≠ .fault →
      receive abi [] chunks = receive abi [] chunks') := by
  refine ⟨fun data more result run settled => fromBytes_append run settled, ?_⟩
  intro chunks chunks' same safe safe'
  have start : (Reception.waiting : Reception abi).OfWhole [] := ⟨.failed abi .needMoreData, rfl, rfl⟩
  have whole := receive_ofWhole abi [] chunks start
  have whole' := receive_ofWhole abi [] chunks' start
  rw [← same] at whole'
  exact Reception.eq_of_ofWhole whole whole' safe safe'

/-- A frame with one payload byte, cut after its second byte and after its fourth one. -/
theorem verdict_stable_for_cuts :
    receive Abi.lp64 [] [[0x01, 0x00], [0x01, 0x8B, 0x05, 0x92]] =
      receive Abi.lp64 [] [[0x01, 0x00, 0x01, 0x8B], [0x05, 0x92]] :=
  (verdict_stable Abi.lp64).2 _ _ rfl (receive_ne_fault _ _ _ (by decide)) (receive_ne_fault _ _ _ (by decide))

end Rbc.Dcp2
