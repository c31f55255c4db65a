import Podnet.Replica.Connection

namespace Podnet

open Proto3

section ClientSchema

/-- The field numbers that a schema gives to a vote and to the transaction inside. -/
structure VoteTags where
  replicaId : Nat
  timestamp : Nat
  sequenceNumber : Nat
  signature : Nat
  transaction : Nat
  data : Nat

/-- The numbers of the client's `clientapi.proto`. -/
def clientapi : VoteTags := ⟨1, 2, 3, 4, 5, 1⟩

def uint64Value : Value → Option UInt64
  | .varint v => some (UInt64.ofNat v)
  | _ => none

def bytesValue : Value → Option (List UInt8)
  | .bytes payload => some payload
  | _ => none

/-- One field merged into a transaction of the schema. -/
def Transaction.mergeTagged (tags : VoteTags) (tx : Transaction) (field : Field) : Option Transaction :=
  if field.1 = tags.data then (bytesValue field.2).map fun data => { tx with data := data }
  else some tx

/-- One field merged into a vote of the schema. -/
def Vote.mergeTagged (tags : VoteTags) (vote : Vote) (field : Field) : Option Vote :=
  if field.1 = tags.replicaId then (uint64Value field.2).map fun v => { vote with replicaId := v }
  else if field.1 = tags.timestamp then (uint64Value field.2).map fun v => { vote with timestamp := v }
  else if field.1 = tags.sequenceNumber then
    (uint64Value field.2).map fun v => { vote with sequenceNumber := v }
  else if field.1 = tags.signature then (bytesValue field.2).map fun data => { vote with signature := data }
  else if field.1 = tags.transaction then
    (bytesValue field.2).bind fun payload => (parse (recursionLimit - 1) payload).bind fun fields =>
      (fields.foldlM (Transaction.mergeTagged tags) (vote.transaction.getD ⟨[]⟩)).map fun tx =>
        { vote with transaction := some tx }
  else some vote

/-- The client's `prost::Message::decode` of a vote. -/
def decodeVote (tags : VoteTags) (input : List UInt8) : Except String Vote :=
  decoded ((parse recursionLimit input).bind fun fields => fields.foldlM (Vote.mergeTagged tags) Vote.default)

theorem Transaction.mergeTagged_clientapi : Transaction.mergeTagged clientapi = Transaction.mergeField := by
  funext tx field
  obtain ⟨tag, value⟩ := field
  by_cases own : tag = 1
  · subst own
    cases value <;> rfl
  · simp [Transaction.mergeTagged, Transaction.mergeField, clientapi, own]

theorem Vote.mergeTagged_clientapi : Vote.mergeTagged clientapi = Vote.mergeField := by
  funext vote field
  obtain ⟨tag, value⟩ := field
  match tag with
  | 0 => rfl
  | 1 => cases value <;> rfl
  | 2 => cases value <;> rfl
  | 3 => cases value <;> rfl
  | 4 => cases value <;> rfl
  | 5 =>
    cases value with
    | bytes payload =>
      simp only [Vote.mergeTagged, Transaction.mergeTagged_clientapi]
      simp [Vote.mergeField, clientapi, bytesValue, Transaction.merge, Option.map_bind]
    | varint | fixed64 | group | fixed32 => rfl
  | n + 6 => simp [Vote.mergeTagged, Vote.mergeField, clientapi]

/-- The client reads every byte string as the replica's own schema does. -/
theorem decodeVote_clientapi (input : List UInt8) : decodeVote clientapi input = voteCodec.merge input := by
  rw [decodeVote, Vote.mergeTagged_clientapi]
  rfl

end ClientSchema

section Paths

variable {sign : List UInt8 → Signature} {replicaId : ReplicaId} {st : Node} {vote : Vote}

/-- The message on the wire for a vote in the merged channel. -/
def wireBytes (replicaId : ReplicaId) (vote : Vote) : List UInt8 :=
  voteCodec.encode { vote with replicaId := replicaId }

theorem VotesOnMessage.short_wire (votes : VotesOnMessage sign replicaId vote) :
    (voteCodec.encode vote).length < 2 ^ 32 := by
  obtain ⟨data, ts, sn, small, rfl⟩ := votes
  have id := length_uint64Field 1 replicaId
  have time := length_uint64Field 2 ts
  have number := length_uint64Field 3 sn
  have sig := length_bytesField 4 (sign (votePayload data ts sn)).toList
  have tx := length_transactionField 5 (some ⟨data⟩)
  rw [Vector.length_toList] at sig
  simp only [Option.elim_some] at tx
  simp only [maxMessageSize] at small
  simp only [voteCodec, Vote.fields, signedVote, List.flatMap_append, List.length_append]
  omega

/-- What the client makes of a vote's message. -/
theorem VotesOnMessage.decodeVote_wireBytes (votes : VotesOnMessage sign replicaId vote) :
    decodeVote clientapi (wireBytes replicaId vote) = .ok vote := by
  have own : ({ vote with replicaId := replicaId } : Vote) = vote := by
    rw [← votes.replicaId_eq]
  rw [decodeVote_clientapi, wireBytes, own]
  exact voteCodec.merge_encode vote votes.short_wire

theorem VotesOnMessage.verifies {verifyStrict : VerifyStrict} {pk : VerifyingKey}
    (accepts : ∀ message, verifyStrict pk message (sign message) = true)
    (votes : VotesOnMessage sign replicaId vote) :
    ∃ tx, vote.transaction = some tx ∧
      verifyVoteSignature verifyStrict pk tx.data vote.timestamp vote.sequenceNumber vote.signature =
        true := by
  obtain ⟨data, ts, sn, _, rfl⟩ := votes
  have size : (signedVote sign replicaId data ts sn).signature.length = 64 := by
    simp [signedVote]
  refine ⟨⟨data⟩, rfl, ?_⟩
  rw [verifyVoteSignature, dif_pos size]
  exact accepts _

/-- A logged vote reaches the client unchanged on both paths, through the channel and
through the log, and its signature checks there. -/
theorem catch_up_votes_equal_live_votes (sign : List UInt8 → Signature) (verifyStrict : VerifyStrict)
    (pk : VerifyingKey) (accepts : ∀ message, verifyStrict pk message (sign message) = true)
    (replicaId : ReplicaId) (st : Node)
    (reach : NodeReach voteRecordCodec sign replicaId Orderly st) (vote : Vote)
    (broadcast : (.logVote, vote) ∈ st.sent) :
    ∃ record ∈ historyRecords voteRecordCodec st.file,
      record.vote replicaId = vote ∧
      decodeVote clientapi (wireBytes replicaId vote) = .ok vote ∧
      decodeVote clientapi (wireBytes replicaId (record.vote replicaId)) = .ok vote ∧
      ∃ tx, vote.transaction = some tx ∧
        verifyVoteSignature verifyStrict pk tx.data vote.timestamp vote.sequenceNumber vote.signature =
          true := by
  obtain ⟨past, persisted⟩ := reach.persistedAfter
  obtain ⟨last, pending, records⟩ := persisted.history compact_voteRecordCodec
  have logged : vote ∈ past ++ loggedVotes st.sent ++ last :=
    List.mem_append_left _ (List.mem_append_right _ (mem_loggedVotes.mpr broadcast))
  have votes := persisted.votes_logged pending vote logged
  have same : vote.record.vote replicaId = vote := by
    rw [← votes.replicaId_eq]
    rfl
  refine ⟨vote.record, ?_, same, votes.decodeVote_wireBytes, ?_, votes.verifies accepts⟩
  · rw [records]
    exact List.mem_map_of_mem logged
  · rw [same]
    exact votes.decodeVote_wireBytes

/-- An empty transaction with the number zero in round zero: the encoders leave all of
it out. -/
theorem catch_up_votes_equal_live_votes_empty :
    let key : VerifyingKey := Vector.replicate 32 3
    let vote := signedVote (standInSign key) 7 [] 0 0
    ∃ st, NodeReach voteRecordCodec (standInSign key) 7 Orderly st ∧ (.logVote, vote) ∈ st.sent ∧
      ∃ record ∈ historyRecords voteRecordCodec st.file,
        record.vote 7 = vote ∧
        decodeVote clientapi (wireBytes 7 vote) = .ok vote ∧
        decodeVote clientapi (wireBytes 7 (record.vote 7)) = .ok vote ∧
        ∃ tx, vote.transaction = some tx ∧
          verifyVoteSignature standInVerify key tx.data vote.timestamp vote.sequenceNumber vote.signature =
            true := by
  intro key vote
  have numbered : NodeReach voteRecordCodec (standInSign key) 7 Orderly _ :=
    .next .start ⟨by simp, by simp⟩ (.receive ⟨[]⟩ rfl (by simp [maxMessageSize]))
  have stamped := numbered.next ⟨by simp, by simp⟩ (.readClock 0 rfl)
  have signed := stamped.next ⟨by simp, by simp⟩ (.sign rfl rfl)
  have written := signed.next ⟨by simp, by simp⟩ (.write (by rw [List.append_nil]))
  have sent := written.next ⟨by simp, by simp⟩ (.broadcast rfl)
  exact ⟨_, sent, List.mem_singleton_self _, catch_up_votes_equal_live_votes (standInSign key) standInVerify key
    (fun message => by simp [standInVerify]) 7 _ sent vote (List.mem_singleton_self _)⟩

end Paths

end Podnet
