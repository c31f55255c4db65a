import Podnet.Client.Vetted
import Podnet.Replica.Voting

namespace Podnet

/-- `message_to_sign` of `start_log_vote_service`. -/
def logVoteMessage (transaction : Transaction) (ts : Timestamp) (sn : SequenceNumber) : List UInt8 :=
  votePayload transaction.data ts sn

/-- `message_to_sign` of `start_heartbeat_service`. -/
def heartbeatMessage (timestamp : Timestamp) (sequenceNumber : SequenceNumber) : List UInt8 :=
  votePayload heartbeatData timestamp sequenceNumber

/-- The message under the signature of a vote. -/
def Vote.message (vote : Vote) : List UInt8 :=
  votePayload ((vote.transaction.map Transaction.data).getD []) vote.timestamp vote.sequenceNumber

/-- What a replica has put its signature under, in all its lives. -/
def Node.signedMessages (st : Node) : List (List UInt8) := st.signed.map Vote.message

/-- A valid signature exists only for messages that were signed. -/
def Unforgeable (verifyStrict : VerifyStrict) (pk : VerifyingKey) (messages : List (List UInt8)) : Prop :=
  ∀ message signature, verifyStrict pk message signature = true → message ∈ messages

/-- The votes that got past the signature check: processed ones, and those that wait in
the backlog. -/
def ClientState.Accepts (s : ClientState) (vote : Vote) : Prop :=
  (∃ r, (r, vote) ∈ s.calls) ∨
    ∃ r entry sn, s.backlog.lookup r = some entry ∧ entry.lookup sn = some vote

section Replica

variable {recordCodec : Codec VoteRecord} {sign : List UInt8 → Signature} {replicaId : ReplicaId}
  {allowed : Node → NodeEvent → Prop} {st st' : Node} {event : NodeEvent}

/-- A step signs nothing, or the vote of one of the two services. -/
theorem NodeStep.signed_cases (step : NodeStep recordCodec sign replicaId st event st') :
    st'.signed = st.signed ∨
    (∃ tx ts sn, st'.signed = st.signed ++ [signedVote sign replicaId tx ts sn] ∧
      st.log = .stamped ⟨tx⟩ sn ts) ∨
    ∃ ts sn, st'.signed = st.signed ++ [signedVote sign replicaId heartbeatData ts sn] ∧
      st.beat = .stamped sn ts := by
  cases step with
  | sign phase made => exact Or.inr (Or.inl ⟨_, _, _, by simp [Node.signed, made], phase⟩)
  | beatSign phase made => exact Or.inr (Or.inr ⟨_, _, by simp [Node.signed, made], phase⟩)
  | restart => exact Or.inl (by simp [Node.signed, Node.restart, Node.initial])
  | receive | readClock | write | appendError | broadcast | tick | beatClock | beatBroadcast =>
    exact Or.inl rfl

/-- Whatever happened before, a replica's votes are signed votes under its own id. -/
theorem NodeReach.signed_form (reach : NodeReach recordCodec sign replicaId allowed st) :
    ∀ vote ∈ st.signed, ∃ data ts sn, vote = signedVote sign replicaId data ts sn := by
  induction reach with
  | start => simp [Node.signed, Node.initial]
  | next _ _ step ih =>
    intro vote member
    rcases step.signed_cases with same | ⟨tx, ts, sn, more, _⟩ | ⟨ts, sn, more, _⟩
    · exact ih vote (same ▸ member)
    · rw [more] at member
      rcases List.mem_append.mp member with old | new
      · exact ih vote old
      · exact ⟨tx, ts, sn, List.mem_singleton.mp new⟩
    · rw [more] at member
      rcases List.mem_append.mp member with old | new
      · exact ih vote old
      · exact ⟨heartbeatData, ts, sn, List.mem_singleton.mp new⟩

theorem message_signedVote (data : List UInt8) (ts : Timestamp) (sn : SequenceNumber) :
    (signedVote sign replicaId data ts sn).message = votePayload data ts sn := rfl

/-- A signed payload is that of exactly one vote of the replica. -/
theorem NodeReach.mem_signed_of_message {data : List UInt8} {ts : Timestamp} {sn : SequenceNumber}
    (reach : NodeReach recordCodec sign replicaId allowed st)
    (member : votePayload data ts sn ∈ st.signedMessages) :
    signedVote sign replicaId data ts sn ∈ st.signed := by
  obtain ⟨vote, inSigned, same⟩ := List.mem_map.mp member
  obtain ⟨data', ts', sn', rfl⟩ := reach.signed_form vote inSigned
  rw [message_signedVote] at same
  obtain ⟨rfl, rfl, rfl⟩ := votePayload_injective same
  exact inSigned

end Replica

section Client

variable {verifyStrict : VerifyStrict} {replicas : HashMap ReplicaId Replica} {vote : Vote}
  {replica : Replica} {messages : List (List UInt8)}

/-- Under an unforgeable key a verified vote has a payload that was signed. -/
theorem Verified.payload_signed (verified : Verified verifyStrict replicas vote)
    (known : replicas.lookup vote.replicaId = some replica)
    (unforgeable : Unforgeable verifyStrict replica.pk messages) :
    ∃ data, vote.transaction = some ⟨data⟩ ∧
      votePayload data vote.timestamp vote.sequenceNumber ∈ messages := by
  obtain ⟨tx, replica', carried, known', valid⟩ := verified
  cases Option.some.inj (known.symm.trans known')
  refine ⟨tx.data, carried, ?_⟩
  unfold verifyVoteSignature at valid
  split at valid
  · exact unforgeable _ _ valid
  · simp at valid

theorem ClientState.Accepts.verified {s : ClientState} (accepts : s.Accepts vote)
    (vetted : Vetted verifyStrict replicas s) : Verified verifyStrict replicas vote := by
  rcases accepts with ⟨r, member⟩ | ⟨r, entry, sn, backlog, atSn⟩
  · exact (vetted.calls r vote member).2
  · exact (vetted.kept r entry sn vote backlog atSn).2.2

end Client

/-- The payload under a signature determines the vote: it is the payload of one
transaction, timestamp and number only, whichever of the three builders made it. So
whatever a client accepts under the name of a replica with an unforgeable key carries
a triple that the replica signed. -/
theorem signed_payload_determines_vote :
    (∀ transaction timestamp sequenceNumber tx ts sn,
      votePayload transaction timestamp sequenceNumber = logVoteMessage tx ts sn →
        transaction = tx.data ∧ timestamp = ts ∧ sequenceNumber = sn) ∧
    (∀ transaction timestamp sequenceNumber ts sn,
      votePayload transaction timestamp sequenceNumber = heartbeatMessage ts sn →
        transaction = heartbeatData ∧ timestamp = ts ∧ sequenceNumber = sn) ∧
    ∀ recordCodec sign replicaId allowed st verifyStrict replicasList s d replica,
      NodeReach recordCodec sign replicaId allowed st → ClientReach verifyStrict replicasList (s, d) →
      (initPodNetworkClient replicasList).1.lookup replicaId = some replica →
      Unforgeable verifyStrict replica.pk st.signedMessages →
      ∀ vote, s.Accepts vote → vote.replicaId = replicaId → ∃ data, vote.transaction = some ⟨data⟩ ∧
        signedVote sign replicaId data vote.timestamp vote.sequenceNumber ∈ st.signed := by
  refine ⟨fun _ _ _ _ _ _ => votePayload_injective, fun _ _ _ _ _ => votePayload_injective, ?_⟩
  intro recordCodec sign replicaId allowed st verifyStrict replicasList s d replica reach client known
    unforgeable vote accepts named
  subst named
  obtain ⟨data, carried, signed⟩ :=
    (accepts.verified client.vetted).payload_signed known unforgeable
  exact ⟨data, carried, reach.mem_signed_of_message signed⟩

/-- A replica that has signed one vote, a key that accepts this payload only, and a
client that has processed the vote. -/
theorem signed_payload_determines_vote_one_vote :
    let key : VerifyingKey := Vector.replicate 32 3
    let vote := standInVote 7 [65] 5 0
    let verifyStrict : VerifyStrict := fun pk message signature =>
      standInVerify pk message signature && decide (message = votePayload [65] 5 0)
    ∃ st s d, NodeReach voteRecordCodec (standInSign key) 7 (fun _ _ => True) st ∧
      ClientReach verifyStrict (standInReplicas [7]) (s, d) ∧
      Unforgeable verifyStrict key st.signedMessages ∧ s.Accepts vote ∧
      ∃ data, vote.transaction = some ⟨data⟩ ∧
        signedVote (standInSign key) 7 data vote.timestamp vote.sequenceNumber ∈ st.signed := by
  intro key vote verifyStrict
  have numbered : NodeReach voteRecordCodec (standInSign key) 7 (fun _ _ => True) _ :=
    .next .start trivial (.receive ⟨[65]⟩ rfl (by simp [maxMessageSize]))
  have stamped := numbered.next trivial (.readClock 5 rfl)
  have signed := stamped.next trivial (.sign rfl rfl)
  have ends : (startPodDataUpdater verifyStrict (initPodNetworkClient (standInReplicas [7])).1 [vote]
      (initPodNetworkClient (standInReplicas [7])).2).toOption.any
        (fun s => decide (s.calls = [(7, vote)])) = true := by decide +kernel
  obtain ⟨s, run, processed⟩ := exists_ok_of_any ends
  have client : ClientReach verifyStrict (standInReplicas [7]) (s, none) := startPodDataUpdater_run run
  have accepts : s.Accepts vote := Or.inl ⟨7, by simp [of_decide_eq_true processed]⟩
  have known : (initPodNetworkClient (standInReplicas [7])).1.lookup 7 = some (⟨7, key⟩ : Replica) := by
    decide +kernel
  have unforgeable : ∀ messages, votePayload [65] 5 0 ∈ messages →
      Unforgeable verifyStrict key messages := by
    intro messages member message signature valid
    obtain ⟨_, same⟩ := (Bool.and_eq_true _ _).mp valid
    exact of_decide_eq_true same ▸ member
  exact ⟨_, s, none, signed, client, unforgeable _ (.head _), accepts,
    signed_payload_determines_vote.2.2 _ _ _ _ _ _ _ s none _ signed client known
      (unforgeable _ (.head _)) vote accepts rfl⟩

end Podnet
