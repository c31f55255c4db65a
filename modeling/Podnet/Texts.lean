import Podnet.Client.Rpccli
import Podnet.Delivery

namespace Podnet

section Example

variable {K V : Type} [DecidableEq K] {m : HashMap K V} {k : K} {v : V} {orders : HashOrders} {s : ClientState}
  {tx : Transaction} {r : ReplicaId} {ts : Timestamp} {vote : Vote} {replica : Replica}

theorem visit_singleton (order : IterOrder K V) : order.visit (Finmap.singleton k v) = [(k, v)] := by
  have one : (order.visit (Finmap.singleton k v)).length = 1 := by
    rw [order.length_visit, Finmap.keys_singleton, Finset.card_singleton]
  obtain ⟨entry, only⟩ := List.length_eq_one_iff.mp one
  have visited := (order.mem_visit (Finmap.singleton k v) k v).mpr Finmap.lookup_singleton_eq
  rw [only, List.mem_singleton] at visited
  rw [only, visited]

/-- The reply of a client that knows one vote of its only replica. -/
theorem read_one_vote (tsps : s.tsps = Finmap.singleton tx (Finmap.singleton r ts))
    (mrt : s.mrt = Finmap.singleton r ts) (kept : s.tsVoteMsg.lookup ts = some vote) :
    read orders ⟨Finmap.singleton r replica, s, 1, 0⟩ = some ⟨[⟨some tx, ts, ts, some ts, [vote]⟩], ts, [vote]⟩ := by
  simp [read, txRecords, txRecord, minPossibleTs, maxPossibleTs, minPossibleTsForNewTx, middle, IterOrder.keys,
    IterOrder.values, tsps, mrt, kept, visit_singleton]

/-- The reading client after the vote. -/
theorem standIn_reads_one_vote (orders : HashOrders)
    (updated : updateWithVote standInVerify (initPodNetworkClient [⟨7, Vector.replicate 32 3⟩]).1
      (standInVote 7 [65] 5 0) (initPodNetworkClient [⟨7, Vector.replicate 32 3⟩]).2 = .ok s) :
    ∃ podData, read orders (serviceOf [⟨7, Vector.replicate 32 3⟩] 1 0 s) = some podData := by
  have maps : (updateWithVote standInVerify (initPodNetworkClient [⟨7, Vector.replicate 32 3⟩]).1
      (standInVote 7 [65] 5 0) (initPodNetworkClient [⟨7, Vector.replicate 32 3⟩]).2).toOption.any (fun s =>
        decide (s.tsps = (Finmap.singleton ⟨[65]⟩ (Finmap.singleton 7 5 : HashMap ReplicaId Timestamp) :
            HashMap Transaction (HashMap ReplicaId Timestamp)) ∧
          s.mrt = (Finmap.singleton 7 5 : HashMap ReplicaId Timestamp) ∧
          s.tsVoteMsg.lookup 5 = some (standInVote 7 [65] 5 0))) = true := by decide +kernel
  rw [updated] at maps
  obtain ⟨tsps, mrt, kept⟩ := of_decide_eq_true maps
  have single : (initPodNetworkClient [⟨7, Vector.replicate 32 3⟩]).1 =
      (Finmap.singleton 7 ⟨7, Vector.replicate 32 3⟩ : HashMap ReplicaId Replica) := by decide +kernel
  rw [serviceOf, single]
  exact ⟨_, read_one_vote tsps mrt kept⟩

end Example

section Texts

variable {recordCodec : Codec VoteRecord} {wireCodec : Codec Vote} {sign : List UInt8 → Signature}
  {verifyStrict : VerifyStrict} {replicasList : List Replica} {replicaId : ReplicaId} {capacity i k : Nat}
  {replica : Replica} {d : Delivery} {task : ReplicaTask} {t : WriteTask} {c : Connection} {text : String}

theorem isHeartbeat_text : isHeartbeat ⟨Utf8.encode text⟩ = true ↔ text = "HEARTBEAT" := by
  have bytes : heartbeatData = Utf8.encode "HEARTBEAT" := by decide
  rw [isHeartbeat, beq_iff_eq, bytes]
  constructor
  · intro same
    have same : Utf8.encode text = Utf8.encode "HEARTBEAT" := same
    rw [← Utf8.lossy_encode text, same, Utf8.lossy_encode]
  · rintro rfl
    rfl

/-- From the keyboard to the screen: a text that one client has acknowledged is shown by
`rpccli read` at another one when the parties are at rest, if the call returns with the state
that this client computes. Only for the text `HEARTBEAT` no timestamp of the replica is
recorded. -/
theorem sent_text_is_shown (recordCodec : Codec VoteRecord) (wireCodec : Codec Vote)
    (sign : List UInt8 → Signature) (verifyStrict : VerifyStrict) (replicasList : List Replica)
    (replicaId : ReplicaId) (capacity i k : Nat) (compact : recordCodec.Compact VoteRecord.size)
    (replica : Replica) (known : (initPodNetworkClient replicasList).1.lookup replicaId = some replica)
    (accepts : ∀ message, verifyStrict replica.pk message (sign message) = true) (d : Delivery)
    (reach : DeliveryReach recordCodec wireCodec sign verifyStrict replicasList replicaId capacity i k d)
    (task : ReplicaTask) (t : WriteTask) (c : Connection) (quiet : d.Quiet i k task t c)
    (bound : d.process.node.drawn < 2 ^ 64) (ascending : d.process.node.Ascending)
    (onlyLogged : ∀ entry ∈ d.process.node.sent.take c.subscribed, entry.1 ≠ .heartbeat)
    (alpha beta : Nat) (orders : HashOrders) (podData : PodData)
    (run : read orders (serviceOf replicasList alpha beta d.reader.client) = some podData)
    (port : UInt16) (stub : ReadMessage → Except Status ReadReply) (replied : stub ⟨⟩ = .ok ⟨some podData⟩)
    (text : String) (acked : ⟨Utf8.encode text⟩ ∈ d.writes.acked) :
    (text ≠ "HEARTBEAT" → ∃ i record,
      txRecord orders (serviceOf replicasList alpha beta d.reader.client) ⟨Utf8.encode text⟩ = some record ∧
        recordLines i record <:+: (readCommand port (some stub)).printed ∧
        "  Data: " ++ text ∈ recordLines i record) ∧
    (text = "HEARTBEAT" → d.reader.client.stamp ⟨Utf8.encode text⟩ replicaId = none) := by
  have stamp := reach.inv.stamp_acked compact known accepts quiet bound ascending onlyLogged acked
  constructor
  · intro plain
    have recorded := stamp.mpr (Bool.eq_false_iff.mpr fun heartbeat => plain (isHeartbeat_text.mp heartbeat))
    rw [readCommand_replied port replied]
    exact text_shown run (mem_tsps_of_stamp recorded)
  · intro heartbeat
    rw [← isHeartbeat_text] at heartbeat
    rw [heartbeat] at stamp
    exact Option.not_isSome_iff_eq_none.mp fun recorded => by simpa using stamp.mp recorded

/-- One text through one replica. -/
theorem sent_text_is_shown_one_text :
    let key : VerifyingKey := Vector.replicate 32 3
    ∃ d task t c, DeliveryReach voteRecordCodec voteCodec (standInSign key) standInVerify [⟨7, key⟩] 7 128 0 0 d ∧
      d.Quiet 0 0 task t c ∧ d.writes.acked = [⟨Utf8.encode "A"⟩] ∧
      ∀ orders, ∃ podData, read orders (serviceOf [⟨7, key⟩] 1 0 d.reader.client) = some podData ∧
        ("A" ≠ "HEARTBEAT" → ∃ i record,
          txRecord orders (serviceOf [⟨7, key⟩] 1 0 d.reader.client) ⟨Utf8.encode "A"⟩ = some record ∧
            recordLines i record <:+: (readCommand 50051 (some fun _ => .ok ⟨some podData⟩)).printed ∧
            "  Data: " ++ "A" ∈ recordLines i record) ∧
        ("A" = "HEARTBEAT" → d.reader.client.stamp ⟨Utf8.encode "A"⟩ 7 = none) := by
  intro key
  obtain ⟨d, task, t, c, reach, quiet, acked, early, drawn, ascending, updated, _⟩ := standIn_delivery
  have text : Utf8.encode "A" = [65] := by decide
  refine ⟨d, task, t, c, reach, quiet, by rw [acked, text], fun orders => ?_⟩
  obtain ⟨podData, run⟩ := standIn_reads_one_vote orders updated
  exact ⟨podData, run, sent_text_is_shown voteRecordCodec voteCodec (standInSign key) standInVerify [⟨7, key⟩] 7
    128 0 0 compact_voteRecordCodec ⟨7, key⟩ standIn_configured (standInVerify_sign key) d reach task t c quiet
    (by rw [drawn]; decide) ascending (by rw [early]; simp) 1 0 orders podData run 50051 _ rfl "A"
    (by rw [acked, text]; exact List.mem_singleton_self _)⟩

end Texts

end Podnet
