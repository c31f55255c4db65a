import Podnet.Client.Arrival
import Podnet.Replica.Connection

namespace Podnet

/-- A replica, the connection of one client to it, and the client. `processed`
lists the votes its updater has taken from the channel; no step reads it. -/
structure Network where
  node : Node
  connection : Option Connection
  inbox : List Vote
  client : ClientState
  processed : List Vote

def Network.initial (replicasList : List Replica) : Network :=
  ⟨.initial, none, [], (initPodNetworkClient replicasList).2, []⟩

/-- A vote that counts for the replica in the eyes of the client. -/
def VoteOf (verifyStrict : VerifyStrict) (replicas : HashMap ReplicaId Replica) (r : ReplicaId)
    (vote : Vote) : Prop :=
  vote.replicaId = r ∧ Verified verifyStrict replicas vote

section Steps

variable (recordCodec : Codec VoteRecord) (wireCodec : Codec Vote) (sign : List UInt8 → Signature)
  (verifyStrict : VerifyStrict) (replicas : HashMap ReplicaId Replica) (replicaId : ReplicaId)

/-- One step of the network: of the replica, of the connection, of the task that
reads the WebSocket at the client, or of the updater. The other replicas of the
client send what they like, except for verified votes of this replica. -/
inductive NetworkStep : Network → Network → Prop
  | node {net event node'} : Steady net.node event →
      NodeStep recordCodec sign replicaId net.node event node' →
      NetworkStep net { net with node := node' }
  | accept {net} : net.connection = none →
      NetworkStep net { net with connection := some (.accepted net.node.sent) }
  | connection {net c c'} : net.connection = some c →
      ConnectionStep recordCodec wireCodec replicaId net.node c c' →
      NetworkStep net { net with connection := some c' }
  | deliver {net c message rest vote} : net.connection = some c → c.wire = message :: rest →
      message.length ≤ maxMessageSize → wireCodec.merge message = .ok vote →
      net.inbox.length < channelSize →
      NetworkStep net
        { net with connection := some { c with wire := rest }, inbox := net.inbox ++ [vote] }
  | otherVote {net} (vote : Vote) : ¬ VoteOf verifyStrict replicas replicaId vote →
      net.inbox.length < channelSize → NetworkStep net { net with inbox := net.inbox ++ [vote] }
  | update {net vote rest client'} : net.inbox = vote :: rest →
      updateWithVote verifyStrict replicas vote net.client = .ok client' →
      NetworkStep net
        { net with inbox := rest, client := client', processed := net.processed ++ [vote] }

/-- Any number of steps from the start. -/
def NetworkReach (replicasList : List Replica) : Network → Prop :=
  Relation.ReflTransGen (NetworkStep recordCodec wireCodec sign verifyStrict
    (initPodNetworkClient replicasList).1 replicaId) (.initial replicasList)

end Steps

/-- The votes that have reached the client. -/
def Network.arrived (net : Network) : List Vote := net.processed ++ net.inbox

section Invariant

variable (recordCodec : Codec VoteRecord) (wireCodec : Codec Vote) (sign : List UInt8 → Signature)
  (verifyStrict : VerifyStrict) (replicasList : List Replica) (replicaId : ReplicaId)

/-- What every step of the network keeps: the client has its votes of the replica
from the connection, and the connection loses none. -/
structure NetworkInv (net : Network) : Prop where
  node : NodeReach recordCodec sign replicaId Steady net.node
  keyed : Keyed (initPodNetworkClient replicasList).1 net.client
  lane : net.client.lane replicaId = Resequencer.run Vote.sequenceNumber consumeVote
    (laneVotes verifyStrict (initPodNetworkClient replicasList).1 replicaId net.processed)
    ((initPodNetworkClient replicasList).2.lane replicaId)
  unconnected : net.connection = none → ∀ vote ∈ net.arrived,
    ¬ VoteOf verifyStrict (initPodNetworkClient replicasList).1 replicaId vote
  sound : ∀ c, net.connection = some c → ∀ vote ∈ net.arrived,
    VoteOf verifyStrict (initPodNetworkClient replicasList).1 replicaId vote →
      vote ∈ net.node.sendable c.subscribed
  relays : ∀ c, net.connection = some c → c.Relays wireCodec net.node (· ∈ net.arrived)

end Invariant

section Reach

variable {recordCodec : Codec VoteRecord} {wireCodec : Codec Vote} {sign : List UInt8 → Signature}
  {verifyStrict : VerifyStrict} {replicasList : List Replica} {replicaId : ReplicaId}
  {net net' : Network}

theorem mem_arrived_append {vote v : Vote} {connection : Option Connection} :
    v ∈ ({ net with connection := connection, inbox := net.inbox ++ [vote] } : Network).arrived ↔
      v ∈ net.arrived ∨ v = vote := by
  simp only [Network.arrived, List.mem_append, List.mem_singleton, or_assoc]

theorem NetworkInv.initial : NetworkInv recordCodec wireCodec sign verifyStrict replicasList replicaId
    (.initial replicasList) where
  node := .start
  keyed := init_keyed replicasList
  lane := rfl
  unconnected _ vote member := absurd member List.not_mem_nil
  sound c connected := by simp [Network.initial] at connected
  relays c connected := by simp [Network.initial] at connected

theorem NetworkInv.step (compact : recordCodec.Compact VoteRecord.size)
    (inv : NetworkInv recordCodec wireCodec sign verifyStrict replicasList replicaId net)
    (step : NetworkStep recordCodec wireCodec sign verifyStrict (initPodNetworkClient replicasList).1
      replicaId net net') :
    NetworkInv recordCodec wireCodec sign verifyStrict replicasList replicaId net' := by
  obtain ⟨node, keyed, lane, unconnected, sound, relays⟩ := inv
  cases step with
  | node steady step =>
    refine ⟨node.next steady step, keyed, lane, unconnected, ?_, ?_⟩
    · exact fun c connected vote member own => step.sendable_mono steady (sound c connected vote member own)
    · exact fun c connected => (relays c connected).node_step step steady
  | accept none =>
    refine ⟨node, keyed, lane, by simp, ?_, ?_⟩
    · exact fun c connected vote member own => absurd own (unconnected none vote member)
    · intro c connected
      cases Option.some.inj connected
      exact .accepted
  | @connection c c' connected step =>
    have same : c'.subscribed = c.subscribed := by
      cases step <;> rfl
    refine ⟨node, keyed, lane, by simp, ?_, ?_⟩
    · intro c₁ connected₁ vote member own
      cases Option.some.inj connected₁
      rw [same]
      exact sound c connected vote member own
    · intro c₁ connected₁
      cases Option.some.inj connected₁
      exact (relays c connected).step node.persisted compact step
  | @deliver c message rest vote connected first short decoded room =>
    obtain ⟨known, kept⟩ := (relays c connected).deliver first short decoded
    refine ⟨node, keyed, lane, by simp, ?_, ?_⟩
    · intro c₁ connected₁ v member own
      cases Option.some.inj connected₁
      rcases mem_arrived_append.mp member with old | rfl
      · exact sound c connected v old own
      · exact known
    · intro c₁ connected₁
      cases Option.some.inj connected₁
      exact kept.mono fun v => mem_arrived_append.mpr
  | otherVote vote foreign room =>
    refine ⟨node, keyed, lane, ?_, ?_, ?_⟩
    · intro none v member
      rcases mem_arrived_append.mp member with old | rfl
      · exact unconnected none v old
      · exact foreign
    · intro c connected v member own
      rcases mem_arrived_append.mp member with old | rfl
      · exact sound c connected v old own
      · exact absurd own foreign
    · exact fun c connected => (relays c connected).mono fun v old => mem_arrived_append.mpr (Or.inl old)
  | @update vote rest client' first run =>
    have same : ∀ v, v ∈ net.processed ++ [vote] ++ rest ↔ v ∈ net.arrived := by
      intro v
      rw [Network.arrived, first, List.append_assoc, List.singleton_append]
    obtain ⟨keyed', moved⟩ := updateWithVote_ok_lane keyed run
    refine ⟨node, keyed', ?_, ?_, ?_, ?_⟩
    · rw [moved replicaId, lane]
      simp [laneVotes, Resequencer.run]
    · exact fun none v member => unconnected none v ((same v).mp member)
    · exact fun c connected v member => sound c connected v ((same v).mp member)
    · exact fun c connected => (relays c connected).mono fun v => (same v).mpr

theorem NetworkReach.next
    (reach : NetworkReach recordCodec wireCodec sign verifyStrict replicaId replicasList net)
    (step : NetworkStep recordCodec wireCodec sign verifyStrict (initPodNetworkClient replicasList).1
      replicaId net net') :
    NetworkReach recordCodec wireCodec sign verifyStrict replicaId replicasList net' :=
  Relation.ReflTransGen.tail reach step

/-- The client may connect after any run of the replica. -/
theorem NodeReach.network {node : Node} (reach : NodeReach recordCodec sign replicaId Steady node) :
    NetworkReach recordCodec wireCodec sign verifyStrict replicaId replicasList
      { Network.initial replicasList with node := node } := by
  induction reach with
  | start => exact .refl
  | next _ steady step ih => exact ih.next (.node steady step)

theorem NetworkReach.inv (compact : recordCodec.Compact VoteRecord.size)
    (reach : NetworkReach recordCodec wireCodec sign verifyStrict replicaId replicasList net) :
    NetworkInv recordCodec wireCodec sign verifyStrict replicasList replicaId net := by
  induction reach with
  | refl => exact .initial
  | tail _ step ih => exact ih.step compact step

end Reach

/-- Both services of the replica are between iterations, and every vote of the
connection has been delivered and processed. -/
structure Network.Quiet (net : Network) (c : Connection) : Prop where
  idle : net.node.Idle
  connected : net.connection = some c
  drained : c.Drained net.node
  inbox : net.inbox = []

section Quiet

variable {recordCodec : Codec VoteRecord} {wireCodec : Codec Vote} {sign : List UInt8 → Signature}
  {verifyStrict : VerifyStrict} {replicasList : List Replica} {replicaId : ReplicaId}
  {replica : Replica} {net : Network} {c : Connection} {vote : Vote}

/-- The votes of the replica that the client has processed are the logged ones
and the ones broadcast after the subscription. -/
theorem NetworkInv.mem_laneVotes
    (inv : NetworkInv recordCodec wireCodec sign verifyStrict replicasList replicaId net)
    (known : (initPodNetworkClient replicasList).1.lookup replicaId = some replica)
    (accepts : ∀ message, verifyStrict replica.pk message (sign message) = true) (quiet : net.Quiet c) :
    vote ∈ laneVotes verifyStrict (initPodNetworkClient replicasList).1 replicaId net.processed ↔
      ∃ entry ∈ net.node.sent, (entry.1 = .logVote ∨ entry ∈ net.node.sent.drop c.subscribed) ∧
        entry.2 = vote := by
  have arrived : net.arrived = net.processed := by
    rw [Network.arrived, quiet.inbox, List.append_nil]
  rw [Podnet.mem_laneVotes]
  constructor
  · rintro ⟨member, own⟩
    have sendable := inv.sound c quiet.connected vote (arrived ▸ member) own
    rcases mem_sendable.mp sendable with logged | pending | later
    · exact ⟨_, mem_loggedVotes.mp logged, Or.inl rfl, rfl⟩
    · simp [quiet.idle.1, LogPhase.pending] at pending
    · obtain ⟨entry, inSent, rfl⟩ := List.mem_map.mp later
      exact ⟨entry, List.mem_of_mem_drop inSent, Or.inr inSent, rfl⟩
  · rintro ⟨entry, member, sendable, rfl⟩
    have persisted := inv.node.persisted
    have reached := (inv.relays c quiet.connected).all_gone quiet.drained member sendable
    obtain ⟨data, ts, sn, _, made⟩ := persisted.signed entry.2
      (persisted.own.mem_iff.mpr (List.mem_append_left _ (List.mem_map_of_mem member)))
    refine ⟨arrived ▸ reached, persisted.sent_replicaId member, ?_⟩
    rw [made]
    exact verified_signedVote known (accepts _)

/-- A heartbeat that was broadcast before the subscription is lost to the client:
the log does not have it, and no other vote carries its number. -/
theorem NetworkInv.heartbeat_unseen
    (inv : NetworkInv recordCodec wireCodec sign verifyStrict replicasList replicaId net)
    (known : (initPodNetworkClient replicasList).1.lookup replicaId = some replica)
    (accepts : ∀ message, verifyStrict replica.pk message (sign message) = true) (quiet : net.Quiet c)
    (bound : net.node.drawn < 2 ^ 64) {entry : VotingService × Vote}
    (early : entry ∈ net.node.sent.take c.subscribed) (beat : entry.1 = .heartbeat)
    (seen : vote ∈ laneVotes verifyStrict (initPodNetworkClient replicasList).1 replicaId net.processed) :
    vote.sequenceNumber ≠ entry.2.sequenceNumber := by
  intro same
  obtain ⟨other, inSent, sendable, rfl⟩ := (inv.mem_laneVotes known accepts quiet).mp seen
  have distinct := inv.node.sent_distinct quiet.idle bound
  have equal : other = entry :=
    List.inj_on_of_nodup_map distinct inSent (List.mem_of_mem_take early) same
  subst equal
  rcases sendable with logged | late
  · rw [beat] at logged
    simp at logged
  · exact List.disjoint_take_drop distinct.of_map le_rfl early late

/-- Without such a heartbeat the client has seen every number. -/
theorem NetworkInv.all_seen
    (inv : NetworkInv recordCodec wireCodec sign verifyStrict replicasList replicaId net)
    (known : (initPodNetworkClient replicasList).1.lookup replicaId = some replica)
    (accepts : ∀ message, verifyStrict replica.pk message (sign message) = true) (quiet : net.Quiet c)
    (bound : net.node.drawn < 2 ^ 64)
    (onlyLogged : ∀ entry ∈ net.node.sent.take c.subscribed, entry.1 ≠ .heartbeat) {n : Nat}
    (small : n < net.node.drawn) :
    ∃ vote ∈ laneVotes verifyStrict (initPodNetworkClient replicasList).1 replicaId net.processed,
      vote.sequenceNumber.toNat = n := by
  obtain ⟨entry, member, same⟩ := (inv.node.sent_below_iff quiet.idle bound n).mpr small
  refine ⟨entry.2, (inv.mem_laneVotes known accepts quiet).mpr ⟨entry, member, ?_, rfl⟩, same⟩
  rw [← List.take_append_drop c.subscribed net.node.sent, List.mem_append] at member
  rcases member with early | late
  · have service := onlyLogged entry early
    cases atService : entry.1 with
    | logVote => exact Or.inl rfl
    | heartbeat => exact absurd atService service
  · exact Or.inr late

/-- The lane of the replica at the end, as long as the counter has not wrapped. -/
theorem NetworkInv.settled
    (inv : NetworkInv recordCodec wireCodec sign verifyStrict replicasList replicaId net)
    (known : (initPodNetworkClient replicasList).1.lookup replicaId = some replica)
    (accepts : ∀ message, verifyStrict replica.pk message (sign message) = true) (quiet : net.Quiet c)
    (bound : net.node.drawn < 2 ^ 64) :
    Resequencer.Settled Vote.sequenceNumber consumeVote
      {vote | vote ∈ laneVotes verifyStrict (initPodNetworkClient replicasList).1 replicaId net.processed}
      ⟨0, fun _ => none, []⟩ (net.client.lane replicaId) ∧
    ∀ vote ∈ laneVotes verifyStrict (initPodNetworkClient replicasList).1 replicaId net.processed,
      vote.sequenceNumber.toNat < net.node.drawn := by
  have below : ∀ vote ∈ laneVotes verifyStrict (initPodNetworkClient replicasList).1 replicaId
      net.processed, vote.sequenceNumber.toNat < net.node.drawn := by
    intro vote seen
    obtain ⟨entry, member, _, rfl⟩ := (inv.mem_laneVotes known accepts quiet).mp seen
    exact (inv.node.sent_below_iff quiet.idle bound _).mp ⟨entry, member, rfl⟩
  have free : ∀ vote ∈ laneVotes verifyStrict (initPodNetworkClient replicasList).1 replicaId
      net.processed, vote.sequenceNumber ≠ UInt64.ofNat net.node.drawn := by
    intro vote seen same
    have small := below vote seen
    rw [same, UInt64.toNat_ofNat_of_lt' bound] at small
    exact absurd small (lt_irrefl _)
  exact ⟨lane_settled free inv.lane, below⟩

/-- A client that joins late catches up if and only if no heartbeat was broadcast
before its connection subscribed: heartbeats take numbers, but the log does not
have them. -/
theorem late_client_catches_up_iff (compact : recordCodec.Compact VoteRecord.size)
    (known : (initPodNetworkClient replicasList).1.lookup replicaId = some replica)
    (accepts : ∀ message, verifyStrict replica.pk message (sign message) = true)
    (reach : NetworkReach recordCodec wireCodec sign verifyStrict replicaId replicasList net)
    (bound : net.node.drawn < 2 ^ 64) (quiet : net.Quiet c) :
    (net.client.nextsn.lookup replicaId = some net.node.nextsn ∧
      net.client.backlogNumbers replicaId = ∅) ↔
    ∀ entry ∈ net.node.sent.take c.subscribed, entry.1 ≠ .heartbeat := by
  have inv := reach.inv compact
  obtain ⟨settled, below⟩ := inv.settled known accepts quiet bound
  have least := settled.next_least
  have counter : net.node.nextsn.toNat = net.node.drawn := by
    rw [inv.node.counted.counter, UInt64.toNat_ofNat_of_lt' bound]
  obtain ⟨nextsn, expected⟩ := inv.keyed.nextsnEntry (Finmap.mem_of_lookup_eq_some known)
  have next := lane_next expected
  rw [next] at least
  constructor
  · intro caughtUp entry early beat
    cases Option.some.inj (expected.symm.trans caughtUp.1)
    have drawn := (inv.node.sent_below_iff quiet.idle bound _).mp
      ⟨entry, List.mem_of_mem_take early, rfl⟩
    -- the counter cannot have passed the number of the heartbeat
    have lower := least.2 fun vote seen same =>
      inv.heartbeat_unseen known accepts quiet bound early beat seen (UInt64.toNat_inj.mp same)
    omega
  · intro onlyLogged
    have reached : nextsn.toNat = net.node.drawn := by
      have upper : nextsn.toNat ≤ net.node.drawn := least.2 fun vote seen => (below vote seen).ne
      by_contra different
      obtain ⟨vote, seen, same⟩ := inv.all_seen known accepts quiet bound onlyLogged
        (show nextsn.toNat < net.node.drawn by omega)
      exact least.1 vote seen same
    refine ⟨?_, ?_⟩
    · rw [expected, UInt64.toNat_inj.mp (reached.trans counter.symm)]
    · refine Set.eq_empty_iff_forall_notMem.mpr fun n waiting => ?_
      obtain ⟨sn, held, _⟩ := mem_backlogNumbers.mp waiting
      obtain ⟨⟨vote, seen, rfl⟩, above⟩ := (settled.2.2 sn).mp held
      have small := below vote seen
      rw [next, UInt64.lt_iff_toNat_lt] at above
      omega

/-- A replica that has logged and broadcast its first vote. -/
def Node.afterFirst (recordCodec : Codec VoteRecord) (vote : Vote) : Node :=
  ⟨1, .idle, .idle, logEntry recordCodec vote.record, [(.logVote, vote)], 1, [vote], []⟩

theorem reach_afterFirst {data : List UInt8} {ts : Timestamp}
    (made : vote = signedVote sign replicaId data ts 0) (small : data.length ≤ maxMessageSize) :
    NodeReach recordCodec sign replicaId Steady (.afterFirst recordCodec vote) := by
  have steady : ∀ node, Steady node .draw ∧ Steady node (.clock ts) ∧ Steady node .work := by
    simp [Steady]
  have received : NodeReach recordCodec sign replicaId Steady
      ⟨1, .numbered ⟨data⟩ 0, .idle, [], [], 1, [], []⟩ :=
    .next .start (steady _).1 (.receive ⟨data⟩ rfl small)
  have stamped : NodeReach recordCodec sign replicaId Steady
      ⟨1, .stamped ⟨data⟩ 0 ts, .idle, [], [], 1, [], []⟩ :=
    received.next (steady _).2.1 (.readClock ts rfl)
  have signed : NodeReach recordCodec sign replicaId Steady
      ⟨1, .appending vote (logEntry recordCodec vote.record), .idle, [], [], 1, [vote], []⟩ :=
    stamped.next (steady _).2.2 (.sign rfl made)
  have written : NodeReach recordCodec sign replicaId Steady
      ⟨1, .appending vote [], .idle, logEntry recordCodec vote.record, [], 1, [vote], []⟩ :=
    signed.next (steady _).2.2 (.write (congrArg _ (List.append_nil _).symm))
  exact written.next (steady _).2.2 (.broadcast rfl)

/-- The vote reaches a client that connects then from the log. -/
theorem exists_quiet_logged {data : List UInt8} {ts : Timestamp}
    (made : vote = signedVote sign replicaId data ts 0) (small : data.length ≤ maxMessageSize)
    (short : (wireCodec.encode vote).length ≤ maxMessageSize)
    (compact : recordCodec.Compact VoteRecord.size)
    (configured : replicaId ∈ (initPodNetworkClient replicasList).1) :
    ∃ net c, NetworkReach recordCodec wireCodec sign verifyStrict replicaId replicasList net ∧
      net.node.drawn = 1 ∧ net.node.sent = [(.logVote, vote)] ∧ c.subscribed = 1 ∧ net.Quiet c := by
  have logged : NodeReach recordCodec sign replicaId Steady (.afterFirst recordCodec vote) :=
    reach_afterFirst made small
  have room : ([] : List Vote).length < channelSize := by decide
  have own : vote.replicaId = replicaId := by rw [made]; rfl
  have accepted : NetworkReach recordCodec wireCodec sign verifyStrict replicaId replicasList
      ⟨.afterFirst recordCodec vote, some ⟨1, 1, none, none, [], []⟩, [],
        (initPodNetworkClient replicasList).2, []⟩ :=
    logged.network.next (.accept rfl)
  have mapped : NetworkReach recordCodec wireCodec sign verifyStrict replicaId replicasList
      ⟨.afterFirst recordCodec vote, some ⟨1, 1, none, some [vote], [], []⟩, [],
        (initPodNetworkClient replicasList).2, []⟩ := by
    obtain ⟨last, pending, votes⟩ := logged.persisted.history_votes compact
    have none : last = [] := List.eq_nil_iff_forall_not_mem.mpr fun v member => by
      simpa [Node.afterFirst, LogPhase.pending] using pending v member
    have history : [vote] = (historyRecords recordCodec (Node.afterFirst recordCodec vote).file).map
        (VoteRecord.vote replicaId) := by
      rw [votes, none]
      rfl
    rw [history]
    exact accepted.next (.connection rfl (.mapLog rfl))
  have sent : NetworkReach recordCodec wireCodec sign verifyStrict replicaId replicasList
      ⟨.afterFirst recordCodec vote, some ⟨1, 1, none, some [], [vote], []⟩, [],
        (initPodNetworkClient replicasList).2, []⟩ :=
    mapped.next (.connection rfl (.sendHistory rfl room))
  have onWire : NetworkReach recordCodec wireCodec sign verifyStrict replicaId replicasList
      ⟨.afterFirst recordCodec vote, some ⟨1, 1, none, some [], [], [wireCodec.encode vote]⟩, [],
        (initPodNetworkClient replicasList).2, []⟩ := by
    subst own
    exact sent.next (.connection rfl (.forward rfl))
  have decoded := wireCodec.merge_encode vote (short.trans_lt (by decide))
  have delivered : NetworkReach recordCodec wireCodec sign verifyStrict replicaId replicasList
      ⟨.afterFirst recordCodec vote, some ⟨1, 1, none, some [], [], []⟩, [vote],
        (initPodNetworkClient replicasList).2, []⟩ :=
    onWire.next (.deliver (c := ⟨1, 1, none, some [], [], [wireCodec.encode vote]⟩) rfl rfl short decoded room)
  obtain ⟨client, run, _⟩ :=
    updateWithVote_lane verifyStrict (init_keyed replicasList) (own ▸ configured : vote.replicaId ∈ _)
  exact ⟨_, ⟨1, 1, none, some [], [], []⟩, delivered.next (.update rfl run), rfl, rfl, rfl, ⟨rfl, rfl⟩, rfl,
    ⟨rfl, rfl, rfl, rfl, rfl⟩, rfl⟩

/-- A vote is logged and broadcast before the client connects, and reaches it
from the log. -/
theorem late_client_catches_up_iff_logged_vote :
    let key : VerifyingKey := Vector.replicate 32 3
    ∃ net c, NetworkReach voteRecordCodec voteCodec (standInSign key) standInVerify 7 [⟨7, key⟩] net ∧
      net.node.sent = [(.logVote, signedVote (standInSign key) 7 [65] 5 0)] ∧ c.subscribed = 1 ∧
      net.Quiet c ∧
      ((net.client.nextsn.lookup 7 = some net.node.nextsn ∧ net.client.backlogNumbers 7 = ∅) ↔
        ∀ entry ∈ net.node.sent.take c.subscribed, entry.1 ≠ .heartbeat) := by
  intro key
  have known : (initPodNetworkClient [⟨7, key⟩]).1.lookup 7 = some (⟨7, key⟩ : Replica) := by
    simp [initPodNetworkClient]
  have short : (voteCodec.encode (signedVote (standInSign key) 7 [65] 5 0)).length ≤ maxMessageSize := by
    decide +kernel
  obtain ⟨net, c, reach, drawn, sent, subscribed, quiet⟩ :
      ∃ net c, NetworkReach voteRecordCodec voteCodec (standInSign key) standInVerify 7 [⟨7, key⟩] net ∧
        net.node.drawn = 1 ∧ net.node.sent = [(.logVote, signedVote (standInSign key) 7 [65] 5 0)] ∧
        c.subscribed = 1 ∧ net.Quiet c :=
    exists_quiet_logged rfl (by decide) short compact_voteRecordCodec (Finmap.mem_of_lookup_eq_some known)
  exact ⟨net, c, reach, sent, subscribed, quiet, late_client_catches_up_iff compact_voteRecordCodec known
    (standInVerify_sign key) reach (by rw [drawn]; decide) quiet⟩

/-- One heartbeat is broadcast before the client connects. Nothing is in the log,
and the client waits for the number 0 for ever. -/
theorem late_client_misses_heartbeat :
    let key : VerifyingKey := Vector.replicate 32 3
    ∃ net c, NetworkReach voteRecordCodec voteCodec (standInSign key) standInVerify 7 [⟨7, key⟩] net ∧
      net.node.drawn = 1 ∧ net.Quiet c ∧
      ¬ (net.client.nextsn.lookup 7 = some net.node.nextsn ∧ net.client.backlogNumbers 7 = ∅) := by
  intro key
  have start : NetworkReach voteRecordCodec voteCodec (standInSign key) standInVerify 7 [⟨7, key⟩]
      (.initial [⟨7, key⟩]) := .refl
  have ticked := start.next (.node ⟨by decide, by decide⟩ (.tick rfl))
  have stamped := ticked.next (.node ⟨by decide, by decide⟩ (.beatClock 5 rfl))
  have signed := stamped.next (.node ⟨by decide, by decide⟩ (.beatSign rfl rfl))
  have sent := signed.next (.node ⟨by decide, by decide⟩ (.beatBroadcast rfl))
  have accepted := sent.next (.accept rfl)
  have mapped := accepted.next (.connection rfl (.mapLog rfl))
  refine ⟨_, _, mapped, rfl, ⟨⟨rfl, rfl⟩, rfl, ⟨rfl, rfl, rfl, rfl, rfl⟩, rfl⟩, ?_⟩
  rintro ⟨caughtUp, _⟩
  exact absurd caughtUp (by decide)

end Quiet

end Podnet
