import Podnet.Client.Accountability
import Podnet.Texts

namespace Podnet

open Funnel (entriesOf)
open OrderStatistic

section Records

variable {recordCodec : Codec VoteRecord} {wireCodec : Codec Vote} {sign : List UInt8 → Signature}
  {verifyStrict : VerifyStrict} {replicasList : List Replica} {replicaId : ReplicaId} {capacity i k : Nat}
  {replica : Replica} {net : Network} {d : Delivery} {task : ReplicaTask} {t : WriteTask} {c : Connection}
  {st st' : Node} {event : NodeEvent} {allowed : Node → NodeEvent → Prop} {tx : Transaction} {ts : Timestamp}

/-- The heartbeat service signs and broadcasts its own transaction only. -/
structure Beats (st : Node) : Prop where
  hand : ∀ vote, st.beat = .signed vote → vote.transaction = some ⟨heartbeatData⟩
  sent : ∀ entry ∈ st.sent, entry.1 = .heartbeat → entry.2.transaction = some ⟨heartbeatData⟩

theorem NodeStep.beats (step : NodeStep recordCodec sign replicaId st event st') (beats : Beats st) :
    Beats st' := by
  obtain ⟨hand, sent⟩ := beats
  cases step with
  | receive | readClock | sign | write | appendError => exact ⟨hand, sent⟩
  | broadcast phase =>
    refine ⟨hand, fun entry member beat => ?_⟩
    rcases List.mem_append.mp member with old | new
    · exact sent entry old beat
    · rw [List.mem_singleton.mp new] at beat
      simp at beat
  | tick | beatClock => exact ⟨by simp, sent⟩
  | beatSign phase made =>
    refine ⟨fun vote own => ?_, sent⟩
    cases BeatPhase.signed.inj own
    rw [made]
    rfl
  | beatBroadcast phase =>
    refine ⟨by simp, fun entry member beat => ?_⟩
    rcases List.mem_append.mp member with old | new
    · exact sent entry old beat
    · rw [List.mem_singleton.mp new]
      exact hand _ phase
  | restart => exact ⟨by simp [Node.restart, Node.initial], by simp [Node.restart, Node.initial]⟩

theorem NodeReach.beats (reach : NodeReach recordCodec sign replicaId allowed st) : Beats st := by
  induction reach with
  | start => exact ⟨by simp [Node.initial], by simp [Node.initial]⟩
  | next _ _ step ih => exact step.beats ih

/-- At rest a client has entries only for what the log service of the replica has voted on. -/
theorem NetworkInv.recorded_logged
    (inv : NetworkInv recordCodec wireCodec sign verifyStrict replicasList replicaId net)
    (known : (initPodNetworkClient replicasList).1.lookup replicaId = some replica)
    (accepts : ∀ message, verifyStrict replica.pk message (sign message) = true) (quiet : net.Quiet c)
    (bound : net.node.drawn < 2 ^ 64) (stamp : net.client.stamp tx replicaId = some ts) :
    isHeartbeat tx = false ∧ ∃ vote ∈ loggedVotes net.node.sent, vote.transaction = some tx := by
  obtain ⟨order, account, _, arrived⟩ := inv.account_order known accepts quiet bound
  have recorded : (Account.of (order.filterMap Vote.entry)).stamps tx = some ts := by
    rw [← account]
    exact stamp
  obtain ⟨member, plain⟩ := Account.of_stamps recorded
  obtain ⟨vote, inOrder, own⟩ := List.mem_filterMap.mp member
  obtain ⟨_, carried, same⟩ := Option.map_eq_some_iff.mp own
  cases (Prod.mk.inj same).1
  obtain ⟨⟨service, vote⟩, inSent, _, rfl⟩ := (inv.mem_laneVotes known accepts quiet).mp (arrived vote inOrder)
  refine ⟨plain, vote, mem_loggedVotes.mpr ?_, carried⟩
  cases service with
  | logVote => exact inSent
  | heartbeat =>
    have beat := inv.node.beats.sent _ inSent rfl
    cases Option.some.inj (carried.symm.trans beat)
    simp [isHeartbeat] at plain

/-- If nobody else is connected to the replica, a client that reads from it has entries only
for what has been acknowledged to the writing client. -/
theorem DeliveryInv.stamp_only_acked
    (inv : DeliveryInv recordCodec wireCodec sign verifyStrict replicasList replicaId capacity i k d)
    (compact : recordCodec.Compact VoteRecord.size)
    (known : (initPodNetworkClient replicasList).1.lookup replicaId = some replica)
    (accepts : ∀ message, verifyStrict replica.pk message (sign message) = true) (quiet : d.Quiet i k task t c)
    (bound : d.process.node.drawn < 2 ^ 64) (alone : d.process.tasks.length = 1)
    (stamp : d.reader.client.stamp tx replicaId = some ts) :
    tx ∈ d.writes.acked ∧ isHeartbeat tx = false := by
  have drawn := bound
  rw [← inv.same] at drawn
  obtain ⟨plain, vote, logged, carried⟩ :=
    (inv.reader.inv compact).recorded_logged known accepts quiet.reader drawn stamp
  refine ⟨?_, plain⟩
  obtain ⟨source, interleaves, transactions⟩ := inv.source_acked quiet
  rw [inv.same, ← interleaves.all] at logged
  obtain ⟨⟨j, vote⟩, member, rfl⟩ := List.mem_map.mp logged
  have accepted := interleaves.accepted _ member
  have inside := (List.getElem?_eq_some_iff.mp quiet.connection).1
  obtain rfl : j = k := by omega
  have own : vote ∈ entriesOf j source := Funnel.mem_entriesOf.mpr member
  have acked : some tx ∈ d.writes.acked.map some := by
    rw [← transactions, ← carried]
    exact List.mem_map_of_mem own
  obtain ⟨_, isAcked, same⟩ := List.mem_map.mp acked
  exact Option.some.inj same ▸ isAcked

end Records

/-- A client that writes, the correct replicas with what they sign by, and a client that
reads. The replica task `task r` of the writing client is connected to the write task
`handler r` of the replica. -/
structure ClusterSetup where
  recordCodec : Codec VoteRecord
  compact : recordCodec.Compact VoteRecord.size
  wireCodec : Codec Vote
  verifyStrict : VerifyStrict
  sign : ReplicaId → List UInt8 → Signature
  replicasList : List Replica
  correct : Finset ReplicaId
  keys : ∀ r ∈ correct, ∃ replica, (initPodNetworkClient replicasList).1.lookup r = some replica ∧
    ∀ message, verifyStrict replica.pk message (sign r message) = true
  capacity : Nat
  task : ReplicaId → Nat
  handler : ReplicaId → Nat

/-- The connections are those of the reading client, which has one updater for all of them. -/
structure Cluster where
  writes : Writes
  process : ReplicaId → PodNetworkNode
  connection : ReplicaId → Option Connection
  inbox : List Vote
  client : ClientState
  processed : List Vote

/-- What concerns one replica. -/
def Cluster.delivery (r : ReplicaId) (s : Cluster) : Delivery :=
  ⟨s.writes, s.process r, ⟨(s.process r).node, s.connection r, s.inbox, s.client, s.processed⟩⟩

namespace ClusterSetup

variable (setup : ClusterSetup)

abbrev replicas : HashMap ReplicaId Replica := (initPodNetworkClient setup.replicasList).1

def initial : Cluster :=
  ⟨⟨[], []⟩, fun _ => .initial, fun _ => none, [], (initPodNetworkClient setup.replicasList).2, []⟩

/-- One step of one party. The network brings the reading client what it likes besides, but
nothing that verifies as a vote of a correct replica. -/
inductive Step : Cluster → Cluster → Prop
  | write {s event writes} : (∀ r ∈ setup.correct, Prompt setup.capacity (setup.task r) s.writes event) →
      WriteStep setup.capacity s.writes event writes → Step s { s with writes := writes }
  | process {s r event p} : r ∈ setup.correct → Steady (s.process r).node event →
      IntakeStep setup.recordCodec (setup.sign r) r (s.process r) event p →
      Brings (s.writes.sent (setup.task r)) ((s.process r).items (setup.handler r)) (p.items (setup.handler r)) →
      Step s { s with process := Function.update s.process r p }
  | accept {s r} : r ∈ setup.correct → s.connection r = none →
      Step s { s with
        connection := Function.update s.connection r (some (.accepted (s.process r).node.sent)) }
  | connection {s r c c'} : r ∈ setup.correct → s.connection r = some c →
      ConnectionStep setup.recordCodec setup.wireCodec r (s.process r).node c c' →
      Step s { s with connection := Function.update s.connection r (some c') }
  | deliver {s r c message rest vote} : r ∈ setup.correct → s.connection r = some c →
      c.wire = message :: rest → message.length ≤ maxMessageSize → setup.wireCodec.merge message = .ok vote →
      s.inbox.length < channelSize →
      Step s { s with
        connection := Function.update s.connection r (some { c with wire := rest })
        inbox := s.inbox ++ [vote] }
  | otherVote {s} (vote : Vote) :
      (∀ r ∈ setup.correct, ¬ VoteOf setup.verifyStrict setup.replicas r vote) → s.inbox.length < channelSize →
      Step s { s with inbox := s.inbox ++ [vote] }
  | update {s vote rest client'} : s.inbox = vote :: rest →
      updateWithVote setup.verifyStrict setup.replicas vote s.client = .ok client' →
      Step s { s with inbox := rest, client := client', processed := s.processed ++ [vote] }

abbrev Reach : Cluster → Prop := Relation.ReflTransGen setup.Step setup.initial

abbrev DeliveryStep (r : ReplicaId) : Delivery → Delivery → Prop :=
  Podnet.DeliveryStep setup.recordCodec setup.wireCodec (setup.sign r) setup.verifyStrict setup.replicasList r
    setup.capacity (setup.task r) (setup.handler r)

abbrev DeliveryReach (r : ReplicaId) : Delivery → Prop :=
  Podnet.DeliveryReach setup.recordCodec setup.wireCodec (setup.sign r) setup.verifyStrict setup.replicasList r
    setup.capacity (setup.task r) (setup.handler r)

/-- The configured replicas that need not be correct. -/
def faulty : Finset ReplicaId := (setup.replicasList.map Replica.id).toFinset \ setup.correct

/-- A replica is at rest with both clients, its numbers have not run out, its timestamps
ascend, and the reading client was connected before the first heartbeat. -/
structure AtRest (s : Cluster) (r : ReplicaId) : Prop where
  quiet : ∃ task t c, (s.delivery r).Quiet (setup.task r) (setup.handler r) task t c ∧
    ∀ entry ∈ (s.process r).node.sent.take c.subscribed, entry.1 ≠ .heartbeat
  bound : (s.process r).node.drawn < 2 ^ 64
  ascending : (s.process r).node.Ascending

end ClusterSetup

section Projection

variable {setup : ClusterSetup} {s s' : Cluster} {r : ReplicaId}

/-- A vote from the connection to one correct replica is no vote of another. -/
theorem delivered_elsewhere {r' : ReplicaId} {c : Connection} {message : List UInt8} {rest : List (List UInt8)}
    {vote : Vote} (reach : setup.DeliveryReach r' (s.delivery r')) (connected : s.connection r' = some c)
    (first : c.wire = message :: rest) (short : message.length ≤ maxMessageSize)
    (decoded : setup.wireCodec.merge message = .ok vote) (other : r' ≠ r) :
    ¬ VoteOf setup.verifyStrict setup.replicas r vote := by
  have inv := reach.inv.reader.inv setup.compact
  have sendable := ((inv.relays c connected).deliver first short decoded).1
  have persisted := inv.node.persisted
  have own := (persisted.signed vote (persisted.sendable_signed vote sendable)).replicaId_eq
  rintro ⟨named, _⟩
  exact other (own.symm.trans named)

/-- For each correct replica, a step is a step of its delivery or does not concern it. -/
theorem ClusterSetup.Step.delivery (step : setup.Step s s')
    (reach : ∀ r ∈ setup.correct, setup.DeliveryReach r (s.delivery r)) (correct : r ∈ setup.correct) :
    s'.delivery r = s.delivery r ∨ setup.DeliveryStep r (s.delivery r) (s'.delivery r) := by
  cases step with
  | write prompt step => exact Or.inr (.write (prompt r correct) step)
  | @process r' event p correct' steady step brings =>
    by_cases same : r = r'
    · subst same
      right
      simp only [Cluster.delivery, Function.update_self]
      exact .process steady step brings
    · left
      simp only [Cluster.delivery, Function.update_of_ne same]
  | @accept r' correct' none =>
    by_cases same : r = r'
    · subst same
      right
      simp only [Cluster.delivery, Function.update_self]
      exact .read rfl (.accept none)
    · left
      simp only [Cluster.delivery, Function.update_of_ne same]
  | @connection r' c c' correct' connected step =>
    by_cases same : r = r'
    · subst same
      right
      simp only [Cluster.delivery, Function.update_self]
      exact .read rfl (.connection connected step)
    · left
      simp only [Cluster.delivery, Function.update_of_ne same]
  | @deliver r' c message rest vote correct' connected first short decoded room =>
    right
    by_cases same : r = r'
    · subst same
      simp only [Cluster.delivery, Function.update_self]
      exact .read rfl (.deliver connected first short decoded room)
    · have foreign := delivered_elsewhere (reach r' correct') connected first short decoded (Ne.symm same)
      simp only [Cluster.delivery, Function.update_of_ne same]
      exact .read rfl (.otherVote vote foreign room)
  | otherVote vote foreign room => exact Or.inr (.read rfl (.otherVote vote (foreign r correct) room))
  | update first run => exact Or.inr (.read rfl (.update first run))

/-- In a run of the cluster every correct replica runs as if it were alone. -/
theorem ClusterSetup.Reach.delivery (reach : setup.Reach s) :
    ∀ r ∈ setup.correct, setup.DeliveryReach r (s.delivery r) := by
  induction reach with
  | refl => exact fun r _ => .refl
  | tail _ step ih =>
    intro r correct
    rcases step.delivery ih correct with same | step
    · rw [same]
      exact ih r correct
    · exact (ih r correct).tail step

theorem ClusterSetup.Reach.viewInv (reach : setup.Reach s) : ViewInv setup.replicas s.client := by
  induction reach with
  | refl => exact init_viewInv setup.replicasList
  | tail _ step ih =>
    cases step with
    | write | process | accept | connection | deliver | otherVote => exact ih
    | update _ run => exact ClientRun.viewInv (updateWithVote_feed run).run ih

end Projection

section Single

variable {setup : ClusterSetup} {r : ReplicaId} {d : Delivery}

/-- The cluster of one replica. -/
def Cluster.single (r : ReplicaId) (d : Delivery) : Cluster :=
  ⟨d.writes, Function.update (fun _ => .initial) r d.process,
    Function.update (fun _ => none) r d.reader.connection, d.reader.inbox, d.reader.client, d.reader.processed⟩

theorem delivery_single (same : d.reader.node = d.process.node) : (Cluster.single r d).delivery r = d := by
  simp only [Cluster.delivery, Cluster.single, Function.update_self, ← same]

theorem single_process : (Cluster.single r d).process r = d.process := by
  simp only [Cluster.single, Function.update_self]

theorem single_connection : (Cluster.single r d).connection r = d.reader.connection := by
  simp only [Cluster.single, Function.update_self]

theorem single_setProcess (p : PodNetworkNode) :
    ({ Cluster.single r d with process := Function.update (Cluster.single r d).process r p } : Cluster) =
      .single r { d with process := p } := by
  simp only [Cluster.single, Function.update_idem]

theorem single_setConnection (c : Option Connection) (inbox : List Vote) :
    ({ Cluster.single r d with
        connection := Function.update (Cluster.single r d).connection r c
        inbox := inbox } : Cluster) =
      .single r { d with reader := { d.reader with connection := c, inbox := inbox } } := by
  simp only [Cluster.single, Function.update_idem]

/-- With one correct replica a run of its delivery is a run of the cluster. -/
theorem ClusterSetup.reach_single (only : setup.correct = {r}) (reach : setup.DeliveryReach r d) :
    setup.Reach (.single r d) := by
  have correct : r ∈ setup.correct := only ▸ Finset.mem_singleton_self r
  have alone : ∀ r' ∈ setup.correct, r' = r := fun r' member => Finset.mem_singleton.mp (only ▸ member)
  induction reach with
  | refl =>
    have start : Cluster.single r ⟨⟨[], []⟩, .initial, .initial setup.replicasList⟩ = setup.initial := by
      simp only [Cluster.single, ClusterSetup.initial, Network.initial, Function.update_eq_self_iff.mpr]
    rw [start]
  | @tail d d' before step ih =>
    have same := (DeliveryReach.inv before).same
    cases step with
    | write prompt step => exact ih.tail (.write (fun r' member => alone r' member ▸ prompt) step)
    | @process event p steady step brings =>
      rw [← single_process (r := r)] at steady step brings
      have moved := ih.tail (.process correct steady step brings)
      rwa [single_setProcess] at moved
    | read kept step =>
      cases step with
      | node => exact ih
      | accept none =>
        have moved := ih.tail (.accept correct (single_connection.trans none))
        rwa [single_setConnection, single_process, ← same] at moved
      | connection connected step =>
        rw [same, ← single_process (r := r)] at step
        have moved := ih.tail (.connection correct (single_connection.trans connected) step)
        rwa [single_setConnection] at moved
      | deliver connected first short decoded room =>
        have moved := ih.tail (.deliver correct (single_connection.trans connected) first short decoded room)
        rwa [single_setConnection] at moved
      | otherVote vote foreign room =>
        exact ih.tail (.otherVote vote (fun r' member => alone r' member ▸ foreign) room)
      | update first run => exact ih.tail (.update first run)

def standInCluster : ClusterSetup where
  recordCodec := voteRecordCodec
  compact := compact_voteRecordCodec
  wireCodec := voteCodec
  verifyStrict := standInVerify
  sign _ := standInSign (Vector.replicate 32 3)
  replicasList := [⟨7, Vector.replicate 32 3⟩]
  correct := {7}
  keys r member := by
    cases Finset.mem_singleton.mp member
    exact ⟨_, standIn_configured, standInVerify_sign _⟩
  capacity := 128
  task _ := 0
  handler _ := 0

end Single

section Quorums

variable {setup : ClusterSetup} {s : Cluster} {r : ReplicaId} {client : ClientState} {tx : Transaction}
  {alpha beta : Nat} {replicas : HashMap ReplicaId Replica}

theorem card_le_voteCount {voters : Finset ReplicaId} (voted : ∀ r ∈ voters, (client.stamp tx r).isSome) :
    voters.card ≤ client.voteCount tx := by
  rw [ClientState.voteCount]
  cases known : client.tsps.lookup tx with
  | none =>
    have none : voters = ∅ := Finset.eq_empty_of_forall_notMem fun r member => by
      simpa [ClientState.stamp, known] using voted r member
    rw [none, Finset.card_empty]
  | some m =>
    refine Finset.card_le_card fun r member => ?_
    have own := voted r member
    simp only [ClientState.stamp, known, Option.bind_some] at own
    exact Finmap.mem_keys.mpr (Finmap.lookup_isSome.mp own)

theorem ViewInv.voteCount_le (inv : ViewInv replicas client) : client.voteCount tx ≤ replicas.keys.card := by
  rw [ClientState.voteCount]
  cases known : client.tsps.lookup tx with
  | none => exact Nat.zero_le _
  | some m =>
    refine Finset.card_le_card fun r member => ?_
    obtain ⟨ts, own⟩ := Finmap.mem_iff.mp (Finmap.mem_keys.mp member)
    have stamp : client.stamp tx r = some ts := by
      simp only [ClientState.stamp, known, Option.bind_some, own]
    exact Finmap.mem_keys.mpr (inv.voters tx r ts stamp)

theorem ClusterSetup.AtRest.stamp_acked (rest : setup.AtRest s r) (reach : setup.Reach s)
    (correct : r ∈ setup.correct) (acked : tx ∈ s.writes.acked) :
    (s.client.stamp tx r).isSome ↔ isHeartbeat tx = false := by
  obtain ⟨⟨task, t, c, quiet, onlyLogged⟩, bound, ascending⟩ := rest
  obtain ⟨replica, known, accepts⟩ := setup.keys r correct
  exact (reach.delivery r correct).inv.stamp_acked setup.compact known accepts quiet bound ascending onlyLogged acked

theorem ClusterSetup.AtRest.stamp_only_acked {ts : Timestamp} (rest : setup.AtRest s r) (reach : setup.Reach s)
    (correct : r ∈ setup.correct) (alone : (s.process r).tasks.length = 1)
    (stamp : s.client.stamp tx r = some ts) : tx ∈ s.writes.acked ∧ isHeartbeat tx = false := by
  obtain ⟨⟨task, t, c, quiet, _⟩, bound, _⟩ := rest
  obtain ⟨replica, known, accepts⟩ := setup.keys r correct
  exact (reach.delivery r correct).inv.stamp_only_acked setup.compact known accepts quiet bound alone stamp

theorem ClusterSetup.correct_of_notMem_faulty (configured : r ∈ (setup.replicasList.map Replica.id).toFinset)
    (honest : r ∉ setup.faulty) : r ∈ setup.correct := by
  rw [ClusterSetup.faulty, Finset.mem_sdiff, not_and_not_right] at honest
  exact honest configured

/-- At rest an acknowledged transaction has the votes of all but the faulty replicas. -/
theorem ClusterSetup.voteCount_acked (accepted : Accepted setup.replicasList alpha beta)
    (reach : setup.Reach s) (rest : ∀ r ∈ setup.correct, setup.AtRest s r) (acked : tx ∈ s.writes.acked)
    (plain : isHeartbeat tx = false) :
    setup.replicasList.length ≤ s.client.voteCount tx + setup.faulty.card := by
  have voted : ∀ r ∈ (setup.replicasList.map Replica.id).toFinset \ setup.faulty,
      (s.client.stamp tx r).isSome := by
    intro r member
    obtain ⟨configured, honest⟩ := Finset.mem_sdiff.mp member
    have correct := setup.correct_of_notMem_faulty configured honest
    exact ((rest r correct).stamp_acked reach correct acked).mpr plain
  have votes := card_le_voteCount voted
  have left := Finset.le_card_sdiff setup.faulty (setup.replicasList.map Replica.id).toFinset
  rw [List.toFinset_card_of_nodup accepted.distinct, List.length_map] at left
  omega

/-- If all replicas are correct and nobody else writes, the reading client knows what has been
acknowledged and nothing else. -/
theorem ClusterSetup.known_iff_acked (accepted : Accepted setup.replicasList alpha beta)
    (none : setup.faulty = ∅) (reach : setup.Reach s) (rest : ∀ r ∈ setup.correct, setup.AtRest s r)
    (alone : ∀ r ∈ setup.correct, (s.process r).tasks.length = 1) :
    tx ∈ s.client.tsps ↔ tx ∈ s.writes.acked ∧ isHeartbeat tx = false := by
  constructor
  · intro known
    obtain ⟨r, ts, stamp⟩ := reach.viewInv.inhabited tx known
    have configured : r ∈ (setup.replicasList.map Replica.id).toFinset :=
      List.mem_toFinset.mpr (List.mem_map.mpr (mem_initReplicas.mp (reach.viewInv.voters tx r ts stamp)))
    have correct := setup.correct_of_notMem_faulty configured (by simp [none])
    exact (rest r correct).stamp_only_acked reach correct (alone r correct) stamp
  · rintro ⟨acked, plain⟩
    have votes := setup.voteCount_acked accepted reach rest acked plain
    have ratio := accepted.alpha_ge
    have enough := accepted.enough
    rw [none, Finset.card_empty] at votes
    exact mem_tsps_of_voteCount (by omega)

theorem ClusterSetup.voteCount_known (accepted : Accepted setup.replicasList alpha beta)
    (none : setup.faulty = ∅) (reach : setup.Reach s) (rest : ∀ r ∈ setup.correct, setup.AtRest s r)
    (alone : ∀ r ∈ setup.correct, (s.process r).tasks.length = 1) (known : tx ∈ s.client.tsps) :
    s.client.voteCount tx = setup.replicasList.length := by
  obtain ⟨acked, plain⟩ := (setup.known_iff_acked accepted none reach rest alone).mp known
  have votes := setup.voteCount_acked accepted reach rest acked plain
  have most : s.client.voteCount tx ≤ setup.replicas.keys.card := reach.viewInv.voteCount_le
  rw [none, Finset.card_empty] at votes
  rw [card_initReplicas accepted.distinct] at most
  omega

/-- With the votes of all correct replicas a transaction has an interval. -/
theorem ViewInv.interval {replicasList : List Replica} (inv : ViewInv (initPodNetworkClient replicasList).1 client)
    (accepted : Accepted replicasList alpha beta) (votes : replicasList.length ≤ client.voteCount tx + beta)
    (orders : HashOrders) :
    ∃ rmax, maxPossibleTs orders (serviceOf replicasList alpha beta client) tx = some rmax ∧
      minPossibleTs orders (serviceOf replicasList alpha beta client) tx ≤ rmax := by
  have ratio := accepted.alpha_ge
  have enough := accepted.enough
  have quorum : alpha ≤ client.voteCount tx + beta := by omega
  have member : tx ∈ client.tsps := mem_tsps_of_voteCount (by omega)
  have length := length_votesOf orders tx inv
  refine ⟨_, (maxPossibleTs_eq orders inv member ratio).trans (if_pos quorum), ?_⟩
  rw [minPossibleTs_eq orders inv member ratio quorum]
  exact nth_le_nth (by omega) (by omega)

/-- Every acknowledged write is confirmed: when all is delivered, the reading client has enough
votes for an interval of each acknowledged transaction that is not taken for a heartbeat,
whatever up to `beta` other replicas have sent. If all replicas are correct and nobody else
writes, a read returns exactly these transactions, each with the votes of all replicas. -/
theorem acknowledged_writes_are_confirmed (setup : ClusterSetup) (alpha beta : Nat)
    (accepted : Accepted setup.replicasList alpha beta) (few : setup.faulty.card ≤ beta) (s : Cluster)
    (reach : setup.Reach s) (rest : ∀ r ∈ setup.correct, setup.AtRest s r) (orders : HashOrders) :
    (∀ tx ∈ s.writes.acked, isHeartbeat tx = false →
      setup.replicasList.length ≤ s.client.voteCount tx + beta ∧
      ∃ rmax, maxPossibleTs orders (serviceOf setup.replicasList alpha beta s.client) tx = some rmax ∧
        minPossibleTs orders (serviceOf setup.replicasList alpha beta s.client) tx ≤ rmax) ∧
    (setup.faulty = ∅ → (∀ r ∈ setup.correct, (s.process r).tasks.length = 1) →
      ∃ reply, read orders (serviceOf setup.replicasList alpha beta s.client) = some reply ∧
        (∀ tx, (∃ record ∈ reply.t, record.transaction = some tx) ↔
          tx ∈ s.writes.acked ∧ isHeartbeat tx = false) ∧
        ∀ record ∈ reply.t, record.ctx.length = setup.replicasList.length) := by
  have inv := reach.viewInv
  constructor
  · intro tx acked plain
    have votes := setup.voteCount_acked accepted reach rest acked plain
    have most : setup.replicasList.length ≤ s.client.voteCount tx + beta := by omega
    exact ⟨most, inv.interval accepted most orders⟩
  · intro none alone
    have full : ∀ tx ∈ s.client.tsps, s.client.voteCount tx = setup.replicasList.length :=
      fun tx known => setup.voteCount_known accepted none reach rest alone known
    have quorums : ∀ tx ∈ s.client.tsps, alpha ≤ s.client.voteCount tx + beta := by
      intro tx known
      have enough := accepted.enough
      rw [full tx known]
      omega
    obtain ⟨reply, run⟩ :=
      Option.isSome_iff_exists.mp ((inv.read_isSome_iff accepted.alpha_ge orders).mpr quorums)
    refine ⟨reply, run, fun tx => ?_, fun record listed => ?_⟩
    · rw [read_lists_iff run]
      exact setup.known_iff_acked accepted none reach rest alone
    · obtain ⟨tx, named, votes, _⟩ := reply_record inv accepted run listed
      rw [votes, full tx ((read_lists_iff run).mp ⟨record, listed, named⟩)]

/-- One write through one replica. -/
theorem acknowledged_writes_are_confirmed_one_write :
    ∃ s, standInCluster.Reach s ∧ s.writes.acked = [⟨[65]⟩] ∧ standInCluster.faulty = ∅ ∧
      (∀ r ∈ standInCluster.correct, (s.process r).tasks.length = 1) ∧
      ∀ orders, (∀ tx ∈ s.writes.acked, isHeartbeat tx = false →
          1 ≤ s.client.voteCount tx + 0 ∧
          ∃ rmax, maxPossibleTs orders (serviceOf standInCluster.replicasList 1 0 s.client) tx = some rmax ∧
            minPossibleTs orders (serviceOf standInCluster.replicasList 1 0 s.client) tx ≤ rmax) ∧
        (standInCluster.faulty = ∅ → (∀ r ∈ standInCluster.correct, (s.process r).tasks.length = 1) →
          ∃ reply, read orders (serviceOf standInCluster.replicasList 1 0 s.client) = some reply ∧
            (∀ tx, (∃ record ∈ reply.t, record.transaction = some tx) ↔
              tx ∈ s.writes.acked ∧ isHeartbeat tx = false) ∧
            ∀ record ∈ reply.t, record.ctx.length = 1) := by
  obtain ⟨d, task, t, c, reach, quiet, acked, early, drawn, ascending, _, alone⟩ := standIn_delivery
  have own : (Cluster.single 7 d).delivery 7 = d := delivery_single (DeliveryReach.inv reach).same
  have rest : ∀ r ∈ standInCluster.correct, standInCluster.AtRest (.single 7 d) r := by
    intro r correct
    cases Finset.mem_singleton.mp correct
    refine ⟨⟨task, t, c, own.symm ▸ quiet, ?_⟩, ?_, ?_⟩
    · simp [early]
    · rw [single_process, drawn]
      decide
    · rw [single_process]
      exact ascending
  have connections : ∀ r ∈ standInCluster.correct, ((Cluster.single 7 d).process r).tasks.length = 1 := by
    intro r correct
    cases Finset.mem_singleton.mp correct
    rw [single_process, alone]
  have running : standInCluster.Reach (.single 7 d) := ClusterSetup.reach_single rfl reach
  exact ⟨.single 7 d, running, acked, by decide, connections,
    acknowledged_writes_are_confirmed standInCluster 1 0 ⟨by decide, by decide, by decide⟩ (by decide)
      (.single 7 d) running rest⟩

end Quorums

end Podnet
