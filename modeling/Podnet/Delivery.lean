import Podnet.CatchUp
import Podnet.Client.Accounts
import Podnet.Client.Writes
import Podnet.Replica.Intake

namespace Podnet

open Funnel (entriesOf)

section Recorded

variable {recordCodec : Codec VoteRecord} {wireCodec : Codec Vote} {sign : List UInt8 → Signature}
  {verifyStrict : VerifyStrict} {replicasList : List Replica} {replicaId : ReplicaId}
  {replica : Replica} {net : Network} {c : Connection}

/-- The timestamps of a life ascend with its sequence numbers. -/
def Node.Ascending (st : Node) : Prop :=
  ∀ v ∈ st.own, ∀ w ∈ st.own, v.sequenceNumber < w.sequenceNumber → v.timestamp ≤ w.timestamp

theorem NodeReach.sent_own (reach : NodeReach recordCodec sign replicaId Steady net.node)
    {entry : VotingService × Vote} (member : entry ∈ net.node.sent) : entry.2 ∈ net.node.own :=
  reach.persisted.own.mem_iff.mpr (List.mem_append_left _ (List.mem_map_of_mem member))

/-- Where nothing is missing, the account of the replica is that of its votes in order. -/
theorem NetworkInv.account_order
    (inv : NetworkInv recordCodec wireCodec sign verifyStrict replicasList replicaId net)
    (known : (initPodNetworkClient replicasList).1.lookup replicaId = some replica)
    (accepts : ∀ message, verifyStrict replica.pk message (sign message) = true) (quiet : net.Quiet c)
    (bound : net.node.drawn < 2 ^ 64) :
    ∃ order : List Vote, net.client.account replicaId = .of (order.filterMap Vote.entry) ∧
      order.map (fun vote => vote.sequenceNumber.toNat) =
        List.range (net.client.lane replicaId).next.toNat ∧
      ∀ vote ∈ order,
        vote ∈ laneVotes verifyStrict (initPodNetworkClient replicasList).1 replicaId net.processed := by
  obtain ⟨order, fed, numbers, arrived⟩ := (inv.settled known accepts quiet bound).1.1.delivered
  refine ⟨order, ?_, numbers, arrived⟩
  have account : net.client.account replicaId = (net.client.lane replicaId).out.account := rfl
  rw [account, fed, account_foldl]
  rfl

/-- At rest, a client from which no heartbeat was kept has an entry for every transaction
that the replica has voted on, except for those that look like a heartbeat. -/
theorem NetworkInv.recorded
    (inv : NetworkInv recordCodec wireCodec sign verifyStrict replicasList replicaId net)
    (known : (initPodNetworkClient replicasList).1.lookup replicaId = some replica)
    (accepts : ∀ message, verifyStrict replica.pk message (sign message) = true) (quiet : net.Quiet c)
    (bound : net.node.drawn < 2 ^ 64)
    (onlyLogged : ∀ entry ∈ net.node.sent.take c.subscribed, entry.1 ≠ .heartbeat)
    (ascending : net.node.Ascending) {vote : Vote} {tx : Transaction}
    (logged : vote ∈ loggedVotes net.node.sent) (carried : vote.transaction = some tx) :
    (net.client.stamp tx replicaId).isSome ↔ isHeartbeat tx = false := by
  obtain ⟨order, account, numbers, arrived⟩ := inv.account_order known accepts quiet bound
  have settled := (inv.settled known accepts quiet bound).1
  have sent : ∀ v ∈ order, ∃ entry ∈ net.node.sent, entry.2 = v := by
    intro v member
    obtain ⟨entry, inSent, _, same⟩ := (inv.mem_laneVotes known accepts quiet).mp (arrived v member)
    exact ⟨entry, inSent, same⟩
  have stamps : ∀ tx', net.client.stamp tx' replicaId =
      (Account.of (order.filterMap Vote.entry)).stamps tx' := by
    intro tx'
    rw [← account]
    rfl
  constructor
  · intro recorded
    obtain ⟨ts, entry⟩ := Option.isSome_iff_exists.mp recorded
    rw [stamps] at entry
    exact (Account.of_stamps entry).2
  · intro plain
    have inSent := mem_loggedVotes.mp logged
    -- the vote, or one with its number, is in the order
    have small : vote.sequenceNumber.toNat < net.node.drawn :=
      (inv.node.sent_below_iff quiet.idle bound _).mp ⟨_, inSent, rfl⟩
    have passed : vote.sequenceNumber.toNat < (net.client.lane replicaId).next.toNat := by
      by_contra beyond
      obtain ⟨other, seen, same⟩ := inv.all_seen known accepts quiet bound onlyLogged
        (show (net.client.lane replicaId).next.toNat < net.node.drawn by omega)
      exact settled.next_least.1 other seen same
    rw [← List.mem_range, ← numbers] at passed
    obtain ⟨other, inOrder, number⟩ := List.mem_map.mp passed
    obtain ⟨entry, otherSent, rfl⟩ := sent other inOrder
    have distinct := inv.node.sent_distinct quiet.idle bound
    have same : entry = (.logVote, vote) :=
      List.inj_on_of_nodup_map distinct otherSent inSent (UInt64.toNat_inj.mp number)
    subst same
    have inTime : order.Pairwise fun v w => v.timestamp ≤ w.timestamp := by
      have increasing : order.Pairwise fun v w => v.sequenceNumber.toNat < w.sequenceNumber.toNat :=
        List.pairwise_map.mp (numbers ▸ List.pairwise_lt_range)
      refine increasing.imp_of_mem fun {v w} memberV memberW before => ?_
      obtain ⟨first, inSentV, rfl⟩ := sent v memberV
      obtain ⟨second, inSentW, rfl⟩ := sent w memberW
      exact ascending _ (inv.node.sent_own inSentV) _ (inv.node.sent_own inSentW)
        (UInt64.lt_iff_toNat_lt.mpr before)
    have ordered : (order.filterMap Vote.entry).Pairwise fun a b => a.2 ≤ b.2 := by
      refine List.pairwise_filterMap.mpr (inTime.imp fun {v w} le a atV b atW => ?_)
      obtain ⟨_, _, rfl⟩ := Option.map_eq_some_iff.mp atV
      obtain ⟨_, _, rfl⟩ := Option.map_eq_some_iff.mp atW
      exact le
    have member : (tx, vote.timestamp) ∈ order.filterMap Vote.entry :=
      List.mem_filterMap.mpr ⟨vote, inOrder, by simp [Vote.entry, carried]⟩
    rw [stamps]
    exact Account.of_records ordered _ member plain

end Recorded

/-- A client that writes, a replica, and a client that reads from it. -/
structure Delivery where
  writes : Writes
  process : PodNetworkNode
  reader : Network

/-- What the stream of a write task has yielded or will yield. -/
def PodNetworkNode.items (p : PodNetworkNode) (k : Nat) : List WsItem :=
  ((p.tasks[k]?).map WriteTask.items).getD []

/-- What a replica task has sent. -/
def Writes.sent (s : Writes) (i : Nat) : List Transaction := ((s.tasks[i]?).map ReplicaTask.sent).getD []

/-- What a WebSocket can bring to the write task at its other end: the next message that
was sent, or its end. -/
inductive Brings (sent : List Transaction) : List WsItem → List WsItem → Prop
  | nothing {items} : Brings sent items items
  | message {items tx} : (∀ item ∈ items, ¬ item.Stops) → sent[items.length]? = some tx →
      Brings sent items (items ++ [.binary tx.data])
  | stop {items} (item : WsItem) : item.Stops → Brings sent items (items ++ [item])

section Steps

variable (recordCodec : Codec VoteRecord) (wireCodec : Codec Vote) (sign : List UInt8 → Signature)
  (verifyStrict : VerifyStrict) (replicasList : List Replica) (replicaId : ReplicaId) (capacity i k : Nat)

/-- One step of the writing client, of the replica process, or of the reading client and
its connection. The replica task `i` of the writing client is connected to the write task
`k` of the replica, and other clients may be connected to the other write tasks. -/
inductive DeliveryStep : Delivery → Delivery → Prop
  | write {d event writes} : Prompt capacity i d.writes event → WriteStep capacity d.writes event writes →
      DeliveryStep d { d with writes := writes }
  | process {d event p} : Steady d.process.node event → IntakeStep recordCodec sign replicaId d.process event p →
      Brings (d.writes.sent i) (d.process.items k) (p.items k) →
      DeliveryStep d { d with process := p, reader := { d.reader with node := p.node } }
  | read {d net} : net.node = d.reader.node →
      NetworkStep recordCodec wireCodec sign verifyStrict (initPodNetworkClient replicasList).1 replicaId
        d.reader net →
      DeliveryStep d { d with reader := net }

def DeliveryReach : Delivery → Prop :=
  Relation.ReflTransGen (DeliveryStep recordCodec wireCodec sign verifyStrict replicasList replicaId capacity i k)
    ⟨⟨[], []⟩, .initial, .initial replicasList⟩

end Steps

/-- The items of a write task are the beginning of what was sent to it, until they end. -/
structure Linked (sent : List Transaction) (items : List WsItem) : Prop where
  part : submitted items <+: sent
  whole : (∀ item ∈ items, ¬ item.Stops) →
    items.length ≤ sent.length ∧ submitted items = sent.take items.length

section Links

variable {sent sent' : List Transaction} {items items' : List WsItem}

theorem submitted_append_stop {item : WsItem} (stops : item.Stops) :
    submitted (items ++ [item]) = submitted items := by
  induction items with
  | nil => exact submitted_stop stops
  | cons first items ih =>
    cases first with
    | binary data => simp only [List.cons_append, submitted, ih]
    | other => simpa only [List.cons_append, submitted] using ih
    | close | error | ended => rfl

theorem Linked.brings (linked : Linked sent items) (brings : Brings sent items items') : Linked sent items' := by
  cases brings with
  | nothing => exact linked
  | @message tx proper next =>
    have more : submitted (items ++ [.binary tx.data]) = sent.take (items.length + 1) := by
      rw [submitted_append proper, (linked.whole proper).2, List.take_add_one, next]
      rfl
    have inside := (List.getElem?_eq_some_iff.mp next).1
    refine ⟨more ▸ List.take_prefix _ _, fun _ => ?_⟩
    rw [more, List.length_append, List.length_singleton]
    exact ⟨inside, rfl⟩
  | stop item stops =>
    refine ⟨(submitted_append_stop stops).symm ▸ linked.part, fun proper => ?_⟩
    exact absurd stops (proper item (List.mem_append_right _ (List.mem_singleton_self _)))

/-- What is sent later does not change what has arrived. -/
theorem Linked.send (linked : Linked sent items) (grows : sent <+: sent') : Linked sent' items := by
  refine ⟨linked.part.trans grows, fun proper => ?_⟩
  obtain ⟨inside, whole⟩ := linked.whole proper
  obtain ⟨more, rfl⟩ := grows
  refine ⟨inside.trans (by rw [List.length_append]; omega), ?_⟩
  rw [whole, List.take_append_of_le_length inside]

theorem ReplicaTaskStep.sent_grows {capacity : Nat} {acked : List Transaction} {t t' : ReplicaTask}
    (step : ReplicaTaskStep capacity acked t t') : t.sent <+: t'.sent := by
  cases step with
  | connect | receive | lag | stop => exact List.prefix_rfl
  | send => exact List.prefix_append _ _

theorem Writes.sent_set {s : Writes} {i j : Nat} {t t' : ReplicaTask} (known : s.tasks[j]? = some t)
    (grows : t.sent <+: t'.sent) : s.sent i <+: ({ s with tasks := s.tasks.set j t' } : Writes).sent i := by
  by_cases same : j = i
  · subst same
    have inside := (List.getElem?_eq_some_iff.mp known).1
    simp only [Writes.sent, known, List.getElem?_set_self inside, Option.map_some, Option.getD_some]
    exact grows
  · simp only [Writes.sent, List.getElem?_set_ne same]
    exact List.prefix_rfl

theorem WriteStep.sent_grows {capacity i : Nat} {s s' : Writes} {event : WriteEvent}
    (step : WriteStep capacity s event s') : s.sent i <+: s'.sent i := by
  cases step with
  | write => exact List.prefix_rfl
  | spawn =>
    by_cases old : i < s.tasks.length
    · simp only [Writes.sent, List.getElem?_append_left old]
      exact List.prefix_rfl
    · simp only [Writes.sent, List.getElem?_eq_none (not_lt.mp old), Option.map_none, Option.getD_none]
      exact List.nil_prefix
  | resubscribe known _ => exact Writes.sent_set known List.prefix_rfl
  | work known step => exact Writes.sent_set known step.sent_grows

end Links

section Invariant

variable (recordCodec : Codec VoteRecord) (wireCodec : Codec Vote) (sign : List UInt8 → Signature)
  (verifyStrict : VerifyStrict) (replicasList : List Replica) (replicaId : ReplicaId) (capacity i k : Nat)

/-- Every party runs on its own, and the connection between the writing client and the
replica loses nothing. -/
structure DeliveryInv (d : Delivery) : Prop where
  inStep : ∀ t, d.writes.tasks[i]? = some t → InStep capacity d.writes.acked t
  process : IntakeReach recordCodec sign replicaId Steady d.process
  reader : NetworkReach recordCodec wireCodec sign verifyStrict replicaId replicasList d.reader
  same : d.reader.node = d.process.node
  linked : Linked (d.writes.sent i) (d.process.items k)

variable {recordCodec wireCodec sign verifyStrict replicasList replicaId capacity i k} {d d' : Delivery}

theorem DeliveryStep.inv
    (step : DeliveryStep recordCodec wireCodec sign verifyStrict replicasList replicaId capacity i k d d')
    (inv : DeliveryInv recordCodec wireCodec sign verifyStrict replicasList replicaId capacity i k d) :
    DeliveryInv recordCodec wireCodec sign verifyStrict replicasList replicaId capacity i k d' := by
  obtain ⟨inStep, process, reader, same, linked⟩ := inv
  cases step with
  | write prompt step => exact ⟨step.inStep prompt inStep, process, reader, same, linked.send step.sent_grows⟩
  | @process event p steady step brings =>
    refine ⟨inStep, process.next steady step, ?_, rfl, linked.brings brings⟩
    rcases step.nodeStep process.intaken with idle | moved
    · have unchanged : ({ d.reader with node := p.node } : Network) = d.reader := by rw [idle, ← same]
      rw [unchanged]
      exact reader
    · rw [← same] at steady moved
      exact reader.next (.node steady moved)
  | read kept step => exact ⟨inStep, process, reader.next step, kept.trans same, linked⟩

theorem DeliveryReach.inv
    (reach : DeliveryReach recordCodec wireCodec sign verifyStrict replicasList replicaId capacity i k d) :
    DeliveryInv recordCodec wireCodec sign verifyStrict replicasList replicaId capacity i k d := by
  induction reach with
  | refl => exact ⟨by simp, .start, .refl, rfl, List.nil_prefix, fun _ => ⟨Nat.zero_le _, rfl⟩⟩
  | tail _ step ih => exact step.inv ih

end Invariant

/-- The replica task of the writing client has sent everything, its messages have arrived
and have been handled, and the reading client has processed what there is. -/
structure Delivery.Quiet (d : Delivery) (i k : Nat) (task : ReplicaTask) (t : WriteTask) (c : Connection) :
    Prop where
  sender : d.writes.tasks[i]? = some task
  waiting : task.phase = .waiting d.writes.acked.length
  connection : d.process.tasks[k]? = some t
  running : t.running = true
  arrived : t.items.length = task.sent.length
  drained : d.process.Drained t
  reader : d.reader.Quiet c

section Example

variable {recordCodec : Codec VoteRecord} {wireCodec : Codec Vote} {sign : List UInt8 → Signature}
  {verifyStrict : VerifyStrict} {replicasList : List Replica} {replicaId : ReplicaId}
  {tx : Transaction} {ts : Timestamp} {vote : Vote}

/-- The reading client is connected and has the empty history, and one transaction has been
acknowledged and sent to the replica. -/
def Delivery.oneWrite (replicasList : List Replica) (tx : Transaction) (p : PodNetworkNode) : Delivery :=
  ⟨⟨[tx], [⟨.waiting 1, [tx]⟩]⟩, p,
    ⟨p.node, some ⟨0, 0, none, some [], [], []⟩, [], (initPodNetworkClient replicasList).2, []⟩⟩

theorem reach_listening : DeliveryReach recordCodec wireCodec sign verifyStrict replicasList replicaId 128 0 0
    ⟨⟨[], []⟩, .initial,
      ⟨.initial, some ⟨0, 0, none, some [], [], []⟩, [], (initPodNetworkClient replicasList).2, []⟩⟩ := by
  have accepted : DeliveryReach recordCodec wireCodec sign verifyStrict replicasList replicaId 128 0 0
      ⟨⟨[], []⟩, .initial,
        ⟨.initial, some ⟨0, 0, none, none, [], []⟩, [], (initPodNetworkClient replicasList).2, []⟩⟩ :=
    .single (.read rfl (.accept rfl))
  exact accepted.tail (.read rfl (.connection rfl (.mapLog rfl)))

/-- The writing client can run on its own. -/
theorem WriteReach.delivery {capacity i k : Nat} {s : Writes} {p : PodNetworkNode} {net : Network}
    (start : DeliveryReach recordCodec wireCodec sign verifyStrict replicasList replicaId capacity i k
      ⟨⟨[], []⟩, p, net⟩)
    (reach : WriteReach capacity (Prompt capacity i) s) :
    DeliveryReach recordCodec wireCodec sign verifyStrict replicasList replicaId capacity i k ⟨s, p, net⟩ := by
  induction reach with
  | start => exact start
  | next _ prompt step ih => exact ih.tail (.write prompt step)

theorem reach_oneWrite : DeliveryReach recordCodec wireCodec sign verifyStrict replicasList replicaId 128 0 0
    (.oneWrite replicasList tx .initial) := by
  have quiet : ∀ {s : Writes}, Prompt 128 0 s (.work 0) := by
    intro s
    exact ⟨fun again => by simp at again, fun _ again => by simp at again⟩
  have spawned : WriteReach 128 (Prompt 128 0) _ :=
    WriteReach.start.next ⟨fun again => by simp at again, fun _ again => by simp at again⟩ .spawn
  have connected := spawned.next quiet (.work (i := 0) rfl (.connect rfl))
  have subscribed := connected.next
    (by exact ⟨fun _ => rfl, fun _ again => by simp at again⟩) (.resubscribe (i := 0) rfl rfl)
  have acked := subscribed.next
    (by exact ⟨fun again => by simp at again, fun _ _ _ _ _ _ => by simp⟩) (.write tx)
  have received := acked.next quiet (.work (i := 0) rfl (.receive rfl rfl))
  have sent := received.next quiet (.work (i := 0) rfl (.send rfl))
  exact sent.delivery reach_listening

/-- The replica has voted on it. -/
theorem reach_voted (made : vote = signedVote sign replicaId tx.data ts 0) (small : tx.data.length ≤ maxMessageSize) :
    DeliveryReach recordCodec wireCodec sign verifyStrict replicasList replicaId 128 0 0
      (.oneWrite replicasList tx
        ⟨.afterFirst recordCodec vote, [⟨[], none, true, [.binary tx.data]⟩], [], [(0, tx)], [vote], [tx]⟩) := by
  have steady : ∀ node, Steady node .draw ∧ Steady node (.clock ts) ∧ Steady node .work := by
    simp [Steady]
  have next : ∀ {p p' : PodNetworkNode} {event : NodeEvent},
      DeliveryReach recordCodec wireCodec sign verifyStrict replicasList replicaId 128 0 0
        (.oneWrite replicasList tx p) →
      Steady p.node event → IntakeStep recordCodec sign replicaId p event p' →
      Brings [tx] (p.items 0) (p'.items 0) →
      DeliveryReach recordCodec wireCodec sign verifyStrict replicasList replicaId 128 0 0
        (.oneWrite replicasList tx p') :=
    fun reach steady step brings => reach.tail (.process steady step brings)
  have accepted : DeliveryReach recordCodec wireCodec sign verifyStrict replicasList replicaId 128 0 0
      (.oneWrite replicasList tx ⟨.initial, [.spawned], [], [], [], []⟩) :=
    next reach_oneWrite (steady _).2.2 .accept .nothing
  have arrived : DeliveryReach recordCodec wireCodec sign verifyStrict replicasList replicaId 128 0 0
      (.oneWrite replicasList tx
        ⟨.initial, [⟨[.binary tx.data], none, true, [.binary tx.data]⟩], [], [], [], []⟩) :=
    next accepted (steady _).2.2
      (.arrive (p := ⟨.initial, [.spawned], [], [], [], []⟩) (i := 0) (t := .spawned) (.binary tx.data) rfl small)
      (.message (by simp [PodNetworkNode.items, WriteTask.spawned]) rfl)
  have read : DeliveryReach recordCodec wireCodec sign verifyStrict replicasList replicaId 128 0 0
      (.oneWrite replicasList tx
        ⟨.initial, [⟨[], some tx, true, [.binary tx.data]⟩], [], [], [], [tx]⟩) :=
    next arrived (steady _).2.2
      (@IntakeStep.read _ _ _ ⟨.initial, [⟨[.binary tx.data], none, true, [.binary tx.data]⟩], [], [], [], []⟩ 0 _ _ _
        rfl rfl rfl rfl) .nothing
  have handed : DeliveryReach recordCodec wireCodec sign verifyStrict replicasList replicaId 128 0 0
      (.oneWrite replicasList tx
        ⟨.initial, [⟨[], none, true, [.binary tx.data]⟩], [(0, tx)], [], [], [tx]⟩) :=
    next read (steady _).2.2
      (@IntakeStep.send _ _ _ ⟨.initial, [⟨[], some tx, true, [.binary tx.data]⟩], [], [], [], [tx]⟩ 0 _ _ rfl rfl
        (show 0 < 100 by decide)) .nothing
  have drawn : DeliveryReach recordCodec wireCodec sign verifyStrict replicasList replicaId 128 0 0
      (.oneWrite replicasList tx
        ⟨⟨1, .numbered tx 0, .idle, [], [], 1, [], []⟩, [⟨[], none, true, [.binary tx.data]⟩], [], [(0, tx)], [],
          [tx]⟩) :=
    next handed (steady _).1 (.receive rfl rfl) .nothing
  have stamped : DeliveryReach recordCodec wireCodec sign verifyStrict replicasList replicaId 128 0 0
      (.oneWrite replicasList tx
        ⟨⟨1, .stamped tx 0 ts, .idle, [], [], 1, [], []⟩, [⟨[], none, true, [.binary tx.data]⟩], [], [(0, tx)], [],
          [tx]⟩) :=
    next drawn (steady _).2.1 (.node (.readClock ts rfl) (by simp) (by simp)) .nothing
  have signed : DeliveryReach recordCodec wireCodec sign verifyStrict replicasList replicaId 128 0 0
      (.oneWrite replicasList tx
        ⟨⟨1, .appending vote (logEntry recordCodec vote.record), .idle, [], [], 1, [vote], []⟩,
          [⟨[], none, true, [.binary tx.data]⟩], [], [(0, tx)], [vote], [tx]⟩) :=
    next stamped (steady _).2.2 (.node (.sign rfl made) (by simp) (by simp)) .nothing
  have written : DeliveryReach recordCodec wireCodec sign verifyStrict replicasList replicaId 128 0 0
      (.oneWrite replicasList tx
        ⟨⟨1, .appending vote [], .idle, logEntry recordCodec vote.record, [], 1, [vote], []⟩,
          [⟨[], none, true, [.binary tx.data]⟩], [], [(0, tx)], [vote], [tx]⟩) :=
    next signed (steady _).2.2 (.node (.write (congrArg _ (List.append_nil _).symm)) (by simp) (by simp)) .nothing
  exact next written (steady _).2.2 (.node (.broadcast rfl) (by simp) (by simp)) .nothing

/-- The reading client gets the vote as it is broadcast. -/
theorem exists_quiet_delivery (small : tx.data.length ≤ maxMessageSize)
    (short : (wireCodec.encode (signedVote sign replicaId tx.data ts 0)).length ≤ maxMessageSize)
    (configured : replicaId ∈ (initPodNetworkClient replicasList).1) :
    ∃ d task t c, DeliveryReach recordCodec wireCodec sign verifyStrict replicasList replicaId 128 0 0 d ∧
      d.Quiet 0 0 task t c ∧ d.writes.acked = [tx] ∧ c.subscribed = 0 ∧
      d.process.node = .afterFirst recordCodec (signedVote sign replicaId tx.data ts 0) ∧
      updateWithVote verifyStrict (initPodNetworkClient replicasList).1 (signedVote sign replicaId tx.data ts 0)
        (initPodNetworkClient replicasList).2 = .ok d.reader.client ∧ d.process.tasks.length = 1 := by
  have room : ([] : List Vote).length < channelSize := by decide
  have next : ∀ {writes : Writes} {p : PodNetworkNode} {net net' : Network},
      DeliveryReach recordCodec wireCodec sign verifyStrict replicasList replicaId 128 0 0 ⟨writes, p, net⟩ →
      NetworkStep recordCodec wireCodec sign verifyStrict (initPodNetworkClient replicasList).1 replicaId net net' →
      net'.node = net.node →
      DeliveryReach recordCodec wireCodec sign verifyStrict replicasList replicaId 128 0 0 ⟨writes, p, net'⟩ :=
    fun reach step same => reach.tail (.read same step)
  have voted : DeliveryReach recordCodec wireCodec sign verifyStrict replicasList replicaId 128 0 0
      (.oneWrite replicasList tx ⟨.afterFirst recordCodec (signedVote sign replicaId tx.data ts 0),
        [⟨[], none, true, [.binary tx.data]⟩], [], [(0, tx)], [signedVote sign replicaId tx.data ts 0], [tx]⟩) :=
    reach_voted rfl small
  have received := next voted (.connection rfl (.receiveLive rfl rfl)) rfl
  have sent := next received (.connection rfl (.sendLive rfl room)) rfl
  have onWire := next sent (.connection rfl (.forward rfl)) rfl
  have decoded := wireCodec.merge_encode (signedVote sign replicaId tx.data ts 0) (short.trans_lt (by decide))
  have delivered := next onWire (.deliver rfl rfl short decoded room) rfl
  obtain ⟨client, run, _⟩ := updateWithVote_lane verifyStrict (init_keyed replicasList)
    (show (signedVote sign replicaId tx.data ts 0).replicaId ∈ (initPodNetworkClient replicasList).1 from configured)
  have updated := next delivered (.update rfl run) rfl
  exact ⟨_, _, _, _, updated, ⟨rfl, rfl, rfl, rfl, rfl, ⟨rfl, rfl, rfl, fun _ => rfl⟩,
    ⟨⟨rfl, rfl⟩, rfl, ⟨rfl, rfl, rfl, rfl, rfl⟩, rfl⟩⟩, rfl, rfl, rfl, run, rfl⟩

theorem standIn_configured : (initPodNetworkClient [⟨7, Vector.replicate 32 3⟩]).1.lookup 7 =
    some (⟨7, Vector.replicate 32 3⟩ : Replica) := by
  simp [initPodNetworkClient]

/-- One write and its vote, with the stand-in keys. -/
theorem standIn_delivery :
    let key : VerifyingKey := Vector.replicate 32 3
    ∃ d task t c, DeliveryReach voteRecordCodec voteCodec (standInSign key) standInVerify [⟨7, key⟩] 7 128 0 0 d ∧
      d.Quiet 0 0 task t c ∧ d.writes.acked = [⟨[65]⟩] ∧ c.subscribed = 0 ∧ d.process.node.drawn = 1 ∧
      d.process.node.Ascending ∧
      updateWithVote standInVerify (initPodNetworkClient [⟨7, key⟩]).1 (standInVote 7 [65] 5 0)
        (initPodNetworkClient [⟨7, key⟩]).2 = .ok d.reader.client ∧ d.process.tasks.length = 1 := by
  intro key
  have short : (voteCodec.encode (signedVote (standInSign key) 7 [65] 5 0)).length ≤ maxMessageSize := by
    decide +kernel
  obtain ⟨d, task, t, c, reach, quiet, acked, early, node, updated⟩ :
      ∃ d task t c, DeliveryReach voteRecordCodec voteCodec (standInSign key) standInVerify [⟨7, key⟩] 7 128 0 0 d ∧
        d.Quiet 0 0 task t c ∧ d.writes.acked = [⟨[65]⟩] ∧ c.subscribed = 0 ∧
        d.process.node = .afterFirst voteRecordCodec (signedVote (standInSign key) 7 [65] 5 0) ∧
        updateWithVote standInVerify (initPodNetworkClient [⟨7, key⟩]).1
          (signedVote (standInSign key) 7 [65] 5 0) (initPodNetworkClient [⟨7, key⟩]).2 = .ok d.reader.client ∧
        d.process.tasks.length = 1 :=
    exists_quiet_delivery (by decide) short (Finmap.mem_of_lookup_eq_some standIn_configured)
  refine ⟨d, task, t, c, reach, quiet, acked, early, by rw [node]; rfl, ?_, updated⟩
  intro v memberV w memberW _
  rw [node] at memberV memberW
  rw [List.mem_singleton.mp memberV, List.mem_singleton.mp memberW]

end Example

section Quiet

variable {recordCodec : Codec VoteRecord} {wireCodec : Codec Vote} {sign : List UInt8 → Signature}
  {verifyStrict : VerifyStrict} {replicasList : List Replica} {replicaId : ReplicaId} {capacity i k : Nat}
  {replica : Replica} {d : Delivery} {task : ReplicaTask} {t : WriteTask} {c : Connection}

/-- At rest the connection has brought every acknowledged transaction. -/
theorem DeliveryInv.submitted_acked
    (inv : DeliveryInv recordCodec wireCodec sign verifyStrict replicasList replicaId capacity i k d)
    (quiet : d.Quiet i k task t c) : submitted t.items = d.writes.acked := by
  have sent : d.writes.sent i = task.sent := by
    simp only [Writes.sent, quiet.sender, Option.map_some, Option.getD_some]
  have items : d.process.items k = t.items := by
    simp only [PodNetworkNode.items, quiet.connection, Option.map_some, Option.getD_some]
  have all : task.sent = d.writes.acked := by
    have inStep := inv.inStep task quiet.sender
    simp only [InStep, quiet.waiting] at inStep
    rw [inStep.1.got, List.take_length, List.drop_zero]
  have proper : ∀ item ∈ t.items, ¬ item.Stops := by
    have handed := inv.process.intaken.funnel.producers k t.producer (funnel_producer quiet.connection)
    obtain ⟨before, after, whole, _, reading, _⟩ := handed
    obtain ⟨rest, goes⟩ := reading (producer_live.mpr quiet.running)
    have drained : after = [] := rest.trans (quiet.drained.unread quiet.running)
    have items : t.items = before := by rw [drained, List.append_nil] at whole; exact whole
    intro item member stops
    exact goes item (items ▸ member) (stops_iff.mpr stops)
  have linked := inv.linked
  rw [sent, items] at linked
  rw [(linked.whole proper).2, quiet.arrived, List.take_length, all]

/-- At rest every vote of the log service has been broadcast. -/
theorem DeliveryInv.logged_voted
    (inv : DeliveryInv recordCodec wireCodec sign verifyStrict replicasList replicaId capacity i k d)
    (quiet : d.Quiet i k task t c) : loggedVotes d.process.node.sent = d.process.voted := by
  have all := inv.process.logged_steady
  have idle := quiet.reader.idle.1
  rw [inv.same] at idle
  rw [← all, idle]
  exact (List.append_nil _).symm

/-- At rest the votes for the writing client's messages are for what it has acknowledged. -/
theorem DeliveryInv.entries_acked
    (inv : DeliveryInv recordCodec wireCodec sign verifyStrict replicasList replicaId capacity i k d)
    (quiet : d.Quiet i k task t c) :
    (entriesOf k d.process.source).map Vote.transaction = d.writes.acked.map some := by
  rw [(inv.process.intaken.source_entries quiet.connection).2 quiet.drained, inv.submitted_acked quiet]

/-- At rest the votes that have been broadcast are an interleaving of what the connections
have submitted, in which those for the writing client's messages are for all that it has
acknowledged. -/
theorem DeliveryInv.source_acked
    (inv : DeliveryInv recordCodec wireCodec sign verifyStrict replicasList replicaId capacity i k d)
    (quiet : d.Quiet i k task t c) :
    ∃ source, Interleaves d.process (loggedVotes d.process.node.sent) source ∧
      (entriesOf k source).map Vote.transaction = d.writes.acked.map some := by
  refine ⟨d.process.source, ?_, inv.entries_acked quiet⟩
  rw [inv.logged_voted quiet]
  exact inv.process.intaken.interleaves

/-- The reading client has an entry for every acknowledged transaction that is not taken for
a heartbeat, if its connection missed no heartbeat. -/
theorem DeliveryInv.stamp_acked
    (inv : DeliveryInv recordCodec wireCodec sign verifyStrict replicasList replicaId capacity i k d)
    (compact : recordCodec.Compact VoteRecord.size)
    (known : (initPodNetworkClient replicasList).1.lookup replicaId = some replica)
    (accepts : ∀ message, verifyStrict replica.pk message (sign message) = true) (quiet : d.Quiet i k task t c)
    (bound : d.process.node.drawn < 2 ^ 64) (ascending : d.process.node.Ascending)
    (onlyLogged : ∀ entry ∈ d.process.node.sent.take c.subscribed, entry.1 ≠ .heartbeat)
    {tx : Transaction} (acked : tx ∈ d.writes.acked) :
    (d.reader.client.stamp tx replicaId).isSome ↔ isHeartbeat tx = false := by
  obtain ⟨source, interleaves, transactions⟩ := inv.source_acked quiet
  have member : some tx ∈ (entriesOf k source).map Vote.transaction := by
    rw [transactions]
    exact List.mem_map_of_mem acked
  obtain ⟨vote, own, carried⟩ := List.mem_map.mp member
  have inSource : vote ∈ source.map Prod.snd := by
    obtain ⟨entry, kept, same⟩ := List.mem_map.mp own
    exact List.mem_map.mpr ⟨entry, List.mem_of_mem_filter kept, same⟩
  rw [interleaves.all] at inSource
  rw [← inv.same] at bound ascending onlyLogged inSource
  exact (inv.reader.inv compact).recorded known accepts quiet.reader bound onlyLogged ascending inSource carried

/-- From the acknowledgement to the reader: when a prompt replica task has nothing more to
send and the parties are at rest, the replica has voted on every acknowledged transaction,
once for each and in the order of the acknowledgements, all its other votes are for what
other connections have submitted, and a reader whose connection missed no heartbeat has an
entry for every one that is not taken for a heartbeat. -/
theorem acknowledged_writes_are_recorded (recordCodec : Codec VoteRecord) (wireCodec : Codec Vote)
    (sign : List UInt8 → Signature) (verifyStrict : VerifyStrict) (replicasList : List Replica)
    (replicaId : ReplicaId) (capacity i k : Nat) (compact : recordCodec.Compact VoteRecord.size)
    (replica : Replica) (known : (initPodNetworkClient replicasList).1.lookup replicaId = some replica)
    (accepts : ∀ message, verifyStrict replica.pk message (sign message) = true) (d : Delivery)
    (reach : DeliveryReach recordCodec wireCodec sign verifyStrict replicasList replicaId capacity i k d)
    (task : ReplicaTask) (t : WriteTask) (c : Connection) (quiet : d.Quiet i k task t c) :
    (∃ source, Interleaves d.process (loggedVotes d.process.node.sent) source ∧
      (entriesOf k source).map Vote.transaction = d.writes.acked.map some) ∧
    (d.process.node.drawn < 2 ^ 64 → d.process.node.Ascending →
      (∀ entry ∈ d.process.node.sent.take c.subscribed, entry.1 ≠ .heartbeat) →
      ∀ tx ∈ d.writes.acked, ((d.reader.client.stamp tx replicaId).isSome ↔ isHeartbeat tx = false)) :=
  ⟨reach.inv.source_acked quiet, fun bound ascending onlyLogged _ acked =>
    reach.inv.stamp_acked compact known accepts quiet bound ascending onlyLogged acked⟩

/-- One write, which reaches the reading client. -/
theorem acknowledged_writes_are_recorded_one_write :
    let key : VerifyingKey := Vector.replicate 32 3
    ∃ d task t c, DeliveryReach voteRecordCodec voteCodec (standInSign key) standInVerify [⟨7, key⟩] 7 128 0 0 d ∧
      d.Quiet 0 0 task t c ∧ d.writes.acked = [⟨[65]⟩] ∧
      d.process.node.drawn = 1 ∧ d.process.node.Ascending ∧ c.subscribed = 0 ∧
      (∃ source, Interleaves d.process (loggedVotes d.process.node.sent) source ∧
        (entriesOf 0 source).map Vote.transaction = d.writes.acked.map some) ∧
      (d.process.node.drawn < 2 ^ 64 → d.process.node.Ascending →
        (∀ entry ∈ d.process.node.sent.take c.subscribed, entry.1 ≠ .heartbeat) →
        ∀ tx ∈ d.writes.acked, ((d.reader.client.stamp tx 7).isSome ↔ isHeartbeat tx = false)) := by
  intro key
  obtain ⟨d, task, t, c, reach, quiet, acked, early, drawn, ascending, _⟩ := standIn_delivery
  exact ⟨d, task, t, c, reach, quiet, acked, drawn, ascending, early,
    acknowledged_writes_are_recorded voteRecordCodec voteCodec (standInSign key) standInVerify [⟨7, key⟩] 7 128 0 0
      compact_voteRecordCodec ⟨7, key⟩ standIn_configured (standInVerify_sign key) d reach task t c quiet⟩

end Quiet

end Podnet
