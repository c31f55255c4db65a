import Podnet.Broadcast
import Podnet.Replica.Persistence

namespace Podnet

open Framing

/-- The catch-up task of a connection, with the records it has read. -/
inductive CatchUpTask where
  | unmapped
  | reading (it : MmapLogIterator) (read : List VoteRecord)
  | finished (mmap : List UInt8) (read : List VoteRecord)

/-- One client connection on the side of the replica: where it subscribed, where its
broadcast receiver stands, the vote that the funnel is handing on, the votes that it
has handed on, whether it has stopped, and the catch-up task. -/
structure Subscriber where
  subscribed : Nat
  position : Nat
  sending : Option Vote
  passed : List Vote
  stopped : Bool
  catchUp : CatchUpTask

/-- The connection at `vote_receiver.resubscribe()`. -/
def Subscriber.accepted (sent : List (VotingService × Vote)) : Subscriber :=
  ⟨Broadcast.subscribe sent, Broadcast.subscribe sent, none, [], false, .unmapped⟩

/-- The votes that the funnel has taken from its receiver to hand them on. -/
def Subscriber.passedOn (c : Subscriber) : List Vote := c.passed ++ c.sending.toList

section Steps

variable (capacity : Nat) (recordCodec : Codec VoteRecord) (sign : List UInt8 → Signature)
  (replicaId : ReplicaId)

/-- The records that the catch-up task gets to see: those of the mapped bytes, and
before the mapping those of the file. -/
def Subscriber.snapshotRecords (file : List UInt8) (c : Subscriber) : List VoteRecord :=
  match c.catchUp with
  | .unmapped => historyRecords recordCodec file
  | .reading it _ => historyRecords recordCodec it.mmap
  | .finished mmap _ => historyRecords recordCodec mmap

/-- One step of a task of the connection. The funnel stops when its receiver lags or
is closed, or when nobody takes its votes any more. -/
inductive SubscriberStep (node : Node) : Subscriber → Subscriber → Prop
  | mapLog {c} (fileSize : Nat) : c.catchUp = .unmapped → fileSize ≤ node.file.length →
      SubscriberStep node c
        { c with catchUp := .reading (getReplicaLogIterator fileSize node.file) [] }
  | readRecord {c it it' read record} : c.catchUp = .reading it read →
      it.next recordCodec = (some (.ok record), it') →
      SubscriberStep node c { c with catchUp := .reading it' (read ++ [record]) }
  | readEnd {c it read} : c.catchUp = .reading it read →
      (∀ record, (it.next recordCodec).1 ≠ some (.ok record)) →
      SubscriberStep node c { c with catchUp := .finished it.mmap read }
  | receive {c service vote position} : c.stopped = false → c.sending = none →
      Broadcast.recv capacity node.sent c.position = (.value (service, vote), position) →
      SubscriberStep node c { c with position := position, sending := some vote }
  | pass {c vote} : c.stopped = false → c.sending = some vote →
      SubscriberStep node c { c with sending := none, passed := c.passed ++ [vote] }
  | lag {c missed position} : c.stopped = false → c.sending = none →
      Broadcast.recv capacity node.sent c.position = (.lagged missed, position) →
      SubscriberStep node c { c with position := position, stopped := true }
  | stop {c} : SubscriberStep node c { c with stopped := true }

/-- A replica and one of its connections, which does not survive the process. -/
structure Serving where
  node : Node
  subscriber : Option Subscriber

inductive ServingStep : Serving → Serving → Prop
  | node {s event node} : event ≠ .restart → Orderly s.node event →
      NodeStep recordCodec sign replicaId s.node event node → ServingStep s { s with node := node }
  | restart {s} : Orderly s.node .restart → ServingStep s ⟨s.node.restart, none⟩
  | accept {s} : ServingStep s { s with subscriber := some (.accepted s.node.sent) }
  | subscriber {s c c'} : s.subscriber = some c → SubscriberStep capacity recordCodec s.node c c' →
      ServingStep s { s with subscriber := some c' }

inductive ServingReach : Serving → Prop
  | start : ServingReach ⟨.initial, none⟩
  | step {s s'} : ServingReach s → ServingStep capacity recordCodec sign replicaId s s' → ServingReach s'

end Steps

section CatchUp

variable {T : Type} {codec : Codec T} {it it' : MmapLogIterator} {entries read : List T}

/-- An iterator that has read some of the records in front of a torn one. -/
def ReadsOn (codec : Codec T) (entries read : List T) (it : MmapLogIterator) : Prop :=
  ∃ rest torn payload, entries = read ++ rest ∧
    it.mmap.drop it.position = records codec rest ++ torn ∧
    (payload : List UInt8).length < 2 ^ 32 ∧ torn <+: frame payload ∧ torn.length < (frame payload).length

theorem ReadsOn.next {entry : T} (readsOn : ReadsOn codec entries read it)
    (short : ∀ entry ∈ entries, (codec.encode entry).length < 2 ^ 32)
    (step : it.next codec = (some (.ok entry), it')) :
    ReadsOn codec entries (read ++ [entry]) it' ∧ it'.mmap = it.mmap := by
  obtain ⟨rest, torn, payload, parts, left, shortPayload, part, proper⟩ := readsOn
  cases rest with
  | nil =>
    rw [records, List.map_nil, List.flatten_nil, List.nil_append] at left
    rcases next_torn codec shortPayload (left ▸ part) (left ▸ proper) with stop | stop | stop <;>
      simp [stop] at step
  | cons first rest =>
    rw [records, List.map_cons, List.flatten_cons, List.append_assoc] at left
    rw [next_logEntry (short first (by simp [parts])) left] at step
    simp only [Prod.mk.injEq, Option.some.injEq, Except.ok.injEq] at step
    obtain ⟨rfl, rfl⟩ := step
    refine ⟨⟨rest, torn, payload, ?_, drop_logEntry left, shortPayload, part, proper⟩, rfl⟩
    rw [parts, List.append_assoc, List.singleton_append]

theorem ReadsOn.stop (readsOn : ReadsOn codec entries read it)
    (short : ∀ entry ∈ entries, (codec.encode entry).length < 2 ^ 32)
    (nothing : ∀ entry, (it.next codec).1 ≠ some (.ok entry)) : read = entries := by
  obtain ⟨rest, torn, payload, parts, left, _⟩ := readsOn
  cases rest with
  | nil => rw [parts, List.append_nil]
  | cons first rest =>
    rw [records, List.map_cons, List.flatten_cons, List.append_assoc] at left
    rw [next_logEntry (short first (by simp [parts])) left] at nothing
    exact absurd rfl (nothing first)

end CatchUp

section Invariant

variable {capacity : Nat} {recordCodec : Codec VoteRecord} {sign : List UInt8 → Signature}
  {replicaId : ReplicaId} {node node' : Node} {event : NodeEvent} {c c' : Subscriber} {past : List Vote}

/-- The funnel has received everything since the subscription up to where it stands,
until it stops. -/
structure Funnelled (node : Node) (c : Subscriber) : Prop where
  early : c.subscribed ≤ node.sent.length
  live : c.stopped = false → ∃ got, Broadcast.Complete node.sent c.subscribed c.position got ∧
    got.map Prod.snd = c.passedOn
  segment : c.passedOn <+: (node.sent.drop c.subscribed).map Prod.snd

/-- The catch-up task reads every vote that was logged before the subscription. -/
def CaughtUp (recordCodec : Codec VoteRecord) (node : Node) (c : Subscriber) : Prop :=
  match c.catchUp with
  | .unmapped => True
  | .reading it read => ∃ entries, historyRecords recordCodec it.mmap = entries ∧
    (∀ entry ∈ entries, (recordCodec.encode entry).length < 2 ^ 32) ∧
    ReadsOn recordCodec entries read it ∧
    ∀ vote ∈ loggedVotes (node.sent.take c.subscribed), vote.record ∈ entries
  | .finished mmap read => read = historyRecords recordCodec mmap ∧
    ∀ vote ∈ loggedVotes (node.sent.take c.subscribed), vote.record ∈ read

theorem Funnelled.accepted (node : Node) : Funnelled node (.accepted node.sent) := by
  refine ⟨le_rfl, fun _ => ⟨[], .subscribe node.sent, rfl⟩, ?_⟩
  exact List.nil_prefix

theorem Funnelled.node_step (funnelled : Funnelled node c) (grows : node.sent <+: node'.sent) :
    Funnelled node' c := by
  refine ⟨funnelled.early.trans grows.length_le, fun running => ?_, ?_⟩
  · obtain ⟨got, complete, same⟩ := funnelled.live running
    exact ⟨got, complete.send grows, same⟩
  · exact funnelled.segment.trans ((grows.drop _).map _)

/-- One step of the funnel. Receiving takes exactly the next vote, and a receiver that
lags ends it. -/
theorem SubscriberStep.funnelled (step : SubscriberStep capacity recordCodec node c c')
    (funnelled : Funnelled node c) : Funnelled node c' := by
  obtain ⟨early, live, segment⟩ := funnelled
  cases step with
  | mapLog _ _ _ => exact ⟨early, live, segment⟩
  | readRecord _ _ => exact ⟨early, live, segment⟩
  | readEnd _ _ => exact ⟨early, live, segment⟩
  | @receive service vote position running free received =>
    obtain ⟨got, complete, same⟩ := live running
    obtain ⟨found, next, _⟩ := Broadcast.recv_value received
    subst next
    have complete' := complete.receive found
    have handed : (got ++ [(service, vote)]).map Prod.snd =
        Subscriber.passedOn { c with position := c.position + 1, sending := some vote } := by
      rw [List.map_append, same]
      simp [Subscriber.passedOn, free]
    refine ⟨early, fun _ => ⟨_, complete', handed⟩, ?_⟩
    rw [← handed]
    exact complete'.prefix_drop.map _
  | @pass vote running full =>
    have same : Subscriber.passedOn { c with sending := none, passed := c.passed ++ [vote] } =
        c.passedOn := by
      simp [Subscriber.passedOn, full]
    refine ⟨early, fun _ => ?_, same ▸ segment⟩
    obtain ⟨got, complete, handed⟩ := live running
    exact ⟨got, complete, handed.trans same.symm⟩
  | lag _ _ _ => exact ⟨early, fun running => by simp at running, segment⟩
  | stop => exact ⟨early, fun running => by simp at running, segment⟩

theorem CaughtUp.node_step (caughtUp : CaughtUp recordCodec node c) (early : c.subscribed ≤ node.sent.length)
    (grows : node.sent <+: node'.sent) : CaughtUp recordCodec node' c := by
  obtain ⟨more, sent⟩ := grows
  have same : node'.sent.take c.subscribed = node.sent.take c.subscribed := by
    rw [← sent, List.take_append_of_le_length early]
  unfold CaughtUp at caughtUp ⊢
  rw [same]
  exact caughtUp

/-- Mapping the log at any moment after the subscription finds every vote that was
broadcast before it. -/
theorem PersistedAfter.mapped (persisted : PersistedAfter recordCodec sign replicaId past node)
    (compact : recordCodec.Compact VoteRecord.size) (subscribed fileSize : Nat) :
    (∀ entry ∈ historyRecords recordCodec node.file, (recordCodec.encode entry).length < 2 ^ 32) ∧
    ReadsOn recordCodec (historyRecords recordCodec node.file) []
      (getReplicaLogIterator fileSize node.file) ∧
    ∀ vote ∈ loggedVotes (node.sent.take subscribed),
      vote.record ∈ historyRecords recordCodec node.file := by
  obtain ⟨last, torn, payload, pending, file, short, part, proper⟩ := persisted.layout compact
  have signed := persisted.votes_logged pending
  have yields : historyRecords recordCodec node.file =
      (past ++ loggedVotes node.sent ++ last).map Vote.record := by
    rw [file]
    exact historyRecords_logBytes compact signed short part proper
  rw [yields]
  refine ⟨?_, ⟨_, torn, payload, rfl, ?_, short, part, proper⟩, ?_⟩
  · intro entry member
    obtain ⟨vote, inLog, rfl⟩ := List.mem_map.mp member
    exact (signed vote inLog).short compact
  · rw [getReplicaLogIterator, List.drop_zero, file, logBytes_eq]
  · intro vote member
    refine List.mem_map_of_mem (List.mem_append_left _ (List.mem_append_right _ ?_))
    rw [← List.take_append_drop subscribed node.sent, loggedVotes_append]
    exact List.mem_append_left _ member

theorem SubscriberStep.caughtUp (step : SubscriberStep capacity recordCodec node c c')
    (persisted : PersistedAfter recordCodec sign replicaId past node)
    (compact : recordCodec.Compact VoteRecord.size) (caughtUp : CaughtUp recordCodec node c) :
    CaughtUp recordCodec node c' := by
  cases step with
  | mapLog fileSize _ _ =>
    obtain ⟨short, readsOn, logged⟩ := persisted.mapped compact c.subscribed fileSize
    exact ⟨_, rfl, short, readsOn, logged⟩
  | readRecord phase read =>
    simp only [CaughtUp, phase] at caughtUp
    obtain ⟨entries, yields, short, readsOn, logged⟩ := caughtUp
    obtain ⟨readsOn', same⟩ := readsOn.next short read
    exact ⟨entries, same ▸ yields, short, readsOn', logged⟩
  | readEnd phase nothing =>
    simp only [CaughtUp, phase] at caughtUp
    obtain ⟨entries, yields, short, readsOn, logged⟩ := caughtUp
    have all := readsOn.stop short nothing
    exact ⟨all.trans yields.symm, all ▸ logged⟩
  | receive _ _ _ => exact caughtUp
  | pass _ _ => exact caughtUp
  | lag _ _ _ => exact caughtUp
  | stop => exact caughtUp

/-- What holds of a replica and its connection in every state. -/
structure Served (recordCodec : Codec VoteRecord) (sign : List UInt8 → Signature)
    (replicaId : ReplicaId) (s : Serving) : Prop where
  persisted : ∃ past, PersistedAfter recordCodec sign replicaId past s.node
  funnelled : ∀ c, s.subscriber = some c → Funnelled s.node c
  caughtUp : ∀ c, s.subscriber = some c → CaughtUp recordCodec s.node c

theorem ServingStep.served {s s' : Serving} (step : ServingStep capacity recordCodec sign replicaId s s')
    (compact : recordCodec.Compact VoteRecord.size) (served : Served recordCodec sign replicaId s) :
    Served recordCodec sign replicaId s' := by
  obtain ⟨⟨past, persisted⟩, funnelled, caughtUp⟩ := served
  cases step with
  | node running orderly step =>
    have steady : Steady s.node _ := ⟨running, orderly.1⟩
    have grows := step.sent_prefix steady
    refine ⟨⟨past, persisted.step steady step⟩, ?_, ?_⟩
    · exact fun c connected => (funnelled c connected).node_step grows
    · exact fun c connected => (caughtUp c connected).node_step (funnelled c connected).early grows
  | restart orderly =>
    refine ⟨⟨_, persisted.restart (orderly.2 rfl)⟩, ?_, ?_⟩
    · intro c connected
      simp at connected
    · intro c connected
      simp at connected
  | accept =>
    refine ⟨⟨past, persisted⟩, ?_, ?_⟩
    · intro c connected
      cases Option.some.inj connected
      exact .accepted s.node
    · intro c connected
      cases Option.some.inj connected
      exact trivial
  | @subscriber c c' connected step =>
    refine ⟨⟨past, persisted⟩, ?_, ?_⟩
    · intro other same
      cases Option.some.inj same
      exact step.funnelled (funnelled c connected)
    · intro other same
      cases Option.some.inj same
      exact step.caughtUp persisted compact (caughtUp c connected)

theorem ServingReach.served {s : Serving} (reach : ServingReach capacity recordCodec sign replicaId s)
    (compact : recordCodec.Compact VoteRecord.size) : Served recordCodec sign replicaId s := by
  induction reach with
  | start =>
    exact ⟨⟨[], .initial⟩, fun c connected => by simp at connected, fun c connected => by simp at connected⟩
  | step _ step ih => exact step.served compact ih

/-- A receiver that has fallen behind the channel cannot go on: nothing more is handed
on, and the next receive stops the funnel. -/
theorem SubscriberStep.lagging (step : SubscriberStep capacity recordCodec node c c')
    (behind : capacity < node.sent.length - c.position) :
    c'.passedOn = c.passedOn ∧ (c'.position ≠ c.position → c'.stopped = true) := by
  cases step with
  | mapLog _ _ _ => exact ⟨rfl, fun moved => absurd rfl moved⟩
  | readRecord _ _ => exact ⟨rfl, fun moved => absurd rfl moved⟩
  | readEnd _ _ => exact ⟨rfl, fun moved => absurd rfl moved⟩
  | receive _ _ received => simp [Broadcast.recv_behind behind] at received
  | pass _ full => exact ⟨by simp [Subscriber.passedOn, full], fun moved => absurd rfl moved⟩
  | lag _ _ _ => exact ⟨rfl, fun _ => rfl⟩
  | stop => exact ⟨rfl, fun _ => rfl⟩

/-- A whole iteration of the log service. -/
theorem ServingReach.logVote {s : Serving} (reach : ServingReach capacity recordCodec sign replicaId s)
    (idle : s.node.log = .idle) (tx : Transaction) (small : tx.data.length ≤ maxMessageSize)
    (ts : Timestamp) (vote : Vote) (signed : vote = signedVote sign replicaId tx.data ts s.node.nextsn) :
    ServingReach capacity recordCodec sign replicaId
      { s with node :=
        { s.node.fetchAdd with
          log := .idle
          file := s.node.file ++ logEntry recordCodec vote.record
          sent := s.node.sent ++ [(.logVote, vote)]
          own := s.node.own ++ [vote] } } := by
  have numbered := reach.step (.node (by simp) ⟨by simp, by simp⟩ (.receive tx idle small))
  have stamped := numbered.step (.node (by simp) ⟨by simp, by simp⟩ (.readClock ts rfl))
  have made := stamped.step (.node (by simp) ⟨by simp, by simp⟩ (.sign rfl signed))
  have written := made.step (.node (by simp) ⟨by simp, by simp⟩ (.write (by rw [List.append_nil])))
  exact written.step (.node (by simp) ⟨by simp, by simp⟩ (.broadcast rfl))

/-- A connection that has mapped the empty log and receives nothing while votes are
logged. -/
theorem silent_reach (capacity : Nat) (recordCodec : Codec VoteRecord) (sign : List UInt8 → Signature)
    (replicaId : ReplicaId) (n : Nat) :
    ∃ node, ServingReach capacity recordCodec sign replicaId
        ⟨node, some ⟨0, 0, none, [], false, .reading (getReplicaLogIterator 0 []) []⟩⟩ ∧
      node.log = .idle ∧ node.nextsn = UInt64.ofNat n ∧
      node.sent = (List.range n).map fun i =>
        (.logVote, signedVote sign replicaId [65] 5 (UInt64.ofNat i)) := by
  induction n with
  | zero =>
    have base : ServingReach capacity recordCodec sign replicaId ⟨.initial, none⟩ := .start
    have mapped := base.step .accept |>.step (.subscriber rfl (.mapLog 0 rfl (Nat.zero_le _)))
    exact ⟨_, mapped, rfl, rfl, rfl⟩
  | succ n ih =>
    obtain ⟨node, reach, idle, number, sent⟩ := ih
    have logged := reach.logVote idle ⟨[65]⟩ (by decide) 5 _ rfl
    refine ⟨_, logged, rfl, ?_, ?_⟩
    · rw [Node.fetchAdd, number, UInt64.ofNat_add]
      rfl
    · rw [sent, number, List.range_succ, List.map_append, List.map_singleton]

/-- A logged vote is in the snapshot of the catch-up task or comes through the funnel:
the log is appended before the broadcast, and the subscription precedes the mapping.
Only a receiver that the channel has overrun may miss it, and that ends the funnel. -/
theorem no_hole_for_logged_votes (capacity : Nat) (recordCodec : Codec VoteRecord)
    (compact : recordCodec.Compact VoteRecord.size) (sign : List UInt8 → Signature)
    (replicaId : ReplicaId) (s : Serving) (c : Subscriber)
    (reach : ServingReach capacity recordCodec sign replicaId s) (connected : s.subscriber = some c) :
    (∀ vote, (.logVote, vote) ∈ s.node.sent →
      vote.record ∈ c.snapshotRecords recordCodec s.node.file ∨ vote ∈ c.passedOn ∨
        (.logVote, vote) ∈ Broadcast.kept capacity s.node.sent c.position ∨
        capacity < s.node.sent.length - c.position ∨ c.stopped = true) ∧
    c.passedOn <+: (s.node.sent.drop c.subscribed).map Prod.snd ∧
    (∀ mmap read, c.catchUp = .finished mmap read → read = historyRecords recordCodec mmap) ∧
    (capacity < s.node.sent.length - c.position →
      (∃ missed next, Broadcast.recv capacity s.node.sent c.position = (.lagged missed, next)) ∧
      ∀ c', SubscriberStep capacity recordCodec s.node c c' →
        c'.passedOn = c.passedOn ∧ (c'.position ≠ c.position → c'.stopped = true)) := by
  have served := reach.served compact
  obtain ⟨past, persisted⟩ := served.persisted
  have funnelled := served.funnelled c connected
  have caughtUp := served.caughtUp c connected
  refine ⟨fun vote broadcast => ?_, funnelled.segment, ?_, fun behind =>
    ⟨⟨_, _, Broadcast.recv_behind behind⟩, fun c' step => step.lagging behind⟩⟩
  · rw [← List.take_append_drop c.subscribed s.node.sent, List.mem_append] at broadcast
    rcases broadcast with before | after
    · left
      have logged := mem_loggedVotes.mpr before
      unfold Subscriber.snapshotRecords
      cases phase : c.catchUp with
      | unmapped => exact (persisted.mapped compact c.subscribed 0).2.2 vote logged
      | reading it read =>
        simp only [CaughtUp, phase] at caughtUp
        obtain ⟨entries, yields, _, _, inside⟩ := caughtUp
        simp only [yields]
        exact inside vote logged
      | finished mmap read =>
        simp only [CaughtUp, phase] at caughtUp
        simp only [← caughtUp.1]
        exact caughtUp.2 vote logged
    · cases running : c.stopped with
      | true => exact Or.inr (Or.inr (Or.inr (Or.inr rfl)))
      | false =>
        obtain ⟨got, complete, handed⟩ := funnelled.live running
        rcases complete.mem after with received | waiting
        · exact Or.inr (Or.inl (handed ▸ List.mem_map_of_mem received))
        · by_cases behind : capacity < s.node.sent.length - c.position
          · exact Or.inr (Or.inr (Or.inr (Or.inl behind)))
          · have current := Broadcast.kept_current (Nat.not_lt.mp behind)
            exact Or.inr (Or.inr (Or.inl (current ▸ waiting)))
  · intro mmap read phase
    simp only [CaughtUp, phase] at caughtUp
    exact caughtUp.1

/-- One vote before the connection, one between its mapping and its first receive. -/
theorem no_hole_for_logged_votes_late :
    let key : VerifyingKey := Vector.replicate 32 3
    ∃ s c, ServingReach 128 voteRecordCodec (standInSign key) 7 s ∧ s.subscriber = some c ∧
      s.node.sent.length = 2 ∧ c.subscribed = 1 ∧ c.stopped = false ∧
      (∀ vote, (.logVote, vote) ∈ s.node.sent →
        vote.record ∈ c.snapshotRecords voteRecordCodec s.node.file ∨ vote ∈ c.passedOn ∨
          (.logVote, vote) ∈ Broadcast.kept 128 s.node.sent c.position ∨
          128 < s.node.sent.length - c.position ∨ c.stopped = true) ∧
      c.passedOn <+: (s.node.sent.drop c.subscribed).map Prod.snd ∧
      (∀ mmap read, c.catchUp = .finished mmap read → read = historyRecords voteRecordCodec mmap) ∧
      (128 < s.node.sent.length - c.position →
        (∃ missed next, Broadcast.recv 128 s.node.sent c.position = (.lagged missed, next)) ∧
        ∀ c', SubscriberStep 128 voteRecordCodec s.node c c' →
          c'.passedOn = c.passedOn ∧ (c'.position ≠ c.position → c'.stopped = true)) := by
  intro key
  have base : ServingReach 128 voteRecordCodec (standInSign key) 7 ⟨.initial, none⟩ := .start
  have first := base.logVote rfl ⟨[65]⟩ (by decide) 5 _ rfl
  have accepted := first.step .accept
  have mapped := accepted.step (.subscriber rfl (.mapLog 0 rfl (Nat.zero_le _)))
  have second := mapped.logVote rfl ⟨[66]⟩ (by decide) 6 _ rfl
  exact ⟨_, _, second, rfl, rfl, rfl, rfl,
    no_hole_for_logged_votes 128 voteRecordCodec compact_voteRecordCodec (standInSign key) 7 _ _ second rfl⟩

/-- The first of 129 votes is neither in the snapshot that was mapped before it nor
passed on, and the channel of 128 places has dropped it, while the funnel still runs. -/
theorem overrun_vote_nowhere :
    let key : VerifyingKey := Vector.replicate 32 3
    ∃ s c vote, ServingReach 128 voteRecordCodec (standInSign key) 7 s ∧ s.subscriber = some c ∧
      (.logVote, vote) ∈ s.node.sent ∧
      ¬ (vote.record ∈ c.snapshotRecords voteRecordCodec s.node.file ∨ vote ∈ c.passedOn ∨
        (.logVote, vote) ∈ Broadcast.kept 128 s.node.sent c.position ∨ c.stopped = true) := by
  intro key
  obtain ⟨node, reach, _, _, sent⟩ := silent_reach 128 voteRecordCodec (standInSign key) 7 129
  have first : (VotingService.logVote, signedVote (standInSign key) 7 [65] 5 (UInt64.ofNat 0)) ∈ node.sent := by
    rw [sent]
    exact List.mem_map_of_mem (f := fun i =>
      (VotingService.logVote, signedVote (standInSign key) 7 [65] 5 (UInt64.ofNat i))) (List.mem_range.mpr (by omega))
  have size : node.sent.length = 129 := by rw [sent, List.length_map, List.length_range]
  refine ⟨_, _, _, reach, rfl, first, ?_⟩
  have dropped : (VotingService.logVote, signedVote (standInSign key) 7 [65] 5 (UInt64.ofNat 0)) ∉
      Broadcast.kept 128 node.sent 0 := by
    rw [Broadcast.kept_behind (by omega), size, sent, ← List.map_drop]
    intro member
    obtain ⟨i, later, same⟩ := List.mem_map.mp member
    have numbers := congrArg (fun entry => entry.2.sequenceNumber.toNat) same
    rw [List.mem_drop_iff_getElem] at later
    obtain ⟨k, bound, rfl⟩ := later
    simp [signedVote] at numbers bound
    omega
  rintro (shown | passed | waiting | stopped)
  · simp [Subscriber.snapshotRecords, getReplicaLogIterator, historyRecords, catchUpRecords,
      MmapLogIterator.next] at shown
  · simp [Subscriber.passedOn] at passed
  · exact dropped waiting
  · simp at stopped

end Invariant

end Podnet
